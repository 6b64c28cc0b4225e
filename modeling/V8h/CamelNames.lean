import V8h.CamelCase
/-!
# CamelNames — no two functions get one name

The methods a script sees have the names `underline_to_camel` makes of those in the C++ source.  Where these have no
capitals, and one underline before each further word, which begins with a small letter, the name can be read back
(`snakeCase_camelCase`), so two functions never get the same one (`names_differ`).
-/
namespace V8h

/-- A letter from `A` to `Z`. -/
def isCapital (c : UInt8) : Bool := 65 ≤ c ∧ c ≤ 90

/-- A letter from `a` to `z`. -/
def isSmall (c : UInt8) : Bool := 97 ≤ c ∧ c ≤ 122

/-- The name that is read back: each capital is a small letter with an underline before it. -/
def snakeCase (name : List UInt8) : List UInt8 :=
  name.flatMap fun c => if isCapital c then [underline, c + 32] else [c]

/-- No capitals, and a small letter after each underline.  `after` is whether an underline comes before. -/
def IsSnake : Bool → List UInt8 → Prop
  | after, []        => after = false
  | after, c :: name =>
    if c = underline then after = false ∧ IsSnake true name
    else isCapital c = false ∧ (after = true → isSmall c = true) ∧ IsSnake false name

instance decidableIsSnake : ∀ (after : Bool) (name : List UInt8), Decidable (IsSnake after name)
  | after, []        => inferInstanceAs (Decidable (after = false))
  | after, c :: name =>
    have := decidableIsSnake true name
    have := decidableIsSnake false name
    inferInstanceAs (Decidable (if c = underline then after = false ∧ IsSnake true name
      else isCapital c = false ∧ (after = true → isSmall c = true) ∧ IsSnake false name))

/-- A function's name: underlines, and a name without one before it. -/
def IsFunctionName (name : List UInt8) : Prop := 0 ∉ name ∧ IsSnake false (name.dropWhile (· = underline))

instance (name : List UInt8) : Decidable (IsFunctionName name) := inferInstanceAs (Decidable (_ ∧ _))

variable {c : UInt8} {name : List UInt8}

theorem snakeCase_append (name name' : List UInt8) : snakeCase (name ++ name') = snakeCase name ++ snakeCase name' :=
  List.flatMap_append

theorem snakeCase_cons (hc : isCapital c = false) (name : List UInt8) :
    snakeCase (c :: name) = c :: snakeCase name := by
  unfold snakeCase
  rw [List.flatMap_cons, hc]
  rfl

/-- A small letter made a capital is read back with its underline. -/
theorem snakeCase_capital (hc : isSmall c = true) (name : List UInt8) :
    snakeCase (capital c :: name) = underline :: c :: snakeCase name := by
  have hall : ∀ d : Fin 256, isSmall (UInt8.ofNat d) = true →
      isCapital (capital (UInt8.ofNat d)) = true ∧ capital (UInt8.ofNat d) + 32 = UInt8.ofNat d := by decide +kernel
  have hd := hall ⟨c.toNat, c.toNat_lt⟩
  simp only [UInt8.ofNat_toNat] at hd
  obtain ⟨hcapital, hback⟩ := hd hc
  unfold snakeCase
  rw [List.flatMap_cons, if_pos hcapital, hback]
  rfl

/-- **What the second loop stores is read back.** -/
theorem snakeCase_pending : ∀ {name : List UInt8} {after : Bool}, IsSnake after name →
    snakeCase (pending after name) = (if after then [underline] else []) ++ name
  | [], after, h => by
    obtain rfl : after = false := h
    rfl
  | c :: name, after, h => by
    unfold IsSnake at h
    by_cases hunder : c = underline
    · rw [if_pos hunder] at h
      obtain ⟨rfl, hname⟩ := h
      rw [hunder, pending_underline, snakeCase_pending hname]
      rfl
    · rw [if_neg hunder] at h
      obtain ⟨hcapital, hsmall, hname⟩ := h
      rw [pending_cons hunder]
      cases after with
      | false =>
        simp only [Bool.false_eq_true, if_false]
        rw [snakeCase_cons hcapital, snakeCase_pending hname]
        rfl
      | true =>
        simp only [if_true]
        rw [snakeCase_capital (hsmall rfl), snakeCase_pending hname]
        rfl

theorem camelCase_eq (name : List UInt8) :
    camelCase name = name.takeWhile (· = underline) ++ pending false (name.dropWhile (· = underline)) := rfl

theorem snakeCase_underlines : ∀ {lead : List UInt8}, (∀ c ∈ lead, c = underline) → snakeCase lead = lead
  | [], _ => rfl
  | c :: lead, h => by
    obtain rfl := h c List.mem_cons_self
    rw [snakeCase_cons rfl, snakeCase_underlines fun c hc => h c (List.mem_cons_of_mem _ hc)]

/-- **The name is read back.** -/
theorem snakeCase_camelCase (h : IsFunctionName name) : snakeCase (camelCase name) = name := by
  have hlead : ∀ c ∈ name.takeWhile (· = underline), c = underline := by
    intro c hc
    have hunder := List.mem_takeWhile_imp hc
    exact of_decide_eq_true hunder
  rw [camelCase_eq, snakeCase_append, snakeCase_underlines hlead, snakeCase_pending h.2]
  exact List.takeWhile_append_dropWhile

theorem length_pending : ∀ (name : List UInt8) (after : Bool), (pending after name).length ≤ name.length
  | [], after => by rw [pending_nil]
  | c :: name, after => by
    by_cases hunder : c = underline
    · have := length_pending name true
      rw [hunder, pending_underline, List.length_cons]
      omega
    · have := length_pending name false
      rw [pending_cons hunder, List.length_cons, List.length_cons]
      omega

theorem length_camelCase (name : List UInt8) : (camelCase name).length ≤ name.length := by
  have hwhole := congrArg List.length (List.takeWhile_append_dropWhile (p := (· = underline)) (l := name))
  have hrest := length_pending (name.dropWhile (· = underline)) false
  rw [List.length_append] at hwhole
  rw [camelCase_eq, List.length_append]
  omega

/-- What is read from `js_name` on is one string. -/
theorem JsName.Reads.unique {js : JsName} {text text' : List UInt8} (h : js.Reads text) (h' : js.Reads text') :
    text = text' := by
  wlog hle : text.length ≤ text'.length generalizing text text'
  · exact (this h' h (by omega)).symm
  have hsome : (text ++ [0]).map some = ((text' ++ [0]).take (text.length + 1)).map some := by
    rw [List.map_take, ← h'.cells, Block.take_slice _ _ (by omega), h.cells]
  have htake : text ++ [0] = (text' ++ [0]).take (text.length + 1) :=
    List.map_injective_iff.2 (Option.some_injective _) hsome
  by_cases hlt : text.length < text'.length
  · -- the terminator of the shorter one would be in the longer one
    have hmem : (0 : UInt8) ∈ (text' ++ [0]).take (text.length + 1) :=
      htake ▸ List.mem_append_right _ List.mem_cons_self
    rw [List.take_append_of_le_length hlt] at hmem
    exact absurd (List.mem_of_mem_take hmem) h'.zero
  · have hlen : (text' ++ [0]).length = text.length + 1 := by
      rw [List.length_append, List.length_singleton]
      omega
    rw [← hlen, List.take_length] at htake
    exact List.append_cancel_right htake

/-- What `underline_to_camel` returns for a function's name is all of it in camel case. -/
theorem returns_whole (h : IsFunctionName name) (hlength : name.length ≤ 511) {js : JsName} {text more : List UInt8}
    {js' : JsName} (hrun : underlineToCamel js (name ++ 0 :: more) = .ok js') (hreads : js'.Reads text) :
    text = camelCase name := by
  have hlead : (name.takeWhile (· = underline)).length ≤ 511 :=
    Nat.le_trans (List.takeWhile_sublist _).length_le hlength
  obtain ⟨js₁, hrun₁, hreads₁⟩ := returns_camelCase h.1 hlead js more
  obtain rfl := Except.ok.inj (hrun₁.symm.trans hrun)
  have hwhole : (camelCase name).take 511 = camelCase name :=
    List.take_of_length_le (Nat.le_trans (length_camelCase name) hlength)
  rw [hwhole] at hreads₁
  exact hreads.unique hreads₁

/-- **No two functions get one name**: for names of at most 511 bytes without capitals and with a small letter after
each underline, `underline_to_camel` returns, whatever was in its block before, and returns the same string for two of
them only if they are the same. -/
theorem names_differ (name name' more more' : List UInt8) (js js' : JsName) (h : IsFunctionName name)
    (h' : IsFunctionName name') (hlength : name.length ≤ 511) (hlength' : name'.length ≤ 511) :
    ∃ r r' text text', underlineToCamel js (name ++ 0 :: more) = .ok r ∧ r.Reads text ∧
      underlineToCamel js' (name' ++ 0 :: more') = .ok r' ∧ r'.Reads text' ∧ (text = text' ↔ name = name') := by
  have hlead : ∀ {name : List UInt8}, name.length ≤ 511 → (name.takeWhile (· = underline)).length ≤ 511 := by
    intro name hlength
    exact Nat.le_trans (List.takeWhile_sublist _).length_le hlength
  obtain ⟨r, hrun, hreads⟩ := returns_camelCase h.1 (hlead hlength) js more
  obtain ⟨r', hrun', hreads'⟩ := returns_camelCase h'.1 (hlead hlength') js' more'
  refine ⟨r, r', _, _, hrun, hreads, hrun', hreads', ?_⟩
  rw [returns_whole h hlength hrun hreads, returns_whole h' hlength' hrun' hreads']
  constructor
  · intro hsame
    rw [← snakeCase_camelCase h, hsame, snakeCase_camelCase h']
  · intro hsame
    rw [hsame]

/-- Two methods of `Buffer`. -/
theorem names_differ_write : ∃ r r' text text',
    underlineToCamel ⟨Block.malloc 512, rfl⟩ ("write_int32".toUTF8.toList ++ [0]) = .ok r ∧ r.Reads text ∧
      underlineToCamel r ("write_uint32".toUTF8.toList ++ [0]) = .ok r' ∧ r'.Reads text' ∧ text ≠ text' := by
  have hread : IsFunctionName "write_int32".toUTF8.toList := by decide +kernel
  have hread' : IsFunctionName "write_uint32".toUTF8.toList := by decide +kernel
  have hlead : ("write_int32".toUTF8.toList.takeWhile (· = underline)).length ≤ 511 := by decide +kernel
  -- the second name is made in the block the first one was returned in
  obtain ⟨r, hrun, hreads⟩ := returns_camelCase hread.1 hlead ⟨Block.malloc 512, rfl⟩ []
  obtain ⟨r₁, r', text, text', hrun₁, hreads₁, hrun', hreads', hiff⟩ :=
    names_differ _ _ [] [] ⟨Block.malloc 512, rfl⟩ r hread hread' (by decide +kernel) (by decide +kernel)
  obtain rfl := Except.ok.inj (hrun.symm.trans hrun₁)
  exact ⟨r, r', text, text', hrun, hreads₁, hrun', hreads', fun hsame => absurd (hiff.1 hsame) (by decide +kernel)⟩

end V8h
