import Mathlib.Data.List.TakeWhile
import V8h.Lib.Block
import V8h.Native
/-!
# CamelCase — `underline_to_camel`

`V8H_IMPLEMENT` gives a C++ method to scripts under its name in camel case, put together in the static block `js_name`.
The source pointer is the list of the bytes from it on, as in `partial_find`, and a store is checked against the block.
The first loop copies the leading underlines without a test, the second one stops before the last byte; so every store
is inside the block exactly for names of at most 511 leading underlines.
-/
namespace V8h

/-- `'_'`. -/
def underline : UInt8 := '_'.toUInt8

/-- The static block, `char js_name[512]`. -/
structure JsName where
  block : Block UInt8
  size  : block.size = 512

/-- `*dest = c`. -/
def JsName.put (jsName : JsName) (dest : Nat) (c : UInt8) : Except Trap JsName :=
  if dest < jsName.block.size then
    .ok ⟨jsName.block.write dest [some c], jsName.size⟩
  else
    .error .outOfBounds

/-- The letter that is stored behind underlines. -/
def capital (c : UInt8) : UInt8 :=
  if c ≥ 'a'.toUInt8 ∧ c ≤ 'z'.toUInt8 then c + 'A'.toUInt8 - 'a'.toUInt8 else c

/-- The first loop, which leaves `src` at the first other byte. -/
def copyUnderlines : List UInt8 → JsName → Nat → Except Trap (List UInt8 × JsName × Nat)
  | [], _, _               => .error .outOfBounds
  | c :: src, jsName, dest =>
    if c = 0 then
      .ok (c :: src, jsName, dest)
    else if c = underline then do
      copyUnderlines src (← jsName.put dest underline) (dest + 1)
    else
      .ok (c :: src, jsName, dest)

/-- The second loop. -/
def copyCamel (last : Nat) : List UInt8 → Bool → JsName → Nat → Except Trap (JsName × Nat)
  | [], _, _, _                         => .error .outOfBounds
  | c :: src, isUnderline, jsName, dest =>
    if c ≠ 0 ∧ dest < last then
      if c = underline then
        copyCamel last src true jsName dest
      else do
        copyCamel last src false (← jsName.put dest (if isUnderline then capital c else c)) (dest + 1)
    else
      .ok (jsName, dest)

def underlineToCamel (jsName : JsName) (src : List UInt8) : Except Trap JsName := do
  let last := jsName.block.size - 1
  let (src, jsName, dest) ← copyUnderlines src jsName 0
  let (jsName, dest) ← copyCamel last src false jsName dest
  jsName.put dest 0

/-! ## The specification -/

/-- The words between underlines put together, all but the first with a capital. -/
def joinWords : List (List UInt8) → List UInt8
  | []            => []
  | word :: words => word ++ words.flatMap (·.modifyHead capital)

/-- The leading underlines, and the rest of the name in camel case. -/
def camelCase (name : List UInt8) : List UInt8 :=
  name.takeWhile (· = underline) ++ joinWords ((name.dropWhile (· = underline)).splitOn underline)

/-- What is read from `js_name` on is the string. -/
structure JsName.Reads (jsName : JsName) (text : List UInt8) : Prop where
  cells : jsName.block.slice 0 (text.length + 1) = (text ++ [0]).map some
  zero  : 0 ∉ text

/-- Whatever is in `js_name` and behind the string `src`, the stores are in the block and `text` is returned. -/
def Returns (src text : List UInt8) : Prop :=
  ∀ js more, ∃ js', underlineToCamel js (src ++ 0 :: more) = .ok js' ∧ js'.Reads text

/-! ## What the loops store -/

/-- The first bytes of `js_name`. -/
def JsName.Holds (jsName : JsName) (text : List UInt8) : Prop :=
  jsName.block.slice 0 text.length = text.map some

variable {js js' : JsName} {text src : List UInt8} {c : UInt8}

theorem JsName.Holds.put (h : js.Holds text) (hlt : text.length < 512) (c : UInt8) :
    ∃ js', js.put text.length c = .ok js' ∧ js'.Holds (text ++ [c]) := by
  refine ⟨⟨js.block.write text.length [some c], js.size⟩, ?_, ?_⟩
  · rw [JsName.put, if_pos (js.size.symm ▸ hlt)]
  · have hle : 0 + text.length ≤ text.length := by omega
    have hbelow := Block.slice_write_below js.block [some c] hle
    have hat := Block.slice_write_self js.block text.length [some c]
    unfold JsName.Holds
    rw [List.length_append, Block.slice_append, hbelow, h, Nat.zero_add, List.map_append]
    congr 1

theorem JsName.put_error (h : 512 ≤ text.length) (c : UInt8) : js.put text.length c = .error .outOfBounds := by
  have hsize := js.size
  rw [JsName.put, if_neg (by omega)]

theorem takeWhile_underline (src : List UInt8) :
    (underline :: src).takeWhile (· = underline) = underline :: src.takeWhile (· = underline) :=
  List.takeWhile_cons_of_pos (decide_eq_true rfl)

theorem dropWhile_underline (src : List UInt8) :
    (underline :: src).dropWhile (· = underline) = src.dropWhile (· = underline) :=
  List.dropWhile_cons_of_pos (decide_eq_true rfl)

theorem takeWhile_of_ne (hc : c ≠ underline) (src : List UInt8) : (c :: src).takeWhile (· = underline) = [] :=
  List.takeWhile_cons_of_neg fun h => hc (of_decide_eq_true h)

theorem dropWhile_of_ne (hc : c ≠ underline) (src : List UInt8) : (c :: src).dropWhile (· = underline) = c :: src :=
  List.dropWhile_cons_of_neg fun h => hc (of_decide_eq_true h)

/-- **The first loop copies the leading underlines**, as far as the block reaches. -/
theorem copyUnderlines_run (more : List UInt8) : ∀ {src text : List UInt8} {js : JsName}, 0 ∉ src → js.Holds text →
    text.length + (src.takeWhile (· = underline)).length ≤ 512 →
    ∃ js', copyUnderlines (src ++ 0 :: more) js text.length = .ok (src.dropWhile (· = underline) ++ 0 :: more, js',
      (text ++ src.takeWhile (· = underline)).length) ∧ js'.Holds (text ++ src.takeWhile (· = underline))
  | [], text, js, _, htext, _ => by
    rw [List.takeWhile_nil, List.append_nil]
    exact ⟨js, rfl, htext⟩
  | c :: src, text, js, hzero, htext, hle => by
    rw [List.mem_cons, not_or] at hzero
    by_cases hc : c = underline
    · subst hc
      rw [takeWhile_underline, List.length_cons] at hle
      obtain ⟨js₁, hput, hjs₁⟩ := htext.put (by omega) underline
      obtain ⟨js', hrun, hjs'⟩ := copyUnderlines_run more hzero.2 hjs₁ (by
        rw [List.length_append, List.length_singleton]
        omega)
      rw [List.length_append, List.length_singleton] at hrun
      refine ⟨js', ?_, ?_⟩
      · rw [List.cons_append, copyUnderlines, if_neg (Ne.symm hzero.1), if_pos rfl, hput, takeWhile_underline,
          dropWhile_underline]
        rw [← List.append_cons] at hrun
        exact hrun
      · rw [takeWhile_underline]
        rwa [← List.append_cons] at hjs'
    · rw [takeWhile_of_ne hc, dropWhile_of_ne hc, List.append_nil]
      refine ⟨js, ?_, htext⟩
      rw [List.cons_append, copyUnderlines, if_neg (Ne.symm hzero.1), if_neg hc]

/-- What the second loop has still to store of the rest of the name. -/
def pending (isUnderline : Bool) (rest : List UInt8) : List UInt8 :=
  if isUnderline then (rest.splitOn underline).flatMap (·.modifyHead capital) else joinWords (rest.splitOn underline)

@[simp] theorem pending_nil (isUnderline : Bool) : pending isUnderline [] = [] := by
  cases isUnderline <;> rfl

@[simp] theorem pending_underline (isUnderline : Bool) (src : List UInt8) :
    pending isUnderline (underline :: src) = pending true src := by
  unfold pending
  rw [List.splitOn_cons_eq_if_modifyHead, if_pos (beq_self_eq_true _)]
  cases isUnderline <;> rfl

theorem pending_cons (hc : c ≠ underline) (isUnderline : Bool) (src : List UInt8) :
    pending isUnderline (c :: src) = (if isUnderline then capital c else c) :: pending false src := by
  have hbeq : ¬ (c == underline) = true := by
    rwa [beq_iff_eq]
  unfold pending
  rw [List.splitOn_cons_eq_if_modifyHead, if_neg hbeq]
  cases hwords : src.splitOn underline with
  | nil => exact absurd hwords (List.splitOn_ne_nil _ _)
  | cons word words => cases isUnderline <;> rfl

/-- **The second loop stores the rest in camel case**, up to the last byte of the block. -/
theorem copyCamel_run (more : List UInt8) : ∀ {src text : List UInt8} {js : JsName} (isUnderline : Bool), 0 ∉ src →
    js.Holds text → text.length ≤ 511 →
    ∃ js', copyCamel 511 (src ++ 0 :: more) isUnderline js text.length =
      .ok (js', (text ++ (pending isUnderline src).take (511 - text.length)).length) ∧
      js'.Holds (text ++ (pending isUnderline src).take (511 - text.length))
  | [], text, js, isUnderline, _, htext, _ => by
    rw [pending_nil, List.take_nil, List.append_nil]
    refine ⟨js, ?_, htext⟩
    rw [List.nil_append, copyCamel, if_neg (fun h => h.1 rfl)]
  | c :: src, text, js, isUnderline, hzero, htext, hle => by
    rw [List.mem_cons, not_or] at hzero
    have hc : c ≠ 0 := Ne.symm hzero.1
    by_cases hlt : text.length < 511
    · rw [List.cons_append, copyCamel, if_pos ⟨hc, hlt⟩]
      by_cases hunder : c = underline
      · subst hunder
        rw [if_pos rfl, pending_underline]
        exact copyCamel_run more true hzero.2 htext hle
      · obtain ⟨js₁, hput, hjs₁⟩ := htext.put (by omega) (if isUnderline then capital c else c)
        obtain ⟨js', hrun, hjs'⟩ := copyCamel_run more false hzero.2 hjs₁ (by
            rw [List.length_append, List.length_singleton]
            omega)
        have hroom : 511 - text.length = 511 - (text.length + 1) + 1 := by omega
        have hout : text ++ (pending isUnderline (c :: src)).take (511 - text.length) =
            text ++ [if isUnderline then capital c else c] ++ (pending false src).take (511 - (text.length + 1)) := by
          rw [pending_cons hunder, hroom, List.take_succ_cons, List.append_cons]
        rw [List.length_append, List.length_singleton, ← hout] at hrun hjs'
        refine ⟨js', ?_, hjs'⟩
        rw [if_neg hunder, hput]
        exact hrun
    · have hfull : 511 - text.length = 0 := by omega
      rw [hfull, List.take_zero, List.append_nil]
      refine ⟨js, ?_, htext⟩
      rw [List.cons_append, copyCamel, if_neg (fun h => hlt h.2)]

/-! ## The result -/

theorem capital_toNat (c : UInt8) :
    (capital c).toNat = if 97 ≤ c.toNat ∧ c.toNat ≤ 122 then c.toNat - 32 else c.toNat := by
  have hlt := c.toNat_lt
  have hletter : (c ≥ 'a'.toUInt8 ∧ c ≤ 'z'.toUInt8) ↔ 97 ≤ c.toNat ∧ c.toNat ≤ 122 := Iff.rfl
  have ha : 'a'.toUInt8.toNat = 97 := rfl
  have hA : 'A'.toUInt8.toNat = 65 := rfl
  simp only [capital, hletter]
  split
  · rw [UInt8.toNat_sub, UInt8.toNat_add, ha, hA]
    omega
  · rfl

/-- Every byte stored by the second loop comes from one that is no underline. -/
theorem mem_pending : ∀ {src : List UInt8} {isUnderline : Bool}, c ∈ pending isUnderline src →
    ∃ d ∈ src, d ≠ underline ∧ (c = d ∨ c = capital d)
  | [], isUnderline, hc => by
    rw [pending_nil] at hc
    cases hc
  | d :: src, isUnderline, hc => by
    by_cases hunder : d = underline
    · subst hunder
      rw [pending_underline] at hc
      obtain ⟨e, he, hne⟩ := mem_pending hc
      exact ⟨e, List.mem_cons_of_mem _ he, hne⟩
    · rw [pending_cons hunder, List.mem_cons] at hc
      rcases hc with rfl | hc
      · refine ⟨d, List.mem_cons_self, hunder, ?_⟩
        cases isUnderline
        · exact Or.inl rfl
        · exact Or.inr rfl
      · obtain ⟨e, he, hne⟩ := mem_pending hc
        exact ⟨e, List.mem_cons_of_mem _ he, hne⟩

theorem zero_notMem_pending (hzero : 0 ∉ src) (isUnderline : Bool) : 0 ∉ pending isUnderline src := by
  intro hmem
  obtain ⟨d, hd, -, h | h⟩ := mem_pending hmem
  · exact hzero (h ▸ hd)
  · have h0 := capital_toNat d
    rw [← h, UInt8.toNat_zero] at h0
    have : d = 0 := UInt8.toNat_inj.1 (by rw [UInt8.toNat_zero]; split at h0 <;> omega)
    exact hzero (this ▸ hd)

theorem underline_notMem_pending (isUnderline : Bool) (src : List UInt8) : underline ∉ pending isUnderline src := by
  intro hmem
  obtain ⟨d, -, hne, h | h⟩ := mem_pending hmem
  · exact hne h.symm
  · have hu := capital_toNat d
    rw [← h, show underline.toNat = 95 from rfl] at hu
    exact hne (UInt8.toNat_inj.1 (by rw [show underline.toNat = 95 from rfl]; split at hu <;> omega))

/-- A name in camel case, with or without underlines before it, is left alone. -/
theorem camelCase_append {lead rest : List UInt8} (hlead : ∀ c ∈ lead, c = underline) (hrest : underline ∉ rest) :
    camelCase (lead ++ rest) = lead ++ rest := by
  have htake : rest.takeWhile (· = underline) = [] := by
    cases rest with
    | nil => rfl
    | cons c rest => exact takeWhile_of_ne (fun h => hrest (h ▸ List.mem_cons_self)) rest
  have hdrop : rest.dropWhile (· = underline) = rest := by
    have := List.takeWhile_append_dropWhile (p := (· = underline)) (l := rest)
    rwa [htake, List.nil_append] at this
  have hall : ∀ c ∈ lead, decide (c = underline) = true := fun c hc => decide_eq_true (hlead c hc)
  rw [camelCase, List.takeWhile_append_of_pos hall, List.dropWhile_append_of_pos hall, htake, hdrop,
    List.splitOn_eq_singleton hrest]
  simp only [joinWords, List.flatMap_nil, List.append_nil]

theorem take_camelCase (hlead : (src.takeWhile (· = underline)).length ≤ 511) :
    (camelCase src).take 511 = src.takeWhile (· = underline) ++
      (pending false (src.dropWhile (· = underline))).take (511 - (src.takeWhile (· = underline)).length) := by
  rw [camelCase, List.take_append, List.take_of_length_le hlead]
  rfl

theorem camelCase_take (hlead : (src.takeWhile (· = underline)).length ≤ 511) :
    camelCase ((camelCase src).take 511) = (camelCase src).take 511 := by
  rw [take_camelCase hlead]
  apply camelCase_append
  · intro c hc
    have h := List.mem_takeWhile_imp hc
    exact of_decide_eq_true h
  · exact fun hmem => underline_notMem_pending _ _ (List.mem_of_mem_take hmem)

theorem zero_notMem_take (hzero : 0 ∉ src) (hlead : (src.takeWhile (· = underline)).length ≤ 511) :
    0 ∉ (camelCase src).take 511 := by
  rw [take_camelCase hlead, List.mem_append, not_or]
  constructor
  · exact fun hmem => hzero (List.takeWhile_subset _ hmem)
  · exact fun hmem => zero_notMem_pending (fun h => hzero (List.dropWhile_subset _ h)) _ (List.mem_of_mem_take hmem)

/-- **`underline_to_camel` stores inside its block, and returns the name in camel case.** -/
theorem returns_camelCase (hzero : 0 ∉ src) (hlead : (src.takeWhile (· = underline)).length ≤ 511) :
    Returns src ((camelCase src).take 511) := by
  intro js more
  have hrest : 0 ∉ src.dropWhile (· = underline) := fun h => hzero (List.dropWhile_subset _ h)
  have hlast : js.block.size - 1 = 511 := by rw [js.size]
  have hempty : js.Holds [] := rfl
  obtain ⟨js₁, hrun₁, hjs₁⟩ := copyUnderlines_run more hzero hempty (by
    rw [List.length_nil]
    omega)
  rw [List.nil_append] at hrun₁ hjs₁
  obtain ⟨js₂, hrun₂, hjs₂⟩ := copyCamel_run more false hrest hjs₁ hlead
  rw [← take_camelCase hlead] at hrun₂ hjs₂
  have hroom : ((camelCase src).take 511).length < 512 := Nat.lt_succ_of_le (List.length_take_le 511 _)
  obtain ⟨js', hput, hjs'⟩ := hjs₂.put hroom 0
  refine ⟨js', ?_, ?_, zero_notMem_take hzero hlead⟩
  · rw [List.length_nil] at hrun₁
    simp only [underlineToCamel, hlast, hrun₁, hrun₂, hput, bind, Except.bind]
  · rwa [JsName.Holds, List.length_append, List.length_singleton] at hjs'

/-- **`underline_to_camel` computes its specification within its block**, and leaves its own results alone. -/
theorem underlineToCamel_spec (src : List UInt8) (hzero : 0 ∉ src)
    (hlead : (src.takeWhile (· = underline)).length ≤ 511) :
    Returns src ((camelCase src).take 511) ∧ Returns ((camelCase src).take 511) ((camelCase src).take 511) := by
  have hlead' : (((camelCase src).take 511).takeWhile (· = underline)).length ≤ 511 :=
    (List.takeWhile_sublist _).length_le.trans (List.length_take_le 511 _)
  have hagain := returns_camelCase (zero_notMem_take hzero hlead) hlead'
  rw [camelCase_take hlead, List.take_take, Nat.min_self] at hagain
  exact ⟨returns_camelCase hzero hlead, hagain⟩

/-- The name of a method of `Buffer`. -/
theorem underlineToCamel_partial_find : Returns "partial_find_buffer".toUTF8.toList
      ((camelCase "partial_find_buffer".toUTF8.toList).take 511) ∧
    Returns ((camelCase "partial_find_buffer".toUTF8.toList).take 511)
      ((camelCase "partial_find_buffer".toUTF8.toList).take 511) :=
  underlineToCamel_spec _ (by decide +kernel) (by decide +kernel)

example : camelCase "partial_find_buffer".toUTF8.toList = "partialFindBuffer".toUTF8.toList := by decide +kernel

theorem copyUnderlines_overrun (more : List UInt8) : ∀ {src text : List UInt8} {js : JsName}, 0 ∉ src →
    js.Holds text → 512 < text.length + (src.takeWhile (· = underline)).length →
    text.length ≤ 512 → copyUnderlines (src ++ 0 :: more) js text.length = .error .outOfBounds
  | [], text, js, _, _, hlt, hle => by
    rw [List.takeWhile_nil, List.length_nil] at hlt
    omega
  | c :: src, text, js, hzero, htext, hlt, hle => by
    rw [List.mem_cons, not_or] at hzero
    by_cases hc : c = underline
    · subst hc
      rw [List.cons_append, copyUnderlines, if_neg (Ne.symm hzero.1), if_pos rfl]
      by_cases hroom : text.length < 512
      · obtain ⟨js₁, hput, hjs₁⟩ := htext.put hroom underline
        have hlen : (text ++ [underline]).length = text.length + 1 := List.length_append
        have hrun := copyUnderlines_overrun more hzero.2 hjs₁
        rw [takeWhile_underline, List.length_cons] at hlt
        rw [hput, ← hlen]
        exact hrun (by omega) (by omega)
      · rw [JsName.put_error (Nat.le_of_not_lt hroom)]
        rfl
    · rw [takeWhile_of_ne hc, List.length_nil] at hlt
      omega

/-- **With more than 511 leading underlines a store is outside the block.** -/
theorem underlineToCamel_overrun (js : JsName) (more : List UInt8) (hzero : 0 ∉ src)
    (hlead : 511 < (src.takeWhile (· = underline)).length) :
    underlineToCamel js (src ++ 0 :: more) = .error .outOfBounds := by
  have hlast : js.block.size - 1 = 511 := by rw [js.size]
  have hempty : js.Holds [] := rfl
  by_cases hlt : 512 < (src.takeWhile (· = underline)).length
  · have hrun := copyUnderlines_overrun more hzero hempty (by simpa using hlt) (by simp)
    rw [List.length_nil] at hrun
    simp only [underlineToCamel, hrun, bind, Except.bind]
  · obtain ⟨js₁, hrun₁, hjs₁⟩ := copyUnderlines_run more hzero hempty (by
      rw [List.length_nil]
      omega)
    rw [List.nil_append, List.length_nil] at hrun₁
    -- The second loop is left at once, and the terminator comes behind the block.
    have hstop : copyCamel 511 (src.dropWhile (· = underline) ++ 0 :: more) false js₁
        (src.takeWhile (· = underline)).length = .ok (js₁, (src.takeWhile (· = underline)).length) := by
      cases src.dropWhile (· = underline) <;>
        exact if_neg fun h => absurd h.2 (by omega)
    simp only [underlineToCamel, hlast, hrun₁, hstop, bind, Except.bind]
    exact JsName.put_error (by omega) 0

end V8h
