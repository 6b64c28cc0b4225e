import V8h.HttpHeader
/-!
# HttpFields — what `parseHeader` makes of any text

`header` is an object, and each line with a `": "` sets one of its properties.  So a name that comes twice has the value
of its last line, in the place of its first; what the object has no own property for, `__proto__`, is lost; and each
name is there once (`last_line_counts`).  This holds of every text a peer can send, well formed or not.
-/
namespace V8h

open JsString

namespace Header

variable {h : Header} {key key' value : JsString}

theorem keys_set_of_mem (hkey : key ∈ h.map Prod.fst) : (h.set key value).map Prod.fst = h.map Prod.fst := by
  unfold set
  split
  · rfl
  · have hsome : (h.get key).isSome := by
      cases hget : h.get key with
      | some v => rfl
      | none =>
        obtain ⟨p, hp, rfl⟩ := List.mem_map.1 hkey
        have hne := List.lookup_eq_none_iff.1 hget p hp
        exact absurd rfl (bne_iff_ne.1 hne)
    rw [if_pos hsome, List.map_map]
    exact List.map_congr_left fun p _ => rfl

theorem lookup_set_map (key value key' : JsString) : ∀ h : Header,
    List.lookup key' (h.map fun (k, v) => (k, if k = key then value else v)) =
      (List.lookup key' h).map fun v => if key' = key then value else v
  | []          => rfl
  | (k, v) :: h => by
    rw [List.map_cons, List.lookup_cons, List.lookup_cons]
    by_cases hk : key' = k
    · subst hk
      simp
    · have hbeq : (key' == k) = false := beq_eq_false_iff_ne.2 hk
      rw [hbeq]
      exact lookup_set_map key value key' h

/-- **Setting a property**, and reading one. -/
theorem get_set (h : Header) (key value key' : JsString) : (h.set key value).get key' =
    if key' = key ∧ key ≠ js "__proto__" then some value else h.get key' := by
  unfold set
  by_cases hproto : key = js "__proto__"
  · rw [if_pos hproto, if_neg fun hand => hand.2 hproto]
  · rw [if_neg hproto]
    by_cases hsome : (h.get key).isSome
    · rw [if_pos hsome]
      unfold get
      rw [lookup_set_map]
      by_cases hk : key' = key
      · obtain ⟨v, hv⟩ := Option.isSome_iff_exists.1 hsome
        unfold get at hv
        rw [if_pos ⟨hk, hproto⟩, hk, hv]
        simp
      · rw [if_neg fun hand => hk hand.1]
        simp only [hk, if_false, Option.map_id']
    · rw [if_neg hsome]
      have hnone : List.lookup key h = none := Option.not_isSome_iff_eq_none.1 hsome
      unfold get
      rw [List.lookup_append, List.lookup_cons, List.lookup_nil]
      by_cases hk : key' = key
      · rw [if_pos ⟨hk, hproto⟩, hk, hnone, beq_self_eq_true]
        rfl
      · have hbeq : (key' == key) = false := beq_eq_false_iff_ne.2 hk
        rw [if_neg fun hand => hk hand.1, hbeq]
        exact Option.or_none

/-- A name is set once. -/
theorem nodup_set (hnodup : (h.map Prod.fst).Nodup) (key value : JsString) :
    ((h.set key value).map Prod.fst).Nodup := by
  by_cases hkey : key ∈ h.map Prod.fst
  · rw [keys_set_of_mem hkey]
    exact hnodup
  · by_cases hproto : key = js "__proto__"
    · have hset : h.set key value = h := if_pos hproto
      rw [hset]
      exact hnodup
    · rw [Header.set_new hproto hkey, List.map_append, List.nodup_append]
      refine ⟨hnodup, List.nodup_singleton _, ?_⟩
      intro a ha b hb
      rintro rfl
      obtain rfl := List.mem_singleton.1 hb
      exact hkey ha

end Header

namespace Helper

/-- The name and the value of a line with a `": "`. -/
def fieldOf (line : JsString) : Option (JsString × JsString) :=
  match line.splitLimit (js ": ") 2 with
  | [key, value] => some (key, value)
  | _            => none

theorem addField_eq (header : Header) (line : JsString) :
    addField header line = (fieldOf line).elim header fun f => header.set f.1 f.2 := by
  unfold addField fieldOf
  generalize line.splitLimit (js ": ") 2 = pieces
  -- a line is skipped unless there are two pieces
  rcases pieces with _ | ⟨key, _ | ⟨value, _ | ⟨_, _⟩⟩⟩
  · rfl
  · rfl
  · rfl
  · rfl

/-- **The lines of a header**, one after the other. -/
theorem get_foldl_addField (key : JsString) : ∀ (lines : List JsString) (header : Header),
    (lines.foldl addField header).get key =
      ((lines.filterMap fieldOf).reverse.find? fun f => f.1 = key ∧ key ≠ js "__proto__").elim (header.get key)
        fun f => some f.2
  | [], header => rfl
  | line :: lines, header => by
    rw [List.foldl_cons, get_foldl_addField key lines, addField_eq]
    cases hfield : fieldOf line with
    | none => rw [List.filterMap_cons_none hfield]; rfl
    | some f =>
      rw [List.filterMap_cons_some hfield, List.reverse_cons, List.find?_append]
      cases hlast : (lines.filterMap fieldOf).reverse.find? fun f => f.1 = key ∧ key ≠ js "__proto__" with
      | some g => rfl
      | none =>
        simp only [Option.elim_none, Option.elim_some, Option.none_or, Header.get_set, List.find?_cons, List.find?_nil]
        by_cases hk : f.1 = key ∧ key ≠ js "__proto__"
        · obtain ⟨rfl, hproto⟩ := hk
          simp [hproto]
        · have hk' : ¬ (key = f.1 ∧ f.1 ≠ js "__proto__") := by
            rintro ⟨rfl, hproto⟩
            exact hk ⟨rfl, hproto⟩
          rw [if_neg hk', decide_eq_false hk]
          rfl

theorem nodup_foldl_addField : ∀ (lines : List JsString) (header : Header), (header.map Prod.fst).Nodup →
    ((lines.foldl addField header).map Prod.fst).Nodup
  | [], _, h => h
  | line :: lines, header, h => by
    rw [List.foldl_cons, addField_eq]
    apply nodup_foldl_addField
    cases fieldOf line with
    | none => exact h
    | some f => exact Header.nodup_set h f.1 f.2

/-- **Of the lines with a name the last one counts**, in any text: a name has the value of the last line that has it
before its first `": "`, up to the second; the name `__proto__` has none; and no name is there twice. -/
theorem last_line_counts (text key : JsString) : (parseHeader text).header.get key =
      (if key = js "__proto__" then none else
        (((text.split (js "\r\n")).tail.filterMap fieldOf).reverse.find? fun f => f.1 = key).map Prod.snd) ∧
    ((parseHeader text).header.map Prod.fst).Nodup := by
  refine ⟨?_, nodup_foldl_addField _ _ List.nodup_nil⟩
  unfold parseHeader
  rw [get_foldl_addField]
  by_cases hproto : key = js "__proto__"
  · have hnone : ((text.split (js "\r\n")).tail.filterMap fieldOf).reverse.find?
        (fun f => f.1 = key ∧ key ≠ js "__proto__") = none := by
      apply List.find?_eq_none.2
      intro f _
      simp [hproto]
    rw [hnone, if_pos hproto]
    rfl
  · simp only [hproto, not_false_eq_true, ne_eq, and_true, if_false, Header.get, List.lookup_nil]
    cases ((text.split (js "\r\n")).tail.filterMap fieldOf).reverse.find? fun f => f.1 = key with
    | none => rfl
    | some f => rfl

example : (parseHeader (js "GET /\r\nA: 1\r\nB\r\nA: 2: 3\r\n\r\n")).header = [(js "A", js "2")] := by decide

end Helper
end V8h
