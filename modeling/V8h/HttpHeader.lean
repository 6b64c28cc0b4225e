import Mathlib.Data.List.Nodup
import V8h.Js
import V8h.Lib.Seek
/-!
# HttpHeader — `parseHeader` reads back what a sender wrote

The header text is cut at each `CRLF`, its first line at spaces and each other line at `": "`; no cut goes wrong, since
the first unit of each separator occurs in no piece before it.  But `field.split ": ", 2` drops what follows a second
`": "`, so a value comes back whole exactly when it has none (`parse_undoes_iff`).
-/
namespace V8h
namespace JsString

variable {sep text piece : JsString} {i : Nat}

theorem splitFrom_skip (sep : JsString) : ∀ (k : Nat) (text piece : JsString), k ≤ text.length →
    splitFrom sep text k piece = splitFrom sep (text.drop k) 0 piece
  | 0, _, _, _ => rfl
  | k + 1, [], _, h => absurd h (by simp)
  | k + 1, u :: text, piece, h => by
    rw [splitFrom, List.drop_succ_cons]
    exact splitFrom_skip sep k text piece (by simpa using h)

theorem splitFrom_of_isLeast (hsep : sep ≠ []) : ∀ (text piece : JsString) (i : Nat),
    IsLeast {i | sep <+: text.drop i} i →
    splitFrom sep text 0 piece = (piece ++ text.take i) :: split (text.drop (i + sep.length)) sep
  | [], _, i, h => absurd (List.prefix_nil.1 (List.drop_nil ▸ h.1 : sep <+: [])) hsep
  | u :: text, piece, 0, h => by
    have hp : sep <+: u :: text := h.1
    have hpos := List.length_pos_iff.2 hsep
    have hlen := hp.length_le
    rw [splitFrom, if_pos (List.isPrefixOf_iff_prefix.2 hp), splitFrom_skip _ _ _ _ (by simp at hlen; omega), split,
      List.take_zero, List.append_nil, Nat.zero_add, ← Nat.sub_add_cancel hpos, List.drop_succ_cons]
    rfl
  | u :: text, piece, i + 1, h => by
    have hnot : ¬ sep <+: u :: text := fun hp => absurd (h.2 (show sep <+: (u :: text).drop 0 from hp)) (by omega)
    have hrest : IsLeast {i | sep <+: text.drop i} i :=
      ⟨h.1, fun j hj => Nat.le_of_succ_le_succ (h.2 (show sep <+: (u :: text).drop (j + 1) from hj))⟩
    rw [splitFrom, if_neg (mt List.isPrefixOf_iff_prefix.1 hnot), splitFrom_of_isLeast hsep text _ i hrest,
      List.append_assoc, List.take_succ_cons, Nat.add_right_comm, List.drop_succ_cons]
    rfl

/-- **The first piece ends at the first separator.** -/
theorem split_of_isLeast (hsep : sep ≠ []) (h : IsLeast {i | sep <+: text.drop i} i) :
    text.split sep = text.take i :: split (text.drop (i + sep.length)) sep :=
  splitFrom_of_isLeast hsep text [] i h

theorem splitFrom_of_absent : ∀ (text piece : JsString), ¬ sep <:+: text →
    splitFrom sep text 0 piece = [piece ++ text]
  | [], piece, _ => by rw [splitFrom, List.append_nil]
  | u :: text, piece, h => by
    rw [splitFrom, if_neg fun hp => h (List.isPrefixOf_iff_prefix.1 hp).isInfix,
      splitFrom_of_absent text _ fun ht => h (ht.trans (List.suffix_cons u text).isInfix), List.append_assoc]
    rfl

theorem split_of_absent (h : ¬ sep <:+: text) : text.split sep = [text] := splitFrom_of_absent text [] h

/-- **A piece without the first unit of the separator is split off whole.** -/
theorem split_cons {u : UInt16} (hu : u ∉ piece) (sep rest : JsString) :
    split (piece ++ (u :: sep) ++ rest) (u :: sep) = piece :: rest.split (u :: sep) := by
  rw [split_of_isLeast (List.cons_ne_nil u sep) (Seek.isLeast_of_not_mem hu sep rest), List.append_assoc,
    List.take_left, ← List.append_assoc, ← List.length_append, List.drop_left]

/-- What comes before the first separator. -/
def firstPiece (text sep : JsString) : JsString := (text.split sep).headD []

theorem split_ne_nil (hsep : sep ≠ []) (text : JsString) : text.split sep ≠ [] := by
  by_cases h : sep <:+: text
  · obtain ⟨i, hi⟩ := Seek.exists_isLeast h
    rw [split_of_isLeast hsep hi]
    exact List.cons_ne_nil _ _
  · rw [split_of_absent h]
    exact List.cons_ne_nil _ _

/-- **A text is its own first piece exactly when it has no separator.** -/
theorem firstPiece_eq_self_iff (hsep : sep ≠ []) : text.firstPiece sep = text ↔ ¬ sep <:+: text := by
  unfold firstPiece
  constructor
  · intro h hin
    obtain ⟨i, hi⟩ := Seek.exists_isLeast hin
    rw [split_of_isLeast hsep hi, List.headD_cons] at h
    have hp : sep <+: text.drop i := hi.1
    have hlen := hp.length_le
    have hcut := congrArg List.length h
    have hpos := List.length_pos_iff.2 hsep
    rw [List.length_drop] at hlen
    rw [List.length_take] at hcut
    omega
  · intro h
    rw [split_of_absent h]
    rfl

theorem headD_splitFrom (sep : JsString) : ∀ text piece : JsString,
    (splitFrom sep text 0 piece).headD [] = piece ++ (splitFrom sep text 0 []).headD []
  | [], piece => (List.append_nil piece).symm
  | u :: text, piece => by
    simp only [splitFrom]
    split
    · exact (List.append_nil piece).symm
    · rw [headD_splitFrom sep text (piece ++ [u]), headD_splitFrom sep text ([] ++ [u]), List.nil_append,
        List.append_assoc]

theorem firstPiece_cons (u : UInt16) (text sep : JsString) : firstPiece (u :: text) sep =
    if sep.isPrefixOf (u :: text) then [] else u :: text.firstPiece sep := by
  simp only [firstPiece, split, splitFrom]
  split
  · rfl
  · exact headD_splitFrom sep text [u]

/-- **A text without the first unit of the separator** is part of the first piece. -/
theorem firstPiece_append {u : UInt16} (sep text : JsString) : ∀ x : JsString, u ∉ x →
    firstPiece (x ++ text) (u :: sep) = x ++ text.firstPiece (u :: sep)
  | [], _ => rfl
  | v :: x, hu => by
    have hne : u ≠ v := fun h => hu (h ▸ List.mem_cons_self)
    have hnot : ¬ (u :: sep).isPrefixOf (v :: (x ++ text)) = true := fun h =>
      hne (List.cons_prefix_cons.1 (List.isPrefixOf_iff_prefix.1 h)).1
    rw [List.cons_append, firstPiece_cons, if_neg hnot,
      firstPiece_append sep text x fun h => hu (List.mem_cons_of_mem v h), List.cons_append]

/-- The separator follows the first piece, or nothing does. -/
theorem exists_firstPiece (sep : JsString) : ∀ text : JsString,
    ∃ rest, text = text.firstPiece sep ++ rest ∧ (rest = [] ∨ sep <+: rest)
  | [] => ⟨[], rfl, .inl rfl⟩
  | u :: text => by
    obtain ⟨rest, heq, hrest⟩ := exists_firstPiece sep text
    rw [firstPiece_cons]
    split
    · rename_i hp
      exact ⟨u :: text, rfl, .inr (List.isPrefixOf_iff_prefix.1 hp)⟩
    · refine ⟨rest, ?_, hrest⟩
      rw [List.cons_append, ← heq]

end JsString

open JsString

/-- A letter, a digit or `-`. -/
def isNameUnit (u : UInt16) : Bool := (65 ≤ u ∧ u ≤ 90) ∨ (97 ≤ u ∧ u ≤ 122) ∨ (48 ≤ u ∧ u ≤ 57) ∨ u = 45

/-- Neither CR nor LF. -/
def isLineUnit (u : UInt16) : Bool := u ≠ 13 ∧ u ≠ 10

/-- Nor a space. -/
def isWordUnit (u : UInt16) : Bool := u ≠ 32 ∧ isLineUnit u

/-- What a sender puts into the head of a request. -/
structure RequestHead where
  method     : JsString
  uri        : JsString
  fields     : List (JsString × JsString)
  methodWord : method.all isWordUnit
  uriWord    : uri.all isWordUnit
  names      : ∀ f ∈ fields, f.1.all isNameUnit
  distinct   : (fields.map Prod.fst).Nodup
  values     : ∀ f ∈ fields, f.2.all isLineUnit

namespace RequestHead

/-- `name: value`. -/
def line (f : JsString × JsString) : JsString := f.1 ++ js ": " ++ f.2

/-- `METHOD URI HTTP/1.1`. -/
def requestLine (r : RequestHead) : JsString := r.method ++ js " " ++ (r.uri ++ js " " ++ js "HTTP/1.1")

/-- Each line with the end it has, and an empty line. -/
def serialize (r : RequestHead) : JsString :=
  ((r.requestLine :: r.fields.map line).map (· ++ js "\r\n")).flatten ++ js "\r\n"

/-- The header has each name with its value, and no other name. -/
def ReadBack (r : RequestHead) (req : Request) : Prop :=
  req.method = some r.method ∧ req.requestUri = some r.uri ∧ ∀ key, req.header.get key = r.fields.lookup key

variable {r : RequestHead} {f : JsString × JsString}

theorem not_mem_of_all {p : UInt16 → Bool} {s : JsString} {u : UInt16} (h : s.all p) (hu : p u = false) : u ∉ s := by
  intro hmem
  rw [List.all_eq_true.1 h u hmem] at hu
  cases hu

theorem not_mem_requestLine (r : RequestHead) : 13 ∉ r.requestLine := by
  have hmethod : 13 ∉ r.method := not_mem_of_all r.methodWord (by decide)
  have huri : 13 ∉ r.uri := not_mem_of_all r.uriWord (by decide)
  have hspace : 13 ∉ js " " := by decide
  have hversion : 13 ∉ js "HTTP/1.1" := by decide
  simp only [requestLine, List.mem_append, not_or]
  exact ⟨⟨hmethod, hspace⟩, ⟨huri, hspace⟩, hversion⟩

theorem not_mem_line (hf : f ∈ r.fields) : 13 ∉ line f := by
  have hname : 13 ∉ f.1 := not_mem_of_all (r.names f hf) (by decide)
  have hcolon : 13 ∉ js ": " := by decide
  have hvalue : 13 ∉ f.2 := not_mem_of_all (r.values f hf) (by decide)
  simp only [line, List.mem_append, not_or]
  exact ⟨⟨hname, hcolon⟩, hvalue⟩

/-- Lines joined with `CRLF` come apart again. -/
theorem split_lines : ∀ lines : List JsString, (∀ l ∈ lines, 13 ∉ l) → ∀ rest : JsString,
    split ((lines.map (· ++ js "\r\n")).flatten ++ rest) (js "\r\n") = lines ++ rest.split (js "\r\n")
  | [], _, _ => rfl
  | l :: lines, h, rest => by
    rw [List.map_cons, List.flatten_cons, List.append_assoc]
    refine (split_cons (h l (List.mem_cons_self ..)) [10] _).trans (congrArg (l :: ·) ?_)
    exact split_lines lines (fun l' hl' => h l' (List.mem_cons_of_mem l hl')) rest

/-- **The lines of the text**: those that were written, and two empty ones. -/
theorem split_serialize (r : RequestHead) :
    r.serialize.split (js "\r\n") = r.requestLine :: (r.fields.map line ++ [[], []]) := by
  refine split_lines (r.requestLine :: r.fields.map line) ?_ (js "\r\n")
  intro l hl
  rcases List.mem_cons.1 hl with rfl | hl
  · exact r.not_mem_requestLine
  · obtain ⟨f, hf, rfl⟩ := List.mem_map.1 hl
    exact not_mem_line hf

theorem split_requestLine (r : RequestHead) :
    r.requestLine.splitLimit (js " ") 3 = [r.method, r.uri, js "HTTP/1.1"] := by
  have hmethod : 32 ∉ r.method := not_mem_of_all r.methodWord (by decide)
  have huri : 32 ∉ r.uri := not_mem_of_all r.uriWord (by decide)
  have hversion : split (js "HTTP/1.1") (js " ") = [js "HTTP/1.1"] := by decide
  unfold splitLimit requestLine
  rw [show js " " = [32] from rfl, split_cons hmethod, split_cons huri, ← show js " " = [32] from rfl, hversion]
  rfl

/-- **What is kept of a line** is its name, and its value up to the next `": "`. -/
theorem addField_line (hf : f ∈ r.fields) (header : Header) :
    Helper.addField header (line f) = header.set f.1 (f.2.firstPiece (js ": ")) := by
  have hname : 58 ∉ f.1 := not_mem_of_all (r.names f hf) (by decide)
  have hsplit : (line f).split (js ": ") = f.1 :: f.2.split (js ": ") := split_cons hname [32] f.2
  unfold Helper.addField splitLimit firstPiece
  rw [hsplit]
  obtain ⟨p, ps, hp⟩ := List.exists_cons_of_ne_nil (split_ne_nil (by decide : js ": " ≠ []) f.2)
  rw [hp]
  rfl

end RequestHead

theorem Header.set_new {h : Header} {key : JsString} (hproto : key ≠ js "__proto__") (hkey : key ∉ h.map Prod.fst)
    (value : JsString) : h.set key value = h ++ [(key, value)] := by
  have hnone : h.get key = none := List.lookup_eq_none_iff.2 fun p hp => by
    apply bne_iff_ne.2
    rintro rfl
    exact hkey (List.mem_map_of_mem hp)
  unfold Header.set
  rw [if_neg hproto, hnone]
  rfl

/-- Fields with new names are added in their order. -/
theorem Header.foldl_set (value : JsString × JsString → JsString) :
    ∀ (fields : List (JsString × JsString)) (h : Header),
    (∀ f ∈ fields, f.1 ≠ js "__proto__") → (h.map Prod.fst ++ fields.map Prod.fst).Nodup →
    fields.foldl (fun (h : Header) f => h.set f.1 (value f)) h = h ++ fields.map fun f => (f.1, value f)
  | [], h, _, _ => (List.append_nil h).symm
  | f :: fields, h, hproto, hnodup => by
    have hnew : f.1 ∉ h.map Prod.fst := fun hmem =>
      (List.nodup_append.1 hnodup).2.2 f.1 hmem f.1 (List.mem_cons_self ..) rfl
    rw [List.foldl_cons, Header.set_new (hproto f (List.mem_cons_self ..)) hnew,
      Header.foldl_set value fields _ (fun f' hf' => hproto f' (List.mem_cons_of_mem f hf')), List.append_assoc]
    · rfl
    · rwa [List.map_append, List.append_assoc]

namespace RequestHead

variable {r : RequestHead} {f : JsString × JsString}

theorem name_ne_proto (hf : f ∈ r.fields) : f.1 ≠ js "__proto__" := by
  intro h
  have hunder : 95 ∉ f.1 := not_mem_of_all (r.names f hf) (by decide)
  rw [h] at hunder
  exact hunder (by decide)

/-- **What `parseHeader` returns**: each value only up to its first `": "`. -/
theorem parse_serialize (r : RequestHead) : Helper.parseHeader r.serialize =
    ⟨some r.method, some r.uri, r.fields.map fun f => (f.1, f.2.firstPiece (js ": "))⟩ := by
  unfold Helper.parseHeader
  have hfields : r.fields.foldl (fun h f => Helper.addField h (line f)) [] =
      r.fields.foldl (fun (h : Header) f => h.set f.1 (f.2.firstPiece (js ": "))) [] :=
    List.foldl_ext _ _ _ fun h f hf => addField_line hf h
  rw [split_serialize]
  simp only [List.headD_cons, List.tail_cons, split_requestLine, List.foldl_append, List.foldl_map, hfields]
  rw [Header.foldl_set _ r.fields [] (fun f hf => name_ne_proto hf) r.distinct]
  rfl

theorem get_mapped (value : JsString × JsString → JsString) (key : JsString) : ∀ fields : List (JsString × JsString),
    Header.get (fields.map fun f => (f.1, value f)) key = (fields.find? (key == ·.1)).map value
  | [] => rfl
  | f :: fields => by
    unfold Header.get
    rw [List.map_cons, List.lookup_cons, List.find?_cons]
    cases h : key == f.1 with
    | true => rfl
    | false => exact get_mapped value key fields

theorem lookup_eq_find (key : JsString) (fields : List (JsString × JsString)) :
    fields.lookup key = (fields.find? (key == ·.1)).map Prod.snd := by
  have h := get_mapped Prod.snd key fields
  rwa [List.map_id'' fun _ => rfl] at h

theorem find_name (hf : f ∈ r.fields) : r.fields.find? (f.1 == ·.1) = some f := by
  obtain ⟨g, hg⟩ := Option.isSome_iff_exists.1 ((List.find?_isSome (p := (f.1 == ·.1))).2
    ⟨f, hf, beq_self_eq_true f.1⟩)
  have hkey := List.find?_some hg
  have hname : f.1 = g.1 := eq_of_beq hkey
  rw [hg, List.inj_on_of_nodup_map r.distinct hf (List.mem_of_find?_eq_some hg) hname]

/-- **`parseHeader` undoes the serialisation exactly when no value has a `": "` in it.** -/
theorem parse_undoes_iff (r : RequestHead) :
    r.ReadBack (Helper.parseHeader r.serialize) ↔ ∀ f ∈ r.fields, ¬ js ": " <:+: f.2 := by
  have hcut : ∀ f : JsString × JsString, f.2.firstPiece (js ": ") = f.2 ↔ ¬ js ": " <:+: f.2 :=
    fun f => firstPiece_eq_self_iff (by decide)
  rw [parse_serialize]
  constructor
  · rintro ⟨-, -, hget⟩ f hf
    have hself := r.find_name hf
    have hvalue := hget f.1
    rw [get_mapped, lookup_eq_find, hself] at hvalue
    exact (hcut f).1 (Option.some.inj hvalue)
  · intro h
    refine ⟨rfl, rfl, fun key => ?_⟩
    rw [get_mapped, lookup_eq_find]
    cases hfind : r.fields.find? (key == ·.1) with
    | none => rfl
    | some f => exact congrArg some ((hcut f).2 (h f (List.mem_of_find?_eq_some hfind)))

theorem root_isWord : (js "/").all isWordUnit := by decide

/-- A value with a `": "` in it. -/
def withColon : RequestHead where
  method := js "GET"
  uri := js "/"
  fields := [(js "A", js "a: b")]
  methodWord := by decide
  uriWord := root_isWord
  names := by decide
  distinct := by decide
  values := by decide

/-- **What follows the `": "` is lost.** -/
theorem value_cut : (Helper.parseHeader withColon.serialize).header.get (js "A") = some (js "a") ∧
    ¬ withColon.ReadBack (Helper.parseHeader withColon.serialize) := by
  have hget : (Helper.parseHeader withColon.serialize).header.get (js "A") = some (js "a") := by decide
  refine ⟨hget, fun h => ?_⟩
  have hkey := h.2.2 (js "A")
  rw [hget] at hkey
  revert hkey
  decide

end RequestHead
end V8h
