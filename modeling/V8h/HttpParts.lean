import V8h.HttpHeader
import V8h.HttpRequests
import V8h.Lib.Scanner
/-!
# HttpParts — the stages of a multipart request

A `Client` reads a multipart body in stages: up to the boundary, two bytes, and then a part's header or the last line.
Each stage takes a first part of what has been received, so they are those of the whole request however it comes
(`Scanner`).  The boundary is what `parseHeader` and `/boundary=(.*)/` leave of the text in the header: when that is
less, the stages end with the `CRLF` behind the first boundary line (`Upload.exists_path`).
-/
namespace V8h

open Machine

/-! ## The boundary the script has -/

/-- The second half of a surrogate pair. -/
def isTrail (u : UInt16) : Bool := 0xDC00 ≤ u ∧ u ≤ 0xDFFF

/-- The bytes a text has at least. -/
def weight (s : JsString) : Nat := (s.map fun u => if u < 128 then 1 else 2).sum

/-- What the engine's conversions are relied on for: texts are written one after the other but for a surrogate pair, CR
and LF are the bytes of CR and LF only, and other units than ASCII have more bytes than one. -/
structure V8.Lawful [V8] : Prop where
  append : ∀ s t : JsString, (∀ u ∈ t.head?, isTrail u = false) → V8.utf8 (s ++ t) = V8.utf8 s ++ V8.utf8 t
  line   : ∀ s : JsString, s.all isLineUnit → 13 ∉ V8.utf8 s ∧ 10 ∉ V8.utf8 s
  weight : ∀ s : JsString, weight s ≤ (V8.utf8 s).length
  crlf   : ∀ bytes : List UInt8, V8.fromUtf8 bytes = js "\r\n" ↔ bytes = crlf

/-- The bytes of one unit. -/
def unitBytes (u : UInt16) : List UInt8 :=
  if u < 128 then [u.toUInt8]
  else if u < 0x800 then [UInt8.ofNat (192 + u.toNat / 64), UInt8.ofNat (128 + u.toNat % 64)]
  else [UInt8.ofNat (224 + u.toNat / 4096), UInt8.ofNat (128 + u.toNat / 64 % 64), UInt8.ofNat (128 + u.toNat % 64)]

/-- Strings with each unit for itself, surrogates too; what is not ASCII is not decoded. -/
abbrev unitwise : V8 where
  utf8 text            := text.flatMap unitBytes
  fromUtf8 data        := data.map fun b => if b < 128 then b.toUInt16 else 0xFFFD
  utf8_ascii text hlow := by
    induction text with
    | nil => rfl
    | cons u text ih =>
      rw [List.flatMap_cons, ih fun v hv => hlow v (List.mem_cons_of_mem u hv), unitBytes,
        if_pos (hlow u List.mem_cons_self)]
      rfl

theorem not_mem_unitBytes {u : UInt16} {b : UInt8} (hb : b < 128) (hu : u ≠ b.toUInt16) : b ∉ unitBytes u := by
  have hb' : b.toNat < 128 := UInt8.lt_iff_toNat_lt.1 hb
  have hlt := u.toNat_lt
  have hbyte : ∀ n, 128 ≤ n → n < 256 → b ≠ UInt8.ofNat n := by
    rintro n hn hn' rfl
    rw [UInt8.toNat_ofNat'] at hb'
    omega
  unfold unitBytes
  split
  · intro h
    refine hu (UInt16.toNat_inj.1 ?_)
    rename_i hlow
    have hlow : u.toNat < 128 := UInt16.lt_iff_toNat_lt.1 hlow
    rw [List.mem_singleton.1 h, UInt8.toNat_toUInt16, UInt16.toNat_toUInt8]
    omega
  · split
    · rename_i hmiddle
      have hmiddle : u.toNat < 0x800 := UInt16.lt_iff_toNat_lt.1 hmiddle
      simp only [List.mem_cons, List.not_mem_nil, or_false, not_or]
      exact ⟨hbyte _ (by omega) (by omega), hbyte _ (by omega) (by omega)⟩
    · simp only [List.mem_cons, List.not_mem_nil, or_false, not_or]
      exact ⟨hbyte _ (by omega) (by omega), hbyte _ (by omega) (by omega), hbyte _ (by omega) (by omega)⟩

theorem weight_le_unitBytes : ∀ s : JsString, weight s ≤ (s.flatMap unitBytes).length
  | [] => Nat.le_refl 0
  | u :: s => by
    have ih := weight_le_unitBytes s
    have hu : (if u < 128 then 1 else 2) ≤ (unitBytes u).length := by
      unfold unitBytes
      split
      · exact Nat.le_refl 1
      · split
        · exact Nat.le_refl 2
        · exact Nat.le_succ 2
    rw [List.flatMap_cons, List.length_append, weight, List.map_cons, List.sum_cons, ← weight]
    omega

theorem decoded_eq_iff {b c : UInt8} (hc : c < 128) :
    (if b < 128 then b.toUInt16 else 0xFFFD) = c.toUInt16 ↔ b = c := by
  constructor
  · intro h
    split at h
    · exact UInt8.toUInt16_inj.1 h
    · have hc' : c.toNat < 128 := UInt8.lt_iff_toNat_lt.1 hc
      have hn := congrArg UInt16.toNat h
      rw [UInt8.toNat_toUInt16] at hn
      exact absurd (hn ▸ hc') (by decide)
  · rintro rfl
    rw [if_pos hc]

theorem unitwise_lawful : @V8.Lawful unitwise := by
  refine @V8.Lawful.mk unitwise (fun s t _ => List.flatMap_append) (fun s hs => ?_) weight_le_unitBytes
    (fun bytes => ?_)
  · have hline : ∀ u ∈ s, u ≠ 13 ∧ u ≠ 10 := fun u hu => of_decide_eq_true (List.all_eq_true.1 hs u hu)
    constructor
    · intro h
      obtain ⟨u, hu, hmem⟩ := List.mem_flatMap.1 h
      exact not_mem_unitBytes (by decide) (hline u hu).1 hmem
    · intro h
      obtain ⟨u, hu, hmem⟩ := List.mem_flatMap.1 h
      exact not_mem_unitBytes (by decide) (hline u hu).2 hmem
  · show (bytes.map fun b => if b < 128 then b.toUInt16 else 0xFFFD) = [13, 10] ↔ bytes = [13, 10]
    match bytes with
    | [] => simp
    | [a] => simp
    | [a, b] =>
      have ha := decoded_eq_iff (b := a) (c := 13) (by decide)
      have hb := decoded_eq_iff (b := b) (c := 10) (by decide)
      simpa using and_congr ha hb
    | a :: b :: d :: bytes => simp

/-- The `Content-Type` of a request with a boundary. -/
def contentTypeOf (boundary : JsString) : JsString := js "multipart/form-data; boundary=" ++ boundary

/-- What `parseHeader` and then `/boundary=(.*)/` leave of a boundary. -/
def kept (boundary : JsString) : JsString :=
  (boundary.firstPiece (js ": ")).takeWhile fun u => !JsString.isLineTerminator u

/-- A boundary with no `": "`, and no line terminator of JavaScript's. -/
def Plain (boundary : JsString) : Prop := ¬ js ": " <:+: boundary ∧ ∀ u ∈ boundary, u ≠ 0x2028 ∧ u ≠ 0x2029

section

variable {b : JsString} {u : UInt16}

theorem firstPiece_contentTypeOf (b : JsString) :
    (contentTypeOf b).firstPiece (js ": ") = contentTypeOf (b.firstPiece (js ": ")) :=
  JsString.firstPiece_append (js " ") b _ (by decide)

theorem isMultipart_contentTypeOf (b : JsString) : (contentTypeOf b).isMultipart = true := rfl

theorem boundaryOf_contentTypeOf (b : JsString) :
    (contentTypeOf b).boundaryOf = some (b.takeWhile fun u => !JsString.isLineTerminator u) := rfl

theorem isLineTerminator_iff (h : isLineUnit u = true) :
    JsString.isLineTerminator u = true ↔ u = 0x2028 ∨ u = 0x2029 := by
  have h' : u ≠ 13 ∧ u ≠ 10 := of_decide_eq_true h
  simp only [JsString.isLineTerminator, List.mem_cons, List.not_mem_nil, or_false, decide_eq_true_eq, h'.1, h'.2,
    false_or]

theorem two_le_weight {v : UInt16} (u : UInt16) (s : JsString) : 2 ≤ weight (u :: v :: s) := by
  simp only [weight, List.map_cons, List.sum_cons]
  split <;> split <;> omega

/-- **What is lost of a boundary** begins with a `": "` or a line terminator. -/
theorem exists_kept (hline : b.all isLineUnit) : ∃ rest, b = kept b ++ rest ∧ (Plain b ↔ rest = []) ∧
    (rest ≠ [] → 2 ≤ weight rest ∧ ∀ u ∈ rest.head?, isTrail u = false) := by
  obtain ⟨tail, heq, htail⟩ := JsString.exists_firstPiece (js ": ") b
  obtain ⟨cut, hcut⟩ : ∃ cut, cut = (b.firstPiece (js ": ")).dropWhile fun u => !JsString.isLineTerminator u := ⟨_, rfl⟩
  have hb : b = kept b ++ (cut ++ tail) := by
    rw [← List.append_assoc, kept, hcut, List.takeWhile_append_dropWhile, ← heq]
  have hself : b.firstPiece (js ": ") = b ↔ ¬ js ": " <:+: b := JsString.firstPiece_eq_self_iff (by decide)
  refine ⟨cut ++ tail, hb, ?_⟩
  cases cut with
  | nil =>
    have hkept : kept b = b.firstPiece (js ": ") := by
      have := List.takeWhile_append_dropWhile (p := fun u => !JsString.isLineTerminator u) (l := b.firstPiece (js ": "))
      rwa [← hcut, List.append_nil] at this
    rw [List.nil_append] at hb ⊢
    refine ⟨⟨fun h => ?_, fun h => ?_⟩, fun hne => ?_⟩
    · rw [hself.2 h.1] at heq
      exact List.append_cancel_left (heq.symm.trans (List.append_nil b).symm)
    · rw [h, List.append_nil] at heq hb
      refine ⟨hself.1 heq.symm, fun u hu => ?_⟩
      have hterm : JsString.isLineTerminator u = false := by
        rw [hb, kept] at hu
        simpa using List.all_eq_true.1 (List.all_takeWhile (p := fun u => !JsString.isLineTerminator u)) u hu
      have := mt (isLineTerminator_iff (List.all_eq_true.1 hline u hu)).2 (by rw [hterm]; exact Bool.false_ne_true)
      exact not_or.1 this
    · obtain ⟨e, rfl⟩ := htail.resolve_left hne
      exact ⟨two_le_weight _ _, fun u hu => by cases hu; decide⟩
  | cons u cut =>
    have hmem : u ∈ b := by
      rw [hb]
      exact List.mem_append_right _ List.mem_cons_self
    have hterm : JsString.isLineTerminator u = true := by
      have := List.head?_dropWhile_not (fun u => !JsString.isLineTerminator u) (b.firstPiece (js ": "))
      rw [← hcut] at this
      simpa using this
    have hu := (isLineTerminator_iff (List.all_eq_true.1 hline u hmem)).1 hterm
    refine ⟨⟨fun h => ?_, fun h => nomatch h⟩, fun _ => ⟨?_, ?_⟩⟩
    · rcases hu with rfl | rfl
      · exact absurd rfl (h.2 _ hmem).1
      · exact absurd rfl (h.2 _ hmem).2
    · rcases hu with rfl | rfl <;> exact Nat.le_add_right 2 _
    · intro v hv
      cases hv
      rcases hu with rfl | rfl <;> decide

end

/-! ## The stages -/

/-- What a `Client` with a multipart request reads next. -/
inductive ReadStage where
  | header
  | boundary
  | mark
  | partHeader
  | last
deriving DecidableEq

namespace ReadStage

/-- What a stage takes from the front of `q`, and the stage that follows; none follows the last. -/
def read (T : List UInt8) : ReadStage → List UInt8 → Option (Option ReadStage × List UInt8)
  | .header, q     => (Seek.after crlf2 q).map (some .boundary, ·)
  | .boundary, q   => (Seek.after T q).map (some .mark, ·)
  | .mark, q       =>
    if 2 ≤ q.length then some (some (if q.take 2 = crlf then .partHeader else .last), q.drop 2) else none
  | .partHeader, q => (Seek.after crlf2 q).map (some .boundary, ·)
  | .last, q       => (Seek.after crlf q).map (none, ·)

variable {T q r : List UInt8} {stage : ReadStage} {next : Option ReadStage}

/-- **What comes behind changes nothing.** -/
theorem read_grows (hT : T ≠ []) (e : List UInt8) (h : stage.read T q = some (next, r)) :
    stage.read T (q ++ e) = some (next, r ++ e) := by
  have hgrows : ∀ {D : List UInt8} {s₁ : Option ReadStage}, D ≠ [] → (Seek.after D q).map (s₁, ·) = some (next, r) →
      (Seek.after D (q ++ e)).map (s₁, ·) = some (next, r ++ e) := by
    intro D s₁ hD h
    obtain ⟨r', hr, heq⟩ := Option.map_eq_some_iff.1 h
    cases heq
    rw [Seek.after_grows hD e hr, Option.map_some]
  cases stage with
  | header => exact hgrows (by decide) h
  | boundary => exact hgrows hT h
  | mark =>
    simp only [read] at h ⊢
    split at h
    · rename_i hlen
      cases h
      rw [if_pos (by rw [List.length_append]; omega), List.take_append_of_le_length hlen,
        List.drop_append_of_le_length hlen]
    · cases h
  | partHeader => exact hgrows (by decide) h
  | last => exact hgrows (by decide) h

/-- What is left, and where a stage may lead. -/
theorem read_spec (h : stage.read T q = some (next, r)) :
    r <:+ q ∧ next ≠ some .header ∧ (next = none → stage = .last) := by
  have hafter : ∀ {D : List UInt8} {s₁ : Option ReadStage}, (Seek.after D q).map (s₁, ·) = some (next, r) →
      r <:+ q ∧ next = s₁ := by
    intro D s₁ h
    obtain ⟨r', hr, heq⟩ := Option.map_eq_some_iff.1 h
    cases heq
    exact ⟨Seek.after_suffix hr, rfl⟩
  cases stage with
  | header =>
    obtain ⟨hr, rfl⟩ := hafter h
    exact ⟨hr, by decide, by decide⟩
  | boundary =>
    obtain ⟨hr, rfl⟩ := hafter h
    exact ⟨hr, by decide, by decide⟩
  | mark =>
    simp only [read] at h
    split at h
    · cases h
      refine ⟨List.drop_suffix 2 q, ?_, nofun⟩
      split <;> decide
    · cases h
  | partHeader =>
    obtain ⟨hr, rfl⟩ := hafter h
    exact ⟨hr, by decide, by decide⟩
  | last =>
    obtain ⟨hr, rfl⟩ := hafter h
    exact ⟨hr, by decide, fun _ => rfl⟩

end ReadStage

/-- The stages as a scanner; `none` is where it ends. -/
def multipart (T : List UInt8) (hT : T ≠ []) : Scanner (Option ReadStage) UInt8 where
  advance stage q := stage.bind (·.read T q)
  grows {stage _ _ _} e h := by
    cases stage with
    | none => cases h
    | some stage => exact ReadStage.read_grows hT e h

section

variable {T q r : List UInt8} (hT : T ≠ [])

theorem advance_header (h : Seek.after crlf2 q = some r) :
    (multipart T hT).advance (some .header) q = some (some .boundary, r) := by
  show (Seek.after crlf2 q).map _ = _
  rw [h, Option.map_some]

theorem advance_boundary (h : Seek.after T q = some r) :
    (multipart T hT).advance (some .boundary) q = some (some .mark, r) := by
  show (Seek.after T q).map _ = _
  rw [h, Option.map_some]

theorem advance_mark (a b : UInt8) (q : List UInt8) : (multipart T hT).advance (some .mark) (a :: b :: q) =
    some (some (if [a, b] = crlf then .partHeader else .last), q) := by
  show (if 2 ≤ q.length + 2 then _ else none) = _
  rw [if_pos (Nat.le_add_left 2 q.length)]
  rfl

theorem advance_partHeader (h : Seek.after crlf2 q = some r) :
    (multipart T hT).advance (some .partHeader) q = some (some .boundary, r) := by
  show (Seek.after crlf2 q).map _ = _
  rw [h, Option.map_some]

theorem advance_last (h : Seek.after crlf q = some r) :
    (multipart T hT).advance (some .last) q = some (none, r) := by
  show (Seek.after crlf q).map _ = _
  rw [h, Option.map_some]

end

/-! ## The bytes of a multipart body -/

/-- A header block that ends with its first empty line, and a content without the boundary. -/
structure Part (D : List UInt8) where
  header  : List UInt8
  content : List UInt8
  block   : IsLeast {i | crlf2 <+: header.drop i} (header.length - crlf2.length)
  free    : ¬ D <:+: content

def Part.bytes {D : List UInt8} (part : Part D) : List UInt8 := part.header ++ part.content

/-- Each part behind a line with the boundary, and the last boundary. -/
def multipartBody (D : List UInt8) (parts : List (Part D)) : List UInt8 :=
  (parts.map fun part => D ++ crlf ++ part.bytes ++ crlf).flatten ++ (D ++ [45, 45] ++ crlf)

section

variable {T D U x : List UInt8}

theorem multipartBody_cons (part : Part D) (parts : List (Part D)) : multipartBody D (part :: parts) =
    D ++ (crlf ++ (part.header ++ (part.content ++ crlf ++ multipartBody D parts))) := by
  simp only [multipartBody, Part.bytes, List.map_cons, List.flatten_cons, List.append_assoc]

/-- **A boundary that is not followed by `CRLF`** is the last one, and the next `CRLF` ends the body. -/
theorem path_last (hT : T ≠ []) (hx : ∀ e, Seek.after T (x ++ T ++ e) = some e) (hlen : 2 ≤ U.length) (hU : 13 ∉ U) :
    (multipart T hT).Path 3 (some .boundary) (x ++ T ++ (U ++ crlf)) none [] := by
  obtain ⟨a, b, U, rfl⟩ : ∃ a b U', U = a :: b :: U' := by
    match U, hlen with
    | a :: b :: U', _ => exact ⟨a, b, U', rfl⟩
  have ha : [a, b] ≠ crlf := by
    rintro h
    cases h
    exact hU List.mem_cons_self
  have hlast : Seek.after crlf (U ++ crlf) = some [] := by
    have h13 : (13 : UInt8) ∉ U := fun h => hU (List.mem_cons_of_mem _ (List.mem_cons_of_mem _ h))
    have h := Seek.after_append U [] (Seek.isLeast_of_not_mem h13 [10] [])
    rwa [List.append_nil] at h
  have hmark : (multipart T hT).advance (some .mark) (a :: b :: U ++ crlf) = some (some .last, U ++ crlf) :=
    (advance_mark hT a b (U ++ crlf)).trans (by rw [if_neg ha])
  exact .step (advance_boundary hT (hx _)) (.step hmark (.step (advance_last hT hlast) (.refl none [])))

/-- **The parts are read one by one**, and the last boundary. -/
theorem path_parts (hD : D ≠ []) (h13 : 13 ∉ D) (h10 : 10 ∉ D) : ∀ (parts : List (Part D)) (x : List UInt8),
    (∀ e, Seek.after D (x ++ D ++ e) = some e) →
    (multipart D hD).Path (3 * parts.length + 3) (some .boundary) (x ++ multipartBody D parts) none []
  | [], x, hx => by
    have h := path_last hD hx (U := [45, 45]) (by decide) (by decide)
    rw [List.append_assoc, ← List.append_assoc D] at h
    exact h
  | part :: parts, x, hx => by
    have hsep : ∀ a ∈ crlf, a ∉ D := by
      intro a ha
      rcases List.mem_cons.1 ha with rfl | ha
      · exact h13
      · rwa [List.mem_singleton.1 ha]
    have hnext : ∀ e, Seek.after D (part.content ++ crlf ++ D ++ e) = some e := fun e =>
      Seek.after_append _ e (Seek.isLeast_behind part.free (by decide) hsep e)
    have ih := path_parts hD h13 h10 parts (part.content ++ crlf) hnext
    rw [multipartBody_cons, ← List.append_assoc]
    exact .step (advance_boundary hD (hx _)) (.step (advance_mark hD 13 10 _)
      (.step (advance_partHeader hD (Seek.after_block (by decide) part.block _)) ih))

theorem path_header {n : Nat} {f : Option ReadStage} {header q t : List UInt8} (hT : T ≠ [])
    (hblock : IsLeast {i | crlf2 <+: header.drop i} (header.length - crlf2.length))
    (h : (multipart T hT).Path n (some .boundary) q f t) :
    (multipart T hT).Path (n + 1) (some .header) (header ++ q) f t :=
  .step (advance_header hT (Seek.after_block (by decide) hblock q)) h

end

/-! ## The requests -/

/-- The line a part is behind. -/
def delimiter [V8] (boundary : JsString) : List UInt8 := V8.utf8 (js "--" ++ boundary)

/-- A multipart request, whose header block ends with its first empty line and announces a body. -/
structure Upload [V8] where
  head     : RequestHead
  boundary : JsString
  header   : List UInt8
  parts    : List (Part (delimiter boundary))
  typed    : (js "Content-Type", contentTypeOf boundary) ∈ head.fields
  sized    : js "Content-Length" ∈ head.fields.map Prod.fst
  text     : V8.fromUtf8 header = head.serialize
  block    : IsLeast {i | crlf2 <+: header.drop i} (header.length - crlf2.length)
  short    : (delimiter boundary).length < 2 ^ 31

namespace Upload

variable [V8]

def bytes (r : Upload) : List UInt8 := r.header ++ multipartBody (delimiter r.boundary) r.parts

/-- The header and the first boundary line. -/
def opening (r : Upload) : List UInt8 := r.header ++ (delimiter r.boundary ++ crlf)

variable {laws : V8.Lawful} {r : Upload}

theorem line (r : Upload) : r.boundary.all isLineUnit := by
  have h := r.head.values _ r.typed
  rw [contentTypeOf, List.all_append, Bool.and_eq_true] at h
  exact h.2

/-- **The `Content-Type` the script has.** -/
theorem get_contentType (r : Upload) : ∃ contentType,
    (Helper.parseHeader (V8.fromUtf8 r.header)).header.get (js "Content-Type") = some contentType ∧
      contentType.isMultipart = true ∧ contentType.boundaryOf = some (kept r.boundary) := by
  refine ⟨contentTypeOf (r.boundary.firstPiece (js ": ")), ?_, isMultipart_contentTypeOf _,
    boundaryOf_contentTypeOf _⟩
  rw [r.text, RequestHead.parse_serialize, RequestHead.get_mapped, RequestHead.find_name r.typed, Option.map_some,
    firstPiece_contentTypeOf]

theorem get_contentLength (r : Upload) : ∃ contentLength,
    (Helper.parseHeader (V8.fromUtf8 r.header)).header.get (js "Content-Length") = some contentLength := by
  obtain ⟨f, hf, hname⟩ := List.mem_map.1 r.sized
  refine ⟨f.2.firstPiece (js ": "), ?_⟩
  rw [r.text, RequestHead.parse_serialize, RequestHead.get_mapped, ← hname, RequestHead.find_name hf, Option.map_some]

theorem delimiter_ne_nil (laws : V8.Lawful) (b : JsString) : delimiter b ≠ [] := by
  intro h
  have hle := laws.weight (js "--" ++ b)
  rw [show V8.utf8 (js "--" ++ b) = [] from h] at hle
  exact absurd hle (Nat.not_le_of_lt (Nat.lt_of_lt_of_le (by decide) (two_le_weight 45 b)))

/-- **The boundary the script has is a first part of the boundary**, and what is lost is no `CRLF`. -/
theorem delimiter_kept (laws : V8.Lawful) (r : Upload) : ∃ U, delimiter r.boundary = delimiter (kept r.boundary) ++ U ∧
    (Plain r.boundary ↔ U = []) ∧ (U ≠ [] → 2 ≤ U.length) ∧ 13 ∉ U := by
  obtain ⟨rest, hb, hplain, hrest⟩ := exists_kept r.line
  have hline : rest.all isLineUnit := by
    have h := r.line
    rw [hb, List.all_append, Bool.and_eq_true] at h
    exact h.2
  have hnil : V8.utf8 [] = [] := V8.utf8_ascii [] nofun
  have hlen : rest ≠ [] → 2 ≤ (V8.utf8 rest).length := fun hne => (hrest hne).1.trans (laws.weight rest)
  have hhead : ∀ u ∈ rest.head?, isTrail u = false := by
    by_cases hne : rest = []
    · rw [hne]
      exact nofun
    · exact (hrest hne).2
  refine ⟨V8.utf8 rest, ?_, ⟨fun h => ?_, fun h => hplain.2 ?_⟩, fun hne => hlen ?_, (laws.line rest hline).1⟩
  · rw [delimiter, delimiter, ← laws.append _ _ hhead, List.append_assoc, ← hb]
  · rw [hplain.1 h, hnil]
  · by_contra hne
    rw [h] at hlen
    exact absurd (hlen hne) (by decide)
  · rintro rfl
    exact hne hnil

theorem short_kept (laws : V8.Lawful) (r : Upload) : (delimiter (kept r.boundary)).length < 2 ^ 31 := by
  obtain ⟨U, hD, -, -, -⟩ := delimiter_kept laws r
  have h := r.short
  rw [hD, List.length_append] at h
  omega

theorem line_delimiter (laws : V8.Lawful) (r : Upload) : 13 ∉ delimiter r.boundary ∧ 10 ∉ delimiter r.boundary := by
  refine laws.line _ ?_
  rw [List.all_append, r.line]
  rfl

omit [V8] in
/-- A boundary is found at once behind the header. -/
theorem after_first (T e : List UInt8) : Seek.after T ([] ++ T ++ e) = some e :=
  Seek.after_append [] e ⟨List.prefix_append _ _, fun _ _ => Nat.zero_le _⟩

theorem path_whole (laws : V8.Lawful) (r : Upload) {T : List UInt8} (hT : T ≠ []) (hD : delimiter r.boundary = T) :
    (multipart T hT).Path (3 * r.parts.length + 4) (some .header) r.bytes none [] := by
  subst hD
  obtain ⟨h13, h10⟩ := line_delimiter laws r
  exact path_header hT r.block (path_parts hT h13 h10 r.parts [] (after_first _))

/-- **The stages of a request**, with the boundary the script has: they end with the request, or with the first boundary
line when the boundary is only a part and there are parts. -/
theorem exists_path (laws : V8.Lawful) (r : Upload) : ∃ n P, n ≤ 3 * r.parts.length + 4 ∧
    (multipart (delimiter (kept r.boundary)) (delimiter_ne_nil laws _)).Path n (some .header) P none [] ∧
    P <+: r.bytes ∧ (Plain r.boundary ∨ r.parts = [] → P = r.bytes) ∧
    (¬ Plain r.boundary → r.parts ≠ [] → P = r.opening) := by
  obtain ⟨U, hD, hplain, hlen, h13⟩ := delimiter_kept laws r
  have hT := delimiter_ne_nil laws (kept r.boundary)
  have hx := after_first (delimiter (kept r.boundary))
  by_cases hp : Plain r.boundary
  · rw [hplain.1 hp, List.append_nil] at hD
    refine ⟨_, r.bytes, Nat.le_refl _, path_whole laws r hT hD, List.prefix_rfl, fun _ => rfl, fun h => absurd hp h⟩
  · have hU : U ≠ [] := mt hplain.2 hp
    by_cases hparts : r.parts = []
    · have hbytes : r.bytes = r.header ++ ([] ++ delimiter (kept r.boundary) ++ (U ++ [45, 45] ++ crlf)) := by
        rw [bytes, hparts, hD]
        simp only [multipartBody, List.map_nil, List.flatten_nil, List.nil_append, List.append_assoc]
      refine ⟨4, r.bytes, by omega, ?_, List.prefix_rfl, fun _ => rfl, fun _ hne => absurd hparts hne⟩
      rw [hbytes]
      refine path_header hT r.block (path_last hT hx ?_ ?_)
      · rw [List.length_append]
        exact Nat.le_add_left 2 _
      · simp [h13]
    · have hopening : r.opening = r.header ++ ([] ++ delimiter (kept r.boundary) ++ (U ++ crlf)) := by
        rw [opening, hD, List.nil_append, List.append_assoc]
      refine ⟨4, r.opening, by omega, ?_, ?_, fun h => absurd h (not_or.2 ⟨hp, hparts⟩), fun _ _ => rfl⟩
      · rw [hopening]
        exact path_header hT r.block (path_last hT hx (hlen hU) h13)
      · obtain ⟨part, parts, hcons⟩ := List.exists_cons_of_ne_nil hparts
        rw [bytes, hcons, multipartBody_cons, opening, ← List.append_assoc (delimiter _)]
        exact List.prefix_append_right_inj _ |>.2 (List.prefix_append _ _)

end Upload

end V8h
