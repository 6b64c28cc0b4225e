import V8h.BufferSpec
import V8h.ScriptBuffer
/-!
# BufferSearch — `partial_find` on a buffer, again and again

The position `partial_find` returns went through `int` twice, so what a search gives is the position made an `int`
(`partialFind_run`).  Below `2 ^ 31` that is the position itself, and a search goes on where the last one stopped
(`search_resumes`).  In a larger buffer it may be another number, one that `isFound` takes for a hit
(`search_survives_iff`).
-/
namespace V8h

namespace Buffer

variable {w : Nat} {b d : Buffer} {q n : List UInt8} {offset : Nat}

/-- **A search of the buffer** gives the first place from the offset on where the needle may begin, made an `int`. -/
theorem partialFind_run (hw : 32 ≤ w) (h : Holds w b q) (hd : Holds w d n) (hn : n ≠ []) (hoff : offset ≤ q.length) :
    b.partialFind w d offset = .ok (toInt (offset + Seek.firstPartial n (q.drop offset) : Nat)) := by
  have hsize := h.size_eq
  have hblock := h.block
  have hcount := h.counters
  have hroom := h.room
  have hn0 : d.size ≠ 0 := by rwa [hd.size_eq, Ne, List.length_eq_zero_iff]
  unfold partialFind
  rw [if_neg hn0]
  by_cases he : offset ≥ b.size
  · have hlen : offset = q.length := by omega
    rw [if_pos he, hlen, List.drop_length, hsize]
    rfl
  · have hload : b.load (b.cursor + offset) (b.size - offset) = .ok ((q.drop offset).map some) := by
      rw [load, Block.load_ok (by omega), List.map_drop, ← h.content, content, Block.drop_slice _ _ (by omega)]
    rw [if_neg he, hload, ok_bind, determinate_map_some, ok_bind, peek_spec hd (Nat.le_refl _), ok_bind,
      List.take_of_length_le (Nat.le_of_eq hd.size_eq.symm), partialFind_toInt hn]
    show Except.ok (toInt _) = Except.ok _
    rw [toInt_emod hw, toInt_toInt_add]
    congr 2
    omega

/-- An empty needle is found where the search begins. -/
theorem partialFind_nil (hd : Holds w d []) (b : Buffer) (offset : Nat) :
    b.partialFind w d offset = .ok (toInt offset) := by
  have hsize : d.size = 0 := hd.size_eq
  rw [partialFind, if_pos hsize]
  rfl

/-- **A search of less than 2 GiB.** -/
theorem partialFind_spec (hw : 32 ≤ w) (h : Holds w b q) (hd : Holds w d n) (hn : n ≠ []) (hlen : q.length < 2 ^ 31)
    (hoff : offset ≤ q.length) :
    b.partialFind w d offset = .ok ((offset + Seek.firstPartial n (q.drop offset) : Nat) : Int) := by
  have hle := Seek.firstPartial_le n (q.drop offset)
  rw [List.length_drop] at hle
  rw [partialFind_run hw h hd hn hoff, toInt_of_lt (by omega) (by omega)]

/-! ## Resuming -/

/-- The place a search from an offset stops at: where the needle may begin, or at once when there is no needle. -/
def stop (n q : List UInt8) (offset : Nat) : Nat :=
  if n = [] then offset else offset + Seek.firstPartial n (q.drop offset)

theorem stop_le (hoff : offset ≤ q.length) : stop n q offset ≤ q.length := by
  have hle := Seek.firstPartial_le n (q.drop offset)
  rw [List.length_drop] at hle
  unfold stop
  split <;> omega

theorem partialFind_stop (hw : 32 ≤ w) (h : Holds w b q) (hd : Holds w d n) (hlen : q.length < 2 ^ 31)
    (hoff : offset ≤ q.length) : b.partialFind w d offset = .ok (stop n q offset : Int) := by
  unfold stop
  split
  · rename_i hn
    subst hn
    rw [partialFind_nil hd, toInt_of_lt (by omega) (by omega)]
  · rename_i hn
    exact partialFind_spec hw h hd hn hlen hoff

/-- **Where the text grows, a search may begin where the last one stopped.** -/
theorem stop_stop (hoff : offset ≤ q.length) (e : List UInt8) :
    stop n (q ++ e) (stop n q offset) = stop n (q ++ e) offset := by
  unfold stop
  split
  · rfl
  · rw [List.drop_append_of_le_length hoff, Nat.add_assoc, Nat.add_left_cancel_iff, ← List.drop_drop,
      List.drop_append_of_le_length hoff]
    exact Seek.firstPartial_resume n (q.drop offset) e

/-- Buffers that hold more and more of a stream, each a chunk more than the one before. -/
def Growing (w : Nat) : List UInt8 → List (List UInt8 × Buffer) → Prop
  | _, []              => True
  | q, (chunk, b) :: s => Holds w b (q ++ chunk) ∧ Growing w (q ++ chunk) s

/-- Scanning after each chunk, from the position returned last. -/
def scan (w : Nat) (needle : Buffer) (last : Int) (stage : List UInt8 × Buffer) : Except Trap Int :=
  stage.2.partialFind w needle (toUint last)

theorem scan_run (hw : 32 ≤ w) (hd : Holds w d n) : ∀ (stages : List (List UInt8 × Buffer)) (q : List UInt8),
    Growing w q stages → (q ++ (stages.map Prod.fst).flatten).length < 2 ^ 31 → offset ≤ q.length →
    stages.foldlM (scan w d) (stop n q offset : Int) =
      .ok (stop n (q ++ (stages.map Prod.fst).flatten) offset : Int)
  | [], q, _, _, _ => by
    rw [List.map_nil, List.flatten_nil, List.append_nil]
    rfl
  | (chunk, b) :: stages, q, ⟨hb, hrest⟩, hlen, hoff => by
    rw [List.map_cons, List.flatten_cons, ← List.append_assoc] at hlen ⊢
    have hlen₁ : (q ++ chunk).length < 2 ^ 31 := Nat.lt_of_le_of_lt (List.prefix_append _ _).length_le hlen
    have hstop := stop_le (n := n) hoff
    have hle : stop n q offset ≤ (q ++ chunk).length := by
      rw [List.length_append]
      omega
    have hfirst : scan w d (stop n q offset : Int) (chunk, b) = .ok (stop n (q ++ chunk) offset : Int) := by
      rw [scan, toUint_of_lt (by omega), partialFind_stop hw hb hd hlen₁ hle, stop_stop hoff]
    rw [List.foldlM_cons, hfirst]
    exact scan_run hw hd stages (q ++ chunk) hrest hlen (by rw [List.length_append]; omega)

/-- **Resuming a search equals searching afresh**: over one extension, and over any number of chunks. -/
theorem search_resumes (hw : 32 ≤ w) {H N : List UInt8} (hb : Holds w b H) (hd : Holds w d N) (ho : offset ≤ H.length) :
    (∀ (E : List UInt8) (b' : Buffer), Holds w b' (H ++ E) → (H ++ E).length < 2 ^ 31 →
      ∃ p : Nat, b.partialFind w d offset = .ok (p : Int) ∧
        b'.partialFind w d p = b'.partialFind w d offset) ∧
    ∀ (stages : List (List UInt8 × Buffer)) (b' : Buffer), Growing w H stages →
      Holds w b' (H ++ (stages.map Prod.fst).flatten) → (H ++ (stages.map Prod.fst).flatten).length < 2 ^ 31 →
      ∃ p : Int, b.partialFind w d offset = .ok p ∧
        stages.foldlM (scan w d) p = b'.partialFind w d offset := by
  have hlenH : ∀ {E : List UInt8}, (H ++ E).length < 2 ^ 31 → H.length < 2 ^ 31 := fun h => by
    rw [List.length_append] at h
    omega
  refine ⟨fun E b' hb' hlen => ⟨stop N H offset, partialFind_stop hw hb hd (hlenH hlen) ho, ?_⟩,
    fun stages b' hs hb' hlen => ⟨stop N H offset, partialFind_stop hw hb hd (hlenH hlen) ho, ?_⟩⟩
  · have hstop := stop_le (n := N) ho
    rw [partialFind_stop hw hb' hd hlen (by rw [List.length_append]; omega),
      partialFind_stop hw hb' hd hlen (by rw [List.length_append]; omega), stop_stop ho]
  · rw [scan_run hw hd stages H hs hlen ho,
      partialFind_stop hw hb' hd hlen (by rw [List.length_append]; omega)]

/-- A delimiter cut in two: the scan stops at its first byte and goes on there. -/
theorem search_resumes_crlf : ∃ p : Nat, (full [65, 13]).partialFind 64 (full [13, 10]) 0 = .ok (p : Int) ∧
    (full [65, 13, 10]).partialFind 64 (full [13, 10]) p = (full [65, 13, 10]).partialFind 64 (full [13, 10]) 0 :=
  (search_resumes (by decide) (full_holds (by decide) (by decide)) (full_holds (by decide) (by decide))
    (Nat.zero_le _)).1 [10] _ (full_holds (by decide) (by decide)) (by decide)

/-! ## The conversions -/

/-- The place where a search from an offset should stop: the first one from there on where the content agrees with the
needle as far as it reaches, which is its end if nothing else. -/
def Stops (q n : List UInt8) (offset i : Nat) : Prop := IsLeast {i | offset ≤ i ∧ Seek.Agree (q.drop i) n} i

theorem stops_firstPartial (q n : List UInt8) (offset : Nat) :
    Stops q n offset (offset + Seek.firstPartial n (q.drop offset)) := by
  refine ⟨⟨Nat.le_add_right _ _, ?_⟩, fun i hi => ?_⟩
  · rw [← List.drop_drop]
    exact Seek.agree_firstPartial n _
  · obtain ⟨hle, hagree⟩ := hi
    refine Nat.le_of_not_lt fun hlt => Seek.not_agree_of_lt n (q.drop offset) (i - offset) (by omega) ?_
    rwa [List.drop_drop, Nat.add_sub_cancel' hle]

theorem Stops.eq {i : Nat} (h : Stops q n offset i) : i = offset + Seek.firstPartial n (q.drop offset) :=
  h.unique (stops_firstPartial q n offset)

/-- **The needle occurs exactly when it fits where the search stops.** -/
theorem Stops.occurs_iff {i : Nat} (h : Stops q n offset i) (hoff : offset ≤ q.length) :
    n <:+: q.drop offset ↔ i + n.length ≤ q.length := by
  rw [← Seek.found_iff_occurs, List.length_drop, h.eq]
  omega

/-- Many writes are one. -/
theorem writes_spec : ∀ (chunks : List (List UInt8)) {b : Buffer} {q : List UInt8}, Holds w b q →
    3 * (b.used + chunks.flatten.length) < 2 ^ w →
    ∃ b', chunks.foldlM (fun b chunk => b.write w (chunk.map some)) b = .ok b' ∧ Holds w b' (q ++ chunks.flatten)
  | [], b, q, h, _ => ⟨b, rfl, by rwa [List.flatten_nil, List.append_nil]⟩
  | chunk :: chunks, b, q, h, hw => by
    rw [List.flatten_cons, List.length_append] at hw
    obtain ⟨b₁, h₁, hq₁, hu₁⟩ := write_spec chunk h (fits_of_le (by omega))
    obtain ⟨b', h', hq'⟩ := writes_spec chunks hq₁ (by omega)
    refine ⟨b', ?_, by rwa [List.flatten_cons, ← List.append_assoc]⟩
    rw [List.foldlM_cons, h₁]
    exact h'

end Buffer

namespace Script

open Machine Effect

variable {m : Machine} {id needle : Nat} {b d : Buffer} {q n : List UInt8} {offset i : Nat}

/-- What a script is told of a search: the position it should stop at, and by `isFound` whether the needle is there. -/
def SearchSurvives (m : Machine) (id needle : Nat) (q n : List UInt8) (offset i : Nat) : Prop :=
  ∃ position found, partialFindBuffer id needle offset m = .ok position m ∧ position = i ∧
    isFound id position n.length m = .ok found m ∧ (found = true ↔ n <:+: q.drop offset)

theorem partialFindBuffer_toInt (hb : (m.heap id).native = some b) (hd : (m.heap needle).native = some d)
    (h : Buffer.Holds 64 b q) (hn : Buffer.Holds 64 d n) (hne : n ≠ []) (hoff : offset ≤ q.length)
    (h32 : offset < 2 ^ 32) (hi : Buffer.Stops q n offset i) :
    partialFindBuffer id needle offset m = .ok (toInt i) m := by
  have hrun := Buffer.partialFind_run (by decide) h hn hne hoff
  rw [← hi.eq] at hrun
  simp only [partialFindBuffer, bind_run, native, hb, hd, toUint_of_lt h32, hrun]
  rfl

theorem isFound_run (hb : (m.heap id).native = some b) (h : Buffer.Holds 64 b q) (last : Int) (k : Nat) :
    isFound id last k m = .ok (decide (last + k ≤ (q.length % 2 ^ 32 : Nat))) m := by
  have hsize : toUint b.size = q.length % 2 ^ 32 := by
    rw [h.size_eq, toUint]
    omega
  simp only [isFound, size, bind_run, native, hb, pure_run, hsize]

theorem SearchSurvives.lt (hb : (m.heap id).native = some b) (hd : (m.heap needle).native = some d)
    (h : Buffer.Holds 64 b q) (hn : Buffer.Holds 64 d n) (hne : n ≠ []) (hoff : offset ≤ q.length)
    (h32 : offset < 2 ^ 32) (hi : Buffer.Stops q n offset i) (hs : SearchSurvives m id needle q n offset i) :
    i < 2 ^ 31 := by
  obtain ⟨position, -, hrun, rfl, -⟩ := hs
  rw [partialFindBuffer_toInt hb hd h hn hne hoff h32 hi] at hrun
  have hint : toInt i = i := (EStateM.Result.ok.inj hrun).1
  have hlt := Int.bmod_lt (x := i) (m := 2 ^ 32) (by decide)
  unfold toInt at hint
  omega

/-- **Search results survive the conversions exactly when** the search stops below 2 GiB, and the needle, if it is
there, ends within what the size is as an `unsigned int`. -/
theorem search_survives_iff (hb : (m.heap id).native = some b) (hd : (m.heap needle).native = some d)
    (h : Buffer.Holds 64 b q) (hn : Buffer.Holds 64 d n) (hne : n ≠ []) (hoff : offset ≤ q.length)
    (h32 : offset < 2 ^ 32) (hi : Buffer.Stops q n offset i) :
    SearchSurvives m id needle q n offset i ↔
      i < 2 ^ 31 ∧ (i + n.length ≤ q.length → i + n.length ≤ q.length % 2 ^ 32) := by
  have hfind := partialFindBuffer_toInt hb hd h hn hne hoff h32 hi
  have hoccurs := hi.occurs_iff hoff
  have hmod : q.length % 2 ^ 32 ≤ q.length := Nat.mod_le _ _
  constructor
  · intro hs
    have hlt := hs.lt hb hd h hn hne hoff h32 hi
    obtain ⟨position, found, -, rfl, hisFound, hiff⟩ := hs
    rw [isFound_run hb h] at hisFound
    have hfound := (EStateM.Result.ok.inj hisFound).1
    refine ⟨hlt, fun hfits => ?_⟩
    have := hiff.2 (hoccurs.2 hfits)
    rw [← hfound, decide_eq_true_iff] at this
    omega
  · rintro ⟨hlt, hfits⟩
    refine ⟨i, _, ?_, rfl, isFound_run hb h i n.length, ?_⟩
    · rw [hfind, toInt_of_lt (by omega) (by omega)]
    · rw [decide_eq_true_iff, hoccurs]
      omega

/-- A machine with two buffers. -/
def pair (b d : Buffer) : Machine :=
  { Machine.empty with heap := fun id => ⟨some (if id = 0 then b else d), false, false⟩ }

theorem search_survives_crlf :
    SearchSurvives (pair (Buffer.full [65, 13, 10]) (Buffer.full [13, 10])) 0 1 [65, 13, 10] [13, 10] 0 1 ↔
      1 < 2 ^ 31 ∧ (1 + 2 ≤ 3 → 1 + 2 ≤ 3 % 2 ^ 32) := by
  have hi : Buffer.Stops [65, 13, 10] [13, 10] 0 1 := Buffer.stops_firstPartial [65, 13, 10] [13, 10] 0
  exact search_survives_iff (b := Buffer.full [65, 13, 10]) (d := Buffer.full [13, 10]) rfl rfl
    (Buffer.full_holds (by decide) (by decide)) (Buffer.full_holds (by decide) (by decide)) (by decide) (by decide)
    (by decide) hi

/-- **In 2 GiB of zero bytes a one is found behind the end**, at a position below zero. -/
theorem search_wraps : ∃ b, (List.replicate 32 (List.replicate (2 ^ 26) 0)).foldlM
      (fun b chunk => b.write 64 (chunk.map some)) (Buffer.new (2 ^ 31)) = .ok b ∧
    Buffer.Holds 64 b (List.replicate (2 ^ 31) 0) ∧
    partialFindBuffer 0 1 (2 ^ 31 : Nat) (pair b (Buffer.full [1])) = .ok (-2 ^ 31) (pair b (Buffer.full [1])) ∧
    isFound 0 (-2 ^ 31) 1 (pair b (Buffer.full [1])) = .ok true (pair b (Buffer.full [1])) ∧
    (1 : UInt8) ∉ List.replicate (2 ^ 31) 0 ∧
    ¬ SearchSurvives (pair b (Buffer.full [1])) 0 1 (List.replicate (2 ^ 31) 0) [1] (2 ^ 31) (2 ^ 31) := by
  have hflat : (List.replicate 32 (List.replicate (2 ^ 26) (0 : UInt8))).flatten = List.replicate (2 ^ 31) 0 :=
    List.flatten_replicate_replicate
  have hlen : (List.replicate (2 ^ 31) (0 : UInt8)).length = 2 ^ 31 := List.length_replicate
  obtain ⟨b, hrun, hq⟩ := Buffer.writes_spec (w := 64) (List.replicate 32 (List.replicate (2 ^ 26) (0 : UInt8)))
    (Buffer.new_spec (show 0 < 2 ^ 31 by decide) (by decide)) (by rw [hflat, hlen]; decide)
  rw [List.nil_append, hflat] at hq
  have hdrop : (List.replicate (2 ^ 31) (0 : UInt8)).drop (2 ^ 31) = [] := List.drop_of_length_le (Nat.le_of_eq hlen)
  have hi : Buffer.Stops (List.replicate (2 ^ 31) 0) [1] (2 ^ 31) (2 ^ 31) := by
    have := Buffer.stops_firstPartial (List.replicate (2 ^ 31) 0) [1] (2 ^ 31)
    rwa [hdrop] at this
  have hone : Buffer.Holds 64 (Buffer.full [1]) [1] := Buffer.full_holds (by decide) (by decide)
  have hb : ((pair b (Buffer.full [1])).heap 0).native = some b := rfl
  have hd : ((pair b (Buffer.full [1])).heap 1).native = some (Buffer.full [1]) := rfl
  refine ⟨b, hrun, hq, ?_, ?_, fun hmem => ?_, fun hs => ?_⟩
  · rw [partialFindBuffer_toInt hb hd hq hone (by decide) (Nat.le_of_eq hlen.symm) (by decide) hi]
    rfl
  · rw [isFound_run hb hq, hlen]
    rfl
  · exact absurd (List.eq_of_mem_replicate hmem) (by decide)
  · exact absurd (hs.lt hb hd hq hone (by decide) (Nat.le_of_eq hlen.symm) (by decide) hi) (by decide)

end Script
end V8h
