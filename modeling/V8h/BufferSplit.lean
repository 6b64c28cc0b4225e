import V8h.BufferLive
import V8h.BufferPool
import V8h.SocketSpec
/-!
# BufferSplit — `readBuffer` and `peekBuffer`

The methods of `buffer.coffee` pop a buffer and hand it to the native reader with the size, which counts as an argument
even when the caller gave none: `TO_UINT` makes 0 of `undefined`.  `_read_buffer` ends with `commit(n)` where the source
should lose `n` bytes, and `peekBuffer` returns what `_peek_buffer` returns, the source itself.  So a prefix is split
off only where there is nothing to be copied (`split_off_iff`).
-/
namespace V8h
namespace Script

open Machine Effect Buffer

/-- The size in the arguments behind `dest`: `args.Length() > 1` asks whether one was passed, and `undefined` is one. -/
def passedSize (size : Nat) : List (Option UInt32) → Nat
  | []       => size
  | arg :: _ => (arg.map UInt32.toNat).getD 0

/-- `dest->write(buffer->data(), n)`. -/
def copy (buffer dest n : Nat) : M Unit := fun m =>
  match Heap.copy 64 (fun id => (m.heap id).native) buffer dest n with
  | .error t      => .error (.trap t) m
  | .ok (_, heap) => .ok () { m with heap := fun id => { m.heap id with native := heap id } }

/-- `Buffer::_peek_buffer`. -/
def _peekBuffer (self dest : Nat) (args : List (Option UInt32)) : M Nat := do
  let n := passedSize (← native self).size args
  copy self dest n
  return self

/-- `Buffer::_read_buffer`. -/
def _readBuffer (self dest : Nat) (args : List (Option UInt32)) : M Nat := do
  let n := passedSize (← native self).size args
  copy self dest n
  setNative self ((← native self).commit 64 n)
  return self

/-- `readBuffer` of `buffer.coffee`. -/
def readBuffer (self : Nat) (size : Option UInt32) : M Nat := do
  let buffer ← BufferPool.pop
  let _ ← _readBuffer self buffer [size]
  return buffer

/-- `peekBuffer` of `buffer.coffee`, whose last line is what it returns. -/
def peekBuffer (self : Nat) (size : Option UInt32) : M Nat := do
  let buffer ← BufferPool.pop
  _peekBuffer self buffer [size]

/-- As many of the visible cells as are asked for; no size asks for all. -/
def takenOf (cells : List Cell) : Option UInt32 → List Cell
  | none   => cells
  | some k => cells.take k.toNat

def leftOf (cells : List Cell) : Option UInt32 → List Cell
  | none   => []
  | some k => cells.drop k.toNat

/-- The call returns another buffer, idle before or new, that holds the one run of cells, and the source is left with
the other. -/
def SplitsInto (x : M Nat) (m : Machine) (self : Nat) (taken left : List Cell) : Prop :=
  ∃ dest m' b b', x m = .ok dest m' ∧ dest ≠ self ∧ (dest ∈ m.pool.buffers ∨ m.nextBuffer ≤ dest) ∧
    (m'.heap dest).native = some b ∧ b.content = taken ∧ (m'.heap self).native = some b' ∧ b'.content = left

variable {m m' : Machine} {self dest n : Nat}

/-! ## `pop` -/

/-- What `pop` would return. -/
def nextOf (m : Machine) : Nat := m.pool.buffers.headD m.nextBuffer

/-- **`pop` clears the buffer it returns**, and touches no other. -/
theorem pop_clears (h : BufferPool.Owned m) : ∃ (m' : Machine) (b : Buffer), BufferPool.pop m = .ok (nextOf m) m' ∧
    (m'.heap (nextOf m)).native = some b.clear ∧ (∀ id, id ≠ nextOf m → (m'.heap id).native = (m.heap id).native) ∧
    (nextOf m ∈ m.pool.buffers ∨ m.nextBuffer ≤ nextOf m) := by
  rw [BufferPool.pop_run]
  unfold nextOf
  cases hpool : m.pool.buffers with
  | nil =>
    refine ⟨_, Buffer.new 512, rfl, by simp only [List.headD, Function.update_self]; rfl, fun id hid => ?_,
      Or.inr (Nat.le_refl _)⟩
    exact congrArg BufferObj.native (Function.update_of_ne hid ..)
  | cons d rest =>
    obtain ⟨-, b, hb, -⟩ := h.idle d (hpool ▸ List.mem_cons_self ..)
    simp only [hb]
    refine ⟨_, b, rfl, by simp only [List.headD, Function.update_self], fun id hid => ?_,
      Or.inl (List.mem_cons_self ..)⟩
    exact congrArg BufferObj.native (Function.update_of_ne hid ..)

/-! ## Copies -/

theorem copy_frame (h : copy self dest n m = .ok () m') {id : Nat} (hid : id ≠ dest) :
    (m'.heap id).native = (m.heap id).native := by
  unfold copy at h
  split at h
  · cases h
  · rename_i heap hcopy
    cases h
    obtain ⟨src, -, hcopy⟩ := bind_eq_ok.1 hcopy
    obtain ⟨old, -, hcopy⟩ := bind_eq_ok.1 hcopy
    obtain ⟨b, -, hcopy⟩ := bind_eq_ok.1 hcopy
    split at hcopy
    · cases hcopy
    · obtain ⟨data, -, hcopy⟩ := bind_eq_ok.1 hcopy
      obtain ⟨b', -, hcopy⟩ := bind_eq_ok.1 hcopy
      cases hcopy
      show Function.update (fun id => (m.heap id).native) dest _ id = _
      exact Function.update_of_ne hid ..

/-- **Copying nothing leaves an empty buffer empty.** -/
theorem copy_nothing {b d : Buffer} (hself : (m.heap self).native = some b)
    (hdest : (m.heap dest).native = some d.clear) (hne : self ≠ dest) :
    ∃ m' b', copy self dest 0 m = .ok () m' ∧ (m'.heap dest).native = some b' ∧ b'.content = [] := by
  have hprepare : d.clear.prepare 64 0 = .ok d.clear := prepare_of_fits (Nat.zero_le _) (Nat.two_pow_pos 64)
  have hload : b.load b.cursor 0 = .ok [] := by
    rw [load, Block.load, if_pos (Or.inr rfl), Block.slice_zero]
  have hstore : d.clear.store d.clear.used [] = .ok { d.clear with data := d.clear.data.write 0 [] } := by
    rw [Buffer.store, Block.store, if_pos (Or.inr rfl)]
    rfl
  have hcopy : Heap.copy 64 (fun id => (m.heap id).native) self dest 0 =
      .ok ([], Heap.set (fun id => (m.heap id).native) dest { d.clear with data := d.clear.data.write 0 [] }) := by
    unfold Heap.copy Heap.get
    simp only [hself, hdest, ok_bind, hprepare, hne, false_and, if_false, hload, hstore]
    rfl
  refine ⟨_, { d.clear with data := d.clear.data.write 0 [] }, by rw [copy, hcopy], ?_, Block.slice_zero ..⟩
  show Function.update (fun id => (m.heap id).native) dest _ dest = _
  rw [Function.update_self]

/-! ## The readers -/

/-- The native call in `readBuffer` changes the popped buffer and commits to the source. -/
theorem _readBuffer_ok {args : List (Option UInt32)} {b : Buffer} {r : Nat} (hself : (m.heap self).native = some b)
    (hne : self ≠ dest) (h : _readBuffer self dest args m = .ok r m') :
    (m'.heap self).native = some (b.commit 64 (passedSize b.size args)) := by
  unfold _readBuffer at h
  rw [bind_ok (native_run hself), bind_run] at h
  split at h
  · rename_i m₁ hcopy
    have hkept := (copy_frame hcopy hne).trans hself
    rw [bind_ok (native_run hkept), bind_ok (setNative_run ..), pure_run] at h
    cases h
    rw [setBuffer_heap_self]
  · cases h

/-- **`readBuffer` splits off the prefix exactly when nothing is asked for**, or everything of an empty buffer, and the
source is not what the pool gives out. -/
theorem readBuffer_splits_iff {b : Buffer} (h : BufferPool.Owned m) (hself : (m.heap self).native = some b)
    (hb : Counted 64 b) (size : Option UInt32) :
    SplitsInto (readBuffer self size) m self (takenOf b.content size) (leftOf b.content size) ↔
      nextOf m ≠ self ∧ (size = some 0 ∨ size = none ∧ b.content = []) := by
  have hlen : b.content.length = b.size := Block.length_slice ..
  have hword := hb.word
  have hcount := hb.counters
  have hroom := hb.room
  obtain ⟨m₁, d, hpop, hd, hframe, hidle⟩ := pop_clears h
  have hrun : readBuffer self size m = (do let _ ← _readBuffer self (nextOf m) [size]; return nextOf m) m₁ :=
    bind_ok hpop
  constructor
  · rintro ⟨dest, m', b₁, b', hr, hne, -, hb₁, htaken, hb', hleft⟩
    rw [hrun, bind_run] at hr
    split at hr
    · rename_i r m₂ hread
      cases hr
      have hself₁ : (m₁.heap self).native = some b := (hframe self hne.symm).trans hself
      obtain rfl := Option.some.inj (hb'.symm.trans (_readBuffer_ok hself₁ hne.symm hread))
      -- the source is longer by what was asked for, and should be shorter
      have hvisible := congrArg List.length hleft
      refine ⟨hne, ?_⟩
      cases size with
      | none =>
        refine Or.inr ⟨rfl, List.length_eq_zero_iff.1 ?_⟩
        rwa [show passedSize b.size [none] = 0 from rfl, hb.commit_zero] at hvisible
      | some k =>
        have hk := k.toNat_lt
        simp only [passedSize, leftOf, Option.map_some, Option.getD_some, content, commit, Block.length_slice, sizeT,
          List.length_drop] at hvisible
        refine Or.inl (congrArg some (UInt32.toNat_inj.1 ?_))
        rw [UInt32.toNat_zero]
        omega
    · cases hr
  · rintro ⟨hne, hsize⟩
    have hself₁ : (m₁.heap self).native = some b := (hframe self hne.symm).trans hself
    have hzero : passedSize b.size [size] = 0 ∧ takenOf b.content size = [] ∧ leftOf b.content size = b.content := by
      rcases hsize with rfl | ⟨rfl, hnil⟩
      · exact ⟨rfl, rfl, rfl⟩
      · exact ⟨rfl, hnil, hnil.symm⟩
    obtain ⟨hpassed, htaken, hleft⟩ := hzero
    obtain ⟨m₂, b₂, hcopy, hb₂, hempty⟩ := copy_nothing hself₁ hd hne.symm
    have hself₂ : (m₂.heap self).native = some b := (copy_frame hcopy hne.symm).trans hself₁
    have hread : _readBuffer self (nextOf m) [size] m₁ = .ok self (m₂.setBuffer self b) := by
      unfold _readBuffer
      rw [bind_ok (native_run hself₁), hpassed, bind_ok hcopy, bind_ok (native_run hself₂), hb.commit_zero]
      rfl
    rw [htaken, hleft]
    refine ⟨nextOf m, m₂.setBuffer self b, b₂, b, hrun.trans (bind_ok hread), hne, hidle, ?_, hempty, ?_, rfl⟩
    · rw [setBuffer_heap_of_ne _ _ _ hne]
      exact hb₂
    · rw [setBuffer_heap_self]

/-- **`peekBuffer` returns the source.** -/
theorem peekBuffer_returns {size : Option UInt32} (h : peekBuffer self size m = .ok dest m') : dest = self := by
  unfold peekBuffer _peekBuffer at h
  rw [bind_run] at h
  split at h
  · rw [bind_run] at h
    split at h
    · rw [bind_run] at h
      split at h
      · cases h
        rfl
      · cases h
    · cases h
  · cases h

theorem peekBuffer_splits_not (size : Option UInt32) (taken left : List Cell) :
    ¬ SplitsInto (peekBuffer self size) m self taken left := fun ⟨_, _, _, _, hr, hne, _⟩ => hne (peekBuffer_returns hr)

/-- **`readBuffer` splits nothing off but the empty prefix, and `peekBuffer` not even that.** -/
theorem split_off_iff {b : Buffer} (h : BufferPool.Owned m) (hself : (m.heap self).native = some b)
    (hb : Counted 64 b) (size : Option UInt32) :
    (SplitsInto (readBuffer self size) m self (takenOf b.content size) (leftOf b.content size) ↔
      nextOf m ≠ self ∧ (size = some 0 ∨ size = none ∧ b.content = [])) ∧
    ¬ SplitsInto (peekBuffer self size) m self (takenOf b.content size) b.content :=
  ⟨readBuffer_splits_iff h hself hb size, peekBuffer_splits_not size _ _⟩

theorem listening_source : BufferPool.Owned (listening [1, 2]) ∧
    ((listening [1, 2]).heap 0).native = some (full [1, 2]) ∧ Counted 64 (full [1, 2]) :=
  ⟨BufferPool.owned_of_empty rfl fun _ => rfl, rfl, (full_holds (by decide) (by decide)).tracks.counted⟩

/-- The empty prefix is split off. -/
theorem split_off_nothing :
    SplitsInto (readBuffer 0 (some 0)) (listening [1, 2]) 0 (takenOf (full [1, 2]).content (some 0))
      (leftOf (full [1, 2]).content (some 0)) :=
  (split_off_iff listening_source.1 listening_source.2.1 listening_source.2.2 (some 0)).1.2
    ⟨by decide +kernel, .inl rfl⟩

/-- One byte of two is asked for: the source is left with three cells, the last of which nothing was stored in.  Without
a size nothing is split off, and `peekBuffer` returns the source. -/
theorem split_off_appends :
    ¬ SplitsInto (readBuffer 0 (some 1)) (listening [1, 2]) 0 [some 1] [some 2] ∧
    ((match readBuffer 0 (some 1) (listening [1, 2]) with
      | .ok _ m    => (m.heap 0).native.map fun b => b.content
      | .error _ _ => none) = some [some 1, some 2, none]) ∧
    ¬ SplitsInto (readBuffer 0 none) (listening [1, 2]) 0 [some 1, some 2] [] ∧
    ¬ SplitsInto (peekBuffer 0 (some 1)) (listening [1, 2]) 0 [some 1] [some 1, some 2] := by
  obtain ⟨howned, hself, hcount⟩ := listening_source
  refine ⟨fun h => ?_, by decide +kernel, fun h => ?_, peekBuffer_splits_not _ _ _⟩
  · obtain ⟨-, h | ⟨h, -⟩⟩ := (readBuffer_splits_iff howned hself hcount (some 1)).1 h
    · revert h
      decide
    · cases h
  · obtain ⟨-, h | ⟨-, h⟩⟩ := (readBuffer_splits_iff howned hself hcount none).1 h
    · cases h
    · revert h
      decide

end Script
end V8h
