import Mathlib.Algebra.Order.BigOperators.Group.List
import Mathlib.Algebra.Order.Group.Nat
import V8h.BufferPool
/-!
# PoolLimits — a buffer pushed twice, and what the pool retains

The test of `push` guards a flag that only one of its branches sets, and is taken before the insertion.  So a push is
idempotent exactly when it does not discard a buffer that is too large, and a pool of `limit` buffers takes one more.
-/
namespace V8h
namespace BufferPool

open Machine Effect

variable {m m₁ : Machine} {s s' : Owners} {call : Call} {buffer : Nat} {b : Buffer}

/-! ## Pushing twice -/

/-- A second `push` returns, and leaves what the first one left. -/
def PushAgain (m : Machine) (buffer : Nat) : Prop := ∃ m₁ m₂, push buffer m = .ok () m₁ ∧ push buffer m₁ = .ok () m₂ ∧
  m₂ = { m₁ with pushes := m₂.pushes }

/-- What has the flag is left alone. -/
theorem push_pushed (hpushed : (m.heap buffer).pushed = true) :
    push buffer m = .ok () { m with pushes := buffer :: m.pushes } := by
  cases hn : (m.heap buffer).native with
  | none => rw [push_closed hn, if_pos hpushed]
  | some b => rw [push_run hn, if_pos hpushed]

theorem PushAgain.of_pushed (hrun : push buffer m = .ok () m₁) (hpushed : (m₁.heap buffer).pushed = true) :
    PushAgain m buffer := ⟨m₁, _, hrun, push_pushed hpushed, rfl⟩

/-- The state after `push` closed the buffer. -/
def discarded (m : Machine) (buffer : Nat) : Machine := { m with
  pushes := buffer :: m.pushes, heap := Function.update m.heap buffer { m.heap buffer with native := none } }

theorem push_refused (hn : (m.heap buffer).native = some b) (hpushed : (m.heap buffer).pushed = false)
    (hrefuse : Refuses m b) : push buffer m = .ok () (discarded m buffer) := by
  rw [push_run hn, if_neg (Bool.eq_false_iff.1 hpushed), if_pos hrefuse]
  rfl

/-- A discarded buffer still has no flag, and is asked for its reservation unless the pool is over its limit. -/
theorem push_discarded (hpushed : (m.heap buffer).pushed = false) : push buffer (discarded m buffer) =
    if m.pool.buffers.length > m.pool.limit then
      .ok () { discarded m buffer with pushes := buffer :: buffer :: m.pushes }
    else .error (.trap .null) { discarded m buffer with pushes := buffer :: buffer :: m.pushes } := by
  have hclosed : ((discarded m buffer).heap buffer).native = none := by
    simp only [discarded, Function.update_self]
  have hflag : ((discarded m buffer).heap buffer).pushed = false := by
    simp only [discarded, Function.update_self, hpushed]
  rw [push_closed hclosed, if_neg (Bool.eq_false_iff.1 hflag)]
  simp only [discarded, Function.update_self, Function.update_idem]

/-- A pool over its limit closes a buffer, and once more. -/
theorem PushAgain.of_full (hn : (m.heap buffer).native = some b) (hpushed : (m.heap buffer).pushed = false)
    (hfull : m.pool.buffers.length > m.pool.limit) : PushAgain m buffer := by
  have hagain := push_discarded hpushed
  rw [if_pos hfull] at hagain
  exact ⟨_, _, push_refused hn hpushed (Or.inl hfull), hagain, rfl⟩

theorem push_large (hn : (m.heap buffer).native = some b) (hpushed : (m.heap buffer).pushed = false)
    (hroom : ¬ m.pool.buffers.length > m.pool.limit) (hlarge : toUint b.reserve > m.pool.bufferReserveLimit) :
    ∃ m₁, push buffer m = .ok () m₁ ∧ ∃ m₂, push buffer m₁ = .error (.trap .null) m₂ := by
  have hagain := push_discarded hpushed
  rw [if_neg hroom] at hagain
  exact ⟨_, push_refused hn hpushed (Or.inr hlarge), _, hagain⟩

theorem PushAgain.not_of_error {m₂ : Machine} {e : Stop} (hrun : push buffer m = .ok () m₁)
    (herror : push buffer m₁ = .error e m₂) : ¬ PushAgain m buffer := by
  rintro ⟨m', m'', h₁, h₂, -⟩
  cases hrun.symm.trans h₁
  cases herror.symm.trans h₂

/-- **Pushing a buffer twice is pushing it once, unless the first push discards it as too large.** -/
theorem push_twice_iff (m : Machine) (buffer : Nat) (b : Buffer) (hopen : (m.heap buffer).native = some b) :
    PushAgain m buffer ↔ (m.heap buffer).pushed = true ∨ m.pool.buffers.length > m.pool.limit ∨
      toUint b.reserve ≤ m.pool.bufferReserveLimit := by
  cases hpushed : (m.heap buffer).pushed with
  | true => exact iff_of_true (.of_pushed (push_pushed hpushed) hpushed) (Or.inl rfl)
  | false =>
    by_cases hfull : m.pool.buffers.length > m.pool.limit
    · exact iff_of_true (.of_full hopen hpushed hfull) (Or.inr (Or.inl hfull))
    by_cases hlarge : toUint b.reserve > m.pool.bufferReserveLimit
    · obtain ⟨m₁, hrun, m₂, herror⟩ := push_large hopen hpushed hfull hlarge
      apply iff_of_false (PushAgain.not_of_error hrun herror)
      rintro (h | h | h)
      · cases h
      · exact hfull h
      · exact absurd hlarge (Nat.not_lt_of_le h)
    · have hkeep : ¬ Refuses m b := by
        unfold Refuses
        omega
      have hrun := push_run hopen
      rw [if_neg (Bool.eq_false_iff.1 hpushed), if_neg hkeep] at hrun
      have hagain : PushAgain m buffer := by
        apply PushAgain.of_pushed hrun
        simp only [Function.update_self]
      exact iff_of_true hagain (Or.inr (Or.inr (Nat.le_of_not_lt hlarge)))

/-- A new buffer is pushed into the pool of the scripts, and again. -/
theorem push_twice_new : PushAgain { Machine.empty with heap := fun _ => ⟨some (Buffer.new 512), false, false⟩ } 0 :=
  (push_twice_iff _ 0 (Buffer.new 512) rfl).2 (Or.inr (Or.inr (by decide)))

/-- A buffer of more than a megabyte is made. -/
def withLarge : Machine := { Machine.empty with
  heap := Function.update Machine.empty.heap 0 ⟨some (Buffer.new (1024 * 1024 + 1)), false, false⟩
  nextBuffer := 1 }

/-- The buffer is pushed twice. -/
theorem push_twice_large : ∃ s, [.create (1024 * 1024 + 1)].foldlM step ⟨Machine.empty, []⟩ = .ok s ∧
    (s.machine.heap 0).native.isSome ∧ ¬ PushAgain s.machine 0 ∧
    ∃ m₁, push 0 s.machine = .ok () m₁ ∧ ∃ m₂, push 0 m₁ = .error (.trap .null) m₂ := by
  have hn : (withLarge.heap 0).native = some (Buffer.new (1024 * 1024 + 1)) := rfl
  have hlarge : toUint (Buffer.new (1024 * 1024 + 1)).reserve > withLarge.pool.bufferReserveLimit := by decide
  obtain ⟨m₁, hrun, m₂, herror⟩ := push_large hn rfl (by decide) hlarge
  exact ⟨⟨withLarge, []⟩, rfl, rfl, PushAgain.not_of_error hrun herror, m₁, hrun, m₂, herror⟩

/-! ## What the pool retains -/

/-- What `reserve()` answers; a closed buffer has nothing reserved. -/
def reserved (o : BufferObj) : Nat := (o.native.map fun b => toUint b.reserve).getD 0

/-- The sum of `reserve()` over the idle buffers. -/
def retained (m : Machine) : Nat := (m.pool.buffers.map fun b => reserved (m.heap b)).sum

structure Bounded (m : Machine) : Prop where
  count    : m.pool.buffers.length ≤ m.pool.limit
  retained : retained m ≤ m.pool.limit * m.pool.bufferReserveLimit

/-- What is pushed is a buffer, and nobody grows one while it is idle. -/
def Sensible (s : Owners) : Call → Prop
  | .push buffer           => buffer < s.machine.nextBuffer
  | .operate buffer native => buffer ∈ s.machine.pool.buffers →
    reserved { s.machine.heap buffer with native := native } ≤ reserved (s.machine.heap buffer)
  | .pop | .create _       => True

instance (s : Owners) : ∀ call, Decidable (Sensible s call)
  | .push _      => inferInstanceAs (Decidable (_ < _))
  | .operate _ _ => inferInstanceAs (Decidable (_ → _))
  | .pop         => .isTrue trivial
  | .create _    => .isTrue trivial

/-- Every state the call leads to is within the limits. -/
def Kept (s : Owners) (call : Call) : Prop := ∀ s', step s call = .ok s' → Bounded s'.machine

/-- `push` lets the buffer in. -/
def LetsIn (m : Machine) (buffer : Nat) : Prop :=
  (m.heap buffer).pushed = false ∧ ∃ b, (m.heap buffer).native = some b ∧ ¬ Refuses m b

/-- The call is a push that lets a buffer into a pool that has `limit` of them. -/
def Overfills (s : Owners) : Call → Prop
  | .push buffer                    => s.machine.pool.buffers.length = s.machine.pool.limit ∧ LetsIn s.machine buffer
  | .pop | .create _ | .operate _ _ => False

/-- At most `limit` buffers are idle, each of them made, and none too large. -/
structure Limited (m : Machine) : Prop where
  count : m.pool.buffers.length ≤ m.pool.limit
  made  : ∀ b ∈ m.pool.buffers, b < m.nextBuffer
  small : ∀ b ∈ m.pool.buffers, reserved (m.heap b) ≤ m.pool.bufferReserveLimit

theorem Limited.bounded (h : Limited m) : Bounded m := by
  refine ⟨h.count, ?_⟩
  have hsum : retained m ≤ m.pool.buffers.length * m.pool.bufferReserveLimit := by
    have hle := List.sum_le_card_nsmul (m.pool.buffers.map fun b => reserved (m.heap b)) m.pool.bufferReserveLimit
      (List.forall_mem_map.2 h.small)
    rwa [List.length_map] at hle
  exact hsum.trans (Nat.mul_le_mul_right _ h.count)

theorem Limited.shrink (h : Limited m) {buffers : List Nat} (hpool : m₁.pool = { m.pool with buffers := buffers })
    (hsub : buffers ⊆ m.pool.buffers) (hcount : buffers.length ≤ m.pool.buffers.length)
    (hnext : m.nextBuffer ≤ m₁.nextBuffer)
    (hsmall : ∀ b ∈ m.pool.buffers, reserved (m₁.heap b) ≤ reserved (m.heap b)) : Limited m₁ := by
  refine ⟨?_, fun b hb => ?_, fun b hb => ?_⟩
  · rw [hpool]
    exact hcount.trans h.count
  · rw [hpool] at hb
    exact (h.made b (hsub hb)).trans_le hnext
  · rw [hpool] at hb ⊢
    exact (hsmall b (hsub hb)).trans (h.small b (hsub hb))

theorem reserved_update {o : BufferObj} (hle : reserved o ≤ reserved (m.heap buffer)) (b : Nat) :
    reserved (Function.update m.heap buffer o b) ≤ reserved (m.heap b) := by
  rcases eq_or_ne b buffer with rfl | hne
  · rw [Function.update_self]
    exact hle
  · rw [Function.update_of_ne hne]

/-- A push lets its buffer in, or leaves the pool alone and at most closes the buffer. -/
theorem push_cases (hrun : push buffer m = .ok () m₁) : m₁.nextBuffer = m.nextBuffer ∧
    (∀ b, reserved (m₁.heap b) ≤ reserved (m.heap b)) ∧
    (¬ LetsIn m buffer ∧ m₁.pool = m.pool ∨
      LetsIn m buffer ∧ m₁.pool = { m.pool with buffers := buffer :: m.pool.buffers }) := by
  have hclose : ∀ b, reserved ((discarded m buffer).heap b) ≤ reserved (m.heap b) :=
    reserved_update (Nat.zero_le _)
  cases hpushed : (m.heap buffer).pushed with
  | true =>
    cases (push_pushed hpushed).symm.trans hrun
    refine ⟨rfl, fun _ => Nat.le_refl _, Or.inl ⟨fun hin => ?_, rfl⟩⟩
    rw [hin.1] at hpushed
    cases hpushed
  | false =>
    cases hn : (m.heap buffer).native with
    | none =>
      have hout : ¬ LetsIn m buffer := by
        rintro ⟨-, b, hb, -⟩
        rw [hn] at hb
        cases hb
      rw [push_closed hn, if_neg (Bool.eq_false_iff.1 hpushed)] at hrun
      split at hrun
      · cases hrun
        exact ⟨rfl, hclose, Or.inl ⟨hout, rfl⟩⟩
      · cases hrun
    | some b =>
      by_cases hrefuse : Refuses m b
      · cases (push_refused hn hpushed hrefuse).symm.trans hrun
        refine ⟨rfl, hclose, Or.inl ⟨?_, rfl⟩⟩
        rintro ⟨-, b', hb', hkeep⟩
        cases hn.symm.trans hb'
        exact hkeep hrefuse
      · rw [push_run hn, if_neg (Bool.eq_false_iff.1 hpushed), if_neg hrefuse] at hrun
        cases hrun
        exact ⟨rfl, reserved_update (Nat.le_refl _), Or.inr ⟨⟨hpushed, b, hn, hrefuse⟩, rfl⟩⟩

theorem Limited.enter (h : Limited m) (hroom : m.pool.buffers.length < m.pool.limit) (hlt : buffer < m.nextBuffer)
    (hin : LetsIn m buffer) (hrun : push buffer m = .ok () m₁)
    (hpool : m₁.pool = { m.pool with buffers := buffer :: m.pool.buffers }) : Limited m₁ := by
  obtain ⟨hnext, hsmall, -⟩ := push_cases hrun
  obtain ⟨-, b, hn, hkeep⟩ := hin
  have hle : reserved (m.heap buffer) ≤ m.pool.bufferReserveLimit := by
    unfold Refuses at hkeep
    simp only [reserved, hn, Option.map_some, Option.getD_some]
    omega
  refine ⟨?_, fun b' hb' => ?_, fun b' hb' => ?_⟩
  · rw [hpool]
    exact hroom
  · rw [hpool] at hb'
    rw [hnext]
    rcases List.mem_cons.1 hb' with rfl | hb'
    · exact hlt
    · exact h.made b' hb'
  · rw [hpool] at hb' ⊢
    rcases List.mem_cons.1 hb' with rfl | hb'
    · exact (hsmall b').trans hle
    · exact (hsmall b').trans (h.small b' hb')

theorem Limited.pop (h : Limited m) (hrun : pop m = .ok buffer m₁) : Limited m₁ := by
  rw [pop_run] at hrun
  split at hrun
  case h_1 hempty =>
    cases hrun
    refine h.shrink rfl (List.Subset.refl m.pool.buffers) (Nat.le_refl _) (Nat.le_succ _) fun b hb => ?_
    rw [hempty] at hb
    cases hb
  case h_2 first rest hcons =>
    split at hrun
    case h_1 => cases hrun
    case h_2 native hn =>
      have hclear : reserved ⟨some native.clear, false, (m.heap first).temporary⟩ ≤ reserved (m.heap first) := by
        simp only [reserved, hn, Option.map_some, Buffer.clear, Nat.le_refl]
      cases hrun
      refine h.shrink rfl ?_ ?_ (Nat.le_refl _) (fun b _ => reserved_update hclear b)
      · rw [hcons]
        exact List.subset_cons_self _ _
      · rw [hcons]
        exact Nat.le_succ _

/-- **A call that does not overfill the pool keeps what `Limited` says.** -/
theorem Limited.step (h : Limited s.machine) (hsensible : Sensible s call) (hroom : ¬ Overfills s call)
    (hstep : step s call = .ok s') : Limited s'.machine := by
  cases call with
  | push buffer =>
    cases hrun : BufferPool.push buffer s.machine with
    | error e m₁ =>
      rw [BufferPool.step, hrun] at hstep
      cases hstep
    | ok _ m₁ =>
      rw [BufferPool.step, hrun] at hstep
      cases hstep
      obtain ⟨hnext, hsmall, ⟨-, hpool⟩ | ⟨hin, hpool⟩⟩ := push_cases hrun
      · exact h.shrink hpool (List.Subset.refl _) (Nat.le_refl _) hnext.ge (fun b _ => hsmall b)
      · have hlt : s.machine.pool.buffers.length < s.machine.pool.limit :=
          Nat.lt_of_le_of_ne h.count fun heq => hroom ⟨heq, hin⟩
        exact h.enter hlt hsensible hin hrun hpool
  | pop =>
    cases hrun : BufferPool.pop s.machine with
    | error e m₁ =>
      rw [BufferPool.step, hrun] at hstep
      cases hstep
    | ok buffer m₁ =>
      rw [BufferPool.step, hrun] at hstep
      cases hstep
      exact h.pop hrun
  | create reserve =>
    cases hstep
    refine h.shrink rfl (List.Subset.refl _) (Nat.le_refl _) (Nat.le_succ _) fun b hb => ?_
    have hne : b ≠ s.machine.nextBuffer := (h.made b hb).ne
    simp only [Function.update_of_ne hne, Nat.le_refl]
  | operate buffer native =>
    cases hstep
    refine h.shrink rfl (List.Subset.refl _) (Nat.le_refl _) (Nat.le_refl _) fun b hb => ?_
    rcases eq_or_ne b buffer with rfl | hne
    · simp only [Function.update_self]
      exact hsensible hb
    · simp only [Function.update_of_ne hne, Nat.le_refl]

theorem Overfills.not_kept (hover : Overfills s call) : ¬ Kept s call := by
  intro hkept
  cases call with
  | push buffer =>
    obtain ⟨hfull, hpushed, b, hn, hkeep⟩ := hover
    have hrun := push_run hn
    rw [if_neg (Bool.eq_false_iff.1 hpushed), if_neg hkeep] at hrun
    have hcount := (hkept _ (by rw [BufferPool.step, hrun])).count
    simp only [List.length_cons] at hcount
    omega
  | pop => exact hover
  | create reserve => exact hover
  | operate buffer native => exact hover

/-- **What the pool retains is within its limits as long as nothing is let into a pool that is full.** -/
theorem retained_bounded_iff (m : Machine) (hempty : m.pool.buffers = []) (calls : List Call)
    (hsensible : Run.Along step Sensible ⟨m, []⟩ calls) :
    Bounded m ∧
      (Run.Along step Kept ⟨m, []⟩ calls ↔ Run.Along step (fun s call => ¬ Overfills s call) ⟨m, []⟩ calls) := by
  have hstart : Limited m := by
    constructor <;> rw [hempty]
    · exact Nat.zero_le _
    · exact List.forall_mem_nil _
    · exact List.forall_mem_nil _
  have hkept : ∀ s call, Limited s.machine → Sensible s call → (Kept s call ↔ ¬ Overfills s call) := by
    intro s call h hsens
    constructor
    · exact fun hkept hover => hover.not_kept hkept
    · exact fun hroom s' hstep => (h.step hsens hroom hstep).bounded
  exact ⟨hstart.bounded, Run.along_iff_of_fair (I := fun s => Limited s.machine) hkept
    (fun s call s' h hsens hroom hstep => h.step hsens hroom hstep) calls ⟨m, []⟩ hstart hsensible⟩

/-- A machine whose pool is `new BufferPool(1, 512)`. -/
def poolOfOne : Machine := { Machine.empty with pool := ⟨1, 512, []⟩ }

/-- A buffer goes in and out again. -/
theorem retained_bounded_one : Bounded poolOfOne ∧
    (Run.Along step Kept ⟨poolOfOne, []⟩ [.create 512, .push 0, .pop] ↔
      Run.Along step (fun s call => ¬ Overfills s call) ⟨poolOfOne, []⟩ [.create 512, .push 0, .pop]) :=
  retained_bounded_iff poolOfOne rfl _ (by decide +kernel)

/-- Two new buffers are pushed into a pool that is to hold one. -/
theorem retained_unbounded : ∃ s, Run.Along step Sensible ⟨poolOfOne, []⟩ [.create 512, .create 512, .push 0, .push 1] ∧
    [.create 512, .create 512, .push 0, .push 1].foldlM step ⟨poolOfOne, []⟩ = .ok s ∧
    s.machine.pool.limit = 1 ∧ s.machine.pool.bufferReserveLimit = 512 ∧ s.machine.pool.buffers.length = 2 ∧
    retained s.machine = 1024 ∧ ¬ Bounded s.machine := by
  refine ⟨_, by decide +kernel, rfl, rfl, rfl, rfl, by decide +kernel, fun h => ?_⟩
  exact absurd h.count (by decide +kernel)

end BufferPool
end V8h
