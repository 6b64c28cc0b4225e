import V8h.BufferSpec
import V8h.Lib.Lease
import V8h.Lib.Run
import V8h.ScriptBuffer
/-!
# BufferPool — a pooled buffer has one owner

A buffer is idle while it is in the pool, and `pushed` on the buffer itself says so.  `Owned` is what holds between any
two calls: `push` lets nothing in that is in already, nothing too large, and `pop` only hands out what is idle or new.
So the buffers handed out are lent to one owner at a time, which is `Lease.Exclusive` of the calls made.
-/
namespace V8h
namespace BufferPool

open Machine Effect Lease

/-- What happens to the pool and to the buffers: `create` is `new Buffer`, and `operate` stands for whatever a script
does with a buffer, which leaves it in some state, or closed. -/
inductive Call where
  | push (buffer : Nat)
  | pop
  | create (reserve : Nat)
  | operate (buffer : Nat) (native : Option Buffer)

/-- `log` is no part of the source: it lists what was pushed and popped, the last first. -/
structure Owners where
  machine : Machine
  log     : List (Deal Nat)

def step (s : Owners) : Call → Except Stop Owners
  | .push buffer           =>
    match BufferPool.push buffer s.machine with
    | .ok _ m    => .ok ⟨m, .back buffer :: s.log⟩
    | .error e _ => .error e
  | .pop                   =>
    match BufferPool.pop s.machine with
    | .ok buffer m => .ok ⟨m, .lend buffer :: s.log⟩
    | .error e _   => .error e
  | .create reserve        =>
    match newBuffer reserve s.machine with
    | .ok _ m    => .ok { s with machine := m }
    | .error e _ => .error e
  | .operate buffer native =>
    .ok { s with machine := { s.machine with
      heap := Function.update s.machine.heap buffer { s.machine.heap buffer with native := native } } }

/-- No closed buffer is pushed, and nobody operates on an idle one. -/
def Fair (s : Owners) : Call → Prop
  | .push buffer      => buffer < s.machine.nextBuffer ∧ ((s.machine.heap buffer).native).isSome
  | .operate buffer _ => buffer ∉ s.machine.pool.buffers
  | .pop | .create _  => True

instance (s : Owners) : ∀ call, Decidable (Fair s call)
  | .push _      => inferInstanceAs (Decidable (_ ∧ _))
  | .operate _ _ => inferInstanceAs (Decidable (¬ _))
  | .pop         => .isTrue trivial
  | .create _    => .isTrue trivial

/-- The idle buffers, and only they, have the flag; none is idle twice, and each is open and not too large. -/
structure Owned (m : Machine) : Prop where
  once  : m.pool.buffers.Nodup
  flag  : ∀ b, (m.heap b).pushed = true ↔ b ∈ m.pool.buffers
  idle  : ∀ b ∈ m.pool.buffers, b < m.nextBuffer ∧
    ∃ native, (m.heap b).native = some native ∧ toUint native.reserve ≤ m.pool.bufferReserveLimit

/-- What `pop` would give is open and empty, and is not idle afterwards. -/
def Gives (m : Machine) : Prop := ∃ b m' native, BufferPool.pop m = .ok b m' ∧ (m'.heap b).native = some native ∧
  native.size = 0 ∧ native.content = [] ∧ b ∉ m'.pool.buffers

/-- What may be handed out is not lent, and what is lent was handed out to one owner. -/
structure Leased (s : Owners) : Prop where
  owned     : Owned s.machine
  exclusive : Exclusive s.log
  free      : ∀ b, b ∈ s.machine.pool.buffers ∨ s.machine.nextBuffer ≤ b → ¬ Lent b s.log

variable {m m' : Machine} {s : Owners} {b : Nat} {native : Buffer}

/-- The pool is left alone, and so are the flags and the idle buffers. -/
theorem Owned.congr (h : Owned m) (hpool : m'.pool = m.pool) (hnext : m.nextBuffer ≤ m'.nextBuffer)
    (hflag : ∀ b, (m'.heap b).pushed = (m.heap b).pushed)
    (hidle : ∀ b ∈ m.pool.buffers, (m'.heap b).native = (m.heap b).native) : Owned m' := by
  refine ⟨hpool ▸ h.once, fun b => ?_, fun b hb => ?_⟩
  · rw [hflag, hpool]
    exact h.flag b
  · rw [hpool] at hb ⊢
    obtain ⟨hlt, native, hn, hle⟩ := h.idle b hb
    exact ⟨by omega, native, (hidle b hb).trans hn, hle⟩

theorem owned_of_empty (hpool : m.pool.buffers = []) (hflag : ∀ b, (m.heap b).pushed = false) : Owned m := by
  refine ⟨?_, fun b => ?_, fun b hb => ?_⟩
  · rw [hpool]
    exact List.nodup_nil
  · rw [hpool, hflag]
    simp
  · rw [hpool] at hb
    cases hb

/-! ## `push` -/

theorem Owned.enter (h : Owned m) (hlt : b < m.nextBuffer) (hn : (m.heap b).native = some native)
    (hpushed : (m.heap b).pushed = false) (hle : toUint native.reserve ≤ m.pool.bufferReserveLimit) :
    Owned { m with
      heap := Function.update m.heap b { m.heap b with pushed := true }
      pool := { m.pool with buffers := b :: m.pool.buffers } } := by
  have hnot : b ∉ m.pool.buffers := fun hb => by
    rw [(h.flag b).2 hb] at hpushed
    cases hpushed
  refine ⟨List.nodup_cons.2 ⟨hnot, h.once⟩, fun b' => ?_, fun b' hb' => ?_⟩
  · by_cases he : b' = b
    · subst he
      simp
    · simp only [Function.update_of_ne he, List.mem_cons, he, false_or]
      exact h.flag b'
  · by_cases he : b' = b
    · subst he
      simp only [Function.update_self]
      exact ⟨hlt, native, hn, hle⟩
    · simp only [Function.update_of_ne he]
      exact h.idle b' ((List.mem_cons.1 hb').resolve_left he)

/-- **`push` keeps what `Owned` says**, and lets in at most the buffer pushed. -/
theorem Owned.push (h : Owned m) (hlt : b < m.nextBuffer) (hn : (m.heap b).native = some native) :
    ∃ m', push b m = .ok () m' ∧ Owned m' ∧ m'.nextBuffer = m.nextBuffer ∧
      ∀ b' ∈ m'.pool.buffers, b' = b ∨ b' ∈ m.pool.buffers := by
  rw [push_run hn]
  refine ⟨_, rfl, ?_⟩
  by_cases hpushed : (m.heap b).pushed = true
  · rw [if_pos hpushed]
    exact ⟨h.congr rfl (Nat.le_refl _) (fun _ => rfl) (fun _ _ => rfl), rfl, fun b' hb' => Or.inr hb'⟩
  rw [if_neg hpushed]
  by_cases hrefuse : Refuses m native
  · have hnot : b ∉ m.pool.buffers := mt (h.flag b).2 hpushed
    rw [if_pos hrefuse]
    refine ⟨h.congr rfl (Nat.le_refl _) (fun b' => ?_) (fun b' hb' => ?_), rfl, fun b' hb' => Or.inr hb'⟩
    · rcases eq_or_ne b' b with rfl | hne
      · simp only [Function.update_self]
      · simp only [Function.update_of_ne hne]
    · have hne : b' ≠ b := fun he => hnot (he ▸ hb')
      simp only [Function.update_of_ne hne]
  · have hle : toUint native.reserve ≤ m.pool.bufferReserveLimit := by
      unfold Refuses at hrefuse
      omega
    rw [if_neg hrefuse]
    have henter := h.enter hlt hn (Bool.eq_false_iff.2 hpushed) hle
    exact ⟨henter.congr rfl (Nat.le_refl _) (fun _ => rfl) (fun _ _ => rfl), rfl, fun b' hb' => List.mem_cons.1 hb'⟩

/-! ## `pop` -/

theorem Owned.fresh (h : Owned m) : m.nextBuffer ∉ m.pool.buffers := fun hb => absurd (h.idle _ hb).1 (by omega)

theorem Owned.create (h : Owned m) (reserve : Nat) :
    Owned { m with
      heap := Function.update m.heap m.nextBuffer ⟨some (Buffer.new reserve), false, false⟩
      nextBuffer := m.nextBuffer + 1 } := by
  have hflag : (m.heap m.nextBuffer).pushed = false := Bool.eq_false_iff.2 (mt (h.flag _).1 h.fresh)
  refine h.congr rfl (Nat.le_succ _) (fun b => ?_) (fun b hb => ?_)
  · rcases eq_or_ne b m.nextBuffer with rfl | hne
    · simp only [Function.update_self, hflag]
    · simp only [Function.update_of_ne hne]
  · have hne : b ≠ m.nextBuffer := fun he => h.fresh (he ▸ hb)
    simp only [Function.update_of_ne hne]

theorem Owned.leave {rest : List Nat} (h : Owned m) (hpool : m.pool.buffers = b :: rest) (native' : Buffer)
    (temporary : Bool) :
    b ∉ rest ∧ Owned { m with
      heap := Function.update m.heap b ⟨some native', false, temporary⟩
      pool := { m.pool with buffers := rest } } := by
  have honce := h.once
  rw [hpool, List.nodup_cons] at honce
  have hne : ∀ b' ∈ rest, b' ≠ b := fun b' hb' he => honce.1 (he ▸ hb')
  refine ⟨honce.1, honce.2, fun b' => ?_, fun b' hb' => ?_⟩
  · rcases eq_or_ne b' b with rfl | hb'
    · simp [honce.1]
    · have hflag := h.flag b'
      rw [hpool, List.mem_cons] at hflag
      simp only [Function.update_of_ne hb']
      exact hflag.trans (or_iff_right hb')
  · simp only [Function.update_of_ne (hne b' hb')]
    exact h.idle b' (hpool ▸ List.mem_cons_of_mem b hb')

/-- **`pop` returns an open and empty buffer**, which was idle or new and is not idle any more. -/
theorem Owned.pop (h : Owned m) : ∃ b m' native, pop m = .ok b m' ∧ Owned m' ∧
    (m'.heap b).native = some native ∧ native.size = 0 ∧ native.content = [] ∧ b ∉ m'.pool.buffers ∧
    (b ∈ m.pool.buffers ∨ m.nextBuffer ≤ b) ∧ b < m'.nextBuffer ∧ m.nextBuffer ≤ m'.nextBuffer ∧
    ∀ b' ∈ m'.pool.buffers, b' ∈ m.pool.buffers := by
  have hempty : ∀ b : Buffer, b.size = 0 → b.content = [] := by
    intro b hb
    unfold Buffer.content
    rw [hb]
    exact Block.slice_zero _ _
  rw [pop_run]
  cases hpool : m.pool.buffers with
  | nil =>
    refine ⟨m.nextBuffer, _, Buffer.new 512, rfl, h.create 512, ?_, rfl, hempty _ rfl, ?_, Or.inr (Nat.le_refl _),
      Nat.lt_succ_self _, Nat.le_succ _, fun b' hb' => hpool ▸ hb'⟩
    · simp only [Function.update_self]
    · show m.nextBuffer ∉ m.pool.buffers
      rw [hpool]
      exact List.not_mem_nil
  | cons b rest =>
    obtain ⟨hlt, native, hn, -⟩ := h.idle b (hpool ▸ List.mem_cons_self ..)
    obtain ⟨hnot, howned⟩ := h.leave hpool native.clear (m.heap b).temporary
    simp only [hn]
    refine ⟨b, _, native.clear, rfl, howned, ?_, rfl, hempty _ rfl, hnot, Or.inl (List.mem_cons_self ..), hlt,
      Nat.le_refl _, fun b' hb' => List.mem_cons_of_mem b hb'⟩
    simp only [Function.update_self]

/-! ## Runs -/

/-- **Every call keeps what `Leased` says**, and returns. -/
theorem Leased.step (h : Leased s) (call : Call) (hfair : Fair s call) :
    ∃ s', step s call = .ok s' ∧ Leased s' := by
  cases call with
  | push b =>
    obtain ⟨hlt, hopen⟩ := hfair
    obtain ⟨native, hn⟩ := Option.isSome_iff_exists.1 hopen
    obtain ⟨m', hrun, howned, hnext, hpool⟩ := h.owned.push hlt hn
    refine ⟨⟨m', .back b :: s.log⟩, by rw [BufferPool.step, hrun], howned, h.exclusive, fun b' hb' => ?_⟩
    refine not_lent_cons_back fun hne => h.free b' ?_
    exact hb'.imp (fun hin => (hpool b' hin).resolve_left hne) (fun hle => hnext ▸ hle)
  | pop =>
    obtain ⟨b, m', native, hrun, howned, -, -, -, hnot, hfree, hlt, hnext, hpool⟩ := h.owned.pop
    refine ⟨⟨m', .lend b :: s.log⟩, by rw [BufferPool.step, hrun], howned, ⟨h.free b hfree, h.exclusive⟩, ?_⟩
    intro b' hb'
    have hne : b' ≠ b := by
      rintro rfl
      exact hb'.elim hnot fun hle => absurd hlt (Nat.not_lt_of_le hle)
    exact not_lent_cons_lend hne (h.free b' (hb'.imp (hpool b') (Nat.le_trans hnext)))
  | create reserve =>
    exact ⟨_, rfl, h.owned.create reserve, h.exclusive, fun b' hb' =>
      h.free b' (hb'.imp_right fun hle => Nat.le_trans (Nat.le_succ _) hle)⟩
  | operate b native =>
    refine ⟨_, rfl, h.owned.congr rfl (Nat.le_refl _) (fun b' => ?_) (fun b' hb' => ?_), h.exclusive, h.free⟩
    · rcases eq_or_ne b' b with rfl | hne
      · simp only [Function.update_self]
      · simp only [Function.update_of_ne hne]
    · have hne : b' ≠ b := fun he => hfair (he ▸ hb')
      simp only [Function.update_of_ne hne]

theorem Owned.gives (h : Owned m) : Gives m := by
  obtain ⟨b, m', native, hrun, -, hn, hsize, hcontent, hnot, -⟩ := h.pop
  exact ⟨b, m', native, hrun, hn, hsize, hcontent, hnot⟩

/-- **A pooled buffer has one owner**, whatever is pushed and popped, from an empty pool on. -/
theorem one_owner (m : Machine) (hpool : m.pool.buffers = []) (hflag : ∀ b, (m.heap b).pushed = false)
    (calls : List Call) (hfair : Run.Along step Fair ⟨m, []⟩ calls) :
    ∃ s, calls.foldlM step ⟨m, []⟩ = .ok s ∧ Owned s.machine ∧ Gives s.machine ∧
      ∀ b new old first, s.log = new ++ .lend b :: (old ++ .lend b :: first) → .back b ∈ old := by
  have hstart : Leased ⟨m, []⟩ := ⟨owned_of_empty hpool hflag, trivial, fun _ _ => id⟩
  obtain ⟨s, hrun, hs⟩ :=
    Run.along_ok (I := Leased) (fun s call h hfair => h.step call hfair) calls ⟨m, []⟩ hstart hfair
  exact ⟨s, hrun, hs.owned, hs.owned.gives, fun b new old first hlog => hs.exclusive.back_between hlog⟩

/-- A buffer that is made, pushed twice and popped twice comes out once. -/
theorem one_owner_twice : ∃ s, [.create 512, .push 0, .push 0, .pop, .pop].foldlM step ⟨Machine.empty, []⟩ = .ok s ∧
    Owned s.machine ∧ Gives s.machine ∧
      ∀ b new old first, s.log = new ++ .lend b :: (old ++ .lend b :: first) → .back b ∈ old :=
  one_owner Machine.empty rfl (fun _ => rfl) _ (by decide +kernel)

end BufferPool
end V8h
