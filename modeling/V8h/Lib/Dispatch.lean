import Mathlib.Tactic.Common
import Mathlib.Data.List.Induction
/-!
# Dispatch — a fixed batch of events against a table its own handlers change

A dispatch loop takes the events of one batch in order, looks the handler of each up in a state, and runs it; what it
runs changes the state the next lookup reads.  The loop stops at a handler that throws and at a lookup that finds
nothing to call.  `calls` is what the loop calls; `calls_getElem?` says in which state each lookup was made, and
`forall_calls_iff` turns a condition on everything called into one on the inputs.
-/
namespace Dispatch

variable {σ τ ε β γ ω : Type}

structure Loop (σ ε β ω : Type) where
  lookup   : σ → ε → β
  callable : β → Bool
  exec     : σ → ω → σ

/-- What one handler does: operations on the state, and whether it throws after them. -/
structure Turn (ω : Type) where
  ops    : List ω
  throws : Bool

/-- What the loop calls, from the event number `i` on. -/
def Loop.calls (L : Loop σ ε β ω) (turn : Nat → Turn ω) : Nat → σ → List ε → List (ε × β)
  | _, _, []         => []
  | i, s, e :: batch =>
    (e, L.lookup s e) ::
      if L.callable (L.lookup s e) ∧ (turn i).throws = false then
        L.calls turn (i + 1) ((turn i).ops.foldl L.exec s) batch
      else []

/-- The operations of the `n` handlers from number `i` on. -/
def opsOf (turn : Nat → Turn ω) : Nat → Nat → List ω
  | _, 0     => []
  | i, n + 1 => (turn i).ops ++ opsOf turn (i + 1) n

variable (L : Loop σ ε β ω) (turn : Nat → Turn ω)

/-- **The `j`-th call is for the `j`-th event**, looked up after the operations of the handlers before it. -/
theorem Loop.calls_getElem? : ∀ (batch : List ε) (i j : Nat) (s : σ) (c : ε × β),
    (L.calls turn i s batch)[j]? = some c →
      batch[j]? = some c.1 ∧ c.2 = L.lookup ((opsOf turn i j).foldl L.exec s) c.1
  | [], _, _, _, _, h => by simp [Loop.calls] at h
  | e :: batch, i, 0, s, c, h => by
    simp only [Loop.calls, List.getElem?_cons_zero, Option.some.injEq] at h
    subst h
    exact ⟨rfl, rfl⟩
  | e :: batch, i, j + 1, s, c, h => by
    rw [Loop.calls, List.getElem?_cons_succ] at h
    split at h
    · obtain ⟨h1, h2⟩ := Loop.calls_getElem? batch (i + 1) j _ c h
      refine ⟨h1, ?_⟩
      rw [h2, opsOf, List.foldl_append]
    · simp at h

/-- **Everything called is callable exactly when every event met without a throw before it finds a handler to call**. -/
theorem Loop.forall_calls_iff : ∀ (batch : List ε) (i : Nat) (s : σ),
    (∀ c ∈ L.calls turn i s batch, L.callable c.2 = true) ↔
      ∀ pre e post, batch = pre ++ e :: post → (∀ k < pre.length, (turn (i + k)).throws = false) →
        L.callable (L.lookup ((opsOf turn i pre.length).foldl L.exec s) e) = true
  | [], i, s => by simp [Loop.calls]
  | e :: batch, i, s => by
    have ih := Loop.forall_calls_iff batch (i + 1) ((turn i).ops.foldl L.exec s)
    simp only [Loop.calls, List.mem_cons, forall_eq_or_imp]
    constructor
    · rintro ⟨h0, h⟩ pre e' post hs hthrow
      cases pre with
      | nil =>
        obtain ⟨rfl, -⟩ := List.cons.inj hs
        exact h0
      | cons x pre =>
        obtain ⟨rfl, hs'⟩ := List.cons.inj hs
        rw [if_pos ⟨h0, hthrow 0 (Nat.succ_pos _)⟩] at h
        rw [List.length_cons, opsOf, List.foldl_append]
        refine ih.1 h pre e' post hs' fun k hk => ?_
        rw [Nat.add_right_comm]
        exact hthrow (k + 1) (Nat.succ_lt_succ hk)
    · intro h
      have h0 := h [] e batch rfl (fun k hk => absurd hk (Nat.not_lt_zero k))
      refine ⟨h0, ?_⟩
      split
      · rename_i hgo
        refine ih.2 fun pre e' post hs hthrow => ?_
        have := h (e :: pre) e' post (by rw [hs]; rfl) (fun k hk => ?_)
        · rwa [List.length_cons, opsOf, List.foldl_append] at this
        · cases k with
          | zero => exact hgo.2
          | succ k =>
            rw [← Nat.add_assoc, Nat.add_right_comm]
            exact hthrow k (Nat.lt_of_succ_lt_succ hk)
      · exact fun _ hc => absurd hc List.not_mem_nil

/-- **Two loops matched by a relation call matched handlers.** -/
theorem Loop.calls_map {L : Loop σ ε β ω} {M : Loop τ ε γ ω} {R : σ → τ → Prop} {f : β → γ}
    (hlookup : ∀ s t e, R s t → M.lookup t e = f (L.lookup s e)) (hcall : ∀ b, M.callable (f b) = L.callable b)
    (hexec : ∀ s t op, R s t → R (L.exec s op) (M.exec t op)) (turn : Nat → Turn ω) :
    ∀ (batch : List ε) (i : Nat) (s : σ) (t : τ), R s t →
      M.calls turn i t batch = (L.calls turn i s batch).map (Prod.map id f)
  | [], _, _, _, _ => rfl
  | e :: batch, i, s, t, h => by
    have hfold : ∀ (ops : List ω) (s : σ) (t : τ), R s t → R (ops.foldl L.exec s) (ops.foldl M.exec t) := by
      intro ops
      induction ops with
      | nil => exact fun _ _ h => h
      | cons op ops ih => exact fun s t h => ih _ _ (hexec s t op h)
    rw [Loop.calls, Loop.calls, hlookup s t e h, hcall, List.map_cons]
    congr 1
    split
    · exact Loop.calls_map hlookup hcall hexec turn batch (i + 1) _ _ (hfold _ s t h)
    · rfl

/-! ## Which operation decides an entry -/

/-- A split of a list that ends in `op` is at `op` or before it. -/
theorem exists_split_snoc {Q : List ω → ω → List ω → Prop} {ops : List ω} {op : ω} :
    (∃ before o after, ops ++ [op] = before ++ o :: after ∧ Q before o after) ↔
      Q ops op [] ∨ ∃ before o after, ops = before ++ o :: after ∧ Q before o (after ++ [op]) := by
  constructor
  · rintro ⟨before, o, after, hs, hQ⟩
    rcases List.eq_nil_or_concat after with rfl | ⟨after, last, rfl⟩
    · obtain ⟨rfl, ho⟩ := List.append_inj' hs rfl
      obtain ⟨rfl, -⟩ := List.cons.inj ho
      exact Or.inl hQ
    · have hs' : ops ++ [op] = (before ++ o :: after) ++ [last] := by simpa using hs
      obtain ⟨rfl, hl⟩ := List.append_inj' hs' rfl
      obtain rfl := List.singleton_inj.1 hl
      exact Or.inr ⟨before, o, after, rfl, by simpa using hQ⟩
  · rintro (hQ | ⟨before, o, after, rfl, hQ⟩)
    · exact ⟨ops, op, [], rfl, hQ⟩
    · exact ⟨before, o, after ++ [op], by simp, hQ⟩

/-- **The last operation that touches an entry decides it**: `leaves` says what an operation leaves there, when it
touches it. -/
theorem foldl_last_write (get : σ → β) {exec : σ → ω → σ} {leaves : ω → Option β}
    (h : ∀ s op, get (exec s op) = (leaves op).getD (get s)) (P : β → Prop) (s : σ) (ops : List ω) :
    P (get (ops.foldl exec s)) ↔
      (∃ before op after, ops = before ++ op :: after ∧ (∃ b, leaves op = some b ∧ P b) ∧
        ∀ o ∈ after, leaves o = none) ∨
        (∀ o ∈ ops, leaves o = none) ∧ P (get s) := by
  induction ops using List.reverseRecOn with
  | nil => simp
  | append_singleton ops op ih =>
    rw [List.foldl_append, List.foldl_cons, List.foldl_nil, h, exists_split_snoc]
    cases hl : leaves op with
    | some b =>
      have hlast : ∀ l : List ω, ¬ ∀ o ∈ l ++ [op], leaves o = none := fun l hall => by
        have := hall op (by simp)
        rw [hl] at this
        cases this
      rw [Option.getD_some]
      constructor
      · exact fun hb => Or.inl (Or.inl ⟨⟨b, rfl, hb⟩, fun o ho => absurd ho List.not_mem_nil⟩)
      · rintro ((⟨⟨b', hb', hP⟩, -⟩ | ⟨_, _, after, -, -, hafter⟩) | ⟨hall, -⟩)
        · cases hb'
          exact hP
        · exact absurd hafter (hlast after)
        · exact absurd hall (hlast ops)
    | none =>
      rw [Option.getD_none, ih]
      simp [or_imp, forall_and, hl]

end Dispatch
