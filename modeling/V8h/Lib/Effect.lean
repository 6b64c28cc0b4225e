import Mathlib.Tactic.Common
/-!
# Effect — programs whose state survives exceptions

A program is an `EStateM ε σ α`: it ends with a value or an exception, and with a state in both cases.  `Ends P x Q E`
says that from every state in `P` it ends with a value and a state in `Q`, or with an exception and a state in `E`, and
`Leads s x Q E` that it does from the state `s`.  The rules follow the program text, and a caller is judged by what its
callees ensure.  `Yields` is the same judgement of a program without a state.
-/
namespace Effect

variable {σ ε α β : Type}

structure Ends (P : σ → Prop) (x : EStateM ε σ α) (Q : α → σ → Prop) (E : ε → σ → Prop) : Prop where
  ok    : ∀ {s s' a}, P s → x s = .ok a s' → Q a s'
  error : ∀ {s s' e}, P s → x s = .error e s' → E e s'

/-! ## Evaluation -/

theorem bind_ok {x : EStateM ε σ α} {f : α → EStateM ε σ β} {s s' : σ} {a : α} (h : x s = .ok a s') :
    (x >>= f) s = f a s' := by
  show EStateM.bind x f s = _
  rw [EStateM.bind, h]

theorem bind_error {x : EStateM ε σ α} {f : α → EStateM ε σ β} {s s' : σ} {e : ε} (h : x s = .error e s') :
    (x >>= f) s = .error e s' := by
  show EStateM.bind x f s = _
  rw [EStateM.bind, h]

theorem bind_run (x : EStateM ε σ α) (f : α → EStateM ε σ β) (s : σ) :
    (x >>= f) s = match x s with
      | .ok a s'    => f a s'
      | .error e s' => .error e s' := by
  show EStateM.bind x f s = _
  unfold EStateM.bind
  split <;> simp_all

theorem pure_run (a : α) (s : σ) : (pure a : EStateM ε σ α) s = .ok a s := rfl

theorem get_run (s : σ) : (get : EStateM ε σ σ) s = .ok s s := rfl

theorem modify_run (f : σ → σ) (s : σ) : (modify f : EStateM ε σ PUnit) s = .ok ⟨⟩ (f s) := rfl

theorem ite_run {c : Prop} [Decidable c] (x y : EStateM ε σ α) (s : σ) :
    (if c then x else y) s = if c then x s else y s := by split <;> rfl

/-- The program ends with a result, in a state. -/
def Gives (x : EStateM ε σ α) (s : σ) (result : Except ε α) (s' : σ) : Prop :=
  match result with
  | .ok a    => x s = .ok a s'
  | .error e => x s = .error e s'

theorem Gives.unique {x : EStateM ε σ α} {s s₁ s₂ : σ} {r₁ r₂ : Except ε α} (h₁ : Gives x s r₁ s₁)
    (h₂ : Gives x s r₂ s₂) : r₁ = r₂ ∧ s₁ = s₂ := by
  cases r₁ <;> cases r₂ <;> cases Eq.trans (Eq.symm h₁) h₂ <;> exact ⟨rfl, rfl⟩

/-- What a program ends with. -/
def answer (x : EStateM ε σ α) (s : σ) : Except ε α :=
  match x s with
  | .ok a _    => .ok a
  | .error e _ => .error e

/-- The state a program ends in. -/
def after (x : EStateM ε σ α) (s : σ) : σ :=
  match x s with
  | .ok _ s' | .error _ s' => s'

theorem gives_after (x : EStateM ε σ α) (s : σ) : Gives x s (answer x s) (after x s) := by
  unfold answer after
  cases hx : x s <;> exact hx

/-! ## The rules -/

variable {P P' : σ → Prop} {Q Q' : α → σ → Prop} {E E' : ε → σ → Prop} {x : EStateM ε σ α}

theorem Ends.of_ok {a : σ → α} {f : σ → σ} (hx : ∀ s, x s = .ok (a s) (f s)) (h : ∀ s, P s → Q (a s) (f s)) :
    Ends P x Q E := by
  refine ⟨fun {s s' b} hs h' => ?_, fun {s s' e} hs h' => ?_⟩
  · rw [hx] at h'
    cases h'
    exact h s hs
  · rw [hx] at h'
    cases h'

theorem Ends.mono (h : Ends P x Q E) (hP : ∀ s, P' s → P s) (hQ : ∀ a s, Q a s → Q' a s) (hE : ∀ e s, E e s → E' e s) :
    Ends P' x Q' E' := ⟨fun hs hx => hQ _ _ (h.ok (hP _ hs) hx), fun hs hx => hE _ _ (h.error (hP _ hs) hx)⟩

theorem Ends.pure {a : α} (h : ∀ s, P s → Q a s) : Ends P (pure a : EStateM ε σ α) Q E := Ends.of_ok (fun _ => rfl) h

theorem Ends.throw {e : ε} (h : ∀ s, P s → E e s) : Ends P (throw e : EStateM ε σ α) Q E := by
  refine ⟨fun hs hx => ?_, fun {s s' e'} hs hx => ?_⟩
  · cases hx
  · cases hx
    exact h s hs

theorem Ends.bind {f : α → EStateM ε σ β} {Q' : β → σ → Prop} (hx : Ends P x Q E) (hf : ∀ a, Ends (Q a) (f a) Q' E) :
    Ends P (x >>= f) Q' E := by
  refine ⟨fun {s s' b} hs h' => ?_, fun {s s' e} hs h' => ?_⟩
  · cases h : x s with
    | error e₁ s₁ =>
      rw [bind_error h] at h'
      cases h'
    | ok a s₁ =>
      rw [bind_ok h] at h'
      exact (hf a).ok (hx.ok hs h) h'
  · cases h : x s with
    | error e₁ s₁ =>
      rw [bind_error h] at h'
      cases h'
      exact hx.error hs h
    | ok a s₁ =>
      rw [bind_ok h] at h'
      exact (hf a).error (hx.ok hs h) h'

/-- What holds of the start state may be used to judge the program. -/
theorem Ends.of_imp {c : Prop} (hc : ∀ s, P s → c) (h : c → Ends P x Q E) : Ends P x Q E :=
  ⟨fun hs hx => (h (hc _ hs)).ok hs hx, fun hs hx => (h (hc _ hs)).error hs hx⟩

/-- An invariant is passed on with what is known of the value. -/
theorem Ends.bind_keeping {f : α → EStateM ε σ β} {V : α → Prop} {Q' : β → σ → Prop}
    (hx : Ends P x (fun a s => P s ∧ V a) E) (hf : ∀ a, V a → Ends P (f a) Q' E) : Ends P (x >>= f) Q' E :=
  hx.bind fun a => Ends.of_imp (fun _ h => h.2) fun ha =>
    (hf a ha).mono (fun _ h => h.1) (fun _ _ h => h) (fun _ _ h => h)

/-! ## From one state -/

structure Leads (s : σ) (x : EStateM ε σ α) (Q : α → σ → Prop) (E : ε → σ → Prop) : Prop where
  ok    : ∀ {a s'}, x s = .ok a s' → Q a s'
  error : ∀ {e s'}, x s = .error e s' → E e s'

theorem Leads.of_ok {s s' : σ} {a : α} (hx : x s = .ok a s') (h : Q a s') : Leads s x Q E := by
  refine ⟨fun hr => ?_, fun hr => ?_⟩ <;> rw [hx] at hr <;> cases hr
  exact h

theorem Leads.of_error {s s' : σ} {e : ε} (hx : x s = .error e s') (h : E e s') : Leads s x Q E := by
  refine ⟨fun hr => ?_, fun hr => ?_⟩ <;> rw [hx] at hr <;> cases hr
  exact h

theorem Ends.of_leads (h : ∀ s, P s → Leads s x Q E) : Ends P x Q E :=
  ⟨fun {_ _ _} hs hx => (h _ hs).ok hx, fun {_ _ _} hs hx => (h _ hs).error hx⟩

theorem Ends.leads_of_eq {y : EStateM ε σ α} {s s₁ : σ} (h : Ends P y Q E) (hs : P s₁) (hx : x s = y s₁) :
    Leads s x Q E := ⟨fun hr => h.ok hs (hx.symm.trans hr), fun hr => h.error hs (hx.symm.trans hr)⟩

theorem Leads.mono {s : σ} (h : Leads s x Q E) (hQ : ∀ a s', x s = .ok a s' → Q a s' → Q' a s')
    (hE : ∀ e s', E e s' → E' e s') : Leads s x Q' E' :=
  ⟨fun hx => hQ _ _ hx (h.ok hx), fun hx => hE _ _ (h.error hx)⟩

theorem Leads.bind {s : σ} {f : α → EStateM ε σ β} {Q' : β → σ → Prop} (hx : Leads s x Q E)
    (hf : ∀ a s', x s = .ok a s' → Q a s' → Leads s' (f a) Q' E) : Leads s (x >>= f) Q' E := by
  cases h : x s with
  | error e s' => exact .of_error (bind_error h) (hx.error h)
  | ok a s' =>
    have := hf a s' h (hx.ok h)
    exact ⟨fun hr => this.ok ((bind_ok h).symm.trans hr), fun hr => this.error ((bind_ok h).symm.trans hr)⟩

theorem Leads.congr {s : σ} {y : EStateM ε σ α} (h : x s = y s) (hy : Leads s y Q E) : Leads s x Q E :=
  ⟨fun hr => hy.ok (h.symm.trans hr), fun hr => hy.error (h.symm.trans hr)⟩

/-! ## What a program does to the state -/

/-- However the program ends, its last state is related to its first. -/
structure Within (R : σ → σ → Prop) (x : EStateM ε σ α) : Prop where
  ok    : ∀ {s s' a}, x s = .ok a s' → R s s'
  error : ∀ {s s' e}, x s = .error e s' → R s s'

variable {R : σ → σ → Prop}

theorem Within.of_leads (h : ∀ s, Leads s x (fun _ => R s) (fun _ => R s)) : Within R x :=
  ⟨fun {s _ _} hx => (h s).ok hx, fun {s _ _} hx => (h s).error hx⟩

theorem Within.leads (h : Within R x) (s : σ) : Leads s x (fun _ => R s) (fun _ => R s) :=
  ⟨fun hx => h.ok hx, fun hx => h.error hx⟩

theorem Within.ends (trans : ∀ a b c, R a b → R b c → R a c) (h : Within R x) (s : σ) :
    Ends (R s) x (fun _ => R s) (fun _ => R s) :=
  ⟨fun hs hx => trans _ _ _ hs (h.ok hx), fun hs hx => trans _ _ _ hs (h.error hx)⟩

theorem Within.of_ends (refl : ∀ a, R a a) (h : ∀ s, Ends (R s) x (fun _ => R s) (fun _ => R s)) : Within R x :=
  ⟨fun {s _ _} hx => (h s).ok (refl s) hx, fun {s _ _} hx => (h s).error (refl s) hx⟩

theorem Ends.after (h : Ends P x (fun _ => P) (fun _ => P)) {s : σ} (hs : P s) : P (after x s) := by
  unfold Effect.after
  cases hx : x s with
  | ok a s' => exact h.ok hs hx
  | error e s' => exact h.error hs hx

theorem Within.after (h : Within R x) (s : σ) : R s (after x s) := by
  unfold Effect.after
  cases hx : x s with
  | ok a s' => exact h.ok hx
  | error e s' => exact h.error hx

theorem Within.keeps (h : Within R x) (hP : ∀ s s', P s → R s s' → P s') : Ends P x (fun _ => P) (fun _ => P) :=
  ⟨fun hs hx => hP _ _ hs (h.ok hx), fun hs hx => hP _ _ hs (h.error hx)⟩

/-! ## Programs without a state -/

/-- The program ends with a value in `V`, or with an exception in `F`. -/
structure Yields (y : Except ε α) (V : α → Prop) (F : ε → Prop) : Prop where
  ok    : ∀ {a}, y = .ok a → V a
  error : ∀ {e}, y = .error e → F e

variable {V : α → Prop} {F : ε → Prop} {y : Except ε α}

theorem Yields.of_ok {a : α} (hy : y = .ok a) (ha : V a) : Yields y V F := by
  subst hy
  exact ⟨fun h => Except.ok.inj h ▸ ha, (nomatch ·)⟩

theorem Yields.of_error {e : ε} (hy : y = .error e) (he : F e) : Yields y V F := by
  subst hy
  exact ⟨(nomatch ·), fun h => Except.error.inj h ▸ he⟩

theorem Yields.mono {V' : α → Prop} (h : Yields y V F) (hV : ∀ a, V a → V' a) : Yields y V' F :=
  ⟨fun hy => hV _ (h.ok hy), fun hy => h.error hy⟩

theorem Yields.bind {f : α → Except ε β} {V' : β → Prop} (h : Yields y V F) (hf : ∀ a, V a → Yields (f a) V' F) :
    Yields (y >>= f) V' F := by
  cases y with
  | ok a => exact hf a (h.ok rfl)
  | error e => exact .of_error rfl (h.error rfl)

end Effect
