import V8h.Lib.Effect
/-!
# Dialog — programs known by the calls they make

A program whose text is not at hand is given by what it does next for each answer it may get: it ends with a value, it
fails, or it makes a call and goes on.  Calls are answered by programs over a state.  A call that fails may end the
whole run, or its failure is an answer the program gets; `caught` tells which.  What every call keeps the whole program
keeps (`run_keeps`).
-/
inductive Dialog (ι ρ ε : Type) where
  | done (r : ρ)
  | fail (e : ε)
  | call (i : ι) (next : Except ε ρ → Dialog ι ρ ε)

namespace Dialog

open Effect

variable {ι ρ ε κ σ : Type}

/-- The run of a program whose calls are answered by `exec`. -/
def run (thrown : ε → κ) (caught : κ → Option ε) (exec : ι → EStateM κ σ ρ) : Dialog ι ρ ε → EStateM κ σ ρ
  | done r      => pure r
  | fail e      => throw (thrown e)
  | call i next => fun s =>
    match exec i s with
    | .ok r s'    => run thrown caught exec (next (.ok r)) s'
    | .error k s' =>
      match caught k with
      | some e => run thrown caught exec (next (.error e)) s'
      | none   => .error k s'

variable {thrown : ε → κ} {caught : κ → Option ε} {exec : ι → EStateM κ σ ρ}

theorem run_call_ok {i : ι} {next : Except ε ρ → Dialog ι ρ ε} {s s' : σ} {r : ρ} (h : exec i s = .ok r s') :
    (call i next).run thrown caught exec s = (next (.ok r)).run thrown caught exec s' := by
  simp only [run, h]

theorem run_call_caught {i : ι} {next : Except ε ρ → Dialog ι ρ ε} {s s' : σ} {k : κ} {e : ε}
    (h : exec i s = .error k s') (hk : caught k = some e) :
    (call i next).run thrown caught exec s = (next (.error e)).run thrown caught exec s' := by
  simp only [run, h, hk]

theorem run_call_fatal {i : ι} {next : Except ε ρ → Dialog ι ρ ε} {s s' : σ} {k : κ}
    (h : exec i s = .error k s') (hk : caught k = none) :
    (call i next).run thrown caught exec s = .error k s' := by
  simp only [run, h, hk]

/-- **The rule for a program**: what its calls keep, with what may be said of a failure. -/
theorem run_ends {P : σ → Prop} {E : κ → σ → Prop} (hexec : ∀ i, Ends P (exec i) (fun _ => P) E)
    (hcaught : ∀ k e s, caught k = some e → E k s → P s) (hthrown : ∀ e s, P s → E (thrown e) s) :
    ∀ d : Dialog ι ρ ε, Ends P (d.run thrown caught exec) (fun _ => P) E
  | done _      => .pure fun _ h => h
  | fail e      => .throw fun s h => hthrown e s h
  | call i next => .of_leads fun s hs => by
    cases h : exec i s with
    | ok a s₁ =>
      have ih := run_ends hexec hcaught hthrown (next (.ok a))
      exact ih.leads_of_eq ((hexec i).ok hs h) (run_call_ok h)
    | error k s₁ =>
      have he := (hexec i).error hs h
      cases hk : caught k with
      | none => exact .of_error (run_call_fatal h hk) he
      | some e =>
        have ih := run_ends hexec hcaught hthrown (next (.error e))
        exact ih.leads_of_eq (hcaught k e s₁ hk he) (run_call_caught h hk)

/-- **What every call keeps a program keeps.** -/
theorem run_keeps {P : σ → Prop} (hexec : ∀ i, Ends P (exec i) (fun _ => P) (fun _ => P)) (d : Dialog ι ρ ε) :
    Ends P (d.run thrown caught exec) (fun _ => P) (fun _ => P) :=
  run_ends hexec (fun _ _ _ _ h => h) (fun _ _ h => h) d

/-- **What every call does to the state a program does.** -/
theorem run_within {R : σ → σ → Prop} (refl : ∀ a, R a a) (trans : ∀ a b c, R a b → R b c → R a c)
    (hexec : ∀ i, Within R (exec i)) (d : Dialog ι ρ ε) : Within R (d.run thrown caught exec) :=
  .of_ends refl fun s => run_keeps (fun i => (hexec i).ends trans s) d

end Dialog
