import Mathlib.Data.Set.Card
import V8h.Lib.Run
import V8h.ServiceRun
/-!
# ServiceCount — the count `Service::run` goes by

`Service::run` goes on while `fds_number` is not 0, and a script changes it from everywhere: before `run`, in the
callbacks `run` calls, and in a `run` called by one of these.  `Running` is a script with the calls of `run` that are
under way in it.  The count is the number of keys of `fds` in every state it gets into (`Counted.step`).  It is an `int`
in the source, which a script object does not have keys enough to overflow.
-/
namespace V8h

namespace Service

variable {α φ : Type} {s : Service α} {fd : Int}

/-- The keys of the script table `fds`. -/
def keys (s : Service α) : Set Int := {fd | (s.fds fd).isSome}

/-- The count is the number of keys. -/
structure Counted (s : Service α) : Prop where
  finite : s.keys.Finite
  number : s.fdsNumber = s.keys.ncard

theorem keys_eq_empty_iff (s : Service α) : s.keys = ∅ ↔ ∀ fd, s.fds fd = none := by
  simp only [keys, Set.eq_empty_iff_forall_notMem, Set.mem_ofPred_eq, Option.not_isSome_iff_eq_none]

theorem counted_new : Counted (new : Service α) := by
  have hkeys : (new : Service α).keys = ∅ := (keys_eq_empty_iff new).2 fun _ => rfl
  constructor
  · rw [hkeys]
    exact Set.finite_empty
  · rw [hkeys, Set.ncard_empty]
    rfl

theorem keys_inOrOut (s : Service α) (fd : Int) (f : α) (events : BitVec 32) :
    (s.inOrOut fd f events).1.keys = insert fd s.keys := by
  have hfds : (s.inOrOut fd f events).1.fds = Function.update s.fds fd (some f) := by
    unfold inOrOut
    split <;> rfl
  ext fd'
  simp only [keys, hfds, Set.mem_ofPred_eq, Set.mem_insert_iff, Function.update_apply]
  by_cases hfd : fd' = fd
  · simp only [hfd, if_true, Option.isSome_some, true_or]
  · simp only [hfd, if_false, false_or]

theorem keys_del (s : Service α) (fd : Int) : (s.del fd).1.keys = s.keys \ {fd} := by
  ext fd'
  simp only [keys, del_fds, Set.mem_ofPred_eq, Set.mem_sdiff, Set.mem_singleton_iff, Function.update_apply]
  by_cases hfd : fd' = fd
  · simp only [hfd, if_true, Option.isSome_none, Bool.false_eq_true, not_true, and_false]
  · simp only [hfd, if_false, not_false_eq_true, and_true]

/-- **`in` and `out` count an fd when they make it a key.** -/
theorem Counted.inOrOut (h : Counted s) (fd : Int) (f : α) (events : BitVec 32) :
    Counted (s.inOrOut fd f events).1 := by
  constructor
  · rw [keys_inOrOut]
    exact h.finite.insert fd
  rw [keys_inOrOut]
  unfold Service.inOrOut
  split
  · rename_i hkey
    have hmem : fd ∈ s.keys := hkey
    rw [Set.insert_eq_of_mem hmem]
    exact h.number
  · rename_i hkey
    have hnot : fd ∉ s.keys := hkey
    rw [Set.ncard_insert_of_notMem hnot h.finite, h.number]
    rfl

/-- **`del` uncounts an fd that is a key.** -/
theorem Counted.del (h : Counted s) (fd : Int) : Counted (s.del fd).1 := by
  constructor
  · rw [keys_del]
    exact h.finite.sdiff
  rw [keys_del]
  unfold Service.del
  split
  · rename_i hkey
    have hmem : fd ∈ s.keys := hkey
    have hcard := Set.ncard_sdiff_singleton_add_one hmem h.finite
    have hnumber := h.number
    show s.fdsNumber - 1 = _
    omega
  · rename_i hkey
    have hnot : fd ∉ s.keys := hkey
    rw [Set.sdiff_singleton_eq_self hnot]
    exact h.number

theorem Counted.apply {s : Service (JsValue φ)} (h : Counted s) (op : TableOp φ) : Counted (s.apply op) := by
  cases op with
  | pollIn fd f => exact h.inOrOut fd f epollIn
  | pollOut fd f => exact h.inOrOut fd f epollOut
  | error fd f => exact ⟨h.finite, h.number⟩
  | del fd => exact h.del fd
  | close fd => exact h.del fd

theorem Counted.number_eq_zero_iff (h : Counted s) : s.fdsNumber = 0 ↔ ∀ fd, s.fds fd = none := by
  rw [h.number, ← keys_eq_empty_iff, Int.natCast_eq_zero, Set.ncard_eq_zero h.finite]

end Service

/-- Where control is: in a script, at the condition of the `while` loop, or in the `for` loop with events left. -/
inductive Control where
  | script
  | condition
  | dispatch (events : List Event)
deriving DecidableEq

/-- A script and its service; for each callback of `run` under way, the innermost first, `outer` has the events left. -/
structure Running (φ : Type) where
  service : Service (JsValue φ)
  control : Control
  outer   : List (List Event)

namespace Running

open Service

variable {φ : Type}

/-- What happens next.  `$close` is the call `del` and then the call `close`. -/
inductive Step (φ : Type) where
  | call (op : TableOp φ)
  | run
  | leave
  | wait (answer : Option (List Event))
  | trigger
  | next
  | returns
  | throws

/-- A new service; the script begins. -/
def start : Running φ := ⟨Service.new, .script, []⟩

/-- `wait` answers `none` for -1.  What the machine refuses does not happen there, or ends the process. -/
def step (r : Running φ) : Step φ → Except Unit (Running φ)
  | .call op     =>
    if r.control = .script then .ok { r with service := r.service.apply op } else .error ()
  | .run         => if r.control = .script then .ok { r with control := .condition } else .error ()
  | .leave       =>
    if r.control = .condition ∧ r.service.fdsNumber = 0 then .ok { r with control := .script } else .error ()
  | .wait answer =>
    if r.control = .condition ∧ r.service.fdsNumber ≠ 0 then
      match answer with
      | none        => .ok { r with control := .script }
      | some events => .ok { r with control := .dispatch events }
    else .error ()
  | .trigger     =>
    match r.control with
    | .dispatch (e :: events) =>
      if Service.loop.callable (r.service.callbackOf e) then
        .ok { r with control := .script, outer := events :: r.outer }
      else .error ()
    | _                       => .error ()
  | .next        => if r.control = .dispatch [] then .ok { r with control := .condition } else .error ()
  | .returns     =>
    match r.control, r.outer with
    | .script, events :: outer => .ok { r with control := .dispatch events, outer := outer }
    | _, _                     => .error ()
  | .throws      =>
    match r.control, r.outer with
    | .script, _ :: outer => .ok { r with outer := outer }
    | _, _                => .error ()

/-- Only a call changes the table and the count. -/
theorem step_service {r r' : Running φ} {i : Step φ} (hstep : r.step i = .ok r') :
    r'.service = r.service ∨ ∃ op, i = .call op ∧ r'.service = r.service.apply op := by
  cases i with
  | call op =>
    simp only [step] at hstep
    split at hstep <;> cases hstep
    exact Or.inr ⟨op, rfl, rfl⟩
  | wait answer =>
    simp only [step] at hstep
    split at hstep
    · cases answer <;> cases hstep <;> exact Or.inl rfl
    · cases hstep
  | trigger =>
    simp only [step] at hstep
    split at hstep
    · split at hstep <;> cases hstep
      exact Or.inl rfl
    · cases hstep
  | run | leave | next | returns | throws =>
    simp only [step] at hstep
    split at hstep <;> cases hstep
    exact Or.inl rfl

/-- **The count is the number of keys in every state.** -/
theorem counted_of_run (steps : List (Step φ)) (r : Running φ) (hrun : steps.foldlM step start = .ok r) :
    Counted r.service := by
  apply Run.invariant (I := fun r : Running φ => Counted r.service) _ steps start r counted_new
    (Run.along_of_forall (fun _ _ => trivial) start steps) hrun
  intro r i r' hcounted _ hstep
  rcases step_service hstep with hsame | ⟨op, -, hop⟩
  · rw [hsame]
    exact hcounted
  · rw [hop]
    exact hcounted.apply op

/-- **`fds_number` is the number of keys of `fds` in every state**, in the callbacks of `run` and outside, and `run`
leaves its loop at the condition exactly when there is none. -/
theorem fdsNumber_eq_keys (steps : List (Step φ)) (r : Running φ) (hrun : steps.foldlM step start = .ok r) :
    r.service.keys.Finite ∧ r.service.fdsNumber = r.service.keys.ncard ∧ 0 ≤ r.service.fdsNumber ∧
      (r.control = .condition → ((∃ r', r.step .leave = .ok r') ↔ ∀ fd, r.service.fds fd = none)) := by
  have hcounted := counted_of_run steps r hrun
  refine ⟨hcounted.finite, hcounted.number, ?_, fun hcond => ?_⟩
  · rw [hcounted.number]
    exact Int.natCast_nonneg _
  · rw [← hcounted.number_eq_zero_iff]
    constructor
    · rintro ⟨r', hleave⟩
      simp only [step] at hleave
      split at hleave
      · rename_i h
        exact h.2
      · cases hleave
    · intro hzero
      exact ⟨_, if_pos ⟨hcond, hzero⟩⟩

/-- A callback closes its fd twice, and `run` is at its condition. -/
theorem fdsNumber_eq_keys_closed : ∃ r : Running Unit, r.service.keys.Finite ∧
    r.service.fdsNumber = r.service.keys.ncard ∧ 0 ≤ r.service.fdsNumber ∧
      (r.control = .condition → ((∃ r', r.step .leave = .ok r') ↔ ∀ fd, r.service.fds fd = none)) :=
  ⟨_, fdsNumber_eq_keys [.call (.pollIn 5 (.function ())), .run, .wait (some [⟨5, epollIn⟩]), .trigger,
    .call (.del 5), .call (.close 5), .returns, .next] _ rfl⟩

end Running
end V8h
