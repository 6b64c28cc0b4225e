import Mathlib.Data.List.Forall2
import V8h.Native
import V8h.ServiceRun
/-!
# ServiceJs — `$runJS` beside `Service::run`

One iteration of either loop, on the array `wait` filled, with callbacks that leave the tables alone.  `$runJS` looks
every callback up in `fds`, and runs over `[0...n]`, which counts down from 0 when `n` is negative.  So it calls what
`Service::run` calls exactly when `wait` did not fail and no event is for an error callback of its own
(`runJS_alike_iff`).
-/
namespace V8h
namespace Service

variable {φ : Type}

/-- `[0...n]` with a computed bound. -/
def coffeeRange (n : Int) : List Int := (List.range n.natAbs).map fun k : Nat => if 0 ≤ n then (k : Int) else -k

/-- `events[event_id]`; entries behind the `n` that were reported have what was there before. -/
def eventById (events : List Event) (id : Int) : Except Trap Event :=
  match events[id.toNat]? with
  | some e => if 0 ≤ id then .ok e else .error .outOfBounds
  | none   => .error .outOfBounds

/-- `Cast` and `Call`, with the callback that is called. -/
def invoke : Option (JsValue φ) → Except Trap φ
  | some (.function f) => .ok f
  | _                  => .error .notCallable

/-- `Service::trigger_by_event_id`. -/
def triggerByEventId (s : Service (JsValue φ)) (events : List Event) (id : Int) : Except Trap φ := do
  invoke (s.fds (← eventById events id).fd)

/-- The body of the loop of `$runJS`, with the callbacks it calls. -/
def iterateJS (s : Service (JsValue φ)) (events : List Event) (n : Int) : Except Trap (List φ) :=
  (coffeeRange n).mapM (s.triggerByEventId events)

/-- The body of the loop of `Service::run`. -/
def iterate (s : Service (JsValue φ)) (events : List Event) (n : Int) : Except Trap (List φ) :=
  if n = -1 then
    .ok []
  else if n > 0 then
    ((List.range n.toNat).map Int.ofNat).mapM fun i => do invoke (s.callbackOf (← eventById events i))
  else
    .ok []

/-- The callback of a reported event. -/
def expected (input error : Int → φ) (e : Event) : φ := if e.isError then error e.fd else input e.fd

/-- What both loops are to call. -/
def Alike (s : Service (JsValue φ)) (input error : Int → φ) (events : List Event) (n : Int) : Prop :=
  s.iterateJS events n = .ok ((events.take n.toNat).map (expected input error)) ∧
    s.iterate events n = .ok ((events.take n.toNat).map (expected input error))

variable {s : Service (JsValue φ)} {events : List Event} {n : Int} {input error : Int → φ}

theorem mapM_ok_of_forall₂ {α β ε : Type} {f : α → Except ε β} {l : List α} {r : List β}
    (h : List.Forall₂ (fun a b => f a = .ok b) l r) : l.mapM f = .ok r := by
  induction h with
  | nil => rfl
  | cons hab _ ih =>
    rw [List.mapM_cons, hab, ih]
    rfl

theorem mapM_cons_ne_nil {α β ε : Type} {f : α → Except ε β} (a : α) (l : List α) : (a :: l).mapM f ≠ .ok [] := by
  intro h
  rw [List.mapM_cons] at h
  cases hf : f a with
  | error e =>
    rw [hf] at h
    cases h
  | ok b =>
    cases hl : l.mapM f with
    | error e =>
      rw [hf, hl] at h
      cases h
    | ok bs =>
      rw [hf, hl] at h
      cases h

theorem mapM_reported (lookup : Event → Option (JsValue φ)) {f : Event → φ} {k : Nat} (hk : k ≤ events.length)
    (h : ∀ e ∈ events.take k, lookup e = some (.function (f e))) :
    ((List.range k).map Int.ofNat).mapM (fun i => do invoke (lookup (← eventById events i))) =
      .ok ((events.take k).map f) := by
  apply mapM_ok_of_forall₂
  rw [List.forall₂_iff_get]
  constructor
  · simp only [List.length_map, List.length_range, List.length_take, Nat.min_eq_left hk]
  · intro i hi hi'
    simp only [List.length_map, List.length_range] at hi
    have hlt : i < events.length := by omega
    have hmem : events[i] ∈ events.take k := List.mem_take_iff_getElem.2 ⟨i, by omega, rfl⟩
    simp only [List.get_eq_getElem, List.getElem_map, List.getElem_range, List.getElem_take]
    have hevent : eventById events (Int.ofNat i) = .ok events[i] := by
      simp only [eventById, Int.ofNat_eq_natCast, Int.toNat_natCast, List.getElem?_eq_getElem hlt, Int.natCast_nonneg,
        if_true]
    rw [hevent]
    show invoke (lookup events[i]) = _
    rw [h _ hmem]
    rfl

theorem coffeeRange_of_nonneg (hn : 0 ≤ n) : coffeeRange n = (List.range n.toNat).map Int.ofNat := by
  have habs : n.natAbs = n.toNat := by omega
  simp only [coffeeRange, habs, if_pos hn]
  rfl

theorem coffeeRange_of_neg (hn : n < 0) : ∃ rest, coffeeRange n = 0 :: rest := by
  obtain ⟨k, hk⟩ : ∃ k, n.natAbs = k + 1 := ⟨n.natAbs - 1, by omega⟩
  rw [coffeeRange, hk, List.range_succ_eq_map, List.map_cons]
  exact ⟨_, by rw [if_neg (by omega)]; rfl⟩

/-- Every event that is reported has both callbacks. -/
def Both (s : Service (JsValue φ)) (input error : Int → φ) (reported : List Event) : Prop :=
  ∀ e ∈ reported, s.fds e.fd = some (.function (input e.fd)) ∧ s.fdsError e.fd = some (.function (error e.fd))

theorem Both.callbackOf (h : Both s input error (events.take n.toNat)) :
    ∀ e ∈ events.take n.toNat, s.callbackOf e = some (.function (expected input error e)) := by
  intro e he
  unfold Service.callbackOf expected
  split
  · exact (h e he).2
  · exact (h e he).1

/-- **`Service::run` calls what it is to call.** -/
theorem iterate_run (hn : n ≤ events.length) (hboth : Both s input error (events.take n.toNat)) :
    s.iterate events n = .ok ((events.take n.toNat).map (expected input error)) := by
  unfold iterate
  by_cases hpos : n > 0
  · rw [if_neg (by omega), if_pos hpos]
    exact mapM_reported s.callbackOf (by omega) hboth.callbackOf
  · have hzero : n.toNat = 0 := by omega
    rw [if_neg hpos, hzero, ite_self]
    rfl

/-- **`$runJS` calls the in or out callbacks.** -/
theorem iterateJS_run (h0 : 0 ≤ n) (hn : n ≤ events.length) (hboth : Both s input error (events.take n.toNat)) :
    s.iterateJS events n = .ok ((events.take n.toNat).map fun e => input e.fd) := by
  rw [iterateJS, coffeeRange_of_nonneg h0]
  exact mapM_reported (fun e => s.fds e.fd) (by omega) fun e he => (hboth e he).1

/-- After a `wait` that failed `$runJS` looks at an event, and calls or ends in a fault. -/
theorem iterateJS_of_neg (hn : n < 0) : s.iterateJS events n ≠ .ok [] := by
  obtain ⟨rest, hrange⟩ := coffeeRange_of_neg hn
  rw [iterateJS, hrange]
  exact mapM_cons_ne_nil 0 rest

/-- **The two loops call alike exactly when `wait` did not fail and no reported event is for an error callback other
than its fd's in or out callback.** -/
theorem runJS_alike_iff (s : Service (JsValue φ)) (input error : Int → φ) (events : List Event) (n : Int)
    (hn : n ≤ events.length) (hboth : Both s input error (events.take n.toNat)) :
    Alike s input error events n ↔
      0 ≤ n ∧ ∀ e ∈ events.take n.toNat, e.isError = true → input e.fd = error e.fd := by
  by_cases h0 : 0 ≤ n
  · have hsame : (events.take n.toNat).map (fun e => input e.fd) = (events.take n.toNat).map (expected input error) ↔
        ∀ e ∈ events.take n.toNat, e.isError = true → input e.fd = error e.fd := by
      rw [List.map_inj_left]
      refine forall₂_congr fun e _ => ?_
      unfold expected
      cases e.isError
      · simp only [Bool.false_eq_true, if_false, false_imp_iff]
      · simp only [if_true, true_imp_iff]
    rw [Alike, iterateJS_run h0 hn hboth, iterate_run hn hboth, Except.ok.injEq, hsame]
    exact ⟨fun h => ⟨h0, h.1⟩, fun h => ⟨h.2, rfl⟩⟩
  · have hzero : n.toNat = 0 := by omega
    apply iff_of_false
    · rintro ⟨hjs, -⟩
      rw [hzero, List.take_zero] at hjs
      exact iterateJS_of_neg (by omega) hjs
    · exact fun h => h0 h.1

/-- An event is reported for an fd with two callbacks. -/
theorem runJS_alike_polled :
    Alike ((polled [5]).error 5 (.function ())) (fun _ => ()) (fun _ => ()) [⟨5, epollIn⟩] 1 ↔
      0 ≤ (1 : Int) ∧ ∀ e ∈ [(⟨5, epollIn⟩ : Event)].take (1 : Int).toNat, e.isError = true → () = () :=
  runJS_alike_iff _ _ _ _ _ (by decide) (by unfold Both; decide)

/-- Fd 5 has the callback 0, and the error callback 1. -/
def twoCallbacks : Service (JsValue Nat) := (new.pollIn 5 (.function 0)).1.error 5 (.function 1)

/-- A hangup is reported; and `wait` fails when the array has an event of an earlier batch. -/
theorem runJS_unlike : Both twoCallbacks (fun _ => 0) (fun _ => 1) [⟨5, epollHup⟩] ∧
    (twoCallbacks.iterateJS [⟨5, epollHup⟩] 1 = .ok [0] ∧ twoCallbacks.iterate [⟨5, epollHup⟩] 1 = .ok [1] ∧
      ¬ Alike twoCallbacks (fun _ => 0) (fun _ => 1) [⟨5, epollHup⟩] 1) ∧
    twoCallbacks.iterateJS [⟨5, epollIn⟩] (-1) = .ok [0] ∧ twoCallbacks.iterate [⟨5, epollIn⟩] (-1) = .ok [] ∧
      ¬ Alike twoCallbacks (fun _ => 0) (fun _ => 1) [⟨5, epollIn⟩] (-1) := by
  refine ⟨by unfold Both; decide, ⟨by rfl, by rfl, ?_⟩, by rfl, by rfl, ?_⟩
  · rintro ⟨hjs, -⟩
    cases hjs
  · rintro ⟨hjs, -⟩
    cases hjs

/-- **`iterate` is the batch of `Service::run`** with callbacks that do nothing to the tables and do not throw. -/
theorem iterate_calls (hn : n ≤ events.length) (hboth : Both s input error (events.take n.toNat)) :
    s.iterate events n = .ok ((events.take n.toNat).map (expected input error)) ∧
      loop.calls (fun _ => ⟨[], false⟩) 0 s (events.take n.toNat) =
        (events.take n.toNat).map fun e => (e, some (.function (expected input error e))) := by
  refine ⟨iterate_run hn hboth, ?_⟩
  have hcallback := hboth.callbackOf
  generalize events.take n.toNat = reported at hcallback
  -- the induction is on the events still to come, whose number is no part of what the callbacks do
  suffices h : ∀ i, loop.calls (fun _ => ⟨[], false⟩) i s reported =
      reported.map fun e => (e, some (.function (expected input error e))) from h 0
  induction reported with
  | nil => exact fun i => rfl
  | cons e reported ih =>
    intro i
    have he : loop.lookup s e = some (.function (expected input error e)) := hcallback e List.mem_cons_self
    have hgo : loop.callable (loop.lookup s e) = true ∧ (false : Bool) = false := by
      rw [he]
      exact ⟨rfl, rfl⟩
    rw [Dispatch.Loop.calls, if_pos hgo, List.map_cons, he]
    congr 1
    exact ih (fun e' he' => hcallback e' (List.mem_cons_of_mem _ he')) (i + 1)

end Service
end V8h
