import V8h.Service
import V8h.Lib.Dispatch
/-!
# ServiceRun — one batch of `Service::run`

`Service::run` looks a callback up when its event's turn comes, by the bare fd number, casts it unchecked and calls it.
So what an event is given to is decided by the last operation of the callbacks before it in the batch on the one entry
it consults: a call is made on a function exactly when that operation registers one (`run_calls_functions_iff`), and a
callback registered after a deletion of the fd gets the event exactly when that operation comes after a deletion
(`run_late_delivery_iff`).
-/
namespace V8h
namespace Service

variable {φ : Type}

/-- What a callback may do to the tables; `close` is `Socket.close`, which is `$del` and `close(2)`. -/
inductive TableOp (φ : Type) where
  | pollIn (fd : Int) (callback : JsValue φ)
  | pollOut (fd : Int) (callback : JsValue φ)
  | error (fd : Int) (callback : JsValue φ)
  | del (fd : Int)
  | close (fd : Int)

def apply (s : Service (JsValue φ)) : TableOp φ → Service (JsValue φ)
  | .pollIn fd f  => (s.pollIn fd f).1
  | .pollOut fd f => (s.pollOut fd f).1
  | .error fd f   => s.error fd f
  | .del fd       => (s.del fd).1
  | .close fd     => (s.del fd).1

/-- The `for` loop of `Service::run`. -/
def loop : Dispatch.Loop (Service (JsValue φ)) Event (Option (JsValue φ)) (TableOp φ) where
  lookup   := callbackOf
  callable := fun callee => callee.any JsValue.isFunction
  exec     := apply

/-- What an operation leaves in the entry an event consults, when it touches that entry. -/
def TableOp.leaves (e : Event) : TableOp φ → Option (Option (JsValue φ))
  | .pollIn fd f | .pollOut fd f => if fd = e.fd ∧ e.isError = false then some (some f) else none
  | .error fd f                  => if fd = e.fd ∧ e.isError = true then some (some f) else none
  | .del fd | .close fd          => if fd = e.fd then some none else none

theorem callbackOf_apply (s : Service (JsValue φ)) (op : TableOp φ) (e : Event) :
    callbackOf (s.apply op) e = (op.leaves e).getD (s.callbackOf e) := by
  cases op <;> simp only [apply, callbackOf, TableOp.leaves, pollIn_fds, pollIn_fdsError, pollOut_fds, pollOut_fdsError,
    error_fds, error_fdsError, del_fds, del_fdsError, Function.update_apply, eq_comm (a := e.fd)] <;> grind

/-! ## What is called -/

/-- The last operation before its turn that touches the entry an event consults registers a function there; or none
touches it, and a function was there when `wait` returned. -/
def Armed (s : Service (JsValue φ)) (e : Event) (ops : List (TableOp φ)) : Prop :=
  (∃ before op after, ops = before ++ op :: after ∧ (∃ f, op.leaves e = some (some (.function f))) ∧
    ∀ o ∈ after, o.leaves e = none) ∨
  (∀ o ∈ ops, o.leaves e = none) ∧ ∃ f, s.callbackOf e = some (.function f)

theorem callable_iff (callee : Option (JsValue φ)) :
    loop.callable callee = true ↔ ∃ f, callee = some (.function f) := by
  rcases callee with _ | f | _ <;> simp [loop, JsValue.isFunction]

theorem armed_iff (s : Service (JsValue φ)) (e : Event) (ops : List (TableOp φ)) :
    Armed s e ops ↔ ∃ f, (ops.foldl apply s).callbackOf e = some (.function f) := by
  have h := Dispatch.foldl_last_write (fun s : Service (JsValue φ) => s.callbackOf e)
    (fun s op => callbackOf_apply s op e) (fun v => ∃ f, v = some (.function f)) s ops
  rw [h, Armed]
  simp

/-- **`Service::run` calls functions only, exactly when every event it comes to is armed**: for every event reached with
no exception before it, the last operation of the earlier callbacks on the entry it consults registers a function. -/
theorem run_calls_functions_iff (s : Service (JsValue φ)) (turn : Nat → Dispatch.Turn (TableOp φ))
    (batch : List Event) :
    (∀ c ∈ loop.calls turn 0 s batch, ∃ f, c.2 = some (.function f)) ↔
      ∀ pre e post, batch = pre ++ e :: post → (∀ k < pre.length, (turn k).throws = false) →
        Armed s e (Dispatch.opsOf turn 0 pre.length) := by
  have h := loop.forall_calls_iff turn batch 0 s
  simp only [callable_iff, Nat.zero_add] at h
  simp only [armed_iff]
  exact h

/-- Fds registered for input, none with an error callback. -/
def polled (fds : List Int) : Service (JsValue Unit) := fds.foldl (fun s fd => (s.pollIn fd (.function ())).1) new

/-- A hangup on an fd with no error callback, and an fd closed by the callback of an earlier event of its batch. -/
theorem call_on_undefined :
    (∀ e ∈ [(⟨5, epollHup⟩ : Event)], ((polled [5]).fds e.fd).isSome) ∧
    (¬ ∀ c ∈ loop.calls (fun _ => ⟨[], false⟩) 0 (polled [5]) [⟨5, epollHup⟩], ∃ f, c.2 = some (.function f)) ∧
    (∀ e ∈ [(⟨5, epollIn⟩ : Event), ⟨7, epollIn⟩], ((polled [5, 7]).fds e.fd).isSome) ∧
    ¬ ∀ c ∈ loop.calls (fun _ => ⟨[.close 7], false⟩) 0 (polled [5, 7]) [⟨5, epollIn⟩, ⟨7, epollIn⟩],
      ∃ f, c.2 = some (.function f) := by
  refine ⟨by decide, fun h => ?_, by decide, fun h => ?_⟩
  · obtain ⟨f, hf⟩ := h ((⟨5, epollHup⟩ : Event), none) (by decide)
    cases hf
  · obtain ⟨f, hf⟩ := h ((⟨7, epollIn⟩ : Event), none) (by decide)
    cases hf

/-! ## Which registration gets an event

`Tracked` is the service with each entry stamped by the number of times its fd had been deleted when the entry was set,
counted from the return of `wait`.  The stamps are not in the source: nothing reads them (`tracked_calls`), and an entry
with stamp 0 is one of the registration the event was reported for. -/

structure Tracked (φ : Type) where
  service   : Service (JsValue φ × Nat)
  deletions : Int → Nat

namespace Tracked

/-- The service as `wait` returned. -/
def start (s : Service (JsValue φ)) : Tracked φ :=
  ⟨⟨fun fd => (s.fds fd).map (·, 0), fun fd => (s.fdsError fd).map (·, 0), s.fdsNumber⟩, fun _ => 0⟩

/-- A deletion counts when it deletes a registration. -/
def del (t : Tracked φ) (fd : Int) : Tracked φ :=
  ⟨(t.service.del fd).1,
    if (t.service.fds fd).isSome then Function.update t.deletions fd (t.deletions fd + 1) else t.deletions⟩

def apply (t : Tracked φ) : TableOp φ → Tracked φ
  | .pollIn fd f  => { t with service := (t.service.pollIn fd (f, t.deletions fd)).1 }
  | .pollOut fd f => { t with service := (t.service.pollOut fd (f, t.deletions fd)).1 }
  | .error fd f   => { t with service := t.service.error fd (f, t.deletions fd) }
  | .del fd       => t.del fd
  | .close fd     => t.del fd

def loop : Dispatch.Loop (Tracked φ) Event (Option (JsValue φ × Nat)) (TableOp φ) where
  lookup   := fun t => t.service.callbackOf
  callable := fun callee => callee.any (·.1.isFunction)
  exec     := apply

/-- The service under the stamps. -/
structure Erases (s : Service (JsValue φ)) (t : Tracked φ) : Prop where
  fds      : ∀ fd, s.fds fd = (t.service.fds fd).map Prod.fst
  fdsError : ∀ fd, s.fdsError fd = (t.service.fdsError fd).map Prod.fst

theorem erases_start (s : Service (JsValue φ)) : Erases s (start s) :=
  ⟨fun fd => by cases h : s.fds fd <;> simp [start, h], fun fd => by cases h : s.fdsError fd <;> simp [start, h]⟩

theorem erases_apply (s : Service (JsValue φ)) (t : Tracked φ) (op : TableOp φ) (h : Erases s t) :
    Erases (s.apply op) (t.apply op) := by
  cases op <;> refine ⟨fun fd => ?_, fun fd => ?_⟩ <;>
    simp only [Service.apply, apply, del, pollIn_fds, pollIn_fdsError, pollOut_fds, pollOut_fdsError, error_fds,
      error_fdsError, del_fds, del_fdsError, Function.update_apply, h.fds, h.fdsError] <;>
    split <;> rfl

/-- **The stamps change nothing**: without them, the calls are those of the service. -/
theorem tracked_calls (s : Service (JsValue φ)) (turn : Nat → Dispatch.Turn (TableOp φ)) (batch : List Event) :
    Service.loop.calls turn 0 s batch =
      (loop.calls turn 0 (start s) batch).map (Prod.map id (Option.map Prod.fst)) := by
  refine Dispatch.Loop.calls_map (R := fun t s => Erases s t) ?_ ?_ (fun t s op h =>
    erases_apply s t op h) turn batch 0 _ _
    (erases_start s)
  · intro t s e h
    show s.callbackOf e = (t.service.callbackOf e).map Prod.fst
    unfold callbackOf
    rw [h.fds, h.fdsError]
    split <;> rfl
  · intro callee
    cases callee <;> rfl

end Tracked

def TableOp.deletes (fd : Int) : TableOp φ → Bool
  | .del fd' | .close fd' => fd' = fd
  | _                     => false

/-- A deletion of the fd, then a registration in the entry the event consults, and no deletion after it. -/
def Replaced (e : Event) (ops : List (TableOp φ)) : Prop :=
  ∃ before op after, ops = before ++ op :: after ∧
    ((∃ o ∈ before, o.deletes e.fd = true) ∧ ∃ f, op.leaves e = some (some f)) ∧ ∀ o ∈ after, o.deletes e.fd = false

namespace Tracked

theorem leaves_none_iff (e : Event) (op : TableOp φ) : op.leaves e = some none ↔ op.deletes e.fd = true := by
  cases op <;> simp only [TableOp.leaves, TableOp.deletes] <;> grind

/-- An entry set is stamped with the deletions so far. -/
theorem callbackOf_apply (t : Tracked φ) (op : TableOp φ) (e : Event) :
    (t.apply op).service.callbackOf e =
      ((op.leaves e).map fun v => v.map (·, t.deletions e.fd)).getD (t.service.callbackOf e) := by
  cases op <;> simp only [apply, del, callbackOf, TableOp.leaves, pollIn_fds, pollIn_fdsError, pollOut_fds,
    pollOut_fdsError, error_fds, error_fdsError, del_fds, del_fdsError, Function.update_apply] <;> grind

theorem deletions_apply (t : Tracked φ) (op : TableOp φ) (fd : Int) :
    (t.apply op).deletions fd =
      if op.deletes fd = true ∧ (t.service.fds fd).isSome then t.deletions fd + 1 else t.deletions fd := by
  cases op <;> simp only [apply, del, TableOp.deletes] <;> grind

theorem fds_apply (t : Tracked φ) (op : TableOp φ) (fd : Int) (hd : op.deletes fd = false)
    (h : (t.service.fds fd).isSome) :
    ((t.apply op).service.fds fd).isSome := by
  cases op <;> simp only [apply, del, TableOp.deletes, pollIn_fds, pollOut_fds, error_fds, del_fds,
    Function.update_apply] at hd ⊢ <;> grind

/-- What the stamps say after `ops`. -/
structure StampInv (e : Event) (ops : List (TableOp φ)) (t : Tracked φ) : Prop where
  counted : t.deletions e.fd ≠ 0 ↔ ∃ o ∈ ops, o.deletes e.fd = true
  kept    : (∀ o ∈ ops, o.deletes e.fd = false) → (t.service.fds e.fd).isSome
  stamp   : ∀ v n, t.service.callbackOf e = some (v, n) → (n ≠ 0 ↔ Replaced e ops)

theorem stampInv_start (s : Service (JsValue φ)) (e : Event) (h : (s.fds e.fd).isSome) :
    StampInv e [] (start s) := by
  refine ⟨by simp [start], fun _ => by simpa [start] using h, fun v n hv => ?_⟩
  have hn : n = 0 := by
    unfold callbackOf start at hv
    split at hv <;> · obtain ⟨_, -, hv⟩ := Option.map_eq_some_iff.1 hv; exact (Prod.mk.inj hv).2.symm
  simp [hn, Replaced]

/-- One operation keeps the stamps right. -/
theorem stampInv_apply {e : Event} {ops : List (TableOp φ)} {t : Tracked φ} (op : TableOp φ) (h : StampInv e ops t) :
    StampInv e (ops ++ [op]) (t.apply op) := by
  have hex : (∃ o ∈ ops ++ [op], o.deletes e.fd = true) ↔ (∃ o ∈ ops, o.deletes e.fd = true) ∨ op.deletes e.fd =
    true := by
    simp [or_and_right, exists_or]
  have hall : (∀ o ∈ ops ++ [op], o.deletes e.fd = false) →
      (∀ o ∈ ops, o.deletes e.fd = false) ∧ op.deletes e.fd = false := by
    intro hd
    exact ⟨fun o ho => hd o (List.mem_append_left _ ho), hd op (by simp)⟩
  refine ⟨?_, fun hd => fds_apply t op e.fd (hall hd).2 (h.kept (hall hd).1), fun v n hv => ?_⟩
  · rw [hex, deletions_apply, ← h.counted]
    split
    · rename_i hc
      simp [hc.1]
    · rename_i hc
      -- a deletion of an fd without an entry comes after another deletion
      have hlater : op.deletes e.fd = true → t.deletions e.fd ≠ 0 := by
        intro hd
        rw [h.counted]
        refine Decidable.byContradiction fun hno => hc ⟨hd, h.kept fun o ho => ?_⟩
        exact Bool.eq_false_iff.2 fun htrue => hno ⟨o, ho, htrue⟩
      exact ⟨Or.inl, fun hor => hor.elim id hlater⟩
  · rw [callbackOf_apply] at hv
    unfold Replaced
    rw [Dispatch.exists_split_snoc]
    cases hl : op.leaves e with
    | none =>
      rw [hl, Option.map_none, Option.getD_none] at hv
      have hd : op.deletes e.fd = false := by
        rw [Bool.eq_false_iff, ne_eq, ← leaves_none_iff, hl]
        exact nofun
      rw [h.stamp v n hv, Replaced]
      simp [hd, or_imp, forall_and]
    | some left =>
      rw [hl, Option.map_some, Option.getD_some, Option.map_eq_some_iff] at hv
      obtain ⟨f, rfl, hv⟩ := hv
      obtain ⟨rfl, rfl⟩ := Prod.mk.inj hv
      rw [h.counted]
      constructor
      · exact fun hd => Or.inl ⟨⟨hd, f, rfl⟩, fun o ho => absurd ho List.not_mem_nil⟩
      · rintro (⟨⟨hd, -⟩, -⟩ | ⟨before, o, after, rfl, ⟨⟨o', ho', hd⟩, -⟩, -⟩)
        · exact hd
        · exact ⟨o', List.mem_append_left _ ho', hd⟩

theorem stampInv_foldl (s : Service (JsValue φ)) (e : Event) (h : (s.fds e.fd).isSome) (ops : List (TableOp φ)) :
    StampInv e ops (ops.foldl apply (start s)) := by
  induction ops using List.reverseRecOn with
  | nil => exact stampInv_start s e h
  | append_singleton ops op ih =>
    rw [List.foldl_append]
    exact stampInv_apply op ih

end Tracked

/-- **An event goes to a later registration exactly when one replaced the entry it consults.**  The stamped run calls
what the service calls, and the callback called for the `j`-th event was registered after a deletion of its fd exactly
when the callbacks before it in the batch deleted the fd, then registered in the entry and did not delete it again. -/
theorem run_late_delivery_iff (s : Service (JsValue φ)) (turn : Nat → Dispatch.Turn (TableOp φ)) (batch : List Event)
    (hreg : ∀ e ∈ batch, (s.fds e.fd).isSome) :
    loop.calls turn 0 s batch =
      (Tracked.loop.calls turn 0 (Tracked.start s) batch).map (Prod.map id (Option.map Prod.fst)) ∧
    ∀ j e v n, (Tracked.loop.calls turn 0 (Tracked.start s) batch)[j]? = some (e, some (v, n)) →
      (n ≠ 0 ↔ Replaced e (Dispatch.opsOf turn 0 j)) := by
  refine ⟨Tracked.tracked_calls s turn batch, fun j e v n hc => ?_⟩
  obtain ⟨hj, hv⟩ := Tracked.loop.calls_getElem? turn batch 0 j _ _ hc
  exact (Tracked.stampInv_foldl s e (hreg e (List.mem_of_getElem? hj)) _).stamp v n hv.symm

/-- The callback of fd 5 closes fd 7, and the next socket, which gets the number 7, is polled. -/
def reuse (_ : Nat) : Dispatch.Turn (TableOp Unit) := ⟨[.close 7, .pollIn 7 (.function ())], false⟩

theorem run_late_delivery_polled :
    loop.calls reuse 0 (polled [5, 7]) [⟨5, epollIn⟩, ⟨7, epollIn⟩] =
      (Tracked.loop.calls reuse 0 (Tracked.start (polled [5, 7])) [⟨5, epollIn⟩, ⟨7, epollIn⟩]).map
        (Prod.map id (Option.map Prod.fst)) ∧
    ∀ j e v n, (Tracked.loop.calls reuse 0 (Tracked.start (polled [5, 7])) [⟨5, epollIn⟩, ⟨7, epollIn⟩])[j]? =
        some (e, some (v, n)) → (n ≠ 0 ↔ Replaced e (Dispatch.opsOf reuse 0 j)) :=
  run_late_delivery_iff _ _ _ (by decide)

/-- The new socket's callback is called for the event of the closed one. -/
theorem event_of_closed_registration :
    (∀ e ∈ [(⟨5, epollIn⟩ : Event), ⟨7, epollIn⟩], ((polled [5, 7]).fds e.fd).isSome) ∧
    ¬ ∀ c ∈ Tracked.loop.calls reuse 0 (Tracked.start (polled [5, 7])) [⟨5, epollIn⟩, ⟨7, epollIn⟩],
      ∀ v n, c.2 = some (v, n) → n = 0 := by
  refine ⟨by decide, fun h => ?_⟩
  have h7 := h ((⟨7, epollIn⟩ : Event), some (.function (), 1)) (by decide) _ _ rfl
  cases h7

end Service
end V8h
