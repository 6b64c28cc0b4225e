import V8h.HttpResponse
import V8h.ServiceCount
/-!
# HttpConfined — what a call made for a client reaches

A call made for an open client changes the clients, the tables and the connections for this client and its fd only, and
leaves the client open, or closes it as its last act and leaves nothing of it (`step_confined`).  A call that does not
speak, which are all but `flush`, `end` and the function they register, sends nothing and registers nothing that sends.
-/
namespace V8h

open Machine Effect

/-- A function that sends. -/
def Callback.Sends : Callback → Prop
  | .writeUntil .. | .writeBuffer .. => True
  | _                                => False

instance : ∀ f : Callback, Decidable f.Sends
  | .writeUntil .. | .writeBuffer .. => .isTrue trivial
  | .user _ | .empty | .readUntil .. | .connect _ | .acceptTcp .. | .autoClose _ | .clientError _ => .isFalse id

namespace Machine

/-- Buffers and variables at most were changed. -/
structure BuffersOnly (m₀ m : Machine) : Prop where
  service : m.service = m₀.service
  clients : m.clients = m₀.clients
  conn    : m.kernel.conn = m₀.kernel.conn
  sent    : m.kernel.sent = m₀.kernel.sent

/-- A program that works for client `k` with this fd came from `m₀` to `m`. -/
structure Confined (m₀ : Machine) (k : Nat) (fd : Int) (speaks : Prop) (m : Machine) : Prop where
  others   : ∀ j, j ≠ k → m.clients j = m₀.clients j
  fds      : ∀ fd', fd' ≠ fd → m.service.fds fd' = m₀.service.fds fd'
  fdsError : ∀ fd', fd' ≠ fd → m.service.fdsError fd' = m₀.service.fdsError fd'
  conn     : ∀ fd', fd' ≠ fd → m.kernel.conn fd' = m₀.kernel.conn fd'
  counted  : m.service.Counted
  silent   : ¬ speaks → m.kernel.sent = m₀.kernel.sent

/-- The same, and the client is open. -/
structure Stays (m₀ : Machine) (k : Nat) (fd : Int) (speaks : Prop) (m : Machine) : Prop
    extends Confined m₀ k fd speaks m where
  self     : ∃ c, m.Live k c ∧ c.fd = fd
  isOpen   : m.kernel.conn fd = m₀.kernel.conn fd
  error    : m.service.fdsError fd = m₀.service.fdsError fd
  reaction : m.service.fds fd = m₀.service.fds fd ∨ ∃ f, m.service.fds fd = some f ∧ (¬ speaks → ¬ f.Sends)

/-- The same, and the client was closed: nothing is left of it. -/
structure Gone (m₀ : Machine) (k : Nat) (fd : Int) (speaks : Prop) (m : Machine) : Prop
    extends Confined m₀ k fd speaks m where
  self    : ∃ c, m.clients k = some c ∧ c.closed = true ∧ c.fd = fd
  noConn  : m.kernel.conn fd = none
  noFds   : m.service.fds fd = none
  noError : m.service.fdsError fd = none

variable {m₀ m m' : Machine} {k : Nat} {fd : Int} {speaks : Prop}

theorem BuffersOnly.refl (m : Machine) : m.BuffersOnly m := ⟨rfl, rfl, rfl, rfl⟩

theorem BuffersOnly.trans (h : m₀.BuffersOnly m) (h' : m.BuffersOnly m') : m₀.BuffersOnly m' :=
  ⟨h'.service.trans h.service, h'.clients.trans h.clients, h'.conn.trans h.conn, h'.sent.trans h.sent⟩

theorem Live.stays {c : Client} (hl : m.Live k c) (hcounted : m.service.Counted) : m.Stays k c.fd speaks m :=
  ⟨⟨fun _ _ => rfl, fun _ _ => rfl, fun _ _ => rfl, fun _ _ => rfl, hcounted, fun _ => rfl⟩, ⟨c, hl, rfl⟩, rfl, rfl,
    .inl rfl⟩

theorem Stays.internal (h : m₀.Stays k fd speaks m) (hb : m.BuffersOnly m') : m₀.Stays k fd speaks m' := by
  refine ⟨⟨?_, ?_, ?_, ?_, ?_, ?_⟩, ?_, ?_, ?_, ?_⟩
  · rw [hb.clients]
    exact h.others
  · rw [hb.service]
    exact h.fds
  · rw [hb.service]
    exact h.fdsError
  · rw [hb.conn]
    exact h.conn
  · rw [hb.service]
    exact h.counted
  · rw [hb.sent]
    exact h.silent
  · obtain ⟨c, hl, hfd⟩ := h.self
    exact ⟨c, ⟨(congrFun hb.clients k).trans hl.1, hl.2⟩, hfd⟩
  · rw [hb.conn]
    exact h.isOpen
  · rw [hb.service]
    exact h.error
  · rw [hb.service]
    exact h.reaction

/-- A function is registered for the client's fd. -/
theorem Stays.register (h : m₀.Stays k fd speaks m) {s : Service Callback} {f : Callback} (hf : ¬ speaks → ¬ f.Sends)
    (hfds : s.fds = Function.update m.service.fds fd (some f)) (herr : s.fdsError = m.service.fdsError)
    (hcounted : s.Counted) : m₀.Stays k fd speaks { m with service := s } := by
  refine ⟨⟨h.others, ?_, ?_, h.conn, hcounted, h.silent⟩, h.self, h.isOpen, ?_, .inr ⟨f, ?_, hf⟩⟩
  · intro fd' hne
    show s.fds fd' = _
    rw [hfds, Function.update_of_ne hne]
    exact h.fds fd' hne
  · intro fd' hne
    show s.fdsError fd' = _
    rw [herr]
    exact h.fdsError fd' hne
  · show s.fdsError fd = _
    rw [herr]
    exact h.error
  · show s.fds fd = _
    rw [hfds, Function.update_self]

/-- The client is given other fields. -/
theorem Stays.edit (h : m₀.Stays k fd speaks m) {f : Client → Client}
    (hf : ∀ c, (f c).fd = c.fd ∧ (f c).closed = c.closed) :
    m₀.Stays k fd speaks { m with clients := Function.update m.clients k ((m.clients k).map f) } := by
  refine ⟨⟨?_, h.fds, h.fdsError, h.conn, h.counted, h.silent⟩, ?_, h.isOpen, h.error, h.reaction⟩
  · intro j hj
    show Function.update m.clients k _ j = _
    rw [Function.update_of_ne hj]
    exact h.others j hj
  · obtain ⟨c, hl, hfd⟩ := h.self
    obtain ⟨h1, h2⟩ := hf c
    refine ⟨f c, ⟨?_, h2.trans hl.2⟩, h1.trans hfd⟩
    show Function.update m.clients k _ k = _
    rw [Function.update_self, hl.1]
    rfl

/-- Nothing is left of the client. -/
theorem Stays.shut (h : m₀.Stays k fd speaks m) : m₀.Gone k fd speaks { m with
    service := (m.service.del fd).1
    kernel  := { m.kernel with conn := Function.update m.kernel.conn fd none }
    clients := Function.update m.clients k ((m.clients k).map fun c => { c with closed := true }) } := by
  refine ⟨⟨?_, ?_, ?_, ?_, h.counted.del fd, h.silent⟩, ?_, Function.update_self .., ?_, ?_⟩
  · intro j hj
    show Function.update m.clients k _ j = _
    rw [Function.update_of_ne hj]
    exact h.others j hj
  · intro fd' hne
    show (m.service.del fd).1.fds fd' = _
    rw [Service.del_fds, Function.update_of_ne hne]
    exact h.fds fd' hne
  · intro fd' hne
    show (m.service.del fd).1.fdsError fd' = _
    rw [Service.del_fdsError, Function.update_of_ne hne]
    exact h.fdsError fd' hne
  · intro fd' hne
    show Function.update m.kernel.conn fd none fd' = _
    rw [Function.update_of_ne hne]
    exact h.conn fd' hne
  · obtain ⟨c, hl, hfd⟩ := h.self
    refine ⟨{ c with closed := true }, ?_, rfl, hfd⟩
    show Function.update m.clients k _ k = _
    rw [Function.update_self, hl.1]
    rfl
  · show (m.service.del fd).1.fds fd = none
    rw [Service.del_fds, Function.update_self]
  · show (m.service.del fd).1.fdsError fd = none
    rw [Service.del_fdsError, Function.update_self]

end Machine

/-! ## Programs that reach buffers and variables only -/

theorem lax_buffersOnly (m : Machine) : Lax m.BuffersOnly Any where
  blind  := fun _ _ hm hs => hm.trans ⟨hs.service, hs.clients, hs.conn, hs.sent⟩
  stable := Buffer.stable_any
  fresh  := fun _ _ _ => trivial
  good   := fun _ _ _ _ _ => trivial
  heap   := fun _ _ _ hm _ => hm.trans ⟨rfl, rfl, rfl, rfl⟩
  pool   := fun _ _ hm => hm.trans ⟨rfl, rfl, rfl, rfl⟩
  next   := fun _ _ hm => hm.trans ⟨rfl, rfl, rfl, rfl⟩

section

variable {m₀ : Machine} {k : Nat} {fd : Int} {speaks : Prop} {callback : Cont} {ans : Answers} {m : Machine}

theorem lax_stays : Lax (m₀.Stays k fd speaks) Any where
  blind  := fun _ _ hm hs => hm.internal ⟨hs.service, hs.clients, hs.conn, hs.sent⟩
  stable := Buffer.stable_any
  fresh  := fun _ _ _ => trivial
  good   := fun _ _ _ _ _ => trivial
  heap   := fun _ _ _ hm _ => hm.internal ⟨rfl, rfl, rfl, rfl⟩
  pool   := fun _ _ hm => hm.internal ⟨rfl, rfl, rfl, rfl⟩
  next   := fun _ _ hm => hm.internal ⟨rfl, rfl, rfl, rfl⟩

/-! ## The operations of `socket.coffee` -/

theorem registers_stays {f : Callback} (hf : ¬ speaks → ¬ f.Sends) :
    Registers (m₀.Stays k fd speaks) (m₀.Stays k fd speaks) fd f := fun _ events hm =>
  hm.register hf (Service.inOrOut_fds ..) (Service.inOrOut_fdsError ..) (hm.counted.inOrOut fd f events)

theorem reads_stays {b : Nat} : Reads (m₀.Stays k fd speaks) fd b callback := fun _ _ _ =>
  registers_stays fun _ h => h

theorem writes_stays {b : Nat} :
    Writes (m₀.Stays k fd True) (m₀.Stays k fd True) Any fd b callback where
  edits     := lax_stays.edits b
  sends     := fun _ _ _ hm _ => ⟨⟨hm.others, hm.fds, hm.fdsError, hm.conn, hm.counted, fun h => absurd trivial h⟩,
    hm.self, hm.isOpen, hm.error, hm.reaction⟩
  release   := lax_stays.release b
  empty     := registers_stays fun h => absurd trivial h
  registers := registers_stays fun h => absurd trivial h

/-! ## The methods of `Client` -/

theorem stays_client : Keeps (m₀.Stays k fd speaks) (m₀.Stays k fd speaks) (client k) fun c => c.fd = fd := by
  refine ⟨⟨?_, ?_⟩⟩
  · intro m m' c hm hx
    obtain ⟨c', hl, hfd⟩ := hm.self
    rw [client, hl.1] at hx
    cases hx
    exact ⟨hm, hfd⟩
  · intro m m' e hm hx
    obtain ⟨c', hl, -⟩ := hm.self
    rw [client, hl.1] at hx
    cases hx

theorem stays_modifyClient {f : Client → Client} (hf : ∀ c, (f c).fd = c.fd ∧ (f c).closed = c.closed) :
    Keeps (m₀.Stays k fd speaks) (m₀.Stays k fd speaks) (modifyClient k f) Any :=
  .of_ok (fun _ => rfl) (fun _ hm => hm.edit hf) fun _ _ => trivial

/-- **`close` leaves nothing.** -/
theorem stays_close : Ends (m₀.Stays k fd speaks) (Client.close k) (fun _ => m₀.Gone k fd speaks)
    (Escape (m₀.Stays k fd speaks)) := by
  have hshut : Ends (m₀.Stays k fd speaks) (do
      Socket.close fd
      modifyClient k fun c => { c with closed := true } : M Unit) (fun _ => m₀.Gone k fd speaks)
      (Escape (m₀.Stays k fd speaks)) := Ends.of_ok (fun _ => rfl) fun _ hm => hm.shut
  refine stays_client.then ?_
  intro c hfd
  subst hfd
  refine (lax_stays.push c.buffer).then ?_
  intro _ _
  cases c.boundary with
  | none => exact hshut
  | some b => exact (lax_stays.push b).then fun _ _ => hshut

theorem attends_stays : Attends (m₀.Stays k fd speaks) (m₀.Stays k fd speaks) Any k (fun c => c.fd = fd)
    (fun callback => callback.client = some k) where
  client := stays_client
  edits  := fun c _ => lax_stays.edits c.buffer
  reads  := by
    rintro c callback rfl -
    exact reads_stays

variable [V8]

/-- **A callback of the client finishes, and does not speak.** -/
theorem tends_stays : Tends (m₀.Stays k fd speaks) (m₀.Gone k fd speaks) Any k (fun c => c.fd = fd) (Task.Of k) where
  toAttends := attends_stays
  edit      := fun _ hf => stays_modifyClient fun c => ⟨(hf c).1, (hf c).2.2.2⟩
  bound     := fun text => lax_stays.pop.bind fun b _ =>
    Keeps.andThen (stays_modifyClient fun _ => ⟨rfl, rfl⟩) ((lax_stays.edits b).writeUtf8 text)
  closes    := stays_close
  invokes   := fun _ _ hk => hk
  handles   := fun _ => rfl

theorem finishes_runMethod (ans : Answers) (method : Method) :
    Finishes (m₀.Stays k fd True) (m₀.Gone k fd True) (Task.Of k) (Process.runMethod ans k method) := by
  refine tends_stays.runMethod (fun _ _ => trivial) ?_ ans method
  rintro c callback rfl -
  exact writes_stays

omit [V8] in
/-- **A registered function of the client finishes.** -/
theorem finishes_runCallback {f : Callback} (hk : f.client = some k) (hf : m.Fits fd f ∨ f = .clientError k)
    (hspeaks : ¬ speaks → ¬ f.Sends) :
    Finishes (m₀.Stays k fd speaks) (m₀.Gone k fd speaks) (Task.Of k) (runCallback ans f) := by
  rcases hf with hf | rfl
  · cases f with
    | user id => cases hk
    | empty => cases hk
    | readUntil fd' b cond callback =>
      obtain ⟨rfl, -⟩ := hf
      exact Keeps.finishes (((lax_stays.edits b).onReadable ans).mono fun _ => Reports.leftFor hk)
    | writeUntil fd' b cond callback => cases hk
    | writeBuffer fd' b callback =>
      obtain ⟨rfl, -⟩ := hf
      by_cases hs : speaks
      · obtain rfl : speaks = True := eq_true hs
        exact Keeps.finishes ((writes_stays.writeBuffer ans).mono fun _ => Reports.leftFor hk)
      · exact absurd trivial (hspeaks hs)
    | connect callback => cases hk
    | acceptTcp fd' callback => cases hk
    | autoClose fd' => cases hk
    | clientError j => exact absurd hf id
  · exact Finishes.close stays_close

end

/-! ## Steps -/

namespace Process

variable {p p' : Process} {i : Input} {k : Nat} {c : Client} {speaks : Prop}

theorem ended_finishes {m₀ : Machine} {fd : Int} {byUser : Bool} {x : M (Option Task)}
    (hx : Finishes (m₀.Stays k fd speaks) (m₀.Gone k fd speaks) (Task.Of k) x) (hm : m₀.Stays k fd speaks p.machine)
    (h : ended byUser (x p.machine) = .ok p') :
    m₀.Stays k fd speaks p'.machine ∧ LeftFor k p'.task ∨ m₀.Gone k fd speaks p'.machine ∧ p'.task = none := by
  cases hr : x p.machine with
  | ok r m' =>
    rw [hr] at h
    cases h
    exact hx.ends.ok hm hr
  | error e m' =>
    rw [hr] at h
    cases e with
    | trap t => cases h
    | throw e =>
      cases h
      rcases hx.ends.error hm hr with ⟨t, ht⟩ | hm'
      · cases ht
      · exact .inl ⟨hm', leftFor_none⟩

/-- **What a step for an open client reaches**; it does not speak when no method of the client is called and what is
registered for its fd does not send. -/
theorem step_confined [V8] (hp : p.Settled) (hcounted : p.machine.service.Counted) (hk : p.actor i = some k)
    (hl : p.machine.Live k c) (hcall : ¬ speaks → ¬ i.Calls k)
    (hfds : ¬ speaks → ∀ f, p.machine.service.fds c.fd = some f → ¬ f.Sends) (hs : p.step i = .ok p') :
    p.machine.Stays k c.fd speaks p'.machine ∧ LeftFor k p'.task ∨
      p.machine.Gone k c.fd speaks p'.machine ∧ p'.task = none := by
  have hm : p.machine.Stays k c.fd speaks p.machine := hl.stays hcounted
  obtain ⟨e, ans, f, rfl, -, hf, hend⟩ | ⟨j, method, ans, rfl, -, hend⟩ | ⟨ans, t, rfl, ht, hend⟩ := step_cases hs
  · have hfk : f.client = some k := by simpa only [actor, hf, Option.bind_some] using hk
    rcases callbackOf_client hp hl hf hfk with ⟨-, rfl⟩ | hreg
    · exact ended_finishes (.close stays_close) hm hend
    · exact ended_finishes (finishes_runCallback hfk (.inl (hp.owned.sound.callbacks _ _ hreg))
        fun h => hfds h f hreg) hm hend
  · obtain rfl : j = k := Option.some.inj hk
    by_cases hspeaks : speaks
    · obtain rfl : speaks = True := eq_true hspeaks
      exact ended_finishes (finishes_runMethod ans method) hm hend
    · exact absurd rfl (hcall hspeaks)
  · have htk : t.client = some k := by simpa only [actor, ht, Option.bind_some] using hk
    cases t with
    | call f =>
      rcases hp.task _ ht with ⟨fd, rfl, -⟩ | ⟨j, c', rfl, -⟩
      · cases htk
      · obtain rfl : j = k := Option.some.inj htk
        exact ended_finishes (.close stays_close) hm hend
    | invoke callback arg => exact ended_finishes (tends_stays.runCont htk arg) hm hend
    | triggerError fd => cases htk
    | handler j req => exact ended_finishes (Keeps.finishes (.pure leftFor_none)) hm hend

end Process
end V8h
