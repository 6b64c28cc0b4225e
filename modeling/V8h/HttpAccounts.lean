import V8h.HttpConfined
/-!
# HttpAccounts — every socket is accounted for

While user code calls the methods of open clients only, every open fd is the listening one, that of an open client or
of the connection just accepted, and the tables of the service have an entry for exactly the open ones.  So nothing
leaks, and `Service::run` goes by the number of open sockets (`sockets_accounted`).
-/
namespace V8h

open Machine Effect

/-- What the call left refers to. -/
structure Task.Due (server : Int) (m : Machine) (t : Task) : Prop where
  live     : ∀ k ∈ t.client, ∃ c, m.Live k c
  closes   : ∀ fd, t = .call (.autoClose fd) → fd = server
  accepted : ∀ fd, t = .invoke .accepted fd → fd ≠ server ∧ m.service.fds fd = none ∧ m.service.fdsError fd = none

namespace Process

/-- User code calls the methods of open clients only. -/
def Prudent (p : Process) : Input → Prop
  | .call k _ _ => ∃ c ∈ p.machine.clients k, c.closed = false
  | _           => True

instance (p : Process) : ∀ i, Decidable (p.Prudent i)
  | .call k _ _         => inferInstanceAs (Decidable (∃ c ∈ p.machine.clients k, c.closed = false))
  | .event _ _ | .go _  => .isTrue trivial

/-- No connection was just accepted. -/
def Entered (p : Process) : Prop := ∀ fd, p.task ≠ some (.invoke .accepted fd)

/-- **The accounts of a server.** -/
structure Orderly (server : Int) (p : Process) : Prop where
  settled : p.Settled
  counted : p.machine.service.Counted
  opened  : ∀ fd, (p.machine.kernel.conn fd).isSome →
    fd = server ∨ p.task = some (.invoke .accepted fd) ∨ ∃ k c, p.machine.Live k c ∧ c.fd = fd
  heard   : ∀ fd, (p.machine.service.fds fd).isSome → (p.machine.kernel.conn fd).isSome
  erring  : ∀ fd, (p.machine.service.fdsError fd).isSome → (p.machine.kernel.conn fd).isSome
  listens : (p.machine.kernel.conn server).isSome → p.machine.service.fds server = some (.acceptTcp server .accepted) ∧
    p.machine.service.fdsError server = some (.autoClose server)
  closes  : ∀ fd fd', p.machine.service.fdsError fd = some (.autoClose fd') → fd = server
  clients : ∀ k c, p.machine.Live k c → (p.machine.service.fds c.fd).isSome ∧ c.fd ≠ server
  task    : ∀ t ∈ p.task, t.Due server p.machine

variable {p p' : Process} {i : Input} {server fd : Int} {k : Nat} {c : Client}

/-- What is registered for an fd is the listener's, or that of an open client, or nothing. -/
theorem Orderly.callback (h : Orderly server p) (hentered : p.Entered) {f : Callback}
    (hf : p.machine.service.fds fd = some f) :
    (fd = server ∧ f = .acceptTcp server .accepted) ∨ f = .empty ∨
      ∃ k c, f.client = some k ∧ p.machine.Live k c ∧ c.fd = fd := by
  have hopen := h.heard fd (by rw [hf]; rfl)
  rcases h.opened fd hopen with rfl | htask | ⟨k, c, hl, rfl⟩
  · rw [(h.listens hopen).1] at hf
    exact .inl ⟨rfl, (Option.some.inj hf).symm⟩
  · exact absurd htask (hentered fd)
  · rcases h.settled.owned.heard k c hl f hf with hempty | hk
    · exact .inr (.inl hempty)
    · exact .inr (.inr ⟨k, c, hk, hl, rfl⟩)

theorem entered_of_none (h : p.task = none) : p.Entered := by
  intro fd hfd
  rw [h] at hfd
  cases hfd

/-- **Whoever acts is open.** -/
theorem Orderly.actor_live [V8] (h : Orderly server p) (hok : p.Prudent i) (hs : p.step i = .ok p')
    (hk : p.actor i = some k) : ∃ c, p.machine.Live k c := by
  obtain ⟨e, ans, f, rfl, hn, hf, -⟩ | ⟨j, method, ans, rfl, -, -⟩ | ⟨ans, t, rfl, ht, -⟩ := step_cases hs
  · have hfk : f.client = some k := by simpa only [actor, hf, Option.bind_some] using hk
    unfold Service.callbackOf at hf
    split at hf
    · rcases h.settled.owned.sound.errors e.fd f hf with rfl | ⟨j, c, rfl, hl, -⟩
      · cases hfk
      · cases hfk
        exact ⟨c, hl⟩
    · rcases h.callback (entered_of_none hn) hf with ⟨-, rfl⟩ | rfl | ⟨j, c, hj, hl, -⟩
      · cases hfk
      · cases hfk
      · obtain rfl := Option.some.inj (hfk.symm.trans hj)
        exact ⟨c, hl⟩
  · obtain rfl : j = k := Option.some.inj hk
    obtain ⟨c, hc, hopen⟩ := hok
    exact ⟨c, hc, hopen⟩
  · have htk : t.client = some k := by simpa only [actor, ht, Option.bind_some] using hk
    exact (h.task t ht).live k htk

theorem Orderly.considerate [V8] (h : Orderly server p) (hok : p.Prudent i) (hs : p.step i = .ok p') :
    p.Considerate i := by
  intro k c hk hc hclosed
  obtain ⟨c', hc', hopen⟩ := h.actor_live hok hs hk
  obtain rfl := Option.some.inj (hc.symm.trans hc')
  rw [hopen] at hclosed
  cases hclosed

/-! ## Steps for a client -/

theorem due_triggerError {m : Machine} : (Task.triggerError fd).Due server m := by
  refine ⟨?_, ?_, ?_⟩
  · intro k hk
    cases hk
  · intro fd hfd
    cases hfd
  · intro fd hfd
    cases hfd

theorem due_of_left {t : Task} {m : Machine} (ht : t.Of k) (hl : m.Live k c) : t.Due server m := by
  cases t with
  | call f => exact absurd ht id
  | invoke callback arg =>
    have hk : callback.client = some k := ht
    refine ⟨?_, ?_, ?_⟩
    · intro j hj
      obtain rfl := Option.some.inj (hk.symm.trans hj)
      exact ⟨c, hl⟩
    · intro fd hfd
      cases hfd
    · intro fd hfd
      cases hfd
      cases hk
  | triggerError fd => exact due_triggerError
  | handler j req =>
    refine ⟨?_, ?_, ?_⟩
    · intro i hi
      obtain rfl : j = k := ht
      cases hi
      exact ⟨c, hl⟩
    · intro fd hfd
      cases hfd
    · intro fd hfd
      cases hfd

/-- **The client is open**, one that was before or a new one. -/
theorem Orderly.stays (h : Orderly server p) (hsettled : p'.Settled)
    (hm : p.machine.Confined k fd True p'.machine) (hl : p'.machine.Live k c) (hfd : c.fd = fd)
    (hreg : (p'.machine.service.fds fd).isSome) (hne : fd ≠ server) (hold : ∀ d, p.machine.Live k d → d.fd = fd)
    (htask : LeftFor k p'.task) (hpend : ∀ fd', p.task = some (.invoke .accepted fd') → fd' = fd) :
    Orderly server p' := by
  have hheld := hsettled.owned.held k c hl
  have hopen : (p'.machine.kernel.conn fd).isSome := hfd ▸ hheld.isOpen
  have herror : p'.machine.service.fdsError fd = some (.clientError k) := hfd ▸ hheld.error
  refine ⟨hsettled, hm.counted, ?_, ?_, ?_, ?_, ?_, ?_, ?_⟩
  · intro fd' hfd'
    by_cases he : fd' = fd
    · exact .inr (.inr ⟨k, c, hl, hfd.trans he.symm⟩)
    · rw [hm.conn fd' he] at hfd'
      rcases h.opened fd' hfd' with hserver | hp | ⟨j, d, hj, hd⟩
      · exact .inl hserver
      · exact absurd (hpend fd' hp) he
      · have hjk : j ≠ k := by
          rintro rfl
          exact he (hd.symm.trans (hold d hj))
        exact .inr (.inr ⟨j, d, ⟨(hm.others j hjk).trans hj.1, hj.2⟩, hd⟩)
  · intro fd' hfd'
    by_cases he : fd' = fd
    · rw [he]
      exact hopen
    · rw [hm.fds fd' he] at hfd'
      rw [hm.conn fd' he]
      exact h.heard fd' hfd'
  · intro fd' hfd'
    by_cases he : fd' = fd
    · rw [he]
      exact hopen
    · rw [hm.fdsError fd' he] at hfd'
      rw [hm.conn fd' he]
      exact h.erring fd' hfd'
  · rw [hm.conn server hne.symm, hm.fds server hne.symm, hm.fdsError server hne.symm]
    exact h.listens
  · intro fd' fd'' hf
    by_cases he : fd' = fd
    · rw [he, herror] at hf
      cases hf
    · rw [hm.fdsError fd' he] at hf
      exact h.closes fd' fd'' hf
  · intro j d hd
    by_cases hj : j = k
    · subst hj
      obtain rfl := Option.some.inj (hl.1.symm.trans hd.1)
      rw [hfd]
      exact ⟨hreg, hne⟩
    · have hapart := (hsettled.owned.apart j k d c hj hd hl).fd
      rw [hfd] at hapart
      rw [hm.fds d.fd hapart]
      exact h.clients j d ⟨(hm.others j hj).symm.trans hd.1, hd.2⟩
  · intro t ht
    exact due_of_left (htask t ht) hl

/-- **The client was closed.** -/
theorem Orderly.gone (h : Orderly server p) (hsettled : p'.Settled) (hl : p.machine.Live k c)
    (hm : p.machine.Gone k c.fd True p'.machine) (htask : p'.task = none) (hentered : p.Entered) :
    Orderly server p' := by
  have hne := (h.clients k c hl).2
  have hclosed : ∀ j d, p'.machine.Live j d → j ≠ k := by
    rintro j d hd rfl
    obtain ⟨c', hc', hclosed, -⟩ := hm.self
    obtain rfl := Option.some.inj (hd.1.symm.trans hc')
    rw [hd.2] at hclosed
    cases hclosed
  have hlive : ∀ j d, j ≠ k → (p'.machine.Live j d ↔ p.machine.Live j d) := by
    intro j d hj
    rw [Live, Live, hm.others j hj]
  refine ⟨hsettled, hm.counted, ?_, ?_, ?_, ?_, ?_, ?_, ?_⟩
  · intro fd' hfd'
    by_cases he : fd' = c.fd
    · rw [he, hm.noConn] at hfd'
      cases hfd'
    · rw [hm.conn fd' he] at hfd'
      rcases h.opened fd' hfd' with hserver | hp | ⟨j, d, hj, hd⟩
      · exact .inl hserver
      · exact absurd hp (hentered fd')
      · have hjk : j ≠ k := by
          rintro rfl
          obtain rfl := Option.some.inj (hj.1.symm.trans hl.1)
          exact he hd.symm
        exact .inr (.inr ⟨j, d, (hlive j d hjk).2 hj, hd⟩)
  · intro fd' hfd'
    by_cases he : fd' = c.fd
    · rw [he, hm.noFds] at hfd'
      cases hfd'
    · rw [hm.fds fd' he] at hfd'
      rw [hm.conn fd' he]
      exact h.heard fd' hfd'
  · intro fd' hfd'
    by_cases he : fd' = c.fd
    · rw [he, hm.noError] at hfd'
      cases hfd'
    · rw [hm.fdsError fd' he] at hfd'
      rw [hm.conn fd' he]
      exact h.erring fd' hfd'
  · rw [hm.conn server hne.symm, hm.fds server hne.symm, hm.fdsError server hne.symm]
    exact h.listens
  · intro fd' fd'' hf
    by_cases he : fd' = c.fd
    · rw [he, hm.noError] at hf
      cases hf
    · rw [hm.fdsError fd' he] at hf
      exact h.closes fd' fd'' hf
  · intro j d hd
    have hj := hclosed j d hd
    have hold := (hlive j d hj).1 hd
    rw [hm.fds d.fd (h.settled.owned.apart j k d c hj hold hl).fd]
    exact h.clients j d hold
  · intro t ht
    rw [htask] at ht
    cases ht

/-- A step for a client. -/
theorem Orderly.serve [V8] (h : Orderly server p) (hok : p.Prudent i) (hs : p.step i = .ok p')
    (hk : p.actor i = some k) : Orderly server p' := by
  obtain ⟨c, hl⟩ := h.actor_live hok hs hk
  have hsettled := (step_settled h.settled (h.considerate hok hs) hs).1
  have hentered : p.Entered := by
    intro fd hfd
    obtain ⟨ans, rfl, -⟩ := step_of_task hfd hs
    rw [actor, hfd] at hk
    cases hk
  have hconfined : p.machine.Stays k c.fd True p'.machine ∧ LeftFor k p'.task ∨
      p.machine.Gone k c.fd True p'.machine ∧ p'.task = none :=
    step_confined h.settled h.counted hk hl (fun hn => absurd trivial hn) (fun hn => absurd trivial hn) hs
  rcases hconfined with ⟨hm, htask⟩ | ⟨hm, htask⟩
  · obtain ⟨hreg, hne⟩ := h.clients k c hl
    obtain ⟨c', hl', hfd⟩ := hm.self
    refine h.stays hsettled hm.toConfined hl' hfd ?_ hne ?_ htask ?_
    · rcases hm.reaction with hsame | ⟨f, hf, -⟩
      · rwa [hsame]
      · rw [hf]
        rfl
    · intro d hd
      rw [Option.some.inj (hd.1.symm.trans hl.1)]
    · intro fd hfd
      exact absurd hfd (hentered fd)
  · exact h.gone hsettled hl hm htask hentered

/-! ## Steps for nobody -/

/-- The machine is as it was. -/
theorem Orderly.idle (h : Orderly server p) (hm : p'.machine = p.machine) (hsettled : p'.Settled) (hentered : p.Entered)
    (htask : ∀ t ∈ p'.task, t.Due server p'.machine) : Orderly server p' := by
  refine ⟨hsettled, ?_, ?_, ?_, ?_, ?_, ?_, ?_, htask⟩
  all_goals rw [hm]
  · exact h.counted
  · intro fd hfd
    rcases h.opened fd hfd with hserver | hp | hlive
    · exact .inl hserver
    · exact absurd hp (hentered fd)
    · exact .inr (.inr hlive)
  · exact h.heard
  · exact h.erring
  · exact h.listens
  · exact h.closes
  · exact h.clients

/-- The listening socket is closed. -/
theorem Orderly.unlisten (h : Orderly server p) (hsettled : p'.Settled) (hentered : p.Entered)
    (hm : p'.machine = { p.machine with
      service := (p.machine.service.del server).1
      kernel  := { p.machine.kernel with conn := Function.update p.machine.kernel.conn server none } })
    (htask : p'.task = none) : Orderly server p' := by
  have hfds : ∀ fd, p'.machine.service.fds fd = if fd = server then none else p.machine.service.fds fd := by
    intro fd
    rw [hm]
    show (p.machine.service.del server).1.fds fd = _
    rw [Service.del_fds, Function.update_apply]
  have herr : ∀ fd, p'.machine.service.fdsError fd = if fd = server then none else p.machine.service.fdsError fd := by
    intro fd
    rw [hm]
    show (p.machine.service.del server).1.fdsError fd = _
    rw [Service.del_fdsError, Function.update_apply]
  have hconn : ∀ fd, p'.machine.kernel.conn fd = if fd = server then none else p.machine.kernel.conn fd := by
    intro fd
    rw [hm]
    exact Function.update_apply ..
  have hlive : ∀ j d, p'.machine.Live j d ↔ p.machine.Live j d := by
    intro j d
    rw [hm]
    exact Iff.rfl
  refine ⟨hsettled, ?_, ?_, ?_, ?_, ?_, ?_, ?_, ?_⟩
  · rw [hm]
    exact h.counted.del server
  · intro fd hfd
    rw [hconn] at hfd
    split at hfd
    · cases hfd
    · rcases h.opened fd hfd with hserver | hp | ⟨j, d, hj, hd⟩
      · exact .inl hserver
      · exact absurd hp (hentered fd)
      · exact .inr (.inr ⟨j, d, (hlive j d).2 hj, hd⟩)
  · intro fd hfd
    rw [hfds] at hfd
    rw [hconn]
    split at hfd
    · cases hfd
    · rename_i hne
      rw [if_neg hne]
      exact h.heard fd hfd
  · intro fd hfd
    rw [herr] at hfd
    rw [hconn]
    split at hfd
    · cases hfd
    · rename_i hne
      rw [if_neg hne]
      exact h.erring fd hfd
  · intro hopen
    rw [hconn, if_pos rfl] at hopen
    cases hopen
  · intro fd fd' hf
    rw [herr] at hf
    split at hf
    · cases hf
    · exact h.closes fd fd' hf
  · intro j d hd
    obtain ⟨hreg, hne⟩ := h.clients j d ((hlive j d).1 hd)
    rw [hfds, if_neg hne]
    exact ⟨hreg, hne⟩
  · intro t ht
    rw [htask] at ht
    cases ht

/-- A connection is accepted. -/
theorem Orderly.accept (h : Orderly server p) (hsettled : p'.Settled) (hentered : p.Entered)
    (hopen : (p.machine.kernel.conn server).isSome) (hfree : p.machine.kernel.conn fd = none)
    (hm : p'.machine = { p.machine with kernel := { p.machine.kernel with
      conn     := Function.update p.machine.kernel.conn fd (some p.machine.kernel.nextConn)
      nextConn := p.machine.kernel.nextConn + 1 } })
    (htask : p'.task = some (.invoke .accepted fd)) : Orderly server p' := by
  have hconn : ∀ fd', p'.machine.kernel.conn fd' =
      if fd' = fd then some p.machine.kernel.nextConn else p.machine.kernel.conn fd' := by
    intro fd'
    rw [hm]
    exact Function.update_apply ..
  have hgrows : ∀ fd', (p.machine.kernel.conn fd').isSome → (p'.machine.kernel.conn fd').isSome := by
    intro fd' hfd'
    rw [hconn]
    split
    · rfl
    · exact hfd'
  have hservice : p'.machine.service = p.machine.service := by rw [hm]
  have hlive : ∀ j d, p'.machine.Live j d ↔ p.machine.Live j d := by
    intro j d
    rw [hm]
    exact Iff.rfl
  have hnone : ∀ {x : Option Callback}, (x.isSome → (p.machine.kernel.conn fd).isSome) → x = none := by
    intro x hx
    cases x with
    | none => rfl
    | some f =>
      have := hx rfl
      rw [hfree] at this
      cases this
  refine ⟨hsettled, ?_, ?_, ?_, ?_, ?_, ?_, ?_, ?_⟩
  · rw [hservice]
    exact h.counted
  · intro fd' hfd'
    by_cases he : fd' = fd
    · exact .inr (.inl (he ▸ htask))
    · rw [hconn, if_neg he] at hfd'
      rcases h.opened fd' hfd' with hserver | hp | ⟨j, d, hj, hd⟩
      · exact .inl hserver
      · exact absurd hp (hentered fd')
      · exact .inr (.inr ⟨j, d, (hlive j d).2 hj, hd⟩)
  · intro fd' hfd'
    rw [hservice] at hfd'
    exact hgrows fd' (h.heard fd' hfd')
  · intro fd' hfd'
    rw [hservice] at hfd'
    exact hgrows fd' (h.erring fd' hfd')
  · intro _
    rw [hservice]
    exact h.listens hopen
  · rw [hservice]
    exact h.closes
  · intro j d hd
    rw [hservice]
    exact h.clients j d ((hlive j d).1 hd)
  · intro t ht
    obtain rfl := Option.some.inj (ht.symm.trans htask)
    refine ⟨?_, ?_, ?_⟩
    · intro j hj
      cases hj
    · intro fd' hfd'
      cases hfd'
    · intro fd' hfd'
      cases hfd'
      rw [hservice]
      refine ⟨?_, hnone (h.heard fd), hnone (h.erring fd)⟩
      rintro rfl
      rw [hfree] at hopen
      cases hopen

/-! ## A client made -/

/-- The delimiter of a header is there, and is not empty. -/
def Delimited (m : Machine) : Prop := ∃ d, (m.heap headerDelim).native = some d ∧ toUint d.size ≠ 0

theorem edits_delimited {b : Nat} (hb : b ≠ headerDelim) : Edits Delimited Any b where
  blind  := fun _ _ ⟨d, hd, h0⟩ hs => ⟨d, by rw [hs.heap]; exact hd, h0⟩
  stable := Buffer.stable_any
  good   := fun _ _ _ _ => trivial
  set    := fun _ _ ⟨d, hd, h0⟩ _ => ⟨d, by simp only [Function.update_of_ne hb.symm]; exact hd, h0⟩

/-- **`start` registers a function**: the delimiter is not empty. -/
theorem start_registers {m : Machine} (hc : m.clients k = some c) (hne : c.buffer ≠ headerDelim) (hd : Delimited m) :
    Leads m (Client.start k) (fun _ m' => (m'.service.fds c.fd).isSome)
      (Escape fun m' => (m'.service.fds c.fd).isSome) := by
  have hreg : ∀ f, Registers Delimited (fun m' => (m'.service.fds c.fd).isSome) c.fd f := fun f m events _ =>
    Option.isSome_iff_exists.2 ⟨f, registers_self f m events trivial⟩
  have hblind : Blind fun m' => (m'.service.fds c.fd).isSome := fun m₁ m₂ hm hs => by
    simpa only [hs.service] using hm
  have hread : Ends Delimited (do
      Script.clear c.buffer
      Socket.readToken c.fd c.buffer headerDelim (.header k))
      (fun r m' => (m'.service.fds c.fd).isSome ∧ Invokes (.header k) r)
      (Escape fun m' => (m'.service.fds c.fd).isSome) :=
    (edits_delimited hne).clear.then fun _ _ => ends_readToken (edits_delimited hne).blind hblind (fun _ h => h)
      fun _ _ _ => hreg _
  have hrun : ∀ r, Client.start k m = r → (do
      Script.clear c.buffer
      Socket.readToken c.fd c.buffer headerDelim (.header k)) m = r := fun r hr =>
    (bind_ok (client_run hc)).symm.trans hr
  exact ⟨fun hr => (hread.ok hd (hrun _ hr)).1, fun hr => hread.error hd (hrun _ hr)⟩

/-- What `new Client` changes but the buffers: the error function of the fd, and the client. -/
theorem new_confined {m m₁ : Machine} (hcounted : m.service.Counted) (hx : Client.new fd m = .ok k m₁) :
    m.Confined k fd True m₁ ∧ m₁.service.Counted := by
  rw [Client.new_run] at hx
  let m₂ : Machine := { m with service := m.service.error fd (.clientError m.nextClient) }
  cases hpop : BufferPool.pop m₂ with
  | error e m₃ =>
    simp only [m₂] at hpop
    rw [hpop] at hx
    cases hx
  | ok b m₃ =>
    have hends : Ends _ BufferPool.pop _ (Escape m₂.BuffersOnly) := (lax_buffersOnly m₂).pop.ends
    have hb := (hends.ok (BuffersOnly.refl m₂) hpop).1
    simp only [m₂] at hpop
    rw [hpop] at hx
    cases hx
    have hcounted' : m₃.service.Counted := by
      rw [hb.service]
      exact ⟨hcounted.finite, hcounted.number⟩
    refine ⟨⟨?_, ?_, ?_, ?_, hcounted', fun h => absurd trivial h⟩, hcounted'⟩
    · intro j hj
      show Function.update m₃.clients m.nextClient _ j = _
      rw [Function.update_of_ne hj, hb.clients]
    · intro fd' _
      show m₃.service.fds fd' = _
      rw [hb.service]
      rfl
    · intro fd' hne
      show m₃.service.fdsError fd' = _
      rw [hb.service]
      exact Function.update_of_ne hne ..
    · intro fd' _
      show m₃.kernel.conn fd' = _
      rw [hb.conn]

/-- **A client is made of a connection.** -/
theorem Orderly.enter (h : Orderly server p) (hsettled : p'.Settled) (hp : p.task = some (.invoke .accepted fd))
    {byUser : Bool} (hend : ended byUser ((do Client.start (← Client.new fd) : M (Option Task)) p.machine) = .ok p') :
    Orderly server p' := by
  obtain ⟨hne, -, -⟩ := (h.task _ hp).accepted fd rfl
  rcases h.settled.task _ hp with ⟨-, hopen, hfree⟩ | ⟨j, c, hj, -⟩
  · cases hnew : Client.new fd p.machine with
    | error e m₁ =>
      obtain ⟨t, rfl⟩ := new_error hnew
      rw [bind_error hnew] at hend
      cases hend
    | ok k m₁ =>
      obtain ⟨hk, b, hseat⟩ := new_seated h.settled.owned hopen hfree hnew
      obtain ⟨hm, hcounted⟩ := new_confined h.counted hnew
      obtain ⟨c, hc, hfd, hb⟩ := hseat.1.self
      have hclosed : c.closed = false := by
        rw [Client.new_run] at hnew
        split at hnew
        · cases hnew
        · cases hnew
          have := hc.symm.trans (Function.update_self ..)
          cases this
          rfl
      have hreserved := (hseat.1.sound.buffers k c hc c.buffer (List.mem_cons_self ..)).1
      have hne' : c.buffer ≠ headerDelim := by
        rw [headerDelim]
        omega
      have hstart : m₁.Stays k c.fd True p'.machine ∧ LeftFor k p'.task ∧ (p'.machine.service.fds c.fd).isSome := by
        have hstays : m₁.Stays k c.fd True m₁ := Live.stays ⟨hc, hclosed⟩ hcounted
        have hregisters := start_registers hc hne' hseat.1.sound.delim
        have hheader : Keeps (m₁.Stays k c.fd True) _ (Client.start k) _ := attends_stays.recvHeader rfl
        rw [bind_ok hnew] at hend
        cases hr : Client.start k m₁ with
        | ok r m' =>
          rw [hr] at hend
          cases hend
          obtain ⟨h1, h2⟩ := hheader.ends.ok hstays hr
          exact ⟨h1, h2.leftFor rfl, hregisters.ok hr⟩
        | error e m' =>
          rw [hr] at hend
          cases e with
          | trap t => cases hend
          | throw e =>
            cases hend
            rcases hheader.ends.error hstays hr with ⟨t, ht⟩ | h1
            · cases ht
            · rcases hregisters.error hr with ⟨t, ht⟩ | h3
              · cases ht
              · exact ⟨h1, leftFor_none, h3⟩
      obtain ⟨hs, hleft, hreg⟩ := hstart
      obtain ⟨c', hl', hfd'⟩ := hs.self
      subst hfd
      refine h.stays hsettled ?_ hl' hfd' hreg hne ?_ hleft ?_
      · refine ⟨?_, ?_, ?_, ?_, hs.counted, fun hn => absurd trivial hn⟩
        · intro j hj
          rw [hs.others j hj, hm.others j hj]
        · intro fd' hne
          rw [hs.fds fd' hne, hm.fds fd' hne]
        · intro fd' hne
          rw [hs.fdsError fd' hne, hm.fdsError fd' hne]
        · intro fd' hne
          rw [hs.conn fd' hne, hm.conn fd' hne]
      · intro d hd
        -- no client has this number yet
        have hnobody := h.settled.owned.sound.clients k (Nat.le_of_eq hk.symm)
        cases hnobody.symm.trans hd.1
      · intro fd' hp'
        cases hp.symm.trans hp'
        rfl
  · cases hj

section

variable [V8]

/-- **One step.** -/
theorem step_orderly (h : Orderly server p) (hok : p.Prudent i) (hs : p.step i = .ok p') : Orderly server p' := by
  cases hk : p.actor i with
  | some k => exact h.serve hok hs hk
  | none =>
    have hsettled := (step_settled h.settled (h.considerate hok hs) hs).1
    obtain ⟨e, ans, f, rfl, hn, hf, hend⟩ | ⟨j, method, ans, rfl, -, -⟩ | ⟨ans, t, rfl, ht, hend⟩ := step_cases hs
    · have hentered := entered_of_none hn
      have hfk : f.client = none := by simpa only [actor, hf, Option.bind_some] using hk
      unfold Service.callbackOf at hf
      split at hf
      · rcases h.settled.owned.sound.errors e.fd f hf with rfl | ⟨j, c, rfl, -, -⟩
        · have hserver := h.closes e.fd e.fd hf
          rw [hserver] at hend
          cases hend
          exact h.unlisten hsettled hentered rfl rfl
        · cases hfk
      · rcases h.callback hentered hf with ⟨hserver, rfl⟩ | rfl | ⟨j, c, hj, -, -⟩
        · have hopen := h.heard e.fd (by rw [hf]; rfl)
          rw [hserver] at hopen
          rcases acceptTcp_cases ans server p.machine with hx | ⟨fd, hfree, hx⟩
          · have hrun : Socket.onAcceptable ans server .accepted p.machine =
              .ok (some (.triggerError server)) p.machine := bind_ok hx
            rw [runCallback, hrun] at hend
            cases hend
            refine h.idle rfl hsettled hentered ?_
            intro t ht
            cases ht
            exact due_triggerError
          · have hrun : Socket.onAcceptable ans server .accepted p.machine =
              .ok (some (.invoke .accepted fd)) _ := bind_ok hx
            rw [runCallback, hrun] at hend
            cases hend
            exact h.accept hsettled hentered hopen hfree rfl rfl
        · cases hend
          exact h.idle rfl hsettled hentered fun t ht => by cases ht
        · cases hfk.symm.trans hj
    · cases hk
    · have htk : t.client = none := by simpa only [actor, ht, Option.bind_some] using hk
      have hentered : (∀ fd, t ≠ .invoke .accepted fd) → p.Entered := by
        intro hne fd hfd
        exact hne fd (Option.some.inj (ht.symm.trans hfd))
      cases t with
      | call f =>
        have hnone : p.Entered := hentered (by intro fd hfd; cases hfd)
        rcases h.settled.task _ ht with ⟨fd, rfl, -⟩ | ⟨j, c, rfl, -⟩
        · have hserver := (h.task _ ht).closes fd rfl
          rw [hserver] at hend
          cases hend
          exact h.unlisten hsettled hnone rfl rfl
        · cases htk
      | invoke callback fd =>
        rcases h.settled.task _ ht with ⟨rfl, -, -⟩ | ⟨j, c, hj, -⟩
        · exact h.enter hsettled ht hend
        · cases htk.symm.trans hj
      | triggerError fd =>
        have hnone : p.Entered := hentered (by intro fd hfd; cases hfd)
        rw [runTask, triggerError_run] at hend
        cases hf : p.machine.service.fdsError fd with
        | none =>
          rw [hf] at hend
          cases hend
          exact h.idle rfl hsettled hnone fun t ht => by cases ht
        | some f =>
          rw [hf] at hend
          cases hend
          refine h.idle rfl hsettled hnone ?_
          intro t ht
          cases ht
          rcases h.settled.owned.sound.errors fd f hf with rfl | ⟨j, c, rfl, hl, -⟩
          · refine ⟨?_, ?_, ?_⟩
            · intro j hj
              cases hj
            · intro fd' hfd'
              cases hfd'
              exact h.closes fd fd hf
            · intro fd' hfd'
              cases hfd'
          · refine ⟨?_, ?_, ?_⟩
            · intro j' hj'
              cases hj'
              exact ⟨c, hl⟩
            · intro fd' hfd'
              cases hfd'
            · intro fd' hfd'
              cases hfd'
      | handler j req => cases htk

/-! ## Runs -/

omit [V8] in
theorem booted_conn {d₀ d₁ : Buffer} (fd' : Int) :
    (booted server d₀ d₁).kernel.conn fd' = if fd' = server then some 0 else none := by
  simp only [booted, Function.update_apply]

omit [V8] in
theorem booted_fds {d₀ d₁ : Buffer} (fd' : Int) :
    (booted server d₀ d₁).service.fds fd' = if fd' = server then some (.acceptTcp server .accepted) else none := by
  simp only [booted, Service.pollIn_fds, Function.update_apply]
  rfl

omit [V8] in
theorem booted_fdsError {d₀ d₁ : Buffer} (fd' : Int) :
    (booted server d₀ d₁).service.fdsError fd' = if fd' = server then some (.autoClose server) else none := by
  simp only [booted, Service.pollIn_fdsError, Service.error, Function.update_apply]
  rfl

/-- **When `Service::run` begins** the listening socket is the only one. -/
theorem initial_orderly (server : Int) : (initial server).Orderly server := by
  have hsettled := initial_settled server
  obtain ⟨d₀, d₁, hinit, -, -⟩ := initial_eq server
  rw [hinit] at hsettled ⊢
  have hnobody : ∀ k c, ¬ (booted server d₀ d₁).Live k c := by
    intro k c hl
    cases hl.1
  refine ⟨hsettled, ?_, ?_, ?_, ?_, ?_, ?_, ?_, ?_⟩
  · have hcounted : (Service.new.error server (Callback.autoClose server)).Counted :=
      ⟨Service.counted_new.finite, Service.counted_new.number⟩
    exact hcounted.inOrOut server _ epollIn
  · intro fd' hfd'
    simp only [booted_conn] at hfd'
    split at hfd'
    · rename_i he
      exact .inl he
    · cases hfd'
  · intro fd' hfd'
    simp only [booted_fds] at hfd'
    simp only [booted_conn]
    split at hfd'
    · rename_i he
      rw [if_pos he]
      rfl
    · cases hfd'
  · intro fd' hfd'
    simp only [booted_fdsError] at hfd'
    simp only [booted_conn]
    split at hfd'
    · rename_i he
      rw [if_pos he]
      rfl
    · cases hfd'
  · intro _
    simp only [booted_fds, booted_fdsError, if_true, and_self]
  · intro fd' fd'' hf
    simp only [booted_fdsError] at hf
    split at hf
    · rename_i he
      exact he
    · cases hf
  · intro k c hl
    exact absurd hl (hnobody k c)
  · intro t ht
    cases ht

/-- The invariant holds after every run. -/
theorem run_orderly {inputs : List Input} (h : Run.Along step Prudent (initial server) inputs)
    (hp : inputs.foldlM step (initial server) = .ok p) : p.Orderly server :=
  Run.invariant (I := Orderly server) (fun _ _ _ ho hd hs => step_orderly ho hd hs) inputs _ _
    (initial_orderly server) h hp

omit [V8] in
/-- A client's fd is open, and both tables have an entry for it. -/
theorem Orderly.client_open (h : Orderly server p) (hl : p.machine.Live k c) :
    (p.machine.kernel.conn c.fd).isSome ∧ (p.machine.service.fds c.fd).isSome ∧
      p.machine.service.fdsError c.fd = some (.clientError k) := by
  have hheld := h.settled.owned.held k c hl
  exact ⟨hheld.isOpen, (h.clients k c hl).1, hheld.error⟩

omit [V8] in
/-- **The tables have an entry for exactly the open fds**, when no connection was just accepted. -/
theorem Orderly.entries (h : Orderly server p) (hentered : p.Entered) (fd : Int) :
    ((p.machine.service.fds fd).isSome ↔ (p.machine.kernel.conn fd).isSome) ∧
      ((p.machine.service.fdsError fd).isSome ↔ (p.machine.kernel.conn fd).isSome) := by
  have hopen : (p.machine.kernel.conn fd).isSome →
      (p.machine.service.fds fd).isSome ∧ (p.machine.service.fdsError fd).isSome := by
    intro hfd
    rcases h.opened fd hfd with rfl | hp | ⟨k, c, hl, rfl⟩
    · obtain ⟨h1, h2⟩ := h.listens hfd
      rw [h1, h2]
      exact ⟨rfl, rfl⟩
    · exact absurd hp (hentered fd)
    · obtain ⟨-, h1, h2⟩ := h.client_open hl
      rw [h2]
      exact ⟨h1, rfl⟩
  exact ⟨⟨h.heard fd, fun hfd => (hopen hfd).1⟩, ⟨h.erring fd, fun hfd => (hopen hfd).2⟩⟩

/-- **Every socket is accounted for.**  In a run in which user code calls the methods of open clients only, an open fd
is the listening one, or the one `acceptTcp` is just handing over, or that of an open client, whose fd is open.  Unless
one is just being handed over, `fds` and `fdsError` have an entry for exactly the open fds, and `fds_number` is their
number. -/
theorem sockets_accounted (server : Int) (inputs : List Input) (p : Process)
    (h : Run.Along step Prudent (initial server) inputs) (hp : inputs.foldlM step (initial server) = .ok p) :
    (∀ fd, (p.machine.kernel.conn fd).isSome →
      fd = server ∨ p.task = some (.invoke .accepted fd) ∨ ∃ k c, p.machine.Live k c ∧ c.fd = fd) ∧
    (∀ k c, p.machine.Live k c → (p.machine.kernel.conn c.fd).isSome) ∧
    ((∀ fd, p.task ≠ some (.invoke .accepted fd)) →
      (∀ fd, ((p.machine.service.fds fd).isSome ↔ (p.machine.kernel.conn fd).isSome) ∧
        ((p.machine.service.fdsError fd).isSome ↔ (p.machine.kernel.conn fd).isSome)) ∧
      Set.Finite {fd | (p.machine.kernel.conn fd).isSome} ∧
      p.machine.service.fdsNumber = Set.ncard {fd | (p.machine.kernel.conn fd).isSome}) := by
  have ho := run_orderly h hp
  refine ⟨ho.opened, fun k c hl => (ho.client_open hl).1, ?_⟩
  intro hentered
  have hkeys : p.machine.service.keys = {fd | (p.machine.kernel.conn fd).isSome} := by
    ext fd
    exact (ho.entries hentered fd).1
  rw [← hkeys]
  exact ⟨ho.entries hentered, ho.counted.finite, ho.counted.number⟩

end

/-- A connection on fd 5, whose client has made a request: two sockets are open. -/
theorem sockets_accounted_requested : ∃ p, requested.foldlM (@step ascii) (@initial ascii 3) = .ok p ∧
    (p.machine.kernel.conn 5).isSome ∧ Set.ncard {fd | (p.machine.kernel.conn fd).isSome} = 2 := by
  obtain ⟨p, hp, h⟩ := Run.exists_of_any (x := requested.foldlM (@step ascii) (@initial ascii 3))
    (p := fun p : Process => decide (p.task = some (.handler 0 (Helper.parseHeader (js "GET / HTTP/1.1\r\n\r\n")))) &&
      (p.machine.kernel.conn 5).isSome && decide (p.machine.service.fdsNumber = 2)) (by decide +kernel)
  simp only [Bool.and_eq_true, decide_eq_true_eq] at h
  obtain ⟨⟨htask, hopen⟩, hnumber⟩ := h
  obtain ⟨-, -, hrest⟩ := @sockets_accounted ascii 3 requested p (by decide +kernel) hp
  have hentered : ∀ fd, p.task ≠ some (.invoke .accepted fd) := by
    intro fd hfd
    rw [hfd] at htask
    cases htask
  have hcount := (hrest hentered).2.2
  refine ⟨p, hp, hopen, ?_⟩
  rw [hnumber] at hcount
  omega

end Process
end V8h
