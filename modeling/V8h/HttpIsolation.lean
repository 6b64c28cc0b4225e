import V8h.BufferSpec
import V8h.HttpCalls
/-!
# HttpIsolation — what a closed client can still reach

`Client.close` gives the buffers to the pool and the fd number to the kernel, and leaves them in the client's fields.  A
late call works on them again.  As long as no open client has been given the same number or one of the same buffers,
such a call changes nothing of any open client (`late_calls_spare`); after a reuse it does (`late_write_leaks`).
-/
namespace V8h

open Machine Effect

section

variable [V8]

/-- What a call left pending refers to. -/
def Task.Ok (m : Machine) : Task → Prop
  | .call callback       =>
    (∃ fd, callback = .autoClose fd ∧ ∀ k c, m.Live k c → c.fd ≠ fd) ∨
    ∃ k c, callback = .clientError k ∧ m.clients k = some c
  | .invoke callback arg =>
    (callback = .accepted ∧ (m.kernel.conn arg).isSome ∧ ∀ k c, m.Live k c → c.fd ≠ arg) ∨
      ∃ k c, callback.client = some k ∧ m.clients k = some c
  | .triggerError _      => True
  | .handler _ _         => True

/-- A call that reads nothing and writes nothing for client `j`. -/
def Task.Foreign (j : Nat) : Task → Prop
  | .invoke callback _ => callback.client ≠ some j
  | .handler k _       => k ≠ j
  | _                  => True

/-- What a step on behalf of `who` leaves to be called for the other clients. -/
def SparesCalls (who : Option Nat) (m : Machine) (r : Option Task) : Prop :=
  ∀ t ∈ r, ∀ j c, who ≠ some j → m.Live j c → t.Foreign j

/-- A program on behalf of `who` leaves an owned state, the others as they were, and a pending call in order. -/
structure Settles (who : Option Nat) (m : Machine) (x : M (Option Task)) : Prop where
  ok    : ∀ {r m'}, x m = .ok r m' → m'.Owned ∧ (∀ t ∈ r, t.Ok m') ∧ Spares who m m' ∧ SparesCalls who m r
  throw : ∀ {e m'}, x m = .error (.throw e) m' → m'.Owned ∧ Spares who m m'

omit [V8] in
theorem Task.Of.foreign {k j : Nat} {t : Task} (h : t.Of k) (hj : k ≠ j) : t.Foreign j := by
  cases t with
  | invoke callback arg =>
    have hk : callback.client = some k := h
    exact fun he => hj (Option.some.inj (hk.symm.trans he))
  | handler i req => exact fun he => hj (h.symm.trans he)
  | triggerError fd => trivial
  | call callback => trivial

omit [V8] in
/-- **Serving a client that may act settles.** -/
theorem Serves.settles {m : Machine} (h : m.Owned) {k : Nat} {c : Client} (hk : m.clients k = some c)
    (hc : c.closed = true → ∀ j c', m.Live j c' → c.Apart c') {x : M (Option Task)}
    (hx : Serves m k c.fd c.buffer x (LeftFor k)) : Settles (some k) m x := by
  have hstart := h.serving hk hc
  have hspares : ∀ {m'}, m.Serving k c.fd c.buffer m' → Spares (some k) m m' := fun hm' j c' hj hl => by
    have hjk : j ≠ k := fun he => hj (he ▸ rfl)
    exact ⟨hm'.untouched j c' hjk hl, hm'.others j hjk⟩
  refine ⟨fun {r m'} hr => ?_, fun {e m'} hr => ?_⟩
  · obtain ⟨hm', hleft⟩ := hx.ends.ok hstart hr
    refine ⟨hm'.owned h, fun t ht => ?_, hspares hm', fun t ht j c' hj _ => (hleft t ht).foreign fun he =>
      hj (he ▸ rfl)⟩
    have hof := hleft t ht
    obtain ⟨c', hc', -, -⟩ := hm'.self
    cases t with
    | invoke callback arg => exact Or.inr ⟨k, c', hof, hc'⟩
    | call callback => exact absurd hof id
    | triggerError fd => trivial
    | handler j req => trivial
  · rcases hx.ends.error hstart hr with ⟨t, ht⟩ | hm'
    · cases ht
    · exact ⟨hm'.owned h, hspares hm'⟩

omit [V8] in
theorem settles_pure {m : Machine} (h : m.Owned) (who : Option Nat) : Settles who m (pure none) := by
  refine ⟨fun hr => ?_, fun hr => ?_⟩
  · cases hr
    exact ⟨h, (fun _ ht => nomatch ht), Spares.refl who m, fun _ ht => nomatch ht⟩
  · cases hr

omit [V8] in
/-- `accept` fails and changes nothing, or gives a number that was not in use. -/
theorem acceptTcp_cases (ans : Answers) (fd : Int) (m : Machine) :
    Socket._acceptTcp ans fd m = .ok none m ∨ ∃ f, m.kernel.conn f = none ∧ Socket._acceptTcp ans fd m =
      .ok (some f) { m with kernel := { m.kernel with
        conn := Function.update m.kernel.conn f (some m.kernel.nextConn), nextConn := m.kernel.nextConn + 1 } } := by
  unfold Socket._acceptTcp
  split
  · rename_i f _ _
    cases hf : m.kernel.conn f with
    | some x => exact Or.inl rfl
    | none => exact Or.inr ⟨f, hf, rfl⟩
  · exact Or.inl rfl

omit [V8] in
theorem settles_onAcceptable {m : Machine} (h : m.Owned) (ans : Answers) (fd : Int) :
    Settles none m (Socket.onAcceptable ans fd .accepted) := by
  rcases acceptTcp_cases ans fd m with hx | ⟨f, hf, hx⟩
  · have hrun : Socket.onAcceptable ans fd .accepted m = .ok (some (.triggerError fd)) m := bind_ok hx
    refine ⟨fun hr => ?_, fun hr => ?_⟩ <;> rw [hrun] at hr <;> cases hr
    exact ⟨h, fun t ht => Option.some.inj ht ▸ trivial, Spares.refl none m, fun t ht _ _ _ _ =>
      Option.some.inj ht ▸ trivial⟩
  · have hrun : Socket.onAcceptable ans fd .accepted m = .ok (some (.invoke .accepted f)) _ := bind_ok hx
    obtain ⟨h1, h2, h3, h4⟩ := h.accept hf
    refine ⟨fun hr => ?_, fun hr => ?_⟩ <;> rw [hrun] at hr <;> cases hr
    exact ⟨h1, fun t ht => Option.some.inj ht ▸ Or.inl ⟨rfl, h3, h4⟩, h2,
      fun t ht j _ _ _ => Option.some.inj ht ▸ fun he => nomatch he⟩

omit [V8] in
theorem settles_autoClose {m : Machine} (h : m.Owned) {fd : Int} (hfree : ∀ k c, m.Live k c → c.fd ≠ fd) :
    Settles none m (do Socket.close fd; return none) := by
  obtain ⟨h1, h2⟩ := h.dropFd hfree
  refine ⟨fun hr => ?_, fun hr => ?_⟩
  · cases hr
    exact ⟨h1, (fun _ ht => nomatch ht), h2, fun _ ht => nomatch ht⟩
  · cases hr

omit [V8] in
theorem triggerError_run (m : Machine) (fd : Int) : Socket.triggerError fd m =
    match m.service.fdsError fd with
    | none          => .error (.throw (.error (js "missing error callback"))) m
    | some callback => .ok (some (.call callback)) m := by
  rw [Socket.triggerError, bind_ok (get_run m)]
  cases m.service.fdsError fd <;> rfl

omit [V8] in
/-- The function registered for the errors of an fd closes a client, or an fd no client holds. -/
theorem errors_ok {m : Machine} (h : m.Owned) {fd : Int} {f : Callback} (hf : m.service.fdsError fd = some f) :
    (Task.call f).Ok m := by
  rcases h.sound.errors fd f hf with rfl | ⟨k, c, rfl, hl, -⟩
  · refine Or.inl ⟨fd, rfl, ?_⟩
    rintro k c hl rfl
    rw [(h.held k c hl).error] at hf
    cases hf
  · exact Or.inr ⟨k, c, rfl, hl.1⟩

omit [V8] in
theorem settles_triggerError {m : Machine} (h : m.Owned) (fd : Int) : Settles none m (Socket.triggerError fd) := by
  refine ⟨fun hr => ?_, fun hr => ?_⟩ <;> rw [triggerError_run] at hr <;> split at hr <;> cases hr
  · rename_i f hf
    exact ⟨h, fun t ht => Option.some.inj ht ▸ errors_ok h hf, Spares.refl none m,
      fun t ht _ _ _ _ => Option.some.inj ht ▸ trivial⟩
  · exact ⟨h, Spares.refl none m⟩

omit [V8] in
/-- **A client just made holds a buffer no other client holds.** -/
theorem new_seated {m m' : Machine} (h : m.Owned) {fd : Int} (hopen : (m.kernel.conn fd).isSome)
    (hfree : ∀ k c, m.Live k c → c.fd ≠ fd) {k : Nat} (hx : Client.new fd m = .ok k m') :
    k = m.nextClient ∧ ∃ b, Seated m k fd b m' := by
  have hbeside := h.beside m.nextClient
  rw [Client.new_run, BufferPool.pop_run] at hx
  cases hp : m.pool.buffers with
  | nil =>
    obtain ⟨h1, h2, h3⟩ := hbeside.makeBuffer (o := ⟨some (Buffer.new 512), false, false⟩) rfl
    simp only [hp] at hx
    cases hx
    exact ⟨rfl, m.nextBuffer, h1.admit rfl h2 h3 hopen hfree ⟨none, none, []⟩⟩
  | cons b bs =>
    simp only [hp] at hx
    cases hn : (m.heap b).native with
    | none =>
      simp only [hn] at hx
      cases hx
    | some nb =>
      obtain ⟨h1, h2, h3⟩ := hbeside.takePooled (o := ⟨some nb.clear, false, (m.heap b).temporary⟩) hp (h.sound.plain b)
      simp only [hn] at hx
      cases hx
      exact ⟨rfl, b, h1.admit rfl ⟨h2.range, h2.apart⟩ h3 hopen hfree ⟨none, none, []⟩⟩

omit [V8] in
theorem new_error {m m' : Machine} {fd : Int} {e : Stop} (hx : Client.new fd m = .error e m') : ∃ t, e = .trap t := by
  rw [Client.new_run, BufferPool.pop_run] at hx
  split at hx
  · rename_i hx'
    cases hx
    split at hx'
    · cases hx'
    · split at hx' <;> cases hx'
      exact ⟨_, rfl⟩
  · cases hx

omit [V8] in
theorem ends_start {m₀ : Machine} {k : Nat} {fd : Int} {b : Nat} : Ends (Seated m₀ k fd b) (Client.start k)
    (fun r m => m₀.Serving k fd b m ∧ LeftFor k r) (Escape (m₀.Serving k fd b)) := by
  have hclient : Ends (Seated m₀ k fd b) (client k) (fun c m => Seated m₀ k fd b m ∧ c.fd = fd ∧ c.buffer = b)
      (Escape (m₀.Serving k fd b)) := by
    refine ⟨fun {m m' c} hm hx => ?_, fun {m m' e} hm hx => ?_⟩ <;> obtain ⟨c', hc', h1, h2⟩ := hm.1.self <;>
      simp only [client, hc'] at hx <;> cases hx
    exact ⟨hm, h1, h2⟩
  refine hclient.bind_keeping fun c hc => ?_
  rw [hc.1, hc.2]
  exact edits_seated.clear.then fun _ _ => ends_readHeader rfl

omit [V8] in
/-- **Accepting a connection settles**: the new client's buffer is nobody's, and it replaces what was registered. -/
theorem settles_accepted {m : Machine} (h : m.Owned) {fd : Int} (hopen : (m.kernel.conn fd).isSome)
    (hfree : ∀ k c, m.Live k c → c.fd ≠ fd) : Settles none m (do Client.start (← Client.new fd)) := by
  have hold : ∀ {j c'}, m.Live j c' → j ≠ m.nextClient := by
    rintro j c' hl rfl
    have := hl.1
    rw [h.sound.clients _ (Nat.le_refl _)] at this
    cases this
  have hspares : ∀ {k b m'}, k = m.nextClient → m.Serving k fd b m' → Spares none m m' := by
    rintro k b m' rfl hm' j c' - hl
    exact ⟨hm'.untouched j c' (hold hl) hl, hm'.others j (hold hl)⟩
  cases hn : Client.new fd m with
  | error e m₁ =>
    refine ⟨fun hr => ?_, fun hr => ?_⟩ <;> rw [bind_error hn] at hr <;> cases hr
    obtain ⟨t, ht⟩ := new_error hn
    cases ht
  | ok k m₁ =>
    obtain ⟨hk, b, hseat⟩ := new_seated h hopen hfree hn
    refine ⟨fun {r m'} hr => ?_, fun {e m'} hr => ?_⟩ <;> rw [bind_ok hn] at hr
    · obtain ⟨hm', hleft⟩ := ends_start.ok hseat hr
      refine ⟨hm'.owned h, fun t ht => ?_, hspares hk hm', fun t ht j c' _ hl =>
        (hleft t ht).foreign (hk ▸ (hold hl).symm)⟩
      have hof := hleft t ht
      obtain ⟨c', hc', -, -⟩ := hm'.self
      cases t with
      | invoke callback arg => exact Or.inr ⟨k, c', hof, hc'⟩
      | call callback => exact absurd hof id
      | triggerError fd => trivial
      | handler j req => trivial
    · rcases ends_start.error hseat hr with ⟨t, ht⟩ | hm'
      · cases ht
      · exact ⟨hm'.owned h, hspares hk hm'⟩

namespace Process

/-- The client a step is taken for. -/
def actor (p : Process) : Input → Option Nat
  | .event e _  => (p.machine.service.callbackOf e).bind Callback.client
  | .call k _ _ => some k
  | .go _       => p.task.bind Task.client

/-- A step for a closed client is taken only while no open client has its fd number or one of its buffers. -/
def Considerate (p : Process) (i : Input) : Prop :=
  ∀ k c, p.actor i = some k → p.machine.clients k = some c → c.closed = true → ∀ j c', p.machine.Live j c' → c.Apart c'

/-- The ownership invariant of a process. -/
structure Settled (p : Process) : Prop where
  owned : p.machine.Owned
  task  : ∀ t ∈ p.task, t.Ok p.machine

omit [V8] in
theorem settles_ended {p p' : Process} {who : Option Nat} {x : M (Option Task)} {byUser : Bool}
    (hx : Settles who p.machine x) (h : ended byUser (x p.machine) = .ok p') :
    p'.Settled ∧ Spares who p.machine p'.machine ∧ SparesCalls who p.machine p'.task := by
  cases hr : x p.machine with
  | ok r m' =>
    rw [hr] at h
    cases h
    obtain ⟨h1, h2, h3⟩ := hx.ok hr
    exact ⟨⟨h1, h2⟩, h3⟩
  | error e m' =>
    rw [hr] at h
    cases e with
    | trap t => cases h
    | throw e =>
      cases h
      obtain ⟨h1, h3⟩ := hx.throw hr
      exact ⟨⟨h1, fun _ ht => nomatch ht⟩, h3, fun _ ht => nomatch ht⟩

omit [V8] in
theorem settles_runCallback {m : Machine} (h : m.Owned) (ans : Answers) {f : Callback}
    (hf : (∃ fd, m.Fits fd f) ∨ (Task.call f).Ok m)
    (hc : ∀ k c, f.client = some k → m.clients k = some c → c.closed = true → ∀ j c', m.Live j c' → c.Apart c') :
    Settles f.client m (runCallback ans f) := by
  rcases hf with ⟨fd, hf⟩ | ⟨fd, rfl, hfree⟩ | ⟨k, c, rfl, hk⟩
  · cases f with
    | user _ => exact absurd hf id
    | writeUntil f b cond callback => exact absurd hf id
    | connect callback => exact absurd hf id
    | empty => exact settles_pure h none
    | readUntil f b cond callback =>
      obtain ⟨rfl, k, c, hk, hck, rfl, rfl⟩ := hf
      have hx : Serves m k c.fd c.buffer (Socket.onReadable ans c.fd c.buffer cond callback) (LeftFor k) :=
        (edits_serving.onReadable ans).mono fun _ => Reports.leftFor hk
      have := hx.settles h hck (hc k c hk hck)
      rwa [← hk] at this
    | writeBuffer f b callback =>
      obtain ⟨rfl, k, c, hk, hck, rfl, rfl⟩ := hf
      have hx : Serves m k c.fd c.buffer (Socket.writeBuffer ans c.fd c.buffer callback) (LeftFor k) :=
        ((serving_writes hk).writeBuffer ans).mono fun _ => Reports.leftFor hk
      have := hx.settles h hck (hc k c hk hck)
      rwa [← hk] at this
    | acceptTcp f callback =>
      obtain ⟨rfl, rfl⟩ := hf
      exact settles_onAcceptable h ans f
    | autoClose f => exact absurd hf id
    | clientError k => exact absurd hf id
  · exact settles_autoClose h hfree
  · exact Serves.settles h hk (hc k c rfl hk) (Finishes.close serving_close).keeps

/-- **A considerate step keeps the invariant**, changes nothing of the clients it is not taken for, and leaves nothing
to be called for them. -/
theorem step_settled {p p' : Process} {i : Input} (h : p.Settled) (hd : p.Considerate i) (hs : p.step i = .ok p') :
    p'.Settled ∧ Spares (p.actor i) p.machine p'.machine ∧ SparesCalls (p.actor i) p.machine p'.task := by
  obtain ⟨e, ans, f, rfl, -, hf, hend⟩ | ⟨k, method, ans, rfl, -, hend⟩ | ⟨ans, t, rfl, ht, hend⟩ := step_cases hs
  · have hok : (∃ fd, p.machine.Fits fd f) ∨ (Task.call f).Ok p.machine := by
      unfold Service.callbackOf at hf
      split at hf
      · exact Or.inr (errors_ok h.owned hf)
      · exact Or.inl ⟨_, h.owned.sound.callbacks _ _ hf⟩
    have hactor : p.actor (.event e ans) = f.client := by simp only [actor, hf, Option.bind_some]
    rw [hactor]
    refine settles_ended (settles_runCallback h.owned ans hok fun k c hk => ?_) hend
    exact hd k c (hactor.trans hk)
  · cases hk : p.machine.clients k with
    | some c => exact settles_ended ((serves_runMethod ans method).settles h.owned hk (hd k c rfl hk)) hend
    | none =>
      have hstop : runMethod ans k method p.machine = .error (.throw .typeError) p.machine := by
        have hc : client k p.machine = .error (.throw .typeError) p.machine := by simp only [client, hk]
        cases method with
        | write text => exact bind_error (bind_error hc)
        | flush => exact bind_error hc
        | finish => exact bind_error hc
        | close => exact bind_error (bind_error hc)
      rw [hstop] at hend
      cases hend
      exact ⟨⟨h.owned, fun _ ht => nomatch ht⟩, Spares.refl _ _, fun _ ht => nomatch ht⟩
  · have hok := h.task t ht
    have hactor : p.actor (.go ans) = t.client := by simp only [actor, ht, Option.bind_some]
    have hc : ∀ k c, t.client = some k → p.machine.clients k = some c → c.closed = true →
        ∀ j c', p.machine.Live j c' → c.Apart c' := fun k c hk => hd k c (hactor.trans hk)
    rw [hactor]
    refine settles_ended ?_ hend
    cases t with
    | call f => exact settles_runCallback h.owned ans (Or.inr hok) hc
    | invoke callback arg =>
      rcases hok with ⟨rfl, hopen, hfree⟩ | ⟨k, c, hk, hck⟩
      · exact settles_accepted h.owned hopen hfree
      · have := Serves.settles h.owned hck (hc k c hk hck) (serving_tends.runCont hk arg).keeps
        rwa [← hk] at this
    | triggerError fd => exact settles_triggerError h.owned fd
    | handler k req => exact settles_pure h.owned (some k)

/-- The invariant holds when `Service::run` begins: there are no clients. -/
theorem initial_settled (server : Int) : (initial server).Settled := by
  obtain ⟨d₀, d₁, hinit, hd, -⟩ := initial_eq server
  rw [hinit]
  have hnobody : ∀ k c, ¬ (booted server d₀ d₁).Live k c := fun k c h => nomatch h.1
  have hfds : (booted server d₀ d₁).service.fds =
      Function.update (fun _ => none) server (some (.acceptTcp server .accepted)) := Service.pollIn_fds ..
  have herr : (booted server d₀ d₁).service.fdsError =
    Function.update (fun _ => none) server (some (.autoClose server)) :=
    Service.pollIn_fdsError ..
  have hconn : ∀ fd x, (booted server d₀ d₁).kernel.conn fd = some x → fd = server ∧ x = 0 := by
    intro fd x hx
    have hx' : Function.update (fun _ => none) server (some 0) fd = some x := hx
    rw [Function.update_apply] at hx'
    split at hx'
    · rename_i he
      exact ⟨he, (Option.some.inj hx').symm⟩
    · cases hx'
  refine ⟨⟨⟨fun _ _ => rfl, (fun _ _ h => nomatch h), (fun _ h => nomatch h), List.nodup_nil, ?_, ?_, ?_, ?_, ?_,
    Nat.le_refl 2, ?_⟩,
    fun j k c c' _ h => absurd h (hnobody j c), fun k c h => absurd h (hnobody k c),
    fun k c h => absurd h (hnobody k c)⟩,
    fun _ h => nomatch h⟩
  · intro fd f hf
    rw [hfds, Function.update_apply] at hf
    split at hf
    · rename_i he
      cases hf
      exact ⟨he.symm, rfl⟩
    · cases hf
  · intro fd f hf
    rw [herr, Function.update_apply] at hf
    split at hf
    · rename_i he
      cases hf
      exact Or.inl (he ▸ rfl)
    · cases hf
  · intro fd x hx
    rw [(hconn fd x hx).2]
    exact Nat.zero_lt_one
  · exact fun fd fd' x h h' => (hconn fd x h).1.trans (hconn fd' x h').1.symm
  · refine ⟨d₀, rfl, ?_⟩
    rw [hd.size_eq]
    decide
  · intro b
    show (Function.update (Function.update Machine.empty.heap 0 ⟨some d₀, false, false⟩) 1
      ⟨some d₁, false, false⟩ b).temporary
      = false
    rw [Function.update_apply, Function.update_apply]
    split
    · rfl
    · split <;> rfl

/-- A step for a closed client leaves the buffers, the connections and the table entries of the open ones alone. -/
def LateCallSpares (p : Process) (i : Input) : Prop :=
  ∀ k c, p.actor i = some k → p.machine.clients k = some c → c.closed = true →
    ∀ p', p.step i = .ok p' → ∀ j c', p.machine.Live j c' → p.machine.Untouched p'.machine c'

/-- **Responses never reach another connection**, in every run whose steps for closed clients are taken while no open
client has the same fd number or one of the same buffers. -/
theorem late_calls_spare (server : Int) (inputs : List Input)
    (h : Run.Along step Considerate (initial server) inputs) :
    Run.Along step LateCallSpares (initial server) inputs := by
  refine Run.along_of_invariant (I := Settled) (fun p i p' hp hd hs => (step_settled hp hd hs).1) ?_ inputs _
    (initial_settled server) h
  intro p i hp hd k c hk hck hclosed p' hs j c' hl
  have hjk : k ≠ j := by
    rintro rfl
    obtain rfl := Option.some.inj (hck.symm.trans hl.1)
    rw [hl.2] at hclosed
    cases hclosed
  refine ((step_settled hp hd hs).2.1 j c' ?_ hl).1
  rw [hk]
  exact fun he => hjk (Option.some.inj he)

/-- `Considerate`, looked at for the clients made so far. -/
def ConsiderateSoFar (p : Process) (i : Input) : Prop :=
  ∀ k ∈ p.actor i, ∀ c ∈ p.machine.clients k, c.closed = true →
    ∀ j < p.machine.nextClient, ∀ c' ∈ p.machine.clients j, c'.closed = false → c.Apart c'

instance (p : Process) (i : Input) : Decidable (p.ConsiderateSoFar i) := by
  unfold ConsiderateSoFar
  infer_instance

omit [V8] in
theorem considerate_of_soFar {p : Process} {i : Input} (h : p.Settled) (hd : p.ConsiderateSoFar i) :
    p.Considerate i := by
  intro k c hk hc hclosed j c' hl
  have hj : j < p.machine.nextClient := Nat.lt_of_not_le fun hj => nomatch hl.1.symm.trans (h.owned.sound.clients j hj)
  exact hd k hk c hc hclosed j hj c' hl.1 hl.2

theorem along_considerate {server : Int} {inputs : List Input}
    (h : Run.Along step ConsiderateSoFar (initial server) inputs) :
    Run.Along step Considerate (initial server) inputs :=
  Run.along_of_invariant (I := Settled) (fun _ _ _ hp hd hs => (step_settled hp (considerate_of_soFar hp hd) hs).1)
    (fun _ _ hp hd => considerate_of_soFar hp hd) inputs _ (initial_settled server) h

end Process

end

namespace Process

/-- A peer hangs up, and the handler writes its reply after that. -/
theorem late_calls_spare_hangup : Run.Along (@step ascii) (@LateCallSpares ascii) (@initial ascii 3)
    [.event ⟨3, epollIn⟩ ⟨.data [], [], some 5⟩, .go ⟨.data [], [], none⟩, .event ⟨5, epollHup⟩ ⟨.data [], [], none⟩,
      .call 0 (.write (js "late")) ⟨.data [], [], none⟩] :=
  @late_calls_spare ascii 3 _ (@along_considerate ascii _ _ (by decide))

/-- **A reply reaches another connection**: fd 5 hangs up after its request was handled, the next connection gets the
same number and the same buffer, and the handler of the first request writes. -/
theorem late_write_of_closed_client : ¬ Run.Along (@step ascii) (@LateCallSpares ascii) (@initial ascii 3)
    [.event ⟨3, epollIn⟩ ⟨.data [], [], some 5⟩, .go ⟨.data [], [], none⟩,
      .event ⟨5, epollIn⟩ ⟨.data (@V8.utf8 ascii (js "GET / HTTP/1.1\r\n\r\n")), [], none⟩, .go ⟨.data [], [], none⟩,
      .go ⟨.data [], [], none⟩, .event ⟨5, epollHup⟩ ⟨.data [], [], none⟩,
      .event ⟨3, epollIn⟩ ⟨.data [], [], some 5⟩, .go ⟨.data [], [], none⟩,
      .call 0 (.write (js "secret")) ⟨.data [], [], none⟩] := by
  -- Of what is left alone, the size of the buffer of client 1 is enough.
  let spares : Process → Input → Prop := fun p i => ∀ k ∈ p.actor i, ∀ c ∈ p.machine.clients k, c.closed = true →
    ∀ p' ∈ (@step ascii p i).toOption, ∀ c' ∈ p.machine.clients 1, c'.closed = false →
      (p'.machine.heap c'.buffer).native.map Buffer.size = (p.machine.heap c'.buffer).native.map Buffer.size
  intro h
  have hs : Run.Along (@step ascii) spares (@initial ascii 3) _ :=
    h.mono fun p i hp k hk c hc hclosed p' hp' c' hc' hl => by
    have hs : @step ascii p i = .ok p' := by
      cases hx : @step ascii p i with
      | error e => rw [hx] at hp'; cases hp'
      | ok q => rw [hx] at hp'; cases hp'; rfl
    rw [(hp k c hk hc hclosed p' hs 1 c' ⟨hc', hl⟩).heap c'.buffer (List.mem_cons_self ..)]
  revert hs
  decide

end Process
end V8h
