import V8h.HttpIsolation
import V8h.HttpSafety
import V8h.SocketWrite
/-!
# HttpResponse — the bytes a client is sent for a request

A reply is written to the buffer the request was read to, and the function `readUntil` registered for the request stays
registered until `end` registers another.  When nothing is done for the client between the delivery of the request and
`end` but the handler's calls of `write`, what is sent is what was written (`response_is_written`); a readable event in
between puts what the client sent into the response (`response_with_input`).
-/
namespace V8h

open Machine Effect Socket

/-- A call of `write` of client `k`. -/
def Input.Writes (k : Nat) : Input → Prop
  | .call j (.write _) _ => j = k
  | _                    => False

/-- The bytes such a call writes. -/
def Input.written [V8] (k : Nat) : Input → List UInt8
  | .call j (.write text) _ => if j = k then V8.utf8 text else []
  | _                       => []

/-- A call of a method of client `k`. -/
def Input.Calls (k : Nat) : Input → Prop
  | .call j _ _ => j = k
  | _           => False

instance (k : Nat) : ∀ i, Decidable (Input.Writes k i)
  | .call j (.write _) _ => inferInstanceAs (Decidable (j = k))
  | .call _ .flush _ | .call _ .finish _ | .call _ .close _ | .event _ _ | .go _ => .isFalse id

instance (k : Nat) : ∀ i, Decidable (Input.Calls k i)
  | .call j _ _         => inferInstanceAs (Decidable (j = k))
  | .event _ _ | .go _  => .isFalse id

section

variable {m m' : Machine} {k : Nat} {c : Client}

theorem push_leads (b : Nat) (m : Machine) : Leads m (BufferPool.push b)
    (fun _ m' => m'.kernel = m.kernel ∧ m'.clients = m.clients) (fun e _ => ∃ t, e = .trap t) := by
  cases hb : (m.heap b).native with
  | some nb =>
    refine .of_ok (BufferPool.push_run hb) ?_
    split
    · exact ⟨rfl, rfl⟩
    · split <;> exact ⟨rfl, rfl⟩
  | none =>
    refine .congr (y := fun _ => _) (BufferPool.push_closed hb) ?_
    split
    · exact .of_ok rfl ⟨rfl, rfl⟩
    · split
      · exact .of_ok rfl ⟨rfl, rfl⟩
      · exact .of_error rfl ⟨_, rfl⟩

/-- **`close` sends nothing**, and leaves nothing registered. -/
theorem close_leads (hc : m.clients k = some c) : Leads m (Client.close k)
    (fun _ m' => m'.kernel.sent = m.kernel.sent ∧ m'.clients k = some { c with closed := true } ∧
      m'.kernel.conn c.fd = none ∧ m'.service.fds c.fd = none) (fun e _ => ∃ t, e = .trap t) := by
  have hclient : client k m = .ok c m := by rw [client, hc]
  have htail : ∀ m₁ : Machine, m₁.kernel = m.kernel → m₁.clients = m.clients → Leads m₁ (do
      Socket.close c.fd
      modifyClient k fun c => { c with closed := true })
      (fun _ m' => m'.kernel.sent = m.kernel.sent ∧ m'.clients k = some { c with closed := true } ∧
        m'.kernel.conn c.fd = none ∧ m'.service.fds c.fd = none) (fun e _ => ∃ t, e = .trap t) := fun m₁ hk₁ hc₁ => by
    have hsent : m₁.kernel.sent = m.kernel.sent := congrArg Kernel.sent hk₁
    refine .of_ok rfl ⟨hsent, ?_, Function.update_self .., ?_⟩
    · show Function.update m₁.clients k _ k = _
      rw [Function.update_self, hc₁, hc]
      rfl
    · exact (congrFun (Service.del_fds ..) c.fd).trans (Function.update_self ..)
  have hread : Leads m (client k) (fun a m' => a = c ∧ m' = m) (fun e _ => ∃ t, e = .trap t) :=
    .of_ok hclient ⟨rfl, rfl⟩
  refine hread.bind fun a m' _ hm' => ?_
  obtain ⟨rfl, rfl⟩ := hm'
  refine (push_leads a.buffer m').bind fun _ m₁ _ h₁ => ?_
  obtain ⟨hk₁, hc₁⟩ := h₁
  split
  · rename_i b _
    exact (push_leads b m₁).bind fun _ m₂ _ h₂ => htail m₂ (h₂.1.trans hk₁) (h₂.2.trans hc₁)
  · exact htail m₁ hk₁ hc₁

end

namespace Process

section

variable [V8]

/-! ## From the delivery to `end` -/

/-- The call left is that of the handler of client `k`. -/
def Handles (p : Process) (k : Nat) : Prop :=
  match p.task with
  | some (.handler j _) => j = k
  | _                   => False

/-- Nothing is done for the client but the handler called and its calls of `write`. -/
def Composing (k : Nat) (p : Process) (i : Input) : Prop :=
  p.ConsiderateSoFar i ∧ (p.actor i = some k → p.Handles k ∨ i.Writes k)

instance (p : Process) (k : Nat) : Decidable (p.Handles k) :=
  match p with
  | ⟨_, some (.handler j _), _, _⟩ => inferInstanceAs (Decidable (j = k))
  | ⟨_, none, _, _⟩ | ⟨_, some (.call _), _, _⟩ | ⟨_, some (.invoke ..), _, _⟩ | ⟨_, some (.triggerError _), _, _⟩ =>
    .isFalse not_false

instance (k : Nat) (p : Process) (i : Input) : Decidable (Composing k p i) :=
  inferInstanceAs (Decidable (_ ∧ (_ → _ ∨ _)))

/-- The buffer of the client holds what the handler wrote. -/
structure Composed (k : Nat) (c : Client) (x : Nat) (base : List UInt8) (p : Process) (q : List UInt8) : Prop where
  settled : p.Settled
  live    : p.machine.Live k c
  conn    : p.machine.kernel.conn c.fd = some x
  sent    : p.machine.kernel.sent x = base
  stores  : p.machine.Stores c.buffer q q.length

variable {k x : Nat} {c : Client} {base q w : List UInt8} {p p' : Process} {i : Input}

theorem Composed.spared (h : Composed k c x base p q) (hd : p.ConsiderateSoFar i) (hk : p.actor i ≠ some k)
    (hs : p.step i = .ok p') : Composed k c x base p' q := by
  obtain ⟨hsettled, hspares, -⟩ := step_settled h.settled (considerate_of_soFar h.settled hd) hs
  obtain ⟨hu, hc⟩ := hspares k c hk h.live
  refine ⟨hsettled, ⟨hc.trans h.live.1, h.live.2⟩, hu.conn.trans h.conn, (hu.sent x h.conn).trans h.sent,
    h.stores.congr ?_⟩
  rw [hu.heap c.buffer (List.mem_cons_self ..)]

theorem runMethod_write {u : Nat} (ans : Answers) (text : JsString) (hl : p.machine.Live k c)
    (hs : p.machine.Stores c.buffer q u) (hfits : 3 * (u + (V8.utf8 text).length) < 2 ^ 64) :
    ∃ b, runMethod ans k (.write text) p.machine = .ok none (p.machine.setBuffer c.buffer b) ∧
      (p.machine.setBuffer c.buffer b).Stores c.buffer (q ++ V8.utf8 text) (u + (V8.utf8 text).length) := by
  obtain ⟨b, hw, hst⟩ := Script.writeUtf8_run text hs hfits
  have hclient : client k p.machine = .ok c p.machine := by rw [client, hl.1]
  exact ⟨b, (bind_ok ((bind_ok hclient).trans hw)).trans rfl, hst⟩

omit [V8] in
/-- A function of an open client that an event calls is the one for its errors, or the one registered for its fd. -/
theorem callbackOf_client (hp : p.Settled) (hl : p.machine.Live k c) {e : Event} {f : Callback}
    (hf : p.machine.service.callbackOf e = some f) (hk : f.client = some k) :
    (e.isError = true ∧ f = .clientError k) ∨ p.machine.service.fds c.fd = some f := by
  unfold Service.callbackOf at hf
  split at hf
  · rename_i herr
    rcases hp.owned.sound.errors e.fd f hf with rfl | ⟨j, c', rfl, -, -⟩
    · cases hk
    · exact .inl ⟨herr, congrArg Callback.clientError (Option.some.inj hk)⟩
  · have hfits := hp.owned.sound.callbacks e.fd f hf
    -- a function of the client is registered for the client's fd
    have hreg : ∀ {callback : Cont} {b : Nat}, callback.client = some k →
        (∃ j c', callback.client = some j ∧ p.machine.clients j = some c' ∧ c'.fd = e.fd ∧ c'.buffer = b) →
        p.machine.service.fds c.fd = some f := by
      rintro callback b hck ⟨j, c', hj, hc', hfd, -⟩
      obtain rfl : k = j := Option.some.inj (hck.symm.trans hj)
      obtain rfl : c = c' := Option.some.inj (hl.1.symm.trans hc')
      rw [hfd]
      exact hf
    cases f with
    | readUntil fd b cond callback => exact .inr (hreg hk hfits.2)
    | writeUntil fd b cond callback => exact absurd hfits id
    | writeBuffer fd b callback => exact .inr (hreg hk hfits.2)
    | connect callback => exact absurd hfits id
    | clientError j => exact absurd hfits id
    | user id => cases hk
    | empty => cases hk
    | acceptTcp fd callback => cases hk
    | autoClose fd => cases hk

/-- **One step of the handler.** -/
theorem step_composed (h : Composed k c x base p q) (hok : Composing k p i) (hlen : (q ++ i.written k).length < 2 ^ 31)
    (hs : p.step i = .ok p') : Composed k c x base p' (q ++ i.written k) := by
  have hsettled := (step_settled h.settled (considerate_of_soFar h.settled hok.1) hs).1
  by_cases hk : p.actor i = some k
  · obtain ⟨e, ans, f, rfl, hn, -, -⟩ | ⟨j, method, ans, rfl, hn, hend⟩ | ⟨ans, t, rfl, ht, hend⟩ := step_cases hs
    · have hnot : ¬ p.Handles k := by rw [Handles, hn]; exact id
      exact absurd (hok.2 hk) (not_or.2 ⟨hnot, id⟩)
    · obtain rfl : j = k := Option.some.inj hk
      have hnot : ¬ p.Handles j := by rw [Handles, hn]; exact id
      cases method with
      | write text =>
        simp only [Input.written, if_true, List.length_append] at hlen ⊢
        obtain ⟨b, hrun, hst⟩ := runMethod_write ans text h.live h.stores (by omega)
        rw [hrun] at hend
        cases hend
        refine ⟨hsettled, h.live, h.conn, h.sent, ?_⟩
        rwa [List.length_append]
      | flush => exact absurd (hok.2 hk) (not_or.2 ⟨hnot, id⟩)
      | finish => exact absurd (hok.2 hk) (not_or.2 ⟨hnot, id⟩)
      | close => exact absurd (hok.2 hk) (not_or.2 ⟨hnot, id⟩)
    · have hh := (hok.2 hk).resolve_right id
      rw [Handles, ht] at hh
      cases t with
      | handler j req =>
        cases hend
        have hnone : (Input.go ans).written k = [] := rfl
        rw [hnone, List.append_nil]
        exact ⟨hsettled, h.live, h.conn, h.sent, h.stores⟩
      | call f => exact absurd hh id
      | invoke callback arg => exact absurd hh id
      | triggerError fd => exact absurd hh id
  · have hnone : i.written k = [] := by
      cases i with
      | event e ans => rfl
      | go ans => rfl
      | call j method ans =>
        have hj : j ≠ k := fun he => hk (congrArg some he)
        cases method <;> simp only [Input.written, if_neg hj]
    rw [hnone, List.append_nil]
    exact h.spared hok.1 hk hs

/-! ## From `end` to its callback -/

/-- No method of the client is called, and the response is not over: neither was the callback of `end` called, nor the
client closed. -/
def Answering (k : Nat) (p : Process) (i : Input) : Prop :=
  p.ConsiderateSoFar i ∧ ¬ i.Calls k ∧ p.task ≠ some (.invoke (.ended k) 0) ∧
  ∃ c ∈ p.machine.clients k, c.closed = false

instance (k : Nat) (p : Process) (i : Input) : Decidable (Answering k p i) :=
  inferInstanceAs (Decidable (_ ∧ _ ∧ _ ∧ ∃ c ∈ p.machine.clients k, c.closed = false))

/-- The rest of the response is in the buffer, and the fd is waited for. -/
structure Waiting (k : Nat) (c : Client) (o : Outbox UInt8) (p : Process) : Prop where
  stores : ∃ u, p.machine.Stores c.buffer o.rest u
  fds    : p.machine.service.fds c.fd = some (.writeBuffer c.fd c.buffer (.ended k))
  sound  : o.failed = false
  task   : ∀ t ∈ p.task, t.Foreign k

/-- What is sent of a response when `o` is left of it: the process waits, or is about to close the client or to call the
callback of `end`. -/
structure Replying (k : Nat) (c : Client) (x : Nat) (base : List UInt8) (o : Outbox UInt8) (p : Process) : Prop where
  settled : p.Settled
  live    : p.machine.Live k c
  conn    : p.machine.kernel.conn c.fd = some x
  sent    : p.machine.kernel.sent x = base ++ o.accepted
  stage   : Waiting k c o p ∨ p.task = some (.triggerError c.fd) ∨ p.task = some (.call (.clientError k)) ∨
    o.rest = [] ∧ p.task = some (.invoke (.ended k) 0)

/-- The client was closed. -/
structure Closed (k x : Nat) (base : List UInt8) (o : Outbox UInt8) (p : Process) : Prop where
  settled : p.Settled
  closed  : ∃ c ∈ p.machine.clients k, c.closed = true
  sent    : p.machine.kernel.sent x = base ++ o.accepted
  task    : p.task = none

variable {o : Outbox UInt8}

omit [V8] in
theorem Replying.close (h : Replying k c x base o p) {byUser : Bool} (ans : Answers)
    (hend : ended byUser (runCallback ans (.clientError k) p.machine) = .ok p') (hsettled : p'.Settled) :
    Closed k x base o p' := by
  have hleads : Leads p.machine (runCallback ans (.clientError k)) (fun r m' => r = none ∧
      m'.kernel.sent = p.machine.kernel.sent ∧ ∃ c' ∈ m'.clients k, c'.closed = true) (fun e _ => ∃ t, e = .trap t) :=
    (close_leads h.live.1).bind fun _ _ _ h' => .of_ok rfl ⟨rfl, h'.1, _, h'.2.1, rfl⟩
  cases hr : runCallback ans (.clientError k) p.machine with
  | ok r m' =>
    rw [hr] at hend
    cases hend
    obtain ⟨rfl, hsent, hclosed⟩ := hleads.ok hr
    exact ⟨hsettled, hclosed, (congrFun hsent x).trans h.sent, rfl⟩
  | error e m' =>
    obtain ⟨t, rfl⟩ := hleads.error hr
    rw [hr] at hend
    cases hend

omit [V8] in
/-- **`writeBuffer`**, called by `end` or from the closure it registered. -/
theorem replying_writeBuffer {byUser : Bool} {ans : Answers} (hp : p.Settled) (hl : p.machine.Live k c)
    (hconn : p.machine.kernel.conn c.fd = some x) (hstores : ∃ u, p.machine.Stores c.buffer o.rest u)
    (hf : o.failed = false) (hsent : p.machine.kernel.sent x = base ++ o.accepted) (hlen : o.rest.length < 2 ^ 31)
    (hend : ended byUser (writeBuffer ans c.fd c.buffer (.ended k) p.machine) = .ok p') (hsettled : p'.Settled) :
    Replying k c x base (o.offer (replies true ans.sends)) p' := by
  obtain ⟨u, hst⟩ := hstores
  have ho : Offering c.fd c.buffer (fun _ => base) u o p.machine :=
    ⟨hst, fun y hy => by rw [← Option.some.inj (hconn.symm.trans hy)]; exact hsent⟩
  obtain ⟨m₁, hsp, ho₁, hrun⟩ := writeBuffer_run ans (.ended k) ho hf hlen
  have hopen : (p.machine.kernel.conn c.fd).isSome = true := by rw [hconn]; rfl
  rw [hopen] at ho₁ hrun
  generalize ho' : o.offer (replies true ans.sends) = o' at ho₁ hrun ⊢
  have hconn₁ : m₁.kernel.conn c.fd = some x := (congrFun hsp.conn c.fd).trans hconn
  have hlive₁ : m₁.Live k c := ⟨(congrFun hsp.clients k).trans hl.1, hl.2⟩
  rw [hrun] at hend
  by_cases hover : o'.ended
  · have hplain : (m₁.heap c.buffer).temporary = false := hsp.temporary.trans (hp.owned.sound.plain c.buffer)
    rw [if_pos hover, bind_ok (release_plain hplain), pure_run] at hend
    cases hend
    refine ⟨hsettled, hlive₁, hconn₁, ho₁.sent x hconn₁, ?_⟩
    by_cases hrest : o'.rest = []
    · rw [if_pos hrest]
      exact .inr (.inr (.inr ⟨hrest, rfl⟩))
    · rw [if_neg hrest]
      exact .inr (.inl rfl)
  · rw [if_neg hover] at hend
    cases hend
    have hnot : o'.failed = false := Bool.eq_false_iff.2 fun h => hover (.inr h)
    refine ⟨hsettled, hlive₁, hconn₁, ho₁.sent x hconn₁, .inl ⟨⟨u, ho₁.stores⟩, ?_, hnot, fun _ ht => nomatch ht⟩⟩
    exact (congrFun (Service.pollOut_fds ..) c.fd).trans (Function.update_self ..)

/-- While the fd is waited for, whoever acts for others leaves the response alone. -/
theorem Replying.spared (h : Replying k c x base o p) (hwait : Waiting k c o p) (hd : p.ConsiderateSoFar i)
    (hk : p.actor i ≠ some k) (hs : p.step i = .ok p') : Replying k c x base o p' := by
  obtain ⟨hsettled, hspares, hcalls⟩ := step_settled h.settled (considerate_of_soFar h.settled hd) hs
  obtain ⟨hu, hc⟩ := hspares k c hk h.live
  obtain ⟨u, hstores⟩ := hwait.stores
  have hheap := hu.heap c.buffer (List.mem_cons_self ..)
  refine ⟨hsettled, ⟨hc.trans h.live.1, h.live.2⟩, hu.conn.trans h.conn, (hu.sent x h.conn).trans h.sent, .inl ?_⟩
  exact ⟨⟨u, hstores.congr (by rw [hheap])⟩, hu.fds.trans hwait.fds, hwait.sound, fun t ht => hcalls t ht k c hk h.live⟩

omit [V8] in
/-- The function of the client an event calls while the fd is waited for. -/
theorem Replying.callbackOf (h : Replying k c x base o p) (hwait : Waiting k c o p) {e : Event} {f : Callback}
    (hf : p.machine.service.callbackOf e = some f) (hk : f.client = some k) :
    f = .clientError k ∨ f = .writeBuffer c.fd c.buffer (.ended k) := by
  rcases callbackOf_client h.settled h.live hf hk with ⟨-, rfl⟩ | hreg
  · exact .inl rfl
  · rw [hwait.fds] at hreg
    exact .inr (Option.some.inj hreg).symm

/-- **One step of the rest of the response.** -/
theorem step_replying (h : Replying k c x base o p) (hlen : o.rest.length < 2 ^ 31) (hok : Answering k p i)
    (hs : p.step i = .ok p') :
    ∃ o', o'.accepted ++ o'.rest = o.accepted ++ o.rest ∧ (Replying k c x base o' p' ∨ Closed k x base o' p') := by
  have hsettled := (step_settled h.settled (considerate_of_soFar h.settled hok.1) hs).1
  rcases h.stage with hwait | htask | htask | ⟨-, htask⟩
  · by_cases hk : p.actor i = some k
    · obtain ⟨e, ans, f, rfl, hn, hf, hend⟩ | ⟨j, method, ans, rfl, hn, hend⟩ | ⟨ans, t, rfl, ht, hend⟩ := step_cases hs
      · have hfk : f.client = some k := by simpa only [actor, hf, Option.bind_some] using hk
        rcases h.callbackOf hwait hf hfk with rfl | rfl
        · exact ⟨o, rfl, .inr (h.close ans hend hsettled)⟩
        · exact ⟨_, Outbox.offer_whole o _,
            .inl (replying_writeBuffer h.settled h.live h.conn hwait.stores hwait.sound h.sent
            hlen hend hsettled)⟩
      · exact absurd (Option.some.inj hk) hok.2.1
      · have htk : t.client = some k := by simpa only [actor, ht, Option.bind_some] using hk
        have hforeign := hwait.task t ht
        cases t with
        | call f =>
          rcases h.settled.task _ ht with ⟨fd, rfl, -⟩ | ⟨j, c', rfl, -⟩
          · cases htk
          · obtain rfl : j = k := Option.some.inj htk
            exact ⟨o, rfl, .inr (h.close ans hend hsettled)⟩
        | invoke callback arg => exact absurd htk hforeign
        | triggerError fd => cases htk
        | handler j req => exact absurd (Option.some.inj htk) hforeign
    · exact ⟨o, rfl, .inl (h.spared hwait hok.1 hk hs)⟩
  · obtain ⟨ans, rfl, hend⟩ := step_of_task htask hs
    have hrun : runTask ans (.triggerError c.fd) p.machine = .ok (some (.call (.clientError k))) p.machine := by
      rw [runTask, triggerError_run, (h.settled.owned.held k c h.live).error]
    rw [hrun] at hend
    cases hend
    exact ⟨o, rfl, .inl ⟨hsettled, h.live, h.conn, h.sent, .inr (.inr (.inl rfl))⟩⟩
  · obtain ⟨ans, rfl, hend⟩ := step_of_task htask hs
    exact ⟨o, rfl, .inr (h.close ans hend hsettled)⟩
  · exact absurd htask hok.2.2.1

theorem run_composed {is : List Input} (h : Composed k c x base p q) (hok : Run.Along step (Composing k) p is)
    (hlen : (q ++ is.flatMap (·.written k)).length < 2 ^ 31) (hs : is.foldlM step p = .ok p') :
    Composed k c x base p' (q ++ is.flatMap (·.written k)) := by
  have hstep : ∀ (p : Process) q i p', (q.length < 2 ^ 31 → Composed k c x base p q) → Composing k p i →
      p.step i = .ok p' → (q ++ i.written k).length < 2 ^ 31 → Composed k c x base p' (q ++ i.written k) :=
    fun p q i p' h hok hs hlen => step_composed (h (by rw [List.length_append] at hlen; omega)) hok hlen hs
  have hrun := Run.follows (R := fun p q => q.length < 2 ^ 31 → Composed k c x base p q) hstep is p p' q
    (fun _ => h) hok hs
  rw [List.foldl_append_eq_append, ← List.flatMap_def] at hrun
  exact hrun hlen

theorem run_replying {is : List Input} (h : Replying k c x base o p) (hlen : (o.accepted ++ o.rest).length < 2 ^ 31)
    (hok : Run.Along step (Answering k) p is) (hs : is.foldlM step p = .ok p') :
    ∃ o', o'.accepted ++ o'.rest = o.accepted ++ o.rest ∧ (Replying k c x base o' p' ∨ Closed k x base o' p') := by
  refine Run.invariant (I := fun p => ∃ o', o'.accepted ++ o'.rest = o.accepted ++ o.rest ∧
    (Replying k c x base o' p ∨ Closed k x base o' p)) ?_ is p p' ⟨o, rfl, .inl h⟩ hok hs
  rintro p i p' ⟨o₁, hwhole, hr | hc⟩ hok hs
  · have hrest : o₁.rest.length < 2 ^ 31 := by
      rw [← hwhole, List.length_append] at hlen
      omega
    obtain ⟨o', hwhole', h'⟩ := step_replying hr hrest hok hs
    exact ⟨o', hwhole'.trans hwhole, h'⟩
  · obtain ⟨c₁, hc₁, hopen⟩ := hok.2.2.2
    obtain ⟨c₂, hc₂, hclosed⟩ := hc.closed
    obtain rfl := Option.some.inj (hc₁.symm.trans hc₂)
    exact nomatch hopen.symm.trans hclosed

theorem step_finish {ans : Answers} (h : Composed k c x base p q) (hlen : q.length < 2 ^ 31)
    (hs : p.step (.call k .finish ans) = .ok p') :
    ∃ o, o.accepted ++ o.rest = q ∧ Replying k c x base o p' := by
  have hd : p.Considerate (.call k .finish ans) := fun j c' hj hc' hclosed => by
    obtain rfl : k = j := Option.some.inj hj
    obtain rfl := Option.some.inj (hc'.symm.trans h.live.1)
    exact nomatch h.live.2.symm.trans hclosed
  have hsettled := (step_settled h.settled hd hs).1
  obtain ⟨e, ans, f, hi, -⟩ | ⟨j, method, ans', hi, -, hend⟩ | ⟨ans, t, hi, -⟩ := step_cases hs
  · cases hi
  · cases hi
    have hclient : client k p.machine = .ok c p.machine := by rw [client, h.live.1]
    have hrun : runMethod ans k .finish p.machine = writeBuffer ans c.fd c.buffer (.ended k) p.machine :=
      bind_ok hclient
    rw [hrun] at hend
    have hsent : p.machine.kernel.sent x = base ++ (Outbox.new q).accepted := h.sent.trans (List.append_nil _).symm
    exact ⟨_, Outbox.offer_whole (.new q) _,
      replying_writeBuffer h.settled h.live h.conn ⟨_, h.stores⟩ rfl hsent hlen hend hsettled⟩
  · cases hi

/-- A request is delivered with the buffer empty. -/
theorem delivered {server : Int} {before : List Input} {req : Request}
    (hbefore : Run.Along step ConsiderateSoFar (initial server) before)
    (hs : before.foldlM step (initial server) = .ok p) (htask : p.task = some (.handler k req))
    (hlive : p.machine.Live k c) :
    ∃ x, p.machine.kernel.conn c.fd = some x ∧ Composed k c x (p.machine.kernel.sent x) p [] := by
  have hsettled : p.Settled := Run.invariant (I := Settled)
    (fun _ _ _ hp hd hs => (step_settled hp (considerate_of_soFar hp hd) hs).1) before _ p
    (initial_settled server) hbefore hs
  obtain ⟨x, hx⟩ := Option.isSome_iff_exists.1 (hsettled.owned.held k c hlive).isOpen
  obtain ⟨c', hc', hstores⟩ := (run_stands hs).task _ htask
  obtain rfl := Option.some.inj (hc'.symm.trans hlive.1)
  exact ⟨x, hx, hsettled, hlive, hx, rfl, hstores⟩

/-- **The bytes sent for a response are the bytes written**, in every run in which nothing is done for the client
between the delivery of the request and `end` but the handler's calls of `write`: they are sent in order while the
response goes on, and all of them are sent when the callback of `end` is called. -/
theorem response_is_written (server : Int) {before pre post : List Input} {p₀ p₁ p₂ p₃ : Process} {req : Request}
    {ans : Answers} (hbefore : Run.Along step ConsiderateSoFar (initial server) before)
    (h₀ : before.foldlM step (initial server) = .ok p₀) (htask : p₀.task = some (.handler k req))
    (hlive : p₀.machine.Live k c) (hpre : Run.Along step (Composing k) p₀ pre) (h₁ : pre.foldlM step p₀ = .ok p₁)
    (hlen : (pre.flatMap (·.written k)).length < 2 ^ 31) (h₂ : p₁.step (.call k .finish ans) = .ok p₂)
    (hpost : Run.Along step (Answering k) p₂ post) (h₃ : post.foldlM step p₂ = .ok p₃) :
    ∃ x, p₀.machine.kernel.conn c.fd = some x ∧
      ∃ sent, p₃.machine.kernel.sent x = p₀.machine.kernel.sent x ++ sent ∧ sent <+: pre.flatMap (·.written k) ∧
        (p₃.task = some (.invoke (.ended k) 0) → sent = pre.flatMap (·.written k)) := by
  obtain ⟨x, hx, h⟩ := delivered hbefore h₀ htask hlive
  have hcomposed : Composed k c x _ p₁ (pre.flatMap (·.written k)) := run_composed h hpre hlen h₁
  obtain ⟨o, hwhole, hr⟩ := step_finish hcomposed hlen h₂
  obtain ⟨o', hwhole', h'⟩ := run_replying hr (hwhole ▸ hlen) hpost h₃
  have hall := hwhole'.trans hwhole
  refine ⟨x, hx, o'.accepted, h'.elim (·.sent) (·.sent), ⟨o'.rest, hall⟩, fun hended => ?_⟩
  rcases h' with hr' | hc'
  · rcases hr'.stage with hwait | htask' | htask' | ⟨hrest, -⟩
    · exact absurd rfl (hwait.task _ hended)
    · exact nomatch hended.symm.trans htask'
    · exact nomatch hended.symm.trans htask'
    · rw [← hall, hrest, List.append_nil]
  · exact nomatch hended.symm.trans hc'.task

end

/-- A connection on fd 5, and a request on it. -/
def requested : List Input :=
  [.event ⟨3, epollIn⟩ ⟨.data [], [], some 5⟩, .go .silent,
    .event ⟨5, epollIn⟩ ⟨.data (@V8.utf8 ascii (js "GET / HTTP/1.1\r\n\r\n")), [], none⟩, .go .silent]

/-- The handler is called, something happens, and the handler writes a `y`. -/
def replied (between : List Input) : List Input :=
  requested ++ .go .silent :: between ++
  [.call 0 (.write (js "y")) .silent, .call 0 .finish ⟨.data [], [.accept 9], none⟩]

/-- A reply of two writes, of which the first `send` takes one byte. -/
theorem response_is_written_two : ∃ p₀ p₁ p₂ p₃, requested.foldlM (@step ascii) (@initial ascii 3) = .ok p₀ ∧
    [Input.go .silent, .call 0 (.write (js "o")) .silent, .call 0 (.write (js "k")) .silent].foldlM
    (@step ascii) p₀ = .ok p₁ ∧
    @step ascii p₁ (.call 0 .finish ⟨.data [], [.accept 0], none⟩) = .ok p₂ ∧
    [Input.event ⟨5, epollOut⟩ ⟨.data [], [.accept 9], none⟩].foldlM (@step ascii) p₂ = .ok p₃ ∧
    p₃.task = some (.invoke (.ended 0) 0) ∧ ∃ x sent, p₃.machine.kernel.sent x = p₀.machine.kernel.sent x ++ sent ∧
    sent = @V8.utf8 ascii (js "ok") := by
  obtain ⟨p₀, h₀, h⟩ := Run.exists_of_any (x := requested.foldlM (@step ascii) (@initial ascii 3))
    (p := fun p₀ : Process => decide (p₀.task = some (.handler 0 (Helper.parseHeader (js "GET / HTTP/1.1\r\n\r\n")))) &&
      (p₀.machine.clients 0).any (fun c : Client => !c.closed) &&
      decide (Run.Along (@step ascii) (Composing 0) p₀
        [.go .silent, .call 0 (.write (js "o")) .silent, .call 0 (.write (js "k")) .silent]) &&
      ([Input.go .silent, .call 0 (.write (js "o")) .silent, .call 0 (.write (js "k")) .silent].foldlM
        (@step ascii) p₀).toOption.any fun p₁ : Process =>
      (@step ascii p₁ (.call 0 .finish ⟨.data [], [.accept 0], none⟩)).toOption.any fun p₂ : Process =>
      decide (Run.Along (@step ascii) (Answering 0) p₂ [.event ⟨5, epollOut⟩ ⟨.data [], [.accept 9], none⟩]) &&
      ([Input.event ⟨5, epollOut⟩ ⟨.data [], [.accept 9], none⟩].foldlM (@step ascii) p₂).toOption.any
        fun p₃ : Process =>
      decide (p₃.task = some (.invoke (.ended 0) 0)))
    (by decide +kernel)
  simp only [Bool.and_eq_true, decide_eq_true_eq] at h
  obtain ⟨⟨⟨htask, hopen⟩, hpre⟩, h⟩ := h
  obtain ⟨c, hc, hclosed⟩ := (Option.any_eq_true _ _).1 hopen
  obtain ⟨p₁, h₁, h⟩ := Run.exists_of_any h
  obtain ⟨p₂, h₂, h⟩ := Run.exists_of_any h
  simp only [Bool.and_eq_true, decide_eq_true_eq] at h
  obtain ⟨p₃, h₃, hended⟩ := Run.exists_of_any h.2
  have hended : p₃.task = some (.invoke (.ended 0) 0) := of_decide_eq_true hended
  obtain ⟨x, -, sent, hsent, -, hall⟩ :=
    @response_is_written ascii 0 c 3 _ _ _ p₀ p₁ p₂ p₃ _ _ (by decide +kernel) h₀ htask
    ⟨hc, by simpa using hclosed⟩ hpre h₁ (by decide +kernel) h₂ h.1 h₃
  exact ⟨p₀, p₁, p₂, p₃, h₀, h₁, h₂, h₃, hended, x, sent, hsent, (hall hended).trans (by decide +kernel)⟩

/-- **What a client sends after its request is part of the response**: it sends an `x`, and the response is `xy`. -/
theorem response_with_input : ∃ p p',
    (replied [.event ⟨5, epollIn⟩ ⟨.data (@V8.utf8 ascii (js "x")), [], none⟩]).foldlM (@step ascii)
    (@initial ascii 3) =
      .ok p ∧ (replied []).foldlM (@step ascii) (@initial ascii 3) = .ok p' ∧
    p.task = some (.invoke (.ended 0) 0) ∧ p'.task = some (.invoke (.ended 0) 0) ∧
    p.machine.kernel.sent 1 = @V8.utf8 ascii (js "xy") ∧ p'.machine.kernel.sent 1 = @V8.utf8 ascii (js "y") := by
  have hrun : ∀ between text, ((replied between).foldlM (@step ascii) (@initial ascii 3)).toOption.any (fun p =>
      decide (p.task = some (.invoke (.ended 0) 0) ∧ p.machine.kernel.sent 1 = text)) = true →
      ∃ p, (replied between).foldlM (@step ascii) (@initial ascii 3) = .ok p ∧
        p.task = some (.invoke (.ended 0) 0) ∧ p.machine.kernel.sent 1 = text := fun between text h => by
    obtain ⟨p, hp, h⟩ := Run.exists_of_any h
    exact ⟨p, hp, of_decide_eq_true h⟩
  obtain ⟨p, hp, h1, h2⟩ := hrun [.event ⟨5, epollIn⟩ ⟨.data (@V8.utf8 ascii (js "x")), [], none⟩]
    (@V8.utf8 ascii (js "xy")) (by decide +kernel)
  obtain ⟨p', hp', h1', h2'⟩ := hrun [] (@V8.utf8 ascii (js "y")) (by decide +kernel)
  exact ⟨p, p', hp, hp', h1, h1', h2, h2'⟩

end Process
end V8h
