import V8h.HttpResponse
import V8h.SocketWrites
/-!
# HttpFlush — a response sent in parts

`write` puts its text behind what the client's buffer holds; `flush` and `end` offer the buffer to the kernel and, for
what is left, register themselves in the one place the service has for the fd.  Whoever is registered sends from the
front of the buffer, so a `flush` that is replaced by another or by `end` loses its callback, which does nothing, and no
byte (`response_in_parts`).
-/
namespace V8h

open Machine Effect Socket
open Watch (Gentle gentle_replies)

/-- Where a response is: nothing was offered to the kernel, `flush` was called, `end` was, or the callback of `end`. -/
inductive Stage where
  | composing
  | flushing
  | ending
  | finished
deriving DecidableEq

/-- A process, and where the response of one of its clients is. -/
structure Response where
  process : Process
  stage   : Stage

instance (ans : Answers) : Decidable (Gentle ans) :=
  decidable_of_iff (∀ s ∈ ans.sends, (match s with | .error e => decide (e = .again) | .accept _ => true) = true) <| by
    refine ⟨fun h e he => of_decide_eq_true (h _ he), fun h s hs => ?_⟩
    cases s with
    | accept n => rfl
    | error e => exact decide_eq_true (h e hs)

section

variable [V8]

def Stage.next (k : Nat) (p : Process) (i : Input) (stage : Stage) : Stage :=
  match i with
  | .call j .flush _  => if j = k ∧ stage = .composing then .flushing else stage
  | .call j .finish _ => if j = k then .ending else stage
  | .go _             => if p.task = some (.invoke (.ended k) 0) then .finished else stage
  | _                 => stage

namespace Process

/-- With the text the buffer of client `k` has less than 2^31 bytes, and its counters are below 2^62. -/
def Roomy (p : Process) (k : Nat) (text : JsString) : Prop :=
  ∀ c ∈ p.machine.clients k, ∀ b ∈ (p.machine.heap c.buffer).native,
    b.size + (V8.utf8 text).length < 2 ^ 31 ∧ b.used + (V8.utf8 text).length < 2 ^ 62

instance (p : Process) (k : Nat) (text : JsString) : Decidable (p.Roomy k text) := by
  unfold Roomy
  infer_instance

end Process

namespace Response

/-- One input. -/
def step (k : Nat) (r : Response) (i : Input) : Except Refusal Response := do
  return ⟨← r.process.step i, r.stage.next k r.process i⟩

theorem step_of_ok {k : Nat} {r : Response} {p' : Process} {i : Input} (h : r.process.step i = .ok p') :
    r.step k i = .ok ⟨p', r.stage.next k r.process i⟩ := by
  rw [step, h]
  rfl

theorem step_ok {k : Nat} {r r' : Response} {i : Input} (h : r.step k i = .ok r') :
    ∃ p', r.process.step i = .ok p' ∧ r' = ⟨p', r.stage.next k r.process i⟩ := by
  unfold step at h
  cases hp : r.process.step i with
  | ok p' =>
    rw [hp] at h
    cases h
    exact ⟨p', rfl, rfl⟩
  | error e =>
    rw [hp] at h
    cases h

/-- What is done for client `k`: its handler is called and calls `write`, `flush` and `end`; from the first `flush` or
`end` on the events of its fd are dispatched, without a hangup and without a `send` that fails; after `end` nothing more
is called. -/
def Admits (k : Nat) (r : Response) : Input → Prop
  | .call _ (.write text) _ => (r.stage = .composing ∨ r.stage = .flushing) ∧ r.process.Roomy k text
  | .call _ .flush ans      => (r.stage = .composing ∨ r.stage = .flushing) ∧ Gentle ans
  | .call _ .finish ans     => (r.stage = .composing ∨ r.stage = .flushing) ∧ Gentle ans
  | .call _ .close _        => False
  | .event e ans            => r.stage ≠ .composing ∧ e.isError = false ∧ Gentle ans
  | .go _                   =>
    (r.stage = .composing → r.process.Handles k) ∧ r.process.task ≠ some (.call (.clientError k))

/-- The response goes on, and the rest of the process leaves the client alone. -/
def Polite (k : Nat) (r : Response) (i : Input) : Prop :=
  r.stage ≠ .finished ∧ r.process.ConsiderateSoFar i ∧ (r.process.actor i = some k → r.Admits k i)

instance (k : Nat) (r : Response) : ∀ i, Decidable (r.Admits k i)
  | .call _ (.write text) _ => inferInstanceAs (Decidable (_ ∧ r.process.Roomy k text))
  | .call _ .flush ans      => inferInstanceAs (Decidable (_ ∧ Gentle ans))
  | .call _ .finish ans     => inferInstanceAs (Decidable (_ ∧ Gentle ans))
  | .call _ .close _        => .isFalse id
  | .event e ans            => inferInstanceAs (Decidable (_ ∧ e.isError = false ∧ Gentle ans))
  | .go _                   => inferInstanceAs (Decidable ((_ → r.process.Handles k) ∧ _))

instance (k : Nat) (r : Response) (i : Input) : Decidable (r.Polite k i) :=
  inferInstanceAs (Decidable (_ ∧ _ ∧ (_ → r.Admits k i)))

end Response

end

section

variable {m : Machine} {k u : Nat} {c : Client} {q : List UInt8}

/-- An empty buffer has no part of a delimiter in it. -/
theorem condition_empty {delim n : Nat} {d : Buffer} (last : Nat) (hs : m.Stores c.buffer [] u) (hn : 0 < n)
    (hd : (m.heap delim).native = some d) (hd0 : d.size ≠ 0) :
    condition c.buffer (.token delim n last) m = .ok false { m with vars := Function.update m.vars last 0 } := by
  let m₁ : Machine := { m with vars := Function.update m.vars last 0 }
  have hrun : Script.size c.buffer m₁ = .ok 0 m₁ := Script.size_run (m := m₁) hs (by decide)
  obtain ⟨b, hb, hholds, -⟩ := hs
  have hsize : b.size = 0 := hholds.size_eq
  have hfind : Script.partialFindBuffer c.buffer delim (m.vars last) m = .ok 0 m := by
    rw [Script.partialFindBuffer, bind_ok (native_run hb), bind_ok (native_run hd), Buffer.partialFind, if_neg hd0,
      if_pos (by omega), hsize]
    rfl
  have hfound : Script.isFound c.buffer (m₁.vars last) n m₁ = .ok false m₁ := by
    have hnot : ¬ m₁.vars last + (n : Int) ≤ ((0 : Nat) : Int) := by
      rw [show m₁.vars last = 0 from Function.update_self ..]
      omega
    rw [Script.isFound, bind_ok hrun, pure_run, decide_eq_false hnot]
  rw [condition]
  exact (bind_ok rfl).trans ((bind_ok hfind).trans ((bind_ok rfl).trans ((bind_ok rfl).trans hfound)))

/-- **`start` waits for a header**, with the buffer empty, whatever the delimiter holds. -/
theorem Client.start_run (hc : m.clients k = some c) (hs : m.Stores c.buffer q u) (hne : c.buffer ≠ headerDelim)
    (hd : ∃ d, (m.heap headerDelim).native = some d ∧ toUint d.size ≠ 0) : ∃ m' n last,
    Client.start k m = .ok none m' ∧ m'.kernel = m.kernel ∧ m'.clients = m.clients ∧ m'.Stores c.buffer [] 0 ∧
      m'.service.fds c.fd =
        some (.readUntil c.fd c.buffer (.token headerDelim n last) (.token n last (.header k))) := by
  obtain ⟨d, hd, hd0⟩ := hd
  obtain ⟨b, hclear, hholds, hused⟩ := Script.clear_spec hs
  let callback : Callback := .readUntil c.fd c.buffer (.token headerDelim (toUint d.size) m.nextVar)
    (.token (toUint d.size) m.nextVar (.header k))
  let m₁ : Machine := { m.setBuffer c.buffer b with
    vars := Function.update m.vars m.nextVar 0, nextVar := m.nextVar + 1
    service := (m.service.pollIn c.fd callback).1 }
  have hd₁ : ((m.setBuffer c.buffer b).heap headerDelim).native = some d := by
    rw [setBuffer_heap_of_ne _ _ _ hne.symm]
    exact hd
  have hempty : m₁.Stores c.buffer [] 0 := stores_setBuffer hholds (Nat.le_of_eq hused)
  have hsize : d.size ≠ 0 := by
    intro h
    rw [h] at hd0
    exact hd0 rfl
  have hcond := condition_empty m.nextVar hempty (Nat.pos_of_ne_zero hd0) hd₁ hsize
  refine ⟨{ m₁ with vars := Function.update m₁.vars m.nextVar 0 }, toUint d.size, m.nextVar, ?_, rfl, rfl, hempty, ?_⟩
  · have hread : Socket.readToken c.fd c.buffer headerDelim (.header k) (m.setBuffer c.buffer b) =
        .ok none { m₁ with vars := Function.update m₁.vars m.nextVar 0 } := by
      have hrun : Script.size headerDelim (m.setBuffer c.buffer b) = .ok (toUint d.size) (m.setBuffer c.buffer b) := by
        rw [Script.size, bind_ok (native_run hd₁), pure_run]
      rw [Socket.readToken, bind_ok hrun, if_neg hd0]
      exact (bind_ok rfl).trans ((bind_ok rfl).trans ((bind_ok hcond).trans rfl))
    exact (bind_ok (client_run hc)).trans ((bind_ok hclear).trans hread)
  · exact (congrFun (Service.pollIn_fds ..) c.fd).trans (Function.update_self ..)

end

namespace Process

section

variable [V8]

/-- What the client was sent, and what its buffer holds. -/
structure Output (k : Nat) (c : Client) (x : Nat) (base : List UInt8) (o : Outbox UInt8) (p : Process) : Prop where
  settled : p.Settled
  live    : p.machine.Live k c
  conn    : p.machine.kernel.conn c.fd = some x
  sent    : p.machine.kernel.sent x = base ++ o.accepted
  stores  : ∃ u, p.machine.Stores c.buffer o.rest u
  sound   : o.failed = false
  short   : o.rest.length < 2 ^ 31

/-- Nothing is registered that sends. -/
structure Rests (k : Nat) (c : Client) (p : Process) : Prop where
  fds  : p.machine.service.fds c.fd = some .empty
  task : ∀ t ∈ p.task, t.Foreign k

/-- Something is left, and what sends it is registered. -/
structure Pends (k : Nat) (c : Client) (callback : Cont) (o : Outbox UInt8) (p : Process) : Prop where
  rest : o.rest ≠ []
  fds  : p.machine.service.fds c.fd = some (.writeBuffer c.fd c.buffer callback)
  task : ∀ t ∈ p.task, t.Foreign k

/-- Nothing is left, and the callback is called next. -/
structure Calls (c : Client) (callback : Cont) (o : Outbox UInt8) (p : Process) : Prop where
  rest : o.rest = []
  fds  : p.machine.service.fds c.fd = some .empty
  task : p.task = some (.invoke callback 0)

variable {k x : Nat} {c : Client} {base q : List UInt8} {o : Outbox UInt8} {p p' : Process} {i : Input}
  {callback : Cont} {ans : Answers}

omit [V8] in
/-- **`writeBuffer`**, called by `flush` or `end`, or from the closure it registered: whoever was registered before is
replaced. -/
theorem Output.writeBuffer (h : Output k c x base o p) (callback : Cont) (byUser : Bool) (hans : Gentle ans) : ∃ p',
    ended byUser (Socket.writeBuffer ans c.fd c.buffer callback p.machine) = .ok p' ∧
      (p'.Settled → Output k c x base (o.offer (replies true ans.sends)) p') ∧
      (Pends k c callback (o.offer (replies true ans.sends)) p' ∨
        Calls c callback (o.offer (replies true ans.sends)) p') := by
  obtain ⟨u, hst⟩ := h.stores
  have ho : Offering c.fd c.buffer (fun _ => base) u o p.machine :=
    ⟨hst, fun y hy => by rw [← Option.some.inj (h.conn.symm.trans hy)]; exact h.sent⟩
  obtain ⟨m₁, hsp, ho₁, hrun⟩ := writeBuffer_run ans callback ho h.sound h.short
  have hopen : (p.machine.kernel.conn c.fd).isSome = true := by rw [h.conn]; rfl
  have hsound := Outbox.offer_sound o _ (gentle_replies hans) h.sound
  have hshort := Nat.lt_of_le_of_lt (Outbox.offer_rest o (replies true ans.sends)).length_le h.short
  rw [hopen] at ho₁ hrun
  generalize o.offer (replies true ans.sends) = o' at ho₁ hrun hsound hshort ⊢
  have hconn : m₁.kernel.conn c.fd = some x := (congrFun hsp.conn c.fd).trans h.conn
  have hlive : m₁.Live k c := ⟨(congrFun hsp.clients k).trans h.live.1, h.live.2⟩
  have hplain : (m₁.heap c.buffer).temporary = false := hsp.temporary.trans (h.settled.owned.sound.plain c.buffer)
  have hempty : m₁.service.fds c.fd = some .empty := by
    rw [hsp.service, show (outEmpty p.machine c.fd).service = (p.machine.service.pollOut c.fd .empty).1 from rfl,
      Service.pollOut_fds, Function.update_self]
  by_cases hrest : o'.rest = []
  · have hcall : (do release c.buffer
                     return some (if o'.rest = [] then .invoke callback 0 else .triggerError c.fd) :
        M (Option Task)) m₁ = .ok (some (.invoke callback 0)) m₁ := by
      rw [if_pos hrest, bind_ok (release_plain hplain), pure_run]
    rw [if_pos (.inl hrest), hcall] at hrun
    rw [hrun]
    exact ⟨_, rfl, fun hp => ⟨hp, hlive, hconn, ho₁.sent x hconn, ⟨u, ho₁.stores⟩, hsound, hshort⟩,
      .inr ⟨hrest, hempty, rfl⟩⟩
  · have hnot : ¬ o'.ended := fun h => h.elim hrest fun hf => nomatch hsound.symm.trans hf
    rw [if_neg hnot] at hrun
    rw [hrun]
    refine ⟨_, rfl, fun hp => ⟨hp, hlive, hconn, ho₁.sent x hconn, ⟨u, ho₁.stores⟩, hsound, hshort⟩,
      .inl ⟨hrest, ?_, fun _ ht => nomatch ht⟩⟩
    exact (congrFun (Service.pollOut_fds ..) c.fd).trans (Function.update_self ..)

/-- Whoever acts for others leaves the response alone. -/
theorem Output.spared (h : Output k c x base o p) (hd : p.ConsiderateSoFar i) (hk : p.actor i ≠ some k)
    (hs : p.step i = .ok p') : Output k c x base o p' ∧
      p'.machine.service.fds c.fd = p.machine.service.fds c.fd ∧ ∀ t ∈ p'.task, t.Foreign k := by
  obtain ⟨hsettled, hspares, hcalls⟩ := step_settled h.settled (considerate_of_soFar h.settled hd) hs
  obtain ⟨hu, hc⟩ := hspares k c hk h.live
  obtain ⟨u, hstores⟩ := h.stores
  have hheap := hu.heap c.buffer (List.mem_cons_self ..)
  exact ⟨⟨hsettled, ⟨hc.trans h.live.1, h.live.2⟩, hu.conn.trans h.conn, (hu.sent x h.conn).trans h.sent,
    ⟨u, hstores.congr (by rw [hheap])⟩, h.sound, h.short⟩, hu.fds, fun t ht => hcalls t ht k c hk h.live⟩

/-- `write` adds behind what is left. -/
theorem Output.write (h : Output k c x base o p) {text : JsString} (hroom : p.Roomy k text) : ∃ p',
    ended true (runMethod ans k (.write text) p.machine) = .ok p' ∧ p'.task = none ∧
      p'.machine.service = p.machine.service ∧
      (p'.Settled → Output k c x base ⟨o.accepted, o.rest ++ V8.utf8 text, false⟩ p') := by
  obtain ⟨u, b, hb, hholds, -⟩ := h.stores
  obtain ⟨hsize, hused⟩ := hroom c h.live.1 b hb
  rw [hholds.size_eq] at hsize
  obtain ⟨b', hrun, hst⟩ := runMethod_write ans text h.live ⟨b, hb, hholds, Nat.le_refl _⟩ (by omega)
  rw [hrun]
  exact ⟨_, rfl, rfl, rfl, fun hp => ⟨hp, h.live, h.conn, h.sent, ⟨_, hst⟩, rfl, by rwa [List.length_append]⟩⟩

/-- **An event of the client's fd**: what is registered offers what is left. -/
theorem Output.event {e : Event} (h : Output k c x base o p) (hslot : Rests k c p ∨ Pends k c callback o p)
    (hk : p.actor (.event e ans) = some k) (herr : e.isError = false) (hans : Gentle ans)
    (hs : p.step (.event e ans) = .ok p') (hsettled : p'.Settled) :
    Output k c x base (o.offer (replies true ans.sends)) p' ∧
      (Pends k c callback (o.offer (replies true ans.sends)) p' ∨
        Calls c callback (o.offer (replies true ans.sends)) p') := by
  obtain ⟨e, ans, f, hi, -, hf, hend⟩ | ⟨j, method, ans, hi, -⟩ | ⟨ans, t, hi, -⟩ := step_cases hs
  · cases hi
    have hfk : f.client = some k := by simpa only [actor, hf, Option.bind_some] using hk
    have hreg := (callbackOf_client h.settled h.live hf hfk).resolve_left fun he =>
      Bool.false_ne_true (herr.symm.trans he.1)
    rcases hslot with hrests | hpends
    · rw [hrests.fds] at hreg
      cases hreg
      cases hfk
    · rw [hpends.fds] at hreg
      cases hreg
      obtain ⟨p₁, hp₁, hout, hnext⟩ := h.writeBuffer callback false hans
      obtain rfl := Except.ok.inj (hend.symm.trans hp₁)
      exact ⟨hout hsettled, hnext⟩
  · cases hi
  · cases hi

/-- The callback of `end` was called: everything is sent, `close` was run if the client is to be closed and `start` was
run otherwise, and nothing is left of `end`. -/
structure Over (k : Nat) (c : Client) (x : Nat) (base q : List UInt8) (p : Process) : Prop where
  sent   : p.machine.kernel.sent x = base ++ q
  task   : p.task = none
  gone   : ∀ fd fd' buffer, p.machine.service.fds fd ≠ some (.writeBuffer fd' buffer (.ended k))
  closed : c.isClosed = true → p.machine.clients k = some { c with closed := true } ∧
    p.machine.kernel.conn c.fd = none ∧ p.machine.service.fds c.fd = none
  start  : c.isClosed = false → p.machine.Live k c ∧ p.machine.kernel.conn c.fd = some x ∧
    p.machine.Stores c.buffer [] 0 ∧ ∃ n last, p.machine.service.fds c.fd =
      some (.readUntil c.fd c.buffer (.token headerDelim n last) (.token n last (.header k)))

omit [V8] in
/-- What an owned state has registered for `end` is registered for the client's fd. -/
theorem gone_of_fds {c' : Client} (hp : p.Settled) (hc : p.machine.clients k = some c')
    (hfds : ∀ buffer, p.machine.service.fds c'.fd ≠ some (.writeBuffer c'.fd buffer (.ended k))) (fd fd' : Int)
    (buffer : Nat) : p.machine.service.fds fd ≠ some (.writeBuffer fd' buffer (.ended k)) := by
  intro hf
  obtain ⟨rfl, j, c'', hj, hc'', rfl, -⟩ := hp.owned.sound.callbacks fd _ hf
  obtain rfl : k = j := Option.some.inj hj
  obtain rfl := Option.some.inj (hc.symm.trans hc'')
  exact hfds buffer hf

/-- **The callback of `end`.** -/
theorem Output.ended (h : Output k c x base o p) (hcalls : Calls c (.ended k) o p) (hs : p.step (.go ans) = .ok p')
    (hsettled : p'.Settled) : Over k c x base (o.accepted ++ o.rest) p' := by
  obtain ⟨ans', hi, hend⟩ := step_of_task hcalls.task hs
  cases hi
  have hsent : p.machine.kernel.sent x = base ++ (o.accepted ++ o.rest) := by rw [hcalls.rest, List.append_nil, h.sent]
  have hclient := client_run h.live.1
  cases hc : c.isClosed with
  | true =>
    have hrun : runTask ans (.invoke (.ended k) 0) p.machine = (do Client.close k; return none : M (Option Task))
        p.machine := by
      rw [runTask, runCont, Client.onEnded, bind_ok hclient, hc]
      rfl
    have hleads : Leads p.machine (do Client.close k; return none : M (Option Task)) (fun r m' => r = none ∧
        m'.kernel.sent = p.machine.kernel.sent ∧ m'.clients k = some { c with closed := true } ∧
        m'.kernel.conn c.fd = none ∧ m'.service.fds c.fd = none) (fun e _ => ∃ t, e = .trap t) :=
      (close_leads h.live.1).bind fun _ _ _ h' => .of_ok rfl ⟨rfl, h'⟩
    rw [hrun] at hend
    cases hr : (do Client.close k; return none : M (Option Task)) p.machine with
    | ok r m' =>
      rw [hr] at hend
      cases hend
      obtain ⟨rfl, hsame, hclosed, hconn, hfds⟩ := hleads.ok hr
      refine ⟨(congrFun hsame x).trans hsent, rfl, gone_of_fds hsettled hclosed fun b hf => ?_,
        fun _ => ⟨hclosed, hconn, hfds⟩, fun hf => absurd (hf.symm.trans hc) Bool.false_ne_true⟩
      cases hfds.symm.trans hf
    | error e m' =>
      obtain ⟨t, rfl⟩ := hleads.error hr
      rw [hr] at hend
      cases hend
  | false =>
    have hne : c.buffer ≠ headerDelim := by
      have := (h.settled.owned.sound.buffers k c h.live.1 c.buffer (List.mem_cons_self ..)).1
      rintro heq
      rw [heq] at this
      exact absurd this (by decide)
    obtain ⟨u, hst⟩ := h.stores
    obtain ⟨m', n, last, hstart, hk, hcl, hempty, hfds⟩ :=
      Client.start_run h.live.1 hst hne h.settled.owned.sound.delim
    have hrun : runTask ans (.invoke (.ended k) 0) p.machine = .ok none m' := by
      rw [runTask, runCont, Client.onEnded, bind_ok hclient, hc]
      exact hstart
    rw [hrun] at hend
    cases hend
    have hlive : m'.clients k = some c := (congrFun hcl k).trans h.live.1
    refine ⟨?_, rfl, gone_of_fds hsettled hlive fun b hf => ?_,
      (fun hf => absurd (hc.symm.trans hf) Bool.false_ne_true), fun _ => ⟨⟨hlive, h.live.2⟩, ?_, hempty, n, last, hfds⟩⟩
    · rw [hk]
      exact hsent
    · cases hfds.symm.trans hf
    · rw [hk]
      exact h.conn

/-- What is sent of what was written, in each stage of the response. -/
def Delivers (k : Nat) (c : Client) (x : Nat) (base : List UInt8) : Stage → List UInt8 → Process → Prop
  | .composing, q, p => Output k c x base (.new q) p
  | .flushing, q, p  => ∃ o, o.accepted ++ o.rest = q ∧ Output k c x base o p ∧
    ((Rests k c p ∨ Pends k c (.flushed k) o p) ∨ Calls c (.flushed k) o p)
  | .ending, q, p    => ∃ o, o.accepted ++ o.rest = q ∧ Output k c x base o p ∧
    (Pends k c (.ended k) o p ∨ Calls c (.ended k) o p)
  | .finished, q, p      => Over k c x base q p

variable {stage : Stage}

omit [V8] in
theorem Delivers.output (h : Delivers k c x base stage q p) (hstage : stage ≠ .finished) :
    ∃ o, o.accepted ++ o.rest = q ∧ Output k c x base o p := by
  cases stage with
  | composing => exact ⟨_, rfl, h⟩
  | flushing =>
    obtain ⟨o, hq, hout, -⟩ := h
    exact ⟨o, hq, hout⟩
  | ending =>
    obtain ⟨o, hq, hout, -⟩ := h
    exact ⟨o, hq, hout⟩
  | finished => exact absurd rfl hstage

omit [V8] in
theorem next_go {t : Task} (ht : p.task = some t) (hne : t ≠ .invoke (.ended k) 0) :
    stage.next k p (.go ans) = stage :=
  if_neg fun h => hne (Option.some.inj (ht.symm.trans h))

/-- An input that is not for the client is not a call of its methods, and does not call what is left for it. -/
theorem next_of_actor (stage : Stage) (hk : p.actor i ≠ some k) : stage.next k p i = stage ∧ i.written k = [] := by
  cases i with
  | event e ans => exact ⟨rfl, rfl⟩
  | go ans =>
    refine ⟨if_neg fun ht => hk ?_, rfl⟩
    simp only [actor, ht, Option.bind_some]
    rfl
  | call j method ans =>
    have hj : j ≠ k := fun he => hk (congrArg some he)
    cases method with
    | write text => exact ⟨rfl, if_neg hj⟩
    | flush => exact ⟨if_neg fun h => hj h.1, rfl⟩
    | finish => exact ⟨if_neg hj, rfl⟩
    | close => exact ⟨rfl, rfl⟩

theorem Delivers.spared (h : Delivers k c x base stage q p) (hstage : stage ≠ .finished) (hd : p.ConsiderateSoFar i)
    (hk : p.actor i ≠ some k) (hs : p.step i = .ok p') : Delivers k c x base stage q p' := by
  -- the callback that is called next is the client's
  have hnot : ∀ {callback o}, Calls c callback o p → callback.client ≠ some k := fun hcalls hclient => by
    obtain ⟨ans, rfl, -⟩ := step_of_task hcalls.task hs
    refine hk ?_
    simp only [actor, hcalls.task, Option.bind_some]
    exact hclient
  cases stage with
  | composing => exact (Output.spared h hd hk hs).1
  | flushing =>
    obtain ⟨o, hq, hout, (hrests | hpends) | hcalls⟩ := h
    · obtain ⟨hout', hfds, htask⟩ := hout.spared hd hk hs
      exact ⟨o, hq, hout', .inl (.inl ⟨hfds.trans hrests.fds, htask⟩)⟩
    · obtain ⟨hout', hfds, htask⟩ := hout.spared hd hk hs
      exact ⟨o, hq, hout', .inl (.inr ⟨hpends.rest, hfds.trans hpends.fds, htask⟩)⟩
    · exact absurd rfl (hnot hcalls)
  | ending =>
    obtain ⟨o, hq, hout, hpends | hcalls⟩ := h
    · obtain ⟨hout', hfds, htask⟩ := hout.spared hd hk hs
      exact ⟨o, hq, hout', .inl ⟨hpends.rest, hfds.trans hpends.fds, htask⟩⟩
    · exact absurd rfl (hnot hcalls)
  | finished => exact absurd rfl hstage

theorem Delivers.write {text : JsString} (h : Delivers k c x base stage q p)
    (hstage : stage = .composing ∨ stage = .flushing) (hroom : p.Roomy k text)
    (hs : p.step (.call k (.write text) ans) = .ok p') (hsettled : p'.Settled) :
    Delivers k c x base stage (q ++ V8.utf8 text) p' := by
  obtain ⟨e, ans, f, hi, -⟩ | ⟨j, method, ans, hi, hn, hend⟩ | ⟨ans, t, hi, -⟩ := step_cases hs
  · cases hi
  · cases hi
    obtain ⟨o, -, hout⟩ := h.output (by rcases hstage with rfl | rfl <;> decide)
    have hwrite : ∀ {o : Outbox UInt8}, Output k c x base o p →
        Output k c x base ⟨o.accepted, o.rest ++ V8.utf8 text, false⟩ p' ∧ p'.task = none ∧
          p'.machine.service = p.machine.service := fun hout => by
      obtain ⟨p₁, hp₁, htask, hservice, hout'⟩ := hout.write hroom
      obtain rfl := Except.ok.inj (hend.symm.trans hp₁)
      exact ⟨hout' hsettled, htask, hservice⟩
    rcases hstage with rfl | rfl
    · exact (hwrite h).1
    · obtain ⟨o, rfl, hout, hslot⟩ := h
      obtain ⟨hout', htask, hservice⟩ := hwrite hout
      have hnone : ∀ t ∈ p'.task, t.Foreign k := fun t ht => nomatch htask.symm.trans ht
      refine ⟨_, (List.append_assoc ..).symm, hout', ?_⟩
      rcases hslot with (hrests | hpends) | hcalls
      · exact .inl (.inl ⟨(congrArg (Service.fds · c.fd) hservice).trans hrests.fds, hnone⟩)
      · exact .inl (.inr ⟨fun h => hpends.rest (List.append_eq_nil_iff.1 h).1,
          (congrArg (Service.fds · c.fd) hservice).trans hpends.fds, hnone⟩)
      · exact nomatch hn.symm.trans hcalls.task
  · cases hi

/-- `flush` and `end`: what was registered before is replaced. -/
theorem Output.offered {method : Method} (h : Output k c x base o p) (callback : Cont) (hans : Gentle ans)
    (hs : p.step (.call k method ans) = .ok p') (hsettled : p'.Settled)
    (hrun : runMethod ans k method p.machine = Socket.writeBuffer ans c.fd c.buffer callback p.machine) :
    Output k c x base (o.offer (replies true ans.sends)) p' ∧
      (Pends k c callback (o.offer (replies true ans.sends)) p' ∨
        Calls c callback (o.offer (replies true ans.sends)) p') := by
  obtain ⟨e, ans, f, hi, -⟩ | ⟨j, method, ans, hi, hn, hend⟩ | ⟨ans, t, hi, -⟩ := step_cases hs
  · cases hi
  · cases hi
    obtain ⟨p₁, hp₁, hout, hnext⟩ := h.writeBuffer callback true hans
    rw [hrun] at hend
    obtain rfl := Except.ok.inj (hend.symm.trans hp₁)
    exact ⟨hout hsettled, hnext⟩
  · cases hi

/-- The call that is left for the client. -/
theorem Delivers.go {ans : Answers} (h : Delivers k c x base stage q p) (hk : p.actor (.go ans) = some k)
    (hok : (stage = .composing → p.Handles k) ∧ p.task ≠ some (.call (.clientError k)))
    (hs : p.step (.go ans) = .ok p') (hsettled : p'.Settled) :
    Delivers k c x base (stage.next k p (.go ans)) q p' := by
  -- a call left for the client that is foreign to it is the one that closes it
  have hnot : p.Settled → ¬ ∀ t ∈ p.task, t.Foreign k := fun hp hforeign => by
    cases ht : p.task with
    | none =>
      rw [actor, ht] at hk
      cases hk
    | some t =>
      have htk : t.client = some k := by simpa only [actor, ht, Option.bind_some] using hk
      have hf := hforeign t ht
      cases t with
      | call f =>
        rcases hp.task _ ht with ⟨fd, rfl, -⟩ | ⟨j, c', rfl, -⟩
        · cases htk
        · obtain rfl : j = k := Option.some.inj htk
          exact hok.2 ht
      | invoke callback arg => exact hf htk
      | triggerError fd => cases htk
      | handler j req => exact hf (Option.some.inj htk)
  cases stage with
  | composing =>
    have hh := hok.1 rfl
    rw [Handles] at hh
    split at hh
    · rename_i j req ht
      obtain ⟨ans', hi, hend⟩ := step_of_task ht hs
      cases hi
      cases hend
      rw [next_go ht fun heq => by cases heq]
      exact ⟨hsettled, h.live, h.conn, h.sent, h.stores, h.sound, h.short⟩
    · exact absurd hh id
  | flushing =>
    obtain ⟨o, hq, hout, (hrests | hpends) | hcalls⟩ := h
    · exact absurd hrests.task (hnot hout.settled)
    · exact absurd hpends.task (hnot hout.settled)
    · obtain ⟨ans', hi, hend⟩ := step_of_task hcalls.task hs
      cases hi
      cases hend
      rw [next_go hcalls.task fun heq => by cases heq]
      exact ⟨o, hq, ⟨hsettled, hout.live, hout.conn, hout.sent, hout.stores, hout.sound, hout.short⟩,
        .inl (.inl ⟨hcalls.fds, fun _ ht => by cases ht⟩)⟩
  | ending =>
    obtain ⟨o, rfl, hout, hpends | hcalls⟩ := h
    · exact absurd hpends.task (hnot hout.settled)
    · have hnext : Stage.ending.next k p (.go ans) = .finished := if_pos hcalls.task
      rw [hnext]
      exact hout.ended hcalls hs hsettled
  | finished => exact absurd h.task fun hnone => by rw [actor, hnone] at hk; cases hk

/-- **One step of the response.** -/
theorem step_delivers {r r' : Response} (h : Delivers k c x base r.stage q r.process) (hok : r.Polite k i)
    (hs : r.step k i = .ok r') : Delivers k c x base r'.stage (q ++ i.written k) r'.process := by
  obtain ⟨p', hp, rfl⟩ := Response.step_ok hs
  obtain ⟨p, stage⟩ := r
  obtain ⟨hstage, hd, hadmits⟩ := hok
  obtain ⟨o, hq, hout⟩ := h.output hstage
  have hsettled := (step_settled hout.settled (considerate_of_soFar hout.settled hd) hp).1
  by_cases hk : p.actor i = some k
  · have hadmits := hadmits hk
    cases i with
    | event e ans =>
      obtain ⟨hne, herr, hans⟩ := hadmits
      show Delivers k c x base stage (q ++ []) p'
      rw [List.append_nil]
      cases stage with
      | composing => exact absurd rfl hne
      | flushing =>
        obtain ⟨o, rfl, hout, hslot | hcalls⟩ := h
        · obtain ⟨hout', hnext⟩ := hout.event hslot hk herr hans hp hsettled
          exact ⟨_, Outbox.offer_whole .., hout', hnext.imp .inr id⟩
        · obtain ⟨ans', hi, -⟩ := step_of_task hcalls.task hp
          cases hi
      | ending =>
        obtain ⟨o, rfl, hout, hpends | hcalls⟩ := h
        · obtain ⟨hout', hnext⟩ := hout.event (.inr hpends) hk herr hans hp hsettled
          exact ⟨_, Outbox.offer_whole .., hout', hnext⟩
        · obtain ⟨ans', hi, -⟩ := step_of_task hcalls.task hp
          cases hi
      | finished => exact absurd rfl hstage
    | go ans =>
      show Delivers k c x base _ (q ++ []) p'
      rw [List.append_nil]
      exact h.go hk hadmits hp hsettled
    | call j method ans =>
      obtain rfl : j = k := Option.some.inj hk
      have hclient := client_run hout.live.1
      cases method with
      | write text =>
        simp only [Input.written, if_true]
        exact h.write hadmits.1 hadmits.2 hp hsettled
      | flush =>
        obtain ⟨hout', hnext⟩ := hout.offered (.flushed j) hadmits.2 hp hsettled (bind_ok hclient)
        have hflushing : stage.next j p (.call j .flush ans) = .flushing := by
          rcases hadmits.1 with rfl | rfl <;> simp [Stage.next]
        show Delivers j c x base (stage.next j p (.call j .flush ans)) (q ++ []) p'
        rw [List.append_nil, hflushing, ← hq]
        exact ⟨_, Outbox.offer_whole .., hout', hnext.imp .inr id⟩
      | finish =>
        obtain ⟨hout', hnext⟩ := hout.offered (.ended j) hadmits.2 hp hsettled (bind_ok hclient)
        show Delivers j c x base (if j = j then .ending else stage) (q ++ []) p'
        rw [List.append_nil, if_pos rfl, ← hq]
        exact ⟨_, Outbox.offer_whole .., hout', hnext⟩
      | close => exact absurd hadmits id
  · obtain ⟨hnext, hwritten⟩ := next_of_actor stage hk
    show Delivers k c x base (stage.next k p i) (q ++ i.written k) p'
    rw [hnext, hwritten, List.append_nil]
    exact h.spared hstage hd hk hp

theorem run_delivers {is : List Input} {r r' : Response} (h : Delivers k c x base r.stage [] r.process)
    (hok : Run.Along (Response.step k) (Response.Polite k) r is) (hs : is.foldlM (Response.step k) r = .ok r') :
    Delivers k c x base r'.stage (is.flatMap (·.written k)) r'.process := by
  have hstep : ∀ (r : Response) q i r', Delivers k c x base r.stage q r.process → r.Polite k i → r.step k i = .ok r' →
      Delivers k c x base r'.stage (q ++ i.written k) r'.process := fun _ _ _ _ h hok hs => step_delivers h hok hs
  have hrun := Run.follows (R := fun (r : Response) q => Delivers k c x base r.stage q r.process) hstep is r r' [] h hok
    hs
  rwa [List.foldl_append_eq_append, ← List.flatMap_def] at hrun

/-- **A response in parts is sent whole and in order**, however `write`, `flush` and `end` and the events of the fd
follow each other: nothing before the first `flush` or `end`; at every moment a first part of the bytes written; and the
callback of `end` is called next as soon as the last byte was accepted, and not before.  It runs `close` or `start`, and
nothing of `end` is left that could run one again. -/
theorem response_in_parts (server : Int) {before is : List Input} {p₀ : Process} {r : Response} {req : Request}
    (hbefore : Run.Along step ConsiderateSoFar (initial server) before)
    (h₀ : before.foldlM step (initial server) = .ok p₀) (htask : p₀.task = some (.handler k req))
    (hlive : p₀.machine.Live k c) (hok : Run.Along (Response.step k) (Response.Polite k) ⟨p₀, .composing⟩ is)
    (hs : is.foldlM (Response.step k) ⟨p₀, .composing⟩ = .ok r) :
    ∃ x, p₀.machine.kernel.conn c.fd = some x ∧ ∃ sent rest,
      r.process.machine.kernel.sent x = p₀.machine.kernel.sent x ++ sent ∧ sent ++ rest = is.flatMap (·.written k) ∧
      match r.stage with
      | .composing => sent = []
      | .flushing  => r.process.task ≠ some (.invoke (.ended k) 0) ∧
        r.process.machine.service.fds c.fd ≠ some (.writeBuffer c.fd c.buffer (.ended k))
      | .ending    =>
        (rest ≠ [] ∧ r.process.task ≠ some (.invoke (.ended k) 0) ∧
          r.process.machine.service.fds c.fd = some (.writeBuffer c.fd c.buffer (.ended k))) ∨
        (rest = [] ∧ r.process.task = some (.invoke (.ended k) 0))
      | .finished      => rest = [] ∧ Over k c x (p₀.machine.kernel.sent x) sent r.process := by
  obtain ⟨x, hx, hp₀⟩ := delivered hbefore h₀ htask hlive
  have hout : Output k c x (p₀.machine.kernel.sent x) (.new []) p₀ :=
    ⟨hp₀.settled, hp₀.live, hp₀.conn, hp₀.sent.trans (List.append_nil _).symm, ⟨_, hp₀.stores⟩, rfl, by decide⟩
  have h := run_delivers (r := ⟨p₀, .composing⟩) hout hok hs
  refine ⟨x, hx, ?_⟩
  obtain ⟨p, stage⟩ := r
  cases stage with
  | composing => exact ⟨[], _, h.sent, rfl, rfl⟩
  | flushing =>
    obtain ⟨o, hq, hout, hslot⟩ := h
    refine ⟨o.accepted, o.rest, hout.sent, hq, ?_⟩
    rcases hslot with (hrests | hpends) | hcalls
    · exact ⟨fun ht => hrests.task _ ht rfl, fun hf => nomatch hrests.fds.symm.trans hf⟩
    · exact ⟨fun ht => hpends.task _ ht rfl, fun hf => nomatch hpends.fds.symm.trans hf⟩
    · exact ⟨fun ht => (nomatch hcalls.task.symm.trans ht), fun hf => nomatch hcalls.fds.symm.trans hf⟩
  | ending =>
    obtain ⟨o, hq, hout, hpends | hcalls⟩ := h
    · exact ⟨o.accepted, o.rest, hout.sent, hq, .inl ⟨hpends.rest, fun ht => hpends.task _ ht rfl, hpends.fds⟩⟩
    · exact ⟨o.accepted, o.rest, hout.sent, hq, .inr ⟨hcalls.rest, hcalls.task⟩⟩
  | finished => exact ⟨_, [], h.sent, List.append_nil _, rfl, h⟩

/-- Any number of writes, as long as the block can grow. -/
theorem writes_run (text : JsString) : ∀ (n : Nat) {p : Process} {q : List UInt8} {u : Nat}, p.task = none →
    p.left = false → p.machine.Live k c → p.machine.Stores c.buffer q u →
    3 * (u + n * (V8.utf8 text).length) < 2 ^ 64 → ∃ p' q',
      (List.replicate n (.call k (.write text) ans)).foldlM (Response.step k) ⟨p, .composing⟩ = .ok ⟨p', .composing⟩ ∧
        p'.task = none ∧ p'.left = false ∧ Around c.buffer p.machine p'.machine ∧
        p'.machine.kernel = p.machine.kernel ∧ p'.machine.Stores c.buffer q' (u + n * (V8.utf8 text).length) ∧
        q'.length = q.length + n * (V8.utf8 text).length
  | 0, p, q, u, ht, hl, hc, hs, _ => ⟨p, q, rfl, ht, hl, ⟨fun _ _ => rfl, rfl, rfl, rfl⟩, rfl,
      hs.mono (Nat.le_add_right _ _), by rw [Nat.zero_mul, Nat.add_zero]⟩
  | n + 1, p, q, u, ht, hl, hc, hs, hfits => by
    rw [Nat.add_mul, Nat.one_mul] at hfits ⊢
    obtain ⟨b, hrun, hst⟩ := runMethod_write ans text hc hs (by omega)
    let p₁ : Process := ⟨p.machine.setBuffer c.buffer b, none, true, false⟩
    have hstep : Response.step k ⟨p, .composing⟩ (.call k (.write text) ans) = .ok ⟨p₁, .composing⟩ :=
      Response.step_of_ok (by rw [step_call ht hl, hrun, ended])
    have ha : Around c.buffer p.machine p₁.machine := around_setBuffer ..
    obtain ⟨p', q', hrun', ht', hl', ha', hk', hst', hlen⟩ :=
      writes_run text (p := p₁) n rfl rfl ⟨(congrFun ha.clients k).trans hc.1, hc.2⟩ hst (by omega)
    refine ⟨p', q', ?_, ht', hl', ha.trans ha', hk', ?_, ?_⟩
    · rw [List.replicate_succ]
      exact (Run.foldlM_cons_of_ok hstep _).trans hrun'
    · exact hst'.mono (by omega)
    · rw [List.length_append] at hlen
      omega

end

/-- The handler writes `ab` and flushes, `c` and ends; the kernel takes `a`, then nothing, then the rest. -/
def threeParts : List Input :=
  [.go .silent, .call 0 (.write (js "ab")) .silent, .call 0 .flush ⟨.data [], [.accept 0], none⟩,
    .call 0 (.write (js "c")) .silent, .call 0 .finish .silent, .event ⟨5, epollOut⟩ ⟨.data [], [.accept 9], none⟩,
    .go .silent]

theorem response_in_parts_three : ∃ p₀ r, requested.foldlM (@step ascii) (@initial ascii 3) = .ok p₀ ∧
    threeParts.foldlM (@Response.step ascii 0) ⟨p₀, .composing⟩ = .ok r ∧ ∃ c x sent,
      r.process.machine.kernel.sent x = p₀.machine.kernel.sent x ++ sent ∧ sent = @V8.utf8 ascii (js "abc") ∧
      Over 0 c x (p₀.machine.kernel.sent x) sent r.process := by
  obtain ⟨p₀, h₀, h⟩ := Run.exists_of_any (x := requested.foldlM (@step ascii) (@initial ascii 3))
    (p := fun p₀ : Process => decide (p₀.task = some (.handler 0 (Helper.parseHeader (js "GET / HTTP/1.1\r\n\r\n")))) &&
      (p₀.machine.clients 0).any (fun c : Client => !c.closed) &&
      decide (Run.Along (@Response.step ascii 0) (@Response.Polite ascii 0) ⟨p₀, .composing⟩ threeParts) &&
      (threeParts.foldlM (@Response.step ascii 0) ⟨p₀, .composing⟩).toOption.any fun r : Response =>
        decide (r.stage = .finished)) (by decide +kernel)
  simp only [Bool.and_eq_true, decide_eq_true_eq] at h
  obtain ⟨⟨⟨htask, hopen⟩, hok⟩, h⟩ := h
  obtain ⟨c, hc, hclosed⟩ := (Option.any_eq_true _ _).1 hopen
  obtain ⟨⟨p, stage⟩, h₁, hover⟩ := Run.exists_of_any h
  obtain rfl : stage = .finished := of_decide_eq_true hover
  obtain ⟨x, -, sent, rest, hsent, hall, rfl, hend⟩ :=
    @response_in_parts ascii 0 c 3 requested threeParts p₀ ⟨p, .finished⟩ _ (by decide +kernel) h₀ htask
      ⟨hc, by simpa using hclosed⟩ hok h₁
  rw [List.append_nil] at hall
  exact ⟨p₀, ⟨p, .finished⟩, h₀, h₁, c, x, sent, hsent, hall.trans (by decide +kernel), hend⟩

/-- The handler writes `2 ^ 32` bytes, in parts of `2 ^ 27`, and ends; the kernel can take nothing yet. -/
def longReply : List Input := .go .silent ::
  (List.replicate 32 (.call 0 (.write (List.replicate (2 ^ 27) 121)) .silent) ++ [.call 0 .finish .silent])

/-- **`2 ^ 32` bytes count as none**: the callback of `end` is called next, and nothing was sent. -/
theorem response_wraps : ∃ p₀ p x, requested.foldlM (@step ascii) (@initial ascii 3) = .ok p₀ ∧
    (longReply.flatMap (@Input.written ascii 0)).length = 2 ^ 32 ∧
    longReply.foldlM (@Response.step ascii 0) ⟨p₀, .composing⟩ = .ok ⟨p, .ending⟩ ∧
    p.task = some (.invoke (.ended 0) 0) ∧ p.machine.kernel.sent x = p₀.machine.kernel.sent x ∧
    ∃ c ∈ p₀.machine.clients 0, p₀.machine.kernel.conn c.fd = some x := by
  obtain ⟨p₀, h₀, h⟩ := Run.exists_of_any (x := requested.foldlM (@step ascii) (@initial ascii 3))
    (p := fun p₀ : Process => decide (p₀.task = some (.handler 0 (Helper.parseHeader (js "GET / HTTP/1.1\r\n\r\n")))) &&
      (p₀.machine.clients 0).any (fun c : Client => !c.closed) && !p₀.left) (by decide +kernel)
  simp only [Bool.and_eq_true, decide_eq_true_eq, Bool.not_eq_true'] at h
  obtain ⟨⟨htask, hopen⟩, hleft⟩ := h
  obtain ⟨c, hc, hclosed⟩ := (Option.any_eq_true _ _).1 hopen
  have hlive : p₀.machine.Live 0 c := ⟨hc, by simpa using hclosed⟩
  obtain ⟨x, hx, hcomposed⟩ := @delivered ascii 0 c p₀ 3 requested _ (by decide +kernel) h₀ htask hlive
  have hlen : ∀ n, (@V8.utf8 ascii (List.replicate n 121)).length = n := fun n =>
    (List.length_map _).trans List.length_replicate
  let p₁ : Process := ⟨p₀.machine, none, p₀.byUser, false⟩
  have hgo : @Response.step ascii 0 ⟨p₀, .composing⟩ (.go .silent) = .ok ⟨p₁, .composing⟩ := by
    rw [@Response.step_of_ok ascii 0 _ p₁ _ (@step_go ascii _ _ _ htask hleft), next_go htask nofun]
  obtain ⟨p₂, q, hwrites, htask₂, hleft₂, haround, hkernel, hst, hq⟩ :=
    @writes_run ascii 0 c .silent (List.replicate (2 ^ 27) 121) 32 p₁ [] 0 rfl rfl hlive hcomposed.stores
      (by rw [hlen]; decide)
  rw [hlen] at hq
  have hclient := client_run ((congrFun haround.clients 0).trans hlive.1)
  have hplain := haround.temporary.trans (hcomposed.settled.owned.sound.plain c.buffer)
  obtain ⟨m, hrun, hsent⟩ := Watch.writeBuffer_wraps c.fd (.ended 0) hst (by rw [hq]; decide) hplain
    ((congrFun haround.conn c.fd).trans hx)
  have hfinish : @step ascii p₂ (.call 0 .finish .silent) = .ok ⟨m, some (.invoke (.ended 0) 0), true, false⟩ := by
    have hmethod : @runMethod ascii .silent 0 .finish p₂.machine = _ := (bind_ok hclient).trans hrun
    rw [@step_call ascii _ _ _ _ htask₂ hleft₂, hmethod, ended]
  refine ⟨p₀, ⟨m, some (.invoke (.ended 0) 0), true, false⟩, x, h₀, ?_, ?_, rfl, ?_, c, hc, hx⟩
  · have hwritten : ∀ text, @Input.written ascii 0 (.call 0 (.write text) .silent) = @V8.utf8 ascii text := by
      intro text
      simp only [Input.written, if_true]
    rw [longReply, List.flatMap_cons, List.flatMap_append, List.length_append, List.length_append, List.length_flatMap,
      List.map_replicate, hwritten, hlen, List.sum_replicate_nat]
    rfl
  · exact (Run.foldlM_cons_of_ok hgo _).trans ((Run.foldlM_append_ok hwrites _).trans
      (Run.foldlM_cons_of_ok (@Response.step_of_ok ascii 0 _ _ _ hfinish) _))
  · show m.kernel.sent x = _
    rw [hsent, hkernel]

end Process
end V8h
