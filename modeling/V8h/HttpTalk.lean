import V8h.HttpAccounts
import V8h.HttpFlush
/-!
# HttpTalk — the requests and the responses of one connection

A client reads a request, its handler writes the response and calls `end`, and the callback of `end` closes the client
or reads the next request.  While a request is read nothing is sent, so what a connection was sent is at every moment
the responses ended, each whole and in the order of the requests, and a first part of the one that goes on
(`responses_in_turn`).
-/
namespace V8h

open Machine

/-- A process, where the response of one of its clients is unless a request is read, and what happened so far: the
requests delivered, the responses ended, and the bytes written for the one that goes on. -/
structure Talk where
  process  : Process
  stage    : Option Stage
  requests : List Request
  replies  : List (List UInt8)
  current  : List UInt8

namespace Process

/-- The request with which the handler of client `k` is called next. -/
def requestFor (p : Process) (k : Nat) : Option Request :=
  match p.task with
  | some (.handler j req) => if j = k then some req else none
  | _                     => none

theorem requestFor_some {p : Process} {k : Nat} {req : Request} (h : p.requestFor k = some req) :
    p.task = some (.handler k req) := by
  unfold requestFor at h
  split at h
  · rename_i j req' ht
    split at h
    · rename_i hj
      cases h
      rw [ht, hj]
    · cases h
  · cases h

end Process

namespace Talk

section

variable [V8]

/-- The talk goes on with the state after an input. -/
def after (k : Nat) (t : Talk) (i : Input) (p : Process) : Talk :=
  match t.stage with
  | none       =>
    match p.requestFor k with
    | none     => { t with process := p }
    | some req => { t with process := p, stage := some .composing, requests := t.requests ++ [req] }
  | some stage =>
    let current := t.current ++ i.written k
    if stage.next k t.process i = .finished then
      { t with process := p, stage := none, replies := t.replies ++ [current], current := [] }
    else { t with process := p, stage := some (stage.next k t.process i), current := current }

/-- One input. -/
def step (k : Nat) (t : Talk) (i : Input) : Except Refusal Talk := do
  return t.after k i (← t.process.step i)

/-- User code calls the methods of open clients only, and those of client `k` for its response, as a response goes on;
the client is open when a request is read. -/
def Polite (k : Nat) (t : Talk) (i : Input) : Prop :=
  t.process.Prudent i ∧
    match t.stage with
    | none       => ¬ i.Calls k ∧ ∃ c ∈ t.process.machine.clients k, c.closed = false
    | some stage => t.process.actor i = some k → Response.Admits k ⟨t.process, stage⟩ i

instance (k : Nat) (t : Talk) (i : Input) : Decidable (t.Polite k i) :=
  match t with
  | ⟨p, none, _, _, _⟩       =>
    inferInstanceAs (Decidable (p.Prudent i ∧ ¬ i.Calls k ∧ ∃ c ∈ p.machine.clients k, c.closed = false))
  | ⟨p, some stage, _, _, _⟩ =>
    inferInstanceAs (Decidable (p.Prudent i ∧ (p.actor i = some k → Response.Admits k ⟨p, stage⟩ i)))

theorem step_ok {k : Nat} {t t' : Talk} {i : Input} (h : t.step k i = .ok t') :
    ∃ p', t.process.step i = .ok p' ∧ t' = t.after k i p' := by
  unfold step at h
  cases hp : t.process.step i with
  | ok p' =>
    rw [hp] at h
    cases h
    exact ⟨p', rfl, rfl⟩
  | error e =>
    rw [hp] at h
    cases h

end

end Talk

namespace Process

section

variable {k x : Nat} {c : Client} {q base : List UInt8} {p p' : Process} {i : Input} {server : Int}

/-- A request is read: the connection was sent `q`, and nothing is registered that sends. -/
structure Reading (k x : Nat) (q : List UInt8) (p : Process) : Prop where
  sent  : p.machine.kernel.sent x = q
  quiet : ∀ c, p.machine.Live k c → p.machine.kernel.conn c.fd = some x ∧
    ∀ f, p.machine.service.fds c.fd = some f → ¬ f.Sends

theorem Reading.of_live (hl : p.machine.Live k c) (hsent : p.machine.kernel.sent x = q)
    (hconn : p.machine.kernel.conn c.fd = some x)
    (hquiet : ∀ f, p.machine.service.fds c.fd = some f → ¬ f.Sends) : Reading k x q p := by
  refine ⟨hsent, ?_⟩
  intro c' hl'
  obtain rfl := Option.some.inj (hl.1.symm.trans hl'.1)
  exact ⟨hconn, hquiet⟩

theorem Reading.of_closed (hc : p.machine.clients k = some c) (hclosed : c.closed = true)
    (hsent : p.machine.kernel.sent x = q) : Reading k x q p := by
  refine ⟨hsent, ?_⟩
  intro c' hl
  obtain rfl := Option.some.inj (hc.symm.trans hl.1)
  exact absurd hclosed (Bool.eq_false_iff.1 hl.2)

variable [V8]

/-- **A step while a request is read** sends nothing. -/
theorem Reading.step (h : Reading k x q p) (ho : p.Orderly server) (hok : p.Prudent i) (hcalls : ¬ i.Calls k)
    (hl : p.machine.Live k c) (hs : p.step i = .ok p') : Reading k x q p' := by
  obtain ⟨hconn, hquiet⟩ := h.quiet c hl
  by_cases hk : p.actor i = some k
  · have hconfined : p.machine.Stays k c.fd False p'.machine ∧ LeftFor k p'.task ∨
        p.machine.Gone k c.fd False p'.machine ∧ p'.task = none :=
      step_confined ho.settled ho.counted hk hl (fun _ => hcalls) (fun _ => hquiet) hs
    rcases hconfined with ⟨hm, -⟩ | ⟨hm, -⟩
    · obtain ⟨d, hd, hfd⟩ := hm.self
      refine .of_live hd ((congrFun (hm.silent id) x).trans h.sent) ?_ ?_
      · rw [hfd, hm.isOpen]
        exact hconn
      rw [hfd]
      intro f hf
      rcases hm.reaction with hsame | ⟨g, hg, hsends⟩
      · exact hquiet f (hsame.symm.trans hf)
      · obtain rfl := Option.some.inj (hg.symm.trans hf)
        exact hsends id
    · obtain ⟨d, hd, hclosed, -⟩ := hm.self
      exact .of_closed hd hclosed ((congrFun (hm.silent id) x).trans h.sent)
  · obtain ⟨-, hspares, -⟩ := step_settled ho.settled (ho.considerate hok hs) hs
    obtain ⟨hu, hc⟩ := hspares k c hk hl
    refine .of_live ⟨hc.trans hl.1, hl.2⟩ ((hu.sent x hconn).trans h.sent) ?_ ?_
    · rw [hu.conn]
      exact hconn
    · rw [hu.fds]
      exact hquiet

omit [V8] in
/-- **A request delivered**: the response begins, with the buffer empty. -/
theorem Reading.delivers {req : Request} (h : Reading k x q p) (ho : p.Orderly server) (hw : p.Stands)
    (htask : p.task = some (.handler k req)) : ∃ c, Delivers k c x q .composing [] p := by
  obtain ⟨c, hl⟩ := (ho.task _ htask).live k rfl
  obtain ⟨c', hc', hstores⟩ := hw.task _ htask
  obtain rfl := Option.some.inj (hc'.symm.trans hl.1)
  exact ⟨c', ho.settled, hl, (h.quiet c' hl).1, h.sent.trans (List.append_nil q).symm, ⟨_, hstores⟩, rfl, by decide⟩

omit [V8] in
/-- **A response ended**: the client is closed, or the next request is read. -/
theorem Over.reading (h : Over k c x base q p) : Reading k x (base ++ q) p := by
  cases hc : c.isClosed with
  | true =>
    obtain ⟨hclosed, -, -⟩ := h.closed hc
    exact .of_closed hclosed rfl h.sent
  | false =>
    obtain ⟨hlive, hconn, -, n, last, hfds⟩ := h.start hc
    refine .of_live hlive h.sent hconn ?_
    intro f hf
    obtain rfl := Option.some.inj (hfds.symm.trans hf)
    exact id

/-- **What a talk came to**: the responses ended were sent, and of the one that goes on what its stage says. -/
structure Talks (server : Int) (k x : Nat) (base : List UInt8) (t : Talk) : Prop where
  orderly  : t.process.Orderly server
  stands   : t.process.Stands
  reading  : t.stage = none → Reading k x (base ++ t.replies.flatten) t.process ∧ t.current = [] ∧
    t.requests.length = t.replies.length
  replying : ∀ stage, t.stage = some stage → stage ≠ .finished ∧ t.requests.length = t.replies.length + 1 ∧
    ∃ c, Delivers k c x (base ++ t.replies.flatten) stage t.current t.process

variable {t t' : Talk}

theorem Orderly.considerateSoFar (h : p.Orderly server) (hok : p.Prudent i) (hs : p.step i = .ok p') :
    p.ConsiderateSoFar i := by
  intro j hj c hc hclosed j' _ c' hc' hopen
  exact h.considerate hok hs j c hj hc hclosed j' c' ⟨hc', hopen⟩

/-- **One step of the talk.** -/
theorem step_talks (h : Talks server k x base t) (hok : t.Polite k i) (hs : t.step k i = .ok t') :
    Talks server k x base t' := by
  obtain ⟨p', hp, rfl⟩ := Talk.step_ok hs
  obtain ⟨p, stage, requests, replies, current⟩ := t
  obtain ⟨hprudent, hok⟩ := hok
  have horderly : p'.Orderly server := step_orderly h.orderly hprudent hp
  have hstands : p'.Stands := step_stands h.stands hp
  cases stage with
  | none =>
    obtain ⟨hreading, hcurrent, hlength⟩ := h.reading rfl
    obtain ⟨hcalls, c, hc, hopen⟩ := hok
    have hreading' := hreading.step h.orderly hprudent hcalls ⟨hc, hopen⟩ hp
    simp only [Talk.after]
    cases hreq : p'.requestFor k with
    | none =>
      refine ⟨horderly, hstands, fun _ => ⟨hreading', hcurrent, hlength⟩, ?_⟩
      intro stage hstage
      cases hstage
    | some req =>
      refine ⟨horderly, hstands, ?_, ?_⟩
      · intro hnone
        cases hnone
      intro stage hstage
      cases hstage
      refine ⟨by decide, ?_, ?_⟩
      · simpa using hlength
      · obtain rfl : current = [] := hcurrent
        exact hreading'.delivers horderly hstands (requestFor_some hreq)
  | some stage =>
    obtain ⟨hstage, hlength, c, hdelivers⟩ := h.replying stage rfl
    have hpolite : Response.Polite k ⟨p, stage⟩ i := ⟨hstage, h.orderly.considerateSoFar hprudent hp, hok⟩
    have hnext := step_delivers (r := ⟨p, stage⟩) hdelivers hpolite (Response.step_of_ok hp)
    simp only [Talk.after]
    split
    · rename_i hfinished
      rw [hfinished] at hnext
      refine ⟨horderly, hstands, ?_, ?_⟩
      · intro _
        have hover := Over.reading hnext
        rw [List.append_assoc] at hover
        exact ⟨by simpa using hover, rfl, by simpa using hlength⟩
      · intro stage' hstage'
        cases hstage'
    · rename_i hnot
      refine ⟨horderly, hstands, ?_, ?_⟩
      · intro hnone
        cases hnone
      · intro stage' hstage'
        cases hstage'
        exact ⟨hnot, hlength, c, hnext⟩

theorem written_of_not_calls (h : ¬ i.Calls k) : i.written k = [] := by
  cases i with
  | event e ans => rfl
  | go ans => rfl
  | call j method ans =>
    have hj : j ≠ k := h
    cases method with
    | write text => exact if_neg hj
    | flush => rfl
    | finish => rfl
    | close => rfl

/-- The responses are what was written. -/
theorem after_written (hok : t.Polite k i) (p' : Process) :
    (t.after k i p').replies.flatten ++ (t.after k i p').current =
      t.replies.flatten ++ t.current ++ i.written k := by
  obtain ⟨p, stage, requests, replies, current⟩ := t
  cases stage with
  | none =>
    have hnone : i.written k = [] := written_of_not_calls hok.2.1
    simp only [Talk.after]
    cases p'.requestFor k with
    | none => rw [hnone, List.append_nil]
    | some req => rw [hnone, List.append_nil]
  | some stage =>
    simp only [Talk.after]
    split
    · simp
    · simp

/-- **Every run of the talk.** -/
theorem run_talks {is : List Input} (h : Talks server k x base t) (hok : Run.Along (Talk.step k) (Talk.Polite k) t is)
    (hs : is.foldlM (Talk.step k) t = .ok t') : Talks server k x base t' ∧
      t'.replies.flatten ++ t'.current = t.replies.flatten ++ t.current ++ is.flatMap (·.written k) := by
  have hstep : ∀ (t : Talk) q i t', (Talks server k x base t ∧ t.replies.flatten ++ t.current = q) → t.Polite k i →
      t.step k i = .ok t' → Talks server k x base t' ∧ t'.replies.flatten ++ t'.current = q ++ i.written k := by
    rintro t q i t' ⟨h, rfl⟩ hok hs
    refine ⟨step_talks h hok hs, ?_⟩
    obtain ⟨p', -, rfl⟩ := Talk.step_ok hs
    exact after_written hok p'
  have hrun := Run.follows (R := fun (t : Talk) q => Talks server k x base t ∧ t.replies.flatten ++ t.current = q)
    hstep is t t' _ ⟨h, rfl⟩ hok hs
  rwa [List.foldl_append_eq_append, ← List.flatMap_def] at hrun

omit [V8] in
/-- What is sent of the response that goes on: all of it when the callback of `end` is called next. -/
theorem Delivers.part {stage : Stage} (h : Delivers k c x base stage q p) (hstage : stage ≠ .finished) :
    ∃ part rest, p.machine.kernel.sent x = base ++ part ∧ part ++ rest = q ∧
      (stage = .ending → p.task = some (.invoke (.ended k) 0) → rest = []) := by
  cases stage with
  | composing => exact ⟨[], q, Output.sent h, rfl, fun hending => by cases hending⟩
  | flushing =>
    obtain ⟨o, hq, hout, -⟩ := h
    exact ⟨o.accepted, o.rest, hout.sent, hq, fun hending => by cases hending⟩
  | ending =>
    obtain ⟨o, hq, hout, hslot⟩ := h
    refine ⟨o.accepted, o.rest, hout.sent, hq, ?_⟩
    intro _ htask
    rcases hslot with hpends | hcalls
    · exact absurd rfl (hpends.task _ htask)
    · exact hcalls.rest
  | finished => exact absurd rfl hstage

/-- **The responses of a connection are sent in turn.**  From any state in which a client reads a request, however the
events, the calls of the handlers and what is done for the other clients follow each other, until the client is closed:
the connection was sent the responses ended, whole and in the order of the requests, one for each, and a first part of
the one that goes on; all of that one when the callback of `end` is called next, and nothing while a request is read. -/
theorem responses_in_turn (server : Int) {before is : List Input} {p₀ : Process} {t : Talk}
    (hbefore : Run.Along step Prudent (initial server) before) (h₀ : before.foldlM step (initial server) = .ok p₀)
    (hlive : p₀.machine.Live k c) (hquiet : ∀ f, p₀.machine.service.fds c.fd = some f → ¬ f.Sends)
    (hok : Run.Along (Talk.step k) (Talk.Polite k) ⟨p₀, none, [], [], []⟩ is)
    (hs : is.foldlM (Talk.step k) ⟨p₀, none, [], [], []⟩ = .ok t) :
    ∃ x, p₀.machine.kernel.conn c.fd = some x ∧ t.replies.flatten ++ t.current = is.flatMap (·.written k) ∧
      ∃ part rest, t.process.machine.kernel.sent x = p₀.machine.kernel.sent x ++ (t.replies.flatten ++ part) ∧
        part ++ rest = t.current ∧
        match t.stage with
        | none       => rest = [] ∧ t.current = [] ∧ t.requests.length = t.replies.length
        | some stage => t.requests.length = t.replies.length + 1 ∧
          (stage = .ending → t.process.task = some (.invoke (.ended k) 0) → rest = []) := by
  have horderly : p₀.Orderly server := run_orderly hbefore h₀
  obtain ⟨x, hx⟩ := Option.isSome_iff_exists.1 (horderly.settled.owned.held k c hlive).isOpen
  have hstart : Talks server k x (p₀.machine.kernel.sent x) ⟨p₀, none, [], [], []⟩ := by
    refine ⟨horderly, run_stands h₀, ?_, ?_⟩
    · intro _
      exact ⟨.of_live hlive (List.append_nil _).symm hx hquiet, rfl, rfl⟩
    · intro stage hstage
      cases hstage
  obtain ⟨h, hwritten⟩ := run_talks hstart hok hs
  refine ⟨x, hx, hwritten, ?_⟩
  obtain ⟨p, stage, requests, replies, current⟩ := t
  cases stage with
  | none =>
    obtain ⟨hreading, hcurrent, hlength⟩ := h.reading rfl
    obtain rfl : current = [] := hcurrent
    exact ⟨[], [], by rw [List.append_nil]; exact hreading.sent, rfl, rfl, rfl, hlength⟩
  | some stage =>
    obtain ⟨hstage, hlength, c', hdelivers⟩ := h.replying stage rfl
    obtain ⟨part, rest, hsent, hpart, hrest⟩ := hdelivers.part hstage
    exact ⟨part, rest, hsent.trans (List.append_assoc ..), hpart, hlength, hrest⟩

end

/-- A connection on fd 5. -/
def connected : List Input := [.event ⟨3, epollIn⟩ ⟨.data [], [], some 5⟩, .go .silent]

/-- A request that asks for the next one. -/
def asking : Input := .event ⟨5, epollIn⟩
  ⟨.data (@V8.utf8 ascii (js "GET / HTTP/1.1\r\nConnection: keep-alive\r\n\r\n")), [], none⟩

/-- Two requests: `a` is sent at once, and of `bc` the first byte at first. -/
def twoTurns : List Input :=
  [asking, .go .silent, .go .silent, .call 0 (.write (js "a")) .silent, .call 0 .finish ⟨.data [], [.accept 0], none⟩,
    .go .silent, asking, .go .silent, .go .silent, .call 0 (.write (js "bc")) .silent,
    .call 0 .finish ⟨.data [], [.accept 0], none⟩]

theorem responses_in_turn_two : ∃ p₀ t, connected.foldlM (@step ascii) (@initial ascii 3) = .ok p₀ ∧
    twoTurns.foldlM (@Talk.step ascii 0) ⟨p₀, none, [], [], []⟩ = .ok t ∧ t.replies = [[97]] ∧ t.requests.length = 2 ∧
    ∃ x part rest, t.process.machine.kernel.sent x = p₀.machine.kernel.sent x ++ 97 :: part ∧
      part ++ rest = [98, 99] := by
  obtain ⟨p₀, h₀, h⟩ := Run.exists_of_any (x := connected.foldlM (@step ascii) (@initial ascii 3))
    (p := fun p₀ : Process => (p₀.machine.clients 0).any (fun c : Client => !c.closed && decide (c.fd = 5)) &&
      (p₀.machine.service.fds 5).any (fun f : Callback => decide (¬ f.Sends)) &&
      decide (Run.Along (@Talk.step ascii 0) (@Talk.Polite ascii 0) ⟨p₀, none, [], [], []⟩ twoTurns) &&
      (twoTurns.foldlM (@Talk.step ascii 0) ⟨p₀, none, [], [], []⟩).toOption.any fun t : Talk =>
        decide (t.replies = [[97]] ∧ t.requests.length = 2 ∧ t.current = [98, 99])) (by decide +kernel)
  simp only [Bool.and_eq_true, decide_eq_true_eq] at h
  obtain ⟨⟨⟨hclient, hfds⟩, hok⟩, h⟩ := h
  obtain ⟨c, hc, hopen⟩ := (Option.any_eq_true _ _).1 hclient
  simp only [Bool.and_eq_true, Bool.not_eq_true', decide_eq_true_eq] at hopen
  obtain ⟨hopen, hfd⟩ := hopen
  have hquiet : ∀ f, p₀.machine.service.fds c.fd = some f → ¬ f.Sends := by
    intro f hf
    rw [hfd] at hf
    rw [hf] at hfds
    exact of_decide_eq_true hfds
  obtain ⟨t, h₁, ht⟩ := Run.exists_of_any h
  obtain ⟨hreplies, hrequests, hcurrent⟩ := of_decide_eq_true ht
  obtain ⟨x, -, -, part, rest, hsent, hpart, -⟩ :=
    @responses_in_turn 0 c ascii 3 connected twoTurns p₀ t (by decide +kernel) h₀ ⟨hc, hopen⟩ hquiet hok h₁
  rw [hreplies] at hsent
  rw [hcurrent] at hpart
  exact ⟨p₀, t, h₀, h₁, hreplies, hrequests, x, part, rest, hsent, hpart⟩

end Process
end V8h
