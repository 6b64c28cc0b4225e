import V8h.SocketWrite
/-!
# SocketWrites — many writes on one fd

The fd has one slot for a function, and `writeBuffer` puts an empty one there before it calls `send`.  A write issued
while another waits takes the slot over, and nothing more is sent of the other (`writes_run`).  When a write is only
issued once none waits, the bytes sent are the contents in order (`writes_in_order`).
-/
namespace V8h

namespace Watch

open Machine Effect Socket

/-- A write, or a turn; `content` is what the buffer holds. -/
inductive Traffic where
  | writeBuffer (buffer : Nat) (content : List UInt8) (callback : Cont) (ans : Answers)
  | writeUtf8 (text : JsString) (callback : Cont) (ans : Answers)
  | turn (t : Turn)

def Traffic.IsWrite : Traffic → Prop
  | .turn _ => False
  | _       => True

/-- No call of `send` fails but with `EAGAIN`. -/
def Gentle (ans : Answers) : Prop := ∀ e, Send.error e ∈ ans.sends → e = .again

/-- A turn of a write, in which no `send` fails but with `EAGAIN`. -/
def Writable (fd : Int) (buffer : Nat) (w : Watch) (t : Turn) : Prop :=
  Writing fd buffer w t ∧ match t with
    | .event _ ans => Gentle ans
    | .other _     => True

/-- A write that was issued: what is left of it, and whom to call. -/
structure Written where
  callback : Cont
  box      : Outbox UInt8

/-- The callbacks of the writes that are complete, the oldest first. -/
def completed : List Written → List Task
  | []     => []
  | e :: l => completed l ++ if e.box.rest = [] then [.invoke e.callback 0] else []

section

variable [V8]

def traffic (fd : Int) (w : Watch) : Traffic → Except Stop Watch
  | .writeBuffer buffer _ callback ans => ended w (Socket.writeBuffer ans fd buffer callback w.machine)
  | .writeUtf8 text callback ans       => ended w (Socket.writeUtf8 ans fd text callback w.machine)
  | .turn t                            => w.step t

/-- The writes issued, the newest first: it is the only one that is still offered to `send`. -/
def issued (l : List Written) : Traffic → List Written
  | .writeBuffer _ content callback ans => ⟨callback, (Outbox.new content).offer (replies true ans.sends)⟩ :: l
  | .writeUtf8 text callback ans        => ⟨callback, (Outbox.new (V8.utf8 text)).offer (replies true ans.sends)⟩ :: l
  | .turn (.other _)                    => l
  | .turn (.event _ ans)                =>
    match l with
    | []     => []
    | e :: l => { e with box := e.box.offer (replies true ans.sends) } :: l

/-- A write is waiting for the fd. -/
def Pending (fd : Int) (w : Watch) : Prop :=
  ∃ buffer callback, w.machine.service.fds fd = some (.writeBuffer fd buffer callback)

/-- A write of a buffer that holds its content, a writable event of the fd, or anything that leaves the fd and the
buffer of the write that waits alone. -/
def Fair (fd : Int) (w : Watch) : Traffic → Prop
  | .writeBuffer buffer content _ ans =>
    (∃ u, w.machine.Stores buffer content u) ∧ content.length < 2 ^ 31 ∧ Gentle ans
  | .writeUtf8 text _ ans             =>
    (∀ b ∈ w.machine.pool.buffers.head?, ∃ q u, w.machine.Stores b q u) ∧ (V8.utf8 text).length < 2 ^ 31 ∧ Gentle ans
  | .turn (.event e ans)              => e.fd = fd ∧ e.isError = false ∧ Gentle ans ∧
    (w.machine.service.fds fd = some .empty ∨ w.Pending fd)
  | .turn (.other m)                  => m.service.fds fd = w.machine.service.fds fd ∧
    m.kernel.conn fd = w.machine.kernel.conn fd ∧
    (∀ c, m.kernel.conn fd = some c → m.kernel.sent c = w.machine.kernel.sent c) ∧
    ∀ buffer callback, w.machine.service.fds fd = some (.writeBuffer fd buffer callback) →
      m.heap buffer = w.machine.heap buffer

/-- The same, and a write is issued only when none waits. -/
def Alone (fd : Int) (w : Watch) (t : Traffic) : Prop := w.Fair fd t ∧ (t.IsWrite → ¬ w.Pending fd)

end

/-! ## One call of `writeBuffer` -/

theorem gentle_replies {ans : Answers} (h : Gentle ans) : ∀ r ∈ replies true ans.sends, r ≠ .fail := by
  intro r hr
  simp only [replies, List.mem_map, List.mem_append, List.mem_singleton] at hr
  obtain ⟨s, hs, rfl⟩ := hr
  cases s with
  | accept n => simp [reply]
  | error e =>
    have he : e = .again := hs.elim (h e) fun he => Send.error.inj he
    simp [reply, he]

variable {fd : Int} {c u : Nat} {o : Outbox UInt8} {m : Machine} {buffer : Nat} {base : List UInt8}

theorem release_frame {q : List UInt8} (h : m.Stores buffer q u) :
    ∃ m', release buffer m = .ok () m' ∧ m'.kernel = m.kernel ∧ m'.service = m.service := by
  cases ht : (m.heap buffer).temporary with
  | false => exact ⟨m, release_plain ht, rfl, rfl⟩
  | true =>
    obtain ⟨b, hb, -⟩ := h
    obtain ⟨m', hrun, hk, hs, -⟩ := release_temporary ht hb
    exact ⟨m', hrun, hk, hs⟩

/-- What a call leaves: the callback is called, or a function registered. -/
structure Offered (fd : Int) (c buffer u : Nat) (base : List UInt8) (callback : Cont) (o : Outbox UInt8)
    (r : Option Task) (m : Machine) : Prop where
  conn  : m.kernel.conn fd = some c
  sent  : m.kernel.sent c = base ++ o.accepted
  last  : o.rest = [] → r = some (.invoke callback 0) ∧ m.service.fds fd = some .empty
  waits : o.rest ≠ [] → r = none ∧ m.Stores buffer o.rest u ∧
    m.service.fds fd = some (.writeBuffer fd buffer callback)

theorem writeBuffer_offered (callback : Cont) {ans : Answers} (hans : Gentle ans) (hconn : m.kernel.conn fd = some c)
    (hstores : m.Stores buffer o.rest u) (hf : o.failed = false) (hlen : o.rest.length < 2 ^ 31)
    (hsent : m.kernel.sent c = base ++ o.accepted) : ∃ r m',
      writeBuffer ans fd buffer callback m = .ok r m' ∧
      Offered fd c buffer u base callback (o.offer (replies true ans.sends)) r m' := by
  have ho : Offering fd buffer (fun _ => base) u o m :=
    ⟨hstores, fun c' hc => by rw [← Option.some.inj (hconn.symm.trans hc)]; exact hsent⟩
  obtain ⟨m₁, hsp, ho₁, hrun⟩ := writeBuffer_run ans callback ho hf hlen
  have hopen : (m.kernel.conn fd).isSome = true := by rw [hconn]; rfl
  have hsound := Outbox.offer_sound o _ (gentle_replies hans) hf
  rw [hopen] at ho₁ hrun
  generalize o.offer (replies true ans.sends) = o' at ho₁ hrun hsound ⊢
  have hconn₁ : m₁.kernel.conn fd = some c := (congrFun hsp.conn fd).trans hconn
  have hsent₁ := ho₁.sent c hconn₁
  by_cases hrest : o'.rest = []
  · obtain ⟨m₂, hrel, hk, hs⟩ := release_frame ho₁.stores
    have hempty : m₁.service.fds fd = some .empty := by
      rw [hsp.service]
      exact (congrFun (Service.pollOut_fds ..) fd).trans (Function.update_self ..)
    rw [if_pos (show o'.ended from .inl hrest), bind_ok hrel, if_pos hrest, pure_run] at hrun
    exact ⟨_, m₂, hrun, hk ▸ hconn₁, hk ▸ hsent₁, fun _ => ⟨rfl, hs ▸ hempty⟩, fun h => absurd hrest h⟩
  · have hnot : ¬ o'.ended := fun h => h.elim hrest fun h => by rw [hsound] at h; cases h
    rw [if_neg hnot] at hrun
    refine ⟨_, _, hrun, hconn₁, hsent₁, fun h => absurd h hrest, fun _ => ⟨rfl, ho₁.stores, ?_⟩⟩
    exact (congrFun (Service.pollOut_fds ..) fd).trans (Function.update_self ..)

/-! ## Runs -/

/-- The slot of the fd holds what the newest write put there. -/
def Slot (fd : Int) (w : Watch) : List Written → Prop
  | []     => ¬ w.Pending fd
  | e :: _ => e.box.failed = false ∧ e.box.rest.length < 2 ^ 31 ∧
    (e.box.rest = [] → w.machine.service.fds fd = some .empty) ∧
    (e.box.rest ≠ [] → ∃ buffer u, w.machine.Stores buffer e.box.rest u ∧
      w.machine.service.fds fd = some (.writeBuffer fd buffer e.callback))

/-- What was sent on the fd and called, when the writes `l` were issued. -/
structure Lined (fd : Int) (c : Nat) (base : List UInt8) (w : Watch) (l : List Written) : Prop where
  conn  : w.machine.kernel.conn fd = some c
  sent  : w.machine.kernel.sent c = base ++ Outbox.acceptedBy (l.map Written.box)
  calls : w.calls.map Prod.fst = completed l
  slot  : w.Slot fd l

variable {w w' : Watch} {l : List Written} {callback : Cont} {r : Option Task}

/-- **A call of `writeBuffer`** for the newest write. -/
theorem Offered.lined
    (h : Offered fd c buffer u (base ++ Outbox.acceptedBy (l.map Written.box)) callback o r m)
    (hf : o.failed = false) (hlen : o.rest.length < 2 ^ 31) (hcalls : w.calls.map Prod.fst = completed l) :
    Lined fd c base ⟨m, w.calls ++ r.toList.map (·, m), w.pushes ++ pushed w.machine m⟩ (⟨callback, o⟩ :: l) := by
  refine ⟨h.conn, ?_, ?_, hf, hlen, fun hr => (h.last hr).2, fun hr => ⟨buffer, u, (h.waits hr).2⟩⟩
  · rw [h.sent, List.map_cons, Outbox.acceptedBy, List.append_assoc]
  · have hfst : (r.toList.map fun t => (t, m)).map Prod.fst = r.toList := by cases r <;> rfl
    rw [List.map_append, hcalls, hfst, completed]
    by_cases hr : o.rest = []
    · rw [(h.last hr).1, if_pos hr]
      rfl
    · rw [(h.waits hr).1, if_neg hr]
      rfl

variable [V8]

/-- **One step.** -/
theorem traffic_lined {t : Traffic} (h : Lined fd c base w l) (hok : w.Fair fd t) :
    ∃ w', w.traffic fd t = .ok w' ∧ Lined fd c base w' (issued l t) := by
  have hnew : ∀ (ans : Answers) (q : List UInt8), Gentle ans → q.length < 2 ^ 31 →
      ((Outbox.new q).offer (replies true ans.sends)).failed = false ∧
      ((Outbox.new q).offer (replies true ans.sends)).rest.length < 2 ^ 31 := fun ans q hans hq =>
    ⟨Outbox.offer_sound _ _ (gentle_replies hans) rfl, Nat.lt_of_le_of_lt (Outbox.offer_rest _ _).length_le hq⟩
  cases t with
  | writeBuffer buffer content callback ans =>
    obtain ⟨⟨u, hstores⟩, hlen, hans⟩ := hok
    obtain ⟨r, m', hrun, ho⟩ := writeBuffer_offered (o := .new content) callback hans h.conn hstores rfl hlen
      (h.sent.trans (List.append_nil _).symm)
    obtain ⟨h1, h2⟩ := hnew ans content hans hlen
    refine ⟨_, ?_, ho.lined h1 h2 h.calls⟩
    rw [traffic, hrun, ended]
  | writeUtf8 text callback ans =>
    obtain ⟨hpool, hlen, hans⟩ := hok
    obtain ⟨m₁, hrun₁, hstores, -, hk, -, -⟩ := writeUtf8_run fd ans callback hpool hlen
    obtain ⟨r, m', hrun, ho⟩ := writeBuffer_offered (o := .new (V8.utf8 text)) callback hans (hk ▸ h.conn) hstores rfl
      hlen (hk ▸ h.sent.trans (List.append_nil _).symm)
    obtain ⟨h1, h2⟩ := hnew ans _ hans hlen
    refine ⟨_, ?_, ho.lined h1 h2 h.calls⟩
    rw [traffic, hrun₁, hrun, ended]
  | turn t =>
    cases t with
    | other m =>
      obtain ⟨hfds, hconn, hsent, hheap⟩ := hok
      have hconn' : m.kernel.conn fd = some c := hconn.trans h.conn
      refine ⟨{ w with machine := m }, rfl, hconn', (hsent c hconn').trans h.sent, h.calls, ?_⟩
      have hslot := h.slot
      cases l with
      | nil =>
        rintro ⟨buffer, callback, hpending⟩
        exact hslot ⟨buffer, callback, hfds.symm.trans hpending⟩
      | cons e l =>
        obtain ⟨hf, hlen, hover, hwaits⟩ := hslot
        refine ⟨hf, hlen, fun hr => hfds.trans (hover hr), fun hr => ?_⟩
        obtain ⟨buffer, u, hstores, hreg⟩ := hwaits hr
        exact ⟨buffer, u, hstores.congr (by rw [hheap buffer e.callback hreg]), hfds.trans hreg⟩
    | event e ans =>
      obtain ⟨rfl, herr, hans, hreg⟩ := hok
      have hcb : w.machine.service.callbackOf e = w.machine.service.fds e.fd := by rw [Service.callbackOf, herr]; rfl
      have hidle : w.machine.service.fds e.fd = some .empty → issued l (.turn (.event e ans)) = l →
          ∃ w', w.traffic e.fd (.turn (.event e ans)) = .ok w' ∧
            Lined e.fd c base w' (issued l (.turn (.event e ans))) := fun hempty hsame => by
        refine ⟨⟨w.machine, w.calls ++ [], w.pushes ++ pushed w.machine w.machine⟩, ?_, ?_⟩
        · simp only [traffic, step, hcb, hempty, runCallback]
          rfl
        · rw [hsame, List.append_nil]
          exact ⟨h.conn, h.sent, h.calls, h.slot⟩
      have hslot := h.slot
      cases l with
      | nil => exact hidle (hreg.resolve_right hslot) rfl
      | cons e₀ l =>
        obtain ⟨hf, hlen, hover, hwaits⟩ := hslot
        by_cases hr : e₀.box.rest = []
        · refine hidle (hover hr) ?_
          rw [issued, Outbox.offer_ended (.inl hr)]
        · obtain ⟨buffer, u, hstores, hreg⟩ := hwaits hr
          have hsent : w.machine.kernel.sent c =
              (base ++ Outbox.acceptedBy (l.map Written.box)) ++ e₀.box.accepted := by
            rw [h.sent, List.map_cons, Outbox.acceptedBy, List.append_assoc]
          have hcalls : w.calls.map Prod.fst = completed l := by
            rw [h.calls, completed, if_neg hr, List.append_nil]
          obtain ⟨r, m', hrun, ho⟩ := writeBuffer_offered e₀.callback hans h.conn hstores hf hlen hsent
          refine ⟨_, ?_, ho.lined (Outbox.offer_sound _ _ (gentle_replies hans) hf)
            (Nat.lt_of_le_of_lt (Outbox.offer_rest _ _).length_le hlen) hcalls⟩
          simp only [traffic, step, hcb, hreg, runCallback, hrun, ended]

/-- **What a run of writes sends**: a part of each content from its start, in the order of the calls; the callbacks of
the writes that are complete are called once each, in that order. -/
theorem writes_run (fd : Int) (m : Machine) (c : Nat) (hconn : m.kernel.conn fd = some c)
    (hidle : ¬ Pending fd ⟨m, [], []⟩) (inputs : List Traffic)
    (h : Run.Along (traffic fd) (fun w t => w.Fair fd t) ⟨m, [], []⟩ inputs) :
    ∃ w, inputs.foldlM (traffic fd) ⟨m, [], []⟩ = .ok w ∧
      Lined fd c (m.kernel.sent c) w (inputs.foldl issued []) := by
  have hstep : ∀ w l t, Lined fd c (m.kernel.sent c) w l → w.Fair fd t →
      ∃ w', w.traffic fd t = .ok w' ∧ Lined fd c (m.kernel.sent c) w' (issued l t) :=
    fun w l t h hok => traffic_lined h hok
  exact Run.simulates hstep inputs _ [] ⟨hconn, (List.append_nil _).symm, rfl, hidle⟩ h

/-- The contents of the writes of a run and their callbacks, in the order of the calls. -/
def issue : Traffic → Option (List UInt8 × Cont)
  | .writeBuffer _ content callback _ => some (content, callback)
  | .writeUtf8 text callback _        => some (V8.utf8 text, callback)
  | .turn _                           => none

/-- What a write was to send, and whom it was to call. -/
def Written.issue (e : Written) : List UInt8 × Cont := (e.box.accepted ++ e.box.rest, e.callback)

theorem issued_issue (l : List Written) (t : Traffic) :
    (issued l t).map Written.issue = (issue t).toList ++ l.map Written.issue := by
  cases t with
  | writeBuffer buffer q callback ans =>
    simp only [issued, List.map_cons, Written.issue, Outbox.offer_whole]
    rfl
  | writeUtf8 text callback ans =>
    simp only [issued, List.map_cons, Written.issue, Outbox.offer_whole]
    rfl
  | turn t =>
    cases t with
    | other m => rfl
    | event e ans =>
      cases l with
      | nil => rfl
      | cons e₀ l =>
        simp only [issued, List.map_cons, Written.issue, Outbox.offer_whole]
        rfl

theorem foldl_issued : ∀ (inputs : List Traffic) (l : List Written),
    (inputs.foldl issued l).map Written.issue = (inputs.filterMap issue).reverse ++ l.map Written.issue
  | [], _ => rfl
  | t :: inputs, l => by
    rw [List.foldl_cons, foldl_issued inputs, issued_issue, List.filterMap_cons]
    cases issue t <;> simp

omit [V8] in
theorem completed_eq : ∀ l : List Written,
    completed l = (l.reverse.filter fun e => e.box.rest = []).map fun e => .invoke e.callback 0
  | [] => rfl
  | e :: l => by
    rw [completed, completed_eq l, List.reverse_cons, List.filter_append, List.map_append]
    by_cases he : e.box.rest = []
    · simp [he]
    · simp [he]

/-! ## One write at a time -/

/-- All writes but the newest are complete. -/
def InTurn (l : List Written) : Prop := ∀ e ∈ l.tail, e.box.rest = []

omit [V8] in
theorem Lined.complete (h : Lined fd c base w l) (hl : InTurn l) (hidle : ¬ w.Pending fd) :
    ∀ e ∈ l, e.box.rest = [] := by
  intro e he
  cases l with
  | nil => cases he
  | cons e₀ l =>
    rcases List.mem_cons.1 he with rfl | he
    · by_contra hr
      obtain ⟨buffer, u, -, hreg⟩ := h.slot.2.2.2 hr
      exact hidle ⟨buffer, e.callback, hreg⟩
    · exact hl e he

theorem issued_inTurn {t : Traffic} (h : Lined fd c base w l) (hl : InTurn l) (hok : w.Alone fd t) :
    InTurn (issued l t) := by
  cases t with
  | writeBuffer buffer q callback ans => exact h.complete hl (hok.2 trivial)
  | writeUtf8 text callback ans => exact h.complete hl (hok.2 trivial)
  | turn t =>
    cases t with
    | other m => exact hl
    | event e ans =>
      cases l with
      | nil => exact hl
      | cons e₀ l => exact hl

theorem foldl_issued_inTurn (hconn : m.kernel.conn fd = some c) (hidle : ¬ Pending fd ⟨m, [], []⟩)
    {inputs : List Traffic} (h : Run.Along (traffic fd) (Alone fd) ⟨m, [], []⟩ inputs) :
    InTurn (inputs.foldl issued []) := by
  have hstep : ∀ w l t, Lined fd c (m.kernel.sent c) w l ∧ InTurn l → w.Alone fd t →
      ∃ w', w.traffic fd t = .ok w' ∧ Lined fd c (m.kernel.sent c) w' (issued l t) ∧ InTurn (issued l t) :=
    fun w l t h hok => by
      obtain ⟨w', hw', h'⟩ := traffic_lined h.1 hok.1
      exact ⟨w', hw', h', issued_inTurn h.1 h.2 hok⟩
  obtain ⟨w, -, -, hturn⟩ := Run.simulates hstep inputs _ []
    ⟨⟨hconn, (List.append_nil _).symm, rfl, hidle⟩, fun _ he => nomatch he⟩ h
  exact hturn

omit [V8] in
/-- **In turn, nothing is left out**: what was accepted comes first in what was issued, and is all of it only when every
write is complete. -/
theorem InTurn.accepted (hl : InTurn l) :
    ((l.reverse.map fun e => e.box.accepted).flatten <+: ((l.reverse.map Written.issue).map Prod.fst).flatten) ∧
    ((l.reverse.map fun e => e.box.accepted).flatten = ((l.reverse.map Written.issue).map Prod.fst).flatten →
      ∀ e ∈ l, e.box.rest = []) := by
  cases l with
  | nil => exact ⟨List.prefix_rfl, fun _ => List.forall_mem_nil _⟩
  | cons e l =>
    have hold : ((l.reverse.map Written.issue).map Prod.fst).flatten =
        (l.reverse.map fun e => e.box.accepted).flatten := by
      rw [List.map_map]
      refine congrArg List.flatten (List.map_congr_left fun e' he' => ?_)
      show e'.box.accepted ++ e'.box.rest = e'.box.accepted
      rw [hl e' (List.mem_reverse.1 he'), List.append_nil]
    have hall : (((e :: l).reverse.map Written.issue).map Prod.fst).flatten =
        ((e :: l).reverse.map fun e => e.box.accepted).flatten ++ e.box.rest := by
      simp only [List.reverse_cons, List.map_append, List.flatten_append, hold, List.map_cons, List.map_nil,
        List.flatten_cons, List.flatten_nil, List.append_nil, List.append_assoc, Written.issue]
    refine ⟨⟨e.box.rest, hall.symm⟩, fun heq e' he' => ?_⟩
    rcases List.mem_cons.1 he' with rfl | he'
    · rw [heq] at hall
      exact List.append_right_eq_self.1 hall.symm
    · exact hl e' he'

/-- **Of every write a part from its start is sent, in the order of the calls**, and the callbacks called are those of
the writes sent whole, once each, in order; of writes issued one at a time nothing is lost. -/
theorem writes_in_order (fd : Int) (m : Machine) (c : Nat) (hconn : m.kernel.conn fd = some c)
    (hidle : ¬ Pending fd ⟨m, [], []⟩) (inputs : List Traffic)
    (h : Run.Along (traffic fd) (Fair fd) ⟨m, [], []⟩ inputs) :
    ∃ w, ∃ l : List Written, inputs.foldlM (traffic fd) ⟨m, [], []⟩ = .ok w ∧
      l.map Written.issue = inputs.filterMap issue ∧
      w.machine.kernel.sent c = m.kernel.sent c ++ (l.map fun e => e.box.accepted).flatten ∧
      w.calls.map Prod.fst = (l.filter fun e => e.box.rest = []).map (fun e => .invoke e.callback 0) ∧
      (Run.Along (traffic fd) (Alone fd) ⟨m, [], []⟩ inputs →
        (l.map fun e => e.box.accepted).flatten <+: ((inputs.filterMap issue).map Prod.fst).flatten ∧
        ((l.map fun e => e.box.accepted).flatten = ((inputs.filterMap issue).map Prod.fst).flatten →
          w.calls.map Prod.fst = (inputs.filterMap issue).map fun i => .invoke i.2 0)) := by
  obtain ⟨w, hw, hlined⟩ := writes_run fd m c hconn hidle inputs h
  have hissue : (inputs.foldl issued []).reverse.map Written.issue = inputs.filterMap issue := by
    rw [List.map_reverse, foldl_issued, List.map_nil, List.append_nil, List.reverse_reverse]
  have hcalls := hlined.calls.trans (completed_eq _)
  refine ⟨w, _, hw, hissue, ?_, hcalls, fun halone => ?_⟩
  · rw [hlined.sent, Outbox.acceptedBy_eq_flatten, ← List.map_reverse, List.map_map]
    rfl
  · have hturn := (foldl_issued_inTurn hconn hidle halone).accepted
    rw [hissue] at hturn
    refine ⟨hturn.1, fun heq => ?_⟩
    have hdone := hturn.2 heq
    have hall := List.filter_eq_self.2 fun e he => decide_eq_true (hdone e (List.mem_reverse.1 he))
    rw [hcalls, ← hissue, hall, List.map_map]
    rfl

end Watch

namespace Watch

open Machine Effect Socket

/-- `accept 0` takes one byte, and the write waits for more. -/
def write (text : JsString) (callback : Nat) (sends : List Send) : Traffic :=
  .writeUtf8 text (.user callback) ⟨.data [], sends, none⟩

def writable (sends : List Send) : Traffic := .turn (.event ⟨5, epollOut⟩ ⟨.data [], sends, none⟩)

theorem gentle_accept (n : Nat) : Gentle ⟨.data [], [.accept n], none⟩ := fun _ h => nomatch List.mem_singleton.1 h

theorem fair_write (w : Watch) (text : JsString) (callback n : Nat) (hpool : w.machine.pool.buffers = [])
    (hlen : text.length < 2 ^ 31) : @Fair ascii 5 w (write text callback [.accept n]) := by
  refine ⟨fun b hb => ?_, ?_, gentle_accept n⟩
  · rw [hpool] at hb
    cases hb
  · rwa [show @V8.utf8 ascii text = text.map UInt16.toUInt8 from rfl, List.length_map]

/-- Three bytes, taken over two events, and then `c`. -/
def twoWrites : List Traffic :=
  [.writeBuffer 0 [1, 2, 3] (.user 0) ⟨.data [], [.accept 0], none⟩, writable [.accept 7], write (js "c") 1 [.accept 7]]

theorem writes_in_order_two : ∃ w, ∃ l : List Written,
    twoWrites.foldlM (@traffic ascii 5) ⟨Machine.listening [1, 2, 3], [], []⟩ = .ok w ∧
      w.machine.kernel.sent 0 = (l.map fun e => e.box.accepted).flatten ∧
      (l.map fun e => e.box.accepted).flatten <+: [1, 2, 3, 99] := by
  let m := Machine.listening [1, 2, 3]
  obtain ⟨w₁, hw₁, h₁⟩ := Run.exists_of_any
    (x := @traffic ascii 5 ⟨m, [], []⟩ (.writeBuffer 0 [1, 2, 3] (.user 0) ⟨.data [], [.accept 0], none⟩))
    (p := fun w => decide (w.machine.service.fds 5 = some (.writeBuffer 5 0 (.user 0))) &&
      (@traffic ascii 5 w (writable [.accept 7])).toOption.any fun w : Watch =>
        decide (w.machine.service.fds 5 = some .empty) && decide (w.machine.pool.buffers = [])) (by decide +kernel)
  simp only [Bool.and_eq_true, decide_eq_true_eq] at h₁
  obtain ⟨w₂, hw₂, h₂⟩ := Run.exists_of_any h₁.2
  simp only [Bool.and_eq_true, decide_eq_true_eq] at h₂
  have hidle : ¬ Pending 5 ⟨m, [], []⟩ := by
    rintro ⟨buffer, callback, h⟩
    cases h
  have hok : Run.Along (@traffic ascii 5) (@Alone ascii 5) ⟨m, [], []⟩ twoWrites := by
    refine ⟨⟨⟨⟨3, _, rfl, Buffer.full_holds (by decide) (by decide), Nat.le_refl 3⟩, by decide, gentle_accept 0⟩,
      fun _ => hidle⟩, fun w hw => ?_⟩
    obtain rfl := Except.ok.inj (hw.symm.trans hw₁)
    refine ⟨⟨⟨rfl, rfl, gentle_accept 7, .inr ⟨0, .user 0, h₁.1⟩⟩, nofun⟩, fun w' hw' => ?_⟩
    obtain rfl := Except.ok.inj (hw'.symm.trans hw₂)
    refine ⟨⟨fair_write w' (js "c") 1 7 h₂.2 (by decide), fun _ => ?_⟩, fun _ _ => trivial⟩
    rintro ⟨buffer, callback, h⟩
    rw [h₂.1] at h
    cases h
  obtain ⟨w, l, hw, -, hsent, -, halone⟩ := @writes_in_order ascii 5 m 0 rfl hidle twoWrites
    (hok.mono fun _ _ h => h.1)
  exact ⟨w, l, hw, hsent, (halone hok).1⟩

/-- `ab`, of which `a` is taken, and `c` while the rest waits. -/
def overtaking : List Traffic :=
  [write (js "ab") 0 [.accept 0], write (js "c") 1 [.accept 7], writable [.accept 7]]

/-- **A write issued while another waits loses its rest**: `b` is not sent, and the first callback is not called. -/
theorem overtaken_write : ∃ w, Run.Along (@traffic ascii 5) (@Fair ascii 5) ⟨Machine.listening [0], [], []⟩ overtaking ∧
    overtaking.foldlM (@traffic ascii 5) ⟨Machine.listening [0], [], []⟩ = .ok w ∧
    w.machine.kernel.sent 0 = [97, 99] ∧ w.calls.map Prod.fst = [.invoke (.user 1) 0] ∧
    ¬ w.machine.kernel.sent 0 <+: ((overtaking.filterMap (@issue ascii)).map Prod.fst).flatten := by
  let m := Machine.listening [0]
  obtain ⟨w₁, hw₁, h₁⟩ := Run.exists_of_any (x := @traffic ascii 5 ⟨m, [], []⟩ (write (js "ab") 0 [.accept 0]))
    (p := fun w => decide (w.machine.pool.buffers = []) &&
      (@traffic ascii 5 w (write (js "c") 1 [.accept 7])).toOption.any fun w : Watch =>
        decide (w.machine.service.fds 5 = some .empty) &&
        (@traffic ascii 5 w (writable [.accept 7])).toOption.any fun w : Watch =>
          decide (w.machine.kernel.sent 0 = [97, 99]) && decide (w.calls.map Prod.fst = [.invoke (.user 1) 0]))
    (by decide +kernel)
  simp only [Bool.and_eq_true, decide_eq_true_eq] at h₁
  obtain ⟨w₂, hw₂, h₂⟩ := Run.exists_of_any h₁.2
  simp only [Bool.and_eq_true, decide_eq_true_eq] at h₂
  obtain ⟨w₃, hw₃, h₃⟩ := Run.exists_of_any h₂.2
  simp only [Bool.and_eq_true, decide_eq_true_eq] at h₃
  refine ⟨w₃, ?_, ?_, h₃.1, h₃.2, by rw [h₃.1]; decide +kernel⟩
  · refine ⟨fair_write _ (js "ab") 0 0 rfl (by decide), fun w hw => ?_⟩
    obtain rfl := Except.ok.inj (hw.symm.trans hw₁)
    refine ⟨fair_write w (js "c") 1 7 h₁.1 (by decide), fun w' hw' => ?_⟩
    obtain rfl := Except.ok.inj (hw'.symm.trans hw₂)
    exact ⟨⟨rfl, rfl, gentle_accept 7, .inl h₂.1⟩, fun _ _ => trivial⟩
  · exact (Run.foldlM_cons_of_ok hw₁ _).trans ((Run.foldlM_cons_of_ok hw₂ _).trans (Run.foldlM_cons_of_ok hw₃ _))

end Watch
end V8h
