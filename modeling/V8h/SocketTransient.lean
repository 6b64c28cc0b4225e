import V8h.SocketOnce
import V8h.SocketRead
import V8h.SocketReceive
import V8h.SocketWrites
import Mathlib.Data.List.TakeWhile
/-!
# SocketTransient — `EAGAIN` while an operation is pending

`Socket::_write_buffer` returns 0 when `send` would block, and the write stays registered.  `Socket::_read_buffer`
returns -1 when `recv` would block, and the closure of `readUntil` takes that for an error.  So `EAGAIN` changes nothing
about what a write sends and reports, and a read lives exactly as long as it does not meet one
(`pending_survives_iff`).
-/
namespace V8h
namespace Socket

/-- The outcomes of one call of `_writeBuffer`, without the `EAGAIN` it ends with. -/
def outcomes (sends : List Send) : List Send := sends.takeWhile fun s => s ≠ .error .again

theorem mem_outcomes {s : Send} {sends : List Send} (h : s ∈ outcomes sends) : s ∈ sends ∧ s ≠ .error .again :=
  ⟨(List.takeWhile_prefix _).subset h,
    of_decide_eq_true (List.mem_takeWhile_imp (p := fun s => decide (s ≠ Send.error .again)) h)⟩

theorem outcomes_self {sends : List Send} (h : ∀ s ∈ sends, s ≠ .error .again) : outcomes sends = sends :=
  List.takeWhile_eq_self_iff.2 fun s hs => decide_eq_true (h s hs)

theorem beforeWait_replies : ∀ sends : List Send,
    Outbox.beforeWait (replies true sends) = (outcomes sends).map (reply true)
  | [] => rfl
  | .accept n :: sends => by
    have hs : outcomes (.accept n :: sends) = .accept n :: outcomes sends := rfl
    rw [hs, List.map_cons, ← beforeWait_replies sends]
    rfl
  | .error e :: sends => by
    by_cases he : e = .again
    · subst he
      rfl
    · have hs : outcomes (.error e :: sends) = .error e :: outcomes sends := by
        rw [outcomes, List.takeWhile_cons_of_pos (by simpa using he)]
        rfl
      have hr : reply true (.error e) = .fail := by simp [reply, he]
      rw [hs, List.map_cons, ← beforeWait_replies sends, replies, List.cons_append, List.map_cons, hr]
      rfl

end Socket

namespace Watch

open Machine Effect Socket

/-- The outcomes of `send` in a turn, without `EAGAIN`. -/
def sendOutcomes : Turn → List Send
  | .event _ ans => outcomes ans.sends
  | .other _     => []

/-- The outcomes of `send` over a run, without `EAGAIN`. -/
def smooth (ans : Answers) (turns : List Turn) : List Send := outcomes ans.sends ++ turns.flatMap sendOutcomes

/-- A turn in which `recv` would block. -/
def blocked : Turn → Bool
  | .event _ ⟨.error .again, _, _⟩ => true
  | _                              => false

/-- `$triggerError` has not been called for the fd, and the function of the operation is registered until its callback
is called. -/
structure Alive (fd : Int) (f : Callback) (w : Watch) : Prop where
  calls : ∀ c ∈ w.calls, c.1 ≠ .triggerError fd
  fds   : w.calls = [] → w.machine.service.fds fd = some f

/-- A turn while a read is pending: `recv` would block or gives a non-empty chunk, which is no longer than the room it
is given; or the rest of the process leaves the fd and the buffer alone. -/
def Readable (fd : Int) (buffer : Nat) (w : Watch) : Turn → Prop
  | .event e ans => w.calls = [] ∧ e.fd = fd ∧ e.isError = false ∧ (ans.recv = .error .again ∨
    ∃ bytes b, Delivered ans fd buffer bytes w.machine ∧ (w.machine.heap buffer).native = some b ∧
      b.size + bytes.length < 2 ^ 31)
  | .other m     => w.calls = [] → (m.heap buffer).native = (w.machine.heap buffer).native ∧
    m.service.fds fd = w.machine.service.fds fd

/-- The read ended like the run without `EAGAIN`, with every byte received when it is told. -/
def ReadSurvives [V8] (m : Machine) (fd : Int) (buffer : Nat) (cond : Cond) (closure : Closure) (q : List UInt8)
    (turns : List Turn) (w : Watch) : Prop :=
  Alive fd (.readUntil fd buffer cond closure) w ∧
  (∃ w', (turns.filter fun t => !blocked t).foldlM step ⟨m, [], []⟩ = .ok w' ∧ w'.calls = w.calls ∧
    w'.machine.heap buffer = w.machine.heap buffer) ∧
  ∀ c ∈ w.calls, ∃ u, c.2.Stores buffer (q ++ received turns) u

/-- The write sent and reported what one call does that meets the outcomes without `EAGAIN`. -/
def WriteSurvives (m : Machine) (fd : Int) (buffer : Nat) (callback : Cont) (ans : Answers) (c : Nat)
    (turns : List Turn) (w : Watch) : Prop :=
  Alive fd (.writeBuffer fd buffer callback) w ∧
  ∃ w', start (writeBuffer { ans with sends := smooth ans turns } fd buffer callback) m = .ok w' ∧
    w'.calls.map Prod.fst = w.calls.map Prod.fst ∧ w'.machine.kernel.sent c = w.machine.kernel.sent c

variable {fd : Int} {buffer u c : Nat} {q : List UInt8} {callback : Cont} {m : Machine} {w w' : Watch} {ans : Answers}

/-! ## Writes -/

theorem mem_smooth {s : Send} {turns : List Turn} (h : s ∈ smooth ans turns) : s ≠ .error .again := by
  rcases List.mem_append.1 h with h | h
  · exact (mem_outcomes h).2
  · obtain ⟨t, -, ht⟩ := List.mem_flatMap.1 h
    cases t with
    | event e ans => exact (mem_outcomes ht).2
    | other m => cases ht

/-- No `send` failed over the run, or `EAGAIN` is all it said. -/
theorem gentle_smooth (hans : Gentle ans) {turns : List Turn} (h : ∀ e ans, Turn.event e ans ∈ turns → Gentle ans) :
    Gentle { ans with sends := smooth ans turns } := by
  intro e he
  rcases List.mem_append.1 he with he | he
  · exact hans e (mem_outcomes he).1
  · obtain ⟨t, ht, he⟩ := List.mem_flatMap.1 he
    cases t with
    | event e' ans' => exact h e' ans' ht e (mem_outcomes he).1
    | other m => cases he

theorem foldl_offered : ∀ (turns : List Turn) (o : Outbox UInt8),
    turns.foldl (offered true) o = o.offer ((turns.flatMap sendOutcomes).map (reply true))
  | [], _ => rfl
  | .other _ :: turns, o => foldl_offered turns o
  | .event _ ans :: turns, o => by
    rw [List.foldl_cons, offered, foldl_offered turns, Outbox.offer_offer, beforeWait_replies, ← List.map_append]
    rfl

/-- **The events of a write are one offer**, that of the outcomes without `EAGAIN`. -/
theorem offeredBy_smooth (q : List UInt8) (ans : Answers) (turns : List Turn) :
    offeredBy true q ans turns = (Outbox.new q).offer (replies true (smooth ans turns)) := by
  have hself : outcomes (smooth ans turns) = smooth ans turns := outcomes_self fun _ => mem_smooth
  rw [← Outbox.offer_beforeWait _ (replies true (smooth ans turns)), beforeWait_replies, hself, offeredBy,
    foldl_offered, Outbox.offer_offer, beforeWait_replies, ← List.map_append]
  rfl

theorem along_gentle [V8] : ∀ {turns : List Turn} {w w' : Watch}, Run.Along step (Writable fd buffer) w turns →
    turns.foldlM step w = .ok w' → ∀ e ans, Turn.event e ans ∈ turns → Gentle ans
  | [], _, _, _, _ => fun _ _ h => nomatch h
  | t :: turns, w, w', hok, hrun => by
    intro e ans h
    obtain ⟨w₁, h1, h2⟩ := Run.foldlM_cons_ok hrun
    rcases List.mem_cons.1 h with rfl | h
    · exact hok.1.2
    · exact along_gentle (hok.2 w₁ h1) h2 e ans h

variable {m₀ : Machine} {temporary : Bool} {o : Outbox UInt8}

/-- What a write that has not failed has called. -/
theorem Sending.calls_eq (h : Sending m₀ fd buffer callback temporary u q w o) (hf : o.failed = false) :
    w.calls.map Prod.fst = if o.rest = [] then [.invoke callback 0] else [] := by
  by_cases hr : o.rest = []
  · obtain ⟨-, m, hcalls, -⟩ := h.ended (.inl hr)
    simp only [hcalls, if_pos hr, List.map_cons, List.map_nil]
  · have hov : ¬ o.ended := fun ho => ho.elim hr fun ho => by rw [hf] at ho; cases ho
    rw [(h.begun hov).1, if_neg hr]
    rfl

theorem Sending.alive (h : Sending m₀ fd buffer callback temporary u q w o) (hf : o.failed = false) :
    Alive fd (.writeBuffer fd buffer callback) w := by
  have hcalls := h.calls_eq hf
  by_cases hr : o.rest = []
  · rw [if_pos hr] at hcalls
    refine ⟨fun c hc he => ?_, fun hnil => ?_⟩
    · have := List.mem_map_of_mem (f := Prod.fst) hc
      rw [hcalls, he, List.mem_singleton] at this
      cases this
    · rw [hnil] at hcalls
      cases hcalls
  · rw [if_neg hr, List.map_eq_nil_iff] at hcalls
    have hov : ¬ o.ended := fun ho => ho.elim hr fun ho => by rw [hf] at ho; cases ho
    refine ⟨fun c hc => ?_, fun _ => (h.waiting hov).2.2⟩
    rw [hcalls] at hc
    cases hc

/-- **A write does not mind `EAGAIN`**: it goes on, and sends and reports what one call does that meets the same
outcomes of `send` without it. -/
theorem write_survives [V8] (callback : Cont) (hq : q.length < 2 ^ 31) (hs : m.Stores buffer q u)
    (hconn : m.kernel.conn fd = some c) (hans : Gentle ans) :
    ∃ w, start (writeBuffer ans fd buffer callback) m = .ok w ∧
      ∀ turns, Run.Along step (Writable fd buffer) w turns →
        ∃ w', turns.foldlM step w = .ok w' ∧ WriteSurvives m fd buffer callback ans c turns w' := by
  obtain ⟨w, hw, hrun⟩ := sending_run m fd ans callback hq hs rfl rfl
  refine ⟨w, hw, fun turns hok => ?_⟩
  obtain ⟨w', hw', hs'⟩ := hrun turns (hok.mono fun _ _ h => h.1)
  obtain ⟨w'', hw'', hrun''⟩ := sending_run m fd { ans with sends := smooth ans turns } callback hq hs rfl rfl
  obtain ⟨w₁, hw₁, hs''⟩ := hrun'' [] trivial
  cases hw₁
  have hgentle := gentle_smooth hans (along_gentle hok hw')
  have hf := Outbox.offer_sound (Outbox.new q) _ (gentle_replies hgentle) rfl
  rw [hconn, Option.isSome_some, offeredBy_smooth] at hs'
  rw [hconn, Option.isSome_some, offeredBy, List.foldl_nil] at hs''
  refine ⟨w', hw', hs'.alive hf, w'', hw'', ?_, ?_⟩
  · rw [hs'.calls_eq hf, hs''.calls_eq hf]
  · rw [hs'.sent c hconn, hs''.sent c hconn]

/-! ## Reads -/

/-- A pending read that has met no `EAGAIN`: the buffer has every byte received, when the callback is called too. -/
structure PendingRead (fd : Int) (buffer : Nat) (cond : Cond) (closure : Closure) (q : List UInt8) (w : Watch) : Prop
    extends Alive fd (.readUntil fd buffer cond closure) w where
  short : q.length < 2 ^ 31
  bytes : w.calls = [] → w.machine.Stores buffer q (2 ^ 61 + q.length)
  told  : ∀ c ∈ w.calls, c.2.Stores buffer q (2 ^ 61 + q.length)

variable {cond : Cond} {closure : Closure}

/-- What `condition()` and `callback()` leave. -/
theorem condition_then_frame {m' : Machine} {r : Option Task}
    (h : (do if ← condition buffer cond then return some (← callBack closure) else return none : M (Option Task)) m =
      .ok r m') :
    (∀ t ∈ r, ∃ arg, t = .invoke closure.callback arg) ∧ m'.heap = m.heap ∧ m'.service = m.service := by
  have hblind : Blind m.Same := fun _ _ h h' => h.trans h'
  obtain ⟨hsame, hr⟩ := (keeps_condition (E := m.Same) hblind).ends.ok (Same.refl m) h
  exact ⟨hr, hsame.heap, hsame.service⟩

/-- **A `recv` that would block triggers the fd's error callback.** -/
theorem onReadable_blocked (fd : Int) (cond : Cond) (closure : Closure) (hs : m.Stores buffer q u) (hu : u ≤ 2 ^ 62)
    (hans : ans.recv = .error .again) :
    ∃ m', onReadable ans fd buffer cond closure m = .ok (some (.triggerError fd)) m' := by
  obtain ⟨b, hb, hholds, hused⟩ := hs
  obtain ⟨b₁, hprep, -⟩ := Buffer.prepare_spec hholds (Buffer.fits_of_le (n := 8192) (by omega))
  obtain ⟨e, hread⟩ := _readBuffer_prepared ans fd hb hprep
  have hnone : recvOf ans (m.kernel.conn fd).isSome (b₁.remain 64) = none := by
    cases h : (m.kernel.conn fd).isSome <;> simp only [recvOf, hans]
  rw [hnone, finishRead_none] at hread
  rw [onReadable, bind_ok hread, if_pos rfl]
  exact ⟨_, rfl⟩

variable [V8]

theorem step_calls {t : Turn} (h : w.step t = .ok w') : w.calls <+: w'.calls := by
  cases t with
  | other m =>
    cases h
    exact List.prefix_rfl
  | event e ans =>
    simp only [step] at h
    split at h
    · cases h
    · rename_i f hf
      cases hr : runCallback ans f w.machine with
      | error e m =>
        rw [hr, ended] at h
        cases h
      | ok r m =>
        rw [hr, ended] at h
        cases h
        exact List.prefix_append _ _

/-- **Bytes arrive for a pending read.** -/
theorem PendingRead.step {t : Turn} (h : PendingRead fd buffer cond closure q w) (hok : Readable fd buffer w t)
    (hb : blocked t = false) (hstep : w.step t = .ok w') :
    PendingRead fd buffer cond closure (q ++ chunk t) w' := by
  cases t with
  | other m =>
    cases hstep
    rw [show chunk (.other m) = [] from rfl, List.append_nil]
    exact ⟨⟨h.calls, fun hnil => ((hok hnil).2).trans (h.fds hnil)⟩, h.short,
      fun hnil => (h.bytes hnil).congr (hok hnil).1, h.told⟩
  | event e ans =>
    obtain ⟨hnil, rfl, herr, hans⟩ := hok
    obtain ⟨bytes, b, hd, hnative, hlen⟩ := hans.resolve_left fun hans => by
      cases ans
      cases hans
      cases hb
    have hchunk : chunk (.event e ans) = bytes := by rw [chunk, hd.recv]
    have hs := h.bytes hnil
    obtain ⟨b', hb', hholds, -⟩ := h.bytes hnil
    obtain rfl := Option.some.inj (hnative.symm.trans hb')
    rw [hholds.size_eq] at hlen
    obtain ⟨b₂, hstores, hrun⟩ := @onReadable_run _ _ _ _ _ ans _ cond closure hs (by omega) hd
      (by omega)
    have hcall : w.machine.service.callbackOf e = some (.readUntil e.fd buffer cond closure) := by
      rw [Service.callbackOf, herr]
      exact h.fds hnil
    simp only [Watch.step, hcall, runCallback] at hstep
    rw [hrun] at hstep
    cases hr : (do if ← condition buffer cond then return some (← callBack closure) else return none :
        M (Option Task)) (w.machine.setBuffer buffer b₂) with
    | error e m =>
      rw [hr, ended] at hstep
      cases hstep
    | ok r m =>
      obtain ⟨hr', hheap, hservice⟩ := condition_then_frame hr
      rw [hr, ended, hnil, List.nil_append] at hstep
      cases hstep
      have hm : m.Stores buffer (q ++ bytes) (2 ^ 61 + (q ++ bytes).length) :=
        (hstores.congr (by rw [hheap])).mono (by rw [List.length_append]; omega)
      rw [hchunk]
      refine ⟨⟨fun c hc => ?_, fun _ => ?_⟩, by rwa [List.length_append], fun _ => hm, fun c hc => ?_⟩
      · obtain ⟨t, ht, rfl⟩ := List.mem_map.1 hc
        obtain ⟨arg, rfl⟩ := hr' t (Option.mem_toList.1 ht)
        rintro ⟨⟩
      · rw [hservice]
        exact h.fds hnil
      · obtain ⟨t, -, rfl⟩ := List.mem_map.1 hc
        exact hm

theorem PendingRead.step_blocked {t : Turn} (h : PendingRead fd buffer cond closure q w)
    (hok : Readable fd buffer w t) (hb : blocked t = true) (hstep : w.step t = .ok w') :
    ∃ c ∈ w'.calls, c.1 = .triggerError fd := by
  cases t with
  | other m => cases hb
  | event e ans =>
    obtain ⟨hnil, rfl, herr, hans⟩ := hok
    have hans : ans.recv = .error .again := by
      unfold blocked at hb
      split at hb
      · rename_i heq
        cases heq
        rfl
      · cases hb
    have hshort := h.short
    obtain ⟨m, hrun⟩ := onReadable_blocked e.fd cond closure (h.bytes hnil) (by omega) hans
    have hcall : w.machine.service.callbackOf e = some (.readUntil e.fd buffer cond closure) := by
      rw [Service.callbackOf, herr]
      exact h.fds hnil
    simp only [Watch.step, hcall, runCallback] at hstep
    rw [hrun, ended, hnil] at hstep
    cases hstep
    exact ⟨_, List.mem_cons_self, rfl⟩

/-- **Over a run** the read is pending, or told, with every byte received; or it met `EAGAIN`. -/
theorem PendingRead.run : ∀ (turns : List Turn) (w : Watch) (q : List UInt8), PendingRead fd buffer cond closure q w →
    Run.Along Watch.step (Readable fd buffer) w turns → turns.foldlM Watch.step w = .ok w' →
    (∀ t ∈ turns, blocked t = false) ∧ PendingRead fd buffer cond closure (q ++ received turns) w' ∨
      (∃ t ∈ turns, blocked t = true) ∧ ∃ c ∈ w'.calls, c.1 = .triggerError fd
  | [], w, q, h, _, hrun => by
    cases hrun
    rw [received, List.flatMap_nil, List.append_nil]
    exact .inl ⟨List.forall_mem_nil _, h⟩
  | t :: turns, w, q, h, hok, hrun => by
    obtain ⟨w₁, hstep, hrest⟩ := Run.foldlM_cons_ok hrun
    cases hb : blocked t with
    | false =>
      have hrec : q ++ received (t :: turns) = q ++ chunk t ++ received turns := by
        rw [received, List.flatMap_cons, ← received, List.append_assoc]
      rw [hrec]
      rcases PendingRead.run turns w₁ _ (h.step hok.1 hb hstep) (hok.2 w₁ hstep) hrest with ⟨hall, hp⟩ | ⟨hex, hc⟩
      · exact .inl ⟨List.forall_mem_cons.2 ⟨hb, hall⟩, hp⟩
      · obtain ⟨t', ht', hb'⟩ := hex
        exact .inr ⟨⟨t', List.mem_cons_of_mem t ht', hb'⟩, hc⟩
    | true =>
      obtain ⟨c, hc, hctrigger⟩ := h.step_blocked hok.1 hb hstep
      have hkept : w₁.calls <+: w'.calls := by
        refine Run.invariant (I := fun w => w₁.calls <+: w.calls) (fun w t w' hw _ hs => hw.trans (step_calls hs)) turns
          w₁ w' List.prefix_rfl (hok.2 w₁ hstep) hrest
      exact .inr ⟨⟨t, List.mem_cons_self, hb⟩, c, hkept.subset hc, hctrigger⟩

/-- **`EAGAIN` and a pending operation**: a read survives exactly if its `recv` does not meet one, and a write survives
any number. -/
theorem pending_survives_iff (fd : Int) :
    (∀ (m : Machine) (buffer : Nat) (cond : Cond) (closure : Closure) (q : List UInt8) (turns : List Turn) (w : Watch),
      m.service.fds fd = some (.readUntil fd buffer cond closure) → m.Stores buffer q (2 ^ 61) → q.length < 2 ^ 31 →
      Run.Along Watch.step (Readable fd buffer) ⟨m, [], []⟩ turns → turns.foldlM Watch.step ⟨m, [], []⟩ = .ok w →
      (ReadSurvives m fd buffer cond closure q turns w ↔ ∀ t ∈ turns, blocked t = false)) ∧
    ∀ (m : Machine) (buffer u c : Nat) (callback : Cont) (q : List UInt8) (ans : Answers), m.Stores buffer q u →
      q.length < 2 ^ 31 → m.kernel.conn fd = some c → Gentle ans →
      ∃ w, start (writeBuffer ans fd buffer callback) m = .ok w ∧
        ∀ turns, Run.Along Watch.step (Writable fd buffer) w turns →
          ∃ w', turns.foldlM Watch.step w = .ok w' ∧ WriteSurvives m fd buffer callback ans c turns w' := by
  refine ⟨fun m buffer cond closure q turns w hf hs hq hok hrun => ?_,
    fun m buffer u c callback q ans hs hq hconn hans => write_survives callback hq hs hconn hans⟩
  have hpending : PendingRead fd buffer cond closure q ⟨m, [], []⟩ :=
    ⟨⟨(fun _ hc => nomatch hc), fun _ => hf⟩, hq, fun _ => hs.mono (Nat.le_add_right _ _), fun _ hc => nomatch hc⟩
  rcases hpending.run turns _ _ hok hrun with ⟨hall, hp⟩ | ⟨⟨t, ht, hb⟩, c, hc, htrigger⟩
  · refine iff_of_true ⟨hp.toAlive, ⟨w, ?_, rfl, rfl⟩, fun c hc => ⟨_, hp.told c hc⟩⟩ hall
    rwa [List.filter_eq_self.2 fun t ht => by rw [hall t ht]; rfl]
  · refine iff_of_false (fun h => h.1.calls c hc htrigger) fun hall => ?_
    rw [hall t ht] at hb
    cases hb

omit [V8]

/-- Three bytes are waited for on fd 5, which go to buffer 2. -/
def awaitingThree : Machine :=
  { Machine.listening [1, 2, 3] with service := (Service.new.pollIn 5
      (.readUntil 5 2 (.size (some 3)) (.size (some 3) (.user 0)))).1 }

def readable (recv : Recv) : Turn := .event ⟨5, epollIn⟩ ⟨recv, [], none⟩

theorem pending_survives_three :
    (∃ w, [readable (.data [7, 8, 9])].foldlM (@step ascii) ⟨awaitingThree, [], []⟩ = .ok w ∧
      @ReadSurvives ascii awaitingThree 5 2 (.size (some 3)) (.size (some 3) (.user 0)) []
        [readable (.data [7, 8, 9])] w) ∧
    ∃ w w', start (writeBuffer ⟨.data [], [.accept 0, .error .again], none⟩ 5 0 (.user 0)) awaitingThree = .ok w ∧
      [Turn.event ⟨5, epollOut⟩ ⟨.data [], [.accept 7], none⟩].foldlM (@step ascii) w = .ok w' ∧
      WriteSurvives awaitingThree 5 0 (.user 0) ⟨.data [], [.accept 0, .error .again], none⟩ 0
        [Turn.event ⟨5, epollOut⟩ ⟨.data [], [.accept 7], none⟩] w' := by
  obtain ⟨hread, hwrite⟩ := @pending_survives_iff ascii 5
  have hempty : Buffer.Holds 64 (Buffer.new 512) [] := Buffer.new_spec (by decide) (by decide)
  obtain ⟨b₁, hprep, hremain⟩ := Buffer.prepare_remain hempty (Buffer.fits_of_le (n := 8192) (by decide))
  constructor
  · obtain ⟨w, hw, -⟩ := Run.exists_of_any
      (x := [readable (.data [7, 8, 9])].foldlM (@step ascii) ⟨awaitingThree, [], []⟩)
      (p := fun _ => true) (by decide +kernel)
    have hfit : [7, 8, (9 : UInt8)].length ≤ b₁.remain 64 := Nat.le_trans (by decide) hremain
    have hok : Run.Along (@step ascii) (Readable 5 2) ⟨awaitingThree, [], []⟩ [readable (.data [7, 8, 9])] :=
      ⟨⟨rfl, rfl, rfl, .inr ⟨_, _, ⟨rfl, rfl, by decide, _, b₁, rfl, hprep, hfit⟩, rfl, by decide⟩⟩,
        fun _ _ => trivial⟩
    exact ⟨w, hw, (hread awaitingThree 2 _ _ [] _ w rfl ⟨_, rfl, hempty, by decide⟩ (by decide) hok hw).2 (by decide)⟩
  · have hgentle : Gentle ⟨.data [], [.accept 0, .error .again], none⟩ := fun e he => by simpa using he
    obtain ⟨w, hw, h⟩ := hwrite awaitingThree 0 3 0 (.user 0) [1, 2, 3] _
      ⟨_, rfl, Buffer.full_holds (by decide) (by decide), Nat.le_refl 3⟩ (by decide) rfl hgentle
    obtain ⟨w', hw', hs⟩ := h [.event ⟨5, epollOut⟩ ⟨.data [], [.accept 7], none⟩]
      ⟨⟨⟨rfl, rfl⟩, gentle_accept 7⟩, fun _ _ => trivial⟩
    exact ⟨w, w', hw, hw', hs⟩

/-- **One `recv` that would block ends a pending read**: the error callback is triggered, before any byte came. -/
theorem blocked_read_dies : ∃ w,
    Run.Along (@step ascii) (Readable 5 2) ⟨awaitingThree, [], []⟩ [readable (.error .again)] ∧
    [readable (.error .again)].foldlM (@step ascii) ⟨awaitingThree, [], []⟩ = .ok w ∧
    w.calls.map Prod.fst = [.triggerError 5] ∧
    ¬ Alive 5 (.readUntil 5 2 (.size (some 3)) (.size (some 3) (.user 0))) w := by
  obtain ⟨w, hw, hcalls⟩ := Run.exists_of_any
    (x := [readable (.error .again)].foldlM (@step ascii) ⟨awaitingThree, [], []⟩)
    (p := fun w => decide (w.calls.map Prod.fst = [.triggerError 5])) (by decide +kernel)
  rw [decide_eq_true_eq] at hcalls
  refine ⟨w, ⟨⟨rfl, rfl, rfl, .inl rfl⟩, fun _ _ => trivial⟩, hw, hcalls, fun h => ?_⟩
  obtain ⟨c, hc, htrigger⟩ := List.mem_map.1 (hcalls ▸ List.mem_singleton_self (Task.triggerError 5))
  exact h.calls c hc htrigger

end Watch
end V8h
