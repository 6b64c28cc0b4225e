import V8h.SocketSpec
import V8h.Watch
import V8h.Lib.Outbox
/-!
# SocketWrite — `writeBuffer` and `writeUtf8`, over the writable events they take

The content of the buffer is an `Outbox` that is offered to `send`: the loop of `Socket::_write_buffer` is
`Outbox.offer` (`writeLoop_run`), and what the caller is told when nothing is offered any more, it is told once
(`Sending`).
-/
namespace V8h
namespace Socket

open Machine Effect

/-- What `send` answers on an fd that is open or not. -/
def reply (isOpen : Bool) : Send → Reply
  | .accept n => if isOpen then .took (n + 1) else .fail
  | .error e  => if isOpen ∧ e = .again then .wait else .fail

/-- What it answers to the calls of one loop; after the answers given it asks to wait. -/
def replies (isOpen : Bool) (answers : List Send) : List Reply := (answers ++ [Send.error .again]).map (reply isOpen)

variable {m m' m'' : Machine} {fd : Int} {buffer u : Nat} {base : Nat → List UInt8} {q : List UInt8}
  {o : Outbox UInt8}

/-- Two states that differ in the bytes of a buffer, the bytes sent on an fd and `errno` at most. -/
def Spent (fd : Int) (buffer : Nat) (m m' : Machine) : Prop :=
  ∃ b k, m' = { m.setBuffer buffer b with kernel := k } ∧ k.conn = m.kernel.conn ∧ k.nextConn = m.kernel.nextConn ∧
    ∀ c, m.kernel.conn fd ≠ some c → k.sent c = m.kernel.sent c

theorem Spent.conn (h : Spent fd buffer m m') : m'.kernel.conn = m.kernel.conn := by
  obtain ⟨b, k, rfl, h1, -⟩ := h
  exact h1

theorem Spent.service (h : Spent fd buffer m m') : m'.service = m.service := by
  obtain ⟨b, k, rfl, -⟩ := h
  rfl

theorem Spent.clients (h : Spent fd buffer m m') : m'.clients = m.clients := by
  obtain ⟨b, k, rfl, -⟩ := h
  rfl

theorem Spent.pushes (h : Spent fd buffer m m') : m'.pushes = m.pushes := by
  obtain ⟨b, k, rfl, -⟩ := h
  rfl

theorem Spent.temporary (h : Spent fd buffer m m') : (m'.heap buffer).temporary = (m.heap buffer).temporary := by
  obtain ⟨b, k, rfl, -⟩ := h
  show ((m.setBuffer buffer b).heap buffer).temporary = _
  rw [setBuffer_heap_self]

theorem Spent.around (h : Spent fd buffer m m') : Around buffer m m' := by
  obtain ⟨b, k, rfl, hconn, -⟩ := h
  exact ⟨fun id' hne => setBuffer_heap_of_ne m buffer b hne, by rw [setBuffer_heap_self], rfl, hconn⟩

theorem Spent.trans (h : Spent fd buffer m m') (h' : Spent fd buffer m' m'') : Spent fd buffer m m'' := by
  obtain ⟨b, k, rfl, h1, h2, h3⟩ := h
  obtain ⟨b', k', rfl, h1', h2', h3'⟩ := h'
  refine ⟨b', k', ?_, h1'.trans h1, h2'.trans h2, fun c hc => (h3' c (by rwa [h1])).trans (h3 c hc)⟩
  simp only [setBuffer, Function.update_self, Function.update_idem]

/-- The buffer holds what is left, and what was accepted is sent. -/
structure Offering (fd : Int) (buffer : Nat) (base : Nat → List UInt8) (u : Nat) (o : Outbox UInt8) (m : Machine) :
    Prop where
  stores : m.Stores buffer o.rest u
  sent   : ∀ c, m.kernel.conn fd = some c → m.kernel.sent c = base c ++ o.accepted

theorem lift_peek {b : Buffer} (h : Buffer.Holds 64 b q) : lift (b.peek b.size) m = .ok q m := by
  rw [Buffer.peek_spec h (Nat.le_refl _), List.take_of_length_le (Nat.le_of_eq h.size_eq.symm)]
  rfl

theorem send_failed (m : Machine) (fd : Int) (data : List UInt8) (answer : Send)
    (h : ∀ n, reply (m.kernel.conn fd).isSome answer ≠ .took n) :
    ∃ e, send fd data answer m = .ok (-1) { m with kernel := { m.kernel with errno := e } } ∧
      reply (m.kernel.conn fd).isSome answer = if e = .again then .wait else .fail := by
  cases hc : m.kernel.conn fd with
  | none => exact ⟨.badFd, by simp only [send, hc], by cases answer <;> simp [reply]⟩
  | some c =>
    cases answer with
    | accept n => exact absurd (by rw [hc]; rfl) (h (n + 1))
    | error e => exact ⟨e, by simp only [send, hc], by simp [reply]⟩

theorem send_took (data : List UInt8) {answer : Send} {n : Nat} (h : reply (m.kernel.conn fd).isSome answer = .took n) :
    0 < n ∧ ∃ c, m.kernel.conn fd = some c ∧ send fd data answer m = .ok (data.take n).length { m with
      kernel := { m.kernel with sent := Function.update m.kernel.sent c (m.kernel.sent c ++ data.take n) } } := by
  cases hc : m.kernel.conn fd with
  | none =>
    rw [hc] at h
    cases answer <;> simp [reply] at h
  | some c =>
    rw [hc] at h
    cases answer with
    | error e =>
      simp only [reply] at h
      split at h <;> cases h
    | accept k =>
      obtain rfl : k + 1 = n := by simpa [reply] using h
      exact ⟨Nat.succ_pos k, c, rfl, by simp only [send, hc]⟩

theorem spent_kernel (h : m.Stores buffer q u) {k : Kernel} (hconn : k.conn = m.kernel.conn)
    (hnext : k.nextConn = m.kernel.nextConn) (hsent : k.sent = m.kernel.sent) :
    Spent fd buffer m { m with kernel := k } := by
  obtain ⟨b, hb, -⟩ := h
  exact ⟨b, k, by rw [setBuffer_self hb], hconn, hnext, fun _ _ => by rw [hsent]⟩

theorem writeLoop_stop (fd : Int) (hs : m.Stores buffer q u) (hq : q ≠ []) (n : Int) (answer : Send)
    (answers : List Send)
    (hnot : ∀ k, reply (m.kernel.conn fd).isSome answer ≠ .took k) : ∃ e,
      writeLoop fd buffer n (answer :: answers) m = .ok (if e = .again then 0 else -1)
        { m with kernel := { m.kernel with errno := e } } ∧
      reply (m.kernel.conn fd).isSome answer = if e = .again then .wait else .fail := by
  obtain ⟨b, hb, hholds, -⟩ := hs
  have hz : ¬ b.size = 0 := by rwa [hholds.size_eq, List.length_eq_zero_iff]
  have hpeek : lift (b.peek b.size) m = .ok q m := lift_peek hholds
  obtain ⟨e, hsend, hreply⟩ := send_failed m fd q answer hnot
  refine ⟨e, ?_, hreply⟩
  rw [writeLoop]
  simp only [bind_run, native_run hb, ite_run, if_neg hz, hpeek, hsend, show toInt (-1) = -1 by decide,
    show ¬ (-1 : Int) > 0 by decide, if_false, if_true, get_run, pure_run]

/-- **One turn of the loop.** -/
theorem writeLoop_step (fd : Int) (hs : m.Stores buffer q u) (hq : q ≠ []) (hlen : q.length < 2 ^ 31) (n : Int)
    (answer : Send)
    (answers : List Send) :
    match reply (m.kernel.conn fd).isSome answer with
    | .took k => ∃ n' m', writeLoop fd buffer n (answer :: answers) m = writeLoop fd buffer n' answers m' ∧ n' ≠ -1 ∧
        Spent fd buffer m m' ∧ m'.Stores buffer (q.drop k) u ∧
        ∀ c, m.kernel.conn fd = some c → m'.kernel.sent c = m.kernel.sent c ++ q.take k
    | .wait   => ∃ m', writeLoop fd buffer n (answer :: answers) m = .ok 0 m' ∧ Spent fd buffer m m' ∧
      m'.Stores buffer q u ∧
        m'.kernel.sent = m.kernel.sent
    | .fail   => ∃ m', writeLoop fd buffer n (answer :: answers) m = .ok (-1) m' ∧ Spent fd buffer m m' ∧
        m'.Stores buffer q u ∧ m'.kernel.sent = m.kernel.sent := by
  obtain ⟨b, hb, hholds, hused⟩ := hs
  have hsize := hholds.size_eq
  have hpos : 0 < q.length := List.length_pos_iff.2 hq
  have hpeek : lift (b.peek b.size) m = .ok q m := lift_peek hholds
  have hstop := writeLoop_stop fd ⟨b, hb, hholds, hused⟩ hq n answer answers
  split
  · rename_i k hk
    obtain ⟨hk0, c, hc, hsend⟩ := send_took q hk
    let m₁ : Machine := { m with
      kernel := { m.kernel with sent := Function.update m.kernel.sent c (m.kernel.sent c ++ q.take k) } }
    let len := (q.take k).length
    have hlen0 : 0 < len := by
      show 0 < (q.take k).length
      rw [List.length_take]
      omega
    have hlen1 : len ≤ q.length := List.length_take_le' ..
    have hint : toInt (len : Int) = len := toInt_of_lt (by omega) (by omega)
    refine ⟨len, m₁.setBuffer buffer (b.consume 64 len), ?_, by omega, ?_, ?_, ?_⟩
    · have hz : ¬ b.size = 0 := by omega
      have hgt : ((len : Nat) : Int) > 0 := by omega
      have hsend' : send fd q answer m = .ok (len : Int) m₁ := hsend
      rw [writeLoop]
      simp only [bind_run, native_run hb, ite_run, if_neg hz, hpeek, hsend', hint, if_pos hgt, setNative_run,
        Int.toNat_natCast]
    · refine ⟨b.consume 64 len, m₁.kernel, rfl, rfl, rfl, fun c' hc' => Function.update_of_ne ?_ ..⟩
      rintro rfl
      exact hc' hc
    · refine stores_setBuffer ?_ ?_
      · have hdrop := Buffer.consume_spec len hholds
        have : q.drop len = q.drop k := by
          rcases Nat.le_total k q.length with hle | hle
          · rw [show len = k from by show (q.take k).length = k; rw [List.length_take]; omega]
          · rw [List.drop_of_length_le hle, show len = q.length from by
              show (q.take k).length = q.length; rw [List.length_take]; omega, List.drop_length]
        rwa [this] at hdrop
      · exact Nat.le_trans (Buffer.consume_used b len) hused
    · intro c' hc'
      obtain rfl := Option.some.inj (hc.symm.trans hc')
      exact Function.update_self ..
  · rename_i hw
    obtain ⟨e, hrun, hreply⟩ := hstop fun k hk => by rw [hw] at hk; cases hk
    have he : e = .again := by
      by_contra hne
      rw [hw, if_neg hne] at hreply
      cases hreply
    rw [if_pos he] at hrun
    exact ⟨_, hrun, spent_kernel ⟨b, hb, hholds, hused⟩ rfl rfl rfl, ⟨b, hb, hholds, hused⟩, rfl⟩
  · rename_i hf
    obtain ⟨e, hrun, hreply⟩ := hstop fun k hk => by rw [hf] at hk; cases hk
    have he : e ≠ .again := by
      rintro rfl
      rw [hf, if_pos rfl] at hreply
      cases hreply
    rw [if_neg he] at hrun
    exact ⟨_, hrun, spent_kernel ⟨b, hb, hholds, hused⟩ rfl rfl rfl, ⟨b, hb, hholds, hused⟩, rfl⟩

/-- `send` answers `EAGAIN` when the answers are used up. -/
theorem writeLoop_nil (hs : m.Stores buffer q u) (hq : q ≠ []) (n : Int) :
    writeLoop fd buffer n [] m = writeLoop fd buffer n [.error .again] m := by
  obtain ⟨b, hb, hholds, -⟩ := hs
  have hz : ¬ b.size = 0 := by rwa [hholds.size_eq, List.length_eq_zero_iff]
  have hpeek : lift (b.peek b.size) m = .ok q m := lift_peek hholds
  obtain ⟨e, hsend, -⟩ := send_failed m fd q (.error .again) fun n h => by
    simp only [reply] at h
    split at h <;> cases h
  rw [writeLoop, writeLoop]
  simp only [bind_run, native_run hb, ite_run, if_neg hz, hpeek, hsend, show toInt (-1) = -1 by decide,
    show ¬ (-1 : Int) > 0 by decide, if_false, if_true, get_run, pure_run]

theorem writeLoop_empty (hs : m.Stores buffer [] u) (n : Int) (answers : List Send) :
    writeLoop fd buffer n answers m = .ok n m := by
  obtain ⟨b, hb, hholds, -⟩ := hs
  have hz : b.size = 0 := hholds.size_eq
  cases answers <;> rw [writeLoop, bind_ok (native_run hb), if_pos hz, pure_run]

/-- **The loop offers the content of the buffer to `send`**, and returns -1 exactly when `send` failed. -/
theorem writeLoop_run : ∀ (answers : List Send) (n : Int) (m : Machine) (o : Outbox UInt8), n ≠ -1 →
    Offering fd buffer base u o m → o.failed = false → o.rest.length < 2 ^ 31 →
    ∃ r m', writeLoop fd buffer n answers m = .ok r m' ∧
      (r = -1 ↔ (o.offer (replies (m.kernel.conn fd).isSome answers)).failed = true) ∧
      Offering fd buffer base u (o.offer (replies (m.kernel.conn fd).isSome answers)) m' ∧ Spent fd buffer m m'
  | answers, n, m, ⟨accepted, [], failed⟩, hn, ho, hf, _ => by
    rw [Outbox.offer_ended (Or.inl rfl)]
    exact ⟨n, m, writeLoop_empty ho.stores n answers, by simpa [hn] using hf, ho, spent_kernel ho.stores rfl rfl rfl⟩
  | [], n, m, ⟨accepted, a :: q, failed⟩, hn, ho, hf, hlen => by
    have hgo : ¬ (a :: q = [] ∨ failed = true) := by simpa using hf
    have hstep := writeLoop_step fd ho.stores (List.cons_ne_nil a q) hlen n (.error .again) []
    rw [writeLoop_nil ho.stores (List.cons_ne_nil a q)]
    simp only [replies, List.nil_append, List.map_cons, List.map_nil, Outbox.offer, if_neg hgo]
    cases hr : reply (m.kernel.conn fd).isSome (.error .again) with
    | took k =>
      simp only [reply] at hr
      split at hr <;> cases hr
    | wait =>
      rw [hr] at hstep
      obtain ⟨m', hrun, hsp, hst, hse⟩ := hstep
      exact ⟨0, m', hrun, by simpa using hf, ⟨hst, fun c hc => by rw [hse]; exact ho.sent c (hsp.conn ▸ hc)⟩, hsp⟩
    | fail =>
      rw [hr] at hstep
      obtain ⟨m', hrun, hsp, hst, hse⟩ := hstep
      exact ⟨-1, m', hrun, by simp, ⟨hst, fun c hc => by rw [hse]; exact ho.sent c (hsp.conn ▸ hc)⟩, hsp⟩
  | answer :: answers, n, m, ⟨accepted, a :: q, failed⟩, hn, ho, hf, hlen => by
    have hgo : ¬ (a :: q = [] ∨ failed = true) := by simpa using hf
    have hstep := writeLoop_step fd ho.stores (List.cons_ne_nil a q) hlen n answer answers
    simp only [replies, List.cons_append, List.map_cons, Outbox.offer, if_neg hgo]
    cases hr : reply (m.kernel.conn fd).isSome answer with
    | took k =>
      rw [hr] at hstep
      obtain ⟨n', m₁, hrun, hn', hsp, hst, hse⟩ := hstep
      rw [hrun]
      have ho₁ : Offering fd buffer base u ⟨accepted ++ (a :: q).take k, (a :: q).drop k, false⟩ m₁ := by
        refine ⟨hst, fun c hc => ?_⟩
        rw [hsp.conn] at hc
        rw [hse c hc, ho.sent c hc, List.append_assoc]
      have hlen₁ : ((a :: q).drop k).length < 2 ^ 31 := by
        rw [List.length_drop]
        exact Nat.lt_of_le_of_lt (Nat.sub_le _ _) hlen
      obtain ⟨r, m', h1, h2, h3, h4⟩ := writeLoop_run answers n' m₁ _ hn' ho₁ rfl hlen₁
      rw [hsp.conn] at h2 h3
      exact ⟨r, m', h1, h2, h3, hsp.trans h4⟩
    | wait =>
      rw [hr] at hstep
      obtain ⟨m', hrun, hsp, hst, hse⟩ := hstep
      exact ⟨0, m', hrun, by simpa using hf, ⟨hst, fun c hc => by rw [hse]; exact ho.sent c (hsp.conn ▸ hc)⟩, hsp⟩
    | fail =>
      rw [hr] at hstep
      obtain ⟨m', hrun, hsp, hst, hse⟩ := hstep
      exact ⟨-1, m', hrun, by simp, ⟨hst, fun c hc => by rw [hse]; exact ho.sent c (hsp.conn ▸ hc)⟩, hsp⟩

/-- The machine after `$out fd, ->`. -/
def outEmpty (m : Machine) (fd : Int) : Machine := { m with service := (m.service.pollOut fd .empty).1 }

/-- **`Socket.writeBuffer`**, up to what it does when nothing is offered any more. -/
theorem writeBuffer_run (ans : Answers) (callback : Cont) (ho : Offering fd buffer base u o m) (hf : o.failed = false)
    (hlen : o.rest.length < 2 ^ 31) : ∃ m₁, Spent fd buffer (outEmpty m fd) m₁ ∧
      Offering fd buffer base u (o.offer (replies (m.kernel.conn fd).isSome ans.sends)) m₁ ∧
      writeBuffer ans fd buffer callback m =
        if (o.offer (replies (m.kernel.conn fd).isSome ans.sends)).ended then
          (do release buffer
              return some (if (o.offer (replies (m.kernel.conn fd).isSome ans.sends)).rest = [] then .invoke callback 0
                else .triggerError fd) : M (Option Task)) m₁
        else .ok none { m₁ with service := (m₁.service.pollOut fd (.writeBuffer fd buffer callback)).1 } := by
  have ho₁ : Offering fd buffer base u o (outEmpty m fd) := ⟨ho.stores, ho.sent⟩
  obtain ⟨r, m₁, hrun, hr, ho', hsp⟩ := writeLoop_run ans.sends 0 (outEmpty m fd) o (by decide) ho₁ hf hlen
  generalize hout : o.offer (replies (m.kernel.conn fd).isSome ans.sends) = o'
  have hr' : r = -1 ↔ o'.failed = true := hout ▸ hr
  have ho' : Offering fd buffer base u o' m₁ := hout ▸ ho'
  have hlen' : o'.rest.length ≤ o.rest.length := hout ▸ (Outbox.offer_rest o _).length_le
  have hsize : Script.size buffer m₁ = .ok o'.rest.length m₁ := Script.size_run ho'.stores (by omega)
  refine ⟨m₁, hsp, ho', ?_⟩
  have hover : (r = -1 ∨ o'.rest.length = 0) ↔ o'.ended := by
    rw [hr', List.length_eq_zero_iff, Outbox.ended, or_comm]
  rw [writeBuffer]
  refine (bind_ok rfl).trans ((bind_ok hrun).trans ((bind_ok hsize).trans ?_))
  by_cases h : o'.ended
  · rw [if_pos (hover.2 h), if_pos h]
    simp only [bind_run, List.length_eq_zero_iff]
    cases release buffer m₁ with
    | error e m₂ => rfl
    | ok _ m₂ =>
      simp only
      split <;> rfl
  · rw [if_neg (fun h' => h (hover.1 h')), if_neg h]
    exact bind_ok rfl

theorem release_plain (h : (m.heap buffer).temporary = false) : release buffer m = .ok () m := by
  rw [release]
  refine (bind_ok (get_run m)).trans ?_
  rw [h]
  rfl

/-- A temporary buffer is handed to the pool, which keeps its content unless it closes it. -/
theorem release_temporary {b : Buffer} (h : (m.heap buffer).temporary = true) (hb : (m.heap buffer).native = some b) :
    ∃ m', release buffer m = .ok () m' ∧ m'.kernel = m.kernel ∧ m'.service = m.service ∧
      m'.pushes = buffer :: m.pushes ∧
      ((m'.heap buffer).native = some b ∨
        (m'.heap buffer).native = none ∧ (m.heap buffer).pushed = false ∧ BufferPool.Refuses m' b) := by
  have hb' : ((Function.update m.heap buffer { m.heap buffer with temporary := false }) buffer).native = some b := by
    rw [Function.update_self]
    exact hb
  have hrun : release buffer m = BufferPool.push buffer
      { m with heap := Function.update m.heap buffer { m.heap buffer with temporary := false } } := by
    rw [release]
    refine (bind_ok (get_run m)).trans ?_
    rw [h]
    rfl
  refine ⟨_, hrun.trans (BufferPool.push_run hb'), ?_⟩
  simp only [Function.update_self]
  split
  · exact ⟨rfl, rfl, rfl, Or.inl hb'⟩
  · rename_i hp
    split
    · rename_i href
      exact ⟨rfl, rfl, rfl, Or.inr ⟨by simp only [Function.update_self], by simpa using hp, href⟩⟩
    · exact ⟨rfl, rfl, rfl, Or.inl (by simp only [Function.update_self]; exact hb)⟩

/-- **`Socket.writeUtf8`** writes to a buffer of the pool, and then from it. -/
theorem writeUtf8_run [V8] (fd : Int) (ans : Answers) (callback : Cont) {text : JsString}
    (hpool : ∀ b ∈ m.pool.buffers.head?, ∃ q u, m.Stores b q u) (hlen : (V8.utf8 text).length < 2 ^ 31) : ∃ m₁,
      writeUtf8 ans fd text callback m = writeBuffer ans fd (m.pool.buffers.head?.getD m.nextBuffer) callback m₁ ∧
      m₁.Stores (m.pool.buffers.head?.getD m.nextBuffer) (V8.utf8 text) (2 ^ 31) ∧
      (m₁.heap (m.pool.buffers.head?.getD m.nextBuffer)).temporary = true ∧
      m₁.kernel = m.kernel ∧ m₁.service = m.service ∧ m₁.pushes = m.pushes := by
  obtain ⟨m₂, hpop, hstores, hk, hs, hp, -⟩ := BufferPool.pop_spec hpool
  generalize m.pool.buffers.head?.getD m.nextBuffer = id at hpop hstores ⊢
  obtain ⟨b, hw, hstores'⟩ := Script.writeUtf8_run text hstores (by omega)
  let m₃ := m₂.setBuffer id b
  refine ⟨{ m₃ with heap := Function.update m₃.heap id { m₃.heap id with temporary := true } }, ?_, ?_,
    by simp only [Function.update_self], hk, hs, hp⟩
  · rw [writeUtf8]
    exact (bind_ok hpop).trans ((bind_ok hw).trans (bind_ok (modify_run _ _)))
  · exact (hstores'.congr (by simp only [Function.update_self]; rfl)).mono (by omega)

end Socket

namespace Watch

open Machine Effect Socket

/-- A turn taken while one write goes on: an event of the fd, or anything that leaves the fd alone, and the buffer as
long as the write is not over. -/
def Writing (fd : Int) (buffer : Nat) (w : Watch) : Turn → Prop
  | .event e _ => e.fd = fd ∧ e.isError = false
  | .other m   => m.service.fds fd = w.machine.service.fds fd ∧ m.kernel.conn fd = w.machine.kernel.conn fd ∧
    (∀ c, m.kernel.conn fd = some c → m.kernel.sent c = w.machine.kernel.sent c) ∧
    (w.calls = [] → m.heap buffer = w.machine.heap buffer)

/-- What a turn does to what is offered. -/
def offered (isOpen : Bool) (o : Outbox UInt8) : Turn → Outbox UInt8
  | .event _ ans => o.offer (replies isOpen ans.sends)
  | .other _     => o

/-- What is left of a write after some turns. -/
def offeredBy (isOpen : Bool) (q : List UInt8) (ans : Answers) (turns : List Turn) : Outbox UInt8 :=
  turns.foldl (offered isOpen) ((Outbox.new q).offer (replies isOpen ans.sends))

/-- What one write has done and reported when `o` is left of it. -/
structure Wrote (m₀ : Machine) (fd : Int) (buffer : Nat) (callback : Cont) (temporary : Bool) (q : List UInt8)
    (o : Outbox UInt8) (w : Watch) : Prop where
  whole  : o.accepted ++ o.rest = q
  failed : o.failed = true → o.rest ≠ []
  sent   : ∀ c, m₀.kernel.conn fd = some c → w.machine.kernel.sent c = m₀.kernel.sent c ++ o.accepted
  begun  : ¬ o.ended → w.calls = [] ∧ w.pushes = []
  ended  : o.ended → w.pushes = (if temporary then [buffer] else []) ∧ ∃ m,
    w.calls = [(if o.rest = [] then .invoke callback 0 else .triggerError fd, m)] ∧
    (temporary = true → m.pushes.head? = some buffer) ∧
    ((∃ u, m.Stores buffer o.rest u) ∨ temporary = true ∧ (m.heap buffer).native = none ∧
      ∃ b, Buffer.Holds 64 b o.rest ∧ BufferPool.Refuses m b)

/-- The same, and the state between the turns. -/
structure Sending (m₀ : Machine) (fd : Int) (buffer : Nat) (callback : Cont) (temporary : Bool) (u : Nat)
    (q : List UInt8)
    (w : Watch) (o : Outbox UInt8) : Prop extends Wrote m₀ fd buffer callback temporary q o w where
  conn    : w.machine.kernel.conn fd = m₀.kernel.conn fd
  waiting : ¬ o.ended → w.machine.Stores buffer o.rest u ∧ (w.machine.heap buffer).temporary = temporary ∧
    w.machine.service.fds fd = some (.writeBuffer fd buffer callback)
  idle    : o.ended → w.machine.service.fds fd = some .empty

variable {m₀ : Machine} {fd : Int} {buffer u : Nat} {callback : Cont} {temporary : Bool} {q : List UInt8} {w : Watch}
  {o : Outbox UInt8}

/-- **`writeBuffer`**, called first or from the closure it registered. -/
theorem ended_writeBuffer (ans : Answers) (callback : Cont) (hq : q.length < 2 ^ 31) (hwhole : o.accepted ++ o.rest = q)
    (hf : o.failed = false)
    (hcalls : w.calls = []) (hpushes : w.pushes = []) (hconn : w.machine.kernel.conn fd = m₀.kernel.conn fd)
    (hsent : ∀ c, m₀.kernel.conn fd = some c → w.machine.kernel.sent c = m₀.kernel.sent c ++ o.accepted)
    (hstores : w.machine.Stores buffer o.rest u) (htemp : (w.machine.heap buffer).temporary = temporary) :
    ∃ w', ended w (writeBuffer ans fd buffer callback w.machine) = .ok w' ∧
      Sending m₀ fd buffer callback temporary u q w' (o.offer (replies (m₀.kernel.conn fd).isSome ans.sends)) := by
  have hpushed : ∀ m₁, Spent fd buffer (outEmpty w.machine fd) m₁ → m₁.pushes = w.machine.pushes := fun m₁ h => h.pushes
  have ho : Offering fd buffer m₀.kernel.sent u o w.machine := ⟨hstores, fun c hc => hsent c (hconn ▸ hc)⟩
  have hlen : o.rest.length < 2 ^ 31 := by
    have := congrArg List.length hwhole
    rw [List.length_append] at this
    omega
  obtain ⟨m₁, hsp, ho₁, hrun⟩ := writeBuffer_run ans callback ho hf hlen
  have hfailed := Outbox.offer_failed o (replies (m₀.kernel.conn fd).isSome ans.sends) (by simp [hf])
  have hall := (Outbox.offer_whole o (replies (m₀.kernel.conn fd).isSome ans.sends)).trans hwhole
  rw [hconn] at hrun ho₁
  generalize o.offer (replies (m₀.kernel.conn fd).isSome ans.sends) = o' at hrun ho₁ hfailed hall ⊢
  have hconn₁ : m₁.kernel.conn fd = m₀.kernel.conn fd := (congrFun hsp.conn fd).trans hconn
  have hsent₁ : ∀ c, m₀.kernel.conn fd = some c → m₁.kernel.sent c = m₀.kernel.sent c ++ o'.accepted := fun c hc =>
    ho₁.sent c (hconn₁.trans hc)
  have htemp₁ : (m₁.heap buffer).temporary = temporary := hsp.temporary.trans htemp
  by_cases hov : o'.ended
  · rw [if_pos hov] at hrun
    have hidle : m₁.service.fds fd = some .empty := by
      rw [hsp.service]
      exact (congrFun (Service.pollOut_fds ..) fd).trans (Function.update_self ..)
    obtain ⟨b₁, hb₁, hholds₁, hu₁⟩ := ho₁.stores
    cases ht : temporary with
    | false =>
      rw [bind_ok (release_plain (htemp₁.trans ht)), pure_run] at hrun
      rw [hrun]
      refine ⟨_, rfl, ⟨hall, hfailed, hsent₁, fun h => absurd hov h, fun _ =>
        ⟨?_, m₁, ?_, (nomatch ·), Or.inl ⟨u, ho₁.stores⟩⟩⟩, hconn₁,
        fun h => absurd hov h, fun _ => hidle⟩
      · rw [hpushes, pushed_self (hpushed m₁ hsp)]
        rfl
      · rw [hcalls]
        rfl
    | true =>
      obtain ⟨m₂, hrel, hk, hs, hp, hkept⟩ := release_temporary (htemp₁.trans ht) hb₁
      rw [bind_ok hrel, pure_run] at hrun
      rw [hrun]
      refine ⟨_, rfl, ⟨hall, hfailed, hk ▸ hsent₁, fun h => absurd hov h, fun _ => ⟨?_, m₂, ?_, fun _ => ?_, ?_⟩⟩,
        hk ▸ hconn₁,
        fun h => absurd hov h, fun _ => hs ▸ hidle⟩
      · rw [hpushes, pushed_one (hp.trans (congrArg _ (hpushed m₁ hsp)))]
        rfl
      · rw [hcalls]
        rfl
      · rw [hp]
        rfl
      · rcases hkept with hk | ⟨hk, -, href⟩
        · exact Or.inl ⟨u, b₁, hk, hholds₁, hu₁⟩
        · exact Or.inr ⟨rfl, hk, b₁, hholds₁, href⟩
  · rw [if_neg hov] at hrun
    rw [hrun]
    refine ⟨_, rfl, ⟨hall, hfailed, hsent₁, fun _ => ⟨by rw [hcalls]; rfl, ?_⟩, fun h => absurd h hov⟩, hconn₁,
      fun _ => ⟨ho₁.stores, htemp₁, ?_⟩, fun h => absurd h hov⟩
    · rw [hpushes]
      exact pushed_self (hpushed m₁ hsp)
    · exact (congrFun (Service.pollOut_fds ..) fd).trans (Function.update_self ..)

variable [V8]

theorem step_sending {t : Turn} (hq : q.length < 2 ^ 31) (h : Sending m₀ fd buffer callback temporary u q w o)
    (hok : Writing fd buffer w t) : ∃ w', w.step t = .ok w' ∧
      Sending m₀ fd buffer callback temporary u q w' (offered (m₀.kernel.conn fd).isSome o t) := by
  cases t with
  | event e ans =>
    obtain ⟨rfl, herr⟩ := hok
    have hcb : w.machine.service.callbackOf e = w.machine.service.fds e.fd := by rw [Service.callbackOf, herr]; rfl
    by_cases hov : o.ended
    · refine ⟨⟨w.machine, w.calls ++ [], w.pushes ++ pushed w.machine w.machine⟩, ?_, ?_⟩
      · simp only [step, hcb, h.idle hov, runCallback]
        rfl
      · rw [offered, Outbox.offer_ended hov, List.append_nil, pushed_self rfl, List.append_nil]
        exact h
    · obtain ⟨hcalls, hpushes⟩ := h.begun hov
      obtain ⟨hstores, htemp, hfds⟩ := h.waiting hov
      have hf : o.failed = false := by
        cases hf : o.failed with
        | false => rfl
        | true => exact absurd (Or.inr hf) hov
      obtain ⟨w', hw, hs⟩ := ended_writeBuffer ans callback hq h.whole hf hcalls hpushes h.conn h.sent hstores htemp
      refine ⟨w', ?_, hs⟩
      simp only [step, hcb, hfds, runCallback]
      exact hw
  | other m =>
    obtain ⟨h1, h2, h3, h4⟩ := hok
    refine ⟨{ w with machine := m }, rfl, ⟨h.whole, h.failed, fun c hc => ?_, h.begun, h.ended⟩, h2.trans h.conn,
      fun hov => ?_,
      fun hov => h1.trans (h.idle hov)⟩
    · exact (h3 c (h2.trans (h.conn.trans hc))).trans (h.sent c hc)
    · obtain ⟨hstores, htemp, hfds⟩ := h.waiting hov
      have hheap := h4 (h.begun hov).1
      exact ⟨hstores.congr (congrArg _ hheap), (congrArg _ hheap).trans htemp, h1.trans hfds⟩

/-- What one write does, whatever `send` answers over any number of events. -/
def Delivers (m₀ : Machine) (fd : Int) (buffer : Nat) (callback : Cont) (temporary : Bool) (q : List UInt8)
    (x : M (Option Task)) (ans : Answers) : Prop :=
  ∃ w, start x m₀ = .ok w ∧ ∀ turns, Run.Along step (Writing fd buffer) w turns → ∃ w', turns.foldlM step w = .ok w' ∧
    Wrote m₀ fd buffer callback temporary q (offeredBy (m₀.kernel.conn fd).isSome q ans turns) w'

/-- **One write, over the events it takes.** -/
theorem sending_run {m : Machine} (m₀ : Machine) (fd : Int) (ans : Answers) (callback : Cont)
    (hq : q.length < 2 ^ 31) (hstores : m.Stores buffer q u)
    (htemp : (m.heap buffer).temporary = temporary) (hk : m.kernel = m₀.kernel) :
    ∃ w, start (writeBuffer ans fd buffer callback) m = .ok w ∧
      ∀ turns, Run.Along step (Writing fd buffer) w turns → ∃ w', turns.foldlM step w = .ok w' ∧
        Sending m₀ fd buffer callback temporary u q w' (offeredBy (m₀.kernel.conn fd).isSome q ans turns) := by
  have hsent : ∀ c, m₀.kernel.conn fd = some c → m.kernel.sent c = m₀.kernel.sent c ++ (Outbox.new q).accepted :=
    fun c _ => by rw [hk]; simp [Outbox.new]
  obtain ⟨w, hw, hs⟩ := ended_writeBuffer (w := ⟨m, [], []⟩) (o := .new q) ans callback hq
    rfl rfl rfl rfl (by rw [hk]) hsent hstores htemp
  refine ⟨w, hw, fun turns hok => ?_⟩
  have hstep : ∀ w o t, Sending m₀ fd buffer callback temporary u q w o → Writing fd buffer w t →
      ∃ w', step w t = .ok w' ∧
        Sending m₀ fd buffer callback temporary u q w' (offered (m₀.kernel.conn fd).isSome o t) :=
    fun w o t h hok => step_sending hq h hok
  exact Run.simulates hstep turns w _ hs hok

theorem delivers_writeBuffer {m : Machine} (m₀ : Machine) (fd : Int) (ans : Answers) (callback : Cont)
    (hq : q.length < 2 ^ 31) (hstores : m.Stores buffer q u)
    (htemp : (m.heap buffer).temporary = temporary) (hk : m.kernel = m₀.kernel) :
    ∃ w, start (writeBuffer ans fd buffer callback) m = .ok w ∧
      ∀ turns, Run.Along step (Writing fd buffer) w turns → ∃ w', turns.foldlM step w = .ok w' ∧
        Wrote m₀ fd buffer callback temporary q (offeredBy (m₀.kernel.conn fd).isSome q ans turns) w' := by
  obtain ⟨w, hw, h⟩ := sending_run m₀ fd ans callback hq hstores htemp hk
  refine ⟨w, hw, fun turns hok => ?_⟩
  obtain ⟨w', hw', hR⟩ := h turns hok
  exact ⟨w', hw', hR.toWrote⟩

/-- **A write is complete, in order and reported once**: what was accepted is a prefix of the content, the callback is
called once all of it is, `$triggerError` once `send` failed, nothing is called twice, and a temporary buffer is pushed
once, before that.  The rest is still in the buffer then, unless `push` closed it. -/
theorem write_once (fd : Int) (callback : Cont) :
    (∀ (m : Machine) (ans : Answers) (buffer u : Nat) (q : List UInt8), m.Stores buffer q u → q.length < 2 ^ 31 →
      Delivers m fd buffer callback (m.heap buffer).temporary q (writeBuffer ans fd buffer callback) ans) ∧
    ∀ (m : Machine) (ans : Answers) (text : JsString), (∀ b ∈ m.pool.buffers.head?, ∃ q u, m.Stores b q u) →
      (V8.utf8 text).length < 2 ^ 31 → Delivers m fd (m.pool.buffers.head?.getD m.nextBuffer) callback true
      (V8.utf8 text)
        (writeUtf8 ans fd text callback) ans := by
  refine ⟨fun m ans buffer u q hs hq =>
    delivers_writeBuffer m fd ans callback hq hs rfl rfl, fun m ans text hpool hq => ?_⟩
  obtain ⟨m₁, hrun, hs, htemp, hk, -, hp⟩ := writeUtf8_run fd ans callback hpool hq
  obtain ⟨w, hw, h⟩ := delivers_writeBuffer m fd ans callback hq hs htemp hk
  exact ⟨w, (start_congr hrun hp).trans hw, h⟩

end Watch

namespace Watch

open Machine Effect Socket

/-- Hundred other buffers and one come to the pool. -/
def crowd (w : Watch) : Turn := .other { w.machine with pool := { w.machine.pool with buffers := List.range' 4 101 } }

/-- `buffer.size()` of `2 ^ 32` bytes is 0: the callback is called, and nothing was sent. -/
theorem writeBuffer_wraps {m : Machine} (fd : Int) {buffer u : Nat} {q : List UInt8} {c : Nat} (callback : Cont)
    (hs : m.Stores buffer q u) (hq : q.length = 2 ^ 32) (htemp : (m.heap buffer).temporary = false)
    (hc : m.kernel.conn fd = some c) : ∃ m',
      writeBuffer ⟨.data [], [], none⟩ fd buffer callback m = .ok (some (.invoke callback 0)) m' ∧
      m'.kernel.sent = m.kernel.sent := by
  have hne : q ≠ [] := by
    rintro rfl
    cases hq
  have hs' : (outEmpty m fd).Stores buffer q u := hs
  have hreply : reply ((outEmpty m fd).kernel.conn fd).isSome (.error .again) = .wait := by
    rw [show (outEmpty m fd).kernel.conn fd = some c from hc]
    rfl
  obtain ⟨e, hrun, he⟩ := writeLoop_stop fd hs' hne 0 (.error .again) [] fun k hk => by rw [hreply] at hk; cases hk
  rw [← writeLoop_nil hs' hne] at hrun
  obtain ⟨b, hb, hholds, -⟩ := hs
  let m₁ : Machine := { outEmpty m fd with kernel := { m.kernel with errno := e } }
  have hsize : Script.size buffer m₁ = .ok 0 m₁ := by
    have : toUint (b.size : Int) = 0 := by rw [hholds.size_eq, hq]; decide
    have hnative : native buffer m₁ = .ok b m₁ := native_run hb
    rw [Script.size, bind_ok hnative, pure_run, this]
  refine ⟨m₁, ?_, rfl⟩
  rw [writeBuffer]
  refine (bind_ok rfl).trans ((bind_ok hrun).trans ((bind_ok hsize).trans ?_))
  rw [if_pos (Or.inr rfl)]
  exact (bind_ok (release_plain (m := m₁) htemp)).trans rfl

/-- The one call made is `$triggerError`, with nothing left of the native of buffer `3`. -/
def restGone (w : Watch) : Bool :=
  match w.calls with
  | [(.triggerError 5, m)] => (m.heap 3).native.isNone
  | _                      => false

/-- **The rest of a temporary buffer is gone when `$triggerError` is called**, if `push` comes to a full pool; and a
content of `2 ^ 32` bytes is reported as sent before anything was. -/
theorem write_not_once :
    (∃ w w' m, start (@writeUtf8 ascii ⟨.data [], [.accept 0], none⟩ 5 (js "ab") (.user 0))
    (Machine.listening [0]) = .ok w ∧
      Run.Along (@step ascii) (Writing 5 3) w [crowd w, .event ⟨5, epollOut⟩ ⟨.data [], [.error (.other 0)], none⟩] ∧
      [crowd w, .event ⟨5, epollOut⟩ ⟨.data [], [.error (.other 0)], none⟩].foldlM (@step ascii) w = .ok w' ∧
      w'.calls = [(.triggerError 5, m)] ∧ ∀ q u, ¬ m.Stores 3 q u) ∧
    ∃ q : List UInt8, q.length = 2 ^ 32 ∧ ∃ w m, (Machine.listening q).Stores 0 q (2 ^ 32) ∧
      start (writeBuffer ⟨.data [], [], none⟩ 5 0 (.user 0)) (Machine.listening q) = .ok w ∧
      w.calls = [(.invoke (.user 0) 0, m)] ∧ m.kernel.sent 0 = [] := by
  constructor
  · have hrun : ((start (@writeUtf8 ascii ⟨.data [], [.accept 0], none⟩ 5 (js "ab") (.user 0))
        (Machine.listening [0])).toOption.any fun w =>
          ([crowd w, .event ⟨5, epollOut⟩ ⟨.data [], [.error (.other 0)], none⟩].foldlM
            (@step ascii) w).toOption.any restGone) = true := by decide +kernel
    obtain ⟨w, hw, hrun⟩ := Run.exists_of_any hrun
    obtain ⟨w', hw', hrun⟩ := Run.exists_of_any hrun
    unfold restGone at hrun
    split at hrun
    · rename_i m hcalls
      refine ⟨w, w', m, hw, ⟨⟨rfl, rfl, fun _ _ => rfl, fun _ => rfl⟩, fun _ _ => ⟨⟨rfl, rfl⟩, fun _ _ => trivial⟩⟩,
        hw', hcalls,
        fun q u hs => ?_⟩
      obtain ⟨b, hb, -⟩ := hs
      rw [Option.isNone_iff_eq_none.1 hrun] at hb
      cases hb
    · cases hrun
  · obtain ⟨q, hq⟩ : ∃ q : List UInt8, q.length = 2 ^ 32 := ⟨_, List.length_replicate (a := 0)⟩
    have hne : q ≠ [] := by
      rintro rfl
      cases hq
    have hs : (Machine.listening q).Stores 0 q (2 ^ 32) :=
      ⟨_, rfl, Buffer.full_holds hne (by rw [hq]; decide), Nat.le_of_eq hq⟩
    obtain ⟨m, hrun, hsent⟩ := writeBuffer_wraps 5 (.user 0) hs hq rfl rfl
    have hstart : start (writeBuffer ⟨.data [], [], none⟩ 5 0 (.user 0)) (Machine.listening q) =
        .ok ⟨m, [(.invoke (.user 0) 0, m)], [] ++ pushed (Machine.listening q) m⟩ := by
      rw [start, hrun]
      rfl
    exact ⟨q, hq, _, m, hs, hstart, rfl, by rw [hsent]; rfl⟩

/-- Three bytes that are accepted over two events, and a text that is accepted at once. -/
theorem write_once_run :
    (∃ w w', start (writeBuffer ⟨.data [], [.accept 0], none⟩ 5 0 (.user 0)) (Machine.listening [1, 2, 3]) = .ok w ∧
      [Turn.event ⟨5, epollOut⟩ ⟨.data [], [.accept 7], none⟩].foldlM (@step ascii) w = .ok w' ∧
      w'.calls.map Prod.fst = [.invoke (.user 0) 0] ∧ w'.machine.kernel.sent 0 = [1, 2, 3]) ∧
    ∃ w, start (@writeUtf8 ascii ⟨.data [], [.accept 7], none⟩ 5 (js "ab") (.user 0)) (Machine.listening [0]) = .ok w ∧
      w.calls.map Prod.fst = [.invoke (.user 0) 0] ∧ w.machine.kernel.sent 0 = [97, 98] ∧ w.pushes = [3] := by
  obtain ⟨hbuffer, htext⟩ := @write_once ascii 5 (.user 0)
  constructor
  · obtain ⟨w, hw, h⟩ := hbuffer (Machine.listening [1, 2, 3]) ⟨.data [], [.accept 0], none⟩ 0 3 [1, 2, 3]
      ⟨_, rfl, Buffer.full_holds (by decide) (by decide), Nat.le_refl 3⟩ (by decide)
    obtain ⟨w', hw', hwrote⟩ := h [.event ⟨5, epollOut⟩ ⟨.data [], [.accept 7], none⟩] ⟨⟨rfl, rfl⟩, fun _ _ => trivial⟩
    obtain ⟨-, m, hcalls, -⟩ := hwrote.ended (Or.inl rfl)
    exact ⟨w, w', hw, hw', by rw [hcalls]; rfl, hwrote.sent 0 rfl⟩
  · obtain ⟨w, hw, h⟩ := htext (Machine.listening [0]) ⟨.data [], [.accept 7], none⟩ (js "ab")
      (fun _ hb => nomatch hb) (by decide)
    obtain ⟨w', hw', hwrote⟩ := h [] trivial
    cases hw'
    obtain ⟨hpushes, m, hcalls, -⟩ := hwrote.ended (Or.inl rfl)
    exact ⟨w, hw, by rw [hcalls]; rfl, hwrote.sent 0 rfl, hpushes⟩

end Watch
end V8h
