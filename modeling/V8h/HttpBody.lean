import V8h.HttpRequests
import V8h.SocketReceive
/-!
# HttpBody — which announced bodies end

`recvBody` waits until `buffer.size() >= @contentLength`, where the number is what `parseInt` made of the header's text:
`NaN` is never reached, and neither is a number the 32 bits of `size()` cannot show.  So there is a bound on what is
received before the body ends exactly for the texts whose number is at most `2 ^ 31 + 1` (`bounded_iff`): a chunk takes
the size from there past `2 ^ 32`, where it is 0 again, when it has `2 ^ 31` bytes at least.
-/
namespace V8h

open Machine Effect Socket

/-! ## The room of a buffer -/

theorem Buffer.commit_reserve (b : Buffer) (w n : Nat) : (b.commit w n).reserve = b.reserve := rfl

namespace Machine

/-- The reserve of a buffer. -/
def reserveOf (m : Machine) (buffer : Nat) : Option Nat := (m.heap buffer).native.map Buffer.reserve

theorem readUtf8_reserve [V8] {m m' : Machine} {buffer : Nat} {n : Int} {text : JsString}
    (h : Script.readUtf8 buffer n m = .ok text m') : m'.reserveOf buffer = m.reserveOf buffer := by
  cases hb : (m.heap buffer).native with
  | none =>
    have : native buffer m = .error (.trap .null) m := by rw [native, hb]
    rw [Script.readUtf8, bind_error this] at h
    cases h
  | some b =>
    rw [Script.readUtf8, bind_ok (native_run hb)] at h
    obtain ⟨n', hn'⟩ : ∃ n', n' = if toUint n > b.size then b.size else toUint n := ⟨_, rfl⟩
    simp only [← hn'] at h
    cases hp : (if toInt n' < 0 then b.cString else b.peek n') with
    | error t =>
      rw [hp] at h
      cases h
    | ok rt =>
      rw [hp] at h
      cases h
      simp only [reserveOf, Function.update_self, hb, Option.map_some, Buffer.consume_reserve]

theorem finishRead_reserve {m m' : Machine} {buffer : Nat} {b : Buffer} {r : Option (List UInt8)} {n : Int}
    (hb : (m.heap buffer).native = some b) (h : finishRead buffer b r m = .ok n m') :
    m'.reserveOf buffer = some b.reserve := by
  rcases r with _ | _ | ⟨x, xs⟩
  · have hm := (EStateM.Result.ok.inj (h.symm.trans (finishRead_none buffer b m))).2
    rw [hm, reserveOf, setBuffer_heap_self, Option.map_some, Buffer.commit_reserve]
  · obtain ⟨-, rfl⟩ := EStateM.Result.ok.inj (show EStateM.Result.ok (-1) _ = _ from h)
    exact congrArg (Option.map Buffer.reserve) hb
  · have hrun : finishRead buffer b (some (x :: xs)) m = (do
        let b ← lift (b.store b.used ((x :: xs).map some))
        setNative buffer (b.commit 64 (x :: xs).length)
        return toInt (x :: xs).length : M Int) m := rfl
    cases hs : b.store b.used ((x :: xs).map some) with
    | error t =>
      have hlift : lift (b.store b.used ((x :: xs).map some)) m = .error (.trap t) m := by rw [hs]; rfl
      rw [hrun, bind_error hlift] at h
      cases h
    | ok b' =>
      have hlift : lift (b.store b.used ((x :: xs).map some)) m = .ok b' m := by rw [hs]; rfl
      rw [hrun, bind_ok hlift, bind_ok (setNative_run m buffer _)] at h
      obtain ⟨-, rfl⟩ := EStateM.Result.ok.inj h
      rw [reserveOf, setBuffer_heap_self]
      rw [Option.map_some, Buffer.commit_reserve, Buffer.store_reserve hs]

end Machine

namespace Socket

variable {m m' : Machine} {fd : Int} {buffer u : Nat} {q : List UInt8} {size : Option Int} {ans : Answers}
  {b b₁ : Buffer}

theorem _readBuffer_reserve {n : Int} (hb : (m.heap buffer).native = some b) (hprep : b.prepare 64 8192 = .ok b₁)
    (h : _readBuffer ans fd buffer m = .ok n m') : m'.reserveOf buffer = some b₁.reserve := by
  obtain ⟨e, hread⟩ := _readBuffer_prepared ans fd hb hprep
  refine finishRead_reserve ?_ (hread.symm.trans h)
  exact congrArg BufferObj.native (setBuffer_heap_self m buffer b₁)

/-- **Bytes arrive for `readSize`**, with any size. -/
theorem onReadable_toldAt (ans : Answers) (size : Option Int) (callback : Cont) {bytes : List UInt8}
    (h : m.Stores buffer q u) (hu : u ≤ 2 ^ 62) (hd : Delivered ans fd buffer bytes m) (hlen : bytes.length < 2 ^ 31) :
    ∃ b₂, onReadable ans fd buffer (.size size) (.size size callback) m =
        .ok (toldAt size callback (q ++ bytes).length) (m.setBuffer buffer b₂) ∧
      (m.setBuffer buffer b₂).Stores buffer (q ++ bytes) (u + bytes.length) ∧
      ∀ b b₁, (m.heap buffer).native = some b → b.prepare 64 8192 = .ok b₁ →
        (m.setBuffer buffer b₂).reserveOf buffer = some b₁.reserve := by
  obtain ⟨b₂, hs, hrun⟩ := _readBuffer_delivered ans h hu hd hlen
  refine ⟨b₂, ?_, hs, fun b b₁ hb hprep => _readBuffer_reserve hb hprep hrun⟩
  rw [onReadable, bind_ok hrun, if_neg (by omega), condition_toldAt hs]

end Socket

namespace Process

variable [V8]

/-- The calls left are made, until a handler is called or nothing is left. -/
def drain : Nat → Process → Except Refusal Process
  | 0,        _ => .error .unfit
  | fuel + 1, p =>
    match p.task with
    | none               => .ok p
    | some (.handler ..) => .ok p
    | some _             => do drain fuel (← p.step (.go .silent))

/-- A chunk is received. -/
def feed (fuel : Nat) (fd : Int) (p : Process) (chunk : List UInt8) : Except Refusal Process := do
  drain fuel (← p.step (.event ⟨fd, epollIn⟩ ⟨.data chunk, [], none⟩))

/-- `process` was run, or the connection closed. -/
def Finished (k : Nat) (p : Process) : Prop :=
  (∃ req, p.task = some (.handler k req)) ∨ ∃ c, p.machine.clients k = some c ∧ c.closed = true

/-- `recv` gives the chunk whole, before the client is finished. -/
def Feedable (k : Nat) (p : Process) (chunk : List UInt8) : Prop :=
  ¬ Finished k p ∧ Receivable k (p, []) chunk ∧ chunk.length < 2 ^ 31

/-- The header announces a body: its `Content-Length` is the text, and its `Content-Type` is not multipart. -/
def Announces (header : List UInt8) (length : JsString) : Prop :=
  let fields := (Helper.parseHeader (V8.fromUtf8 header)).header
  fields.get (js "Content-Length") = some length ∧
    ∃ contentType, fields.get (js "Content-Type") = some contentType ∧ contentType.isMultipart = false

/-- A client has received a header that announces a body, and the bytes that came with it. -/
structure HeaderRead (length : JsString) (k : Nat) (c : Client) (m : Machine) (header rest : List UInt8) : Prop where
  connected : m.Connected k c
  isOpen    : c.closed = false
  bytes     : m.Stores c.buffer (header ++ rest) (2 ^ 61)
  short     : (header ++ rest).length < 2 ^ 31
  announces : Announces header length

/-- There is a bound for the text: whatever the header and however its body comes, the client is finished once that
many bytes have been received.  No buffer has `2 ^ 60` bytes. -/
def Bounded (length : JsString) : Prop :=
  ∃ N < 2 ^ 60, ∀ k c m header rest, HeaderRead length k c m header rest →
    ∃ p, drain 3 ⟨m, some (.invoke (.header k) header.length), false, false⟩ = .ok p ∧
      ∀ chunks, Run.Along (feed 3 c.fd) (Feedable k) p chunks →
        ∃ p', chunks.foldlM (feed 3 c.fd) p = .ok p' ∧ (N ≤ (rest ++ chunks.flatten).length → Finished k p')

/-! ## One step -/

/-- The body is waited for, and `q` of it is there.  `roomy` says that the buffer has room for more than is ever
received. -/
structure BodyPending (k : Nat) (fd : Int) (size : Option Int) (roomy : Bool) (q : List UInt8) (p : Process) :
    Prop where
  left  : p.left = false
  task  : p.task = none
  waits : ∃ c, p.machine.Connected k c ∧ c.fd = fd ∧ c.closed = false ∧
    p.machine.Stores c.buffer q (2 ^ 61 + q.length) ∧
    p.machine.service.fds fd = some (.readUntil fd c.buffer (.size size) (.size size (.body k))) ∧
    (roomy = true → p.machine.reserveOf c.buffer = some (2 ^ 62))

variable {k fuel : Nat} {fd : Int} {size : Option Int} {roomy : Bool} {q : List UInt8} {p p' : Process} {t : Task}

theorem drain_none (h : p.task = none) : drain (fuel + 1) p = .ok p := by
  rw [drain]
  simp only [h]

theorem drain_handler {req : Request} (h : p.task = some (.handler k req)) : drain (fuel + 1) p = .ok p := by
  rw [drain]
  simp only [h]

theorem drain_go (ht : p.task = some t) (hn : ∀ k req, t ≠ .handler k req) (h : p.step (.go .silent) = .ok p') :
    drain (fuel + 1) p = drain fuel p' := by
  rw [drain]
  simp only [ht]
  cases t with
  | handler k req => exact absurd rfl (hn k req)
  | call f => simp only [h]; rfl
  | invoke callback arg => simp only [h]; rfl
  | triggerError fd => simp only [h]; rfl

omit [V8] in
theorem BodyPending.not_finished (h : BodyPending k fd size roomy q p) : ¬ Finished k p := by
  obtain ⟨c, hconn, -, hopen, -⟩ := h.waits
  rintro (⟨req, ht⟩ | ⟨c', hc', hclosed⟩)
  · exact nomatch h.task.symm.trans ht
  · obtain rfl := Option.some.inj (hconn.client.symm.trans hc')
    exact nomatch hopen.symm.trans hclosed

/-- **The body is there**: `process` runs. -/
theorem drain_body (fuel : Nat) {c : Client} {u : Nat} {n : Int} (hl : p.left = false)
    (ht : p.task = some (.invoke (.body k) n)) (hc : p.machine.Connected k c) (hs : p.machine.Stores c.buffer q u) :
    ∃ p', drain (fuel + 2) p = .ok p' ∧ Finished k p' := by
  obtain ⟨m', hrun, -, -⟩ := Client.process_run hc hs
  have h : p.step (.go .silent) = .ok ⟨m', some (.handler k c.req), p.byUser, false⟩ := by
    rw [step_go ht hl, runTask, runCont, hrun, ended]
  refine ⟨⟨m', some (.handler k c.req), p.byUser, false⟩, ?_, .inl ⟨c.req, rfl⟩⟩
  rw [drain_go ht (invoke_ne_handler _ _) h]
  exact drain_handler rfl

/-- **A chunk of a body is received.** -/
theorem feed_pending {chunk : List UInt8} (fuel : Nat) (h : BodyPending k fd size roomy q p)
    (hq : q.length + 8192 ≤ 2 ^ 61) (hok : Receivable k (p, []) chunk) (hlen : chunk.length < 2 ^ 31) :
    ∃ p', feed (fuel + 2) fd p chunk = .ok p' ∧
      (reaches size (q ++ chunk).length = true → Finished k p') ∧
      (reaches size (q ++ chunk).length = false → BodyPending k fd size roomy (q ++ chunk) p') := by
  obtain ⟨c, hconn, rfl, hopen, hs, hf, hroomy⟩ := h.waits
  obtain ⟨hne, c₀, hc₀, b, hb, b₁, hprep, hroom⟩ := hok
  obtain rfl := Option.some.inj (hc₀.symm.trans hconn.client)
  have hprep : b.prepare 64 8192 = .ok b₁ := by
    cases h : b.prepare 64 8192 <;> simp_all [Except.toOption]
  obtain ⟨b₂, hrun, hs₂, hreserve⟩ := onReadable_toldAt ⟨.data chunk, [], none⟩ size (.body k)
    hs (by omega) ⟨hconn.isOpen, rfl, hne, b, b₁, hb, hprep, hroom⟩ hlen
  have hconn₂ := hconn.around (around_setBuffer p.machine c₀.buffer b₂)
  have hstep : p.step (.event ⟨c₀.fd, epollIn⟩ ⟨.data chunk, [], none⟩) =
      .ok ⟨p.machine.setBuffer c₀.buffer b₂, toldAt size (.body k) (q ++ chunk).length, false, false⟩ := by
    rw [step_event h.task h.left (callbackOf_readable hf), runCallback, hrun, ended]
  have hfeed : feed (fuel + 2) c₀.fd p chunk = drain (fuel + 2)
      ⟨p.machine.setBuffer c₀.buffer b₂, toldAt size (.body k) (q ++ chunk).length, false, false⟩ := by
    rw [feed, hstep]
    rfl
  rw [hfeed, toldAt]
  cases hr : reaches size (q ++ chunk).length with
  | true =>
    obtain ⟨p', hp', hfinished⟩ := drain_body fuel
      (p := ⟨p.machine.setBuffer c₀.buffer b₂, some (.invoke (.body k) (size.getD 0)), false, false⟩)
      rfl rfl hconn₂ hs₂
    exact ⟨p', hp', fun _ => hfinished, fun hr => by cases hr⟩
  | false =>
    refine ⟨_, drain_none rfl, (fun hr => by cases hr), fun _ =>
      ⟨rfl, rfl, c₀, hconn₂, rfl, hopen, hs₂.mono ?_, hf, fun hr => ?_⟩⟩
    · rw [List.length_append]
      omega
    · -- the buffer was not grown
      obtain ⟨b', hb', hholds, hused⟩ := hs
      obtain rfl := Option.some.inj (hb.symm.trans hb')
      have hR : b.reserve = 2 ^ 62 := by
        have := hroomy hr
        rw [reserveOf, hb] at this
        exact Option.some.inj this
      have hsame := Buffer.prepare_of_fits (b := b) (w := 64) (n := 8192) (by omega) (by omega)
      obtain rfl := Except.ok.inj (hprep.symm.trans hsame)
      rw [hreserve b₁ b₁ hb hprep, hR]

/-- **The header is read**, and the body waited for. -/
theorem onHeader_announced {length : JsString} {c : Client} {m : Machine} {header rest : List UInt8}
    (h : HeaderRead length k c m header rest) : ∃ m' c',
      Client.onHeader k header.length m = .ok (toldAt length.parseInt (.body k) rest.length) m' ∧ m'.Connected k c' ∧
      c'.fd = c.fd ∧ c'.buffer = c.buffer ∧ c'.closed = false ∧ m'.Stores c.buffer rest (2 ^ 61) ∧
      m'.reserveOf c.buffer = m.reserveOf c.buffer ∧
      (reaches length.parseInt rest.length = false → m'.service.fds c.fd =
        some (.readUntil c.fd c.buffer (.size length.parseInt) (.size length.parseInt (.body k)))) := by
  obtain ⟨hlength, contentType, htype, hmulti⟩ := h.announces
  obtain ⟨b, hread, hst, hstart⟩ := Client.onHeader_recvBody h.connected h.bytes h.short hlength
  let c₂ : Client := { c.parsed header with contentLength := length.parseInt }
  let m₂ : Machine := { m.setBuffer c.buffer b with clients := Function.update m.clients k (some c₂) }
  have hconn₂ : m₂.Connected k c₂ := (h.connected.around (around_setBuffer m c.buffer b)).setClient c₂ rfl rfl
  have hst₂ : m₂.Stores c.buffer rest (2 ^ 61) := hst
  obtain ⟨m', hrun, hnear, hheap, hfds⟩ := readSize_toldAt c.fd (.body k) hst₂ length.parseInt
  have hbody : Client.recvBody k m₂ = readSize c.fd c.buffer length.parseInt (.body k) m₂ := by
    rw [Client.recvBody, bind_ok (client_run hconn₂.client)]
    simp only [show c₂.req.header.get (js "Content-Type") = some contentType from htype, hmulti]
    rfl
  refine ⟨m', c₂, hstart.trans (hbody.trans hrun), hconn₂.around hnear.toAround, rfl, rfl, h.isOpen,
    hst₂.congr (by rw [hheap]), ?_, hfds⟩
  have hreserve : (m.setBuffer c.buffer b).reserveOf c.buffer = m.reserveOf c.buffer := readUtf8_reserve hread
  rw [← hreserve, reserveOf, hheap]
  rfl

theorem drain_header (roomy : Bool) {length : JsString} {c : Client} {m : Machine} {header rest : List UInt8}
    (h : HeaderRead length k c m header rest) (hroomy : roomy = true → m.reserveOf c.buffer = some (2 ^ 62)) : ∃ p,
      drain 3 ⟨m, some (.invoke (.header k) header.length), false, false⟩ = .ok p ∧
      (reaches length.parseInt rest.length = true → Finished k p) ∧
      (reaches length.parseInt rest.length = false → BodyPending k c.fd length.parseInt roomy rest p) := by
  obtain ⟨m', c', hrun, hconn, hfd, hbuffer, hopen, hst, hreserve, hfds⟩ := onHeader_announced h
  have hstep : Process.step ⟨m, some (.invoke (.header k) header.length), false, false⟩ (.go .silent) =
      .ok ⟨m', toldAt length.parseInt (.body k) rest.length, false, false⟩ := by
    rw [step_go rfl rfl, runTask, runCont, hrun, ended]
  rw [drain_go (t := .invoke (.header k) header.length) rfl (invoke_ne_handler _ _) hstep, toldAt]
  rw [← hbuffer] at hst
  cases hr : reaches length.parseInt rest.length with
  | true =>
    obtain ⟨p', hp', hfinished⟩ := drain_body 0
      (p := ⟨m', some (.invoke (.body k) (length.parseInt.getD 0)), false, false⟩) rfl rfl hconn hst
    exact ⟨p', hp', fun _ => hfinished, fun hr => by cases hr⟩
  | false =>
    refine ⟨_, drain_none rfl, (fun hr => by cases hr), fun _ =>
      ⟨rfl, rfl, c', hconn, hfd, hopen, hst.mono (Nat.le_add_right _ _), ?_, fun hr => ?_⟩⟩
    · rw [hbuffer]
      exact hfds hr
    · rw [hbuffer]
      exact hreserve.trans (hroomy hr)

/-! ## Bodies that end -/

omit [V8] in
theorem reaches_some {n : Int} {length : Nat} (h : length < 2 ^ 32) :
    reaches (some n) length = true ↔ n ≤ length := by
  rw [reaches, Option.any_some, toUint_of_lt h, decide_eq_true_iff]

theorem along_finished {chunks : List (List UInt8)} (h : Finished k p)
    (hok : Run.Along (feed fuel fd) (Feedable k) p chunks) : chunks = [] := by
  cases chunks with
  | nil => rfl
  | cons chunk chunks => exact absurd h hok.1.1

/-- **A number that is reached**: no chunk takes the size past it and past `2 ^ 32` at once. -/
theorem feed_ends {n : Int} (hn : n ≤ 2 ^ 31 + 1) : ∀ (chunks : List (List UInt8)) (p : Process) (q : List UInt8),
    BodyPending k fd (some n) false q p → (q.length : Int) < n → Run.Along (feed 3 fd) (Feedable k) p chunks →
    ∃ p', chunks.foldlM (feed 3 fd) p = .ok p' ∧ (n ≤ (q ++ chunks.flatten).length → Finished k p')
  | [], p, q, _, hq, _ => by
    refine ⟨p, rfl, fun hle => ?_⟩
    rw [List.flatten_nil, List.append_nil] at hle
    omega
  | chunk :: chunks, p, q, h, hq, hok => by
    obtain ⟨-, hreceivable, hshort⟩ := hok.1
    obtain ⟨p₁, hp₁, hfinished, hpending⟩ := feed_pending 1 h (by omega) hreceivable hshort
    have hlen : (q ++ chunk).length < 2 ^ 32 := by
      rw [List.length_append]
      omega
    cases hr : reaches (some n) (q ++ chunk).length with
    | true =>
      obtain rfl := along_finished (hfinished hr) (hok.2 p₁ hp₁)
      exact ⟨p₁, Run.foldlM_cons_of_ok hp₁ [], fun _ => hfinished hr⟩
    | false =>
      have hlt : ¬ n ≤ (q ++ chunk).length := by
        rw [← reaches_some hlen, hr]
        exact Bool.false_ne_true
      obtain ⟨p', hp', hends⟩ := feed_ends hn chunks p₁ (q ++ chunk) (hpending hr) (by omega) (hok.2 p₁ hp₁)
      refine ⟨p', (Run.foldlM_cons_of_ok hp₁ chunks).trans hp', fun hle => hends ?_⟩
      rwa [List.flatten_cons, ← List.append_assoc] at hle

theorem bounded_of_le {length : JsString} {n : Int} (hlength : length.parseInt = some n) (hn : n ≤ 2 ^ 31 + 1) :
    Bounded length := by
  refine ⟨n.toNat, by omega, fun k c m header rest h => ?_⟩
  obtain ⟨p, hp, hfinished, hpending⟩ := drain_header false h nofun
  have hrest : rest.length < 2 ^ 32 := by
    have := h.short
    rw [List.length_append] at this
    omega
  rw [hlength] at hfinished hpending
  refine ⟨p, hp, fun chunks hok => ?_⟩
  cases hr : reaches (some n) rest.length with
  | true =>
    obtain rfl := along_finished (hfinished hr) hok
    exact ⟨p, rfl, fun _ => hfinished hr⟩
  | false =>
    have hlt : ¬ n ≤ rest.length := by
      rw [← reaches_some hrest, hr]
      exact Bool.false_ne_true
    obtain ⟨p', hp', hends⟩ := feed_ends hn chunks p rest (hpending hr) (by omega) hok
    exact ⟨p', hp', fun hle => hends (by omega)⟩

/-! ## Bodies that do not -/

/-- With `n` one less than `2 ^ 31`: from nothing to one byte, to `2 ^ 31`, to one more, and to `2 ^ 32`, which the
script takes for nothing. -/
def surge (n : Nat) : List (List UInt8) := [[0], List.replicate n 0, [0], List.replicate n 0]

/-- A number that the sizes of `surge` do not reach. -/
def OutOfReach (size : Option Int) : Prop := ∀ n, size = some n → 2 ^ 31 + 2 ≤ n

omit [V8] in
theorem not_reaches {length : Nat} (hsize : OutOfReach size) (h : length % 2 ^ 32 ≤ 2 ^ 31 + 1) :
    reaches size length = false := by
  cases size with
  | none => rfl
  | some n =>
    have hn := hsize n rfl
    have : ¬ n ≤ (toUint length : Int) := by
      unfold toUint
      omega
    rw [reaches, Option.any_some, decide_eq_false this]

/-- **One chunk more.** -/
theorem feed_roomy {chunk : List UInt8} (h : BodyPending k fd size true q p) (hq : q.length + 2 ^ 31 + 8192 ≤ 2 ^ 61)
    (hne : chunk ≠ []) (hlen : chunk.length < 2 ^ 31) (hr : reaches size (q ++ chunk).length = false) :
    Feedable k p chunk ∧ ∃ p', feed 3 fd p chunk = .ok p' ∧ BodyPending k fd size true (q ++ chunk) p' := by
  have hok : Receivable k (p, []) chunk := by
    obtain ⟨c, hconn, rfl, -, hs, -, hroomy⟩ := h.waits
    obtain ⟨b, hb, hholds, hused⟩ := hs
    have hR : b.reserve = 2 ^ 62 := by
      have := hroomy rfl
      rw [reserveOf, hb] at this
      exact Option.some.inj this
    have hprep := Buffer.prepare_of_fits (b := b) (w := 64) (n := 8192) (by omega) (by omega)
    refine ⟨hne, c, hconn.client, b, hb, b, by rw [hprep]; rfl, ?_⟩
    rw [Buffer.remain_eq hholds.room hholds.word]
    omega
  obtain ⟨p', hp', -, hpending⟩ := feed_pending 1 h (by omega) hok hlen
  exact ⟨⟨h.not_finished, hok, hlen⟩, p', hp', hpending hr⟩

/-- Chunks that `recv` may give, after each of which the size the script sees is `2 ^ 31 + 1` at most. -/
def Low : Nat → List (List UInt8) → Prop
  | _,      []              => True
  | length, chunk :: chunks => (chunk ≠ [] ∧ chunk.length < 2 ^ 31) ∧
    (length + chunk.length) % 2 ^ 32 ≤ 2 ^ 31 + 1 ∧ Low (length + chunk.length) chunks

/-- **A run of chunks that does not end the body.** -/
theorem feed_low (hsize : OutOfReach size) : ∀ (chunks : List (List UInt8)) (p : Process) (q : List UInt8),
    BodyPending k fd size true q p → q.length + chunks.flatten.length + 2 ^ 32 ≤ 2 ^ 61 → Low q.length chunks →
    Run.Along (feed 3 fd) (Feedable k) p chunks ∧
      ∃ p', chunks.foldlM (feed 3 fd) p = .ok p' ∧ BodyPending k fd size true (q ++ chunks.flatten) p'
  | [], p, q, h, _, _ => by
    rw [List.flatten_nil, List.append_nil]
    exact ⟨trivial, p, rfl, h⟩
  | chunk :: chunks, p, q, h, hroom, ⟨⟨hne, hshort⟩, hlow, hrest⟩ => by
    rw [List.flatten_cons, List.length_append] at hroom
    have hlength : (q ++ chunk).length = q.length + chunk.length := List.length_append
    obtain ⟨hok, p₁, hp₁, h₁⟩ := feed_roomy h (by omega) hne hshort (not_reaches hsize (by rwa [hlength]))
    obtain ⟨halong, p', hp', h'⟩ := feed_low hsize chunks p₁ (q ++ chunk) h₁ (by omega) (by rwa [hlength])
    refine ⟨⟨hok, fun p₂ hp₂ => ?_⟩, p', (Run.foldlM_cons_of_ok hp₁ chunks).trans hp', ?_⟩
    · obtain rfl := Except.ok.inj (hp₁.symm.trans hp₂)
      exact halong
    · rwa [List.flatten_cons, ← List.append_assoc]

def surges (n times : Nat) : List (List UInt8) := (List.replicate times (surge n)).flatten

omit [V8] in
theorem surges_succ (n times : Nat) : surges n (times + 1) = surge n ++ surges n times := by
  rw [surges, List.replicate_succ, List.flatten_cons, ← surges]

omit [V8] in
theorem length_surges (n : Nat) : ∀ times : Nat, (surges n times).flatten.length = times * (2 * (n + 1))
  | 0 => (Nat.zero_mul _).symm
  | times + 1 => by
    rw [surges_succ, List.flatten_append, List.length_append, length_surges n times, Nat.add_mul times 1, Nat.one_mul]
    simp only [surge, List.flatten_cons, List.flatten_nil, List.length_append, List.length_replicate, List.length_nil,
      List.length_cons]
    omega

omit [V8] in
theorem low_surges {n : Nat} (hn : n + 1 = 2 ^ 31) : ∀ (times length : Nat), length % 2 ^ 32 = 0 →
    Low length (surges n times)
  | 0, _, _ => trivial
  | times + 1, length, h => by
    have hne : List.replicate n (0 : UInt8) ≠ [] := by
      rw [Ne, List.replicate_eq_nil_iff]
      omega
    rw [surges_succ]
    simp only [surge, List.cons_append, List.nil_append, Low, List.length_replicate, List.length_cons, List.length_nil]
    exact ⟨⟨List.cons_ne_nil _ _, by omega⟩, by omega, ⟨hne, by omega⟩, by omega, ⟨List.cons_ne_nil _ _, by omega⟩,
      by omega, ⟨hne, by omega⟩, by omega, low_surges hn times _ (by omega)⟩

/-- A client on fd 5 that has received a header, into the buffer given. -/
def headed (b : Buffer) : Machine := { Machine.listening crlf2 with
  clients := fun k => if k = 0 then some ⟨5, 2, none, ⟨none, none, []⟩, false, none, false⟩ else none
  heap    := Function.update (Machine.listening crlf2).heap 2 ⟨some b, false, false⟩ }

theorem headed_read {length : JsString} {header : List UInt8} (hshort : header.length < 2 ^ 31)
    (hannounces : Announces header length) : ∃ b : Buffer, b.reserve = 2 ^ 62 ∧
      HeaderRead length 0 ⟨5, 2, none, ⟨none, none, []⟩, false, none, false⟩ (headed b) header [] := by
  have hnew : Buffer.Holds 64 (Buffer.new (2 ^ 62)) [] := Buffer.new_spec (by decide) (by decide)
  obtain ⟨b, hstore, hholds, hused⟩ := @Buffer.fill_spec 64 _ [] header hnew
    (show 0 + header.length ≤ 2 ^ 62 by omega)
  refine ⟨b.commit 64 header.length, Buffer.store_reserve hstore, ⟨rfl, rfl, ?_, by decide, ?_⟩, rfl, ?_, ?_,
    hannounces⟩
  · simp only [headed, Function.update_self]
  · exact ⟨Buffer.full crlf2, rfl, Buffer.full_holds (by decide) (by decide), by decide⟩
  · rw [List.append_nil]
    refine ⟨b.commit 64 header.length, ?_, hholds, ?_⟩
    · simp only [headed, Function.update_self]
    · rw [hused]
      show 0 + header.length ≤ 2 ^ 61
      omega
  · rwa [List.append_nil]

/-- **A number that is out of reach has no bound.** -/
theorem not_bounded {length : JsString} {header : List UInt8} (hshort : header.length < 2 ^ 31)
    (hannounces : Announces header length) (hsize : OutOfReach length.parseInt) : ¬ Bounded length := by
  rintro ⟨N, hN, hbound⟩
  obtain ⟨b, hreserve, hread⟩ := headed_read hshort hannounces
  have hroomy : (headed b).reserveOf 2 = some (2 ^ 62) := by
    simp only [reserveOf, headed, Function.update_self, Option.map_some, hreserve]
  obtain ⟨p, hp, -, hpending⟩ := drain_header true hread fun _ => hroomy
  have h := hpending (not_reaches hsize (by decide))
  obtain ⟨n, hn⟩ : ∃ n, n + 1 = 2 ^ 31 := ⟨2 ^ 31 - 1, by omega⟩
  obtain ⟨times, htimes⟩ : ∃ times, times = N / 2 ^ 32 + 1 := ⟨_, rfl⟩
  have hlen := length_surges n times
  rw [hn] at hlen
  obtain ⟨halong, p', hp', h'⟩ := feed_low hsize (surges n times) p [] h (by rw [List.length_nil]; omega)
    (low_surges hn times 0 rfl)
  obtain ⟨p₁, hp₁, hends⟩ := hbound 0 _ _ header [] hread
  obtain rfl := Except.ok.inj (hp.symm.trans hp₁)
  obtain ⟨p₂, hp₂, hfinished⟩ := hends _ halong
  obtain rfl := Except.ok.inj (hp'.symm.trans hp₂)
  exact h'.not_finished (hfinished (by rw [List.nil_append]; omega))

/-- **There is a bound exactly for the numbers up to `2 ^ 31 + 1`**, of the texts a header can carry. -/
theorem bounded_iff {length : JsString} (hcarried : ∃ header : List UInt8, header.length < 2 ^ 31 ∧
    Announces header length) : Bounded length ↔ ∃ n, length.parseInt = some n ∧ n ≤ 2 ^ 31 + 1 := by
  refine ⟨fun hbounded => ?_, fun ⟨n, hlength, hn⟩ => bounded_of_le hlength hn⟩
  obtain ⟨header, hshort, hannounces⟩ := hcarried
  by_contra hnot
  refine not_bounded hshort hannounces (fun n hn => ?_) hbounded
  by_contra hlt
  exact hnot ⟨n, hn, by omega⟩

omit [V8]

theorem bounded_one : @Bounded ascii (js "1") := by
  have htype : (@RawRequest.parsed ascii postRequest).header.get (js "Content-Type") = some (js "a") := by
    decide +kernel
  exact (@bounded_iff ascii (js "1") ⟨postRequest.header, by decide +kernel, by decide +kernel, js "a", htype,
    by decide +kernel⟩).2 ⟨1, by decide +kernel, by decide⟩

/-- A header whose length is no number. -/
def lengthless : List UInt8 :=
  @V8.utf8 ascii (js "POST / HTTP/1.1\r\nContent-Length: x\r\nContent-Type: a\r\n\r\n")

/-- **A body whose length is not a number never ends.** -/
theorem nan_unbounded : @Announces ascii lengthless (js "x") ∧ ¬ @Bounded ascii (js "x") := by
  have hannounces : @Announces ascii lengthless (js "x") := by
    have htype : (Helper.parseHeader (@V8.fromUtf8 ascii lengthless)).header.get (js "Content-Type") =
        some (js "a") := by decide +kernel
    exact ⟨by decide +kernel, js "a", htype, by decide +kernel⟩
  refine ⟨hannounces, @not_bounded ascii _ _ (by decide +kernel) hannounces fun n hn => ?_⟩
  have hnan : (js "x").parseInt = none := by decide +kernel
  exact nomatch hnan.symm.trans hn

end Process
end V8h
