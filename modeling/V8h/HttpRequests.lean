import V8h.Process
import V8h.SocketRead
import V8h.SocketWrite
/-!
# HttpRequests — the requests of one connection

The bytes of a request arrive in chunks, and its handler replies at once.  A `Client` is then always in one of two
states, `HeaderAwaited` and `BodyAwaited`, which say what part of the request it has; a chunk leads from one to the
other, and the last one through the handler back to `HeaderAwaited` with nothing received (`receive_within`).  A chunk
with the end of one request and the start of the next would end there as well: `recvHeader` and `process` clear the
buffer (`request_dropped`).
-/
namespace V8h

open Machine Effect Socket

/-- The contents of `Client.headerDelim` and `Client.boundaryDelim`. -/
def crlf2 : List UInt8 := [13, 10, 13, 10]

def crlf : List UInt8 := [13, 10]

/-- The bytes of a request. -/
structure RawRequest where
  header : List UInt8
  body   : List UInt8

namespace RawRequest

def bytes (r : RawRequest) : List UInt8 := r.header ++ r.body

/-- What the callback of the `Client` is to be called with. -/
def parsed [V8] (r : RawRequest) : Request := Helper.parseHeader (V8.fromUtf8 r.header)

/-- A header block that ends with its first empty line, keeps the connection, and announces the body if there is one. -/
structure WellFormed [V8] (r : RawRequest) : Prop where
  block     : IsLeast {i | crlf2 <+: r.header.drop i} (r.header.length - crlf2.length)
  keepAlive : (r.parsed.header.get (js "Connection")).any (·.toLowerCase = js "keep-alive") = true
  announced : match r.parsed.header.get (js "Content-Length") with
    | none               => r.body = []
    | some contentLength => contentLength.parseInt = some (r.body.length : Int) ∧
      ∃ contentType, r.parsed.header.get (js "Content-Type") = some contentType ∧ contentType.isMultipart = false

/-- The chunks a request comes in: it starts with the first, and the last has its end. -/
structure Chunked (r : RawRequest) (chunks : List (List UInt8)) : Prop where
  whole : r.bytes <+: chunks.flatten
  last  : chunks.dropLast.flatten.length < r.bytes.length
  short : chunks.flatten.length < 2 ^ 31

theorem WellFormed.header_length [V8] {r : RawRequest} (hr : r.WellFormed) : crlf2.length ≤ r.header.length := by
  have h : crlf2 <+: r.header.drop (r.header.length - crlf2.length) := hr.block.1
  have := h.length_le
  rw [List.length_drop] at this
  omega

end RawRequest

/-- A handler that writes one text and ends, at once; what it writes, and what `send` answers, for the request served
after `n` others. -/
structure Handler where
  reply : (n : Nat) → Request → JsString
  sends : (n : Nat) → Request → List Send

/-- Every reply is sent whole. -/
def Handler.Completes [V8] (handler : Handler) : Prop := ∀ n req, (V8.utf8 (handler.reply n req)).length < 2 ^ 31 ∧
  ((Outbox.new (V8.utf8 (handler.reply n req))).offer (replies true (handler.sends n req))).rest = []

namespace Machine

/-- The client and its connection are there, and its buffer is its own. -/
structure Connected (k : Nat) (c : Client) (m : Machine) : Prop where
  client : m.clients k = some c
  isOpen : (m.kernel.conn c.fd).isSome
  plain  : (m.heap c.buffer).temporary = false
  ne     : c.buffer ≠ headerDelim
  delim  : m.Stores headerDelim crlf2 (2 ^ 61)

/-- The client, and the `CRLF` of its class. -/
structure Posted (k : Nat) (c : Client) (m : Machine) : Prop extends Connected k c m where
  own  : c.buffer ≠ boundaryDelim
  line : m.Stores boundaryDelim crlf (2 ^ 61)

/-- The buffer that `pop` gives is nobody's. -/
structure Fresh (c : Client) (m : Machine) : Prop where
  pooled : ∀ b ∈ m.pool.buffers.head?, ∃ q u, m.Stores b q u
  free   : m.pool.buffers.head?.getD m.nextBuffer ∉ [headerDelim, boundaryDelim, c.buffer]

variable {m m' : Machine} {k : Nat} {c c' : Client}

theorem Connected.around (h : m.Connected k c) (ha : Around c.buffer m m') : m'.Connected k c :=
  ⟨(congrFun ha.clients k).trans h.client, by rw [ha.conn]; exact h.isOpen, ha.temporary.trans h.plain, h.ne,
    h.delim.congr (by rw [ha.heap headerDelim h.ne.symm])⟩

theorem Connected.setClient (h : m.Connected k c) (c' : Client) (hfd : c'.fd = c.fd) (hb : c'.buffer = c.buffer) :
    Connected k c' { m with clients := Function.update m.clients k (some c') } :=
  ⟨Function.update_self .., by rw [hfd]; exact h.isOpen, by rw [hb]; exact h.plain, by rw [hb]; exact h.ne, h.delim⟩

theorem Posted.near (h : m.Posted k c) (hn : Near c.buffer m m') : m'.Posted k c :=
  ⟨h.toConnected.around hn.toAround, h.own, h.line.congr (by rw [hn.heap boundaryDelim h.own.symm])⟩

theorem Fresh.near (h : m.Fresh c) (hn : Near c.buffer m m') : m'.Fresh c := by
  have hfree := h.free
  refine ⟨fun b hb => ?_, by rwa [hn.pool, hn.nextBuffer]⟩
  rw [hn.pool] at hb
  obtain ⟨q, u, hst⟩ := h.pooled b hb
  have hne : b ≠ c.buffer := by
    rintro rfl
    rw [hb] at hfree
    simp at hfree
  exact ⟨q, u, hst.congr (by rw [hn.heap b hne])⟩

/-- What a client is posted with is left alone by what happens to other buffers. -/
theorem Posted.congr (h : m.Posted k c) (hfd : c'.fd = c.fd) (hb : c'.buffer = c.buffer)
    (hc : m'.clients k = some c') (hk : m'.kernel = m.kernel)
    (hheap : ∀ id ∈ [headerDelim, boundaryDelim, c.buffer], m'.heap id = m.heap id) : m'.Posted k c' := by
  have hown := hheap c.buffer (by simp)
  have hheader := hheap headerDelim (by simp)
  have hline := hheap boundaryDelim (by simp)
  refine ⟨⟨hc, by rw [hk, hfd]; exact h.isOpen, by rw [hb, hown]; exact h.plain, by rw [hb]; exact h.ne,
    h.delim.congr (by rw [hheader])⟩, by rw [hb]; exact h.own, h.line.congr (by rw [hline])⟩

end Machine

namespace Client

variable {m : Machine} {k u : Nat} {c : Client} {q : List UInt8}

/-- **`recvHeader` waits for a header**, with the buffer empty. -/
theorem recvHeader_run (h : m.Connected k c) (hs : m.Stores c.buffer q u) : ∃ m' last,
    recvHeader k m = .ok none m' ∧ m'.Connected k c ∧
      Awaiting c.fd c.buffer headerDelim last crlf2 (.header k) [] m' ∧ Near c.buffer m m' ∧
      m'.Stores c.buffer [] 0 := by
  obtain ⟨b, hclear, hholds, hused⟩ := Script.clear_spec hs
  have hconn := h.around (around_setBuffer m c.buffer b)
  have hempty : (m.setBuffer c.buffer b).Stores c.buffer [] (2 ^ 61) := stores_setBuffer hholds (by omega)
  obtain ⟨m', hrun, hnear, hawait, hheap⟩ := readToken_run c.fd (.header k) hempty hconn.delim (by decide) (by decide)
    (by decide)
  have hnot : ¬ crlf2 <:+: [] := by decide
  rw [reported, if_neg hnot] at hrun
  exact ⟨m', _, (bind_ok (client_run h.client)).trans ((bind_ok hclear).trans hrun), hconn.around hnear.toAround,
    hawait hnot, (near_setBuffer m c.buffer b).trans hnear,
    (stores_setBuffer hholds (Nat.le_of_eq hused)).congr (by rw [hheap])⟩

/-- **`process` calls the handler**, with the buffer empty. -/
theorem process_run (h : m.Connected k c) (hs : m.Stores c.buffer q u) : ∃ m',
    process k m = .ok (some (.handler k c.req)) m' ∧ m'.Connected k c ∧ m'.Stores c.buffer [] 0 := by
  obtain ⟨b, hclear, hholds, hused⟩ := Script.clear_spec hs
  exact ⟨_, (bind_ok (client_run h.client)).trans ((bind_ok hclear).trans rfl),
    h.around (around_setBuffer m c.buffer b),
    stores_setBuffer hholds (Nat.le_of_eq hused)⟩

/-- The client when `onHeader` has parsed the header. -/
def parsed [V8] (c : Client) (header : List UInt8) : Client :=
  let req := Helper.parseHeader (V8.fromUtf8 header)
  { c with req := req, isClosed := !(req.header.get (js "Connection")).any (·.toLowerCase = js "keep-alive") }

/-- **The header is taken from the buffer** and parsed. -/
theorem onHeader_parsed [V8] {header : List UInt8} (h : m.Connected k c) (hs : m.Stores c.buffer (header ++ q) u)
    (hlen : (header ++ q).length < 2 ^ 31) : ∃ b,
      Script.readUtf8 c.buffer header.length m = .ok (V8.fromUtf8 header) (m.setBuffer c.buffer b) ∧
      (m.setBuffer c.buffer b).Stores c.buffer q u ∧
      onHeader k header.length m =
        (match (Helper.parseHeader (V8.fromUtf8 header)).header.get (js "Content-Length") with
        | some contentLength => do
          modifyClient k fun c => { c with contentLength := contentLength.parseInt }
          recvBody k
        | none               => process k)
        { m.setBuffer c.buffer b with clients := Function.update m.clients k (some (c.parsed header)) } := by
  obtain ⟨b, hread, hst⟩ := Script.readUtf8_run hs (n := header.length) (by rw [List.length_append]; omega) hlen
  rw [List.take_left] at hread
  rw [List.drop_left] at hst
  exact ⟨b, hread, hst,
    (bind_ok (client_run h.client)).trans ((bind_ok hread).trans (bind_ok (modifyClient_run _ h.client)))⟩

/-- **A header that announces a body is read.** -/
theorem onHeader_recvBody [V8] {header : List UInt8} {contentLength : JsString} (h : m.Connected k c)
    (hs : m.Stores c.buffer (header ++ q) u) (hlen : (header ++ q).length < 2 ^ 31)
    (hlength : (Helper.parseHeader (V8.fromUtf8 header)).header.get (js "Content-Length") = some contentLength) : ∃ b,
      Script.readUtf8 c.buffer header.length m = .ok (V8.fromUtf8 header) (m.setBuffer c.buffer b) ∧
      (m.setBuffer c.buffer b).Stores c.buffer q u ∧
      onHeader k header.length m = recvBody k { m.setBuffer c.buffer b with
        clients := Function.update m.clients k
          (some { c.parsed header with contentLength := contentLength.parseInt }) } := by
  obtain ⟨b, hread, hst, hrun⟩ := onHeader_parsed h hs hlen
  refine ⟨b, hread, hst, hrun.trans ?_⟩
  rw [hlength]
  refine (bind_ok (modifyClient_run _ (Function.update_self ..))).trans ?_
  simp only [Function.update_idem]

/-- **`recvBody` waits for the body**, or has it already. -/
theorem recvBody_run [V8] {n : Nat} {contentType : JsString} (h : m.Connected k c) (hs : m.Stores c.buffer q u)
    (htype : c.req.header.get (js "Content-Type") = some contentType) (hmulti : contentType.isMultipart = false)
    (hlength : c.contentLength = some (n : Int)) (hlen : q.length < 2 ^ 31) :
    ∃ m', recvBody k m = .ok (reportedSize n (.body k) q) m' ∧ m'.Connected k c ∧ m'.Stores c.buffer q u ∧
      (¬ n ≤ q.length → m'.service.fds c.fd =
        some (.readUntil c.fd c.buffer (.size (some (n : Int))) (.size (some (n : Int)) (.body k)))) := by
  obtain ⟨m', hrun, haround, hst, hfds⟩ := readSize_run c.fd n (.body k) hs (by omega)
  refine ⟨m', (bind_ok (client_run h.client)).trans ?_, h.around haround.toAround, hst, hfds⟩
  rw [← hrun, ← hlength]
  simp only [htype, hmulti]
  rfl

/-- What `onHeader` makes of the client. -/
def withHeader [V8] (c : Client) (r : RawRequest) : Client :=
  { c with
    req           := r.parsed
    isClosed      := false
    contentLength := match r.parsed.header.get (js "Content-Length") with
      | none               => c.contentLength
      | some contentLength => contentLength.parseInt }

/-- What is left to be called when the header has been read, and `q` of the body is there. -/
def afterHeader [V8] (k : Nat) (r : RawRequest) (q : List UInt8) : Option Task :=
  if (r.parsed.header.get (js "Content-Length")).isSome then reportedSize r.body.length (.body k) q
  else some (.handler k r.parsed)

/-- **The header is read.** -/
theorem onHeader_run [V8] {r : RawRequest} (h : m.Connected k c) (hr : r.WellFormed) (hq : r.header <+: q)
    (hlen : q.length < 2 ^ 31) (hs : m.Stores c.buffer q u) : ∃ m',
      onHeader k r.header.length m = .ok (afterHeader k r (q.drop r.header.length)) m' ∧
      m'.Connected k (c.withHeader r) ∧
      match r.parsed.header.get (js "Content-Length") with
      | none   => m'.Stores c.buffer [] 0
      | some _ => m'.Stores c.buffer (q.drop r.header.length) u ∧
        (¬ r.body.length ≤ (q.drop r.header.length).length → m'.service.fds c.fd = some (.readUntil c.fd c.buffer
          (.size (some (r.body.length : Int))) (.size (some (r.body.length : Int)) (.body k)))) := by
  obtain ⟨e, rfl⟩ := hq
  rw [List.drop_left]
  have hclosed : (!(r.parsed.header.get (js "Connection")).any fun v => v.toLowerCase = js "keep-alive") = false := by
    rw [hr.keepAlive, Bool.not_true]
  have hann := hr.announced
  cases hlength : r.parsed.header.get (js "Content-Length") with
  | none =>
    obtain ⟨b, -, hst, hstart⟩ := onHeader_parsed h hs hlen
    rw [show (Helper.parseHeader (V8.fromUtf8 r.header)).header.get (js "Content-Length") = none from hlength] at hstart
    have hconn := (h.around (around_setBuffer m c.buffer b)).setClient (c.parsed r.header) rfl rfl
    obtain ⟨m', hrun, hconn', hempty⟩ := process_run hconn hst
    have hc : c.withHeader r = c.parsed r.header := by
      simp only [withHeader, hlength, ← hclosed]
      rfl
    have ht : afterHeader k r e = some (.handler k r.parsed) := by
      rw [afterHeader, hlength]
      rfl
    rw [hc, ht]
    exact ⟨m', hstart.trans hrun, hconn', hempty⟩
  | some contentLength =>
    rw [hlength] at hann
    obtain ⟨hparse, contentType, htype, hmulti⟩ := hann
    obtain ⟨b, -, hst, hstart⟩ := onHeader_recvBody h hs hlen hlength
    have hc : c.withHeader r = { c.parsed r.header with contentLength := contentLength.parseInt } := by
      simp only [withHeader, hlength, ← hclosed]
      rfl
    have ht : afterHeader k r e = reportedSize r.body.length (.body k) e := by
      rw [afterHeader, hlength]
      rfl
    rw [hc, ht]
    have hconn := (h.around (around_setBuffer m c.buffer b)).setClient
      { c.parsed r.header with contentLength := contentLength.parseInt } rfl rfl
    rw [List.length_append] at hlen
    obtain ⟨m', hrun, hconn', hst', hfds⟩ :=
      recvBody_run (n := r.body.length) hconn hst htype hmulti hparse (by omega)
    exact ⟨m', hstart.trans hrun, hconn', hst', hfds⟩

/-- **`end` sends the buffer whole.** -/
theorem finish_run (ans : Answers) (h : m.Connected k c) (hs : m.Stores c.buffer q u) (hlen : q.length < 2 ^ 31)
    (hsends : ((Outbox.new q).offer (replies true ans.sends)).rest = []) : ∃ m',
      finish ans k m = .ok (some (.invoke (.ended k) 0)) m' ∧ m'.Connected k c ∧ m'.Stores c.buffer [] u := by
  have ho : Offering c.fd c.buffer m.kernel.sent u (Outbox.new q) m :=
    ⟨hs, fun x _ => (List.append_nil (m.kernel.sent x)).symm⟩
  obtain ⟨m₁, hsp, ho₁, hrun⟩ := writeBuffer_run ans (.ended k) ho rfl hlen
  have hover : ((Outbox.new q).offer (replies true ans.sends)).ended := .inl hsends
  rw [h.isOpen, if_pos hsends, if_pos hover, bind_ok (release_plain (hsp.temporary.trans h.plain))] at hrun
  have hst := ho₁.stores
  rw [h.isOpen, hsends] at hst
  have hconn : (outEmpty m c.fd).Connected k c := ⟨h.client, h.isOpen, h.plain, h.ne, h.delim⟩
  exact ⟨m₁, (bind_ok (client_run h.client)).trans hrun, hconn.around hsp.around, hst⟩

/-- **The connection is kept**, and a header is waited for again. -/
theorem onEnded_run (h : m.Connected k c) (hkeep : c.isClosed = false) (hs : m.Stores c.buffer q u) : ∃ m' last,
    onEnded k m = .ok none m' ∧ m'.Connected k c ∧
      Awaiting c.fd c.buffer headerDelim last crlf2 (.header k) [] m' := by
  obtain ⟨m', last, hrun, hconn, hawait, -⟩ := recvHeader_run h hs
  refine ⟨m', last, (bind_ok (client_run h.client)).trans ?_, hconn, hawait⟩
  rw [hkeep]
  exact hrun

end Client

namespace Process

section

variable [V8]

/-- The calls left are made and the handler replies, until nothing is left to be done.  The list is what the callback of
the `Client` was called with. -/
def settle (handler : Handler) : Nat → Process × List Request → Except Refusal (Process × List Request)
  | 0,        _        => .error .unfit
  | fuel + 1, (p, log) =>
    match p.task with
    | none                  => .ok (p, log)
    | some (.handler k req) => do
      let p ← p.step (.go .silent)
      let p ← p.step (.call k (.write (handler.reply log.length req)) .silent)
      let p ← p.step (.call k .finish ⟨.data [], handler.sends log.length req, none⟩)
      settle handler fuel (p, log ++ [req])
    | some _                => do
      let p ← p.step (.go .silent)
      settle handler fuel (p, log)

/-- A connection is accepted. -/
def accept (handler : Handler) (fuel : Nat) (server fd : Int) : Except Refusal (Process × List Request) := do
  let p ← (initial server).step (.event ⟨server, epollIn⟩ ⟨.data [], [], some fd⟩)
  settle handler fuel (p, [])

/-- A chunk is received. -/
def receive (handler : Handler) (fuel : Nat) (fd : Int) (s : Process × List Request) (chunk : List UInt8) :
    Except Refusal (Process × List Request) := do
  let p ← s.1.step (.event ⟨fd, epollIn⟩ ⟨.data chunk, [], none⟩)
  settle handler fuel (p, s.2)

/-- `recv` may return the chunk whole: it is not empty, and no longer than the room there is. -/
def Receivable (k : Nat) (s : Process × List Request) (chunk : List UInt8) : Prop :=
  chunk ≠ [] ∧ ∃ c ∈ s.1.machine.clients k, ∃ b ∈ (s.1.machine.heap c.buffer).native,
    ∃ b₁ ∈ (b.prepare 64 8192).toOption, chunk.length ≤ b₁.remain 64

instance (k : Nat) (s : Process × List Request) (chunk : List UInt8) : Decidable (Receivable k s chunk) :=
  inferInstanceAs (Decidable (_ ∧ ∃ c ∈ _, ∃ b ∈ _, ∃ b₁ ∈ _, _ ≤ _))

variable {handler : Handler} {fuel k : Nat} {log : List Request} {p p₁ p₂ p₃ : Process} {t : Task} {req : Request}

omit [V8] in
theorem invoke_ne_handler (callback : Cont) (n : Int) (k : Nat) (req : Request) :
    Task.invoke callback n ≠ .handler k req := by
  rintro ⟨⟩

theorem settle_none (h : p.task = none) : settle handler (fuel + 1) (p, log) = .ok (p, log) := by
  rw [settle]
  simp only [h]

theorem settle_go (ht : p.task = some t) (hn : ∀ k req, t ≠ .handler k req) (h : p.step (.go .silent) = .ok p₁) :
    settle handler (fuel + 1) (p, log) = settle handler fuel (p₁, log) := by
  rw [settle]
  simp only [ht]
  cases t with
  | handler k req => exact absurd rfl (hn k req)
  | call f => simp only [h]; rfl
  | invoke callback arg => simp only [h]; rfl
  | triggerError fd => simp only [h]; rfl

theorem settle_handler (ht : p.task = some (.handler k req)) (h₁ : p.step (.go .silent) = .ok p₁)
    (h₂ : p₁.step (.call k (.write (handler.reply log.length req)) .silent) = .ok p₂)
    (h₃ : p₂.step (.call k .finish ⟨.data [], handler.sends log.length req, none⟩) = .ok p₃) :
    settle handler (fuel + 1) (p, log) = settle handler fuel (p₃, log ++ [req]) := by
  rw [settle]
  simp only [ht, h₁]
  show (p₁.step _ >>= _) = _
  rw [h₂]
  show (p₂.step _ >>= _) = _
  rw [h₃]
  rfl

/-! ## The states of a client -/

/-- `q` of a header has been received. -/
structure HeaderAwaited (k : Nat) (fd : Int) (q : List UInt8) (p : Process) : Prop where
  left  : p.left = false
  task  : p.task = none
  waits : ∃ c last, p.machine.Connected k c ∧ c.fd = fd ∧
    Awaiting fd c.buffer headerDelim last crlf2 (.header k) q p.machine

/-- A header is awaited with nothing received, and what a multipart request needs is there. -/
structure Expecting (k : Nat) (fd : Int) (p : Process) : Prop where
  left  : p.left = false
  task  : p.task = none
  waits : ∃ c last, p.machine.Posted k c ∧ p.machine.Fresh c ∧ p.machine.Stores c.buffer [] 0 ∧ c.fd = fd ∧
    Awaiting fd c.buffer headerDelim last crlf2 (.header k) [] p.machine

omit [V8] in
theorem Expecting.headerAwaited {fd : Int} (h : Expecting k fd p) : HeaderAwaited k fd [] p := by
  obtain ⟨c, last, hposted, -, -, hfd, hawait⟩ := h.waits
  exact ⟨h.left, h.task, c, last, hposted.toConnected, hfd, hfd ▸ hawait⟩

/-- The header of a request has been read, and `q` of its body is there. -/
structure BodyAwaited (k : Nat) (fd : Int) (r : RawRequest) (q : List UInt8) (p : Process) : Prop where
  left  : p.left = false
  task  : p.task = none
  waits : ∃ c, p.machine.Connected k c ∧ c.fd = fd ∧ c.isClosed = false ∧ c.req = r.parsed ∧
    p.machine.Stores c.buffer q (2 ^ 61 + r.header.length + q.length) ∧
    p.machine.service.fds fd = some (.readUntil fd c.buffer (.size (some (r.body.length : Int)))
      (.size (some (r.body.length : Int)) (.body k)))

/-- **The handler replies**, and the next header is waited for. -/
theorem replied_run (fuel : Nat) (log : List Request) {c : Client} (hh : handler.Completes)
    (hl : p.left = false) (ht : p.task = some (.handler k req))
    (hc : p.machine.Connected k c) (hkeep : c.isClosed = false) (hs : p.machine.Stores c.buffer [] 0) :
    ∃ p', settle handler (fuel + 3) (p, log) = .ok (p', log ++ [req]) ∧ HeaderAwaited k c.fd [] p' := by
  obtain ⟨hlen, hsends⟩ := hh log.length req
  have h₁ : p.step (.go .silent) = .ok ⟨p.machine, none, p.byUser, false⟩ := step_go ht hl
  obtain ⟨b, hwrite, hst⟩ := Script.writeUtf8_run (handler.reply log.length req) hs (by omega)
  rw [List.nil_append] at hst
  have hconn := hc.around (around_setBuffer p.machine c.buffer b)
  have h₂ : Process.step ⟨p.machine, none, p.byUser, false⟩ (.call k (.write (handler.reply log.length req)) .silent) =
      .ok ⟨p.machine.setBuffer c.buffer b, none, true, false⟩ := by
    have hrun : runMethod .silent k (.write (handler.reply log.length req)) p.machine = .ok none _ :=
      bind_ok ((bind_ok (client_run hc.client)).trans hwrite)
    rw [step_call rfl rfl, hrun, ended]
  obtain ⟨m₃, hfinish, hconn₃, hst₃⟩ :=
    Client.finish_run ⟨.data [], handler.sends log.length req, none⟩ hconn hst hlen hsends
  have h₃ : Process.step ⟨p.machine.setBuffer c.buffer b, none, true, false⟩
      (.call k .finish ⟨.data [], handler.sends log.length req, none⟩) =
      .ok ⟨m₃, some (.invoke (.ended k) 0), true, false⟩ := by
    rw [step_call rfl rfl, runMethod, hfinish, ended]
  obtain ⟨m₄, last, hended, hconn₄, hawait⟩ := Client.onEnded_run hconn₃ hkeep hst₃
  have h₄ : Process.step ⟨m₃, some (.invoke (.ended k) 0), true, false⟩ (.go .silent) =
      .ok ⟨m₄, none, true, false⟩ := by
    rw [step_go rfl rfl, runTask, runCont, hended, ended]
  refine ⟨⟨m₄, none, true, false⟩, ?_, rfl, rfl, c, last, hconn₄, rfl, hawait⟩
  rw [settle_handler ht h₁ h₂ h₃, settle_go (t := .invoke (.ended k) 0) rfl (invoke_ne_handler _ _) h₄,
    settle_none rfl]

/-- **The body is there.** -/
theorem body_run (fuel : Nat) (log : List Request) {c : Client} {r : RawRequest} {q : List UInt8} {u : Nat} {n : Int}
    (hh : handler.Completes)
    (hl : p.left = false) (ht : p.task = some (.invoke (.body k) n)) (hc : p.machine.Connected k c)
    (hkeep : c.isClosed = false) (hreq : c.req = r.parsed) (hs : p.machine.Stores c.buffer q u) :
    ∃ p', settle handler (fuel + 4) (p, log) = .ok (p', log ++ [r.parsed]) ∧ HeaderAwaited k c.fd [] p' := by
  obtain ⟨m', hrun, hconn, hst⟩ := Client.process_run hc hs
  have h : p.step (.go .silent) = .ok ⟨m', some (.handler k r.parsed), p.byUser, false⟩ := by
    rw [step_go ht hl, runTask, runCont, hrun, ended, hreq]
  rw [settle_go ht (invoke_ne_handler _ _) h]
  exact replied_run fuel log hh rfl rfl hconn hkeep hst

/-- A part of a request has been received, after the requests of `log`. -/
inductive Within (k : Nat) (fd : Int) (r : RawRequest) (log : List Request) :
    List UInt8 → Process × List Request → Prop
  | header {q : List UInt8} {p : Process} (hq : q.length < r.header.length) (h : HeaderAwaited k fd q p) :
    Within k fd r log q (p, log)
  | body {q : List UInt8} {p : Process} (hle : r.header.length ≤ q.length) (hq : q.length < r.bytes.length)
      (h : BodyAwaited k fd r (q.drop r.header.length) p) :
    Within k fd r log q (p, log)
  | served {q : List UInt8} {p : Process} (hq : r.bytes.length ≤ q.length) (h : HeaderAwaited k fd [] p) :
    Within k fd r log q (p, log ++ [r.parsed])

/-- **The header is there**, and `q` of the request. -/
theorem header_run {c : Client} {r : RawRequest} {q : List UInt8} (hh : handler.Completes) (hr : r.WellFormed)
    (hl : p.left = false) (ht : p.task = some (.invoke (.header k) r.header.length)) (hc : p.machine.Connected k c)
    (hq : r.header <+: q) (hlen : q.length < 2 ^ 31) (hs : p.machine.Stores c.buffer q (2 ^ 61 + q.length)) :
    ∃ s, settle handler (fuel + 5) (p, log) = .ok s ∧ Within k c.fd r log q s := by
  have hle := hq.length_le
  obtain ⟨m', hrun, hconn, hst⟩ := Client.onHeader_run hc hr hq hlen hs
  have h : p.step (.go .silent) = .ok ⟨m', Client.afterHeader k r (q.drop r.header.length), p.byUser, false⟩ := by
    rw [step_go ht hl, runTask, runCont, hrun, ended]
  have hann := hr.announced
  have hbytes : r.bytes.length = r.header.length + r.body.length := List.length_append
  have hdrop : (q.drop r.header.length).length = q.length - r.header.length := List.length_drop
  rw [settle_go ht (invoke_ne_handler _ _) h]
  cases hlength : r.parsed.header.get (js "Content-Length") with
  | none =>
    have htask : Client.afterHeader k r (q.drop r.header.length) = some (.handler k r.parsed) := by
      rw [Client.afterHeader, hlength]
      rfl
    rw [hlength] at hann hst
    have hbody : r.body.length = 0 := List.length_eq_zero_iff.2 hann
    rw [htask]
    obtain ⟨p', h', hw⟩ := replied_run (fuel + 1) log
      (p := ⟨m', some (.handler k r.parsed), p.byUser, false⟩) hh rfl rfl hconn rfl hst
    exact ⟨_, h', .served (by omega) hw⟩
  | some contentLength =>
    rw [hlength] at hst
    have htask : Client.afterHeader k r (q.drop r.header.length) =
        reportedSize r.body.length (.body k) (q.drop r.header.length) := by
      rw [Client.afterHeader, hlength]
      rfl
    rw [htask, reportedSize]
    by_cases hbody : r.body.length ≤ (q.drop r.header.length).length
    · rw [if_pos hbody]
      obtain ⟨p', h', hw⟩ := body_run fuel log
        (p := ⟨m', some (.invoke (.body k) r.body.length), p.byUser, false⟩) hh rfl rfl hconn rfl rfl hst.1
      exact ⟨_, h', .served (by omega) hw⟩
    · rw [if_neg hbody]
      exact ⟨_, settle_none rfl, .body hle (by omega)
        ⟨rfl, rfl, _, hconn, rfl, rfl, rfl, hst.1.mono (by omega), hst.2 hbody⟩⟩

omit [V8] in
theorem callbackOf_readable {m : Machine} {fd : Int} {f : Callback} (hf : m.service.fds fd = some f) :
    m.service.callbackOf ⟨fd, epollIn⟩ = some f := by
  have herr : Event.isError ⟨fd, epollIn⟩ = false := by simp [Event.isError, epollIn, epollErr, epollHup]
  rw [Service.callbackOf, herr]
  exact hf

theorem receive_event {s : Process × List Request} {chunk : List UInt8} {fd : Int} {m' : Machine} {t : Option Task}
    {buffer : Nat} {cond : Cond} {callback : Closure} (hl : s.1.left = false) (ht : s.1.task = none)
    (hf : s.1.machine.service.fds fd = some (.readUntil fd buffer cond callback))
    (hrun : onReadable ⟨.data chunk, [], none⟩ fd buffer cond callback s.1.machine = .ok t m') :
    receive handler fuel fd s chunk = settle handler fuel (⟨m', t, false, false⟩, s.2) := by
  have hcalled : s.1.machine.service.callbackOf ⟨fd, epollIn⟩ = some (.readUntil fd buffer cond callback) :=
    callbackOf_readable hf
  have hstep : s.1.step (.event ⟨fd, epollIn⟩ ⟨.data chunk, [], none⟩) = .ok ⟨m', t, false, false⟩ := by
    rw [step_event ht hl hcalled, runCallback, hrun, ended]
  rw [receive, hstep]
  rfl

/-- **A chunk of a request is received.** -/
theorem receive_within (fuel : Nat) {s : Process × List Request} {r : RawRequest} {q chunk t : List UInt8} {fd : Int}
    (hh : handler.Completes) (hr : r.WellFormed) (ht : r.bytes <+: t) (hq : q ++ chunk <+: t) (hlen : t.length < 2 ^ 31)
    (hlt : q.length < r.bytes.length) (h : Within k fd r log q s) (hok : Receivable k s chunk) :
    ∃ s', receive handler (fuel + 5) fd s chunk = .ok s' ∧ Within k fd r log (q ++ chunk) s' := by
  obtain ⟨hne, c₀, hc₀, b, hb, b₁, hprep, hroom⟩ := hok
  have hprep : b.prepare 64 8192 = .ok b₁ := by
    cases h : b.prepare 64 8192 <;> simp_all [Except.toOption]
  have hle := hq.length_le
  have happend : (q ++ chunk).length = q.length + chunk.length := List.length_append
  cases h with
  | header hlt hw =>
    rename_i p
    obtain ⟨c, last, hconn, rfl, hawait⟩ := hw.waits
    obtain rfl := Option.some.inj (hc₀.symm.trans hconn.client)
    obtain ⟨m', hrun, haround, hawait', -⟩ :=
      onReadable_token ⟨.data chunk, [], none⟩ hawait hawait.bytes (Nat.le_refl _) (by decide) (by omega)
      ⟨hconn.isOpen, rfl, hne, b, b₁, hb, hprep, hroom⟩
    rw [receive_event hw.left hw.task hawait.fds hrun]
    have hconn' := hconn.around haround.toAround
    have hblock := hr.header_length
    have hheader : r.header <+: t := (List.prefix_append _ _).trans ht
    obtain ⟨e, he⟩ := hheader
    have hfirst := he ▸ Seek.isLeast_append (by decide) hr.block e
    by_cases hend : r.header.length ≤ (q ++ chunk).length
    · have hfound := Seek.isLeast_of_prefix hfirst hq (by omega)
      rw [reported, if_pos ((hfound.1 : crlf2 <+: _).isInfix.trans (List.drop_suffix _ _).isInfix),
        Seek.firstPartial_of_isLeast hfound]
      have hn : ((r.header.length - crlf2.length : Nat) : Int) + (crlf2.length : Nat) = r.header.length := by omega
      rw [hn]
      exact header_run hh hr rfl rfl hconn' (List.prefix_of_prefix_length_le ⟨e, he⟩ hq hend) (by omega) hawait'.bytes
    · have hnot := Seek.not_infix_of_prefix hfirst hq (by omega)
      rw [reported, if_neg hnot]
      exact ⟨_, settle_none rfl, .header (by omega) ⟨rfl, rfl, c₀, last, hconn', rfl, hawait'⟩⟩
  | body hge hlt hw =>
    rename_i p
    obtain ⟨c, hconn, rfl, hkeep, hreq, hst, hfds⟩ := hw.waits
    obtain rfl := Option.some.inj (hc₀.symm.trans hconn.client)
    have hbytes : r.bytes.length = r.header.length + r.body.length := List.length_append
    have hdrop : (q.drop r.header.length).length = q.length - r.header.length := List.length_drop
    have hdrop' : (q ++ chunk).drop r.header.length = q.drop r.header.length ++ chunk :=
      List.drop_append_of_le_length hge
    obtain ⟨b₂, hst', hrun⟩ := onReadable_run ⟨.data chunk, [], none⟩ hst (by omega)
      ⟨hconn.isOpen, rfl, hne, b, b₁, hb, hprep, hroom⟩ (by omega)
    have hconn' := hconn.around (around_setBuffer p.machine c₀.buffer b₂)
    have hcond := condition_callBack_size r.body.length (.body k) hst' (by rw [List.length_append]; omega)
    rw [receive_event hw.left hw.task hfds (hrun.trans hcond), reportedSize]
    by_cases hbody : r.body.length ≤ (q.drop r.header.length ++ chunk).length
    · rw [if_pos hbody]
      obtain ⟨p', h', hw'⟩ := body_run (fuel + 1) log
        (p := ⟨p.machine.setBuffer c₀.buffer b₂, some (.invoke (.body k) r.body.length), false, false⟩)
        hh rfl rfl hconn' hkeep hreq hst'
      rw [List.length_append] at hbody
      exact ⟨_, h', .served (by omega) hw'⟩
    · rw [if_neg hbody]
      rw [List.length_append] at hbody
      refine ⟨_, settle_none rfl, .body (by omega) (by omega) ?_⟩
      rw [hdrop']
      exact ⟨rfl, rfl, c₀, hconn', rfl, hkeep, hreq, hst'.mono (by rw [List.length_append]; omega), hfds⟩
  | served hge hw => omega

/-- **The chunks of one request.** -/
theorem receive_request (fuel : Nat) {r : RawRequest} {t : List UInt8} {fd : Int} (hh : handler.Completes)
    (hr : r.WellFormed)
    (ht : r.bytes <+: t) (hlen : t.length < 2 ^ 31) :
    ∀ (chunks : List (List UInt8)) (q : List UInt8) (s : Process × List Request), Within k fd r log q s →
      q ++ chunks.flatten = t → (chunks ≠ [] → (q ++ chunks.dropLast.flatten).length < r.bytes.length) →
      Run.Along (receive handler (fuel + 5) fd) (Receivable k) s chunks →
      ∃ s', chunks.foldlM (receive handler (fuel + 5) fd) s = .ok s' ∧ Within k fd r log t s'
  | [], q, s, h, hq, _, _ => by
    rw [List.flatten_nil, List.append_nil] at hq
    exact ⟨s, rfl, hq ▸ h⟩
  | chunk :: chunks, q, s, h, hq, hlast, hok => by
    have hlast := hlast (List.cons_ne_nil _ _)
    have hlt : q.length < r.bytes.length := by
      rw [List.length_append] at hlast
      omega
    rw [List.flatten_cons, ← List.append_assoc] at hq
    obtain ⟨s₁, hs₁, h₁⟩ := receive_within fuel hh hr ht ⟨chunks.flatten, hq⟩ hlen hlt h hok.1
    have hlast' : chunks ≠ [] → (q ++ chunk ++ chunks.dropLast.flatten).length < r.bytes.length := fun hne => by
      rwa [List.dropLast_cons_of_ne_nil hne, List.flatten_cons, ← List.append_assoc] at hlast
    obtain ⟨s', hs', h'⟩ := receive_request fuel hh hr ht hlen chunks (q ++ chunk) s₁ h₁ hq hlast' (hok.2 s₁ hs₁)
    exact ⟨s', (Run.foldlM_cons_of_ok hs₁ chunks).trans hs', h'⟩

/-- **The chunks of a list of requests.** -/
theorem receive_requests {fd : Int} (hh : handler.Completes) {requests : List RawRequest}
    {chunks : List (List (List UInt8))} (hchunks : List.Forall₂ RawRequest.Chunked requests chunks) :
    ∀ (p : Process) (log : List Request), (∀ r ∈ requests, r.WellFormed) → HeaderAwaited k fd [] p →
      Run.Along (receive handler (fuel + 5) fd) (Receivable k) (p, log) chunks.flatten →
      ∃ p', chunks.flatten.foldlM (receive handler (fuel + 5) fd) (p, log) =
        .ok (p', log ++ requests.map RawRequest.parsed) ∧ HeaderAwaited k fd [] p' := by
  induction hchunks with
  | nil =>
    intro p log _ h _
    refine ⟨p, ?_, h⟩
    rw [List.map_nil, List.append_nil]
    rfl
  | @cons r own requests chunks hown _ ih =>
    intro p log hr h hok
    have hr₁ := hr r (List.mem_cons_self ..)
    have hle := hown.whole.length_le
    have hwithin : Within k fd r log [] (p, log) := .header (Nat.lt_of_lt_of_le (by decide) hr₁.header_length) h
    rw [List.flatten_cons] at hok ⊢
    obtain ⟨s₁, hs₁, h₁⟩ := receive_request fuel hh hr₁ hown.whole hown.short own [] _ hwithin
      (List.nil_append _) (fun _ => hown.last) hok.left
    cases h₁ with
    | header hlt =>
      rw [RawRequest.bytes, List.length_append] at hle
      omega
    | body _ hlt => omega
    | @served p₁ _ h₁ =>
      obtain ⟨p', hp', h'⟩ := ih p₁ (log ++ [r.parsed]) (fun r' h => hr r' (List.mem_cons_of_mem _ h)) h₁
        (hok.right hs₁)
      rw [List.append_assoc] at hp'
      exact ⟨p', (Run.foldlM_append_ok hs₁ _).trans hp', h'⟩

/-- **A connection is accepted**, and a header is waited for. -/
theorem accept_run (handler : Handler) (fuel : Nat) {server fd : Int} (hfd : fd ≠ server) :
    ∃ p, accept handler (fuel + 2) server fd = .ok (p, []) ∧ Expecting 0 fd p := by
  obtain ⟨d₀, d₁, hinitial, hd₀, hd₁, hused, hused₁⟩ := initial_eq server
  let m : Machine := booted server d₀ d₁
  let m₁ : Machine := { m with kernel := { m.kernel with
    conn := Function.update m.kernel.conn fd (some m.kernel.nextConn), nextConn := m.kernel.nextConn + 1 } }
  have hevent : m.service.callbackOf ⟨server, epollIn⟩ = some (.acceptTcp server .accepted) :=
    callbackOf_readable ((congrFun (Service.pollIn_fds ..) server).trans (Function.update_self ..))
  have haccept : onAcceptable ⟨.data [], [], some fd⟩ server .accepted m = .ok (some (.invoke .accepted fd)) m₁ := by
    have hserver : m.kernel.conn server = some 0 := by simp [m, booted]
    have hfree : m.kernel.conn fd = none := by simp [m, booted, hfd]
    have hrun : _acceptTcp ⟨.data [], [], some fd⟩ server m = .ok (some fd) m₁ := by
      simp only [_acceptTcp, hserver, hfree, Option.isSome_none]
      rfl
    exact (bind_ok hrun).trans rfl
  let c : Client := ⟨fd, 2, none, ⟨none, none, []⟩, false, none, false⟩
  let m₂ : Machine := { m₁ with
    service    := m₁.service.error fd (.clientError 0)
    heap       := Function.update m₁.heap 2 ⟨some (Buffer.new 512), false, false⟩
    nextBuffer := 3
    clients    := Function.update m₁.clients 0 (some c)
    nextClient := 1 }
  have hnew : Client.new fd m₁ = .ok 0 m₂ := by
    rw [Client.new_run]
    rfl
  have hconn : m₂.Connected 0 c := by
    refine ⟨?_, ?_, ?_, ?_, d₀, ?_, hd₀, by omega⟩
    · simp [m₂]
    · simp [m₂, m₁, c]
    · simp [m₂, c]
    · simp [c, headerDelim]
    · simp [m₂, m₁, m, booted, headerDelim]
  have hposted : m₂.Posted 0 c := by
    refine ⟨hconn, by simp [c, boundaryDelim], d₁, ?_, hd₁, by omega⟩
    simp [m₂, m₁, m, booted, boundaryDelim]
  have hfresh : m₂.Fresh c := by
    refine ⟨(fun _ h => by cases h), ?_⟩
    show 3 ∉ [headerDelim, boundaryDelim, 2]
    decide
  have hst : m₂.Stores 2 [] 0 := ⟨Buffer.new 512, by simp [m₂], Buffer.new_spec (by decide) (by decide), Nat.le_refl 0⟩
  obtain ⟨m₃, last, hrun, -, hawait, hnear, hst₃⟩ := Client.recvHeader_run hconn hst
  refine ⟨⟨m₃, none, false, false⟩, ?_, rfl, rfl, c, last, hposted.near hnear, hfresh.near hnear, hst₃, rfl, hawait⟩
  have hstep : (initial server).step (.event ⟨server, epollIn⟩ ⟨.data [], [], some fd⟩) =
      .ok ⟨m₁, some (.invoke .accepted fd), false, false⟩ := by
    rw [hinitial, step_event rfl rfl hevent, runCallback, haccept, ended]
  have hgo : Process.step ⟨m₁, some (.invoke .accepted fd), false, false⟩ (.go .silent) =
    .ok ⟨m₃, none, false, false⟩ := by
    have hstart : (do Client.start (← Client.new fd) : M (Option Task)) m₁ = .ok none m₃ := (bind_ok hnew).trans hrun
    rw [step_go rfl rfl, runTask, runCont, hstart, ended]
  rw [accept, hstep]
  exact (settle_go (t := .invoke .accepted fd) rfl (invoke_ne_handler _ _) hgo).trans (settle_none rfl)

/-- **The callback of the `Client` is called once for each request, in order**, with what `parseHeader` makes of it,
however the requests are cut into chunks, if each starts with a chunk.  What its last chunk has behind its
end is lost. -/
theorem requests_in_order {server fd : Int} {fuel : Nat} (hfd : fd ≠ server) (hfuel : 5 ≤ fuel) (hh : handler.Completes)
    {requests : List RawRequest} (hr : ∀ r ∈ requests, r.WellFormed) {chunks : List (List (List UInt8))}
    (hchunks : List.Forall₂ RawRequest.Chunked requests chunks) :
    ∃ p₀, accept handler fuel server fd = .ok (p₀, []) ∧
      (Run.Along (receive handler fuel fd) (Receivable 0) (p₀, []) chunks.flatten →
        ∃ p, chunks.flatten.foldlM (receive handler fuel fd) (p₀, []) = .ok (p, requests.map RawRequest.parsed)) := by
  obtain ⟨fuel, rfl⟩ := Nat.exists_eq_add_of_le' hfuel
  obtain ⟨p₀, haccept, h₀⟩ := accept_run handler (fuel + 3) hfd
  refine ⟨p₀, haccept, fun hok => ?_⟩
  obtain ⟨p, hp, -⟩ := receive_requests hh hchunks p₀ [] hr h₀.headerAwaited hok
  exact ⟨p, hp⟩

end

/-- Two requests; the second has a body of one byte. -/
def getRequest : RawRequest :=
  ⟨@V8.utf8 ascii (js "GET / HTTP/1.1\r\nConnection: keep-alive\r\n\r\n"), []⟩

def postRequest : RawRequest :=
  ⟨@V8.utf8 ascii (js "POST / HTTP/1.1\r\nConnection: keep-alive\r\nContent-Length: 1\r\nContent-Type: a\r\n\r\n"),
    @V8.utf8 ascii (js "b")⟩

/-- Every request is answered with an `x`. -/
def answering : Handler := ⟨fun _ _ => js "x", fun _ _ => [.accept 0]⟩

theorem getRequest_wellFormed : @RawRequest.WellFormed ascii getRequest := by
  have hnot : ∀ j < getRequest.header.length - crlf2.length, ¬ crlf2 <+: getRequest.header.drop j := by decide +kernel
  have hlength : (@RawRequest.parsed ascii getRequest).header.get (js "Content-Length") = none := by decide +kernel
  refine @RawRequest.WellFormed.mk ascii _ ⟨?_, fun j hj => Nat.le_of_not_lt fun hlt => hnot j hlt hj⟩ ?_ ?_
  · decide +kernel
  · decide +kernel
  · rw [hlength]
    rfl

theorem postRequest_wellFormed : @RawRequest.WellFormed ascii postRequest := by
  have hnot : ∀ j < postRequest.header.length - crlf2.length, ¬ crlf2 <+: postRequest.header.drop j := by decide +kernel
  have hlength : (@RawRequest.parsed ascii postRequest).header.get (js "Content-Length") = some (js "1") := by
    decide +kernel
  have htype : (@RawRequest.parsed ascii postRequest).header.get (js "Content-Type") = some (js "a") := by
    decide +kernel
  refine @RawRequest.WellFormed.mk ascii _ ⟨?_, fun j hj => Nat.le_of_not_lt fun hlt => hnot j hlt hj⟩ ?_ ?_
  · decide +kernel
  · decide +kernel
  · rw [hlength]
    exact ⟨by decide +kernel, js "a", htype, by decide +kernel⟩

theorem answering_completes : @Handler.Completes ascii answering := by
  have h : (@V8.utf8 ascii (js "x")).length < 2 ^ 31 ∧
      ((Outbox.new (@V8.utf8 ascii (js "x"))).offer (replies true [.accept 0])).rest = [] := by decide +kernel
  exact fun _ _ => h

/-- The first request in two chunks, the second in three. -/
def inParts : List (List (List UInt8)) :=
  [[getRequest.header.take 10, getRequest.header.drop 10],
    [postRequest.header.take 3, postRequest.header.drop 3, postRequest.body]]

theorem requests_in_order_two : ∃ p₀ p, @accept ascii answering 5 3 5 = .ok (p₀, []) ∧
    inParts.flatten.foldlM (@receive ascii answering 5 5) (p₀, []) =
      .ok (p, [getRequest, postRequest].map (@RawRequest.parsed ascii)) := by
  have hr : ∀ r ∈ [getRequest, postRequest], @RawRequest.WellFormed ascii r := by
    intro r hr
    simp only [List.mem_cons, List.not_mem_nil, or_false] at hr
    rcases hr with rfl | rfl
    · exact getRequest_wellFormed
    · exact postRequest_wellFormed
  have hchunks : List.Forall₂ RawRequest.Chunked [getRequest, postRequest] inParts :=
    .cons ⟨by decide +kernel, by decide +kernel, by decide +kernel⟩
      (.cons ⟨by decide +kernel, by decide +kernel, by decide +kernel⟩ .nil)
  obtain ⟨p₀, haccept, h⟩ :=
    @requests_in_order ascii answering 3 5 5 (by decide) (by decide) answering_completes _ hr _ hchunks
  obtain ⟨s, hs, hok⟩ := Run.exists_of_any (x := @accept ascii answering 5 3 5)
    (p := fun s : Process × List Request =>
    decide (Run.Along (@receive ascii answering 5 5) (Receivable 0) s inParts.flatten)) (by decide +kernel)
  obtain rfl := Except.ok.inj (hs.symm.trans haccept)
  obtain ⟨p, hp⟩ := h (of_decide_eq_true hok)
  exact ⟨p₀, p, haccept, hp⟩

/-- **A request that starts in the chunk another ends in is lost.**  When the two requests come in one chunk the
callback is called with the first, and with both when they come in two. -/
theorem request_dropped :
    (∀ r ∈ [getRequest, postRequest], @RawRequest.WellFormed ascii r) ∧ @Handler.Completes ascii answering ∧
    ∃ p₀ p p', @accept ascii answering 5 3 5 = .ok (p₀, []) ∧
      Run.Along (@receive ascii answering 5 5) (Receivable 0) (p₀, []) [getRequest.bytes ++ postRequest.bytes] ∧
      [getRequest.bytes ++ postRequest.bytes].foldlM (@receive ascii answering 5 5) (p₀, []) =
        .ok (p, [@RawRequest.parsed ascii getRequest]) ∧
      [getRequest.bytes, postRequest.bytes].foldlM (@receive ascii answering 5 5) (p₀, []) =
        .ok (p', [@RawRequest.parsed ascii getRequest, @RawRequest.parsed ascii postRequest]) := by
  obtain ⟨⟨p₀, log⟩, haccept, h⟩ := Run.exists_of_any (x := @accept ascii answering 5 3 5)
    (p := fun s : Process × List Request =>
    decide (s.2 = []) &&
    decide (Run.Along (@receive ascii answering 5 5) (Receivable 0) s [getRequest.bytes ++ postRequest.bytes]) &&
    ([getRequest.bytes ++ postRequest.bytes].foldlM (@receive ascii answering 5 5) s).toOption.any
    (fun s : Process × List Request =>
      decide (s.2 = [@RawRequest.parsed ascii getRequest])) &&
    ([getRequest.bytes, postRequest.bytes].foldlM (@receive ascii answering 5 5) s).toOption.any
    (fun s : Process × List Request =>
      decide (s.2 = [@RawRequest.parsed ascii getRequest, @RawRequest.parsed ascii postRequest]))) (by decide +kernel)
  simp only [Bool.and_eq_true, decide_eq_true_eq] at h
  obtain ⟨⟨⟨rfl, hok⟩, hone⟩, htwo⟩ := h
  obtain ⟨⟨p, _⟩, hp, hone⟩ := Run.exists_of_any hone
  obtain ⟨⟨p', _⟩, hp', htwo⟩ := Run.exists_of_any htwo
  obtain rfl := of_decide_eq_true hone
  obtain rfl := of_decide_eq_true htwo
  refine ⟨?_, answering_completes, p₀, p, p', haccept, hok, hp, hp'⟩
  simp [getRequest_wellFormed, postRequest_wellFormed]

end Process
end V8h
