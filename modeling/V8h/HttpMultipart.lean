import V8h.HttpBody
import V8h.HttpParts
import V8h.SocketHangup
/-!
# HttpMultipart — where a multipart body ends

Whatever chunks a multipart request comes in, a `Client` is in the stage of what has been received so far (`Reads`), and
`process` runs with the last byte that the stages take (`ends_right_iff_lt`).
-/
namespace V8h

open Machine Effect Socket

namespace ReadStage

/-- `T` is the boundary, which is in the buffer `delim`. -/
def want (delim : Nat) (T : List UInt8) : ReadStage → Want
  | .header     => .token headerDelim crlf2
  | .boundary   => .token delim T
  | .mark       => .size 2
  | .partHeader => .token headerDelim crlf2
  | .last       => .token boundaryDelim crlf

def callback (k : Nat) : ReadStage → Cont
  | .header     => .header k
  | .boundary   => .part k
  | .mark       => .partEnd k
  | .partHeader => .partHeader k
  | .last       => .lastPart k

variable {T q r : List UInt8} {stage : ReadStage} {next : Option ReadStage} {delim k : Nat}

theorem isSome_after (n q : List UInt8) : (Seek.after n q).isSome = true ↔ n <:+: q := by
  unfold Seek.after
  split <;> simp_all

/-- **A stage ends when its read does.** -/
theorem read_isSome_iff (delim : Nat) (T q : List UInt8) (stage : ReadStage) :
    (stage.read T q).isSome = true ↔ (stage.want delim T).Met q := by
  cases stage with
  | header => rw [read, Option.isSome_map, isSome_after]; rfl
  | boundary => rw [read, Option.isSome_map, isSome_after]; rfl
  | mark =>
    unfold read
    split <;> simp_all [want, Want.Met]
  | partHeader => rw [read, Option.isSome_map, isSome_after]; rfl
  | last => rw [read, Option.isSome_map, isSome_after]; rfl

end ReadStage

namespace Machine

/-- The client's boundary is `T`. -/
structure Bound (delim : Nat) (T : List UInt8) (c : Client) (m : Machine) : Prop where
  boundary : c.boundary = some delim
  ne       : delim ≠ c.buffer
  bytes    : m.Stores delim T (2 ^ 61)

variable {m m' : Machine} {delim : Nat} {c : Client} {T : List UInt8}

theorem Bound.near (h : m.Bound delim T c) (hn : Near c.buffer m m') : m'.Bound delim T c :=
  ⟨h.boundary, h.ne, h.bytes.congr (by rw [hn.heap delim h.ne])⟩

end Machine

namespace ReadStage

variable {T : List UInt8} {stage : ReadStage} {delim k : Nat} {c : Client} {m m' : Machine}

/-- What a stage goes by: from the header on there is a boundary. -/
def Equipped (delim : Nat) (T : List UInt8) (c : Client) (m : Machine) (stage : ReadStage) : Prop :=
  if stage = .header then m.Fresh c else m.Bound delim T c

theorem Equipped.near (h : stage.Equipped delim T c m) (hn : Near c.buffer m m') : stage.Equipped delim T c m' := by
  unfold Equipped at h ⊢
  split
  · rename_i hs
    rw [if_pos hs] at h
    exact h.near hn
  · rename_i hs
    rw [if_neg hs] at h
    exact h.near hn

theorem ready (h : m.Posted k c) (he : stage.Equipped delim T c m) (hT : T ≠ []) (hlen : T.length < 2 ^ 31) :
    (stage.want delim T).Ready m := by
  cases stage with
  | header => exact ⟨h.delim, by decide, by decide⟩
  | boundary => exact ⟨Bound.bytes he, hT, hlen⟩
  | mark => trivial
  | partHeader => exact ⟨h.delim, by decide, by decide⟩
  | last => exact ⟨h.line, by decide, by decide⟩

end ReadStage

namespace Client

variable [V8] {m : Machine} {k delim n : Nat} {c : Client} {T q r : List UInt8}

omit [V8] in
/-- **`recvMultiPart` waits for the boundary.** -/
theorem recvMultiPart_run (hc : m.clients k = some c) (hb : m.Bound delim T c) :
    recvMultiPart k m = (ReadStage.boundary.want delim T).read c.fd c.buffer (.part k) m := by
  rw [recvMultiPart, bind_ok (client_run hc), hb.boundary]
  rfl

/-- **The header is read**, and a boundary is waited for. -/
theorem onHeader_multipart (laws : V8.Lawful) {r : Upload} (h : m.Posted k c) (hf : m.Fresh c)
    (hs : m.Stores c.buffer (r.header ++ q) n) (hlen : (r.header ++ q).length < 2 ^ 31) : ∃ m' c' delim,
      onHeader k r.header.length m =
        (ReadStage.boundary.want delim (delimiter (kept r.boundary))).read c.fd c.buffer (.part k) m' ∧
      c'.fd = c.fd ∧ c'.buffer = c.buffer ∧ m'.Posted k c' ∧
      m'.Bound delim (delimiter (kept r.boundary)) c' ∧ m'.Stores c.buffer q n := by
  obtain ⟨contentType, htype, hmulti, hboundary⟩ := r.get_contentType
  obtain ⟨contentLength, hlength⟩ := r.get_contentLength
  obtain ⟨b, -, hst, hstart⟩ := onHeader_recvBody h.toConnected hs hlen hlength
  let c₁ : Client := { c.parsed r.header with contentLength := contentLength.parseInt }
  let m₁ : Machine := { m.setBuffer c.buffer b with clients := Function.update m.clients k (some c₁) }
  have hfresh : (m.setBuffer c.buffer b).Fresh c := hf.near (near_setBuffer ..)
  -- the buffer for the boundary
  obtain ⟨m₂, hpop, hempty, hkernel, -, -, hclients, hheap⟩ := BufferPool.pop_spec (m := m₁) hfresh.pooled
  generalize hdelim : m₁.pool.buffers.head?.getD m₁.nextBuffer = delim at hpop hempty hheap
  have hfree : delim ∉ [headerDelim, boundaryDelim, c.buffer] := hdelim ▸ hfresh.free
  let c₂ : Client := { c₁ with boundary := some delim }
  let m₃ : Machine := { m₂ with clients := Function.update m₂.clients k (some c₂) }
  have hc₁ : m₂.clients k = some c₁ := by
    rw [hclients]
    exact Function.update_self ..
  have hempty₃ : m₃.Stores delim [] 0 := hempty
  have hshort : (V8.utf8 (js "--" ++ kept r.boundary)).length < 2 ^ 31 := r.short_kept laws
  obtain ⟨b', hwrite, hdelim'⟩ := Script.writeUtf8_run (js "--" ++ kept r.boundary) hempty₃ (by omega)
  rw [List.nil_append, Nat.zero_add] at hdelim'
  have hc₂ : (m₃.setBuffer delim b').clients k = some c₂ := Function.update_self ..
  have hothers : ∀ id ∈ [headerDelim, boundaryDelim, c.buffer], (m₃.setBuffer delim b').heap id =
      (m.setBuffer c.buffer b).heap id := by
    intro id hid
    have hne : id ≠ delim := fun h => hfree (h ▸ hid)
    rw [setBuffer_heap_of_ne m₃ delim b' hne]
    exact hheap id hne
  have hown : c.buffer ≠ delim := fun h => hfree (h ▸ by simp)
  have hposted : (m₃.setBuffer delim b').Posted k c₂ :=
    (h.near (near_setBuffer m c.buffer b)).congr rfl rfl hc₂ hkernel hothers
  have hbound : (m₃.setBuffer delim b').Bound delim (delimiter (kept r.boundary)) c₂ :=
    ⟨rfl, hown.symm, hdelim'.mono (by omega)⟩
  refine ⟨m₃.setBuffer delim b', c₂, delim, ?_, rfl, rfl, hposted, hbound,
    hst.congr (by rw [hothers c.buffer (by simp)])⟩
  have hc : m₁.clients k = some c₁ := Function.update_self ..
  have htype₁ : c₁.req.header.get (js "Content-Type") = some contentType := htype
  have hbody : recvBody k m₁ = (do
      let boundary ← BufferPool.pop
      modifyClient k fun c => { c with boundary := some boundary }
      Script.writeUtf8 boundary (js "--" ++ kept r.boundary)
      recvMultiPart k : M (Option Task)) m₁ := by
    rw [recvBody, bind_ok (client_run hc)]
    simp only [htype₁, hmulti, hboundary, if_true]
  refine (hstart.trans hbody).trans ?_
  exact (bind_ok hpop).trans ((bind_ok (modifyClient_run _ hc₁)).trans ((bind_ok hwrite).trans
    (recvMultiPart_run (c := c₂) hc₂ hbound)))

omit [V8] in
theorem onPart_run (delim : Nat) (T : List UInt8) {a : Nat} (hc : m.clients k = some c) (hs : m.Stores c.buffer q n)
    (ha : a < 2 ^ 32) : ∃ b,
    onPart k a m = (ReadStage.mark.want delim T).read c.fd c.buffer (.partEnd k) (m.setBuffer c.buffer b) ∧
      (m.setBuffer c.buffer b).Stores c.buffer (q.drop a) n := by
  obtain ⟨b, hconsume, hst⟩ := Script.consume_run hs ha
  exact ⟨b, (bind_ok (client_run hc)).trans (bind_ok hconsume), hst⟩

theorem onPartEnd_run (delim : Nat) (T : List UInt8) (laws : V8.Lawful) (hc : m.clients k = some c)
    (hs : m.Stores c.buffer q n) (hle : 2 ≤ q.length) (hlen : q.length < 2 ^ 31) :
    ∃ b stage, stage = (if q.take 2 = crlf then ReadStage.partHeader else .last) ∧
      onPartEnd k m = (stage.want delim T).read c.fd c.buffer (stage.callback k) (m.setBuffer c.buffer b) ∧
      (m.setBuffer c.buffer b).Stores c.buffer (q.drop 2) n := by
  obtain ⟨b, hread, hst⟩ := Script.readUtf8_run hs hle hlen
  refine ⟨b, _, rfl, (bind_ok (client_run hc)).trans ((bind_ok hread).trans ?_), hst⟩
  by_cases hcrlf : q.take 2 = crlf
  · rw [if_pos ((laws.crlf _).2 hcrlf), if_pos hcrlf]
    rfl
  · rw [if_neg (mt (laws.crlf _).1 hcrlf), if_neg hcrlf]
    rfl

theorem onPartHeader_run {a : Nat} (hc : m.clients k = some c) (hb : m.Bound delim T c) (hs : m.Stores c.buffer q n)
    (ha : a ≤ q.length) (hlen : q.length < 2 ^ 31) : ∃ b,
      onPartHeader k a m = (ReadStage.boundary.want delim T).read c.fd c.buffer (.part k) (m.setBuffer c.buffer b) ∧
      (m.setBuffer c.buffer b).Stores c.buffer (q.drop a) n := by
  obtain ⟨b, hread, hst⟩ := Script.readUtf8_run hs ha hlen
  have hb' : (m.setBuffer c.buffer b).Bound delim T c := hb.near (near_setBuffer ..)
  exact ⟨b, (bind_ok (client_run hc)).trans ((bind_ok hread).trans (recvMultiPart_run hc hb')), hst⟩

/-- **What a stage has read is taken**, and the next stage's read is called. -/
theorem runTask_stage (laws : V8.Lawful) {stage next : ReadStage} (hs₀ : stage ≠ .header) (hc : m.clients k = some c)
    (hb : m.Bound delim T c) (hs : m.Stores c.buffer q n) (hlen : q.length < 2 ^ 31)
    (h : stage.read T q = some (some next, r)) : ∃ t b, (stage.want delim T).told (stage.callback k) q = some t ∧
      (∀ k' req, t ≠ .handler k' req) ∧
      runTask .silent t m = (next.want delim T).read c.fd c.buffer (next.callback k) (m.setBuffer c.buffer b) ∧
      (m.setBuffer c.buffer b).Stores c.buffer r n := by
  cases stage with
  | header => exact absurd rfl hs₀
  | boundary =>
    obtain ⟨r', hr, heq⟩ := Option.map_eq_some_iff.1 h
    cases heq
    obtain ⟨a, htold, ha, rfl⟩ := reported_of_after hr (.part k)
    obtain ⟨b, hrun, hst⟩ := onPart_run delim T hc hs (show a < 2 ^ 32 by omega)
    exact ⟨_, b, htold, Process.invoke_ne_handler _ _, hrun, hst⟩
  | mark =>
    simp only [ReadStage.read] at h
    split at h
    · rename_i hle
      obtain ⟨b, stage, hstage, hrun, hst⟩ := onPartEnd_run delim T laws hc hs hle hlen
      cases h
      exact ⟨_, b, if_pos hle, Process.invoke_ne_handler _ _, hstage ▸ hrun, hst⟩
    · cases h
  | partHeader =>
    obtain ⟨r', hr, heq⟩ := Option.map_eq_some_iff.1 h
    cases heq
    obtain ⟨a, htold, ha, rfl⟩ := reported_of_after hr (.partHeader k)
    obtain ⟨b, hrun, hst⟩ := onPartHeader_run hc hb hs ha hlen
    exact ⟨_, b, htold, Process.invoke_ne_handler _ _, hrun, hst⟩
  | last =>
    obtain ⟨r', -, heq⟩ := Option.map_eq_some_iff.1 h
    cases heq

end Client

namespace Process

/-- The client is in a stage, with `q` in its buffer. -/
structure Reads (k : Nat) (c : Client) (delim last n : Nat) (T : List UInt8) (stage : ReadStage) (q : List UInt8)
    (p : Process) : Prop where
  left     : p.left = false
  task     : p.task = (stage.want delim T).told (stage.callback k) q
  posted   : p.machine.Posted k c
  equipped : stage.Equipped delim T c p.machine
  bytes    : p.machine.Stores c.buffer q n
  waits    : ¬ (stage.want delim T).Met q →
    (stage.want delim T).Waits c.fd c.buffer last (stage.callback k) p.machine q

variable [V8] {k delim last n fuel : Nat} {c : Client} {T q r : List UInt8} {stage next : ReadStage} {m : Machine}
  {p p' : Process} {t : Task}

/-- **The stage's read is called.** -/
theorem reads_of_step (stage : ReadStage) (hT : T ≠ []) (hTlen : T.length < 2 ^ 31) (ht : p.task = some t)
    (hl : p.left = false)
    (hrun : runTask .silent t p.machine = (stage.want delim T).read c.fd c.buffer (stage.callback k) m)
    (h : m.Posted k c) (he : stage.Equipped delim T c m) (hs : m.Stores c.buffer q n) (hn : n ≤ 2 ^ 61)
    (hlen : q.length < 2 ^ 31) : ∃ p' last, p.step (.go .silent) = .ok p' ∧ Reads k c delim last n T stage q p' := by
  obtain ⟨m', hread, hnear, hs', hwaits⟩ :=
    Want.read_run c.fd (stage.callback k) (ReadStage.ready h he hT hTlen) hs hn hlen
  refine ⟨⟨m', (stage.want delim T).told (stage.callback k) q, p.byUser, false⟩, m.nextVar, ?_,
    rfl, rfl, h.near hnear, he.near hnear, hs', hwaits⟩
  rw [step_go ht hl, hrun, hread, ended]

/-- `recv` gives the chunk whole while a call is waited for, and fewer than `2 ^ 31` bytes are in the buffer then. -/
def Arrives (k : Nat) (p : Process) (chunk : List UInt8) : Prop :=
  p.task = none → Receivable k (p, []) chunk ∧
    ∀ c ∈ p.machine.clients k, ∀ b ∈ (p.machine.heap c.buffer).native, b.size + chunk.length < 2 ^ 31

instance (k : Nat) (p : Process) (chunk : List UInt8) : Decidable (Arrives k p chunk) :=
  inferInstanceAs (Decidable (_ → _ ∧ ∀ c ∈ _, ∀ b ∈ _, _ < _))

/-- **A chunk arrives in a stage.** -/
theorem Reads.event {chunk : List UInt8} (h : Reads k c delim last n T stage q p) (hT : T ≠ [])
    (hTlen : T.length < 2 ^ 31) (ht : p.task = none) (hn : n ≤ 2 ^ 61) (hok : Arrives k p chunk) :
    (q ++ chunk).length < 2 ^ 31 ∧ ∃ p', p.step (.event ⟨c.fd, epollIn⟩ ⟨.data chunk, [], none⟩) = .ok p' ∧
      Reads k c delim last (n + chunk.length) T stage (q ++ chunk) p' := by
  have hnot : ¬ (stage.want delim T).Met q := by
    intro hmet
    obtain ⟨a, ha⟩ := Want.told_of_met (stage.callback k) hmet
    exact nomatch (h.task.symm.trans ht).symm.trans ha
  obtain ⟨⟨hne, c₀, hc₀, b, hb, b₁, hprep, hroom⟩, hsize⟩ := hok ht
  obtain rfl := Option.some.inj (hc₀.symm.trans h.posted.client)
  have hprep : b.prepare 64 8192 = .ok b₁ := by
    cases h : b.prepare 64 8192 <;> simp_all [Except.toOption]
  obtain ⟨b', hb', hholds, -⟩ := h.bytes
  obtain rfl := Option.some.inj (hb.symm.trans hb')
  have hlen : (q ++ chunk).length < 2 ^ 31 := by
    rw [List.length_append, ← hholds.size_eq]
    exact hsize c₀ hc₀ b hb
  obtain ⟨f, m', hf, hrun, hnear, hs', hwaits⟩ := Want.arrives ⟨.data chunk, [], none⟩
    (ReadStage.ready h.posted h.equipped hT hTlen) (h.waits hnot) h.bytes (by omega)
    ⟨h.posted.isOpen, rfl, hne, b, b₁, hb, hprep, hroom⟩ hlen
  refine ⟨hlen, ⟨m', (stage.want delim T).told (stage.callback k) (q ++ chunk), false, false⟩, ?_,
    rfl, rfl, h.posted.near hnear, h.equipped.near hnear, hs', fun _ => hwaits⟩
  rw [step_event ht h.left (callbackOf_readable hf), hrun, ended]

omit [V8] in
theorem Reads.task_none (h : Reads k c delim last n T stage q p) (hread : stage.read T q = none) : p.task = none := by
  rw [h.task, Want.told_of_not_met]
  rw [← ReadStage.read_isSome_iff, hread]
  exact Bool.false_ne_true

/-- **The header is there**: the boundary is chosen. -/
theorem Reads.go_header (laws : V8.Lawful) {r : Upload} (hT : T = delimiter (kept r.boundary))
    (h : Reads k c delim last n T .header (r.header ++ q) p) (hn : n ≤ 2 ^ 61)
    (hlen : (r.header ++ q).length < 2 ^ 31) : ∃ p' c' delim' last',
      (∃ t, p.task = some t ∧ ∀ k' req, t ≠ .handler k' req) ∧ p.step (.go .silent) = .ok p' ∧ c'.fd = c.fd ∧
      Reads k c' delim' last' n T .boundary q p' := by
  subst hT
  have hafter := Seek.after_block (by decide) r.block q
  obtain ⟨a, htold, ha, hq⟩ := reported_of_after hafter (.header k)
  have ha : a = r.header.length := by
    have := congrArg List.length hq
    rw [List.length_drop] at this
    rw [List.length_append] at this ha
    omega
  subst ha
  obtain ⟨m', c', delim', hrun, hfd, hbuffer, hposted, hbound, hst⟩ :=
    Client.onHeader_multipart laws h.posted h.equipped h.bytes hlen
  rw [← hfd, ← hbuffer] at hrun
  rw [← hbuffer] at hst
  have ht := h.task.trans htold
  rw [List.length_append] at hlen
  obtain ⟨p', last', hstep, h'⟩ := reads_of_step .boundary (Upload.delimiter_ne_nil laws _)
    (r.short_kept laws)
    ht h.left hrun hposted hbound hst hn (by omega)
  exact ⟨p', c', delim', last', ⟨_, ht, nofun⟩, hstep, hfd, h'⟩

/-- **Another stage is over**, and the next one begins. -/
theorem Reads.go (laws : V8.Lawful) (hT : T ≠ []) (hTlen : T.length < 2 ^ 31) (hs : stage ≠ .header)
    (h : Reads k c delim last n T stage q p) (hn : n ≤ 2 ^ 61) (hlen : q.length < 2 ^ 31)
    (hread : stage.read T q = some (some next, r)) :
    ∃ p' last', (∃ t, p.task = some t ∧ ∀ k' req, t ≠ .handler k' req) ∧ p.step (.go .silent) = .ok p' ∧
      Reads k c delim last' n T next r p' := by
  have hbound : p.machine.Bound delim T c := by
    have := h.equipped
    rwa [ReadStage.Equipped, if_neg hs] at this
  obtain ⟨t, b, htold, hcall, hrun, hst⟩ :=
    Client.runTask_stage laws hs h.posted.client hbound h.bytes hlen hread
  have ht := h.task.trans htold
  have hnear := near_setBuffer p.machine c.buffer b
  have he : next.Equipped delim T c (p.machine.setBuffer c.buffer b) := by
    rw [ReadStage.Equipped, if_neg fun h => (ReadStage.read_spec hread).2.1 (congrArg some h)]
    exact hbound.near hnear
  obtain ⟨p', last', hstep, h'⟩ := reads_of_step next hT hTlen ht h.left hrun (h.posted.near hnear) he hst hn
    (Nat.lt_of_le_of_lt (ReadStage.read_spec hread).1.length_le hlen)
  exact ⟨p', last', ⟨t, ht, hcall⟩, hstep, h'⟩

/-- **The last stage is over**: `process` runs. -/
theorem Reads.go_last (h : Reads k c delim last n T stage q p) (hread : stage.read T q = some (none, r)) :
    ∃ p' req, (∃ t, p.task = some t ∧ ∀ k' req, t ≠ .handler k' req) ∧ p.step (.go .silent) = .ok p' ∧
      p'.task = some (.handler k req) := by
  obtain rfl := (ReadStage.read_spec hread).2.2 rfl
  obtain ⟨r', hr, -⟩ := Option.map_eq_some_iff.1 hread
  obtain ⟨a, htold, -⟩ := reported_of_after hr (.lastPart k)
  have ht := h.task.trans htold
  obtain ⟨m', hrun, -⟩ := Client.process_run h.posted.toConnected h.bytes
  refine ⟨⟨m', some (.handler k c.req), p.byUser, false⟩, c.req, ⟨_, ht, nofun⟩, ?_, rfl⟩
  rw [step_go ht h.left, runTask, runCont, hrun, ended]

/-- Where the stages have come to: to a stage, or to the end and `process` with it. -/
def Reached (k : Nat) (fd : Int) (n : Nat) (T : List UInt8) : Option ReadStage → List UInt8 → Process → Prop
  | none,       _, p => ∃ req, p.task = some (.handler k req)
  | some stage, q, p => ∃ c delim last, c.fd = fd ∧ Reads k c delim last n T stage q p

/-- **A stage is over.** -/
theorem Reached.go (laws : V8.Lawful) {r : Upload} {fd : Int} {q' : List UInt8} {s' : Option ReadStage}
    (hn : n ≤ 2 ^ 61) (hlen : q.length < 2 ^ 31) (hread : stage.read (delimiter (kept r.boundary)) q = some (s', q'))
    (hheader : stage = .header → ∀ rest, Seek.after crlf2 q = some rest → q = r.header ++ rest)
    (h : Reached k fd n (delimiter (kept r.boundary)) (some stage) q p) : ∃ p' t, p.task = some t ∧
      (∀ k' req, t ≠ .handler k' req) ∧ p.step (.go .silent) = .ok p' ∧
      Reached k fd n (delimiter (kept r.boundary)) s' q' p' := by
  obtain ⟨c, delim, last, rfl, hreads⟩ := h
  cases s' with
  | none =>
    obtain ⟨p', req, ⟨t, ht, hcall⟩, hstep, h'⟩ := hreads.go_last hread
    exact ⟨p', t, ht, hcall, hstep, req, h'⟩
  | some next =>
    by_cases hs : stage = .header
    · subst hs
      obtain ⟨q'', hafter, heq⟩ := Option.map_eq_some_iff.1 hread
      cases heq
      rw [hheader rfl _ hafter] at hlen hreads
      obtain ⟨p', c', delim', last', ⟨t, ht, hcall⟩, hstep, hfd, h'⟩ := hreads.go_header laws rfl hn hlen
      exact ⟨p', t, ht, hcall, hstep, c', delim', last', hfd, h'⟩
    · obtain ⟨p', last', ⟨t, ht, hcall⟩, hstep, h'⟩ :=
        hreads.go laws (Upload.delimiter_ne_nil laws _) (r.short_kept laws) hs hn hlen hread
      exact ⟨p', t, ht, hcall, hstep, c, delim, last', rfl, h'⟩

/-- **The calls left are made**: they are the stages that are over. -/
theorem drain_reached (laws : V8.Lawful) {r : Upload} {fd : Int} {hT : delimiter (kept r.boundary) ≠ []}
    (hn : n ≤ 2 ^ 61) {j : Nat} {s f : Option ReadStage} {q t : List UInt8} (hp : (multipart _ hT).Path j s q f t)
    (hf : (multipart _ hT).advance f t = none) (hlen : q.length < 2 ^ 31)
    (hheader : s = some .header → ∀ rest, Seek.after crlf2 q = some rest → q = r.header ++ rest) :
    ∀ (fuel : Nat) (p : Process), j + 1 ≤ fuel → Reached k fd n (delimiter (kept r.boundary)) s q p →
      ∃ p', drain fuel p = .ok p' ∧ Reached k fd n (delimiter (kept r.boundary)) f t p' := by
  induction hp with
  | refl s q =>
    intro fuel p hfuel h
    obtain ⟨fuel, rfl⟩ := Nat.exists_eq_add_of_le' hfuel
    refine ⟨p, ?_, h⟩
    cases s with
    | none =>
      obtain ⟨req, ht⟩ := h
      exact drain_handler ht
    | some stage =>
      obtain ⟨c, delim, last, -, hreads⟩ := h
      exact drain_none (hreads.task_none hf)
  | @step j s s' f q q' t hadvance hp ih =>
    intro fuel p hfuel h
    obtain ⟨fuel, rfl⟩ := Nat.exists_eq_add_of_le' hfuel
    cases s with
    | none => cases hadvance
    | some stage =>
      obtain ⟨hsuffix, hne, -⟩ := ReadStage.read_spec hadvance
      obtain ⟨p', t, ht, hcall, hstep, h'⟩ := h.go laws hn hlen hadvance fun hs => hheader (congrArg some hs)
      obtain ⟨p₁, hp₁, h₁⟩ := ih hf (Nat.lt_of_le_of_lt hsuffix.length_le hlen) (fun hs => absurd hs hne)
        (fuel + (j + 1)) p' (Nat.le_add_left _ _) h'
      exact ⟨p₁, (drain_go ht hcall hstep).trans hp₁, h₁⟩

/-- **A chunk is received** in a stage. -/
theorem feed_reached (laws : V8.Lawful) {r : Upload} {fd : Int} {hT : delimiter (kept r.boundary) ≠ []}
    {chunk q' : List UInt8} {j : Nat} {f : Option ReadStage} (hn : n + chunk.length ≤ 2 ^ 61)
    (hp : (multipart _ hT).Path j (some stage) (q ++ chunk) f q') (hf : (multipart _ hT).advance f q' = none)
    (hheader : stage = .header → ∀ rest, Seek.after crlf2 (q ++ chunk) = some rest → q ++ chunk = r.header ++ rest)
    (hfuel : j + 1 ≤ fuel) (h : Reached k fd n (delimiter (kept r.boundary)) (some stage) q p) (ht : p.task = none)
    (hok : Arrives k p chunk) : ∃ p', feed fuel fd p chunk = .ok p' ∧
      Reached k fd (n + chunk.length) (delimiter (kept r.boundary)) f q' p' := by
  obtain ⟨c, delim, last, rfl, hreads⟩ := h
  obtain ⟨hlen, p₁, hstep, h₁⟩ := hreads.event hT (r.short_kept laws) ht (by omega) hok
  obtain ⟨p', hp', h'⟩ := drain_reached laws hn hp hf hlen (fun hs => hheader (Option.some.inj hs)) fuel p₁ hfuel
    ⟨c, delim, last, rfl, h₁⟩
  refine ⟨p', ?_, h'⟩
  rw [feed, hstep]
  exact hp'

/-! ## Whole requests -/

/-- `process` runs when the last chunk is received, and not before. -/
def EndsRight (fuel : Nat) (fd : Int) (k : Nat) : Process → List (List UInt8) → Prop
  | p, []              => ∃ req, p.task = some (.handler k req)
  | p, chunk :: chunks => p.task = none ∧ ∃ p', feed fuel fd p chunk = .ok p' ∧ EndsRight fuel fd k p' chunks

/-- `w` of a request has been received, and the stages of it are over. -/
def Received (k : Nat) (fd : Int) {T : List UInt8} (hT : T ≠ []) (w : List UInt8) (p : Process) : Prop :=
  ∃ j s q, (multipart T hT).Path j (some .header) w s q ∧ (multipart T hT).advance s q = none ∧
    Reached k fd w.length T s q p

omit [V8] in
/-- A client that waits for a request is in the first stage. -/
theorem Expecting.reads {fd : Int} (h : Expecting k fd p) (T : List UInt8) :
    ∃ c last, c.fd = fd ∧ Reads k c 0 last 0 T .header [] p := by
  obtain ⟨c, last, hposted, hfresh, hst, rfl, hawait⟩ := h.waits
  have hnot : ¬ crlf2 <:+: [] := by decide
  have htold : (Want.token headerDelim crlf2).told (.header k) [] = none := Want.told_of_not_met hnot
  exact ⟨c, last, rfl, h.left, h.task.trans htold.symm, hposted, hfresh, hst, fun _ => hawait⟩

omit [V8] in
theorem Expecting.received {fd : Int} (h : Expecting k fd p) (hT : T ≠ []) : Received k fd hT [] p := by
  obtain ⟨c, last, hfd, hreads⟩ := h.reads T
  have hread : ReadStage.header.read T [] = none := rfl
  exact ⟨0, some .header, [], .refl _ _, hread, c, 0, last, hfd, hreads⟩

omit [V8] in
/-- No stage leads back to the header. -/
theorem path_to_header {hT : T ≠ []} {j : Nat} {s f : Option ReadStage} {t : List UInt8}
    (hp : (multipart T hT).Path j s q f t) (hf : f = some .header) : s = f ∧ q = t := by
  induction hp with
  | refl s q => exact ⟨rfl, rfl⟩
  | @step j s s' f q q' t hadvance hp ih =>
    obtain ⟨rfl, -⟩ := ih hf
    cases s with
    | none => cases hadvance
    | some stage => exact absurd hf (ReadStage.read_spec hadvance).2.1

/-- A part of a request has the header of the request, or no end of one. -/
theorem Upload.eq_header {r : Upload} {w rest : List UInt8} (hw : w <+: r.bytes) (h : Seek.after crlf2 w = some rest) :
    w = r.header ++ rest := by
  obtain ⟨e, he⟩ := hw
  have hgrow := Seek.after_grows (by decide) e h
  rw [he, Upload.bytes, Seek.after_block (by decide) r.block] at hgrow
  have hbody := Option.some.inj hgrow
  rw [Upload.bytes, hbody, ← List.append_assoc] at he
  exact List.append_cancel_right he

/-- **A chunk of a request is received**, and the stages are those of what has been received until then. -/
theorem Received.feed (laws : V8.Lawful) {r : Upload} {fd : Int} {hT : delimiter (kept r.boundary) ≠ []} {N : Nat}
    {P w chunk : List UInt8} (hP : (multipart _ hT).Path N (some .header) P none []) (hfuel : N + 1 ≤ fuel)
    (hpre : P <+: r.bytes) (hw : w ++ chunk <+: r.bytes) (hshort : r.bytes.length ≤ 2 ^ 61) (hnot : ¬ P <+: w)
    (h : Received k fd hT w p) (hok : Arrives k p chunk) :
    p.task = none ∧ ∃ p', Process.feed fuel fd p chunk = .ok p' ∧ Received k fd hT (w ++ chunk) p' := by
  obtain ⟨j, s, q, hp, hadvance, hreached⟩ := h
  cases s with
  | none =>
    have hor := List.prefix_or_prefix_of_prefix ((List.prefix_append w chunk).trans hw) hpre
    exact absurd ((hP.ends_iff (fun _ => rfl) hor).1 ⟨j, q, hp⟩) hnot
  | some stage =>
    have ht : p.task = none := by
      obtain ⟨c, delim, last, -, hreads⟩ := hreached
      exact hreads.task_none hadvance
    obtain ⟨e, he⟩ := hpre
    obtain ⟨i, s', q', hi, hpath, hnext⟩ := (he ▸ hP.grows e).cut rfl hw
    obtain ⟨i', rfl, hrest⟩ := hp.rest chunk hpath hnext
    have hlen := hw.length_le
    rw [List.length_append] at hlen
    have hheader : stage = .header → ∀ rest, Seek.after crlf2 (q ++ chunk) = some rest →
        q ++ chunk = r.header ++ rest := by
      intro hs rest hafter
      obtain ⟨-, rfl⟩ := path_to_header hp (congrArg some hs)
      exact Upload.eq_header hw hafter
    have hfuel' : i' + 1 ≤ fuel := by omega
    obtain ⟨p', hp', h'⟩ := feed_reached laws (hlen.trans hshort) hrest hnext hheader hfuel' hreached ht hok
    exact ⟨ht, p', hp', i' + j, s', q', hpath, hnext, by rwa [List.length_append]⟩

omit [V8] in
theorem Received.ended {hT : T ≠ []} {fd : Int} {N : Nat} {P w : List UInt8}
    (hP : (multipart T hT).Path N (some .header) P none []) (hw : P <+: w) (h : Received k fd hT w p) :
    ∃ req, p.task = some (.handler k req) := by
  obtain ⟨j, s, q, hp, hadvance, hreached⟩ := h
  obtain ⟨i, t, hpath⟩ := (hP.ends_iff (fun _ => rfl) (.inr hw)).2 hw
  obtain ⟨-, rfl, -⟩ := hp.unique hadvance hpath rfl
  exact hreached

/-- **A request ends with the last chunk exactly when the stages do.** -/
theorem ends_right_iff_lt (laws : V8.Lawful) {r : Upload} {fd : Int} {hT : delimiter (kept r.boundary) ≠ []} {N : Nat}
    {P : List UInt8} (hP : (multipart _ hT).Path N (some .header) P none []) (hfuel : N + 1 ≤ fuel)
    (hpre : P <+: r.bytes) (hshort : r.bytes.length ≤ 2 ^ 61) :
    ∀ (chunks : List (List UInt8)) (w : List UInt8) (p : Process), Received k fd hT w p →
      w ++ chunks.flatten = r.bytes → Run.Along (feed fuel fd) (Arrives k) p chunks →
      (EndsRight fuel fd k p chunks ↔ (chunks ≠ [] → (w ++ chunks.dropLast.flatten).length < P.length))
  | [], w, p, h, hw, _ => by
    rw [List.flatten_nil, List.append_nil] at hw
    exact iff_of_true (h.ended hP (hw ▸ hpre)) fun hne => absurd rfl hne
  | chunk :: chunks, w, p, h, hw, hok => by
    by_cases hover : P <+: w
    · -- `process` ran before
      refine iff_of_false (fun hends => ?_) (fun hlt => ?_)
      · obtain ⟨req, ht⟩ := h.ended hP hover
        exact nomatch hends.1.symm.trans ht
      · have hlt := hlt (List.cons_ne_nil _ _)
        have hle := hover.length_le
        rw [List.length_append] at hlt
        omega
    · rw [List.flatten_cons, ← List.append_assoc] at hw
      obtain ⟨ht, p', hp', h'⟩ := h.feed laws hP hfuel hpre ⟨chunks.flatten, hw⟩ hshort hover hok.1
      have ih := ends_right_iff_lt laws hP hfuel hpre hshort chunks (w ++ chunk) p' h' hw (hok.2 p' hp')
      have hcons : EndsRight fuel fd k p (chunk :: chunks) ↔ EndsRight fuel fd k p' chunks := by
        refine ⟨fun hends => ?_, fun hends => ⟨ht, p', hp', hends⟩⟩
        obtain ⟨-, p₁, hp₁, h₁⟩ := hends
        obtain rfl := Except.ok.inj (hp'.symm.trans hp₁)
        exact h₁
      rw [hcons, ih]
      by_cases hnil : chunks = []
      · subst hnil
        rw [List.flatten_nil, List.append_nil] at hw
        have hlt : w.length < P.length := Nat.lt_of_not_le fun hle =>
          hover (List.prefix_of_prefix_length_le hpre ⟨chunk, hw⟩ hle)
        exact iff_of_true (fun hne => absurd rfl hne) (fun _ => by simpa using hlt)
      · rw [List.dropLast_cons_of_ne_nil hnil, List.flatten_cons, ← List.append_assoc]
        exact ⟨fun hlt _ => hlt hnil, fun hlt _ => hlt (List.cons_ne_nil _ _)⟩

/-- **A multipart request ends with its last `CRLF`, and not before**, exactly when the boundary comes whole to the
script, or there are no parts, or the last chunk has the end of the first boundary line. -/
theorem ends_right_iff (laws : V8.Lawful) {r : Upload} {fd : Int} {chunks : List (List UInt8)} (h : Expecting k fd p)
    (hchunks : chunks.flatten = r.bytes) (hne : ∀ chunk ∈ chunks, chunk ≠ []) (hfuel : 3 * r.parts.length + 5 ≤ fuel)
    (hshort : r.bytes.length ≤ 2 ^ 61) (hok : Run.Along (feed fuel fd) (Arrives k) p chunks) :
    EndsRight fuel fd k p chunks ↔
      Plain r.boundary ∨ r.parts = [] ∨ chunks.dropLast.flatten.length < r.opening.length := by
  obtain ⟨N, P, hN, hP, hpre, hwhole, hopening⟩ := r.exists_path laws
  have hchunk : chunks ≠ [] := by
    rintro rfl
    have hblock : crlf2 <+: r.header.drop _ := r.block.1
    rw [(List.append_eq_nil_iff.1 hchunks.symm).1, List.drop_nil] at hblock
    exact absurd (List.prefix_nil.1 hblock) (by decide)
  have hiff := ends_right_iff_lt (k := k) laws hP (show N + 1 ≤ fuel by omega) hpre hshort chunks [] p
    (h.received _) hchunks hok
  rw [hiff, List.nil_append]
  have hlast : chunks.dropLast.flatten.length < r.bytes.length := by
    have hlen := List.length_pos_iff.2 (hne _ (List.getLast_mem hchunk))
    have hsplit := congrArg List.flatten (List.dropLast_append_getLast hchunk)
    rw [List.flatten_append, hchunks] at hsplit
    rw [← hsplit, List.length_append, List.flatten_cons, List.length_append]
    omega
  by_cases hplain : Plain r.boundary ∨ r.parts = []
  · rw [hwhole hplain]
    exact iff_of_true (fun _ => hlast) (or_assoc.1 (.inl hplain))
  · obtain ⟨hp, hparts⟩ := not_or.1 hplain
    rw [hopening hp hparts]
    exact ⟨fun hlt => .inr (.inr (hlt hchunk)), fun h _ => (h.resolve_left hp).resolve_left hparts⟩

end Process

/-- A request with the header fields of an upload. -/
def uploadHead (boundary : JsString) (hline : boundary.all isLineUnit) : RequestHead where
  method     := js "POST"
  uri        := js "/"
  fields     := [(js "Content-Length", js "9"), (js "Content-Type", contentTypeOf boundary)]
  methodWord := by decide
  uriWord    := RequestHead.root_isWord
  names      := by
    have h : ∀ name ∈ [js "Content-Length", js "Content-Type"], name.all isNameUnit := by decide
    exact fun f hf => h f.1 (List.mem_map_of_mem hf)
  distinct   := show [js "Content-Length", js "Content-Type"].Nodup by decide
  values     := by
    intro f hf
    rcases List.mem_cons.1 hf with rfl | hf
    · decide
    · rw [List.mem_singleton.1 hf, contentTypeOf, List.all_append, hline]
      decide

/-- One part, with the header line `A: b` and the content `--`. -/
def onePart (D : List UInt8) (hfree : ¬ D <:+: [45, 45]) : Part D where
  header  := @V8.utf8 unitwise (js "A: b\r\n\r\n")
  content := [45, 45]
  block   := by
    have hnot : ∀ j < 4, ¬ crlf2 <+: (@V8.utf8 unitwise (js "A: b\r\n\r\n")).drop j := by decide
    exact ⟨by decide, fun j hj => Nat.le_of_not_lt fun hlt => hnot j hlt hj⟩
  free    := hfree

/-- The boundary `a: b`. -/
def cutUpload : @Upload unitwise :=
  let head := uploadHead (js "a: b") (by decide)
  let header := @V8.utf8 unitwise head.serialize
  have hnot : ∀ j < header.length - crlf2.length, ¬ crlf2 <+: header.drop j := by decide +kernel
  @Upload.mk unitwise head (js "a: b") header [onePart _ (by decide)] (by decide) (by decide) (by decide +kernel)
    ⟨by decide +kernel, fun j hj => Nat.le_of_not_lt fun hlt => hnot j hlt hj⟩ (by decide)

/-- The boundary `ab`. -/
def wholeUpload : @Upload unitwise :=
  let head := uploadHead (js "ab") (by decide)
  let header := @V8.utf8 unitwise head.serialize
  have hnot : ∀ j < header.length - crlf2.length, ¬ crlf2 <+: header.drop j := by decide +kernel
  @Upload.mk unitwise head (js "ab") header [onePart _ (by decide)] (by decide) (by decide) (by decide +kernel)
    ⟨by decide +kernel, fun j hj => Nat.le_of_not_lt fun hlt => hnot j hlt hj⟩ (by decide)

namespace Process

/-- Two chunks, of which the first has `n` bytes. -/
def cutAt (n : Nat) (r : @Upload unitwise) : List (List UInt8) :=
  [(@Upload.bytes unitwise r).take n, (@Upload.bytes unitwise r).drop n]

theorem ends_right_two : ∃ p, @accept unitwise answering 5 3 5 = .ok (p, []) ∧
    @EndsRight unitwise 8 5 0 p (cutAt 110 wholeUpload) := by
  obtain ⟨p, haccept, h⟩ := @accept_run unitwise answering 3 3 5 (by decide)
  obtain ⟨s, hs, hok⟩ := Run.exists_of_any (x := @accept unitwise answering 5 3 5)
    (p := fun s : Process × List Request =>
      decide (Run.Along (@feed unitwise 8 5) (Arrives 0) s.1 (cutAt 110 wholeUpload))) (by decide +kernel)
  obtain rfl := Except.ok.inj (hs.symm.trans haccept)
  have hparts : (@Upload.parts unitwise wholeUpload).length = 1 := rfl
  have hiff := @ends_right_iff unitwise 0 8 p unitwise_lawful wholeUpload 5 (cutAt 110 wholeUpload) h
    (by decide +kernel) (by decide +kernel) (by rw [hparts]) (by decide +kernel) (of_decide_eq_true hok)
  have hplain : Plain (js "ab") := ⟨by decide, by simp [js]⟩
  exact ⟨p, haccept, hiff.2 (.inl hplain)⟩

/-- **`process` runs when the first boundary line has been received**: the boundary that the script has is `--a`. -/
theorem boundary_cut : (cutAt 96 cutUpload).flatten = @Upload.bytes unitwise cutUpload ∧
    ∃ p, @accept unitwise answering 5 3 5 = .ok (p, []) ∧
      Run.Along (@feed unitwise 8 5) (Arrives 0) p (cutAt 96 cutUpload) ∧
      ¬ @EndsRight unitwise 8 5 0 p (cutAt 96 cutUpload) := by
  obtain ⟨s, hs, hok⟩ := Run.exists_of_any (x := @accept unitwise answering 5 3 5)
    (p := fun s : Process × List Request =>
      decide (s.2 = [] ∧ Run.Along (@feed unitwise 8 5) (Arrives 0) s.1 (cutAt 96 cutUpload) ∧
        (@feed unitwise 8 5 s.1 ((@Upload.bytes unitwise cutUpload).take 96)).toOption.any (·.task.isSome) = true))
    (by decide +kernel)
  obtain ⟨hlog, halong, hearly⟩ := of_decide_eq_true hok
  obtain ⟨p', hp', htask⟩ := Run.exists_of_any hearly
  refine ⟨by decide +kernel, s.1, hlog ▸ hs, halong, fun hends => ?_⟩
  obtain ⟨-, p₁, hp₁, hnone, -⟩ := hends
  obtain rfl := Except.ok.inj (hp'.symm.trans hp₁)
  rw [hnone] at htask
  cases htask

end Process
end V8h
