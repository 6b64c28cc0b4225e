import V8h.BufferSearch
import V8h.Socket
/-!
# SocketSpec — what the operations of a script do to the bytes of a buffer

`m.Stores id q u` says that the buffer object `id` holds the bytes `q`, below a fill mark of `u` at most.  Each
operation has one lemma here about it, which gives the state it leaves as `m.setBuffer id b`.
-/
namespace V8h

namespace Machine

def setBuffer (m : Machine) (id : Nat) (b : Buffer) : Machine :=
  { m with heap := Function.update m.heap id { m.heap id with native := some b } }

/-- The buffer object holds these bytes, and nothing was stored in its block from `u` on. -/
def Stores (m : Machine) (id : Nat) (q : List UInt8) (u : Nat) : Prop :=
  ∃ b, (m.heap id).native = some b ∧ Buffer.Holds 64 b q ∧ b.used ≤ u

section
variable (m : Machine) (id : Nat) (b : Buffer)

@[simp] theorem setBuffer_kernel : (m.setBuffer id b).kernel = m.kernel := rfl

@[simp] theorem setBuffer_heap_self : (m.setBuffer id b).heap id = { m.heap id with native := some b } :=
  Function.update_self ..

theorem setBuffer_heap_of_ne {id' : Nat} (h : id' ≠ id) : (m.setBuffer id b).heap id' = m.heap id' :=
  Function.update_of_ne h ..

@[simp] theorem setBuffer_setBuffer (b' : Buffer) : (m.setBuffer id b).setBuffer id b' = m.setBuffer id b' := by
  simp only [setBuffer, Function.update_self, Function.update_idem]

theorem setBuffer_self {m : Machine} {id : Nat} {b : Buffer} (h : (m.heap id).native = some b) :
    m.setBuffer id b = m := by
  have hheap : Function.update m.heap id { m.heap id with native := some b } = m.heap := by
    rw [← h, Function.update_eq_self]
  rw [setBuffer, hheap]

/-- Fd 5 is open, buffer 0 holds a delimiter and the other buffers are empty. -/
def listening (delim : List UInt8) : Machine := { empty with
  heap       := fun id => ⟨some (if id = 0 then Buffer.full delim else Buffer.new 512), false, false⟩
  nextBuffer := 3
  kernel     := ⟨fun fd => if fd = 5 then some 0 else none, 1, fun _ => [], .other 0⟩ }

theorem native_run {m : Machine} {id : Nat} {b : Buffer} (h : (m.heap id).native = some b) : native id m = .ok b m := by
  rw [native, h]

theorem setNative_run : setNative id b m = .ok () (m.setBuffer id b) := rfl

end

variable {m : Machine} {id u : Nat} {q : List UInt8}

theorem stores_setBuffer {b : Buffer} (h : Buffer.Holds 64 b q) (hu : b.used ≤ u) : (m.setBuffer id b).Stores id q u :=
  ⟨b, by rw [setBuffer_heap_self], h, hu⟩

theorem Stores.congr {m' : Machine} (h : m.Stores id q u) (he : (m'.heap id).native = (m.heap id).native) :
    m'.Stores id q u := by
  obtain ⟨b, h1, h2⟩ := h
  exact ⟨b, he.trans h1, h2⟩

theorem Stores.mono {u' : Nat} (h : m.Stores id q u) (hu : u ≤ u') : m.Stores id q u' := by
  obtain ⟨b, h1, h2, h3⟩ := h
  exact ⟨b, h1, h2, Nat.le_trans h3 hu⟩

theorem Stores.unique {q' : List UInt8} {u' : Nat} (h : m.Stores id q u) (h' : m.Stores id q' u') : q = q' := by
  obtain ⟨b, h1, h2, -⟩ := h
  obtain ⟨b', h1', h2', -⟩ := h'
  obtain rfl := Option.some.inj (h1.symm.trans h1')
  exact h2.unique h2'

theorem modifyClient_run {k : Nat} {c : Client} (f : Client → Client) (hc : m.clients k = some c) :
    modifyClient k f m = .ok () { m with clients := Function.update m.clients k (some (f c)) } := by
  rw [modifyClient, hc, Option.map_some]

theorem client_run {k : Nat} {c : Client} (hc : m.clients k = some c) : client k m = .ok c m := by rw [client, hc]

/-- Two states with the same clients and connections, and the same buffers but for the bytes of one. -/
structure Around (id : Nat) (m m' : Machine) : Prop where
  heap      : ∀ id', id' ≠ id → m'.heap id' = m.heap id'
  temporary : (m'.heap id).temporary = (m.heap id).temporary
  clients   : m'.clients = m.clients
  conn      : m'.kernel.conn = m.kernel.conn

theorem Around.trans {m' m'' : Machine} (h : Around id m m') (h' : Around id m' m'') : Around id m m'' :=
  ⟨fun id' hne => (h'.heap id' hne).trans (h.heap id' hne), h'.temporary.trans h.temporary, h'.clients.trans h.clients,
    h'.conn.trans h.conn⟩

/-- And no buffer was made, or went to the pool or came from it. -/
structure Near (id : Nat) (m m' : Machine) : Prop extends Around id m m' where
  pool       : m'.pool = m.pool
  nextBuffer : m'.nextBuffer = m.nextBuffer

theorem around_setBuffer (m : Machine) (id : Nat) (b : Buffer) : Around id m (m.setBuffer id b) :=
  ⟨fun _ hne => setBuffer_heap_of_ne m id b hne, by rw [setBuffer_heap_self], rfl, rfl⟩

theorem near_setBuffer (m : Machine) (id : Nat) (b : Buffer) : Near id m (m.setBuffer id b) :=
  ⟨around_setBuffer m id b, rfl, rfl⟩

theorem Near.trans {m' m'' : Machine} (h : Near id m m') (h' : Near id m' m'') : Near id m m'' :=
  ⟨h.toAround.trans h'.toAround, h'.pool.trans h.pool, h'.nextBuffer.trans h.nextBuffer⟩

end Machine

open Machine Effect

variable {m : Machine} {id u : Nat} {q : List UInt8}

namespace Script

/-- **`readUtf8` takes the text from the front.** -/
theorem readUtf8_run [V8] {n : Nat} (h : m.Stores id q u) (hn : n ≤ q.length) (hlen : q.length < 2 ^ 31) :
    ∃ b, readUtf8 id n m = .ok (V8.fromUtf8 (q.take n)) (m.setBuffer id b) ∧
      (m.setBuffer id b).Stores id (q.drop n) u := by
  obtain ⟨b, h1, h2, h3⟩ := h
  have hsize := h2.size_eq
  have hnu : toUint (n : Int) = n := toUint_of_lt (by omega)
  have hcut : (if toUint (n : Int) > b.size then b.size else toUint (n : Int)) = n := by
    rw [hnu]
    split <;> omega
  have hpeek : lift (b.peek n) m = .ok (q.take n) m := by
    rw [Buffer.peek_spec h2 (by omega)]
    rfl
  have hsign : ¬ toInt (n : Int) < 0 := by
    rw [toInt_of_lt (by omega) (by omega)]
    omega
  refine ⟨b.consume 64 n, ?_, stores_setBuffer (Buffer.consume_spec n h2) (Nat.le_trans (Buffer.consume_used b n) h3)⟩
  rw [readUtf8, bind_ok (native_run h1)]
  simp only [hcut, if_neg hsign]
  exact (bind_ok hpeek).trans (bind_ok rfl)

/-- **`consume` drops the front.** -/
theorem consume_run {n : Nat} (h : m.Stores id q u) (hn : n < 2 ^ 32) :
    ∃ b, consume id n m = .ok () (m.setBuffer id b) ∧ (m.setBuffer id b).Stores id (q.drop n) u := by
  obtain ⟨b, h1, h2, h3⟩ := h
  refine ⟨b.consume 64 n, ?_, stores_setBuffer (Buffer.consume_spec n h2) (Nat.le_trans (Buffer.consume_used b n) h3)⟩
  rw [consume, bind_ok (native_run h1), toUint_of_lt hn]
  rfl

theorem size_toUint (h : m.Stores id q u) : size id m = .ok (toUint q.length) m := by
  obtain ⟨b, h1, h2, -⟩ := h
  rw [size, bind_ok (native_run h1), pure_run, h2.size_eq]

theorem size_run (h : m.Stores id q u) (hlen : q.length < 2 ^ 32) : size id m = .ok q.length m := by
  rw [size_toUint h, toUint_of_lt hlen]

theorem clear_spec (h : m.Stores id q u) :
    ∃ b, clear id m = .ok () (m.setBuffer id b) ∧ Buffer.Holds 64 b [] ∧ b.used = 0 := by
  obtain ⟨b, h1, h2, -⟩ := h
  exact ⟨b.clear, bind_ok (native_run h1), Buffer.clear_spec h2.toInv, rfl⟩

/-- A native writer that is given bytes appends them. -/
theorem write_run (bytes : List UInt8) (h : m.Stores id q u) (hfits : 3 * (u + bytes.length) < 2 ^ 64) :
    ∃ b, (do
      let b ← native id
      setNative id (← lift (b.write 64 (bytes.map some))) : M Unit) m = .ok () (m.setBuffer id b) ∧
      (m.setBuffer id b).Stores id (q ++ bytes) (u + bytes.length) := by
  obtain ⟨b, h1, h2, h3⟩ := h
  obtain ⟨b', hw, hq, hu⟩ := Buffer.write_spec bytes h2 (Buffer.fits_of_le (by omega))
  refine ⟨b', ?_, stores_setBuffer hq (by omega)⟩
  rw [bind_ok (native_run h1), hw]
  rfl

/-- **`writeUtf8` appends the text.** -/
theorem writeUtf8_run [V8] (text : JsString) (h : m.Stores id q u) (hfits : 3 * (u + (V8.utf8 text).length) < 2 ^ 64) :
    ∃ b, writeUtf8 id text m = .ok () (m.setBuffer id b) ∧
      (m.setBuffer id b).Stores id (q ++ V8.utf8 text) (u + (V8.utf8 text).length) := write_run (V8.utf8 text) h hfits

theorem partialFindBuffer_run {needle u' : Nat} {n : List UInt8} (offset : Nat) (h : m.Stores id q u)
    (hd : m.Stores needle n u')
    (hn : n ≠ []) (hlen : q.length < 2 ^ 31) (hoff : offset ≤ q.length) :
    partialFindBuffer id needle offset m = .ok ((offset + Seek.firstPartial n (q.drop offset) : Nat) : Int) m := by
  obtain ⟨b, h1, h2, -⟩ := h
  obtain ⟨d, hd1, hd2, -⟩ := hd
  rw [partialFindBuffer, bind_ok (native_run h1), bind_ok (native_run hd1), toUint_of_lt (by omega),
    Buffer.partialFind_spec (by decide) h2 hd2 hn hlen hoff]
  rfl

end Script

/-- **`pop` gives an empty buffer.** -/
theorem BufferPool.pop_spec (h : ∀ b ∈ m.pool.buffers.head?, ∃ q u, m.Stores b q u) : ∃ m',
    pop m = .ok (m.pool.buffers.head?.getD m.nextBuffer) m' ∧ m'.Stores (m.pool.buffers.head?.getD m.nextBuffer) [] 0 ∧
      m'.kernel = m.kernel ∧ m'.service = m.service ∧ m'.pushes = m.pushes ∧ m'.clients = m.clients ∧
      ∀ id ≠ m.pool.buffers.head?.getD m.nextBuffer, m'.heap id = m.heap id := by
  rw [pop_run]
  cases hp : m.pool.buffers with
  | nil =>
    refine ⟨_, rfl, ⟨Buffer.new 512, ?_, Buffer.new_spec (by decide) (by decide), Nat.le_refl 0⟩, rfl, rfl, rfl, rfl,
      fun id hne => Function.update_of_ne hne ..⟩
    simp only [List.head?_nil, Option.getD_none, Function.update_self]
  | cons b bs =>
    obtain ⟨q, u, nb, hnb, hholds, -⟩ := h b (by rw [hp]; rfl)
    simp only [hnb, List.head?_cons, Option.getD_some]
    refine ⟨_, rfl, ⟨nb.clear, ?_, Buffer.clear_spec hholds.toInv, Nat.le_refl 0⟩, rfl, rfl, rfl, rfl,
      fun id hne => Function.update_of_ne hne ..⟩
    simp only [Function.update_self]

namespace Socket

/-- **A successful read appends what was received.** -/
theorem _readBuffer_run {ans : Answers} {fd : Int} {b : Buffer} {c : Nat} {bytes : List UInt8}
    (hb : (m.heap id).native = some b) (h : Buffer.Holds 64 b q) (hu : b.used ≤ 2 ^ 62)
    (hconn : m.kernel.conn fd = some c) (hrecv : ans.recv = .data bytes) :
    ∃ b₁, b.prepare 64 8192 = .ok b₁ ∧ 8192 ≤ b₁.remain 64 ∧ (bytes ≠ [] →
      ∃ b₂, _readBuffer ans fd id m = .ok (toInt (bytes.take (b₁.remain 64)).length) (m.setBuffer id b₂) ∧
        Buffer.Holds 64 b₂ (q ++ bytes.take (b₁.remain 64)) ∧
        b₂.used = b.used + (bytes.take (b₁.remain 64)).length) := by
  obtain ⟨b₁, hprep, hq, hu₁, hroom⟩ := Buffer.prepare_spec h (Buffer.fits_of_le (n := 8192) (by omega))
  have hremain : b₁.remain 64 = b₁.reserve - b₁.used := Buffer.remain_eq hq.room hq.word
  refine ⟨b₁, hprep, by omega, fun hne => ?_⟩
  generalize hgot : bytes.take (b₁.remain 64) = got
  have hgotlen : got.length ≤ b₁.remain 64 := by
    rw [← hgot]
    exact List.length_take_le ..
  have hgotne : got ≠ [] := by
    rintro rfl
    rcases List.take_eq_nil_iff.1 hgot with h0 | h0
    · omega
    · exact hne h0
  have hfits : b₁.used + got.length ≤ b₁.reserve := by omega
  obtain ⟨b₂, hstore, hfill, hfu⟩ := Buffer.fill_spec hq hfits
  refine ⟨b₂.commit 64 got.length, ?_, hfill, by rw [hfu, hu₁]⟩
  rw [_readBuffer, bind_ok (native_run hb), hprep]
  have hr : recv ans fd (b₁.remain 64) (m.setBuffer id b₁) = .ok (some got) (m.setBuffer id b₁) := by
    simp only [recv, setBuffer_kernel, hconn, hrecv, hgot]
  obtain ⟨g, gs, rfl⟩ := List.exists_cons_of_ne_nil hgotne
  refine (bind_ok rfl).trans ((bind_ok (setNative_run m id b₁)).trans ((bind_ok hr).trans ?_))
  have hs : lift (b₁.store b₁.used ((g :: gs).map some)) (m.setBuffer id b₁) = .ok b₂ (m.setBuffer id b₁) := by
    rw [hstore]
    rfl
  refine (bind_ok hs).trans ((bind_ok (setNative_run _ id _)).trans ?_)
  rw [setBuffer_setBuffer, pure_run]
end Socket
end V8h
