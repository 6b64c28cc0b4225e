import V8h.BufferSpec
import V8h.Lib.Fifo
import V8h.Lib.Run
/-!
# BufferFifo — the native buffer is a FIFO byte queue

Any number of buffers, changed by any sequence of operations, against a family of byte lists: `fifo_run`.  A load or
store outside a block, a growth loop that does not exit or a value read before it was stored would end the run with a
`Trap`; the run has none.
-/
namespace V8h
namespace Buffer

/-- The operations of one buffer among many.  `fill n bytes` is `prepare(n)`, the bytes stored at the pointer it
returns, and `commit` of their number. -/
inductive Op where
  | write (data : List UInt8)
  | writeBuffer (src n : Nat)
  | writeInt32 (data : BitVec 32)
  | writeUint32 (data : BitVec 32)
  | writeInt64 (data : BitVec 64)
  | writeDouble (data : BitVec 64)
  | zero
  | prepare (n : Nat)
  | fill (n : Nat) (bytes : List UInt8)
  | consume (n : Nat)
  | clear
  | sweep

structure Cmd where
  target : Nat
  op     : Op

variable (w : Nat)

def Op.exec (heap : Nat → Buffer) (b : Buffer) : Op → Except Trap Buffer
  | .write data        => b.write w (data.map some)
  | .writeBuffer src n => b.writeBuffer w (heap src) n
  | .writeInt32 data   => b.writeInt32 w data
  | .writeUint32 data  => b.writeUint32 w data
  | .writeInt64 data   => b.writeInt64 w data
  | .writeDouble data  => b.writeDouble w data
  | .zero              => b.zero w
  | .prepare n         => b.prepare w n
  | .fill n bytes      => do
    let b ← b.prepare w n
    let b ← b.store b.used (bytes.map some)
    return b.commit w bytes.length
  | .consume n         => .ok (b.consume w n)
  | .clear             => .ok b.clear
  | .sweep             => b.sweep

def exec (heap : Nat → Buffer) (c : Cmd) : Except Trap (Nat → Buffer) := do
  let b ← c.op.exec w heap (heap c.target)
  return Function.update heap c.target b

/-- The bytes an operation asks `prepare` for. -/
def Op.need (heap : Nat → Buffer) : Op → Nat
  | .write data        => data.length
  | .writeBuffer src n => min n (heap src).size
  | .writeInt32 _      => 4
  | .writeUint32 _     => 4
  | .writeInt64 _      => 8
  | .writeDouble _     => 8
  | .zero              => 1
  | .prepare n         => n
  | .fill n _          => n
  | _                  => 0

/-- What the caller owes: the source of a copy is another buffer, no more is filled in than `remain()` after `prepare`,
and no `size_t` overflows. -/
structure Proper (heap : Nat → Buffer) (c : Cmd) : Prop where
  other : ∀ src n, c.op = .writeBuffer src n → src ≠ c.target
  room  : ∀ n bytes b, c.op = .fill n bytes → (heap c.target).prepare w n = .ok b → bytes.length ≤ b.remain w
  fits  : Fits w (heap c.target) (c.op.need heap)

/-- What an operation is to a byte queue. -/
def Op.meaning (qs : Nat → List UInt8) : Op → Fifo.Op UInt8
  | .write data        => .append data
  | .writeBuffer src n => .append ((qs src).take n)
  | .writeInt32 data   => .append (image 4 data.toNat)
  | .writeUint32 data  => .append (image 4 data.toNat)
  | .writeInt64 data   => .append (image 8 data.toNat)
  | .writeDouble data  => .append (image 8 data.toNat)
  | .zero              => .keep
  | .prepare _         => .keep
  | .fill _ bytes      => .append bytes
  | .consume n         => .drop n
  | .clear             => .clear
  | .sweep             => .keep

def queueStep (qs : Nat → List UInt8) (c : Cmd) : Nat → List UInt8 := Fifo.step qs c.target (c.op.meaning qs)

variable {w}

theorem exec_write (heap : Nat → Buffer) {b : Buffer} {q bs : List UInt8} (h : Holds w b q) (hf : Fits w b bs.length) :
    ∃ b', (Op.write bs).exec w heap b = .ok b' ∧ Holds w b' (q ++ bs) := by
  obtain ⟨b', h1, h2, -⟩ := write_spec bs h hf
  exact ⟨b', h1, h2⟩

/-- **One operation is its meaning**, and ends without a fault. -/
theorem exec_spec {heap : Nat → Buffer} {qs : Nat → List UInt8} {c : Cmd} (h : ∀ i, Holds w (heap i) (qs i))
    (hc : Proper w heap c) :
    ∃ b, c.op.exec w heap (heap c.target) = .ok b ∧ Holds w b ((c.op.meaning qs).apply (qs c.target)) := by
  obtain ⟨other, room, fits⟩ := hc
  obtain ⟨t, op⟩ := c
  dsimp only at other room fits ⊢
  cases op with
  | write data => exact exec_write heap (h t) fits
  | writeBuffer src n =>
    have hl : ((qs src).take n).length = min n (heap src).size := by rw [List.length_take, (h src).size_eq]
    have hf : Fits w (heap t) (min n (heap src).size) := fits
    obtain ⟨b', h1, h2, -⟩ := writeBuffer_spec (h t) (h src) (hl ▸ hf)
    exact ⟨b', h1, h2⟩
  | writeInt32 data => exact exec_write heap (h t) (by rwa [image_length])
  | writeUint32 data => exact exec_write heap (h t) (by rwa [image_length])
  | writeInt64 data => exact exec_write heap (h t) (by rwa [image_length])
  | writeDouble data => exact exec_write heap (h t) (by rwa [image_length])
  | zero =>
    obtain ⟨b', h1, h2, -⟩ := zero_spec (h t) fits
    exact ⟨b', h1, h2⟩
  | prepare n =>
    obtain ⟨b', h1, h2, -, -⟩ := prepare_spec (h t) fits
    exact ⟨b', h1, h2⟩
  | fill n bytes =>
    have hf : Fits w (heap t) n := fits
    obtain ⟨b₁, h1, hq, -, -⟩ := prepare_spec (h t) hf
    have hroom : b₁.used + bytes.length ≤ b₁.reserve := by
      have hremain := room n bytes b₁ rfl h1
      have hmark := hq.room
      rw [remain_eq hmark hq.word] at hremain
      omega
    obtain ⟨b₂, h2, hq2, -⟩ := fill_spec hq hroom
    refine ⟨b₂.commit w bytes.length, ?_, hq2⟩
    simp only [Op.exec, h1, ok_bind, h2]
    rfl
  | consume n => exact ⟨_, rfl, consume_spec n (h t)⟩
  | clear => exact ⟨_, rfl, clear_spec (h t).toInv⟩
  | sweep => exact sweep_spec (h t)

/-- **Buffer is a FIFO byte queue.**  Every run of operations on buffers constructed with positive reservations ends
without a fault, every buffer satisfies `Inv`, and the visible bytes are those of a byte list on which the same run was
performed. -/
theorem fifo_run (reserves : Nat → Nat) (hr : ∀ i, 1 ≤ reserves i ∧ reserves i < 2 ^ w) (cmds : List Cmd)
    (hp : Run.Along (exec w) (Proper w) (fun i => new (reserves i)) cmds) :
    ∃ heap, cmds.foldlM (exec w) (fun i => new (reserves i)) = .ok heap ∧
      ∀ i, Holds w (heap i) (cmds.foldl queueStep (fun _ => []) i) := by
  refine Run.simulates (R := fun (heap : Nat → Buffer) (qs : Nat → List UInt8) =>
    ∀ i, Holds w (heap i) (qs i)) ?_ cmds _ _
    (fun i => new_spec (hr i).1 (hr i).2) hp
  intro heap qs c h hc
  obtain ⟨b, h1, h2⟩ := exec_spec h hc
  refine ⟨Function.update heap c.target b, ?_, Fifo.match_update h h2⟩
  simp only [exec, h1, ok_bind]
  rfl

theorem fifo_run_copy : ∃ heap, [⟨0, .write [1, 2, 3]⟩, ⟨0, .consume 1⟩, ⟨1, .writeBuffer 0 5⟩].foldlM (exec 64)
    (fun _ => new 1) = .ok heap ∧ ∀ i, Holds 64 (heap i)
      ([⟨0, .write [1, 2, 3]⟩, ⟨0, .consume 1⟩, ⟨1, .writeBuffer 0 5⟩].foldl queueStep (fun _ => []) i) := by
  refine fifo_run (fun _ => 1) (fun _ => by decide) _ ⟨⟨?_, ?_, fits_of_le (by decide)⟩, fun h1 e1 => ?_⟩
  · rintro _ _ ⟨⟩
  · rintro _ _ _ ⟨⟩
  · injection e1 with e1
    subst e1
    refine ⟨⟨?_, ?_, fits_of_le (by decide)⟩, fun h2 e2 => ?_⟩
    · rintro _ _ ⟨⟩
    · rintro _ _ _ ⟨⟩
    · injection e2 with e2
      subst e2
      refine ⟨⟨?_, ?_, fits_of_le (by decide)⟩, fun _ _ => trivial⟩
      · rintro _ _ ⟨⟩
        decide
      · rintro _ _ _ ⟨⟩

end Buffer
end V8h
