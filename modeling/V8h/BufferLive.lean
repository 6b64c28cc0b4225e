import V8h.BufferRead
import V8h.Lib.Fifo
import V8h.Lib.Run
import V8h.ScriptBuffer
/-!
# BufferLive — what scripts get from buffers was stored

The methods of `buffer.cc` scripts call, over any number of buffers, beside a record of the live content: the bytes the
writes stored and nothing has consumed since.  A typed read and `_read_buffer` end with `commit`, which counts bytes in
that no write stored; the record has `none` for them.  As long as no call asks for one of those, or for more than there
is, every byte a call returns or copies is the recorded one (`scripts_get_stored_bytes`).
-/
namespace V8h

/-- `String::WriteAscii` of a whole string, which writes at most one byte a unit. -/
class AsciiWriter where
  bytes        : JsString → List UInt8
  length_bytes : ∀ s, (bytes s).length ≤ s.length

namespace Buffer

open Effect

/-! ## The methods -/

/-- What `Buffer::constructor` tells apart in its first argument. -/
inductive Arg where
  | missing
  | uint32 (n : UInt32)
  | text (s : JsString)
  | other

def Arg.reserve : Arg → Nat
  | .uint32 n => n.toNat
  | _         => 1024

theorem Arg.reserve_lt (arg : Arg) : arg.reserve < 2 ^ 32 := by
  cases arg with
  | uint32 n => exact n.toNat_lt
  | _ => show 1024 < 2 ^ 32; decide

/-- The size argument of a reader: without it, the whole buffer. -/
def asked (size : Nat) : Option Int → Nat
  | some n => toUint n
  | none   => size

/-- `String::New(data(), n)`, whose length is an `int`. -/
def newString (b : Buffer) (n : Nat) : Except Trap (List UInt8) :=
  if toInt n < 0 then b.cString else b.peek (toInt n).toNat

/-- The size as `peek_utf8` and `read_utf8` bound it. -/
def clamp (size : Nat) (n : Option Int) : Nat := if asked size n > size then size else asked size n

section Methods

variable [V8] [AsciiWriter] (w : Nat)

/-- `Buffer::write(Handle<Value>)`, of a string. -/
def writeUtf8 (b : Buffer) (text : JsString) : Except Trap Buffer := b.write w ((V8.utf8 text).map some)

def writeAscii (b : Buffer) (text : JsString) : Except Trap Buffer := do
  let b ← b.prepare w text.length
  let b ← b.store b.used ((AsciiWriter.bytes text).map some)
  return b.commit w (AsciiWriter.bytes text).length

/-- `Buffer::constructor`. -/
def construct (arg : Arg) : Except Trap Buffer :=
  match arg with
  | .text s => (new arg.reserve).writeUtf8 w s
  | _       => .ok (new arg.reserve)

def peekUtf8 (b : Buffer) (n : Option Int) : Except Trap (List UInt8 × Buffer) := do
  return (← b.newString (clamp b.size n), b)

def readUtf8 (b : Buffer) (n : Option Int) : Except Trap (List UInt8 × Buffer) := do
  return (← b.newString (clamp b.size n), b.consume w (clamp b.size n))

/-- `read_int32`, `read_uint32`, `read_int64`, `read_double`, with the bytes of the value they return. -/
def readBytes (k : Kind) (b : Buffer) : Except Trap (List UInt8 × Buffer) := do
  let (v, b) ← k.read w b
  return (image k.width v.toNat, b)

end Methods

/-- The buffers scripts have constructed. -/
abbrev Heap := Nat → Option Buffer

namespace Heap

variable (w : Nat)

def get (heap : Heap) (i : Nat) : Except Trap Buffer :=
  match heap i with
  | none   => .error .null
  | some b => .ok b

def set (heap : Heap) (i : Nat) (b : Buffer) : Heap := Function.update heap i (some b)

/-- A method that returns `self`. -/
def change (heap : Heap) (self : Nat) (f : Buffer → Except Trap Buffer) : Except Trap (List Cell × Heap) := do
  let b ← f (← heap.get self)
  return ([], heap.set self b)

/-- A method that returns bytes. -/
def answer (heap : Heap) (self : Nat) (f : Buffer → Except Trap (List UInt8 × Buffer)) :
    Except Trap (List Cell × Heap) := do
  let (data, b) ← f (← heap.get self)
  return (data.map some, heap.set self b)

/-- `dest->write(buffer->data(), n)`, with the cells it copies. -/
def copy (heap : Heap) (buffer dest n : Nat) : Except Trap (List Cell × Heap) := do
  let src ← heap.get buffer
  let old ← heap.get dest
  let b ← old.prepare w n
  -- `data()` was called before `prepare`, and points into a freed block when that moved it
  if buffer = dest ∧ b.reserve ≠ old.reserve then
    throw .outOfBounds
  else
    let data ← src.load src.cursor n
    let b ← b.store b.used data
    return (data, heap.set dest (b.commit w n))

end Heap

inductive Method where
  | constructor (arg : Arg)
  | writeUtf8 (text : JsString)
  | writeAscii (text : JsString)
  | writeBuffer (src : Nat)
  | writeInt32 (data : BitVec 32)
  | writeUint32 (data : BitVec 32)
  | writeDouble (data : BitVec 64)
  | zero
  | consume (n : Int)
  | clear
  | peekUtf8 (n : Option Int)
  | readUtf8 (n : Option Int)
  | peekBuffer (dest : Nat) (n : Option Int)
  | readBuffer (dest : Nat) (n : Option Int)
  | read (k : Kind)

/-- A method called on a buffer. -/
structure Call where
  self   : Nat
  method : Method

section Exec

variable [V8] [AsciiWriter] (w : Nat)

/-- What a method returns to the script or copies to another buffer, and the buffers it leaves. -/
def Method.exec (heap : Heap) (self : Nat) : Method → Except Trap (List Cell × Heap)
  | .constructor arg   => do return ([], heap.set self (← construct w arg))
  | .writeUtf8 text    => heap.change self fun b => b.writeUtf8 w text
  | .writeAscii text   => heap.change self fun b => b.writeAscii w text
  | .writeBuffer src   => do heap.copy w src self (← heap.get src).size
  | .writeInt32 data   => heap.change self fun b => b.writeInt32 w data
  | .writeUint32 data  => heap.change self fun b => b.writeUint32 w data
  | .writeDouble data  => heap.change self fun b => b.writeDouble w data
  | .zero              => heap.change self fun b => b.zero w
  | .consume n         => heap.change self fun b => .ok (b.consume w (toUint n))
  | .clear             => heap.change self fun b => .ok b.clear
  | .peekUtf8 n        => heap.answer self fun b => b.peekUtf8 n
  | .readUtf8 n        => heap.answer self fun b => b.readUtf8 w n
  | .peekBuffer dest n => do heap.copy w self dest (asked (← heap.get self).size n)
  | .readBuffer dest n => do
    let n := asked (← heap.get self).size n
    let (data, heap) ← heap.copy w self dest n
    return (data, heap.set self ((← heap.get self).commit w n))
  | .read k            => heap.answer self (readBytes w k)

end Exec

/-! ## The record -/

/-- The live content of each buffer, with `none` for a byte that `commit` counted in and no write stored. -/
abbrev Live := Nat → List Cell

section Record

variable [V8]

/-- What the constructor writes. -/
def Arg.stored : Arg → List UInt8
  | .text s => V8.utf8 s
  | _       => []

variable [AsciiWriter]

/-- The live content after a call. -/
def Method.record (live : Live) (self : Nat) : Method → Live
  | .constructor arg   => Function.update live self (arg.stored.map some)
  | .writeUtf8 text    => Fifo.step live self (.append ((V8.utf8 text).map some))
  | .writeAscii text   => Fifo.step live self (.append ((AsciiWriter.bytes text).map some))
  | .writeBuffer src   => Fifo.step live self (.append (live src))
  | .writeInt32 data   => Fifo.step live self (.append ((image 4 data.toNat).map some))
  | .writeUint32 data  => Fifo.step live self (.append ((image 4 data.toNat).map some))
  | .writeDouble data  => Fifo.step live self (.append ((image 8 data.toNat).map some))
  | .zero              => Fifo.step live self .keep
  | .consume n         => Fifo.step live self (.drop (toUint n))
  | .clear             => Fifo.step live self .clear
  | .peekUtf8 _        => Fifo.step live self .keep
  | .readUtf8 n        => Fifo.step live self (.drop (clamp (live self).length n))
  | .peekBuffer dest n => Fifo.step live dest (.append ((live self).take (asked (live self).length n)))
  | .readBuffer dest n =>
    let n := asked (live self).length n
    Fifo.step (Fifo.step live dest (.append ((live self).take n))) self (.append (List.replicate n none))
  | .read k            => Fifo.step live self (.append (List.replicate k.width none))

/-- The part of the live content that a call returns or copies. -/
def Method.seen (live : Live) (self : Nat) : Method → List Cell
  | .writeBuffer src => live src
  | .peekUtf8 n | .readUtf8 n => (live self).take (toInt (clamp (live self).length n)).toNat
  | .peekBuffer _ n | .readBuffer _ n => (live self).take (asked (live self).length n)
  | .read k => (live self).take k.width
  | _ => []

end Record

structure Session where
  heap : Heap
  live : Live

/-- Before the first call. -/
def Session.start : Session := ⟨fun _ => none, fun _ => []⟩

section Session

variable [V8] [AsciiWriter] (w : Nat)

def step (s : Session) (c : Call) : Except Trap Session := do
  let (_, heap) ← c.method.exec w s.heap c.self
  return ⟨heap, c.method.record s.live c.self⟩

/-- The faults that give nothing to the script: a loop that never exits, an object that is no buffer. -/
def Silent (fault : Trap) : Prop := fault = .diverge ∨ fault = .null

/-- **A call keeps the script to stored bytes**: no load or store outside a block, the counters of every buffer in
order, and nothing returned or copied but bytes of the live content that writes have stored. -/
def Keeps (s : Session) (c : Call) : Prop :=
  Yields (c.method.exec w s.heap c.self)
    (fun (out, heap) => (∀ i, ∀ b ∈ heap i, b.cursor + b.size = b.used ∧ b.used ≤ b.reserve) ∧
      out = c.method.seen s.live c.self ∧ none ∉ out)
    Silent

/-- `used_ + n` is a `size_t`. -/
def Room (heap : Heap) (i n : Nat) : Prop := ∀ b ∈ heap i, b.used + n < 2 ^ w

/-- `n` bytes of the block are free. -/
def Slack (heap : Heap) (i n : Nat) : Prop := ∀ b ∈ heap i, n ≤ b.remain w

/-- The first `n` bytes of a buffer are there to be copied, to itself only if it need not grow. -/
structure Copies (s : Session) (buffer dest n : Nat) : Prop where
  within : n ≤ (s.live buffer).length
  room   : Room w s.heap dest n
  itself : buffer = dest → Slack w s.heap dest n

def Method.Within (s : Session) (self : Nat) : Method → Prop
  | .constructor arg   => arg.stored.length < 2 ^ w
  | .writeUtf8 text    => Room w s.heap self (V8.utf8 text).length
  | .writeAscii text   => Room w s.heap self text.length
  | .writeBuffer src   => Copies w s src self (s.live src).length
  | .writeInt32 _      => Room w s.heap self 4
  | .writeUint32 _     => Room w s.heap self 4
  | .writeDouble _     => Room w s.heap self 8
  | .zero              => Room w s.heap self 1
  | .consume _         => True
  | .clear             => True
  | .peekUtf8 n        => 0 ≤ toInt (clamp (s.live self).length n)
  | .readUtf8 n        => 0 ≤ toInt (clamp (s.live self).length n)
  | .peekBuffer dest n => Copies w s self dest (asked (s.live self).length n)
  | .readBuffer dest n =>
    let n := asked (s.live self).length n
    Copies w s self dest n ∧ Slack w s.heap self (if self = dest then n + n else n)
  | .read k            => k.width ≤ (s.live self).length ∧ Slack w s.heap self k.width

instance (heap : Heap) (i n : Nat) : Decidable (Room w heap i n) :=
  inferInstanceAs (Decidable (∀ b ∈ heap i, b.used + n < 2 ^ w))

instance (heap : Heap) (i n : Nat) : Decidable (Slack w heap i n) :=
  inferInstanceAs (Decidable (∀ b ∈ heap i, n ≤ b.remain w))

instance (s : Session) (buffer dest n : Nat) : Decidable (Copies w s buffer dest n) :=
  decidable_of_iff (n ≤ (s.live buffer).length ∧ Room w s.heap dest n ∧ (buffer = dest → Slack w s.heap dest n))
    ⟨fun ⟨h1, h2, h3⟩ => ⟨h1, h2, h3⟩, fun ⟨h1, h2, h3⟩ => ⟨h1, h2, h3⟩⟩

instance (s : Session) (self : Nat) : (m : Method) → Decidable (m.Within w s self)
  | .constructor arg   => inferInstanceAs (Decidable (arg.stored.length < 2 ^ w))
  | .writeUtf8 text    => inferInstanceAs (Decidable (Room w s.heap self (V8.utf8 text).length))
  | .writeAscii text   => inferInstanceAs (Decidable (Room w s.heap self text.length))
  | .writeBuffer src   => inferInstanceAs (Decidable (Copies w s src self (s.live src).length))
  | .writeInt32 _ | .writeUint32 _ => inferInstanceAs (Decidable (Room w s.heap self 4))
  | .writeDouble _     => inferInstanceAs (Decidable (Room w s.heap self 8))
  | .zero              => inferInstanceAs (Decidable (Room w s.heap self 1))
  | .consume _ | .clear => .isTrue trivial
  | .peekUtf8 n | .readUtf8 n => inferInstanceAs (Decidable (0 ≤ toInt (clamp (s.live self).length n)))
  | .peekBuffer dest n => inferInstanceAs (Decidable (Copies w s self dest (asked (s.live self).length n)))
  | .readBuffer _ _ | .read _ => inferInstanceAs (Decidable (_ ∧ _))

/-- **What a script owes**: it asks for stored bytes only, of which there are as many as it asks for, and a `commit`
after them stays below `reserve_`. -/
def Careful (s : Session) (c : Call) : Prop :=
  none ∉ c.method.seen s.live c.self ∧ c.method.Within w s c.self

instance (s : Session) (c : Call) : Decidable (Careful w s c) := inferInstanceAs (Decidable (_ ∧ _))

end Session

/-! ## What the methods do to the record -/

variable {w : Nat}

theorem Tracks.makesRoom {b : Buffer} {q : List Cell} {n : Nat} (h : Tracks w b q) (hn : b.used + n < 2 ^ w) :
    Yields (b.prepare w n) (fun b' => Tracks w b' q ∧ b'.used = b.used ∧ b'.used + n ≤ b'.reserve) Silent :=
  ⟨(h.prepare hn).ok, fun hp => Or.inl ((h.prepare hn).error hp)⟩

theorem Tracks.commitBlank {b : Buffer} {q : List Cell} {n : Nat} (h : Tracks w b q) (hn : n ≤ b.remain w) :
    Tracks w (b.commit w n) (q ++ List.replicate n none) := by
  have hroom := h.room
  have hblank := Block.Known.blank (b.data.slice b.used n)
  rw [Block.length_slice] at hblank
  rw [remain_eq hroom h.word] at hn
  exact (h.commit (by omega) hblank).1

theorem exists_bytes {cells : List Cell} (h : none ∉ cells) : ∃ bs : List UInt8, cells = bs.map some := by
  induction cells with
  | nil => exact ⟨[], rfl⟩
  | cons c cs ih =>
    rw [List.mem_cons, not_or] at h
    obtain ⟨bs, rfl⟩ := ih h.2
    obtain ⟨x, rfl⟩ := Option.ne_none_iff_exists'.1 (Ne.symm h.1)
    exact ⟨x :: bs, rfl⟩

theorem Tracks.write {b : Buffer} {q known cells : List Cell} (h : Tracks w b q) (hk : Block.Known known cells)
    (hn : b.used + cells.length < 2 ^ w) :
    Yields (b.write w cells) (fun b' => Tracks w b' (q ++ known)) Silent := by
  refine (h.makesRoom hn).bind fun b₁ h₁ => ?_
  obtain ⟨hb, -, hroom⟩ := h₁
  obtain ⟨b₂, hstore, hfill, -, -⟩ := hb.fill hk hroom
  rw [hstore, ok_bind]
  exact .of_ok rfl hfill

/-- **What is written is what is known of it.** -/
theorem Tracks.writeBytes {b : Buffer} {q : List Cell} (h : Tracks w b q) {bs : List UInt8}
    (hn : b.used + bs.length < 2 ^ w) :
    Yields (b.write w (bs.map some)) (fun b' => Tracks w b' (q ++ bs.map some)) Silent :=
  h.write (Block.Known.refl _) (by rwa [List.length_map])

theorem Tracks.writeAscii [AsciiWriter] {b : Buffer} {q : List Cell} (h : Tracks w b q) {text : JsString}
    (hn : b.used + text.length < 2 ^ w) :
    Yields (b.writeAscii w text) (fun b' => Tracks w b' (q ++ (AsciiWriter.bytes text).map some)) Silent := by
  have hlen := AsciiWriter.length_bytes text
  refine (h.makesRoom hn).bind fun b₁ h₁ => ?_
  obtain ⟨hb, -, hroom⟩ := h₁
  obtain ⟨b₂, hstore, hfill, -, -⟩ := hb.fill (Block.Known.refl ((AsciiWriter.bytes text).map some))
    (by rw [List.length_map]; omega)
  rw [List.length_map] at hfill
  rw [hstore, ok_bind]
  exact .of_ok rfl hfill

theorem Tracks.zero {b : Buffer} {q : List Cell} (h : Tracks w b q) (hn : b.used + 1 < 2 ^ w) :
    Yields (b.zero w) (fun b' => Tracks w b' q) Silent := by
  refine (h.makesRoom hn).bind fun b₁ h₁ => ?_
  obtain ⟨hb, -, hroom⟩ := h₁
  obtain ⟨b₂, hstore, htrack, -⟩ := hb.store (show b₁.used + [some (0 : UInt8)].length ≤ b₁.reserve from hroom)
  exact .of_ok hstore htrack

theorem toNat_toInt_le (n : Nat) : (toInt n).toNat ≤ n := by
  have hdef := Int.bmod_def n (2 ^ 32)
  have hle : Int.bmod n (2 ^ 32) ≤ n := by
    rw [hdef]
    split <;> omega
  exact Int.toNat_le.2 hle

/-- **A string is made of the stored bytes** when its length is not negative as an `int`. -/
theorem Tracks.newString {b : Buffer} {q : List Cell} {n : Nat} (h : Tracks w b q) (hn : n ≤ q.length)
    (h0 : 0 ≤ toInt n) (hall : none ∉ q.take (toInt n).toNat) :
    Yields (b.newString n) (fun data => data.map some = q.take (toInt n).toNat) Silent := by
  obtain ⟨cells, hload, hknown⟩ := h.load (Nat.le_trans (toNat_toInt_le n) hn)
  obtain ⟨bs, hbs⟩ := exists_bytes hall
  rw [hknown.eq hall, hbs] at hload
  refine Yields.of_ok (a := bs) ?_ hbs.symm
  rw [Buffer.newString, if_neg (Int.not_lt.2 h0), peek, hload, ok_bind, determinate_map_some]

theorem clamp_le (size : Nat) (n : Option Int) : clamp size n ≤ size := by
  unfold clamp
  split <;> omega

/-- **A typed read returns the first bytes of the content**, and leaves as many more to be read. -/
theorem Tracks.readBytes {b : Buffer} {q : List Cell} {k : Kind} (h : Tracks w b q) (hk : k.width ≤ q.length)
    (hall : none ∉ q.take k.width) (hroom : k.width ≤ b.remain w) :
    Yields (readBytes w k b)
      (fun r => r.1.map some = q.take k.width ∧ Tracks w r.2 (q ++ List.replicate k.width none)) Silent := by
  have hsize := h.size_eq
  obtain ⟨cells, hload, hknown⟩ := h.load hk
  obtain ⟨bs, hbs⟩ := exists_bytes hall
  have hlen : bs.length = k.width := by
    have := congrArg List.length hbs
    rw [List.length_take, List.length_map] at this
    omega
  rw [hknown.eq hall, hbs] at hload
  have hval : (BitVec.ofNat k.bits (wordOf bs)).toNat = wordOf bs := by
    rw [BitVec.toNat_ofNat, ← k.pow_width, ← hlen, Nat.mod_eq_of_lt (wordOf_lt bs)]
  refine Yields.of_ok (a := (bs, b.commit w k.width)) ?_ ⟨hbs.symm, h.commitBlank hroom⟩
  rw [Buffer.readBytes, Kind.read_of_load (by omega) hlen hload, ok_bind]
  show Except.ok (image k.width (BitVec.ofNat k.bits (wordOf bs)).toNat, _) = _
  rw [hval, ← hlen, image_wordOf]

/-! ## Every buffer beside its record -/

/-- **The invariant of a session.** -/
def Matches (w : Nat) (s : Session) : Prop := ∀ i, ∀ b ∈ s.heap i, Tracks w b (s.live i)

theorem Matches.start : Matches w Session.start := fun _ _ hb => nomatch hb

theorem Matches.set {s : Session} {i : Nat} {b : Buffer} {q : List Cell} (h : Matches w s) (hb : Tracks w b q) :
    Matches w ⟨s.heap.set i b, Function.update s.live i q⟩ := by
  intro j b' hb'
  simp only [Heap.set] at hb' ⊢
  by_cases hj : j = i
  · subst hj
    rw [Function.update_self] at hb' ⊢
    cases hb'
    exact hb
  · rw [Function.update_of_ne hj] at hb' ⊢
    exact h j b' hb'

theorem Heap.get_spec (heap : Heap) (i : Nat) : Yields (heap.get i) (fun b => b ∈ heap i) Silent := by
  unfold Heap.get
  cases heap i with
  | none => exact .of_error rfl (Or.inr rfl)
  | some b => exact .of_ok rfl rfl

theorem Matches.change {s : Session} {self : Nat} {f : Buffer → Except Trap Buffer} {q : List Cell} (h : Matches w s)
    (hf : ∀ b ∈ s.heap self, Yields (f b) (fun b' => Tracks w b' q) Silent) :
    Yields (s.heap.change self f) (fun r => r.1 = [] ∧ Matches w ⟨r.2, Function.update s.live self q⟩) Silent := by
  refine (s.heap.get_spec self).bind fun b hb => ?_
  exact (hf b hb).bind fun b' hb' => .of_ok rfl ⟨rfl, h.set hb'⟩

theorem Matches.answer {s : Session} {self : Nat} {f : Buffer → Except Trap (List UInt8 × Buffer)} {q out : List Cell}
    (h : Matches w s)
    (hf : ∀ b ∈ s.heap self, Yields (f b) (fun r => r.1.map some = out ∧ Tracks w r.2 q) Silent) :
    Yields (s.heap.answer self f) (fun r => r.1 = out ∧ Matches w ⟨r.2, Function.update s.live self q⟩) Silent := by
  refine (s.heap.get_spec self).bind fun b hb => ?_
  exact (hf b hb).bind fun r hr => .of_ok rfl ⟨hr.1, h.set hr.2⟩

/-- **A copy moves stored bytes only**, and takes their number from the room of the buffer it goes to. -/
theorem Matches.copy {s : Session} {buffer dest n : Nat} (h : Matches w s) (hc : Copies w s buffer dest n)
    (hall : none ∉ (s.live buffer).take n) :
    Yields (s.heap.copy w buffer dest n)
      (fun r => r.1 = (s.live buffer).take n ∧
        Matches w ⟨r.2, Fifo.step s.live dest (.append ((s.live buffer).take n))⟩ ∧
        ∀ m, Slack w s.heap buffer (if buffer = dest then n + m else m) → Slack w r.2 buffer m)
      Silent := by
  obtain ⟨hwithin, hroom, hitself⟩ := hc
  refine (s.heap.get_spec buffer).bind fun src hsrc => ?_
  refine (s.heap.get_spec dest).bind fun old hold => ?_
  have hprep : Yields (old.prepare w n) (fun b => Tracks w b (s.live dest) ∧ b.used = old.used ∧
      b.used + n ≤ b.reserve ∧ (buffer = dest → b = old)) Silent := by
    by_cases hsame : buffer = dest
    · have htrack := h dest old hold
      have hslack := hitself hsame old hold
      have hfull := htrack.room
      rw [remain_eq hfull htrack.word] at hslack
      exact Yields.of_ok (prepare_of_room (by omega) htrack.word) ⟨htrack, rfl, by omega, fun _ => rfl⟩
    · refine ((h dest old hold).makesRoom (hroom old hold)).mono fun b hb => ?_
      exact ⟨hb.1, hb.2.1, hb.2.2, fun he => absurd he hsame⟩
  refine hprep.bind fun b hb => ?_
  obtain ⟨htrack, hused, hfits, hkept⟩ := hb
  have hstay : ¬ (buffer = dest ∧ b.reserve ≠ old.reserve) := fun hmoved => hmoved.2 (by rw [hkept hmoved.1])
  rw [if_neg hstay]
  obtain ⟨cells, hload, hknown⟩ := (h buffer src hsrc).load hwithin
  rw [hload, ok_bind]
  have hlen : cells.length = n := load_length hload
  obtain ⟨b', hstore, hb', hused', hres'⟩ := htrack.fill hknown (by omega)
  rw [hlen] at hb' hused'
  rw [hstore, ok_bind]
  refine .of_ok rfl ⟨hknown.eq hall, h.set hb', fun m hm b₁ hb₁ => ?_⟩
  by_cases hsame : buffer = dest
  · rw [if_pos hsame] at hm
    have hbefore := hm src hsrc
    have heq : src = old := Option.some.inj (hsrc.symm.trans (hsame ▸ hold))
    simp only [Heap.set, hsame, Function.update_self] at hb₁
    cases hb₁
    have hold' := h dest old hold
    rw [heq, remain_eq hold'.room hold'.word] at hbefore
    rw [remain_eq hb'.room hb'.word]
    show m ≤ b'.reserve - (b'.commit w n).used
    rw [hused', hres', hkept hsame]
    omega
  · rw [if_neg hsame] at hm
    simp only [Heap.set, Function.update_of_ne hsame] at hb₁
    exact hm b₁ hb₁

/-! ## The run -/

section Run

variable [V8] [AsciiWriter]

omit [AsciiWriter] in
theorem construct_spec (hw : 32 ≤ w) {arg : Arg} (hlen : arg.stored.length < 2 ^ w) :
    Yields (construct w arg) (fun b => Tracks w b (arg.stored.map some)) Silent := by
  have hnew : Tracks w (new arg.reserve) [] :=
    Tracks.new (Nat.lt_of_lt_of_le arg.reserve_lt (Nat.pow_le_pow_right (by decide) hw))
  cases arg with
  | text s =>
    have hused : (new (Arg.text s).reserve).used = 0 := rfl
    exact hnew.writeBytes (by rw [hused, Nat.zero_add]; exact hlen)
  | missing => exact .of_ok rfl hnew
  | uint32 n => exact .of_ok rfl hnew
  | other => exact .of_ok rfl hnew

/-- **A careful call returns and copies the recorded bytes, and the record stays right.** -/
theorem Method.exec_spec (hw : 32 ≤ w) {s : Session} {c : Call} (h : Matches w s) (hc : Careful w s c) :
    Yields (c.method.exec w s.heap c.self)
      (fun r => r.1 = c.method.seen s.live c.self ∧ Matches w ⟨r.2, c.method.record s.live c.self⟩) Silent := by
  obtain ⟨hall, hwithin⟩ := hc
  obtain ⟨self, method⟩ := c
  dsimp only at hall hwithin ⊢
  -- the writes append what they store
  have hwrite : ∀ bs : List UInt8, Room w s.heap self bs.length →
      Yields (s.heap.change self fun b => b.write w (bs.map some))
        (fun r => r.1 = [] ∧ Matches w ⟨r.2, Fifo.step s.live self (.append (bs.map some))⟩) Silent :=
    fun bs hroom => h.change fun b hb => (h self b hb).writeBytes (hroom b hb)
  cases method with
  | constructor arg => exact (construct_spec hw hwithin).bind fun b hb => .of_ok rfl ⟨rfl, h.set hb⟩
  | writeUtf8 text => exact hwrite _ hwithin
  | writeAscii text => exact h.change fun b hb => (h self b hb).writeAscii (hwithin b hb)
  | writeBuffer src =>
    refine (s.heap.get_spec src).bind fun b hb => ?_
    rw [(h src b hb).size_eq]
    have hseen : (s.live src).take (s.live src).length = s.live src := List.take_length
    refine (h.copy hwithin (by rwa [hseen])).mono fun r hr => ?_
    rw [hseen] at hr
    exact ⟨hr.1, hr.2.1⟩
  | writeInt32 data => exact hwrite _ (by rwa [image_length])
  | writeUint32 data => exact hwrite _ (by rwa [image_length])
  | writeDouble data => exact hwrite _ (by rwa [image_length])
  | zero => exact h.change fun b hb => (h self b hb).zero (hwithin b hb)
  | consume n => exact h.change fun b hb => .of_ok rfl ((h self b hb).consume _)
  | clear => exact h.change fun b hb => .of_ok rfl (h self b hb).clear
  | peekUtf8 n =>
    refine h.answer fun b hb => ?_
    have htrack := h self b hb
    rw [Buffer.peekUtf8, htrack.size_eq]
    exact (htrack.newString (clamp_le _ n) hwithin hall).bind fun data hdata => .of_ok rfl ⟨hdata, htrack⟩
  | readUtf8 n =>
    refine h.answer fun b hb => ?_
    have htrack := h self b hb
    rw [Buffer.readUtf8, htrack.size_eq]
    exact (htrack.newString (clamp_le _ n) hwithin hall).bind fun data hdata => .of_ok rfl ⟨hdata, htrack.consume _⟩
  | peekBuffer dest n =>
    refine (s.heap.get_spec self).bind fun b hb => ?_
    rw [(h self b hb).size_eq]
    exact (h.copy hwithin hall).mono fun r hr => ⟨hr.1, hr.2.1⟩
  | readBuffer dest n =>
    refine (s.heap.get_spec self).bind fun b hb => ?_
    rw [(h self b hb).size_eq]
    refine (h.copy hwithin.1 hall).bind fun r hr => ?_
    obtain ⟨hout, hmatch, hslack⟩ := hr
    refine (r.2.get_spec self).bind fun b' hb' => ?_
    have hfree := hslack _ hwithin.2 b' hb'
    exact .of_ok rfl ⟨hout, hmatch.set ((hmatch self b' hb').commitBlank hfree)⟩
  | read k => exact h.answer fun b hb => (h self b hb).readBytes hwithin.1 hall (hwithin.2 b hb)

theorem exec_keeps (hw : 32 ≤ w) {s : Session} {c : Call} (h : Matches w s) (hc : Careful w s c) : Keeps w s c := by
  refine (Method.exec_spec hw h hc).mono fun r hr => ⟨fun i b hb => ?_, hr.1, hr.1 ▸ hc.1⟩
  have htrack := hr.2 i b hb
  exact ⟨htrack.counters, htrack.room⟩

theorem step_matches (hw : 32 ≤ w) {s s' : Session} {c : Call} (h : Matches w s) (hc : Careful w s c)
    (hs : step w s c = .ok s') : Matches w s' := by
  obtain ⟨⟨out, heap⟩, hexec, hs⟩ := bind_eq_ok.1 hs
  cases hs
  have hspec := Method.exec_spec hw h hc
  exact (hspec.ok hexec).2

/-- **Scripts never see bytes that were not stored**, in any sequence of careful calls. -/
theorem scripts_get_stored_bytes (hw : 32 ≤ w) (calls : List Call) (h : Run.Along (step w) (Careful w) .start calls) :
    Run.Along (step w) (Keeps w) .start calls :=
  Run.along_of_invariant (fun _ _ _ hs hc hstep => step_matches hw hs hc hstep) (fun _ _ hs hc => exec_keeps hw hs hc)
    calls _ Matches.start h

end Run

/-- A string with one byte a unit, blanks for zero bytes. -/
abbrev asciiWriter : AsciiWriter where
  bytes text     := text.map fun u => if u.toUInt8 = 0 then 32 else u.toUInt8
  length_bytes _ := by rw [List.length_map]

theorem scripts_get_stored_bytes_mixed :
    @Run.Along _ _ _ (@step ascii asciiWriter 64) (@Keeps ascii asciiWriter 64) .start
      [⟨0, .constructor .missing⟩, ⟨0, .writeInt32 7⟩, ⟨1, .constructor (.text (js "ab"))⟩, ⟨0, .read .int32⟩,
        ⟨0, .consume 8⟩, ⟨1, .peekBuffer 0 (some 1)⟩, ⟨0, .writeBuffer 0⟩, ⟨0, .readUtf8 none⟩] :=
  @scripts_get_stored_bytes 64 ascii asciiWriter (by decide) _ (by decide +kernel)

/-- A number written and read counts four bytes twice: the buffer overruns its block, and a string of it has bytes that
nothing was stored in. -/
theorem typed_read_overruns :
    ¬ @Run.Along _ _ _ (@step ascii asciiWriter 64) (@Keeps ascii asciiWriter 64) .start
      [⟨0, .constructor (.uint32 4)⟩, ⟨0, .writeInt32 7⟩, ⟨0, .read .int32⟩] ∧
    ¬ @Run.Along _ _ _ (@step ascii asciiWriter 64) (@Keeps ascii asciiWriter 64) .start
      [⟨0, .constructor .missing⟩, ⟨0, .writeInt32 7⟩, ⟨0, .read .int32⟩, ⟨0, .peekUtf8 none⟩] := by
  refine ⟨fun h => ?_, fun h => ?_⟩
  · obtain ⟨s, hs, hlast⟩ := Run.exists_of_any (x := [⟨0, .constructor (.uint32 4)⟩, ⟨0, .writeInt32 7⟩].foldlM
      (@step ascii asciiWriter 64) .start) (p := fun s : Session =>
        (@Method.exec ascii asciiWriter 64 s.heap 0 (.read .int32)).toOption.any fun r =>
          (r.2 0).any fun b => decide (b.reserve < b.used)) (by decide +kernel)
    obtain ⟨r, hr, hb⟩ := Run.exists_of_any hlast
    obtain ⟨b, hmem, hover⟩ := (Option.any_eq_true _ _).1 hb
    have hrest : @Run.Along _ _ _ (@step ascii asciiWriter 64) (@Keeps ascii asciiWriter 64) s
        [⟨0, .read .int32⟩] := Run.Along.right h hs
    have hkeeps := hrest.1.ok hr
    exact absurd (hkeeps.1 0 b hmem).2 (Nat.not_le.2 (of_decide_eq_true hover))
  · obtain ⟨s, hs, hlast⟩ := Run.exists_of_any (x := [⟨0, .constructor .missing⟩, ⟨0, .writeInt32 7⟩,
      ⟨0, .read .int32⟩].foldlM (@step ascii asciiWriter 64) .start) (p := fun s : Session =>
        match @Method.exec ascii asciiWriter 64 s.heap 0 (.peekUtf8 none) with
        | .ok _        => false
        | .error fault => decide (fault = .indeterminate)) (by decide +kernel)
    cases hr : @Method.exec ascii asciiWriter 64 s.heap 0 (.peekUtf8 none) with
    | ok r =>
      rw [hr] at hlast
      cases hlast
    | error fault =>
      rw [hr] at hlast
      have hrest : @Run.Along _ _ _ (@step ascii asciiWriter 64) (@Keeps ascii asciiWriter 64) s
          [⟨0, .peekUtf8 none⟩] := Run.Along.right h hs
      have hsilent := hrest.1.error hr
      rw [of_decide_eq_true hlast] at hsilent
      rcases hsilent with hsilent | hsilent <;> cases hsilent

end Buffer
end V8h
