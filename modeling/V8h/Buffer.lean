import V8h.Algorithm
import V8h.Lib.Block
/-!
# Buffer — the native byte buffer

The class `Buffer` as `buffer.cc` computes it: a block `data_` of `reserve_` cells, the visible bytes at
`[cursor_, cursor_ + size_)` and the fill mark `used_`.  Counters are `size_t`, so their additions wrap at `2 ^ w`.
Every load and store is checked against the block, and the growth loop of `prepare` runs on a fuel of `2 ^ w` steps:
`reserve` has `2 ^ w` values, so a loop that has not exited by then never exits.
-/
namespace V8h

structure Buffer where
  data    : Block UInt8
  cursor  : Nat
  size    : Nat
  used    : Nat
  reserve : Nat

namespace Buffer

variable (w : Nat)

/-- `Buffer::Buffer`. -/
def new (reserve : Nat) : Buffer := ⟨Block.malloc reserve, 0, 0, 0, reserve⟩

/-- `Buffer::realloc`, which succeeds and keeps the old bytes. -/
def realloc (b : Buffer) (size : Nat) : Buffer := { b with data := b.data.realloc size, reserve := size }

/-- The cells at `[pos, pos + n)` of the block. -/
def load (b : Buffer) (pos n : Nat) : Except Trap (List Cell) :=
  match b.data.load pos n with
  | none     => .error .outOfBounds
  | some src => .ok src

/-- `src` stored at `pos` of the block. -/
def store (b : Buffer) (pos : Nat) (src : List Cell) : Except Trap Buffer :=
  match b.data.store pos src with
  | none      => .error .outOfBounds
  | some data => .ok { b with data := data }

/-- The loop of `prepare`: `while (used_ + n > reserve) reserve *= 3;`. -/
def growReserve (need : Nat) : Nat → Nat → Option Nat
  | 0,        _       => none
  | fuel + 1, reserve => if need > reserve then growReserve need fuel (sizeT w (reserve * 3)) else some reserve

/-- The size `prepare` reallocates to, if it does. -/
def grown (used reserve n : Nat) : Except Trap (Option Nat) :=
  match growReserve w (sizeT w (used + n)) (2 ^ w) reserve with
  | none   => .error .diverge
  | some r => .ok (if r > reserve then some r else none)

/-- `Buffer::prepare`; the pointer it returns is `data_ + used_`. -/
def prepare (b : Buffer) (n : Nat) : Except Trap Buffer := do
  match ← grown w b.used b.reserve n with
  | none         => return b
  | some reserve => return b.realloc reserve

def commit (b : Buffer) (n : Nat) : Buffer :=
  { b with size := sizeT w (b.size + n), used := sizeT w (b.used + n) }

def clear (b : Buffer) : Buffer := { b with cursor := 0, size := 0, used := 0 }

def consume (b : Buffer) (n : Nat) : Buffer :=
  let n := if b.size < n then b.size else n
  let b := { b with cursor := sizeT w (b.cursor + n), size := b.size - n }
  if b.size = 0 then b.clear else b

/-- `Buffer::sweep`: the `memmove` loads all of the visible bytes before it stores them. -/
def sweep (b : Buffer) : Except Trap Buffer := do
  let src ← b.load b.cursor b.size
  let b ← b.store 0 src
  return { b with cursor := 0, used := b.size }

/-- `Buffer::remain`: the difference of two `size_t`. -/
def remain (b : Buffer) : Nat := sizeT w (2 ^ w - b.used + b.reserve)

def zero (b : Buffer) : Except Trap Buffer := do
  let b ← b.prepare w 1
  b.store b.used [some 0]

/-- `Buffer::write(const void *data, size_t n)`. -/
def write (b : Buffer) (src : List Cell) : Except Trap Buffer := do
  let b ← b.prepare w src.length
  let b ← b.store b.used src
  return b.commit w src.length

/-- `Buffer::write(Buffer *buffer, size_t n)`, from another buffer. -/
def writeBuffer (b src : Buffer) (n : Nat) : Except Trap Buffer := do
  let n := if n > src.size then src.size else n
  b.write w (← src.load src.cursor n)

def writeInt32 (b : Buffer) (data : BitVec 32) : Except Trap Buffer := b.write w ((image 4 data.toNat).map some)

def writeUint32 (b : Buffer) (data : BitVec 32) : Except Trap Buffer := b.write w ((image 4 data.toNat).map some)

def writeInt64 (b : Buffer) (data : BitVec 64) : Except Trap Buffer := b.write w ((image 8 data.toNat).map some)

def writeDouble (b : Buffer) (data : BitVec 64) : Except Trap Buffer := b.write w ((image 8 data.toNat).map some)

/-- `Buffer::read`: the bytes copied to `dest`, and the buffer left. -/
def read (b : Buffer) (size : Nat) : Except Trap (List Cell × Buffer) := do
  let size := min size b.size
  let dest ← b.load b.cursor size
  return (dest, b.commit w size)

/-- A machine word read into an uninitialised local of `k` bytes. -/
def readWord (n k : Nat) (b : Buffer) : Except Trap (BitVec n × Buffer) := do
  let (dest, b) ← b.read w k
  let bytes ← determinate (dest ++ List.replicate (k - dest.length) none)
  return (BitVec.ofNat n (wordOf bytes), b)

def readDouble (b : Buffer) : Except Trap (BitVec 64 × Buffer) := b.readWord w 64 8

def readUint32 (b : Buffer) : Except Trap (BitVec 32 × Buffer) := b.readWord w 32 4

def readInt32 (b : Buffer) : Except Trap (BitVec 32 × Buffer) := b.readWord w 32 4

def readInt64 (b : Buffer) : Except Trap (BitVec 64 × Buffer) := b.readWord w 64 8

/-- The first `n` visible bytes, as a reader of `data()` gets them. -/
def peek (b : Buffer) (n : Nat) : Except Trap (List UInt8) := do
  determinate (← b.load b.cursor n)

/-- `Buffer::partial_find`: an `int`, computed as a `size_t` sum. -/
def partialFind (b needle : Buffer) (offset : Nat) : Except Trap Int := do
  if needle.size = 0 then
    return toInt offset
  else if offset ≥ b.size then
    return toInt b.size
  else
    let haystack ← determinate (← b.load (b.cursor + offset) (b.size - offset))
    match V8h.partialFind haystack (← needle.peek needle.size) with
    | none     => throw .outOfBounds
    | some pos => return toInt ((pos + offset) % 2 ^ w)

end Buffer
end V8h
