import V8h.Machine
import V8h.Lib.Effect
/-!
# ScriptBuffer — `Buffer` as scripts call it, and `$bufferPool`

The `V8H_FUNCTION`s of `buffer.cc` take and return JavaScript numbers: an argument goes through `TO_UINT`, a result
through `V8_UINT` or `V8H_RETURN_INT`.  A method of a buffer that was closed reads through a null pointer.
-/
namespace V8h

/-- The bytes before the first zero byte from `data()` on, which is what a length below 0 stands
for in `String::New`. -/
def Buffer.cString (b : Buffer) : Except Trap (List UInt8) := do
  let cells ← b.load b.cursor (b.reserve - b.cursor)
  if some 0 ∈ cells then
    determinate (cells.takeWhile (· ≠ some 0))
  else
    throw .outOfBounds

namespace Script

open Machine Effect

def size (buffer : Nat) : M Nat := do return toUint (← native buffer).size

def reserve (buffer : Nat) : M Nat := do return toUint (← native buffer).reserve

def clear (buffer : Nat) : M Unit := do setNative buffer (← native buffer).clear

def consume (buffer : Nat) (n : Int) : M Unit := do setNative buffer ((← native buffer).consume 64 (toUint n))

/-- `Buffer::read_utf8` with a size. -/
def readUtf8 [V8] (buffer : Nat) (n : Int) : M JsString := do
  let b ← native buffer
  let n := if toUint n > b.size then b.size else toUint n
  let rt ← lift (if toInt n < 0 then b.cString else b.peek n)
  setNative buffer (b.consume 64 n)
  return V8.fromUtf8 rt

/-- `Buffer::write_utf8`. -/
def writeUtf8 [V8] (buffer : Nat) (text : JsString) : M Unit := do
  let b ← native buffer
  setNative buffer (← lift (b.write 64 ((V8.utf8 text).map some)))

/-- `Buffer::partial_find_buffer`. -/
def partialFindBuffer (buffer needle : Nat) (offset : Int) : M Int := do
  lift ((← native buffer).partialFind 64 (← native needle) (toUint offset))

/-- `Buffer::close`. -/
def close (buffer : Nat) : M Unit := fun m =>
  .ok () { m with heap := Function.update m.heap buffer { m.heap buffer with native := none } }

/-- `Buffer::isFound` of `buffer.coffee`. -/
def isFound (buffer : Nat) (last : Int) (delimBufferSize : Nat) : M Bool := do
  return last + delimBufferSize ≤ (← size buffer)

theorem clear_run (buffer : Nat) (m : Machine) : clear buffer m =
    match (m.heap buffer).native with
    | none   => .error (.trap .null) m
    | some b => .ok () { m with
        heap := Function.update m.heap buffer { m.heap buffer with native := some b.clear } } := by
  simp only [clear, bind_run, native]
  cases (m.heap buffer).native <;> rfl

end Script

namespace BufferPool

open Machine Effect

/-- What `push` tests: `||` asks for `reserve()` only when the pool is not over its limit. -/
def overLimit (buffer : Nat) : M Bool := do
  let pool := (← get).pool
  if pool.buffers.length > pool.limit then
    return true
  return (← Script.reserve buffer) > pool.bufferReserveLimit

/-- `$bufferPool.push`. -/
def push (buffer : Nat) : M Unit := do
  modify fun m => { m with pushes := buffer :: m.pushes }
  if ((← get).heap buffer).pushed then
    return
  if ← overLimit buffer then
    Script.close buffer
  else
    modify fun m => { m with
      heap := Function.update m.heap buffer { m.heap buffer with pushed := true }
      pool := { m.pool with buffers := buffer :: m.pool.buffers } }

/-- `$bufferPool.pop`. -/
def pop : M Nat := do
  match (← get).pool.buffers with
  | []                => newBuffer 512
  | buffer :: buffers =>
    modify fun m => { m with
      heap := Function.update m.heap buffer { m.heap buffer with pushed := false }
      pool := { m.pool with buffers := buffers } }
    Script.clear buffer
    return buffer

/-- `push` closes a buffer that is too large, or that comes when the pool is over its limit. -/
def Refuses (m : Machine) (b : Buffer) : Prop :=
  m.pool.buffers.length > m.pool.limit ∨ toUint b.reserve > m.pool.bufferReserveLimit

instance (m : Machine) (b : Buffer) : Decidable (Refuses m b) := inferInstanceAs (Decidable (_ ∨ _))

/-- What the test gives: a closed buffer is asked for its reservation unless the pool is over its limit. -/
theorem overLimit_run (buffer : Nat) (m : Machine) : overLimit buffer m =
    if m.pool.buffers.length > m.pool.limit then .ok true m
    else match (m.heap buffer).native with
      | none   => .error (.trap .null) m
      | some b => .ok (decide (toUint b.reserve > m.pool.bufferReserveLimit)) m := by
  simp only [overLimit, bind_run, get_run, ite_run, pure_run, Script.reserve, native]
  split
  · rfl
  · cases (m.heap buffer).native <;> rfl

theorem push_run {m : Machine} {buffer : Nat} {b : Buffer} (hb : (m.heap buffer).native = some b) :
    push buffer m = .ok ()
    (if (m.heap buffer).pushed then { m with pushes := buffer :: m.pushes }
    else if Refuses m b then { m with
      pushes := buffer :: m.pushes, heap := Function.update m.heap buffer { m.heap buffer with native := none } }
    else { m with
      pushes := buffer :: m.pushes
      heap   := Function.update m.heap buffer { m.heap buffer with pushed := true }
      pool   := { m.pool with buffers := buffer :: m.pool.buffers } }) := by
  simp only [push, bind_run, modify_run, get_run, ite_run, overLimit_run, hb, pure_run]
  by_cases hpushed : (m.heap buffer).pushed = true
  · rw [if_pos hpushed, if_pos hpushed]
  rw [if_neg hpushed, if_neg hpushed]
  by_cases hfull : m.pool.buffers.length > m.pool.limit
  · have hrefuse : Refuses m b := .inl hfull
    simp only [if_pos hfull, if_pos hrefuse]
    rfl
  · have hiff : Refuses m b ↔ toUint b.reserve > m.pool.bufferReserveLimit := or_iff_right hfull
    by_cases hlarge : toUint b.reserve > m.pool.bufferReserveLimit
    · simp only [if_neg hfull, hiff, hlarge, decide_true, if_true]
      rfl
    · simp only [if_neg hfull, hiff, hlarge, decide_false, Bool.false_eq_true, if_false, hb]

theorem push_closed {m : Machine} {buffer : Nat} (hb : (m.heap buffer).native = none) :
    push buffer m =
    if (m.heap buffer).pushed then .ok () { m with pushes := buffer :: m.pushes }
    else if m.pool.buffers.length > m.pool.limit then .ok () { m with
      pushes := buffer :: m.pushes, heap := Function.update m.heap buffer { m.heap buffer with native := none } }
    else .error (.trap .null) { m with pushes := buffer :: m.pushes } := by
  simp only [push, bind_run, modify_run, get_run, ite_run, overLimit_run, hb, pure_run]
  by_cases hfull : m.pool.buffers.length > m.pool.limit
  · simp only [if_pos hfull]
    rfl
  · simp only [if_neg hfull]

/-- What `pop` does: the buffer pushed last, cleared, or a new one. -/
theorem pop_run (m : Machine) : pop m =
    match m.pool.buffers with
    | []      => .ok m.nextBuffer { m with
        heap := Function.update m.heap m.nextBuffer ⟨some (Buffer.new 512), false, false⟩
        nextBuffer := m.nextBuffer + 1 }
    | b :: bs =>
      match (m.heap b).native with
      | none    => .error (.trap .null) { m with
          heap := Function.update m.heap b { m.heap b with pushed := false }, pool := { m.pool with buffers := bs } }
      | some nb => .ok b { m with
          heap := Function.update m.heap b ⟨some nb.clear, false, (m.heap b).temporary⟩
          pool := { m.pool with buffers := bs } } := by
  cases hp : m.pool.buffers with
  | nil => simp only [pop, bind_run, get_run, hp, newBuffer]
  | cons b bs =>
    cases hn : (m.heap b).native with
    | none =>
      simp only [pop, bind_run, get_run, modify_run, hp, Script.clear, native, Function.update_self, hn]
    | some nb =>
      simp only [pop, bind_run, get_run, modify_run, pure_run, hp, Script.clear, native, setNative,
        Function.update_self, hn, Function.update_idem]

end BufferPool
end V8h
