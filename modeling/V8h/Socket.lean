import V8h.ScriptBuffer
/-!
# Socket — `socket.cc` and the operations of `socket.coffee`

The native calls, each with what the kernel answers to it, and the operations on top of them.  An operation registers a
closure for the fd and ends, or ends in a call of its callback, which is the `Task` it returns.
-/
namespace V8h
namespace Socket

open Machine

/-! ## Native calls -/

/-- `recv` of at most `n` bytes: the bytes stored, or `none` for -1. -/
def recv (ans : Answers) (fd : Int) (n : Nat) : M (Option (List UInt8)) := fun m =>
  match m.kernel.conn fd, ans.recv with
  | none,   _           => .ok none { m with kernel := { m.kernel with errno := .badFd } }
  | some _, .error e    => .ok none { m with kernel := { m.kernel with errno := e } }
  | some _, .data bytes => .ok (some (bytes.take n)) m

/-- `send` of `data`, the number of bytes accepted, or -1. -/
def send (fd : Int) (data : List UInt8) (answer : Send) : M Int := fun m =>
  match m.kernel.conn fd, answer with
  | none,   _         => .ok (-1) { m with kernel := { m.kernel with errno := .badFd } }
  | some _, .error e  => .ok (-1) { m with kernel := { m.kernel with errno := e } }
  | some c, .accept n =>
    let accepted := data.take (n + 1)
    .ok accepted.length
      { m with kernel := { m.kernel with sent := Function.update m.kernel.sent c (m.kernel.sent c ++ accepted) } }

/-- `Socket::_close`. -/
def _close (fd : Int) : M Unit := fun m =>
  .ok () { m with kernel := { m.kernel with conn := Function.update m.kernel.conn fd none } }

/-- `Socket::_accept_tcp`: the kernel gives a number that is not in use. -/
def _acceptTcp (ans : Answers) (server : Int) : M (Option Int) := fun m =>
  match m.kernel.conn server, ans.accept with
  | some _, some fd =>
    if (m.kernel.conn fd).isSome then .ok none m
    else .ok (some fd) { m with kernel := { m.kernel with
      conn := Function.update m.kernel.conn fd (some m.kernel.nextConn), nextConn := m.kernel.nextConn + 1 } }
  | _, _ => .ok none m

/-- `Socket::_read_buffer`: the result of `recv` is a `size_t`, so -1 is committed as a size. -/
def _readBuffer (ans : Answers) (fd : Int) (buffer : Nat) : M Int := do
  let b ← lift ((← native buffer).prepare 64 8192)
  setNative buffer b
  match ← recv ans fd (b.remain 64) with
  | none       =>
    setNative buffer (b.commit 64 (sizeMax 64))
    return -1
  | some []    =>
    setErrno .netDown
    return -1
  | some bytes =>
    let b ← lift (b.store b.used (bytes.map some))
    setNative buffer (b.commit 64 bytes.length)
    return toInt bytes.length

/-- The loop of `Socket::_write_buffer`, with its variable `n`, an `int`. -/
def writeLoop (fd : Int) (buffer : Nat) (n : Int) (answers : List Send) : M Int := do
  let b ← native buffer
  if b.size = 0 then
    return n
  let data ← lift (b.peek b.size)
  match answers with
  | []                =>
    let _ ← send fd data (.error .again)
    return if (← get).kernel.errno = .again then 0 else -1
  | answer :: answers =>
    let n := toInt (← send fd data answer)
    if n > 0 then
      setNative buffer (b.consume 64 n.toNat)
      writeLoop fd buffer n answers
    else if n = -1 then
      return if (← get).kernel.errno = .again then 0 else -1
    else
      writeLoop fd buffer n answers

/-- `Socket::_write_buffer`. -/
def _writeBuffer (ans : Answers) (fd : Int) (buffer : Nat) : M Int := writeLoop fd buffer 0 ans.sends

/-! ## `$triggerError`, `Socket.close` -/

/-- `$triggerError`. -/
def triggerError (fd : Int) : M (Option Task) := do
  match (← get).service.fdsError fd with
  | none          => throw (.throw (.error (js "missing error callback")))
  | some callback => return some (.call callback)

def close (fd : Int) : M Unit := do
  serviceDel fd
  _close fd

def autoCloseOnError (fd : Int) : M Unit := serviceError fd (.autoClose fd)

/-! ## Reading -/

/-- `condition()`. -/
def condition (buffer : Nat) : Cond → M Bool
  | .user answer => do return (← getVar answer) ≠ 0
  | .size size => do
    let n ← Script.size buffer
    return size.any fun size => decide ((n : Int) ≥ size)
  | .token deliBuffer deliBufferSize last => do
    setVar last (← Script.partialFindBuffer buffer deliBuffer (← getVar last))
    Script.isFound buffer (← getVar last) deliBufferSize

/-- `callback()`, where the callback is one of the closures of this file. -/
def callBack : Closure → M Task
  | .plain callback                     => return .invoke callback 0
  | .size size callback                 => return .invoke callback (size.getD 0)
  | .token deliBufferSize last callback => do return .invoke callback ((← getVar last) + deliBufferSize)

def readUntil (fd : Int) (buffer : Nat) (cond : Cond) (callback : Closure) : M (Option Task) := do
  serviceIn fd (.readUntil fd buffer cond callback)
  if ← condition buffer cond then
    return some (← callBack callback)
  else
    return none

/-- The closure `readUntil` registers. -/
def onReadable (ans : Answers) (fd : Int) (buffer : Nat) (cond : Cond) (callback : Closure) : M (Option Task) := do
  let n ← _readBuffer ans fd buffer
  if n = -1 then
    return some (.triggerError fd)
  else if ← condition buffer cond then
    return some (← callBack callback)
  else
    return none

def readSize (fd : Int) (buffer : Nat) (size : Option Int) (callback : Cont) : M (Option Task) := do
  if ← condition buffer (.size size) then
    return some (← callBack (.size size callback))
  else
    readUntil fd buffer (.size size) (.size size callback)

def readToken (fd : Int) (buffer deliBuffer : Nat) (callback : Cont) : M (Option Task) := do
  let deliBufferSize ← Script.size deliBuffer
  if deliBufferSize = 0 then
    return some (.invoke callback 0)
  else
    let last ← newVar 0
    readUntil fd buffer (.token deliBuffer deliBufferSize last) (.token deliBufferSize last callback)

/-! ## Writing -/

/-- A temporary buffer goes back to the pool, once. -/
def release (buffer : Nat) : M Unit := do
  if ((← get).heap buffer).temporary then
    modify fun m => { m with heap := Function.update m.heap buffer { m.heap buffer with temporary := false } }
    BufferPool.push buffer

/-- `condition()` is not asked when the write failed. -/
def writeUntilOnce (ans : Answers) (fd : Int) (buffer : Nat) (cond : Cond) (callback : Cont) : M (Option Task) := do
  let n ← _writeBuffer ans fd buffer
  if ← if n = -1 then pure true else condition buffer cond then
    release buffer
    if n = -1 then
      return some (.triggerError fd)
    else
      return some (.invoke callback 0)
  else
    return none

def writeUntil (fd : Int) (buffer : Nat) (cond : Cond) (callback : Cont) : M Unit :=
  serviceOut fd (.writeUntil fd buffer cond callback)

/-- `Socket.writeBuffer`.  `c.EAGAIN` is not defined, so `c.errno != c.EAGAIN` holds always. -/
def writeBuffer (ans : Answers) (fd : Int) (buffer : Nat) (callback : Cont) : M (Option Task) := do
  serviceOut fd .empty
  let n ← _writeBuffer ans fd buffer
  let size ← Script.size buffer
  if n = -1 ∨ size = 0 then
    release buffer
    if size = 0 then
      return some (.invoke callback 0)
    else
      return some (.triggerError fd)
  else
    serviceOut fd (.writeBuffer fd buffer callback)
    return none

def writeUtf8 [V8] (ans : Answers) (fd : Int) (text : JsString) (callback : Cont) : M (Option Task) := do
  let buffer ← BufferPool.pop
  Script.writeUtf8 buffer text
  modify fun m => { m with heap := Function.update m.heap buffer { m.heap buffer with temporary := true } }
  writeBuffer ans fd buffer callback

/-! ## Connecting -/

/-- `connect`, with the error it ends with: to which address is up to the kernel. -/
def _connect (answer : Option Errno) : M Int :=
  match answer with
  | none   => return 0
  | some e => do
    setErrno e
    return -1

def connectUnix (answer : Option Errno) (fd : Int) (callback : Cont) : M Int := do
  serviceOut fd (.connect callback)
  _connect answer

def connectTcp (answer : Option Errno) (fd : Int) (callback : Cont) : M Int := do
  serviceOut fd (.connect callback)
  _connect answer

/-! ## Accepting -/

/-- The closure `acceptTcp` registers. -/
def onAcceptable (ans : Answers) (fd : Int) (callback : Cont) : M (Option Task) := do
  match ← _acceptTcp ans fd with
  | none        => return some (.triggerError fd)
  | some client => return some (.invoke callback client)

def acceptTcp (fd : Int) (callback : Cont) : M Unit := serviceIn fd (.acceptTcp fd callback)

end Socket
end V8h
