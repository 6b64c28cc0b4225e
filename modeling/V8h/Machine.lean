import V8h.Buffer
import V8h.Js
import V8h.Service
/-!
# Machine — the state of a running script, and the kernel's side of it

The objects the scripts of `core/` and `net/` work on, and the open sockets of the process.  The closures a script
creates are data here, one constructor for each place of the source that creates one, and a call in tail position is a
`Task` that is returned instead of made.  `size_t` has 64 bits.  What the kernel answers to a call is a parameter,
`Answers`.
-/
namespace V8h

/-- A script object of class `Buffer`: its internal pointer, and the properties `pushed` and `temporary`. -/
structure BufferObj where
  native    : Option Buffer
  pushed    : Bool
  temporary : Bool

/-- `BufferPool`, with the buffer pushed last first. -/
structure BufferPool where
  limit              : Nat
  bufferReserveLimit : Nat
  buffers            : List Nat

/-- The functions of `http.coffee`, and of user code, that are passed as callbacks. -/
inductive Cont where
  | user (id : Nat)
  | accepted
  | header (client : Nat)
  | body (client : Nat)
  | part (client : Nat)
  | partEnd (client : Nat)
  | partHeader (client : Nat)
  | lastPart (client : Nat)
  | flushed (client : Nat)
  | ended (client : Nat)
deriving DecidableEq

/-- The closures `socket.coffee` makes of a caller's callback; `last` is the variable `readToken` captures. -/
inductive Closure where
  | plain (callback : Cont)
  | size (size : Option Int) (callback : Cont)
  | token (deliBufferSize : Nat) (last : Nat) (callback : Cont)
deriving DecidableEq

/-- The caller's callback. -/
def Closure.callback : Closure → Cont
  | .plain callback | .size _ callback | .token _ _ callback => callback

/-- The conditions given to `readUntil` and `writeUntil`; what a condition of user code answers is in a variable. -/
inductive Cond where
  | user (answer : Nat)
  | size (size : Option Int)
  | token (deliBuffer : Nat) (deliBufferSize : Nat) (last : Nat)
deriving DecidableEq

/-- The functions registered with the service. -/
inductive Callback where
  | user (id : Nat)
  | empty
  | readUntil (fd : Int) (buffer : Nat) (condition : Cond) (callback : Closure)
  | writeUntil (fd : Int) (buffer : Nat) (condition : Cond) (callback : Cont)
  | writeBuffer (fd : Int) (buffer : Nat) (callback : Cont)
  | connect (callback : Cont)
  | acceptTcp (fd : Int) (callback : Cont)
  | autoClose (fd : Int)
  | clientError (client : Nat)
deriving DecidableEq

/-- A call in tail position. -/
inductive Task where
  | call (callback : Callback)
  | invoke (callback : Cont) (arg : Int)
  | triggerError (fd : Int)
  | handler (client : Nat) (req : Request)
deriving DecidableEq

/-- The fields of a `Client`; `closed` is no field of the source, it records that `close` has run. -/
structure Client where
  fd            : Int
  buffer        : Nat
  boundary      : Option Nat
  req           : Request
  isClosed      : Bool
  contentLength : Option Int
  closed        : Bool

inductive Errno where
  | again
  | badFd
  | netDown
  | other (n : Nat)
deriving DecidableEq

/-- The sockets of the process: each open fd is a connection, and `sent` is what was accepted for sending on it. -/
structure Kernel where
  conn     : Int → Option Nat
  nextConn : Nat
  sent     : Nat → List UInt8
  errno    : Errno

/-- `pushes` is no part of the source: it lists the buffers given to `$bufferPool.push`, the last first. -/
structure Machine where
  service    : Service Callback
  heap       : Nat → BufferObj
  nextBuffer : Nat
  vars       : Nat → Int
  nextVar    : Nat
  pool       : BufferPool
  clients    : Nat → Option Client
  nextClient : Nat
  kernel     : Kernel
  pushes     : List Nat

inductive JsError where
  | error (message : JsString)
  | typeError
  | rangeError
deriving DecidableEq

/-- What ends a call without a value. -/
inductive Stop where
  | throw (e : JsError)
  | trap (t : Trap)
deriving DecidableEq

abbrev M := EStateM Stop Machine

/-- What `recv` answers: the bytes the peer has sent, or an error; no bytes is the end of the stream. -/
inductive Recv where
  | data (bytes : List UInt8)
  | error (e : Errno)

/-- What `send` answers: `accept n` takes `n + 1` of the bytes, or all of them when there are fewer. -/
inductive Send where
  | accept (n : Nat)
  | error (e : Errno)
deriving DecidableEq

/-- What the kernel answers to the calls of one task; when `sends` is used up, `send` answers `EAGAIN`. -/
structure Answers where
  recv   : Recv
  sends  : List Send
  accept : Option Int

/-- The peer has sent nothing, and nothing can be sent. -/
def Answers.silent : Answers := ⟨.data [], [], none⟩

namespace Machine

/-- The state before the first script runs. -/
def empty : Machine where
  service    := Service.new
  heap       := fun _ => ⟨none, false, false⟩
  nextBuffer := 0
  vars       := fun _ => 0
  nextVar    := 0
  pool       := ⟨100, 1024 * 1024, []⟩
  clients    := fun _ => none
  nextClient := 0
  kernel     := ⟨fun _ => none, 0, fun _ => [], .other 0⟩
  pushes     := []

def native (id : Nat) : M Buffer := fun m =>
  match (m.heap id).native with
  | none   => .error (.trap .null) m
  | some b => .ok b m

def setNative (id : Nat) (b : Buffer) : M Unit := fun m =>
  .ok () { m with heap := Function.update m.heap id { m.heap id with native := some b } }

def lift {α : Type} (x : Except Trap α) : M α := fun m =>
  match x with
  | .error t => .error (.trap t) m
  | .ok a    => .ok a m

/-- `new Buffer(reserve)`. -/
def newBuffer (reserve : Nat) : M Nat := fun m =>
  .ok m.nextBuffer { m with
    heap := Function.update m.heap m.nextBuffer ⟨some (Buffer.new reserve), false, false⟩
    nextBuffer := m.nextBuffer + 1 }

def newVar (x : Int) : M Nat := fun m =>
  .ok m.nextVar { m with vars := Function.update m.vars m.nextVar x, nextVar := m.nextVar + 1 }

def getVar (x : Nat) : M Int := fun m => .ok (m.vars x) m

def setVar (x : Nat) (v : Int) : M Unit := fun m => .ok () { m with vars := Function.update m.vars x v }

/-- The fields of an object that is not there are `undefined`, and using them throws. -/
def client (k : Nat) : M Client := fun m =>
  match m.clients k with
  | none   => .error (.throw .typeError) m
  | some c => .ok c m

def modifyClient (k : Nat) (f : Client → Client) : M Unit := fun m =>
  .ok () { m with clients := Function.update m.clients k ((m.clients k).map f) }

def setErrno (e : Errno) : M Unit := fun m => .ok () { m with kernel := { m.kernel with errno := e } }

/-- `service.in`, `service.out`, `service.del` and `service.error`. -/
def serviceIn (fd : Int) (callback : Callback) : M Unit := fun m =>
  .ok () { m with service := (m.service.pollIn fd callback).1 }

def serviceOut (fd : Int) (callback : Callback) : M Unit := fun m =>
  .ok () { m with service := (m.service.pollOut fd callback).1 }

def serviceDel (fd : Int) : M Unit := fun m => .ok () { m with service := (m.service.del fd).1 }

def serviceError (fd : Int) (callback : Callback) : M Unit := fun m =>
  .ok () { m with service := m.service.error fd callback }

end Machine
end V8h
