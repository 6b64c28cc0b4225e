import V8h.Socket
/-!
# Http — `Client` and `Server` of `http.coffee`, and the tasks they are made of

A `Client` reads a header, and a body when one is announced, into the same buffer its replies are written from.  Its
methods are here under their names; what each passes as a callback is a `Cont`, and `runTask` is what calling one does.
-/
namespace V8h

open Machine Effect

/-- `Client.headerDelim` and `Client.boundaryDelim`, the first two buffers made. -/
def headerDelim : Nat := 0

def boundaryDelim : Nat := 1

namespace Client

variable [V8]

/-- The constructor. -/
def new (fd : Int) : M Nat := do
  let k := (← get).nextClient
  serviceError fd (.clientError k)
  let buffer ← BufferPool.pop
  modify fun m => { m with
    clients := Function.update m.clients k (some ⟨fd, buffer, none, ⟨none, none, []⟩, false, none, false⟩)
    nextClient := k + 1 }
  return k

def close (k : Nat) : M Unit := do
  let c ← client k
  BufferPool.push c.buffer
  if let some boundary := c.boundary then
    BufferPool.push boundary
  Socket.close c.fd
  modifyClient k fun c => { c with closed := true }

def recvHeader (k : Nat) : M (Option Task) := do
  let c ← client k
  Script.clear c.buffer
  Socket.readToken c.fd c.buffer headerDelim (.header k)

def start (k : Nat) : M (Option Task) := recvHeader k

def process (k : Nat) : M (Option Task) := do
  let c ← client k
  Script.clear c.buffer
  return some (.handler k c.req)

def recvMultiPart (k : Nat) : M (Option Task) := do
  let c ← client k
  match c.boundary with
  | none          => throw (.throw .typeError)
  | some boundary => Socket.readToken c.fd c.buffer boundary (.part k)

def recvBody (k : Nat) : M (Option Task) := do
  let c ← client k
  match c.req.header.get (js "Content-Type") with
  | none             => throw (.throw .typeError)
  | some contentType =>
    if contentType.isMultipart then
      match contentType.boundaryOf with
      | none   =>
        close k
        return none
      | some m =>
        let boundary ← BufferPool.pop
        modifyClient k fun c => { c with boundary := some boundary }
        Script.writeUtf8 boundary (js "--" ++ m)
        recvMultiPart k
    else
      Socket.readSize c.fd c.buffer c.contentLength (.body k)

/-- The callback of `recvHeader`. -/
def onHeader (k : Nat) (n : Int) : M (Option Task) := do
  let c ← client k
  let req := Helper.parseHeader (← Script.readUtf8 c.buffer n)
  modifyClient k fun c => { c with
    req := req
    isClosed := !(req.header.get (js "Connection")).any (·.toLowerCase = js "keep-alive") }
  match req.header.get (js "Content-Length") with
  | some contentLength =>
    modifyClient k fun c => { c with contentLength := contentLength.parseInt }
    recvBody k
  | none               => process k

/-- The callbacks of `recvMultiPart`, the outermost first. -/
def onPart (k : Nat) (n : Int) : M (Option Task) := do
  let c ← client k
  Script.consume c.buffer n
  Socket.readSize c.fd c.buffer (some 2) (.partEnd k)

def onPartEnd (k : Nat) : M (Option Task) := do
  let c ← client k
  let str ← Script.readUtf8 c.buffer 2
  if str = js "\r\n" then
    Socket.readToken c.fd c.buffer headerDelim (.partHeader k)
  else
    Socket.readToken c.fd c.buffer boundaryDelim (.lastPart k)

def onPartHeader (k : Nat) (n : Int) : M (Option Task) := do
  let c ← client k
  let _header ← Script.readUtf8 c.buffer n
  recvMultiPart k

def write (k : Nat) (text : JsString) : M Unit := do
  Script.writeUtf8 (← client k).buffer text

def flush (ans : Answers) (k : Nat) : M (Option Task) := do
  let c ← client k
  Socket.writeBuffer ans c.fd c.buffer (.flushed k)

/-- `end`. -/
def finish (ans : Answers) (k : Nat) : M (Option Task) := do
  let c ← client k
  Socket.writeBuffer ans c.fd c.buffer (.ended k)

/-- The callback of `end`. -/
def onEnded (k : Nat) : M (Option Task) := do
  if (← client k).isClosed then
    close k
    return none
  else
    start k

omit [V8] in
theorem new_run (fd : Int) (m : Machine) : new fd m =
    match BufferPool.pop { m with service := m.service.error fd (.clientError m.nextClient) } with
    | .error e m' => .error e m'
    | .ok b m'    => .ok m.nextClient { m' with
      clients := Function.update m'.clients m.nextClient (some ⟨fd, b, none, ⟨none, none, []⟩, false, none, false⟩)
      nextClient := m.nextClient + 1 } := by
  simp only [new, bind_run, get_run, modify_run, pure_run, serviceError]
  cases BufferPool.pop { m with service := m.service.error fd (.clientError m.nextClient) } <;> rfl

end Client

namespace Server

/-- `Server.listen` once `createTcp` gave the fd `server`; `rt` is what `bindTcp` answers. -/
def listen (server rt : Int) : M Unit := do
  Socket.autoCloseOnError server
  if rt = -1 then
    Socket.close server
  else
    Socket.acceptTcp server .accepted

end Server

variable [V8]

/-- Calling a registered function; a function of user code does what it does in the steps that follow. -/
def runCallback (ans : Answers) : Callback → M (Option Task)
  | .user _                                  => return none
  | .empty                                   => return none
  | .readUntil fd buffer condition callback  => Socket.onReadable ans fd buffer condition callback
  | .writeUntil fd buffer condition callback => Socket.writeUntilOnce ans fd buffer condition callback
  | .writeBuffer fd buffer callback          => Socket.writeBuffer ans fd buffer callback
  | .connect callback                        => return some (.invoke callback 0)
  | .acceptTcp fd callback                   => Socket.onAcceptable ans fd callback
  | .autoClose fd                            => do
    Socket.close fd
    return none
  | .clientError k                           => do
    Client.close k
    return none

/-- Calling a function passed as a callback. -/
def runCont (arg : Int) : Cont → M (Option Task)
  | .user _       => return none
  | .accepted     => do Client.start (← Client.new arg)
  | .header k     => Client.onHeader k arg
  | .body k       => Client.process k
  | .part k       => Client.onPart k arg
  | .partEnd k    => Client.onPartEnd k
  | .partHeader k => Client.onPartHeader k arg
  | .lastPart k   => Client.process k
  | .flushed _    => return none
  | .ended k      => Client.onEnded k

def runTask (ans : Answers) : Task → M (Option Task)
  | .call callback       => runCallback ans callback
  | .invoke callback arg => runCont arg callback
  | .triggerError fd     => Socket.triggerError fd
  | .handler _ _         => return none

end V8h
