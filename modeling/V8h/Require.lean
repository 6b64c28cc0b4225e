import V8h.Modules
/-!
# Require — `System::require` of `system.cc`, and `require` of `startup.coffee`

What a text is to the compiler is a parameter, and so is the file system, which does not change.  Loads nest as deep as
the fuel of `load` allows.
-/
namespace V8h

/-- The bytes of an ASCII literal of the source. -/
def literal (s : String) : List UInt8 := s.toList.map fun c => UInt8.ofNat c.toNat

/-- A file as `fopen` and `fread` find it: not to be opened, with what `strerror` says, or its bytes up to the end or up
to where reading fails. -/
inductive File where
  | missing (strerror : List UInt8)
  | stream (content : List UInt8) (failure : Option (List UInt8))

/-- What `startup.coffee` runs on.  `open` fails for paths of `PATH_MAX` bytes and more. -/
structure Host where
  realpath    : JsString → Option JsString
  fileExists  : JsString → Bool
  includePath : List JsString
  file        : List UInt8 → File
  compile     : JsString → Option Body
  path_max    : ∀ path content failure, file path = .stream content failure → path.length < 4096

/-- `fread(dest, 1, n)` of a file with `rest` still to be read: as many bytes as `short` says, but one at least and `n`
at most, and none at the end of the file. -/
def fread (short : Nat) (rest : List UInt8) (n : Nat) : List UInt8 := rest.take (min n (max 1 short))

/-- The loop: `short i` is for its `i`-th `fread`, and `dest` does not move.  What is left of the file comes with it. -/
def freadLoop (short : Nat → Nat) (dest : Nat) :
    Nat → Nat → List UInt8 → Buffer → Except Trap (List UInt8 × Buffer)
  | 0,        _, _,    _ => .error .diverge
  | fuel + 1, i, rest, b =>
    match fread (short i) rest (b.remain 64) with
    | []    => .ok (rest, b)
    | chunk => do
      let b ← b.store dest (chunk.map some)
      freadLoop short dest fuel (i + 1) (rest.drop chunk.length) (b.commit 64 chunk.length)

namespace System

/-- `raise`, which formats into 512 bytes. -/
def raise {α : Type} [V8] (message : List UInt8) : L α :=
  if message.length < 512 then throw (.throw (.error (V8.fromUtf8 message))) else throw (.trap .outOfBounds)

/-- A path up to and with its last slash. -/
def splitLast (path : List UInt8) : Option (List UInt8) :=
  if 47 ∈ path then some ((path.reverse.dropWhile (· ≠ 47)).reverse) else none

def stripSlashes (path : List UInt8) : List UInt8 := (path.reverse.dropWhile (· = 47)).reverse

/-- `::dirname` as it changes its argument in place: a path with no slash stays, and the slashes at the end of a path
do not count. -/
def dirnameInPlace (path : List UInt8) : List UInt8 :=
  let name := if stripSlashes path = [] then path else stripSlashes path
  match splitLast name with
  | none     => path
  | some dir =>
    if stripSlashes dir ≠ [] then stripSlashes dir
    else if dir.length = 2 then [47, 47] else [47]

/-- `System::dirname`: the `strcpy` to `result[PATH_MAX]`. -/
def dirname (filename : List UInt8) : Except Trap (List UInt8) :=
  if filename.length < 4096 then .ok (dirnameInPlace filename) else .error .outOfBounds

/-- The file behind what is written before it, and what is left of it. -/
def readFile (short : Nat → Nat) (content : List UInt8) : Except Trap (List UInt8 × Buffer) := do
  let b ← (Buffer.new 1024).clear.write 64 ((literal "(function()\x7b;exports=\x7b\x7d;").map some)
  let b ← b.prepare 64 4096
  freadLoop short b.used (content.length + 1) 0 content b

/-- What is written behind the file, and the text given to `Script::New`. -/
def scriptText (b : Buffer) : Except Trap (List UInt8) := do
  let b ← b.write 64 ((literal ";return exports;\x7d).call(this);").map some)
  b.peek b.size

/-- The text given to `Script::New` when no `fread` is short, or `none` when `ferror` holds after the loop. -/
def readText (content : List UInt8) (failure : Option (List UInt8)) : Except Trap (Option (List UInt8)) := do
  let (rest, b) ← readFile (fun _ => content.length) content
  if failure.isSome ∧ rest = [] ∧ 0 < b.remain 64 then
    return none
  else
    return some (← scriptText b)

def lift {α : Type} (x : Except Trap α) : L α := fun s =>
  match x with
  | .error t => .error (.trap t) s
  | .ok a    => .ok a s

/-- `$currentDir` is set, the script runs, and `$currentDir` is set back. -/
def withDir (dir : JsString) (script : L Value) : L Value := fun s =>
  match script { s with currentDir := some dir } with
  | .ok v s'    => .ok v { s' with currentDir := s.currentDir }
  | .error e s' => .error e { s' with currentDir := s.currentDir }

/-- `System::require`: `Run` of the empty handle that `Script::New` returns for a text that does not compile goes
through a null pointer. -/
def require [V8] (file : File) (script : JsString → Option (L Value)) (filename : List UInt8) : L Value := do
  match file with
  | .missing strerror       => raise (literal "open file " ++ filename ++ literal " failed: " ++ strerror)
  | .stream content failure =>
    match ← lift (readText content failure) with
    | none      => raise (literal "read file " ++ filename ++ literal " failed: " ++ failure.getD [])
    | some text =>
      let dir ← lift (dirname filename)
      withDir (V8.fromUtf8 dir) ((script (V8.fromUtf8 text)).getD (throw (.trap .null)))

end System

namespace Modules

variable [V8] (host : Host) (callee : JsString → L Value)

/-- The script of a file runs. -/
def runs (filename : JsString) (s : Modules) : Modules :=
  { s with history := { s.history with ran := filename :: s.history.ran } }

/-- `System::_require`: the name is used as a C string. -/
def _require (filename : JsString) : L Value :=
  let path := (V8.utf8 filename).takeWhile (· ≠ 0)
  let script (text : JsString) : Option (L Value) :=
    (host.compile text).map fun body => fun s => run callee body (s.runs filename)
  System.require (host.file path) script path

/-- `requiredFiles[filename] = 1`. -/
def mark (filename : JsString) (s : Modules) : Modules := { s with
  requiredFiles := Function.update s.requiredFiles filename (some .one)
  history := { s.history with
    marked  := Function.update s.history.marked filename true
    loading := filename :: s.history.loading } }

/-- The load of a file that began in `s` ends in `s'`. -/
def loaded (s : Modules) (filename : JsString) (result : Except Stop Value) (s' : Modules) : Modules := { s' with
  history := { s'.history with
    loading := s.history.loading, loads := ⟨filename, s.history.loading, result⟩ :: s'.history.loads } }

/-- `requiredFiles[key] = exports`. -/
def cache (key : JsString) (exports : Value) (s : Modules) : Modules := { s with
  requiredFiles := Function.update s.requiredFiles key (some exports)
  history := { s.history with marked := Function.update s.history.marked key false } }

/-- What `requireAbsolute` does when there is no entry. -/
def loadFile (filename : JsString) : L Value := fun s =>
  match _require host callee filename (s.mark filename) with
  | .ok exports s' => .ok exports ((loaded s filename (.ok exports) s').cache filename exports)
  | .error e s'    => .error e (loaded s filename (.error e) s')

def requireAbsolute (filename : JsString) : L Value := do
  match host.realpath filename with
  | none          => throw (.throw (.error (js "require: cannot find file " ++ filename)))
  | some filename =>
    let entry := (← get).requiredFiles filename
    if Known entry then
      if entry = some .one then
        throw (.throw (.error (js "require: loop require " ++ filename)))
      else
        return entry.getD .undefined
    else
      loadFile host callee filename

/-- `File.join $currentDir, filename`. -/
def joinDir (dir : Option JsString) (filename : JsString) : JsString := dir.getD [] ++ js "/" ++ filename

def requireRelative (filename : JsString) : L Value := do
  requireAbsolute host callee (joinDir (← get).currentDir filename)

/-- The loop of `requireIncludePath`. -/
def findIncluded (filename : JsString) : Option JsString :=
  (host.includePath.map fun dir => joinDir (some dir) filename).find? host.fileExists

def requireIncludePath (filename : JsString) : L Value := do
  match findIncluded host filename with
  | none      => throw (.throw (.error (js "require: cannot find file " ++ filename)))
  | some path => requireAbsolute host callee path

/-- `originalFileName`. -/
def originalFileName (dir : Option JsString) (filename : JsString) : JsString :=
  if filename.head? = some 47 then filename else dir.getD (js "undefined") ++ js "?" ++ filename

/-- The function `require` is set to. -/
def require (filename : JsString) : L Value := do
  let originalFileName := originalFileName (← get).currentDir filename
  let entry := (← get).requiredFiles originalFileName
  if Known entry then
    return entry.getD .undefined
  let exports ←
    if filename.head? = some 47 then requireAbsolute host callee filename
    else if filename.take 2 = js "./" then requireRelative host callee filename
    else requireIncludePath host callee filename
  modify (cache originalFileName exports)
  return exports

/-- A call of `require` made in `s`. -/
def record (s : Modules) (filename : JsString) (result : Except Stop Value) : Call :=
  let key := originalFileName s.currentDir filename
  ⟨s.currentDir, filename, s.history.loading, s.requiredFiles key, s.history.marked key, result⟩

/-- The call ends in `s'`. -/
def called (s : Modules) (filename : JsString) (result : Except Stop Value) (s' : Modules) : Modules :=
  { s' with history := { s'.history with calls := s.record filename result :: s'.history.calls } }

/-- `require`, with the call entered in the history when it ends. -/
def call (filename : JsString) : L Value := fun s =>
  match require host callee filename s with
  | .ok v s'    => .ok v (called s filename (.ok v) s')
  | .error e s' => .error e (called s filename (.error e) s')

/-- `require`, with at most so many loads one inside the other. -/
def load : Nat → JsString → L Value
  | 0,        _        => throw (.trap .diverge)
  | fuel + 1, filename => call host (load fuel) filename

end Modules
end V8h
