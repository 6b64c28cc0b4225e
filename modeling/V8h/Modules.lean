import V8h.Machine
import V8h.Lib.Dialog
/-!
# Modules — what a module body works on

The values scripts handle, the objects and the two globals `$currentDir` and `exports`, and the table `requiredFiles`.
A module body is a `Dialog`: whatever its text is, what the module system sees of it are the operations `Op`.
-/
namespace V8h

/-- A value of the language; a number is the image of a double. -/
inductive Value where
  | undefined
  | null
  | bool (b : Bool)
  | number (bits : BitVec 64)
  | string (s : JsString)
  | object (id : Nat)
deriving DecidableEq

/-- `value?` of CoffeeScript. -/
def Value.isSet : Value → Bool
  | .undefined | .null => false
  | _                  => true

/-- The number 1. -/
def Value.one : Value := .number 0x3FF0000000000000

/-- The property of an object used as a table is there, and `?` holds of it. -/
def Known (entry : Option Value) : Prop := entry.any Value.isSet = true

instance (entry : Option Value) : Decidable (Known entry) := inferInstanceAs (Decidable (_ = true))

theorem known_iff {entry : Option Value} : Known entry ↔ ∃ v, entry = some v ∧ v.isSet = true := by
  cases entry <;> simp [Known]

/-- A call of `require`: where it was made, what the table had for its first key, and how it ended. -/
structure Call where
  dir     : Option JsString
  name    : JsString
  loading : List JsString
  entry   : Option Value
  marked  : Bool
  result  : Except Stop Value

/-- A load: of which file, while which files were being loaded, and how it ended. -/
structure Load where
  filename : JsString
  within   : List JsString
  result   : Except Stop Value

/-- What happened so far, no part of the source: the entries that are marks, the files being loaded (the innermost
first), the loads and the calls that ended (the last first), the scripts that ran. -/
structure History where
  marked  : JsString → Bool
  loading : List JsString
  loads   : List Load
  calls   : List Call
  ran     : List JsString

/-- `$currentDir` is `none` before the first script runs, and so is `exports`. -/
structure Modules where
  requiredFiles : JsString → Option Value
  currentDir    : Option JsString
  exports       : Option Value
  objects       : Nat → JsString → Option Value
  nextObject    : Nat
  history       : History

abbrev L := EStateM Stop Modules

/-- What a module body does that the module system sees; of the values only objects have properties here. -/
inductive Op where
  | require (name : JsString)
  | currentDir
  | getExports
  | setExports (v : Value)
  | newObject
  | get (o : Value) (key : JsString)
  | set (o : Value) (key : JsString) (v : Value)

abbrev Body := Dialog Op Value JsError

namespace Modules

/-- The state in which the first script of a directory runs. -/
def start (dir : Option JsString) : Modules :=
  ⟨fun _ => none, dir, none, fun _ _ => none, 0, ⟨fun _ => false, [], [], [], []⟩⟩

/-- A call, with `require name` answered by `callee name`.  Reading a global that was never set throws. -/
def exec (callee : JsString → L Value) : Op → L Value
  | .require name => callee name
  | .currentDir   => fun s => .ok (s.currentDir.elim .undefined .string) s
  | .getExports   => fun s =>
    match s.exports with
    | none   => .error (.throw (.error (js "exports is not defined"))) s
    | some v => .ok v s
  | .setExports v => fun s => .ok v { s with exports := some v }
  | .newObject    => fun s => .ok (.object s.nextObject) { s with
      objects := Function.update s.objects s.nextObject fun _ => none, nextObject := s.nextObject + 1 }
  | .get o key    => fun s =>
    match o with
    | .undefined | .null => .error (.throw .typeError) s
    | .object id         => .ok ((s.objects id key).getD .undefined) s
    | _                  => .ok .undefined s
  | .set o key v  => fun s =>
    match o with
    | .undefined | .null => .error (.throw .typeError) s
    | .object id         => .ok v { s with
        objects := Function.update s.objects id (Function.update (s.objects id) key (some v)) }
    | _                  => .ok v s

/-- What a `catch` of the language catches. -/
def caught : Stop → Option JsError
  | .throw e => some e
  | .trap _  => none

/-- The run of a body. -/
def run (callee : JsString → L Value) (body : Body) : L Value := body.run .throw caught (exec callee)

end Modules
end V8h
