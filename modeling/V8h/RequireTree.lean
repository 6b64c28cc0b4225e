import V8h.RequireText
/-!
# RequireTree — nested calls of `System::require`

Each call of a tree finds its file as it is at that moment: not to be opened, not to be read, with a text that does not
compile, or with a script that makes further calls and then throws or completes.  All calls end in the language and set
`$currentDir` back exactly when every file that is met can be dealt with (`tree_restores_iff`): the errors it raises fit
into the buffer of `raise`, and a text that was read compiles.
-/
namespace V8h

/-- A script by the calls of `System::require` it makes. -/
inductive Tree where
  | complete (v : Value)
  | throw (e : JsError)
  | require (path : AbsolutePath) (file : File) (compiles : Bool) (body : Tree)
      (next : Except JsError Value → Tree)

namespace Tree

open Effect

variable [V8]

def run : Tree → L Value
  | complete v                             => pure v
  | throw e                                => fun s => .error (.throw e) s
  | require path file compiles body next => fun s =>
    match System.require file (fun _ => if compiles then some body.run else none) path.bytes s with
    | .ok v s'             => (next (.ok v)).run s'
    | .error (.throw e) s' => (next (.error e)).run s'
    | .error (.trap t) s'  => .error (.trap t) s'

/-- A call. -/
def visit (path : AbsolutePath) (file : File) (compiles : Bool) (body : Tree) : L Value :=
  System.require file (fun _ => if compiles then some body.run else none) path.bytes

/-- A text is read. -/
def Readable : File → Prop
  | .missing _              => False
  | .stream content failure => ¬ System.Unreadable content failure

/-- An error that is raised fits into the buffer of `raise`, and a text that is read compiles. -/
def Loadable (path : AbsolutePath) (compiles : Bool) : File → Prop
  | .missing strerror       => (literal "open file " ++ path.bytes ++ literal " failed: " ++ strerror).length < 512
  | .stream content failure =>
    if System.Unreadable content failure then
      (literal "read file " ++ path.bytes ++ literal " failed: " ++ failure.getD []).length < 512
    else compiles = true

/-- The state in which the script of a file begins. -/
def inside (path : AbsolutePath) (s : Modules) : Modules := { s with currentDir := some (V8.fromUtf8 path.dir) }

/-- A call ends with a value or an exception, and then `$currentDir` is `dir`. -/
def Ended (dir : Option JsString) : EStateM.Result Stop Modules Value → Prop
  | .ok _ s'             => s'.currentDir = dir
  | .error (.throw _) s' => s'.currentDir = dir
  | .error (.trap _) _   => False

/-- At every moment of a script `$currentDir` is `dir`, at every moment of the script of a file it is the directory of
the file, and every call ends with a value or an exception and with `$currentDir` as it was. -/
def Restores : Tree → Option JsString → Modules → Prop
  | complete _, dir, s | throw _, dir, s         => s.currentDir = dir
  | require path file compiles body next, dir, s =>
    s.currentDir = dir ∧
    (Readable file → compiles = true → body.Restores (some (V8.fromUtf8 path.dir)) (inside path s)) ∧
    Ended s.currentDir (visit path file compiles body s) ∧
    match visit path file compiles body s with
    | .ok v s'             => (next (.ok v)).Restores dir s'
    | .error (.throw e) s' => (next (.error e)).Restores dir s'
    | .error (.trap _) _   => False

/-- Every file that is met can be dealt with. -/
def AllLoadable : Tree → Modules → Prop
  | complete _, _ | throw _, _              => True
  | require path file compiles body next, s =>
    Loadable path compiles file ∧
    (Readable file → compiles = true → body.AllLoadable (inside path s)) ∧
    match visit path file compiles body s with
    | .ok v s'             => (next (.ok v)).AllLoadable s'
    | .error (.throw e) s' => (next (.error e)).AllLoadable s'
    | .error (.trap _) _   => True

variable {path : AbsolutePath} {file : File} {compiles : Bool} {body : Tree} {s : Modules}

omit [V8] in
/-- However a script ends, the directory is as it was. -/
theorem withDir_ok {dir : JsString} {script : L Value} {v : Value} {s' : Modules}
    (h : script { s with currentDir := some dir } = .ok v s') :
    System.withDir dir script s = .ok v { s' with currentDir := s.currentDir } := by
  rw [System.withDir, h]

omit [V8] in
theorem withDir_error {dir : JsString} {script : L Value} {e : Stop} {s' : Modules}
    (h : script { s with currentDir := some dir } = .error e s') :
    System.withDir dir script s = .error e { s' with currentDir := s.currentDir } := by
  rw [System.withDir, h]

/-- **A call of a file that can be read** runs its script in its directory. -/
theorem visit_readable (h : Readable file) : visit path file compiles body s =
    System.withDir (V8.fromUtf8 path.dir) (if compiles then body.run else fun s => .error (.trap .null) s) s := by
  cases file with
  | missing strerror => exact absurd h id
  | stream content failure =>
    have htext : System.readText content failure = .ok (some (System.wrapped content)) := by
      rw [System.readText_eq, if_neg h]
    simp only [visit, System.require, bind_run, System.lift, htext, path.dirname_eq]
    cases compiles <;> rfl

theorem raise_short {message : List UInt8} (h : message.length < 512) :
    (System.raise message : L Value) s = .error (.throw (.error (V8.fromUtf8 message))) s := by
  rw [System.raise, if_pos h]
  rfl

theorem raise_long {message : List UInt8} (h : ¬ message.length < 512) :
    (System.raise message : L Value) s = .error (.trap .outOfBounds) s := by
  rw [System.raise, if_neg h]
  rfl

/-- **A call of a file that cannot be read** raises an error. -/
theorem visit_unreadable (h : ¬ Readable file) : ∃ message, visit path file compiles body s =
    (System.raise message : L Value) s ∧ (Loadable path compiles file ↔ message.length < 512) := by
  cases file with
  | missing strerror => exact ⟨_, rfl, Iff.rfl⟩
  | stream content failure =>
    have hun : System.Unreadable content failure := not_not.1 h
    have htext : System.readText content failure = .ok none := by
      rw [System.readText_eq, if_pos hun]
    refine ⟨_, ?_, by rw [Loadable, if_pos hun]⟩
    simp only [visit, System.require, bind_run, System.lift, htext]

/-- **One call** ends well exactly when its file can be dealt with, as long as its script ends well. -/
theorem visit_ended (hbody : Readable file → compiles = true →
    Ended (inside path s).currentDir (body.run (inside path s))) :
    Ended s.currentDir (visit path file compiles body s) ↔ Loadable path compiles file := by
  by_cases hr : Readable file
  · have hload : Loadable path compiles file ↔ compiles = true := by
      cases file with
      | missing strerror => exact absurd hr id
      | stream content failure => rw [Loadable, if_neg hr]
    rw [visit_readable hr, hload]
    cases compiles with
    | false => exact ⟨fun h => absurd h id, fun h => absurd h Bool.false_ne_true⟩
    | true =>
      refine ⟨fun _ => rfl, fun _ => ?_⟩
      have hb := hbody hr rfl
      show Ended s.currentDir (System.withDir (V8.fromUtf8 path.dir) body.run s)
      cases hx : body.run (inside path s) with
      | ok v s' =>
        rw [withDir_ok hx]
        rfl
      | error e s' =>
        rw [withDir_error hx]
        rw [hx] at hb
        cases e with
        | throw e => rfl
        | trap t => exact hb
  · obtain ⟨message, hv, hload⟩ : ∃ message, visit path file compiles body s = (System.raise message : L Value) s ∧
        (Loadable path compiles file ↔ message.length < 512) := visit_unreadable hr
    rw [hv, hload]
    by_cases hm : message.length < 512
    · rw [raise_short hm]
      exact ⟨fun _ => hm, fun _ => rfl⟩
    · rw [raise_long hm]
      exact ⟨fun h => absurd h id, fun h => absurd h hm⟩

/-- **A script whose files can all be dealt with ends well.** -/
theorem run_ended : ∀ (tree : Tree) (s : Modules), AllLoadable tree s → Ended s.currentDir (tree.run s)
  | complete _, _, _ => rfl
  | throw _, _, _ => rfl
  | require path file compiles body next, s, h => by
    rw [AllLoadable] at h
    obtain ⟨hload, hbody, hnext⟩ := h
    have hv := (visit_ended fun hr hc => run_ended body _ (hbody hr hc)).2 hload
    rw [run]
    show Ended s.currentDir (match visit path file compiles body s with
      | .ok v s'             => (next (.ok v)).run s'
      | .error (.throw e) s' => (next (.error e)).run s'
      | .error (.trap t) s'  => .error (.trap t) s')
    cases hx : visit path file compiles body s with
    | ok v s' =>
      rw [hx] at hv hnext
      have hdir : s'.currentDir = s.currentDir := hv
      exact hdir ▸ run_ended (next (.ok v)) s' hnext
    | error e s' =>
      rw [hx] at hv hnext
      cases e with
      | throw e =>
        have hdir : s'.currentDir = s.currentDir := hv
        exact hdir ▸ run_ended (next (.error e)) s' hnext
      | trap t => exact hv

theorem restores_iff : ∀ (tree : Tree) (dir : Option JsString) (s : Modules), s.currentDir = dir →
    (Restores tree dir s ↔ AllLoadable tree s)
  | complete _, _, _, hs => ⟨fun _ => trivial, fun _ => hs⟩
  | throw _, _, _, hs => ⟨fun _ => trivial, fun _ => hs⟩
  | require path file compiles body next, dir, s, hs => by
    have hbody_iff : Restores body (some (V8.fromUtf8 path.dir)) (inside path s) ↔ AllLoadable body (inside path s) :=
      restores_iff body _ _ rfl
    rw [Restores, AllLoadable]
    constructor
    · rintro ⟨-, hbody, hended, hnext⟩
      have hbody' : Readable file → compiles = true → AllLoadable body (inside path s) :=
        fun hr hc => hbody_iff.1 (hbody hr hc)
      refine ⟨(visit_ended fun hr hc => run_ended body _ (hbody' hr hc)).1 hended, hbody', ?_⟩
      cases hx : visit path file compiles body s with
      | ok v s' =>
        rw [hx] at hended hnext
        exact (restores_iff (next (.ok v)) dir s' (hended.trans hs)).1 hnext
      | error e s' =>
        rw [hx] at hended hnext
        cases e with
        | throw e => exact (restores_iff (next (.error e)) dir s' (hended.trans hs)).1 hnext
        | trap t => trivial
    · rintro ⟨hload, hbody, hnext⟩
      have hended := (visit_ended fun hr hc => run_ended body _ (hbody hr hc)).2 hload
      refine ⟨hs, fun hr hc => hbody_iff.2 (hbody hr hc), hended, ?_⟩
      cases hx : visit path file compiles body s with
      | ok v s' =>
        rw [hx] at hended hnext
        exact (restores_iff (next (.ok v)) dir s' (hended.trans hs)).2 hnext
      | error e s' =>
        rw [hx] at hended hnext
        cases e with
        | throw e => exact (restores_iff (next (.error e)) dir s' (hended.trans hs)).2 hnext
        | trap t => exact hended

/-- **Nested calls restore `$currentDir` and end in the language** exactly when every file that is met can be dealt
with. -/
theorem tree_restores_iff (tree : Tree) (s : Modules) : Restores tree s.currentDir s ↔ AllLoadable tree s :=
  restores_iff tree _ s rfl

/-- A call of `/a` with the text `{`, which does not compile. -/
def broken : Tree :=
  require (.ofByte 97 AbsolutePath.a_ne_slash) (.stream [123] none) false (complete .undefined) fun _ =>
    complete .undefined

omit [V8] in
/-- **A file that does not compile** ends the process. -/
theorem broken_file_crashes : ¬ @Restores ascii broken none (Modules.start none) ∧
    answer (@run ascii broken) (Modules.start none) = .error (.trap .null) := by
  refine ⟨fun h => ?_, by decide +kernel⟩
  have hload := ((@restores_iff ascii broken none (Modules.start none) rfl).1 h).1
  simp [Loadable, System.Unreadable] at hload

end Tree
end V8h
