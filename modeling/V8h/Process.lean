import V8h.BufferSpec
import V8h.Http
import V8h.Lib.Run
/-!
# Process — a process that serves HTTP

One input at a time: `Service::run` comes to an event and calls its callback, user code calls a method of a `Client` it
was given, or the call left in tail position is made.  User code runs whenever no such call is left: in the handler just
invoked, or in a callback of its own on some other fd.  An exception ends the loop of `Service::run` when `Service::run`
made the call, and is the user code's when user code did.
-/
namespace V8h

/-- The methods user code calls. -/
inductive Method where
  | write (text : JsString)
  | flush
  | finish
  | close

inductive Input where
  | event (e : Event) (ans : Answers)
  | call (client : Nat) (method : Method) (ans : Answers)
  | go (ans : Answers)

/-- `byUser`: whether user code made the call that is going on.  `left`: whether an exception ended `Service::run`. -/
structure Process where
  machine : Machine
  task    : Option Task
  byUser  : Bool
  left    : Bool

/-- An input that does not fit the state, or a call the process does not survive. -/
inductive Refusal where
  | unfit
  | crash (t : Trap)

namespace Process

open Machine Effect

variable [V8]

def runMethod (ans : Answers) (k : Nat) : Method → M (Option Task)
  | .write text => do
    Client.write k text
    return none
  | .flush      => Client.flush ans k
  | .finish     => Client.finish ans k
  | .close      => do
    Client.close k
    return none

/-- How a call ends. -/
def ended (byUser : Bool) : EStateM.Result Stop Machine (Option Task) → Except Refusal Process
  | .ok task m           => .ok ⟨m, task, byUser, false⟩
  | .error (.throw _) m => .ok ⟨m, none, byUser, !byUser⟩
  | .error (.trap t) _  => .error (.crash t)

def step (p : Process) : Input → Except Refusal Process
  | .event e ans         =>
    if p.left = false ∧ p.task = none then
      match p.machine.service.callbackOf e with
      | none          => .error (.crash .notCallable)
      | some callback => ended false (runCallback ans callback p.machine)
    else .error .unfit
  | .call k method ans =>
    if p.left = false ∧ p.task = none then ended true (runMethod ans k method p.machine) else .error .unfit
  | .go ans            =>
    match p.task with
    | some task => if p.left = false then ended p.byUser (runTask ans task p.machine) else .error .unfit
    | none      => .error .unfit

theorem step_go {p : Process} {t : Task} {ans : Answers} (ht : p.task = some t) (hl : p.left = false) :
    p.step (.go ans) = ended p.byUser (runTask ans t p.machine) := by
  simp only [step, ht, hl, if_true]

theorem step_call {p : Process} {k : Nat} {ans : Answers} {method : Method} (ht : p.task = none) (hl : p.left = false) :
    p.step (.call k method ans) = ended true (runMethod ans k method p.machine) := by
  simp only [step, ht, hl, and_self, if_true]

theorem step_event {p : Process} {ans : Answers} {e : Event} {f : Callback} (ht : p.task = none) (hl : p.left = false)
    (hf : p.machine.service.callbackOf e = some f) :
    p.step (.event e ans) = ended false (runCallback ans f p.machine) := by
  simp only [step, ht, hl, and_self, if_true, hf]

/-- **What a step is**: one call, made by `Service::run` or by user code, or the call left. -/
theorem step_cases {p p' : Process} {i : Input} (hs : p.step i = .ok p') :
    (∃ e ans f, i = .event e ans ∧ p.task = none ∧ p.machine.service.callbackOf e = some f ∧
      ended false (runCallback ans f p.machine) = .ok p') ∨
    (∃ k method ans, i = .call k method ans ∧ p.task = none ∧ ended true (runMethod ans k method p.machine) = .ok p') ∨
    ∃ ans t, i = .go ans ∧ p.task = some t ∧ ended p.byUser (runTask ans t p.machine) = .ok p' := by
  cases i with
  | event e ans =>
    simp only [step] at hs
    split at hs
    · rename_i h
      split at hs
      · cases hs
      · rename_i f hf
        exact .inl ⟨e, ans, f, rfl, h.2, hf, hs⟩
    · cases hs
  | call k method ans =>
    simp only [step] at hs
    split at hs
    · rename_i h
      exact .inr (.inl ⟨k, method, ans, rfl, h.2, hs⟩)
    · cases hs
  | go ans =>
    simp only [step] at hs
    split at hs
    · rename_i t ht
      split at hs
      · exact .inr (.inr ⟨ans, t, rfl, ht, hs⟩)
      · cases hs
    · cases hs

/-- While a call is left, it is what is made next. -/
theorem step_of_task {p p' : Process} {i : Input} {t : Task} (ht : p.task = some t) (hs : p.step i = .ok p') :
    ∃ ans, i = .go ans ∧ ended p.byUser (runTask ans t p.machine) = .ok p' := by
  obtain ⟨e, ans, f, rfl, hn, -, -⟩ | ⟨k, method, ans, rfl, hn, -⟩ | ⟨ans, t', rfl, ht', hend⟩ := step_cases hs
  · exact nomatch hn.symm.trans ht
  · exact nomatch hn.symm.trans ht
  · obtain rfl := Option.some.inj (ht'.symm.trans ht)
    exact ⟨ans, rfl, hend⟩

/-- `new Buffer(text)`. -/
def newTextBuffer (text : JsString) : M Unit := do
  let buffer ← newBuffer 1024
  Script.writeUtf8 buffer text

/-- The scripts up to `$run()`: the buffers of `class Client`, and a server that listens on `server`. -/
def boot (server : Int) : M Unit := do
  newTextBuffer (js "\r\n\r\n")
  newTextBuffer (js "\r\n")
  modify fun m => { m with kernel := { m.kernel with
    conn := Function.update m.kernel.conn server (some m.kernel.nextConn), nextConn := m.kernel.nextConn + 1 } }
  Server.listen server 0

/-- The process when `Service::run` begins. -/
def initial (server : Int) : Process :=
  match boot server Machine.empty with
  | .ok _ m    => ⟨m, none, false, false⟩
  | .error _ m => ⟨m, none, false, false⟩

theorem newTextBuffer_run (text : JsString) (m : Machine) (hlen : 3 * (V8.utf8 text).length < 2 ^ 64) :
    ∃ nb, newTextBuffer text m = .ok () { m with
        heap := Function.update m.heap m.nextBuffer ⟨some nb, false, false⟩, nextBuffer := m.nextBuffer + 1 } ∧
      Buffer.Holds 64 nb (V8.utf8 text) ∧ nb.used = (V8.utf8 text).length := by
  have hnew : Buffer.Holds 64 (Buffer.new 1024) [] := Buffer.new_spec (by decide) (by decide)
  have hfits : Buffer.Fits 64 (Buffer.new 1024) (V8.utf8 text).length :=
    Buffer.fits_of_le (by rw [show (Buffer.new 1024).used = 0 from rfl, Nat.zero_add]; exact hlen)
  obtain ⟨nb, h1, h2, h3⟩ := Buffer.write_spec _ hnew hfits
  refine ⟨nb, ?_, by simpa using h2, h3.trans (Nat.zero_add _)⟩
  simp only [newTextBuffer, newBuffer, Script.writeUtf8, bind_run, native, setNative, lift, Function.update_self, h1,
    Function.update_idem]

/-- The machine when `Service::run` begins, with the buffers of `class Client` given. -/
def booted (server : Int) (headerDelim boundaryDelim : Buffer) : Machine := { Machine.empty with
  service    := ((Service.new.error server (.autoClose server)).pollIn server (.acceptTcp server .accepted)).1
  heap       := Function.update (Function.update Machine.empty.heap 0 ⟨some headerDelim, false, false⟩) 1
    ⟨some boundaryDelim, false, false⟩
  nextBuffer := 2
  kernel     := ⟨Function.update (fun _ => none) server (some 0), 1, fun _ => [], .other 0⟩ }

/-- **The scripts run up to `$run()`**, and leave the two delimiters. -/
theorem initial_eq (server : Int) : ∃ d₀ d₁, initial server = ⟨booted server d₀ d₁, none, false, false⟩ ∧
    Buffer.Holds 64 d₀ [13, 10, 13, 10] ∧ Buffer.Holds 64 d₁ [13, 10] ∧ d₀.used = 4 ∧ d₁.used = 2 := by
  have hascii : V8.utf8 (js "\r\n\r\n") = [13, 10, 13, 10] ∧ V8.utf8 (js "\r\n") = [13, 10] := by
    rw [V8.utf8_ascii _ (by simp [js]), V8.utf8_ascii _ (by simp [js])]
    exact ⟨by decide, by decide⟩
  obtain ⟨d₀, h0, hd0, hu0⟩ := newTextBuffer_run (js "\r\n\r\n") Machine.empty (by rw [hascii.1]; decide)
  obtain ⟨d₁, h1, hd1, hu1⟩ := newTextBuffer_run (js "\r\n") { Machine.empty with
    heap := Function.update Machine.empty.heap 0 ⟨some d₀, false, false⟩, nextBuffer := 1 } (by rw [hascii.2]; decide)
  refine ⟨d₀, d₁, ?_, hascii.1 ▸ hd0, hascii.2 ▸ hd1, by rw [hu0, hascii.1]; rfl,
    by rw [hu1, hascii.2]; rfl⟩
  have hrun : boot server Machine.empty = .ok () (booted server d₀ d₁) :=
    (bind_ok h0).trans ((bind_ok h1).trans rfl)
  rw [initial, hrun]

end Process
end V8h
