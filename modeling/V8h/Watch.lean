import V8h.Http
import V8h.Lib.Run
/-!
# Watch — one operation on a socket, while the process goes on

An operation of `Socket` is called once.  From then on `Service::run` dispatches events, and the rest of the process
takes the machine wherever it likes: what it leaves alone is a condition on the run.
-/
namespace V8h

/-- The calls made in tail position so far, the first one first, each with the state it was made in; the buffers handed
to `$bufferPool.push` by the turns watched. -/
structure Watch where
  machine : Machine
  calls   : List (Task × Machine)
  pushes  : List Nat

inductive Turn where
  | event (e : Event) (ans : Answers)
  | other (m : Machine)

namespace Watch

/-- The buffers pushed on the way from `m₀` to `m`. -/
def pushed (m₀ m : Machine) : List Nat := (m.pushes.take (m.pushes.length - m₀.pushes.length)).reverse

theorem pushed_self {m m' : Machine} (h : m'.pushes = m.pushes) : pushed m m' = [] := by
  rw [pushed, h, Nat.sub_self, List.take_zero, List.reverse_nil]

theorem pushed_one {m m' : Machine} {b : Nat} (h : m'.pushes = b :: m.pushes) : pushed m m' = [b] := by
  rw [pushed, h, List.length_cons, Nat.add_sub_cancel_left]
  rfl

def ended (w : Watch) : EStateM.Result Stop Machine (Option Task) → Except Stop Watch
  | .ok r m    => .ok ⟨m, w.calls ++ r.toList.map (·, m), w.pushes ++ pushed w.machine m⟩
  | .error e _ => .error e

/-- The operation is called. -/
def start (x : M (Option Task)) (m : Machine) : Except Stop Watch := ended ⟨m, [], []⟩ (x m)

theorem start_congr {x y : M (Option Task)} {m m' : Machine} (h : x m = y m') (hp : m'.pushes = m.pushes) :
    start x m = start y m' := by
  rw [start, start, h]
  cases y m' with
  | ok r m'' => simp only [ended, pushed, hp]
  | error e m'' => rfl

def step [V8] (w : Watch) : Turn → Except Stop Watch
  | .event e ans =>
    match w.machine.service.callbackOf e with
    | none          => .error (.trap .notCallable)
    | some callback => ended w (runCallback ans callback w.machine)
  | .other m     => .ok { w with machine := m }

end Watch
end V8h
