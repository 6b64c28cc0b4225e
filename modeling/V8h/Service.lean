import Mathlib.Tactic.Common
import Mathlib.Logic.Function.Basic
/-!
# Service — the callback tables over epoll

The object `service`: the script tables `fds` and `fds_error`, keyed by fd number, and the count `fds_number` of the
native side.  The methods ask the kernel for `EpollCtl`s and do not look at their results.
-/
namespace V8h

/-- A property value that went through `TO_OBJ`: a function, or an object that cannot be called. -/
inductive JsValue (φ : Type) where
  | function (f : φ)
  | object
deriving DecidableEq

def JsValue.isFunction {φ : Type} : JsValue φ → Bool
  | .function _ => true
  | .object     => false

def epollIn  : BitVec 32 := 0x001
def epollOut : BitVec 32 := 0x004
def epollErr : BitVec 32 := 0x008
def epollHup : BitVec 32 := 0x010

/-- `epoll_ctl` as the service calls it. -/
inductive EpollCtl where
  | add (fd : Int) (events : BitVec 32)
  | mod (fd : Int) (events : BitVec 32)
  | del (fd : Int)
deriving DecidableEq

/-- `epoll_event`, with `data.fd`. -/
structure Event where
  fd     : Int
  events : BitVec 32
deriving DecidableEq

/-- The branch `Service::run` takes: `events & EPOLLERR || events & EPOLLHUP`. -/
def Event.isError (e : Event) : Bool := e.events &&& epollErr != 0 || e.events &&& epollHup != 0

/-- Callbacks are of any type. -/
structure Service (α : Type) where
  fds       : Int → Option α
  fdsError  : Int → Option α
  fdsNumber : Int

namespace Service

variable {α β : Type}

/-- `Service::constructor`. -/
def new : Service α := ⟨fun _ => none, fun _ => none, 0⟩

/-- `Service::in_or_out`. -/
def inOrOut (s : Service α) (fd : Int) (callback : α) (events : BitVec 32) : Service α × EpollCtl :=
  if (s.fds fd).isSome then
    ({ s with fds := Function.update s.fds fd (some callback) }, .mod fd events)
  else
    ({ s with fds := Function.update s.fds fd (some callback), fdsNumber := s.fdsNumber + 1 }, .add fd events)

/-- `Service::in`. -/
def pollIn (s : Service α) (fd : Int) (callback : α) : Service α × EpollCtl := s.inOrOut fd callback epollIn

/-- `Service::out`. -/
def pollOut (s : Service α) (fd : Int) (callback : α) : Service α × EpollCtl := s.inOrOut fd callback epollOut

/-- `Service::del`. -/
def del (s : Service α) (fd : Int) : Service α × Option EpollCtl :=
  if (s.fds fd).isSome then
    ({ fds := Function.update s.fds fd none, fdsError := Function.update s.fdsError fd none,
       fdsNumber := s.fdsNumber - 1 }, some (.del fd))
  else
    ({ s with fdsError := Function.update s.fdsError fd none }, none)

/-- `Service::error`. -/
def error (s : Service α) (fd : Int) (callback : α) : Service α :=
  { s with fdsError := Function.update s.fdsError fd (some callback) }

/-- The property `Service::run` reads for an event; `none` is `undefined`. -/
def callbackOf (s : Service α) (e : Event) : Option α := if e.isError then s.fdsError e.fd else s.fds e.fd

theorem inOrOut_fds (s : Service α) (fd : Int) (f : α) (events : BitVec 32) :
    (s.inOrOut fd f events).1.fds = Function.update s.fds fd (some f) := by
  unfold inOrOut
  split <;> rfl

theorem inOrOut_fdsError (s : Service α) (fd : Int) (f : α) (events : BitVec 32) :
    (s.inOrOut fd f events).1.fdsError = s.fdsError := by
  unfold inOrOut
  split <;> rfl

@[simp] theorem pollIn_fds (s : Service α) (fd : Int) (f : α) :
    (s.pollIn fd f).1.fds = Function.update s.fds fd (some f) := inOrOut_fds s fd f epollIn

@[simp] theorem pollIn_fdsError (s : Service α) (fd : Int) (f : α) : (s.pollIn fd f).1.fdsError = s.fdsError :=
  inOrOut_fdsError s fd f epollIn

@[simp] theorem pollOut_fds (s : Service α) (fd : Int) (f : α) :
    (s.pollOut fd f).1.fds = Function.update s.fds fd (some f) := inOrOut_fds s fd f epollOut

@[simp] theorem pollOut_fdsError (s : Service α) (fd : Int) (f : α) : (s.pollOut fd f).1.fdsError = s.fdsError :=
  inOrOut_fdsError s fd f epollOut

@[simp] theorem error_fds (s : Service α) (fd : Int) (f : α) : (s.error fd f).fds = s.fds := rfl

@[simp] theorem error_fdsError (s : Service α) (fd : Int) (f : α) :
    (s.error fd f).fdsError = Function.update s.fdsError fd (some f) := rfl

/-- `del` leaves no entry, whether or not there was one. -/
@[simp] theorem del_fds (s : Service α) (fd : Int) : (s.del fd).1.fds = Function.update s.fds fd none := by
  unfold del
  split
  · rfl
  · rename_i h
    rw [Option.not_isSome_iff_eq_none] at h
    rw [← h, Function.update_eq_self]

@[simp] theorem del_fdsError (s : Service α) (fd : Int) :
    (s.del fd).1.fdsError = Function.update s.fdsError fd none := by
  unfold del
  split <;> rfl

end Service
end V8h
