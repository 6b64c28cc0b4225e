import V8h.Http
import V8h.Keeps
import V8h.Lib.Run
import V8h.SocketSpec
/-!
# SocketOnce — how often the callback of one call is invoked

`readUntil`, `readSize`, `readToken`, `writeUntil`, `connectUnix` and `connectTcp` leave the function they registered
in its place when they invoke the callback.  `Continuation` follows that function: it is dispatched to by events of the
fd until the rest of the process registers another or deletes the fd.  A callback that sees to that is invoked once
(`invoked_once`), and one that does not may be invoked again (`invoked_twice`).
-/
namespace V8h

open Machine Effect Socket

/-! ## Programs that register nothing -/

theorem lax_service (s : Service Callback) : Lax (fun m => m.service = s) Any where
  blind  := fun _ _ hm hs => hs.service.trans hm
  stable := Buffer.stable_any
  fresh  := fun _ _ _ => trivial
  good   := fun _ _ _ _ _ => trivial
  heap   := fun _ _ _ hm _ => hm
  pool   := fun _ _ hm => hm
  next   := fun _ _ hm => hm

/-- The program registers nothing. -/
abbrev Unregistering {α : Type} (x : M α) : Prop :=
  ∀ s, Keeps (fun m => m.service = s) (fun m => m.service = s) x Any

/-! ## One call -/

/-- A call of one of the six, but for the fd and the callback. -/
inductive Operation where
  | readUntil (buffer : Nat) (condition : Cond)
  | readSize (buffer : Nat) (size : Option Int)
  | readToken (buffer deliBuffer : Nat)
  | writeUntil (buffer : Nat) (condition : Cond)
  | connectUnix (answer : Option Errno)
  | connectTcp (answer : Option Errno)

namespace Operation

def call (fd : Int) (callback : Cont) : Operation → M (Option Task)
  | readUntil buffer condition  => Socket.readUntil fd buffer condition (.plain callback)
  | readSize buffer size        => Socket.readSize fd buffer size callback
  | readToken buffer deliBuffer => Socket.readToken fd buffer deliBuffer callback
  | writeUntil buffer condition => do
    Socket.writeUntil fd buffer condition callback
    return none
  | connectUnix answer          => do
    let _ ← Socket.connectUnix answer fd callback
    return none
  | connectTcp answer           => do
    let _ ← Socket.connectTcp answer fd callback
    return none

/-- The function the call registers: `readSize` and `readToken` do without one when they need not wait. -/
def registers (fd : Int) (callback : Cont) (m : Machine) : Operation → Option Callback
  | readUntil buffer condition  => some (.readUntil fd buffer condition (.plain callback))
  | readSize buffer size        =>
    if size.any fun size => (m.heap buffer).native.any fun b => decide ((toUint b.size : Int) ≥ size) then none
    else some (.readUntil fd buffer (.size size) (.size size callback))
  | readToken buffer deliBuffer =>
    (m.heap deliBuffer).native.bind fun b =>
      if toUint b.size = 0 then none
      else some (.readUntil fd buffer (.token deliBuffer (toUint b.size) m.nextVar)
        (.token (toUint b.size) m.nextVar callback))
  | writeUntil buffer condition => some (.writeUntil fd buffer condition callback)
  | connectUnix _ | connectTcp _ => some (.connect callback)

end Operation

/-- One call: the function it registered, while the service holds it, and how often its callback was invoked. -/
structure Continuation where
  machine    : Machine
  registered : Option Callback
  invoked    : Nat

namespace Continuation

/-- An event that is dispatched to the function, or whatever else the process does. -/
inductive Turn where
  | event (e : Event) (ans : Answers)
  | other (m : Machine) (replaced : Bool)

/-- How often a callback is invoked by a call in tail position. -/
def invocations (callback : Cont) : Option Task → Nat
  | some (.invoke callback' _) => if callback' = callback then 1 else 0
  | _                          => 0

def start (fd : Int) (callback : Cont) (op : Operation) (m : Machine) : Except Stop Continuation :=
  match op.call fd callback m with
  | .ok r m'    => .ok ⟨m', op.registers fd callback m, invocations callback r⟩
  | .error e _  => .error e

/-- An event of another fd, or of a function another registered, is no event of the call. -/
def step [V8] (fd : Int) (callback : Cont) (c : Continuation) : Turn → Except Stop Continuation
  | .event e ans      =>
    if e.fd = fd ∧ e.isError = false ∧ c.registered.isSome then
      match c.machine.service.callbackOf e with
      | none   => .error (.trap .notCallable)
      | some f =>
        match runCallback ans f c.machine with
        | .ok r m    => .ok { c with machine := m, invoked := c.invoked + invocations callback r }
        | .error e _ => .error e
    else .ok c
  | .other m replaced =>
    if replaced ∨ m.service.fds fd ≠ c.machine.service.fds fd then .ok { c with machine := m, registered := none }
    else .ok { c with machine := m }

/-- Once the callback was invoked, no event of the fd finds the function the call registered: another one was registered
for the fd before, or the fd was deleted. -/
def Replaced (fd : Int) (c : Continuation) : Turn → Prop
  | .event e _ => c.invoked = 1 → e.fd = fd → e.isError = false → c.registered = none
  | .other _ _ => True

/-! ## The functions registered -/

/-- A function one of the operations registers. -/
def Own (fd : Int) (callback : Cont) : Callback → Prop
  | .readUntil fd' _ _ closure   => fd' = fd ∧ closure.callback = callback
  | .writeUntil fd' _ _ callback' => fd' = fd ∧ callback' = callback
  | .connect callback'           => callback' = callback
  | _                            => False

variable {m m' : Machine} {fd : Int} {buffer : Nat} {callback : Cont} {cond : Cond} {closure : Closure} {ans : Answers}
  {r : Option Task}

theorem invocations_le (callback : Cont) (r : Option Task) : invocations callback r ≤ 1 := by
  unfold invocations
  split
  · split
    · exact Nat.le_refl 1
    · exact Nat.zero_le 1
  · exact Nat.zero_le 1

/-- **The function registers nothing.** -/
theorem runCallback_service [V8] {f : Callback} (hf : Own fd callback f) : Unregistering (runCallback ans f) := by
  intro s
  cases f with
  | readUntil fd' buffer cond closure =>
    exact (((lax_service s).edits buffer).onReadable ans).mono fun _ _ => trivial
  | writeUntil fd' buffer cond callback' =>
    have hsends : Sends (fun m => m.service = s) fd' := fun _ _ _ hm _ => hm
    exact (((lax_service s).edits buffer).writeUntilOnce hsends ((lax_service s).release buffer) ans).mono
      fun _ _ => trivial
  | connect callback' => exact .pure trivial
  | user n => exact absurd hf id
  | empty => exact absurd hf id
  | writeBuffer fd' buffer callback' => exact absurd hf id
  | acceptTcp fd' callback' => exact absurd hf id
  | autoClose fd' => exact absurd hf id
  | clientError k => exact absurd hf id

/-! ## Runs -/

/-- The function the call registered is where it was registered. -/
def Kept (fd : Int) (callback : Cont) (c : Continuation) : Prop :=
  ∀ f ∈ c.registered, Own fd callback f ∧ c.machine.service.fds fd = some f

variable {c c₀ c' : Continuation}

theorem size_run_some {b : Buffer} (hb : (m.heap buffer).native = some b) :
    Script.size buffer m = .ok (toUint b.size) m := by
  simp only [Script.size, bind_run, native, hb, pure_run]

/-- **`readUntil` registers its function.** -/
theorem readUntil_registers (h : readUntil fd buffer cond closure m = .ok r m') :
    m'.service.fds fd = some (.readUntil fd buffer cond closure) := by
  have hJ : Blind fun m => m.service.fds fd = some (.readUntil fd buffer cond closure) :=
    fun m m' hm hs => (congrFun (congrArg Service.fds hs.service) fd).trans hm
  exact ((ends_readUntil (E := fun _ => True) hJ (registers_self _)).ok trivial h).1

theorem native_of_size {n : Nat} (h : Script.size buffer m = .ok n m') :
    ∃ b, (m.heap buffer).native = some b ∧ n = toUint b.size ∧ m' = m := by
  cases hb : (m.heap buffer).native with
  | none =>
    have hn : native buffer m = .error (.trap .null) m := by simp only [native, hb]
    rw [Script.size, bind_error hn] at h
    cases h
  | some b =>
    rw [size_run_some hb] at h
    cases h
    exact ⟨b, rfl, rfl, rfl⟩

theorem readSize_registers {size : Option Int} {f : Callback} (h : readSize fd buffer size callback m = .ok r m')
    (hf : f ∈ (Operation.readSize buffer size).registers fd callback m) :
    Own fd callback f ∧ m'.service.fds fd = some f := by
  unfold readSize at h
  cases hs : Script.size buffer m with
  | error e m₁ =>
    have hc : condition buffer (.size size) m = .error e m₁ := bind_error hs
    rw [bind_error hc] at h
    cases h
  | ok n m₁ =>
    obtain ⟨b, hb, rfl, rfl⟩ := native_of_size hs
    have hc : condition buffer (.size size) m₁ =
        .ok (size.any fun size => decide ((toUint b.size : Int) ≥ size)) m₁ := bind_ok hs
    rw [bind_ok hc] at h
    simp only [Operation.registers, hb, Option.any_some] at hf
    split at hf
    · cases hf
    · rename_i hnot
      rw [if_neg hnot] at h
      cases hf
      exact ⟨⟨rfl, rfl⟩, readUntil_registers h⟩

theorem readToken_registers {deli : Nat} {f : Callback} (h : readToken fd buffer deli callback m = .ok r m')
    (hf : f ∈ (Operation.readToken buffer deli).registers fd callback m) :
    Own fd callback f ∧ m'.service.fds fd = some f := by
  unfold readToken at h
  cases hs : Script.size deli m with
  | error e m₁ =>
    rw [bind_error hs] at h
    cases h
  | ok n m₁ =>
    obtain ⟨b, hb, rfl, rfl⟩ := native_of_size hs
    rw [bind_ok hs] at h
    simp only [Operation.registers, hb, Option.bind_some] at hf
    split at hf
    · cases hf
    · rename_i hnot
      rw [if_neg hnot] at h
      cases hf
      exact ⟨⟨rfl, rfl⟩, readUntil_registers h⟩

theorem fds_pollOut (m : Machine) (fd : Int) (f : Callback) : (m.service.pollOut fd f).1.fds fd = some f := by
  rw [Service.pollOut_fds, Function.update_self]

/-- **The call leaves the function it registers in the table.** -/
theorem start_kept {op : Operation} (h : start fd callback op m = .ok c₀) : c₀.Kept fd callback := by
  unfold start at h
  cases hx : op.call fd callback m with
  | error e m' =>
    rw [hx] at h
    cases h
  | ok r m' =>
    rw [hx] at h
    cases h
    intro f hf
    cases op with
    | readUntil buffer cond =>
      cases hf
      exact ⟨⟨rfl, rfl⟩, readUntil_registers hx⟩
    | readSize buffer size => exact readSize_registers hx hf
    | readToken buffer deli => exact readToken_registers hx hf
    | writeUntil buffer cond =>
      cases hf
      cases hx
      exact ⟨⟨rfl, rfl⟩, fds_pollOut m fd _⟩
    | connectUnix answer =>
      cases hf
      cases answer <;> cases hx <;> exact ⟨rfl, fds_pollOut m fd _⟩
    | connectTcp answer =>
      cases hf
      cases answer <;> cases hx <;> exact ⟨rfl, fds_pollOut m fd _⟩

theorem start_invoked {op : Operation} (h : start fd callback op m = .ok c₀) : c₀.invoked ≤ 1 := by
  unfold start at h
  cases hx : op.call fd callback m with
  | error e m' =>
    rw [hx] at h
    cases h
  | ok r m' =>
    rw [hx] at h
    cases h
    exact invocations_le callback r

theorem step_event [V8] {e : Event} {f : Callback} (h : c.Kept fd callback) (he : e.fd = fd) (herr : e.isError = false)
    (hf : c.registered = some f) : c.step fd callback (.event e ans) =
      match runCallback ans f c.machine with
      | .ok r m    => .ok { c with machine := m, invoked := c.invoked + invocations callback r }
      | .error e _ => .error e := by
  have hcb : c.machine.service.callbackOf e = some f := by
    rw [Service.callbackOf, herr, if_neg Bool.false_ne_true, he, (h f hf).2]
  simp only [step, he, herr, hf, Option.isSome_some, and_self, if_true, hcb]

/-- **A step** keeps the function where it is, or drops it. -/
theorem step_kept [V8] {t : Turn} (h : c.Kept fd callback) (hs : c.step fd callback t = .ok c') :
    c'.Kept fd callback := by
  cases t with
  | event e ans =>
    by_cases hown : e.fd = fd ∧ e.isError = false ∧ c.registered.isSome
    · obtain ⟨he, herr, hsome⟩ := hown
      obtain ⟨f, hf⟩ := Option.isSome_iff_exists.1 hsome
      rw [step_event h he herr hf] at hs
      cases hr : runCallback ans f c.machine with
      | error e m =>
        rw [hr] at hs
        cases hs
      | ok r m =>
        rw [hr] at hs
        cases hs
        intro f' hf'
        obtain ⟨hown, hfds⟩ := h f' hf'
        refine ⟨hown, ?_⟩
        rw [((runCallback_service (h f hf).1 _).ends.ok rfl hr).1]
        exact hfds
    · rw [step, if_neg hown] at hs
      cases hs
      exact h
  | other m replaced =>
    rw [step] at hs
    split at hs <;> cases hs
    · exact fun f hf => nomatch hf
    · rename_i hkeep
      intro f hf
      refine ⟨(h f hf).1, ?_⟩
      rw [not_or, not_not] at hkeep
      exact hkeep.2.trans (h f hf).2

/-- **One step**: an event that runs the function comes before its callback was invoked. -/
theorem step_invoked [V8] {t : Turn} (h : c.Kept fd callback) (hle : c.invoked ≤ 1) (hok : c.Replaced fd t)
    (hs : c.step fd callback t = .ok c') : c'.invoked ≤ 1 := by
  cases t with
  | event e ans =>
    by_cases hown : e.fd = fd ∧ e.isError = false ∧ c.registered.isSome
    · obtain ⟨he, herr, hsome⟩ := hown
      obtain ⟨f, hf⟩ := Option.isSome_iff_exists.1 hsome
      have hnot : c.invoked ≠ 1 := by
        intro hone
        rw [hok hone he herr] at hf
        cases hf
      rw [step_event h he herr hf] at hs
      cases hr : runCallback ans f c.machine with
      | error e m =>
        rw [hr] at hs
        cases hs
      | ok r m =>
        rw [hr] at hs
        cases hs
        have hone := invocations_le callback r
        show c.invoked + invocations callback r ≤ 1
        omega
    · rw [step, if_neg hown] at hs
      cases hs
      exact hle
  | other m replaced =>
    rw [step] at hs
    split at hs
    · cases hs
      exact hle
    · cases hs
      exact hle

/-- **The callback of one call is invoked once at most**, whatever happens before it is invoked, when from then on each
event of the fd finds another function registered, or the fd deleted; and as long as neither was done, the function the
call registered is what the service has for the fd. -/
theorem invoked_once [V8] (fd : Int) (callback : Cont) (op : Operation) (m : Machine) (c₀ c : Continuation)
    (h₀ : start fd callback op m = .ok c₀) (turns : List Turn)
    (hok : Run.Along (step fd callback) (Replaced fd) c₀ turns) (hrun : turns.foldlM (step fd callback) c₀ = .ok c) :
    c.invoked ≤ 1 ∧ ∀ f ∈ c.registered, c.machine.service.fds fd = some f := by
  have h : c.Kept fd callback ∧ c.invoked ≤ 1 :=
    Run.invariant (I := fun c => c.Kept fd callback ∧ c.invoked ≤ 1)
      (fun _ _ _ h hok hs => ⟨step_kept h.1 hs, step_invoked h.1 h.2 hok hs⟩) turns c₀ c
      ⟨start_kept h₀, start_invoked h₀⟩ hok hrun
  exact ⟨h.2, fun f hf => (h.1 f hf).2⟩

/-- Four bytes are waited for; the callback registers another function before more arrive. -/
def replacing : List Turn :=
  [.event ⟨5, epollIn⟩ ⟨.data [1, 2, 3, 4], [], none⟩, .other (Machine.listening [0]) true,
    .event ⟨5, epollIn⟩ ⟨.data [5], [], none⟩]

theorem invoked_once_size : ∃ c₀ c, start 5 (.user 0) (.readSize 2 (some 4)) (Machine.listening [0]) = .ok c₀ ∧
    replacing.foldlM (@step ascii 5 (.user 0)) c₀ = .ok c ∧ c.invoked ≤ 1 := by
  obtain ⟨c₀, h₀, h⟩ := Run.exists_of_any
    (x := start 5 (.user 0) (.readSize 2 (some 4)) (Machine.listening [0]))
    (p := fun c => decide (c.invoked = 0) && (replacing.foldlM (@step ascii 5 (.user 0)) c).toOption.any fun _ => true)
    (by decide +kernel)
  simp only [Bool.and_eq_true, decide_eq_true_eq] at h
  obtain ⟨hnot, hsome⟩ := h
  obtain ⟨c, hrun, -⟩ := Run.exists_of_any hsome
  refine ⟨c₀, c, h₀, hrun, (@invoked_once ascii 5 (.user 0) _ _ c₀ c h₀ replacing ⟨?_, ?_⟩ hrun).1⟩
  · intro hone
    rw [hnot] at hone
    cases hone
  · intro c₁ _
    refine ⟨trivial, ?_⟩
    intro c₂ h₂
    cases h₂
    exact ⟨fun _ _ _ => rfl, fun _ _ => trivial⟩

/-- **The callback is invoked a second time** by the next byte, when it leaves the four bytes in the buffer and
registers nothing. -/
theorem invoked_twice : ∃ c₀ c, start 5 (.user 0) (.readSize 2 (some 4)) (Machine.listening [0]) = .ok c₀ ∧
    [Turn.event ⟨5, epollIn⟩ ⟨.data [1, 2, 3, 4], [], none⟩,
      Turn.event ⟨5, epollIn⟩ ⟨.data [5], [], none⟩].foldlM (@step ascii 5 (.user 0)) c₀ = .ok c ∧ c.invoked = 2 := by
  obtain ⟨c₀, h₀, h⟩ := Run.exists_of_any
    (x := start 5 (.user 0) (.readSize 2 (some 4)) (Machine.listening [0]))
    (p := fun c => ([Turn.event ⟨5, epollIn⟩ ⟨.data [1, 2, 3, 4], [], none⟩,
      Turn.event ⟨5, epollIn⟩ ⟨.data [5], [], none⟩].foldlM (@step ascii 5 (.user 0)) c).toOption.any
        fun c : Continuation => decide (c.invoked = 2)) (by decide +kernel)
  obtain ⟨c, hc, htwo⟩ := Run.exists_of_any h
  exact ⟨c₀, c, h₀, hc, of_decide_eq_true htwo⟩

end Continuation
end V8h
