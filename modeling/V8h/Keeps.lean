import V8h.BufferSpec
import V8h.Socket
/-!
# Keeps — programs that keep an invariant

`Keeps I E x Q` says that from a state with `I` the program `x` ends with `I` and with a value in `Q`, or throws with
`E`, or traps.  Each function of `buffer.coffee` and `socket.coffee` is judged once, for every invariant that allows
what the function does: that a buffer is written to (`Edits`), that an fd is sent on (`Sends`), that a function is
registered (`Registers`).
-/
namespace V8h

open Machine Effect

namespace Machine

/-- Two states that differ in the captured variables, `errno` and the list of pushes at most. -/
structure Same (m m' : Machine) : Prop where
  service    : m'.service = m.service
  heap       : m'.heap = m.heap
  nextBuffer : m'.nextBuffer = m.nextBuffer
  pool       : m'.pool = m.pool
  clients    : m'.clients = m.clients
  nextClient : m'.nextClient = m.nextClient
  conn       : m'.kernel.conn = m.kernel.conn
  nextConn   : m'.kernel.nextConn = m.kernel.nextConn
  sent       : m'.kernel.sent = m.kernel.sent

theorem Same.refl (m : Machine) : Same m m := ⟨rfl, rfl, rfl, rfl, rfl, rfl, rfl, rfl, rfl⟩

theorem Same.trans {m m' m'' : Machine} (h : Same m m') (h' : Same m' m'') : Same m m'' :=
  ⟨h'.service.trans h.service, h'.heap.trans h.heap, h'.nextBuffer.trans h.nextBuffer, h'.pool.trans h.pool,
    h'.clients.trans h.clients, h'.nextClient.trans h.nextClient, h'.conn.trans h.conn, h'.nextConn.trans h.nextConn,
    h'.sent.trans h.sent⟩

end Machine

/-- A call ends in a trap, which ends the process, or throws in a state with `E`. -/
def Escape (E : Machine → Prop) : Stop → Machine → Prop := fun e m => (∃ t, e = .trap t) ∨ E m

/-- Nothing is said of what the program returns. -/
abbrev Any {α : Type} : α → Prop := fun _ => True

structure Keeps {α : Type} (I E : Machine → Prop) (x : M α) (Q : α → Prop) : Prop where
  ends : Ends I x (fun a m => I m ∧ Q a) (Escape E)

variable {α β : Type} {I J E E' : Machine → Prop} {Q : α → Prop} {Q' : β → Prop} {x : M α}

theorem Keeps.pure {a : α} (h : Q a) : Keeps I E (Pure.pure a : M α) Q := ⟨Ends.pure fun _ hm => ⟨hm, h⟩⟩

theorem Keeps.throw {e : Stop} (h : ∀ m, I m → E m) : Keeps I E (throw e : M α) Q :=
  ⟨Ends.throw fun m hm => .inr (h m hm)⟩

theorem Keeps.bind {f : α → M β} (hx : Keeps I E x Q) (hf : ∀ a, Q a → Keeps I E (f a) Q') : Keeps I E (x >>= f) Q' :=
  ⟨hx.ends.bind_keeping fun a hQ => (hf a hQ).ends⟩

theorem Keeps.andThen {y : M β} (hx : Keeps I E x Q) (hy : Keeps I E y Q') : Keeps I E (x >>= fun _ => y) Q' :=
  hx.bind fun _ _ => hy

/-- What follows need not keep the invariant. -/
theorem Keeps.then {f : α → M β} {R : β → Machine → Prop} (hx : Keeps I E x Q)
    (hf : ∀ a, Q a → Ends I (f a) R (Escape E)) : Ends I (x >>= f) R (Escape E) := hx.ends.bind_keeping hf

theorem Keeps.ite {c : Prop} [Decidable c] {y : M α} (hx : Keeps I E x Q) (hy : Keeps I E y Q) :
    Keeps I E (if c then x else y) Q := by
  split
  · exact hx
  · exact hy

theorem Keeps.of_ok {a : Machine → α} {f : Machine → Machine} (hx : ∀ m, x m = .ok (a m) (f m))
    (h : ∀ m, I m → I (f m)) (hq : ∀ m, I m → Q (a m)) : Keeps I E x Q := ⟨Ends.of_ok hx fun m hm => ⟨h m hm, hq m hm⟩⟩

theorem Keeps.mono {Q' : α → Prop} (h : Keeps I E x Q) (hq : ∀ a, Q a → Q' a) : Keeps I E x Q' :=
  ⟨h.ends.mono (fun _ hm => hm) (fun a _ hm => ⟨hm.1, hq a hm.2⟩) fun _ _ he => he⟩

/-! ## Programs that change nothing the invariants see -/

structure Quiet {α : Type} (x : M α) : Prop where
  ends : ∀ m, Ends (· = m) x (fun _ => Same m) (fun e _ => ∃ t, e = .trap t)

/-- The invariant does not see the variables, `errno` and the list of pushes. -/
def Blind (I : Machine → Prop) : Prop := ∀ m m', I m → Same m m' → I m'

theorem Quiet.keeps (h : Quiet x) (hI : Blind I) : Keeps I E x Any := by
  refine ⟨⟨fun {m m' a} hm hx => ⟨hI m m' hm ((h.ends m).ok rfl hx), trivial⟩, fun {m m' e} hm hx => ?_⟩⟩
  exact .inl ((h.ends m).error rfl hx)

theorem Quiet.of_ok {a : Machine → α} {f : Machine → Machine} (hx : ∀ m, x m = .ok (a m) (f m))
    (h : ∀ m, Same m (f m)) : Quiet x := ⟨fun _ => Ends.of_ok hx fun _ hm => hm ▸ h _⟩

theorem Quiet.pure (a : α) : Quiet (Pure.pure a : M α) := Quiet.of_ok (fun _ => rfl) Same.refl

theorem Quiet.bind {f : α → M β} (hx : Quiet x) (hf : ∀ a, Quiet (f a)) : Quiet (x >>= f) := by
  refine ⟨fun m => (hx.ends m).bind fun a => ⟨fun {m₁ m₂ b} hm hr => ?_, fun {m₁ m₂ e} _ hr => ?_⟩⟩
  · exact hm.trans (((hf a).ends m₁).ok rfl hr)
  · exact ((hf a).ends m₁).error rfl hr

theorem quiet_native (b : Nat) : Quiet (native b) := by
  refine ⟨fun m => ⟨fun {m₁ m₂ nb} hm hx => ?_, fun {m₁ m₂ e} hm hx => ?_⟩⟩
  · subst hm
    unfold native at hx
    split at hx <;> cases hx
    exact Same.refl m₁
  · unfold native at hx
    split at hx <;> cases hx
    exact ⟨_, rfl⟩

theorem quiet_lift (x : Except Trap α) : Quiet (lift x) := by
  refine ⟨fun m => ⟨fun {m₁ m₂ a} hm hx => ?_, fun {m₁ m₂ e} hm hx => ?_⟩⟩
  · subst hm
    unfold lift at hx
    split at hx <;> cases hx
    exact Same.refl m₁
  · unfold lift at hx
    split at hx <;> cases hx
    exact ⟨_, rfl⟩

theorem quiet_getVar (x : Nat) : Quiet (getVar x) := Quiet.of_ok (fun _ => rfl) Same.refl

theorem quiet_setVar (x : Nat) (v : Int) : Quiet (setVar x v) :=
  Quiet.of_ok (fun _ => rfl) fun _ => ⟨rfl, rfl, rfl, rfl, rfl, rfl, rfl, rfl, rfl⟩

theorem quiet_newVar (v : Int) : Quiet (newVar v) :=
  Quiet.of_ok (fun _ => rfl) fun _ => ⟨rfl, rfl, rfl, rfl, rfl, rfl, rfl, rfl, rfl⟩

theorem quiet_setErrno (e : Errno) : Quiet (setErrno e) :=
  Quiet.of_ok (fun _ => rfl) fun _ => ⟨rfl, rfl, rfl, rfl, rfl, rfl, rfl, rfl, rfl⟩

theorem quiet_get : Quiet (get : M Machine) := Quiet.of_ok (fun _ => rfl) Same.refl

theorem quiet_size (b : Nat) : Quiet (Script.size b) := (quiet_native b).bind fun _ => Quiet.pure _

theorem quiet_reserve (b : Nat) : Quiet (Script.reserve b) := (quiet_native b).bind fun _ => Quiet.pure _

theorem quiet_overLimit (b : Nat) : Quiet (BufferPool.overLimit b) := by
  refine quiet_get.bind fun m => ?_
  extract_lets pool
  split
  · exact Quiet.pure _
  · exact (quiet_reserve b).bind fun _ => Quiet.pure _

theorem quiet_partialFindBuffer (b needle : Nat) (offset : Int) : Quiet (Script.partialFindBuffer b needle offset) :=
  (quiet_native b).bind fun _ => (quiet_native needle).bind fun _ => quiet_lift _

theorem quiet_isFound (b : Nat) (last : Int) (n : Nat) : Quiet (Script.isFound b last n) :=
  (quiet_size b).bind fun _ => Quiet.pure _

theorem quiet_condition (b : Nat) (cond : Cond) : Quiet (Socket.condition b cond) := by
  cases cond with
  | user answer => exact (quiet_getVar answer).bind fun _ => Quiet.pure _
  | size n => exact (quiet_size b).bind fun _ => Quiet.pure _
  | token deli n last =>
    exact (quiet_getVar last).bind fun _ => (quiet_partialFindBuffer b deli _).bind fun _ =>
      (quiet_setVar last _).bind fun _ => (quiet_getVar last).bind fun _ => quiet_isFound b _ n

theorem quiet_recv (ans : Answers) (fd : Int) (n : Nat) : Quiet (Socket.recv ans fd n) := by
  refine ⟨fun m => ⟨fun {m₁ m₂ r} hm hx => ?_, fun {m₁ m₂ e} hm hx => ?_⟩⟩
  · subst hm
    unfold Socket.recv at hx
    split at hx <;> cases hx <;> exact ⟨rfl, rfl, rfl, rfl, rfl, rfl, rfl, rfl, rfl⟩
  · unfold Socket.recv at hx
    split at hx <;> cases hx

/-! ## Programs that change a buffer -/

/-- The methods of a native buffer keep `G`. -/
structure Buffer.Stable (G : Buffer → Prop) : Prop where
  clear   : ∀ {b}, G b → G b.clear
  consume : ∀ {b} n, G b → G (b.consume 64 n)
  prepare : ∀ {b b' n}, G b → b.prepare 64 n = .ok b' → G b'
  store   : ∀ {b b' pos src}, G b → b.store pos src = .ok b' → G b'
  commit  : ∀ {b} n, G b → G (b.commit 64 n)

theorem Buffer.stable_any : Stable Any :=
  ⟨fun _ => trivial, fun _ _ => trivial, fun _ _ => trivial, fun _ _ => trivial, fun _ _ => trivial⟩

theorem Buffer.stable_sane : Stable (Sane 64) :=
  ⟨fun h => h.clear.sane, fun n h => h.consume n, fun h hp => h.prepare hp, fun h hs => h.store hs,
    fun n h => h.commit n⟩

theorem Buffer.Stable.write {G : Buffer → Prop} (h : Stable G) {b b' : Buffer} {src : List Cell} (hg : G b)
    (hw : b.write 64 src = .ok b') : G b' := by
  obtain ⟨b₁, h1, hw⟩ := bind_eq_ok.1 hw
  obtain ⟨b₂, h2, hw⟩ := bind_eq_ok.1 hw
  cases hw
  exact h.commit src.length (h.store (h.prepare hg h1) h2)

/-- A buffer of the kind `G` stands for may be there, and any other in its place. -/
structure Edits (I : Machine → Prop) (G : Buffer → Prop) (b : Nat) : Prop where
  blind  : Blind I
  stable : Buffer.Stable G
  good   : ∀ m nb, I m → (m.heap b).native = some nb → G nb
  set    : ∀ m nb, I m → G nb → I { m with heap := Function.update m.heap b { m.heap b with native := some nb } }

variable {G : Buffer → Prop} {b : Nat} {fd : Int}

theorem keeps_lift {y : Except Trap α} (h : ∀ a, y = .ok a → Q a) : Keeps I E (lift y) Q := by
  refine ⟨⟨fun {m m' a} hm hx => ?_, fun {m m' e} hm hx => ?_⟩⟩ <;> unfold lift at hx <;> split at hx <;> cases hx
  · exact ⟨hm, h a rfl⟩
  · exact .inl ⟨_, rfl⟩

namespace Edits

theorem native (h : Edits I G b) : Keeps I E (native b) G := by
  refine ⟨⟨fun {m m' nb} hm hx => ?_, fun {m m' e} hm hx => ?_⟩⟩ <;> unfold Machine.native at hx <;> split at hx <;>
    cases hx
  · rename_i hn
    exact ⟨hm, h.good m nb hm hn⟩
  · exact .inl ⟨_, rfl⟩

theorem setNative (h : Edits I G b) {nb : Buffer} (hg : G nb) : Keeps I E (setNative b nb) Any :=
  .of_ok (fun _ => rfl) (fun m hm => h.set m nb hm hg) fun _ _ => trivial

theorem clear (h : Edits I G b) : Keeps I E (Script.clear b) Any :=
  h.native.bind fun _ hg => h.setNative (h.stable.clear hg)

theorem consume (h : Edits I G b) (n : Int) : Keeps I E (Script.consume b n) Any :=
  h.native.bind fun _ hg => h.setNative (h.stable.consume _ hg)

theorem readUtf8 [V8] (h : Edits I G b) (n : Int) : Keeps I E (Script.readUtf8 b n) Any :=
  h.native.bind fun _ hg => ((quiet_lift _).keeps h.blind).bind fun _ _ =>
    (h.setNative (h.stable.consume _ hg)).bind fun _ _ => .pure trivial

theorem writeUtf8 [V8] (h : Edits I G b) (text : JsString) : Keeps I E (Script.writeUtf8 b text) Any :=
  h.native.bind fun _ hg => Keeps.bind (Q := G) (keeps_lift fun _ hw => h.stable.write hg hw) fun _ hg' =>
    h.setNative hg'

theorem readBuffer (h : Edits I G b) (ans : Answers) (fd : Int) : Keeps I E (Socket._readBuffer ans fd b) Any := by
  refine h.native.bind fun nb hg => ?_
  refine Keeps.bind (Q := G) (keeps_lift fun nb' hp => h.stable.prepare hg hp) fun nb' hg' => ?_
  refine (h.setNative hg').bind fun _ _ => ((quiet_recv ans fd _).keeps h.blind).bind fun r _ => ?_
  rcases r with _ | _ | ⟨byte, bytes⟩
  · exact (h.setNative (h.stable.commit _ hg')).bind fun _ _ => .pure trivial
  · exact ((quiet_setErrno _).keeps h.blind).bind fun _ _ => .pure trivial
  · exact Keeps.bind (Q := G) (keeps_lift fun _ hs => h.stable.store hg' hs) fun _ hg'' =>
      (h.setNative (h.stable.commit _ hg'')).bind fun _ _ => .pure trivial

end Edits

/-! ## Sending -/

/-- Bytes may be sent on the fd. -/
def Sends (I : Machine → Prop) (fd : Int) : Prop := ∀ m c bytes, I m → m.kernel.conn fd = some c →
  I { m with kernel := { m.kernel with sent := Function.update m.kernel.sent c bytes } }

theorem keeps_send (hI : Blind I) (hs : Sends I fd) (data : List UInt8) (answer : Send) :
    Keeps I E (Socket.send fd data answer) Any := by
  refine ⟨⟨fun {m m' n} hm hx => ⟨?_, trivial⟩, fun {m m' e} hm hx => ?_⟩⟩
  · unfold Socket.send at hx
    split at hx
    · cases hx
      exact hI m _ hm ⟨rfl, rfl, rfl, rfl, rfl, rfl, rfl, rfl, rfl⟩
    · cases hx
      exact hI m _ hm ⟨rfl, rfl, rfl, rfl, rfl, rfl, rfl, rfl, rfl⟩
    · rename_i hc
      cases hx
      exact hs m _ _ hm hc
  · unfold Socket.send at hx
    split at hx <;> cases hx

theorem Edits.writeLoop (h : Edits I G b) (hs : Sends I fd) : ∀ (answers : List Send) (n : Int),
    Keeps I E (Socket.writeLoop fd b n answers) Any
  | [], n => by
    rw [Socket.writeLoop]
    refine h.native.bind fun _ _ => .ite (.pure trivial) ?_
    refine ((quiet_lift _).keeps h.blind).bind fun data _ => (keeps_send h.blind hs data _).andThen ?_
    exact (quiet_get.keeps h.blind).bind fun _ _ => .pure trivial
  | answer :: answers, n => by
    rw [Socket.writeLoop]
    refine h.native.bind fun _ hg => .ite (.pure trivial) ?_
    refine ((quiet_lift _).keeps h.blind).bind fun data _ => (keeps_send h.blind hs data answer).bind fun n' _ => ?_
    extract_lets n''
    refine .ite ((h.setNative (h.stable.consume _ hg)).andThen (h.writeLoop hs answers n''))
      (.ite ?_ (h.writeLoop hs answers n''))
    exact (quiet_get.keeps h.blind).bind fun _ _ => .pure trivial

/-- Only a temporary buffer is given to the pool. -/
theorem keeps_release (h : ∀ m, I m → (m.heap b).temporary = false) : Keeps I E (Socket.release b) Any := by
  refine ⟨⟨fun {m m' u} hm hx => ?_, fun {m m' e} hm hx => ?_⟩⟩ <;>
    rw [Socket.release, bind_ok (get_run m), h m hm] at hx <;> cases hx
  exact ⟨hm, trivial⟩

/-! ## Invariants that are not about buffers -/

/-- All the invariant says of buffers and of the pool is that each open buffer is in `G`. -/
structure Lax (I : Machine → Prop) (G : Buffer → Prop) : Prop where
  blind  : Blind I
  stable : Buffer.Stable G
  fresh  : ∀ n, 0 < n → n < 2 ^ 64 → G (Buffer.new n)
  good   : ∀ m b nb, I m → (m.heap b).native = some nb → G nb
  heap   : ∀ m b o, I m → (∀ nb, o.native = some nb → G nb) → I { m with heap := Function.update m.heap b o }
  pool   : ∀ m pool, I m → I { m with pool := pool }
  next   : ∀ m n, I m → I { m with nextBuffer := n }

namespace Lax

theorem edits (h : Lax I G) (b : Nat) : Edits I G b :=
  ⟨h.blind, h.stable, fun m => h.good m b, fun m _ hm hg => h.heap m b _ hm fun _ he => Option.some.inj he ▸ hg⟩

theorem newBuffer (h : Lax I G) {n : Nat} (h0 : 0 < n) (hn : n < 2 ^ 64) : Keeps I E (newBuffer n) Any :=
  .of_ok (fun _ => rfl) (fun m hm => h.next _ _ (h.heap m m.nextBuffer ⟨some (Buffer.new n), false, false⟩ hm
    fun _ he => Option.some.inj he ▸ h.fresh n h0 hn)) fun _ _ => trivial

theorem push (h : Lax I G) (b : Nat) : Keeps I E (BufferPool.push b) Any := by
  have hlog : Quiet (modify fun m => { m with pushes := b :: m.pushes } : M Unit) :=
    Quiet.of_ok (fun _ => rfl) fun _ => ⟨rfl, rfl, rfl, rfl, rfl, rfl, rfl, rfl, rfl⟩
  refine (hlog.keeps h.blind).andThen ((quiet_get.keeps h.blind).bind fun m _ => ?_)
  refine .ite (.pure trivial) (((quiet_overLimit b).keeps h.blind).bind fun _ _ => .ite ?_ ?_)
  · exact .of_ok (fun _ => rfl) (fun m hm => h.heap m b _ hm fun _ he => nomatch he) fun _ _ => trivial
  · refine .of_ok (fun _ => rfl) (fun m hm => ?_) fun _ _ => trivial
    exact h.pool _ _ (h.heap m b { m.heap b with pushed := true } hm fun nb => h.good m b nb hm)

theorem pop (h : Lax I G) : Keeps I E BufferPool.pop Any := by
  refine (quiet_get.keeps h.blind).bind fun m _ => ?_
  split
  · exact h.newBuffer (by decide) (by decide)
  · rename_i b bs _
    refine Keeps.bind (Q := Any) (.of_ok (fun _ => rfl) (fun m hm => ?_) fun _ _ => trivial) fun _ _ => ?_
    · exact h.pool _ _ (h.heap m b { m.heap b with pushed := false } hm fun nb => h.good m b nb hm)
    · exact ((h.edits b).clear).bind fun _ _ => .pure trivial

theorem release (h : Lax I G) (b : Nat) : Keeps I E (Socket.release b) Any := by
  refine (quiet_get.keeps h.blind).bind fun m _ => .ite (Keeps.andThen (Q := Any) ?_ (h.push b)) (.pure trivial)
  exact .of_ok (fun _ => rfl) (fun m hm => h.heap m b _ hm fun nb => h.good m b nb hm) fun _ _ => trivial

end Lax

/-! ## Registering -/

/-- The function may be registered for the fd, and then `J` holds. -/
def Registers (I J : Machine → Prop) (fd : Int) (f : Callback) : Prop := ∀ m events, I m →
  J { m with service := (m.service.inOrOut fd f events).1 }

theorem registers_self (f : Callback) : Registers (fun _ => True) (fun m => m.service.fds fd = some f) fd f :=
  fun m events _ => (congrFun (Service.inOrOut_fds m.service fd f events) fd).trans (Function.update_self ..)

theorem Registers.ends_serviceIn {f : Callback} (h : Registers I J fd f) :
    Ends I (serviceIn fd f) (fun _ => J) (Escape E) := Ends.of_ok (fun _ => rfl) fun m hm => h m epollIn hm

theorem Registers.serviceOut {f : Callback} (h : Registers I I fd f) : Keeps I E (serviceOut fd f) Any :=
  .of_ok (fun _ => rfl) (fun m hm => h m epollOut hm) fun _ _ => trivial

/-! ## The operations of `socket.coffee` -/

/-- What is left to be called is the callback. -/
def Invokes (callback : Cont) (r : Option Task) : Prop := ∀ t ∈ r, ∃ arg, t = .invoke callback arg

/-- What is left to be called is the callback, or the error callback of the fd. -/
def Reports (fd : Int) (callback : Cont) (r : Option Task) : Prop := r = some (.triggerError fd) ∨ Invokes callback r

variable {buffer : Nat} {cond : Cond} {closure : Closure} {callback : Cont}

theorem invokes_none : Invokes callback none := fun _ h => nomatch h

theorem invokes_some (arg : Int) : Invokes callback (some (.invoke callback arg)) :=
  fun _ h => ⟨arg, (Option.some.inj h).symm⟩

theorem callBack_run (closure : Closure) (m : Machine) :
    ∃ arg, Socket.callBack closure m = .ok (.invoke closure.callback arg) m := by
  cases closure with
  | plain callback => exact ⟨0, rfl⟩
  | size size callback => exact ⟨size.getD 0, rfl⟩
  | token n last callback => exact ⟨m.vars last + n, rfl⟩

theorem keeps_callBack : Keeps I E (do return some (← Socket.callBack closure)) (Invokes closure.callback) := by
  refine ⟨⟨fun {m m' r} hm hx => ?_, fun {m m' e} hm hx => ?_⟩⟩ <;> obtain ⟨arg, hrun⟩ := callBack_run closure m <;>
    rw [bind_ok hrun] at hx <;> cases hx
  exact ⟨hm, invokes_some arg⟩

/-- The callback is called when its condition holds. -/
theorem keeps_condition (hI : Blind I) :
    Keeps I E (do if ← Socket.condition buffer cond then return some (← Socket.callBack closure) else return none)
      (Invokes closure.callback) :=
  ((quiet_condition buffer cond).keeps hI).bind fun _ _ => .ite keeps_callBack (.pure invokes_none)

/-- What is registered may be what brings the invariant about. -/
theorem ends_readUntil (hJ : Blind J) (hr : Registers I J fd (.readUntil fd buffer cond closure)) :
    Ends I (Socket.readUntil fd buffer cond closure) (fun r m => J m ∧ Invokes closure.callback r) (Escape E) :=
  hr.ends_serviceIn.bind fun _ => (keeps_condition hJ).ends

theorem keeps_readUntil (hI : Blind I) (hr : Registers I I fd (.readUntil fd buffer cond closure)) :
    Keeps I E (Socket.readUntil fd buffer cond closure) (Invokes closure.callback) := ⟨ends_readUntil hI hr⟩

theorem Edits.onReadable (h : Edits I G buffer) (ans : Answers) :
    Keeps I E (Socket.onReadable ans fd buffer cond closure) (Reports fd closure.callback) :=
  (h.readBuffer ans fd).bind fun _ _ => .ite (.pure (.inl rfl)) ((keeps_condition h.blind).mono fun _ => .inr)

theorem Edits.writeUntilOnce (h : Edits I G buffer) (hs : Sends I fd) (hr : Keeps I E (Socket.release buffer) Any)
    (ans : Answers) : Keeps I E (Socket.writeUntilOnce ans fd buffer cond callback) (Reports fd callback) := by
  refine (h.writeLoop hs ans.sends 0).bind fun n _ => ?_
  extract_lets rest
  have hrest : ∀ done, Keeps I E (rest done) (Reports fd callback) := fun done =>
    .ite (hr.andThen (.ite (.pure (.inl rfl)) (.pure (.inr (invokes_some 0))))) (.pure (.inr invokes_none))
  have htrue : Keeps I E (pure true : M Bool) Any := .pure trivial
  exact .ite (htrue.bind fun done _ => hrest done) (((quiet_condition buffer cond).keeps h.blind).bind fun done _ =>
    hrest done)

/-- Whatever reads for the callback may be registered. -/
def Reads (I : Machine → Prop) (fd : Int) (buffer : Nat) (callback : Cont) : Prop :=
  ∀ cond closure, closure.callback = callback → Registers I I fd (.readUntil fd buffer cond closure)

theorem keeps_readSize (hI : Blind I) (hr : Reads I fd buffer callback) (size : Option Int) :
    Keeps I E (Socket.readSize fd buffer size callback) (Invokes callback) := by
  have hcall : Keeps I E (do return some (← Socket.callBack (.size size callback))) (Invokes callback) := keeps_callBack
  exact ((quiet_condition buffer _).keeps hI).bind fun _ _ =>
    .ite hcall (keeps_readUntil hI (hr _ (.size size callback) rfl))

theorem keeps_readToken (hI : Blind I) (hr : Reads I fd buffer callback) (delim : Nat) :
    Keeps I E (Socket.readToken fd buffer delim callback) (Invokes callback) := by
  refine ((quiet_size delim).keeps hI).bind fun n _ => .ite (.pure (invokes_some 0)) ?_
  exact ((quiet_newVar 0).keeps hI).bind fun last _ => keeps_readUntil hI (hr _ (.token n last callback) rfl)

/-- A delimiter that is not empty is waited for. -/
theorem ends_readToken {delim : Nat} (hI : Blind I) (hJ : Blind J)
    (hd : ∀ m, I m → ∃ d, (m.heap delim).native = some d ∧ toUint d.size ≠ 0)
    (hr : ∀ cond closure, closure.callback = callback → Registers I J fd (.readUntil fd buffer cond closure)) :
    Ends I (Socket.readToken fd buffer delim callback) (fun r m => J m ∧ Invokes callback r) (Escape E) := by
  have hsize : Ends I (Script.size delim) (fun n m => I m ∧ n ≠ 0) (Escape E) := by
    refine ⟨fun {m m' n} hm hx => ?_, fun {m m' e} hm hx => ?_⟩ <;> obtain ⟨d, hd, h0⟩ := hd m hm <;>
      have hn : native delim m = .ok d m := by simp only [native, hd]
    · rw [Script.size, bind_ok hn] at hx
      cases hx
      exact ⟨hm, h0⟩
    · rw [Script.size, bind_ok hn] at hx
      cases hx
  refine hsize.bind_keeping fun n hn => ?_
  rw [if_neg hn]
  exact ((quiet_newVar 0).keeps hI).then fun last _ => ends_readUntil hJ (hr _ (.token n last callback) rfl)

/-- The buffer may be written out for the callback. -/
structure Writes (I E : Machine → Prop) (G : Buffer → Prop) (fd : Int) (buffer : Nat) (callback : Cont) : Prop where
  edits     : Edits I G buffer
  sends     : Sends I fd
  release   : Keeps I E (Socket.release buffer) Any
  empty     : Registers I I fd .empty
  registers : Registers I I fd (.writeBuffer fd buffer callback)

theorem Writes.writeBuffer (h : Writes I E G fd buffer callback) (ans : Answers) :
    Keeps I E (Socket.writeBuffer ans fd buffer callback) (Reports fd callback) := by
  refine h.empty.serviceOut.andThen ((h.edits.writeLoop h.sends ans.sends 0).bind fun n _ => ?_)
  refine ((quiet_size buffer).keeps h.edits.blind).bind fun size _ => ?_
  exact .ite (h.release.andThen (.ite (.pure (.inr (invokes_some 0))) (.pure (.inl rfl))))
    (h.registers.serviceOut.andThen (.pure (.inr invokes_none)))

end V8h
