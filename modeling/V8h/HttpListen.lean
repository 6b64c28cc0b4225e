import V8h.HttpIsolation
import V8h.HttpRequests
import V8h.HttpSafety
/-!
# HttpListen — the listening socket of a server

`Server.listen` registers one function for the listening fd, which accepts a connection and calls `new Client`.  Nothing
the clients do reaches that fd: their functions work on fds the kernel gave out while it was open (`Minds`).  What
closes it is its own error callback, which a failing `accept` calls (`failed_accept_closes`).
-/
namespace V8h

open Machine Effect Socket

/-- The client has another fd, and not the buffer of the delimiter. -/
structure Client.Aside (server : Int) (c : Client) : Prop where
  fd      : c.fd ≠ server
  buffers : ∀ b ∈ c.buffers, b ≠ headerDelim

theorem Client.Aside.buffer {server : Int} {c : Client} (h : c.Aside server) : c.buffer ≠ headerDelim :=
  h.buffers c.buffer (List.mem_cons_self ..)

/-- The function works on another fd, and makes no client. -/
def Callback.Shuns (server : Int) : Callback → Prop
  | .readUntil fd buffer _ callback => fd ≠ server ∧ buffer ≠ headerDelim ∧ callback.callback ≠ .accepted
  | .writeBuffer fd buffer callback => fd ≠ server ∧ buffer ≠ headerDelim ∧ callback ≠ .accepted
  | .acceptTcp _ _ | .writeUntil .. | .connect _ => False
  | .autoClose fd                   => fd ≠ server
  | _                               => True

def Task.Shuns (server : Int) : Task → Prop
  | .call callback     => callback.Shuns server
  | .invoke callback _ => callback ≠ .accepted
  | .triggerError fd   => fd ≠ server
  | .handler _ _       => True

namespace Machine

/-- The fds of the clients made so far, the first one first. -/
def made (m : Machine) : List Int := (List.range m.nextClient).filterMap fun k => (m.clients k).map Client.fd

/-- The listener is open and registered, and `made` are the fds of the clients. -/
structure Listening (server : Int) (made : List Int) (m : Machine) : Prop where
  isOpen     : (m.kernel.conn server).isSome
  registered : m.service.fds server = some (.acceptTcp server .accepted)
  onError    : m.service.fdsError server = some (.autoClose server)
  callbacks  : ∀ fd f, fd ≠ server → m.service.fds fd = some f → f.Shuns server
  errors     : ∀ fd f, fd ≠ server → m.service.fdsError fd = some f → f.Shuns server
  clients    : ∀ k c, m.clients k = some c → c.Aside server
  made_eq    : m.made = made
  pool       : ∀ b ∈ m.pool.buffers, b ≠ headerDelim ∧ (m.heap b).pushed = true ∧ (m.heap b).native.isSome
  nodup      : m.pool.buffers.Nodup
  reserved   : headerDelim < m.nextBuffer
  delim      : m.Stores headerDelim crlf2 (2 ^ 61)
  plain      : ∀ b, (m.heap b).temporary = false
  intact     : m.Intact

variable {server : Int} {l : List Int} {m m' : Machine}

theorem made_congr (hn : m'.nextClient = m.nextClient)
    (hc : ∀ k, (m'.clients k).map Client.fd = (m.clients k).map Client.fd) : m'.made = m.made := by
  simp only [made, hn, hc]

theorem Listening.same (h : m.Listening server l) (hs : Same m m') : m'.Listening server l := by
  refine ⟨?_, ?_, ?_, ?_, ?_, ?_, ?_, ?_, ?_, ?_, ?_, ?_, ?_⟩
  · rw [hs.conn]; exact h.isOpen
  · rw [hs.service]; exact h.registered
  · rw [hs.service]; exact h.onError
  · rw [hs.service]; exact h.callbacks
  · rw [hs.service]; exact h.errors
  · rw [hs.clients]; exact h.clients
  · rw [made_congr hs.nextClient fun k => by rw [hs.clients]]; exact h.made_eq
  · rw [hs.pool, hs.heap]; exact h.pool
  · rw [hs.pool]; exact h.nodup
  · rw [hs.nextBuffer]; exact h.reserved
  · exact h.delim.congr (by rw [hs.heap])
  · rw [hs.heap]; exact h.plain
  · rw [Intact, hs.heap]; exact h.intact

theorem Listening.setHeap (h : m.Listening server l) {b : Nat} {o : BufferObj} (hb : b ≠ headerDelim)
    (hpool : b ∈ m.pool.buffers → o.pushed = true ∧ o.native.isSome) (htemp : o.temporary = false)
    (ho : ∀ nb, o.native = some nb → nb.Sane 64) :
    Listening server l { m with heap := Function.update m.heap b o } := by
  refine ⟨h.isOpen, h.registered, h.onError, h.callbacks, h.errors, h.clients, h.made_eq, fun b' hb' =>
    ?_, h.nodup, h.reserved, ?_,
    fun b' => ?_, h.intact.update ho⟩
  · obtain ⟨h1, h2⟩ := h.pool b' hb'
    refine ⟨h1, ?_⟩
    by_cases he : b' = b
    · subst he
      simpa only [Function.update_self] using hpool hb'
    · simpa only [Function.update_of_ne he] using h2
  · exact h.delim.congr (by simp only [Function.update_of_ne hb.symm])
  · by_cases he : b' = b
    · subst he
      simpa only [Function.update_self] using htemp
    · simpa only [Function.update_of_ne he] using h.plain b'

theorem Listening.setService (h : m.Listening server l) {s : Service Callback}
    (hreg : s.fds server = m.service.fds server) (herr₀ : s.fdsError server = m.service.fdsError server)
    (hfds : ∀ fd f, fd ≠ server → s.fds fd = some f → m.service.fds fd = some f ∨ f.Shuns server)
    (herr : ∀ fd f, fd ≠ server → s.fdsError fd = some f → m.service.fdsError fd = some f ∨ f.Shuns server) :
    Listening server l { m with service := s } :=
  ⟨h.isOpen, hreg.trans h.registered, herr₀.trans h.onError, fun fd f hfd hf =>
  (hfds fd f hfd hf).elim (h.callbacks fd f hfd) id,
    fun fd f hfd hf => (herr fd f hfd hf).elim (h.errors fd f hfd) id, h.clients, h.made_eq, h.pool, h.nodup,
    h.reserved,
    h.delim, h.plain, h.intact⟩

theorem Listening.setClient (h : m.Listening server l) (k : Nat) {f : Client → Client}
    (hf : ∀ c, c.Aside server → (f c).Aside server ∧ (f c).fd = c.fd) :
    Listening server l { m with clients := Function.update m.clients k ((m.clients k).map f) } := by
  refine ⟨h.isOpen, h.registered, h.onError, h.callbacks, h.errors, fun j c hj =>
    ?_, ?_, h.pool, h.nodup, h.reserved, h.delim,
    h.plain, h.intact⟩
  · by_cases hjk : j = k
    · subst hjk
      simp only [Function.update_self, Option.map_eq_some_iff] at hj
      obtain ⟨c₀, hc₀, rfl⟩ := hj
      exact (hf c₀ (h.clients j c₀ hc₀)).1
    · simp only [Function.update_of_ne hjk] at hj
      exact h.clients j c hj
  · rw [← h.made_eq]
    refine made_congr rfl fun j => ?_
    by_cases hjk : j = k
    · subst hjk
      cases hc : m.clients j with
      | none => simp only [Function.update_self, Option.map_none]
      | some c => simp only [Function.update_self, Option.map_some, (hf c (h.clients j c hc)).2]
    · simp only [Function.update_of_ne hjk]

end Machine

/-! ## Programs that leave the listener alone -/

section

variable {α : Type} {server : Int} {l : List Int}

/-- The program keeps `Listening`, and `Q` is about what it returns. -/
abbrev Minds (server : Int) (l : List Int) (x : M α) (Q : α → Prop) : Prop :=
  Keeps (Listening server l) (Listening server l) x Q

theorem blind_listening : Blind (Listening server l) := fun _ _ hm hs => hm.same hs

/-- Any buffer but the delimiter may be written to. -/
theorem edits_listening {b : Nat} (hb : b ≠ headerDelim) : Edits (Listening server l) (Buffer.Sane 64) b where
  blind  := blind_listening
  stable := Buffer.stable_sane
  good   := fun _ nb hm h => hm.intact b nb h
  set    := fun _ _ hm h => hm.setHeap hb (fun hp => ⟨(hm.pool b hp).2.1, rfl⟩) (hm.plain b)
    fun _ he => Option.some.inj he ▸ h

theorem minds_push {b : Nat} (hb : b ≠ headerDelim) : Minds server l (BufferPool.push b) Any := by
  have htraps : ∀ m, Ends _ (BufferPool.push b) _ (Escape fun _ => False) := fun m => ((lax_idle m).push b).ends
  refine ⟨⟨fun {m m' u} hm hx => ⟨?_, trivial⟩, fun {m m' e} hm hx =>
    .inl (((htraps m).error ⟨Idle.refl m, hm.intact⟩ hx).resolve_right id)⟩⟩
  have hm₁ : Listening server l { m with pushes := b :: m.pushes } :=
    hm.same ⟨rfl, rfl, rfl, rfl, rfl, rfl, rfl, rfl, rfl⟩
  have hclosed (hout : b ∉ m.pool.buffers) : Listening server l { m with
      pushes := b :: m.pushes, heap := Function.update m.heap b { m.heap b with native := none } } :=
    hm₁.setHeap hb (fun h => absurd h hout) (hm.plain b) fun _ he => nomatch he
  have hout : (m.heap b).pushed = false → b ∉ m.pool.buffers := fun hp h => by
    rw [(hm.pool b h).2.1] at hp
    cases hp
  cases hn : (m.heap b).native with
  | none =>
    rw [BufferPool.push_closed hn] at hx
    cases hp : (m.heap b).pushed with
    | true =>
      rw [hp, if_pos rfl] at hx
      cases hx
      exact hm₁
    | false =>
      rw [hp, if_neg Bool.false_ne_true] at hx
      split at hx <;> cases hx
      exact hclosed (hout hp)
  | some nb =>
    rw [BufferPool.push_run hn] at hx
    cases hp : (m.heap b).pushed with
    | true =>
      rw [hp, if_pos rfl] at hx
      cases hx
      exact hm₁
    | false =>
      have hout := hout hp
      rw [hp] at hx
      cases hx
      simp only [Bool.false_eq_true, if_false]
      split
      · exact hclosed hout
      · have h₂ : Listening server l { m with
            pushes := b :: m.pushes, heap := Function.update m.heap b { m.heap b with pushed := true } } :=
          hm₁.setHeap hb (fun h => absurd h hout) (hm.plain b) fun _ he => hm.intact b _ he
        refine ⟨h₂.isOpen, h₂.registered, h₂.onError, h₂.callbacks, h₂.errors, h₂.clients, h₂.made_eq, fun b' hb' => ?_,
          List.nodup_cons.2 ⟨hout, hm.nodup⟩, h₂.reserved, h₂.delim, h₂.plain, h₂.intact⟩
        rcases List.mem_cons.1 hb' with rfl | hb'
        · simp only [Function.update_self, hn]
          exact ⟨hb, trivial, rfl⟩
        · exact h₂.pool b' hb'

theorem minds_pop : Minds server l BufferPool.pop fun b => b ≠ headerDelim := by
  have htraps : ∀ m, Ends _ BufferPool.pop _ (Escape fun _ => False) := fun m => (lax_idle m).pop.ends
  refine ⟨⟨fun {m m' b} hm hx => ?_, fun {m m' e} hm hx =>
    .inl (((htraps m).error ⟨Idle.refl m, hm.intact⟩ hx).resolve_right id)⟩⟩
  rw [BufferPool.pop_run] at hx
  cases hp : m.pool.buffers with
  | nil =>
    rw [hp] at hx
    cases hx
    have hne : m.nextBuffer ≠ headerDelim := Nat.ne_of_gt hm.reserved
    have h₁ := hm.setHeap (o := ⟨some (Buffer.new 512), false, false⟩) hne (fun h => by rw [hp] at h; cases h) rfl
      fun _ he => Option.some.inj he ▸ (Buffer.new_spec (by decide) (by decide)).sane
    exact ⟨⟨h₁.isOpen, h₁.registered, h₁.onError, h₁.callbacks, h₁.errors, h₁.clients, h₁.made_eq, h₁.pool, h₁.nodup,
      Nat.lt_succ_of_lt hm.reserved, h₁.delim, h₁.plain, h₁.intact⟩, hne⟩
  | cons b₀ bs =>
    have hmem : b₀ ∈ m.pool.buffers := hp ▸ List.mem_cons_self ..
    have hnodup := List.nodup_cons.1 (hp ▸ hm.nodup)
    obtain ⟨hne, -, hsome⟩ := hm.pool b₀ hmem
    obtain ⟨nb, hn⟩ := Option.isSome_iff_exists.1 hsome
    rw [hp] at hx
    simp only [hn] at hx
    cases hx
    have hrest : Listening server l { m with pool := { m.pool with buffers := bs } } :=
      ⟨hm.isOpen, hm.registered, hm.onError, hm.callbacks, hm.errors, hm.clients, hm.made_eq,
        fun b hb => hm.pool b (hp ▸ List.mem_cons_of_mem _ hb), hnodup.2, hm.reserved, hm.delim, hm.plain, hm.intact⟩
    exact ⟨hrest.setHeap hne (fun h => absurd h hnodup.1) (hm.plain b) fun _ he =>
      Option.some.inj he ▸ (hm.intact b nb hn).clear.sane, hne⟩

/-! ## The operations of `socket.coffee` -/

/-- What is left to be called works on another fd. -/
def Leave (server : Int) (r : Option Task) : Prop := ∀ t ∈ r, t.Shuns server

theorem leave_none : Leave server none := fun _ h => nomatch h

theorem Invokes.leave {callback : Cont} (hc : callback ≠ .accepted) {r : Option Task} (h : Invokes callback r) :
    Leave server r := fun t ht => by
  obtain ⟨arg, rfl⟩ := h t ht
  exact hc

theorem Reports.leave {fd : Int} {callback : Cont} (hfd : fd ≠ server) (hc : callback ≠ .accepted) {r : Option Task}
    (h : Reports fd callback r) : Leave server r := by
  rcases h with rfl | h
  · exact fun t ht => Option.some.inj ht ▸ hfd
  · exact h.leave hc

theorem registers_listening {fd : Int} {f : Callback} (hfd : fd ≠ server) (hf : f.Shuns server) :
    Registers (Listening server l) (Listening server l) fd f := fun m events hm => by
  have hfds : (m.service.inOrOut fd f events).1.fds = Function.update m.service.fds fd (some f) :=
    Service.inOrOut_fds ..
  have herr : (m.service.inOrOut fd f events).1.fdsError = m.service.fdsError := Service.inOrOut_fdsError ..
  refine hm.setService ?_ ?_ (fun fd' f' _ hf' => ?_) fun fd' f' _ hf' => ?_
  · rw [hfds, Function.update_of_ne hfd.symm]
  · rw [herr]
  · rw [hfds, Function.update_apply] at hf'
    split at hf'
    · cases hf'
      exact .inr hf
    · exact .inl hf'
  · rw [herr] at hf'
    exact .inl hf'

theorem minds_close {fd : Int} (hfd : fd ≠ server) : Minds server l (Socket.close fd) Any := by
  refine .of_ok (fun _ => rfl) (fun m hm => ?_) fun _ _ => trivial
  have h₁ : Listening server l { m with service := (m.service.del fd).1 } := by
    refine hm.setService ?_ ?_ (fun fd' f' _ hf' => .inl ?_) fun fd' f' _ hf' => .inl ?_
    · rw [Service.del_fds, Function.update_of_ne hfd.symm]
    · rw [Service.del_fdsError, Function.update_of_ne hfd.symm]
    · rw [Service.del_fds, Function.update_apply] at hf'
      split at hf' <;> [cases hf'; exact hf']
    · rw [Service.del_fdsError, Function.update_apply] at hf'
      split at hf' <;> [cases hf'; exact hf']
  refine ⟨?_, h₁.registered, h₁.onError, h₁.callbacks, h₁.errors, h₁.clients, h₁.made_eq, h₁.pool, h₁.nodup,
    h₁.reserved, h₁.delim,
    h₁.plain, h₁.intact⟩
  show (Function.update m.kernel.conn fd none server).isSome
  rw [Function.update_of_ne hfd.symm]
  exact hm.isOpen

variable {fd : Int} {buffer : Nat} {callback : Cont}

theorem listening_writes (hfd : fd ≠ server) (hb : buffer ≠ headerDelim) (hc : callback ≠ .accepted) :
    Writes (Listening server l) (Listening server l) (Buffer.Sane 64) fd buffer callback where
  edits     := edits_listening hb
  sends     := fun _ _ _ hm _ => ⟨hm.isOpen, hm.registered, hm.onError, hm.callbacks, hm.errors, hm.clients, hm.made_eq,
    hm.pool, hm.nodup, hm.reserved, hm.delim, hm.plain, hm.intact⟩
  release   := keeps_release fun _ hm => hm.plain buffer
  empty     := registers_listening hfd trivial
  registers := registers_listening hfd ⟨hfd, hb, hc⟩

theorem minds_triggerError (hfd : fd ≠ server) : Minds server l (Socket.triggerError fd) (Leave server) := by
  refine ⟨⟨fun {m m' r} hm hx => ?_, fun {m m' e} hm hx => ?_⟩⟩ <;> rw [triggerError_run] at hx <;> split at hx <;>
    cases hx
  · rename_i f hf
    exact ⟨hm, fun t ht => Option.some.inj ht ▸ hm.errors fd f hfd hf⟩
  · exact .inr hm

/-! ## The methods of `Client` -/

variable {k : Nat}

theorem minds_client : Minds server l (client k) (Client.Aside server) := by
  refine ⟨⟨fun {m m' c} hm hx => ?_, fun {m m' e} hm hx => ?_⟩⟩ <;> unfold client at hx <;> split at hx <;> cases hx
  · rename_i hc
    exact ⟨hm, hm.clients k c hc⟩
  · exact .inr hm

theorem minds_modifyClient {f : Client → Client} (hf : ∀ c, c.Aside server → (f c).Aside server ∧ (f c).fd = c.fd) :
    Minds server l (modifyClient k f) Any :=
  .of_ok (fun _ => rfl) (fun _ hm => hm.setClient k hf) fun _ _ => trivial

theorem minds_clientClose : Minds server l (Client.close k) Any := by
  refine minds_client.bind fun c hc => (minds_push hc.buffer).andThen ?_
  have htail : Minds server l (do
      Socket.close c.fd
      modifyClient k fun c => { c with closed := true }) Any :=
    (minds_close hc.fd).andThen (minds_modifyClient fun _ h => ⟨⟨h.fd, h.buffers⟩, rfl⟩)
  cases hb : c.boundary with
  | none => exact htail
  | some b =>
    have hne : b ≠ headerDelim := hc.buffers b (List.mem_cons_of_mem _ (by rw [hb]; exact List.mem_cons_self ..))
    exact (minds_push hne).andThen htail

theorem listening_attends : Attends (Listening server l) (Listening server l) (Buffer.Sane 64) k (Client.Aside server)
    (fun callback => callback.client = some k) where
  client := minds_client
  edits  := fun _ hc => edits_listening hc.buffer
  reads  := fun c callback hc hk cond closure he => by
    refine registers_listening hc.fd ⟨hc.fd, hc.buffer, ?_⟩
    rw [he]
    rintro rfl
    cases hk

/-- **Whatever is called for a client minds the listener.** -/
theorem listening_tends [V8] : Tends (Listening server l) (Listening server l) (Buffer.Sane 64) k (Client.Aside server)
    (Task.Shuns server) where
  toAttends := listening_attends
  edit    := fun f hf => minds_modifyClient fun c h => by
    obtain ⟨h1, h2, h3, -⟩ := hf c
    refine ⟨⟨h1 ▸ h.fd, ?_⟩, h1⟩
    rw [Client.buffers, h2, h3]
    exact h.buffers
  bound   := fun text => minds_pop.bind fun b hb => Keeps.andThen (minds_modifyClient fun c h => ⟨⟨h.fd, by
    -- the boundary is the buffer popped
    rintro b' hb'
    rcases List.mem_cons.1 hb' with rfl | hb'
    · exact h.buffer
    · exact List.mem_singleton.1 hb' ▸ hb⟩, rfl⟩) ((edits_listening hb).writeUtf8 text)
  closes  := minds_clientClose.ends.mono (fun _ h => h) (fun _ _ h => h.1) fun _ _ h => h
  invokes := fun callback arg hk => by
    rintro rfl
    cases hk
  handles := fun _ => trivial

/-! ## Calls -/

theorem minds_runCallback (ans : Answers) {f : Callback} (hf : f.Shuns server) :
    Minds server l (runCallback ans f) (Leave server) := by
  cases f with
  | user id => exact .pure leave_none
  | empty => exact .pure leave_none
  | readUntil fd buffer cond callback =>
    obtain ⟨hfd, hb, hc⟩ := hf
    exact ((edits_listening hb).onReadable ans).mono fun _ => Reports.leave hfd hc
  | writeUntil fd buffer cond callback => exact absurd hf id
  | writeBuffer fd buffer callback =>
    obtain ⟨hfd, hb, hc⟩ := hf
    exact ((listening_writes hfd hb hc).writeBuffer ans).mono fun _ => Reports.leave hfd hc
  | connect callback => exact absurd hf id
  | acceptTcp fd callback => exact absurd hf id
  | autoClose fd => exact (minds_close hf).andThen (.pure leave_none)
  | clientError k => exact minds_clientClose.andThen (.pure leave_none)

theorem minds_runCont [V8] (arg : Int) {callback : Cont} (hc : callback ≠ .accepted) :
    Minds server l (runCont arg callback) (Leave server) := by
  cases callback
  case user => exact .pure leave_none
  case accepted => exact absurd rfl hc
  all_goals exact (listening_tends.runCont rfl arg).keeps

theorem minds_runTask [V8] (ans : Answers) {t : Task} (ht : t.Shuns server) :
    Minds server l (runTask ans t) (Leave server) := by
  cases t with
  | call f => exact minds_runCallback ans ht
  | invoke callback arg => exact minds_runCont arg ht
  | triggerError fd => exact minds_triggerError ht
  | handler k req => exact .pure leave_none

theorem minds_runMethod [V8] (ans : Answers) (k : Nat) (method : Method) :
    Minds server l (Process.runMethod ans k method) (Leave server) := by
  refine (listening_tends.runMethod (fun _ hc => hc.fd) (fun c callback hc hk => ?_) ans method).keeps
  refine listening_writes hc.fd hc.buffer ?_
  rintro rfl
  cases hk

end

/-! ## A connection accepted -/

section

variable {server : Int} {l : List Int} {m : Machine} {fd : Int}

/-- **`accept` gives a number not in use**, and the listener is as before. -/
theorem onAcceptable_run {ans : Answers} (h : m.Listening server l) (ha : ans.accept = some fd)
    (hfree : m.kernel.conn fd = none) : ∃ m', onAcceptable ans server .accepted m =
    .ok (some (.invoke .accepted fd)) m' ∧
      m'.Listening server l ∧ fd ≠ server ∧ (m'.kernel.conn fd).isSome := by
  have hne : fd ≠ server := by
    rintro rfl
    have := h.isOpen
    rw [hfree] at this
    cases this
  obtain ⟨x, hx⟩ := Option.isSome_iff_exists.1 h.isOpen
  have hrun : _acceptTcp ans server m = .ok (some fd) { m with kernel := { m.kernel with
      conn := Function.update m.kernel.conn fd (some m.kernel.nextConn), nextConn := m.kernel.nextConn + 1 } } := by
    simp only [_acceptTcp, hx, ha, hfree, Option.isSome_none]
    rfl
  refine ⟨_, (bind_ok hrun).trans rfl,
    ⟨?_, h.registered, h.onError, h.callbacks, h.errors, h.clients, h.made_eq, h.pool, h.nodup,
    h.reserved, h.delim, h.plain, h.intact⟩, hne, ?_⟩
  · simp only [Function.update_of_ne hne.symm]
    exact h.isOpen
  · simp only [Function.update_self, Option.isSome_some]

/-- The buffer a new client gets is empty. -/
theorem pop_listening (h : m.Listening server l) : ∃ b m', BufferPool.pop m = .ok b m' ∧ m'.Listening server l ∧
    b ≠ headerDelim ∧ m'.Stores b [] 0 ∧ m'.nextClient = m.nextClient ∧ m'.kernel = m.kernel := by
  have hkeep : ∀ {b m'}, BufferPool.pop m = .ok b m' → m'.Listening server l ∧ b ≠ headerDelim := fun hx =>
    minds_pop.ends.ok h hx
  have hrun := BufferPool.pop_run m
  cases hp : m.pool.buffers with
  | nil =>
    rw [hp] at hrun
    obtain ⟨h1, h2⟩ := hkeep hrun
    refine ⟨_, _, hrun, h1, h2, ⟨Buffer.new 512, ?_, Buffer.new_spec (by decide) (by decide), Nat.le_refl 0⟩, rfl, rfl⟩
    simp only [Function.update_self]
  | cons b bs =>
    obtain ⟨nb, hn⟩ := Option.isSome_iff_exists.1 (h.pool b (hp ▸ List.mem_cons_self ..)).2.2
    rw [hp] at hrun
    simp only [hn] at hrun
    obtain ⟨h1, h2⟩ := hkeep hrun
    refine ⟨_, _, hrun, h1, h2, ⟨nb.clear, ?_, (h.intact b nb hn).clear, Nat.le_refl 0⟩, rfl, rfl⟩
    simp only [Function.update_self]

/-- **One client is made for the fd and started**: its header is waited for. -/
theorem accepted_run (h : m.Listening server l) (hfd : fd ≠ server) (hopen : (m.kernel.conn fd).isSome) :
    ∃ m' c last, (do Client.start (← Client.new fd) : M (Option Task)) m = .ok none m' ∧
      m'.Listening server (l ++ [fd]) ∧ m'.Connected m.nextClient c ∧ c.fd = fd ∧
      Awaiting c.fd c.buffer headerDelim last crlf2 (.header m.nextClient) [] m' := by
  have h₁ : Listening server l { m with service := m.service.error fd (.clientError m.nextClient) } := by
    refine h.setService rfl ?_ (fun _ _ _ hf => .inl hf) fun fd' f _ hf => ?_
    · rw [Service.error_fdsError, Function.update_of_ne hfd.symm]
    · rw [Service.error_fdsError, Function.update_apply] at hf
      split at hf
      · cases hf
        exact .inr trivial
      · exact .inl hf
  obtain ⟨b, m₂, hpop, h₂, hb, hstores, hn₂, hk₂⟩ := pop_listening h₁
  let c : Client := ⟨fd, b, none, ⟨none, none, []⟩, false, none, false⟩
  let m₃ : Machine := { m₂ with
    clients := Function.update m₂.clients m.nextClient (some c), nextClient := m.nextClient + 1 }
  have hnew : Client.new fd m = .ok m.nextClient m₃ := by
    rw [Client.new_run, hpop]
  have hold : ∀ j < m.nextClient, m₃.clients j = m₂.clients j := fun j hj => Function.update_of_ne (Nat.ne_of_lt hj) ..
  have hmade : m₃.made = l ++ [fd] := by
    have hpast : (List.range m.nextClient).filterMap (fun k => (m₃.clients k).map Client.fd) = l := by
      rw [← h₂.made_eq, made, hn₂]
      exact List.filterMap_congr fun j hj => by rw [hold j (List.mem_range.1 hj)]
    have hself : m₃.clients m.nextClient = some c := Function.update_self ..
    rw [made, List.range_succ, List.filterMap_append, hpast]
    simp only [List.filterMap_cons, List.filterMap_nil, hself, Option.map_some]
    rfl
  have h₃ : m₃.Listening server (l ++ [fd]) := by
    refine ⟨h₂.isOpen, h₂.registered, h₂.onError, h₂.callbacks, h₂.errors, fun j c' hj =>
      ?_, hmade, h₂.pool, h₂.nodup, h₂.reserved,
      h₂.delim, h₂.plain, h₂.intact⟩
    by_cases hjk : j = m.nextClient
    · subst hjk
      have hc : m₃.clients m.nextClient = some c := Function.update_self ..
      obtain rfl : c = c' := Option.some.inj (hc.symm.trans hj)
      exact ⟨hfd, fun b' hb' => List.mem_singleton.1 hb' ▸ hb⟩
    · exact h₂.clients j c' ((Function.update_of_ne hjk ..).symm.trans hj)
  have hconn : m₃.Connected m.nextClient c :=
    ⟨Function.update_self .., by show (m₂.kernel.conn fd).isSome; rw [hk₂]; exact hopen, h₃.plain b, hb, h₃.delim⟩
  obtain ⟨m', last, hrun, hconn', hawait, -⟩ := Client.recvHeader_run hconn hstores
  have h' : m'.Listening server (l ++ [fd]) := ((listening_attends.recvHeader rfl).ends.ok h₃ hrun).1
  exact ⟨m', c, last, (bind_ok hnew).trans hrun, h', hconn', rfl, hawait⟩

end

namespace Process

/-! ## Runs -/

/-- The fd a step accepts a connection on. -/
def accepted (server : Int) : Input → Option Int
  | .event e ans => if e.fd = server then ans.accept else none
  | _            => none

/-- An event on the listening fd is a readable one, and its `accept` succeeds. -/
def Accepting (server : Int) (p : Process) : Input → Prop
  | .event e ans => e.fd = server → e.isError = false ∧ ∃ fd ∈ ans.accept, p.machine.kernel.conn fd = none
  | _            => True

instance (server : Int) (p : Process) : ∀ i, Decidable (Accepting server p i)
  | .event _ ans => inferInstanceAs (Decidable (_ → _ ∧ ∃ fd ∈ ans.accept, p.machine.kernel.conn fd = none))
  | .call _ _ _ | .go _ => .isTrue trivial

/-- The fd a client is about to be made for. -/
def making (p : Process) : List Int :=
  match p.task with
  | some (.invoke .accepted fd) => [fd]
  | _                           => []

/-- A client was made for each connection accepted, in order, or is about to be. -/
inductive Tended (server : Int) (p : Process) : List Int → Prop
  | idle {l : List Int} (h : p.machine.Listening server l) (ht : Leave server p.task) : Tended server p l
  | accepting {l : List Int} {fd : Int} (h : p.machine.Listening server l) (ht : p.task = some (.invoke .accepted fd))
      (hl : p.left = false) (hfd : fd ≠ server) (hopen : (p.machine.kernel.conn fd).isSome) :
        Tended server p (l ++ [fd])

section

variable [V8] {server : Int} {l : List Int} {p p' : Process} {i : Input}

omit [V8] in
theorem tended_ended {x : M (Option Task)} {byUser : Bool} (h : p.machine.Listening server l)
    (hx : Minds server l x (Leave server)) (hend : ended byUser (x p.machine) = .ok p') : p'.Tended server l := by
  cases hr : x p.machine with
  | ok r m' =>
    rw [hr] at hend
    cases hend
    obtain ⟨h1, h2⟩ := hx.ends.ok h hr
    exact .idle h1 h2
  | error e m' =>
    rw [hr] at hend
    rcases hx.ends.error h hr with ⟨t, rfl⟩ | h'
    · cases hend
    · cases e with
      | trap t => cases hend
      | throw e =>
        cases hend
        exact .idle h' leave_none

omit [V8] in
/-- **An accept that succeeds** leaves the client to be made. -/
theorem tended_event {e : Event} {ans : Answers} {f : Callback} (h : p.machine.Listening server l)
    (hok : Accepting server p (.event e ans)) (hf : p.machine.service.callbackOf e = some f)
    (hend : ended false (runCallback ans f p.machine) = .ok p') :
    p'.Tended server (l ++ (accepted server (.event e ans)).toList) := by
  by_cases he : e.fd = server
  · obtain ⟨hnot, fd, hfd, hfree⟩ := hok he
    rw [Service.callbackOf, hnot, if_neg Bool.false_ne_true, he, h.registered] at hf
    cases hf
    obtain ⟨m', hrun, h', hne, hopen⟩ := onAcceptable_run h hfd hfree
    rw [runCallback, hrun] at hend
    cases hend
    rw [accepted, if_pos he, hfd]
    exact .accepting h' rfl rfl hne hopen
  · have hshuns : f.Shuns server := by
      unfold Service.callbackOf at hf
      split at hf
      · exact h.errors e.fd f he hf
      · exact h.callbacks e.fd f he hf
    rw [accepted, if_neg he]
    exact (List.append_nil l).symm ▸ tended_ended h (minds_runCallback ans hshuns) hend

theorem go_accepting {fd : Int} (h : p.machine.Listening server l) (ht : p.task = some (.invoke .accepted fd))
    (hl : p.left = false) (hfd : fd ≠ server) (hopen : (p.machine.kernel.conn fd).isSome) (ans : Answers) :
    ∃ p', p.step (.go ans) = .ok p' ∧ p'.machine.Listening server (l ++ [fd]) ∧
      HeaderAwaited p.machine.nextClient fd [] p' := by
  obtain ⟨m', c, last, hrun, h', hconn, hc, hawait⟩ := accepted_run h hfd hopen
  have hgo : p.step (.go ans) = .ok ⟨m', none, p.byUser, false⟩ := by
    rw [step_go ht hl, runTask, runCont, hrun, ended]
  exact ⟨_, hgo, h', rfl, rfl, c, last, hconn, hc, hc ▸ hawait⟩

/-- **One step.** -/
theorem step_tended (h : p.Tended server l) (hok : Accepting server p i) (hs : p.step i = .ok p') :
    p'.Tended server (l ++ (accepted server i).toList) := by
  cases h with
  | idle h ht =>
    obtain ⟨e, ans, f, rfl, -, hf, hend⟩ | ⟨k, method, ans, rfl, -, hend⟩ | ⟨ans, t, rfl, htask, hend⟩ := step_cases hs
    · exact tended_event h hok hf hend
    · exact (List.append_nil l).symm ▸ tended_ended h (minds_runMethod ans k method) hend
    · exact (List.append_nil l).symm ▸ tended_ended h (minds_runTask ans (ht t htask)) hend
  | accepting h ht hl hfd hopen =>
    obtain ⟨ans, rfl, -⟩ := step_of_task ht hs
    obtain ⟨p₁, hs₁, h₁, hwait⟩ := go_accepting h ht hl hfd hopen ans
    obtain rfl := Except.ok.inj (hs.symm.trans hs₁)
    refine (List.append_nil _).symm ▸ .idle h₁ ?_
    rw [hwait.task]
    exact leave_none

/-- What is to hold in every state: the listening fd is open and registered, and each connection accepted has one
client, made in order; one that is about to be made is made and started by the next step. -/
structure Listens (server : Int) (accepted : List Int) (p : Process) : Prop where
  isOpen     : (p.machine.kernel.conn server).isSome
  registered : p.machine.service.fds server = some (.acceptTcp server .accepted)
  made       : p.machine.made ++ p.making = accepted
  started    : ∀ fd, p.task = some (.invoke .accepted fd) → ∀ ans, ∃ p', p.step (.go ans) = .ok p' ∧
    HeaderAwaited p.machine.nextClient fd [] p'

theorem Tended.listens (h : p.Tended server l) : p.Listens server l := by
  cases h with
  | idle h ht =>
    have hnot : ∀ fd, p.task ≠ some (.invoke .accepted fd) := fun fd he => ht _ he rfl
    refine ⟨h.isOpen, h.registered, ?_, fun fd he => absurd he (hnot fd)⟩
    rw [making, h.made_eq]
    split
    · rename_i fd he
      exact absurd he (hnot fd)
    · exact List.append_nil l
  | accepting h ht hl hfd hopen =>
    refine ⟨h.isOpen, h.registered, by rw [making, ht, h.made_eq], fun fd' he ans => ?_⟩
    cases ht.symm.trans he
    obtain ⟨p', hs, -, hwait⟩ := go_accepting h ht hl hfd hopen ans
    exact ⟨p', hs, hwait⟩

theorem initial_tended (server : Int) : (initial server).Tended server [] := by
  obtain ⟨d₀, d₁, hinit, hd₀, hd₁, hused, -⟩ := initial_eq server
  rw [hinit]
  have hfds : (booted server d₀ d₁).service.fds =
      Function.update (fun _ => none) server (some (.acceptTcp server .accepted)) := Service.pollIn_fds ..
  have herr : (booted server d₀ d₁).service.fdsError =
      Function.update (fun _ => none) server (some (.autoClose server)) := Service.pollIn_fdsError ..
  have hheap : ∀ b, (booted server d₀ d₁).heap b = ⟨if b = 1 then some d₁ else if b = 0 then some d₀ else none, false,
      false⟩ := fun b => by
    show Function.update (Function.update _ 0 _) 1 _ b = _
    rw [Function.update_apply, Function.update_apply]
    by_cases h1 : b = 1
    · rw [if_pos h1, if_pos h1]
    · rw [if_neg h1, if_neg h1]
      by_cases h0 : b = 0
      · rw [if_pos h0, if_pos h0]
      · rw [if_neg h0, if_neg h0]
        rfl
  refine .idle ⟨?_, ?_, ?_, fun fd f hfd hf => ?_, fun fd f hfd hf => ?_, (fun _ _ h => nomatch h), rfl,
    (fun _ h => nomatch h), List.nodup_nil, Nat.two_pos, ⟨d₀, ?_, hd₀, by omega⟩, fun b => ?_, fun b nb hb =>
    ?_⟩ leave_none
  · have hconn : (booted server d₀ d₁).kernel.conn server = some 0 := by simp [booted]
    exact Option.isSome_iff_exists.2 ⟨0, hconn⟩
  · rw [hfds, Function.update_self]
  · rw [herr, Function.update_self]
  · rw [hfds, Function.update_of_ne hfd] at hf
    cases hf
  · rw [herr, Function.update_of_ne hfd] at hf
    cases hf
  · rw [hheap]
    rfl
  · rw [hheap]
  · rw [hheap] at hb
    split at hb
    · cases hb
      exact hd₁.sane
    · split at hb <;> cases hb
      exact hd₀.sane

omit [V8] in
/-- `accept` fails when there is no connection to give, or no number. -/
theorem onAcceptable_fails {m : Machine} {ans : Answers} (ha : ∀ fd ∈ ans.accept, (m.kernel.conn fd).isSome) :
    onAcceptable ans server .accepted m = .ok (some (.triggerError server)) m := by
  have hrun : _acceptTcp ans server m = .ok none m := by
    unfold _acceptTcp
    split
    · rename_i fd _ hfd
      rw [if_pos (ha fd hfd)]
    · rfl
  exact bind_ok hrun

/-- **One accept that fails closes the listener**, by way of `$triggerError` and the callback of `autoCloseOnError`. -/
theorem failed_accept_closes {e : Event} {ans ans₁ ans₂ : Answers} (h : p.machine.Listening server l)
    (ht : p.task = none) (hl : p.left = false) (he : e.fd = server) (hread : e.isError = false)
    (ha : ∀ fd ∈ ans.accept, (p.machine.kernel.conn fd).isSome) :
    ∃ p', [.event e ans, .go ans₁, .go ans₂].foldlM step p = .ok p' ∧ p'.machine.kernel.conn server = none ∧
      p'.machine.service.fds server = none := by
  have hf : p.machine.service.callbackOf e = some (.acceptTcp server .accepted) := by
    rw [Service.callbackOf, hread, if_neg Bool.false_ne_true, he, h.registered]
  have h₁ : p.step (.event e ans) = .ok ⟨p.machine, some (.triggerError server), false, false⟩ := by
    rw [step_event ht hl hf, runCallback, onAcceptable_fails ha, ended]
  have h₂ : step ⟨p.machine, some (.triggerError server), false, false⟩ (.go ans₁) =
      .ok ⟨p.machine, some (.call (.autoClose server)), false, false⟩ := by
    rw [step_go rfl rfl, runTask, triggerError_run, h.onError, ended]
  have h₃ : step ⟨p.machine, some (.call (.autoClose server)), false, false⟩ (.go ans₂) =
      .ok ⟨{ p.machine with
        service := (p.machine.service.del server).1
        kernel  := { p.machine.kernel with conn := Function.update p.machine.kernel.conn server none } },
        none, false, false⟩ := by
    rw [step_go rfl rfl]
    rfl
  refine ⟨_, (Run.foldlM_cons_of_ok h₁ _).trans
    ((Run.foldlM_cons_of_ok h₂ _).trans (Run.foldlM_cons_of_ok h₃ _)), ?_, ?_⟩
  · simp only [Function.update_self]
  · simp only [Service.del_fds, Function.update_self]

/-- **The listener survives**, and makes one client for each connection, in every run whose accepts succeed. -/
theorem listener_survives (server : Int) (inputs : List Input) (p : Process)
    (h : Run.Along step (Accepting server) (initial server) inputs) (hp : inputs.foldlM step (initial server) = .ok p) :
    p.Listens server (inputs.filterMap (accepted server)) := by
  have hstep : ∀ (p : Process) (l : List Int) (i : Input) (p' : Process), Tended server p l → Accepting server p i →
      p.step i = .ok p' → Tended server p' ((fun l i => l ++ (accepted server i).toList) l i) :=
    fun _ _ _ _ h hok hs => step_tended h hok hs
  have htended := Run.follows hstep inputs _ p [] (initial_tended server) h hp
  rw [List.filterMap_eq_flatMap_toList, List.flatMap_eq_foldl]
  exact htended.listens

end

theorem listener_survives_two : ∃ p, [.event ⟨3, epollIn⟩ ⟨.data [], [], some 5⟩, .go .silent,
    .event ⟨3, epollIn⟩ ⟨.data [], [], some 6⟩].foldlM (@step ascii) (@initial ascii 3) = .ok p ∧
      @Listens ascii 3 [5, 6] p := by
  obtain ⟨p, hp, -⟩ := Run.exists_of_any (x := [.event ⟨3, epollIn⟩ ⟨.data [], [], some 5⟩, .go .silent,
    .event ⟨3, epollIn⟩ ⟨.data [], [], some 6⟩].foldlM (@step ascii) (@initial ascii 3)) (p := fun _ => true)
    (by decide +kernel)
  exact ⟨p, hp, @listener_survives ascii 3 _ p (by decide +kernel) hp⟩

/-- **A readable event whose connection is gone ends the server**: `accept` answers `EAGAIN`. -/
theorem no_connection_closes : ∃ p, [.event ⟨3, epollIn⟩ ⟨.data [], [], none⟩, .go .silent,
    .go .silent].foldlM (@step ascii) (@initial ascii 3) = .ok p ∧ ¬ @Listens ascii 3 [] p := by
  obtain ⟨p, hp, hclosed⟩ := Run.exists_of_any (x := [.event ⟨3, epollIn⟩ ⟨.data [], [], none⟩, .go .silent,
    .go .silent].foldlM (@step ascii) (@initial ascii 3))
    (p := fun p => (p.machine.kernel.conn 3).isNone) (by decide +kernel)
  refine ⟨p, hp, fun h => ?_⟩
  have hopen := @Listens.isOpen ascii _ _ _ h
  rw [Option.isNone_iff_eq_none.1 hclosed] at hopen
  cases hopen

end Process
end V8h
