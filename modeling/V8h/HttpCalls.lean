import V8h.HttpKeeps
/-!
# HttpCalls — the calls of a client touch what is the client's

Every function of `socket.coffee` and `http.coffee`, called for client `k`, keeps `Serving`, and what it leaves to be
called is again for `k` (`serving_tends`, `serving_writes`).
-/
namespace V8h

open Machine Effect

section

variable {α : Type} {m₀ : Machine} {k : Nat} {fd : Int} {buffer : Nat}

/-! ## Buffers the client may use -/

/-- The client is served, and may use the buffer. -/
def Using (m₀ : Machine) (k : Nat) (fd : Int) (buffer b : Nat) (m : Machine) : Prop :=
  m₀.Serving k fd buffer m ∧ Mine m₀ k b m

/-- From `Serving` the program ends in `Serving`, with a value in `Q`. -/
abbrev Serves (m₀ : Machine) (k : Nat) (fd : Int) (buffer : Nat) (x : M α) (Q : α → Prop) : Prop :=
  Keeps (m₀.Serving k fd buffer) (m₀.Serving k fd buffer) x Q

theorem blind_serving : Blind (m₀.Serving k fd buffer) := fun _ _ hm hs => hm.same hs

theorem edits_using (b : Nat) : Edits (Using m₀ k fd buffer b) Any b where
  blind  := fun _ _ hm hs => ⟨hm.1.same hs, ⟨hs.nextBuffer ▸ hm.2.range, hm.2.apart⟩⟩
  stable := Buffer.stable_any
  good   := fun _ _ _ _ => trivial
  set    := fun _ _ ⟨hs, hm⟩ _ =>
    ⟨hs.setHeap hm (fun hp => (hs.sound.pool b hp).2) (hs.sound.plain b), hm.range, hm.apart⟩

theorem edits_serving : Edits (m₀.Serving k fd buffer) Any buffer where
  blind  := blind_serving
  stable := Buffer.stable_any
  good   := fun _ _ _ _ => trivial
  set    := fun m nb hm _ => ((edits_using buffer).set m nb ⟨hm, hm.mine_buffer⟩ trivial).1

/-! ## The operations of `socket.coffee` -/

/-- What is left to be called is for client `k`. -/
def Task.Of (k : Nat) : Task → Prop
  | .invoke callback _ => callback.client = some k
  | .triggerError _    => True
  | .handler j _       => j = k
  | .call _            => False

def LeftFor (k : Nat) (r : Option Task) : Prop := ∀ t ∈ r, t.Of k

theorem leftFor_none : LeftFor k none := fun _ h => nomatch h

theorem Invokes.leftFor {callback : Cont} (hk : callback.client = some k) {r : Option Task} (h : Invokes callback r) :
    LeftFor k r := fun t ht => by
  obtain ⟨arg, rfl⟩ := h t ht
  exact hk

theorem Reports.leftFor {callback : Cont} (hk : callback.client = some k) {r : Option Task}
    (h : Reports fd callback r) : LeftFor k r := by
  rcases h with rfl | h
  · exact fun t ht => Option.some.inj ht ▸ trivial
  · exact h.leftFor hk

/-- The client may act and holds what it should, whatever is registered for its fd. -/
def Seated (m₀ : Machine) (k : Nat) (fd : Int) (buffer : Nat) (m : Machine) : Prop :=
  m₀.Acting k fd buffer m ∧ ∀ c, m.Live k c → m.Held k c

theorem seated_of_serving {m : Machine} (h : m₀.Serving k fd buffer m) : Seated m₀ k fd buffer m := ⟨h.toActing, h.held⟩

theorem edits_seated : Edits (Seated m₀ k fd buffer) Any buffer where
  blind  := fun _ _ hm hs => ⟨hm.1.same hs, fun c hl => hs.held (hm.2 c (by rwa [Live, ← hs.clients]))⟩
  stable := Buffer.stable_any
  good   := fun _ _ _ _ => trivial
  set    := fun m nb hm _ => by
    refine ⟨hm.1.setHeap hm.1.mine_buffer (fun hp => (hm.1.sound.pool buffer hp).2) (hm.1.sound.plain buffer), ?_⟩
    intro c hl
    have hh := hm.2 c hl
    exact ⟨hh.unpooled, hh.isOpen, hh.error⟩

/-- Registering for one's own fd puts what was registered before aside. -/
theorem registers_seated {f : Callback} (hf : ∀ m, m₀.Acting k fd buffer m → m.Fits fd f)
    (hk : f = .empty ∨ f.client = some k) : Registers (Seated m₀ k fd buffer) (m₀.Serving k fd buffer) fd f :=
  fun _ _ hm => hm.1.serving_setFds hm.2 (hf _ hm.1) hk (Service.inOrOut_fds ..) (Service.inOrOut_fdsError ..)

theorem registers_serving {f : Callback} (hf : ∀ m, m₀.Acting k fd buffer m → m.Fits fd f)
    (hk : f = .empty ∨ f.client = some k) : Registers (m₀.Serving k fd buffer) (m₀.Serving k fd buffer) fd f :=
  fun m events hm => registers_seated hf hk m events (seated_of_serving hm)

theorem fits_readUntil {m : Machine} {cond : Cond} {callback : Closure} (hk : callback.callback.client = some k)
    (h : m₀.Acting k fd buffer m) : m.Fits fd (.readUntil fd buffer cond callback) := by
  obtain ⟨c, hc, hfd, hb⟩ := h.self
  exact ⟨rfl, k, c, hk, hc, hfd, hb⟩

theorem fits_writeBuffer {m : Machine} {callback : Cont} (hk : callback.client = some k)
    (h : m₀.Acting k fd buffer m) : m.Fits fd (.writeBuffer fd buffer callback) := by
  obtain ⟨c, hc, hfd, hb⟩ := h.self
  exact ⟨rfl, k, c, hk, hc, hfd, hb⟩

/-- The header delimiter is not empty, so reading a header registers: it serves also a client whose fd still has an
entry of an earlier holder. -/
theorem ends_readHeader {callback : Cont} (hk : callback.client = some k) :
    Ends (Seated m₀ k fd buffer)
      (Socket.readToken fd buffer headerDelim callback) (fun r m => m₀.Serving k fd buffer m ∧ LeftFor k r)
      (Escape (m₀.Serving k fd buffer)) := by
  have hregisters : ∀ cond closure, closure.callback = callback →
      Registers (Seated m₀ k fd buffer) (m₀.Serving k fd buffer) fd (.readUntil fd buffer cond closure) := by
    rintro cond closure rfl
    exact registers_seated (fun m hm => fits_readUntil hk hm) (.inr hk)
  exact (ends_readToken edits_seated.blind blind_serving (fun m hm => hm.1.sound.delim) hregisters).mono (fun _ h => h)
    (fun _ _ h => ⟨h.1, h.2.leftFor hk⟩) fun _ _ h => h

theorem serving_writes {callback : Cont} (hk : callback.client = some k) :
    Writes (m₀.Serving k fd buffer) (m₀.Serving k fd buffer) Any fd buffer callback where
  edits     := edits_serving
  sends     := fun _ _ bytes hm hc => hm.setSent hc bytes
  release   := keeps_release fun _ hm => hm.sound.plain buffer
  empty     := registers_serving (fun _ _ => trivial) (.inl rfl)
  registers := registers_serving (fun _ hm => fits_writeBuffer hk hm) (.inr hk)

/-! ## The methods of `Client` -/

/-- A buffer popped may be used, and is in the pool no more. -/
theorem ends_pop : Ends (m₀.Serving k fd buffer) BufferPool.pop
    (fun b m => m₀.Serving k fd buffer m ∧ Mine m₀ k b m ∧ b ∉ m.pool.buffers) (Escape (m₀.Serving k fd buffer)) := by
  refine ⟨fun {m m' b} hm hx => ?_, fun {m m' e} hm hx => ?_⟩ <;> rw [BufferPool.pop_run] at hx <;> split at hx
  · cases hx
    exact hm.makeBuffer rfl
  · rename_i b' bs hp
    split at hx <;> cases hx
    obtain ⟨h1, h2, h3⟩ := hm.takePooled (b := b) (o := ⟨_, false, (m.heap b).temporary⟩) hp (hm.sound.plain b)
    exact ⟨h1, ⟨h2.range, h2.apart⟩, h3⟩
  · cases hx
  · split at hx <;> cases hx
    exact Or.inl ⟨_, rfl⟩

/-- The client is as `c`, and may use the buffer; what `close` keeps while it takes the client's holdings apart. -/
def Closing (m₀ : Machine) (k : Nat) (fd : Int) (buffer : Nat) (c : Client) (m : Machine) : Prop :=
  m₀.Acting k fd buffer m ∧ m.clients k = some c

theorem Closing.same {c : Client} {m m' : Machine} (h : Closing m₀ k fd buffer c m) (hs : Same m m') :
    Closing m₀ k fd buffer c m' := ⟨h.1.same hs, hs.clients ▸ h.2⟩

theorem ends_push {c : Client} {b : Nat} (hb : b ∈ c.buffers) :
    Ends (Closing m₀ k fd buffer c) (BufferPool.push b) (fun _ => Closing m₀ k fd buffer c)
      (fun e _ => ∃ t, e = .trap t) := by
  have hlog : Ends (Closing m₀ k fd buffer c) (modify fun m => { m with pushes := b :: m.pushes } : M Unit)
      (fun _ => Closing m₀ k fd buffer c) (fun e _ => ∃ t, e = .trap t) :=
    Ends.of_ok (fun _ => rfl) fun m hm => hm.same ⟨rfl, rfl, rfl, rfl, rfl, rfl, rfl, rfl, rfl⟩
  have hget : Ends (Closing m₀ k fd buffer c) (get : M Machine) (fun a m => Closing m₀ k fd buffer c m ∧ a = m)
      (fun e _ => ∃ t, e = .trap t) := Ends.of_ok (fun _ => rfl) fun m hm => ⟨hm, rfl⟩
  have hover : ∀ a, Ends (fun m => Closing m₀ k fd buffer c m ∧ a = m) (BufferPool.overLimit b)
      (fun _ m => Closing m₀ k fd buffer c m ∧ a = m) (fun e _ => ∃ t, e = .trap t) := by
    refine fun a => ⟨fun {m m' n} hm hx => ?_, fun {m m' e} hm hx => ?_⟩ <;> rw [BufferPool.overLimit_run] at hx <;>
      split at hx
    · cases hx
      exact hm
    · split at hx <;> cases hx
      exact hm
    · cases hx
    · split at hx <;> cases hx
      exact ⟨_, rfl⟩
  refine hlog.bind fun _ => hget.bind fun a => ?_
  cases hp : (a.heap b).pushed with
  | true => exact Ends.pure fun m hm => hm.1
  | false =>
    refine (hover a).bind fun n => ?_
    split
    · refine Ends.of_ok (fun _ => rfl) fun m hm => ?_
      obtain ⟨⟨ha, hc⟩, rfl⟩ := hm
      exact ⟨ha.setHeap (ha.mine hc hb) (fun hp => (ha.sound.pool b hp).2) (ha.sound.plain b), hc⟩
    · refine Ends.of_ok (fun _ => rfl) fun m hm => ?_
      obtain ⟨⟨ha, hc⟩, rfl⟩ := hm
      exact ⟨ha.givePooled (ha.mine hc hb) hp, hc⟩

/-- **`close` leaves the client with nothing registered**, closed. -/
theorem serving_close : Ends (m₀.Serving k fd buffer) (Client.close k) (fun _ => m₀.Serving k fd buffer)
    (Escape (m₀.Serving k fd buffer)) := by
  have hclient : Ends (m₀.Serving k fd buffer) (client k)
      (fun c m => Closing m₀ k fd buffer c m ∧ c.fd = fd) (Escape (m₀.Serving k fd buffer)) := by
    refine ⟨fun {m m' c} hm hx => ?_, fun {m m' e} hm hx => ?_⟩ <;> unfold client at hx <;> split at hx <;> cases hx
    · rename_i hc
      obtain ⟨c', hc', h1, -⟩ := hm.self
      obtain rfl : c = c' := Option.some.inj (hc.symm.trans hc')
      exact ⟨⟨hm.toActing, hc⟩, h1⟩
    · exact Or.inr hm
  have hshut : ∀ c, Ends (Closing m₀ k fd buffer c)
      (do Socket.close fd; modifyClient k fun c => { c with closed := true } : M Unit)
      (fun _ => m₀.Serving k fd buffer) (Escape (m₀.Serving k fd buffer)) := by
    refine fun c => Ends.of_ok (fun _ => rfl) fun m hm => ?_
    have hmap : (m.clients k).map (fun c => { c with closed := true }) = some { c with closed := true } := by
      rw [hm.2, Option.map_some]
    have := hm.1.shut hm.2
    rw [← hmap] at this
    exact this
  refine hclient.bind fun c => Ends.of_imp (fun _ h => h.2) fun hfd => ?_
  have hpush : ∀ b ∈ c.buffers, Ends (Closing m₀ k fd buffer c) (BufferPool.push b) (fun _ => Closing m₀ k fd buffer c)
      (Escape (m₀.Serving k fd buffer)) :=
    fun b hb => (ends_push hb).mono (fun _ h => h) (fun _ _ h => h) (fun _ _ h => Or.inl h)
  refine ((hpush c.buffer (List.mem_cons_self ..)).mono (fun _ h => h.1) (fun _ _ h => h) (fun _ _ h => h)).bind
    fun _ => ?_
  subst hfd
  cases hbd : c.boundary with
  | none => exact hshut c
  | some b =>
    have hb : b ∈ c.buffers := List.mem_cons_of_mem _ (by simp [hbd])
    exact (hpush b hb).bind fun _ => hshut c

/-- A buffer popped becomes the client's boundary, and is written. -/
theorem serves_bound [V8] (text : JsString) : Serves m₀ k fd buffer (do
    let boundary ← BufferPool.pop
    modifyClient k fun c => { c with boundary := some boundary }
    Script.writeUtf8 boundary text) Any := by
  refine ⟨ends_pop.bind fun b => ?_⟩
  have hset : Ends (fun m => m₀.Serving k fd buffer m ∧ Mine m₀ k b m ∧ b ∉ m.pool.buffers)
      (modifyClient k fun c => { c with boundary := some b }) (fun _ => Using m₀ k fd buffer b)
      (Escape (m₀.Serving k fd buffer)) := by
    refine Ends.of_ok (fun _ => rfl) fun m hm => ?_
    obtain ⟨hs, hm, hp⟩ := hm
    obtain ⟨c', hc', -, -⟩ := hs.self
    rw [hc']
    refine ⟨hs.setClient hc' rfl rfl rfl (Or.inr fun b' hb' => ?_), hm.range, hm.apart⟩
    obtain rfl : b = b' := by simpa using hb'
    exact ⟨hm, hp⟩
  exact hset.bind fun _ => ((edits_using b).writeUtf8 text).ends.mono (fun _ h => h) (fun _ _ h => ⟨h.1.1, trivial⟩)
    fun _ _ h => h

/-- **Whatever is called for client `k` serves it.** -/
theorem serving_tends [V8] : Tends (m₀.Serving k fd buffer) (m₀.Serving k fd buffer) Any k
    (fun c => c.fd = fd ∧ c.buffer = buffer) (Task.Of k) where
  client := by
    refine ⟨⟨fun {m m' c} hm hx => ?_, fun {m m' e} hm hx => ?_⟩⟩ <;> unfold client at hx <;> split at hx <;> cases hx
    · rename_i hc
      obtain ⟨c', hc', h1, h2⟩ := hm.self
      obtain rfl : c = c' := Option.some.inj (hc.symm.trans hc')
      exact ⟨hm, h1, h2⟩
    · exact .inr hm
  edits   := fun c hc => hc.2 ▸ edits_serving
  reads   := fun c callback ⟨hfd, hb⟩ hk cond closure hc => by
    subst hfd hb hc
    exact registers_serving (fun m hm => fits_readUntil hk hm) (.inr hk)
  edit    := fun f hf => .of_ok (fun _ => rfl) (fun m hm => by
    obtain ⟨c, hc, -, -⟩ := hm.self
    obtain ⟨h1, h2, h3, h4⟩ := hf c
    rw [hc]
    exact hm.setClient hc h1 h2 h4 (.inl h3)) fun _ _ => trivial
  bound   := serves_bound
  closes  := serving_close
  invokes := fun _ _ hk => hk
  handles := fun _ => rfl

theorem serves_runMethod [V8] (ans : Answers) (method : Method) :
    Serves m₀ k fd buffer (Process.runMethod ans k method) (LeftFor k) := by
  refine (serving_tends.runMethod (fun _ _ => trivial) (fun c callback hc hk => ?_) ans method).keeps
  obtain ⟨rfl, rfl⟩ := hc
  exact serving_writes hk

end
end V8h
