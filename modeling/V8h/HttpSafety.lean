import V8h.Wiring
/-!
# HttpSafety — the input of a peer and the loop of `Service::run`

`Service::run` leaves its loop when a callback it called throws.  The functions of `socket.coffee` and `http.coffee`
throw when a client, a boundary, an error callback or a `Content-Type` is missing: the first two are there whenever they
are looked for, the third is what `Client`'s constructor registers, and the last is up to the peer.
-/
namespace V8h

open Machine Effect

section

/-- A call in tail position that throws only if it may. -/
def Task.Wired (may : Prop) (m : Machine) : Task → Prop
  | .call callback     => m.OnError callback
  | .invoke callback _ => m.Known callback
  | .triggerError fd   => may ∨ (m.service.fdsError fd).isSome
  | .handler k _       => ∃ c, m.clients k = some c ∧ m.Stores c.buffer [] 0

/-- The program keeps the wiring, and throws only if it may. -/
structure Guards {α : Type} (may : Prop) (m : Machine) (x : M α) (Q : α → Machine → Prop) : Prop where
  leads : Leads m x (fun a m' => m'.Wired ∧ Grown m m' ∧ Q a m') (fun e m' => (∃ t, e = .trap t) ∨ may ∧ m'.Wired)

section

variable {α β : Type} {may : Prop} {m : Machine} {x : M α} {Q : α → Machine → Prop}

/-- The wiring is kept from `m` on, with the error callbacks. -/
structure From (m m' : Machine) : Prop where
  wired    : m'.Wired
  grown    : Grown m m'
  fdsError : m'.service.fdsError = m.service.fdsError

theorem From.refl (hw : m.Wired) : From m m := ⟨hw, .of_eq rfl, rfl⟩

theorem From.idle {m₁ m₂ : Machine} (h : From m m₁) (hi : Idle m₁ m₂) (hm : m₂.Intact) : From m m₂ :=
  ⟨hi.wired hm h.wired, h.grown.trans hi.grown, hi.service ▸ h.fdsError⟩

theorem Guards.of_idle {R : α → Prop} (hw : m.Wired)
    (hx : Keeps (fun m' => Idle m m' ∧ m'.Intact) (fun _ => False) x R) : Guards may m x (fun _ m' => Idle m m') := by
  refine ⟨⟨fun hr => ?_, fun hr => ?_⟩⟩
  · obtain ⟨⟨hi, hm⟩, -⟩ := hx.ends.ok ⟨Idle.refl m, hw.intact⟩ hr
    exact ⟨hi.wired hm hw, hi.grown, hi⟩
  · exact .inl ((hx.ends.error ⟨Idle.refl m, hw.intact⟩ hr).resolve_right id)

theorem Guards.of_keeps {R : α → Prop} (hw : m.Wired) (hx : Keeps (From m) (fun m' => may ∧ m'.Wired) x R)
    (hq : ∀ a m', From m m' → R a → Q a m') : Guards may m x Q := by
  refine ⟨⟨fun hr => ?_, fun hr => hx.ends.error (From.refl hw) hr⟩⟩
  obtain ⟨h, hR⟩ := hx.ends.ok (From.refl hw) hr
  exact ⟨h.wired, h.grown, hq _ _ h hR⟩

theorem Guards.bind {f : α → M β} {Q' : β → Machine → Prop} (hx : Guards may m x Q)
    (hf : ∀ a m', x m = .ok a m' → m'.Wired → Grown m m' → Q a m' → Guards may m' (f a) Q') :
    Guards may m (x >>= f) Q' :=
  ⟨hx.leads.bind fun a m' h ⟨hw, hg, hq⟩ =>
    (hf a m' h hw hg hq).leads.mono (fun _ _ _ h' => ⟨h'.1, hg.trans h'.2.1, h'.2.2⟩) fun _ _ h' => h'⟩

theorem Guards.pure {a : α} (hw : m.Wired) (h : Q a m) : Guards may m (Pure.pure a : M α) Q :=
  ⟨.of_ok rfl ⟨hw, .of_eq rfl, h⟩⟩

theorem Guards.of_ok {a : α} {m' : Machine} (hx : x m = .ok a m') (hw : m'.Wired) (hg : Grown m m') (h : Q a m') :
    Guards may m x Q := ⟨.of_ok hx ⟨hw, hg, h⟩⟩

theorem Guards.throw {e : JsError} (hmay : may) (hw : m.Wired) : Guards may m (throw (.throw e) : M α) Q :=
  ⟨.of_error rfl (.inr ⟨hmay, hw⟩)⟩

theorem Guards.mono {Q' : α → Machine → Prop} (h : Guards may m x Q)
    (hq : ∀ a m', m'.Wired → Grown m m' → Q a m' → Q' a m') : Guards may m x Q' :=
  ⟨h.leads.mono (fun _ _ _ ⟨h1, h2, h3⟩ => ⟨h1, h2, hq _ _ h1 h2 h3⟩) fun _ _ h => h⟩

end

variable {may : Prop} {m : Machine}

/-- What is left to be called is wired. -/
def Leaves (may : Prop) (r : Option Task) (m : Machine) : Prop := ∀ t ∈ r, t.Wired may m

theorem leaves_none : Leaves may none m := fun _ h => nomatch h

theorem leaves_some {t : Task} (h : t.Wired may m) : Leaves may (some t) m := fun t' h' => by
  cases h'
  exact h

theorem leaves_triggerError {m' : Machine} {fd : Int} (hs : m'.service = m.service)
    (h : may ∨ (m.service.fdsError fd).isSome) : Leaves may (some (.triggerError fd)) m' := by
  refine leaves_some ?_
  show may ∨ (m'.service.fdsError fd).isSome
  rwa [hs]

/-! ## The tables -/

theorem wired_register (hw : m.Wired) {s : Service Callback} {fd : Int} {f : Callback} (hf : m.Wire fd f)
    (hfds : s.fds = Function.update m.service.fds fd (some f)) (herr : s.fdsError = m.service.fdsError) :
    Wired { m with service := s } := by
  refine ⟨hw.intact, hw.clients, fun fd' f' hf' => ?_, fun fd' f' hf' => ?_⟩
  · simp only [hfds, Function.update_apply] at hf'
    split at hf'
    · rename_i he
      cases hf'
      exact he ▸ hf
    · exact hw.fds fd' f' hf'
  · simp only [herr] at hf'
    exact hw.errors fd' f' hf'

/-- `From` says of buffers only that none is malformed. -/
theorem lax_from (m : Machine) : Lax (From m) (Buffer.Sane 64) where
  blind  := fun _ _ h hs => h.idle ⟨hs.service, hs.clients, hs.nextClient⟩ (by
    rw [Intact, hs.heap]
    exact h.wired.intact)
  stable := Buffer.stable_sane
  fresh  := fun _ h0 hn => (Buffer.new_spec h0 hn).sane
  good   := fun _ b nb h hb => h.wired.intact b nb hb
  heap   := fun _ _ _ h ho => h.idle ⟨rfl, rfl, rfl⟩ (h.wired.intact.update ho)
  pool   := fun _ _ h => h.idle ⟨rfl, rfl, rfl⟩ h.wired.intact
  next   := fun _ _ h => h.idle ⟨rfl, rfl, rfl⟩ h.wired.intact

theorem registers_from {fd : Int} {f : Callback} (hf : ∀ m', Grown m m' → m'.Wire fd f) :
    Registers (From m) (From m) fd f := fun m' _ h =>
  ⟨wired_register h.wired (hf m' h.grown) (Service.inOrOut_fds ..) (Service.inOrOut_fdsError ..),
    h.grown.trans (.of_eq rfl), (Service.inOrOut_fdsError ..).trans h.fdsError⟩

theorem guards_close (hw : m.Wired) (fd : Int) : Guards may m (Socket.close fd) fun _ m' => m'.clients = m.clients := by
  refine .of_ok rfl ⟨hw.intact, hw.clients, fun fd' f' hf' => ?_, fun fd' f' hf' => ?_⟩ (.of_eq rfl) rfl
  · have hfds : (m.service.del fd).1.fds fd' = some f' := hf'
    rw [Service.del_fds, Function.update_apply] at hfds
    split at hfds
    · cases hfds
    · exact hw.fds fd' f' hfds
  · have herr : (m.service.del fd).1.fdsError fd' = some f' := hf'
    rw [Service.del_fdsError, Function.update_apply] at herr
    split at herr
    · cases herr
    · exact hw.errors fd' f' herr

/-! ## The operations of `socket.coffee` -/

theorem invokes_leaves {m' : Machine} {callback : Cont} (hk : m.Known callback) (h : From m m') {r : Option Task}
    (hr : Invokes callback r) : Leaves may r m' := fun t ht => by
  obtain ⟨arg, rfl⟩ := hr t ht
  exact h.grown.known hk

theorem reports_leaves {m' : Machine} {fd : Int} {callback : Cont} (hk : m.Known callback)
    (herr : may ∨ (m.service.fdsError fd).isSome) (h : From m m') {r : Option Task} (hr : Reports fd callback r) :
    Leaves may r m' := by
  rcases hr with rfl | hr
  · refine leaves_some ?_
    show may ∨ (m'.service.fdsError fd).isSome
    rwa [h.fdsError]
  · exact invokes_leaves hk h hr

theorem guards_onReadable (hw : m.Wired) (ans : Answers) {fd : Int} {buffer : Nat} {cond : Cond} {callback : Closure}
    (hk : m.Known callback.callback) (herr : may ∨ (m.service.fdsError fd).isSome) :
    Guards may m (Socket.onReadable ans fd buffer cond callback) (Leaves may) :=
  .of_keeps hw (((lax_from m).edits buffer).onReadable ans) fun _ _ h => reports_leaves hk herr h

theorem reads_from {fd : Int} {buffer : Nat} {callback : Cont} (hk : m.Known callback) :
    Reads (From m) fd buffer callback := by
  rintro cond closure rfl
  exact registers_from fun _ hg => ⟨rfl, hg.known hk⟩

theorem guards_writeBuffer (hw : m.Wired) (ans : Answers) {fd : Int} {buffer : Nat} {callback : Cont}
    (hk : m.Known callback) (herr : may ∨ (m.service.fdsError fd).isSome) :
    Guards may m (Socket.writeBuffer ans fd buffer callback) (Leaves may) := by
  have hwrites : Writes (From m) (fun m' => may ∧ m'.Wired) (Buffer.Sane 64) fd buffer callback :=
    ⟨(lax_from m).edits buffer, fun _ _ _ h _ => h.idle ⟨rfl, rfl, rfl⟩ h.wired.intact, (lax_from m).release buffer,
      registers_from fun _ _ => trivial, registers_from fun _ hg => ⟨rfl, hg.known hk⟩⟩
  exact .of_keeps hw (hwrites.writeBuffer ans) fun _ _ h => reports_leaves hk herr h

theorem guards_onAcceptable (hw : m.Wired) (ans : Answers) {fd : Int} {callback : Cont} (hk : m.Known callback)
    (herr : may ∨ (m.service.fdsError fd).isSome) :
    Guards may m (Socket.onAcceptable ans fd callback) (Leaves may) := by
  refine (Guards.of_idle hw (idle_acceptTcp m ans fd)).bind fun r m' _ hw' hg hi => ?_
  split
  · exact .pure hw' (leaves_triggerError hi.service herr)
  · exact .pure hw' (leaves_some (hg.known hk))

theorem guards_triggerError (hw : m.Wired) {fd : Int} (herr : may ∨ (m.service.fdsError fd).isSome) :
    Guards may m (Socket.triggerError fd) (Leaves may) := by
  refine Guards.bind (Q := fun a m' => a = m ∧ m' = m) (.of_ok (get_run m) hw (.of_eq rfl) ⟨rfl, rfl⟩) ?_
  rintro a m' - - - ⟨rfl, rfl⟩
  split
  · rename_i hn
    refine .throw (herr.resolve_right ?_) hw
    rw [hn]
    exact Bool.false_ne_true
  · rename_i f hf
    exact .pure hw (leaves_some (hw.errors fd f hf))

/-! ## The methods of `Client` -/

variable {k : Nat}

theorem guards_client (hw : m.Wired) (hk : may ∨ (m.clients k).isSome) :
    Guards may m (client k) fun c m' => m' = m ∧ m.clients k = some c := by
  cases hc : m.clients k with
  | some c => exact .of_ok (by rw [client, hc]) hw (.of_eq rfl) ⟨rfl, rfl⟩
  | none =>
    refine ⟨.of_error (by rw [client, hc]) (.inr ⟨hk.resolve_right ?_, hw⟩)⟩
    rw [hc]
    exact Bool.false_ne_true

theorem guards_modifyClient (hw : m.Wired) {f : Client → Client} (hf : ∀ c, c.boundary.isSome → (f c).boundary.isSome) :
    Guards may m (modifyClient k f) fun _ m' => m'.clients k = (m.clients k).map f := by
  have hg : Grown m { m with clients := Function.update m.clients k ((m.clients k).map f) } := by
    intro j c hc
    by_cases hj : j = k
    · subst hj
      exact ⟨f c, by simp only [Function.update_self, hc, Option.map_some], hf c⟩
    · exact ⟨c, by simp only [Function.update_of_ne hj, hc], id⟩
  refine .of_ok rfl ⟨hw.intact, fun j hj => ?_, fun fd f hf => hg.wire (hw.fds fd f hf),
    fun fd f hf => hg.onError (hw.errors fd f hf)⟩ hg
    (Function.update_self ..)
  have hnone := hw.clients j hj
  by_cases hjk : j = k
  · subst hjk
    simp only [Function.update_self, hnone, Option.map_none]
  · simp only [Function.update_of_ne hjk, hnone]

theorem isSome_of_eq {c : Client} (h : m.clients k = some c) : (m.clients k).isSome := by rw [h]; rfl

variable [V8]

omit [V8] in
theorem guards_clientClose (hw : m.Wired) (hk : may ∨ (m.clients k).isSome) :
    Guards may m (Client.close k) fun _ _ => True := by
  refine (guards_client hw hk).bind ?_
  rintro c m' - - - ⟨rfl, hc⟩
  refine (Guards.of_idle hw ((lax_idle m').push c.buffer)).bind fun _ m₁ _ hw₁ hg₁ _ => ?_
  have htail : ∀ m₂ : Machine, m₂.Wired → Guards may m₂ (do
      Socket.close c.fd
      modifyClient k fun c => { c with closed := true }) fun _ _ => True := fun m₂ hw₂ =>
    (guards_close hw₂ c.fd).bind fun _ m₃ _ hw₃ _ _ =>
      (guards_modifyClient (f := fun c => { c with closed := true }) hw₃ fun _ h => h).mono fun _ _ _ _ _ => trivial
  split
  · exact (Guards.of_idle hw₁ ((lax_idle m₁).push _)).bind fun _ m₂ _ hw₂ _ _ => htail m₂ hw₂
  · exact htail m₁ hw₁

omit [V8] in
theorem guards_clear (hw : m.Wired) (b : Nat) :
    Guards may m (Script.clear b) fun _ m' => Idle m m' ∧ m'.Stores b [] 0 := by
  cases hb : (m.heap b).native with
  | none =>
    have hrun : Script.clear b m = .error (.trap .null) m := by rw [Script.clear_run, hb]
    exact ⟨.of_error hrun (.inl ⟨_, rfl⟩)⟩
  | some nb =>
    have hnb := hw.intact b nb hb
    have hrun : Script.clear b m = .ok () (m.setBuffer b nb.clear) := by rw [Script.clear_run, hb]; rfl
    have hi : Idle m (m.setBuffer b nb.clear) := ⟨rfl, rfl, rfl⟩
    refine .of_ok hrun (hi.wired ?_ hw) hi.grown ⟨hi, stores_setBuffer hnb.clear (Nat.le_refl 0)⟩
    exact hw.intact.update fun b' he => Option.some.inj he ▸ hnb.clear.sane

omit [V8] in
/-- A client that is there may read for the callbacks that need no more than is there. -/
theorem guards_attends (hk : may ∨ (m.clients k).isSome) : Attends (From m) (fun m' => may ∧ m'.Wired)
    (Buffer.Sane 64) k (fun c => ∀ c₀, m.clients k = some c₀ → c₀.boundary.isSome → c.boundary.isSome) m.Known where
  client := by
    refine ⟨⟨fun {m₁ m₂ c} h hx => ?_, fun {m₁ m₂ e} h hx => ?_⟩⟩ <;> unfold client at hx <;> split at hx <;> cases hx
    · rename_i hc
      refine ⟨h, fun c₀ hc₀ hb => ?_⟩
      obtain ⟨c', hc', hb'⟩ := h.grown k c₀ hc₀
      obtain rfl : c = c' := Option.some.inj (hc.symm.trans hc')
      exact hb' hb
    · rename_i hn
      refine .inr ⟨hk.resolve_right fun hsome => ?_, h.wired⟩
      have := h.grown.isSome hsome
      rw [hn] at this
      cases this
  edits  := fun c _ => (lax_from m).edits c.buffer
  reads  := fun _ _ _ hk => reads_from hk

omit [V8] in
theorem guards_recvHeader (hw : m.Wired) (hk : (m.clients k).isSome) :
    Guards may m (Client.recvHeader k) (Leaves may) := by
  have hheader : m.Known (.header k) := hk
  exact .of_keeps hw ((guards_attends (.inr hk)).recvHeader hheader) fun _ _ h => invokes_leaves hheader h

omit [V8] in
theorem guards_process (hw : m.Wired) (hk : may ∨ (m.clients k).isSome) :
    Guards may m (Client.process k) (Leaves may) := by
  refine (guards_client hw hk).bind ?_
  rintro c m' - - - ⟨rfl, hc⟩
  refine (guards_clear hw c.buffer).bind fun _ m₁ _ hw₁ hg₁ ⟨hi, hs⟩ => ?_
  exact .pure hw₁ (leaves_some ⟨c, by rw [hi.clients, hc], hs⟩)

omit [V8] in
/-- A client with a boundary does not throw when it looks for it. -/
theorem guards_boundary (hb : ∃ c, m.clients k = some c ∧ c.boundary.isSome) (c : Client)
    (hc : ∀ c₀, m.clients k = some c₀ → c₀.boundary.isSome → c.boundary.isSome) (hn : c.boundary = none) (m' : Machine)
    (_ : From m m') : may ∧ m'.Wired := by
  obtain ⟨c₀, hc₀, hb⟩ := hb
  have := hc c₀ hc₀ hb
  rw [hn] at this
  cases this

omit [V8] in
theorem guards_recvMultiPart (hw : m.Wired) (hk : m.Known (.part k)) :
    Guards may m (Client.recvMultiPart k) (Leaves may) := by
  have hsome : (m.clients k).isSome := hk.elim fun _ h => isSome_of_eq h.1
  exact .of_keeps hw ((guards_attends (.inr hsome)).recvMultiPart hk (guards_boundary hk)) fun _ _ h =>
    invokes_leaves hk h

theorem guards_recvBody (hw : m.Wired) {c : Client} (hc : m.clients k = some c)
    (hct : may ∨ (c.req.header.get (js "Content-Type")).isSome) : Guards may m (Client.recvBody k) (Leaves may) := by
  refine (guards_client hw (.inr (isSome_of_eq hc))).bind ?_
  rintro c' m' - - - ⟨rfl, hc'⟩
  obtain rfl := Option.some.inj (hc.symm.trans hc')
  split
  · rename_i hn
    refine .throw (hct.resolve_right ?_) hw
    rw [hn]
    exact Bool.false_ne_true
  · split
    · split
      · refine (guards_clientClose hw (.inr (isSome_of_eq hc))).bind fun _ _ _ hw₁ _ _ => .pure hw₁ leaves_none
      · refine (Guards.of_idle hw (lax_idle m').pop).bind fun b m₁ _ hw₁ hg₁ hi₁ => ?_
        refine (guards_modifyClient (k := k) (f := fun c => { c with boundary := some b }) hw₁ fun _ _ => rfl).bind
          fun _ m₂ _ hw₂ _ h₂ => ?_
        refine (Guards.of_idle hw₂ (((lax_idle m₂).edits b).writeUtf8 _)).bind fun _ m₃ _ hw₃ _ hi₃ => ?_
        refine guards_recvMultiPart hw₃ ⟨{ c with boundary := some b }, ?_, rfl⟩
        rw [hi₃.clients, h₂, hi₁.clients, hc]
        rfl
    · have hbody : m'.Known (.body k) := isSome_of_eq hc
      exact .of_keeps hw (keeps_readSize (lax_from m').blind (reads_from hbody) _) fun _ _ h => invokes_leaves hbody h

/-- The header that `recvHeader`'s callback is about to read. -/
def Client.headerAt (m : Machine) (k : Nat) (n : Int) : Option Header :=
  (m.clients k).bind fun c =>
    match Script.readUtf8 c.buffer n m with
    | .ok text _  => some (Helper.parseHeader text).header
    | .error _ _  => none

/-- A header that announces a body says of what type it is. -/
def Header.Typed (h : Header) : Prop := (h.get (js "Content-Length")).isSome → (h.get (js "Content-Type")).isSome

theorem guards_onHeader (hw : m.Wired) (hk : (m.clients k).isSome) {n : Int}
    (hct : may ∨ ∀ h ∈ Client.headerAt m k n, h.Typed) : Guards may m (Client.onHeader k n) (Leaves may) := by
  refine (guards_client hw (.inr hk)).bind ?_
  rintro c m' - - - ⟨rfl, hc⟩
  refine (Guards.of_idle hw (((lax_idle m').edits c.buffer).readUtf8 n)).bind fun text m₁ htext hw₁ hg₁ hi₁ => ?_
  extract_lets req
  have hct : may ∨ req.header.Typed := hct.imp id fun h => h _ (by
    rw [Client.headerAt, hc, Option.bind_some, htext]
    rfl)
  refine Guards.bind (guards_modifyClient hw₁ fun _ h => h) fun _ m₂ _ hw₂ _ h₂ => ?_
  rw [hi₁.clients, hc] at h₂
  split
  · rename_i contentLength hcl
    refine (guards_modifyClient (k := k) (f := fun c =>
      { c with contentLength := contentLength.parseInt }) hw₂ fun _ h => h).bind
      fun _ m₃ _ hw₃ _ h₃ => ?_
    rw [h₂] at h₃
    refine guards_recvBody hw₃ h₃ (hct.imp id fun h => h ?_)
    rw [hcl]
    rfl
  · exact guards_process hw₂ (.inr (isSome_of_eq h₂))

omit [V8] in
theorem guards_onPart (hw : m.Wired) (hk : m.Known (.part k)) (n : Int) :
    Guards may m (Client.onPart k n) (Leaves may) := by
  have hsome : (m.clients k).isSome := hk.elim fun _ h => isSome_of_eq h.1
  have hend : m.Known (.partEnd k) := hk
  exact .of_keeps hw ((guards_attends (.inr hsome)).onPart hend n) fun _ _ h => invokes_leaves hend h

theorem guards_onPartEnd (hw : m.Wired) (hk : m.Known (.partEnd k)) :
    Guards may m (Client.onPartEnd k) (Leaves may) := by
  have hsome : (m.clients k).isSome := hk.elim fun _ h => isSome_of_eq h.1
  have hheader : m.Known (.partHeader k) := hk
  have hlast : m.Known (.lastPart k) := hsome
  exact .of_keeps hw ((guards_attends (.inr hsome)).onPartEnd hheader hlast) fun _ _ h hr =>
    hr.elim (invokes_leaves hheader h) (invokes_leaves hlast h)

theorem guards_onPartHeader (hw : m.Wired) (hk : m.Known (.partHeader k)) (n : Int) :
    Guards may m (Client.onPartHeader k n) (Leaves may) := by
  have hsome : (m.clients k).isSome := hk.elim fun _ h => isSome_of_eq h.1
  have hpart : m.Known (.part k) := hk
  exact .of_keeps hw ((guards_attends (.inr hsome)).onPartHeader hpart (guards_boundary hk) n) fun _ _ h =>
    invokes_leaves hpart h

omit [V8] in
theorem guards_onEnded (hw : m.Wired) (hk : (m.clients k).isSome) : Guards may m (Client.onEnded k) (Leaves may) := by
  refine (guards_client hw (.inr hk)).bind ?_
  rintro c m' - - - ⟨rfl, hc⟩
  split
  · exact (guards_clientClose hw (.inr hk)).bind fun _ _ _ hw₁ _ _ => .pure hw₁ leaves_none
  · exact guards_recvHeader hw hk

omit [V8] in
/-- **A client is made**, and its error callback is registered. -/
theorem guards_new (hw : m.Wired) (fd : Int) : Guards may m (Client.new fd) fun k m' => (m'.clients k).isSome := by
  let m₁ : Machine := { m with service := m.service.error fd (.clientError m.nextClient) }
  have hpop : Ends _ BufferPool.pop _ (Escape fun _ => False) := (lax_idle m₁).pop.ends
  have hrun := Client.new_run fd m
  cases hp : BufferPool.pop { m with service := m.service.error fd (.clientError m.nextClient) } with
  | error e m' =>
    rw [hp] at hrun
    exact ⟨.of_error hrun (.inl ((hpop.error ⟨Idle.refl m₁, hw.intact⟩ hp).resolve_right id))⟩
  | ok b m' =>
    rw [hp] at hrun
    obtain ⟨⟨⟨hs, hc, hn⟩, hintact⟩, -⟩ := hpop.ok ⟨Idle.refl m₁, hw.intact⟩ hp
    simp only [m₁] at hs hc hn
    have hself : ∀ c, (Function.update m'.clients m.nextClient (some c) m.nextClient).isSome := fun c => by
      rw [Function.update_self]
      rfl
    have hg : Grown m { m' with
        clients    := Function.update m'.clients m.nextClient (some ⟨fd, b, none, ⟨none, none, []⟩, false, none, false⟩)
        nextClient := m.nextClient + 1 } := by
      intro j c hj
      have hne : j ≠ m.nextClient := by
        rintro rfl
        rw [hw.clients _ (Nat.le_refl _)] at hj
        cases hj
      refine ⟨c, ?_, id⟩
      simp only [Function.update_of_ne hne, hc, hj]
    refine .of_ok hrun ⟨hintact, fun j hj => ?_, fun fd' f hf => ?_, fun fd' f hf => ?_⟩ hg (hself _)
    · have hne : j ≠ m.nextClient := Nat.ne_of_gt hj
      simp only [Function.update_of_ne hne, hc]
      exact hw.clients j (Nat.le_of_succ_le hj)
    · rw [hs] at hf
      exact hg.wire (hw.fds fd' f hf)
    · rw [hs, Service.error_fdsError, Function.update_apply] at hf
      split at hf
      · cases hf
        exact hself _
      · exact hg.onError (hw.errors fd' f hf)

/-! ## Calls -/

omit [V8] in
theorem guards_runCallback (hw : m.Wired) (ans : Answers) {f : Callback}
    (hf : m.OnError f ∨ ∃ fd, m.Wire fd f ∧ (may ∨ (m.service.fdsError fd).isSome)) :
    Guards may m (runCallback ans f) (Leaves may) := by
  cases f with
  | user id => exact .pure hw leaves_none
  | empty => exact .pure hw leaves_none
  | readUntil fd buffer cond callback =>
    obtain ⟨_, ⟨rfl, hk⟩, herr⟩ := hf.resolve_left id
    exact guards_onReadable hw ans hk herr
  | writeUntil fd buffer cond callback => exact hf.elim (absurd · id) fun ⟨_, h, _⟩ => absurd h id
  | writeBuffer fd buffer callback =>
    obtain ⟨_, ⟨rfl, hk⟩, herr⟩ := hf.resolve_left id
    exact guards_writeBuffer hw ans hk herr
  | connect callback => exact hf.elim (absurd · id) fun ⟨_, h, _⟩ => absurd h id
  | acceptTcp fd callback =>
    obtain ⟨_, ⟨rfl, hk⟩, herr⟩ := hf.resolve_left id
    exact guards_onAcceptable hw ans hk herr
  | autoClose fd => exact (guards_close hw fd).bind fun _ _ _ hw₁ _ _ => .pure hw₁ leaves_none
  | clientError k =>
    have hk : (m.clients k).isSome := hf.elim id fun ⟨_, h, _⟩ => h
    exact (guards_clientClose hw (.inr hk)).bind fun _ _ _ hw₁ _ _ => .pure hw₁ leaves_none

theorem guards_runCont (hw : m.Wired) (arg : Int) {callback : Cont} (hk : m.Known callback)
    (hct : may ∨ ∀ k, callback = .header k → ∀ h ∈ Client.headerAt m k arg, h.Typed) :
    Guards may m (runCont arg callback) (Leaves may) := by
  cases callback with
  | user id => exact .pure hw leaves_none
  | accepted => exact (guards_new hw arg).bind fun k m' _ hw' _ hk' => guards_recvHeader hw' hk'
  | header k => exact guards_onHeader hw hk (hct.imp id fun h => h k rfl)
  | body k => exact guards_process hw (.inr hk)
  | part k => exact guards_onPart hw hk arg
  | partEnd k => exact guards_onPartEnd hw hk
  | partHeader k => exact guards_onPartHeader hw hk arg
  | lastPart k => exact guards_process hw (.inr hk)
  | flushed k => exact .pure hw leaves_none
  | ended k => exact guards_onEnded hw hk

theorem guards_runTask (hw : m.Wired) (ans : Answers) {t : Task} (ht : t.Wired may m)
    (hct : may ∨ ∀ k n, t = .invoke (.header k) n → ∀ h ∈ Client.headerAt m k n, h.Typed) :
    Guards may m (runTask ans t) (Leaves may) := by
  cases t with
  | call f => exact guards_runCallback hw ans (.inl ht)
  | invoke callback arg => exact guards_runCont hw arg ht (hct.imp id fun h k hk => h k arg (by rw [hk]))
  | triggerError fd => exact guards_triggerError hw ht
  | handler k req => exact .pure hw leaves_none

theorem guards_runMethod (hw : m.Wired) (ans : Answers) (k : Nat) (method : Method) :
    Guards True m (Process.runMethod ans k method) (Leaves True) := by
  cases method with
  | write text =>
    have hwrite : Guards True m (Client.write k text) (fun _ _ => True) := by
      refine (guards_client hw (.inl trivial)).bind ?_
      rintro c m' - - - ⟨rfl, hc⟩
      exact (Guards.of_idle hw (((lax_idle m').edits c.buffer).writeUtf8 text)).mono fun _ _ _ _ _ => trivial
    exact hwrite.bind fun _ _ _ hw₁ _ _ => .pure hw₁ leaves_none
  | flush =>
    refine (guards_client hw (.inl trivial)).bind ?_
    rintro c m' - - - ⟨rfl, hc⟩
    exact guards_writeBuffer hw ans (isSome_of_eq hc) (.inl trivial)
  | finish =>
    refine (guards_client hw (.inl trivial)).bind ?_
    rintro c m' - - - ⟨rfl, hc⟩
    exact guards_writeBuffer hw ans (isSome_of_eq hc) (.inl trivial)
  | close => exact (guards_clientClose hw (.inl trivial)).bind fun _ _ _ hw₁ _ _ => .pure hw₁ leaves_none

namespace Process

/-- A state `Service::run` is still in, with everything wired. -/
structure Serves (p : Process) : Prop where
  wired : p.machine.Wired
  task  : ∀ t ∈ p.task, t.Wired (p.byUser = true) p.machine
  left  : p.left = false

/-- A header that is about to be read for `Service::run` says of what type its body is, if it announces one. -/
def TypedHeader (p : Process) : Prop :=
  match p.task with
  | some (.invoke (.header k) n) => p.byUser = false → ∀ h ∈ Client.headerAt p.machine k n, h.Typed
  | _                            => True

/-- The conditions on a step: an event comes on an fd with an error callback, and a header read is typed. -/
def Answerable (p : Process) : Input → Prop
  | .event e _  => (p.machine.service.fdsError e.fd).isSome
  | .call _ _ _ => True
  | .go _       => p.TypedHeader

instance (h : Header) : Decidable h.Typed := inferInstanceAs (Decidable (_ → _))

instance (p : Process) : Decidable p.TypedHeader := by
  unfold TypedHeader
  split
  · exact inferInstance
  · exact .isTrue trivial

instance (p : Process) : ∀ i, Decidable (p.Answerable i)
  | .event e _  => inferInstanceAs (Decidable ((p.machine.service.fdsError e.fd).isSome = true))
  | .call _ _ _ => .isTrue trivial
  | .go _       => inferInstanceAs (Decidable p.TypedHeader)

omit [V8] in
theorem serves_ended {p p' : Process} {byUser : Bool} {x : M (Option Task)}
    (hx : Guards (byUser = true) p.machine x (Leaves (byUser = true))) (h : ended byUser (x p.machine) = .ok p') :
    p'.Serves := by
  cases hr : x p.machine with
  | ok r m' =>
    rw [hr] at h
    cases h
    obtain ⟨h1, -, h3⟩ := hx.leads.ok hr
    exact ⟨h1, h3, rfl⟩
  | error e m' =>
    rw [hr] at h
    rcases hx.leads.error hr with ⟨t, rfl⟩ | ⟨hmay, hw⟩
    · cases h
    · cases e with
      | trap t => cases h
      | throw e =>
        cases h
        exact ⟨hw, (fun _ ht => nomatch ht), by simp only [hmay, Bool.not_true]⟩

omit [V8] in
theorem wired_callbackOf {m : Machine} (h : m.Wired) {e : Event} {f : Callback} {may : Prop}
    (hf : m.service.callbackOf e = some f) (herr : may ∨ (m.service.fdsError e.fd).isSome) :
    m.OnError f ∨ ∃ fd, m.Wire fd f ∧ (may ∨ (m.service.fdsError fd).isSome) := by
  unfold Service.callbackOf at hf
  split at hf
  · exact .inl (h.errors e.fd f hf)
  · exact .inr ⟨e.fd, h.fds e.fd f hf, herr⟩

/-- **A step keeps the wiring and the loop.** -/
theorem step_serves {p p' : Process} {i : Input} (h : p.Serves) (hok : p.Answerable i) (hs : p.step i = .ok p') :
    p'.Serves := by
  obtain ⟨e, ans, f, rfl, -, hf, hend⟩ | ⟨k, method, ans, rfl, -, hend⟩ | ⟨ans, t, rfl, ht, hend⟩ := step_cases hs
  · exact serves_ended (guards_runCallback h.wired ans (wired_callbackOf h.wired hf (.inr hok))) hend
  · refine serves_ended ?_ hend
    have := guards_runMethod h.wired ans k method
    simpa using this
  · refine serves_ended (guards_runTask h.wired ans (h.task t ht) ?_) hend
    cases hb : p.byUser with
    | true => exact .inl rfl
    | false =>
      refine .inr fun k n hk => ?_
      simp only [Answerable, TypedHeader, ht, hk] at hok
      exact hok hb

theorem initial_serves (server : Int) : (initial server).Serves := by
  obtain ⟨d₀, d₁, hinit, hd₀, hd₁, -⟩ := initial_eq server
  rw [hinit]
  refine ⟨⟨fun id b hb => ?_, fun _ _ => rfl, fun fd f hf => ?_, fun fd f hf => ?_⟩, (fun _ ht => nomatch ht), rfl⟩
  · have hb' : (Function.update (Function.update Machine.empty.heap 0 ⟨some d₀, false, false⟩) 1 ⟨some d₁, false, false⟩
        id).native = some b := hb
    rw [Function.update_apply, Function.update_apply] at hb'
    split at hb'
    · exact Option.some.inj hb' ▸ hd₁.sane
    · split at hb'
      · exact Option.some.inj hb' ▸ hd₀.sane
      · cases hb'
  · have hfds : (booted server d₀ d₁).service.fds fd =
        Function.update (fun _ => none) server (some (.acceptTcp server .accepted)) fd :=
        congrFun (Service.pollIn_fds ..) fd
    rw [hfds, Function.update_apply] at hf
    split at hf
    · rename_i he
      cases hf
      exact ⟨he.symm, trivial⟩
    · cases hf
  · have herr : (booted server d₀ d₁).service.fdsError fd =
        Function.update (fun _ => none) server (some (.autoClose server)) fd := congrFun (Service.pollIn_fdsError ..) fd
    rw [herr, Function.update_apply] at hf
    split at hf
    · cases hf
      trivial
    · cases hf

/-- A state with everything wired, whether or not `Service::run` is still in its loop. -/
structure Stands (p : Process) : Prop where
  wired : p.machine.Wired
  task  : ∀ t ∈ p.task, t.Wired True p.machine

omit [V8] in
theorem stands_ended {p p' : Process} {byUser : Bool} {x : M (Option Task)} (hx : Guards True p.machine x (Leaves True))
    (h : ended byUser (x p.machine) = .ok p') : p'.Stands := by
  cases hr : x p.machine with
  | ok r m' =>
    rw [hr] at h
    cases h
    obtain ⟨h1, -, h3⟩ := hx.leads.ok hr
    exact ⟨h1, h3⟩
  | error e m' =>
    rw [hr] at h
    rcases hx.leads.error hr with ⟨t, rfl⟩ | ⟨-, hw⟩
    · cases h
    · cases e with
      | trap t => cases h
      | throw e =>
        cases h
        exact ⟨hw, fun _ ht => nomatch ht⟩

/-- **Every step keeps the wiring.** -/
theorem step_stands {p p' : Process} {i : Input} (h : p.Stands) (hs : p.step i = .ok p') : p'.Stands := by
  obtain ⟨e, ans, f, rfl, -, hf, hend⟩ | ⟨k, method, ans, rfl, -, hend⟩ | ⟨ans, t, rfl, ht, hend⟩ := step_cases hs
  · exact stands_ended (guards_runCallback h.wired ans (wired_callbackOf h.wired hf (.inl trivial))) hend
  · exact stands_ended (guards_runMethod h.wired ans k method) hend
  · exact stands_ended (guards_runTask h.wired ans (h.task t ht) (.inl trivial)) hend

theorem run_stands {server : Int} {inputs : List Input} {p : Process}
    (h : inputs.foldlM step (initial server) = .ok p) : p.Stands := by
  have hstep : ∀ (p : Process) (i : Input) p', p.Stands → True → p.step i = .ok p' → p'.Stands :=
    fun _ _ _ h _ hs => step_stands h hs
  refine Run.invariant hstep inputs _ p ⟨(initial_serves server).wired, ?_⟩
    (Run.along_of_forall (fun _ _ => trivial) _ _) h
  obtain ⟨d₀, d₁, hp, -⟩ := initial_eq server
  rw [hp]
  exact fun _ ht => nomatch ht

/-- **`Service::run` stays in its loop** in every run whose events come on fds with an error callback, and in which a
header with a `Content-Length` has a `Content-Type` too. -/
theorem run_serves {server : Int} {inputs : List Input} {p : Process}
    (h : Run.Along step Answerable (initial server) inputs) (hp : inputs.foldlM step (initial server) = .ok p) :
    p.Serves :=
  Run.invariant (I := Serves) (fun _ _ _ h hok hs => step_serves h hok hs) inputs _ p (initial_serves server) h hp

end Process

end

end V8h
