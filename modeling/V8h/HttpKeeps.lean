import V8h.Ownership
import V8h.Process
/-!
# HttpKeeps — the methods of a client keep an invariant

Each method of `Client`, and each function it passes as a callback, is judged once, for every invariant that lets the
client read (`Attends`), be given other fields and a boundary, and be closed (`Tends`).
-/
namespace V8h

open Machine Effect

/-- The buffer of the client may be written to, and its fd may be read for callbacks in `P`. -/
structure Attends (I E : Machine → Prop) (G : Buffer → Prop) (k : Nat) (C : Client → Prop) (P : Cont → Prop) :
    Prop where
  client : Keeps I E (client k) C
  edits  : ∀ c, C c → Edits I G c.buffer
  reads  : ∀ c callback, C c → P callback → Reads I c.fd c.buffer callback

namespace Attends

variable {I E : Machine → Prop} {G : Buffer → Prop} {k : Nat} {C : Client → Prop} {P : Cont → Prop}

theorem recvHeader (h : Attends I E G k C P) (hp : P (.header k)) :
    Keeps I E (Client.recvHeader k) (Invokes (.header k)) :=
  h.client.bind fun c hc => (h.edits c hc).clear.andThen (keeps_readToken (h.edits c hc).blind (h.reads c _ hc hp) _)

theorem process (h : Attends I E G k C P) : Keeps I E (Client.process k) fun r => ∃ req, r = some (.handler k req) :=
  h.client.bind fun c hc => (h.edits c hc).clear.andThen (.pure ⟨c.req, rfl⟩)

theorem recvMultiPart (h : Attends I E G k C P) (hp : P (.part k))
    (hthrow : ∀ c, C c → c.boundary = none → ∀ m, I m → E m) :
    Keeps I E (Client.recvMultiPart k) (Invokes (.part k)) := by
  refine h.client.bind fun c hc => ?_
  cases hb : c.boundary with
  | none => exact .throw (hthrow c hc hb)
  | some boundary => exact keeps_readToken (h.edits c hc).blind (h.reads c _ hc hp) boundary

theorem onPart (h : Attends I E G k C P) (hp : P (.partEnd k)) (n : Int) :
    Keeps I E (Client.onPart k n) (Invokes (.partEnd k)) :=
  h.client.bind fun c hc => ((h.edits c hc).consume n).andThen
    (keeps_readSize (h.edits c hc).blind (h.reads c _ hc hp) _)

variable [V8]

theorem onPartEnd (h : Attends I E G k C P) (hp : P (.partHeader k)) (hp' : P (.lastPart k)) :
    Keeps I E (Client.onPartEnd k) fun r => Invokes (.partHeader k) r ∨ Invokes (.lastPart k) r := by
  refine h.client.bind fun c hc => ((h.edits c hc).readUtf8 2).bind fun _ _ => .ite ?_ ?_
  · exact (keeps_readToken (h.edits c hc).blind (h.reads c _ hc hp) _).mono fun _ => .inl
  · exact (keeps_readToken (h.edits c hc).blind (h.reads c _ hc hp') _).mono fun _ => .inr

theorem onPartHeader (h : Attends I E G k C P) (hp : P (.part k))
    (hthrow : ∀ c, C c → c.boundary = none → ∀ m, I m → E m) (n : Int) :
    Keeps I E (Client.onPartHeader k n) (Invokes (.part k)) :=
  h.client.bind fun c hc => ((h.edits c hc).readUtf8 n).bind fun _ _ => h.recvMultiPart hp hthrow

end Attends

/-! ## Any callback of a client -/

variable [V8]

/-- The client may do what its methods do, and calls in `R` may be left.  `close` ends in `J`. -/
structure Tends (I J : Machine → Prop) (G : Buffer → Prop) (k : Nat) (C : Client → Prop) (R : Task → Prop) : Prop
    extends Attends I I G k C (fun callback => callback.client = some k) where
  edit    : ∀ f : Client → Client, (∀ c, (f c).fd = c.fd ∧ (f c).buffer = c.buffer ∧ (f c).boundary = c.boundary ∧
    (f c).closed = c.closed) → Keeps I I (modifyClient k f) Any
  bound   : ∀ text, Keeps I I (do
    let boundary ← BufferPool.pop
    modifyClient k fun c => { c with boundary := some boundary }
    Script.writeUtf8 boundary text) Any
  closes  : Ends I (Client.close k) (fun _ => J) (Escape I)
  invokes : ∀ callback arg, callback.client = some k → R (.invoke callback arg)
  handles : ∀ req, R (.handler k req)

/-- The invariant is kept and calls in `R` are left, or `J` holds and none is. -/
structure Finishes (I J : Machine → Prop) (R : Task → Prop) (x : M (Option Task)) : Prop where
  ends : Ends I x (fun r m => I m ∧ (∀ t ∈ r, R t) ∨ J m ∧ r = none) (Escape I)

variable {I J : Machine → Prop} {G : Buffer → Prop} {k : Nat} {C : Client → Prop} {R : Task → Prop}

omit [V8] in
theorem Keeps.finishes {x : M (Option Task)} (hx : Keeps I I x fun r => ∀ t ∈ r, R t) : Finishes I J R x :=
  ⟨hx.ends.mono (fun _ hm => hm) (fun _ _ hr => .inl hr) fun _ _ he => he⟩

omit [V8] in
theorem Keeps.then_finishes {α : Type} {Q : α → Prop} {x : M α} {f : α → M (Option Task)} (hx : Keeps I I x Q)
    (hf : ∀ a, Q a → Finishes I J R (f a)) : Finishes I J R (x >>= f) := ⟨hx.then fun a hQ => (hf a hQ).ends⟩

omit [V8] in
theorem Finishes.close (h : Ends I (Client.close k) (fun _ => J) (Escape I)) :
    Finishes I J R (do Client.close k; return none) := ⟨h.bind fun _ => Ends.pure fun _ hm => .inr ⟨hm, rfl⟩⟩

omit [V8] in
/-- Where the invariant survives `close`, it is kept. -/
theorem Finishes.keeps {x : M (Option Task)} (hx : Finishes I I R x) : Keeps I I x fun r => ∀ t ∈ r, R t := by
  refine ⟨hx.ends.mono (fun _ hm => hm) (fun r m hr => ?_) fun _ _ he => he⟩
  rcases hr with hr | ⟨hm, rfl⟩
  · exact hr
  · exact ⟨hm, fun _ ht => nomatch ht⟩

namespace Tends

theorem after_invokes (h : Tends I J G k C R) {callback : Cont} (hk : callback.client = some k) (r : Option Task)
    (hr : Invokes callback r) : ∀ t ∈ r, R t := fun t ht => by
  obtain ⟨arg, rfl⟩ := hr t ht
  exact h.invokes callback arg hk

theorem recvHeader (h : Tends I J G k C R) : Keeps I I (Client.recvHeader k) fun r => ∀ t ∈ r, R t :=
  (h.toAttends.recvHeader rfl).mono (h.after_invokes rfl)

theorem process (h : Tends I J G k C R) : Keeps I I (Client.process k) fun r => ∀ t ∈ r, R t := by
  refine h.toAttends.process.mono fun r hr t ht => ?_
  obtain ⟨req, rfl⟩ := hr
  obtain rfl := Option.some.inj ht
  exact h.handles req

theorem recvMultiPart (h : Tends I J G k C R) : Keeps I I (Client.recvMultiPart k) fun r => ∀ t ∈ r, R t :=
  (h.toAttends.recvMultiPart rfl fun _ _ _ _ hm => hm).mono (h.after_invokes rfl)

theorem recvBody (h : Tends I J G k C R) : Finishes I J R (Client.recvBody k) := by
  refine h.client.then_finishes fun c hc => ?_
  split
  · exact Keeps.finishes (.throw fun _ hm => hm)
  · split
    · split
      · exact .close h.closes
      · rename_i boundary _
        have := (h.bound (js "--" ++ boundary)).andThen h.recvMultiPart
        simp only [bind_assoc] at this
        exact this.finishes
    · have := keeps_readSize (E := I) (h.edits c hc).blind (h.reads c (.body k) hc rfl) c.contentLength
      exact (this.mono (h.after_invokes rfl)).finishes

theorem onHeader (h : Tends I J G k C R) (n : Int) : Finishes I J R (Client.onHeader k n) := by
  refine h.client.then_finishes fun c hc => ((h.edits c hc).readUtf8 n).then_finishes fun text _ => ?_
  extract_lets req
  refine Keeps.then_finishes (h.edit _ fun c => ⟨rfl, rfl, rfl, rfl⟩) fun _ _ => ?_
  split
  · exact Keeps.then_finishes (h.edit _ fun c => ⟨rfl, rfl, rfl, rfl⟩) fun _ _ => h.recvBody
  · exact h.process.finishes

theorem onEnded (h : Tends I J G k C R) : Finishes I J R (Client.onEnded k) := by
  refine h.client.then_finishes fun c _ => ?_
  split
  · exact .close h.closes
  · exact h.recvHeader.finishes

/-- **A callback of the client keeps the invariant**, or closes the client. -/
theorem runCont (h : Tends I J G k C R) {callback : Cont} (hk : callback.client = some k) (arg : Int) :
    Finishes I J R (runCont arg callback) := by
  cases callback <;> cases hk
  case header => exact h.onHeader arg
  case body => exact h.process.finishes
  case part => exact ((h.onPart rfl arg).mono (h.after_invokes rfl)).finishes
  case partEnd =>
    refine ((h.onPartEnd rfl rfl).mono fun r hr => ?_).finishes
    exact hr.elim (h.after_invokes rfl r) (h.after_invokes rfl r)
  case partHeader => exact ((h.onPartHeader rfl (fun _ _ _ _ hm => hm) arg).mono (h.after_invokes rfl)).finishes
  case lastPart => exact h.process.finishes
  case flushed => exact Keeps.finishes (.pure fun _ ht => nomatch ht)
  case ended => exact h.onEnded

/-- **So does a method user code calls**, where the buffer may be written out. -/
theorem runMethod (h : Tends I J G k C R) (hfail : ∀ c, C c → R (.triggerError c.fd))
    (hw : ∀ c callback, C c → callback.client = some k → Writes I I G c.fd c.buffer callback) (ans : Answers)
    (method : Method) : Finishes I J R (Process.runMethod ans k method) := by
  have hwrite : ∀ c callback, C c → callback.client = some k →
      Finishes I J R (Socket.writeBuffer ans c.fd c.buffer callback) := fun c callback hc hk => by
    refine Keeps.finishes (((hw c callback hc hk).writeBuffer ans).mono fun r hr => ?_)
    rcases hr with rfl | hr
    · exact fun t ht => Option.some.inj ht ▸ hfail c hc
    · exact h.after_invokes hk r hr
  cases method with
  | write text =>
    have : Keeps I I (Client.write k text) Any := h.client.bind fun c hc => (h.edits c hc).writeUtf8 text
    exact this.then_finishes fun _ _ => Keeps.finishes (.pure fun _ ht => nomatch ht)
  | flush => exact h.client.then_finishes fun c hc => hwrite c _ hc rfl
  | finish => exact h.client.then_finishes fun c hc => hwrite c _ hc rfl
  | close => exact .close h.closes

end Tends
end V8h
