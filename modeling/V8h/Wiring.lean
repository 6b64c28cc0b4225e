import V8h.HttpKeeps
import V8h.SocketSpec
/-!
# Wiring — which functions are registered where

Whoever calls what and when, a function the service holds for an fd works on that fd, and the clients its callback needs
are there.
-/
namespace V8h

open Machine Effect

namespace Machine

/-- The client a callback works for is there, with its boundary where the callback reads it. -/
def Known (m : Machine) : Cont → Prop
  | .user _ | .accepted                                       => True
  | .part k | .partEnd k | .partHeader k                      => ∃ c, m.clients k = some c ∧ c.boundary.isSome
  | .header k | .body k | .lastPart k | .flushed k | .ended k => (m.clients k).isSome

/-- A function registered for an fd. -/
def Wire (m : Machine) (fd : Int) : Callback → Prop
  | .readUntil f _ _ callback => f = fd ∧ m.Known callback.callback
  | .writeBuffer f _ callback => f = fd ∧ m.Known callback
  | .acceptTcp f callback     => f = fd ∧ m.Known callback
  | .writeUntil .. | .connect _ => False
  | .clientError k            => (m.clients k).isSome
  | _                         => True

/-- An error callback. -/
def OnError (m : Machine) : Callback → Prop
  | .autoClose _   => True
  | .clientError k => (m.clients k).isSome
  | _              => False

/-- No buffer is malformed. -/
def Intact (m : Machine) : Prop := ∀ id b, (m.heap id).native = some b → b.Sane 64

structure Wired (m : Machine) : Prop where
  intact  : m.Intact
  clients : ∀ k, m.nextClient ≤ k → m.clients k = none
  fds     : ∀ fd f, m.service.fds fd = some f → m.Wire fd f
  errors  : ∀ fd f, m.service.fdsError fd = some f → m.OnError f

/-- No client went away, and none lost its boundary. -/
def Grown (m m' : Machine) : Prop :=
  ∀ k c, m.clients k = some c → ∃ c', m'.clients k = some c' ∧ (c.boundary.isSome → c'.boundary.isSome)

variable {m m' m'' : Machine}

theorem Grown.of_eq (h : m'.clients = m.clients) : Grown m m' := fun _ c hc => ⟨c, by rw [h, hc], id⟩

theorem Grown.trans (h : Grown m m') (h' : Grown m' m'') : Grown m m'' := fun k c hc => by
  obtain ⟨c', hc', hb⟩ := h k c hc
  obtain ⟨c'', hc'', hb'⟩ := h' k c' hc'
  exact ⟨c'', hc'', hb' ∘ hb⟩

theorem Grown.isSome (h : Grown m m') {k : Nat} (hk : (m.clients k).isSome) : (m'.clients k).isSome := by
  obtain ⟨c, hc⟩ := Option.isSome_iff_exists.1 hk
  obtain ⟨c', hc', -⟩ := h k c hc
  rw [hc']
  rfl

theorem Grown.known (h : Grown m m') : ∀ {callback : Cont}, m.Known callback → m'.Known callback
  | .user _, _ | .accepted, _ => trivial
  | .part k, hk | .partEnd k, hk | .partHeader k, hk => by
    obtain ⟨c, hc, hb⟩ := hk
    obtain ⟨c', hc', hb'⟩ := h k c hc
    exact ⟨c', hc', hb' hb⟩
  | .header _, hk | .body _, hk | .lastPart _, hk | .flushed _, hk | .ended _, hk => h.isSome hk

theorem Grown.wire (h : Grown m m') {fd : Int} : ∀ {f : Callback}, m.Wire fd f → m'.Wire fd f
  | .readUntil .., hf | .writeBuffer .., hf | .acceptTcp .., hf => ⟨hf.1, h.known hf.2⟩
  | .clientError _, hf => h.isSome hf
  | .user _, _ | .empty, _ | .autoClose _, _ => trivial

theorem Grown.onError (h : Grown m m') : ∀ {f : Callback}, m.OnError f → m'.OnError f
  | .autoClose _, _ => trivial
  | .clientError _, hf => h.isSome hf

/-- The tables and the clients are what they were. -/
structure Idle (m m' : Machine) : Prop where
  service    : m'.service = m.service
  clients    : m'.clients = m.clients
  nextClient : m'.nextClient = m.nextClient

theorem Idle.refl (m : Machine) : Idle m m := ⟨rfl, rfl, rfl⟩

theorem Idle.trans (h : Idle m m') (h' : Idle m' m'') : Idle m m'' :=
  ⟨h'.service.trans h.service, h'.clients.trans h.clients, h'.nextClient.trans h.nextClient⟩

theorem Intact.update (h : m.Intact) {id : Nat} {o : BufferObj} (ho : ∀ b, o.native = some b → b.Sane 64) :
    Intact { m with heap := Function.update m.heap id o } := fun id' b hb => by
  have hb' : (Function.update m.heap id o id').native = some b := hb
  rw [Function.update_apply] at hb'
  split at hb'
  · exact ho b hb'
  · exact h id' b hb'

theorem Idle.grown (h : Idle m m') : Grown m m' := .of_eq h.clients

theorem Idle.wired (h : Idle m m') (hi : m'.Intact) (hw : m.Wired) : m'.Wired := by
  refine ⟨hi, ?_, ?_, ?_⟩
  · rw [h.clients, h.nextClient]; exact hw.clients
  · rw [h.service]; exact fun fd f hf => h.grown.wire (hw.fds fd f hf)
  · rw [h.service]; exact fun fd f hf => h.grown.onError (hw.errors fd f hf)

end Machine

/-! ## Programs that leave the tables and the clients alone -/

/-- Neither the tables nor the clients say anything of buffers, and no buffer becomes malformed. -/
theorem lax_idle (m : Machine) : Lax (fun m' => Idle m m' ∧ m'.Intact) (Buffer.Sane 64) where
  blind  := fun _ _ ⟨hi, hm⟩ hs => ⟨hi.trans ⟨hs.service, hs.clients, hs.nextClient⟩, by rwa [Intact, hs.heap]⟩
  stable := Buffer.stable_sane
  fresh  := fun _ h0 hn => (Buffer.new_spec h0 hn).sane
  good   := fun _ b nb hm hb => hm.2 b nb hb
  heap   := fun _ _ _ ⟨hi, hm⟩ ho => ⟨hi.trans ⟨rfl, rfl, rfl⟩, hm.update ho⟩
  pool   := fun _ _ ⟨hi, hm⟩ => ⟨hi.trans ⟨rfl, rfl, rfl⟩, hm⟩
  next   := fun _ _ ⟨hi, hm⟩ => ⟨hi.trans ⟨rfl, rfl, rfl⟩, hm⟩

theorem idle_acceptTcp (m : Machine) (ans : Answers) (server : Int) : Keeps (fun m' => Idle m m' ∧ m'.Intact)
    (fun _ => False) (Socket._acceptTcp ans server) Any := by
  refine ⟨⟨fun {m₁ m₂ r} ⟨hi, hm⟩ hx => ?_, fun {m₁ m₂ e} _ hx => ?_⟩⟩ <;> unfold Socket._acceptTcp at hx <;>
    repeat' split at hx
  all_goals cases hx
  all_goals exact ⟨⟨hi.trans ⟨rfl, rfl, rfl⟩, hm⟩, trivial⟩

end V8h
