import V8h.BufferGrowth
import V8h.BufferLive
import V8h.Lib.Arena
/-!
# BufferCopy — one buffer written to another

Here `data_` is a pointer: the objects share an `Arena`, and the `realloc` of `prepare` may move the block of the buffer
that grows.  `write(Buffer *, n)` passes `data()` to `write`, which prepares before it copies, so of a buffer written to
itself the pointer is the old one.  A buffer is appended to another whenever there is room to be had, and to itself when
it need not grow (`append_iff`).
-/
namespace V8h

/-- The members of a `Buffer`, with `data_` the identifier of its block. -/
structure Fields where
  data    : Nat
  cursor  : Nat
  size    : Nat
  used    : Nat
  reserve : Nat

/-- The `Buffer` objects that are open, and their blocks. -/
structure Objects where
  arena  : Arena UInt8
  fields : Nat → Option Fields

namespace Objects

open Arena Buffer Tripling

section Functions

variable (w : Nat) (moves : Bool)

def get (s : Objects) (i : Nat) : Except Trap Fields :=
  match s.fields i with
  | none   => .error .null
  | some f => .ok f

def set (s : Objects) (i : Nat) (f : Fields) : Objects := { s with fields := Function.update s.fields i (some f) }

def load (s : Objects) (p : Ptr) (n : Nat) : Except Trap (List Cell) :=
  match s.arena.load p n with
  | none     => .error .outOfBounds
  | some src => .ok src

def store (s : Objects) (p : Ptr) (src : List Cell) : Except Trap Objects :=
  match s.arena.store p src with
  | none       => .error .outOfBounds
  | some arena => .ok { s with arena := arena }

/-- `Buffer::realloc`; whether the block moves is up to the allocator. -/
def realloc (s : Objects) (i size : Nat) : Except Trap Objects := do
  let f ← s.get i
  match s.arena.realloc moves f.data size with
  | none             => throw .outOfBounds
  | some (id, arena) => return { s with arena := arena }.set i { f with data := id, reserve := size }

/-- `Buffer::prepare`; the pointer it returns is `data_ + used_`. -/
def prepare (s : Objects) (i n : Nat) : Except Trap Objects := do
  let f ← s.get i
  match ← grown w f.used f.reserve n with
  | none         => return s
  | some reserve => s.realloc moves i reserve

def commit (s : Objects) (i n : Nat) : Except Trap Objects := do
  let f ← s.get i
  return s.set i { f with size := sizeT w (f.size + n), used := sizeT w (f.used + n) }

/-- `Buffer::data`. -/
def data (s : Objects) (i : Nat) : Except Trap Ptr := do
  let f ← s.get i
  return ⟨f.data, f.cursor⟩

/-- `Buffer::write(const void *data, size_t n)`: the `memcpy` is after `prepare`. -/
def write (s : Objects) (i : Nat) (data : Ptr) (n : Nat) : Except Trap Objects := do
  let s ← s.prepare w moves i n
  let src ← s.load data n
  let f ← s.get i
  let s ← s.store ⟨f.data, f.used⟩ src
  s.commit w i n

/-- `Buffer::write(Buffer *buffer, size_t n)`: `data()` is an argument of the `write` that prepares. -/
def writeFrom (s : Objects) (i buffer n : Nat) : Except Trap Objects := do
  let size := (← s.get buffer).size
  let n := if n > size then size else n
  s.write w moves i (← s.data buffer) n

/-- `Buffer::write_buffer`. -/
def writeBuffer (s : Objects) (dest src : Nat) : Except Trap Objects := do
  let size := (← s.get src).size
  let n := if sizeMax w > size then size else sizeMax w
  s.writeFrom w moves dest src n

end Functions

/-! ## What the objects hold -/

end Objects

def Fields.buffer (f : Fields) (d : Block UInt8) : Buffer := ⟨d, f.cursor, f.size, f.used, f.reserve⟩

namespace Objects

open Arena Buffer Tripling

/-- The buffer an object is. -/
def view (s : Objects) (i : Nat) : Option Buffer :=
  (s.fields i).bind fun f => (s.arena.block f.data).map f.buffer

/-- Each open object has a block of its own, and its counters are in order. -/
structure Sound (w : Nat) (s : Objects) : Prop where
  fresh   : s.arena.Fresh
  apart   : ∀ i j, ∀ f ∈ s.fields i, ∀ g ∈ s.fields j, f.data = g.data → i = j
  counted : ∀ i, ∀ f ∈ s.fields i, ∃ d, s.arena.block f.data = some d ∧ Counted w (f.buffer d)

/-- No other object was changed. -/
def Only (i : Nat) (s s' : Objects) : Prop := ∀ j, j ≠ i →
  s'.fields j = s.fields j ∧ ∀ g ∈ s.fields j, s'.arena.block g.data = s.arena.block g.data

/-- **An append as it should be**: it returns, the content of the one comes after that of the other, and nothing else is
changed. -/
def Adds (w : Nat) (moves : Bool) (s : Objects) (dest src : Nat) (old new : List Cell) : Prop :=
  ∃ s' b, s.writeBuffer w moves dest src = .ok s' ∧ s'.view dest = some b ∧ b.content = old ++ new ∧
    ∀ j, j ≠ dest → s'.view j = s.view j

variable {w n i j dest src : Nat} {moves : Bool} {s s' s'' : Objects} {f f' : Fields} {b b' c : Buffer}

theorem Only.trans (h : Only i s s') (h' : Only i s' s'') : Only i s s'' := fun j hj => by
  obtain ⟨hfields, hblock⟩ := h j hj
  obtain ⟨hfields', hblock'⟩ := h' j hj
  exact ⟨hfields'.trans hfields, fun g hg => (hblock' g (hfields ▸ hg)).trans (hblock g hg)⟩

theorem Only.view (h : Only i s s') (hj : j ≠ i) : s'.view j = s.view j := by
  obtain ⟨hfields, hblock⟩ := h j hj
  unfold Objects.view
  rw [hfields]
  cases hg : s.fields j with
  | none => rfl
  | some g => rw [Option.bind_some, Option.bind_some, hblock g hg]

theorem view_some (h : s.view i = some b) : ∃ f d, s.fields i = some f ∧ s.arena.block f.data = some d ∧
    b = f.buffer d := by
  obtain ⟨f, hf, h⟩ := Option.bind_eq_some_iff.1 h
  obtain ⟨d, hd, rfl⟩ := Option.map_eq_some_iff.1 h
  exact ⟨f, d, hf, hd, rfl⟩

theorem view_of {d : Block UInt8} (hf : s.fields i = some f) (hd : s.arena.block f.data = some d) :
    s.view i = some (f.buffer d) := by rw [view, hf, Option.bind_some, hd, Option.map_some]

theorem get_run (h : s.fields i = some f) : s.get i = .ok f := by rw [get, h]

theorem set_fields : (s.set i f).fields i = some f := Function.update_self ..

theorem Sound.view_counted (h : Sound w s) (hv : s.view i = some b) : Counted w b := by
  obtain ⟨f, d, hf, hd, rfl⟩ := view_some hv
  obtain ⟨d', hd', hcount⟩ := h.counted i f hf
  cases hd.symm.trans hd'
  exact hcount

/-- **A change of one object** that keeps its block apart from the others. -/
theorem Sound.change {d : Block UInt8} (h : Sound w s) (honly : Only i s s') (hfresh : s'.arena.Fresh)
    (hf : s'.fields i = some f) (hd : s'.arena.block f.data = some d)
    (hapart : ∀ j, j ≠ i → ∀ g ∈ s.fields j, g.data ≠ f.data) (hcount : Counted w (f.buffer d)) : Sound w s' := by
  refine ⟨hfresh, fun j k g hg g' hg' heq => ?_, fun j g hg => ?_⟩
  · rcases eq_or_ne j i with rfl | hj
    · cases hf.symm.trans hg
      by_contra hk
      exact hapart k (Ne.symm hk) g' ((honly k (Ne.symm hk)).1 ▸ hg') heq.symm
    · rw [(honly j hj).1] at hg
      rcases eq_or_ne k i with rfl | hk
      · cases hf.symm.trans hg'
        exact absurd heq (hapart j hj g hg)
      · rw [(honly k hk).1] at hg'
        exact h.apart j k g hg g' hg' heq
  · rcases eq_or_ne j i with rfl | hj
    · cases hf.symm.trans hg
      exact ⟨d, hd, hcount⟩
    · rw [(honly j hj).1] at hg
      rw [(honly j hj).2 g hg]
      exact h.counted j g hg

theorem Sound.apart_of_ne (h : Sound w s) (hf : s.fields i = some f) (hj : j ≠ i) : ∀ g ∈ s.fields j, g.data ≠ f.data :=
  fun g hg heq => hj (h.apart j i g hg f hf heq)

/-! ## `prepare` -/

/-- **`prepare` does to the object what it does to the buffer**; what the pointer from before points to then is gone if
the block moved. -/
theorem Sound.prepare {d : Block UInt8} (h : Sound w s) (hf : s.fields i = some f) (hd : s.arena.block f.data = some d)
    (moves : Bool) (hp : (f.buffer d).prepare w n = .ok b') :
    ∃ s', s.prepare w moves i n = .ok s' ∧ Sound w s' ∧ Only i s s' ∧ s'.view i = some b' ∧
      s'.arena.block f.data = if moves ∧ f.reserve < b'.reserve then none else some b'.data := by
  obtain ⟨hcount, -⟩ := (h.view_counted (view_of hf hd)).prepare hp
  obtain ⟨size, hgrown, hp⟩ := bind_eq_ok.1 hp
  have hgrown : grown w f.used f.reserve n = .ok size := hgrown
  cases size with
  | none =>
    cases hp
    refine ⟨s, ?_, h, fun j _ => ⟨rfl, fun _ _ => rfl⟩, view_of hf hd, ?_⟩
    · rw [Objects.prepare, get_run hf, ok_bind, hgrown]
      rfl
    · rw [hd, if_neg fun hlt' => Nat.lt_irrefl _ hlt'.2]
      rfl
  | some reserve =>
    cases hp
    obtain ⟨id, arena, hre, hfresh, hid, hnew, hkept, hold⟩ := h.fresh.realloc hd moves reserve
    let f' : Fields := { f with data := id, reserve := reserve }
    let s' : Objects := { s with arena := arena }.set i f'
    have hfields : s'.fields i = some f' := Function.update_self ..
    have hother : ∀ j, j ≠ i → ∀ g ∈ s.fields j, g.data ≠ f.data ∧ g.data < s.arena.next := fun j hj g hg => by
      obtain ⟨dg, hdg, -⟩ := h.counted j g hg
      exact ⟨h.apart_of_ne hf hj g hg, h.fresh.lt hdg⟩
    have honly : Only i s s' := fun j hj => ⟨Function.update_of_ne hj .., fun g hg =>
      hkept g.data (hother j hj g hg).1 (hother j hj g hg).2⟩
    refine ⟨s', ?_, ?_, honly, view_of hfields hid, ?_⟩
    · rw [Objects.prepare, get_run hf, ok_bind, hgrown, ok_bind]
      simp only [Objects.realloc, get_run hf, ok_bind, hre]
      rfl
    · refine h.change honly hfresh hfields hid (fun j hj g hg heq => ?_) hcount
      obtain ⟨hne, hgt⟩ := hother j hj g hg
      have heq : g.data = id := heq
      rcases hnew with rfl | hnew
      · exact hne heq
      · omega
    · have hgrew : f.reserve < ((f.buffer d).realloc reserve).reserve := (grown_some hgrown).2
      show arena.block f.data = _
      rw [hold]
      simp only [hgrew, and_true]
      rfl

theorem prepare_error {d : Block UInt8} {t : Trap} (hf : s.fields i = some f)
    (hp : (f.buffer d).prepare w n = .error t) : s.prepare w moves i n = .error t := by
  have hgrown : grown w f.used f.reserve n = .error t := grown_of_error hp
  rw [Objects.prepare, get_run hf, ok_bind, hgrown]
  rfl

/-! ## The copy -/

/-- What a call does to an object is what another does to the buffer. -/
def Does (w : Nat) (s : Objects) (i : Nat) (x : Except Trap Objects) : Except Trap Buffer → Prop
  | .error t => x = .error t
  | .ok b    => ∃ s', x = .ok s' ∧ Only i s s' ∧ s'.view i = some b ∧ (Counted w b → Sound w s')

/-- A store in the object's own block, and `commit`. -/
theorem Sound.fill {d : Block UInt8} (h : Sound w s) (hf : s.fields i = some f) (hd : s.arena.block f.data = some d)
    (cells : List Cell) (n : Nat) :
    Does w s i (do
      let s ← s.store ⟨f.data, f.used⟩ cells
      s.commit w i n) (do
      let b ← (f.buffer d).store f.used cells
      return b.commit w n) := by
  cases hstore : d.store f.used cells with
  | none =>
    have hours : s.store ⟨f.data, f.used⟩ cells = .error .outOfBounds := by
      simp only [Objects.store, Arena.store, hd, hstore]
    have htheirs : (f.buffer d).store f.used cells = .error .outOfBounds := by
      simp only [Buffer.store, Fields.buffer, hstore]
    rw [hours, htheirs]
    rfl
  | some d' =>
    let s₁ : Objects := { s with arena := s.arena.set f.data d' }
    have hours : s.store ⟨f.data, f.used⟩ cells = .ok s₁ := by
      simp only [Objects.store, Arena.store, hd, hstore]
      rfl
    have htheirs : (f.buffer d).store f.used cells = .ok (f.buffer d') := by
      simp only [Buffer.store, Fields.buffer, hstore]
    let f' : Fields := { f with size := sizeT w (f.size + n), used := sizeT w (f.used + n) }
    have hf₁ : s₁.fields i = some f := hf
    have hcommit : s₁.commit w i n = .ok (s₁.set i f') := by
      rw [Objects.commit, get_run hf₁]
      rfl
    rw [hours, htheirs]
    have honly : Only i s (s₁.set i f') := fun j hj =>
      ⟨Function.update_of_ne hj .., fun g hg => Arena.set_of_ne (h.apart_of_ne hf hj g hg)⟩
    exact ⟨s₁.set i f', hcommit, honly, view_of set_fields Arena.set_self,
      h.change honly (h.fresh.set hd) set_fields Arena.set_self fun j hj g hg => h.apart_of_ne hf hj g hg⟩

/-- **What `writeBuffer` does**: unless its own `prepare` moved the block it copies from, it copies the content. -/
theorem Sound.writeBuffer_does (h : Sound w s) (hb : s.view dest = some b) (hc : s.view src = some c) (moves : Bool) :
    Does w s dest (s.writeBuffer w moves dest src) (do
      let b₁ ← b.prepare w c.size
      if dest = src ∧ moves ∧ b.reserve < b₁.reserve then
        throw .outOfBounds
      else
        let b₂ ← b₁.store b₁.used c.content
        return b₂.commit w c.size) := by
  obtain ⟨f, d, hf, hd, rfl⟩ := view_some hb
  obtain ⟨g, e, hg, he, rfl⟩ := view_some hc
  have hcount := h.view_counted hc
  have hcursor : g.cursor + g.size ≤ e.size := by
    have h₁ : e.size = g.reserve := hcount.block
    have h₂ : g.cursor + g.size = g.used := hcount.counters
    have h₃ : g.used ≤ g.reserve := hcount.room
    omega
  have hword : g.size ≤ sizeMax w := by
    have h₁ : e.size = g.reserve := hcount.block
    have h₃ : g.reserve < 2 ^ w := hcount.word
    unfold sizeMax
    omega
  have hmin : (if sizeMax w > g.size then g.size else sizeMax w) = g.size := by
    split <;> omega
  have hrun : s.writeBuffer w moves dest src = s.write w moves dest ⟨g.data, g.cursor⟩ g.size := by
    unfold Objects.writeBuffer writeFrom data
    simp only [get_run hg, ok_bind, hmin, gt_iff_lt, Nat.lt_irrefl, if_false]
    rfl
  rw [hrun, Objects.write, show (g.buffer e).size = g.size from rfl]
  cases hp : (f.buffer d).prepare w g.size with
  | error t =>
    rw [prepare_error hf hp]
    rfl
  | ok b₁ =>
    obtain ⟨s₁, hprepare, h₁, honly, hview, hold⟩ := h.prepare hf hd moves hp
    obtain ⟨-, hcontent, hcursor₁, hsize₁, hused₁⟩ := (h.view_counted hb).prepare hp
    rw [hprepare, ok_bind, ok_bind]
    by_cases hlost : dest = src ∧ moves ∧ (f.buffer d).reserve < b₁.reserve
    · -- the pointer is into the block that was retired
      obtain ⟨rfl, hmoves⟩ := hlost
      cases hf.symm.trans hg
      have hgone : s₁.arena.block f.data = none := by rw [hold]; exact if_pos hmoves
      have hload : s₁.load ⟨f.data, f.cursor⟩ f.size = .error .outOfBounds := by
        rw [Objects.load, Arena.load, hgone]
      rw [if_pos ⟨rfl, hmoves⟩, hload]
      rfl
    · obtain ⟨e₁, he₁, hin, hslice⟩ : ∃ e₁, s₁.arena.block g.data = some e₁ ∧ g.cursor + g.size ≤ e₁.size ∧
          e₁.slice g.cursor g.size = (g.buffer e).content := by
        rcases eq_or_ne src dest with rfl | hne
        · cases hf.symm.trans hg
          cases hd.symm.trans he
          have hcount₁ := h₁.view_counted hview
          have hroom₁ := hcount₁.room
          have hblock₁ := hcount₁.block
          have hcount₁ := hcount₁.counters
          refine ⟨b₁.data, ?_, ?_, ?_⟩
          · rw [hold]
            exact if_neg fun hmoved => hlost ⟨rfl, hmoved⟩
          · have hc₁ : b₁.cursor = f.cursor := hcursor₁
            have hs₁ : b₁.size = f.size := hsize₁
            omega
          · rw [← hcontent, Buffer.content, hcursor₁, hsize₁]
            rfl
        · exact ⟨e, ((honly src hne).2 g hg).trans he, hcursor, rfl⟩
      obtain ⟨f₁, d₁, hf₁, hd₁, rfl⟩ := view_some hview
      have hload : s₁.load ⟨g.data, g.cursor⟩ g.size = .ok (g.buffer e).content := by
        rw [Objects.load, Arena.load, he₁]
        simp only [Block.load_ok hin, hslice]
      have hfill := h₁.fill hf₁ hd₁ (g.buffer e).content g.size
      rw [if_neg hlost, hload, ok_bind, get_run hf₁, ok_bind]
      have hused : (f₁.buffer d₁).used = f₁.used := rfl
      rw [hused]
      revert hfill
      cases (f₁.buffer d₁).store f₁.used (g.buffer e).content with
      | error t => exact id
      | ok b₂ =>
        rintro ⟨s₂, hs₂, honly₂, hrest⟩
        exact ⟨s₂, hs₂, honly.trans honly₂, hrest⟩

/-- **A copy that returns appends**, and there was room for it. -/
theorem Sound.writeBuffer_ok (h : Sound w s) (hb : s.view dest = some b) (hc : s.view src = some c)
    (hrun : s.writeBuffer w moves dest src = .ok s') :
    (∃ b', b.write w c.content = .ok b' ∧ s'.view dest = some b') ∧ Only dest s s' ∧ Sound w s' ∧
      (dest = src → moves → b.used + c.size ≤ b.reserve) := by
  have hlen : c.content.length = c.size := Block.length_slice ..
  have hcount := h.view_counted hb
  have hdoes := h.writeBuffer_does hb hc moves
  cases hp : b.prepare w c.size with
  | error t =>
    rw [hp] at hdoes
    cases hrun.symm.trans hdoes
  | ok b₁ =>
    rw [hp, ok_bind] at hdoes
    split at hdoes
    · cases hrun.symm.trans hdoes
    · rename_i hkept
      cases hstore : b₁.store b₁.used c.content with
      | error t =>
        rw [hstore] at hdoes
        cases hrun.symm.trans hdoes
      | ok b₂ =>
        rw [hstore] at hdoes
        obtain ⟨s'', hs'', honly, hview, hsound⟩ := hdoes
        cases hrun.symm.trans hs''
        have hwrite : b.write w c.content = .ok (b₂.commit w c.size) :=
          bind_eq_ok.2 ⟨b₁, by rw [hlen, hp], bind_eq_ok.2 ⟨b₂, hstore, by rw [hlen]; rfl⟩⟩
        obtain ⟨hcount', -, b₃, hp₃, hroom⟩ := hcount.write hwrite
        rw [hlen] at hp₃ hroom
        cases hp.symm.trans hp₃
        refine ⟨⟨_, hwrite, hview⟩, honly, hsound hcount', fun heq hmoves => ?_⟩
        have : ¬ b.reserve < b₁.reserve := fun hlt => hkept ⟨heq, hmoves, hlt⟩
        omega

theorem Sound.writeBuffer_returns (h : Sound w s) (hb : s.view dest = some b) (hc : s.view src = some c)
    (hreach : b.used + c.size ≤ reach w b.reserve) (hself : dest = src → b.used + c.size ≤ b.reserve) (moves : Bool) :
    ∃ s', s.writeBuffer w moves dest src = .ok s' := by
  have hlen : c.content.length = c.size := Block.length_slice ..
  have hcount := h.view_counted hb
  obtain ⟨b', hb'⟩ := hcount.write_isOk_iff.2 (hlen.symm ▸ hreach)
  obtain ⟨b₁, hp, hb'⟩ := bind_eq_ok.1 hb'
  obtain ⟨b₂, hstore, -⟩ := bind_eq_ok.1 hb'
  rw [hlen] at hp
  have hkept : ¬ (dest = src ∧ moves ∧ b.reserve < b₁.reserve) := fun ⟨heq, _, hlt⟩ => by
    cases hp.symm.trans (prepare_of_room (hself heq) hcount.word)
    exact Nat.lt_irrefl _ hlt
  have hdoes := h.writeBuffer_does hb hc moves
  rw [hp, ok_bind, if_neg hkept, hstore] at hdoes
  obtain ⟨s', hs', -⟩ := hdoes
  exact ⟨s', hs'⟩

/-- **A buffer is appended to another as far as there is room to be had, and to itself only if it need not grow**: else
the block that is copied from is gone if it moved. -/
theorem append_iff (h : Sound w s) (hb : s.view dest = some b) (hc : s.view src = some c) :
    (∀ moves, Adds w moves s dest src b.content c.content) ↔
      b.used + c.size ≤ reach w b.reserve ∧ (dest = src → b.used + c.size ≤ b.reserve) := by
  have hlen : c.content.length = c.size := Block.length_slice ..
  have hcount := h.view_counted hb
  constructor
  · intro hadds
    obtain ⟨s', -, hrun, -⟩ := hadds true
    obtain ⟨⟨b', hwrite, -⟩, -, -, hself⟩ := h.writeBuffer_ok hb hc hrun
    exact ⟨hlen ▸ hcount.write_isOk_iff.1 ⟨b', hwrite⟩, fun heq => hself heq rfl⟩
  · rintro ⟨hreach, hself⟩ moves
    obtain ⟨s', hrun⟩ := h.writeBuffer_returns hb hc hreach hself moves
    obtain ⟨⟨b', hwrite, hview⟩, honly, -⟩ := h.writeBuffer_ok hb hc hrun
    exact ⟨s', b', hrun, hview, (hcount.write hwrite).2.1, fun j hj => honly.view hj⟩

/-! ## The copy between buffers with blocks of their own -/

/-- **`Heap.copy` is this copy**, with a `realloc` that always moves. -/
theorem Sound.writeBuffer_refines (h : Sound w s) (hb : s.view dest = some b) (hc : s.view src = some c) :
    (s.writeBuffer w true dest src).map view = (Heap.copy w s.view src dest c.size).map Prod.snd := by
  have hcount := h.view_counted hc
  have hblock := hcount.block
  have hcounters := hcount.counters
  have hroom := hcount.room
  have hload : c.load c.cursor c.size = .ok c.content := by rw [Buffer.load, Block.load_ok (by omega), content]
  have hdoes := h.writeBuffer_does hb hc true
  unfold Heap.copy Heap.get
  simp only [hb, hc, ok_bind]
  cases hp : b.prepare w c.size with
  | error t =>
    rw [hp] at hdoes
    rw [show s.writeBuffer w true dest src = .error t from hdoes]
    rfl
  | ok b₁ =>
    obtain ⟨-, -, -, -, -, hle, -, -⟩ := prepare_ok hp (h.view_counted hb).word
    have hiff : (dest = src ∧ true ∧ b.reserve < b₁.reserve) ↔ src = dest ∧ b₁.reserve ≠ b.reserve := by
      constructor
      · rintro ⟨heq, -, hlt⟩
        exact ⟨heq.symm, Nat.ne_of_gt hlt⟩
      · rintro ⟨heq, hne⟩
        exact ⟨heq.symm, rfl, by omega⟩
    rw [hp, ok_bind] at hdoes
    rw [ok_bind]
    by_cases hlost : src = dest ∧ b₁.reserve ≠ b.reserve
    · rw [if_pos (hiff.2 hlost)] at hdoes
      rw [if_pos hlost, show s.writeBuffer w true dest src = .error .outOfBounds from hdoes]
      rfl
    · rw [if_neg (mt hiff.1 hlost)] at hdoes
      rw [if_neg hlost, hload, ok_bind]
      cases hstore : b₁.store b₁.used c.content with
      | error t =>
        rw [hstore] at hdoes
        rw [show s.writeBuffer w true dest src = .error t from hdoes]
        rfl
      | ok b₂ =>
        rw [hstore] at hdoes
        obtain ⟨s', hs', honly, hview, -⟩ := hdoes
        rw [hs']
        refine congrArg Except.ok (funext fun j => ?_)
        rcases eq_or_ne j dest with rfl | hj
        · exact hview.trans (Function.update_self j (some (b₂.commit w c.size)) s.view).symm
        · exact (honly.view hj).trans (Function.update_of_ne hj ..).symm

/-! ## Two buffers -/

/-- Objects 0 and 1, and no other. -/
def two (b c : Buffer) : Objects where
  arena  := ⟨fun id => if id = 0 then some b.data else if id = 1 then some c.data else none, 2⟩
  fields := fun i =>
    if i = 0 then some ⟨0, b.cursor, b.size, b.used, b.reserve⟩
    else if i = 1 then some ⟨1, c.cursor, c.size, c.used, c.reserve⟩
    else none

theorem two_cases {P : Nat → Fields → Prop} (h0 : P 0 ⟨0, b.cursor, b.size, b.used, b.reserve⟩)
    (h1 : P 1 ⟨1, c.cursor, c.size, c.used, c.reserve⟩) (hf : f ∈ (two b c).fields i) : P i f := by
  simp only [two, Option.mem_def] at hf
  split at hf
  · rename_i hi
    cases hf
    exact hi ▸ h0
  · split at hf
    · rename_i hi
      cases hf
      exact hi ▸ h1
    · cases hf

theorem two_sound (hb : Counted w b) (hc : Counted w c) : Sound w (two b c) := by
  have hdata : ∀ i, ∀ f ∈ (two b c).fields i, f.data = i := fun i f hf =>
    two_cases (P := fun i f => f.data = i) rfl rfl hf
  refine ⟨fun id hid => ?_, fun i j f hf g hg heq => ?_, fun i f hf => ?_⟩
  · have hid : 2 ≤ id := hid
    show (if id = 0 then some b.data else if id = 1 then some c.data else none) = none
    rw [if_neg (by omega), if_neg (by omega)]
  · exact (hdata i f hf).symm.trans (heq.trans (hdata j g hg))
  · exact two_cases (P := fun _ f => ∃ d, (two b c).arena.block f.data = some d ∧ Counted w (f.buffer d))
      ⟨b.data, rfl, hb⟩ ⟨c.data, rfl, hc⟩ hf

theorem append_two : (∀ moves, Adds 64 moves (two (full [1]) (full [2])) 0 1 (full [1]).content (full [2]).content) ↔
    (full [1]).used + (full [2]).size ≤ reach 64 (full [1]).reserve ∧
      (0 = 1 → (full [1]).used + (full [2]).size ≤ (full [1]).reserve) :=
  append_iff (two_sound (full_holds (by decide) (by decide)).tracks.counted
    (full_holds (by decide) (by decide)).tracks.counted) rfl rfl

/-- A buffer that is full, written to itself: `realloc` has moved the block. -/
theorem append_self_dangles :
    ¬ (∀ moves, Adds 64 moves (two (full [1]) (full [2])) 0 0 (full [1]).content (full [1]).content) ∧
    (two (full [1]) (full [2])).writeBuffer 64 true 0 0 = .error .outOfBounds := by
  have hcount : Counted 64 (full [1]) := (full_holds (by decide) (by decide)).tracks.counted
  have hsound : Sound 64 (two (full [1]) (full [2])) :=
    two_sound hcount (full_holds (by decide) (by decide)).tracks.counted
  have hlost : (two (full [1]) (full [2])).writeBuffer 64 true 0 0 = .error .outOfBounds := by
    obtain ⟨b₁, hp, hgrown⟩ := Run.exists_of_any (x := (full [1]).prepare 64 1)
      (p := fun b => decide ((full [1]).reserve < b.reserve)) (by decide +kernel)
    have hview : (two (full [1]) (full [2])).view 0 = some (full [1]) := rfl
    have hdoes := hsound.writeBuffer_does hview hview true
    rw [show (full [1]).size = 1 from rfl, hp, ok_bind, if_pos ⟨rfl, rfl, of_decide_eq_true hgrown⟩] at hdoes
    exact hdoes
  refine ⟨fun hadds => ?_, hlost⟩
  obtain ⟨s', -, hrun, -⟩ := hadds true
  cases hrun.symm.trans hlost

end Objects
end V8h
