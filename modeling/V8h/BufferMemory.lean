import Mathlib.Data.Int.ModEq
import V8h.BufferSpec
import V8h.Lib.Ledger
import V8h.Lib.Run
/-!
# BufferMemory — what V8 is told of the memory of buffers

A script object points to its native buffer until `DEL_PTR` deletes that and clears the pointer.  Each `new`, `realloc`
and `delete` passes an amount to `V8::AdjustAmountOfExternalAllocatedMemory`, a `size_t` made an `int`.  The amounts add
up to what the live buffers take modulo `2 ^ 32` (`memory_accounted`), and exactly as long as no buffer takes 2 GiB.
-/
namespace V8h

/-- The objects of class `Buffer` by their internal pointers, and the native buffers by their addresses; `made` is the
next address.  `deleted` and `adjusted` list the deletions and the amounts passed to V8, the last first. -/
structure Memory where
  field    : Nat → Option Nat
  live     : Nat → Option Buffer
  made     : Nat
  deleted  : List Nat
  adjusted : List Int

namespace Memory

open Effect

abbrev N := EStateM Trap Memory

/-- `V8H_MEMORY_FIXED_SIZE`. -/
def fixedSize : Nat := 128

variable (w sizeofBuffer : Nat)

/-- `V8::AdjustAmountOfExternalAllocatedMemory`, whose argument is a `size_t` expression. -/
def adjust (amount : Int) : N Unit := modify fun s => { s with adjusted := toInt (amount % 2 ^ w) :: s.adjusted }

def native (p : Nat) : N Buffer := fun s =>
  match s.live p with
  | none   => .error .null s
  | some b => .ok b s

def setNative (p : Nat) (b : Buffer) : N Unit := modify fun s => { s with live := Function.update s.live p (some b) }

def lift {α : Type} (x : Except Trap α) : N α := fun s =>
  match x with
  | .error t => .error t s
  | .ok a    => .ok a s

/-- `new Buffer(reserve)`. -/
def new (reserve : Nat) : N Nat := do
  let p := (← get).made
  modify fun s => { s with live := Function.update s.live p (some (Buffer.new reserve)), made := p + 1 }
  adjust w (sizeofBuffer + fixedSize + reserve)
  return p

def realloc (p size : Nat) : N Unit := do
  let b ← native p
  adjust w (size - b.reserve)
  setNative p (b.realloc size)

def prepare (p n : Nat) : N Unit := do
  let b ← native p
  match ← lift (Buffer.grown w b.used b.reserve n) with
  | none         => return
  | some reserve => realloc w p reserve

/-- `delete`, which runs `~Buffer`. -/
def delete (p : Nat) : N Unit := do
  let b ← native p
  adjust w (-sizeofBuffer - fixedSize - b.reserve)
  modify fun s => { s with live := Function.update s.live p none, deleted := p :: s.deleted }

/-- `DEL_PTR` of `FIELD_INTERNAL`. -/
def delPtr (self : Nat) : N Unit := do
  match (← get).field self with
  | none   => return
  | some p =>
    delete w sizeofBuffer p
    modify fun s => { s with field := Function.update s.field self none }

/-- `get_internal`, of which the methods use what it points to. -/
def getInternal (self : Nat) : N Nat := fun s =>
  match s.field self with
  | none   => .error .null s
  | some p => .ok p s

/-- What is done with the buffers.  `fill` is a writer or a `recv`: it prepares `n` bytes, stores some, and commits `r`;
`finalize` is the callback of the weak handle. -/
inductive Call where
  | construct (self reserve : Nat)
  | prepare (self n : Nat)
  | zero (self : Nat)
  | fill (self n : Nat) (bytes : List Cell) (r : Nat)
  | commit (self n : Nat)
  | consume (self n : Nat)
  | clear (self : Nat)
  | close (self : Nat)
  | finalize (self : Nat)

def exec : Call → N Unit
  | .construct self reserve => do
    let p ← new w sizeofBuffer reserve
    modify fun s => { s with field := Function.update s.field self (some p) }
  | .prepare self n         => do prepare w (← getInternal self) n
  | .zero self              => do
    let p ← getInternal self
    prepare w p 1
    let b ← native p
    setNative p (← lift (b.store b.used [some 0]))
  | .fill self n bytes r    => do
    let p ← getInternal self
    prepare w p n
    let b ← native p
    let b ← lift (b.store b.used bytes)
    setNative p (b.commit w r)
  | .commit self n          => do
    let p ← getInternal self
    setNative p ((← native p).commit w n)
  | .consume self n         => do
    let p ← getInternal self
    setNative p ((← native p).consume w n)
  | .clear self             => do
    let p ← getInternal self
    setNative p (← native p).clear
  | .close self             => delPtr w sizeofBuffer self
  | .finalize self          => delPtr w sizeofBuffer self

def empty : Memory := ⟨fun _ => none, fun _ => none, 0, [], []⟩

/-- A call that does not return ends the run. -/
def step (s : Memory) (call : Call) : Except Trap Memory :=
  match exec w sizeofBuffer call s with
  | .ok _ s'   => .ok s'
  | .error t _ => .error t

/-- What a native buffer takes. -/
def footprint (b : Buffer) : Int := sizeofBuffer + fixedSize + b.reserve

/-- What the live buffers take. -/
def footprints (s : Memory) : Int := Ledger.balance (footprint sizeofBuffer) s.live s.made

/-- Sizes of buffers, and a modulus up to which every amount passed for such a buffer is right. -/
structure Scale where
  modulus : Int
  fits    : Nat → Prop
  made    : ∀ r, fits r →
    toInt ((sizeofBuffer + fixedSize + r : Int) % 2 ^ w) ≡ sizeofBuffer + fixedSize + r [ZMOD modulus]
  grown   : ∀ r r', fits r → fits r' → r ≤ r' → toInt ((r' - r : Int) % 2 ^ w) ≡ r' - r [ZMOD modulus]
  deleted : ∀ r, fits r →
    toInt ((-sizeofBuffer - fixedSize - r : Int) % 2 ^ w) ≡ -sizeofBuffer - fixedSize - r [ZMOD modulus]

/-- The live buffers are of such sizes. -/
def Scale.Within {w sizeofBuffer : Nat} (scale : Scale w sizeofBuffer) (s : Memory) : Prop :=
  ∀ p, ∀ b ∈ s.live p, scale.fits b.reserve

/-- Every pointer is to a live buffer of its own, and a buffer that is not live was deleted once. -/
structure Owned (s : Memory) : Prop where
  fresh : ∀ p, s.made ≤ p → s.live p = none ∧ p ∉ s.deleted
  field : ∀ self, ∀ p ∈ s.field self, (s.live p).isSome
  own   : ∀ self self', ∀ p ∈ s.field self, p ∈ s.field self' → self = self'
  once  : ∀ p < s.made, s.deleted.count p = if (s.live p).isSome then 0 else 1

/-- The amounts add up. -/
structure Accounted {w sizeofBuffer : Nat} (scale : Scale w sizeofBuffer) (s : Memory) : Prop extends Owned s where
  sum : s.adjusted.sum ≡ footprints sizeofBuffer s [ZMOD scale.modulus]

variable {w sizeofBuffer} {s s₁ s' : Memory} {p self : Nat} {b b' : Buffer}

/-! ## What the operations do -/

def put (s : Memory) (p : Nat) (b : Buffer) : Memory := { s with live := Function.update s.live p (some b) }

@[simp] theorem put_put (b b' : Buffer) : (s.put p b).put p b' = s.put p b' := by simp [put]

@[simp] theorem put_live : (s.put p b).live p = some b := by simp [put]

theorem put_self (h : s.live p = some b) : s.put p b = s := by
  unfold put
  rw [← h, Function.update_eq_self]

/-- A buffer was changed, and V8 told by how much it grew, if it did. -/
def Changed (w p : Nat) (s s' : Memory) : Prop := ∃ b b', s.live p = some b ∧
  (b'.reserve = b.reserve ∧ s' = s.put p b' ∨ b.reserve < b'.reserve ∧
    s' = { s.put p b' with adjusted := toInt ((b'.reserve - b.reserve : Int) % 2 ^ w) :: s.adjusted })

theorem Changed.refl (h : s.live p = some b) : Changed w p s s := ⟨b, b, h, Or.inl ⟨rfl, (put_self h).symm⟩⟩

theorem Changed.live (h : Changed w p s s') : ∃ b, s'.live p = some b := by
  obtain ⟨b, b', -, ⟨-, rfl⟩ | ⟨-, rfl⟩⟩ := h
  · exact ⟨b', put_live⟩
  · exact ⟨b', put_live⟩

/-- What is done after that and leaves `reserve_` alone. -/
theorem Changed.put (h : Changed w p s s₁) (hb : s₁.live p = some b) (hr : b'.reserve = b.reserve) :
    Changed w p s (s₁.put p b') := by
  obtain ⟨b₀, b₁, hb₀, ⟨hr₁, rfl⟩ | ⟨hr₁, rfl⟩⟩ := h
  · rw [put_live] at hb
    cases hb
    exact ⟨b₀, b', hb₀, Or.inl ⟨hr.trans hr₁, put_put ..⟩⟩
  · have hb₁ : b₁ = b := Option.some.inj (put_live.symm.trans hb)
    subst hb₁
    refine ⟨b₀, b', hb₀, Or.inr ⟨by omega, ?_⟩⟩
    simp only [hr, Memory.put, Function.update_idem]

theorem native_run (h : s.live p = some b) : native p s = .ok b s := by rw [native, h]

theorem native_leads : Leads s (native p) (fun b s' => s' = s ∧ s.live p = some b) (fun _ _ => True) := by
  cases h : s.live p with
  | none => exact .of_error (by rw [native, h]) trivial
  | some b => exact .of_ok (native_run h) ⟨rfl, rfl⟩

/-- **`prepare` changes the buffer as `Buffer.prepare` does**, and tells V8. -/
theorem prepare_leads (n : Nat) : Leads s (prepare w p n) (fun _ => Changed w p s) (fun _ _ => True) := by
  unfold prepare
  refine native_leads.bind fun b s₁ _ ⟨hs₁, hb⟩ => ?_
  subst hs₁
  cases hgrown : Buffer.grown w b.used b.reserve n with
  | error t => exact .of_error rfl trivial
  | ok size =>
    cases size with
    | none => exact .of_ok rfl (.refl hb)
    | some reserve =>
      refine .of_ok (bind_ok (native_run hb)) ?_
      exact ⟨b, b.realloc reserve, hb, Or.inr ⟨(Buffer.grown_some hgrown).2, rfl⟩⟩

theorem getInternal_leads :
    Leads s (getInternal self) (fun p s' => s' = s ∧ s.field self = some p) (fun _ _ => True) := by
  cases h : s.field self with
  | none => exact .of_error (by rw [getInternal, h]) trivial
  | some p => exact .of_ok (by rw [getInternal, h]) ⟨rfl, rfl⟩

/-- What one call can do. -/
inductive Did (w sizeofBuffer : Nat) (s : Memory) : Memory → Prop
  | opened (self reserve : Nat) : Did w sizeofBuffer s { s with
      field    := Function.update s.field self (some s.made)
      live     := Function.update s.live s.made (some (Buffer.new reserve))
      made     := s.made + 1
      adjusted := toInt ((sizeofBuffer + fixedSize + reserve : Int) % 2 ^ w) :: s.adjusted }
  | changed {s' : Memory} (p : Nat) (h : Changed w p s s') : Did w sizeofBuffer s s'
  | deleted (self p : Nat) (b : Buffer) (hp : s.field self = some p) (hb : s.live p = some b) :
      Did w sizeofBuffer s { s with
        field    := Function.update s.field self none
        live     := Function.update s.live p none
        deleted  := p :: s.deleted
        adjusted := toInt ((-sizeofBuffer - fixedSize - b.reserve : Int) % 2 ^ w) :: s.adjusted }
  | nothing : Did w sizeofBuffer s s

theorem delPtr_none (h : s.field self = none) : delPtr w sizeofBuffer self s = .ok () s := by
  simp only [delPtr, bind_run, get_run, h, pure_run]

theorem delPtr_some (hp : s.field self = some p) (hb : s.live p = some b) :
    delPtr w sizeofBuffer self s = .ok () { s with
      field    := Function.update s.field self none
      live     := Function.update s.live p none
      deleted  := p :: s.deleted
      adjusted := toInt ((-sizeofBuffer - fixedSize - b.reserve : Int) % 2 ^ w) :: s.adjusted } := by
  simp only [delPtr, delete, adjust, bind_run, get_run, hp, native_run hb, modify_run]

/-- `DEL_PTR` of an object that points to a deleted buffer does not return. -/
theorem delPtr_leads : Leads s (delPtr w sizeofBuffer self) (fun _ => Did w sizeofBuffer s) (fun _ _ => True) := by
  cases hp : s.field self with
  | none => exact .of_ok (delPtr_none hp) .nothing
  | some p =>
    cases hb : s.live p with
    | none =>
      have hx : delPtr w sizeofBuffer self s = .error .null s := by
        simp only [delPtr, delete, bind_run, get_run, hp, native, hb]
      exact .of_error hx trivial
    | some b => exact .of_ok (delPtr_some hp hb) (.deleted self p b hp hb)

/-- What a writer does: behind `prepare` it leaves `reserve_` alone. -/
theorem store_leads (n : Nat) (bytes : List Cell) {f : Buffer → Buffer} (hf : ∀ b, (f b).reserve = b.reserve) :
    Leads s (do
      let p ← getInternal self
      prepare w p n
      let b ← native p
      let b ← lift (b.store b.used bytes)
      setNative p (f b)) (fun _ => Did w sizeofBuffer s) (fun _ _ => True) := by
  refine getInternal_leads.bind fun p s₁ _ ⟨hs₁, _⟩ => ?_
  subst hs₁
  refine (prepare_leads n).bind fun _ s₁ _ h₁ => native_leads.bind fun b s₂ _ ⟨hs₂, hb⟩ => ?_
  subst hs₂
  cases hstore : b.store b.used bytes with
  | error t => exact .of_error rfl trivial
  | ok b' => exact .of_ok rfl (.changed p (h₁.put hb ((hf b').trans (Buffer.store_reserve hstore))))

theorem counters_leads {f : Buffer → Buffer} (hf : ∀ b, (f b).reserve = b.reserve) :
    Leads s (do
      let p ← getInternal self
      setNative p (f (← native p))) (fun _ => Did w sizeofBuffer s) (fun _ _ => True) := by
  refine getInternal_leads.bind fun p s₁ _ ⟨hs₁, _⟩ => native_leads.bind fun b s₂ _ ⟨hs₂, hb⟩ => ?_
  subst hs₁ hs₂
  exact .of_ok rfl (.changed p ((Changed.refl hb).put hb (hf b)))

/-- **Each call does one of four things.** -/
theorem exec_leads (call : Call) :
    Leads s (exec w sizeofBuffer call) (fun _ => Did w sizeofBuffer s) (fun _ _ => True) := by
  cases call with
  | construct self reserve => exact .of_ok rfl (.opened self reserve)
  | prepare self n =>
    refine getInternal_leads.bind fun p s₁ _ ⟨hs₁, _⟩ => ?_
    subst hs₁
    exact (prepare_leads n).mono (fun _ _ _ h => .changed p h) (fun _ _ h => h)
  | zero self => exact store_leads 1 [some 0] fun _ => rfl
  | fill self n bytes r => exact store_leads n bytes fun _ => rfl
  | commit self n => exact counters_leads fun _ => rfl
  | consume self n => exact counters_leads fun b => Buffer.consume_reserve b n
  | clear self => exact counters_leads fun _ => rfl
  | close self => exact delPtr_leads
  | finalize self => exact delPtr_leads

/-! ## What every call keeps -/

theorem Owned.lt (h : Owned s) (hb : s.live p = some b) : p < s.made := by
  by_contra hp
  rw [(h.fresh p (Nat.le_of_not_lt hp)).1] at hb
  cases hb

theorem Owned.opened (h : Owned s) (self reserve : Nat) (adjusted : List Int) : Owned { s with
    field    := Function.update s.field self (some s.made)
    live     := Function.update s.live s.made (some (Buffer.new reserve))
    made     := s.made + 1
    adjusted := adjusted } := by
  obtain ⟨hnone, hnew⟩ := h.fresh s.made (Nat.le_refl _)
  have hne : ∀ self', ∀ p ∈ s.field self', p ≠ s.made := by
    rintro self' p hp rfl
    have hlive := h.field self' _ hp
    rw [hnone] at hlive
    cases hlive
  have hpoints : ∀ self', ∀ p ∈ Function.update s.field self (some s.made) self',
      self' = self ∧ p = s.made ∨ p ∈ s.field self' ∧ p ≠ s.made := by
    intro self' p hp
    by_cases hself : self' = self
    · rw [hself, Function.update_self] at hp
      exact Or.inl ⟨hself, (Option.some.inj hp).symm⟩
    · rw [Function.update_of_ne hself] at hp
      exact Or.inr ⟨hp, hne self' p hp⟩
  refine ⟨fun p hp => ?_, fun self' p hp => ?_, fun self₁ self₂ p h₁ h₂ => ?_, fun p hp => ?_⟩
  · have hp' : s.made + 1 ≤ p := hp
    simp only [Function.update_of_ne (show p ≠ s.made by omega)]
    exact h.fresh p (by omega)
  · rcases hpoints self' p hp with ⟨-, rfl⟩ | ⟨hold, hmade⟩
    · simp only [Function.update_self, Option.isSome_some]
    · simp only [Function.update_of_ne hmade]
      exact h.field self' p hold
  · rcases hpoints self₁ p h₁ with ⟨hself₁, hp₁⟩ | ⟨hold₁, hmade₁⟩ <;>
      rcases hpoints self₂ p h₂ with ⟨hself₂, hp₂⟩ | ⟨hold₂, hmade₂⟩
    · exact hself₁.trans hself₂.symm
    · exact absurd hp₁ hmade₂
    · exact absurd hp₂ hmade₁
    · exact h.own self₁ self₂ p hold₁ hold₂
  · rcases eq_or_ne p s.made with rfl | hmade
    · simp only [Function.update_self, Option.isSome_some, if_true]
      exact List.count_eq_zero.2 hnew
    · have hp' : p < s.made + 1 := hp
      simp only [Function.update_of_ne hmade]
      exact h.once p (by omega)

theorem Owned.put (h : Owned s) (hb : s.live p = some b) (b' : Buffer) (adjusted : List Int) :
    Owned { s.put p b' with adjusted := adjusted } := by
  have hsome : ∀ p', ((s.put p b').live p').isSome = (s.live p').isSome := by
    intro p'
    rcases eq_or_ne p' p with rfl | hne
    · rw [put_live, hb]
      rfl
    · simp only [Memory.put, Function.update_of_ne hne]
  refine ⟨fun p' hp' => ⟨?_, (h.fresh p' hp').2⟩, fun self p' hp' => ?_, h.own, fun p' hp' => ?_⟩
  · have hnone := hsome p'
    rw [(h.fresh p' hp').1] at hnone
    exact Option.isNone_iff_eq_none.1 (by simpa using hnone)
  · exact (hsome p').trans (h.field self p' hp')
  · simp only [hsome]
    exact h.once p' hp'

theorem Owned.deleted (h : Owned s) (hp : s.field self = some p) (hb : s.live p = some b) (adjusted : List Int) :
    Owned { s with
      field    := Function.update s.field self none
      live     := Function.update s.live p none
      deleted  := p :: s.deleted
      adjusted := adjusted } := by
  have hlt := h.lt hb
  have hold : ∀ self', ∀ p' ∈ Function.update s.field self none self', p' ∈ s.field self' ∧ p' ≠ p := by
    intro self' p' hp'
    rcases eq_or_ne self' self with rfl | hself
    · simp at hp'
    · rw [Function.update_of_ne hself] at hp'
      refine ⟨hp', ?_⟩
      rintro rfl
      exact hself (h.own self' self p' hp' hp)
  refine ⟨fun p' hp' => ?_, fun self' p' hp' => ?_, fun self₁ self₂ p' h₁ h₂ => ?_, fun p' hp' => ?_⟩
  · have hle : s.made ≤ p' := hp'
    obtain ⟨hnone, hnew⟩ := h.fresh p' hle
    have hne : p' ≠ p := by omega
    simp only [Function.update_of_ne hne, List.mem_cons, hne, false_or]
    exact ⟨hnone, hnew⟩
  · obtain ⟨hmem, hne⟩ := hold self' p' hp'
    simp only [Function.update_of_ne hne]
    exact h.field self' p' hmem
  · exact h.own self₁ self₂ p' (hold self₁ p' h₁).1 (hold self₂ p' h₂).1
  · rcases eq_or_ne p' p with rfl | hne
    · have honce := h.once p' hlt
      rw [hb] at honce
      simp only [Function.update_self, Option.isSome_none, List.count_cons_self]
      exact congrArg (· + 1) honce
    · simp only [Function.update_of_ne hne, List.count_cons_of_ne hne.symm]
      exact h.once p' hp'

/-- **Every call keeps the account**, up to the modulus of the sizes there are. -/
theorem Accounted.did {scale : Scale w sizeofBuffer} (h : Accounted scale s) (hd : Did w sizeofBuffer s s')
    (hs : scale.Within s) (hs' : scale.Within s') : Accounted scale s' := by
  cases hd with
  | nothing => exact h
  | opened self reserve =>
    refine ⟨h.toOwned.opened self reserve _, ?_⟩
    have hmade := scale.made reserve (hs' s.made (Buffer.new reserve) (Function.update_self ..))
    have hopen := Ledger.balance_open (footprint sizeofBuffer) s.live s.made (Buffer.new reserve)
    rw [List.sum_cons, footprints, hopen, Int.add_comm]
    exact h.sum.add hmade
  | changed p hc =>
    obtain ⟨b, b', hb, hs₁⟩ := hc
    have hupdate := Ledger.balance_update (footprint sizeofBuffer) s.live (h.lt hb) (some b')
    have hfoot : footprints sizeofBuffer (s.put p b') = footprints sizeofBuffer s + (b'.reserve - b.reserve) := by
      simp only [hb, Option.elim_some, footprint] at hupdate
      refine hupdate.trans ?_
      unfold footprints
      omega
    rcases hs₁ with ⟨hr, rfl⟩ | ⟨hr, rfl⟩
    · refine ⟨h.toOwned.put hb b' _, ?_⟩
      rw [hfoot, hr, Int.sub_self, Int.add_zero]
      exact h.sum
    · refine ⟨h.toOwned.put hb b' _, ?_⟩
      rw [List.sum_cons, Int.add_comm]
      refine Eq.subst (motive := (_ ≡ · [ZMOD _])) hfoot.symm (h.sum.add ?_)
      exact scale.grown b.reserve b'.reserve (hs p b hb) (hs' p b' put_live) (Nat.le_of_lt hr)
  | deleted self p b hp hb =>
    have hupdate := Ledger.balance_update (footprint sizeofBuffer) s.live (h.lt hb) none
    have hfoot : Ledger.balance (footprint sizeofBuffer) (Function.update s.live p none) s.made =
        footprints sizeofBuffer s + (-sizeofBuffer - fixedSize - b.reserve) := by
      simp only [hb, Option.elim_some, Option.elim_none, footprint] at hupdate
      refine hupdate.trans ?_
      unfold footprints
      omega
    refine ⟨h.toOwned.deleted hp hb _, ?_⟩
    rw [List.sum_cons, Int.add_comm, footprints, hfoot]
    exact h.sum.add (scale.deleted b.reserve (hs p b hb))

/-! ## The two scales -/

theorem toInt_modEq (hw : 32 ≤ w) (x : Int) : toInt (x % 2 ^ w) ≡ x [ZMOD 2 ^ 32] := by
  rw [toInt_emod hw]
  exact Int.bmod_emod

/-- Amounts are right modulo `2 ^ 32`, for buffers of any size. -/
def word (hw : 32 ≤ w) : Scale w sizeofBuffer where
  modulus       := 2 ^ 32
  fits _        := True
  made _ _      := toInt_modEq hw _
  grown _ _ _ _ := fun _ => toInt_modEq hw _
  deleted _ _   := toInt_modEq hw _

theorem toInt_exact (hw : 32 ≤ w) {x : Int} (h : -2 ^ 31 ≤ x) (h' : x < 2 ^ 31) : toInt (x % 2 ^ w) ≡ x [ZMOD 0] := by
  rw [toInt_emod hw, toInt, Int.bmod_eq_of_le (by omega) (by omega)]

/-- What a buffer of less than 2 GiB takes is an `int`. -/
def Small (sizeofBuffer reserve : Nat) : Prop := sizeofBuffer + fixedSize + reserve < 2 ^ 31

/-- Amounts are right for buffers of less than 2 GiB. -/
def exactly (hw : 32 ≤ w) : Scale w sizeofBuffer where
  modulus     := 0
  fits        := Small sizeofBuffer
  made r h    := toInt_exact hw (by unfold Small at h; omega) (by unfold Small at h; omega)
  grown r r' h h' hle := toInt_exact hw (by omega) (by unfold Small at h'; omega)
  deleted r h := toInt_exact hw (by unfold Small at h; omega) (by unfold Small at h; omega)

/-! ## Runs -/

theorem step_did {call : Call} (h : step w sizeofBuffer s call = .ok s') : Did w sizeofBuffer s s' := by
  unfold step at h
  split at h
  · rename_i hx
    cases h
    exact (exec_leads call).ok hx
  · cases h

theorem accounted_empty (scale : Scale w sizeofBuffer) : Accounted scale empty :=
  ⟨⟨fun _ _ => ⟨rfl, List.not_mem_nil⟩, fun _ _ h => (nomatch h), fun _ _ _ h => (nomatch h),
    fun _ h => absurd h (Nat.not_lt_zero _)⟩, Int.ModEq.refl 0⟩

/-- **Every run keeps the account**, up to the modulus of the sizes it comes by. -/
theorem accounted_run (scale : Scale w sizeofBuffer) (calls : List Call)
    (hfits : Run.Along (step w sizeofBuffer) (fun s call => ∀ s', step w sizeofBuffer s call = .ok s' → scale.Within s')
      empty calls) (hrun : calls.foldlM (step w sizeofBuffer) empty = .ok s) : Accounted scale s := by
  have hstart : scale.Within empty := fun _ _ h => (nomatch h)
  refine (Run.invariant (I := fun s => Accounted scale s ∧ scale.Within s) ?_ calls empty s
    ⟨accounted_empty scale, hstart⟩ hfits hrun).1
  intro s call s' ⟨h, hs⟩ hok hstep
  exact ⟨h.did (step_did hstep) hs (hok s' hstep), hok s' hstep⟩

/-- A call leaves no live buffer that takes 2 GiB. -/
def StaysSmall (w sizeofBuffer : Nat) (s : Memory) (call : Call) : Prop :=
  ∀ s', step w sizeofBuffer s call = .ok s' → ∀ p, ∀ b ∈ s'.live p, Small sizeofBuffer b.reserve

/-- **What V8 is told adds up**: modulo `2 ^ 32` always, and to 0 at the end when no buffer took 2 GiB; each native
buffer is live or was deleted once, and `close` and the finaliser return. -/
theorem memory_accounted (hw : 32 ≤ w) (sizeofBuffer : Nat) (calls : List Call)
    (hrun : calls.foldlM (step w sizeofBuffer) empty = .ok s) :
    s.adjusted.sum ≡ footprints sizeofBuffer s [ZMOD 2 ^ 32] ∧
    (∀ p < s.made, s.deleted.count p = if (s.live p).isSome then 0 else 1) ∧
    (∀ self, (∃ s', step w sizeofBuffer s (.close self) = .ok s') ∧
      ∃ s', step w sizeofBuffer s (.finalize self) = .ok s') ∧
    ((∀ p < s.made, s.live p = none) → s.adjusted.sum ≡ 0 [ZMOD 2 ^ 32] ∧
      (Run.Along (step w sizeofBuffer) (StaysSmall w sizeofBuffer) empty calls → s.adjusted.sum = 0)) := by
  have h := accounted_run (word hw) calls (Run.along_of_forall (fun _ _ _ _ _ _ _ => trivial) _ _) hrun
  have hreturns : ∀ self, ∃ s', delPtr w sizeofBuffer self s = .ok () s' := by
    intro self
    cases hp : s.field self with
    | none => exact ⟨_, delPtr_none hp⟩
    | some p =>
      obtain ⟨b, hb⟩ := Option.isSome_iff_exists.1 (h.field self p hp)
      exact ⟨_, delPtr_some hp hb⟩
  refine ⟨h.sum, h.once, fun self => ?_, fun hnone => ?_⟩
  · obtain ⟨s', hs'⟩ := hreturns self
    exact ⟨⟨s', by rw [step, exec, hs']⟩, s', by rw [step, exec, hs']⟩
  · have hzero : footprints sizeofBuffer s = 0 := Ledger.balance_eq_zero _ hnone
    refine ⟨hzero ▸ h.sum, fun hsmall => ?_⟩
    have hexact := accounted_run (exactly hw) calls hsmall hrun
    have hsum := hexact.sum
    rw [hzero] at hsum
    exact Int.modEq_zero_iff.1 hsum

/-- A buffer that is made, grown and closed twice. -/
theorem memory_accounted_grown : ∃ s,
    [.construct 0 16, .prepare 0 40, .close 0, .close 0].foldlM (step 64 48) empty = .ok s ∧
      s.adjusted.sum ≡ footprints 48 s [ZMOD 2 ^ 32] ∧
      ∀ p < s.made, s.deleted.count p = if (s.live p).isSome then 0 else 1 := by
  obtain ⟨s, hrun, -⟩ := Run.exists_of_any
    (x := [.construct 0 16, .prepare 0 40, .close 0, .close 0].foldlM (step 64 48) empty)
    (p := fun _ => true) (by decide +kernel)
  have h := memory_accounted (by decide) 48 _ hrun
  exact ⟨s, hrun, h.1, h.2.1⟩

/-- **A buffer grown to 3 GiB**: none is live, and V8 counts 4 GiB. -/
theorem sum_off : ∃ s,
    [.construct 0 (2 ^ 30 - 176), .prepare 0 (2 ^ 30), .close 0].foldlM (step 64 48) empty = .ok s ∧
      (∀ p < s.made, s.live p = none) ∧ s.adjusted.sum = 2 ^ 32 := by
  obtain ⟨s, hrun, hs⟩ := Run.exists_of_any
    (x := [.construct 0 (2 ^ 30 - 176), .prepare 0 (2 ^ 30), .close 0].foldlM (step 64 48) empty)
    (p := fun s => s.made = 1 ∧ (s.live 0).isNone ∧ s.adjusted.sum = 2 ^ 32) (by decide +kernel)
  obtain ⟨hmade, hnone, hsum⟩ := of_decide_eq_true hs
  refine ⟨s, hrun, fun p hp => ?_, hsum⟩
  have hp0 : p = 0 := by omega
  rw [hp0]
  exact Option.isNone_iff_eq_none.1 hnone

end Memory
end V8h
