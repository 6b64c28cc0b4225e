import V8h.BufferSpec
import V8h.Lib.Run
import V8h.Lib.Tripling
/-!
# BufferGrowth — how far `prepare` makes room

`prepare` triples `reserve_` modulo `2 ^ w` until it is large enough, so what it can make room for is
`Tripling.reach w reserve_`, which no operation changes: it is what the constructor was given that counts
(`makes_room_iff`).  It measures the need from the start of the block, and no operation moves what is left of the
content there but `clear`: as long as something is left, the block grows with all that was ever written
(`backlog_bounded_iff`).
-/
namespace V8h
namespace Buffer

open Tripling

/-- What can happen to one buffer.  `fill n src k` is `prepare(n)`, `src` stored at the pointer it returns, and
`commit(k)`. -/
inductive Change where
  | write (src : List Cell)
  | fill (n : Nat) (src : List Cell) (k : Nat)
  | zero
  | prepare (n : Nat)
  | commit (n : Nat)
  | consume (n : Nat)
  | clear
  | read (n : Nat)

variable (w : Nat)

def change (b : Buffer) : Change → Except Trap Buffer
  | .write src    => b.write w src
  | .fill n src k => do
    let b ← b.prepare w n
    let b ← b.store b.used src
    return b.commit w k
  | .zero         => b.zero w
  | .prepare n    => b.prepare w n
  | .commit n     => .ok (b.commit w n)
  | .consume n    => .ok (b.consume w n)
  | .clear        => .ok b.clear
  | .read n       => do return (← b.read w n).2

/-- `prepare(n)` returns, and `n` bytes fit behind the fill mark then. -/
def MakesRoom (b : Buffer) (n : Nat) : Prop :=
  ∃ b', b.prepare w n = .ok b' ∧ b'.used = b.used ∧ (n : Int) ≤ (b'.reserve : Int) - b'.used ∧ b.reserve ≤ b'.reserve

variable {w}

/-! ## The growth loop -/

/-- **The loop exits when some product is large enough**, and not otherwise. -/
theorem growReserve_isSome_iff (need : Nat) : ∀ (fuel : Nat) {reserve : Nat}, reserve < 2 ^ w →
    ((∃ r, growReserve w need fuel reserve = some r) ↔ ∃ j < fuel, need ≤ reserve * 3 ^ j % 2 ^ w)
  | 0, _, _ => iff_of_false (fun ⟨_, h⟩ => nomatch h) (fun ⟨_, h, _⟩ => Nat.not_lt_zero _ h)
  | fuel + 1, reserve, hw => by
    have hnext : ∀ j, reserve * 3 % 2 ^ w * 3 ^ j % 2 ^ w = reserve * 3 ^ (j + 1) % 2 ^ w := fun j => by
      rw [Nat.mod_mul_mod, Nat.mul_assoc, ← Nat.pow_succ']
    have hfirst : reserve * 3 ^ 0 % 2 ^ w = reserve := by rw [Nat.pow_zero, Nat.mul_one, Nat.mod_eq_of_lt hw]
    unfold growReserve
    split
    · rename_i hn
      rw [growReserve_isSome_iff need fuel (show sizeT w (reserve * 3) < 2 ^ w from Nat.mod_lt _ (Nat.two_pow_pos w))]
      constructor
      · rintro ⟨j, hj, hle⟩
        exact ⟨j + 1, Nat.succ_lt_succ hj, hnext j ▸ hle⟩
      · rintro ⟨j, hj, hle⟩
        cases j with
        | zero => omega
        | succ j => exact ⟨j, Nat.lt_of_succ_lt_succ hj, by rw [sizeT, hnext]; exact hle⟩
    · rename_i hn
      exact ⟨fun _ => ⟨0, Nat.succ_pos _, by omega⟩, fun _ => ⟨reserve, rfl⟩⟩

/-- The loop of `prepare` exits exactly when the need is within reach. -/
theorem growReserve_reach {need reserve : Nat} (hw : reserve < 2 ^ w) :
    (∃ r, growReserve w need (2 ^ w) reserve = some r) ↔ need ≤ reach w reserve := by
  obtain ⟨hmem, hle⟩ := isGreatest_reach hw
  rw [growReserve_isSome_iff need _ hw]
  constructor
  · rintro ⟨j, -, hj⟩
    exact Nat.le_trans hj (hle ⟨j, rfl⟩)
  · intro h
    obtain ⟨j, hj, hx⟩ := exists_lt_of_mem hmem
    exact ⟨j, hj, by rw [hx]; exact h⟩

theorem growReserve_some (need : Nat) : ∀ (fuel : Nat) {reserve r : Nat}, growReserve w need fuel reserve = some r →
    reserve < 2 ^ w → reserve ≤ r ∧ r ≤ max reserve (3 * need) ∧ reach w r = reach w reserve
  | 0, _, _, h, _ => nomatch h
  | fuel + 1, reserve, r, h, hw => by
    have hexit := (growReserve_exit need (fuel + 1) reserve h).1
    unfold growReserve at h
    split at h
    · rename_i hn
      obtain ⟨-, hle, hreach⟩ := growReserve_some need fuel h (Nat.mod_lt _ (Nat.two_pow_pos w))
      have hmod : sizeT w (reserve * 3) ≤ reserve * 3 := Nat.mod_le _ _
      refine ⟨by omega, by omega, hreach.trans (reach_triple hw)⟩
    · cases h
      exact ⟨Nat.le_refl _, Nat.le_max_left _ _, rfl⟩

/-! ## What the operations do to the reservation -/

/-- **What a `prepare` that returns does**: no counter changes, and the reservation stays or is tripled. -/
theorem prepare_ok {b b' : Buffer} {n : Nat} (h : b.prepare w n = .ok b') (hw : b.reserve < 2 ^ w) :
    b'.cursor = b.cursor ∧ b'.size = b.size ∧ b'.used = b.used ∧ b'.reserve < 2 ^ w ∧
      sizeT w (b.used + n) ≤ b'.reserve ∧ b.reserve ≤ b'.reserve ∧ b'.reserve ≤ max b.reserve (3 * (b.used + n)) ∧
      reach w b'.reserve = reach w b.reserve := by
  obtain ⟨r, hr, hcases⟩ := prepare_cases h
  obtain ⟨hle, hmax, hreach⟩ := growReserve_some _ _ hr hw
  obtain ⟨hneed, hlt⟩ := growReserve_exit _ _ _ hr
  have hmod : sizeT w (b.used + n) ≤ b.used + n := Nat.mod_le _ _
  obtain ⟨-, rfl⟩ | ⟨hkeep, rfl⟩ := hcases
  · exact ⟨rfl, rfl, rfl, hlt hw, hneed, hle, show r ≤ _ by omega, hreach⟩
  · exact ⟨rfl, rfl, rfl, hw, hneed.trans hkeep, Nat.le_refl _, Nat.le_max_left _ _, rfl⟩

/-- **No operation changes what is within reach.** -/
theorem change_reach {b b' : Buffer} {c : Change} (h : b.change w c = .ok b') (hw : b.reserve < 2 ^ w) :
    b'.reserve < 2 ^ w ∧ reach w b'.reserve = reach w b.reserve := by
  have hprep : ∀ {n : Nat} {b₁ : Buffer}, b.prepare w n = .ok b₁ →
      b₁.reserve < 2 ^ w ∧ reach w b₁.reserve = reach w b.reserve := fun h₁ => by
    obtain ⟨-, -, -, hlt, -, -, -, hreach⟩ := prepare_ok h₁ hw
    exact ⟨hlt, hreach⟩
  have hstore : ∀ {n pos : Nat} {src : List Cell} {b₁ b₂ : Buffer}, b.prepare w n = .ok b₁ →
      b₁.store pos src = .ok b₂ → b₂.reserve < 2 ^ w ∧ reach w b₂.reserve = reach w b.reserve := fun h₁ h₂ => by
    rw [store_reserve h₂]
    exact hprep h₁
  cases c with
  | write src =>
    obtain ⟨b₁, h₁, h⟩ := bind_eq_ok.1 h
    obtain ⟨b₂, h₂, h⟩ := bind_eq_ok.1 h
    cases h
    have := hstore h₁ h₂
    exact this
  | fill n src k =>
    obtain ⟨b₁, h₁, h⟩ := bind_eq_ok.1 h
    obtain ⟨b₂, h₂, h⟩ := bind_eq_ok.1 h
    cases h
    have := hstore h₁ h₂
    exact this
  | zero =>
    obtain ⟨b₁, h₁, h₂⟩ := bind_eq_ok.1 h
    exact hstore h₁ h₂
  | prepare n => exact hprep h
  | commit n =>
    cases h
    exact ⟨hw, rfl⟩
  | consume n =>
    cases h
    rw [consume_reserve]
    exact ⟨hw, rfl⟩
  | clear =>
    cases h
    exact ⟨hw, rfl⟩
  | read n =>
    obtain ⟨⟨dest, b₁⟩, h₁, h⟩ := bind_eq_ok.1 h
    cases h
    obtain ⟨cells, -, h₁⟩ := bind_eq_ok.1 h₁
    cases h₁
    exact ⟨hw, rfl⟩

theorem changes_reach {reserve : Nat} (hr : reserve < 2 ^ w) {changes : List Change} {b : Buffer}
    (hrun : changes.foldlM (change w) (new reserve) = .ok b) :
    b.reserve < 2 ^ w ∧ reach w b.reserve = reach w reserve :=
  Run.invariant (I := fun b : Buffer => b.reserve < 2 ^ w ∧ reach w b.reserve = reach w reserve)
    (fun _ _ _ hI _ hs => by
      obtain ⟨hlt, hreach⟩ := change_reach hs hI.1
      exact ⟨hlt, hreach.trans hI.2⟩)
    changes _ _ ⟨hr, rfl⟩ (Run.along_of_forall (fun _ _ => trivial) _ _) hrun

/-- **What `prepare` makes room for is within reach.** -/
theorem prepare_within_reach {b b' : Buffer} {n : Nat} (h : b.prepare w n = .ok b') (hw : b.reserve < 2 ^ w)
    (hsum : b.used + n < 2 ^ w) : b.used + n ≤ reach w b.reserve := by
  obtain ⟨-, -, -, hlt, hneed, -, -, hreach⟩ := prepare_ok h hw
  rw [sizeT_of_lt hsum] at hneed
  exact Nat.le_trans hneed (hreach ▸ le_reach hlt)

/-- **`prepare(n)` makes room exactly when the need is within reach.** -/
theorem makesRoom_iff {b : Buffer} (hw : b.reserve < 2 ^ w) (n : Nat) :
    MakesRoom w b n ↔ b.used + n ≤ reach w b.reserve := by
  have hlt := reach_lt hw
  constructor
  · rintro ⟨b', hb', hused, hroom, -⟩
    obtain ⟨-, -, -, hlt', -⟩ := prepare_ok hb' hw
    -- the sum did not wrap, for it is at most a reservation
    exact prepare_within_reach hb' hw (by omega)
  · intro h
    obtain ⟨r, hr⟩ := (growReserve_reach hw).2 h
    obtain ⟨b', hb'⟩ : ∃ b', b.prepare w n = .ok b' := by
      rw [prepare_of_grow (by rwa [sizeT_of_lt (by omega)])]
      exact ⟨_, rfl⟩
    obtain ⟨-, -, hused, -, hneed, hle, -⟩ := prepare_ok hb' hw
    rw [sizeT_of_lt (by omega)] at hneed
    exact ⟨b', hb', hused, by omega, hle⟩

/-- **A `write` returns exactly when what it stores is within reach.** -/
theorem Counted.write_isOk_iff {b : Buffer} {cells : List Cell} (h : Counted w b) :
    (∃ b', b.write w cells = .ok b') ↔ b.used + cells.length ≤ reach w b.reserve := by
  constructor
  · rintro ⟨b', hb'⟩
    obtain ⟨-, -, b₁, h₁, hroom⟩ := h.write hb'
    obtain ⟨-, -, -, hlt, -, -, -, hreach⟩ := prepare_ok h₁ h.word
    exact hreach ▸ Nat.le_trans hroom (le_reach hlt)
  · intro hle
    obtain ⟨b₁, h₁, hused, hroom, -⟩ := (makesRoom_iff h.word _).2 hle
    obtain ⟨hcount, -⟩ := h.prepare h₁
    obtain ⟨b₂, h₂, -⟩ := hcount.fill (show b₁.used + cells.length ≤ b₁.reserve by omega)
    exact ⟨_, bind_eq_ok.2 ⟨b₁, h₁, bind_eq_ok.2 ⟨b₂, h₂, rfl⟩⟩⟩

/-- **`prepare` makes room as far as the reservation a buffer was constructed with can be tripled.** -/
theorem makes_room_iff {reserve : Nat} (hr : reserve < 2 ^ w) (changes : List Change) {b : Buffer}
    (hrun : changes.foldlM (change w) (new reserve) = .ok b) (n : Nat) :
    MakesRoom w b n ↔ b.used + n ≤ reach w reserve := by
  obtain ⟨hlt, hreach⟩ := changes_reach hr hrun
  rw [makesRoom_iff hlt, hreach]

theorem makes_room_16 : ∃ b, [.write [some 1, some 2, some 3], .consume 1].foldlM (change 32) (new 16) = .ok b ∧
    (MakesRoom 32 b 100 ↔ b.used + 100 ≤ reach 32 16) := by
  obtain ⟨b, hrun, -⟩ := Run.exists_of_any
    (x := [.write [some 1, some 2, some 3], .consume 1].foldlM (change 32) (new 16)) (p := fun _ => true)
    (by decide +kernel)
  exact ⟨b, hrun, makes_room_iff (by decide) _ hrun 100⟩

/-- A reservation of 0 is tripled for ever, and so is the usual one on a platform of 32 bits when nearly all of the
address space is asked for. -/
theorem prepare_hangs : ¬ MakesRoom 64 (new 0) 1 ∧ ¬ MakesRoom 32 (new 1024) (2 ^ 32 - 1) := by
  constructor
  · rw [makesRoom_iff (by decide)]
    decide +kernel
  · rw [makesRoom_iff (by decide)]
    decide +kernel

/-! ## A bounded backlog -/

/-- One of the calls `write`, `consume`, `prepare` and `commit`, for at most `K` bytes, that leaves at most `S` in the
buffer. -/
def Within (w S K : Nat) (b : Buffer) (c : Change) : Prop :=
  (match c with
    | .write src             => src.length ≤ K
    | .prepare n | .consume n => n ≤ K
    | .commit _              => True
    | _                      => False) ∧
  ∀ b', b.change w c = .ok b' → b'.size ≤ S

/-- There is a bound for the reservation, whatever the size of a word. -/
def BacklogBounded (S K reserve : Nat) : Prop :=
  ∃ R, ∀ w, reserve < 2 ^ w → ∀ (changes : List Change) (b : Buffer),
    Run.Along (change w) (Within w S K) (new reserve) changes → changes.foldlM (change w) (new reserve) = .ok b →
    b.reserve ≤ R

/-- Nothing before the content in the block, and the block is not much larger than the content was. -/
structure AtFront (w S K reserve : Nat) (b : Buffer) : Prop where
  cursor  : b.cursor = 0
  used    : b.used = b.size
  size    : b.size ≤ S
  word    : b.reserve < 2 ^ w
  reserve : b.reserve ≤ max reserve (3 * (S + K))

theorem AtFront.prepare {S K reserve n : Nat} {b b' : Buffer} (h : AtFront w S K reserve b) (hn : n ≤ K)
    (hb : b.prepare w n = .ok b') : AtFront w S K reserve b' := by
  obtain ⟨hcursor, hsize, hused, hlt, -, -, hmax, -⟩ := prepare_ok hb h.word
  have h1 := h.used
  have h2 := h.size
  have h3 := h.reserve
  exact ⟨hcursor.trans h.cursor, by omega, by omega, hlt, by omega⟩

theorem AtFront.commit {S K reserve : Nat} {b : Buffer} (h : AtFront w S K reserve b) (n : Nat)
    (hsize : (b.commit w n).size ≤ S) : AtFront w S K reserve (b.commit w n) :=
  ⟨h.cursor, by simp only [Buffer.commit, h.used], hsize, h.word, h.reserve⟩

/-- **Where a call leaves nothing before the content, it stays so**: at most one byte is there to be consumed, or none
is consumed. -/
theorem AtFront.change {S K reserve : Nat} (hSK : S ≤ 1 ∨ K = 0) {b b' : Buffer} {c : Change}
    (h : AtFront w S K reserve b) (hc : Within w S K b c) (hb : b.change w c = .ok b') : AtFront w S K reserve b' := by
  obtain ⟨hamount, hsize⟩ := hc
  have hsize' := hsize b' hb
  cases c with
  | write src =>
    obtain ⟨b₁, h₁, hb⟩ := bind_eq_ok.1 hb
    obtain ⟨b₂, h₂, hb⟩ := bind_eq_ok.1 hb
    cases hb
    have hfront := h.prepare hamount h₁
    refine AtFront.commit ?_ _ hsize'
    obtain ⟨-, rfl⟩ := store_eq_ok h₂
    exact ⟨hfront.cursor, hfront.used, hfront.size, hfront.word, hfront.reserve⟩
  | prepare n => exact h.prepare hamount hb
  | commit n =>
    cases hb
    exact h.commit n hsize'
  | consume n =>
    have hamount : n ≤ K := hamount
    cases hb
    have hle := h.size
    unfold Buffer.consume
    dsimp only
    generalize hk : (if b.size < n then b.size else n) = k
    split
    · exact ⟨rfl, rfl, Nat.zero_le _, h.word, h.reserve⟩
    · rename_i hne
      have hne : ¬ b.size - k = 0 := hne
      have hk0 : k = 0 := by
        split at hk <;> omega
      subst hk0
      refine ⟨?_, h.used, h.size, h.word, h.reserve⟩
      show sizeT w (b.cursor + 0) = 0
      rw [h.cursor, sizeT, Nat.zero_mod]
  | fill n src k => exact hamount.elim
  | zero => exact hamount.elim
  | clear => exact hamount.elim
  | read n => exact hamount.elim

theorem consume_used_of_lt {b : Buffer} {n : Nat} (h : n < b.size) : (b.consume w n).used = b.used := by
  have hmin : ¬ b.size < n := by omega
  have hleft : ¬ b.size - n = 0 := by omega
  simp only [consume, if_neg hmin, if_neg hleft]

/-- A byte is written and the byte before it consumed. -/
def shift (x : UInt8) : List Change := [.write [some x], .consume 1]

/-- **A round moves the content on by a byte.** -/
theorem shift_run {S K : Nat} (hS : 2 ≤ S) (hK : 1 ≤ K) {b : Buffer} {x : UInt8} (h : Holds w b [x])
    (hw : 3 * (b.used + 1) < 2 ^ w) : ∃ b', (shift x).foldlM (change w) b = .ok b' ∧ Holds w b' [x] ∧
      b'.used = b.used + 1 ∧ Run.Along (change w) (Within w S K) b (shift x) := by
  obtain ⟨b₁, h₁, hq₁, hu₁⟩ := write_spec [x] h (fits_of_le hw)
  have hq₂ := consume_spec 1 hq₁
  have hsize₁ := hq₁.size_eq
  have hsize₂ := hq₂.size_eq
  have hwrite : b.change w (.write [some x]) = .ok b₁ := h₁
  refine ⟨b₁.consume w 1, ?_, hq₂, ?_, ⟨hK, fun b' hb' => ?_⟩,
    fun b' hb' => ⟨⟨hK, fun b'' hb'' => ?_⟩, fun _ _ => trivial⟩⟩
  · rw [shift, Run.foldlM_cons_of_ok hwrite]
    rfl
  · rw [consume_used_of_lt (by rw [hsize₁]; exact Nat.lt_succ_self 1), hu₁]
    rfl
  · cases hwrite.symm.trans hb'
    rw [hsize₁]
    exact hS
  · cases hwrite.symm.trans hb'
    cases hb''
    rw [hsize₂]
    exact Nat.le_of_succ_le hS

/-- **Round after round the fill mark moves on**, and the content is one byte all the time. -/
theorem shifts_run {S K : Nat} (hS : 2 ≤ S) (hK : 1 ≤ K) (x : UInt8) : ∀ (rounds : Nat) (b : Buffer), Holds w b [x] →
    3 * (b.used + rounds) < 2 ^ w → ∃ b', (List.replicate rounds (shift x)).flatten.foldlM (change w) b = .ok b' ∧
      Holds w b' [x] ∧ b'.used = b.used + rounds ∧
      Run.Along (change w) (Within w S K) b (List.replicate rounds (shift x)).flatten
  | 0, b, h, _ => ⟨b, rfl, h, rfl, trivial⟩
  | rounds + 1, b, h, hw => by
    obtain ⟨b₁, h₁, hq₁, hu₁, hok₁⟩ := shift_run hS hK h (by omega)
    obtain ⟨b', h', hq', hu', hok'⟩ := shifts_run hS hK x rounds b₁ hq₁ (by omega)
    rw [List.replicate_succ, List.flatten_cons]
    exact ⟨b', (Run.foldlM_append_ok h₁ _).trans h', hq', by omega, Run.Along.append hok₁ h₁ hok'⟩

/-- **With two bytes in the buffer at most, the reservation passes any bound** that leaves `size_t` room. -/
theorem backlog_grows {S K reserve : Nat} (hS : 2 ≤ S) (hK : 1 ≤ K) (hr : 1 ≤ reserve) (hw : reserve < 2 ^ w) {R : Nat}
    (hR : 3 * (R + 1) < 2 ^ w) : ∃ (changes : List Change) (b : Buffer),
      Run.Along (change w) (Within w S K) (new reserve) changes ∧ changes.foldlM (change w) (new reserve) = .ok b ∧
      R < b.reserve := by
  obtain ⟨b₁, h₁, hq₁, hu₁⟩ := write_spec [0] (new_spec hr hw) (fits_of_le (by show 3 * (0 + 1) < 2 ^ w; omega))
  have hu₁ : b₁.used = 1 := hu₁
  have hwrite : (new reserve).change w (.write [some 0]) = .ok b₁ := h₁
  obtain ⟨b', h', hq', hu', hok'⟩ := shifts_run hS hK 0 R b₁ hq₁ (by omega)
  refine ⟨.write [some 0] :: (List.replicate R (shift 0)).flatten, b', ⟨⟨hK, fun b hb => ?_⟩, fun b hb => ?_⟩, ?_, ?_⟩
  · cases hwrite.symm.trans hb
    rw [hq₁.size_eq]
    exact Nat.le_of_succ_le hS
  · cases hwrite.symm.trans hb
    exact hok'
  · rw [Run.foldlM_cons_of_ok hwrite]
    exact h'
  · have := hq'.room
    omega

/-- **A bounded backlog keeps a buffer bounded only if nothing can be left when something is consumed**: the content is
never longer than one byte, or nothing is written at all. -/
theorem backlog_bounded_iff {reserve : Nat} (hr : 1 ≤ reserve) (S K : Nat) :
    BacklogBounded S K reserve ↔ S ≤ 1 ∨ K = 0 := by
  constructor
  · rintro ⟨R, hbound⟩
    by_contra hSK
    rw [not_or] at hSK
    obtain ⟨w, hw⟩ : ∃ w, reserve + 3 * (R + 1) < 2 ^ w := ⟨_, Nat.lt_two_pow_self⟩
    obtain ⟨changes, b, hok, hrun, hlt⟩ := backlog_grows (S := S) (K := K) (by omega) (by omega) hr
      (show reserve < 2 ^ w by omega) (show 3 * (R + 1) < 2 ^ w by omega)
    have := hbound w (by omega) changes b hok hrun
    omega
  · intro hSK
    refine ⟨max reserve (3 * (S + K)), fun w hw changes b hok hrun => ?_⟩
    have hstart : AtFront w S K reserve (new reserve) := ⟨rfl, rfl, Nat.zero_le _, hw, Nat.le_max_left _ _⟩
    exact (Run.invariant (fun _ _ _ h hc hb => h.change hSK hc hb) changes _ _ hstart hok hrun).reserve

theorem backlog_bounded_1024 : BacklogBounded 1 8192 1024 ↔ 1 ≤ 1 ∨ 8192 = 0 := backlog_bounded_iff (by decide) 1 8192

/-- Never more than two bytes are in the buffer, and one at least from the first call on. -/
theorem backlog_unbounded : ¬ BacklogBounded 2 1 1024 ∧ ∀ R, 3 * (R + 1) < 2 ^ 64 →
    ∃ (changes : List Change) (b : Buffer), Run.Along (change 64) (Within 64 2 1) (new 1024) changes ∧
      changes.foldlM (change 64) (new 1024) = .ok b ∧ R < b.reserve := by
  refine ⟨fun ⟨R, hbound⟩ => ?_, fun R hR => backlog_grows (by decide) (by decide) (by decide) (by decide) hR⟩
  obtain ⟨w, hw⟩ : ∃ w, 1024 + 3 * (R + 1) < 2 ^ w := ⟨_, Nat.lt_two_pow_self⟩
  obtain ⟨changes, b, hok, hrun, hlt⟩ := backlog_grows (w := w) (S := 2) (K := 1) (by decide) (by decide)
    (show 1 ≤ 1024 by decide) (by omega) (show 3 * (R + 1) < 2 ^ w by omega)
  have := hbound w (by omega) changes b hok hrun
  omega

end Buffer
end V8h
