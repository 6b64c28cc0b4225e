import V8h.BufferGrowth
/-!
# BufferCost — what growing a buffer costs

`realloc` may copy the whole block, and `prepare` calls it whenever the block is too small.  The block is tripled each
time, so all the blocks given up so far have together less than half the cells of the block there is: over any run the
copying costs a constant for each byte of the highest fill mark (`growth_is_paid`).  That is as long as three times what
is asked for is a `size_t`; beyond that a tripling may wrap and give a block hardly larger.
-/
namespace V8h
namespace Buffer

/-- The highest fill mark `prepare` has to make room for. -/
def Change.asks : Change → Nat
  | .write src   => src.length
  | .fill n _ _  => n
  | .zero        => 1
  | .prepare n   => n
  | .commit _    => 0
  | .consume _   => 0
  | .clear       => 0
  | .read _      => 0

/-- A buffer, the sizes of the blocks it gave up, the last first, and the highest fill mark asked for. -/
structure Growth where
  buffer : Buffer
  moved  : List Nat
  peak   : Nat

namespace Growth

variable (w : Nat)

/-- One operation: each calls `prepare` once at most. -/
def step (g : Growth) (c : Change) : Except Trap Growth := do
  let b ← g.buffer.change w c
  return ⟨b, if b.reserve = g.buffer.reserve then g.moved else g.buffer.reserve :: g.moved,
    max g.peak (g.buffer.used + c.asks)⟩

/-- Three times what is asked for is a `size_t`. -/
def Modest (g : Growth) (c : Change) : Prop := 3 * (g.buffer.used + c.asks) < 2 ^ w

instance (g : Growth) (c : Change) : Decidable (g.Modest w c) := inferInstanceAs (Decidable (_ < _))

variable {w}

theorem step_ok {g g' : Growth} {c : Change} (h : g.step w c = .ok g') : g.buffer.change w c = .ok g'.buffer ∧
    g'.moved = (if g'.buffer.reserve = g.buffer.reserve then g.moved else g.buffer.reserve :: g.moved) ∧
    g'.peak = max g.peak (g.buffer.used + c.asks) := by
  unfold step at h
  cases hb : g.buffer.change w c with
  | error e =>
    rw [hb] at h
    cases h
  | ok b =>
    rw [hb] at h
    cases h
    exact ⟨rfl, rfl, rfl⟩

end Growth

variable {w : Nat}

/-- **The loop of `prepare`**: the block is large enough, or is tripled and smaller than three times the need. -/
theorem growReserve_triples {need : Nat} (hneed : 3 * need < 2 ^ w) : ∀ (fuel : Nat) {reserve r : Nat},
    growReserve w need fuel reserve = some r → r = reserve ∨ 3 * reserve ≤ r ∧ r < 3 * need
  | 0, reserve, r, h => by cases h
  | fuel + 1, reserve, r, h => by
    unfold growReserve at h
    split at h
    · rename_i hlt
      have hwrap : sizeT w (reserve * 3) = reserve * 3 := sizeT_of_lt (by omega)
      rw [hwrap] at h
      rcases growReserve_triples hneed fuel h with rfl | ⟨hle, hbound⟩
      · exact .inr ⟨by omega, by omega⟩
      · exact .inr ⟨by omega, hbound⟩
    · cases h
      exact .inl rfl

/-- **`prepare`** keeps the block, or gives it up for one of at least three times its size. -/
theorem prepare_triples {b b' : Buffer} {n : Nat} (h : b.prepare w n = .ok b') (hn : 3 * (b.used + n) < 2 ^ w) :
    b'.reserve = b.reserve ∨ 3 * b.reserve ≤ b'.reserve ∧ b'.reserve < 3 * (b.used + n) := by
  have hneed : sizeT w (b.used + n) = b.used + n := sizeT_of_lt (by omega)
  obtain ⟨r, hr, ⟨-, rfl⟩ | ⟨-, rfl⟩⟩ := prepare_cases h
  · rw [hneed] at hr
    exact growReserve_triples hn _ hr
  · exact .inl rfl

/-- What is stored behind a `prepare` changes no reservation. -/
theorem store_triples {b b₁ b₂ : Buffer} {n pos : Nat} {src : List Cell} (hprepare : b.prepare w n = .ok b₁)
    (hstore : b₁.store pos src = .ok b₂) (hn : 3 * (b.used + n) < 2 ^ w) :
    b₂.reserve = b.reserve ∨ 3 * b.reserve ≤ b₂.reserve ∧ b₂.reserve < 3 * (b.used + n) := by
  rw [store_reserve hstore]
  exact prepare_triples hprepare hn

/-- **One operation.** -/
theorem change_triples {b b' : Buffer} {c : Change} (h : b.change w c = .ok b') (hn : 3 * (b.used + c.asks) < 2 ^ w) :
    b'.reserve = b.reserve ∨ 3 * b.reserve ≤ b'.reserve ∧ b'.reserve < 3 * (b.used + c.asks) := by
  cases c with
  | write src =>
    obtain ⟨b₁, h₁, h⟩ := bind_eq_ok.1 h
    obtain ⟨b₂, h₂, h⟩ := bind_eq_ok.1 h
    cases h
    have htriples := store_triples h₁ h₂ hn
    exact htriples
  | fill n src k =>
    obtain ⟨b₁, h₁, h⟩ := bind_eq_ok.1 h
    obtain ⟨b₂, h₂, h⟩ := bind_eq_ok.1 h
    cases h
    have htriples := store_triples h₁ h₂ hn
    exact htriples
  | zero =>
    obtain ⟨b₁, h₁, h₂⟩ := bind_eq_ok.1 h
    exact store_triples h₁ h₂ hn
  | prepare n => exact prepare_triples h hn
  | commit n =>
    cases h
    exact .inl rfl
  | consume n =>
    cases h
    exact .inl (consume_reserve ..)
  | clear =>
    cases h
    exact .inl rfl
  | read n =>
    obtain ⟨⟨dest, b₁⟩, h₁, h⟩ := bind_eq_ok.1 h
    cases h
    obtain ⟨cells, -, h₁⟩ := bind_eq_ok.1 h₁
    cases h₁
    exact .inl rfl

/-- What was copied so far, against the block there is. -/
structure Growth.Paid (reserve : Nat) (g : Growth) : Prop where
  copied : 2 * g.moved.sum + reserve ≤ g.buffer.reserve
  times  : 3 ^ g.moved.length * reserve ≤ g.buffer.reserve
  peak   : g.buffer.reserve ≤ max reserve (3 * g.peak)

/-- **One operation, with what it copies.** -/
theorem Growth.step_paid {reserve : Nat} {g g' : Growth} {c : Change} (h : g.Paid reserve) (hok : g.Modest w c)
    (hs : g.step w c = .ok g') : g'.Paid reserve := by
  obtain ⟨hcopied, htimes, hpeak⟩ := h
  obtain ⟨hchange, hmoved, hpeak'⟩ := Growth.step_ok hs
  by_cases hsame : g'.buffer.reserve = g.buffer.reserve
  · rw [if_pos hsame] at hmoved
    refine ⟨?_, ?_, ?_⟩
    · rw [hmoved, hsame]
      exact hcopied
    · rw [hmoved, hsame]
      exact htimes
    · rw [hsame, hpeak']
      omega
  · rw [if_neg hsame] at hmoved
    rcases change_triples hchange hok with hkept | ⟨htriple, hbound⟩
    · exact absurd hkept hsame
    -- the block given up is a third of the new one at the most
    refine ⟨?_, ?_, ?_⟩
    · rw [hmoved, List.sum_cons]
      omega
    · have hpow : 3 ^ (g.moved.length + 1) * reserve = 3 * (3 ^ g.moved.length * reserve) := by
        rw [Nat.pow_succ', Nat.mul_assoc]
      rw [hmoved, List.length_cons, hpow]
      omega
    · rw [hpeak']
      omega

/-- **Growing is paid for.**  In every run of operations on a new buffer, with three times what is asked for a `size_t`,
the blocks given up have together at most half of what the block has now above the first one, their number is at most
the logarithm to the base 3 of its growth, and it has at most three times the highest fill mark asked for: what was
copied is at most one and a half times that mark. -/
theorem growth_is_paid (reserve : Nat) (changes : List Change) (g : Growth)
    (hok : Run.Along (Growth.step w) (Growth.Modest w) ⟨new reserve, [], 0⟩ changes)
    (hrun : changes.foldlM (Growth.step w) ⟨new reserve, [], 0⟩ = .ok g) :
    2 * g.moved.sum + reserve ≤ g.buffer.reserve ∧ 3 ^ g.moved.length * reserve ≤ g.buffer.reserve ∧
      g.buffer.reserve ≤ max reserve (3 * g.peak) ∧ 2 * g.moved.sum ≤ 3 * g.peak := by
  have hstart : Growth.Paid reserve ⟨new reserve, [], 0⟩ := by
    have hreserve : (new reserve).reserve = reserve := rfl
    refine ⟨?_, ?_, ?_⟩
    · simp [hreserve]
    · simp [hreserve]
    · simp [hreserve]
  have h : g.Paid reserve :=
    Run.invariant (I := Growth.Paid reserve) (fun _ _ _ hI ho hs => Growth.step_paid hI ho hs) changes _ _ hstart hok
      hrun
  refine ⟨h.copied, h.times, h.peak, ?_⟩
  have hcopied := h.copied
  have hpeak := h.peak
  omega

/-- A block of 4 cells that becomes one of 12 and one of 36: the blocks given up have 16 cells. -/
theorem growth_is_paid_36 : ∃ g,
    [.write (List.replicate 5 (some 1)), .consume 2, .write (List.replicate 8 (some 2))].foldlM (Growth.step 32)
      ⟨new 4, [], 0⟩ = .ok g ∧ g.moved = [12, 4] ∧ g.peak = 13 ∧ 2 * g.moved.sum ≤ 3 * g.peak := by
  obtain ⟨g, hg, h⟩ := Run.exists_of_any (x :=
    [.write (List.replicate 5 (some 1)), .consume 2, .write (List.replicate 8 (some 2))].foldlM (Growth.step 32)
      ⟨new 4, [], 0⟩) (p := fun g => decide (g.moved = [12, 4] ∧ g.peak = 13)) (by decide)
  obtain ⟨hmoved, hpeak⟩ := of_decide_eq_true h
  exact ⟨g, hg, hmoved, hpeak, (growth_is_paid 4 _ g (by decide) hg).2.2.2⟩

end Buffer
end V8h
