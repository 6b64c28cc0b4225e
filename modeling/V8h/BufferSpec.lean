import V8h.Buffer
import V8h.Lib.Effect
/-!
# BufferSpec — what each operation of the native buffer does to its content

`Buffer.Holds w b q` says that `b` is well formed and that its visible bytes are `q`.  Each operation has one lemma here
about it, and nothing later unfolds an operation.  `Buffer.Fits` is the absence of `size_t` overflow in `prepare`.
`Buffer.Tracks w b q` asks less: the counters are in order, and `q` is what is known of the visible bytes.
-/
namespace V8h
namespace Buffer

open Effect

variable {w : Nat}

/-- The visible cells, `data_[cursor_ .. cursor_ + size_)`. -/
def content (b : Buffer) : List Cell := b.data.slice b.cursor b.size

/-- **The representation invariant.** -/
structure Inv (w : Nat) (b : Buffer) : Prop where
  block    : b.data.size = b.reserve
  counters : b.cursor + b.size = b.used
  room     : b.used ≤ b.reserve
  reset    : b.size = 0 → b.cursor = 0 ∧ b.used = 0
  positive : 0 < b.reserve
  word     : b.reserve < 2 ^ w

/-- A well-formed buffer whose visible bytes are `q`. -/
structure Holds (w : Nat) (b : Buffer) (q : List UInt8) : Prop extends Inv w b where
  content  : b.content = q.map some

/-- No `size_t` operation of `prepare n` overflows. -/
def Fits (w : Nat) (b : Buffer) (n : Nat) : Prop :=
  b.used + n < 2 ^ w ∧ ∀ j, b.reserve * 3 ^ j < b.used + n → b.reserve * 3 ^ (j + 1) < 2 ^ w

/-- While the fill mark is in the block, `remain` does not wrap. -/
theorem remain_eq {b : Buffer} (h : b.used ≤ b.reserve) (hw : b.reserve < 2 ^ w) : b.remain w = b.reserve - b.used := by
  have hsum : 2 ^ w - b.used + b.reserve = b.reserve - b.used + 2 ^ w := by omega
  unfold remain sizeT
  rw [hsum, Nat.add_mod_right, Nat.mod_eq_of_lt (by omega)]

theorem fits_of_le {b : Buffer} {n : Nat} (h : 3 * (b.used + n) < 2 ^ w) : Fits w b n := by
  refine ⟨by omega, fun j hj => ?_⟩
  rw [Nat.pow_succ, ← Nat.mul_assoc]
  omega

theorem new_spec {reserve : Nat} (h0 : 0 < reserve) (hw : reserve < 2 ^ w) : Holds w (new reserve) [] :=
  ⟨⟨rfl, rfl, Nat.zero_le _, fun _ => ⟨rfl, rfl⟩, h0, hw⟩, rfl⟩

/-- A buffer with no room left. -/
def full (bytes : List UInt8) : Buffer :=
  ⟨(Block.malloc bytes.length).write 0 (bytes.map some), 0, bytes.length, bytes.length, bytes.length⟩

theorem full_holds {bytes : List UInt8} (h0 : bytes ≠ []) (hw : bytes.length < 2 ^ w) : Holds w (full bytes) bytes := by
  have hpos : 0 < bytes.length := List.length_pos_iff.2 h0
  refine ⟨⟨rfl, Nat.zero_add _, Nat.le_refl _, fun h => ⟨rfl, h⟩, hpos, hw⟩, ?_⟩
  have := Block.slice_write_self (Block.malloc bytes.length) 0 (bytes.map some)
  rwa [List.length_map] at this

theorem Holds.size_eq {b : Buffer} {q : List UInt8} (h : Holds w b q) : b.size = q.length := by
  simpa only [Buffer.content, Block.length_slice, List.length_map] using congrArg List.length h.content

/-- The content determines the bytes held. -/
theorem Holds.unique {b : Buffer} {q q' : List UInt8} (h : Holds w b q) (h' : Holds w b q') : q = q' := by
  refine (List.map_inj_right ?_).1 (h.content.symm.trans h'.content)
  exact fun x y hxy => Option.some.inj hxy

/-! ## What is known of the content -/

/-- **The counters are in order, and `q` is what is known of the visible cells.** -/
structure Tracks (w : Nat) (b : Buffer) (q : List Cell) : Prop where
  block    : b.data.size = b.reserve
  counters : b.cursor + b.size = b.used
  room     : b.used ≤ b.reserve
  word     : b.reserve < 2 ^ w
  known    : Block.Known q b.content

theorem Holds.tracks {b : Buffer} {q : List UInt8} (h : Holds w b q) : Tracks w b (q.map some) :=
  ⟨h.block, h.counters, h.room, h.word, h.content ▸ Block.Known.refl _⟩

theorem Tracks.holds {b : Buffer} {q : List UInt8} (h : Tracks w b (q.map some))
    (hreset : b.size = 0 → b.cursor = 0 ∧ b.used = 0) (hpos : 0 < b.reserve) : Holds w b q :=
  ⟨⟨h.block, h.counters, h.room, hreset, hpos, h.word⟩, h.known.eq (by simp)⟩

theorem Tracks.size_eq {b : Buffer} {q : List Cell} (h : Tracks w b q) : b.size = q.length := by
  simpa only [Buffer.content, Block.length_slice] using h.known.length_eq.symm

theorem Tracks.new {reserve : Nat} (hw : reserve < 2 ^ w) : Tracks w (new reserve) [] :=
  ⟨rfl, rfl, Nat.zero_le _, hw, List.Forall₂.nil⟩

theorem Tracks.clear {b : Buffer} {q : List Cell} (h : Tracks w b q) : Tracks w b.clear [] :=
  ⟨h.block, rfl, Nat.zero_le _, h.word, List.Forall₂.nil⟩

theorem store_ok {b : Buffer} {pos : Nat} {src : List Cell} (h : pos + src.length ≤ b.data.size) :
    b.store pos src = .ok { b with data := b.data.write pos src } := by
  rw [store, Block.store_ok h]

/-- What a store that returns did: the cells were in the block, if there were any. -/
theorem store_eq_ok {b b' : Buffer} {pos : Nat} {src : List Cell} (h : b.store pos src = .ok b') :
    (pos + src.length ≤ b.data.size ∨ src = []) ∧ b' = { b with data := b.data.write pos src } := by
  unfold store Block.store at h
  split at h
  · cases h
  · rename_i data hd
    cases h
    split at hd
    · rename_i hin
      cases hd
      exact ⟨hin, rfl⟩
    · cases hd

theorem store_reserve {b b' : Buffer} {pos : Nat} {src : List Cell} (h : b.store pos src = .ok b') :
    b'.reserve = b.reserve := by
  rw [(store_eq_ok h).2]

/-- **A store at the fill mark changes nothing visible.** -/
theorem Tracks.store {b : Buffer} {q cells : List Cell} (h : Tracks w b q)
    (hroom : b.used + cells.length ≤ b.reserve) :
    ∃ b', b.store b.used cells = .ok b' ∧ Tracks w b' q ∧ b'.used = b.used ∧ b'.reserve = b.reserve ∧
      b'.data.slice b'.used cells.length = cells := by
  have hblock := h.block
  have hcount := h.counters
  refine ⟨_, store_ok (by omega), ⟨hblock, hcount, h.room, h.word, ?_⟩, rfl, rfl, Block.slice_write_self _ _ _⟩
  rw [Buffer.content, Block.slice_write_below _ _ (show b.cursor + b.size ≤ b.used by omega)]
  exact h.known

/-- **`commit n` makes `n` more cells visible**, of which as much is known as before. -/
theorem Tracks.commit {b : Buffer} {q more : List Cell} {n : Nat} (h : Tracks w b q) (hn : b.used + n ≤ b.reserve)
    (hmore : Block.Known more (b.data.slice b.used n)) :
    Tracks w (b.commit w n) (q ++ more) ∧ (b.commit w n).used = b.used + n := by
  have hcount := h.counters
  have hword := h.word
  have hsz : sizeT w (b.size + n) = b.size + n := sizeT_of_lt (by omega)
  have hus : sizeT w (b.used + n) = b.used + n := sizeT_of_lt (by omega)
  refine ⟨⟨h.block, ?_, ?_, hword, ?_⟩, hus⟩
  · simp only [Buffer.commit, hsz, hus]
    omega
  · simpa only [Buffer.commit, hus] using hn
  · simp only [Buffer.content, Buffer.commit, hsz]
    rw [Block.slice_append, hcount]
    exact h.known.append hmore

/-- **Cells stored at the fill mark and committed come after the content.** -/
theorem Tracks.fill {b : Buffer} {q known cells : List Cell} (h : Tracks w b q) (hk : Block.Known known cells)
    (hroom : b.used + cells.length ≤ b.reserve) :
    ∃ b', b.store b.used cells = .ok b' ∧ Tracks w (b'.commit w cells.length) (q ++ known) ∧
      (b'.commit w cells.length).used = b.used + cells.length ∧ b'.reserve = b.reserve := by
  obtain ⟨b', hstore, htrack, hused, hreserve, hslice⟩ := h.store hroom
  obtain ⟨hcommit, hused'⟩ := htrack.commit (by rwa [hused, hreserve]) (hslice ▸ hk)
  exact ⟨b', hstore, hcommit, by rw [hused', hused], hreserve⟩

/-- **`consume n` drops the first `min n size` cells.** -/
theorem Tracks.consume {b : Buffer} {q : List Cell} (h : Tracks w b q) (n : Nat) :
    Tracks w (b.consume w n) (q.drop n) := by
  have hsize := h.size_eq
  have hcount := h.counters
  have hroom := h.room
  have hword := h.word
  have hdrop : q.drop n = q.drop (if b.size < n then b.size else n) := by
    split
    · rw [List.drop_of_length_le (by omega), List.drop_of_length_le (by omega)]
    · rfl
  unfold Buffer.consume
  rw [hdrop]
  generalize hk : (if b.size < n then b.size else n) = k
  have hkle : k ≤ b.size := by subst hk; split <;> omega
  simp only [sizeT_of_lt (show b.cursor + k < 2 ^ w by omega)]
  split
  · rw [List.drop_of_length_le (by omega)]
    exact h.clear
  · refine ⟨h.block, ?_, h.room, h.word, ?_⟩
    · simp only
      omega
    · have := h.known.drop k
      rwa [Buffer.content, Block.drop_slice _ _ hkle] at this

/-- The visible cells a reader loads are the known ones, as far as they are known. -/
theorem Tracks.load {b : Buffer} {q : List Cell} {n : Nat} (h : Tracks w b q) (hn : n ≤ q.length) :
    ∃ cells, b.load b.cursor n = .ok cells ∧ Block.Known (q.take n) cells := by
  have hsize := h.size_eq
  have hblock := h.block
  have hcount := h.counters
  have hroom := h.room
  refine ⟨b.data.slice b.cursor n, by rw [Buffer.load, Block.load_ok (by omega)], ?_⟩
  have := h.known.take n
  rwa [Buffer.content, Block.take_slice _ _ (by omega)] at this

/-! ## `prepare` -/

/-- **The growth loop exits with enough room**, when no product overflows: `reserve` triples, and the fuel exceeds what
is missing. -/
theorem growReserve_spec (need : Nat) : ∀ (fuel reserve : Nat), 0 < reserve → 0 < fuel → need < reserve + fuel →
    reserve < 2 ^ w → (∀ j, reserve * 3 ^ j < need → reserve * 3 ^ (j + 1) < 2 ^ w) →
    ∃ r, growReserve w need fuel reserve = some r ∧ need ≤ r ∧ reserve ≤ r ∧ r < 2 ^ w
  | 0, _, _, hf, _, _, _ => absurd hf (Nat.lt_irrefl 0)
  | fuel + 1, reserve, hpos, _, hfuel, hw, hno => by
    unfold growReserve
    by_cases hn : need > reserve
    · have h3 : reserve * 3 < 2 ^ w := by simpa using hno 0 (by simpa using hn)
      have hno3 : ∀ j, reserve * 3 * 3 ^ j < need → reserve * 3 * 3 ^ (j + 1) < 2 ^ w := by
        intro j hj
        have hmul : ∀ i, reserve * 3 * 3 ^ i = reserve * 3 ^ (i + 1) := fun i => by
          rw [Nat.pow_succ', Nat.mul_assoc]
        rw [hmul] at hj ⊢
        exact hno (j + 1) hj
      rw [if_pos hn, sizeT_of_lt h3]
      obtain ⟨r, hr, h1, h2, h4⟩ := growReserve_spec need fuel (reserve * 3) (by omega) (by omega) (by omega) h3 hno3
      exact ⟨r, hr, h1, by omega, h4⟩
    · rw [if_neg hn]
      exact ⟨reserve, rfl, by omega, Nat.le_refl _, hw⟩

theorem grown_some {used reserve n r : Nat} (h : grown w used reserve n = .ok (some r)) :
    growReserve w (sizeT w (used + n)) (2 ^ w) reserve = some r ∧ reserve < r := by
  unfold grown at h
  cases hr : growReserve w (sizeT w (used + n)) (2 ^ w) reserve with
  | none =>
    rw [hr] at h
    cases h
  | some r' =>
    rw [hr] at h
    by_cases hg : r' > reserve
    · simp only [if_pos hg] at h
      cases h
      exact ⟨rfl, hg⟩
    · simp only [if_neg hg] at h
      cases h

/-- What `prepare` is when its loop ends. -/
theorem prepare_of_grow {b : Buffer} {n r : Nat}
    (h : growReserve w (sizeT w (b.used + n)) (2 ^ w) b.reserve = some r) :
    b.prepare w n = .ok (if r > b.reserve then b.realloc r else b) := by
  rw [prepare, grown, h]
  by_cases hg : r > b.reserve
  · simp only [if_pos hg]
    rfl
  · simp only [if_neg hg]
    rfl

theorem grown_of_error {b : Buffer} {n : Nat} {t : Trap} (h : b.prepare w n = .error t) :
    grown w b.used b.reserve n = .error t := by
  rw [prepare] at h
  cases hgrown : grown w b.used b.reserve n with
  | error t' =>
    rw [hgrown] at h
    cases h
    rfl
  | ok size =>
    rw [hgrown] at h
    cases size with
    | none => cases h
    | some r => cases h

/-- **What a `prepare` that returns has done**: it reallocated, or had the room. -/
theorem prepare_cases {b b' : Buffer} {n : Nat} (h : b.prepare w n = .ok b') :
    ∃ r, growReserve w (sizeT w (b.used + n)) (2 ^ w) b.reserve = some r ∧
      (b.reserve < r ∧ b' = b.realloc r ∨ r ≤ b.reserve ∧ b' = b) := by
  cases hr : growReserve w (sizeT w (b.used + n)) (2 ^ w) b.reserve with
  | none =>
    rw [prepare, grown, hr] at h
    cases h
  | some r =>
    rw [prepare_of_grow hr] at h
    refine ⟨r, rfl, ?_⟩
    by_cases hg : r > b.reserve
    · rw [if_pos hg] at h
      exact .inl ⟨hg, (Except.ok.inj h).symm⟩
    · rw [if_neg hg] at h
      exact .inr ⟨Nat.le_of_not_lt hg, (Except.ok.inj h).symm⟩

/-- **`prepare n` makes room for `n` bytes and changes no counter and no visible byte.** -/
theorem prepare_spec {b : Buffer} {q : List UInt8} {n : Nat} (h : Holds w b q) (hf : Fits w b n) :
    ∃ b', b.prepare w n = .ok b' ∧ Holds w b' q ∧ b'.used = b.used ∧ b'.used + n ≤ b'.reserve := by
  have hblock := h.block
  have hcount := h.counters
  have hroom := h.room
  have hin : b.cursor + b.size ≤ b.data.size := by omega
  obtain ⟨r, hr, h1, h2, h3⟩ := growReserve_spec (b.used + n) (2 ^ w) b.reserve h.positive
    (Nat.two_pow_pos w) (by have := hf.1; omega) h.word hf.2
  rw [prepare_of_grow ((congrArg (growReserve w · _ _) (sizeT_of_lt hf.1)).trans hr)]
  by_cases hg : r > b.reserve
  · refine ⟨b.realloc r, by simp [hg], ⟨⟨rfl, hcount, ?_, h.reset, ?_, h3⟩, ?_⟩, rfl, h1⟩
    · exact Nat.le_trans hroom h2
    · exact Nat.lt_of_lt_of_le h.positive h2
    · exact (Block.slice_realloc b.data hin (show b.cursor + b.size ≤ r by omega)).trans h.content
  · exact ⟨b, by simp [hg], h, rfl, by omega⟩

/-- A `prepare` makes the room asked for. -/
theorem prepare_remain {b : Buffer} {q : List UInt8} {n : Nat} (h : Holds w b q) (hf : Fits w b n) :
    ∃ b', b.prepare w n = .ok b' ∧ n ≤ b'.remain w := by
  obtain ⟨b', hprep, hq, -, hroom⟩ := prepare_spec h hf
  refine ⟨b', hprep, ?_⟩
  rw [remain_eq hq.room hq.word]
  omega

theorem growReserve_exit (need : Nat) : ∀ (fuel reserve : Nat) {r : Nat}, growReserve w need fuel reserve = some r →
    need ≤ r ∧ (reserve < 2 ^ w → r < 2 ^ w)
  | 0, _, _, h => nomatch h
  | fuel + 1, reserve, r, h => by
    unfold growReserve at h
    split at h
    · obtain ⟨h1, h2⟩ := growReserve_exit need fuel _ h
      exact ⟨h1, fun _ => h2 (Nat.mod_lt _ (Nat.two_pow_pos w))⟩
    · cases h
      exact ⟨by omega, id⟩

/-- **When `prepare n` returns there is room for `n` bytes**, and nothing visible has changed. -/
theorem Tracks.prepare {b : Buffer} {q : List Cell} {n : Nat} (h : Tracks w b q) (hn : b.used + n < 2 ^ w) :
    Yields (b.prepare w n) (fun b' => Tracks w b' q ∧ b'.used = b.used ∧ b'.used + n ≤ b'.reserve) (· = .diverge) := by
  have hblock := h.block
  have hcount := h.counters
  have hroom := h.room
  cases hr : growReserve w (sizeT w (b.used + n)) (2 ^ w) b.reserve with
  | none =>
    refine .of_error ?_ rfl
    rw [Buffer.prepare, grown, hr]
    rfl
  | some r =>
    refine .of_ok (prepare_of_grow hr) ?_
    rw [sizeT_of_lt hn] at hr
    obtain ⟨h1, h2⟩ := growReserve_exit _ _ _ hr
    by_cases hg : r > b.reserve
    · rw [if_pos hg]
      refine ⟨⟨rfl, hcount, show b.used ≤ r by omega, h2 h.word, ?_⟩, rfl, h1⟩
      have hslice : (b.realloc r).content = b.content :=
        Block.slice_realloc b.data (show b.cursor + b.size ≤ b.data.size by omega) (show b.cursor + b.size ≤ r by omega)
      rw [hslice]
      exact h.known
    · rw [if_neg hg]
      exact ⟨h, rfl, by omega⟩

theorem prepare_of_fits {b : Buffer} {n : Nat} (hn : b.used + n ≤ b.reserve) (hw : b.used + n < 2 ^ w) :
    b.prepare w n = .ok b := by
  have hstop : growReserve w (sizeT w (b.used + n)) (2 ^ w) b.reserve = some b.reserve := by
    obtain ⟨fuel, hf⟩ := Nat.exists_eq_add_of_lt (Nat.two_pow_pos w)
    rw [hf, Nat.zero_add, growReserve, sizeT_of_lt hw, if_neg (by omega)]
  rw [prepare_of_grow hstop, if_neg (Nat.lt_irrefl _)]

theorem prepare_of_room {b : Buffer} {n : Nat} (hn : b.used + n ≤ b.reserve) (hw : b.reserve < 2 ^ w) :
    b.prepare w n = .ok b := prepare_of_fits hn (by omega)

/-! ## Stores above the fill mark -/

/-- **Filling `bs` at the fill mark and committing it appends `bs`.** -/
theorem fill_spec {b : Buffer} {q : List UInt8} {bs : List UInt8} (h : Holds w b q)
    (hroom : b.used + bs.length ≤ b.reserve) :
    ∃ b', b.store b.used (bs.map some) = .ok b' ∧ Holds w (b'.commit w bs.length) (q ++ bs) ∧
      (b'.commit w bs.length).used = b.used + bs.length := by
  obtain ⟨b', hstore, htrack, hused, hreserve⟩ :=
    h.tracks.fill (Block.Known.refl (bs.map some)) (by rwa [List.length_map])
  rw [List.length_map] at htrack hused
  rw [← List.map_append] at htrack
  refine ⟨b', hstore, htrack.holds (fun h0 => ?_) (hreserve ▸ h.positive), hused⟩
  -- nothing was visible before, and nothing was added
  have hsize := htrack.size_eq
  rw [h0, List.length_map, List.length_append] at hsize
  have hreset := h.reset (by have := h.size_eq; omega)
  have hcount := htrack.counters
  rw [hused, h0] at hcount
  omega

/-- **`write` appends.** -/
theorem write_spec {b : Buffer} {q : List UInt8} (bs : List UInt8) (h : Holds w b q) (hf : Fits w b bs.length) :
    ∃ b', b.write w (bs.map some) = .ok b' ∧ Holds w b' (q ++ bs) ∧ b'.used = b.used + bs.length := by
  obtain ⟨b₁, h1, hq, hu, hroom⟩ := prepare_spec h hf
  obtain ⟨b₂, h2, hq2, hu2⟩ := fill_spec hq hroom
  refine ⟨_, ?_, hq2, by rw [hu2, hu]⟩
  rw [write, List.length_map, h1, ok_bind, h2, ok_bind]
  rfl

/-- **`zero` stores below the reservation and changes no visible byte.** -/
theorem zero_spec {b : Buffer} {q : List UInt8} (h : Holds w b q) (hf : Fits w b 1) :
    ∃ b', b.zero w = .ok b' ∧ Holds w b' q ∧ b'.used = b.used := by
  obtain ⟨b₁, h1, hq, hu, hroom⟩ := prepare_spec h hf
  have hblock := hq.block
  have hcount := hq.counters
  refine ⟨{ b₁ with data := b₁.data.write b₁.used [some 0] }, ?_,
    ⟨⟨hblock, hq.counters, hq.room, hq.reset, hq.positive, hq.word⟩, ?_⟩, hu⟩
  · rw [zero, h1, ok_bind]
    exact store_ok (by simpa [hblock] using hroom)
  · exact (Block.slice_write_below b₁.data [some 0] (Nat.le_of_eq hcount)).trans hq.content

/-! ## `clear`, `consume`, `sweep` -/

theorem clear_spec {b : Buffer} (h : Inv w b) : Holds w b.clear [] :=
  ⟨⟨h.block, rfl, Nat.zero_le _, fun _ => ⟨rfl, rfl⟩, h.positive, h.word⟩, rfl⟩

/-- **`consume n` drops the first `min n size` bytes**, resetting the counters when none is left. -/
theorem consume_spec {b : Buffer} {q : List UInt8} (n : Nat) (h : Holds w b q) :
    Holds w (b.consume w n) (q.drop n) := by
  have htrack := h.tracks.consume n
  rw [← List.map_drop] at htrack
  have hreset : ((b.consume w n).size = 0 → (b.consume w n).cursor = 0 ∧ (b.consume w n).used = 0) ∧
      0 < (b.consume w n).reserve := by
    unfold consume
    dsimp only
    generalize (if b.size < n then b.size else n) = k
    split
    · exact ⟨fun _ => ⟨rfl, rfl⟩, h.positive⟩
    · rename_i hne
      exact ⟨fun h0 => absurd h0 hne, h.positive⟩
  exact htrack.holds hreset.1 hreset.2

theorem consume_used (b : Buffer) (n : Nat) : (b.consume w n).used ≤ b.used := by
  unfold consume
  dsimp only
  generalize (if b.size < n then b.size else n) = k
  split
  · exact Nat.zero_le _
  · exact Nat.le_refl _

theorem consume_reserve (b : Buffer) (n : Nat) : (b.consume w n).reserve = b.reserve := by
  unfold consume
  dsimp only
  generalize (if b.size < n then b.size else n) = k
  split <;> rfl

/-! ## Readers of the content -/

theorem load_length {b : Buffer} {pos n : Nat} {cells : List Cell} (h : b.load pos n = .ok cells) :
    cells.length = n := by
  unfold load Block.load at h
  split at h
  · cases h
  · rename_i src hs
    cases h
    split at hs
    · cases hs
      exact Block.length_slice _ _ _
    · cases hs

theorem load_content {b : Buffer} {q : List UInt8} {n : Nat} (h : Holds w b q) (hn : n ≤ b.size) :
    b.load b.cursor n = .ok ((q.take n).map some) := by
  have hblock := h.block
  have hcount := h.counters
  have hroom := h.room
  rw [load, Block.load_ok (by omega), List.map_take, ← h.content, content, Block.take_slice _ _ hn]

theorem peek_spec {b : Buffer} {q : List UInt8} {n : Nat} (h : Holds w b q) (hn : n ≤ b.size) :
    b.peek n = .ok (q.take n) := by
  rw [peek, load_content h hn, ok_bind, determinate_map_some]

/-- **`sweep` moves the content to the front of the block.** -/
theorem sweep_spec {b : Buffer} {q : List UInt8} (h : Holds w b q) : ∃ b', b.sweep = .ok b' ∧ Holds w b' q := by
  have hblock := h.block
  have hcount := h.counters
  have hroom := h.room
  have hsize := h.size_eq
  have hlen : (q.map some).length = b.size := by rw [List.length_map, hsize]
  refine ⟨{ b with data := b.data.write 0 (q.map some), cursor := 0, used := b.size }, ?_,
    ⟨⟨hblock, Nat.zero_add _, ?_, fun h0 => ⟨rfl, h0⟩, h.positive, h.word⟩, ?_⟩⟩
  · rw [sweep, load_content h (Nat.le_refl _), List.take_of_length_le (by omega), ok_bind, store_ok (by omega)]
    rfl
  · show b.size ≤ b.reserve
    omega
  · rw [content, ← hlen]
    exact Block.slice_write_self _ _ _

/-- **`write(Buffer *, n)` appends the first `min n size` bytes of the other buffer.** -/
theorem writeBuffer_spec {b src : Buffer} {q p : List UInt8} {n : Nat} (h : Holds w b q) (hs : Holds w src p)
    (hf : Fits w b (p.take n).length) :
    ∃ b', b.writeBuffer w src n = .ok b' ∧ Holds w b' (q ++ p.take n) ∧ b'.used = b.used + (p.take n).length := by
  have hsize := hs.size_eq
  have hmin : (if n > src.size then src.size else n) = min n p.length := by split <;> omega
  have htake : p.take (min n p.length) = p.take n := by
    rw [← List.take_take, List.take_length]
  obtain ⟨b', h1, h2, h3⟩ := write_spec _ h hf
  refine ⟨b', ?_, h2, h3⟩
  rw [writeBuffer, hmin, load_content hs (by omega), htake]
  exact h1

/-! ## What every operation keeps -/

/-- **What holds of every buffer**, whatever became of its counters. -/
structure Sane (w : Nat) (b : Buffer) : Prop where
  block    : b.data.size = b.reserve
  positive : 0 < b.reserve
  word     : b.reserve < 2 ^ w

theorem Inv.sane {b : Buffer} (h : Inv w b) : Sane w b := ⟨h.block, h.positive, h.word⟩

theorem Sane.clear {b : Buffer} (h : Sane w b) : Holds w b.clear [] :=
  ⟨⟨h.block, rfl, Nat.zero_le _, fun _ => ⟨rfl, rfl⟩, h.positive, h.word⟩, rfl⟩

theorem Sane.commit {b : Buffer} (h : Sane w b) (n : Nat) : Sane w (b.commit w n) := ⟨h.block, h.positive, h.word⟩

theorem Sane.consume {b : Buffer} (h : Sane w b) (n : Nat) : Sane w (b.consume w n) := by
  unfold Buffer.consume
  dsimp only
  generalize (if b.size < n then b.size else n) = k
  split
  · exact ⟨h.block, h.positive, h.word⟩
  · exact ⟨h.block, h.positive, h.word⟩

theorem Sane.store {b b' : Buffer} {pos : Nat} {src : List Cell} (h : Sane w b) (hs : b.store pos src = .ok b') :
    Sane w b' := by
  obtain ⟨-, rfl⟩ := store_eq_ok hs
  exact ⟨h.block, h.positive, h.word⟩

/-- The growth loop does not exit with 0: it triples, and 3 is odd. -/
theorem growReserve_pos (need : Nat) : ∀ (fuel reserve : Nat) {r : Nat}, 0 < reserve → reserve < 2 ^ w →
    growReserve w need fuel reserve = some r → 0 < r ∧ r < 2 ^ w
  | 0, _, _, _, _, h => nomatch h
  | fuel + 1, reserve, r, hpos, hlt, h => by
    unfold growReserve at h
    split at h
    · have hnot : ¬ 2 ^ w ∣ reserve * 3 := fun hd =>
        Nat.not_dvd_of_pos_of_lt hpos hlt
          ((Nat.Coprime.pow_left w (by decide : Nat.Coprime 2 3)).dvd_of_dvd_mul_right hd)
      have hne : sizeT w (reserve * 3) ≠ 0 := fun h0 => hnot (Nat.dvd_of_mod_eq_zero h0)
      exact growReserve_pos need fuel _ (Nat.pos_of_ne_zero hne) (Nat.mod_lt _ (Nat.two_pow_pos w)) h
    · cases h
      exact ⟨hpos, hlt⟩

theorem Sane.prepare {b b' : Buffer} {n : Nat} (h : Sane w b) (hp : b.prepare w n = .ok b') : Sane w b' := by
  obtain ⟨r, hr, ⟨-, rfl⟩ | ⟨-, rfl⟩⟩ := prepare_cases hp
  · obtain ⟨h0, hlt⟩ := growReserve_pos _ _ _ h.positive h.word hr
    exact ⟨rfl, h0, hlt⟩
  · exact h

/-! ## Counters alone -/

section

variable {b b' : Buffer} {n : Nat}

/-- The counters are in order, whatever the cells hold. -/
def Counted (w : Nat) (b : Buffer) : Prop := Tracks w b b.content

theorem Tracks.counted {q : List Cell} (h : Tracks w b q) : Counted w b :=
  ⟨h.block, h.counters, h.room, h.word, Block.Known.refl _⟩

theorem Counted.commit_zero (h : Counted w b) : b.commit w 0 = b := by
  have hcount := h.counters
  have hroom := h.room
  have hword := h.word
  simp only [commit, Nat.add_zero, sizeT_of_lt (show b.size < 2 ^ w by omega),
    sizeT_of_lt (show b.used < 2 ^ w by omega)]

/-- **When `prepare` returns it has changed no counter and no visible cell.** -/
theorem Counted.prepare (h : Counted w b) (hp : b.prepare w n = .ok b') : Counted w b' ∧
    b'.content = b.content ∧ b'.cursor = b.cursor ∧ b'.size = b.size ∧ b'.used = b.used := by
  have hblock := h.block
  have hcount := h.counters
  have hroom := h.room
  obtain ⟨r, hr, ⟨hg, rfl⟩ | ⟨-, rfl⟩⟩ := prepare_cases hp
  · have hslice : (b.realloc r).content = b.content :=
      Block.slice_realloc b.data (show b.cursor + b.size ≤ b.data.size by omega) (show b.cursor + b.size ≤ r by omega)
    exact ⟨⟨rfl, hcount, show b.used ≤ r by omega, (growReserve_exit _ _ _ hr).2 h.word, Block.Known.refl _⟩,
      hslice, rfl, rfl, rfl⟩
  · exact ⟨h, rfl, rfl, rfl, rfl⟩

/-- Cells stored at the fill mark and committed come after the content. -/
theorem Counted.fill {cells : List Cell} (h : Counted w b) (hroom : b.used + cells.length ≤ b.reserve) :
    ∃ b', b.store b.used cells = .ok b' ∧ Counted w (b'.commit w cells.length) ∧
      (b'.commit w cells.length).content = b.content ++ cells := by
  have hblock := h.block
  have hcount := h.counters
  have hword := h.word
  obtain ⟨b', hstore, htrack, -, -⟩ := Tracks.fill h (Block.Known.refl cells) hroom
  refine ⟨b', hstore, htrack.counted, ?_⟩
  obtain ⟨-, rfl⟩ := store_eq_ok hstore
  simp only [content, commit, sizeT_of_lt (show b.size + cells.length < 2 ^ w by omega), Block.slice_append, hcount]
  rw [Block.slice_write_self, Block.slice_write_below _ _ (Nat.le_of_eq hcount)]

/-- **A `write` that returns appends what it was given**: its store was checked, so there was room. -/
theorem Counted.write {cells : List Cell} (h : Counted w b) (hb : b.write w cells = .ok b') :
    Counted w b' ∧ b'.content = b.content ++ cells ∧
      ∃ b₁, b.prepare w cells.length = .ok b₁ ∧ b.used + cells.length ≤ b₁.reserve := by
  obtain ⟨b₁, h₁, hb⟩ := bind_eq_ok.1 hb
  obtain ⟨b₂, h₂, hb⟩ := bind_eq_ok.1 hb
  cases hb
  obtain ⟨hcount, hcontent, -, -, hused⟩ := h.prepare h₁
  have hroom : b₁.used + cells.length ≤ b₁.reserve := by
    rcases (store_eq_ok h₂).1 with hin | rfl
    · exact hcount.block ▸ hin
    · exact hcount.room
  obtain ⟨b₃, h₃, hfill, happend⟩ := hcount.fill hroom
  cases Except.ok.inj (h₂.symm.trans h₃)
  exact ⟨hfill, happend.trans (congrArg (· ++ _) hcontent), b₁, h₁, hused ▸ hroom⟩

end

end Buffer
end V8h
