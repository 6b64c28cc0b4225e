import V8h.BufferSpec
/-!
# BufferRead — typed reads after typed writes

`Buffer::read` ends with `commit(size)` where `read_utf8` ends with `consume(n)`: it appends what it should drop.  So a
typed read removes nothing (`readWord_size`), and a round trip of typed writes and reads holds of the empty sequence
only (`typed_round_trip_iff`).
-/
namespace V8h
namespace Buffer

/-- The types `buffer.cc` writes and reads. -/
inductive Kind where
  | int32
  | uint32
  | int64
  | double
deriving DecidableEq

/-- The bytes of a value. -/
def Kind.width : Kind → Nat
  | .int32 | .uint32 => 4
  | .int64 | .double => 8

abbrev Kind.bits : Kind → Nat
  | .int32 | .uint32 => 32
  | .int64 | .double => 64

/-- A value of one of the types, as its bits. -/
structure Typed where
  kind  : Kind
  value : BitVec kind.bits

variable (w : Nat)

def Typed.write (b : Buffer) : Typed → Except Trap Buffer
  | ⟨.int32, v⟩  => b.writeInt32 w v
  | ⟨.uint32, v⟩ => b.writeUint32 w v
  | ⟨.int64, v⟩  => b.writeInt64 w v
  | ⟨.double, v⟩ => b.writeDouble w v

def Kind.read (b : Buffer) : (k : Kind) → Except Trap (BitVec k.bits × Buffer)
  | .int32  => b.readInt32 w
  | .uint32 => b.readUint32 w
  | .int64  => b.readInt64 w
  | .double => b.readDouble w

/-- Reading the values back one by one: each read returns its value and removes exactly its bytes, and the last one
leaves the buffer empty. -/
def ReadsBack (b : Buffer) : List Typed → Prop
  | []      => b.content = []
  | v :: vs => ∃ b', v.kind.read w b = .ok (v.value, b') ∧ b'.size + v.kind.width = b.size ∧
      b'.content = b.content.drop v.kind.width ∧ ReadsBack b' vs

/-- The values written to an empty buffer are read back. -/
def RoundTrip (reserve : Nat) (vs : List Typed) : Prop :=
  ∃ b, vs.foldlM (Typed.write w) (new reserve) = .ok b ∧ ReadsBack w b vs

/-- `read(dest, n)` returns the first `min n size` bytes and drops them. -/
def ReadDrops (b : Buffer) (q : List UInt8) (n : Nat) : Prop :=
  ∃ b', b.read w n = .ok ((q.take n).map some, b') ∧ b'.content = (q.drop n).map some

variable {w}

/-- **A read appends as many bytes as it returns.** -/
theorem read_ok {b b' : Buffer} {n : Nat} {dest : List Cell} (h : b.read w n = .ok (dest, b')) :
    dest.length = min n b.size ∧ b' = b.commit w (min n b.size) := by
  obtain ⟨cells, hl, hr⟩ := bind_eq_ok.1 h
  cases hr
  exact ⟨load_length hl, rfl⟩

/-- A word read in full is read from a buffer that holds it, which then holds as much again. -/
theorem readWord_ok {n k : Nat} {b b' : Buffer} {v : BitVec n} (h : b.readWord w n k = .ok (v, b')) :
    k ≤ b.size ∧ b'.size = sizeT w (b.size + k) := by
  obtain ⟨⟨dest, b₁⟩, hread, h⟩ := bind_eq_ok.1 h
  obtain ⟨bytes, hdet, h⟩ := bind_eq_ok.1 h
  cases h
  obtain ⟨hlen, rfl⟩ := read_ok hread
  have hk : k ≤ b.size := by
    refine Nat.le_of_not_lt fun hlt => ?_
    have hmem : (none : Cell) ∈ dest ++ List.replicate (k - dest.length) none :=
      List.mem_append_right _ (List.mem_replicate.2 ⟨by omega, rfl⟩)
    rw [determinate_ok hdet] at hmem
    obtain ⟨x, -, hx⟩ := List.mem_map.1 hmem
    cases hx
  rw [Nat.min_eq_left hk]
  exact ⟨hk, rfl⟩

theorem kind_read_ok {b b' : Buffer} {k : Kind} {v : BitVec k.bits} (h : k.read w b = .ok (v, b')) :
    k.width ≤ b.size ∧ b'.size = sizeT w (b.size + k.width) := by
  cases k <;> exact readWord_ok h

theorem Kind.read_eq (k : Kind) (b : Buffer) : k.read w b = b.readWord w k.bits k.width := by cases k <;> rfl

theorem Kind.pow_width (k : Kind) : 256 ^ k.width = 2 ^ k.bits := by cases k <;> rfl

/-- **A typed read returns the word its bytes spell**, and leaves as many more to be read. -/
theorem Kind.read_of_load {k : Kind} {b : Buffer} {bytes : List UInt8} (hk : k.width ≤ b.size)
    (hlen : bytes.length = k.width) (hload : b.load b.cursor k.width = .ok (bytes.map some)) :
    k.read w b = .ok (BitVec.ofNat k.bits (wordOf bytes), b.commit w k.width) := by
  have hread : b.read w k.width = .ok (bytes.map some, b.commit w k.width) := by
    rw [Buffer.read, Nat.min_eq_left hk, hload]
    rfl
  rw [k.read_eq, readWord, hread, ok_bind]
  simp only [List.length_map, hlen, Nat.sub_self, List.replicate_zero, List.append_nil, determinate_map_some, ok_bind]
  rfl

theorem Kind.width_le (k : Kind) : 4 ≤ k.width ∧ k.width ≤ 8 := by cases k <;> decide

/-- **No typed read gives its bytes up**: only the empty sequence is read back. -/
theorem ReadsBack.eq_nil (hw : 32 ≤ w) {b : Buffer} {vs : List Typed} (h : ReadsBack w b vs) : vs = [] := by
  cases vs with
  | nil => rfl
  | cons v vs =>
    obtain ⟨b', hread, hsize, -, -⟩ := h
    obtain ⟨hle, hb'⟩ := kind_read_ok hread
    have hk := v.kind.width_le
    have hpow : 2 ^ 32 ≤ 2 ^ w := Nat.pow_le_pow_right (by decide) hw
    -- the new size is `size + width` up to a multiple of `2 ^ w`, so `2 * width` would be one
    have hdiv := Nat.mod_add_div (b.size + v.kind.width) (2 ^ w)
    rw [hb', sizeT] at hsize
    rcases Nat.eq_zero_or_pos ((b.size + v.kind.width) / 2 ^ w) with h0 | hpos
    · rw [h0, Nat.mul_zero] at hdiv
      omega
    · have := Nat.le_mul_of_pos_right (2 ^ w) hpos
      omega

theorem roundTrip_nil {reserve : Nat} : RoundTrip w reserve [] := ⟨new reserve, rfl, rfl⟩

/-- **`read` drops what it returns exactly when it returns nothing.** -/
theorem readDrops_iff {b : Buffer} {q : List UInt8} {n : Nat} (h : Holds w b q)
    (hno : b.used + min n q.length < 2 ^ w) :
    ReadDrops w b q n ↔ min n q.length = 0 := by
  have hsize := h.size_eq
  have hcount := h.counters
  constructor
  · rintro ⟨b', hread, hcontent⟩
    obtain ⟨-, rfl⟩ := read_ok hread
    have hlen : (b.commit w (min n b.size)).size = q.length - n := by
      simpa [content] using congrArg List.length hcontent
    simp only [commit, sizeT_of_lt (show b.size + min n b.size < 2 ^ w by omega)] at hlen
    omega
  · intro h0
    have hmin : min n b.size = 0 := by omega
    have hq : q.take n = [] ∧ q.drop n = q := by
      rcases Nat.min_eq_zero_iff.1 h0 with rfl | hq
      · exact ⟨rfl, rfl⟩
      · rw [List.length_eq_zero_iff.1 hq]
        exact ⟨List.take_nil, List.drop_nil⟩
    refine ⟨b, ?_, ?_⟩
    · rw [hq.1, read, hmin, load_content h (Nat.zero_le _), ok_bind, h.tracks.counted.commit_zero]
      rfl
    · rw [hq.2, h.content]

/-- **Typed reads undo typed writes for no sequence but the empty one**, and `read` drops the bytes it returns only when
it returns none. -/
theorem typed_round_trip_iff (hw : 32 ≤ w) :
    (∀ (reserve : Nat) (vs : List Typed), 1 ≤ reserve → (RoundTrip w reserve vs ↔ vs = [])) ∧
    ∀ (b : Buffer) (q : List UInt8) (n : Nat), Holds w b q → b.used + min n q.length < 2 ^ w →
      (ReadDrops w b q n ↔ n = 0 ∨ q = []) := by
  refine ⟨fun reserve vs _ => ⟨?_, ?_⟩, fun b q n h hno => ?_⟩
  · rintro ⟨b, -, h⟩
    exact h.eq_nil hw
  · rintro rfl
    exact roundTrip_nil
  · rw [readDrops_iff h hno, Nat.min_eq_zero_iff, List.length_eq_zero_iff]

theorem typed_round_trip_64 : (RoundTrip 64 1024 [⟨.int32, 1⟩] ↔ [⟨.int32, 1⟩] = ([] : List Typed)) ∧
    (ReadDrops 64 (new 1024) [] 4 ↔ 4 = 0 ∨ ([] : List UInt8) = []) :=
  ⟨(typed_round_trip_iff (by decide)).1 1024 _ (by decide),
    (typed_round_trip_iff (by decide)).2 _ _ _ (new_spec (by decide) (by decide)) (by decide)⟩

/-- 1 and 2 written, then read: the second read returns 1 again. -/
theorem second_read_repeats : ¬ RoundTrip 64 1024 [⟨.int32, 1⟩, ⟨.int32, 2⟩] ∧
    (do
      let b ← [⟨.int32, 1⟩, ⟨.int32, 2⟩].foldlM (Typed.write 64) (new 1024)
      let (_, b) ← b.readInt32 64
      let (v, _) ← b.readInt32 64
      return v : Except Trap (BitVec 32)) = .ok 1 := by
  refine ⟨fun ⟨_, _, h⟩ => ?_, rfl⟩
  cases h.eq_nil (by decide)

end Buffer
end V8h
