import V8h.BufferGrowth
import V8h.BufferRead
/-!
# BufferCodec — numbers of a script, through the bytes of a buffer

A typed method of a script converts a JavaScript number to a machine word (`TO_INT32` and so on) before the native
method writes it, and the word that was read back to a number (`V8_INT32` and so on).  `V8_UINT32` takes its word as an
`int32_t`, and `V8_INT64` gives it to `Integer::New`, which takes one: only what fits in an `int32_t` comes back
(`codec_lossless_iff`).
-/
namespace V8h
namespace Buffer

/-- A number of a script: an integer where the method converts to one, else the image of a double. -/
abbrev Kind.Number : Kind → Type
  | .int32 | .uint32 | .int64 => Int
  | .double                   => BitVec 64

/-- `TO_INT32`, `TO_UINT32`, `TO_INT64` and `TO_DOUBLE`. -/
def Kind.toNative : (k : Kind) → k.Number → BitVec k.bits
  | .int32,  n => BitVec.ofInt 32 n
  | .uint32, n => BitVec.ofInt 32 n
  | .int64,  n => BitVec.ofInt 64 n
  | .double, n => n

/-- `V8_INT32`, which makes a `uint32_t` of its argument, and `Int32::New` an `int32_t` of that. -/
def v8Int32 (n : BitVec 32) : Int := n.toInt

/-- `V8_UINT32`, whose parameter is an `int32_t`. -/
def v8Uint32 (n : BitVec 32) : Int := n.toInt

/-- `V8_INT64`: `Integer::New` takes an `int32_t`. -/
def v8Int64 (n : BitVec 64) : Int := (n.setWidth 32).toInt

def v8Double (n : BitVec 64) : BitVec 64 := n

def Kind.ofNative : (k : Kind) → BitVec k.bits → k.Number
  | .int32,  n => v8Int32 n
  | .uint32, n => v8Uint32 n
  | .int64,  n => v8Int64 n
  | .double, n => v8Double n

variable (w : Nat)

/-- `writeInt32`, `writeUint32` and `writeDouble` of a script; `write_int64` is forwarded too, but no property of the
object. -/
def writeNumber (b : Buffer) (k : Kind) (n : k.Number) : Except Trap Buffer := Typed.write w b ⟨k, k.toNative n⟩

/-- `readInt32`, `readUint32`, `readInt64` and `readDouble` of a script. -/
def readNumber (b : Buffer) (k : Kind) : Except Trap (k.Number × Buffer) := do
  let (v, b) ← k.read w b
  return (k.ofNative v, b)

/-- The number comes back. -/
def Lossless (b : Buffer) (k : Kind) (n : k.Number) : Prop :=
  ∃ b₁ b₂, b.writeNumber w k n = .ok b₁ ∧ b₁.readNumber w k = .ok (n, b₂)

/-- A buffer as the constructor and `clear` leave it. -/
structure Empty (b : Buffer) : Prop where
  block  : b.data.size = b.reserve
  cursor : b.cursor = 0
  size   : b.size = 0
  used   : b.used = 0
  word   : b.reserve < 2 ^ w

variable {w}

/-! ## The bytes -/

theorem Empty.holds {b : Buffer} (h : Empty w b) (hpos : 0 < b.reserve) : Holds w b [] := by
  refine ⟨⟨h.block, ?_, ?_, fun _ => ⟨h.cursor, h.used⟩, hpos, h.word⟩, ?_⟩
  · rw [h.cursor, h.size, h.used]
  · rw [h.used]
    exact Nat.zero_le _
  · rw [content, h.size]
    rfl

theorem Typed.write_eq (b : Buffer) (v : Typed) :
    Typed.write w b v = b.write w ((image v.kind.width v.value.toNat).map some) := by
  obtain ⟨k, v⟩ := v
  cases k <;> rfl

/-- **A number that is written is its image**, if the buffer can hold anything. -/
theorem writeNumber_run (hw : 32 ≤ w) {b : Buffer} (h : Empty w b) (hpos : 0 < b.reserve) (k : Kind) (n : k.Number) :
    ∃ b', b.writeNumber w k n = .ok b' ∧ Holds w b' (image k.width (k.toNative n).toNat) := by
  have hpow : 2 ^ 32 ≤ 2 ^ w := Nat.pow_le_pow_right (by decide) hw
  have hwidth := k.width_le
  have hused := h.used
  obtain ⟨b', h₁, hq, -⟩ := write_spec (image k.width (k.toNative n).toNat) (h.holds hpos)
    (fits_of_le (by rw [image_length]; omega))
  exact ⟨b', by rw [writeNumber, Typed.write_eq]; exact h₁, hq⟩

/-- Into a buffer that was constructed with 0 nothing is ever written. -/
theorem writeNumber_reserve (hw : 32 ≤ w) {b b' : Buffer} {k : Kind} {n : k.Number} (h : Empty w b)
    (hrun : b.writeNumber w k n = .ok b') : 0 < b.reserve := by
  rw [writeNumber, Typed.write_eq] at hrun
  obtain ⟨b₁, h₁, -⟩ := bind_eq_ok.1 hrun
  have h₁ : b.prepare w k.width = .ok b₁ := by simpa only [List.length_map, image_length] using h₁
  have hpow : 2 ^ 32 ≤ 2 ^ w := Nat.pow_le_pow_right (by decide) hw
  have hwidth := k.width_le
  have hused := h.used
  refine Nat.pos_of_ne_zero fun hzero => ?_
  have hreach := prepare_within_reach h₁ h.word (show b.used + k.width < 2 ^ w by omega)
  rw [hzero, Tripling.reach_zero] at hreach
  omega

theorem kind_read_run {b : Buffer} {q : List UInt8} {k : Kind} (h : Holds w b q) (hk : k.width ≤ q.length) :
    k.read w b = .ok (BitVec.ofNat k.bits (wordOf (q.take k.width)), b.commit w k.width) := by
  have hsize := h.size_eq
  refine Kind.read_of_load (by omega) ?_ (load_content h (by omega))
  rw [List.length_take]
  omega

theorem ofNat_wordOf_image (k : Kind) (v : BitVec k.bits) :
    BitVec.ofNat k.bits (wordOf ((image k.width v.toNat).take k.width)) = v := by
  rw [List.take_of_length_le (Nat.le_of_eq (image_length _ _)), wordOf_image, k.pow_width, Nat.mod_eq_of_lt v.isLt,
    BitVec.ofNat_toNat, BitVec.setWidth_eq]

/-- **The number that comes back** is the one converted there and back. -/
theorem readNumber_image {b : Buffer} {k : Kind} {v : BitVec k.bits} (h : Holds w b (image k.width v.toNat)) :
    b.readNumber w k = .ok (k.ofNative v, b.commit w k.width) := by
  rw [readNumber, kind_read_run h (Nat.le_of_eq (image_length _ _).symm), ok_bind, ofNat_wordOf_image]
  rfl

theorem lossless_iff (hw : 32 ≤ w) {b : Buffer} (h : Empty w b) (k : Kind) (n : k.Number) :
    Lossless w b k n ↔ 0 < b.reserve ∧ k.ofNative (k.toNative n) = n := by
  constructor
  · rintro ⟨b₁, b₂, h₁, h₂⟩
    have hpos := writeNumber_reserve hw h h₁
    obtain ⟨b', h', hq⟩ := writeNumber_run hw h hpos k n
    obtain rfl := Except.ok.inj (h'.symm.trans h₁)
    rw [readNumber_image hq] at h₂
    exact ⟨hpos, (Prod.mk.inj (Except.ok.inj h₂)).1⟩
  · rintro ⟨hpos, heq⟩
    obtain ⟨b', h', hq⟩ := writeNumber_run hw h hpos k n
    exact ⟨b', _, h', by rw [readNumber_image hq, heq]⟩

/-! ## The numbers -/

theorem toInt_ofInt_32 (n : Int) : (BitVec.ofInt 32 n).toInt = n ↔ -2 ^ 31 ≤ n ∧ n < 2 ^ 31 := by
  rw [BitVec.toInt_ofInt]
  constructor
  · intro h
    have hlt := Int.bmod_lt (x := n) (m := 2 ^ 32) (by decide)
    have hle := Int.le_bmod (x := n) (m := 2 ^ 32) (by decide)
    omega
  · rintro ⟨h0, h1⟩
    exact Int.bmod_eq_of_le (by omega) (by omega)

theorem v8Int64_ofInt (n : Int) : v8Int64 (BitVec.ofInt 64 n) = n ↔ -2 ^ 31 ≤ n ∧ n < 2 ^ 31 := by
  have hmod : ((n % 2 ^ 64).toNat : Int) = n % 2 ^ 64 := Int.toNat_of_nonneg (Int.emod_nonneg n (by decide))
  have hint : v8Int64 (BitVec.ofInt 64 n) = (BitVec.ofInt 32 n).toInt := by
    rw [v8Int64, BitVec.toInt_setWidth, BitVec.toNat_ofInt, BitVec.toInt_ofInt]
    exact (congrArg toInt hmod).trans (toInt_emod (by decide) n)
  rw [hint, toInt_ofInt_32]

/-- **The number codec is lossless exactly for what fits in an `int32_t`**, and for every double, in a buffer that can
hold anything. -/
theorem codec_lossless_iff (hw : 32 ≤ w) {b : Buffer} (h : Empty w b) :
    (∀ n : Int, -2 ^ 31 ≤ n → n < 2 ^ 31 → (Lossless w b .int32 n ↔ 0 < b.reserve)) ∧
    (∀ n : Int, 0 ≤ n → n < 2 ^ 32 → (Lossless w b .uint32 n ↔ 0 < b.reserve ∧ n < 2 ^ 31)) ∧
    (∀ image : BitVec 64, Lossless w b .double image ↔ 0 < b.reserve) ∧
    ∀ v : Int, -2 ^ 53 ≤ v → v ≤ 2 ^ 53 → ∀ src : Buffer, Holds w src (image 8 (BitVec.ofInt 64 v).toNat) →
      ((∃ src', src.readNumber w .int64 = .ok (v, src')) ↔ -2 ^ 31 ≤ v ∧ v < 2 ^ 31) := by
  refine ⟨fun n h0 h1 => ?_, fun n h0 h1 => ?_, fun image => ?_, fun v _ _ src hq => ?_⟩
  · rw [lossless_iff hw h]
    exact and_iff_left ((toInt_ofInt_32 n).2 ⟨h0, h1⟩)
  · rw [lossless_iff hw h]
    refine and_congr_right fun _ => (toInt_ofInt_32 n).trans ?_
    omega
  · rw [lossless_iff hw h]
    exact and_iff_left rfl
  · have hread : src.readNumber w .int64 = .ok (v8Int64 (BitVec.ofInt 64 v), src.commit w 8) :=
      readNumber_image (k := .int64) hq
    rw [hread, ← v8Int64_ofInt]
    constructor
    · rintro ⟨src', h'⟩
      exact (Prod.mk.inj (Except.ok.inj h')).1
    · intro heq
      exact ⟨_, by rw [heq]⟩

theorem empty_new {reserve : Nat} (hw : reserve < 2 ^ w) : Empty w (new reserve) := ⟨rfl, rfl, rfl, rfl, hw⟩

theorem codec_lossless_64 : (Lossless 64 (new 1024) .int32 (-7) ↔ 0 < 1024) ∧
    (Lossless 64 (new 1024) .uint32 7 ↔ 0 < 1024 ∧ (7 : Int) < 2 ^ 31) :=
  ⟨(codec_lossless_iff (by decide) (empty_new (by decide))).1 (-7) (by decide) (by decide),
    (codec_lossless_iff (by decide) (empty_new (by decide))).2.1 7 (by decide) (by decide)⟩

/-- 2 ^ 32 - 1 comes back as -1, and 2 ^ 31 from eight bytes as -2 ^ 31. -/
theorem codec_wraps : ¬ Lossless 64 (new 1024) .uint32 (2 ^ 32 - 1) ∧
    (do return (← (← (new 1024).writeNumber 64 .uint32 (2 ^ 32 - 1)).readNumber 64 .uint32).1) = .ok (-1 : Int) ∧
    (do return (← (Buffer.full (image 8 (2 ^ 31))).readNumber 64 .int64).1) = .ok (-2 ^ 31 : Int) := by
  refine ⟨?_, rfl, rfl⟩
  rw [lossless_iff (by decide) (empty_new (by decide))]
  decide

end Buffer
end V8h
