import V8h.BufferGrowth
import V8h.BufferLive
/-!
# BufferText — the text writers

`write_utf8` and `write_ascii` reserve, store and commit the same number of bytes.  `write_ucs2` reserves two bytes a
unit, but passes the length -1, with which `String::Write` stores a unit more, and commits what `String::Write` returns,
which counts units: of a text that is not empty half of the bytes become visible, and when the reservation is full the
terminating unit is stored behind it (`text_writers_iff`).
-/
namespace V8h
namespace Buffer

open Tripling

/-- The bytes of the 16-bit units of a text. -/
def ucs2 (text : JsString) : List UInt8 := text.flatMap fun u => image 2 u.toNat

variable (w : Nat)

/-- `Buffer::write_ucs2`: `text->Write(.., 0, -1)` stores the units and a zero unit, and returns their number without
it. -/
def writeUcs2 (b : Buffer) (text : JsString) : Except Trap Buffer := do
  let b ← b.prepare w (text.length * 2)
  let b ← b.store b.used ((ucs2 (text ++ [0])).map some)
  return b.commit w text.length

/-- A writer returns, with every store in the block, and the bytes come after what was in the buffer. -/
def Appends (b : Buffer) (x : Except Trap Buffer) (bytes : List UInt8) : Prop :=
  ∃ b', x = .ok b' ∧ b'.content = b.content ++ bytes.map some

variable {w}

theorem length_ucs2 (text : JsString) : (ucs2 text).length = 2 * text.length := by
  induction text with
  | nil => rfl
  | cons u text ih =>
    rw [ucs2, List.flatMap_cons, List.length_append, image_length, List.length_cons]
    rw [ucs2] at ih
    omega

theorem write_appends_iff {b : Buffer} (h : Counted w b) (bytes : List UInt8) :
    Appends b (b.write w (bytes.map some)) bytes ↔ b.used + bytes.length ≤ reach w b.reserve := by
  rw [← List.length_map (some : UInt8 → Cell), ← h.write_isOk_iff]
  exact ⟨fun ⟨b', hb', _⟩ => ⟨b', hb'⟩, fun ⟨b', hb'⟩ => ⟨b', hb', (h.write hb').2.1⟩⟩

/-- **`write_ucs2` appends no text but the empty one**, and that only when a unit is free behind the fill mark. -/
theorem ucs2_appends_iff {b : Buffer} (h : Counted w b) (text : JsString) :
    Appends b (b.writeUcs2 w text) (ucs2 text) ↔ text = [] ∧ b.used + 2 ≤ b.reserve := by
  have hlen : ((ucs2 (text ++ [0])).map some).length = 2 * text.length + 2 := by
    rw [List.length_map, length_ucs2, List.length_append, List.length_singleton]
    omega
  constructor
  · rintro ⟨b', hb', hcontent⟩
    obtain ⟨b₁, h₁, hb'⟩ := bind_eq_ok.1 hb'
    obtain ⟨b₂, h₂, hb'⟩ := bind_eq_ok.1 hb'
    cases hb'
    obtain ⟨hcount, -, -, hsize, hused⟩ := h.prepare h₁
    obtain ⟨hin, rfl⟩ := store_eq_ok h₂
    -- the units and the zero unit were stored in the block
    have hroom : b₁.used + (2 * text.length + 2) ≤ b₁.reserve := by
      rw [← hlen, ← hcount.block]
      refine hin.resolve_right fun hnil => ?_
      rw [hnil, List.length_nil] at hlen
      omega
    have hword := hcount.word
    have hcounters := hcount.counters
    -- one byte for each unit is visible, two are wanted
    have hvisible := congrArg List.length hcontent
    simp only [content, commit, Block.length_slice, List.length_append, List.length_map, length_ucs2, hsize,
      sizeT_of_lt (show b.size + text.length < 2 ^ w by omega)] at hvisible
    obtain rfl : text = [] := List.length_eq_zero_iff.1 (by omega)
    rw [List.length_nil, Nat.zero_mul, prepare_of_room h.room h.word] at h₁
    cases h₁
    exact ⟨rfl, hroom⟩
  · rintro ⟨rfl, hroom⟩
    let b' : Buffer := { b with data := b.data.write b.used ((ucs2 [0]).map some) }
    have hcontent : b'.content = b.content := Block.slice_write_below _ _ (Nat.le_of_eq h.counters)
    have hcount : Counted w b' := ⟨h.block, h.counters, h.room, h.word, Block.Known.refl _⟩
    refine ⟨b'.commit w 0, ?_, ?_⟩
    · rw [writeUcs2, List.length_nil, Nat.zero_mul, prepare_of_room h.room h.word, ok_bind, List.nil_append,
        store_ok (h.block ▸ hroom)]
      rfl
    · rw [hcount.commit_zero, hcontent]
      exact (List.append_nil _).symm

/-- **UTF-8 and ASCII are appended as far as there is room to be had; the units of a text are not**, `WriteAscii`
storing a byte for each character. -/
theorem text_writers_iff [V8] [AsciiWriter] (hascii : ∀ s : JsString, (AsciiWriter.bytes s).length = s.length)
    {b : Buffer} (h : Counted w b) (text : JsString) :
    (Appends b (b.writeUtf8 w text) (V8.utf8 text) ↔ b.used + (V8.utf8 text).length ≤ reach w b.reserve) ∧
    (Appends b (b.writeAscii w text) (AsciiWriter.bytes text) ↔ b.used + text.length ≤ reach w b.reserve) ∧
    (Appends b (b.writeUcs2 w text) (ucs2 text) ↔ text = [] ∧ b.used + 2 ≤ b.reserve) := by
  have hwrite : b.writeAscii w text = b.write w ((AsciiWriter.bytes text).map some) := by
    rw [writeAscii, write, List.length_map, hascii]
  refine ⟨write_appends_iff h (V8.utf8 text), ?_, ucs2_appends_iff h text⟩
  rw [hwrite, write_appends_iff h, hascii]

theorem text_writers_full :
    (Appends (full [1]) (@writeUtf8 ascii 64 (full [1]) (js "a")) (@V8.utf8 ascii (js "a")) ↔
      (full [1]).used + (@V8.utf8 ascii (js "a")).length ≤ reach 64 (full [1]).reserve) ∧
    (Appends (full [1]) (@writeAscii asciiWriter 64 (full [1]) (js "a")) (@AsciiWriter.bytes asciiWriter (js "a")) ↔
      (full [1]).used + (js "a").length ≤ reach 64 (full [1]).reserve) ∧
    (Appends (full [1]) ((full [1]).writeUcs2 64 (js "a")) (ucs2 (js "a")) ↔
      js "a" = [] ∧ (full [1]).used + 2 ≤ (full [1]).reserve) :=
  @text_writers_iff 64 ascii asciiWriter (fun _ => List.length_map ..) _
    (full_holds (by decide) (by decide)).tracks.counted (js "a")

/-- Of the two bytes of a letter the first becomes visible; the empty text overruns a block that is full. -/
theorem ucs2_halved : ¬ Appends (new 1024) ((new 1024).writeUcs2 64 (js "a")) (ucs2 (js "a")) ∧
    ((new 1024).writeUcs2 64 (js "a")).toOption.map content = some [some 97] ∧ ucs2 (js "a") = [97, 0] ∧
    ¬ Appends (full [1]) ((full [1]).writeUcs2 64 []) (ucs2 []) := by
  refine ⟨?_, by decide +kernel, by decide, ?_⟩
  · rw [ucs2_appends_iff (Tracks.new (by decide)).counted]
    decide
  · rw [ucs2_appends_iff (full_holds (by decide) (by decide)).tracks.counted]
    decide

end Buffer
end V8h
