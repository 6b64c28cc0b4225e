import V8h.BufferSpec
import V8h.Require
/-!
# RequireText — the text and the directory of a file

`System::require` reads a file into the room its buffer has after one `prepare`, so it takes 9192 bytes of a file and no
more (`readText_eq`).  The directory of an absolute path is what stands before its last slash (`dirname_eq`).
-/
namespace V8h

section

variable {short : Nat → Nat} {dest fuel i n : Nat} {rest : List UInt8} {b b' : Buffer}

/-- The loop ends when the file or the room is used up. -/
theorem freadLoop_done (h : fread (short i) rest (b.remain 64) = []) :
    freadLoop short dest (fuel + 1) i rest b = .ok (rest, b) := by
  rw [freadLoop, h]

theorem freadLoop_more {chunk : List UInt8} (h : fread (short i) rest (b.remain 64) = chunk) (hne : chunk ≠ [])
    (hstore : b.store dest (chunk.map some) = .ok b') : freadLoop short dest (fuel + 1) i rest b =
      freadLoop short dest fuel (i + 1) (rest.drop chunk.length) (b'.commit 64 chunk.length) := by
  obtain ⟨c, cs, rfl⟩ := List.exists_cons_of_ne_nil hne
  rw [freadLoop, h]
  simp only [hstore, ok_bind]

theorem fread_full (h : rest.length ≤ n) (m : Nat) : fread n rest m = rest.take m := by
  unfold fread
  rcases Nat.le_total m (max 1 n) with hm | hm
  · rw [Nat.min_eq_left hm]
  · rw [Nat.min_eq_right hm, List.take_of_length_le (by omega), List.take_of_length_le (by omega)]

end

namespace System

open Buffer

def opening : List UInt8 := literal "(function()\x7b;exports=\x7b\x7d;"

def closing : List UInt8 := literal ";return exports;\x7d).call(this);"

/-- What the buffer has room for. -/
def room : Nat := 9192

/-- The text `Script::New` gets for a file. -/
def wrapped (content : List UInt8) : List UInt8 := opening ++ content.take room ++ closing

theorem prepared_spec : ∃ b, ((do
    let b ← (Buffer.new 1024).clear.write 64 (opening.map some)
    b.prepare 64 4096) : Except Trap Buffer) = .ok b ∧
    Holds 64 b opening ∧ b.reserve = 9216 ∧ b.used = 24 := by
  have hnew : Holds 64 (Buffer.new 1024).clear [] := new_spec (by decide) (by decide)
  obtain ⟨b₁, h1, hq1, hu1⟩ := write_spec opening hnew (fits_of_le (by decide))
  have hu1 : b₁.used = 24 := hu1
  obtain ⟨b₂, h2, hq2, hu2, -⟩ := prepare_spec (n := 4096) hq1 (fits_of_le (by rw [hu1]; decide))
  refine ⟨b₂, by rw [h1, ok_bind, h2], hq2, ?_, hu2.trans hu1⟩
  have hreserve : ((do
      let b ← (Buffer.new 1024).clear.write 64 (opening.map some)
      b.prepare 64 4096) : Except Trap Buffer).toOption.map Buffer.reserve = some 9216 := by decide +kernel
  rw [h1, ok_bind, h2] at hreserve
  exact Option.some.inj hreserve

/-- **The `fread` loop** takes what there is room for, when no `fread` is short. -/
theorem freadLoop_spec {short : Nat → Nat} {q : List UInt8} (content : List UInt8) {b : Buffer} (h : Holds 64 b q)
    (hfull : ∀ i, content.length ≤ short i) :
    ∃ b', freadLoop short b.used (content.length + 1) 0 content b = .ok (content.drop (b.remain 64), b') ∧
      Holds 64 b' (q ++ content.take (b.remain 64)) ∧ b'.used ≤ b.reserve ∧
      b'.remain 64 = b.remain 64 - content.length := by
  have hroom := h.room
  have hremain : b.remain 64 = b.reserve - b.used := Buffer.remain_eq hroom h.word
  have hchunk := fread_full (hfull 0) (b.remain 64)
  by_cases hnil : content.take (b.remain 64) = []
  · have hnone : b.remain 64 = 0 ∨ content = [] := List.take_eq_nil_iff.1 hnil
    refine ⟨b, ?_, by rwa [hnil, List.append_nil], hroom, ?_⟩
    · rw [freadLoop_done (hchunk.trans hnil)]
      rcases hnone with h0 | rfl
      · rw [h0, List.drop_zero]
      · rw [List.drop_nil]
    · rcases hnone with h0 | rfl
      · rw [h0, Nat.zero_sub]
      · rw [List.length_nil, Nat.sub_zero]
  · have hlen : (content.take (b.remain 64)).length = min (b.remain 64) content.length := List.length_take
    have hpos := List.length_pos_iff.2 hnil
    generalize content.take (b.remain 64) = chunk at *
    obtain ⟨b₁, h1, hq1, hu1⟩ := @Buffer.fill_spec 64 b _ chunk h (by omega)
    have hr1 : (b₁.commit 64 chunk.length).reserve = b.reserve := (store_reserve h1 : b₁.reserve = b.reserve)
    have hremain1 : (b₁.commit 64 chunk.length).remain 64 = b.remain 64 - chunk.length := by
      rw [Buffer.remain_eq hq1.room hq1.word, hr1, hu1]
      omega
    have hdrop : content.drop chunk.length = content.drop (b.remain 64) := by
      rw [hlen]
      by_cases hle : b.remain 64 ≤ content.length
      · rw [Nat.min_eq_left hle]
      · rw [Nat.min_eq_right (by omega), List.drop_length, List.drop_eq_nil_of_le (by omega)]
    have hend : fread (short 1) (content.drop chunk.length) ((b₁.commit 64 chunk.length).remain 64) = [] := by
      rw [fread, List.take_eq_nil_iff, hremain1, hlen]
      by_cases hle : b.remain 64 ≤ content.length
      · exact .inl (by omega)
      · exact .inr (List.drop_eq_nil_of_le (by omega))
    refine ⟨_, ?_, hq1, ?_, ?_⟩
    · obtain ⟨n, hn⟩ : ∃ n, content.length = n + 1 := ⟨content.length - 1, by omega⟩
      rw [freadLoop_more hchunk hnil h1, hn, freadLoop_done hend, hdrop]
    · rw [hu1]
      omega
    · rw [hremain1]
      omega

/-- Reading fails before the buffer is full. -/
def Unreadable (content : List UInt8) (failure : Option (List UInt8)) : Prop := failure.isSome ∧ content.length < room

instance (content : List UInt8) (failure : Option (List UInt8)) : Decidable (Unreadable content failure) :=
  inferInstanceAs (Decidable (_ ∧ _))

/-- **What is read of a file.** -/
theorem readText_eq (content : List UInt8) (failure : Option (List UInt8)) : readText content failure =
    .ok (if Unreadable content failure then none else some (wrapped content)) := by
  obtain ⟨b, hb, hq, hreserve, hused⟩ := prepared_spec
  have hremain : b.remain 64 = room := by rw [Buffer.remain_eq hq.room hq.word, hreserve, hused, room]
  obtain ⟨b₁, h1, h2⟩ := bind_eq_ok.1 hb
  obtain ⟨b', hloop, hq', hu', hremain'⟩ := @freadLoop_spec (fun _ => content.length) _ content _ hq fun _ => le_rfl
  have h1 : (Buffer.new 1024).clear.write 64 ((literal "(function()\x7b;exports=\x7b\x7d;").map some) = .ok b₁ := h1
  rw [readText, readFile, h1, ok_bind, h2, ok_bind, hloop, ok_bind]
  simp only [hremain, hremain']
  have hiff : (failure.isSome = true ∧ content.drop room = [] ∧ 0 < room - content.length) ↔
      Unreadable content failure := by
    rw [Unreadable, List.drop_eq_nil_iff, Nat.sub_pos_iff_lt]
    exact ⟨fun h => ⟨h.1, h.2.2⟩, fun h => ⟨h.1, Nat.le_of_lt h.2, h.2⟩⟩
  by_cases hf : Unreadable content failure
  · rw [if_pos (hiff.2 hf), if_pos hf]
    rfl
  · rw [if_neg (mt hiff.1 hf), if_neg hf]
    obtain ⟨b₃, h3, hq3, -⟩ := write_spec closing hq' (fits_of_le (by
      have : closing.length = 30 := by decide
      omega))
    have h3 : b'.write 64 ((literal ";return exports;\x7d).call(this);").map some) = .ok b₃ := h3
    rw [scriptText, h3, ok_bind, peek_spec hq3 (Nat.le_refl _), ok_bind, hq3.size_eq, List.take_length, hremain]
    rfl

end System

/-- An absolute path as `realpath` gives it: what stands before the last slash, which is nothing for a file of the root,
and the name of the file. -/
structure AbsolutePath where
  parent     : List UInt8
  base       : List UInt8
  absolute   : parent = [] ∨ parent.head? = some 47
  noTrailing : parent.getLast? ≠ some 47
  named      : base ≠ []
  noSlash    : 47 ∉ base
  short      : (parent ++ 47 :: base).length < 4096

namespace AbsolutePath

/-- The file of the root with a name of one byte. -/
def ofByte (u : UInt8) (h : u ≠ 47) : AbsolutePath where
  parent     := []
  base       := [u]
  absolute   := .inl rfl
  noTrailing := by simp
  named      := by simp
  noSlash    := by simpa using h.symm
  short      := by simp

theorem a_ne_slash : (97 : UInt8) ≠ 47 := by decide

def bytes (p : AbsolutePath) : List UInt8 := p.parent ++ 47 :: p.base

/-- The directory part of the path. -/
def dir (p : AbsolutePath) : List UInt8 := if p.parent = [] then [47] else p.parent

theorem stripSlashes_eq {path : List UInt8} (h : path.getLast? ≠ some 47) : System.stripSlashes path = path := by
  unfold System.stripSlashes
  cases hr : path.reverse with
  | nil => simpa using hr.symm
  | cons u us =>
    have hu : u ≠ 47 := by
      rintro rfl
      exact h (by rw [List.getLast?_eq_head?_reverse, hr]; rfl)
    rw [List.dropWhile_cons_of_neg (by simpa using hu), ← hr, List.reverse_reverse]

theorem stripSlashes_append_slash (path : List UInt8) :
    System.stripSlashes (path ++ [47]) = System.stripSlashes path := by
  simp [System.stripSlashes]

theorem splitLast_eq {parent base : List UInt8} (h : 47 ∉ base) :
    System.splitLast (parent ++ 47 :: base) = some (parent ++ [47]) := by
  have hdrop : (base.reverse ++ 47 :: parent.reverse).dropWhile (· ≠ 47) = 47 :: parent.reverse := by
    rw [List.dropWhile_append_of_pos]
    · rw [List.dropWhile_cons_of_neg (by simp)]
    · intro u hu
      simpa using fun he : u = 47 => h (he ▸ List.mem_reverse.1 hu)
  have hrev : (parent ++ 47 :: base).reverse = base.reverse ++ 47 :: parent.reverse := by simp
  rw [System.splitLast, if_pos (by simp), hrev, hdrop]
  simp

/-- **`System::dirname` gives the directory part.** -/
theorem dirname_eq (p : AbsolutePath) : System.dirname p.bytes = .ok p.dir := by
  have hlast : p.bytes.getLast? ≠ some 47 := by
    have hb : p.bytes.getLast? = p.base.getLast? := by
      obtain ⟨u, us, hb⟩ := List.exists_cons_of_ne_nil p.named
      rw [bytes, hb, List.getLast?_append_cons, List.getLast?_cons_cons]
    rw [hb]
    exact fun h => p.noSlash (List.mem_of_getLast? h)
  have hname : System.stripSlashes p.bytes = p.bytes := stripSlashes_eq hlast
  have hne : p.bytes ≠ [] := by simp [bytes]
  have hshort : p.bytes.length < 4096 := p.short
  rw [System.dirname, if_pos hshort, System.dirnameInPlace, hname, if_neg hne]
  simp only [bytes, splitLast_eq p.noSlash, stripSlashes_append_slash, stripSlashes_eq p.noTrailing]
  by_cases hp : p.parent = []
  · simp [dir, hp]
  · simp [dir, hp]

end AbsolutePath
end V8h
