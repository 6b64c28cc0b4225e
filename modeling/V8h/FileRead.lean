import V8h.RequireText
/-!
# FileRead — the two `fread` loops

`File::read` and `System::require` compute where `fread` is to store once, before the loop, and each `fread` stores
there: the second overwrites what the first has read, and at the end as many cells are counted that nothing was stored
in.  So a file is read whole exactly when the first `fread` returns all of it (`read_whole_iff`).
-/
namespace V8h

open Buffer

/-- `File::read` of a file that can be opened and read: the bytes `String::New` is given. -/
def File.read (short : Nat → Nat) (content : List UInt8) : Except Trap (List UInt8) := do
  let b ← (Buffer.new 4096).clear.prepare 64 4096
  let (_, b) ← freadLoop short b.used (content.length + 1) 0 content b
  b.peek b.size

/-- The bytes `System::require` gives `Script::New` for such a file. -/
def System.source (short : Nat → Nat) (content : List UInt8) : Except Trap (List UInt8) := do
  let (_, b) ← readFile short content
  scriptText b

variable {short : Nat → Nat} {dest fuel i n : Nat} {rest rest' content q : List UInt8} {b b' : Buffer}

theorem length_fread_le (n : Nat) (rest : List UInt8) (m : Nat) : (fread n rest m).length ≤ m :=
  Nat.le_trans (List.length_take_le ..) (Nat.min_le_left ..)

/-- What is not returned whole is returned short. -/
theorem length_fread_lt (h : fread n rest m ≠ rest) : (fread n rest m).length < rest.length := by
  unfold fread at h ⊢
  rw [List.length_take]
  by_contra hle
  exact h (List.take_of_length_le (by omega))

/-! ## Files that are read at once -/

/-- **The loop ends behind the first `fread`** when that returns the whole file. -/
theorem freadLoop_whole (h : Holds 64 b q) (hall : fread (short 0) content (b.remain 64) = content) :
    ∃ b', freadLoop short b.used (content.length + 1) 0 content b = .ok ([], b') ∧ Holds 64 b' (q ++ content) ∧
      b'.used = b.used + content.length := by
  by_cases hne : content = []
  · subst hne
    exact ⟨b, freadLoop_done hall, by rwa [List.append_nil], rfl⟩
  · have hle := length_fread_le (short 0) content (b.remain 64)
    have hroom := h.room
    rw [hall, Buffer.remain_eq hroom h.word] at hle
    obtain ⟨b₁, hstore, hq, hused⟩ := @Buffer.fill_spec 64 b q content h (by omega)
    refine ⟨_, ?_, hq, hused⟩
    rw [freadLoop_more hall hne hstore, List.drop_length]
    obtain ⟨n, hn⟩ := Nat.exists_eq_succ_of_ne_zero (mt List.length_eq_zero_iff.1 hne)
    rw [hn]
    exact freadLoop_done (by unfold fread; exact List.take_nil)

/-! ## Files that are not -/

/-- From there on nothing was stored. -/
def Blank (u : Nat) (b : Buffer) : Prop := ∀ j, u ≤ j → b.data.cell j = none

/-- Nothing was stored in the last cell that is counted. -/
structure Overlaid (dest : Nat) (b : Buffer) : Prop where
  counted : Counted 64 b
  start   : b.cursor ≤ dest
  below   : dest < b.used
  blank   : Blank (b.used - 1) b

/-- **One more `fread`**, of which the bytes go to `dest`. -/
theorem store_chunk {chunk : List UInt8} (h : Counted 64 b) (hdest : dest ≤ b.used)
    (hlen : chunk.length ≤ b.remain 64) :
    ∃ b', b.store dest (chunk.map some) = .ok b' ∧ Counted 64 (b'.commit 64 chunk.length) ∧
      (b'.commit 64 chunk.length).used = b.used + chunk.length ∧ b'.cursor = b.cursor ∧ b'.reserve = b.reserve ∧
      ∀ u, dest + chunk.length ≤ u → Blank u b → Blank u (b'.commit 64 chunk.length) := by
  have hblock := h.block
  have hcount := h.counters
  have hroom := h.room
  have hword := h.word
  rw [Buffer.remain_eq hroom hword] at hlen
  have hused : sizeT 64 (b.used + chunk.length) = b.used + chunk.length := sizeT_of_lt (by omega)
  have hsize : sizeT 64 (b.size + chunk.length) = b.size + chunk.length := sizeT_of_lt (by omega)
  have hmap : (chunk.map some).length = chunk.length := List.length_map ..
  refine ⟨_, store_ok (by omega), ⟨hblock, ?_, ?_, hword, Block.Known.refl _⟩, hused, rfl, rfl, ?_⟩
  · simp only [commit, hused, hsize]
    omega
  · simp only [commit, hused]
    omega
  · intro u hu hblank j hj
    have hout : ¬ (dest ≤ j ∧ j < dest + (chunk.map some).length) := by omega
    exact (if_neg hout).trans (hblank j hj)

/-- **The rest of the loop** counts cells behind that one. -/
theorem Overlaid.run : ∀ (fuel i : Nat) (rest : List UInt8) {b : Buffer}, Overlaid dest b →
    freadLoop short dest fuel i rest b = .ok (rest', b') → Overlaid dest b' ∧ b'.reserve = b.reserve
  | 0, _, _, _, _, hrun => nomatch hrun
  | fuel + 1, i, rest, b, h, hrun => by
    by_cases hnil : fread (short i) rest (b.remain 64) = []
    · rw [freadLoop_done hnil] at hrun
      cases hrun
      exact ⟨h, rfl⟩
    · have hbelow := h.below
      have hpos := List.length_pos_iff.2 hnil
      obtain ⟨b₁, hstore, hcount, hused, hcursor, hreserve, hblank⟩ :=
        store_chunk h.counted (Nat.le_of_lt h.below) (length_fread_le (short i) rest (b.remain 64))
      rw [freadLoop_more rfl hnil hstore] at hrun
      have hnext : Overlaid dest (b₁.commit 64 (fread (short i) rest (b.remain 64)).length) :=
        ⟨hcount, Nat.le_trans (Nat.le_of_eq hcursor) h.start, by omega,
          hblank _ (by omega) fun j hj => h.blank j (by omega)⟩
      obtain ⟨hover, hreserve'⟩ := Overlaid.run fuel (i + 1) _ hnext hrun
      exact ⟨hover, hreserve'.trans hreserve⟩

theorem Overlaid.not_bytes (h : Overlaid dest b) (bytes : List UInt8) : b.content ≠ bytes.map some := by
  have hcount := h.counted.counters
  have hstart := h.start
  have hbelow := h.below
  have hlast : b.content = b.data.slice b.cursor (b.size - 1) ++ [none] := by
    unfold Buffer.content
    rw [show b.size = b.size - 1 + 1 by omega, Block.slice_append]
    exact congrArg (_ ++ [·]) (h.blank _ (by omega))
  intro heq
  have hmem : none ∈ bytes.map some := by
    rw [← heq, hlast]
    exact List.mem_append_right _ (List.mem_singleton_self _)
  obtain ⟨u, -, hu⟩ := List.mem_map.1 hmem
  cases hu

theorem ne_of_length_lt (bytes : List UInt8) (h : Holds 64 b (q ++ bytes)) (hlt : bytes.length < content.length) :
    b.content ≠ (q ++ content).map some := by
  intro heq
  have hlen := congrArg List.length (h.content.symm.trans heq)
  simp only [List.length_map, List.length_append] at hlen
  omega

/-- **When the first `fread` does not return the whole file**, the loop does not read it. -/
theorem freadLoop_not_whole (h : Holds 64 b q) (hblank : Blank b.used b)
    (hnot : fread (short 0) content (b.remain 64) ≠ content)
    (hrun : freadLoop short b.used (content.length + 1) 0 content b = .ok (rest', b')) :
    Counted 64 b' ∧ b'.reserve = b.reserve ∧ b'.content ≠ (q ++ content).map some := by
  have hcount := h.counters
  have hlt := length_fread_lt hnot
  by_cases hnil : fread (short 0) content (b.remain 64) = []
  · rw [freadLoop_done hnil] at hrun
    cases hrun
    refine ⟨h.tracks.counted, rfl, ne_of_length_lt (q := q) [] (by rwa [List.append_nil]) ?_⟩
    rwa [hnil] at hlt
  · have hle := length_fread_le (short 0) content (b.remain 64)
    have hpos := List.length_pos_iff.2 hnil
    have hroom := h.room
    have hremain : b.remain 64 = b.reserve - b.used := Buffer.remain_eq hroom h.word
    obtain ⟨b₁, hstore, hcount₁, hused₁, hcursor₁, hreserve₁, hblank₁⟩ :=
      store_chunk h.tracks.counted (Nat.le_refl b.used) hle
    obtain ⟨b₂, hstore₂, hholds, -⟩ := @Buffer.fill_spec 64 b q (fread (short 0) content (b.remain 64)) h (by omega)
    cases Except.ok.inj (hstore.symm.trans hstore₂)
    rw [freadLoop_more rfl hnil hstore] at hrun
    generalize fread (short 0) content (b.remain 64) = chunk at *
    obtain ⟨n, hn⟩ := Nat.exists_eq_add_of_lt (Nat.lt_of_le_of_lt (Nat.zero_le _) hlt)
    rw [hn] at hrun
    by_cases hnil₁ : fread (short 1) (content.drop chunk.length) ((b₁.commit 64 chunk.length).remain 64) = []
    · rw [freadLoop_done hnil₁] at hrun
      cases hrun
      exact ⟨hcount₁, hreserve₁, ne_of_length_lt _ hholds hlt⟩
    · -- the second `fread` stores below the fill mark, at `dest`
      have hpos₁ := List.length_pos_iff.2 hnil₁
      obtain ⟨b₂, hstore₂, hcount₂, hused₂, hcursor₂, hreserve₂, hblank₂⟩ := store_chunk hcount₁
        (show b.used ≤ _ by omega) (length_fread_le (short 1) (content.drop chunk.length) _)
      rw [freadLoop_more rfl hnil₁ hstore₂] at hrun
      have hstart : b₂.cursor ≤ b.used := Nat.le_trans (Nat.le_of_eq (hcursor₂.trans hcursor₁)) (by omega)
      have hblank₁' := hblank₁ _ (Nat.le_refl _) fun j hj => hblank j (by omega)
      have hnext : Overlaid b.used (b₂.commit 64 _) :=
        ⟨hcount₂, hstart, by omega, hblank₂ _ (by omega) fun j hj => hblank₁' j (by omega)⟩
      obtain ⟨hover, hreserve⟩ := Overlaid.run _ _ _ hnext hrun
      exact ⟨hover.counted, hreserve.trans (hreserve₂.trans hreserve₁), hover.not_bytes _⟩

/-! ## `File::read` and `System::require` -/

theorem peek_ok_iff {bytes : List UInt8} (h : Counted 64 b) :
    b.peek b.size = .ok bytes ↔ b.content = bytes.map some := by
  have hblock := h.block
  have hcount := h.counters
  have hroom := h.room
  have hload : b.load b.cursor b.size = .ok b.content := by rw [load, Block.load_ok (by omega), content]
  unfold peek
  rw [hload, ok_bind]
  exact ⟨determinate_ok, fun hc => by rw [hc, determinate_map_some]⟩

theorem read_eq (short : Nat → Nat) (content : List UInt8) : File.read short content = (do
    let (_, b) ← freadLoop short 0 (content.length + 1) 0 content (Buffer.new 4096).clear
    b.peek b.size) := by
  rw [File.read, prepare_of_room (by decide) (by decide), ok_bind]
  rfl

theorem read_whole (short : Nat → Nat) (content : List UInt8) :
    File.read short content = .ok content ↔ fread (short 0) content 4096 = content := by
  have hnew : Holds 64 (Buffer.new 4096).clear [] := new_spec (by decide) (by decide)
  rw [read_eq]
  constructor
  · intro hread
    obtain ⟨⟨_, b⟩, hrun, hpeek⟩ := bind_eq_ok.1 hread
    by_contra hnot
    obtain ⟨hcount, -, hne⟩ := freadLoop_not_whole hnew (fun _ _ => rfl) hnot hrun
    exact hne ((peek_ok_iff hcount).1 hpeek)
  · intro hall
    obtain ⟨b, hrun, hq, -⟩ := freadLoop_whole hnew hall
    exact bind_eq_ok.2 ⟨([], b), hrun, (peek_ok_iff hq.tracks.counted).2 hq.content⟩

theorem Blank.store {u pos : Nat} {src : List Cell} (h : Blank u b) (hpos : pos + src.length ≤ u)
    (hs : b.store pos src = .ok b') : Blank u b' := by
  obtain ⟨-, rfl⟩ := store_eq_ok hs
  intro j hj
  have hout : ¬ (pos ≤ j ∧ j < pos + src.length) := by omega
  exact (if_neg hout).trans (h j hj)

theorem Blank.prepare {u : Nat} (h : Blank u b) (hp : b.prepare 64 n = .ok b') : Blank u b' := by
  obtain ⟨r, -, ⟨-, rfl⟩ | ⟨-, rfl⟩⟩ := prepare_cases hp
  · intro j hj
    show (if _ then b.data.cell j else none) = none
    rw [h j hj, ite_self]
  · exact h

/-- What `System::require` has before it reads: the opening, and nothing behind it. -/
theorem prepared_blank : ∃ b, ((do
    let b ← (Buffer.new 1024).clear.write 64 (System.opening.map some)
    b.prepare 64 4096) : Except Trap Buffer) = .ok b ∧
    Holds 64 b System.opening ∧ b.remain 64 = System.room ∧ b.used = 24 ∧ Blank b.used b := by
  obtain ⟨b, hb, hq, hreserve, hused⟩ := System.prepared_spec
  refine ⟨b, hb, hq, by rw [Buffer.remain_eq hq.room hq.word, hreserve, hused, System.room], hused, ?_⟩
  have hnew : Blank 24 (Buffer.new 1024).clear := fun _ _ => rfl
  obtain ⟨b₁, hwrite, hprepare⟩ := bind_eq_ok.1 hb
  obtain ⟨b₂, h₂, hwrite⟩ := bind_eq_ok.1 hwrite
  obtain ⟨b₃, h₃, hwrite⟩ := bind_eq_ok.1 hwrite
  cases hwrite
  have hused₂ : b₂.used = 0 := (Counted.prepare (Tracks.new (by decide)).clear.counted h₂).2.2.2.2
  rw [hused]
  refine Blank.prepare (b := b₃.commit 64 (System.opening.map some).length) ?_ hprepare
  have hlen : b₂.used + (System.opening.map some).length ≤ 24 := by
    rw [hused₂]
    decide
  have hblank : Blank 24 b₃ := (hnew.prepare h₂).store hlen h₃
  exact hblank

/-- A file is read, and the closing written behind it. -/
theorem source_eq (hb : ((do
    let b ← (Buffer.new 1024).clear.write 64 (System.opening.map some)
    b.prepare 64 4096) : Except Trap Buffer) = .ok b) (short : Nat → Nat) (content : List UInt8) :
    System.source short content = (do
      let (_, b) ← freadLoop short b.used (content.length + 1) 0 content b
      System.scriptText b) := by
  obtain ⟨b₁, hwrite, hprepare⟩ := bind_eq_ok.1 hb
  have hopening : (Buffer.new 1024).clear.write 64 ((literal "(function()\x7b;exports=\x7b\x7d;").map some) = .ok b₁ :=
    hwrite
  rw [System.source, System.readFile, hopening, ok_bind, hprepare, ok_bind]

theorem source_whole (short : Nat → Nat) (content : List UInt8) :
    System.source short content = .ok (System.opening ++ content ++ System.closing) ↔
      fread (short 0) content System.room = content := by
  obtain ⟨b, hb, hq, hremain, hused, hblank⟩ := prepared_blank
  have hroom : b.remain 64 = b.reserve - b.used := Buffer.remain_eq hq.room hq.word
  have hclosing : System.closing.length = 30 := by decide
  have hlimit : System.room = 9192 := rfl
  rw [source_eq hb, ← hremain]
  constructor
  · intro hsource
    obtain ⟨⟨_, b'⟩, hrun, hsource⟩ := bind_eq_ok.1 hsource
    obtain ⟨b'', hwrite', hpeek⟩ := bind_eq_ok.1 hsource
    by_contra hnot
    obtain ⟨hcount, -, hne⟩ := freadLoop_not_whole hq hblank hnot hrun
    obtain ⟨hcount', hcontent, -⟩ := hcount.write hwrite'
    rw [(peek_ok_iff hcount').1 hpeek, List.map_append] at hcontent
    exact hne (List.append_cancel_right hcontent).symm
  · intro hall
    obtain ⟨b', hrun, hq', hused'⟩ := freadLoop_whole hq hall
    have hle := length_fread_le (short 0) content (b.remain 64)
    rw [hall] at hle
    obtain ⟨b'', hwrite', hq'', -⟩ := write_spec System.closing hq' (fits_of_le (by omega))
    exact bind_eq_ok.2 ⟨([], b'), hrun, bind_eq_ok.2 ⟨b'', hwrite', (peek_ok_iff hq''.tracks.counted).2 hq''.content⟩⟩

/-- **A file is loaded whole exactly when the first `fread` returns all of it**, which it can for 4096 bytes in
`File::read` and for 9192 bytes in `System::require`. -/
theorem read_whole_iff (short : Nat → Nat) (content : List UInt8) :
    (File.read short content = .ok content ↔ fread (short 0) content 4096 = content) ∧
    (System.source short content = .ok (System.opening ++ content ++ System.closing) ↔
      fread (short 0) content 9192 = content) :=
  ⟨read_whole short content, source_whole short content⟩

/-! ## Files of which no `fread` is short -/

/-- How long each `fread` would be makes no difference. -/
theorem freadLoop_congr {short' : Nat → Nat} (dest : Nat) : ∀ (fuel i : Nat) (rest : List UInt8) (b : Buffer),
    (∀ i, rest.length ≤ short i) → (∀ i, rest.length ≤ short' i) →
    freadLoop short dest fuel i rest b = freadLoop short' dest fuel i rest b
  | 0, _, _, _, _, _ => rfl
  | fuel + 1, i, rest, b, h, h' => by
    have hchunk := fread_full (h i) (b.remain 64)
    have hchunk' := fread_full (h' i) (b.remain 64)
    by_cases hnil : rest.take (b.remain 64) = []
    · rw [freadLoop_done (hchunk.trans hnil), freadLoop_done (hchunk'.trans hnil)]
    · have hdrop : ∀ k, (rest.drop k).length ≤ rest.length := fun k => by rw [List.length_drop]; omega
      cases hstore : b.store dest ((rest.take (b.remain 64)).map some) with
      | error t =>
        obtain ⟨c, cs, htake⟩ := List.exists_cons_of_ne_nil hnil
        rw [htake] at hchunk hchunk' hstore
        rw [freadLoop, freadLoop, hchunk, hchunk']
        simp only [hstore]
        rfl
      | ok b₁ =>
        rw [freadLoop_more hchunk hnil hstore, freadLoop_more hchunk' hnil hstore]
        exact freadLoop_congr dest fuel (i + 1) _ _ (fun i => (hdrop _).trans (h i)) fun i => (hdrop _).trans (h' i)

/-- **Of such a file `File::read` returns 4096 bytes.** -/
theorem read_full (h : ∀ i, content.length ≤ short i) : File.read short content = .ok (content.take 4096) := by
  have hnew : Holds 64 (Buffer.new 4096).clear [] := new_spec (by decide) (by decide)
  obtain ⟨b, hloop, hq, -⟩ := System.freadLoop_spec content hnew h
  have hloop : freadLoop short 0 (content.length + 1) 0 content (Buffer.new 4096).clear =
    .ok (content.drop 4096, b) := hloop
  rw [read_eq, hloop]
  exact (peek_ok_iff hq.tracks.counted).2 hq.content

/-- **Of such a file `System::require` compiles what `readText` says.** -/
theorem source_full (h : ∀ i, content.length ≤ short i) :
    System.readText content none = (System.source short content).map some := by
  have hfile : System.readFile short content = System.readFile (fun _ => content.length) content := by
    unfold System.readFile
    simp only [@freadLoop_congr short (fun _ => content.length) _ _ _ _ _ h fun _ => Nat.le_refl _]
  rw [System.readText, System.source, hfile]
  cases System.readFile (fun _ => content.length) content with
  | error t => rfl
  | ok read =>
    show (do return some (← System.scriptText read.2)) = (System.scriptText read.2).map some
    cases System.scriptText read.2 <;> rfl

/-- **A file of 4097 bytes is cut**, and one that is read byte by byte is not read at all. -/
theorem file_cut : File.read (fun _ => 4097) (List.replicate 4097 65) ≠ .ok (List.replicate 4097 65) ∧
    File.read (fun _ => 1) [65, 66] = .error .indeterminate := by
  refine ⟨?_, by decide +kernel⟩
  rw [read_full fun _ => Nat.le_of_eq List.length_replicate]
  intro h
  have hlen := congrArg List.length (Except.ok.inj h)
  rw [List.length_take, List.length_replicate] at hlen
  cases hlen

end V8h
