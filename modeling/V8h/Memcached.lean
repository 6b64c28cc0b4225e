import V8h.HttpParts
import V8h.ReadLoop
/-!
# Memcached — `recvMemcachedData` of `examples/memcached_sock.coffee`

The answer to `get` is one block for each value, a line with its length and then so many bytes, and a last line.  The
bytes of a value may contain anything, also what looks like a line.  However the answer is cut, the script reads exactly
the values (`values_read`).
-/
namespace V8h

open Machine Effect Socket

namespace JsString

/-- The decimal numeral of a number. -/
def decimal (n : Nat) : JsString :=
  if n < 10 then [UInt16.ofNat (48 + n)] else decimal (n / 10) ++ [UInt16.ofNat (48 + n % 10)]
termination_by n
decreasing_by omega

theorem digitOf_ofNat : ∀ d < 10, digitOf (UInt16.ofNat (48 + d)) = some d := by decide

/-- Whatever follows a numeral is read after it. -/
theorem digits_decimal (n : Nat) (s : JsString) : digits 10 (decimal n ++ s) none = digits 10 s (some n) := by
  induction n using Nat.strongRecOn generalizing s with
  | ind n ih =>
    rw [decimal]
    by_cases h : n < 10
    · have hd := digitOf_ofNat n h
      rw [if_pos h, List.singleton_append, digits]
      simp only [hd, if_pos h, Option.getD_none, Nat.zero_mul, Nat.zero_add]
    · have hd := digitOf_ofNat (n % 10) (by omega)
      have hsum : n / 10 * 10 + n % 10 = n := by omega
      rw [if_neg h, List.append_assoc, List.singleton_append, ih (n / 10) (by omega), digits]
      simp only [hd, if_pos (Nat.mod_lt n (by decide : 0 < 10)), Option.getD_some, hsum]

def isDigitUnit (u : UInt16) : Bool := 48 ≤ u ∧ u ≤ 57

theorem isDigitUnit_ofNat : ∀ d < 10, isDigitUnit (UInt16.ofNat (48 + d)) = true := by decide

theorem decimal_all (n : Nat) : (decimal n).all isDigitUnit = true := by
  induction n using Nat.strongRecOn with
  | ind n ih =>
    rw [decimal]
    by_cases h : n < 10
    · rw [if_pos h, List.all_cons, isDigitUnit_ofNat n h, List.all_nil, Bool.and_self]
    · rw [if_neg h, List.all_append, ih (n / 10) (by omega), List.all_cons, isDigitUnit_ofNat (n % 10) (by omega),
        List.all_nil, Bool.and_self, Bool.and_self]

theorem decimal_ne_nil (n : Nat) : decimal n ≠ [] := by
  rw [decimal]
  split
  · exact List.cons_ne_nil _ _
  · exact List.append_ne_nil_of_right_ne_nil _ (List.cons_ne_nil _ _)

theorem isSpace_digit {u : UInt16} (h : isDigitUnit u = true) : isSpace u = false ∧ u ≠ 45 ∧ u ≠ 43 ∧ u ≠ 120 ∧
    u ≠ 88 := by
  have hall : ∀ d < 58, isDigitUnit (UInt16.ofNat d) = true → isSpace (UInt16.ofNat d) = false ∧
      UInt16.ofNat d ≠ 45 ∧ UInt16.ofNat d ≠ 43 ∧ UInt16.ofNat d ≠ 120 ∧ UInt16.ofNat d ≠ 88 := by decide
  have hlt : u.toNat < 58 := by
    have := UInt16.le_iff_toNat_le.1 (of_decide_eq_true h).2
    exact Nat.lt_succ_of_le this
  have hu : UInt16.ofNat u.toNat = u := UInt16.ofNat_toNat
  rw [← hu] at h ⊢
  exact hall u.toNat hlt h

/-- **`parseInt` reads a numeral at the start of a line.** -/
theorem parseInt_decimal (n : Nat) : (decimal n ++ js "\r\n").parseInt = some (n : Int) := by
  obtain ⟨u, s, hs⟩ := List.exists_cons_of_ne_nil (decimal_ne_nil n)
  have hall := decimal_all n
  rw [hs, List.all_cons, Bool.and_eq_true] at hall
  obtain ⟨hspace, hminus, hplus, -, -⟩ := isSpace_digit hall.1
  have hdigits := digits_decimal n (js "\r\n")
  have hend : digits 10 (js "\r\n") (some n) = some n := rfl
  rw [hend, hs, List.cons_append] at hdigits
  have hnumber : parseDigits (u :: (s ++ js "\r\n")) = some n := by
    unfold parseDigits
    split
    · rename_i x s' heq
      -- a digit or CR follows the first digit, no `x`
      have hx : x ≠ 120 ∧ x ≠ 88 := by
        cases s with
        | nil =>
          cases heq
          decide
        | cons v s =>
          cases heq
          rw [List.all_cons, Bool.and_eq_true] at hall
          exact (isSpace_digit hall.2.1).2.2.2
      rw [if_neg (not_or.2 hx), ← hdigits, heq]
    · exact hdigits
  have hdrop : (decimal n ++ js "\r\n").dropWhile isSpace = u :: (s ++ js "\r\n") := by
    rw [hs, List.cons_append, List.dropWhile_cons, if_neg (by rw [hspace]; exact Bool.false_ne_true)]
  unfold parseInt
  rw [hdrop]
  split
  · rename_i s' heq
    cases heq
    exact absurd rfl hminus
  · rename_i s' heq
    cases heq
    exact absurd rfl hplus
  · rw [hnumber]
    rfl

end JsString

namespace Memcached

/-- What `recvMemcachedData` reads next.  `stuck` is a length that is no number of bytes: `NaN` is waited for for
ever. -/
inductive Stage where
  | header
  | value (key : JsString) (length : Nat)
  | tail
  | finished
  | stuck
deriving DecidableEq

/-- `values` is what the script has printed: keys, each with the value. -/
structure State where
  stage  : Stage
  values : List (JsString × JsString)
deriving DecidableEq

/-- `length = parseInt(length)`, and the `readSize` that follows. -/
def onLength (key : JsString) : Option Int → Stage
  | some (.ofNat length) => .value key length
  | _                    => .stuck

/-- The callback for a line: `/^VALUE /`, and `[type, key, flags, length] = header.split " "`. -/
def onLine (header : JsString) : Stage :=
  if (js "VALUE ").isPrefixOf header then
    let pieces := header.split (js " ")
    onLength (pieces[1]?.getD []) (pieces[3]?.bind JsString.parseInt)
  else .finished

/-- `headerDelim` is the buffer `delim`.  The bytes behind a value go through `consume`, which takes them as `readUtf8`
does. -/
def recvMemcachedData (delim : Nat) : Reader State where
  want s      :=
    match s.stage with
    | .header | .tail    => some (.token delim crlf)
    | .value _ length    => some (.size length)
    | .finished | .stuck => none
  next s text :=
    match s.stage with
    | .header      => { s with stage := onLine text }
    | .value key _ => ⟨.tail, s.values ++ [(key, text)]⟩
    | .tail        => { s with stage := .header }
    | .finished | .stuck => s
  proper s w h := by
    split at h
    · cases h
      exact ⟨by decide, by decide⟩
    · cases h
      exact ⟨by decide, by decide⟩
    · cases h
      trivial
    · cases h
    · cases h

/-- `VALUE key flags length`. -/
def valueLine (key flags : JsString) (length : Nat) : JsString :=
  js "VALUE" ++ js " " ++ (key ++ js " " ++ (flags ++ js " " ++ (JsString.decimal length ++ js "\r\n")))

/-- A line is there as bytes, and ends with its first `CRLF`. -/
structure IsLine [V8] (line : List UInt8) (text : JsString) : Prop where
  text  : V8.fromUtf8 line = text
  block : IsLeast {i | crlf <+: line.drop i} (line.length - crlf.length)

/-- A value as the server sends it. -/
structure Item [V8] where
  key   : JsString
  flags : JsString
  data  : List UInt8
  line  : List UInt8
  words : 32 ∉ key ∧ 32 ∉ flags
  isLine : IsLine line (valueLine key flags data.length)

variable [V8]

def Item.bytes (item : Item) : List UInt8 := item.line ++ item.data ++ crlf

/-- What the script is to read of it. -/
def Item.value (item : Item) : JsString × JsString := (item.key, V8.fromUtf8 item.data)

/-- An answer: the values, and a line that is none. -/
structure Answer where
  items  : List Item
  last   : List UInt8
  text   : JsString
  isLine : IsLine last text
  other  : ¬ js "VALUE " <+: text

def Answer.bytes (a : Answer) : List UInt8 := a.items.flatMap Item.bytes ++ a.last

variable {delim : Nat} {item : Item} {values : List (JsString × JsString)} {e : List UInt8}

omit [V8] in
theorem onLine_value {key flags : JsString} (length : Nat) (hkey : 32 ∉ key) (hflags : 32 ∉ flags) :
    onLine (valueLine key flags length) = .value key length := by
  have hlast : 32 ∉ JsString.decimal length ++ js "\r\n" := by
    simp only [List.mem_append, not_or]
    refine ⟨fun h => ?_, by decide⟩
    have := List.all_eq_true.1 (JsString.decimal_all length) 32 h
    exact absurd this (by decide)
  have hpieces : (valueLine key flags length).split (js " ") =
      [js "VALUE", key, flags, JsString.decimal length ++ js "\r\n"] := by
    have habsent : ¬ js " " <:+: JsString.decimal length ++ js "\r\n" := fun h =>
      hlast (h.subset (List.mem_singleton_self 32))
    have hvalue : 32 ∉ js "VALUE" := by decide
    show JsString.split (js "VALUE" ++ (32 :: []) ++ (key ++ (32 :: []) ++ (flags ++ (32 :: []) ++ _))) (32 :: []) = _
    rw [JsString.split_cons hvalue, JsString.split_cons hkey, JsString.split_cons hflags]
    exact congrArg (fun l => js "VALUE" :: key :: flags :: l) (JsString.split_of_absent habsent)
  have hprefix : (js "VALUE ").isPrefixOf (valueLine key flags length) = true := by
    rw [List.isPrefixOf_iff_prefix]
    exact List.prefix_append _ _
  rw [onLine, if_pos hprefix, hpieces]
  show onLength key ((JsString.decimal length ++ js "\r\n").parseInt) = _
  rw [JsString.parseInt_decimal]
  rfl

omit [V8] in
theorem onLine_other {text : JsString} (h : ¬ js "VALUE " <+: text) : onLine text = .finished := by
  rw [onLine, if_neg (mt List.isPrefixOf_iff_prefix.1 h)]

/-- A line is taken up to its `CRLF`. -/
theorem met_line (delim : Nat) {line : List UInt8} {text : JsString} (h : IsLine line text) (e : List UInt8) :
    (Want.token delim crlf).Met (line ++ e) ∧ (Want.token delim crlf).length (line ++ e) = line.length := by
  have hat : crlf <+: line.drop (line.length - crlf.length) := h.block.1
  have hin : crlf <:+: line := hat.isInfix.trans (List.drop_suffix _ _).isInfix
  have hle : crlf.length ≤ line.length := hin.length_le
  refine ⟨hin.trans (List.prefix_append line e).isInfix, ?_⟩
  rw [Want.length, Seek.firstPartial_of_isLeast (Seek.isLeast_append (by decide) h.block e)]
  omega

/-- **A block is read** in three reads. -/
theorem path_item (delim : Nat) (item : Item) (values : List (JsString × JsString)) (e : List UInt8) :
    (recvMemcachedData delim).scanner.Path 3 ⟨.header, values⟩ (item.bytes ++ e) ⟨.header, values ++ [item.value]⟩
      e := by
  obtain ⟨hmet, hlength⟩ := met_line delim item.isLine (item.data ++ crlf ++ e)
  have hbytes : item.bytes ++ e = item.line ++ (item.data ++ crlf ++ e) := by
    simp only [Item.bytes, List.append_assoc]
  have hline := Reader.advance_of_met (R := recvMemcachedData delim) (s := ⟨.header, values⟩) rfl hmet
  rw [hlength, List.take_left, List.drop_left, item.isLine.text] at hline
  have hstage : onLine (valueLine item.key item.flags item.data.length) = .value item.key item.data.length :=
    onLine_value item.data.length item.words.1 item.words.2
  have hsize : (Want.size item.data.length).Met (item.data ++ (crlf ++ e)) := by
    show item.data.length ≤ _
    rw [List.length_append]
    exact Nat.le_add_right _ _
  have hvalue := Reader.advance_of_met (R := recvMemcachedData delim)
    (s := ⟨.value item.key item.data.length, values⟩) rfl hsize
  rw [show (Want.size item.data.length).length (item.data ++ (crlf ++ e)) = item.data.length from rfl, List.take_left,
    List.drop_left] at hvalue
  have hcrlf : IsLine crlf (V8.fromUtf8 crlf) := ⟨rfl, by decide, fun _ _ => Nat.zero_le _⟩
  obtain ⟨hmet', hlength'⟩ := met_line delim hcrlf e
  have htail := Reader.advance_of_met (R := recvMemcachedData delim) (s := ⟨.tail, values ++ [item.value]⟩) rfl hmet'
  rw [hlength', List.drop_left] at htail
  rw [hbytes]
  refine .step hline ?_
  show (recvMemcachedData delim).scanner.Path 2 ⟨onLine (valueLine item.key item.flags item.data.length), values⟩ _ _ e
  rw [hstage, List.append_assoc]
  exact .step hvalue (.step htail (.refl _ _))

theorem path_items (delim : Nat) : ∀ (items : List Item) (values : List (JsString × JsString)) (e : List UInt8),
    (recvMemcachedData delim).scanner.Path (3 * items.length) ⟨.header, values⟩ (items.flatMap Item.bytes ++ e)
      ⟨.header, values ++ items.map Item.value⟩ e
  | [], values, e => by
    rw [List.map_nil, List.append_nil]
    exact .refl _ _
  | item :: items, values, e => by
    have h := (path_item delim item values (items.flatMap Item.bytes ++ e)).trans
      (path_items delim items (values ++ [item.value]) e)
    rw [List.flatMap_cons, List.append_assoc, List.map_cons, List.append_cons]
    exact h

/-- **What the script makes of an answer.** -/
theorem path_answer (a : Answer) (e : List UInt8) :
    (recvMemcachedData delim).scanner.Path (3 * a.items.length + 1) ⟨.header, []⟩ (a.bytes ++ e)
      ⟨.finished, a.items.map Item.value⟩ e := by
  obtain ⟨hmet, hlength⟩ := met_line delim a.isLine e
  have hlast := Reader.advance_of_met (R := recvMemcachedData delim) (s := ⟨.header, a.items.map Item.value⟩) rfl hmet
  rw [hlength, List.take_left, List.drop_left, a.isLine.text] at hlast
  have hstep : (recvMemcachedData delim).scanner.Path 1 ⟨.header, a.items.map Item.value⟩ (a.last ++ e)
      ⟨.finished, a.items.map Item.value⟩ e := by
    refine .step hlast ?_
    show (recvMemcachedData delim).scanner.Path 0 ⟨onLine a.text, _⟩ e _ e
    rw [onLine_other a.other]
    exact .refl _ _
  have h := (path_items delim a.items [] (a.last ++ e)).trans hstep
  rw [Answer.bytes, List.append_assoc, Nat.add_comm]
  exact h

/-- **The script reads exactly the values**, in whatever chunks the answer comes, and what comes behind the answer is
left in the buffer. -/
theorem values_read {m : Machine} {fd : Int} {buffer : Nat} {callback : Cont} {B : List UInt8} (hne : delim ≠ buffer)
    (hd : m.Stores delim crlf (2 ^ 61)) (hs : m.Stores buffer B (2 ^ 61)) (hB : B.length < 2 ^ 31) :
    ∃ r, ReadLoop.start (recvMemcachedData delim) fd buffer callback ⟨.header, []⟩ m = .ok r ∧
      ∀ is, Run.Along (ReadLoop.step (recvMemcachedData delim) fd buffer callback)
          (ReadLoop.Fair (recvMemcachedData delim) fd buffer) r is →
        ∃ r', is.foldlM (ReadLoop.step (recvMemcachedData delim) fd buffer callback) r = .ok r' ∧
          ∀ (a : Answer) e, B ++ ReadLoop.received is = a.bytes ++ e →
            (r'.task = none ↔ (is.map ReadLoop.Input.reads).sum = 3 * a.items.length + 1) ∧
              (r'.task = none → r'.state = ⟨.finished, a.items.map Item.value⟩ ∧
                r'.machine.Stores buffer e (2 ^ 61)) := by
  have he : ReadLoop.Equipped (recvMemcachedData delim) buffer m := by
    intro s delim' D hw
    obtain ⟨stage, values⟩ := s
    cases stage <;> cases hw <;> exact ⟨hne, hd⟩
  obtain ⟨r, hstart, -, hreads⟩ := ReadLoop.reads_of_proceed fd callback
    (.refl (⟨.header, []⟩ : State) B) he hs hB
  refine ⟨r, hstart, ?_⟩
  intro is hok
  obtain ⟨r', rest', hrun, hreads'⟩ := ReadLoop.run_reads hreads hok
  rw [Nat.zero_add] at hreads'
  refine ⟨r', hrun, ?_⟩
  intro a e hbytes
  rw [hbytes] at hreads'
  exact (hreads'.ends (path_answer a e) (Reader.advance_of_stopped rfl)).2

end Memcached

open Memcached ReadLoop

/-- The bytes of an ASCII text. -/
def asciiBytes (s : String) : List UInt8 := (js s).map UInt16.toUInt8

theorem isLine_of_crlf {x : List UInt8} {text : JsString} (h13 : 13 ∉ x)
    (htext : (@V8.fromUtf8 ascii (x ++ crlf)) = text) : @IsLine ascii (x ++ crlf) text := by
  refine @IsLine.mk ascii _ _ htext ?_
  have h := Seek.isLeast_of_not_mem h13 [10] []
  rw [List.append_nil] at h
  rwa [List.length_append, Nat.add_sub_cancel]

/-- A value that is a `CRLF`. -/
def crlfItem : @Item ascii :=
  @Item.mk ascii (js "a") (js "0") crlf (asciiBytes "VALUE a 0 2" ++ crlf) (by decide)
    (isLine_of_crlf (by decide) (by rw [valueLine, show crlf.length = 2 from rfl, JsString.decimal]; rfl))

def crlfAnswer : @Answer ascii :=
  @Answer.mk ascii [crlfItem] (asciiBytes "END" ++ crlf) (js "END\r\n") (isLine_of_crlf (by decide) rfl) (by decide)

theorem Memcached.values_read_crlf : ∃ r r',
    ReadLoop.start (recvMemcachedData 0) 5 2 (.user 0) ⟨.header, []⟩ (Machine.listening crlf) = .ok r ∧
    [.event ⟨5, epollIn⟩ ⟨.data (@Answer.bytes ascii crlfAnswer ++ [65]), [], none⟩, .go, .go, .go, .go].foldlM
      (@ReadLoop.step _ ascii (recvMemcachedData 0) 5 2 (.user 0)) r = .ok r' ∧
    r'.state = ⟨.finished, [(js "a", js "\r\n")]⟩ ∧ r'.machine.Stores 2 [65] (2 ^ 61) := by
  have hempty : Buffer.Holds 64 (Buffer.new 512) [] := Buffer.new_spec (by decide) (by decide)
  obtain ⟨r, hr, h⟩ := @values_read ascii 0 (Machine.listening crlf) 5 2 (.user 0) [] (by decide)
    ⟨_, rfl, Buffer.full_holds (by decide) (by decide), by decide⟩ ⟨_, rfl, hempty, by decide⟩ (by decide)
  have hr₀ : r = _ := Except.ok.inj (hr.symm.trans rfl)
  subst hr₀
  obtain ⟨b₁, hprep, hremain⟩ := Buffer.prepare_remain hempty (Buffer.fits_of_le (n := 8192) (by decide))
  obtain ⟨r', hr', hend⟩ := h [.event ⟨5, epollIn⟩ ⟨.data (@Answer.bytes ascii crlfAnswer ++ [65]), [], none⟩, .go, .go,
      .go, .go]
    ⟨⟨rfl, rfl, rfl, rfl, _, _, ⟨rfl, rfl, by decide, _, b₁, rfl, hprep,
        Nat.le_trans (by decide) hremain⟩, rfl, by decide, by decide⟩, by
      intro r₁ hr₁
      cases hr₁
      refine ⟨rfl, ?_⟩
      intro r₂ hr₂
      cases hr₂
      refine ⟨rfl, ?_⟩
      intro r₃ hr₃
      cases hr₃
      refine ⟨rfl, ?_⟩
      intro r₄ hr₄
      cases hr₄
      exact ⟨rfl, fun _ _ => trivial⟩⟩
  obtain ⟨hcount, hfinal⟩ := hend crlfAnswer [65] rfl
  exact ⟨_, r', hr, hr', hfinal (hcount.2 rfl)⟩

end V8h
