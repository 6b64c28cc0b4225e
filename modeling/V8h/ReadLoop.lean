import V8h.Lib.Scanner
import V8h.SocketHangup
/-!
# ReadLoop — a script that reads a stream, one read after the other

A script calls `readToken` or `readSize`, takes with `readUtf8` the bytes its callback is told of, and calls the next
read, which may depend on all it has read so far.  What the script does is a `Reader`, and what a `Reader` makes of a
whole stream is its `scanner`: the script is always where the scanner is on the bytes received so far (`run_reads`), so
the chunks they come in do not matter (`chunks_do_not_matter`).
-/
namespace V8h

open Machine Effect Socket

namespace Socket.Want

/-- How many bytes the callback is told of. -/
def length : Want → List UInt8 → Nat
  | token _ D, q => Seek.firstPartial D q + D.length
  | size n,    _ => n

/-- There is something to look for. -/
def Proper : Want → Prop
  | token _ D => D ≠ [] ∧ D.length < 2 ^ 31
  | size _    => True

variable {want : Want} {q : List UInt8}

theorem length_le (h : want.Met q) : want.length q ≤ q.length := by
  cases want with
  | token delim D => exact (Seek.found_iff_occurs D q).2 h
  | size n => exact h

/-- **What comes behind does not change what is told.** -/
theorem length_append (hp : want.Proper) (h : want.Met q) (e : List UInt8) :
    want.length (q ++ e) = want.length q := by
  cases want with
  | size n => rfl
  | token delim D =>
    obtain ⟨i, hi⟩ := Seek.exists_isLeast h
    have hlater := Seek.isLeast_append hp.1 hi e
    simp only [length, Seek.firstPartial_of_isLeast hi, Seek.firstPartial_of_isLeast hlater]

theorem told_eq (callback : Cont) (want : Want) (q : List UInt8) :
    want.told callback q = if want.Met q then some (.invoke callback (want.length q : Nat)) else none := by
  cases want <;> rfl

end Socket.Want

/-- What a script does between its reads: which read it calls next, or none, and what it makes of the text it reads. -/
structure Reader (σ : Type) where
  want   : σ → Option Want
  next   : σ → JsString → σ
  proper : ∀ s w, want s = some w → w.Proper

/-- A process in which a script reads. -/
structure ReadLoop (σ : Type) where
  machine : Machine
  task    : Option Task
  state   : σ

/-- `Service::run` comes to an event, the call left in tail position is made, or the rest of the process goes on. -/
inductive ReadLoop.Input where
  | event (e : Event) (ans : Answers)
  | go
  | other (m : Machine)

/-- The variable a registered closure has captured. -/
def Callback.captured : Callback → Option Nat
  | .readUntil _ _ (.token _ _ last) _ => some last
  | _                                  => none

namespace Reader

variable {σ : Type} [V8] (R : Reader σ)

/-- What the script makes of a stream that is there as a whole. -/
def scanner : Scanner σ UInt8 where
  advance s q := (R.want s).bind fun w =>
    if w.Met q then some (R.next s (V8.fromUtf8 (q.take (w.length q))), q.drop (w.length q)) else none
  grows {s s' q r} e h := by
    obtain ⟨w, hw, h⟩ := Option.bind_eq_some_iff.1 h
    by_cases hmet : w.Met q
    · rw [if_pos hmet] at h
      have hle := Want.length_le hmet
      rw [hw, Option.bind_some, if_pos (hmet.append e), Want.length_append (R.proper s w hw) hmet,
        List.take_append_of_le_length hle, List.drop_append_of_le_length hle]
      obtain ⟨rfl, rfl⟩ := Prod.mk.inj (Option.some.inj h)
      rfl
    · rw [if_neg hmet] at h
      cases h

variable {R} {s : σ} {q : List UInt8} {w : Want}

theorem advance_of_met (hw : R.want s = some w) (h : w.Met q) : R.scanner.advance s q =
    some (R.next s (V8.fromUtf8 (q.take (w.length q))), q.drop (w.length q)) := by
  show (R.want s).bind _ = _
  rw [hw, Option.bind_some, if_pos h]

theorem advance_of_not_met (hw : R.want s = some w) (h : ¬ w.Met q) : R.scanner.advance s q = none := by
  show (R.want s).bind _ = _
  rw [hw, Option.bind_some, if_neg h]

theorem advance_of_stopped (hw : R.want s = none) : R.scanner.advance s q = none := by
  show (R.want s).bind _ = _
  rw [hw, Option.bind_none]

variable (R) (fd : Int) (buffer : Nat) (callback : Cont)

omit [V8] in
/-- The next read is called, or the script stops reading. -/
def proceed (s : σ) : M (Option Task) :=
  match R.want s with
  | none   => return none
  | some w => w.read fd buffer callback

/-- The callback of a read. -/
def onRead (s : σ) (n : Int) : M (Option Task × σ) := do
  let s := R.next s (← Script.readUtf8 buffer n)
  return (← R.proceed fd buffer callback s, s)

/-- A call left in tail position. -/
def call (s : σ) : Task → M (Option Task × σ)
  | .invoke c n => do if c = callback then R.onRead fd buffer callback s n else return (← runCont n c, s)
  | t           => do return (← runTask .silent t, s)

end Reader

namespace ReadLoop

variable {σ : Type} [V8] (R : Reader σ) (fd : Int) (buffer : Nat) (callback : Cont)

def ended : EStateM.Result Stop Machine (Option Task × σ) → Except Stop (ReadLoop σ)
  | .ok (task, s) m => .ok ⟨m, task, s⟩
  | .error e _      => .error e

/-- The first read is called. -/
def start (s : σ) (m : Machine) : Except Stop (ReadLoop σ) :=
  ended ((do return (← R.proceed fd buffer callback s, s) : M (Option Task × σ)) m)

def step (r : ReadLoop σ) : Input → Except Stop (ReadLoop σ)
  | .event e ans =>
    match r.machine.service.callbackOf e with
    | none   => .error (.trap .notCallable)
    | some f => ended ((do return (← runCallback ans f, r.state) : M (Option Task × σ)) r.machine)
  | .go          =>
    match r.task with
    | none   => .ok r
    | some t => ended (R.call fd buffer callback r.state t r.machine)
  | .other m     => .ok { r with machine := m }

/-- The bytes an input brings. -/
def Input.chunk : Input → List UInt8
  | .event _ ans =>
    match ans.recv with
    | .data bytes => bytes
    | .error _    => []
  | .go          => []
  | .other _     => []

/-- The bytes received. -/
def received (is : List Input) : List UInt8 := is.flatMap Input.chunk

/-- How many callbacks of a read an input runs. -/
def Input.reads : Input → Nat
  | .go => 1
  | _   => 0

/-- The bytes received and the callbacks run so far. -/
def tally (t : List UInt8 × Nat) (i : Input) : List UInt8 × Nat := (t.1 ++ i.chunk, t.2 + i.reads)

omit [V8] in
theorem foldl_tally : ∀ (is : List Input) (t : List UInt8 × Nat),
    is.foldl tally t = (t.1 ++ received is, t.2 + (is.map Input.reads).sum)
  | [],      t => by simp [received]
  | i :: is, t => by
    rw [List.foldl_cons, foldl_tally is]
    simp [tally, received, Nat.add_assoc]

/-- A successful read of a non-empty chunk while the script waits, which is no longer than the room `recv` is given; the
call that is left; or anything that leaves the buffers, the registration and the captured variable alone. -/
def Fair (r : ReadLoop σ) : Input → Prop
  | .event e ans => r.task = none ∧ (R.want r.state).isSome ∧ e.fd = fd ∧ e.isError = false ∧
    ∃ bytes b, Delivered ans fd buffer bytes r.machine ∧ (r.machine.heap buffer).native = some b ∧
      b.size + bytes.length < 2 ^ 31 ∧ b.used + bytes.length ≤ 2 ^ 61
  | .go          => r.task.isSome
  | .other m     => r.task = none ∧ (m.heap buffer).native = (r.machine.heap buffer).native ∧
    m.service.fds fd = r.machine.service.fds fd ∧
    (∀ s delim D, R.want s = some (.token delim D) → (m.heap delim).native = (r.machine.heap delim).native) ∧
    ∀ last ∈ (r.machine.service.fds fd).bind Callback.captured, m.vars last = r.machine.vars last

omit [V8] in
/-- The delimiters the script looks for are in buffers of their own. -/
def Equipped (m : Machine) : Prop :=
  ∀ s delim D, R.want s = some (.token delim D) → delim ≠ buffer ∧ m.Stores delim D (2 ^ 61)

/-- The script is where the scanner is after `n` stages of `q`. -/
structure Reads (s₀ : σ) (q : List UInt8) (n : Nat) (rest : List UInt8) (r : ReadLoop σ) : Prop where
  path     : R.scanner.Path n s₀ q r.state rest
  equipped : Equipped R buffer r.machine
  stores   : r.machine.Stores buffer rest (2 ^ 61)
  short    : rest.length < 2 ^ 31
  task     : r.task = (R.want r.state).bind (·.told callback rest)
  waits    : ∀ w, R.want r.state = some w → ¬ w.Met rest → ∃ last, w.Waits fd buffer last callback r.machine rest

variable {R fd buffer callback} {r r' : ReadLoop σ} {s s₀ : σ} {q rest : List UInt8} {n u : Nat} {m m' : Machine}
  {w : Want}

omit [V8] in
theorem Equipped.ready (h : Equipped R buffer m) (hw : R.want s = some w) : w.Ready m := by
  have hp := R.proper s w hw
  cases w with
  | token delim D => exact ⟨(h s delim D hw).2, hp.1, hp.2⟩
  | size n => trivial

omit [V8] in
theorem Equipped.near (h : Equipped R buffer m) (hn : Near buffer m m') : Equipped R buffer m' := by
  intro s delim D hw
  obtain ⟨hne, hst⟩ := h s delim D hw
  exact ⟨hne, hst.congr (by rw [hn.heap delim hne])⟩

/-- **No call is left exactly when the scanner does not go on.** -/
theorem Reads.task_none_iff (h : Reads R fd buffer callback s₀ q n rest r) :
    r.task = none ↔ R.scanner.advance r.state rest = none := by
  rw [h.task]
  cases hw : R.want r.state with
  | none => exact ⟨fun _ => Reader.advance_of_stopped hw, fun _ => rfl⟩
  | some w =>
    rw [Option.bind_some, Want.told_eq]
    by_cases hmet : w.Met rest
    · rw [if_pos hmet, Reader.advance_of_met hw hmet]
      constructor <;> intro h <;> cases h
    · rw [if_neg hmet, Reader.advance_of_not_met hw hmet]
      exact ⟨fun _ => rfl, fun _ => rfl⟩

/-- **The next read is called**, in a state the scanner has come to. -/
theorem reads_of_proceed (fd : Int) (callback : Cont) (hpath : R.scanner.Path n s₀ q s rest) (he : Equipped R buffer m)
    (hs : m.Stores buffer rest (2 ^ 61)) (hlen : rest.length < 2 ^ 31) : ∃ r,
      ended ((do return (← R.proceed fd buffer callback s, s) : M (Option Task × σ)) m) = .ok r ∧ r.state = s ∧
        Reads R fd buffer callback s₀ q n rest r := by
  cases hw : R.want s with
  | none =>
    refine ⟨⟨m, none, s⟩, ?_, rfl, hpath, he, hs, hlen, ?_, ?_⟩
    · simp only [Reader.proceed, hw]
      rfl
    · simp only [hw, Option.bind_none]
    · intro w hw'
      cases hw.symm.trans hw'
  | some w =>
    obtain ⟨m', hrun, hnear, hs', hwaits⟩ := Want.read_run fd callback (he.ready hw) hs (Nat.le_refl _) hlen
    refine ⟨⟨m', w.told callback rest, s⟩, ?_, rfl, hpath, he.near hnear, hs', hlen, ?_, ?_⟩
    · simp only [Reader.proceed, hw]
      rw [bind_ok hrun]
      rfl
    · simp only [hw, Option.bind_some]
    · intro w' hw'
      obtain rfl := Option.some.inj (hw.symm.trans hw')
      exact fun hnot => ⟨_, hwaits hnot⟩

/-- **Bytes arrive.** -/
theorem Reads.event (h : Reads R fd buffer callback s₀ q n rest r) {e : Event} {ans : Answers}
    (hok : r.Fair R fd buffer (.event e ans)) :
    ∃ r', r.step R fd buffer callback (.event e ans) = .ok r' ∧ Reads R fd buffer callback s₀
      (q ++ Input.chunk (.event e ans)) n (rest ++ Input.chunk (.event e ans)) r' := by
  obtain ⟨hnone, hsome, rfl, herr, bytes, b, hd, hb, hlen, hused⟩ := hok
  obtain ⟨w, hw⟩ := Option.isSome_iff_exists.1 hsome
  have hchunk : Input.chunk (.event e ans) = bytes := by simp only [Input.chunk, hd.recv]
  have hnot : ¬ w.Met rest := by
    intro hmet
    have ht := h.task
    rw [hnone, hw, Option.bind_some, Want.told_eq, if_pos hmet] at ht
    cases ht
  obtain ⟨last, hwaits⟩ := h.waits w hw hnot
  obtain ⟨b', hb', hholds, -⟩ := h.stores
  obtain rfl := Option.some.inj (hb.symm.trans hb')
  have hshort : (rest ++ bytes).length < 2 ^ 31 := by
    rw [List.length_append, ← hholds.size_eq]
    exact hlen
  have hs : r.machine.Stores buffer rest b.used := ⟨b, hb, hholds, Nat.le_refl _⟩
  obtain ⟨f, m', hf, hrun, hnear, hs', hwaits'⟩ := Want.arrives ans (h.equipped.ready hw) hwaits hs (by omega) hd hshort
  rw [hchunk]
  refine ⟨⟨m', w.told callback (rest ++ bytes), r.state⟩, ?_, h.path.grows bytes, h.equipped.near hnear,
    hs'.mono hused, hshort, ?_, ?_⟩
  · have hcall : r.machine.service.callbackOf e = some f := by
      rw [Service.callbackOf, herr]
      exact hf
    simp only [step, hcall]
    rw [bind_ok hrun]
    rfl
  · simp only [hw, Option.bind_some]
  · intro w' hw'
    obtain rfl := Option.some.inj (hw.symm.trans hw')
    exact fun _ => ⟨last, hwaits'⟩

/-- **The callback of a read runs**: the scanner goes on by one stage. -/
theorem Reads.go (h : Reads R fd buffer callback s₀ q n rest r) (hok : r.Fair R fd buffer .go) :
    ∃ r' rest', r.step R fd buffer callback .go = .ok r' ∧ Reads R fd buffer callback s₀ q (n + 1) rest' r' := by
  obtain ⟨t, ht⟩ := Option.isSome_iff_exists.1 hok
  have htask := h.task
  cases hw : R.want r.state with
  | none =>
    rw [ht, hw, Option.bind_none] at htask
    cases htask
  | some w =>
    by_cases hmet : w.Met rest
    · rw [ht, hw, Option.bind_some, Want.told_eq, if_pos hmet] at htask
      cases htask
      have hshort := h.short
      obtain ⟨b, hread, hs⟩ := Script.readUtf8_run h.stores (Want.length_le hmet) h.short
      have hlen : (rest.drop (w.length rest)).length < 2 ^ 31 := by
        rw [List.length_drop]
        omega
      obtain ⟨r', hrun, -, hreads⟩ := reads_of_proceed fd callback
        (h.path.trans (.step (Reader.advance_of_met hw hmet) (.refl _ _)))
        (h.equipped.near (near_setBuffer r.machine buffer b)) hs hlen
      refine ⟨r', _, ?_, by rwa [Nat.add_comm] at hreads⟩
      simp only [step, ht, Reader.call, if_true]
      rw [Reader.onRead, bind_ok hread]
      exact hrun
    · rw [ht, hw, Option.bind_some, Want.told_eq, if_neg hmet] at htask
      cases htask

omit [V8] in
theorem captured_of_waits {last delim : Nat} {D : List UInt8}
    (h : (Want.token delim D).Waits fd buffer last callback m rest) :
    last ∈ (m.service.fds fd).bind Callback.captured := by
  rw [Awaiting.fds h]
  rfl

/-- The rest of the process goes on. -/
theorem Reads.other (h : Reads R fd buffer callback s₀ q n rest r) (hok : r.Fair R fd buffer (.other m)) :
    Reads R fd buffer callback s₀ q n rest { r with machine := m } := by
  obtain ⟨-, hbuffer, hfds, hdelims, hlast⟩ := hok
  refine ⟨h.path, ?_, h.stores.congr hbuffer, h.short, h.task, ?_⟩
  · intro s delim D hw
    obtain ⟨hne, hst⟩ := h.equipped s delim D hw
    exact ⟨hne, hst.congr (hdelims s delim D hw)⟩
  · intro w hw hnot
    obtain ⟨last, hwaits⟩ := h.waits w hw hnot
    refine ⟨last, hwaits.congr hbuffer hfds ?_⟩
    cases w with
    | token delim D => exact ⟨hdelims r.state delim D hw, hlast last (captured_of_waits hwaits)⟩
    | size n => trivial

/-- **One step.** -/
theorem step_reads {i : Input} (h : Reads R fd buffer callback s₀ q n rest r) (hok : r.Fair R fd buffer i) :
    ∃ r' rest', r.step R fd buffer callback i = .ok r' ∧
      Reads R fd buffer callback s₀ (q ++ i.chunk) (n + i.reads) rest' r' := by
  cases i with
  | event e ans =>
    obtain ⟨r', hstep, hreads⟩ := h.event hok
    exact ⟨r', _, hstep, hreads⟩
  | go =>
    obtain ⟨r', rest', hstep, hreads⟩ := h.go hok
    refine ⟨r', rest', hstep, ?_⟩
    rwa [show q ++ Input.chunk .go = q from List.append_nil q]
  | other m =>
    refine ⟨_, rest, rfl, ?_⟩
    rw [show q ++ Input.chunk (.other m) = q from List.append_nil q]
    exact h.other hok

/-- **The script follows the scanner**, whatever chunks the stream comes in. -/
theorem run_reads {is : List Input} (h : Reads R fd buffer callback s₀ q n rest r)
    (hok : Run.Along (step R fd buffer callback) (Fair R fd buffer) r is) :
    ∃ r' rest', is.foldlM (step R fd buffer callback) r = .ok r' ∧
      Reads R fd buffer callback s₀ (q ++ received is) (n + (is.map Input.reads).sum) rest' r' := by
  have hstep : ∀ (r : ReadLoop σ) (t : List UInt8 × Nat) i,
      (∃ rest, Reads R fd buffer callback s₀ t.1 t.2 rest r) → Fair R fd buffer r i → ∃ r',
      step R fd buffer callback r i = .ok r' ∧
        ∃ rest, Reads R fd buffer callback s₀ (tally t i).1 (tally t i).2 rest r' := by
    rintro r t i ⟨rest, h⟩ hok
    obtain ⟨r', rest', hs, hreads⟩ := step_reads h hok
    exact ⟨r', hs, rest', hreads⟩
  obtain ⟨r', hrun, rest', hreads⟩ := Run.simulates hstep is r (q, n) ⟨rest, h⟩ hok
  rw [foldl_tally] at hreads
  exact ⟨r', rest', hrun, hreads⟩

/-- **Where the script is when the scanner ends**: when no call is left, it has made one read for each stage. -/
theorem Reads.ends {k : Nat} {rest' : List UInt8} (h : Reads R fd buffer callback s₀ q k rest' r)
    (hpath : R.scanner.Path n s₀ q s rest) (hend : R.scanner.advance s rest = none) :
    k ≤ n ∧ (r.task = none ↔ k = n) ∧ (r.task = none → r.state = s ∧ r.machine.Stores buffer rest (2 ^ 61)) := by
  have hleft : ∃ j, n = j + k ∧ R.scanner.Path j r.state rest' s rest := by
    have h := h.path.rest [] (by rwa [List.append_nil]) hend
    rwa [List.append_nil] at h
  obtain ⟨j, rfl, hj⟩ := hleft
  have hdone : r.task = none → k = j + k ∧ r.state = s ∧ rest' = rest := by
    intro hnone
    exact h.path.unique (h.task_none_iff.1 hnone) hpath hend
  refine ⟨Nat.le_add_left k j, ⟨fun hnone => (hdone hnone).1, ?_⟩, ?_⟩
  · intro hk
    obtain rfl : j = 0 := by omega
    cases hj
    exact h.task_none_iff.2 hend
  · intro hnone
    obtain ⟨-, hs, rfl⟩ := hdone hnone
    exact ⟨hs, h.stores⟩

/-- **A script that reads a stream does what its scanner does on the whole**, whatever chunks the stream comes in: when
no call is left, it has made one read for each stage, it is in the state the scanner ends in, and what the scanner
leaves is in the buffer. -/
theorem chunks_do_not_matter {B : List UInt8} (he : Equipped R buffer m) (hs : m.Stores buffer B (2 ^ 61))
    (hB : B.length < 2 ^ 31) : ∃ r, start R fd buffer callback s₀ m = .ok r ∧
      ∀ is, Run.Along (step R fd buffer callback) (Fair R fd buffer) r is →
        ∃ r', is.foldlM (step R fd buffer callback) r = .ok r' ∧
          ∀ n s rest, R.scanner.Path n s₀ (B ++ received is) s rest → R.scanner.advance s rest = none →
            (is.map Input.reads).sum ≤ n ∧ (r'.task = none ↔ (is.map Input.reads).sum = n) ∧
              (r'.task = none → r'.state = s ∧ r'.machine.Stores buffer rest (2 ^ 61)) := by
  obtain ⟨r, hstart, -, hreads⟩ := reads_of_proceed (R := R) fd callback (.refl s₀ B) he hs hB
  refine ⟨r, hstart, ?_⟩
  intro is hok
  obtain ⟨r', rest', hrun, hreads'⟩ := run_reads hreads hok
  rw [Nat.zero_add] at hreads'
  refine ⟨r', hrun, ?_⟩
  intro n s rest hpath hend
  exact hreads'.ends hpath hend

end ReadLoop

/-! ## Lines -/

namespace Reader

/-- A script that keeps every line it reads, with its end. -/
def lines (delim : Nat) (D : List UInt8) (hD : D ≠ [] ∧ D.length < 2 ^ 31) : Reader (List JsString) where
  want _    := some (.token delim D)
  next ls l := ls ++ [l]
  proper _ w h := by
    obtain rfl := Option.some.inj h
    exact hD

end Reader

/-- A line and the start of another one in one chunk, and the rest of it in the next. -/
theorem ReadLoop.chunks_do_not_matter_lines : ∃ r r',
    start (Reader.lines 0 [10] (by decide)) 5 2 (.user 0) [] (Machine.listening [10]) = .ok r ∧
    [Input.event ⟨5, epollIn⟩ ⟨.data [65, 10, 66], [], none⟩, .go].foldlM
      (@step _ ascii (Reader.lines 0 [10] (by decide)) 5 2 (.user 0)) r = .ok r' ∧
    r'.state = [[65, 10]] ∧ r'.machine.Stores 2 [66] (2 ^ 61) := by
  have hempty : Buffer.Holds 64 (Buffer.new 512) [] := Buffer.new_spec (by decide) (by decide)
  have hdelim : (Machine.listening [10]).Stores 0 [10] (2 ^ 61) :=
    ⟨_, rfl, Buffer.full_holds (by decide) (by decide), by decide⟩
  obtain ⟨r, hr, h⟩ := @chunks_do_not_matter _ ascii (Reader.lines 0 [10] (by decide)) 5 2 (.user 0) []
    (Machine.listening [10]) []
    (by
      intro s delim D hw
      cases hw
      exact ⟨by decide, hdelim⟩) ⟨_, rfl, hempty, by decide⟩ (by decide)
  have hr₀ : r = _ := Except.ok.inj (hr.symm.trans rfl)
  subst hr₀
  obtain ⟨b₁, hprep, hremain⟩ := Buffer.prepare_remain hempty (Buffer.fits_of_le (n := 8192) (by decide))
  obtain ⟨r', hr', hend⟩ := h [.event ⟨5, epollIn⟩ ⟨.data [65, 10, 66], [], none⟩, .go]
    ⟨⟨rfl, rfl, rfl, rfl, [65, 10, 66], _, ⟨rfl, rfl, by decide, _, b₁, rfl, hprep,
        Nat.le_trans (by decide) hremain⟩, rfl, by decide, by decide⟩, by
      intro r₁ hr₁
      cases hr₁
      exact ⟨rfl, fun _ _ => trivial⟩⟩
  obtain ⟨-, hcount, hfinal⟩ := hend 1 [[65, 10]] [66] (.step rfl (.refl _ _)) rfl
  exact ⟨_, r', hr, hr', hfinal (hcount.2 rfl)⟩

end V8h
