import V8h.SocketSpec
import V8h.Watch
/-!
# SocketRead — `readToken` and the chunks a stream comes in

The closure of `readToken` resumes its search at `last` whenever bytes arrive.  While the callback has not been called,
`last` is where a search of the whole content would stop (`Reader.last`), so the callback is called when the delimiter
first occurs, with the offset behind its first occurrence.
-/
namespace V8h
namespace Socket

open Machine Effect

variable {m : Machine} {fd : Int} {buffer delim last u u' : Nat} {q D : List UInt8} {callback : Cont}

/-- **The condition of `readToken`** after any search of less of the content. -/
theorem condition_token {q₀ : List UInt8} (h : m.Stores buffer q u) (hd : m.Stores delim D u') (hD : D ≠ [])
    (hlen : q.length < 2 ^ 31) (hpre : q₀ <+: q) (hlast : m.vars last = Seek.firstPartial D q₀) :
    condition buffer (.token delim D.length last) m = .ok (decide (D <:+: q))
      { m with vars := Function.update m.vars last (Seek.firstPartial D q) } := by
  obtain ⟨e, rfl⟩ := hpre
  have hle := Seek.firstPartial_le D q₀
  have hfind := Script.partialFindBuffer_run (Seek.firstPartial D q₀) h hd hD hlen
    (by rw [List.length_append]; omega)
  rw [Seek.firstPartial_resume] at hfind
  have hsize : Script.size buffer { m with vars := Function.update m.vars last (Seek.firstPartial D (q₀ ++ e) : Int) } =
      .ok (q₀ ++ e).length { m with vars := Function.update m.vars last (Seek.firstPartial D (q₀ ++ e) : Int) } :=
    Script.size_run h (by omega)
  have hvar : getVar last m = .ok (Seek.firstPartial D q₀ : Int) m := by rw [getVar, hlast]
  refine (bind_ok hvar).trans
    ((bind_ok hfind).trans ((bind_ok rfl).trans ((bind_ok rfl).trans ((bind_ok hsize).trans ?_))))
  rw [pure_run]
  congr 1
  simp only [Function.update_self, ← Seek.found_iff_occurs, decide_eq_decide]
  omega

/-- What the caller of `readToken` has been told when the content is `q`. -/
def reported (D : List UInt8) (callback : Cont) (q : List UInt8) : Option Task :=
  if D <:+: q then some (.invoke callback (Seek.firstPartial D q + D.length)) else none

theorem reported_of_after {r : List UInt8} (h : Seek.after D q = some r) (callback : Cont) : ∃ a : Nat,
    reported D callback q = some (.invoke callback a) ∧ a ≤ q.length ∧ r = q.drop a := by
  unfold Seek.after at h
  split at h
  · rename_i hin
    cases h
    exact ⟨_, if_pos hin, (Seek.found_iff_occurs D q).2 hin, rfl⟩
  · cases h

/-- **The end of both `readUntil` and its closure**: the condition is looked at, and decides. -/
theorem condition_callBack (callback : Cont) {q₀ : List UInt8} (h : m.Stores buffer q u) (hd : m.Stores delim D u')
    (hD : D ≠ [])
    (hlen : q.length < 2 ^ 31) (hpre : q₀ <+: q) (hlast : m.vars last = Seek.firstPartial D q₀) :
    (do if ← condition buffer (.token delim D.length last) then return some (← callBack (.token D.length last callback))
        else return none : M (Option Task)) m =
      .ok (reported D callback q) { m with vars := Function.update m.vars last (Seek.firstPartial D q) } := by
  refine (bind_ok (condition_token h hd hD hlen hpre hlast)).trans ?_
  unfold reported
  by_cases hf : D <:+: q
  · simp only [hf, decide_true, if_true]
    refine (bind_ok (bind_ok rfl)).trans ?_
    rw [pure_run]
    simp only [Function.update_self]
  · simp only [hf, decide_false, if_false]
    rfl

/-- The state while `readToken` waits for the delimiter: the closure is registered, the buffers are what they are, and
`last` is where a search of the content stops. -/
structure Awaiting (fd : Int) (buffer delim last : Nat) (D : List UInt8) (callback : Cont) (q : List UInt8)
    (m : Machine) :
    Prop where
  ne    : buffer ≠ delim
  bytes : m.Stores buffer q (2 ^ 61 + q.length)
  token : m.Stores delim D (2 ^ 61)
  fds   : m.service.fds fd = some (.readUntil fd buffer (.token delim D.length last) (.token D.length last callback))
  last  : m.vars last = Seek.firstPartial D q

/-- **`readToken` is called.** -/
theorem readToken_run (fd : Int) (callback : Cont) (h : m.Stores buffer q (2 ^ 61)) (hd : m.Stores delim D (2 ^ 61))
    (hD : D ≠ []) (hDlen : D.length < 2 ^ 32) (hlen : q.length < 2 ^ 31) :
    ∃ m', readToken fd buffer delim callback m = .ok (reported D callback q) m' ∧ Near buffer m m' ∧
      (¬ D <:+: q → Awaiting fd buffer delim m.nextVar D callback q m') ∧ m'.heap = m.heap := by
  have hD0 : D.length ≠ 0 := by rwa [Ne, List.length_eq_zero_iff]
  let m₂ : Machine := { m with
    vars := Function.update m.vars m.nextVar 0, nextVar := m.nextVar + 1, service := (m.service.pollIn fd
      (.readUntil fd buffer (.token delim D.length m.nextVar) (.token D.length m.nextVar callback))).1 }
  have hlast : m₂.vars m.nextVar = Seek.firstPartial D [] := Function.update_self ..
  have hstores : m₂.Stores buffer q (2 ^ 61) := h
  have hend := condition_callBack callback hstores hd hD hlen q.nil_prefix hlast
  refine ⟨{ m₂ with vars := Function.update m₂.vars m.nextVar (Seek.firstPartial D q) }, ?_,
    ⟨⟨fun _ _ => rfl, rfl, rfl, rfl⟩, rfl, rfl⟩,
    fun hnot => ⟨?_, h.mono (Nat.le_add_right _ _), hd, ?_, Function.update_self ..⟩, rfl⟩
  · rw [readToken, bind_ok (Script.size_run hd hDlen), if_neg hD0]
    exact (bind_ok rfl).trans ((bind_ok rfl).trans hend)
  · rintro rfl
    exact hnot (h.unique hd ▸ List.infix_rfl)
  · exact (congrFun (Service.pollIn_fds ..) fd).trans (Function.update_self ..)

/-! ## `readSize` -/

/-- `buffer.size() >= size` for a buffer with `length` bytes. -/
def reaches (size : Option Int) (length : Nat) : Bool := size.any fun n => decide (n ≤ (toUint length : Int))

theorem reaches_natCast (n : Nat) {length : Nat} (h : length < 2 ^ 32) :
    reaches (some (n : Int)) length = decide (n ≤ length) := by
  rw [reaches, Option.any_some, toUint_of_lt h]
  exact decide_eq_decide.2 Int.ofNat_le

theorem condition_reaches (h : m.Stores buffer q u) (size : Option Int) :
    condition buffer (.size size) m = .ok (reaches size q.length) m := by
  rw [condition, bind_ok (Script.size_toUint h), pure_run]
  rfl

/-- What the caller of `readSize` has been told when the buffer has `length` bytes. -/
def toldAt (size : Option Int) (callback : Cont) (length : Nat) : Option Task :=
  if reaches size length then some (.invoke callback (size.getD 0)) else none

theorem condition_toldAt (h : m.Stores buffer q u) (size : Option Int) (callback : Cont) :
    (do if ← condition buffer (.size size) then return some (← callBack (.size size callback)) else return none :
      M (Option Task)) m = .ok (toldAt size callback q.length) m := by
  refine (bind_ok (condition_reaches h size)).trans ?_
  unfold toldAt
  cases reaches size q.length <;> rfl

/-- **`readSize` is called**, with any size. -/
theorem readSize_toldAt (fd : Int) (callback : Cont) (h : m.Stores buffer q u) (size : Option Int) :
    ∃ m', readSize fd buffer size callback m = .ok (toldAt size callback q.length) m' ∧ Near buffer m m' ∧
      m'.heap = m.heap ∧ (reaches size q.length = false →
        m'.service.fds fd = some (.readUntil fd buffer (.size size) (.size size callback))) := by
  have hcond := condition_reaches h size
  cases hr : reaches size q.length with
  | true =>
    refine ⟨m, ?_, ⟨⟨fun _ _ => rfl, rfl, rfl, rfl⟩, rfl, rfl⟩, rfl, nofun⟩
    rw [hr] at hcond
    rw [readSize, bind_ok hcond, if_pos rfl, toldAt, hr, if_pos rfl]
    rfl
  | false =>
    let m₂ : Machine := { m with
      service := (m.service.pollIn fd (.readUntil fd buffer (.size size) (.size size callback))).1 }
    have hstores : m₂.Stores buffer q u := h
    refine ⟨m₂, ?_, ⟨⟨fun _ _ => rfl, rfl, rfl, rfl⟩, rfl, rfl⟩, rfl, fun _ => ?_⟩
    · rw [hr] at hcond
      rw [readSize, bind_ok hcond, if_neg Bool.false_ne_true]
      exact (bind_ok rfl).trans (condition_toldAt hstores size callback)
    · exact (congrFun (Service.pollIn_fds ..) fd).trans (Function.update_self ..)

/-! ## `readToken` waits -/

/-- A chunk that `recv` delivers whole. -/
structure Delivered (ans : Answers) (fd : Int) (buffer : Nat) (bytes : List UInt8) (m : Machine) : Prop where
  isOpen : (m.kernel.conn fd).isSome
  recv   : ans.recv = .data bytes
  ne     : bytes ≠ []
  room   : ∃ b b₁, (m.heap buffer).native = some b ∧ b.prepare 64 8192 = .ok b₁ ∧ bytes.length ≤ b₁.remain 64

/-- **Bytes are read** into the buffer. -/
theorem _readBuffer_delivered (ans : Answers) {bytes : List UInt8} (h : m.Stores buffer q u)
    (hu : u ≤ 2 ^ 62) (hd : Delivered ans fd buffer bytes m) (hlen : bytes.length < 2 ^ 31) :
    ∃ b, (m.setBuffer buffer b).Stores buffer (q ++ bytes) (u + bytes.length) ∧
      _readBuffer ans fd buffer m = .ok bytes.length (m.setBuffer buffer b) := by
  obtain ⟨b, hb, hholds, hused⟩ := h
  obtain ⟨c, hconn⟩ := Option.isSome_iff_exists.1 hd.isOpen
  obtain ⟨b', b₁, hb', hprep, hroom⟩ := hd.room
  obtain rfl := Option.some.inj (hb.symm.trans hb')
  obtain ⟨b₁', hprep', -, hread⟩ := _readBuffer_run hb hholds (by omega) hconn hd.recv
  obtain rfl := Except.ok.inj (hprep.symm.trans hprep')
  obtain ⟨b₂, hrun, hq, hused₂⟩ := hread hd.ne
  rw [List.take_of_length_le hroom] at hrun hq hused₂
  rw [toInt_of_lt (by omega) (by omega)] at hrun
  exact ⟨b₂, stores_setBuffer hq (by omega), hrun⟩

/-- **Bytes arrive.** -/
theorem onReadable_run (ans : Answers) {bytes : List UInt8} {cond : Cond} {callback : Closure} (h : m.Stores buffer q u)
    (hu : u ≤ 2 ^ 62) (hd : Delivered ans fd buffer bytes m) (hlen : bytes.length < 2 ^ 31) :
    ∃ b, (m.setBuffer buffer b).Stores buffer (q ++ bytes) (u + bytes.length) ∧
      onReadable ans fd buffer cond callback m =
        (do if ← condition buffer cond then return some (← callBack callback) else return none : M (Option Task))
          (m.setBuffer buffer b) := by
  obtain ⟨b, hs, hrun⟩ := _readBuffer_delivered ans h hu hd hlen
  exact ⟨b, hs, by rw [onReadable, bind_ok hrun, if_neg (by omega)]⟩

theorem onReadable_token (ans : Answers) {bytes : List UInt8}
    (h : Awaiting fd buffer delim last D callback q m) (hs : m.Stores buffer q u) (hu : u ≤ 2 ^ 61 + q.length)
    (hD : D ≠ []) (hlen : (q ++ bytes).length < 2 ^ 31) (hd : Delivered ans fd buffer bytes m) :
    ∃ m', onReadable ans fd buffer (.token delim D.length last) (.token D.length last callback) m =
        .ok (reported D callback (q ++ bytes)) m' ∧ Near buffer m m' ∧
      Awaiting fd buffer delim last D callback (q ++ bytes) m' ∧
      m'.Stores buffer (q ++ bytes) (u + bytes.length) := by
  rw [List.length_append] at hlen
  obtain ⟨b, hs, hrun⟩ := onReadable_run ans hs (by omega) hd (by omega)
  have hdelim : (m.setBuffer buffer b).Stores delim D (2 ^ 61) :=
    h.token.congr (by rw [setBuffer_heap_of_ne _ _ _ h.ne.symm])
  have hend := condition_callBack callback hs hdelim hD (by rwa [List.length_append])
    (List.prefix_append q bytes) h.last
  refine ⟨{ m.setBuffer buffer b with vars := Function.update m.vars last (Seek.firstPartial D (q ++ bytes)) },
    hrun.trans hend, ?_,
    ⟨h.ne, hs.mono (by rw [List.length_append]; omega), hdelim, h.fds, Function.update_self ..⟩, hs⟩
  exact ⟨(around_setBuffer m buffer b).trans ⟨fun _ _ => rfl, rfl, rfl, rfl⟩, rfl, rfl⟩

/-! ## `readSize` of a size the buffer can have -/

/-- What the caller of `readSize` has been told when the content is `q`. -/
def reportedSize (n : Nat) (callback : Cont) (q : List UInt8) : Option Task :=
  if n ≤ q.length then some (.invoke callback n) else none

theorem toldAt_eq_reportedSize (n : Nat) (callback : Cont) (hlen : q.length < 2 ^ 32) :
    toldAt (some (n : Int)) callback q.length = reportedSize n callback q := by
  rw [toldAt, reaches_natCast n hlen, reportedSize, Option.getD_some]
  simp only [decide_eq_true_eq]

theorem condition_callBack_size (n : Nat) (callback : Cont) (h : m.Stores buffer q u) (hlen : q.length < 2 ^ 32) :
    (do if ← condition buffer (.size (some (n : Int))) then return some (← callBack (.size (some (n : Int)) callback))
        else return none : M (Option Task)) m = .ok (reportedSize n callback q) m := by
  rw [condition_toldAt h, toldAt_eq_reportedSize n callback hlen]

/-- **`readSize` is called.** -/
theorem readSize_run (fd : Int) (n : Nat) (callback : Cont) (h : m.Stores buffer q u) (hlen : q.length < 2 ^ 32) :
    ∃ m', readSize fd buffer (some (n : Int)) callback m = .ok (reportedSize n callback q) m' ∧ Near buffer m m' ∧
      m'.Stores buffer q u ∧
      (¬ n ≤ q.length → m'.service.fds fd =
      some (.readUntil fd buffer (.size (some n)) (.size (some n) callback))) := by
  obtain ⟨m', hrun, hnear, hheap, hfds⟩ := readSize_toldAt fd callback h (some (n : Int))
  rw [toldAt_eq_reportedSize n callback hlen] at hrun
  refine ⟨m', hrun, hnear, h.congr (by rw [hheap]), fun hn => hfds ?_⟩
  rw [reaches_natCast n hlen]
  exact decide_eq_false hn

end Socket

namespace Watch

open Machine Socket

variable [V8]

/-- The bytes a turn brings. -/
def chunk : Turn → List UInt8
  | .event _ ans =>
    match ans.recv with
    | .data bytes => bytes
    | .error _    => []
  | .other _     => []

/-- The bytes received. -/
def received (turns : List Turn) : List UInt8 := turns.flatMap chunk

/-- A turn taken while `readToken` waits: a successful read of a non-empty chunk, which is no longer than the room
`recv` is given, or anything that leaves the buffers, the registration and the captured variable alone. -/
def Reading (fd : Int) (buffer delim last : Nat) (w : Watch) : Turn → Prop
  | .event e ans => w.calls = [] ∧ e.fd = fd ∧ e.isError = false ∧ (w.machine.kernel.conn fd).isSome ∧
    ∃ bytes b b₁, ans.recv = .data bytes ∧ bytes ≠ [] ∧ (w.machine.heap buffer).native = some b ∧
      b.prepare 64 8192 = .ok b₁ ∧ bytes.length ≤ b₁.remain 64 ∧ b.size + bytes.length < 2 ^ 31
  | .other m     => (m.heap buffer).native = (w.machine.heap buffer).native ∧
    (m.heap delim).native = (w.machine.heap delim).native ∧
    m.service.fds fd = w.machine.service.fds fd ∧ m.vars last = w.machine.vars last

omit [V8] in
theorem map_fst_calls (r : Option Task) (m : Machine) : (r.toList.map (·, m)).map Prod.fst = r.toList := by
  cases r <;> rfl

/-- What holds while the content is `q`. -/
structure Told (fd : Int) (buffer delim last : Nat) (D : List UInt8) (callback : Cont) (w : Watch) (q : List UInt8) :
    Prop where
  calls    : w.calls.map Prod.fst = (reported D callback q).toList
  awaiting : w.calls = [] → Awaiting fd buffer delim last D callback q w.machine

variable {fd : Int} {buffer delim last : Nat} {D : List UInt8} {callback : Cont}

theorem step_told {w : Watch} {q : List UInt8} {t : Turn} (hD : D ≠ [])
    (h : Told fd buffer delim last D callback w q) (hok : Reading fd buffer delim last w t) :
    ∃ w', w.step t = .ok w' ∧ Told fd buffer delim last D callback w' (q ++ chunk t) := by
  cases t with
  | event e ans =>
    obtain ⟨hnil, rfl, herr, hconn, bytes, b, b₁, hrecv, hne, hb, hprep, hroom, hlen⟩ := hok
    have ha := h.awaiting hnil
    obtain ⟨b', hb', hholds, -⟩ := ha.bytes
    obtain rfl := Option.some.inj (hb.symm.trans hb')
    have hchunk : chunk (.event e ans) = bytes := by rw [chunk, hrecv]
    obtain ⟨m', hrun, -, ha', -⟩ := onReadable_token ans ha ha.bytes (Nat.le_refl _) hD
      (by rw [List.length_append, ← hholds.size_eq]; exact hlen) ⟨hconn, hrecv, hne, b, b₁, hb, hprep, hroom⟩
    have hf : w.machine.service.callbackOf e = w.machine.service.fds e.fd := by rw [Service.callbackOf, herr]; rfl
    refine ⟨⟨m', (reported D callback (q ++ bytes)).toList.map (·, m'), w.pushes ++ pushed w.machine m'⟩, ?_, ?_⟩
    · simp only [step, hf, ha.fds, runCallback]
      rw [hrun, ended, hnil, List.nil_append]
    · rw [hchunk]
      exact ⟨map_fst_calls _ m', fun _ => ha'⟩
  | other m =>
    obtain ⟨h1, h2, h3, h4⟩ := hok
    refine ⟨{ w with machine := m }, rfl, ?_⟩
    rw [show chunk (.other m) = [] from rfl, List.append_nil]
    refine ⟨h.calls, fun hnil => ?_⟩
    have ha := h.awaiting hnil
    exact ⟨ha.ne, ha.bytes.congr h1, ha.token.congr h2, h3.trans ha.fds, h4.trans ha.last⟩

/-- **`readToken` finds the first delimiter, however the stream is cut.**  After any turns taken while it waits, its
callback has been called exactly if the bytes received so far contain the delimiter, and with the offset behind its
first occurrence. -/
theorem readToken_first_call {m : Machine} {B : List UInt8} (hB : m.Stores buffer B (2 ^ 61))
    (hd : m.Stores delim D (2 ^ 61))
    (hD : D ≠ []) (hDlen : D.length < 2 ^ 31) (hBlen : B.length < 2 ^ 31) :
    ∃ w, start (readToken fd buffer delim callback) m = .ok w ∧
      ∀ turns, Run.Along step (Reading fd buffer delim m.nextVar) w turns → ∃ w', turns.foldlM step w = .ok w' ∧
        (¬ D <:+: B ++ received turns → w'.calls = []) ∧
        ∀ i : Nat, IsLeast {i | D <+: (B ++ received turns).drop i} i →
          w'.calls.map Prod.fst = [.invoke callback (i + D.length)] := by
  obtain ⟨m', hrun, -, ha, -⟩ := readToken_run fd callback hB hd hD (by omega) hBlen
  refine ⟨⟨m', (reported D callback B).toList.map (·, m'), pushed m m'⟩,
    by simp only [start, hrun, ended, List.nil_append],
    fun turns hok => ?_⟩
  have htold : Told fd buffer delim m.nextVar D callback
    ⟨m', (reported D callback B).toList.map (·, m'), pushed m m'⟩ B := by
    refine ⟨map_fst_calls _ m', fun hnil => ha fun hf => ?_⟩
    simp only [reported, hf, if_true, Option.toList] at hnil
    cases hnil
  have hstep : ∀ w q t, Told fd buffer delim m.nextVar D callback w q → Reading fd buffer delim m.nextVar w t →
      ∃ w', step w t = .ok w' ∧ Told fd buffer delim m.nextVar D callback w' (q ++ chunk t) :=
    fun w q t h hok => step_told hD h hok
  obtain ⟨w', hw, hR⟩ := Run.simulates hstep turns _ B htold hok
  have hfold : turns.foldl (fun q t => q ++ chunk t) B = B ++ received turns := by
    rw [List.foldl_append_eq_append, received, List.flatMap_def]
  rw [hfold] at hR
  refine ⟨w', hw, fun hnot => ?_, fun i hi => ?_⟩
  · have hnil := hR.calls
    rw [reported, if_neg hnot] at hnil
    exact List.map_eq_nil_iff.1 hnil
  · have hin : D <:+: B ++ received turns := (show D <+: _ from hi.1).isInfix.trans (List.drop_suffix _ _).isInfix
    rw [hR.calls, reported, if_pos hin, Seek.firstPartial_of_isLeast hi]
    rfl

end Watch

/-- The delimiter comes in two pieces. -/
theorem Watch.readToken_first_call_crlf : ∃ w w',
    start (Socket.readToken 5 2 0 (.user 0)) (Machine.listening [13, 10]) = .ok w ∧
    [Turn.event ⟨5, epollIn⟩ ⟨.data [65, 13], [], none⟩,
      Turn.event ⟨5, epollIn⟩ ⟨.data [10, 66], [], none⟩].foldlM (@step ascii) w = .ok w' ∧
    w'.calls.map Prod.fst = [.invoke (.user 0) 3] := by
  have hempty : Buffer.Holds 64 (Buffer.new 512) [] := Buffer.new_spec (by decide) (by decide)
  obtain ⟨w, hw, h⟩ := @readToken_first_call ascii 5 2 0 [13, 10] (.user 0) (Machine.listening [13, 10]) []
    ⟨_, rfl, hempty, by decide⟩ ⟨_, rfl, Buffer.full_holds (by decide) (by decide), by decide⟩ (by decide) (by decide)
    (by decide)
  obtain ⟨b₁, hprep, hremain⟩ := Buffer.prepare_remain hempty (Buffer.fits_of_le (n := 8192) (by decide))
  obtain ⟨w₁, hw₁, h₁⟩ := Run.exists_of_any
    (x := start (Socket.readToken 5 2 0 (.user 0)) (Machine.listening [13, 10]) >>= fun w =>
      @step ascii w (.event ⟨5, epollIn⟩ ⟨.data [65, 13], [], none⟩))
    (p := fun w₁ : Watch => w₁.calls.isEmpty && (w₁.machine.kernel.conn 5).isSome &&
      (w₁.machine.heap 2).native.any fun b => (b.prepare 64 8192).toOption.any fun b₁ =>
        decide (2 ≤ b₁.remain 64 ∧ b.size + 2 < 2 ^ 31)) (by decide +kernel)
  simp only [Bool.and_eq_true, List.isEmpty_iff] at h₁
  rw [hw] at hw₁
  have hw₀ : w = _ := Except.ok.inj (hw.symm.trans rfl)
  subst hw₀
  obtain ⟨⟨hnil, hconn⟩, h₁⟩ := h₁
  obtain ⟨b, hb, h₁⟩ := (Option.any_eq_true _ _).1 h₁
  obtain ⟨b₂, hprep₂, h₁⟩ := Run.exists_of_any h₁
  obtain ⟨hremain₂, hsize⟩ := of_decide_eq_true h₁
  obtain ⟨w', hw', -, hleast⟩ := h [.event ⟨5, epollIn⟩ ⟨.data [65, 13], [], none⟩,
    .event ⟨5, epollIn⟩ ⟨.data [10, 66], [], none⟩] ⟨⟨rfl, rfl, rfl, rfl, _, _, b₁, rfl, by decide, rfl, hprep,
      Nat.le_trans (by decide) hremain, by decide⟩, fun w₂ hw₂ => by
    cases Except.ok.inj (hw₂.symm.trans hw₁)
    exact ⟨⟨hnil, rfl, rfl, hconn, _, b, b₂, rfl, by decide, hb, hprep₂, hremain₂, hsize⟩, fun _ _ => trivial⟩⟩
  refine ⟨_, w', hw, hw', hleast 1 ⟨by decide, fun j hj => ?_⟩⟩
  cases j with
  | zero => exact absurd hj (by decide)
  | succ j => omega

end V8h
