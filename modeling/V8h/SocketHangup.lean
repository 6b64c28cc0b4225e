import V8h.SocketRead
/-!
# SocketHangup — the last data and the hangup in one event

`Service::run` looks at the mask for `EPOLLERR` and `EPOLLHUP` before anything else and calls what is in `fds_error`,
also when the same event says that there is data to read: those bytes are not received.  So a pending read is told of
what came with the events before, and of no more (`told_before_failure_iff`).
-/
namespace V8h
namespace Socket

open Machine Effect

/-- What a read waits for: a delimiter, which is in a buffer, or a number of bytes. -/
inductive Want where
  | token (delim : Nat) (D : List UInt8)
  | size (n : Nat)

namespace Want

def Met : Want → List UInt8 → Prop
  | token _ D, q => D <:+: q
  | size n,    q => n ≤ q.length

instance (want : Want) (q : List UInt8) : Decidable (want.Met q) :=
  match want with
  | token _ D => inferInstanceAs (Decidable (D <:+: q))
  | size n    => inferInstanceAs (Decidable (n ≤ q.length))

/-- `Socket.readToken` and `Socket.readSize`. -/
def read (fd : Int) (buffer : Nat) (callback : Cont) : Want → M (Option Task)
  | token delim _ => readToken fd buffer delim callback
  | size n        => readSize fd buffer (some (n : Int)) callback

/-- The delimiter is in its buffer. -/
def Ready (m : Machine) : Want → Prop
  | token delim D => m.Stores delim D (2 ^ 61) ∧ D ≠ [] ∧ D.length < 2 ^ 31
  | size _        => True

/-- The read is pending, with the content `q`. -/
def Waits (fd : Int) (buffer last : Nat) (callback : Cont) (m : Machine) (q : List UInt8) : Want → Prop
  | token delim D => Awaiting fd buffer delim last D callback q m
  | size n        => m.Stores buffer q (2 ^ 61 + q.length) ∧
    m.service.fds fd = some (.readUntil fd buffer (.size (some (n : Int))) (.size (some (n : Int)) callback))

/-- What else the read goes by is left alone. -/
def Untouched (last : Nat) (m m' : Machine) : Want → Prop
  | token delim _ => (m'.heap delim).native = (m.heap delim).native ∧ m'.vars last = m.vars last
  | size _        => True

/-- What the callback has been told when the content is `q`. -/
def told (callback : Cont) : Want → List UInt8 → Option Task
  | token _ D, q => reported D callback q
  | size n,    q => reportedSize n callback q

variable {fd : Int} {buffer last u : Nat} {callback : Cont} {m : Machine} {q : List UInt8} {want : Want}

theorem Met.append {q : List UInt8} (h : want.Met q) (bytes : List UInt8) : want.Met (q ++ bytes) := by
  cases want with
  | token delim D => exact List.IsInfix.trans h (List.prefix_append q bytes).isInfix
  | size n =>
    simp only [Met, List.length_append] at h ⊢
    omega

theorem told_of_met (callback : Cont) (h : want.Met q) : ∃ n, want.told callback q = some (.invoke callback n) := by
  cases want with
  | token delim D => exact ⟨_, if_pos h⟩
  | size n => exact ⟨_, if_pos h⟩

theorem told_of_not_met (h : ¬ want.Met q) : want.told callback q = none := by
  cases want with
  | token delim D => exact if_neg h
  | size n => exact if_neg h

theorem Waits.stores (h : want.Waits fd buffer last callback m q) : m.Stores buffer q (2 ^ 61 + q.length) := by
  cases want with
  | token delim D => exact h.bytes
  | size n => exact h.1

theorem Waits.congr {m' : Machine} (h : want.Waits fd buffer last callback m q)
    (hb : (m'.heap buffer).native = (m.heap buffer).native) (hf : m'.service.fds fd = m.service.fds fd)
    (hu : want.Untouched last m m') : want.Waits fd buffer last callback m' q := by
  cases want with
  | token delim D => exact ⟨h.ne, h.bytes.congr hb, h.token.congr hu.1, hf.trans h.fds, hu.2.trans h.last⟩
  | size n => exact ⟨h.1.congr hb, hf.trans h.2⟩

/-- **The read is called.** -/
theorem read_run (fd : Int) (callback : Cont) (hready : want.Ready m) (h : m.Stores buffer q u) (hu : u ≤ 2 ^ 61)
    (hlen : q.length < 2 ^ 31) :
    ∃ m', want.read fd buffer callback m = .ok (want.told callback q) m' ∧ Near buffer m m' ∧ m'.Stores buffer q u ∧
      (¬ want.Met q → want.Waits fd buffer m.nextVar callback m' q) := by
  cases want with
  | token delim D =>
    obtain ⟨hd, hD, hDlen⟩ := hready
    obtain ⟨m', hrun, haround, ha, hheap⟩ := readToken_run fd callback (h.mono hu) hd hD (by omega) hlen
    exact ⟨m', hrun, haround, h.congr (by rw [hheap]), ha⟩
  | size n =>
    obtain ⟨m', hrun, haround, hs, hf⟩ := readSize_run fd n callback h (by omega)
    exact ⟨m', hrun, haround, hs, fun hnot => ⟨hs.mono (by omega), hf hnot⟩⟩

/-- **Bytes arrive, with no hangup.** -/
theorem arrives (ans : Answers) {bytes : List UInt8} {m₀ : Machine} (hready : want.Ready m₀)
    (h : want.Waits fd buffer last callback m q) (hs : m.Stores buffer q u) (hu : u ≤ 2 ^ 61 + q.length)
    (hd : Delivered ans fd buffer bytes m) (hlen : (q ++ bytes).length < 2 ^ 31) :
    ∃ f m', m.service.fds fd = some f ∧ runCallback ans f m = .ok (want.told callback (q ++ bytes)) m' ∧
      Near buffer m m' ∧ m'.Stores buffer (q ++ bytes) (u + bytes.length) ∧
      want.Waits fd buffer last callback m' (q ++ bytes) := by
  cases want with
  | token delim D =>
    obtain ⟨m', hrun, haround, ha, hs'⟩ := onReadable_token ans h hs hu hready.2.1 hlen hd
    exact ⟨_, m', h.fds, hrun, haround, hs', ha⟩
  | size n =>
    rw [List.length_append] at hlen
    obtain ⟨b, hb, hrun⟩ := onReadable_run ans hs (by omega) hd (by omega)
    rw [condition_callBack_size n callback hb (by rw [List.length_append]; omega)] at hrun
    exact ⟨_, _, h.2, hrun, ⟨around_setBuffer .., rfl, rfl⟩, hb, hb.mono (by rw [List.length_append]; omega), h.2⟩

end Want
end Socket

/-- What the script sees of an fd. -/
inductive Happening where
  | called (task : Task)
  | failed
deriving DecidableEq

namespace Watch

open Machine Socket

/-- What happens in a turn: the fd's error callback is run, and calls are made. -/
def happenings [V8] (fd : Int) (w : Watch) : Turn → List Happening
  | .event e ans =>
    (if e.fd = fd ∧ e.isError ∧ (w.machine.service.fdsError fd).isSome then [.failed] else []) ++
      match w.step (.event e ans) with
      | .ok w'   => (w'.calls.drop w.calls.length).map fun c => .called c.1
      | .error _ => []
  | .other _     => []

/-- What happens in the turns, the first thing first. -/
def history [V8] (fd : Int) (w : Watch) : List Turn → List Happening
  | []      => []
  | t :: ts => w.happenings fd t ++
    match w.step t with
    | .ok w'   => history fd w' ts
    | .error _ => []

/-- An operation is called, and the turns are taken. -/
def story [V8] (fd : Int) (x : M (Option Task)) (m : Machine) (turns : List Turn) : List Happening :=
  match start x m with
  | .ok w    => (w.calls.map fun c => .called c.1) ++ w.history fd turns
  | .error _ => []

/-- The callback was invoked, and the fd's error callback was not run before. -/
def InvokedFirst (callback : Cont) (log : List Happening) : Prop :=
  ∃ before n after, log = before ++ .called (.invoke callback n) :: after ∧ .failed ∉ before

/-- A turn before the hangup.  While the callback has not been invoked, an event is a successful read of a non-empty
chunk, which is no longer than the room `recv` is given, and the rest of the process leaves the read alone. -/
def Streaming (fd : Int) (buffer last : Nat) (want : Want) (w : Watch) : Turn → Prop
  | .event e ans => w.calls = [] → e.fd = fd ∧ e.isError = false ∧
    ∃ bytes b, Delivered ans fd buffer bytes w.machine ∧ (w.machine.heap buffer).native = some b ∧
      b.size + bytes.length < 2 ^ 31
  | .other m     => w.calls = [] → (m.heap buffer).native = (w.machine.heap buffer).native ∧
    m.service.fds fd = w.machine.service.fds fd ∧ want.Untouched last w.machine m

variable {fd : Int} {buffer last : Nat} {callback : Cont} {want : Want} {w : Watch}

theorem invokedFirst_called (n : Int) (log : List Happening) :
    InvokedFirst callback (.called (.invoke callback n) :: log) := ⟨[], n, log, rfl, List.not_mem_nil⟩

theorem not_invokedFirst_nil : ¬ InvokedFirst callback [] := by
  rintro ⟨before, n, after, h, -⟩
  exact absurd h.symm (by simp)

theorem not_invokedFirst_failed (log : List Happening) : ¬ InvokedFirst callback (.failed :: log) := by
  rintro ⟨before, n, after, h, hnot⟩
  cases before with
  | nil => cases (List.cons.inj h).1
  | cons x before =>
    rw [← (List.cons.inj h).1] at hnot
    exact hnot List.mem_cons_self

variable [V8]

/-- **A hangup runs the error callback, whatever else the mask says.** -/
theorem hangup_not_invoked {e : Event} (hfd : e.fd = fd) (herr : e.isError = true) (ans : Answers) (w : Watch) :
    ¬ InvokedFirst callback (w.history fd [.event e ans]) := by
  subst hfd
  have hf : w.machine.service.callbackOf e = w.machine.service.fdsError e.fd := by rw [Service.callbackOf, if_pos herr]
  cases hc : w.machine.service.fdsError e.fd with
  | none =>
    have hstep : w.step (.event e ans) = .error (.trap .notCallable) := by simp only [step, hf, hc]
    simp only [history, happenings, hc, hstep, Option.isSome_none, Bool.false_eq_true, and_false, if_false,
      List.append_nil]
    exact not_invokedFirst_nil
  | some f =>
    simp only [history, happenings, hc, herr, Option.isSome_some, and_self, if_true, List.cons_append]
    exact not_invokedFirst_failed _

/-- **Bytes arrive with no hangup**: the callback is invoked if they complete what is waited for. -/
theorem step_arrives {e : Event} {ans : Answers} {q : List UInt8} {m₀ : Machine} (hready : want.Ready m₀)
    (hnil : w.calls = []) (h : want.Waits fd buffer last callback w.machine q)
    (hok : Streaming fd buffer last want w (.event e ans)) :
    ∃ w', w.step (.event e ans) = .ok w' ∧
      w'.calls.map Prod.fst = (want.told callback (q ++ chunk (.event e ans))).toList ∧
      want.Waits fd buffer last callback w'.machine (q ++ chunk (.event e ans)) ∧
      w.happenings fd (.event e ans) =
        (want.told callback (q ++ chunk (.event e ans))).toList.map Happening.called := by
  obtain ⟨rfl, herr, bytes, b, hd, hb, hlen⟩ := hok hnil
  have hchunk : chunk (.event e ans) = bytes := by rw [chunk, hd.recv]
  obtain ⟨b', hb', hholds, -⟩ := h.stores
  obtain rfl := Option.some.inj (hb.symm.trans hb')
  obtain ⟨f, m', hf, hrun, -, -, hw⟩ := Want.arrives ans hready h h.stores (Nat.le_refl _) hd
    (by rwa [List.length_append, ← hholds.size_eq])
  have hcall : w.machine.service.callbackOf e = w.machine.service.fds e.fd := by
    rw [Service.callbackOf, herr]
    rfl
  have hstep : w.step (.event e ans) = .ok ⟨m', (want.told callback (q ++ bytes)).toList.map (·, m'),
      w.pushes ++ pushed w.machine m'⟩ := by
    simp only [step, hcall, hf, hrun, ended, hnil, List.nil_append]
  rw [hchunk]
  refine ⟨_, hstep, map_fst_calls _ m', hw, ?_⟩
  simp only [happenings, hstep, herr, hnil, Bool.false_eq_true, false_and, and_false, if_false, List.nil_append,
    List.length_nil, List.drop_zero, List.map_map]
  rfl

/-- **From a pending read on.** -/
theorem history_iff {e : Event} {ans : Answers} {m₀ : Machine} (hready : want.Ready m₀) (hfd : e.fd = fd)
    (herr : e.isError = true) :
    ∀ (turns : List Turn) (w : Watch) (q : List UInt8), w.calls = [] → ¬ want.Met q →
      want.Waits fd buffer last callback w.machine q → Run.Along step (Streaming fd buffer last want) w turns →
      (InvokedFirst callback (w.history fd (turns ++ [.event e ans])) ↔ want.Met (q ++ received turns))
  | [], w, q, _, hnot, _, _ => by
    rw [received, List.flatMap_nil, List.append_nil]
    exact iff_of_false (hangup_not_invoked hfd herr ans w) hnot
  | .event e' ans' :: turns, w, q, hnil, hnot, hw, hok => by
    obtain ⟨w', hstep, hcalls, hw', hlog⟩ := step_arrives hready hnil hw hok.1
    have hcons : w.history fd (.event e' ans' :: turns ++ [.event e ans]) =
        (want.told callback (q ++ chunk (.event e' ans'))).toList.map Happening.called ++
          w'.history fd (turns ++ [.event e ans]) := by
      rw [List.cons_append, history, hlog, hstep]
    have hrec : q ++ received (.event e' ans' :: turns) = q ++ chunk (.event e' ans') ++ received turns := by
      rw [received, List.flatMap_cons, ← received, List.append_assoc]
    rw [hcons, hrec]
    by_cases hmet : want.Met (q ++ chunk (.event e' ans'))
    · obtain ⟨n, htold⟩ := Want.told_of_met callback hmet
      rw [htold]
      exact iff_of_true (invokedFirst_called n _) (hmet.append _)
    · rw [Want.told_of_not_met hmet] at hcalls ⊢
      exact history_iff hready hfd herr turns w' _ (List.map_eq_nil_iff.1 hcalls) hmet hw' (hok.2 w' hstep)
  | .other m :: turns, w, q, hnil, hnot, hw, hok => by
    obtain ⟨hb, hf, hu⟩ := hok.1 hnil
    exact history_iff hready hfd herr turns { w with machine := m } q hnil hnot (hw.congr hb hf hu) (hok.2 _ rfl)

/-- **A read is told of what came before the event with the hangup**, and of no more: its callback is invoked before the
fd's error callback is run exactly if the bytes received until then are what it waits for. -/
theorem told_before_failure_iff {m : Machine} {B : List UInt8} {e : Event} (ans : Answers) (hready : want.Ready m)
    (hB : m.Stores buffer B (2 ^ 61)) (hlen : B.length < 2 ^ 31) (hfd : e.fd = fd) (herr : e.isError = true)
    {turns : List Turn}
    (hok : ∀ w, start (want.read fd buffer callback) m = .ok w →
      Run.Along step (Streaming fd buffer m.nextVar want) w turns) :
    InvokedFirst callback (story fd (want.read fd buffer callback) m (turns ++ [.event e ans])) ↔
      want.Met (B ++ received turns) := by
  obtain ⟨m', hrun, -, -, hw⟩ := Want.read_run fd callback hready hB (Nat.le_refl _) hlen
  have hstart : start (want.read fd buffer callback) m =
      .ok ⟨m', (want.told callback B).toList.map (·, m'), pushed m m'⟩ := by
    simp only [start, hrun, ended, List.nil_append]
  have halong := hok _ hstart
  simp only [story, hstart]
  by_cases hmet : want.Met B
  · obtain ⟨n, htold⟩ := Want.told_of_met callback hmet
    rw [htold]
    exact iff_of_true (invokedFirst_called n _) (hmet.append _)
  · rw [Want.told_of_not_met hmet] at halong ⊢
    exact history_iff hready hfd herr turns _ B rfl hmet (hw hmet) halong

/-- Fd 5 is open and has an error callback, and buffer 0 holds a delimiter. -/
def guarded (delim : List UInt8) : Machine :=
  { Machine.listening delim with service := Service.new.error 5 (.user 1) }

omit [V8] in
/-- The hangup comes after the line. -/
theorem told_before_failure_crlf :
    InvokedFirst (.user 0) (@story ascii 5 ((Want.token 0 [13, 10]).read 5 2 (.user 0)) (guarded [13, 10])
      ([.event ⟨5, epollIn⟩ ⟨.data [65, 13, 10], [], none⟩] ++ [.event ⟨5, epollHup⟩ ⟨.data [], [], none⟩])) := by
  have hempty : Buffer.Holds 64 (Buffer.new 512) [] := Buffer.new_spec (by decide) (by decide)
  obtain ⟨b₁, hprep, hremain⟩ := Buffer.prepare_remain hempty (Buffer.fits_of_le (n := 8192) (by decide))
  refine (@told_before_failure_iff 5 2 (.user 0) (.token 0 [13, 10]) ascii (guarded [13, 10]) [] ⟨5, epollHup⟩
    ⟨.data [], [], none⟩ ⟨⟨_, rfl, Buffer.full_holds (by decide) (by decide), by decide⟩, by decide, by decide⟩
    ⟨_, rfl, hempty, by decide⟩ (by decide) rfl rfl _ fun w hw => ?_).2 (by decide)
  have hw₀ : w = _ := Except.ok.inj (hw.symm.trans rfl)
  subst hw₀
  exact ⟨fun _ => ⟨rfl, rfl, _, _, ⟨rfl, rfl, by decide, _, b₁, rfl, hprep, Nat.le_trans (by decide) hremain⟩,
    rfl, by decide⟩, fun _ _ => trivial⟩

/-- The whole stream comes with the hangup, in one event. -/
def hungUp : List Turn := [.event ⟨5, epollIn ||| epollHup⟩ ⟨.data [65, 13, 10], [], none⟩]

omit [V8] in
/-- The error callback is run and nobody is told of the bytes that came with the hangup. -/
theorem data_with_hangup_lost :
    ((Want.token 0 [13, 10]).Met [65, 13, 10] ∧
      @story ascii 5 ((Want.token 0 [13, 10]).read 5 2 (.user 0)) (guarded [13, 10]) hungUp = [.failed] ∧
      ¬ InvokedFirst (.user 0)
        (@story ascii 5 ((Want.token 0 [13, 10]).read 5 2 (.user 0)) (guarded [13, 10]) hungUp)) ∧
    (Want.size 3).Met [65, 13, 10] ∧
      @story ascii 5 ((Want.size 3).read 5 2 (.user 0)) (guarded [13, 10]) hungUp = [.failed] ∧
      ¬ InvokedFirst (.user 0) (@story ascii 5 ((Want.size 3).read 5 2 (.user 0)) (guarded [13, 10]) hungUp) := by
  have htoken : @story ascii 5 ((Want.token 0 [13, 10]).read 5 2 (.user 0)) (guarded [13, 10]) hungUp = [.failed] := by
    decide +kernel
  have hsize : @story ascii 5 ((Want.size 3).read 5 2 (.user 0)) (guarded [13, 10]) hungUp = [.failed] := by
    decide +kernel
  refine ⟨⟨by decide, htoken, ?_⟩, by decide, hsize, ?_⟩
  · rw [htoken]
    exact not_invokedFirst_failed []
  · rw [hsize]
    exact not_invokedFirst_failed []

end Watch
end V8h
