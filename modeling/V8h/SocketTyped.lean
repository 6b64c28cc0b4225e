import V8h.BufferCodec
import V8h.SocketRead
/-!
# SocketTyped — `readInt32` and the other typed readers of a socket

Each gives `readSize` the size 4 and a closure that takes the number from the buffer and calls the callback with it.
But `readInt64` takes eight bytes then, `readDouble` calls itself where it means `readSize`, and the native `read`
leaves the bytes it returned in the buffer: a reader does what it should as long as it has not got four bytes
(`typed_readers_iff`).
-/
namespace V8h

/-- The number the bytes spell. -/
def Buffer.Kind.decode : (k : Buffer.Kind) → List UInt8 → k.Number
  | .int32,  bytes => (BitVec.ofNat 32 (wordOf bytes)).toInt
  | .uint32, bytes => (wordOf bytes : Int)
  | .int64,  bytes => (BitVec.ofNat 64 (wordOf bytes)).toInt
  | .double, bytes => BitVec.ofNat 64 (wordOf bytes)

open Buffer (Kind)
open Machine Effect

/-- What the closures of the typed readers call the callback with: `buffer.readInt32()` and so on. -/
def Script.readNumber (buffer : Nat) (k : Kind) : M k.Number := do
  let (n, b) ← lift ((← native buffer).readNumber 64 k)
  setNative buffer b
  return n

namespace Socket

/-- `Socket.readInt32`; `closure` is the closure it makes of its callback. -/
def readInt32 (fd : Int) (buffer : Nat) (closure : Cont) : M (Option Task) := readSize fd buffer (some 4) closure

def readUint32 (fd : Int) (buffer : Nat) (closure : Cont) : M (Option Task) := readSize fd buffer (some 4) closure

def readInt64 (fd : Int) (buffer : Nat) (closure : Cont) : M (Option Task) := readSize fd buffer (some 4) closure

/-- `Socket.readDouble`, with the number of calls the stack has room for. -/
def readDouble (fd : Int) (buffer : Nat) (closure : Cont) : Nat → M (Option Task)
  | 0         => throw (.trap .diverge)
  | depth + 1 => readDouble fd buffer closure depth

/-- The typed readers. -/
def readTyped (depth : Nat) (fd : Int) (buffer : Nat) (closure : Cont) : Kind → M (Option Task)
  | .int32  => readInt32 fd buffer closure
  | .uint32 => readUint32 fd buffer closure
  | .int64  => readInt64 fd buffer closure
  | .double => readDouble fd buffer closure depth

variable {m : Machine} {fd : Int} {buffer u depth : Nat} {q : List UInt8} {closure : Cont} {k : Kind}

theorem readTyped_eq (depth : Nat) (fd : Int) (buffer : Nat) (closure : Cont) (hk : k ≠ .double) :
    readTyped depth fd buffer closure k = readSize fd buffer (some 4) closure := by
  cases k with
  | double => exact absurd rfl hk
  | _ => rfl

theorem readDouble_error (fd : Int) (buffer : Nat) (closure : Cont) (m : Machine) : ∀ depth,
    readDouble fd buffer closure depth m = .error (.trap .diverge) m
  | 0         => rfl
  | depth + 1 => readDouble_error fd buffer closure m depth

/-- The closure waits for four bytes. -/
structure Wanting (fd : Int) (buffer : Nat) (closure : Cont) (q : List UInt8) (m : Machine) : Prop where
  bytes : m.Stores buffer q (2 ^ 61 + q.length)
  fds   : m.service.fds fd = some (.readUntil fd buffer (.size (some 4)) (.size (some 4) closure))
  short : ¬ 4 ≤ toUint q.length

theorem reaches_four {length : Nat} : reaches (some 4) length = decide (4 ≤ toUint length) := by
  rw [reaches, Option.any_some]
  exact decide_eq_decide.2 (by omega)

/-- **`readSize` is called for four bytes.** -/
theorem readSize_four (fd : Int) (closure : Cont) (h : m.Stores buffer q (2 ^ 61)) :
    ∃ m', readSize fd buffer (some 4) closure m = .ok (toldAt (some 4) closure q.length) m' ∧
      m'.Stores buffer q (2 ^ 61) ∧ (¬ 4 ≤ toUint q.length → Wanting fd buffer closure q m') := by
  obtain ⟨m', hrun, -, hheap, hfds⟩ := readSize_toldAt fd closure h (some 4)
  have hstores : m'.Stores buffer q (2 ^ 61) := h.congr (by rw [hheap])
  refine ⟨m', hrun, hstores, fun h4 => ⟨hstores.mono (Nat.le_add_right _ _), hfds ?_, h4⟩⟩
  rw [reaches_four]
  exact decide_eq_false h4

end Socket

namespace Watch

open Socket

/-- A turn taken while a typed reader waits: a successful read of a non-empty chunk, no longer than the room `recv` is
given and than an `int` counts, or anything that leaves the buffer and the registration alone. -/
def Receiving (fd : Int) (buffer : Nat) (w : Watch) : Turn → Prop
  | .event e ans => w.calls = [] ∧ e.fd = fd ∧ e.isError = false ∧
    ∃ bytes b, Delivered ans fd buffer bytes w.machine ∧ (w.machine.heap buffer).native = some b ∧
      bytes.length < 2 ^ 31 ∧ b.size + bytes.length ≤ 2 ^ 61
  | .other m     => (m.heap buffer).native = (w.machine.heap buffer).native ∧
    m.service.fds fd = w.machine.service.fds fd

/-- What a typed reader owes its caller after some turns: its closure is called once the bytes of the number are there,
and not before, gets the number they spell, and leaves the rest of the stream in the buffer. -/
def DecodesExactly [V8] (depth : Nat) (k : Kind) (fd : Int) (buffer : Nat) (closure : Cont) (m : Machine)
    (B : List UInt8) (turns : List Turn) : Prop :=
  ∃ w w', start (readTyped depth fd buffer closure k) m = .ok w ∧ turns.foldlM step w = .ok w' ∧
    ((B ++ received turns).length < k.width → w'.calls = []) ∧
    (k.width ≤ (B ++ received turns).length → ∃ arg m₁, w'.calls = [(.invoke closure arg, m₁)] ∧
      ∃ n m₂ u, Script.readNumber buffer k m₁ = .ok n m₂ ∧ n = k.decode ((B ++ received turns).take k.width) ∧
        m₂.Stores buffer ((B ++ received turns).drop k.width) u)

/-- What holds while the content is `q`: the reader waits, or its closure was called with that content. -/
def Typing (fd : Int) (buffer : Nat) (closure : Cont) (w : Watch) (q : List UInt8) : Prop :=
  (w.calls = [] ∧ Wanting fd buffer closure q w.machine) ∨
    ∃ m₁ u, w.calls = [(.invoke closure 4, m₁)] ∧ m₁.Stores buffer q u ∧ 4 ≤ toUint q.length

variable {m : Machine} {fd : Int} {buffer depth u : Nat} {closure : Cont} {k : Kind} {B q : List UInt8} {w : Watch}

theorem typing_of_toldAt {m' : Machine} {pushes : List Nat} (h : m'.Stores buffer q u)
    (hw : ¬ 4 ≤ toUint q.length → Wanting fd buffer closure q m') :
    Typing fd buffer closure ⟨m', (toldAt (some 4) closure q.length).toList.map (·, m'), pushes⟩ q := by
  rw [toldAt, reaches_four]
  by_cases h4 : 4 ≤ toUint q.length
  · rw [decide_eq_true h4]
    exact Or.inr ⟨m', u, rfl, h, h4⟩
  · rw [decide_eq_false h4]
    exact Or.inl ⟨rfl, hw h4⟩

variable [V8]

theorem step_typing {t : Turn} (h : Typing fd buffer closure w q) (hok : Receiving fd buffer w t) :
    ∃ w', w.step t = .ok w' ∧ Typing fd buffer closure w' (q ++ chunk t) := by
  cases t with
  | event e ans =>
    obtain ⟨hnil, rfl, herr, bytes, b, hd, hb, hlt, hlen⟩ := hok
    obtain ⟨-, hw⟩ | ⟨m₁, u, hcalls, -⟩ := h
    · obtain ⟨b', hb', hholds, -⟩ := hw.bytes
      obtain rfl := Option.some.inj (hb.symm.trans hb')
      have hsize := hholds.size_eq
      have hchunk : chunk (.event e ans) = bytes := by rw [chunk, hd.recv]
      have hcall : w.machine.service.callbackOf e = w.machine.service.fds e.fd := by
        rw [Service.callbackOf, herr]
        rfl
      obtain ⟨b₁, hs, hrun⟩ := onReadable_run ans hw.bytes (by omega) hd hlt
      rw [condition_toldAt hs] at hrun
      let m₁ := w.machine.setBuffer buffer b₁
      refine ⟨⟨m₁, (toldAt (some 4) closure (q ++ bytes).length).toList.map (·, m₁),
        w.pushes ++ pushed w.machine m₁⟩, ?_, ?_⟩
      · simp only [step, hcall, hw.fds, runCallback]
        rw [hrun, ended, hnil, List.nil_append]
      · rw [hchunk]
        refine typing_of_toldAt hs fun h4 => ⟨hs.mono ?_, hw.fds, h4⟩
        rw [List.length_append]
        omega
    · rw [hnil] at hcalls
      cases hcalls
  | other m =>
    obtain ⟨h1, h2⟩ := hok
    refine ⟨{ w with machine := m }, rfl, ?_⟩
    rw [show chunk (.other m) = [] from rfl, List.append_nil]
    obtain ⟨hnil, hw⟩ | hdone := h
    · exact Or.inl ⟨hnil, hw.bytes.congr h1, h2.trans hw.fds, hw.short⟩
    · exact Or.inr hdone

/-- **A typed reader over the turns it takes.** -/
theorem typing_run (depth : Nat) (hk : k ≠ .double) (hB : m.Stores buffer B (2 ^ 61)) {turns : List Turn}
    (hok : ∀ w, start (readTyped depth fd buffer closure k) m = .ok w → Run.Along step (Receiving fd buffer) w turns) :
    ∃ w w', start (readTyped depth fd buffer closure k) m = .ok w ∧ turns.foldlM step w = .ok w' ∧
      Typing fd buffer closure w' (B ++ received turns) := by
  obtain ⟨m', hrun, hs, hw⟩ := readSize_four fd closure hB
  have hstart : start (readTyped depth fd buffer closure k) m =
      .ok ⟨m', (toldAt (some 4) closure B.length).toList.map (·, m'), pushed m m'⟩ := by
    rw [readTyped_eq depth fd buffer closure hk, start, hrun, ended, List.nil_append, List.nil_append]
  have hstep : ∀ w q t, Typing fd buffer closure w q → Receiving fd buffer w t →
      ∃ w', step w t = .ok w' ∧ Typing fd buffer closure w' (q ++ chunk t) := fun w q t h hok => step_typing h hok
  obtain ⟨w', hw', hR⟩ := Run.simulates hstep turns _ B (typing_of_toldAt hs hw) (hok _ hstart)
  rw [List.foldl_append_eq_append, ← List.flatMap_def] at hR
  exact ⟨_, w', hstart, hw', hR⟩

omit [V8] in
/-- **A typed read does not give its bytes up.** -/
theorem readNumber_keeps {m₂ : Machine} {n : k.Number} {r : List UInt8} {u' : Nat} (h : m.Stores buffer q u)
    (hrun : Script.readNumber buffer k m = .ok n m₂) (h' : m₂.Stores buffer r u') :
    r.length = sizeT 64 (q.length + k.width) := by
  obtain ⟨b, hb, hholds, -⟩ := h
  rw [Script.readNumber, bind_ok (native_run hb)] at hrun
  cases hread : b.readNumber 64 k with
  | error e =>
    rw [hread] at hrun
    cases hrun
  | ok r' =>
    obtain ⟨n', b₂⟩ := r'
    rw [hread] at hrun
    have hm₂ : m₂ = m.setBuffer buffer b₂ := ((EStateM.Result.ok.inj hrun).2).symm
    obtain ⟨⟨v, b₃⟩, hv, heq⟩ := bind_eq_ok.1 hread
    cases heq
    obtain ⟨b', hb', hholds', -⟩ := h'
    rw [hm₂, setBuffer_heap_self] at hb'
    obtain rfl := Option.some.inj hb'
    rw [← hholds'.size_eq, (Buffer.kind_read_ok hv).2, hholds.size_eq]

/-- **With four bytes no typed reader does what it should.** -/
theorem not_decodesExactly (hB : m.Stores buffer B (2 ^ 61)) {turns : List Turn}
    (hok : ∀ w, start (readTyped depth fd buffer closure k) m = .ok w → Run.Along step (Receiving fd buffer) w turns)
    (h : DecodesExactly depth k fd buffer closure m B turns) : k ≠ .double ∧ (B ++ received turns).length < 4 := by
  obtain ⟨w, w', hw, hw', hshort, hlong⟩ := h
  have hk : k ≠ .double := by
    rintro rfl
    rw [start, readTyped, readDouble_error] at hw
    cases hw
  refine ⟨hk, Nat.lt_of_not_le fun h4 => ?_⟩
  obtain ⟨v, v', hv, hv', htyping⟩ := typing_run depth hk hB hok
  obtain rfl := Except.ok.inj (hw.symm.trans hv)
  obtain rfl := Except.ok.inj (hw'.symm.trans hv')
  rcases Nat.lt_or_ge (B ++ received turns).length k.width with hlt | hge
  · -- four bytes are enough for the closure, but not for the number
    have hwidth := k.width_le
    obtain ⟨-, hwant⟩ | ⟨m₁, u, hcalls, -⟩ := htyping
    · exact hwant.short (by rwa [toUint_of_lt (by omega)])
    · rw [hshort hlt] at hcalls
      cases hcalls
  · obtain ⟨arg, m₁, hcalls, n, m₂, u, hrun, -, hrest⟩ := hlong hge
    obtain ⟨hnil, -⟩ | ⟨m₁', u', hcalls', hs, -⟩ := htyping
    · rw [hnil] at hcalls
      cases hcalls
    · rw [hcalls] at hcalls'
      obtain rfl : m₁ = m₁' := (Prod.mk.inj (List.cons.inj hcalls').1).2
      have hlen := readNumber_keeps hs hrun hrest
      have hwidth := k.width_le
      rw [List.length_drop, sizeT] at hlen
      omega

/-- **A typed reader does what it should exactly as long as it has not got four bytes**, and `readDouble` never. -/
theorem typed_readers_iff (depth : Nat) (k : Kind) (hB : m.Stores buffer B (2 ^ 61)) {turns : List Turn}
    (hok : ∀ w, start (readTyped depth fd buffer closure k) m = .ok w → Run.Along step (Receiving fd buffer) w turns) :
    DecodesExactly depth k fd buffer closure m B turns ↔ k ≠ .double ∧ (B ++ received turns).length < 4 := by
  refine ⟨not_decodesExactly hB hok, fun ⟨hk, h4⟩ => ?_⟩
  obtain ⟨w, w', hw, hw', htyping⟩ := typing_run depth hk hB hok
  have hwidth := k.width_le
  refine ⟨w, w', hw, hw', fun _ => ?_, fun hge => absurd hge (by omega)⟩
  obtain ⟨hnil, -⟩ | ⟨m₁, u, -, -, hle⟩ := htyping
  · exact hnil
  · rw [toUint_of_lt (by omega)] at hle
    omega

end Watch

/-- Two bytes come for `readInt32`. -/
theorem Watch.typed_readers_short :
    @DecodesExactly ascii 0 .int32 5 2 (.user 0) (Machine.listening [0]) []
      [.event ⟨5, epollIn⟩ ⟨.data [65, 13], [], none⟩] := by
  have hempty : Buffer.Holds 64 (Buffer.new 512) [] := Buffer.new_spec (by decide) (by decide)
  obtain ⟨b₁, hprep, hremain⟩ := Buffer.prepare_remain hempty (Buffer.fits_of_le (n := 8192) (by decide))
  refine (@typed_readers_iff (Machine.listening [0]) 5 2 (.user 0) [] ascii 0 .int32 ⟨_, rfl, hempty, by decide⟩ _
    fun w hw => ?_).2 ⟨by decide, by decide⟩
  have hw₀ : w = _ := Except.ok.inj (hw.symm.trans rfl)
  subst hw₀
  exact ⟨⟨rfl, rfl, rfl, _, _, ⟨rfl, rfl, by decide, _, b₁, rfl, hprep,
    Nat.le_trans (by decide) hremain⟩, rfl, by decide, by decide⟩, fun _ _ => trivial⟩

/-- Four bytes are in the buffer when the reader is called: none of the four does what it should, and `readInt32` gives
the same number again and again. -/
theorem Watch.typed_reader_repeats :
    (∀ (depth : Nat) (k : Kind), ¬ @DecodesExactly ascii depth k 5 0 (.user 0) (Machine.listening [1, 0, 0, 0])
      [1, 0, 0, 0] []) ∧
    answer (do
      let first ← Script.readNumber 0 .int32
      let second ← Script.readNumber 0 .int32
      return (first, second)) (Machine.listening [1, 0, 0, 0]) = .ok ((1, 1) : Int × Int) := by
  refine ⟨fun depth k h => ?_, by decide +kernel⟩
  have hstores : (Machine.listening [1, 0, 0, 0]).Stores 0 [1, 0, 0, 0] (2 ^ 61) :=
    ⟨_, rfl, Buffer.full_holds (by decide) (by decide), by decide⟩
  exact absurd (@not_decodesExactly _ 5 0 depth (.user 0) k _ ascii hstores [] (fun _ _ => trivial) h).2 (by decide)

end V8h
