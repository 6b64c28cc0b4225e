import V8h.SocketRead
import V8h.SocketWrites
/-!
# Stream — one buffer for what was received and what is to be sent

A `Stream` reads into the buffer it writes from.  What is written comes behind the bytes that were received and not
taken, and `startWriting` sends the buffer from its first byte on: so the data alone is sent, and a read finds what was
there before, when nothing was there and nothing is waiting to be sent (`stream_clean_iff`).
-/
namespace V8h

/-- The fields of a `Stream`. -/
structure Stream where
  fd     : Int
  buffer : Nat

/-- A value the typed writers of a stream take. -/
inductive Stream.Value where
  | int32 (n : BitVec 32)
  | text (s : JsString)

open Machine Effect

/-- `Buffer::write_int32`. -/
def Script.writeInt32 (buffer : Nat) (n : BitVec 32) : M Unit := do
  let b ← native buffer
  setNative buffer (← lift (b.writeInt32 64 n))

namespace Stream

def startWriting (ans : Answers) (s : Stream) (callback : Cont) : M (Option Task) :=
  Socket.writeBuffer ans s.fd s.buffer callback

def writeInt32 (ans : Answers) (s : Stream) (n : BitVec 32) (callback : Cont) : M (Option Task) := do
  Script.writeInt32 s.buffer n
  startWriting ans s callback

variable [V8]

def writeUtf8 (ans : Answers) (s : Stream) (text : JsString) (callback : Cont) : M (Option Task) := do
  Script.writeUtf8 s.buffer text
  startWriting ans s callback

def write (ans : Answers) (s : Stream) (callback : Cont) : Value → M (Option Task)
  | .int32 n   => writeInt32 ans s n callback
  | .text text => writeUtf8 ans s text callback

/-- What is to be sent for a value. -/
def Value.bytes : Value → List UInt8
  | .int32 n => image 4 n.toNat
  | .text s  => V8.utf8 s

omit [V8] in
/-- The fd is open, and the buffer holds what was received and not taken. -/
structure Unread (m : Machine) (s : Stream) (c : Nat) (unread : List UInt8) (u : Nat) : Prop where
  conn   : m.kernel.conn s.fd = some c
  stores : m.Stores s.buffer unread u
  plain  : (m.heap s.buffer).temporary = false

variable {m : Machine} {s : Stream} {c u : Nat} {unread : List UInt8}

/-- **A typed writer goes on as `Socket.writeBuffer`**, with the value behind what the buffer holds. -/
theorem write_run (ans : Answers) (callback : Cont) (v : Value) (h : m.Stores s.buffer unread u)
    (hfits : 3 * (u + v.bytes.length) < 2 ^ 64) : ∃ b,
      s.write ans callback v m = Socket.writeBuffer ans s.fd s.buffer callback (m.setBuffer s.buffer b) ∧
      (m.setBuffer s.buffer b).Stores s.buffer (unread ++ v.bytes) (u + v.bytes.length) := by
  obtain ⟨b, hrun, hstores⟩ := Script.write_run v.bytes h hfits
  refine ⟨b, ?_, hstores⟩
  cases v with
  | int32 n => exact bind_ok hrun
  | text text => exact bind_ok hrun

end Stream

namespace Watch

open Socket

/-- The state a read is called in: when the callback of the write was called, or else now. -/
def atRead (w : Watch) : Machine :=
  match w.calls with
  | []          => w.machine
  | (_, m) :: _ => m

/-- Nothing but the data was sent, all of it when the callback was called, and a read finds what was there to be read
before. -/
structure Clean (m₀ : Machine) (s : Stream) (c : Nat) (unread data : List UInt8) (w : Watch) : Prop where
  sent  : ∃ taken, w.machine.kernel.sent c = m₀.kernel.sent c ++ taken ∧ taken <+: data ∧ (w.calls ≠ [] → taken = data)
  finds : ∃ u, w.atRead.Stores s.buffer unread u

variable {m : Machine} {s : Stream} {c u : Nat} {unread data : List UInt8} {w : Watch} {o : Outbox UInt8}
  {callback : Cont}

theorem offered_sound {t : Turn} {fd : Int} {buffer : Nat} (hok : Writable fd buffer w t) (hf : o.failed = false) :
    (offered true o t).failed = false := by
  cases t with
  | event e ans => exact Outbox.offer_sound _ _ (gentle_replies hok.2) hf
  | other m => exact hf

/-- **What is left of a write that does not fail** is in the buffer, and the callback was called if that is nothing. -/
theorem Sending.between (h : Sending m s.fd s.buffer callback false u data w o) (hf : o.failed = false) :
    (w.calls ≠ [] ↔ o.rest = []) ∧ ∃ u, w.atRead.Stores s.buffer o.rest u := by
  by_cases hov : o.ended
  · have hrest : o.rest = [] := hov.resolve_right (by rw [hf]; exact Bool.false_ne_true)
    obtain ⟨-, m', hcalls, -, hstores⟩ := h.ended hov
    refine ⟨iff_of_true (by rw [hcalls]; exact List.cons_ne_nil _ _) hrest, ?_⟩
    rw [atRead, hcalls]
    exact hstores.resolve_right fun ⟨h, _⟩ => nomatch h
  · obtain ⟨hcalls, -⟩ := h.begun hov
    refine ⟨iff_of_false (not_not.2 hcalls) fun hrest => hov (.inl hrest), u, ?_⟩
    rw [atRead, hcalls]
    exact (h.waiting hov).1

/-- **A state is clean when the kernel has taken as many bytes as the data has, and these are the data.** -/
theorem Sending.clean_iff (h : Sending m s.fd s.buffer callback false u (unread ++ data) w o) (hf : o.failed = false)
    (hconn : m.kernel.conn s.fd = some c) :
    Clean m s c unread data w ↔ o.accepted.length = data.length ∧ unread ++ data = data ++ unread := by
  obtain ⟨hcalls, u', hstores⟩ := h.between hf
  have hwhole := h.whole
  have hsent := h.sent c hconn
  have hlen := congrArg List.length hwhole
  simp only [List.length_append] at hlen
  constructor
  · rintro ⟨⟨taken, htaken, hpre, -⟩, u'', hfinds⟩
    obtain rfl : taken = o.accepted := List.append_cancel_left (htaken.symm.trans hsent)
    have hrest : o.rest = unread := hstores.unique hfinds
    have hlength : o.accepted.length = data.length := by
      rw [hrest] at hlen
      omega
    rw [hrest, hpre.eq_of_length hlength] at hwhole
    exact ⟨hlength, hwhole.symm⟩
  · rintro ⟨hlength, hcomm⟩
    obtain ⟨haccepted, hrest⟩ := List.append_inj (hwhole.trans hcomm) hlength
    exact ⟨⟨o.accepted, hsent, haccepted ▸ List.prefix_rfl, fun _ => haccepted⟩, u', hrest ▸ hstores⟩

variable [V8]

/-- **One write of a stream, over the events it takes.** -/
theorem stream_run (v : Stream.Value) (h : s.Unread m c unread u) (hlen : (unread ++ v.bytes).length < 2 ^ 31)
    (hfits : 3 * (u + v.bytes.length) < 2 ^ 64) (callback : Cont) {ans : Answers} (hans : Gentle ans) :
    ∃ w, start (s.write ans callback v) m = .ok w ∧
      ∀ turns, Run.Along step (Writable s.fd s.buffer) w turns → ∃ w', turns.foldlM step w = .ok w' ∧
        Sending m s.fd s.buffer callback false (u + v.bytes.length) (unread ++ v.bytes) w'
          (offeredBy true (unread ++ v.bytes) ans turns) ∧
        (offeredBy true (unread ++ v.bytes) ans turns).failed = false := by
  obtain ⟨b, hrun, hstores⟩ := s.write_run ans callback v h.stores hfits
  have hplain : ((m.setBuffer s.buffer b).heap s.buffer).temporary = false := by
    rw [setBuffer_heap_self]
    exact h.plain
  have hopen : (m.kernel.conn s.fd).isSome = true := by rw [h.conn]; rfl
  obtain ⟨w, hw, hs⟩ := sending_run m s.fd ans callback hlen hstores hplain rfl
  refine ⟨w, (start_congr hrun rfl).trans hw, fun turns hok => ?_⟩
  obtain ⟨w₀, hw₀, hs₀⟩ := hs [] trivial
  cases hw₀
  rw [hopen] at hs₀
  have hstep : ∀ (w : Watch) (o : Outbox UInt8) (t : Turn),
      Sending m s.fd s.buffer callback false (u + v.bytes.length) (unread ++ v.bytes) w o ∧ o.failed = false →
      Writable s.fd s.buffer w t → ∃ w', step w t = .ok w' ∧
        Sending m s.fd s.buffer callback false (u + v.bytes.length) (unread ++ v.bytes) w' (offered true o t) ∧
        (offered true o t).failed = false := fun w o t ⟨hsending, hf⟩ hok => by
    obtain ⟨w', hw', hsending'⟩ := step_sending hlen hsending hok.1
    rw [hopen] at hsending'
    exact ⟨w', hw', hsending', offered_sound hok hf⟩
  exact Run.simulates hstep turns w _ ⟨hs₀, Outbox.offer_sound _ _ (gentle_replies hans) rfl⟩ hok

/-- **A stream sends its data alone and leaves what was unread to the next read, exactly when the kernel has taken as
many bytes as the data has and the order of the two makes no difference**: once the callback was called, when nothing
was unread; when nothing was unread, once the callback was called. -/
theorem stream_clean_iff (v : Stream.Value) (h : s.Unread m c unread u) (hlen : (unread ++ v.bytes).length < 2 ^ 31)
    (hfits : 3 * (u + v.bytes.length) < 2 ^ 64) (callback : Cont) {ans : Answers} (hans : Gentle ans) :
    ∃ w, start (s.write ans callback v) m = .ok w ∧
      ∀ turns, Run.Along step (Writable s.fd s.buffer) w turns → ∃ w', turns.foldlM step w = .ok w' ∧
        (Clean m s c unread v.bytes w' ↔
          (offeredBy true (unread ++ v.bytes) ans turns).accepted.length = v.bytes.length ∧
          unread ++ v.bytes = v.bytes ++ unread) ∧
        (w'.calls ≠ [] → (Clean m s c unread v.bytes w' ↔ unread = [])) ∧
        (unread = [] → (Clean m s c unread v.bytes w' ↔ w'.calls ≠ [])) := by
  obtain ⟨w, hw, hrun⟩ := stream_run v h hlen hfits callback hans
  refine ⟨w, hw, fun turns hok => ?_⟩
  obtain ⟨w', hw', hsending, hf⟩ := hrun turns hok
  have hclean := hsending.clean_iff hf h.conn
  have hcalls := (hsending.between hf).1
  have hwhole := congrArg List.length hsending.whole
  simp only [List.length_append] at hwhole
  generalize offeredBy true (unread ++ v.bytes) ans turns = o at hclean hcalls hwhole
  refine ⟨w', hw', hclean, fun hover => ?_, fun hnil => ?_⟩
  · rw [hcalls.1 hover, List.length_nil] at hwhole
    rw [hclean]
    constructor
    · rintro ⟨hlength, -⟩
      exact List.length_eq_zero_iff.1 (by omega)
    · rintro rfl
      rw [List.length_nil] at hwhole
      exact ⟨by omega, (List.append_nil _).symm⟩
  · subst hnil
    rw [List.length_nil] at hwhole
    rw [hclean, hcalls, ← List.length_eq_zero_iff]
    constructor
    · rintro ⟨hlength, -⟩
      omega
    · intro hrest
      exact ⟨by omega, (List.append_nil _).symm⟩

end Watch

namespace Watch

open Socket

/-- `ab` is written when nothing is unread. -/
theorem stream_clean_text : ∃ w,
    start (@Stream.write ascii ⟨.data [], [.accept 7], none⟩ ⟨5, 1⟩ (.user 0) (.text (js "ab"))) (listening [120]) =
      .ok w ∧ Clean (listening [120]) ⟨5, 1⟩ 0 [] (@Stream.Value.bytes ascii (.text (js "ab"))) w := by
  have hempty : Buffer.Holds 64 (Buffer.new 512) [] := Buffer.new_spec (by decide) (by decide)
  obtain ⟨w, hw, h⟩ := @stream_clean_iff (listening [120]) ⟨5, 1⟩ 0 0 [] ascii (.text (js "ab"))
    ⟨rfl, ⟨_, rfl, hempty, Nat.le_refl 0⟩, rfl⟩ (by decide) (by decide) (.user 0)
    ⟨.data [], [.accept 7], none⟩ (gentle_accept 7)
  obtain ⟨w', hw', -, -, hcalled⟩ := h [] trivial
  cases hw'
  obtain ⟨w₁, hw₁, hcalls⟩ := Run.exists_of_any (x := start (@Stream.write ascii ⟨.data [], [.accept 7], none⟩ ⟨5, 1⟩
    (.user 0) (.text (js "ab"))) (listening [120])) (p := fun w => !w.calls.isEmpty) (by decide +kernel)
  obtain rfl := Except.ok.inj (hw₁.symm.trans hw)
  refine ⟨w₁, hw, (hcalled rfl).2 ?_⟩
  intro hnil
  rw [hnil] at hcalls
  cases hcalls

/-- `x` was received and not taken when `ab` is written: it is sent, too.  And while `b` of `ab` waits, it is what a
read finds where nothing was received. -/
theorem stream_sends_unread :
    (∃ w, start (@Stream.write ascii ⟨.data [], [.accept 7], none⟩ ⟨5, 0⟩ (.user 0) (.text (js "ab")))
        (listening [120]) = .ok w ∧ w.calls.map Prod.fst = [.invoke (.user 0) 0] ∧
      w.machine.kernel.sent 0 = [120, 97, 98] ∧ ¬ Clean (listening [120]) ⟨5, 0⟩ 0 [120] [97, 98] w) ∧
    ∃ w, start (@Stream.write ascii ⟨.data [], [.accept 0], none⟩ ⟨5, 1⟩ (.user 0) (.text (js "ab")))
        (listening [120]) = .ok w ∧ w.calls = [] ∧ ¬ Clean (listening [120]) ⟨5, 1⟩ 0 [] [97, 98] w := by
  constructor
  · obtain ⟨w, hw, h⟩ := Run.exists_of_any (x := start (@Stream.write ascii ⟨.data [], [.accept 7], none⟩ ⟨5, 0⟩
      (.user 0) (.text (js "ab"))) (listening [120])) (p := fun w => decide (w.calls.map Prod.fst =
        [.invoke (.user 0) 0]) && decide (w.machine.kernel.sent 0 = [120, 97, 98])) (by decide +kernel)
    simp only [Bool.and_eq_true, decide_eq_true_eq] at h
    refine ⟨w, hw, h.1, h.2, fun ⟨⟨taken, htaken, hpre, _⟩, _⟩ => ?_⟩
    obtain rfl : taken = [120, 97, 98] := htaken.symm.trans h.2
    exact absurd hpre (by decide)
  · obtain ⟨w, hw, h⟩ := Run.exists_of_any (x := start (@Stream.write ascii ⟨.data [], [.accept 0], none⟩ ⟨5, 1⟩
      (.user 0) (.text (js "ab"))) (listening [120])) (p := fun w => w.calls.isEmpty &&
        ((w.machine.heap 1).native.map Buffer.size == some 1)) (by decide +kernel)
    simp only [Bool.and_eq_true, List.isEmpty_iff, beq_iff_eq] at h
    refine ⟨w, hw, h.1, fun ⟨_, u, b, hb, hholds, _⟩ => ?_⟩
    rw [atRead, h.1] at hb
    have hsize := h.2
    rw [hb, Option.map_some, hholds.size_eq] at hsize
    cases hsize

end Watch
end V8h
