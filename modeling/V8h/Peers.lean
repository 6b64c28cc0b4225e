import V8h.ReadLoop
import V8h.SocketWrites
/-!
# Peers — a process that writes messages, and a process that reads them

Two processes with a connection between them.  The one writes messages with `writeUtf8` and `writeBuffer`, one at a
time and each ended by a delimiter; the other reads up to the delimiter in a loop.  The bytes the kernel took are on
their way until the reader's `recv` gets the next of them.  However the writes, the reads and everything else the
processes do are interleaved, the messages are read as they were written, in order and once each (`messages_in_order`).
-/
namespace V8h

open Machine Effect Socket
open Watch (Traffic Written Lined InTurn issued)

/-- `taken` is how many of the bytes sent have been received. -/
structure Peers (σ : Type) where
  sender   : Watch
  receiver : ReadLoop σ
  taken    : Nat

namespace Peers

/-- One of the processes goes on. -/
inductive Input where
  | sends (t : Traffic)
  | reads (i : ReadLoop.Input)

variable {σ : Type} [V8] (R : Reader σ) (out : Int) (c : Nat) (fd : Int) (buffer : Nat) (callback : Cont)

def step (p : Peers σ) : Input → Except Stop (Peers σ)
  | .sends t => do return { p with sender := ← p.sender.traffic out t }
  | .reads i => do return { p with
      receiver := ← p.receiver.step R fd buffer callback i, taken := p.taken + i.chunk.length }

/-- A message is issued when none is being sent, and ends with its first delimiter; `recv` gets the next of the bytes
that were sent on the connection `c`. -/
def Fair (D : List UInt8) (p : Peers σ) : Input → Prop
  | .sends t => p.sender.Alone out t ∧
    ∀ w ∈ Watch.issue t, IsLeast {i | D <+: w.1.drop i} (w.1.length - D.length)
  | .reads i => p.receiver.Fair R fd buffer i ∧ i.chunk <+: (p.sender.machine.kernel.sent c).drop p.taken

/-- The messages issued. -/
def messages (is : List Input) : List (List UInt8) :=
  is.filterMap fun
    | .sends t => (Watch.issue t).map Prod.fst
    | .reads _ => none

/-- The writes issued, as `Watch.issued` lists them. -/
def written (l : List Written) : Input → List Written
  | .sends t => issued l t
  | .reads _ => l

/-- What was sent on the connection is what the writes gave, and the reader is where its scanner is on the bytes
taken. -/
structure Linked (D : List UInt8) (s₀ : σ) (l : List Written) (p : Peers σ) : Prop where
  lined : Lined out c [] p.sender l
  turn  : InTurn l
  ends  : ∀ x ∈ (l.map Written.issue).map Prod.fst, IsLeast {i | D <+: x.drop i} (x.length - D.length)
  le    : p.taken ≤ (p.sender.machine.kernel.sent c).length
  reads : ∃ n rest, ReadLoop.Reads R fd buffer callback s₀ ((p.sender.machine.kernel.sent c).take p.taken) n rest
    p.receiver

variable {R out c fd buffer callback} {s₀ : σ} {l : List Written} {p p' : Peers σ} {D : List UInt8}

theorem step_sends {t : Traffic} {w : Watch} (h : p.sender.traffic out t = .ok w) :
    p.step R out fd buffer callback (.sends t) = .ok { p with sender := w } := by
  rw [step, h]
  rfl

theorem step_reads {i : ReadLoop.Input} {r : ReadLoop σ} (h : p.receiver.step R fd buffer callback i = .ok r) :
    p.step R out fd buffer callback (.reads i) =
      .ok { p with receiver := r, taken := p.taken + i.chunk.length } := by
  rw [step, h]
  rfl

theorem accepted_issued (l : List Written) (t : Traffic) :
    Outbox.acceptedBy (l.map Written.box) <+: Outbox.acceptedBy ((issued l t).map Written.box) := by
  cases t with
  | writeBuffer buffer q callback ans => exact List.prefix_append _ _
  | writeUtf8 text callback ans => exact List.prefix_append _ _
  | turn t =>
    cases t with
    | other m => exact List.prefix_rfl
    | event e ans =>
      cases l with
      | nil => exact List.prefix_rfl
      | cons w l =>
        simp only [issued, List.map_cons, Outbox.acceptedBy]
        exact (List.prefix_append_right_inj _).2 (Outbox.offer_grows _ _)

/-- **The writer goes on**: what was sent stays sent. -/
theorem Linked.sends (h : Linked R out c fd buffer callback D s₀ l p) {t : Traffic} (hok : p.sender.Alone out t)
    (hends : ∀ w ∈ Watch.issue t, IsLeast {i | D <+: w.1.drop i} (w.1.length - D.length)) :
    ∃ p', p.step R out fd buffer callback (.sends t) = .ok p' ∧
      Linked R out c fd buffer callback D s₀ (issued l t) p' := by
  obtain ⟨w, hw, hlined⟩ := Watch.traffic_lined h.lined hok.1
  obtain ⟨e, he⟩ : p.sender.machine.kernel.sent c <+: w.machine.kernel.sent c := by
    rw [h.lined.sent, hlined.sent, List.nil_append, List.nil_append]
    exact accepted_issued l t
  have hle := h.le
  refine ⟨{ p with sender := w }, step_sends hw, hlined, Watch.issued_inTurn h.lined h.turn hok, ?_, ?_, ?_⟩
  · intro x hx
    rw [Watch.issued_issue, List.map_append, List.mem_append, List.mem_map] at hx
    rcases hx with ⟨w, hw, rfl⟩ | hx
    · exact hends w (Option.mem_toList.1 hw)
    · exact h.ends x hx
  · show p.taken ≤ (w.machine.kernel.sent c).length
    rw [← he, List.length_append]
    omega
  · show ∃ n rest, ReadLoop.Reads R fd buffer callback s₀ ((w.machine.kernel.sent c).take p.taken) n rest p.receiver
    rw [← he, List.take_append_of_le_length hle]
    exact h.reads

/-- **The reader goes on**: `recv` gets the next bytes. -/
theorem Linked.receives (h : Linked R out c fd buffer callback D s₀ l p) {i : ReadLoop.Input}
    (hok : p.receiver.Fair R fd buffer i) (hchunk : i.chunk <+: (p.sender.machine.kernel.sent c).drop p.taken) :
    ∃ p', p.step R out fd buffer callback (.reads i) = .ok p' ∧ Linked R out c fd buffer callback D s₀ l p' := by
  obtain ⟨n, rest, hreads⟩ := h.reads
  obtain ⟨r, rest', hr, hreads'⟩ := ReadLoop.step_reads hreads hok
  have htake : (p.sender.machine.kernel.sent c).take (p.taken + i.chunk.length) =
      (p.sender.machine.kernel.sent c).take p.taken ++ i.chunk := by
    rw [List.take_add, ← List.prefix_iff_eq_take.1 hchunk]
  refine ⟨{ p with receiver := r, taken := p.taken + i.chunk.length }, step_reads hr, h.lined, h.turn, h.ends, ?_,
    n + i.reads, rest', ?_⟩
  · have hlen := hchunk.length_le
    have hle := h.le
    rw [List.length_drop] at hlen
    show p.taken + i.chunk.length ≤ (p.sender.machine.kernel.sent c).length
    omega
  · show ReadLoop.Reads R fd buffer callback s₀ ((p.sender.machine.kernel.sent c).take (p.taken + i.chunk.length)) _ _ r
    rwa [htake]

/-- **One step.** -/
theorem step_linked {i : Input} (h : Linked R out c fd buffer callback D s₀ l p)
    (hok : p.Fair R out c fd buffer D i) : ∃ p', p.step R out fd buffer callback i = .ok p' ∧
      Linked R out c fd buffer callback D s₀ (written l i) p' := by
  cases i with
  | sends t => exact h.sends hok.1 hok.2
  | reads i => exact h.receives hok.1 hok.2

theorem foldl_written : ∀ (is : List Input) (l : List Written),
    ((is.foldl written l).map Written.issue).map Prod.fst =
      (messages is).reverse ++ (l.map Written.issue).map Prod.fst
  | [], _ => rfl
  | i :: is, l => by
    rw [List.foldl_cons, foldl_written is, messages, messages, List.filterMap_cons]
    cases i with
    | reads i => rfl
    | sends t =>
      simp only [written, Watch.issued_issue]
      cases Watch.issue t <;> simp

/-- **What was sent comes first in the messages**, and is all of them once no write waits. -/
theorem Linked.sent (h : Linked R out c fd buffer callback D s₀ l p) :
    p.sender.machine.kernel.sent c <+: ((l.reverse.map Written.issue).map Prod.fst).flatten ∧
    (¬ p.sender.Pending out →
      p.sender.machine.kernel.sent c = ((l.reverse.map Written.issue).map Prod.fst).flatten) := by
  have hsent : p.sender.machine.kernel.sent c = (l.reverse.map fun e => e.box.accepted).flatten := by
    rw [h.lined.sent, List.nil_append, Outbox.acceptedBy_eq_flatten, ← List.map_reverse, List.map_map]
    rfl
  rw [hsent]
  refine ⟨h.turn.accepted.1, ?_⟩
  intro hidle
  have hdone := h.lined.complete h.turn hidle
  rw [List.map_map]
  refine congrArg List.flatten (List.map_congr_left ?_)
  intro e he
  show e.box.accepted = e.box.accepted ++ e.box.rest
  rw [hdone e (List.mem_reverse.1 he), List.append_nil]

/-! ## Lines -/

section

variable {delim n : Nat} {hD : D ≠ [] ∧ D.length < 2 ^ 31} {ls ls' : List JsString} {x q r : List UInt8}

theorem advance_line (hx : IsLeast {i | D <+: x.drop i} (x.length - D.length)) (e : List UInt8) :
    (Reader.lines delim D hD).scanner.advance ls (x ++ e) = some (ls ++ [V8.fromUtf8 x], e) := by
  have hin : D <:+: x := (show D <+: _ from hx.1).isInfix.trans (List.drop_suffix _ x).isInfix
  have hle : D.length ≤ x.length := hin.length_le
  have hmet : (Want.token delim D).Met (x ++ e) := hin.trans (List.prefix_append x e).isInfix
  have hlen : (Want.token delim D).length (x ++ e) = x.length := by
    have hlater := Seek.firstPartial_of_isLeast (Seek.isLeast_append hD.1 hx e)
    simp only [Want.length, hlater]
    omega
  rw [Reader.advance_of_met rfl hmet, hlen, List.take_left, List.drop_left]
  rfl

theorem advance_nothing : (Reader.lines delim D hD).scanner.advance ls [] = none := by
  refine Reader.advance_of_not_met rfl ?_
  intro hmet
  exact hD.1 (List.infix_nil.1 hmet)

/-- **The lines of a stream of messages are the messages.** -/
theorem path_lines : ∀ {xs : List (List UInt8)} (ls : List JsString),
    (∀ x ∈ xs, IsLeast {i | D <+: x.drop i} (x.length - D.length)) →
    (Reader.lines delim D hD).scanner.Path xs.length ls xs.flatten (ls ++ xs.map V8.fromUtf8) []
  | [],      ls, _ => by
    simp only [List.map_nil, List.append_nil]
    exact .refl ls []
  | x :: xs, ls, h => by
    have hrest := path_lines (ls ++ [V8.fromUtf8 x]) fun y hy => h y (List.mem_cons_of_mem x hy)
    rw [List.append_assoc, List.singleton_append] at hrest
    exact .step (advance_line (h x List.mem_cons_self) xs.flatten) hrest

/-- Lines read stay read. -/
theorem lines_grow (h : (Reader.lines delim D hD).scanner.Path n ls q ls' r) : ls <+: ls' := by
  induction h with
  | refl ls q => exact List.prefix_rfl
  | @step n ls ls₁ ls' q r t h _ ih =>
    by_cases hmet : (Want.token delim D).Met q
    · rw [Reader.advance_of_met rfl hmet] at h
      obtain ⟨rfl, -⟩ := Prod.mk.inj (Option.some.inj h)
      exact (List.prefix_append _ _).trans ih
    · rw [Reader.advance_of_not_met rfl hmet] at h
      cases h

/-- **The messages are read as they were written**, however the writes, the reads and everything else are interleaved:
in order and once each, and all of them once no write waits, everything sent is taken and no call is left. -/
theorem messages_in_order {m m' : Machine} (hconn : m.kernel.conn out = some c) (hsent : m.kernel.sent c = [])
    (hidle : ¬ Watch.Pending out ⟨m, [], []⟩) (hne : delim ≠ buffer) (hdelim : m'.Stores delim D (2 ^ 61))
    (hs : m'.Stores buffer [] (2 ^ 61)) :
    ∃ r, ReadLoop.start (Reader.lines delim D hD) fd buffer callback [] m' = .ok r ∧
      ∀ is, Run.Along (step (Reader.lines delim D hD) out fd buffer callback)
          (Fair (Reader.lines delim D hD) out c fd buffer D) ⟨⟨m, [], []⟩, r, 0⟩ is →
        ∃ p, is.foldlM (step (Reader.lines delim D hD) out fd buffer callback) ⟨⟨m, [], []⟩, r, 0⟩ = .ok p ∧
          p.receiver.state <+: (messages is).map V8.fromUtf8 ∧
          (¬ p.sender.Pending out → p.taken = (p.sender.machine.kernel.sent c).length → p.receiver.task = none →
            p.receiver.state = (messages is).map V8.fromUtf8 ∧ p.receiver.machine.Stores buffer [] (2 ^ 61)) := by
  have hequipped : ReadLoop.Equipped (Reader.lines delim D hD) buffer m' := by
    intro ls delim' D' hw
    cases hw
    exact ⟨hne, hdelim⟩
  obtain ⟨r, hstart, -, hreads⟩ := ReadLoop.reads_of_proceed (R := Reader.lines delim D hD) fd callback (.refl [] [])
    hequipped hs (show ([] : List UInt8).length < 2 ^ 31 by decide)
  refine ⟨r, hstart, ?_⟩
  intro is hok
  have hlinked : Linked (Reader.lines delim D hD) out c fd buffer callback D [] [] ⟨⟨m, [], []⟩, r, 0⟩ :=
    ⟨⟨hconn, hsent, rfl, hidle⟩, List.forall_mem_nil _, List.forall_mem_nil _, Nat.zero_le _, 0, [], hreads⟩
  have hstep : ∀ p l i, Linked (Reader.lines delim D hD) out c fd buffer callback D [] l p →
      p.Fair (Reader.lines delim D hD) out c fd buffer D i →
      ∃ p', p.step (Reader.lines delim D hD) out fd buffer callback i = .ok p' ∧
        Linked (Reader.lines delim D hD) out c fd buffer callback D [] (written l i) p' := by
    intro p l i h hok
    exact step_linked h hok
  obtain ⟨p, hrun, hp⟩ := Run.simulates hstep is _ [] hlinked hok
  have hissued : ((is.foldl written []).reverse.map Written.issue).map Prod.fst = messages is := by
    rw [List.map_reverse, List.map_reverse, foldl_written is [], List.map_nil, List.map_nil, List.append_nil,
      List.reverse_reverse]
  obtain ⟨hsome, hall⟩ := hp.sent
  rw [hissued] at hsome hall
  have hpath : (Reader.lines delim D hD).scanner.Path (messages is).length [] (messages is).flatten
      ((messages is).map V8.fromUtf8) [] := by
    refine path_lines [] ?_
    intro x hx
    refine hp.ends x ?_
    rwa [foldl_written is [], List.map_nil, List.map_nil, List.append_nil, List.mem_reverse]
  obtain ⟨k, rest, hreads'⟩ := hp.reads
  refine ⟨p, hrun, ?_, ?_⟩
  · obtain ⟨e, he⟩ := (List.take_prefix p.taken (p.sender.machine.kernel.sent c)).trans hsome
    rw [← he] at hpath
    obtain ⟨j, -, hrest⟩ := hreads'.path.rest e hpath advance_nothing
    exact lines_grow hrest
  · intro hover htaken htask
    rw [htaken, List.take_length, hall hover] at hreads'
    exact (hreads'.ends hpath advance_nothing).2.2 htask

end

end Peers

namespace Peers

open Machine Effect Socket

def arrival : ReadLoop.Input := .event ⟨5, epollIn⟩ ⟨.data [65, 10], [], none⟩

/-- A line is written, arrives and is read. -/
def oneLine : List Input := [.sends (Watch.write (js "A\n") 0 [.accept 7]), .reads arrival, .reads .go]

theorem messages_in_order_one : ∃ r p,
    ReadLoop.start (Reader.lines 0 [10] (by decide)) 5 2 (.user 0) [] (Machine.listening [10]) = .ok r ∧
    oneLine.foldlM (@step _ ascii (Reader.lines 0 [10] (by decide)) 5 5 2 (.user 0))
      ⟨⟨Machine.listening [0], [], []⟩, r, 0⟩ = .ok p ∧ p.receiver.state <+: [[65, 10]] ∧
    (¬ p.sender.Pending 5 → p.taken = (p.sender.machine.kernel.sent 0).length → p.receiver.task = none →
      p.receiver.state = [[65, 10]] ∧ p.receiver.machine.Stores 2 [] (2 ^ 61)) := by
  have hempty : Buffer.Holds 64 (Buffer.new 512) [] := Buffer.new_spec (by decide) (by decide)
  have hidle : ¬ Watch.Pending 5 ⟨Machine.listening [0], [], []⟩ := by
    rintro ⟨buffer, callback, h⟩
    cases h
  obtain ⟨r, hr, h⟩ := @messages_in_order ascii 5 0 5 2 (.user 0) [10] 0 (by decide) (Machine.listening [0])
    (Machine.listening [10]) rfl rfl hidle (by decide) ⟨_, rfl, Buffer.full_holds (by decide) (by decide), by decide⟩
    ⟨_, rfl, hempty, by decide⟩
  obtain ⟨r₁, hr₁, h₂⟩ := Run.exists_of_any
    (x := ReadLoop.start (Reader.lines 0 [10] (by decide)) 5 2 (.user 0) [] (Machine.listening [10]))
    (p := fun r => (@ReadLoop.step _ ascii (Reader.lines 0 [10] (by decide)) 5 2 (.user 0) r arrival).toOption.any
      fun r => r.task.isSome) (by decide +kernel)
  obtain rfl := Except.ok.inj (hr₁.symm.trans hr)
  obtain ⟨r₂, hr₂, htask⟩ := Run.exists_of_any h₂
  have hr₀ : r₁ = _ := Except.ok.inj (hr.symm.trans rfl)
  subst hr₀
  obtain ⟨b₁, hprep, hremain⟩ := Buffer.prepare_remain hempty (Buffer.fits_of_le (n := 8192) (by decide))
  obtain ⟨w₁, hw₁, h₁⟩ := Run.exists_of_any
    (x := @Watch.traffic ascii 5 ⟨Machine.listening [0], [], []⟩ (Watch.write (js "A\n") 0 [.accept 7]))
    (p := fun w => decide (w.machine.kernel.sent 0 = [65, 10])) (by decide +kernel)
  have hsent : w₁.machine.kernel.sent 0 = [65, 10] := of_decide_eq_true h₁
  have hfair := Watch.fair_write ⟨Machine.listening [0], [], []⟩ (js "A\n") 0 7 rfl (by decide)
  obtain ⟨p, hp, hsome, hall⟩ := h oneLine (by
    refine ⟨⟨⟨hfair, fun _ => hidle⟩, ?_⟩, ?_⟩
    · intro w hw
      cases hw
      exact Seek.isLeast_of_not_mem (x := [65]) (by decide) [] []
    · intro p₁ hp₁
      obtain rfl := Except.ok.inj ((@step_sends _ ascii _ _ _ _ _ ⟨⟨Machine.listening [0], [], []⟩, _, 0⟩ _ _
        hw₁).symm.trans hp₁)
      refine ⟨⟨⟨rfl, rfl, rfl, rfl, [65, 10], _, ⟨rfl, rfl, by decide, _, b₁, rfl, hprep, ?_⟩, rfl, by decide,
        by decide⟩, ?_⟩, ?_⟩
      · exact Nat.le_trans (by decide) hremain
      · show [65, 10] <+: (w₁.machine.kernel.sent 0).drop 0
        rw [hsent]
        exact List.prefix_rfl
      · intro p₂ hp₂
        obtain rfl := Except.ok.inj ((@step_reads _ ascii _ _ _ _ _ _ _ _ hr₂).symm.trans hp₂)
        exact ⟨⟨htask, List.nil_prefix⟩, fun _ _ => trivial⟩)
  exact ⟨_, p, hr, hp, hsome, hall⟩

end Peers
end V8h
