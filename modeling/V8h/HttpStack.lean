import V8h.HttpMultipart
import V8h.HttpSafety
/-!
# HttpStack — the calls nested under one event

A call in tail position is nested in the call that makes it.  A `Client` makes one for each stage of a request that is
in its buffer, so the stages that one `recv` brings are all on the stack before `Service::run` has it back.  When the
stack has no room for a call, V8 throws a `RangeError`.  How many calls of callbacks it has room for is a parameter, and
while there is room the process is that of `Process` (`step_of_room`), and there need not be room for all parts of one
chunk (`left_of_parts`).
-/
namespace V8h

open Machine Effect

/-- A process, and how many calls are nested below the one that `Service::run` made. -/
structure Stacked where
  process : Process
  depth   : Nat

/-- What comes next; user code that calls a method has `below` calls nested below it. -/
inductive Nested where
  | event (e : Event) (ans : Answers)
  | call (below client : Nat) (method : Method) (ans : Answers)
  | go (ans : Answers)

def Nested.input : Nested → Input
  | .event e ans              => .event e ans
  | .call _ client method ans => .call client method ans
  | .go ans                   => .go ans

namespace Process

/-- A `RangeError` instead of a call, which is not begun; it goes where an exception of the call goes. -/
def overflow (p : Process) : Input → Except Refusal Process
  | .event ..  => .error .unfit  -- the stack is empty
  | .call ..   =>
    if p.left = false ∧ p.task = none then ended true (.error (.throw .rangeError) p.machine) else .error .unfit
  | .go _      =>
    if p.left = false ∧ p.task.isSome then ended p.byUser (.error (.throw .rangeError) p.machine) else .error .unfit

theorem overflow_go {p : Process} {t : Task} {ans : Answers} (ht : p.task = some t) (hl : p.left = false) :
    p.overflow (.go ans) = ended p.byUser (.error (.throw .rangeError) p.machine) := by
  simp only [overflow, ht, hl, Option.isSome_some, and_self, if_true]

theorem ended_byUser {p : Process} {byUser : Bool} {x : EStateM.Result Stop Machine (Option Task)}
    (h : ended byUser x = .ok p) : p.byUser = byUser := by
  cases x with
  | ok task m =>
    cases h
    rfl
  | error e m =>
    cases e with
    | throw e =>
      cases h
      rfl
    | trap t => cases h

theorem byUser_of_event [V8] {p p' : Process} {e : Event} {ans : Answers} (hs : p.step (.event e ans) = .ok p') :
    p'.byUser = false := by
  obtain ⟨_, _, _, -, -, -, hend⟩ | ⟨_, _, _, h, -⟩ | ⟨_, _, h, -⟩ := step_cases hs
  · exact ended_byUser hend
  · cases h
  · cases h

theorem byUser_of_go [V8] {p p' : Process} {ans : Answers} (hs : p.step (.go ans) = .ok p') : p'.byUser = p.byUser := by
  obtain ⟨_, _, _, h, -⟩ | ⟨_, _, _, h, -⟩ | ⟨_, _, -, -, hend⟩ := step_cases hs
  · cases h
  · cases h
  · exact ended_byUser hend

end Process

namespace Stacked

/-- The calls that the next one is nested in. -/
def deep (s : Stacked) : Nested → Nat
  | .event ..       => 0
  | .call below ..  => below + 1
  | .go _           => s.depth + 1

section

variable [V8]

/-- `room`: how many calls of callbacks the stack has room for, in the one that `Service::run` makes. -/
def step (room : Nat) (s : Stacked) (i : Nested) : Except Refusal Stacked :=
  (if s.deep i ≤ room then s.process.step i.input else s.process.overflow i.input).map (⟨·, s.deep i⟩)

/-- The state when `Service::run` begins. -/
def initial (server : Int) : Stacked := ⟨Process.initial server, 0⟩

/-- The conditions on a step: those on a step of the process, and that the stack has room for the call. -/
def Answerable (room : Nat) (s : Stacked) (i : Nested) : Prop := s.process.Answerable i.input ∧ s.deep i ≤ room

instance (room : Nat) (s : Stacked) (i : Nested) : Decidable (s.Answerable room i) :=
  inferInstanceAs (Decidable (_ ∧ _ ≤ _))

variable {room k n : Nat} {s : Stacked} {i : Nested} {p p' : Process}

/-- **Where the stack has room**, a step is a step of the process. -/
theorem step_of_room (h : s.deep i ≤ room) : (step room s i).map (·.process) = s.process.step i.input := by
  rw [step, if_pos h]
  cases s.process.step i.input <;> rfl

theorem step_go_of_room {depth : Nat} (h : depth < room) (hs : p.step (.go .silent) = .ok p') :
    step room ⟨p, depth⟩ (.go .silent) = .ok ⟨p', depth + 1⟩ := by
  have hroom : deep ⟨p, depth⟩ (.go .silent) ≤ room := h
  rw [step, if_pos hroom]
  exact congrArg (Except.map _) hs

/-- **Without room**, a call that `Service::run` waits for ends its loop. -/
theorem step_go_of_full {t : Task} (ht : p.task = some t) (hl : p.left = false) (hu : p.byUser = false) :
    step room ⟨p, room⟩ (.go .silent) = .ok ⟨⟨p.machine, none, false, true⟩, room + 1⟩ := by
  have hfull : ¬ deep ⟨p, room⟩ (.go .silent) ≤ room := Nat.not_succ_le_self room
  rw [step, if_neg hfull]
  show Except.map _ (p.overflow (.go .silent)) = _
  rw [Process.overflow_go ht hl, hu]
  rfl

/-- **Each stage that is in the buffer is a call more**: when the stack has no room for all of them, the loop ends. -/
theorem left_of_path (laws : V8.Lawful) {r : Upload} {fd : Int} {hT : delimiter (kept r.boundary) ≠ []} {j : Nat}
    {stage f : Option ReadStage} {q t : List UInt8} (hn : n ≤ 2 ^ 61) (hp : (multipart _ hT).Path j stage q f t)
    (hlen : q.length < 2 ^ 31)
    (hheader : stage = some .header → ∀ rest, Seek.after crlf2 q = some rest → q = r.header ++ rest) :
    ∀ (p : Process) (depth : Nat), Process.Reached k fd n (delimiter (kept r.boundary)) stage q p → p.byUser = false →
      depth ≤ room → room < depth + j →
      ∃ s, (List.replicate (room + 1 - depth) (.go .silent)).foldlM (step room) ⟨p, depth⟩ = .ok s ∧
        s.process.left = true := by
  induction hp with
  | refl stage q => exact fun p depth _ _ hle hlt => absurd hlt (Nat.not_lt_of_le hle)
  | @step j stage stage' f q q' t hadvance _ ih =>
    intro p depth h hu hle hlt
    cases stage with
    | none => cases hadvance
    | some stage =>
      obtain ⟨hsuffix, hne, -⟩ := ReadStage.read_spec hadvance
      obtain ⟨p', t, ht, -, hstep, h'⟩ := h.go laws hn hlen hadvance fun hs => hheader (congrArg some hs)
      obtain ⟨_, _, _, -, hreads⟩ := h
      rcases Nat.lt_or_eq_of_le hle with hroom | rfl
      · obtain ⟨s, hs, hleft⟩ := ih (Nat.lt_of_le_of_lt hsuffix.length_le hlen) (fun h => absurd h hne) p' (depth + 1)
          h' ((Process.byUser_of_go hstep).trans hu) hroom (by omega)
        refine ⟨s, ?_, hleft⟩
        rw [show room + 1 - depth = room + 1 - (depth + 1) + 1 by omega, List.replicate_succ,
          Run.foldlM_cons_of_ok (step_go_of_room hroom hstep)]
        exact hs
      · refine ⟨⟨⟨p.machine, none, false, true⟩, depth + 1⟩, ?_, rfl⟩
        rw [Nat.add_sub_cancel_left, List.replicate_one, Run.foldlM_cons_of_ok (step_go_of_full ht hreads.left hu)]
        rfl

/-- **Too many parts in one chunk end the loop**, whatever their headers. -/
theorem left_of_parts (laws : V8.Lawful) {r : Upload} {fd : Int} {depth : Nat} (h : Process.Expecting k fd p)
    (hplain : Plain r.boundary) (hok : Process.Arrives k p r.bytes) (hroom : room < 3 * r.parts.length + 4) :
    ∃ s, (Nested.event ⟨fd, epollIn⟩ ⟨.data r.bytes, [], none⟩ ::
      List.replicate (room + 1) (.go .silent)).foldlM (step room) ⟨p, depth⟩ = .ok s ∧ s.process.left = true := by
  obtain ⟨U, hD, hnil, -, -⟩ := r.delimiter_kept laws
  rw [hnil.1 hplain, List.append_nil] at hD
  have hT := Upload.delimiter_ne_nil laws (kept r.boundary)
  obtain ⟨c, last, rfl, hreads⟩ := h.reads (delimiter (kept r.boundary))
  obtain ⟨hlen, p₁, hstep, h₁⟩ := hreads.event hT (r.short_kept laws) h.task (Nat.zero_le _) hok
  have hevent : step room ⟨p, depth⟩ (.event ⟨c.fd, epollIn⟩ ⟨.data r.bytes, [], none⟩) = .ok ⟨p₁, 0⟩ := by
    have hzero : deep ⟨p, depth⟩ (.event ⟨c.fd, epollIn⟩ ⟨.data r.bytes, [], none⟩) ≤ room := Nat.zero_le room
    rw [step, if_pos hzero]
    exact congrArg (Except.map _) hstep
  rw [List.nil_append] at hlen h₁
  rw [Run.foldlM_cons_of_ok hevent]
  exact left_of_path laws (by omega) (r.path_whole laws hT hD) hlen
    (fun _ _ => Process.Upload.eq_header List.prefix_rfl) p₁ 0 ⟨c, 0, last, rfl, h₁⟩
    (Process.byUser_of_event hstep) (Nat.zero_le room) (by omega)

/-- One part, whose seven calls a stack with room for six does not take. -/
example : ∃ s, ([Nested.event ⟨3, epollIn⟩ ⟨.data [], [], some 5⟩, .go .silent,
      .event ⟨5, epollIn⟩ ⟨.data (@Upload.bytes unitwise wholeUpload), [], none⟩] ++
      List.replicate 7 (Nested.go .silent)).foldlM (@step unitwise 6) (@initial unitwise 3) = .ok s ∧
      s.process.left = true :=
  Run.exists_of_any (by decide +kernel)

/-- **No client input stops the server** that sends no header with a `Content-Length` and no `Content-Type`, and no more
stages in one chunk than the stack has room for: in every run whose events come on fds with an error callback,
`Service::run` never leaves its loop. -/
theorem loop_goes_on (room : Nat) (server : Int) (inputs : List Nested)
    (h : Run.Along (step room) (Answerable room) (initial server) inputs) :
    ∀ s, inputs.foldlM (step room) (initial server) = .ok s → s.process.left = false := by
  intro s hs
  have hstep : ∀ s i, Answerable room s i → (step room s i).map (·.process) = s.process.step i.input :=
    fun _ _ hok => step_of_room hok.2
  have hrun := Run.map_of_along hstep inputs _ h
  rw [hs] at hrun
  exact (Process.run_serves (h.map hstep fun _ _ hok => hok.1) hrun.symm).left

end

/-- A request without a body, and its reply. -/
theorem loop_goes_on_get : ∃ s, [Nested.event ⟨3, epollIn⟩ ⟨.data [], [], some 5⟩, .go .silent,
      .event ⟨5, epollIn⟩ ⟨.data (@V8.utf8 ascii (js "GET / HTTP/1.1\r\n\r\n")), [], none⟩, .go .silent, .go .silent,
      .call 2 0 (.write (js "ok")) .silent, .call 2 0 .finish ⟨.data [], [.accept 9], none⟩,
      .go .silent].foldlM (@step ascii 4) (@initial ascii 3) = .ok s ∧ s.process.left = false := by
  obtain ⟨s, hs, -⟩ := Run.exists_of_any
    (x := [Nested.event ⟨3, epollIn⟩ ⟨.data [], [], some 5⟩, .go .silent,
      .event ⟨5, epollIn⟩ ⟨.data (@V8.utf8 ascii (js "GET / HTTP/1.1\r\n\r\n")), [], none⟩, .go .silent, .go .silent,
      .call 2 0 (.write (js "ok")) .silent, .call 2 0 .finish ⟨.data [], [.accept 9], none⟩,
      .go .silent].foldlM (@step ascii 4) (@initial ascii 3)) (p := fun _ => true) (by decide +kernel)
  exact ⟨s, hs, @loop_goes_on ascii 4 3 _ (by decide +kernel) s hs⟩

/-- **A header with a `Content-Length` and no `Content-Type` ends the loop.** -/
theorem loop_left : ∃ s, [Nested.event ⟨3, epollIn⟩ ⟨.data [], [], some 5⟩, .go .silent,
      .event ⟨5, epollIn⟩ ⟨.data (@V8.utf8 ascii (js "GET / HTTP/1.1\r\nContent-Length: 1\r\n\r\n")), [], none⟩,
      .go .silent].foldlM (@step ascii 4) (@initial ascii 3) = .ok s ∧ s.process.left = true :=
  Run.exists_of_any (by decide +kernel)

end Stacked
end V8h
