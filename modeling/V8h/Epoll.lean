import V8h.ServiceRun
import V8h.Lib.Run
/-!
# Epoll — the callback table and the kernel's interest set

`in` and `out` ask for `EPOLL_CTL_MOD` when the fd is a key of `fds` and for `EPOLL_CTL_ADD` when it is not, and nobody
looks at the answer.  So the keys of `fds` are the interest set exactly as long as no fd becomes a key that the kernel
cannot watch (`table_agrees_iff`).  An fd that is not open stays a key, and the socket that gets its number next is not
watched (`stale_key`).
-/
namespace V8h

/-- The kernel's side of an epoll instance: the open fds, each with whether it can be watched, and the interest set. -/
structure Epoll where
  files    : Int → Option Bool
  interest : Int → Option (BitVec 32)

namespace Epoll

/-- `epoll_ctl`, and whether it succeeded. -/
def ctl (k : Epoll) : EpollCtl → Epoll × Bool
  | .add fd events =>
    if k.files fd = some true ∧ k.interest fd = none then
      ({ k with interest := Function.update k.interest fd (some events) }, true)
    else (k, false)
  | .mod fd events =>
    if (k.interest fd).isSome then ({ k with interest := Function.update k.interest fd (some events) }, true)
    else (k, false)
  | .del fd        =>
    if (k.interest fd).isSome then ({ k with interest := Function.update k.interest fd none }, true)
    else (k, false)

/-- `close(2)`: a closed file leaves the interest set. -/
def close (k : Epoll) (fd : Int) : Epoll :=
  ⟨Function.update k.files fd none, Function.update k.interest fd none⟩

end Epoll

/-- The service and the kernel. -/
structure Polled (φ : Type) where
  service : Service (JsValue φ)
  epoll   : Epoll

namespace Polled

open Service

variable {φ : Type}

/-- What happens: an operation on the service, or the kernel gives a number that is not in use to a new file. -/
inductive Op (φ : Type) where
  | table (op : TableOp φ)
  | opened (fd : Int) (pollable : Bool)

/-- The `epoll_ctl` an operation asks for. -/
def asks (s : Service (JsValue φ)) : TableOp φ → Option EpollCtl
  | .pollIn fd f         => some (s.pollIn fd f).2
  | .pollOut fd f        => some (s.pollOut fd f).2
  | .error _ _           => none
  | .del fd | .close fd  => (s.del fd).2

/-- The kernel's answer to it. -/
def answer (p : Polled φ) (op : TableOp φ) : Option (Epoll × Bool) := (asks p.service op).map p.epoll.ctl

/-- An operation; `Socket.close` is `$del` and then `close(2)`. -/
def table (p : Polled φ) (op : TableOp φ) : Polled φ :=
  let epoll := ((p.answer op).map Prod.fst).getD p.epoll
  ⟨p.service.apply op, match op with
    | .close fd => epoll.close fd
    | _         => epoll⟩

/-- Opening an fd that is open already is refused. -/
def step (p : Polled φ) : Op φ → Except Unit (Polled φ)
  | .table op           => .ok (p.table op)
  | .opened fd pollable =>
    if p.epoll.files fd = none then
      .ok { p with epoll := { p.epoll with files := Function.update p.epoll.files fd (some pollable) } }
    else .error ()

/-- A new service; some fds are open. -/
def start (files : Int → Option Bool) : Polled φ := ⟨Service.new, ⟨files, fun _ => none⟩⟩

/-- The keys of `fds` are the interest set. -/
def Agrees (p : Polled φ) : Prop := ∀ fd, (p.service.fds fd).isSome = (p.epoll.interest fd).isSome

/-- The events an operation asks the kernel to watch an fd for. -/
def requests : TableOp φ → Option (Int × BitVec 32)
  | .pollIn fd _                    => some (fd, epollIn)
  | .pollOut fd _                   => some (fd, epollOut)
  | .error _ _ | .del _ | .close _  => none

/-- What the table promises of an operation: afterwards it agrees with the kernel, an open fd is watched for what was
asked, and nothing has changed when `epoll_ctl` failed. -/
structure Faithful (p : Polled φ) (op : TableOp φ) : Prop where
  agrees  : (p.table op).Agrees
  watched : ∀ fd events, requests op = some (fd, events) → p.epoll.files fd ≠ none →
    (p.table op).epoll.interest fd = some events
  failed  : ∀ k, p.answer op = some (k, false) →
    (p.table op).service.fds = p.service.fds ∧ (p.table op).service.fdsNumber = p.service.fdsNumber

/-- Promised of every operation; a new file changes nothing. -/
def Kept (p : Polled φ) : Op φ → Prop
  | .table op   => p.Faithful op
  | .opened _ _ => True

/-- An fd that `in` or `out` makes a key can be watched. -/
def Watchable (p : Polled φ) : Op φ → Prop
  | .table op   => ∀ fd events, requests op = some (fd, events) → (p.service.fds fd).isSome ∨
    p.epoll.files fd = some true
  | .opened _ _ => True

/-- The table agrees with the kernel, and the kernel watches what can be watched. -/
structure Sound (p : Polled φ) : Prop where
  agrees : p.Agrees
  files  : ∀ fd, (p.epoll.interest fd).isSome → p.epoll.files fd = some true

variable {p p' : Polled φ} {op : TableOp φ} {fd : Int} {events : BitVec 32}

theorem table_request (h : requests op = some (fd, events)) :
    asks p.service op = some (if (p.service.fds fd).isSome then .mod fd events else .add fd events) ∧
    (∃ f, (p.table op).service.fds = Function.update p.service.fds fd (some f)) ∧
    (p.table op).epoll = (p.epoll.ctl (if (p.service.fds fd).isSome then .mod fd events else .add fd events)).1 := by
  cases op with
  | pollIn fd' f =>
    obtain ⟨rfl, rfl⟩ := Prod.mk.inj (Option.some.inj h)
    have hasks : asks p.service (.pollIn fd' f) =
        some (if (p.service.fds fd').isSome then .mod fd' epollIn else .add fd' epollIn) := by
      simp only [asks, Service.pollIn, inOrOut]
      split <;> rfl
    refine ⟨hasks, ⟨f, pollIn_fds p.service fd' f⟩, ?_⟩
    simp only [table, answer, hasks, Option.map_some, Option.getD_some]
  | pollOut fd' f =>
    obtain ⟨rfl, rfl⟩ := Prod.mk.inj (Option.some.inj h)
    have hasks : asks p.service (.pollOut fd' f) =
        some (if (p.service.fds fd').isSome then .mod fd' epollOut else .add fd' epollOut) := by
      simp only [asks, Service.pollOut, inOrOut]
      split <;> rfl
    refine ⟨hasks, ⟨f, pollOut_fds p.service fd' f⟩, ?_⟩
    simp only [table, answer, hasks, Option.map_some, Option.getD_some]
  | error fd' f => cases h
  | del fd' => cases h
  | close fd' => cases h

/-- **The kernel does what `in` and `out` ask** for an fd it can watch. -/
theorem Sound.ctl_request (h : p.Sound) (events : BitVec 32)
    (hw : (p.service.fds fd).isSome ∨ p.epoll.files fd = some true) :
    p.epoll.ctl (if (p.service.fds fd).isSome then .mod fd events else .add fd events) =
      ({ p.epoll with interest := Function.update p.epoll.interest fd (some events) }, true) := by
  have hagrees := h.agrees fd
  by_cases hkey : (p.service.fds fd).isSome
  · rw [if_pos hkey, Epoll.ctl, if_pos (hagrees ▸ hkey)]
  · have hnone : p.epoll.interest fd = none := by
      rw [← Option.not_isSome_iff_eq_none, ← hagrees]
      exact hkey
    rw [if_neg hkey, Epoll.ctl, if_pos ⟨hw.resolve_left hkey, hnone⟩]

/-- **The kernel does what `del` asks.** -/
theorem Sound.answer_del (h : p.Sound) (fd : Int) :
    (((p.service.del fd).2.map p.epoll.ctl).map Prod.fst).getD p.epoll =
      { p.epoll with interest := Function.update p.epoll.interest fd none } ∧
    ∀ k, (p.service.del fd).2.map p.epoll.ctl ≠ some (k, false) := by
  have hagrees := h.agrees fd
  unfold Service.del
  by_cases hkey : (p.service.fds fd).isSome
  · have hctl : p.epoll.ctl (.del fd) =
        ({ p.epoll with interest := Function.update p.epoll.interest fd none }, true) := by
      rw [Epoll.ctl, if_pos (hagrees ▸ hkey)]
    simp only [if_pos hkey, Option.map_some, hctl, Option.getD_some]
    exact ⟨trivial, fun k hk => nomatch congrArg Prod.snd (Option.some.inj hk)⟩
  · have hnone : p.epoll.interest fd = none := by
      rw [← Option.not_isSome_iff_eq_none, ← hagrees]
      exact hkey
    simp only [if_neg hkey, Option.map_none, Option.getD_none]
    refine ⟨?_, fun k hk => nomatch hk⟩
    rw [← hnone, Function.update_eq_self]

theorem Agrees.update {fds : Int → Option (JsValue φ)} {interest : Int → Option (BitVec 32)}
    (h : ∀ fd, (fds fd).isSome = (interest fd).isSome) {a : Option (JsValue φ)} {b : Option (BitVec 32)}
    (hab : a.isSome = b.isSome) (fd fd' : Int) :
    (Function.update fds fd a fd').isSome = (Function.update interest fd b fd').isSome := by
  by_cases he : fd' = fd
  · rw [he, Function.update_self, Function.update_self, hab]
  · rw [Function.update_of_ne he, Function.update_of_ne he, h]

/-- **One operation.** -/
theorem Sound.table (h : p.Sound) (hw : Watchable p (.table op)) : p.Faithful op ∧ (p.table op).Sound := by
  cases hreq : requests op with
  | some request =>
    obtain ⟨fd, events⟩ := request
    obtain ⟨hasks, ⟨f, hfds⟩, hepoll⟩ := table_request hreq
    have hctl := h.ctl_request events (hw fd events hreq)
    rw [hctl] at hepoll
    have hagrees : (p.table op).Agrees := fun fd' => by
      rw [hfds, hepoll]
      exact Agrees.update h.agrees rfl fd fd'
    refine ⟨⟨hagrees, fun fd' events' hreq' _ => ?_, fun k hk => ?_⟩, hagrees, fun fd' hin => ?_⟩
    · obtain ⟨rfl, rfl⟩ := Prod.mk.inj (Option.some.inj (hreq.symm.trans hreq'))
      rw [hepoll]
      exact Function.update_self ..
    · rw [answer, hasks, Option.map_some, hctl] at hk
      cases hk
    · rw [hepoll] at hin ⊢
      by_cases he : fd' = fd
      · rw [he]
        refine (hw fd events hreq).elim (fun hkey => h.files fd ?_) id
        rwa [← h.agrees fd]
      · exact h.files fd' (by simpa only [Function.update_of_ne he] using hin)
  | none =>
    cases op with
    | pollIn fd f => cases hreq
    | pollOut fd f => cases hreq
    | error fd f => exact ⟨⟨h.agrees, (fun _ _ h => nomatch h), (fun _ h => nomatch h)⟩, h.agrees, h.files⟩
    | del fd =>
      obtain ⟨hepoll, hanswer⟩ := h.answer_del fd
      have hepoll : (p.table (.del fd)).epoll =
          { p.epoll with interest := Function.update p.epoll.interest fd none } := hepoll
      have hagrees : (p.table (.del fd)).Agrees := fun fd' => by
        rw [hepoll]
        exact (congrArg Option.isSome (congrFun (del_fds p.service fd) fd')).trans (Agrees.update h.agrees rfl fd fd')
      refine ⟨⟨hagrees, (fun _ _ h => nomatch h), fun k hk => absurd hk (hanswer k)⟩, hagrees, fun fd' hin => ?_⟩
      rw [hepoll] at hin ⊢
      by_cases he : fd' = fd
      · simp [he] at hin
      · exact h.files fd' (by simpa only [Function.update_of_ne he] using hin)
    | close fd =>
      obtain ⟨hepoll, hanswer⟩ := h.answer_del fd
      have hepoll : (p.table (.close fd)).epoll = p.epoll.close fd :=
        (congrArg (Epoll.close · fd) hepoll).trans (by simp [Epoll.close])
      have hagrees : (p.table (.close fd)).Agrees := fun fd' => by
        rw [hepoll]
        exact (congrArg Option.isSome (congrFun (del_fds p.service fd) fd')).trans (Agrees.update h.agrees rfl fd fd')
      refine ⟨⟨hagrees, (fun _ _ h => nomatch h), fun k hk => absurd hk (hanswer k)⟩, hagrees, fun fd' hin => ?_⟩
      rw [hepoll] at hin ⊢
      by_cases he : fd' = fd
      · simp [he, Epoll.close] at hin
      · show Function.update p.epoll.files fd none fd' = some true
        rw [Function.update_of_ne he]
        exact h.files fd' (by simpa only [Epoll.close, Function.update_of_ne he] using hin)

/-- **A new key the kernel cannot watch** is not in the interest set. -/
theorem Sound.watchable (h : p.Sound) (hf : (p.table op).Agrees) : Watchable p (.table op) := by
  intro fd events hreq
  obtain ⟨-, ⟨f, hfds⟩, hepoll⟩ := table_request hreq
  by_cases hkey : (p.service.fds fd).isSome
  · exact .inl hkey
  · right
    by_contra hfile
    have hnone : p.epoll.interest fd = none := by
      rw [← Option.not_isSome_iff_eq_none, ← h.agrees fd]
      exact hkey
    have hafter := hf fd
    rw [hfds, hepoll, if_neg hkey, Epoll.ctl, if_neg (fun h => hfile h.1), Function.update_self, hnone] at hafter
    cases hafter

/-- **One step.** -/
theorem Sound.step {i : Op φ} (h : p.Sound) : (Kept p i ↔ Watchable p i) ∧
    ∀ p', Watchable p i → step p i = .ok p' → p'.Sound := by
  cases i with
  | table op =>
    refine ⟨⟨fun hk => h.watchable hk.agrees, fun hw => (h.table hw).1⟩, fun p' hw hs => ?_⟩
    cases hs
    exact (h.table hw).2
  | opened fd pollable =>
    refine ⟨Iff.rfl, fun p' _ hs => ?_⟩
    rw [Polled.step] at hs
    split at hs
    · rename_i hfree
      cases hs
      refine ⟨h.agrees, fun fd' hin => ?_⟩
      have hopen := h.files fd' hin
      have hne : fd' ≠ fd := by
        rintro rfl
        exact nomatch hfree.symm.trans hopen
      show Function.update p.epoll.files fd (some pollable) fd' = some true
      rw [Function.update_of_ne hne, hopen]
    · cases hs

theorem start_sound (files : Int → Option Bool) : (start files : Polled φ).Sound :=
  ⟨fun _ => rfl, fun _ h => nomatch h⟩

/-- **The table agrees with the kernel along a run exactly when each new key can be watched**: after every operation the
keys of `fds` are the interest set, an open fd that was registered is watched for what was asked, and an operation whose
`epoll_ctl` failed has changed nothing. -/
theorem table_agrees_iff (files : Int → Option Bool) (ops : List (Op φ)) :
    Run.Along step Kept (start files) ops ↔ Run.Along step Watchable (start files) ops :=
  Run.along_iff_of_invariant (fun _ _ h => h.step.1) (fun _ _ _ h hw hs => h.step.2 _ hw hs) ops _ (start_sound files)

/-- **A stale key**: fd 5 is registered while it is not open, a socket gets the number, and registering it again does
not watch it. -/
theorem stale_key : ∃ p : Polled Unit,
    [Op.table (.pollIn 5 .object), .opened 5 true, .table (.pollIn 5 .object)].foldlM step
      (start fun _ => none) = .ok p ∧
    p.epoll.files 5 = some true ∧ (p.service.fds 5).isSome = true ∧ p.epoll.interest 5 = none ∧
    p.service.fdsNumber = 1 :=
  ⟨_, rfl, rfl, rfl, rfl, rfl⟩

end Polled
end V8h
