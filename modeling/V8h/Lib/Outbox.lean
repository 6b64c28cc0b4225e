import Mathlib.Tactic.Common
/-!
# Outbox — a sequence offered to a channel that takes it piece by piece

What is left of a sequence is offered until the channel asks to wait, fails, or has taken all of it.  Nothing is offered
again after that, so the channel has a prefix of the sequence at every moment (`Outbox.offer_whole`).
-/

/-- What the channel answers to an offer: it took the first items, one at least and all of them when there are fewer,
or asks to wait, or fails. -/
inductive Reply where
  | took (items : Nat)
  | wait
  | fail

structure Outbox (α : Type) where
  accepted : List α
  rest     : List α
  failed   : Bool

namespace Outbox

variable {α : Type}

def new (items : List α) : Outbox α := ⟨[], items, false⟩

/-- Nothing is offered any more. -/
def ended (o : Outbox α) : Prop := o.rest = [] ∨ o.failed = true

instance [DecidableEq α] (o : Outbox α) : Decidable o.ended := inferInstanceAs (Decidable (_ ∨ _))

/-- Offers until the channel asks to wait, or the replies are used up. -/
def offer : Outbox α → List Reply → Outbox α
  | o, []            => o
  | o, reply :: replies =>
    if o.rest = [] ∨ o.failed = true then o
    else match reply with
      | .took items => offer ⟨o.accepted ++ o.rest.take items, o.rest.drop items, false⟩ replies
      | .wait       => o
      | .fail       => { o with failed := true }

theorem offer_ended {o : Outbox α} (h : o.ended) (replies : List Reply) : o.offer replies = o := by
  cases replies with
  | nil => rfl
  | cons r rs => exact if_pos h

/-- **Nothing is lost, repeated or moved.** -/
theorem offer_whole : ∀ (o : Outbox α) (replies : List Reply),
    (o.offer replies).accepted ++ (o.offer replies).rest = o.accepted ++ o.rest
  | _, [] => rfl
  | o, reply :: replies => by
    unfold offer
    split
    · rfl
    · cases reply with
      | took items =>
        rw [offer_whole]
        simp only [List.append_assoc, List.take_append_drop]
      | wait => rfl
      | fail => rfl

/-- What was accepted stays accepted. -/
theorem offer_grows : ∀ (o : Outbox α) (replies : List Reply), o.accepted <+: (o.offer replies).accepted
  | _, [] => List.prefix_rfl
  | o, reply :: replies => by
    unfold offer
    split
    · exact List.prefix_rfl
    · cases reply with
      | took items =>
        have h := offer_grows ⟨o.accepted ++ o.rest.take items, o.rest.drop items, false⟩ replies
        exact (List.prefix_append _ _).trans h
      | wait => exact List.prefix_rfl
      | fail => exact List.prefix_rfl

/-- What is left was left before. -/
theorem offer_rest : ∀ (o : Outbox α) (replies : List Reply), (o.offer replies).rest <:+ o.rest
  | _, [] => List.suffix_rfl
  | o, reply :: replies => by
    unfold offer
    split
    · exact List.suffix_rfl
    · cases reply with
      | took items =>
        have h := offer_rest ⟨o.accepted ++ o.rest.take items, o.rest.drop items, false⟩ replies
        exact h.trans (List.drop_suffix items o.rest)
      | wait => exact List.suffix_rfl
      | fail => exact List.suffix_rfl

theorem offer_failed : ∀ (o : Outbox α) (replies : List Reply), (o.failed = true → o.rest ≠ []) →
    (o.offer replies).failed = true → (o.offer replies).rest ≠ []
  | _, [], h, hf => h hf
  | o, reply :: replies, h, hf => by
    unfold offer at hf ⊢
    split at hf
    · rename_i hover
      rw [if_pos hover]
      exact h hf
    · rename_i hover
      rw [if_neg hover]
      cases reply with
      | took items => exact offer_failed _ replies (fun h => nomatch h) hf
      | wait => exact h hf
      | fail => exact fun h0 => hover (Or.inl h0)

theorem offer_sound : ∀ (o : Outbox α) (replies : List Reply), (∀ r ∈ replies, r ≠ .fail) → o.failed = false →
    (o.offer replies).failed = false
  | _, [], _, hf => hf
  | o, reply :: replies, hr, hf => by
    unfold offer
    split
    · exact hf
    · cases reply with
      | took items => exact offer_sound _ replies (fun r h => hr r (List.mem_cons_of_mem _ h)) rfl
      | wait => exact hf
      | fail => exact absurd rfl (hr _ (List.mem_cons_self ..))

/-! ## A channel that asks to wait -/

/-- The replies before the channel asks to wait. -/
def beforeWait : List Reply → List Reply
  | []               => []
  | .took n :: rs    => .took n :: beforeWait rs
  | .wait :: _       => []
  | .fail :: rs      => .fail :: beforeWait rs

/-- **An offer goes on where it had to wait.** -/
theorem offer_offer : ∀ (o : Outbox α) (rs rs' : List Reply),
    (o.offer rs).offer rs' = o.offer (beforeWait rs ++ rs')
  | _, [], _ => rfl
  | o, r :: rs, rs' => by
    by_cases ho : o.ended
    · rw [offer_ended ho, offer_ended ho, offer_ended ho]
    · have hgo : ¬ (o.rest = [] ∨ o.failed = true) := ho
      cases r with
      | took n =>
        simp only [beforeWait, List.cons_append, offer, if_neg hgo]
        exact offer_offer _ rs rs'
      | wait =>
        simp only [beforeWait, List.nil_append, offer, if_neg hgo]
      | fail =>
        simp only [beforeWait, List.cons_append, offer, if_neg hgo]
        exact offer_ended (.inr rfl) rs'

/-- Where the channel asks to wait, nothing more is offered. -/
theorem offer_beforeWait (o : Outbox α) (rs : List Reply) : o.offer (beforeWait rs) = o.offer rs := by
  have h := offer_offer o rs []
  rw [List.append_nil] at h
  exact h.symm

/-! ## One channel, several outboxes -/

/-- What the channel took of outboxes that came one after another, the newest one first. -/
def acceptedBy : List (Outbox α) → List α
  | []      => []
  | o :: os => acceptedBy os ++ o.accepted

theorem acceptedBy_eq_flatten : ∀ os : List (Outbox α), acceptedBy os = (os.reverse.map accepted).flatten
  | []      => rfl
  | o :: os => by
    rw [acceptedBy, acceptedBy_eq_flatten os, List.reverse_cons, List.map_append, List.flatten_append, List.map_cons,
      List.map_nil, List.flatten_cons, List.flatten_nil, List.append_nil]

end Outbox
