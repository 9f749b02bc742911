import RouteDns.Canonical.Order

/-!
# Successor chains in canonical order

The owners of a name space, put in canonical order, form a chain: each owner is
followed by its successor and the last one by the apex again.  A pair of
neighbours spans the names strictly between them.  This file proves what such a
span says about a name inside it: the name owns nothing, and its closest
encloser can be read off the two neighbours alone.
-/

namespace RouteDns.Canonical

universe u

variable {α : Type u} [LinearOrder α]

/-- `next` follows `owner` in the chain of `owners`; the apex follows the last
owner. -/
def Follows (owners : Set (List α)) (apex owner next : List α) : Prop :=
  (next ∈ owners ∧ Before owner next ∧
      ∀ name ∈ owners, Before owner name → ¬ Before name next) ∨
    ((∀ name ∈ owners, ¬ Before owner name) ∧ next = apex)

/-- The names a pair of neighbours spans.  A pair that does not ascend is the last
one and wraps around. -/
def Spans (owner next name : List α) : Prop :=
  if Before owner next then Before owner name ∧ Before name next
  else Before owner name ∨ Before name next

instance (owner next name : List α) : Decidable (Spans owner next name) := by
  unfold Spans
  infer_instance

/-- The longest ancestor-or-self of a name that lies at or above some owner. -/
def IsClosestEncloser (owners : Set (List α)) (name encloser : List α) : Prop :=
  encloser <:+ name ∧ (∃ owner ∈ owners, encloser <:+ owner) ∧
    ∀ above, above <:+ name → (∃ owner ∈ owners, above <:+ owner) →
      above.length ≤ encloser.length

/-- All owners lie at or below an apex. -/
def UnderApex (owners : Set (List α)) (apex : List α) : Prop :=
  ∀ owner ∈ owners, apex <:+ owner

variable {owners : Set (List α)} {apex owner next name : List α}

/-- What lies above the successor of an owner lies above some owner. -/
theorem Follows.above_next (under : UnderApex owners apex) (ownerMem : owner ∈ owners)
    (follows : Follows owners apex owner next) {above : List α} (aboveNext : above <:+ next) :
    ∃ other ∈ owners, above <:+ other := by
  rcases follows with ⟨member, _, _⟩ | ⟨_, rfl⟩
  · exact ⟨next, member, aboveNext⟩
  · exact ⟨owner, ownerMem, aboveNext.trans (under owner ownerMem)⟩

section

variable (under : UnderApex owners apex) (ownerMem : owner ∈ owners)
  (follows : Follows owners apex owner next) (nameBelow : apex <:+ name)
  (spans : Spans owner next name)
include under ownerMem follows nameBelow spans

/-- What a span of genuine neighbours means for a name below the apex: the name
comes after the owner, and before its successor unless the owner is the last. -/
theorem Follows.spans_cases :
    Before owner name ∧
      ((Before name next ∧ ∀ other ∈ owners, Before owner other → ¬ Before other next) ∨
        ∀ other ∈ owners, ¬ Before owner other) := by
  rcases follows with ⟨_, ascends, nothingBetween⟩ | ⟨last, rfl⟩
  · rw [Spans, if_pos ascends] at spans
    exact ⟨spans.1, .inl ⟨spans.2, nothingBetween⟩⟩
  · have wraps : ¬ Before owner next := not_before_of_suffix (under owner ownerMem)
    rw [Spans, if_neg wraps] at spans
    rcases spans with after | before
    · exact ⟨after, .inr last⟩
    · exact absurd before (not_before_of_suffix nameBelow)

/-- A spanned name owns nothing. -/
theorem Follows.not_mem_of_spans : name ∉ owners := by
  intro member
  obtain ⟨after, ⟨before, nothingBetween⟩ | last⟩ :=
    follows.spans_cases under ownerMem nameBelow spans
  · exact nothingBetween name member after before
  · exact last name member after

/-- Whatever an ancestor of a spanned name has below it among the owners, one of
the two neighbours is below it as well. -/
theorem Follows.suffix_neighbour {above other : List α} (otherMem : other ∈ owners)
    (aboveName : above <:+ name) (aboveOther : above <:+ other) :
    above <:+ owner ∨ above <:+ next := by
  have unowned := follows.not_mem_of_spans under ownerMem nameBelow spans
  obtain ⟨after, sides⟩ := follows.spans_cases under ownerMem nameBelow spans
  rcases before_trichotomy other name with otherBefore | rfl | otherAfter
  · -- an owner before the name is the left neighbour or lies before it
    left
    rcases before_trichotomy other owner with otherLeft | rfl | otherRight
    · exact suffix_of_between aboveOther aboveName otherLeft after
    · exact aboveOther
    · rcases sides with ⟨before, nothingBetween⟩ | last
      · exact absurd (otherBefore.trans before) (nothingBetween other otherMem otherRight)
      · exact absurd otherRight (last other otherMem)
  · exact absurd otherMem unowned
  · -- an owner after the name is the right neighbour or lies behind it
    right
    rcases sides with ⟨before, nothingBetween⟩ | last
    · rcases before_trichotomy other next with otherLeft | rfl | otherRight
      · exact absurd otherLeft (nothingBetween other otherMem (after.trans otherAfter))
      · exact aboveOther
      · exact suffix_of_between aboveName aboveOther before otherRight
    · exact absurd (after.trans otherAfter) (last other otherMem)

/-- The closest encloser of a spanned name is what it shares with the nearer of
the two neighbours. -/
theorem Follows.isClosestEncloser [DecidableEq α] :
    IsClosestEncloser owners name
      (outer name (max (shared name owner) (shared name next))) := by
  have bound : max (shared name owner) (shared name next) ≤ name.length :=
    max_le (shared_le_length _ _) (shared_le_length _ _)
  refine ⟨outer_suffix _ _, ?_, ?_⟩
  · rcases le_total (shared name owner) (shared name next) with nextNearer | ownerNearer
    · rw [max_eq_right nextNearer]
      exact follows.above_next under ownerMem (outer_shared_suffix name next)
    · rw [max_eq_left ownerNearer]
      exact ⟨owner, ownerMem, outer_shared_suffix name owner⟩
  · rintro above aboveName ⟨other, otherMem, aboveOther⟩
    rw [length_outer bound]
    rcases follows.suffix_neighbour under ownerMem nameBelow spans otherMem aboveName aboveOther
      with aboveOwner | aboveNext
    · exact ((length_le_shared_iff aboveOwner).mpr aboveName).trans (le_max_left _ _)
    · exact ((length_le_shared_iff aboveNext).mpr aboveName).trans (le_max_right _ _)

end

omit [LinearOrder α] in
/-- A closest encloser lies at or below the apex when the name does. -/
theorem IsClosestEncloser.below_apex {encloser : List α} (under : UnderApex owners apex)
    (nameBelow : apex <:+ name) (closest : IsClosestEncloser owners name encloser) :
    apex <:+ encloser := by
  obtain ⟨aboveName, ⟨other, otherMem, _⟩, longest⟩ := closest
  exact List.suffix_of_suffix_length_le nameBelow aboveName
    (longest apex nameBelow ⟨other, otherMem, under other otherMem⟩)

end RouteDns.Canonical
