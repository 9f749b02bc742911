import RouteDns.Dnssec.NameOrder

/-!
# The order of names by their text

Names are compared by the texts they are printed as.  The escapes of a text are undone without
a loss, so the comparison is the canonical order on the raw labels in lower case, and has its
properties: it is a total order on names up to case in which the names below a name follow it
in one stretch.
-/

namespace RouteDns.Dnssec

open Dns Canonical

variable (dns : Library)

/-- The order of two names by their texts. -/
abbrev compareNames (left right : DomainName) : Int :=
  canonicalNameCmp dns left.print right.print

variable {left right : DomainName}

/-- A name comes before the other, is the same up to case, or comes after it. -/
theorem compareNames_cases (left right : DomainName) :
    (Before left.lower.labels right.lower.labels ∧ compareNames dns left right = -1) ∨
      (left.lower = right.lower ∧ compareNames dns left right = 0) ∨
        (Before right.lower.labels left.lower.labels ∧ compareNames dns left right = 1) := by
  rw [compareNames, canonicalNameCmp_print]
  rcases before_trichotomy left.lower.labels right.lower.labels with before | same | after
  · exact .inl ⟨before, if_pos before⟩
  · have notBefore : ¬ Before left.lower.labels right.lower.labels := fun before => before.ne same
    rw [if_neg notBefore, if_pos (DomainName.ext same)]
    exact .inr (.inl ⟨DomainName.ext same, rfl⟩)
  · have differ : left.lower ≠ right.lower := fun same =>
      after.ne (congrArg DomainName.labels same).symm
    rw [if_neg after.asymm, if_neg differ]
    exact .inr (.inr ⟨after, rfl⟩)

theorem compareNames_eq_neg_one_iff :
    compareNames dns left right = -1 ↔ Before left.lower.labels right.lower.labels := by
  rcases compareNames_cases dns left right with ⟨before, value⟩ | ⟨same, value⟩ | ⟨after, value⟩
  · exact iff_of_true value before
  · rw [value, same]
    exact iff_of_false (by decide) fun before => before.ne rfl
  · rw [value]
    exact iff_of_false (by decide) after.asymm

theorem compareNames_eq_zero_iff : compareNames dns left right = 0 ↔ left.lower = right.lower := by
  rcases compareNames_cases dns left right with ⟨before, value⟩ | ⟨same, value⟩ | ⟨after, value⟩
  · rw [value]
    exact iff_of_false (by decide) fun same => before.ne (congrArg DomainName.labels same)
  · exact iff_of_true value same
  · rw [value]
    exact iff_of_false (by decide) fun same => after.ne (congrArg DomainName.labels same).symm

theorem compareNames_eq_one_iff :
    compareNames dns left right = 1 ↔ Before right.lower.labels left.lower.labels := by
  rcases compareNames_cases dns left right with ⟨before, value⟩ | ⟨same, value⟩ | ⟨after, value⟩
  · rw [value]
    exact iff_of_false (by decide) before.asymm
  · rw [value, same]
    exact iff_of_false (by decide) fun after => after.ne rfl
  · exact iff_of_true value after

theorem compareNames_nonpos_iff :
    compareNames dns left right ≤ 0 ↔ ¬ Before right.lower.labels left.lower.labels := by
  rw [← compareNames_eq_one_iff dns]
  rcases compareNames_cases dns left right with ⟨_, value⟩ | ⟨_, value⟩ | ⟨_, value⟩ <;>
    simp [value]

/-- Names that come no later than each other are the same up to case. -/
theorem lower_eq_of_nonpos (noLater : compareNames dns left right ≤ 0)
    (noEarlier : compareNames dns right left ≤ 0) : left.lower = right.lower := by
  rw [compareNames_nonpos_iff] at noLater noEarlier
  rcases before_trichotomy left.lower.labels right.lower.labels with before | same | after
  · exact absurd before noEarlier
  · exact DomainName.ext same
  · exact absurd after noLater

theorem compareNames_trans {first second third : DomainName}
    (left : compareNames dns first second ≤ 0) (right : compareNames dns second third ≤ 0) :
    compareNames dns first third ≤ 0 := by
  rw [compareNames_nonpos_iff] at left right ⊢
  exact not_lt.mpr (le_trans (not_lt.mp left) (not_lt.mp right))

/-- A name that comes between two names below another is below it too. -/
theorem below_of_between {above low middle high : DomainName}
    (lowBelow : above.lower.labels <:+ low.lower.labels)
    (highBelow : above.lower.labels <:+ high.lower.labels)
    (afterLow : compareNames dns low middle ≤ 0) (beforeHigh : compareNames dns middle high ≤ 0) :
    above.lower.labels <:+ middle.lower.labels := by
  rw [compareNames_nonpos_iff] at afterLow beforeHigh
  rcases before_trichotomy low.lower.labels middle.lower.labels with before | same | after
  · rcases before_trichotomy middle.lower.labels high.lower.labels with less | equal | greater
    · exact suffix_of_between lowBelow highBelow before less
    · rwa [equal]
    · exact absurd greater beforeHigh
  · rwa [← same]
  · exact absurd after afterLow

/-- Reading the printed text of a name gives its labels in lower case, and comparing two printed
texts compares these labels from the outermost on, each byte by byte.  On names up to case this
is a total order; a name precedes what is properly below it, and the names at or below it are
contiguous. -/
theorem printed_names_ordered :
    (∀ name : DomainName,
      canonicalLabels dns name.print = name.labels.map fun label => label.map lowerByte) ∧
    (∀ left right : DomainName,
      (canonicalNameCmp dns left.print right.print = -1 ↔
        left.lower.labels.reverse < right.lower.labels.reverse) ∧
      (canonicalNameCmp dns left.print right.print = 0 ↔ left.lower = right.lower) ∧
      (canonicalNameCmp dns left.print right.print = 1 ↔
        right.lower.labels.reverse < left.lower.labels.reverse)) ∧
    (∀ left right : DomainName, canonicalNameCmp dns left.print right.print ≤ 0 ∨
      canonicalNameCmp dns right.print left.print ≤ 0) ∧
    (∀ left right : DomainName, canonicalNameCmp dns left.print right.print ≤ 0 →
      canonicalNameCmp dns right.print left.print ≤ 0 → left.lower = right.lower) ∧
    (∀ first second third : DomainName, canonicalNameCmp dns first.print second.print ≤ 0 →
      canonicalNameCmp dns second.print third.print ≤ 0 →
        canonicalNameCmp dns first.print third.print ≤ 0) ∧
    (∀ above below : DomainName, above.lower.labels <:+ below.lower.labels →
      above.lower ≠ below.lower → canonicalNameCmp dns above.print below.print = -1) ∧
    ∀ above low middle high : DomainName, above.lower.labels <:+ low.lower.labels →
      above.lower.labels <:+ high.lower.labels →
        canonicalNameCmp dns low.print middle.print ≤ 0 →
          canonicalNameCmp dns middle.print high.print ≤ 0 →
            above.lower.labels <:+ middle.lower.labels := by
  refine ⟨canonicalLabels_print dns, fun left right => ⟨compareNames_eq_neg_one_iff dns,
    compareNames_eq_zero_iff dns, compareNames_eq_one_iff dns⟩, fun left right => ?_,
    fun _ _ => lower_eq_of_nonpos dns, fun _ _ _ => compareNames_trans dns,
    fun above below suffix differ => ?_, fun _ _ _ _ => below_of_between dns⟩
  · rw [compareNames_nonpos_iff, compareNames_nonpos_iff]
    exact (le_total left.lower.labels.reverse right.lower.labels.reverse).imp not_lt.mpr not_lt.mpr
  · exact (compareNames_eq_neg_one_iff dns).mpr
      (before_of_suffix_of_ne suffix fun same => differ (DomainName.ext same))

end RouteDns.Dnssec
