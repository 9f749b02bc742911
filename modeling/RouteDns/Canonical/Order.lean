import Mathlib.Order.Lattice
import Mathlib.Data.List.Lex
import Mathlib.Data.List.Infix

/-!
# The canonical order on hierarchical names

A hierarchical name is a list whose last entry is the outermost component.  The
canonical order compares names from the outermost component inwards, so it is the
lexicographic order of the reversed lists.  Its one geometric property used
everywhere is convexity: the names at or below a given name form a contiguous
range, and so, among the names on one side of a point, the nearest one shares the
most outer components with it.
-/

namespace RouteDns.Canonical

universe u

variable {α : Type u}

/-! ## Shared components -/

/-- How many leading entries two lists share. -/
def sharedPrefix [DecidableEq α] : List α → List α → Nat
  | first :: rest, other :: others =>
    if first = other then sharedPrefix rest others + 1 else 0
  | _, _ => 0

/-- How many outer components two names share. -/
def shared [DecidableEq α] (left right : List α) : Nat :=
  sharedPrefix left.reverse right.reverse

variable {common right left above below front high low middle : List α}

section

variable [DecidableEq α]

theorem le_sharedPrefix_iff (left : List α) (isPrefix : common <+: right) :
    common.length ≤ sharedPrefix left right ↔ common <+: left := by
  induction common generalizing left right with
  | nil => simp
  | cons entry common ih =>
    obtain ⟨tail, rfl⟩ := isPrefix
    cases left with
    | nil => simp [sharedPrefix]
    | cons first rest =>
      by_cases equal : first = entry
      · subst first
        simpa [sharedPrefix, List.cons_prefix_cons] using
          ih rest (List.prefix_append common tail)
      · simp [sharedPrefix, equal, List.cons_prefix_cons, Ne.symm equal]

/-- A suffix of one name is a suffix of the other exactly when it is no longer
than what they share. -/
theorem length_le_shared_iff (isSuffix : common <:+ right) :
    common.length ≤ shared left right ↔ common <:+ left := by
  have reversed : common.reverse <+: right.reverse := List.reverse_prefix.mpr isSuffix
  simpa [shared] using le_sharedPrefix_iff left.reverse reversed

theorem sharedPrefix_comm (left right : List α) :
    sharedPrefix left right = sharedPrefix right left := by
  induction left generalizing right with
  | nil => cases right <;> rfl
  | cons first rest ih =>
    cases right with
    | nil => rfl
    | cons other others =>
      by_cases equal : first = other
      · simp [sharedPrefix, equal, ih others]
      · simp [sharedPrefix, equal, Ne.symm equal]

theorem shared_comm (left right : List α) : shared left right = shared right left :=
  sharedPrefix_comm _ _

theorem sharedPrefix_le_length (left right : List α) : sharedPrefix left right ≤ left.length := by
  induction left generalizing right with
  | nil => cases right <;> simp [sharedPrefix]
  | cons first rest ih =>
    cases right with
    | nil => simp [sharedPrefix]
    | cons other others =>
      by_cases equal : first = other
      · simpa [sharedPrefix, equal] using ih others
      · simp [sharedPrefix, equal]

theorem shared_le_length (left right : List α) : shared left right ≤ left.length := by
  simpa [shared] using sharedPrefix_le_length left.reverse right.reverse

theorem sharedPrefix_map {β : Type u} [DecidableEq β] {rename : α → β}
    (injective : Function.Injective rename) (left right : List α) :
    sharedPrefix (left.map rename) (right.map rename) = sharedPrefix left right := by
  induction left generalizing right with
  | nil => cases right <;> rfl
  | cons first rest ih =>
    cases right with
    | nil => rfl
    | cons other others => simp [sharedPrefix, injective.eq_iff, ih others]

/-- Renaming components one to one keeps what two names share. -/
theorem shared_map {β : Type u} [DecidableEq β] {rename : α → β}
    (injective : Function.Injective rename) (left right : List α) :
    shared (left.map rename) (right.map rename) = shared left right := by
  simp [shared, ← List.map_reverse, sharedPrefix_map injective]

/-- A name shares all of itself with the names below it. -/
theorem shared_of_suffix (suffix : above <:+ below) :
    shared above below = above.length :=
  le_antisymm (shared_le_length above below)
    ((length_le_shared_iff suffix).mpr (List.suffix_refl above))

end

/-- The outermost components of a name, at most `count` of them. -/
def outer (name : List α) (count : Nat) : List α :=
  name.drop (name.length - count)

theorem outer_suffix (name : List α) (count : Nat) : outer name count <:+ name :=
  List.drop_suffix _ _

theorem length_outer {name : List α} {count : Nat} (bound : count ≤ name.length) :
    (outer name count).length = count := by
  simp only [outer, List.length_drop]
  omega

/-- The outer components two names share are a suffix of both. -/
theorem outer_shared_suffix [DecidableEq α] (left right : List α) :
    outer left (shared left right) <:+ right := by
  apply (length_le_shared_iff (outer_suffix left _)).mp
  rw [length_outer (shared_le_length left right), shared_comm]

/-! ## The order -/

variable [LinearOrder α]

/-- `left` comes before `right` in canonical order. -/
def Before (left right : List α) : Prop :=
  left.reverse < right.reverse

instance (left right : List α) : Decidable (Before left right) :=
  inferInstanceAs (Decidable (left.reverse < right.reverse))

theorem Before.trans {first second third : List α}
    (left : Before first second) (right : Before second third) : Before first third :=
  lt_trans left right

theorem Before.asymm (before : Before left right) : ¬ Before right left :=
  lt_asymm before

theorem Before.ne (before : Before left right) : left ≠ right :=
  fun same => lt_irrefl _ (same ▸ before)

theorem before_trichotomy (left right : List α) :
    Before left right ∨ left = right ∨ Before right left := by
  rcases lt_trichotomy left.reverse right.reverse with lt | eq | gt
  · exact .inl lt
  · exact .inr (.inl (List.reverse_injective eq))
  · exact .inr (.inr gt)

theorem prefix_le {whole : List α} (isPrefix : front <+: whole) : front ≤ whole := by
  induction front generalizing whole with
  | nil => exact not_lt.mp (List.not_lt_nil whole)
  | cons entry front ih =>
    obtain ⟨tail, rfl⟩ := isPrefix
    exact List.cons_le_cons entry (ih (List.prefix_append front tail))

/-- A name does not come before a name it lies below. -/
theorem not_before_of_suffix (suffix : above <:+ below) : ¬ Before below above :=
  not_lt.mpr (prefix_le (List.reverse_prefix.mpr suffix))

/-- A name comes before the names properly below it. -/
theorem before_of_suffix_of_ne (suffix : above <:+ below) (proper : above ≠ below) :
    Before above below := by
  rcases before_trichotomy above below with before | equal | after
  · exact before
  · exact absurd equal proper
  · exact absurd after (not_before_of_suffix suffix)

/-- Names directly below one name are ordered by their innermost components. -/
theorem before_cons_cons {left right : α} (less : left < right) (above : List α) :
    Before (left :: above) (right :: above) := by
  simp only [Before, List.reverse_cons]
  exact List.Lex.append_left (· < ·) (List.Lex.rel less) above.reverse

/-- Lists with a common prefix are an interval of the lexicographic order. -/
theorem prefix_of_between (lowPrefix : front <+: low) (highPrefix : front <+: high)
    (low_lt : low < middle) (lt_high : middle < high) : front <+: middle := by
  induction front generalizing low middle high with
  | nil => exact List.nil_prefix
  | cons entry front ih =>
    obtain ⟨lowTail, rfl⟩ := lowPrefix
    obtain ⟨highTail, rfl⟩ := highPrefix
    cases middle with
    | nil => exact absurd low_lt (List.not_lt_nil _)
    | cons first rest =>
      simp only [List.cons_append, List.cons_lt_cons_iff] at low_lt lt_high
      -- the head of `middle` is squeezed between two equal heads
      rcases low_lt with head_lt | ⟨rfl, rest_lt⟩
      · rcases lt_high with head_gt | ⟨rfl, _⟩
        · exact absurd (lt_trans head_lt head_gt) (lt_irrefl _)
        · exact absurd head_lt (lt_irrefl _)
      · rcases lt_high with head_gt | ⟨_, rest_gt⟩
        · exact absurd head_gt (lt_irrefl _)
        · exact List.cons_prefix_cons.mpr ⟨rfl, ih (List.prefix_append _ _)
            (List.prefix_append _ _) rest_lt rest_gt⟩

/-- The names at or below one name are contiguous. -/
theorem suffix_of_between (lowBelow : above <:+ low) (highBelow : above <:+ high)
    (low_before : Before low middle) (before_high : Before middle high) : above <:+ middle :=
  List.reverse_prefix.mp (prefix_of_between (List.reverse_prefix.mpr lowBelow)
    (List.reverse_prefix.mpr highBelow) low_before before_high)

end RouteDns.Canonical
