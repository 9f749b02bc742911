import Mathlib.Data.List.Basic

/-!
# Buckets of a sorted list

A list whose entries are sorted by the number of their bucket is cut into buckets by the
places where they start.  The starts are found in one pass: each bucket starts where the one
before it ends.
-/

namespace RouteDns.Buckets

universe u

variable {α : Type u} (bucket : α → Nat)

/-- The end of the entries of a bucket that follow a place. -/
def advance (entries : List α) (number place : Nat) : Nat :=
  place + ((entries.drop place).takeWhile fun entry => bucket entry = number).length

/-- Where a bucket starts. -/
def start (entries : List α) : (number : Nat) → Nat
  | 0 => 0
  | number + 1 => advance bucket entries number (start entries number)

/-- The entries between the start of a bucket and the start of the next. -/
def slice (entries : List α) (number : Nat) : List α :=
  (entries.drop (start bucket entries number)).take
    (start bucket entries (number + 1) - start bucket entries number)

variable {bucket} {entries : List α}

/-- In a sorted list whose entries are no smaller than a number, those with the number come
first. -/
theorem takeWhile_eq_filter
    (sorted : entries.Pairwise fun first second => bucket first ≤ bucket second) {number : Nat}
    (bounded : ∀ entry ∈ entries, number ≤ bucket entry) :
    (entries.takeWhile fun entry => bucket entry = number) =
      entries.filter fun entry => bucket entry = number := by
  induction entries with
  | nil => rfl
  | cons entry rest ih =>
    rw [List.pairwise_cons] at sorted
    rw [List.forall_mem_cons] at bounded
    by_cases same : bucket entry = number
    · simp only [List.takeWhile_cons, List.filter_cons, same, decide_true, if_true]
      rw [ih sorted.2 bounded.2]
    · have absent : rest.filter (fun other => bucket other = number) = [] := by
        rw [List.filter_eq_nil_iff]
        intro other member
        have after := sorted.1 other member
        simp only [decide_eq_true_eq]
        omega
      simp [same, absent]

/-- A sorted list falls apart at every number. -/
theorem filter_append_filter
    (sorted : entries.Pairwise fun first second => bucket first ≤ bucket second) (number : Nat) :
    (entries.filter fun entry => bucket entry < number) ++
      (entries.filter fun entry => number ≤ bucket entry) = entries := by
  induction entries with
  | nil => rfl
  | cons entry rest ih =>
    rw [List.pairwise_cons] at sorted
    by_cases before : bucket entry < number
    · have after : ¬ number ≤ bucket entry := Nat.not_le.mpr before
      simp only [List.filter_cons, before, after, decide_true, decide_false, if_true,
        Bool.false_eq_true, if_false, List.cons_append, ih sorted.2]
    · have later : ∀ other ∈ entry :: rest, number ≤ bucket other := by
        intro other member
        rcases List.mem_cons.mp member with rfl | member
        · exact Nat.not_lt.mp before
        · exact Nat.le_trans (Nat.not_lt.mp before) (sorted.1 other member)
      have empty : (entry :: rest).filter (fun other => bucket other < number) = [] := by
        rw [List.filter_eq_nil_iff]
        intro other member
        simpa using later other member
      have whole : (entry :: rest).filter (fun other => number ≤ bucket other) = entry :: rest := by
        rw [List.filter_eq_self]
        intro other member
        simpa using later other member
      rw [empty, whole, List.nil_append]

section Sorted

variable (sorted : entries.Pairwise fun first second => bucket first ≤ bucket second)

include sorted

variable (number : Nat)

theorem drop_filter_length :
    entries.drop (entries.filter fun entry => bucket entry < number).length =
      entries.filter fun entry => number ≤ bucket entry := by
  have split := filter_append_filter sorted number
  generalize (entries.filter fun entry => decide (bucket entry < number)) = front at split ⊢
  generalize (entries.filter fun entry => decide (number ≤ bucket entry)) = back at split ⊢
  rw [← split]
  exact List.drop_left

/-- Behind the entries before a bucket come those of the bucket. -/
theorem takeWhile_drop :
    ((entries.drop (entries.filter fun entry => bucket entry < number).length).takeWhile
        fun entry => bucket entry = number) =
      entries.filter fun entry => bucket entry = number := by
  rw [drop_filter_length sorted, takeWhile_eq_filter (sorted.filter _) (by simp),
    List.filter_filter]
  congr 1
  funext entry
  by_cases same : bucket entry = number <;> simp [same]

theorem start_eq :
    start bucket entries number = (entries.filter fun entry => bucket entry < number).length := by
  induction number with
  | zero => simp [start]
  | succ number ih =>
    have split := filter_append_filter (sorted.filter fun entry => bucket entry < number + 1) number
    have before : ((entries.filter fun entry => bucket entry < number + 1).filter
        fun entry => bucket entry < number) =
        entries.filter fun entry => bucket entry < number := by
      rw [List.filter_filter]
      congr 1
      funext entry
      rw [← Bool.decide_and, decide_eq_decide]
      omega
    have same : ((entries.filter fun entry => bucket entry < number + 1).filter
        fun entry => number ≤ bucket entry) =
        entries.filter fun entry => bucket entry = number := by
      rw [List.filter_filter]
      congr 1
      funext entry
      rw [← Bool.decide_and, decide_eq_decide]
      omega
    rw [start, advance, ih, takeWhile_drop sorted, ← split, before, same, List.length_append]

theorem start_le_length : start bucket entries number ≤ entries.length := by
  rw [start_eq sorted]
  exact List.length_filter_le _ _

omit sorted in
/-- The starts do not decrease. -/
theorem start_mono {first second : Nat} (ordered : first ≤ second) :
    start bucket entries first ≤ start bucket entries second := by
  induction ordered with
  | refl => exact Nat.le_refl _
  | step _ ih => exact Nat.le_trans ih (Nat.le_add_right _ _)

/-- The slice of a bucket holds the entries of the bucket. -/
theorem slice_eq_filter :
    slice bucket entries number = entries.filter fun entry => bucket entry = number := by
  rw [slice, start, advance, Nat.add_sub_cancel_left,
    ← List.prefix_iff_eq_take.mp (List.takeWhile_prefix _), start_eq sorted, takeWhile_drop sorted]

end Sorted

end RouteDns.Buckets
