import Mathlib.Data.List.Basic

/-!
# Reading from a stream

A reader takes a number of entries off the front of a stream, all of them or none.  An array
is read at an index or between two; a read that leaves the array fails.
-/

namespace RouteDns.Reader

universe u

variable {α : Type u}

/-- Take exactly `count` entries; there may be too few. -/
def readFull (count : Nat) (stream : List α) : Option (List α × List α) :=
  if stream.length < count then none else some (stream.take count, stream.drop count)

variable {count start : Nat} {stream rest taken array : List α}

theorem readFull_of_le (enough : count ≤ stream.length) :
    readFull count stream = some (stream.take count, stream.drop count) :=
  if_neg (Nat.not_lt.mpr enough)

theorem readFull_of_lt (short : stream.length < count) : readFull count stream = none :=
  if_pos short

/-- What was written in one piece is read in one piece. -/
theorem readFull_append (length : taken.length = count) :
    readFull count (taken ++ rest) = some (taken, rest) := by
  rw [readFull_of_le (by simp [length])]
  simp [← length]

theorem readFull_eq_some_iff :
    readFull count stream = some (taken, rest) ↔ stream = taken ++ rest ∧ taken.length = count := by
  constructor
  · intro read
    unfold readFull at read
    split at read
    · cases read
    · rename_i enough
      cases read
      exact ⟨(List.take_append_drop count stream).symm,
        List.length_take_of_le (Nat.not_lt.mp enough)⟩
  · rintro ⟨rfl, length⟩
    exact readFull_append length

/-! ## Reading an array -/

/-- The entry at an index. -/
def entryAt (array : List α) (index : Nat) : Option α :=
  array[index]?

/-- The entries from an index on. -/
def sliceFrom (array : List α) (start : Nat) : Option (List α) :=
  if start ≤ array.length then some (array.drop start) else none

/-- The entries between two indices. -/
def slice (array : List α) (start stop : Nat) : Option (List α) :=
  if start ≤ stop ∧ stop ≤ array.length then some ((array.drop start).take (stop - start)) else none

theorem sliceFrom_of_le (inside : start ≤ array.length) :
    sliceFrom array start = some (array.drop start) :=
  if_pos inside

theorem slice_of_le {width : Nat} (inside : start + width ≤ array.length) :
    slice array start (start + width) = some ((array.drop start).take width) := by
  rw [slice, if_pos ⟨Nat.le_add_right start width, inside⟩, Nat.add_sub_cancel_left]

end RouteDns.Reader
