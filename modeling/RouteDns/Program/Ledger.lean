import Mathlib.Data.List.Nodup
import Mathlib.Data.List.Range

/-!
# Ledgers of resources

A ledger records in order which handles are opened and closed, and other events.  Handles are
numbered in the order in which they are opened.  A part of a ledger is balanced if it closes
only handles that it opens, each once; those left open are held by someone.
-/

namespace RouteDns.Ledger

universe u

open scoped List

variable {α : Type u}

/-- One entry of a ledger. -/
inductive Entry (α : Type u) where
  | opened (handle : Nat)
  | closed (handle : Nat)
  | mark (value : α)

def openedIn (entries : List (Entry α)) : List Nat :=
  entries.filterMap fun entry =>
    match entry with
    | .opened handle => some handle
    | _ => none

def closedIn (entries : List (Entry α)) : List Nat :=
  entries.filterMap fun entry =>
    match entry with
    | .closed handle => some handle
    | _ => none

/-- The value of the last mark, if there is one. -/
def lastMark (initial : α) (entries : List (Entry α)) : α :=
  entries.foldl (fun value entry =>
    match entry with
    | .mark value => value
    | _ => value) initial

@[simp]
theorem openedIn_append (first second : List (Entry α)) :
    openedIn (first ++ second) = openedIn first ++ openedIn second :=
  List.filterMap_append

@[simp]
theorem closedIn_append (first second : List (Entry α)) :
    closedIn (first ++ second) = closedIn first ++ closedIn second :=
  List.filterMap_append

@[simp]
theorem openedIn_map_closed (handles : List Nat) :
    openedIn (handles.map (Entry.closed (α := α))) = [] := by
  simp [openedIn]

@[simp]
theorem closedIn_map_closed (handles : List Nat) :
    closedIn (handles.map (Entry.closed (α := α))) = handles := by
  simp [closedIn, List.filterMap_map]

@[simp]
theorem lastMark_append (initial : α) (first second : List (Entry α)) :
    lastMark initial (first ++ second) = lastMark (lastMark initial first) second :=
  List.foldl_append

@[simp]
theorem lastMark_map_closed (initial : α) (handles : List Nat) :
    lastMark initial (handles.map Entry.closed) = initial := by
  induction handles with
  | nil => rfl
  | cons handle handles ih => exact ih

theorem lastMark_of_unmarked {entries : List (Entry α)}
    (unmarked : ∀ value, Entry.mark value ∉ entries) (initial : α) :
    lastMark initial entries = initial := by
  induction entries with
  | nil => rfl
  | cons entry entries ih =>
    have rest := ih fun value member => unmarked value (List.mem_cons_of_mem _ member)
    cases entry with
    | opened handle => exact rest
    | closed handle => exact rest
    | mark value => exact absurd List.mem_cons_self (unmarked value)

/-- What is closed in a part of a ledger is closed in the whole. -/
theorem closedIn_subset_of_isPrefix {part entries : List (Entry α)} (front : part <+: entries) :
    closedIn part ⊆ closedIn entries := by
  obtain ⟨rest, rfl⟩ := front
  rw [closedIn_append]
  exact List.subset_append_left _ _

theorem range'_append_range' {first middle next : Nat} (before : first ≤ middle)
    (after : middle ≤ next) :
    List.range' first (middle - first) ++ List.range' middle (next - middle) =
      List.range' first (next - first) := by
  have start : middle = first + (middle - first) := by omega
  have total : next - first = (middle - first) + (next - middle) := by omega
  rw [total, ← List.range'_append_1, ← start]

/-- The entries open the handles from `first` up to `next`, close some of them once and leave
the others to a holder.  They leave no mark. -/
structure Balanced (first next : Nat) (entries : List (Entry α)) (held : List Nat) : Prop where
  ordered : first ≤ next
  opened : openedIn entries = List.range' first (next - first)
  closed : (closedIn entries ++ held).Perm (List.range' first (next - first))
  unmarked : ∀ value, Entry.mark value ∉ entries

namespace Balanced

variable {first middle next : Nat} {entries entries' : List (Entry α)} {held held' : List Nat}

theorem nil (first : Nat) : Balanced first first ([] : List (Entry α)) [] where
  ordered := Nat.le_refl first
  opened := by simp [openedIn]
  closed := by simp [closedIn]
  unmarked := by simp

/-- A handle that was just opened is held. -/
theorem single (handle : Nat) :
    Balanced (α := α) handle (handle + 1) [.opened handle] [handle] where
  ordered := Nat.le_succ handle
  opened := by simp [openedIn]
  closed := by simp [closedIn]
  unmarked := by simp

/-- Balanced parts one after the other are balanced, and what both leave is held. -/
theorem append (before : Balanced first middle entries held)
    (after : Balanced middle next entries' held') :
    Balanced first next (entries ++ entries') (held ++ held') where
  ordered := before.ordered.trans after.ordered
  opened := by
    rw [openedIn_append, before.opened, after.opened]
    exact range'_append_range' before.ordered after.ordered
  closed := by
    rw [closedIn_append]
    calc
      (closedIn entries ++ closedIn entries') ++ (held ++ held')
      _ ~ (closedIn entries ++ held) ++ (closedIn entries' ++ held') := by
          simp only [List.append_assoc]
          exact (List.perm_append_comm_assoc _ _ _).append_left _
      _ ~ List.range' first (middle - first) ++ List.range' middle (next - middle) :=
          before.closed.append after.closed
      _ = List.range' first (next - first) := range'_append_range' before.ordered after.ordered
  unmarked value member := by
    rcases List.mem_append.mp member with member | member
    · exact before.unmarked value member
    · exact after.unmarked value member

/-- What is held may be closed. -/
theorem close (balanced : Balanced first next entries (held ++ held')) :
    Balanced first next (entries ++ held.map .closed) held' where
  ordered := balanced.ordered
  opened := by simpa using balanced.opened
  closed := by simpa using balanced.closed
  unmarked value member := by
    rcases List.mem_append.mp member with member | member
    · exact balanced.unmarked value member
    · simp at member

theorem closeAll (balanced : Balanced first next entries held) :
    Balanced first next (entries ++ held.map .closed) [] := by
  rw [← List.append_nil held] at balanced
  exact balanced.close

/-- A handle that is closed or held is one of those opened. -/
theorem mem_range (balanced : Balanced first next entries held) {handle : Nat}
    (member : handle ∈ closedIn entries ++ held) : first ≤ handle ∧ handle < next := by
  have inside := List.mem_range'_1.mp (balanced.closed.subset member)
  omega

end Balanced

end RouteDns.Ledger
