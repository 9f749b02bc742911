import RouteDns.Program.Run

/-!
# Custody

Records are numbered and pass from hand to hand: one that is offered is taken by a hand, moves
on to others and is completed at last, or lost on the way.  A record that no two hands hold is
completed once at most, whatever the hands do with it.
-/

namespace RouteDns

universe u v

variable {α : Type u} {η : Type v}

/-- No two hands hold one record; what is held or offered has not been completed, and nothing
has been completed twice. -/
structure Custody (offered : α → Prop) (completions : α → Nat) (records : List α)
    (held : η → Nat → Prop) : Prop where
  exclusive : ∀ {first second : η} {index : Nat}, held first index → held second index →
    first = second
  taken : ∀ (hand : η) (index : Nat), held hand index → ∃ record, records[index]? = some record ∧
    ¬ offered record ∧ completions record = 0
  untouched : ∀ (index : Nat) (record : α), records[index]? = some record → offered record →
    completions record = 0
  once : ∀ (index : Nat) (record : α), records[index]? = some record → completions record ≤ 1

namespace Custody

variable {offered : α → Prop} {completions : α → Nat} {records : List α} {record new : α}
  {held held' : η → Nat → Prop} {hand : η} {index : Nat}

theorem empty (nothing : ∀ hand index, ¬ held hand index) :
    Custody offered completions [] held where
  exclusive first := absurd first (nothing _ _)
  taken hand index inHand := absurd inHand (nothing hand index)
  untouched _ _ found := nomatch found
  once _ _ found := nomatch found

variable (custody : Custody offered completions records held)
include custody

/-- Hands may lose what they hold. -/
theorem fewer (still : ∀ hand index, held' hand index → held hand index) :
    Custody offered completions records held' where
  exclusive first second := custody.exclusive (still _ _ first) (still _ _ second)
  taken hand index inHand := custody.taken hand index (still hand index inHand)
  untouched := custody.untouched
  once := custody.once

/-- A record passes from one hand to another. -/
theorem move (had : held hand index) (target : η)
    (moved : ∀ other number, held' other number →
      other = target ∧ number = index ∨ held other number ∧ ¬ (other = hand ∧ number = index)) :
    Custody offered completions records held' where
  exclusive {first second number} one two := by
    rcases moved _ _ one with ⟨rfl, rfl⟩ | ⟨one, notFirst⟩ <;>
      rcases moved _ _ two with ⟨rfl, same⟩ | ⟨two, notSecond⟩
    · rfl
    · exact absurd ⟨custody.exclusive two had, rfl⟩ notSecond
    · subst same
      exact absurd ⟨custody.exclusive one had, rfl⟩ notFirst
    · exact custody.exclusive one two
  taken other number inHand := by
    rcases moved _ _ inHand with ⟨-, rfl⟩ | ⟨inHand, -⟩
    · exact custody.taken hand number had
    · exact custody.taken other number inHand
  untouched := custody.untouched
  once := custody.once

/-- A record changes in other ways. -/
theorem replace (found : records[index]? = some record)
    (kept : completions new = completions record) (stays : offered new → offered record) :
    Custody offered completions (records.set index new) held where
  exclusive := custody.exclusive
  taken hand number inHand := by
    obtain ⟨old, at_, notOffered, unfinished⟩ := custody.taken hand number inHand
    by_cases same : number = index
    · subst same
      rw [found] at at_
      cases at_
      refine ⟨new, ?_, fun still => notOffered (stays still), kept.trans unfinished⟩
      exact List.getElem?_set_self (List.getElem?_eq_some_iff.mp found).1
    · exact ⟨old, by rw [List.getElem?_set_ne (Ne.symm same), at_], notOffered, unfinished⟩
  untouched := forall_getElem?_set (fun _ record => offered record → completions record = 0)
    (fun still => kept.trans (custody.untouched index record found (stays still)))
    fun number old _ => custody.untouched number old
  once := forall_getElem?_set (fun _ record => completions record ≤ 1)
    (by rw [kept]; exact custody.once index record found) fun number old _ =>
      custody.once number old

/-- A hand completes a record and lets go of it. -/
theorem complete (had : held hand index) (found : records[index]? = some record)
    (counted : completions new = completions record + 1) (stays : offered new → offered record)
    (left : ∀ other number, held' other number →
      held other number ∧ ¬ (other = hand ∧ number = index)) :
    Custody offered completions (records.set index new) held' := by
  obtain ⟨same, at_, notOffered, unfinished⟩ := custody.taken hand index had
  rw [found] at at_
  cases at_
  have elsewhere : ∀ other number, held' other number → held other number ∧ number ≠ index := by
    intro other number inHand
    obtain ⟨inHand, away⟩ := left other number inHand
    refine ⟨inHand, ?_⟩
    rintro rfl
    exact away ⟨custody.exclusive inHand had, rfl⟩
  exact {
    exclusive := fun one two =>
      custody.exclusive (elsewhere _ _ one).1 (elsewhere _ _ two).1
    taken := fun other number inHand => by
      obtain ⟨inHand, away⟩ := elsewhere other number inHand
      obtain ⟨old, at_, rest⟩ := custody.taken other number inHand
      exact ⟨old, by rw [List.getElem?_set_ne (Ne.symm away), at_], rest⟩
    untouched := forall_getElem?_set (fun _ record => offered record → completions record = 0)
      (fun still => absurd (stays still) notOffered) fun number old _ =>
        custody.untouched number old
    once := forall_getElem?_set (fun _ record => completions record ≤ 1)
      (Nat.le_of_eq (by rw [counted, unfinished])) fun number old _ => custody.once number old }

/-- A hand takes a record that is offered. -/
theorem take (found : records[index]? = some record) (was : offered record) (now : ¬ offered new)
    (kept : completions new = completions record) (target : η)
    (gained : ∀ other number, held' other number →
      other = target ∧ number = index ∨ held other number) :
    Custody offered completions (records.set index new) held' := by
  have free : ∀ hand, ¬ held hand index := by
    intro hand inHand
    obtain ⟨old, at_, notOffered, -⟩ := custody.taken hand index inHand
    rw [found] at at_
    cases at_
    exact notOffered was
  have unfinished := custody.untouched index record found was
  have replaced := custody.replace found kept fun still => absurd still now
  exact {
    exclusive := fun {first second number} one two => by
      rcases gained _ _ one with ⟨rfl, rfl⟩ | one <;> rcases gained _ _ two with ⟨rfl, same⟩ | two
      · rfl
      · exact absurd two (free _)
      · subst same
        exact absurd one (free _)
      · exact custody.exclusive one two
    taken := fun other number inHand => by
      rcases gained _ _ inHand with ⟨-, rfl⟩ | inHand
      · exact ⟨new, List.getElem?_set_self (List.getElem?_eq_some_iff.mp found).1, now,
          kept.trans unfinished⟩
      · exact replaced.taken other number inHand
    untouched := replaced.untouched
    once := replaced.once }

/-- A new record comes in. -/
theorem append (unfinished : completions new = 0) :
    Custody offered completions (records ++ [new]) held where
  exclusive := custody.exclusive
  taken hand number inHand := by
    obtain ⟨old, at_, rest⟩ := custody.taken hand number inHand
    exact ⟨old, by rw [List.getElem?_append_left (List.getElem?_eq_some_iff.mp at_).1, at_], rest⟩
  untouched := forall_getElem?_concat (fun _ record => offered record → completions record = 0)
    (fun _ => unfinished) custody.untouched
  once := forall_getElem?_concat (fun _ record => completions record ≤ 1)
    (by rw [unfinished]; exact Nat.zero_le 1) custody.once

end Custody

end RouteDns
