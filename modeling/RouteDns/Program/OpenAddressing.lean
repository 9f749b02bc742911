import Mathlib.Data.List.Perm.Subperm
import Mathlib.Data.Nat.Find

/-!
# Open addressing

A table of slots, some of them vacant.  An item goes into the first vacant slot from the place
its hash gives it, round the end of the table, and it is looked for from there up to the next
vacant slot.  Nothing is ever taken out, so the slots an item was moved past stay filled and
lead to it.
-/

namespace RouteDns.OpenAddressing

universe u

variable {α : Type u}

/-- The position behind a position, round the end. -/
def next (size position : Nat) : Nat :=
  if position + 1 = size then 0 else position + 1

/-- The position some steps on, round the end. -/
def ring (size start steps : Nat) : Nat :=
  (start + steps) % size

/-- The first position at which a search from a start stops.  A search that stops nowhere in
a whole round never does. -/
def probe (stop : α → Bool) (slots : List α) : (fuel position : Nat) → Option Nat
  | 0, _ => none
  | fuel + 1, position =>
    match slots[position]? with
    | none => none
    | some slot =>
      if stop slot then some position else probe stop slots fuel (next slots.length position)

section Table

variable (vacant : α → Bool)

/-- The first accepted slot from a start on, unless a vacant one comes before it.  The outer
option is empty if the search never ends. -/
def lookup (accept : α → Bool) (slots : List α) (start : Nat) : Option (Option α) :=
  (probe (fun slot => vacant slot || accept slot) slots slots.length start).bind fun position =>
    slots[position]?.map fun slot => if vacant slot then none else some slot

/-- Store an item in the first vacant slot from a start on. -/
def store (slots : List α) (start : Nat) (item : α) : Option (List α) :=
  (probe vacant slots slots.length start).map fun position => slots.set position item

/-- A table holds items, each with the start of its search. -/
structure Holds (slots : List α) (entries : List (Nat × α)) : Prop where
  inside : ∀ entry ∈ entries, entry.1 < slots.length
  filled : ∀ entry ∈ entries, vacant entry.2 = false
  reached : ∀ entry ∈ entries, ∃ steps < slots.length,
    slots[ring slots.length entry.1 steps]? = some entry.2 ∧
      ∀ earlier < steps, ∀ slot, slots[ring slots.length entry.1 earlier]? = some slot →
        vacant slot = false
  known : ∀ slot ∈ slots, vacant slot = false → ∃ start, (start, slot) ∈ entries
  count : slots.countP (fun slot => !vacant slot) ≤ entries.length

end Table

/-! ## Going round -/

variable {size start position : Nat} {slot : α}

theorem ring_zero (inside : start < size) : ring size start 0 = start :=
  Nat.mod_eq_of_lt inside

theorem next_lt (inside : position < size) : next size position < size := by
  unfold next
  split <;> omega

theorem next_eq_ring (inside : start < size) : next size start = ring size start 1 := by
  unfold next ring
  split
  · rename_i last
    rw [last, Nat.mod_self]
  · exact (Nat.mod_eq_of_lt (by omega)).symm

theorem ring_next (inside : start < size) (steps : Nat) :
    ring size (next size start) steps = ring size start (steps + 1) := by
  rw [next_eq_ring inside, ring, ring, ring, Nat.mod_add_mod, Nat.add_assoc, Nat.add_comm 1]

/-- Every position is some steps on from every other. -/
theorem exists_ring (inside : start < size) (there : position < size) :
    ∃ steps < size, ring size start steps = position := by
  refine ⟨(position + size - start) % size, Nat.mod_lt _ (by omega), ?_⟩
  have around : start + (position + size - start) = position + size := by omega
  rw [ring, Nat.add_mod_mod, around, Nat.add_mod_right, Nat.mod_eq_of_lt there]

/-! ## Searching -/

theorem probe_eq_ring {stop : α → Bool} {slots : List α} {fuel steps : Nat}
    (inside : start < slots.length) (enough : steps < fuel)
    (found : slots[ring slots.length start steps]? = some slot) (stops : stop slot = true)
    (passes : ∀ earlier < steps, ∀ other, slots[ring slots.length start earlier]? = some other →
      stop other = false) : probe stop slots fuel start = some (ring slots.length start steps) := by
  induction steps generalizing fuel start with
  | zero =>
    cases fuel with
    | zero => cases enough
    | succ fuel =>
      rw [ring_zero inside] at found ⊢
      simp [probe, found, stops]
  | succ steps ih =>
    cases fuel with
    | zero => cases enough
    | succ fuel =>
      have here := List.getElem?_eq_getElem inside
      have passed := passes 0 (Nat.succ_pos steps) _ (by rw [ring_zero inside]; exact here)
      rw [← ring_next inside] at found ⊢
      simp only [probe, here, passed, Bool.false_eq_true, if_false]
      apply ih (next_lt inside) (Nat.lt_of_succ_lt_succ enough) found
      intro earlier before other there
      rw [ring_next inside] at there
      exact passes (earlier + 1) (Nat.succ_lt_succ before) other there

/-- A search that can stop somewhere stops at the first place it can. -/
theorem exists_probe (stop : α → Bool) {slots : List α} (inside : start < slots.length)
    (stops : ∃ slot ∈ slots, stop slot = true) :
    ∃ steps < slots.length, ∃ slot,
      probe stop slots slots.length start = some (ring slots.length start steps) ∧
      slots[ring slots.length start steps]? = some slot ∧ stop slot = true ∧
      ∀ earlier < steps, ∀ other, slots[ring slots.length start earlier]? = some other →
        stop other = false := by
  classical
  obtain ⟨slot, member, stops⟩ := stops
  obtain ⟨position, found⟩ := List.mem_iff_getElem?.mp member
  obtain ⟨there, _⟩ := List.getElem?_eq_some_iff.mp found
  obtain ⟨steps, bounded, rfl⟩ := exists_ring inside there
  have reachable : ∃ steps, ∃ slot, slots[ring slots.length start steps]? = some slot ∧
      stop slot = true := ⟨steps, slot, found, stops⟩
  have within := Nat.lt_of_le_of_lt (Nat.find_min' reachable ⟨slot, found, stops⟩) bounded
  obtain ⟨first, found, stops⟩ := Nat.find_spec reachable
  have passes : ∀ earlier < Nat.find reachable, ∀ other,
      slots[ring slots.length start earlier]? = some other → stop other = false := by
    intro earlier before other there
    apply Bool.eq_false_iff.mpr
    intro stopped
    exact Nat.find_min reachable before ⟨other, there, stopped⟩
  exact ⟨_, within, first, probe_eq_ring inside within found stops passes, found, stops, passes⟩

/-! ## Tables -/

variable {vacant : α → Bool} {slots : List α} {entries : List (Nat × α)}

theorem holds_replicate (size : Nat) (empty : vacant slot = true) :
    Holds vacant (List.replicate size slot) [] where
  inside := by simp
  filled := by simp
  reached := by simp
  known := by
    intro other member filled
    rw [List.eq_of_mem_replicate member, empty] at filled
    cases filled
  count := by simp [List.countP_replicate, empty]

namespace Holds

variable (holds : Holds vacant slots entries) (room : entries.length < slots.length)
include holds room

/-- With fewer items than slots, a slot is vacant. -/
theorem exists_vacant : ∃ slot ∈ slots, vacant slot = true := by
  by_contra full
  push Not at full
  have all : slots.countP (fun slot => !vacant slot) = slots.length := by
    rw [List.countP_eq_length]
    intro slot member
    simpa using full slot member
  have count := holds.count
  omega

/-- A search in a table with room ends, at a vacant slot or at an item it accepts. -/
theorem lookup_cases (accept : α → Bool) (inside : start < slots.length) :
    (lookup vacant accept slots start = some none ∧
        ∀ item, (start, item) ∈ entries → accept item = false) ∨
      ∃ item, lookup vacant accept slots start = some (some item) ∧ accept item = true ∧
        ∃ origin, (origin, item) ∈ entries := by
  obtain ⟨free, member, empty⟩ := holds.exists_vacant room
  obtain ⟨steps, bounded, slot, probed, found, stops, passes⟩ :=
    exists_probe (fun slot => vacant slot || accept slot) inside
      ⟨free, member, by simp [empty]⟩
  have looked : lookup vacant accept slots start =
      some (if vacant slot then none else some slot) := by
    simp [lookup, probed, found]
  cases state : vacant slot with
  | true =>
    left
    refine ⟨by rw [looked, state]; rfl, ?_⟩
    intro item stored
    -- the item stands before the vacant slot, so the search passed it
    obtain ⟨place, _, there, before⟩ := holds.reached _ stored
    rcases Nat.lt_or_ge place steps with early | late
    · have passed := passes place early item there
      simp only [Bool.or_eq_false_iff] at passed
      exact passed.2
    · rcases Nat.lt_or_eq_of_le late with later | same
      · rw [before steps later slot found] at state
        cases state
      · subst same
        have equal : slot = item := Option.some.inj (found.symm.trans there)
        rw [equal, holds.filled _ stored] at state
        cases state
  | false =>
    right
    refine ⟨slot, by rw [looked, state]; rfl, by simpa [state] using stops, ?_⟩
    exact holds.known slot (List.mem_of_getElem? found) state

/-- Storing an item in a table with room. -/
theorem store (inside : start < slots.length) {item : α} (solid : vacant item = false) :
    ∃ stored, OpenAddressing.store vacant slots start item = some stored ∧
      stored.length = slots.length ∧ Holds vacant stored (entries ++ [(start, item)]) := by
  obtain ⟨steps, bounded, slot, probed, found, empty, passes⟩ :=
    exists_probe vacant inside (holds.exists_vacant room)
  generalize position_eq : ring slots.length start steps = position at probed found
  obtain ⟨there, slot_eq⟩ := List.getElem?_eq_some_iff.mp found
  have same : (slots.set position item)[position]? = some item := by simp [there]
  have other : ∀ (place : Nat) (slot' : α), slots[place]? = some slot' → vacant slot' = false →
      (slots.set position item)[place]? = some slot' := by
    intro place slot' placed filled
    rw [List.getElem?_set_ne, placed]
    rintro rfl
    rw [Option.some.inj (found.symm.trans placed), filled] at empty
    cases empty
  have kept : ∀ (place : Nat) (slot' : α), (slots.set position item)[place]? = some slot' →
      (∀ slot, slots[place]? = some slot → vacant slot = false) → vacant slot' = false := by
    intro place slot' placed filled
    by_cases moved : position = place
    · subst moved
      rw [filled slot found] at empty
      cases empty
    · rw [List.getElem?_set_ne moved] at placed
      exact filled slot' placed
  refine ⟨slots.set position item, by simp [OpenAddressing.store, probed], List.length_set, ?_⟩
  have members : ∀ entry, entry ∈ entries ++ [(start, item)] ↔
      entry ∈ entries ∨ entry = (start, item) := by simp
  constructor
  case inside =>
    intro entry member
    rw [List.length_set]
    rcases (members entry).mp member with old | rfl
    · exact holds.inside entry old
    · exact inside
  case filled =>
    intro entry member
    rcases (members entry).mp member with old | rfl
    · exact holds.filled entry old
    · exact solid
  case reached =>
    intro entry member
    rw [List.length_set]
    rcases (members entry).mp member with old | rfl
    · obtain ⟨place, within, placed, before⟩ := holds.reached entry old
      refine ⟨place, within, other _ _ placed (holds.filled entry old), ?_⟩
      intro earlier early slot' placed'
      exact kept _ slot' placed' (before earlier early)
    · refine ⟨steps, bounded, by rw [position_eq, same], ?_⟩
      intro earlier before slot' placed
      exact kept _ slot' placed (passes earlier before)
  case known =>
    intro slot' member filled
    rcases List.mem_or_eq_of_mem_set member with old | rfl
    · obtain ⟨origin, stored⟩ := holds.known slot' old filled
      exact ⟨origin, List.mem_append_left _ stored⟩
    · exact ⟨start, (members _).mpr (.inr rfl)⟩
  case count =>
    have count := holds.count
    rw [List.countP_set there, slot_eq, empty, solid, List.length_append, List.length_singleton]
    simp only [Bool.not_true, Bool.false_eq_true, if_false, Bool.not_false, if_true]
    omega

end Holds

end RouteDns.OpenAddressing
