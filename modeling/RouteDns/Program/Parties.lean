import Mathlib.Data.List.Basic

/-!
# Parties that share a state

Any number of parties run concurrently, each with a state of its own beside one that all of
them share.  A step of one party changes its own state and the shared one; new parties may
join at any time.
-/

namespace RouteDns

universe u v

/-- A shared state and those of the parties, which are numbered in the order they joined. -/
structure Parties (σ : Type u) (τ : Type v) where
  common : σ
  each : List τ
  deriving DecidableEq

namespace Parties

variable {σ : Type u} {τ : Type v} {s s' : Parties σ τ} {index : Nat}
  {update : σ → τ → Option (σ × τ)}

/-- A step of the party at an index. -/
def act (s : Parties σ τ) (index : Nat) (update : σ → τ → Option (σ × τ)) :
    Option (Parties σ τ) :=
  match s.each[index]? with
  | none => none
  | some party =>
    (update s.common party).map fun changed =>
      { common := changed.1, each := s.each.set index changed.2 }

/-- Another party joins. -/
def join (s : Parties σ τ) (party : τ) : Parties σ τ :=
  { s with each := s.each ++ [party] }

theorem act_eq_some_iff :
    s.act index update = some s' ↔
      ∃ party common party', s.each[index]? = some party ∧
        update s.common party = some (common, party') ∧
        s' = { common := common, each := s.each.set index party' } := by
  unfold act
  cases found : s.each[index]? with
  | none => simp
  | some party =>
    simp only [Option.map_eq_some_iff, Option.some.injEq, exists_and_left, exists_eq_left']
    constructor
    · rintro ⟨⟨common, party'⟩, updated, rfl⟩
      exact ⟨common, party', updated, rfl⟩
    · rintro ⟨common, party', updated, rfl⟩
      exact ⟨(common, party'), updated, rfl⟩

/-- Parties do not leave. -/
theorem length_of_act (acted : s.act index update = some s') : s'.each.length = s.each.length := by
  obtain ⟨party, common, party', -, -, rfl⟩ := act_eq_some_iff.mp acted
  exact List.length_set

variable {party other old : τ} {acting : Nat} {each : List τ}

theorem isSome_act (found : s.each[index]? = some party) :
    (s.act index update).isSome = (update s.common party).isSome := by
  unfold act
  rw [found]
  exact Option.isSome_map

/-- The parties after another one has joined. -/
theorem of_getElem?_join (found : (s.join party).each[index]? = some other) :
    s.each[index]? = some other ∨ other = party := by
  rcases Nat.lt_or_ge index s.each.length with inside | outside
  · exact .inl ((List.getElem?_append_left inside).symm.trans found)
  · have last := (List.getElem?_append_right outside).symm.trans found
    exact .inr (List.mem_singleton.mp (List.mem_of_getElem? last))

theorem getElem?_join (found : s.each[index]? = some other) :
    (s.join party).each[index]? = some other :=
  (List.getElem?_append_left (List.getElem?_eq_some_iff.mp found).1).trans found

/-- The parties after one of them has acted. -/
theorem of_getElem?_set (found : (each.set acting party)[index]? = some other) :
    index ≠ acting ∧ each[index]? = some other ∨ index = acting ∧ other = party := by
  by_cases same : index = acting
  · subst same
    have inside : index < each.length := by
      have bound := (List.getElem?_eq_some_iff.mp found).1
      rwa [List.length_set] at bound
    rw [List.getElem?_set_self inside] at found
    exact .inr ⟨rfl, (Option.some.inj found).symm⟩
  · rw [List.getElem?_set_ne (Ne.symm same)] at found
    exact .inl ⟨same, found⟩

theorem getElem?_set_acting (found : each[index]? = some old) :
    (each.set index party)[index]? = some party :=
  List.getElem?_set_self (List.getElem?_eq_some_iff.mp found).1

/-- A party with another state than the one that has acted is still there. -/
theorem getElem?_set_other (found : each[acting]? = some old)
    (foundOther : each[index]? = some other) (different : other ≠ old) :
    (each.set acting party)[index]? = some other := by
  rw [List.getElem?_set_ne]
  · exact foundOther
  · rintro rfl
    rw [found] at foundOther
    exact different (Option.some.inj foundOther).symm

/-- Every party meets a property of its own state and the shared one. -/
def All (property : σ → τ → Prop) (s : Parties σ τ) : Prop :=
  ∀ party ∈ s.each, property s.common party

variable {property : σ → τ → Prop}

theorem All.nil (common : σ) : All property { common := common, each := [] } :=
  fun _ member => absurd member List.not_mem_nil

variable (all : s.All property)
include all

theorem All.get (found : s.each[index]? = some party) : property s.common party :=
  all party (List.mem_of_getElem? found)

theorem All.join (new : property s.common party) : (s.join party).All property := by
  intro other member
  rcases List.mem_append.mp member with old | isNew
  · exact all other old
  · rw [List.mem_singleton.mp isNew]
    exact new

/-- One party acts, and the others do not mind. -/
theorem All.set {common : σ} (own : property common party)
    (stable : ∀ other, property s.common other → property common other) :
    All property { common := common, each := s.each.set index party } := by
  intro other member
  rcases List.mem_or_eq_of_mem_set member with old | rfl
  · exact stable other (all other old)
  · exact own

end Parties

end RouteDns
