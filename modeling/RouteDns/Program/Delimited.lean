import Mathlib.Data.List.Basic

/-!
# Fields with delimiters

Texts are put together from fields with a delimiter between them.  A field that does not
contain the delimiter can be read off again, from the front or from the back.
-/

namespace RouteDns.Delimited

universe u

variable {α : Type u} {delimiter : α} {field field' rest rest' : List α}

/-- The field before the first delimiter can be read off. -/
theorem front_inj (free : delimiter ∉ field) (free' : delimiter ∉ field')
    (same : field ++ delimiter :: rest = field' ++ delimiter :: rest') :
    field = field' ∧ rest = rest' := by
  induction field generalizing field' with
  | nil =>
    cases field' with
    | nil => exact ⟨rfl, (List.cons.inj same).2⟩
    | cons entry field' =>
      have first : delimiter = entry := (List.cons.inj same).1
      exact absurd (first ▸ List.mem_cons_self) free'
  | cons entry field ih =>
    cases field' with
    | nil =>
      have first : entry = delimiter := (List.cons.inj same).1
      exact absurd (first ▸ List.mem_cons_self) free
    | cons entry' field' =>
      obtain ⟨first, others⟩ := List.cons.inj same
      obtain ⟨sameField, sameRest⟩ :=
        ih (fun member => free (List.mem_cons_of_mem _ member))
          (fun member => free' (List.mem_cons_of_mem _ member)) others
      exact ⟨by rw [first, sameField], sameRest⟩

/-- The field behind the last delimiter can be read off. -/
theorem back_inj (free : delimiter ∉ rest) (free' : delimiter ∉ rest')
    (same : field ++ delimiter :: rest = field' ++ delimiter :: rest') :
    field = field' ∧ rest = rest' := by
  have reversed := congrArg List.reverse same
  simp only [List.reverse_append, List.reverse_cons, List.append_assoc, List.singleton_append]
    at reversed
  obtain ⟨sameRest, sameField⟩ :=
    front_inj (fun member => free (List.mem_reverse.mp member))
      (fun member => free' (List.mem_reverse.mp member)) reversed
  exact ⟨List.reverse_injective sameField, List.reverse_injective sameRest⟩

/-- Where an entry stands right before a delimiter, it ends a field or comes later. -/
theorem ends_field_or_later {entry : α} (free : delimiter ∉ field) (different : entry ≠ delimiter)
    {before after : List α}
    (same : field ++ delimiter :: rest = before ++ entry :: delimiter :: after) :
    field = before ++ [entry] ∧ rest = after ∨
      ∃ later, before = field ++ delimiter :: later ∧
        rest = later ++ entry :: delimiter :: after := by
  rcases List.append_eq_append_iff.mp same with ⟨later, shape, tail⟩ | ⟨later, shape, tail⟩
  · cases later with
    | nil =>
      have first : delimiter = entry := (List.cons.inj tail).1
      exact absurd first.symm different
    | cons first later =>
      obtain ⟨rfl, tail'⟩ := List.cons.inj tail
      exact .inr ⟨later, shape, tail'⟩
  · cases later with
    | nil =>
      have first : entry = delimiter := (List.cons.inj tail).1
      exact absurd first different
    | cons first later =>
      obtain ⟨rfl, tail'⟩ := List.cons.inj tail
      cases later with
      | nil => exact .inl ⟨shape, (List.cons.inj tail').2.symm⟩
      | cons second later =>
        have inside : delimiter = second := (List.cons.inj tail').1
        apply absurd _ free
        rw [shape, inside]
        simp

end RouteDns.Delimited
