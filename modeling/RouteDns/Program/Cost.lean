import Mathlib.Algebra.BigOperators.Group.List.Basic
import Mathlib.Algebra.GroupWithZero.Nat
import RouteDns.Program.Core

/-!
# What a program costs

A measure of the state counts something a program does: queries sent, blocks written.  A
program costs at most a bound if it never adds more than that to the measure, whether it
returns or fails.  The rules follow the program combinators; costs in sequence add up.

What a program is built from can be gone through once for all properties with such rules, also
for those that do not count anything.
-/

namespace RouteDns.Program

universe u v w

variable {σ : Type u} {ε : Type v} {α β : Type w}

/-! ## Properties with a budget -/

/-- A property of programs with a budget, which parts in sequence share. -/
structure Budgeted {σ : Type u} {ε : Type w}
    (within : ∀ {α : Type w}, Nat → Program σ ε α → Prop) : Prop where
  pure {α : Type w} {bound : Nat} (value : α) : within bound (Pure.pure value)
  fail {α : Type w} {bound : Nat} (failure : ε) :
    within bound (Program.fail failure : Program σ ε α)
  mono {α : Type w} {bound larger : Nat} {program : Program σ ε α} :
    within bound program → bound ≤ larger → within larger program
  bind {α β : Type w} {bound further : Nat} {program : Program σ ε α} {next : α → Program σ ε β} :
    within bound program → (∀ value, within further (next value)) →
      within (bound + further) (program >>= next)
  attempt {α : Type w} {bound : Nat} {program : Program σ ε α} :
    within bound program → within bound program.attempt

namespace Budgeted

variable {ε α β : Type w} {within : ∀ {α : Type w}, Nat → Program σ ε α → Prop} {bound : Nat}
  {condition : Prop} {onTrue onFalse program : Program σ ε α} {next : α → Program σ ε β}

theorem ite (_ : Budgeted within) [Decidable condition] (first : condition → within bound onTrue)
    (second : ¬ condition → within bound onFalse) :
    within bound (if condition then onTrue else onFalse) := by
  by_cases holds : condition
  · simpa only [if_pos holds] using first holds
  · simpa only [if_neg holds] using second holds

variable (budgeted : Budgeted within)

include budgeted

/-- A first part that costs nothing leaves the whole budget to the rest. -/
theorem bind_free (first : within 0 program)
    (rest : ∀ value, within bound (next value)) : within bound (program >>= next) :=
  budgeted.mono (budgeted.bind first rest) (Nat.le_of_eq (Nat.zero_add bound))

/-- A rest that costs nothing adds nothing. -/
theorem bind_then_free (first : within bound program) (rest : ∀ value, within 0 (next value)) :
    within bound (program >>= next) :=
  budgeted.bind first rest

/-- A loop that leaves at the first success needs at most what all its passes do. -/
theorem search {body : α → Program σ ε (Option β)} {entries : List α} (cost : α → Nat)
    (pass : ∀ entry ∈ entries, within (cost entry) (body entry)) :
    within (entries.map cost).sum (Program.search body entries) := by
  induction entries with
  | nil => exact budgeted.pure none
  | cons entry rest ih =>
    rw [List.map_cons, List.sum_cons]
    refine budgeted.bind (pass entry List.mem_cons_self) ?_
    rintro (_ | value)
    · exact ih fun later member => pass later (List.mem_cons_of_mem entry member)
    · exact budgeted.pure (some value)

end Budgeted

/-! ## Costs -/

/-- The program adds at most `bound` to the measure, however it ends. -/
def CostsAtMost (measure : σ → Nat) (bound : Nat) (program : Program σ ε α) : Prop :=
  ∀ state, measure (program.after state) ≤ measure state + bound

namespace CostsAtMost

variable {measure : σ → Nat} {bound : Nat} {program : Program σ ε α} {next : α → Program σ ε β}

theorem mono {larger : Nat} (costs : CostsAtMost measure bound program) (le : bound ≤ larger) :
    CostsAtMost measure larger program := by
  intro state
  exact Nat.le_trans (costs state) (Nat.add_le_add_left le _)

theorem pure (value : α) : CostsAtMost measure bound (Pure.pure value : Program σ ε α) :=
  fun _ => Nat.le_add_right _ _

theorem fail (failure : ε) : CostsAtMost measure bound (Program.fail failure : Program σ ε α) :=
  fun _ => Nat.le_add_right _ _

theorem ofExcept (outcome : Except ε α) : CostsAtMost measure bound (Program.ofExcept outcome) :=
  fun _ => Nat.le_add_right _ _

theorem step {action : σ → α × σ}
    (costs : ∀ state, measure (action state).2 ≤ measure state + bound) :
    CostsAtMost measure bound (Program.step action : Program σ ε α) :=
  costs

/-- Costs in sequence add up. -/
theorem bind {further : Nat} (first : CostsAtMost measure bound program)
    (rest : ∀ value, CostsAtMost measure further (next value)) :
    CostsAtMost measure (bound + further) (program >>= next) := by
  intro state
  have spent := first state
  unfold Program.after at spent ⊢
  rw [run_bind]
  rcases ran : program.run state with ⟨failure | value, reached⟩
  · rw [ran] at spent
    exact Nat.le_trans spent (Nat.add_le_add_left (Nat.le_add_right _ _) _)
  · rw [ran] at spent
    have more := rest value reached
    unfold Program.after at more
    simp only at spent ⊢
    omega

/-- A first part that costs nothing leaves the whole cost to the rest. -/
theorem bind_free (first : CostsAtMost measure 0 program)
    (rest : ∀ value, CostsAtMost measure bound (next value)) :
    CostsAtMost measure bound (program >>= next) :=
  (first.bind rest).mono (Nat.le_of_eq (Nat.zero_add bound))

/-- A rest that costs nothing adds nothing. -/
theorem bind_then_free (first : CostsAtMost measure bound program)
    (rest : ∀ value, CostsAtMost measure 0 (next value)) :
    CostsAtMost measure bound (program >>= next) :=
  first.bind rest

theorem attempt (costs : CostsAtMost measure bound program) :
    CostsAtMost measure bound program.attempt :=
  costs

theorem mapError {adjust : ε → ε} (costs : CostsAtMost measure bound program) :
    CostsAtMost measure bound (program.mapError adjust) :=
  costs

theorem budgeted {ε : Type w} (measure : σ → Nat) :
    Budgeted fun {α : Type w} bound (program : Program σ ε α) =>
      CostsAtMost measure bound program where
  pure := pure
  fail := fail
  mono := mono
  bind := bind
  attempt := attempt

theorem ite {ε : Type w} {condition : Prop} [Decidable condition] {onTrue onFalse : Program σ ε α}
    (first : condition → CostsAtMost measure bound onTrue)
    (second : ¬ condition → CostsAtMost measure bound onFalse) :
    CostsAtMost measure bound (if condition then onTrue else onFalse) :=
  (budgeted measure).ite first second

end CostsAtMost

end RouteDns.Program
