import Mathlib.Data.List.Induction

/-!
# Histories

A run folds a step function over a list of inputs.  Where a property of the state can only
come from an input that brings it about, or from the state before and an input that spares
it, a state with the property has an origin: the input that last brought it about, since
which every input spared it and every state had it.

Operations that take effect at one instant each leave a history of what they answered.  The
history is atomic if a sequential object, given the operations one after the other, answers the
same.
-/

namespace RouteDns.History

variable {σ ι : Type} {step : σ → ι → σ} {start : σ}

/-- The inputs are split at the one that brought a property about. -/
structure Origin (step : σ → ι → σ) (start : σ) (has : σ → Prop) (brings spares : ι → Prop)
    (inputs before : List ι) (origin : ι) (after : List ι) : Prop where
  split : inputs = before ++ origin :: after
  brought : brings origin
  spared : ∀ input ∈ after, spares input
  kept : ∀ passed, passed <+: after → has ((before ++ origin :: passed).foldl step start)

theorem exists_origin {has : σ → Prop} {brings spares : ι → Prop} (initially : ¬ has start)
    (inversion : ∀ state input, has (step state input) → brings input ∨ has state ∧ spares input)
    (inputs : List ι) (finally_ : has (inputs.foldl step start)) :
    ∃ before origin after, Origin step start has brings spares inputs before origin after := by
  induction inputs using List.reverseRecOn with
  | nil => exact absurd finally_ initially
  | append_singleton inputs input ih =>
    have last : has (step (inputs.foldl step start) input) := by
      rwa [List.foldl_append] at finally_
    rcases inversion _ _ last with brought | ⟨had, spared⟩
    · refine ⟨inputs, input, [], rfl, brought, by simp, fun passed front => ?_⟩
      rwa [List.prefix_nil.mp front]
    · -- the origin of the state before stays the origin
      rcases ih had with ⟨before, origin, after, history⟩
      refine ⟨before, origin, after ++ [input], ?_, history.brought, ?_, fun passed front => ?_⟩
      · rw [history.split, List.append_assoc, List.cons_append]
      · simpa [or_imp, forall_and] using ⟨history.spared, spared⟩
      · rcases List.prefix_concat_iff.mp front with rfl | earlier
        · rwa [history.split, List.append_assoc, List.cons_append] at finally_
        · exact history.kept passed earlier

/-! ## Atomic histories -/

variable {ρ : Type} {apply : σ → ι → σ} {answer : σ → ι → ρ} {history : List (ι × ρ)}

/-- The state of a sequential object after the operations of a history. -/
def replay (apply : σ → ι → σ) (start : σ) (history : List (ι × ρ)) : σ :=
  history.foldl (fun state entry => apply state entry.1) start

@[simp]
theorem replay_concat (history : List (ι × ρ)) (entry : ι × ρ) :
    replay apply start (history ++ [entry]) = apply (replay apply start history) entry.1 := by
  rw [replay, List.foldl_append]
  rfl

/-- Every operation answered what the sequential object does at its turn. -/
def Atomic (apply : σ → ι → σ) (answer : σ → ι → ρ) (start : σ) (history : List (ι × ρ)) : Prop :=
  ∀ front operation result back, history = front ++ (operation, result) :: back →
    result = answer (replay apply start front) operation

theorem Atomic.nil : Atomic apply answer start [] := by
  intro front operation result back split
  simp at split

/-- One more operation keeps a history atomic if it answers for the operations before it. -/
theorem Atomic.concat (atomic : Atomic apply answer start history) {operation : ι} {result : ρ}
    (answered : result = answer (replay apply start history) operation) :
    Atomic apply answer start (history ++ [(operation, result)]) := by
  intro front other given back split
  rcases List.eq_nil_or_concat back with rfl | ⟨before, last, rfl⟩
  · have parts := List.append_inj' split rfl
    cases parts.2
    rw [← parts.1]
    exact answered
  · rw [List.concat_eq_append, ← List.cons_append, ← List.append_assoc] at split
    exact atomic front other given before (List.append_inj' split rfl).1

end RouteDns.History
