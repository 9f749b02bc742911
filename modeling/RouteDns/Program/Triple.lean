import RouteDns.Program.Cost

/-!
# Pre- and postconditions for failing programs

A triple relates the state before a program to its value and state after a
success, and to its failure and state after a failure.  The rules follow the
program combinators; a loop written with `search` is handled by one invariant.
-/

namespace RouteDns.Program

universe u v w

variable {σ : Type u} {ε : Type v} {α β : Type w}

/-- An outcome meets a postcondition for returning and one for failing. -/
def Meets (returned : α → σ → Prop) (failed : ε → σ → Prop) : Except ε α × σ → Prop
  | (.ok value, reached) => returned value reached
  | (.error failure, reached) => failed failure reached

/-- From every state with the precondition the program ends as described. -/
def Triple (pre : σ → Prop) (program : Program σ ε α)
    (returned : α → σ → Prop) (failed : ε → σ → Prop) : Prop :=
  ∀ state, pre state → Meets returned failed (program.run state)

/-- What one pass of a loop leaves: a find, or the invariant for the next pass. -/
def Leaves (found : β → σ → Prop) (invariant : σ → Prop) : Option β → σ → Prop
  | some value, state => found value state
  | none, state => invariant state

variable {condition : Prop} {next : α → Program σ ε β} {onFalse onTrue : Program σ ε α} {state : σ}

namespace Triple

variable {pre : σ → Prop} {program : Program σ ε α}
  {returned : α → σ → Prop} {failed : ε → σ → Prop}

variable {value : α}

/-- The returned half of a triple at one run. -/
theorem of_ok (triple : Triple pre program returned failed) {reached : σ} (holds : pre state)
    (ran : program.run state = (.ok value, reached)) : returned value reached := by
  have meets := triple state holds
  rwa [ran] at meets

/-- Strengthen the precondition and weaken both postconditions. -/
theorem imp {pre' : σ → Prop} {returned' : α → σ → Prop} {failed' : ε → σ → Prop}
    (triple : Triple pre program returned failed)
    (before : ∀ state, pre' state → pre state)
    (onReturn : ∀ value state, returned value state → returned' value state)
    (onFail : ∀ failure state, failed failure state → failed' failure state) :
    Triple pre' program returned' failed' := by
  intro state holds
  have meets := triple state (before state holds)
  rcases ran : program.run state with ⟨outcome | outcome, reached⟩
  · rw [ran] at meets
    exact onFail outcome reached meets
  · rw [ran] at meets
    exact onReturn outcome reached meets

theorem pure (holds : ∀ state, pre state → returned value state) :
    Triple pre (Pure.pure value) returned failed :=
  holds

theorem fail {failure : ε} (holds : ∀ state, pre state → failed failure state) :
    Triple pre (Program.fail failure : Program σ ε α) returned failed :=
  holds

theorem step {action : σ → α × σ}
    (holds : ∀ state, pre state → returned (action state).1 (action state).2) :
    Triple pre (Program.step action : Program σ ε α) returned failed :=
  holds

theorem ofExcept {outcome : Except ε α}
    (onOk : ∀ value, outcome = .ok value → ∀ state, pre state → returned value state)
    (onError : ∀ failure, outcome = .error failure → ∀ state, pre state → failed failure state) :
    Triple pre (Program.ofExcept outcome) returned failed := by
  intro state holds
  cases outcome with
  | ok value => exact onOk value rfl state holds
  | error failure => exact onError failure rfl state holds

theorem bind {returned' : β → σ → Prop} (middle : α → σ → Prop)
    (first : Triple pre program middle failed)
    (rest : ∀ value, Triple (middle value) (next value) returned' failed) :
    Triple pre (program >>= next) returned' failed := by
  intro state holds
  have meets := first state holds
  rw [run_bind]
  rcases ran : program.run state with ⟨outcome | outcome, reached⟩
  · rw [ran] at meets
    exact meets
  · rw [ran] at meets
    exact rest outcome reached meets

/-- A caught failure is an ordinary value. -/
theorem attempt {returned' : Except ε α → σ → Prop}
    (first : Triple pre program (fun value => returned' (.ok value))
      (fun failure => returned' (.error failure))) :
    Triple pre program.attempt returned' failed := by
  intro state holds
  have meets := first state holds
  rw [run_attempt]
  rcases ran : program.run state with ⟨outcome | outcome, reached⟩ <;>
    · rw [ran] at meets
      exact meets

theorem mapError {adjust : ε → ε}
    (first : Triple pre program returned (fun failure => failed (adjust failure))) :
    Triple pre (program.mapError adjust) returned failed := by
  intro state holds
  have meets := first state holds
  rw [run_mapError]
  rcases ran : program.run state with ⟨outcome | outcome, reached⟩ <;>
    · rw [ran] at meets
      exact meets

/-- A fact that does not mention the state is available to the whole proof. -/
theorem assuming {fact : Prop} (triple : fact → Triple pre program returned failed) :
    Triple (fun state => pre state ∧ fact) program returned failed :=
  fun state holds => triple holds.2 state holds.1

/-- A conditional is checked branch by branch. -/
theorem ite [Decidable condition] (first : condition → Triple pre onTrue returned failed)
    (second : ¬ condition → Triple pre onFalse returned failed) :
    Triple pre (if condition then onTrue else onFalse) returned failed := by
  by_cases holds : condition
  · simpa only [if_pos holds] using first holds
  · simpa only [if_neg holds] using second holds

/-- Loop rule: an invariant that every unsuccessful pass keeps. -/
theorem search {body : α → Program σ ε (Option β)} {entries : List α}
    (invariant : σ → Prop) (found : β → σ → Prop)
    (pass : ∀ entry ∈ entries, Triple invariant (body entry) (Leaves found invariant) failed) :
    Triple invariant (Program.search body entries) (Leaves found invariant) failed := by
  induction entries with
  | nil => exact pure fun state holds => holds
  | cons entry rest ih =>
    refine bind _ (pass entry List.mem_cons_self) ?_
    rintro (_ | value)
    · exact ih fun later member => pass later (List.mem_cons_of_mem entry member)
    · exact pure fun state holds => holds

end Triple

/-! ## Properties a program keeps -/

/-- A property that holds after the program, however it ends, if it held before. -/
def Keeps (property : σ → Prop) (program : Program σ ε α) : Prop :=
  Triple property program (fun _ => property) (fun _ => property)

namespace Keeps

variable {property : σ → Prop} {program : Program σ ε α}

theorem of_triple {returned : α → σ → Prop}
    (triple : Triple property program (fun value state => property state ∧ returned value state)
      (fun _ => property)) : Keeps property program :=
  triple.imp (fun _ holds => holds) (fun _ _ holds => holds.1) (fun _ _ holds => holds)

/-- The property at the state a run ends in. -/
theorem after (keeps : Keeps property program) (holds : property state) :
    property (program.after state) := by
  have meets := keeps state holds
  unfold Program.after
  rcases ran : program.run state with ⟨outcome | outcome, reached⟩ <;>
    · rw [ran] at meets
      exact meets

theorem pure (value : α) : Keeps property (Pure.pure value : Program σ ε α) :=
  Triple.pure fun _ holds => holds

theorem fail (failure : ε) : Keeps property (Program.fail failure : Program σ ε α) :=
  Triple.fail fun _ holds => holds

theorem bind (first : Keeps property program) (rest : ∀ value, Keeps property (next value)) :
    Keeps property (program >>= next) :=
  Triple.bind _ first rest

theorem ite [Decidable condition] (first : Keeps property onTrue)
    (second : Keeps property onFalse) :
    Keeps property (if condition then onTrue else onFalse) :=
  Triple.ite (fun _ => first) (fun _ => second)

theorem attempt (keeps : Keeps property program) : Keeps property program.attempt :=
  Triple.attempt keeps

theorem budgeted {ε : Type w} (property : σ → Prop) :
    Budgeted fun {α : Type w} _ (program : Program σ ε α) => Keeps property program where
  pure := pure
  fail := fail
  mono keeps _ := keeps
  bind := bind
  attempt := attempt

end Keeps

end RouteDns.Program
