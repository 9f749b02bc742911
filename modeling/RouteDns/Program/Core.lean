import Mathlib.Data.List.Basic

/-!
# Failing programs over a threaded state

A program reads and replaces a state and either returns a value or fails.  A
failure does not undo the state: whatever was written before it stays written,
which is how a function that returns an error value behaves in the languages
this layer is meant for.

Loops that leave at the first success are written with `search`.
-/

namespace RouteDns

universe u v w x

/-- A sequence succeeds if both of its parts do. -/
theorem bind_eq_ok_iff {ε : Type u} {α : Type v} {β : Type w} {outcome : Except ε α}
    {next : α → Except ε β} {result : β} :
    outcome.bind next = .ok result ↔ ∃ value, outcome = .ok value ∧ next value = .ok result := by
  cases outcome <;> simp [Except.bind]

/-- A computation that threads a state `σ` and may fail with an `ε`.  The state
survives a failure. -/
def Program (σ : Type u) (ε : Type v) (α : Type w) : Type (max u v w) :=
  σ → Except ε α × σ

namespace Program

variable {σ : Type u} {ε : Type v} {α β : Type w}

/-- Run a program from a state. -/
def run (program : Program σ ε α) (state : σ) : Except ε α × σ :=
  program state

/-- The value a program returns, or its failure. -/
def result (program : Program σ ε α) (state : σ) : Except ε α :=
  (program.run state).1

/-- The state a program ends in, also when it fails. -/
def after (program : Program σ ε α) (state : σ) : σ :=
  (program.run state).2

instance : Monad (Program σ ε) where
  pure value := fun state => (.ok value, state)
  bind program next := fun state =>
    match program state with
    | (.ok value, reached) => next value reached
    | (.error failure, reached) => (.error failure, reached)

/-- Stop with a failure. -/
def fail (failure : ε) : Program σ ε α :=
  fun state => (.error failure, state)

/-- Run a program and hand its failure to the caller as a value. -/
def attempt (program : Program σ ε α) : Program σ ε (Except ε α) :=
  fun state => (.ok (program state).1, (program state).2)

/-- Rewrite the failure of a program. -/
def mapError (adjust : ε → ε) (program : Program σ ε α) : Program σ ε α :=
  fun state => ((program state).1.mapError adjust, (program state).2)

/-- Read a value off the state and replace the state. -/
def step (action : σ → α × σ) : Program σ ε α :=
  fun state => (.ok (action state).1, (action state).2)

/-- Turn an already computed outcome into a program. -/
def ofExcept (outcome : Except ε α) : Program σ ε α :=
  fun state => (outcome, state)

@[simp]
theorem run_pure (value : α) (state : σ) :
    (pure value : Program σ ε α).run state = (.ok value, state) :=
  rfl

@[simp]
theorem run_fail (failure : ε) (state : σ) :
    (fail failure : Program σ ε α).run state = (.error failure, state) :=
  rfl

@[simp]
theorem run_step (action : σ → α × σ) (state : σ) :
    (step action : Program σ ε α).run state = (.ok (action state).1, (action state).2) :=
  rfl

@[simp]
theorem run_attempt (program : Program σ ε α) (state : σ) :
    program.attempt.run state = (.ok (program.run state).1, (program.run state).2) :=
  rfl

@[simp]
theorem run_mapError (adjust : ε → ε) (program : Program σ ε α) (state : σ) :
    (program.mapError adjust).run state =
      ((program.run state).1.mapError adjust, (program.run state).2) :=
  rfl

theorem run_bind (program : Program σ ε α) (next : α → Program σ ε β) (state : σ) :
    (program >>= next).run state =
      match program.run state with
      | (.ok value, reached) => (next value).run reached
      | (.error failure, reached) => (.error failure, reached) :=
  rfl

variable {program : Program σ ε α} {next : α → Program σ ε β}

/-- Sequencing after a success continues from the state it left. -/
theorem run_bind_of_ok {state reached : σ} {value : α}
    (ran : program.run state = (.ok value, reached)) :
    (program >>= next).run state = (next value).run reached := by
  rw [run_bind, ran]

/-- Sequencing after a failure is that failure. -/
theorem run_bind_of_error {state reached : σ} {failure : ε}
    (ran : program.run state = (.error failure, reached)) :
    (program >>= next).run state = (.error failure, reached) := by
  rw [run_bind, ran]

/-- A sequence that returns has a first part that returns. -/
theorem run_bind_eq_ok {state after : σ} {value : β}
    (ran : (program >>= next).run state = (.ok value, after)) :
    ∃ middle reached, program.run state = (.ok middle, reached) ∧
      (next middle).run reached = (.ok value, after) := by
  rw [run_bind] at ran
  rcases first : program.run state with ⟨failure | middle, reached⟩
  · rw [first] at ran
    cases ran
  · rw [first] at ran
    exact ⟨middle, reached, rfl, ran⟩

/-- A sequence that ends in a failure does not return. -/
theorem run_bind_fail_ne_ok (program : Program σ ε α) (failure : α → ε) (state : σ) (value : β) :
    ((program >>= fun middle => fail (failure middle)).run state).1 ≠ .ok value := by
  intro returned
  obtain ⟨middle, reached, _, failed⟩ := run_bind_eq_ok
    (Prod.ext returned rfl : (program >>= fun middle => fail (failure middle)).run state =
      (.ok value, _))
  cases failed

/-! ## Leaving a loop at the first success -/

/-- Try the entries of a list in order and leave with the first result. -/
def search (body : α → Program σ ε (Option β)) : List α → Program σ ε (Option β)
  | [] => pure none
  | entry :: rest => do
    match ← body entry with
    | some found => pure (some found)
    | none => search body rest

end Program

end RouteDns
