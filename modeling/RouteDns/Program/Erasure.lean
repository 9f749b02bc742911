import RouteDns.Program.Core

/-!
# Programs that return more

A statement about a run often needs a value the program computes but does not return.
A second program may return it as well, as long as forgetting it gives the first one
back, in every state.
-/

namespace RouteDns.Program

universe u v w

variable {σ : Type u} {ε : Type v} {α β γ δ : Type w}

/-- Forgetting a part of what `full` returns gives `program`. -/
def Erases (forget : β → α) (full : Program σ ε β) (program : Program σ ε α) : Prop :=
  ∀ state, program.run state = ((full.run state).1.map forget, (full.run state).2)

namespace Erases

variable {forget : β → α} {full : Program σ ε β} {program : Program σ ε α}

variable {reached state : σ} {forgetNext : δ → γ} {next : α → Program σ ε γ}
  {nextFull : β → Program σ ε δ}

/-- A run of the program is a run of the full one. -/
theorem run_eq_ok (erases : Erases forget full program) {value : α}
    (ran : program.run state = (.ok value, reached)) :
    ∃ more, full.run state = (.ok more, reached) ∧ forget more = value := by
  rw [erases state] at ran
  rcases both : full.run state with ⟨failure | more, after⟩
  · rw [both] at ran
    cases ran
  · rw [both] at ran
    cases ran
    exact ⟨more, rfl, rfl⟩

theorem run_of_ok (erases : Erases forget full program) {more : β}
    (ran : full.run state = (.ok more, reached)) :
    program.run state = (.ok (forget more), reached) := by
  rw [erases state, ran]
  rfl

theorem refl (program : Program σ ε α) : Erases id program program := by
  intro state
  rcases program.run state with ⟨failure | value, reached⟩ <;> rfl

theorem pure (more : β) :
    Erases forget (Pure.pure more : Program σ ε β) (Pure.pure (forget more)) :=
  fun _ => rfl

theorem fail (failure : ε) :
    Erases forget (Program.fail failure : Program σ ε β) (Program.fail failure) :=
  fun _ => rfl

theorem bind (first : Erases forget full program)
    (rest : ∀ more, Erases forgetNext (nextFull more) (next (forget more))) :
    Erases forgetNext (full >>= nextFull) (program >>= next) := by
  intro state
  rw [run_bind, run_bind, first state]
  rcases full.run state with ⟨failure | more, reached⟩
  · rfl
  · exact rest more reached

/-- Both programs start with the same part. -/
theorem bind_left {nextFull : α → Program σ ε δ}
    (rest : ∀ value, Erases forgetNext (nextFull value) (next value)) :
    Erases forgetNext (program >>= nextFull) (program >>= next) :=
  bind (refl program) rest

/-- The full program may look at the state. -/
theorem observe {other : Program σ ε γ} (look : σ → β)
    (rest : ∀ seen, Erases forgetNext (nextFull seen) other) :
    Erases forgetNext (Program.step (fun state => (look state, state)) >>= nextFull) other :=
  fun state => rest (look state) state

theorem ite {condition : Prop} [Decidable condition] {fullTrue fullFalse : Program σ ε β}
    {onTrue onFalse : Program σ ε α} (first : Erases forget fullTrue onTrue)
    (second : Erases forget fullFalse onFalse) :
    Erases forget (if condition then fullTrue else fullFalse)
      (if condition then onTrue else onFalse) := by
  split
  · exact first
  · exact second

/-- A loop whose passes return more. -/
theorem search {fullBody : γ → Program σ ε (Option β)} {body : γ → Program σ ε (Option α)}
    (pass : ∀ entry, Erases (Option.map forget) (fullBody entry) (body entry))
    (entries : List γ) :
    Erases (Option.map forget) (Program.search fullBody entries) (Program.search body entries) := by
  induction entries with
  | nil => exact pure none
  | cons entry rest ih =>
    refine bind (pass entry) ?_
    rintro (_ | more)
    · exact ih
    · exact pure (some more)

end Erases

end RouteDns.Program
