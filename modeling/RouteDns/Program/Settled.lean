import RouteDns.Program.Cost

/-!
# Programs with a settled result

A program is settled under an invariant when its result is the same from every
state with the invariant and the invariant survives.  Memoisation is the typical
case: what is cached changes, what is computed does not.  The result of a sequence
of settled programs can be computed as if each started from one fixed state.
-/

namespace RouteDns.Program

universe u v w

variable {σ : Type u} {ε : Type v} {α β : Type w} {invariant : σ → Prop}

/-- From every state with the invariant the program has the given outcome and ends in
such a state. -/
def Settles (invariant : σ → Prop) (program : Program σ ε α) (outcome : Except ε α) : Prop :=
  ∀ state, invariant state →
    (program.run state).1 = outcome ∧ invariant (program.run state).2

/-- The program has the same outcome from every state with the invariant. -/
def Settled (invariant : σ → Prop) (program : Program σ ε α) : Prop :=
  ∃ outcome, Settles invariant program outcome

variable {next : α → Program σ ε β}

variable {adjust : ε → ε} {condition : Prop} {onFalse onTrue : Program σ ε α}

namespace Settles

variable {program : Program σ ε α} {outcome : Except ε α}

theorem settled (settles : Settles invariant program outcome) : Settled invariant program :=
  ⟨outcome, settles⟩

theorem result_eq (settles : Settles invariant program outcome) {state : σ}
    (holds : invariant state) : program.result state = outcome :=
  (settles state holds).1

theorem pure (value : α) :
    Settles invariant (Pure.pure value : Program σ ε α) (.ok value) :=
  fun _ holds => ⟨rfl, holds⟩

theorem fail (failure : ε) :
    Settles invariant (Program.fail failure : Program σ ε α) (.error failure) :=
  fun _ holds => ⟨rfl, holds⟩

theorem bind_ok {value : α} {outcome' : Except ε β} (first : Settles invariant program (.ok value))
    (rest : Settles invariant (next value) outcome') :
    Settles invariant (program >>= next) outcome' := by
  intro state holds
  obtain ⟨returned, kept⟩ := first state holds
  rw [run_bind_of_ok (Prod.ext returned rfl)]
  exact rest _ kept

theorem bind_error {failure : ε} (first : Settles invariant program (.error failure)) :
    Settles invariant (program >>= next) (.error failure) := by
  intro state holds
  obtain ⟨failed, kept⟩ := first state holds
  rw [run_bind_of_error (Prod.ext failed rfl)]
  exact ⟨rfl, kept⟩

/-- The outcome of a sequence is the sequence of the outcomes. -/
theorem bind {later : α → Except ε β} (first : Settles invariant program outcome)
    (rest : ∀ value, Settles invariant (next value) (later value)) :
    Settles invariant (program >>= next) (outcome.bind later) := by
  cases outcome with
  | error failure => exact first.bind_error
  | ok value => exact first.bind_ok (rest value)

theorem ite [Decidable condition] {whenTrue whenFalse : Except ε α}
    (first : Settles invariant onTrue whenTrue) (second : Settles invariant onFalse whenFalse) :
    Settles invariant (if condition then onTrue else onFalse)
      (if condition then whenTrue else whenFalse) := by
  split
  · exact first
  · exact second

theorem attempt (settles : Settles invariant program outcome) :
    Settles invariant program.attempt (.ok outcome) :=
  fun state holds => ⟨congrArg _ (settles state holds).1, (settles state holds).2⟩

theorem mapError (settles : Settles invariant program outcome) :
    Settles invariant (program.mapError adjust) (outcome.mapError adjust) := by
  intro state holds
  obtain ⟨outcome_eq, kept⟩ := settles state holds
  rw [run_mapError, outcome_eq]
  exact ⟨rfl, kept⟩

/-- A search whose passes only test their entry finds an entry that passes the test. -/
theorem search_test {body : α → Program σ ε (Option β)} {value : β} (test : α → Bool)
    {entries : List α} (pass : ∀ entry ∈ entries,
      Settles invariant (body entry) (.ok (if test entry then some value else none))) :
    Settles invariant (Program.search body entries)
      (.ok (if entries.any test then some value else none)) := by
  induction entries with
  | nil => exact pure none
  | cons entry rest ih =>
    have tail := ih fun later member => pass later (List.mem_cons_of_mem entry member)
    have head := pass entry List.mem_cons_self
    rw [List.any_cons]
    cases tested : test entry with
    | true =>
      rw [tested, if_pos rfl] at head
      exact head.bind_ok (pure (some value))
    | false =>
      rw [tested, if_neg (by simp)] at head
      exact head.bind_ok tail

end Settles

namespace Settled

variable {program : Program σ ε α} {start : σ}

/-- A settled program has, from every state with the invariant, the outcome it has
from one of them. -/
theorem settles (settled : Settled invariant program) (holds : invariant start) :
    Settles invariant program (program.result start) := by
  obtain ⟨outcome, settles⟩ := settled
  rwa [settles.result_eq holds]

theorem pure (value : α) : Settled invariant (Pure.pure value : Program σ ε α) :=
  (Settles.pure value).settled

theorem fail (failure : ε) : Settled invariant (Program.fail failure : Program σ ε α) :=
  (Settles.fail failure).settled

theorem bind (first : Settled invariant program) (rest : ∀ value, Settled invariant (next value)) :
    Settled invariant (program >>= next) := by
  obtain ⟨failure | value, settles⟩ := first
  · exact (settles.bind_error).settled
  · obtain ⟨_, later⟩ := rest value
    exact (settles.bind_ok later).settled

theorem ite [Decidable condition] (first : Settled invariant onTrue)
    (second : Settled invariant onFalse) :
    Settled invariant (if condition then onTrue else onFalse) := by
  split
  · exact first
  · exact second

theorem attempt (settled : Settled invariant program) : Settled invariant program.attempt := by
  obtain ⟨_, settles⟩ := settled
  exact settles.attempt.settled

theorem mapError (settled : Settled invariant program) :
    Settled invariant (program.mapError adjust) := by
  obtain ⟨_, settles⟩ := settled
  exact settles.mapError.settled

theorem budgeted {ε : Type w} (invariant : σ → Prop) :
    Budgeted fun {α : Type w} _ (program : Program σ ε α) => Settled invariant program where
  pure := pure
  fail := fail
  mono settled _ := settled
  bind := bind
  attempt := attempt

/-- The result of a sequence is computed as if both parts began at the start. -/
theorem result_bind (first : Settled invariant program)
    (rest : ∀ value, Settled invariant (next value)) (holds : invariant start) :
    (program >>= next).result start =
      (program.result start).bind fun value => (next value).result start :=
  ((first.settles holds).bind fun value => (rest value).settles holds).result_eq holds

end Settled

end RouteDns.Program
