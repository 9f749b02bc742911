import Mathlib.Data.List.Induction

/-!
# Runs

A system of concurrent parts takes one step at a time, in any order.  A step is the action of
one part; it may not be enabled in a state.  A run is a sequence of steps from the initial
state in which every step meets a condition on the state it is taken in.
-/

namespace RouteDns

universe u v

variable {σ : Type u} {ι : Type v}

/-- The states that sequences of actions lead to. -/
inductive Run (step : σ → ι → Option σ) (allowed : σ → ι → Prop) (start : σ) :
    List ι → σ → Prop where
  | nil : Run step allowed start [] start
  | snoc {actions : List ι} {state next : σ} {action : ι}
      (before : Run step allowed start actions state)
      (meets : allowed state action) (taken : step state action = some next) :
      Run step allowed start (actions ++ [action]) next

namespace Run

variable {step : σ → ι → Option σ} {allowed : σ → ι → Prop} {start reached : σ}
  {actions : List ι}

/-- What holds initially and is kept by every step holds in every state reached. -/
theorem invariant (property : σ → Prop) (initially : property start)
    (kept : ∀ {state next : σ} {action : ι}, property state → allowed state action →
      step state action = some next → property next)
    (run : Run step allowed start actions reached) : property reached := by
  induction run with
  | nil => exact initially
  | snoc _ meets taken holds => exact kept holds meets taken

/-- What is kept by every step may be assumed in every step. -/
theorem strengthen (property : σ → Prop) (initially : property start)
    (kept : ∀ {state next : σ} {action : ι}, property state → allowed state action →
      step state action = some next → property next)
    (run : Run step allowed start actions reached) :
    Run step (fun state action => property state ∧ allowed state action) start actions
      reached := by
  induction run with
  | nil => exact nil
  | snoc before meets taken ih =>
    exact ih.snoc ⟨before.invariant property initially kept, meets⟩ taken

/-- A condition that is met in every step may be weakened. -/
theorem weaken {weaker : σ → ι → Prop} (imp : ∀ state action, allowed state action →
    weaker state action) (run : Run step allowed start actions reached) :
    Run step weaker start actions reached := by
  induction run with
  | nil => exact nil
  | snoc _ meets taken before => exact before.snoc (imp _ _ meets) taken

/-- A run goes on from where another ended. -/
theorem append {more : List ι} {further : σ} (run : Run step allowed start actions reached)
    (rest : Run step allowed reached more further) :
    Run step allowed start (actions ++ more) further := by
  induction rest with
  | nil => rwa [List.append_nil]
  | snoc _ meets taken before =>
    rw [← List.append_assoc]
    exact before.snoc meets taken

/-- A run stops at every point on its way. -/
theorem split {more : List ι} (run : Run step allowed start (actions ++ more) reached) :
    ∃ state, Run step allowed start actions state ∧ Run step allowed state more reached := by
  induction more using List.reverseRecOn generalizing reached with
  | nil => exact ⟨reached, by rwa [List.append_nil] at run, nil⟩
  | append_singleton more action ih =>
    rw [← List.append_assoc] at run
    generalize whole : actions ++ more ++ [action] = all at run
    cases run with
    | nil => simp at whole
    | snoc before meets taken =>
      obtain ⟨rfl, same⟩ := List.append_inj' whole rfl
      cases same
      obtain ⟨state, front, back⟩ := ih before
      exact ⟨state, front, back.snoc meets taken⟩

/-- The actions determine where a run ends. -/
theorem unique {other : σ} (run : Run step allowed start actions reached)
    (again : Run step allowed start actions other) : reached = other := by
  induction run generalizing other with
  | nil =>
    generalize none_ : ([] : List ι) = all at again
    cases again with
    | nil => rfl
    | snoc => simp at none_
  | @snoc front _ _ last _ _ taken ih =>
    generalize whole : front ++ [last] = all at again
    cases again with
    | nil => simp at whole
    | snoc before _ taken' =>
      obtain ⟨rfl, same⟩ := List.append_inj' whole rfl
      cases same
      rw [← ih before, taken] at taken'
      exact Option.some.inj taken'

/-- The first step of a run. -/
theorem uncons {action : ι} (run : Run step allowed start (action :: actions) reached) :
    ∃ next, step start action = some next ∧ Run step allowed next actions reached := by
  rw [← List.singleton_append] at run
  obtain ⟨next, first, rest⟩ := run.split
  refine ⟨next, ?_, rest⟩
  generalize single : [action] = all at first
  cases first with
  | nil => cases single
  | snoc before _ taken =>
    rw [← List.nil_append [action]] at single
    obtain ⟨rfl, same⟩ := List.append_inj' single rfl
    cases same
    rwa [← nil.unique before] at taken

/-- If every step lowers a measure, runs are no longer than it is. -/
theorem length_le (measure : σ → Nat)
    (lowered : ∀ {state next : σ} {action : ι}, allowed state action →
      step state action = some next → measure next < measure state)
    (run : Run step allowed start actions reached) : actions.length ≤ measure start := by
  have spent : actions.length + measure reached ≤ measure start := by
    induction run with
    | nil => simp
    | snoc _ meets taken ih =>
      have less := lowered meets taken
      rw [List.length_append, List.length_singleton]
      omega
  exact Nat.le_trans (Nat.le_add_right _ _) spent

variable [∀ state action, Decidable (allowed state action)]

/-- The step if it meets the condition. -/
def guarded (step : σ → ι → Option σ) (allowed : σ → ι → Prop)
    [∀ state action, Decidable (allowed state action)] (state : σ) (action : ι) : Option σ :=
  if allowed state action then step state action else none

/-- Runs can be computed. -/
theorem of_foldlM (computed : actions.foldlM (guarded step allowed) start = some reached) :
    Run step allowed start actions reached := by
  induction actions using List.reverseRecOn generalizing reached with
  | nil =>
    cases computed
    exact nil
  | append_singleton actions action ih =>
    rw [List.foldlM_append, Option.bind_eq_bind, Option.bind_eq_some_iff] at computed
    obtain ⟨state, before, last⟩ := computed
    rw [List.foldlM_cons, Option.bind_eq_bind, Option.bind_eq_some_iff] at last
    obtain ⟨next, taken, same⟩ := last
    cases same
    unfold guarded at taken
    split at taken
    · rename_i meets
      exact snoc (ih before) meets taken
    · cases taken

end Run

/-- What holds of a new entry, and of all others, holds of a list with the entry put in. -/
theorem forall_getElem?_set {α : Type u} {entries : List α} {index : Nat} {entry : α}
    (property : Nat → α → Prop) (new : property index entry)
    (others : ∀ other old, other ≠ index → entries[other]? = some old → property other old)
    (other : Nat) (old : α) (found : (entries.set index entry)[other]? = some old) :
    property other old := by
  rw [List.getElem?_set] at found
  split at found
  · rename_i same
    split at found
    · cases found
      exact same ▸ new
    · cases found
  · rename_i different
    exact others other old (Ne.symm different) found

/-- What holds of all entries and of another one holds with it appended. -/
theorem forall_getElem?_concat {α : Type u} {entries : List α} {entry : α}
    (property : Nat → α → Prop) (new : property entries.length entry)
    (others : ∀ other old, entries[other]? = some old → property other old)
    (other : Nat) (old : α) (found : (entries ++ [entry])[other]? = some old) :
    property other old := by
  rcases Nat.lt_or_ge other entries.length with inside | outside
  · rw [List.getElem?_append_left inside] at found
    exact others other old found
  · rw [List.getElem?_append_right outside] at found
    have last : other = entries.length := by
      have bound := (List.getElem?_eq_some_iff.mp found).1
      rw [List.length_singleton] at bound
      omega
    rw [last, Nat.sub_self] at found
    cases found
    exact last ▸ new

end RouteDns
