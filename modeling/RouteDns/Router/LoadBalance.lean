import Mathlib.Data.List.Nodup
import Mathlib.Data.List.Perm.Subperm
import RouteDns.Program.Parties
import RouteDns.Router.Failover

/-!
# Balancing the load of resolvers

A group hands a query to one of its resolvers, and to another one if that fails, until one
succeeds or all have failed.  The resolvers that a call has not tried are kept as a list of
their indexes; one that fails is overwritten by the last of the list, which is then cut.

Which of them is picked depends on measured response times.  Other calls change these all the
time, so the position that is picked is any one in the list.
-/

namespace RouteDns.Router.LoadBalance

open Dns

structure LoadBalanceOptions where
  servfailError : Bool
  emptyError : Bool

/-- A response is returned at once. -/
def LoadBalanceOptions.success (opt : LoadBalanceOptions) : Response → Bool
  | .error _ => false
  | .ok a => isSuccessResponse a opt.servfailError opt.emptyError

/-- A resolver that was asked, and what it returned. -/
structure Trial where
  resolver : Nat
  response : Response
  deriving DecidableEq

/-- A call of `Resolve`: the indexes that remain, the trials so far, the response of the last
one and what has been returned. -/
structure Call where
  remaining : List Nat
  trials : List Trial
  last : Response
  returned : Option Response
  deriving DecidableEq

/-- What is returned after all resolvers have failed, or if there are none. -/
def finish : Response → Response
  | .ok none => .error (text "no active resolvers left")
  | response => response

/-- The loop ends when no resolver remains. -/
def loop (call : Call) : Call :=
  if call.remaining = [] then { call with returned := some (finish call.last) } else call

def begin (n : Nat) : Call :=
  loop { remaining := List.range n, trials := [], last := .ok none, returned := none }

/-- Overwrite an entry by the last one, and cut that. -/
def swapRemove (remaining : List Nat) (pos : Nat) : List Nat :=
  (remaining.set pos (remaining.getLastD 0)).dropLast

section Model

variable (opt : LoadBalanceOptions) (n : Nat)

/-- One iteration of the loop, with the position that was picked and the response of the
resolver.  Failures are counted for the group. -/
def attempt (pos : Nat) (response : Response) (failover : Nat) (call : Call) :
    Option (Nat × Call) :=
  if call.returned.isSome then none
  else
    match call.remaining[pos]? with
    | none => none
    | some idx =>
      let trials := call.trials ++ [{ resolver := idx, response := response }]
      if opt.success response then
        some (failover,
          { call with trials := trials, last := response, returned := some response })
      else
        some (failover + 1,
          loop
            { remaining := swapRemove call.remaining pos
              trials := trials
              last := response
              returned := none })

inductive Event where
  | resolve
  | attempt (index pos : Nat) (response : Response)

/-- Any number of calls of one group. -/
def step (s : Parties Nat Call) : Event → Option (Parties Nat Call)
  | .resolve => some (s.join (begin n))
  | .attempt index pos response => s.act index (attempt opt pos response)

def initial : Parties Nat Call where
  common := 0
  each := []

end Model

/-! ## The indexes that remain -/

variable {pos : Nat}

/-- Exactly the entry at the position is removed. -/
theorem perm_swapRemove {remaining : List Nat} {idx : Nat} (found : remaining[pos]? = some idx) :
    remaining.Perm (idx :: swapRemove remaining pos) := by
  obtain ⟨inside, rfl⟩ := List.getElem?_eq_some_iff.mp found
  have nonempty : remaining ≠ [] := List.ne_nil_of_length_pos (Nat.zero_lt_of_lt inside)
  obtain ⟨front, last, rfl⟩ := List.eq_nil_or_concat' remaining |>.resolve_left nonempty
  rw [swapRemove, List.getLastD_concat]
  rcases Nat.lt_or_ge pos front.length with before | behind
  · rw [List.set_append_left pos last before, List.dropLast_concat,
      List.getElem_append_left before]
    -- The last entry takes the place of the one that is removed.
    calc
      List.Perm (front ++ [last]) (last :: front) := List.perm_append_singleton last front
      List.Perm _ (last :: front[pos] :: front.eraseIdx pos) :=
        ((List.getElem_cons_eraseIdx_perm before).symm).cons last
      List.Perm _ (front[pos] :: last :: front.eraseIdx pos) := List.Perm.swap _ _ _
      List.Perm _ (front[pos] :: front.set pos last) :=
        ((List.set_perm_cons_eraseIdx before last).symm).cons front[pos]
  · have isLast : pos = front.length := by
      rw [List.length_append, List.length_singleton] at inside
      omega
    subst isLast
    rw [List.set_append_right _ _ (Nat.le_refl _), Nat.sub_self, List.set_cons_zero,
      List.dropLast_concat, List.getElem_concat_length rfl]
    exact List.perm_append_singleton last front

/-! ## What a call has done -/

/-- A call whose trials have all failed, or one whose last trial has succeeded. -/
inductive Proper (opt : LoadBalanceOptions) (n : Nat) (call : Call) : Prop where
  | failing (failed : ∀ trial ∈ call.trials, opt.success trial.response = false)
      (untried : (call.trials.map Trial.resolver ++ call.remaining).Perm (List.range n))
      (result : call.returned = if call.remaining = [] then some (finish call.last) else none)
      (failure : opt.success (finish call.last) = false)
  | succeeded (before : List Trial) (trial : Trial) (trials : call.trials = before ++ [trial])
      (failed : ∀ earlier ∈ before, opt.success earlier.response = false)
      (distinct : (call.trials.map Trial.resolver).Nodup)
      (inside : ∀ resolver ∈ call.trials.map Trial.resolver, resolver < n)
      (result : call.returned = some trial.response) (success : opt.success trial.response)

section Calls

variable {opt : LoadBalanceOptions} {n : Nat} {call : Call}

variable {response : Response}

theorem finish_of_failure (failure : opt.success response = false) :
    finish response = response := by
  unfold finish
  split
  · cases failure
  · rfl

/-- The loop goes on with what remains. -/
theorem proper_loop (failed : ∀ trial ∈ call.trials, opt.success trial.response = false)
    (untried : (call.trials.map Trial.resolver ++ call.remaining).Perm (List.range n))
    (running : call.returned = none) (failure : opt.success (finish call.last) = false) :
    Proper opt n (loop call) := by
  unfold loop
  split
  · rename_i none_
    exact .failing failed untried (if_pos none_).symm failure
  · rename_i some_
    exact .failing failed untried (running.trans (if_neg some_).symm) failure

theorem proper_begin : Proper opt n (begin n) :=
  proper_loop (fun _ member => absurd member List.not_mem_nil) (List.Perm.refl _) rfl rfl

theorem Proper.distinct (proper : Proper opt n call) : (call.trials.map Trial.resolver).Nodup := by
  cases proper with
  | failing failed untried result failure =>
    exact List.Nodup.of_append_left (untried.nodup_iff.mpr List.nodup_range)
  | succeeded before trial trials failed distinct inside result success => exact distinct

theorem Proper.inside (proper : Proper opt n call) :
    ∀ resolver ∈ call.trials.map Trial.resolver, resolver < n := by
  cases proper with
  | failing failed untried result failure =>
    intro resolver member
    exact List.mem_range.mp (untried.mem_iff.mp (List.mem_append_left _ member))
  | succeeded before trial trials failed distinct inside result success => exact inside

/-- An iteration of the loop. -/
theorem proper_attempt {failover failover' : Nat} {next : Call} (proper : Proper opt n call)
    (taken : attempt opt pos response failover call = some (failover', next)) :
    Proper opt n next := by
  obtain ⟨running, taken⟩ := Option.ite_none_left_eq_some.mp taken
  rw [Option.not_isSome_iff_eq_none] at running
  split at taken
  · cases taken
  · rename_i idx found
    cases proper with
    | succeeded before trial trials failed distinct inside result success =>
      rw [running] at result
      cases result
    | failing failed untried result failure =>
      -- The resolver that is tried moves from what remains to the trials.
      have moved : (call.trials.map Trial.resolver ++ [idx] ++
          swapRemove call.remaining pos).Perm (List.range n) := by
        rw [List.append_assoc]
        exact ((perm_swapRemove found).append_left _).symm.trans untried
      have trials : (call.trials ++ [Trial.mk idx response]).map Trial.resolver =
          call.trials.map Trial.resolver ++ [idx] := by
        rw [List.map_append, List.map_singleton]
      dsimp only at taken
      split at taken
      · rename_i success
        cases taken
        refine .succeeded call.trials _ rfl failed ?_ ?_ rfl success
        · rw [trials]
          exact List.Nodup.of_append_left (moved.nodup_iff.mpr List.nodup_range)
        · intro resolver member
          rw [trials] at member
          exact List.mem_range.mp (moved.mem_iff.mp (List.mem_append_left _ member))
      · rename_i fails
        cases taken
        have failure := Bool.eq_false_iff.mpr fails
        refine proper_loop ?_ ?_ rfl ?_
        · intro trial member
          rcases List.mem_append.mp member with old | new
          · exact failed trial old
          · rw [List.mem_singleton.mp new]
            exact failure
        · rw [trials]
          exact moved
        · rw [finish_of_failure failure]
          exact failure

/-- Before a call has returned, it can try any resolver that remains. -/
theorem isSome_attempt (running : call.returned = none) (inside : pos < call.remaining.length)
    (response : Response) (failover : Nat) : (attempt opt pos response failover call).isSome := by
  unfold attempt
  rw [running, List.getElem?_eq_getElem inside]
  by_cases success : opt.success response <;> simp [success]

variable (proper : Proper opt n call)
include proper

theorem Proper.length_le : call.trials.length ≤ n := by
  have subset : call.trials.map Trial.resolver ⊆ List.range n := fun resolver member =>
    List.mem_range.mpr (proper.inside resolver member)
  have fewer := (List.Nodup.subperm proper.distinct subset).length_le
  rwa [List.length_map, List.length_range] at fewer

/-- A success is the last trial, and returned. -/
theorem Proper.of_success {before after : List Trial} {trial : Trial}
    (split : call.trials = before ++ trial :: after) (success : opt.success trial.response) :
    after = [] ∧ call.returned = some trial.response := by
  cases proper with
  | failing failed untried result failure =>
    have fails := failed trial (by rw [split]; simp)
    rw [success] at fails
    cases fails
  | succeeded front last trials failed distinct inside result _ =>
    rcases List.eq_nil_or_concat' after with rfl | ⟨middle, final, rfl⟩
    · rw [split] at trials
      obtain ⟨-, same⟩ := List.append_inj' trials rfl
      cases same
      exact ⟨rfl, result⟩
    · -- All trials before the last one have failed.
      rw [split, ← List.cons_append, ← List.append_assoc] at trials
      obtain ⟨same, -⟩ := List.append_inj' trials rfl
      have fails := failed trial (by rw [← same]; simp)
      rw [success] at fails
      cases fails

/-- A success that is returned is the response of a resolver. -/
theorem Proper.returned_success (returned : call.returned = some response)
    (success : opt.success response) : ∃ trial ∈ call.trials, trial.response = response := by
  cases proper with
  | failing failed untried result failure =>
    rw [result] at returned
    split at returned
    · cases returned
      rw [success] at failure
      cases failure
    · cases returned
  | succeeded before trial trials failed distinct inside result _ =>
    rw [result] at returned
    cases returned
    exact ⟨trial, by rw [trials]; simp, rfl⟩

/-- A failure is returned when all resolvers have failed. -/
theorem Proper.returned_failure (returned : call.returned = some response)
    (fails : opt.success response = false) {resolver : Nat} (inside : resolver < n) :
    ∃ trial ∈ call.trials, trial.resolver = resolver ∧ opt.success trial.response = false := by
  cases proper with
  | failing failed untried result failure =>
    rw [result] at returned
    split at returned
    · rename_i exhausted
      rw [exhausted, List.append_nil] at untried
      have tried := untried.mem_iff.mpr (List.mem_range.mpr inside)
      obtain ⟨trial, member, same⟩ := List.mem_map.mp tried
      exact ⟨trial, member, same, failed trial member⟩
    · cases returned
  | succeeded before trial trials failed distinct inside result success =>
    rw [result] at returned
    cases returned
    rw [success] at fails
    cases fails

theorem Proper.running (running : call.returned = none) : call.remaining ≠ [] := by
  intro exhausted
  cases proper with
  | failing failed untried result failure =>
    rw [running, if_pos exhausted] at result
    cases result
  | succeeded before trial trials failed distinct inside result success =>
    rw [running] at result
    cases result

end Calls

section Runs

variable {opt : LoadBalanceOptions} {n : Nat} {events : List Event} {reached : Parties Nat Call}

theorem proper_reached (run : Run (step opt n) (fun _ _ => True) initial events reached) :
    reached.All fun _ => Proper opt n := by
  refine run.invariant (fun s => s.All fun _ => Proper opt n) (.nil 0) ?_
  intro s s' event all _ taken
  cases event with
  | resolve =>
    cases taken
    exact all.join proper_begin
  | attempt index pos response =>
    obtain ⟨call, failover, next, found, updated, rfl⟩ := Parties.act_eq_some_iff.mp taken
    exact all.set (proper_attempt (all.get found) updated) fun _ proper => proper

/-- Every call asks each resolver at most once.  It returns the first success at once, and a
failure only after all resolvers have failed; until then it can go on with any of those that
remain. -/
theorem resolve_asks_each_once
    (run : Run (step opt n) (fun _ _ => True) initial events reached) (index : Nat) (call : Call)
    (found : reached.each[index]? = some call) :
    (call.trials.map Trial.resolver).Nodup ∧ call.trials.length ≤ n ∧
      (∀ trial ∈ call.trials, trial.resolver < n) ∧
      (∀ before trial after, call.trials = before ++ trial :: after → opt.success trial.response →
        after = [] ∧ call.returned = some trial.response) ∧
      (∀ response, call.returned = some response → opt.success response →
        ∃ trial ∈ call.trials, trial.response = response) ∧
      (∀ response, call.returned = some response → opt.success response = false →
        ∀ resolver < n, ∃ trial ∈ call.trials,
          trial.resolver = resolver ∧ opt.success trial.response = false) ∧
      (call.returned = none → call.remaining ≠ [] ∧ ∀ pos < call.remaining.length, ∀ response,
        (step opt n reached (.attempt index pos response)).isSome) := by
  have proper := (proper_reached run).get found
  refine ⟨proper.distinct, proper.length_le,
    fun trial member => proper.inside _ (List.mem_map_of_mem member),
    fun _ _ _ => proper.of_success, fun _ => proper.returned_success,
    fun _ returned fails _ => proper.returned_failure returned fails, ?_⟩
  intro running
  refine ⟨proper.running running, ?_⟩
  intro pos inside response
  change (reached.act index (attempt opt pos response)).isSome
  rw [Parties.isSome_act found]
  exact isSome_attempt running inside response reached.common

end Runs

/-- Three resolvers, of which the second is picked first and fails. -/
def sampleEvents : List Event :=
  [.resolve, .attempt 0 1 (.error []), .attempt 0 1 (.ok none)]

def sampleCall : Call where
  remaining := [0, 2]
  trials := [⟨1, .error []⟩, ⟨2, .ok none⟩]
  last := .ok none
  returned := some (.ok none)

theorem resolve_asks_each_once_sample :
    Run (step ⟨false, false⟩ 3) (fun _ _ => True) initial sampleEvents ⟨1, [sampleCall]⟩ ∧
      sampleCall.trials.length ≤ 3 :=
  have run : Run (step ⟨false, false⟩ 3) (fun _ _ => True) initial sampleEvents
      ⟨1, [sampleCall]⟩ := Run.of_foldlM rfl
  ⟨run, (resolve_asks_each_once run 0 sampleCall rfl).2.1⟩

end RouteDns.Router.LoadBalance
