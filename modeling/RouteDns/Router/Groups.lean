import Mathlib.Data.Int.CardIntervalMod
import RouteDns.Router.LoadBalance

/-!
# Groups without retries

`RoundRobin` gives every query to the next resolver in turn.  `Fastest` gives it to all of them
and returns the first success; the other branches go on and leave their responses in a channel.
-/

namespace RouteDns.Router

open Dns LoadBalance

/-! ## Taking turns -/

/-- The next resolver, and those taken so far in the order the calls held the lock. -/
structure RoundRobin where
  current : Nat
  taken : List Nat

namespace RoundRobin

/-- The locked part of `Resolve`; without resolvers there is none to take. -/
def resolve (n : Nat) (r : RoundRobin) : Option RoundRobin :=
  if r.current < n then
    some { current := (r.current + 1) % n, taken := r.taken ++ [r.current] }
  else none

def afterCalls (n : Nat) : Nat → Option RoundRobin
  | 0 => some { current := 0, taken := [] }
  | calls + 1 => (afterCalls n calls).bind (resolve n)

/-- Every call is the turn of one resolver. -/
theorem afterCalls_eq_some (n calls : Nat) :
    ∃ r, afterCalls (n + 1) calls = some r ∧ r.current = calls % (n + 1) ∧
      ∀ resolver ≤ n, r.taken.count resolver = Nat.count (· ≡ resolver [MOD n + 1]) calls := by
  induction calls with
  | zero => exact ⟨_, rfl, (Nat.zero_mod _).symm, fun _ _ => rfl⟩
  | succ calls ih =>
    obtain ⟨r, ran, next, shares⟩ := ih
    have inside : r.current < n + 1 := next ▸ Nat.mod_lt _ n.succ_pos
    rw [afterCalls, ran, Option.bind_some, resolve, if_pos inside]
    refine ⟨_, rfl, by simp [next], fun resolver bound => ?_⟩
    have own : calls ≡ resolver [MOD n + 1] ↔ r.current = resolver := by
      rw [Nat.ModEq, ← next, Nat.mod_eq_of_lt (Nat.lt_succ_of_le bound)]
    simp [List.count_append, shares resolver bound, Nat.count_succ, own, List.count_singleton]

/-- Each call finds a resolver, unless there are none, and all resolvers get the same number of
queries, but for one more to the first ones if the number is not divisible. -/
theorem queries_shared_evenly (n calls : Nat) :
    ∃ r, afterCalls (n + 1) calls = some r ∧ ∀ resolver ≤ n, r.taken.count resolver =
      calls / (n + 1) + if resolver < calls % (n + 1) then 1 else 0 := by
  obtain ⟨r, ran, _, shares⟩ := afterCalls_eq_some n calls
  refine ⟨r, ran, fun resolver bound => ?_⟩
  rw [shares resolver bound, Nat.count_modEq_card _ n.succ_pos,
    Nat.mod_eq_of_lt (Nat.lt_succ_of_le bound)]

end RoundRobin

/-! ## The fastest response -/

namespace Fastest

/-- A response that is returned at once. -/
def success : Response → Bool
  | .error _ => false
  | .ok none => true
  | .ok (some a) => a.rcode ≠ rcodeServerFailure

/-- A call of `Resolve`: the branches that wait for their resolver, the responses in the channel
and, the latest first, those received from it. -/
structure Call where
  branches : List Nat
  responseCh : List Trial
  received : List Trial

def begin (n : Nat) : Call :=
  { branches := List.range n, responseCh := [], received := [] }

/-- The latest response is returned if it is a success or the last one. -/
def Call.returned (n : Nat) (call : Call) : Option Response :=
  (call.received.head?.map Trial.response).filter fun response =>
    success response || n ≤ call.received.length

inductive Event where
  | respond (branch : Nat) (response : Response)
  | receive

/-- A branch sends its response if the channel has room; the loop receives until it returns. -/
def step (n : Nat) (call : Call) : Event → Option Call
  | .respond branch response =>
    if branch ∈ call.branches ∧ call.responseCh.length < n then
      some { call with
        branches := call.branches.erase branch
        responseCh := call.responseCh ++ [⟨branch, response⟩] }
    else none
  | .receive =>
    match call.returned n, call.responseCh with
    | none, trial :: rest =>
      some { call with responseCh := rest, received := trial :: call.received }
    | _, _ => none

/-- No response is lost or duplicated, and all received before the latest are failures. -/
structure Proper (n : Nat) (call : Call) : Prop where
  all : ((call.received ++ call.responseCh).map Trial.resolver ++ call.branches).Perm
    (List.range n)
  failed : ∀ trial ∈ call.received.tail, success trial.response = false

variable {n : Nat} {call : Call}

theorem Proper.failed_of_running (proper : Proper n call) (running : call.returned n = none) :
    ∀ trial ∈ call.received, success trial.response = false := by
  have failed := proper.failed
  unfold Call.returned at running
  cases received : call.received with
  | nil => simp
  | cons trial before =>
    rw [received] at running failed
    have fails : success trial.response = false ∧ before.length + 1 < n := by
      simpa using running
    exact List.forall_mem_cons.mpr ⟨fails.1, failed⟩

theorem Proper.step {next : Call} {event : Event} (proper : Proper n call)
    (taken : step n call event = some next) : Proper n next := by
  cases event with
  | respond branch response =>
    obtain ⟨⟨waits, -⟩, same⟩ := Option.ite_none_right_eq_some.mp taken
    cases same
    refine ⟨.trans ?_ proper.all, proper.failed⟩
    simpa using ((List.perm_cons_erase waits).symm.append_left _).append_left _
  | receive =>
    rw [Fastest.step] at taken
    split at taken
    · rename_i trial rest running pending
      cases taken
      refine ⟨.trans ?_ proper.all, proper.failed_of_running running⟩
      rw [pending]
      simpa using List.perm_middle.symm
    · cases taken

/-- Whatever the resolvers respond and in whatever order, also after the call has returned: the
channel has room for every branch, and the loop receives nothing behind a success.  A call that
has not returned has a response to wait for, unless there are no resolvers.  It returns a failure
only after one of every resolver. -/
theorem first_success_returned {events : List Event}
    (run : Run (step n) (fun _ _ => True) (begin n) events call) :
    Proper n call ∧ (call.branches ≠ [] → call.responseCh.length < n) ∧
      (call.returned n = none → call.received.length < n ∨ n = 0) ∧
      ∀ response, call.returned n = some response → success response = false →
        (call.received.map Trial.resolver).Perm (List.range n) := by
  have proper : Proper n call := run.invariant (Proper n) ⟨by simp [begin], by simp [begin]⟩
    fun proper _ taken => proper.step taken
  have size := proper.all.length_eq
  simp only [List.length_append, List.length_map, List.length_range] at size
  refine ⟨proper, ?_, ?_, ?_⟩
  · intro waiting
    have waits := List.length_pos_of_ne_nil waiting
    omega
  · unfold Call.returned
    cases call.received with
    | nil => simp [Nat.eq_zero_or_pos n |>.symm]
    | cons trial before => simpa using fun _ more => .inl more
  · intro response returned fails
    have through : n ≤ call.received.length := by
      simpa [fails] using (Option.filter_eq_some_iff.mp returned).2
    have all := proper.all
    rw [List.length_eq_zero_iff.mp (show call.responseCh.length = 0 by omega),
      List.length_eq_zero_iff.mp (show call.branches.length = 0 by omega)] at all
    simpa using all

theorem success_behind_failure : ∃ call, call.returned 2 = some (.ok none) ∧ Proper 2 call :=
  have run : Run (step 2) (fun _ _ => True) (begin 2)
      [.respond 1 (.error []), .receive, .respond 0 (.ok none), .receive]
      ⟨[], [], [⟨0, .ok none⟩, ⟨1, .error []⟩]⟩ := Run.of_foldlM rfl
  ⟨_, rfl, (first_success_returned run).1⟩

end Fastest

end RouteDns.Router
