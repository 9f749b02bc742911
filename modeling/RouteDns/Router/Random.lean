import Mathlib.Data.List.Perm.Subperm
import RouteDns.Program.Parties
import RouteDns.Router.Failover

/-!
# Picking resolvers at random

A group hands a query to one of its active resolvers.  One that fails is taken out of the group
and put back after some time by a goroutine of its own, and the query goes to another one, until
one succeeds or none is active.  A resolver may be listed more than once; all of its entries are
taken out together, and each of them is put back separately.

Requests and goroutines run concurrently.  Taking a resolver out and putting it back happen under
a lock, in several steps; picking one takes a single step, which only has to find the lock free.
When a goroutine wakes up is left open.
-/

namespace RouteDns.Router.Random

open Dns

universe u

structure RandomOptions where
  servfailError : Bool
  emptyError : Bool

/-- A response is returned at once. -/
def RandomOptions.success (opt : RandomOptions) : Response → Bool
  | .error _ => false
  | .ok a => isSuccessResponse a opt.servfailError opt.emptyError

/-- What is done under the lock: a request looks for the entries of a resolver and keeps those
of others, or has taken them out; a goroutine is about to put a resolver back, or has done so.
At last the number of active resolvers is published. -/
inductive Locked (ρ : Type u) where
  | free
  | scanning (index : Nat) (bad : ρ) (filtered rest : List ρ)
  | filtered (index : Nat) (bad : ρ)
  | appending (resolver : ρ)
  | appended
  deriving DecidableEq

/-- The active resolvers, their published number, the goroutines that are yet to put a resolver
back and what is done under the lock. -/
structure Group (ρ : Type u) where
  resolvers : List ρ
  available : Nat
  sleeping : List ρ
  locked : Locked ρ
  deriving DecidableEq

/-- Where a call of `Resolve` is in its loop. -/
inductive Phase (ρ : Type u) where
  | picking
  | waiting (resolver : ρ)
  | failed (resolver : ρ)
  | deactivating (resolver : ρ)
  | returned (response : Response)
  deriving DecidableEq

/-- A call, with the resolvers that it has sent the query to, in order. -/
structure Call (ρ : Type u) where
  phase : Phase ρ
  tried : List ρ
  deriving DecidableEq

abbrev System (ρ : Type u) := Parties (Group ρ) (Call ρ)

inductive Event where
  | resolve
  | pick (index choice : Nat)
  | respond (index : Nat) (response : Response)
  | deactivate (index : Nat)
  | reactivate (position : Nat)
  | proceed

variable {index position : Nat} {next : Option Nat}

section Model

variable {ρ : Type u} [DecidableEq ρ] (opt : RandomOptions)

def newRandom (resolvers : List ρ) : System ρ where
  common :=
    { resolvers := resolvers, available := resolvers.length, sleeping := [], locked := .free }
  each := []

/-- Pick one of the active resolvers. -/
def pick (choice : Nat) (group : Group ρ) (call : Call ρ) : Option (Group ρ × Call ρ) :=
  if call.phase = .picking ∧ group.locked = .free then
    if group.resolvers = [] then
      some (group, { call with phase := .returned (.error (text "no active resolvers left")) })
    else
      match group.resolvers[choice]? with
      | none => none
      | some resolver =>
        some (group, { phase := .waiting resolver, tried := call.tried ++ [resolver] })
  else none

def respond (response : Response) (group : Group ρ) (call : Call ρ) :
    Option (Group ρ × Call ρ) :=
  match call.phase with
  | .waiting resolver =>
    if opt.success response then some (group, { call with phase := .returned response })
    else some (group, { call with phase := .failed resolver })
  | _ => none

/-- Take the lock to take a resolver out. -/
def deactivate (index : Nat) (group : Group ρ) (call : Call ρ) : Option (Group ρ × Call ρ) :=
  match call.phase with
  | .failed bad =>
    if group.locked = .free then
      some ({ group with locked := .scanning index bad [] group.resolvers },
        { call with phase := .deactivating bad })
    else none
  | _ => none

/-- Take the lock to put a resolver back. -/
def reactivate (position : Nat) (group : Group ρ) : Option (Group ρ) :=
  match group.sleeping[position]? with
  | none => none
  | some resolver =>
    if group.locked = .free then
      some { group with
        sleeping := group.sleeping.eraseIdx position, locked := .appending resolver }
    else none

/-- The next step under the lock, with the request that goes on with its loop after it. -/
def proceed (group : Group ρ) : Option (Group ρ × Option Nat) :=
  match group.locked with
  | .free => none
  | .scanning index bad filtered (resolver :: rest) =>
    if resolver = bad then
      some ({ group with
        sleeping := group.sleeping ++ [bad], locked := .scanning index bad filtered rest }, none)
    else some ({ group with locked := .scanning index bad (filtered ++ [resolver]) rest }, none)
  | .scanning index bad filtered [] =>
    if filtered.length = group.resolvers.length then
      some ({ group with locked := .free }, some index)
    else some ({ group with resolvers := filtered, locked := .filtered index bad }, none)
  | .filtered index _ =>
    some ({ group with available := group.resolvers.length, locked := .free }, some index)
  | .appending resolver =>
    some ({ group with resolvers := group.resolvers ++ [resolver], locked := .appended }, none)
  | .appended => some ({ group with available := group.resolvers.length, locked := .free }, none)

/-- The deactivation of a call is over. -/
def deactivated (group : Group ρ) (_ : Group ρ) (call : Call ρ) : Option (Group ρ × Call ρ) :=
  some (group, { call with phase := .picking })

def step (s : System ρ) : Event → Option (System ρ)
  | .resolve => some (s.join { phase := .picking, tried := [] })
  | .pick index choice => s.act index (pick choice)
  | .respond index response => s.act index (respond opt response)
  | .deactivate index => s.act index (deactivate index)
  | .reactivate position => (reactivate position s.common).map fun group =>
    { s with common := group }
  | .proceed =>
    match proceed s.common with
    | none => none
    | some (group, none) => some { s with common := group }
    | some (group, some index) => s.act index (deactivated group)

variable {opt} {group group' : Group ρ} {call call' : Call ρ}

theorem pick_cases {choice : Nat} (taken : pick choice group call = some (group', call')) :
    call.phase = .picking ∧ group.locked = .free ∧ group' = group ∧
      ((group.resolvers = [] ∧
          call' = { call with phase := .returned (.error (text "no active resolvers left")) }) ∨
        ∃ resolver ∈ group.resolvers,
          call' = { phase := .waiting resolver, tried := call.tried ++ [resolver] }) := by
  obtain ⟨ready, taken⟩ := Option.ite_none_right_eq_some.mp taken
  refine ⟨ready.1, ready.2, ?_⟩
  split at taken
  · rename_i none_
    cases taken
    exact ⟨rfl, .inl ⟨none_, rfl⟩⟩
  · split at taken
    · cases taken
    · rename_i resolver found
      cases taken
      exact ⟨rfl, .inr ⟨resolver, List.mem_of_getElem? found, rfl⟩⟩

omit [DecidableEq ρ] in
theorem respond_cases {response : Response}
    (taken : respond opt response group call = some (group', call')) :
    ∃ resolver, call.phase = .waiting resolver ∧ group' = group ∧
      (call' = { call with phase := .returned response } ∨
        call' = { call with phase := .failed resolver }) := by
  unfold respond at taken
  split at taken
  · rename_i resolver waiting
    refine ⟨resolver, waiting, ?_⟩
    split at taken
    · cases taken
      exact ⟨rfl, .inl rfl⟩
    · cases taken
      exact ⟨rfl, .inr rfl⟩
  · cases taken

theorem deactivate_cases (taken : deactivate index group call = some (group', call')) :
    ∃ bad, call.phase = .failed bad ∧ group.locked = .free ∧
      group' = { group with locked := .scanning index bad [] group.resolvers } ∧
      call' = { call with phase := .deactivating bad } := by
  unfold deactivate at taken
  split at taken
  · rename_i bad failed
    obtain ⟨free, same⟩ := Option.ite_none_right_eq_some.mp taken
    cases same
    exact ⟨bad, failed, free, rfl, rfl⟩
  · cases taken

theorem reactivate_cases (taken : reactivate position group = some group') :
    ∃ resolver, group.sleeping[position]? = some resolver ∧ group.locked = .free ∧
      group' = { group with
        sleeping := group.sleeping.eraseIdx position, locked := .appending resolver } := by
  unfold reactivate at taken
  split at taken
  · cases taken
  · rename_i resolver found
    obtain ⟨free, same⟩ := Option.ite_none_right_eq_some.mp taken
    cases same
    exact ⟨resolver, found, free, rfl⟩

/-- The steps under the lock. -/
inductive Proceeds (group : Group ρ) : Group ρ → Option Nat → Prop where
  | found {index : Nat} {bad : ρ} {filtered rest : List ρ}
      (locked : group.locked = .scanning index bad filtered (bad :: rest)) :
      Proceeds group { group with
        sleeping := group.sleeping ++ [bad], locked := .scanning index bad filtered rest } none
  | kept {index : Nat} {bad resolver : ρ} {filtered rest : List ρ}
      (locked : group.locked = .scanning index bad filtered (resolver :: rest))
      (different : resolver ≠ bad) :
      Proceeds group
        { group with locked := .scanning index bad (filtered ++ [resolver]) rest } none
  | unchanged {index : Nat} {bad : ρ} {filtered : List ρ}
      (locked : group.locked = .scanning index bad filtered [])
      (same : filtered.length = group.resolvers.length) :
      Proceeds group { group with locked := .free } (some index)
  | filtered {index : Nat} {bad : ρ} {filtered : List ρ}
      (locked : group.locked = .scanning index bad filtered []) :
      Proceeds group { group with resolvers := filtered, locked := .filtered index bad } none
  | published {index : Nat} {bad : ρ} (locked : group.locked = .filtered index bad) :
      Proceeds group { group with available := group.resolvers.length, locked := .free }
        (some index)
  | appended {resolver : ρ} (locked : group.locked = .appending resolver) :
      Proceeds group
        { group with resolvers := group.resolvers ++ [resolver], locked := .appended } none
  | restored (locked : group.locked = .appended) :
      Proceeds group { group with available := group.resolvers.length, locked := .free } none

theorem proceeds_of_proceed (taken : proceed group = some (group', next)) :
    Proceeds group group' next := by
  unfold proceed at taken
  split at taken
  case h_1 => cases taken
  case h_2 index bad filtered resolver rest locked =>
    split at taken
    · rename_i same
      cases taken
      subst same
      exact .found locked
    · rename_i different
      cases taken
      exact .kept locked different
  case h_3 index bad filtered locked =>
    split at taken
    · rename_i same
      cases taken
      exact .unchanged locked same
    · cases taken
      exact .filtered locked
  case h_4 index bad locked =>
    cases taken
    exact .published locked
  case h_5 resolver locked =>
    cases taken
    exact .appended locked
  case h_6 locked =>
    cases taken
    exact .restored locked

/-- A step under the lock, and whether a call goes on with its loop after it. -/
theorem proceed_cases {s s' : System ρ} (taken : step opt s .proceed = some s') :
    ∃ group next, Proceeds s.common group next ∧
      ((next = none ∧ s' = { s with common := group }) ∨
        ∃ index call, next = some index ∧ s.each[index]? = some call ∧
          s' = { common := group, each := s.each.set index { call with phase := .picking } }) := by
  rw [step] at taken
  split at taken
  · cases taken
  · rename_i group advanced
    exact ⟨group, none, proceeds_of_proceed advanced, .inl ⟨rfl, (Option.some.inj taken).symm⟩⟩
  · rename_i group index advanced
    obtain ⟨call, group', call', found, updated, rfl⟩ := Parties.act_eq_some_iff.mp taken
    cases updated
    exact ⟨group, index, proceeds_of_proceed advanced, .inr ⟨index, call, rfl, found, rfl⟩⟩

end Model

/-! ## What becomes of the resolvers -/

section Conserved

variable {ρ : Type u}

/-- The active resolvers; those that a deactivation has found are no longer among them. -/
def active (group : Group ρ) : List ρ :=
  match group.locked with
  | .scanning _ _ filtered rest => filtered ++ rest
  | _ => group.resolvers

/-- The resolvers that goroutines are yet to put back. -/
def pending (group : Group ρ) : List ρ :=
  match group.locked with
  | .appending resolver => resolver :: group.sleeping
  | _ => group.sleeping

/-- What holds under the lock. -/
def Consistent [DecidableEq ρ] (group : Group ρ) : Prop :=
  match group.locked with
  | .free => group.available = group.resolvers.length
  | .scanning _ bad filtered rest =>
    group.available = group.resolvers.length ∧
      ∃ scanned, group.resolvers = scanned ++ rest ∧
        filtered = scanned.filter fun resolver => resolver ≠ bad
  | .filtered _ bad => bad ∉ group.resolvers
  | .appending _ => group.available = group.resolvers.length
  | .appended => True

/-- No resolver is lost or duplicated, and the published number is right when the lock is
free. -/
structure Conserved [DecidableEq ρ] (configured : List ρ) (group : Group ρ) : Prop where
  resolvers : (active group ++ pending group).Perm configured
  consistent : Consistent group

variable [DecidableEq ρ] {configured : List ρ} {group group' : Group ρ}

/-- A deactivation that has found nothing leaves the resolvers as they are. -/
theorem filtered_eq {bad : ρ} {scanned filtered : List ρ}
    (kept : filtered = scanned.filter fun resolver => resolver ≠ bad)
    (same : filtered.length = scanned.length) : filtered = scanned := by
  subst kept
  exact List.filter_eq_self.mpr (List.length_filter_eq_length_iff.mp same)

variable (conserved : Conserved configured group)
include conserved

theorem conserved_deactivate {call call' : Call ρ}
    (taken : deactivate index group call = some (group', call')) : Conserved configured group' := by
  obtain ⟨bad, -, free, rfl, -⟩ := deactivate_cases taken
  obtain ⟨resolvers, available, sleeping, locked⟩ := group
  cases free
  exact ⟨conserved.resolvers, conserved.consistent, [], rfl, rfl⟩

theorem conserved_reactivate (taken : reactivate position group = some group') :
    Conserved configured group' := by
  obtain ⟨resolver, found, free, rfl⟩ := reactivate_cases taken
  obtain ⟨resolvers, available, sleeping, locked⟩ := group
  cases free
  obtain ⟨inside, rfl⟩ := List.getElem?_eq_some_iff.mp found
  refine ⟨?_, conserved.consistent⟩
  exact ((List.getElem_cons_eraseIdx_perm inside).append_left _).trans conserved.resolvers

theorem conserved_proceed (taken : Proceeds group group' next) : Conserved configured group' := by
  obtain ⟨entries, available, sleeping, locked⟩ := group
  obtain ⟨resolvers, consistent⟩ := conserved
  cases taken with
  | @found index bad filtered rest locked =>
    -- The entry moves from the active resolvers to a goroutine.
    cases locked
    obtain ⟨published, scanned, whole, kept⟩ := consistent
    refine ⟨?_, published, scanned ++ [bad], by simpa using whole, by simp [kept]⟩
    refine List.Perm.trans ?_ resolvers
    change (filtered ++ rest ++ (sleeping ++ [bad])).Perm (filtered ++ bad :: rest ++ sleeping)
    rw [← List.append_assoc]
    refine (List.perm_append_singleton bad _).trans ?_
    rw [List.append_assoc, List.append_assoc]
    exact List.perm_middle.symm
  | @kept index bad resolver filtered rest locked different =>
    cases locked
    obtain ⟨published, scanned, whole, kept⟩ := consistent
    refine ⟨?_, published, scanned ++ [resolver], by simpa using whole, ?_⟩
    · change (filtered ++ [resolver] ++ rest ++ sleeping).Perm configured
      rw [List.append_assoc filtered, List.singleton_append]
      exact resolvers
    · simp [kept, different]
  | @unchanged index bad filtered locked same =>
    cases locked
    obtain ⟨published, scanned, whole, kept⟩ := consistent
    rw [List.append_nil] at whole
    rw [whole] at same
    change (filtered ++ [] ++ sleeping).Perm configured at resolvers
    rw [List.append_nil, filtered_eq kept same, ← whole] at resolvers
    exact ⟨resolvers, published⟩
  | @filtered index bad filtered locked =>
    cases locked
    obtain ⟨-, scanned, -, kept⟩ := consistent
    change (filtered ++ [] ++ sleeping).Perm configured at resolvers
    rw [List.append_nil] at resolvers
    refine ⟨resolvers, ?_⟩
    change bad ∉ filtered
    rw [kept]
    simp
  | published locked =>
    cases locked
    exact ⟨resolvers, rfl⟩
  | @appended resolver locked =>
    cases locked
    refine ⟨?_, trivial⟩
    change (entries ++ [resolver] ++ sleeping).Perm configured
    rw [List.append_assoc, List.singleton_append]
    exact resolvers
  | restored locked =>
    cases locked
    exact ⟨resolvers, rfl⟩

end Conserved

section Runs

variable {ρ : Type u} [DecidableEq ρ] {opt : RandomOptions} {configured : List ρ}
  {allowed : System ρ → Event → Prop} {events : List Event} {s s' reached : System ρ}

theorem conserved_step {event : Event} (conserved : Conserved configured s.common)
    (taken : step opt s event = some s') : Conserved configured s'.common := by
  cases event with
  | resolve =>
    cases taken
    exact conserved
  | pick index choice =>
    obtain ⟨call, group, next, found, updated, rfl⟩ := Parties.act_eq_some_iff.mp taken
    obtain ⟨-, -, rfl, -⟩ := pick_cases updated
    exact conserved
  | respond index response =>
    obtain ⟨call, group, next, found, updated, rfl⟩ := Parties.act_eq_some_iff.mp taken
    obtain ⟨resolver, -, rfl, -⟩ := respond_cases updated
    exact conserved
  | deactivate index =>
    obtain ⟨call, group, next, found, updated, rfl⟩ := Parties.act_eq_some_iff.mp taken
    exact conserved_deactivate conserved updated
  | reactivate position =>
    obtain ⟨group, updated, rfl⟩ := Option.map_eq_some_iff.mp taken
    exact conserved_reactivate conserved updated
  | proceed =>
    obtain ⟨group, next, advanced, ⟨-, rfl⟩ | ⟨index, call, -, -, rfl⟩⟩ := proceed_cases taken
    · exact conserved_proceed conserved advanced
    · exact conserved_proceed conserved advanced

theorem conserved_reached
    (run : Run (step opt) allowed (newRandom configured) events reached) :
    Conserved configured reached.common := by
  refine run.invariant (fun s => Conserved configured s.common) ?_
    fun conserved _ taken => conserved_step conserved taken
  refine ⟨?_, rfl⟩
  exact List.Perm.of_eq (List.append_nil configured)

/-- The active resolvers and those that are yet to be put back are those of the configuration,
and while nobody holds the lock the published number is that of the active ones. -/
theorem no_resolver_lost
    (run : Run (step opt) (fun _ _ => True) (newRandom configured) events reached) :
    (active reached.common ++ pending reached.common).Perm configured ∧
      (reached.common.locked = .free →
        active reached.common = reached.common.resolvers ∧
          reached.common.available = reached.common.resolvers.length) := by
  obtain ⟨resolvers, consistent⟩ := conserved_reached run
  refine ⟨resolvers, ?_⟩
  intro free
  unfold Consistent at consistent
  unfold active
  rw [free] at consistent ⊢
  exact ⟨rfl, consistent⟩

end Runs

/-- Two resolvers, of which the first is listed twice; it fails, and one of its entries is put
back while the other goroutine sleeps. -/
def sampleEvents : List Event :=
  [.resolve, .pick 0 2, .respond 0 (.error []), .deactivate 0, .proceed, .proceed, .proceed,
    .proceed, .proceed, .reactivate 1, .proceed, .proceed]

def sampleReached : System Bool where
  common :=
    { resolvers := [false, true], available := 2, sleeping := [true], locked := .free }
  each := [{ phase := .picking, tried := [true] }]

theorem no_resolver_lost_sample :
    Run (step ⟨false, false⟩) (fun _ _ => True) (newRandom [true, false, true]) sampleEvents
        sampleReached ∧
      sampleReached.common.available = 2 :=
  have run : Run (step ⟨false, false⟩) (fun _ _ => True) (newRandom [true, false, true])
      sampleEvents sampleReached := Run.of_foldlM rfl
  ⟨run, ((no_resolver_lost run).2 rfl).2⟩

end RouteDns.Router.Random
