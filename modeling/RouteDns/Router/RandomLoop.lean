import RouteDns.Router.Random

/-!
# How long a query is passed on

A query goes to one resolver after another as long as there are active ones.  Nothing keeps a
resolver that has failed it from being put back before the query has been answered, and then it
may be asked again.  If none is put back in this time, every resolver is asked at most once, and
the query is answered after as many failures as there are resolvers.
-/

namespace RouteDns.Router.Random

open Dns

universe u

section Loop

variable {ρ : Type u}

/-- The resolver that a call deals with. -/
def Phase.asked? : Phase ρ → Option ρ
  | .picking => none
  | .waiting resolver => some resolver
  | .failed resolver => some resolver
  | .deactivating resolver => some resolver
  | .returned _ => none

/-- The resolvers that a call has taken out of the group, as long as it has not returned. -/
def Call.takenOut (call : Call ρ) : List ρ :=
  match call.phase with
  | .picking => call.tried
  | .waiting _ => call.tried.dropLast
  | .failed _ => call.tried.dropLast
  | .deactivating _ => call.tried.dropLast
  | .returned _ => []

/-- The step does not put a resolver back that the call at an index has taken out. -/
def Undisturbed [DecidableEq ρ] (index : Nat) (s : System ρ) : Event → Prop
  | .reactivate position =>
    ∀ call ∈ s.each[index]?, ∀ resolver ∈ s.common.sleeping[position]?, resolver ∉ call.takenOut
  | _ => True

instance [DecidableEq ρ] (index : Nat) (s : System ρ) :
    (event : Event) → Decidable (Undisturbed index s event)
  | .reactivate position =>
    inferInstanceAs (Decidable (∀ call ∈ s.each[index]?,
      ∀ resolver ∈ s.common.sleeping[position]?, resolver ∉ call.takenOut))
  | .resolve => isTrue trivial
  | .pick _ _ => isTrue trivial
  | .respond _ _ => isTrue trivial
  | .deactivate _ => isTrue trivial
  | .proceed => isTrue trivial

/-- The call that holds the lock, and the resolver that it takes out. -/
def Locked.holder? : Locked ρ → Option (Nat × ρ)
  | .free => none
  | .scanning index bad _ _ => some (index, bad)
  | .filtered index bad => some (index, bad)
  | .appending _ => none
  | .appended => none

/-- A call that has asked no resolver twice, and will not. -/
structure Fresh (configured : List ρ) (group : Group ρ) (call : Call ρ) : Prop where
  distinct : call.tried.Nodup
  known : ∀ resolver ∈ call.tried, resolver ∈ configured
  apart : ∀ resolver ∈ call.takenOut, resolver ∉ group.resolvers
  appending : ∀ resolver, group.locked = .appending resolver → resolver ∉ call.takenOut
  last : ∀ resolver, call.phase.asked? = some resolver →
    call.tried = call.takenOut ++ [resolver]

/-- The call that holds the lock is there, and the call at an index is fresh. -/
structure Looping (configured : List ρ) (index : Nat) (s : System ρ) : Prop where
  holder : ∀ {other : Nat} {bad : ρ}, s.common.locked.holder? = some (other, bad) →
    ∃ call, s.each[other]? = some call ∧ call.phase = .deactivating bad
  fresh : ∀ {call : Call ρ}, s.each[index]? = some call → Fresh configured s.common call
  holds : ∀ {call : Call ρ} {bad : ρ}, s.each[index]? = some call →
    call.phase = .deactivating bad → s.common.locked.holder? = some (index, bad)

variable {configured : List ρ} {group group' : Group ρ} {index other : Nat} {bad resolver : ρ}

theorem fresh_new (configured : List ρ) (group : Group ρ) :
    Fresh configured group { phase := .picking, tried := [] } where
  distinct := List.nodup_nil
  known _ member := absurd member List.not_mem_nil
  apart _ member := absurd member List.not_mem_nil
  appending _ _ member := absurd member List.not_mem_nil
  last _ phase := by cases phase

variable {s : System ρ} {call call' : Call ρ}

/-- The resolver that a call deals with is the only one that it has asked and not taken out. -/
theorem takenOut_of_asked (asked : call.phase.asked? = some resolver) :
    call.takenOut = call.tried.dropLast := by
  obtain ⟨phase, tried⟩ := call
  cases phase with
  | picking => cases asked
  | waiting resolver => rfl
  | failed resolver => rfl
  | deactivating resolver => rfl
  | returned response => cases asked

section

variable (fresh : Fresh configured group call)
include fresh

/-- A call that has returned asks no more. -/
theorem Fresh.returned (response : Response) :
    Fresh configured group { call with phase := .returned response } where
  distinct := fresh.distinct
  known := fresh.known
  apart _ member := absurd member List.not_mem_nil
  appending _ _ member := absurd member List.not_mem_nil
  last _ asked := by cases asked

/-- A call goes on with the same resolver. -/
theorem Fresh.asking {phase : Phase ρ} (before : call.phase.asked? = some resolver)
    (after : phase.asked? = some resolver) :
    Fresh configured group { call with phase := phase } := by
  have same : Call.takenOut { call with phase := phase } = call.takenOut :=
    (takenOut_of_asked after).trans (takenOut_of_asked before).symm
  refine ⟨fresh.distinct, fresh.known, ?_, ?_, ?_⟩
  · rw [same]
    exact fresh.apart
  · rw [same]
    exact fresh.appending
  · intro other asked
    rw [same]
    rw [after] at asked
    cases asked
    exact fresh.last resolver before

/-- A call asks a resolver that is active. -/
theorem Fresh.ask (phase : call.phase = .picking) (active : resolver ∈ group.resolvers)
    (known : resolver ∈ configured) :
    Fresh configured group
      { phase := .waiting resolver, tried := call.tried ++ [resolver] } := by
  have before : call.takenOut = call.tried := by
    unfold Call.takenOut
    rw [phase]
  have after : Call.takenOut { phase := .waiting resolver, tried := call.tried ++ [resolver] } =
      call.tried := List.dropLast_concat
  have new : resolver ∉ call.tried := fun member =>
    fresh.apart resolver (before ▸ member) active
  refine ⟨?_, ?_, ?_, ?_, ?_⟩
  · refine (List.perm_append_singleton resolver call.tried).nodup_iff.mpr ?_
    exact List.nodup_cons.mpr ⟨new, fresh.distinct⟩
  · intro other member
    rcases List.mem_append.mp member with old | isNew
    · exact fresh.known other old
    · rw [List.mem_singleton.mp isNew]
      exact known
  · rw [after, ← before]
    exact fresh.apart
  · rw [after, ← before]
    exact fresh.appending
  · rintro other asked
    cases asked
    rw [after]

/-- A call has taken its resolver out. -/
theorem Fresh.finish (phase : call.phase = .deactivating bad) (gone : bad ∉ group.resolvers)
    (resolvers : group'.resolvers = group.resolvers) (free : group'.locked = .free) :
    Fresh configured group' { call with phase := .picking } where
  distinct := fresh.distinct
  known := fresh.known
  apart resolver member := by
    rw [resolvers]
    change resolver ∈ call.tried at member
    rw [fresh.last bad (by rw [phase]; rfl)] at member
    rcases List.mem_append.mp member with old | isNew
    · exact fresh.apart resolver old
    · rw [List.mem_singleton.mp isNew]
      exact gone
  appending resolver appending := by
    rw [free] at appending
    cases appending
  last _ asked := by cases asked

/-- Resolvers may disappear from the group. -/
theorem Fresh.fewer (resolvers : ∀ resolver ∈ group'.resolvers, resolver ∈ group.resolvers)
    (appending : ∀ resolver, group'.locked = .appending resolver → resolver ∉ call.takenOut) :
    Fresh configured group' call where
  distinct := fresh.distinct
  known := fresh.known
  apart resolver member again := fresh.apart resolver member (resolvers resolver again)
  appending := appending
  last := fresh.last

end

variable (looping : Looping configured index s)
include looping

theorem Looping.join : Looping configured index (s.join { phase := .picking, tried := [] }) where
  holder holds := by
    obtain ⟨call, found, phase⟩ := looping.holder holds
    exact ⟨call, Parties.getElem?_join found, phase⟩
  fresh found := by
    rcases Parties.of_getElem?_join found with old | rfl
    · exact looping.fresh old
    · exact fresh_new configured s.common
  holds found phase := by
    rcases Parties.of_getElem?_join found with old | rfl
    · exact looping.holds old phase
    · cases phase

/-- A call goes on without the lock. -/
theorem Looping.act (found : s.each[other]? = some call)
    (before : ∀ bad, call.phase ≠ .deactivating bad)
    (after : ∀ bad, call'.phase ≠ .deactivating bad)
    (kept : Fresh configured s.common call → Fresh configured s.common call') :
    Looping configured index { s with each := s.each.set other call' } where
  holder {holder bad} holds := by
    obtain ⟨holding, foundHolder, phase⟩ := looping.holder holds
    refine ⟨holding, Parties.getElem?_set_other found foundHolder ?_, phase⟩
    rintro rfl
    exact before bad phase
  fresh foundCall := by
    rcases Parties.of_getElem?_set foundCall with ⟨-, old⟩ | ⟨rfl, rfl⟩
    · exact looping.fresh old
    · exact kept (looping.fresh found)
  holds {_ bad} foundCall phase := by
    rcases Parties.of_getElem?_set foundCall with ⟨-, old⟩ | ⟨rfl, rfl⟩
    · exact looping.holds old phase
    · exact absurd phase (after bad)

/-- The group changes while the same call holds the lock. -/
theorem Looping.common {group : Group ρ} (same : group.locked.holder? = s.common.locked.holder?)
    (kept : ∀ {call}, s.each[index]? = some call → Fresh configured s.common call →
      Fresh configured group call) : Looping configured index { s with common := group } where
  holder holds := looping.holder (same ▸ holds)
  fresh found := kept found (looping.fresh found)
  holds found phase := same ▸ looping.holds found phase

/-- Resolvers may disappear, and none is about to be put back. -/
theorem Looping.fewer {group : Group ρ} (same : group.locked.holder? = s.common.locked.holder?)
    (resolvers : ∀ resolver ∈ group.resolvers, resolver ∈ s.common.resolvers)
    (quiet : ∀ resolver, group.locked ≠ .appending resolver) :
    Looping configured index { s with common := group } :=
  looping.common same fun _ fresh =>
    fresh.fewer resolvers fun resolver appending => absurd appending (quiet resolver)

/-- A call takes the lock. -/
theorem Looping.lock (free : s.common.locked = .free) (found : s.each[other]? = some call)
    (phase : call.phase = .failed bad) :
    Looping configured index
      { common := { s.common with locked := .scanning other bad [] s.common.resolvers }
        each := s.each.set other { call with phase := .deactivating bad } } where
  holder holds := by
    cases holds
    exact ⟨_, Parties.getElem?_set_acting found, rfl⟩
  fresh foundCall := by
    rcases Parties.of_getElem?_set foundCall with ⟨-, old⟩ | ⟨rfl, rfl⟩
    · refine (looping.fresh old).fewer (fun _ member => member) ?_
      intro _ appending
      cases appending
    · have asking : Fresh configured s.common { call with phase := .deactivating bad } :=
        (looping.fresh found).asking (by rw [phase]; rfl) rfl
      refine asking.fewer (fun _ member => member) ?_
      intro _ appending
      cases appending
  holds foundCall phase' := by
    rcases Parties.of_getElem?_set foundCall with ⟨-, old⟩ | ⟨rfl, rfl⟩
    · have holds := looping.holds old phase'
      rw [free] at holds
      cases holds
    · cases phase'
      rfl

/-- The call that holds the lock gives it back. -/
theorem Looping.unlock (holds : s.common.locked.holder? = some (other, bad))
    (found : s.each[other]? = some call) {group : Group ρ}
    (resolvers : group.resolvers = s.common.resolvers) (gone : bad ∉ s.common.resolvers)
    (free : group.locked = .free) :
    Looping configured index
      { common := group, each := s.each.set other { call with phase := .picking } } where
  holder again := by
    rw [free] at again
    cases again
  fresh foundCall := by
    rcases Parties.of_getElem?_set foundCall with ⟨-, old⟩ | ⟨rfl, rfl⟩
    · refine (looping.fresh old).fewer (fun _ member => resolvers ▸ member) ?_
      intro _ appending
      rw [free] at appending
      cases appending
    · obtain ⟨holder, foundHolder, phase⟩ := looping.holder holds
      rw [found] at foundHolder
      cases foundHolder
      exact (looping.fresh found).finish phase gone resolvers free
  holds foundCall phase := by
    rcases Parties.of_getElem?_set foundCall with ⟨different, old⟩ | ⟨rfl, rfl⟩
    · have holds' := looping.holds old phase
      rw [holds] at holds'
      cases holds'
      exact absurd rfl different
    · cases phase

end Loop

section Steps

variable {ρ : Type u} [DecidableEq ρ] {opt : RandomOptions} {configured : List ρ} {index : Nat}
  {s s' : System ρ} {event : Event}

theorem Looping.proceed (looping : Looping configured index s)
    (conserved : Conserved configured s.common) (taken : step opt s .proceed = some s') :
    Looping configured index s' := by
  have consistent := conserved.consistent
  obtain ⟨group, next, advanced, ended⟩ := proceed_cases taken
  obtain ⟨⟨resolvers, available, sleeping, locked⟩, each⟩ := s
  cases advanced with
  | found locked | kept locked =>
    cases locked
    obtain ⟨-, rfl⟩ | ⟨_, call, ⟨⟩, -⟩ := ended
    exact looping.fewer rfl (fun _ member => member) (by simp)
  | unchanged locked same =>
    -- Another call has taken the resolver out before.
    cases locked
    obtain ⟨⟨⟩, -⟩ | ⟨_, call, ⟨⟩, found, rfl⟩ := ended
    obtain ⟨-, scanned, whole, kept⟩ := consistent
    rw [List.append_nil] at whole
    refine looping.unlock rfl found rfl ?_ rfl
    rw [whole] at same
    rw [whole, ← filtered_eq kept same, kept]
    simp
  | filtered locked =>
    cases locked
    obtain ⟨-, rfl⟩ | ⟨_, call, ⟨⟩, -⟩ := ended
    obtain ⟨-, scanned, whole, kept⟩ := consistent
    refine looping.fewer rfl ?_ (by simp)
    intro resolver member
    rw [whole, List.append_nil]
    rw [kept] at member
    exact List.mem_of_mem_filter member
  | published locked =>
    cases locked
    obtain ⟨⟨⟩, -⟩ | ⟨_, call, ⟨⟩, found, rfl⟩ := ended
    exact looping.unlock rfl found rfl consistent rfl
  | @appended resolver locked =>
    cases locked
    obtain ⟨-, rfl⟩ | ⟨_, call, ⟨⟩, -⟩ := ended
    refine looping.common rfl ?_
    intro call _ fresh
    refine ⟨fresh.distinct, fresh.known, ?_, ?_, fresh.last⟩
    · intro other member again
      rcases List.mem_append.mp again with old | new
      · exact fresh.apart other member old
      · rw [List.mem_singleton.mp new] at member
        exact fresh.appending resolver rfl member
    · intro _ appending
      cases appending
  | restored locked =>
    cases locked
    obtain ⟨-, rfl⟩ | ⟨_, call, ⟨⟩, -⟩ := ended
    exact looping.fewer rfl (fun _ member => member) (by simp)

/-- The active resolvers come from the configuration. -/
theorem Conserved.known (conserved : Conserved configured s.common) (free : s.common.locked = .free)
    {resolver : ρ} (active : resolver ∈ s.common.resolvers) : resolver ∈ configured := by
  have same := conserved.resolvers
  unfold Random.active at same
  rw [free] at same
  exact same.subset (List.mem_append_left _ active)

/-- What holds along a run in which no resolver that a call has taken out is put back. -/
structure Bounded (configured : List ρ) (index : Nat) (s : System ρ) : Prop where
  conserved : Conserved configured s.common
  looping : Looping configured index s

theorem Bounded.step (bounded : Bounded configured index s)
    (undisturbed : Undisturbed index s event) (taken : step opt s event = some s') :
    Bounded configured index s' := by
  obtain ⟨conserved, looping⟩ := bounded
  refine ⟨conserved_step conserved taken, ?_⟩
  cases event with
  | resolve =>
    cases taken
    exact looping.join
  | pick other choice =>
    obtain ⟨call, group, next, found, updated, rfl⟩ := Parties.act_eq_some_iff.mp taken
    obtain ⟨picking, free, rfl, ⟨-, rfl⟩ | ⟨resolver, active, rfl⟩⟩ := pick_cases updated
    · exact looping.act found (by simp [picking]) (by simp) fun fresh => fresh.returned _
    · exact looping.act found (by simp [picking]) (by simp)
        fun fresh => fresh.ask picking active (conserved.known free active)
  | respond other response =>
    obtain ⟨call, group, next, found, updated, rfl⟩ := Parties.act_eq_some_iff.mp taken
    obtain ⟨resolver, waiting, rfl, rfl | rfl⟩ := respond_cases updated
    · exact looping.act found (by simp [waiting]) (by simp) fun fresh => fresh.returned _
    · exact looping.act found (by simp [waiting]) (by simp)
        fun fresh => fresh.asking (by rw [waiting]; rfl) rfl
  | deactivate other =>
    obtain ⟨call, group, next, found, updated, rfl⟩ := Parties.act_eq_some_iff.mp taken
    obtain ⟨bad, failed, free, rfl, rfl⟩ := deactivate_cases updated
    exact looping.lock free found failed
  | reactivate position =>
    obtain ⟨group, updated, rfl⟩ := Option.map_eq_some_iff.mp taken
    obtain ⟨resolver, asleep, free, rfl⟩ := reactivate_cases updated
    refine looping.common (by rw [free]; rfl) ?_
    intro call found fresh
    refine fresh.fewer (fun _ member => member) ?_
    intro _ appending
    cases appending
    exact undisturbed call found resolver asleep
  | proceed => exact looping.proceed conserved taken

theorem bounded_newRandom (configured : List ρ) (index : Nat) :
    Bounded configured index (newRandom configured) where
  conserved := ⟨List.Perm.of_eq (List.append_nil configured), rfl⟩
  looping :=
    { holder := fun holds => by cases holds
      fresh := fun found => absurd found (by simp [newRandom])
      holds := fun found => absurd found (by simp [newRandom]) }

end Steps

/-! ## That the call returns -/

section Progress

variable {ρ : Type u} [DecidableEq ρ] {opt : RandomOptions} {configured : List ρ} {index size : Nat}
  {s s' : System ρ} {call : Call ρ} {group group' : Group ρ} {event : Event}

/-- The step is one of the call at an index or one under the lock. -/
def OnBehalf (index : Nat) : Event → Prop
  | .pick other _ => other = index
  | .respond other _ => other = index
  | .deactivate other => other = index
  | .proceed => True
  | .resolve => False
  | .reactivate _ => False

/-- How many steps of its own a call has before it, if there are `size` resolvers. -/
def Call.left (size : Nat) (call : Call ρ) : Nat :=
  match call.phase with
  | .picking => 4 * (size - call.tried.length) + 1
  | .waiting _ => 4 * (size - call.tried.length) + 4
  | .failed _ => 4 * (size - call.tried.length) + 3
  | .deactivating _ => 4 * (size - call.tried.length) + 2
  | .returned _ => 0

/-- How many steps it takes until the lock is free. -/
def Locked.work : Locked ρ → Nat
  | .free => 0
  | .scanning _ _ _ rest => rest.length + 2
  | .filtered _ _ => 1
  | .appending _ => 2
  | .appended => 1

/-- How many steps it takes until the call at an index has returned. -/
def remaining (size index : Nat) (s : System ρ) : Nat :=
  ((s.each[index]?).elim 0 fun call => call.left size) * (size + 4) + s.common.locked.work

/-- The call at an index, or whoever holds the lock, can go on: with any of the active
resolvers, and with any response. -/
def Ready (opt : RandomOptions) (index : Nat) (s : System ρ) : Prop :=
  (step opt s .proceed).isSome ∨
    (∀ choice, s.common.resolvers = [] ∨ choice < s.common.resolvers.length →
      (step opt s (.pick index choice)).isSome) ∨
    (∀ response, (step opt s (.respond index response)).isSome) ∨
    (step opt s (.deactivate index)).isSome

omit [DecidableEq ρ] in
theorem Fresh.length_le (fresh : Fresh configured group call) :
    call.tried.length ≤ configured.length :=
  (List.subperm_of_subset fresh.distinct fresh.known).length_le

omit [DecidableEq ρ] in
theorem work_proceed {next : Option Nat} (taken : Proceeds group group' next) :
    group'.locked.work < group.locked.work := by
  cases taken with
  | found locked | kept locked =>
    rw [locked]
    exact Nat.lt_succ_self _
  | unchanged locked =>
    rw [locked]
    exact Nat.zero_lt_two
  | filtered locked =>
    rw [locked]
    exact Nat.one_lt_two
  | published locked =>
    rw [locked]
    exact Nat.zero_lt_one
  | appended locked =>
    rw [locked]
    exact Nat.one_lt_two
  | restored locked =>
    rw [locked]
    exact Nat.zero_lt_one

omit [DecidableEq ρ] in
/-- The call that goes on with its loop has held the lock. -/
theorem holder_of_proceed {other : Nat} (taken : Proceeds group group' (some other)) :
    ∃ bad, group.locked.holder? = some (other, bad) := by
  cases taken with
  | @unchanged _ bad _ locked | @published _ bad locked => exact ⟨bad, by rw [locked]; rfl⟩

/-- Whoever holds the lock can go on. -/
theorem isSome_proceed (held : group.locked ≠ .free) :
    (proceed group).isSome := by
  unfold proceed
  split
  case h_1 free => exact absurd free held
  case h_2 =>
    split
    · rfl
    · rfl
  case h_3 =>
    split
    · rfl
    · rfl
  case h_4 => rfl
  case h_5 => rfl
  case h_6 => rfl

omit [DecidableEq ρ] in
/-- A call that has made a step of its own comes closer to its end, also when it has taken the
lock for it. -/
theorem remaining_set {call' : Call ρ} (found : s.each[index]? = some call)
    (closer : call'.left size < call.left size)
    (work : group.locked.work ≤ s.common.locked.work + size + 3) :
    remaining size index { common := group, each := s.each.set index call' } <
      remaining size index s := by
  unfold remaining
  rw [Parties.getElem?_set_acting found, found]
  have most : (call'.left size + 1) * (size + 4) ≤ call.left size * (size + 4) :=
    Nat.mul_le_mul_right _ closer
  rw [Nat.succ_mul] at most
  dsimp only [Option.elim]
  omega

theorem remaining_proceed (looping : Looping configured index s)
    (taken : step opt s .proceed = some s') : remaining size index s' < remaining size index s := by
  obtain ⟨group, next, advanced, ⟨-, rfl⟩ | ⟨other, call, rfl, found, rfl⟩⟩ := proceed_cases taken
  · exact Nat.add_lt_add_left (work_proceed advanced) _
  · have work := work_proceed advanced
    by_cases same : other = index
    · subst same
      obtain ⟨bad, holds⟩ := holder_of_proceed advanced
      obtain ⟨⟨phase, tried⟩, foundHolder, ⟨⟩⟩ := looping.holder holds
      rw [found] at foundHolder
      cases foundHolder
      refine remaining_set found ?_ (by omega)
      exact Nat.lt_succ_self _
    · unfold remaining
      rw [List.getElem?_set_ne same]
      exact Nat.add_lt_add_left work _

/-- Every step on behalf of a call brings it closer to its end. -/
theorem Bounded.remaining_lt (bounded : Bounded configured index s)
    (onBehalf : OnBehalf index event) (after : Bounded configured index s')
    (taken : Random.step opt s event = some s') :
    remaining configured.length index s' < remaining configured.length index s := by
  cases event with
  | resolve | reactivate position => exact onBehalf.elim
  | proceed => exact remaining_proceed bounded.looping taken
  | pick other choice =>
    cases onBehalf
    obtain ⟨⟨phase, tried⟩, group, call', found, updated, rfl⟩ := Parties.act_eq_some_iff.mp taken
    have size := (after.looping.fresh (Parties.getElem?_set_acting found)).length_le
    obtain ⟨⟨⟩, -, rfl, ⟨-, rfl⟩ | ⟨resolver, -, rfl⟩⟩ := pick_cases updated
    · refine remaining_set found ?_ (by omega)
      exact Nat.succ_pos _
    · refine remaining_set found ?_ (by omega)
      dsimp only [Call.left] at size ⊢
      rw [List.length_append, List.length_singleton] at size ⊢
      omega
  | respond other response =>
    cases onBehalf
    obtain ⟨⟨phase, tried⟩, group, call', found, updated, rfl⟩ := Parties.act_eq_some_iff.mp taken
    obtain ⟨resolver, ⟨⟩, rfl, rfl | rfl⟩ := respond_cases updated
    · refine remaining_set found ?_ (by omega)
      exact Nat.succ_pos _
    · refine remaining_set found ?_ (by omega)
      exact Nat.lt_succ_self _
  | deactivate other =>
    cases onBehalf
    obtain ⟨⟨phase, tried⟩, group, call', found, updated, rfl⟩ := Parties.act_eq_some_iff.mp taken
    obtain ⟨bad, ⟨⟩, free, rfl, rfl⟩ := deactivate_cases updated
    refine remaining_set found ?_ ?_
    · exact Nat.lt_succ_self _
    · have size := bounded.conserved.resolvers.length_eq
      unfold active at size
      rw [free, List.length_append] at size
      change s.common.resolvers.length + 2 ≤ _
      dsimp only at size
      omega

/-- A call that has not returned can go on. -/
theorem Bounded.ready (bounded : Bounded configured index s)
    (found : s.each[index]? = some call) :
    (∃ response, call.phase = .returned response) ∨ Ready opt index s := by
  by_cases free : s.common.locked = .free
  · obtain ⟨phase, tried⟩ := call
    cases phase with
    | picking =>
      refine .inr (.inr (.inl ?_))
      intro choice valid
      refine (Parties.isSome_act found).trans ?_
      unfold pick
      rw [if_pos ⟨rfl, free⟩]
      split
      · rfl
      · rename_i some_
        have inside := valid.resolve_left some_
        rw [List.getElem?_eq_getElem inside]
        rfl
    | waiting resolver =>
      refine .inr (.inr (.inr (.inl ?_)))
      intro response
      refine (Parties.isSome_act found).trans ?_
      dsimp only [respond]
      split
      · rfl
      · rfl
    | failed bad =>
      refine .inr (.inr (.inr (.inr ?_)))
      refine (Parties.isSome_act found).trans ?_
      dsimp only [deactivate]
      rw [if_pos free]
      rfl
    | deactivating bad =>
      have holds := bounded.looping.holds found rfl
      rw [free] at holds
      cases holds
    | returned response => exact .inl ⟨response, rfl⟩
  · refine .inr (.inl ?_)
    unfold Random.step
    obtain ⟨⟨group, next⟩, advanced⟩ := Option.isSome_iff_exists.mp (isSome_proceed free)
    cases next with
    | none =>
      simp only [advanced]
      rfl
    | some other =>
      simp only [advanced]
      obtain ⟨bad, holds⟩ := holder_of_proceed (proceeds_of_proceed advanced)
      obtain ⟨holder, foundHolder, -⟩ := bounded.looping.holder holds
      exact Parties.isSome_act foundHolder

/-- Calls do not disappear. -/
theorem length_le_step (taken : step opt s event = some s') : s.each.length ≤ s'.each.length := by
  cases event with
  | resolve =>
    cases taken
    unfold Parties.join
    rw [List.length_append]
    exact Nat.le_add_right _ _
  | pick other choice | respond other response | deactivate other =>
    exact (Parties.length_of_act taken).ge
  | reactivate position =>
    obtain ⟨group, updated, rfl⟩ := Option.map_eq_some_iff.mp taken
    exact Nat.le_refl _
  | proceed =>
    obtain ⟨group, next, -, ⟨-, rfl⟩ | ⟨other, call, -, -, rfl⟩⟩ := proceed_cases taken
    · exact Nat.le_refl _
    · exact List.length_set.ge

theorem OnBehalf.undisturbed (onBehalf : OnBehalf index event) : Undisturbed index s event := by
  cases event with
  | reactivate position => exact onBehalf.elim
  | resolve => trivial
  | pick other choice => trivial
  | respond other response => trivial
  | deactivate other => trivial
  | proceed => trivial

variable {events : List Event} {reached : System ρ}

/-- If no resolver that a call has taken out is put back before it returns, it asks no resolver
twice and makes at most as many attempts as there are resolvers.  Whatever the resolvers answer
it has only so many steps left, and as long as it has not returned there is a next one. -/
theorem resolve_bounded
    (run : Run (step opt) (Undisturbed index) (newRandom configured) events reached)
    (found : reached.each[index]? = some call) :
    call.tried.Nodup ∧ call.tried.length ≤ configured.length ∧
      ∀ {more : List Event} {later : System ρ},
        Run (step opt) (fun _ event => OnBehalf index event) reached more later →
          more.length ≤ remaining configured.length index reached ∧
            ∃ call', later.each[index]? = some call' ∧
              ((∃ response, call'.phase = .returned response) ∨ Ready opt index later) := by
  have bounded : Bounded configured index reached :=
    run.invariant _ (bounded_newRandom configured index) fun bounded undisturbed taken =>
      bounded.step undisturbed taken
  have fresh := bounded.looping.fresh found
  refine ⟨fresh.distinct, fresh.length_le, ?_⟩
  intro more later rest
  -- The steps on behalf of the call keep what holds along the run, and so each is one less.
  have assumed := rest.strengthen _ bounded fun bounded onBehalf taken =>
    bounded.step onBehalf.undisturbed taken
  refine ⟨assumed.length_le (remaining configured.length index) ?_, ?_⟩
  · rintro state next event ⟨before, onBehalf⟩ taken
    exact before.remaining_lt onBehalf (before.step onBehalf.undisturbed taken) taken
  · have after : Bounded configured index later :=
      rest.invariant _ bounded fun bounded onBehalf taken =>
        bounded.step onBehalf.undisturbed taken
    have inside : index < later.each.length :=
      rest.invariant (fun state => index < state.each.length)
        (List.getElem?_eq_some_iff.mp found).1
        fun inside _ taken => Nat.lt_of_lt_of_le inside (length_le_step taken)
    have there := List.getElem?_eq_getElem inside
    exact ⟨_, there, after.ready there⟩

end Progress

/-- A second call takes the first resolver out.  It is put back while the first call waits for
the other one, and then both have failed the first call. -/
def putBackBetween : List Event :=
  [.resolve, .resolve, .pick 1 0, .respond 1 (.error []), .deactivate 1, .proceed, .proceed,
    .proceed, .proceed, .pick 0 0, .reactivate 0, .proceed, .proceed, .respond 0 (.error []),
    .deactivate 0, .proceed, .proceed, .proceed, .proceed, .pick 0 0, .respond 0 (.error []),
    .deactivate 0, .proceed, .proceed, .proceed, .pick 0 0]

def bothFailed : System Bool where
  common := { resolvers := [], available := 0, sleeping := [false, true], locked := .free }
  each :=
    [{ phase := .returned (.error (text "no active resolvers left")), tried := [false, true] },
      { phase := .picking, tried := [true] }]

theorem resolve_bounded_sample :
    Run (step ⟨false, false⟩) (Undisturbed 0) (newRandom [true, false]) putBackBetween
        bothFailed ∧
      [false, true].Nodup ∧ [false, true].length ≤ [true, false].length :=
  have run : Run (step ⟨false, false⟩) (Undisturbed 0) (newRandom [true, false]) putBackBetween
      bothFailed := Run.of_foldlM rfl
  have bounded := resolve_bounded run rfl
  ⟨run, bounded.1, bounded.2.1⟩

/-- The only resolver fails and is put back before the call looks for another one. -/
def failAgain : List Event :=
  [.pick 0 0, .respond 0 (.error []), .deactivate 0, .proceed, .proceed, .proceed, .reactivate 0,
    .proceed, .proceed]

/-- The only call has sent the query to the only resolver some number of times. -/
def failedTimes (attempts : Nat) : System Unit where
  common := { resolvers := [()], available := 1, sleeping := [], locked := .free }
  each := [{ phase := .picking, tried := List.replicate attempts () }]

/-- A call may ask its only resolver any number of times and not have returned. -/
theorem exists_failedTimes (attempts : Nat) :
    ∃ events, Run (step ⟨false, false⟩) (fun _ _ => True) (newRandom [()]) events
      (failedTimes attempts) := by
  induction attempts with
  | zero => exact ⟨[.resolve], Run.of_foldlM rfl⟩
  | succ attempts ih =>
    obtain ⟨events, run⟩ := ih
    refine ⟨events ++ failAgain, run.append ?_⟩
    have again : List.replicate (attempts + 1) () = List.replicate attempts () ++ [()] :=
      List.replicate_succ'
    unfold failedTimes
    rw [again]
    exact Run.of_foldlM rfl

/-- A call asks the only configured resolver twice and goes on, and so any number of times. -/
theorem asked_again_and_again :
    (Run (step ⟨false, false⟩) (fun _ _ => True) (newRandom [()])
        (.resolve :: failAgain ++ failAgain) (failedTimes 2) ∧
      (failedTimes 2).each = [{ phase := .picking, tried := [(), ()] }] ∧ ¬ [(), ()].Nodup) ∧
      ∀ attempts, ∃ events,
        Run (step ⟨false, false⟩) (fun _ _ => True) (newRandom [()]) events
          (failedTimes attempts) :=
  ⟨⟨Run.of_foldlM rfl, rfl, by decide⟩, exists_failedTimes⟩

end RouteDns.Router.Random
