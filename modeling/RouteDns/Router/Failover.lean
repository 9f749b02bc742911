import RouteDns.Cache.Blob
import RouteDns.Program.Run

/-!
# Failing over between resolvers

A group of resolvers passes a query to one resolver after another until one of them does not
fail.  `FailRotate` and `FailBack` remember in a common variable which resolver is active; a
request that fails makes the next one active, unless another request has done so before.
`FailBack` also starts a timer that makes the first resolver active again; without it every
request goes through the resolvers on its own.

Requests run concurrently with each other and with the timer.
-/

namespace RouteDns.Router

open Dns Cache

/-- What a resolver returns; no message is a response to be dropped. -/
abbrev Response := Except Text (Option Message)

def typeANY : UInt16 := 255
def typeHINFO : UInt16 := 13

/-- The code of an extended error. -/
def infoCode (data : Text) : Nat :=
  ofBigEndian (data.take 2)

/-- The response was emptied on purpose: it was blocked, censored or filtered. -/
def deliberatelyEmpty (a : Message) : Bool :=
  match a.isEdns0 with
  | none => false
  | some edns0 =>
    edns0.options.any fun option =>
      match option with
      | .other code data =>
        code = edns0Ede && (infoCode data = 15 || infoCode data = 16 || infoCode data = 17)
      | _ => false

/-- A response counts as a success. -/
def isSuccessResponse (a : Option Message) (servfailError emptyError : Bool) : Bool :=
  match a with
  | none => true
  | some a =>
    if (a.rcode = rcodeServerFailure && servfailError) || a.rcode = rcodeRefused ||
        a.rcode = rcodeNotImplemented then false
    else if !emptyError then true
    else
      match a.answer, a.question with
      | first :: rest, question :: _ =>
        if (first :: rest).any fun rr => rr.header.rrtype = question.qtype then true
        else question.qtype = typeANY && !(rest.isEmpty && first.header.rrtype = typeHINFO)
      | _, _ => deliberatelyEmpty a

/-- The kind of a group; the time of `FailBack` is 0 if it is not to reset. -/
inductive GroupKind where
  | failRotate
  | failBack (resetAfter : Nat)
  deriving DecidableEq

structure GroupOptions where
  kind : GroupKind
  servfailError : Bool
  emptyError : Bool

/-- A response is returned at once. -/
def GroupOptions.success (opt : GroupOptions) : Response → Bool
  | .error _ => false
  | .ok a => isSuccessResponse a opt.servfailError opt.emptyError

/-- Requests of the group share the active resolver. -/
def GroupOptions.shared (opt : GroupOptions) : Bool :=
  opt.kind ≠ .failBack 0

/-- The goroutine of the timer: not started, waiting for a failure or the time, or waiting
for a failure after a reset. -/
inductive Timer where
  | absent
  | running
  | resting
  deriving DecidableEq

/-- What the requests of a group share: the active resolver, the timer and the buffer of the
channel that signals failures to it. -/
structure Group where
  active : Nat
  timer : Timer
  signalled : Bool
  deriving DecidableEq

/-- Where a request is in its loop. -/
inductive Phase where
  | calling (attempt : Nat)
  | waiting (attempt resolver : Nat)
  | failed (attempt resolver : Nat)
  | signalling (attempt : Nat)
  | returned (response : Response)
  deriving DecidableEq

/-- A request, with the last response and the resolvers that failed it, in order. -/
structure Attempt where
  phase : Phase
  last : Response
  failures : List Nat
  deriving DecidableEq

/-- Any number of requests at one group. -/
structure Failover where
  group : Group
  requests : List Attempt
  deriving DecidableEq

/-- A group before its first request. -/
def Failover.initial : Failover where
  group := { active := 0, timer := .absent, signalled := false }
  requests := []

/-- The steps of requests, which are numbered in the order of their arrival, and those of the
timer. -/
inductive FailoverEvent where
  | arrive
  | current (index : Nat)
  | respond (index : Nat) (response : Response)
  | errorFrom (index : Nat)
  | signal (index : Nat)
  | timerSignalled
  | timerExpired
  | timerResumed

section Model

variable (opt : GroupOptions) (n : Nat)

/-- The next iteration of the loop, or the end of it. -/
def nextAttempt (attempt : Nat) (last : Response) : Phase :=
  if attempt < n then .calling attempt else .returned last

/-- The resolver for an attempt. -/
def currentResolver (group : Group) (attempt : Nat) : Nat :=
  if opt.shared then group.active else attempt

/-- Fail over to the next resolver, if the one that failed is still the active one. -/
def failOver (group : Group) : Group :=
  { group with
    active := (group.active + 1) % n
    timer := if opt.kind ≠ .failRotate ∧ group.timer = .absent then .running else group.timer }

/-- A request after it has reported a failure: `FailBack` has to signal it to the timer. -/
def reported (attempt : Nat) (last : Response) : Phase :=
  if opt.kind = .failRotate then nextAttempt n (attempt + 1) last else .signalling attempt

/-- One step of a request at an index. -/
def advance (s : Failover) (index : Nat) (update : Attempt → Option (Group × Attempt)) :
    Option Failover :=
  match s.requests[index]? with
  | none => none
  | some request =>
    match update request with
    | none => none
    | some (group, request) => some { group := group, requests := s.requests.set index request }

def failoverStep (s : Failover) : FailoverEvent → Option Failover
  | .arrive =>
    some { s with
      requests := s.requests ++
        [{ phase := nextAttempt n 0 (.ok none), last := .ok none, failures := [] }] }
  | .current index =>
    advance s index fun request =>
      match request.phase with
      | .calling attempt =>
        some (s.group,
          { request with phase := .waiting attempt (currentResolver opt s.group attempt) })
      | _ => none
  | .respond index response =>
    advance s index fun request =>
      match request.phase with
      | .waiting attempt resolver =>
        if opt.success response then
          some (s.group, { request with phase := .returned response, last := response })
        else
          some (s.group,
            { phase := .failed attempt resolver
              last := response
              failures := request.failures ++ [resolver] })
      | _ => none
  | .errorFrom index =>
    advance s index fun request =>
      match request.phase with
      | .failed attempt resolver =>
        if opt.shared ∧ resolver = s.group.active then
          some (failOver opt n s.group,
            { request with phase := reported opt n attempt request.last })
        else
          some (s.group,
            { request with phase := nextAttempt n (attempt + 1) request.last })
      | _ => none
  | .signal index =>
    advance s index fun request =>
      match request.phase with
      | .signalling attempt =>
        if s.group.signalled then none
        else
          some ({ s.group with signalled := true },
            { request with phase := nextAttempt n (attempt + 1) request.last })
      | _ => none
  | .timerSignalled =>
    if s.group.timer = .running ∧ s.group.signalled then
      some { s with group := { s.group with signalled := false } }
    else none
  | .timerExpired =>
    if s.group.timer = .running then
      some { s with group := { s.group with active := 0, timer := .resting } }
    else none
  | .timerResumed =>
    if s.group.timer = .resting ∧ s.group.signalled then
      some { s with group := { s.group with timer := .running, signalled := false } }
    else none

end Model

/-! ## Failures and disturbances -/

/-- A request that returns a failure has been failed by all resolvers. -/
def FailedByAll (opt : GroupOptions) (n : Nat) (s : Failover) : Prop :=
  ∀ request ∈ s.requests, ∀ response, request.phase = .returned response →
    opt.success response = false → ∀ resolver < n, resolver ∈ request.failures

/-- A request that will call another resolver goes on to the one after the last it has called,
although the active resolver has changed: it has still to report the last, and that or the one
after it is active. -/
def Attempt.keepsUp (n active : Nat) (request : Attempt) : Bool :=
  match request.phase with
  | .calling attempt => attempt = 0
  | .waiting attempt resolver =>
    n ≤ attempt + 1 || active = resolver || active = (resolver + 1) % n
  | .failed attempt resolver =>
    n ≤ attempt + 1 || active = resolver || active = (resolver + 1) % n
  | .signalling attempt => n ≤ attempt + 1
  | .returned _ => true

/-- The resolver that a request is about to report is the active one. -/
def reportsActive (opt : GroupOptions) (group : Group) (request : Attempt) : Bool :=
  match request.phase with
  | .failed _ resolver => opt.shared && resolver = group.active
  | _ => false

/-- If the step changes the active resolver, the other requests keep up. -/
def Undisturbed (opt : GroupOptions) (n : Nat) (s : Failover) : FailoverEvent → Prop
  | .errorFrom index =>
    ∀ request ∈ s.requests[index]?, reportsActive opt s.group request →
      ∀ other ∈ s.requests.eraseIdx index, other.keepsUp n ((s.group.active + 1) % n)
  | .timerExpired => s.group.active ≠ 0 → ∀ request ∈ s.requests, request.keepsUp n 0
  | _ => True

instance (opt : GroupOptions) (n : Nat) (s : Failover) :
    (event : FailoverEvent) → Decidable (Undisturbed opt n s event)
  | .errorFrom index =>
    inferInstanceAs (Decidable (∀ request ∈ s.requests[index]?,
      reportsActive opt s.group request →
        ∀ other ∈ s.requests.eraseIdx index, other.keepsUp n ((s.group.active + 1) % n)))
  | .timerExpired =>
    inferInstanceAs (Decidable (s.group.active ≠ 0 →
      ∀ request ∈ s.requests, request.keepsUp n 0))
  | .arrive => isTrue trivial
  | .current _ => isTrue trivial
  | .respond _ _ => isTrue trivial
  | .signal _ => isTrue trivial
  | .timerSignalled => isTrue trivial
  | .timerResumed => isTrue trivial

/-! ## Tours -/

/-- The resolvers from a start on, round and round. -/
def tour (n start count : Nat) : List Nat :=
  (List.range count).map fun offset => (start + offset) % n

theorem tour_succ (n start count : Nat) :
    tour n start (count + 1) = tour n start count ++ [(start + count) % n] := by
  simp [tour, List.range_succ]

/-- A tour of as many resolvers as there are visits all of them. -/
theorem mem_tour {n resolver : Nat} (start : Nat) (inside : resolver < n) :
    resolver ∈ tour n start n := by
  have positive : 0 < n := by omega
  refine List.mem_map.mpr ⟨(resolver + (n - start % n)) % n,
    List.mem_range.mpr (Nat.mod_lt _ positive), ?_⟩
  have wrapped : start % n ≤ n := (Nat.mod_lt _ positive).le
  calc
    (start + (resolver + (n - start % n)) % n) % n
        = (start % n + (resolver + (n - start % n))) % n := by
          rw [Nat.add_mod_mod, Nat.mod_add_mod]
    _ = (resolver + n) % n := by
          congr 1
          omega
    _ = resolver := by rw [Nat.add_mod_right, Nat.mod_eq_of_lt inside]

/-- A request has been failed by the resolvers of a tour.  As long as it will call another one,
the next resolver of the tour is active, or the one it is at. -/
def OnTour (opt : GroupOptions) (n : Nat) (group : Group) (request : Attempt) : Prop :=
  ∃ start, (opt.shared = false → start = 0) ∧
    match request.phase with
    | .calling attempt =>
      attempt < n ∧ request.failures = tour n start attempt ∧
        (opt.shared → 0 < attempt → group.active = (start + attempt) % n)
    | .waiting attempt resolver =>
      attempt < n ∧ request.failures = tour n start attempt ∧ resolver = (start + attempt) % n ∧
        (opt.shared → attempt + 1 < n →
          group.active = resolver ∨ group.active = (resolver + 1) % n)
    | .failed attempt resolver =>
      attempt < n ∧ request.failures = tour n start (attempt + 1) ∧
        resolver = (start + attempt) % n ∧
        (opt.shared → attempt + 1 < n →
          group.active = resolver ∨ group.active = (resolver + 1) % n)
    | .signalling attempt =>
      attempt < n ∧ request.failures = tour n start (attempt + 1) ∧
        (opt.shared → attempt + 1 < n → group.active = (start + (attempt + 1)) % n)
    | .returned response =>
      opt.success response = false → request.failures = tour n start n

/-- All requests are on tours, and the active resolver is one of the group. -/
structure Touring (opt : GroupOptions) (n : Nat) (s : Failover) : Prop where
  onTour : ∀ (index : Nat) (request : Attempt), s.requests[index]? = some request →
    OnTour opt n s.group request
  active : 0 < n → s.group.active < n

section Tours

variable {opt : GroupOptions} {n : Nat} {group group' : Group}

theorem active_of_keepsUp {active attempt resolver : Nat}
    (still : (n ≤ attempt + 1 || active = resolver || active = (resolver + 1) % n) = true)
    (more : attempt + 1 < n) : active = resolver ∨ active = (resolver + 1) % n := by
  simp only [Bool.or_eq_true, decide_eq_true_eq] at still
  omega

/-- A request that keeps up, or keeps the active resolver, stays on its tour. -/
theorem OnTour.of_group {request : Attempt} (onTour : OnTour opt n group request)
    (kept : request.keepsUp n group'.active ∨ group'.active = group.active) :
    OnTour opt n group' request := by
  obtain ⟨phase, last, failures⟩ := request
  obtain ⟨start, own, shape⟩ := onTour
  refine ⟨start, own, ?_⟩
  rcases kept with still | same
  · cases phase with
    | calling attempt =>
      have first : attempt = 0 := of_decide_eq_true still
      exact ⟨shape.1, shape.2.1, fun _ positive => absurd first positive.ne'⟩
    | waiting attempt resolver | failed attempt resolver =>
      exact ⟨shape.1, shape.2.1, shape.2.2.1, fun _ more => active_of_keepsUp still more⟩
    | signalling attempt =>
      have last : n ≤ attempt + 1 := of_decide_eq_true still
      exact ⟨shape.1, shape.2.1, fun _ more => absurd more last.not_gt⟩
    | returned response => exact shape
  · rw [same]
    exact shape

variable {attempt resolver : Nat} {last : Response} {failed : List Nat}

/-- A request that goes on with its loop is on a tour. -/
theorem onTour_nextAttempt {start : Nat} (own : opt.shared = false → start = 0)
    (bound : attempt < n) (failures : failed = tour n start (attempt + 1))
    (next : opt.shared → attempt + 1 < n → group.active = (start + (attempt + 1)) % n) :
    OnTour opt n group ⟨nextAttempt n (attempt + 1) last, last, failed⟩ := by
  refine ⟨start, own, ?_⟩
  rcases Nat.lt_or_ge (attempt + 1) n with more | done
  · have phase : nextAttempt n (attempt + 1) last = .calling (attempt + 1) := if_pos more
    rw [phase]
    exact ⟨more, failures, fun shared _ => next shared more⟩
  · have phase : nextAttempt n (attempt + 1) last = .returned last := if_neg (Nat.not_lt.mpr done)
    have complete : attempt + 1 = n := by omega
    rw [phase]
    exact fun _ => complete ▸ failures

/-- A new request starts its loop, or returns at once if there are no resolvers. -/
theorem onTour_arrive : OnTour opt n group
    { phase := nextAttempt n 0 (.ok none), last := .ok none, failures := [] } := by
  refine ⟨0, fun _ => rfl, ?_⟩
  rcases Nat.eq_zero_or_pos n with rfl | positive
  · exact fun _ => rfl
  · have phase : nextAttempt n 0 (.ok none) = .calling 0 := if_pos positive
    rw [phase]
    exact ⟨positive, rfl, fun _ impossible => absurd impossible (Nat.lt_irrefl 0)⟩

theorem onTour_current (onTour : OnTour opt n group ⟨.calling attempt, last, failed⟩)
    (active : 0 < n → group.active < n) :
    OnTour opt n group ⟨.waiting attempt (currentResolver opt group attempt), last, failed⟩ := by
  obtain ⟨start, own, bound, failures, next⟩ := onTour
  by_cases shared : opt.shared
  · have resolver : currentResolver opt group attempt = group.active := if_pos shared
    rw [resolver]
    rcases Nat.eq_zero_or_pos attempt with rfl | positive
    · -- The first attempt starts a tour at the active resolver.
      refine ⟨group.active, fun alone => absurd shared (by simp [alone]), bound, failures, ?_,
        fun _ _ => .inl rfl⟩
      exact (Nat.mod_eq_of_lt (active bound)).symm
    · exact ⟨start, own, bound, failures, next shared positive, fun _ _ => .inl rfl⟩
  · have resolver : currentResolver opt group attempt = attempt := if_neg shared
    have zero := own (Bool.eq_false_iff.mpr shared)
    rw [resolver]
    refine ⟨start, own, bound, failures, ?_, fun shared' => absurd shared' shared⟩
    rw [zero, Nat.zero_add, Nat.mod_eq_of_lt bound]

theorem onTour_respond {response : Response}
    (onTour : OnTour opt n group ⟨.waiting attempt resolver, last, failed⟩) :
    OnTour opt n group ⟨.failed attempt resolver, response, failed ++ [resolver]⟩ := by
  obtain ⟨start, own, bound, failures, position, next⟩ := onTour
  refine ⟨start, own, bound, ?_, position, next⟩
  rw [tour_succ, ← failures, ← position]

section

variable (onTour : OnTour opt n group ⟨.failed attempt resolver, last, failed⟩)
include onTour

/-- A request that makes the next resolver active goes on to it. -/
theorem onTour_failOver (reports : resolver = group.active) :
    OnTour opt n (failOver opt n group) ⟨reported opt n attempt last, last, failed⟩ := by
  obtain ⟨start, own, bound, failures, position, _⟩ := onTour
  have moved : (failOver opt n group).active = (start + (attempt + 1)) % n := by
    change (group.active + 1) % n = _
    rw [← reports, position, Nat.mod_add_mod]
    rfl
  unfold reported
  split
  · exact onTour_nextAttempt own bound failures fun _ _ => moved
  · exact ⟨start, own, bound, failures, fun _ _ => moved⟩

/-- A request that finds another resolver active finds the next one, has none left to call, or
does not care. -/
theorem onTour_ignored (ignored : ¬ (opt.shared ∧ resolver = group.active)) :
    OnTour opt n group ⟨nextAttempt n (attempt + 1) last, last, failed⟩ := by
  obtain ⟨start, own, bound, failures, position, next⟩ := onTour
  apply onTour_nextAttempt own bound failures
  intro shared more
  rcases next shared more with same | moved
  · exact absurd ⟨shared, same.symm⟩ ignored
  · rw [moved, position, Nat.mod_add_mod]
    rfl

end

theorem onTour_signal (onTour : OnTour opt n group ⟨.signalling attempt, last, failed⟩)
    (same : group'.active = group.active) :
    OnTour opt n group' ⟨nextAttempt n (attempt + 1) last, last, failed⟩ := by
  obtain ⟨start, own, bound, failures, next⟩ := onTour
  apply onTour_nextAttempt own bound failures
  rw [same]
  exact next

end Tours

/-! ## What a step can do -/

section Steps

variable {opt : GroupOptions} {n : Nat} {s t : Failover}

variable {index : Nat} {update : Attempt → Option (Group × Attempt)}

theorem advance_eq_some (taken : advance s index update = some t) :
    ∃ request group request', s.requests[index]? = some request ∧
      update request = some (group, request') ∧
      t = { group := group, requests := s.requests.set index request' } := by
  unfold advance at taken
  split at taken
  · cases taken
  · rename_i request found
    split at taken
    · cases taken
    · rename_i group request' updated
      exact ⟨request, group, request', found, updated, (Option.some.inj taken).symm⟩

variable (touring : Touring opt n s)
include touring

/-- A step of one request keeps the tours if it keeps its own and does not disturb the
others. -/
theorem Touring.advance (taken : Router.advance s index update = some t)
    (own : ∀ request group request', s.requests[index]? = some request →
      OnTour opt n s.group request → update request = some (group, request') →
      OnTour opt n group request' ∧ (0 < n → group.active < n) ∧
        (group.active = s.group.active ∨
          ∀ other ∈ s.requests.eraseIdx index, other.keepsUp n group.active)) :
    Touring opt n t := by
  obtain ⟨request, group, request', found, updated, rfl⟩ := advance_eq_some taken
  obtain ⟨onTour, active, kept⟩ :=
    own request group request' found (touring.onTour index request found) updated
  refine ⟨forall_getElem?_set (fun _ request => OnTour opt n group request) onTour ?_, active⟩
  intro other old different found'
  apply (touring.onTour other old found').of_group
  rcases kept with same | still
  · exact .inr same
  · exact .inl (still old (List.mem_eraseIdx_iff_getElem?.mpr ⟨other, different, found'⟩))

/-- A step of the timer keeps the tours if it keeps the active resolver, or the requests keep
up. -/
theorem Touring.of_group {group : Group}
    (kept : group.active = s.group.active ∨ ∀ request ∈ s.requests, request.keepsUp n group.active)
    (active : 0 < n → group.active < n) : Touring opt n { s with group := group } := by
  refine ⟨fun index request found => ?_, active⟩
  apply (touring.onTour index request found).of_group
  rcases kept with same | still
  · exact .inr same
  · exact .inl (still request (List.mem_of_getElem? found))

theorem Touring.step {event : FailoverEvent} (undisturbed : Undisturbed opt n s event)
    (taken : failoverStep opt n s event = some t) : Touring opt n t := by
  cases event with
  | arrive =>
    cases taken
    refine ⟨forall_getElem?_concat (fun _ request => OnTour opt n s.group request) ?_
      touring.onTour, touring.active⟩
    exact onTour_arrive
  | current index =>
    refine touring.advance taken ?_
    rintro ⟨phase, last, failures⟩ group request' - onTour updated
    cases phase with
    | calling attempt =>
      cases updated
      exact ⟨onTour_current onTour touring.active, touring.active, .inl rfl⟩
    | _ => cases updated
  | respond index response =>
    refine touring.advance taken ?_
    rintro ⟨phase, last, failures⟩ group request' - onTour updated
    cases phase with
    | waiting attempt resolver =>
      dsimp only at updated
      split at updated
      · rename_i success
        cases updated
        refine ⟨⟨0, fun _ => rfl, fun failure => ?_⟩, touring.active, .inl rfl⟩
        rw [success] at failure
        cases failure
      · cases updated
        exact ⟨onTour_respond onTour, touring.active, .inl rfl⟩
    | _ => cases updated
  | errorFrom index =>
    refine touring.advance taken ?_
    rintro ⟨phase, last, failures⟩ group request' found onTour updated
    cases phase with
    | failed attempt resolver =>
      dsimp only at updated
      split at updated
      · rename_i reports
        cases updated
        refine ⟨onTour_failOver onTour reports.2, fun positive => Nat.mod_lt _ positive, .inr ?_⟩
        apply undisturbed _ found
        simpa [reportsActive] using reports
      · rename_i ignored
        cases updated
        exact ⟨onTour_ignored onTour ignored, touring.active, .inl rfl⟩
    | _ => cases updated
  | signal index =>
    refine touring.advance taken ?_
    rintro ⟨phase, last, failures⟩ group request' - onTour updated
    cases phase with
    | signalling attempt =>
      obtain ⟨-, same⟩ := Option.ite_none_left_eq_some.mp updated
      cases same
      exact ⟨onTour_signal onTour rfl, touring.active, .inl rfl⟩
    | _ => cases updated
  | timerSignalled =>
    obtain ⟨-, same⟩ := Option.ite_none_right_eq_some.mp taken
    cases same
    exact touring.of_group (.inl rfl) touring.active
  | timerExpired =>
    obtain ⟨-, same⟩ := Option.ite_none_right_eq_some.mp taken
    cases same
    apply touring.of_group _ fun positive => positive
    by_cases first : s.group.active = 0
    · exact .inl first.symm
    · exact .inr (undisturbed first)
  | timerResumed =>
    obtain ⟨-, same⟩ := Option.ite_none_right_eq_some.mp taken
    cases same
    exact touring.of_group (.inl rfl) touring.active

end Steps

theorem touring_initial (opt : GroupOptions) (n : Nat) : Touring opt n Failover.initial where
  onTour _ _ found := nomatch found
  active positive := positive

/-- In every run in which requests keep up with every change of the active resolver, a request
returns a failure only after all resolvers have failed it. -/
theorem failed_by_all (opt : GroupOptions) (n : Nat) (events : List FailoverEvent) (s : Failover)
    (run : Run (failoverStep opt n) (Undisturbed opt n) Failover.initial events s) :
    FailedByAll opt n s := by
  have touring : Touring opt n s :=
    run.invariant (Touring opt n) (touring_initial opt n)
      fun holds undisturbed taken => holds.step undisturbed taken
  intro request member response phase failure resolver inside
  obtain ⟨index, found⟩ := List.getElem?_of_mem member
  obtain ⟨start, _, shape⟩ := touring.onTour index request found
  simp only [phase] at shape
  rw [shape failure]
  exact mem_tour start inside

/-- Two resolvers without a way back. -/
def rotation : GroupOptions where
  kind := .failRotate
  servfailError := false
  emptyError := false

def refusal : Response := .error (text "connection refused")

/-- The first resolver fails both requests before either of them reports it. -/
def failedTogether : List FailoverEvent :=
  [.arrive, .current 0, .arrive, .current 1, .respond 0 refusal, .respond 1 refusal, .errorFrom 0,
    .errorFrom 1, .current 0, .current 1, .respond 0 refusal, .respond 1 refusal, .errorFrom 0,
    .errorFrom 1]

theorem two_requests_fail :
    ∃ s, Run (failoverStep rotation 2) (Undisturbed rotation 2) Failover.initial failedTogether s ∧
      s.requests.map (fun request => (request.phase, request.failures)) =
        [(.returned refusal, [0, 1]), (.returned refusal, [0, 1])] ∧
      FailedByAll rotation 2 s := by
  have run : Run (failoverStep rotation 2) (Undisturbed rotation 2) Failover.initial
      failedTogether _ := Run.of_foldlM rfl
  exact ⟨_, run, by decide +kernel, failed_by_all rotation 2 _ _ run⟩

/-- While the first request is between its two attempts, the second one makes the first
resolver active again, which then fails the first request twice. -/
theorem disturbed_request_misses_resolver :
    ∃ s, Run (failoverStep rotation 2) (fun _ _ => True) Failover.initial
        [.arrive, .current 0, .respond 0 refusal, .errorFrom 0, .arrive, .current 1,
          .respond 1 refusal, .errorFrom 1, .current 0, .respond 0 refusal, .errorFrom 0] s ∧
      ¬ FailedByAll rotation 2 s := by
  refine ⟨_, Run.of_foldlM rfl, ?_⟩
  intro failed
  have missed := failed _ List.mem_cons_self refusal rfl rfl 1 (by decide)
  exact absurd missed (by decide +kernel)

end RouteDns.Router
