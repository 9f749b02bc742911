import RouteDns.Dedup.Key
import RouteDns.Program.FiniteMap
import RouteDns.Program.Run

/-!
# Calls that share a request in flight

A call of `Resolve` looks its key up in the table of requests in flight.  If there is none it
puts a new one there, passes its query on, stores what comes back in the request, closes its
channel, takes it out of the table and returns.  Otherwise it waits for the channel of the request
it has found and returns what is stored there.

The mutex makes looking up and putting in one step, and taking out another; all other steps of
concurrent calls can fall between them in any order.
-/

namespace RouteDns.Dedup

open Dns Cache

/-! ## Calls -/

/-- What a resolver returns.  No answer and no error is a response to be dropped. -/
@[ext]
structure Outcome where
  answer : Option Message
  err : Option Text
  deriving DecidableEq

/-- A copy for a caller, with the ID and the question of its query. -/
def Outcome.restored (q : CacheQuery) (outcome : Outcome) : Outcome :=
  { outcome with
    answer := outcome.answer.map fun a => { a with id := q.msg.id, question := q.msg.question } }

/-- A request in flight; `done` says that the channel is closed. -/
structure InflightRequest where
  answer : Option Message
  err : Option Text
  done : Bool
  deriving DecidableEq

/-- Where a call is in `Resolve`; requests go by the number of the call that made them. -/
inductive Phase where
  | arrived
  | waiting (req : Nat)
  | leading
  | resolving
  | resolved (outcome : Outcome)
  | answerStored (outcome : Outcome)
  | errStored (outcome : Outcome)
  | closed (outcome : Outcome)
  | removed (outcome : Outcome)
  | returned (outcome : Outcome)
  deriving DecidableEq

/-- A call, with the request it has made. -/
structure Call where
  query : CacheQuery
  request : Option InflightRequest
  phase : Phase

/-- The calls at one element, numbered in the order of their arrival, and its table. -/
structure RequestDedup where
  calls : List Call
  inflight : FiniteMap DedupKey Nat

/-- The element before its first call. -/
def newRequestDedup : RequestDedup where
  calls := []
  inflight := ∅

/-- A call arrives, takes its next step, or its query to the resolver returns. -/
inductive DedupEvent where
  | arrive (q : CacheQuery)
  | advance (index : Nat)
  | finish (index : Nat) (outcome : Outcome)

def DedupEvent.isArrival : DedupEvent → Bool
  | .arrive _ => true
  | _ => false

namespace RequestDedup

variable (s : RequestDedup)

/-- A call goes on; the table may change. -/
def move (index : Nat) (moved : Call) (table : FiniteMap DedupKey Nat) : RequestDedup where
  calls := s.calls.set index moved
  inflight := table

/-- The next step of a call.  There is none while it waits for another request or for the
resolver. -/
def resolve (index : Nat) (call : Call) : Option RequestDedup :=
  let k := dedupKey call.query
  match call.phase with
  | .arrived =>
    match s.inflight.lookup k with
    | some req => some (s.move index { call with phase := .waiting req } s.inflight)
    | none =>
      let req : InflightRequest := { answer := none, err := none, done := false }
      some (s.move index { call with request := some req, phase := .leading }
        (s.inflight.insert k index))
  | .waiting req =>
    match (s.calls[req]?).bind Call.request with
    | some { answer, err, done := true } =>
      let outcome := Outcome.restored call.query { answer := answer, err := err }
      some (s.move index { call with phase := .returned outcome } s.inflight)
    | _ => none
  | .leading => some (s.move index { call with phase := .resolving } s.inflight)
  | .resolving => none
  | .resolved outcome =>
    let request := call.request.map fun req => { req with answer := outcome.answer }
    some (s.move index { call with request := request, phase := .answerStored outcome } s.inflight)
  | .answerStored outcome =>
    let request := call.request.map fun req => { req with err := outcome.err }
    some (s.move index { call with request := request, phase := .errStored outcome } s.inflight)
  | .errStored outcome =>
    let request := call.request.map fun req => { req with done := true }
    some (s.move index { call with request := request, phase := .closed outcome } s.inflight)
  | .closed outcome =>
    some (s.move index { call with phase := .removed outcome } (s.inflight.erase k))
  | .removed outcome =>
    some (s.move index { call with phase := .returned (outcome.restored call.query) } s.inflight)
  | .returned _ => none

def step : DedupEvent → Option RequestDedup
  | .arrive q =>
    let call : Call := { query := q, request := none, phase := .arrived }
    some { s with calls := s.calls ++ [call] }
  | .advance index => (s.calls[index]?).bind fun call => s.resolve index call
  | .finish index outcome =>
    match s.calls[index]? with
    | some { query, request, phase := .resolving } =>
      let call : Call := { query := query, request := request, phase := .resolved outcome }
      some (s.move index call s.inflight)
    | _ => none

end RequestDedup

/-- The states that events lead to. -/
abbrev Reaches (events : List DedupEvent) (s : RequestDedup) : Prop :=
  Run RequestDedup.step (fun _ _ => True) newRequestDedup events s

/-! ## Phases -/

variable {outcome : Outcome}

namespace Phase

def isReturned : Phase → Bool
  | .returned _ => true
  | _ => false

/-- The request of the call is in the table. -/
def registered : Phase → Bool
  | .leading => true
  | .resolving => true
  | .resolved _ => true
  | .answerStored _ => true
  | .errStored _ => true
  | .closed _ => true
  | _ => false

/-- The resolver does not have a query of the call any more. -/
def finished : Phase → Bool
  | .arrived => false
  | .waiting _ => false
  | .leading => false
  | .resolving => false
  | _ => true

/-- What the resolver has returned to a call. -/
def outcome? : Phase → Option Outcome
  | .resolved outcome => some outcome
  | .answerStored outcome => some outcome
  | .errStored outcome => some outcome
  | .closed outcome => some outcome
  | .removed outcome => some outcome
  | _ => none

/-- The request of a call before it returns. -/
def request : Phase → Option InflightRequest
  | .arrived => none
  | .waiting _ => none
  | .leading => some { answer := none, err := none, done := false }
  | .resolving => some { answer := none, err := none, done := false }
  | .resolved _ => some { answer := none, err := none, done := false }
  | .answerStored outcome => some { answer := outcome.answer, err := none, done := false }
  | .errStored outcome => some { answer := outcome.answer, err := outcome.err, done := false }
  | .closed outcome => some { answer := outcome.answer, err := outcome.err, done := true }
  | .removed outcome => some { answer := outcome.answer, err := outcome.err, done := true }
  | .returned _ => none

/-- The most steps that a call still takes. -/
def remaining : Phase → Nat
  | .arrived => 8
  | .leading => 7
  | .resolving => 6
  | .resolved _ => 5
  | .answerStored _ => 4
  | .errStored _ => 3
  | .closed _ => 2
  | .removed _ => 1
  | .waiting _ => 1
  | .returned _ => 0

variable {phase : Phase}

theorem isReturned_iff :
    phase.isReturned = true ↔ ∃ result, phase = .returned result := by
  cases phase <;> simp [isReturned]

theorem isReturned_of_registered (there : phase.registered = true) :
    phase.isReturned = false := by
  cases phase <;> first | rfl | cases there

theorem isSome_request_of_registered (there : phase.registered = true) :
    phase.request.isSome = true := by
  cases phase <;> first | rfl | cases there

/-- What a closed request holds has come from the resolver. -/
theorem outcome?_of_done
    (done : phase.request =
      some { answer := outcome.answer, err := outcome.err, done := true }) :
    phase.outcome? = some outcome := by
  cases phase <;> simp_all [request, outcome?, Outcome.ext_iff]

end Phase

/-- The most steps that all calls still take. -/
def RequestDedup.work (s : RequestDedup) : Nat :=
  (s.calls.map fun call => call.phase.remaining).sum

/-! ## What holds of a run -/

/-- A call came in after some of the events. -/
structure Arrives (events : List DedupEvent) (index : Nat) (q : CacheQuery)
    (front : List DedupEvent) (before : RequestDedup) : Prop where
  event : ∃ back, events = front ++ .arrive q :: back
  reached : Reaches front before
  numbered : before.calls.length = index

/-- When a call came in, another's query to the resolver had not returned or its request was in
the table. -/
def Since (events : List DedupEvent) (index : Nat) (q : CacheQuery) (leader : Nat) : Prop :=
  ∃ front before, Arrives events index q front before ∧
    ((∀ outcome, .finish leader outcome ∉ front) ∨
      before.inflight.lookup (dedupKey q) = some leader)

/-- A result has the error of an outcome, and an answer if it has one: under the ID and the
question of a query, all else as it was. -/
structure Outcome.ReturnedTo (q : CacheQuery) (outcome result : Outcome) : Prop where
  err : result.err = outcome.err
  answered : result.answer.isSome = outcome.answer.isSome
  own : ∀ a ∈ result.answer, a.id = q.msg.id ∧ a.question = q.msg.question
  rest : ∀ a ∈ result.answer, ∀ b ∈ outcome.answer,
    { a with id := b.id, question := b.question } = b

theorem Outcome.returnedTo_restored (q : CacheQuery) (outcome : Outcome) :
    outcome.ReturnedTo q (outcome.restored q) := by
  obtain ⟨answer, err⟩ := outcome
  cases answer with
  | none | some a => constructor <;> simp [restored]

/-- A call returns what the resolver has returned for a query with the same key, with its own ID
and question. -/
def Served (events : List DedupEvent) (s : RequestDedup) (index : Nat) (q : CacheQuery)
    (result : Outcome) : Prop :=
  ∃ leader call outcome, s.calls[leader]? = some call ∧ dedupKey call.query = dedupKey q ∧
    .finish leader outcome ∈ events ∧ Since events index q leader ∧ outcome.ReturnedTo q result

/-- The calls in any order of their steps. -/
structure Deduplicated (events : List DedupEvent) (s : RequestDedup) : Prop where
  one_upstream : ∀ (i j : Nat) (first second : Call),
    s.calls[i]? = some first → s.calls[j]? = some second →
    first.phase = .resolving → second.phase = .resolving →
      dedupKey first.query = dedupKey second.query → i = j
  one_outcome : ∀ index first second, .finish index first ∈ events →
    .finish index second ∈ events → first = second
  served : ∀ (index : Nat) (call : Call) result,
    s.calls[index]? = some call → call.phase = .returned result →
    Served events s index call.query result
  removes_own : ∀ event next, s.step event = some next →
    ∀ key index, s.inflight.lookup key = some index → next.inflight.lookup key = some index ∨
      event = .advance index ∧ ∃ call outcome, s.calls[index]? = some call ∧
        call.phase = .closed outcome
  empties : (∀ call ∈ s.calls, call.phase.isReturned = true) → s.inflight = ∅
  proceeds : (∀ event, event.isArrival = false → s.step event = none) →
    ∀ call ∈ s.calls, call.phase.isReturned = true
  bounded : ∀ events later,
    Run RequestDedup.step (fun _ event => event.isArrival = false) s events later →
      events.length ≤ s.work

/-! ## Steps -/

/-- How a call goes on by an event. -/
inductive Moves (s : RequestDedup) (index : Nat) (call : Call) :
    DedupEvent → Call → FiniteMap DedupKey Nat → Prop where
  | wait (req : Nat) (at_ : call.phase = .arrived)
      (found : s.inflight.lookup (dedupKey call.query) = some req) :
      Moves s index call (.advance index) { call with phase := .waiting req } s.inflight
  | lead (at_ : call.phase = .arrived) (absent : s.inflight.lookup (dedupKey call.query) = none) :
      Moves s index call (.advance index)
        { call with
          request := some { answer := none, err := none, done := false }
          phase := .leading }
        (s.inflight.insert (dedupKey call.query) index)
  | wake (req : Nat) (outcome : Outcome) (at_ : call.phase = .waiting req)
      (found : (s.calls[req]?).bind Call.request =
        some { answer := outcome.answer, err := outcome.err, done := true }) :
      Moves s index call (.advance index)
        { call with phase := .returned (outcome.restored call.query) } s.inflight
  | forward (at_ : call.phase = .leading) :
      Moves s index call (.advance index) { call with phase := .resolving } s.inflight
  | finish (outcome : Outcome) (at_ : call.phase = .resolving) :
      Moves s index call (.finish index outcome) { call with phase := .resolved outcome } s.inflight
  | storeAnswer (outcome : Outcome) (at_ : call.phase = .resolved outcome) :
      Moves s index call (.advance index)
        { call with
          request := call.request.map fun req => { req with answer := outcome.answer }
          phase := .answerStored outcome } s.inflight
  | storeErr (outcome : Outcome) (at_ : call.phase = .answerStored outcome) :
      Moves s index call (.advance index)
        { call with
          request := call.request.map fun req => { req with err := outcome.err }
          phase := .errStored outcome } s.inflight
  | close (outcome : Outcome) (at_ : call.phase = .errStored outcome) :
      Moves s index call (.advance index)
        { call with
          request := call.request.map fun req => { req with done := true }
          phase := .closed outcome } s.inflight
  | remove (outcome : Outcome) (at_ : call.phase = .closed outcome) :
      Moves s index call (.advance index) { call with phase := .removed outcome }
        (s.inflight.erase (dedupKey call.query))
  | leave (outcome : Outcome) (at_ : call.phase = .removed outcome) :
      Moves s index call (.advance index)
        { call with phase := .returned (outcome.restored call.query) } s.inflight

theorem RequestDedup.resolve_cases {s next : RequestDedup} {index : Nat} {call : Call}
    (taken : s.resolve index call = some next) :
    ∃ moved table, Moves s index call (.advance index) moved table ∧
      next = s.move index moved table := by
  unfold resolve at taken
  dsimp only at taken
  split at taken
  case h_1 at_ =>
    split at taken
    case h_1 req found => exact ⟨_, _, .wait req at_ found, (Option.some.inj taken).symm⟩
    case h_2 absent => exact ⟨_, _, .lead at_ absent, (Option.some.inj taken).symm⟩
  case h_2 req at_ =>
    split at taken
    case h_1 answer err found =>
      exact ⟨_, _, .wake req { answer := answer, err := err } at_ found,
        (Option.some.inj taken).symm⟩
    case h_2 => cases taken
  case h_3 at_ => exact ⟨_, _, .forward at_, (Option.some.inj taken).symm⟩
  case h_4 => cases taken
  case h_5 outcome at_ => exact ⟨_, _, .storeAnswer outcome at_, (Option.some.inj taken).symm⟩
  case h_6 outcome at_ => exact ⟨_, _, .storeErr outcome at_, (Option.some.inj taken).symm⟩
  case h_7 outcome at_ => exact ⟨_, _, .close outcome at_, (Option.some.inj taken).symm⟩
  case h_8 outcome at_ => exact ⟨_, _, .remove outcome at_, (Option.some.inj taken).symm⟩
  case h_9 outcome at_ => exact ⟨_, _, .leave outcome at_, (Option.some.inj taken).symm⟩
  case h_10 => cases taken

/-- What a step can do: a call comes in, or one call goes on. -/
theorem RequestDedup.step_cases {s next : RequestDedup} {event : DedupEvent}
    (taken : s.step event = some next) :
    (∃ q, event = .arrive q ∧
      next = { s with calls := s.calls ++ [{ query := q, request := none, phase := .arrived }] }) ∨
    ∃ index call moved table, s.calls[index]? = some call ∧ Moves s index call event moved table ∧
      next = s.move index moved table := by
  cases event with
  | arrive q => exact .inl ⟨q, rfl, (Option.some.inj taken).symm⟩
  | advance index =>
    obtain ⟨call, found, taken⟩ := Option.bind_eq_some_iff.mp taken
    obtain ⟨moved, table, moves, same⟩ := resolve_cases taken
    exact .inr ⟨index, call, moved, table, found, moves, same⟩
  | finish index outcome =>
    rw [step] at taken
    split at taken
    · rename_i query request found
      exact .inr ⟨index, _, _, _, found, .finish outcome rfl, (Option.some.inj taken).symm⟩
    · cases taken

namespace Moves

variable {s : RequestDedup} {index : Nat} {call moved : Call} {event : DedupEvent}
  {table : FiniteMap DedupKey Nat}

section

variable (moves : Moves s index call event moved table)
include moves

theorem query_eq : moved.query = call.query := by
  cases moves <;> rfl

theorem isSome_request (made : call.request.isSome = true) : moved.request.isSome = true := by
  cases moves <;> simp [made]

theorem finished (before : call.phase.finished = true) : moved.phase.finished = true := by
  cases moves <;> simp_all [Phase.finished]

/-- Only an unfinished call comes to be in the table. -/
theorem registered (after : moved.phase.registered = true) :
    call.phase.registered = true ∨ call.phase.finished = false := by
  cases moves <;> simp_all [Phase.registered, Phase.finished]

/-- A call takes its request out of the table after it has closed it. -/
theorem deregistered (before : call.phase.registered = true) :
    moved.phase.registered = true ∨
      event = .advance index ∧ ∃ outcome, call.phase = .closed outcome := by
  cases moves <;> simp_all [Phase.registered]

/-- What a step does to the table: nothing, or a call puts its request there, or takes it out. -/
theorem table_cases :
    (table = s.inflight ∧ moved.phase.registered = call.phase.registered) ∨
    (table = s.inflight.insert (dedupKey call.query) index ∧
      s.inflight.lookup (dedupKey call.query) = none ∧ moved.phase.registered = true) ∨
    (table = s.inflight.erase (dedupKey call.query) ∧ call.phase.registered = true ∧
      moved.phase.registered = false) := by
  cases moves with
  | lead at_ absent => exact .inr (.inl ⟨rfl, absent, rfl⟩)
  | remove outcome at_ => exact .inr (.inr ⟨rfl, by rw [at_]; rfl, rfl⟩)
  | _ => exact .inl ⟨rfl, by simp_all [Phase.registered]⟩

end

theorem of_finish {other : Nat} (moves : Moves s index call (.finish other outcome) moved table) :
    other = index ∧ call.phase.finished = false ∧ moved.phase.finished = true := by
  cases moves with
  | finish _ at_ => exact ⟨rfl, by rw [at_]; rfl, rfl⟩

section

variable (moves : Moves s index call event moved table)
include moves

theorem request_eq (before : call.phase.isReturned = false → call.request = call.phase.request)
    (after : moved.phase.isReturned = false) : moved.request = moved.phase.request := by
  cases moves <;> simp_all [Phase.isReturned, Phase.request]

/-- The outcome of a call is what the resolver has just returned or had returned before. -/
theorem outcome?_eq (after : moved.phase.outcome? = some outcome) :
    call.phase.outcome? = some outcome ∨ event = .finish index outcome := by
  cases moves <;> simp_all [Phase.outcome?]

theorem phase_ne_arrived :
    moved.phase ≠ .arrived := by
  cases moves <;> simp

theorem of_waiting {req : Nat} (after : moved.phase = .waiting req) :
    call.phase = .arrived ∧ s.inflight.lookup (dedupKey call.query) = some req := by
  cases moves <;> simp_all

/-- A call returns what is stored in the request it has waited for, or what the resolver has
returned. -/
theorem of_returned {result : Outcome} (after : moved.phase = .returned result) :
    ∃ outcome, result = outcome.restored call.query ∧ moved.request = call.request ∧
      (call.phase = .removed outcome ∨ ∃ req, call.phase = .waiting req ∧
        (s.calls[req]?).bind Call.request =
          some { answer := outcome.answer, err := outcome.err, done := true }) := by
  cases moves with
  | wake req outcome at_ found =>
    cases after
    exact ⟨outcome, rfl, rfl, .inr ⟨req, at_, found⟩⟩
  | leave outcome at_ =>
    cases after
    exact ⟨outcome, rfl, rfl, .inl at_⟩
  | _ => cases after

theorem remaining_lt :
    moved.phase.remaining < call.phase.remaining := by
  cases moves <;> simp_all [Phase.remaining]

end

end Moves

end RouteDns.Dedup
