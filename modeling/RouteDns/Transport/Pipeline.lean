import RouteDns.Dns.Message
import RouteDns.Program.Custody
import RouteDns.Program.FiniteMap

/-!
# Pipelined queries

Queries of any number of callers share one connection at a time.  A main loop opens the
connection when there is a request and hands that request back to the queue; a writer takes
requests from the queue, gives them IDs and sends them; a reader matches responses by their ID
and completes the requests.  A caller gives up after a while and takes its request out of flight.
When the writer and the reader of a connection have ended, what is still in flight is failed.

The parts take turns at every operation on a channel, on the requests in flight and on the
connection.  The upstream may send anything at any time.
-/

namespace RouteDns.Transport

open Dns

/-- Why a query is not answered. -/
inductive ResolveError where
  | timeout
  | failed (err : Text)
  | question (error : Message.QuestionError)
  deriving DecidableEq

/-- Where a caller is: it offers its request, waits for it, or has run out of time and is about
to take it out of flight. -/
inductive Caller where
  | sending
  | waiting
  | expired
  | returned (result : Except ResolveError Message)
  deriving DecidableEq

/-- A request, and how often its channel was closed. -/
structure Request where
  q : Message
  a : Option Message
  id : UInt16
  err : Option Text
  closed : Nat
  caller : Caller

def newRequest (q : Message) : Request where
  q := q
  a := none
  id := 0
  err := none
  closed := 0
  caller := .sending

namespace Request

/-- Mark the request as complete; the answer gets the ID of the query. -/
def markDone (a : Option Message) (err : Option Text) (r : Request) : Request :=
  { r with
    a := a.map fun a => { a with id := r.q.id }
    err := err
    closed := r.closed + 1 }

/-- What a caller returns for a completed request. -/
def waitFor (r : Request) : Except ResolveError Message :=
  match r.err, r.a with
  | some err, _ => .error (.failed err)
  | none, none => .error (.failed (text "invalid memory address or nil pointer dereference"))
  | none, some a =>
    match Message.validateResponseQuestion r.q a with
    | .error error => .error (.question error)
    | .ok _ => .ok a

end Request

/-- The main loop: it waits for a request, opens a connection for one, waits for the end of the
connection, or fails what is left in flight. -/
inductive Main where
  | waiting
  | dialing (index : Nat)
  | serving
  | draining
  deriving DecidableEq

/-- The writer: there is none, it waits for a request, has one, could not give it an ID, sends a
query, could not send it, or has taken it out of flight again. -/
inductive Writer where
  | ended
  | ready
  | received (index : Nat)
  | full (index : Nat)
  | writing (index : Nat) (query : Message)
  | failed (index : Nat) (query : Message) (err : Text)
  | failing (index : Nat) (err : Text)
  deriving DecidableEq

/-- The reader: there is none, it waits for a response, or has one for a request. -/
inductive Reader where
  | ended
  | reading
  | matched (index : Nat) (a : Message)
  deriving DecidableEq

/-- A pipeline with the requests of all callers, numbered in the order of their arrival; those
that are handed back to the queue, and those in flight by their ID. -/
structure Pipeline where
  requests : List Request
  main : Main
  requeued : List Nat
  writer : Writer
  reader : Reader
  done : Bool
  inFlight : FiniteMap UInt16 Nat

def newPipeline : Pipeline where
  requests := []
  main := .waiting
  requeued := []
  writer := .ended
  reader := .ended
  done := false
  inFlight := ∅

def maxInFlight : Nat := 65535

/-- The steps of the parts. -/
inductive PipelineEvent where
  | resolve (q : Message)
  | sendTimeout (index : Nat)
  | sendMain (index : Nat)
  | sendWriter (index : Nat)
  | requeueMain (index : Nat)
  | requeueWriter (index : Nat)
  | waitTimeout (index : Nat)
  | delete (index : Nat)
  | wake (index : Nat)
  | dial (err : Option Text)
  | add (id : UInt16)
  | full
  | write (err : Option Text)
  | takeBack
  | fail
  | stopWriter
  | receive (a : Message)
  | deliver
  | readError
  | close
  | drain (id : UInt16)
  | drained

namespace Pipeline

def setRequest (s : Pipeline) (index : Nat) (request : Request) : Pipeline :=
  { s with requests := s.requests.set index request }

/-- The step of a caller that is at some place. -/
def callerStep (s : Pipeline) (index : Nat) (place : Caller) (next : Request → Pipeline) :
    Option Pipeline :=
  match s.requests[index]? with
  | none => none
  | some request => if request.caller = place then some (next request) else none

def markDone (s : Pipeline) (index : Nat) (a : Option Message) (err : Option Text) :
    Option Pipeline :=
  s.requests[index]?.map fun request => s.setRequest index (request.markDone a err)

/-! ## The requests in flight -/

/-- Give a request an ID that is not in use, if there is room.  The ID is drawn again until it is
not in use. -/
def add (s : Pipeline) (index : Nat) (id : UInt16) : Option Pipeline :=
  if maxInFlight ≤ s.inFlight.size then some { s with writer := .full index }
  else if (s.inFlight.lookup id).isSome then none
  else
    s.requests[index]?.map fun request =>
      { s.setRequest index { request with id := id } with
        inFlight := s.inFlight.insert id index
        writer := .writing index { request.q with id := id } }

/-- Take the request with an ID out of flight. -/
def get (s : Pipeline) (id : UInt16) : Option Nat × Pipeline :=
  match s.inFlight.lookup id with
  | none => (none, s)
  | some index => (some index, { s with inFlight := s.inFlight.erase id })

/-- Take a request out of flight, if it is. -/
def delete (s : Pipeline) (index : Nat) (id : UInt16) : Pipeline :=
  if s.inFlight.lookup id = some index then { s with inFlight := s.inFlight.erase id } else s

/-! ## Steps -/

def step (s : Pipeline) : PipelineEvent → Option Pipeline
  | .resolve q => some { s with requests := s.requests ++ [newRequest q] }
  | .sendTimeout index =>
    s.callerStep index .sending fun request =>
      s.setRequest index { request with caller := .returned (.error .timeout) }
  | .sendMain index =>
    if s.main = .waiting then
      s.callerStep index .sending fun request =>
        { s.setRequest index { request with caller := .waiting } with main := .dialing index }
    else none
  | .sendWriter index =>
    if s.writer = .ready then
      s.callerStep index .sending fun request =>
        { s.setRequest index { request with caller := .waiting } with
          writer := .received index }
    else none
  | .requeueMain index =>
    if s.main = .waiting ∧ index ∈ s.requeued then
      some { s with requeued := s.requeued.erase index, main := .dialing index }
    else none
  | .requeueWriter index =>
    if s.writer = .ready ∧ index ∈ s.requeued then
      some { s with requeued := s.requeued.erase index, writer := .received index }
    else none
  | .waitTimeout index =>
    s.callerStep index .waiting fun request =>
      s.setRequest index { request with caller := .expired }
  | .delete index =>
    s.callerStep index .expired fun request =>
      (s.delete index request.id).setRequest index
        { request with caller := .returned (.error .timeout) }
  | .wake index =>
    s.callerStep index .waiting fun request =>
      if 0 < request.closed then
        s.setRequest index { request with caller := .returned request.waitFor }
      -- The channel is still open: the caller goes on waiting.
      else s
  | .dial err =>
    match s.main, err with
    | .dialing index, some err =>
      (s.markDone index none (some err)).map fun s => { s with main := .waiting }
    | .dialing index, none =>
      some { s with
        main := .serving
        requeued := s.requeued ++ [index]
        writer := .ready
        reader := .reading
        done := false }
    | _, _ => none
  | .add id =>
    match s.writer with
    | .received index => s.add index id
    | _ => none
  | .full =>
    match s.writer with
    | .full index =>
      (s.markDone index none (some (text "too many queries in flight"))).map fun s =>
        { s with writer := .ready }
    | _ => none
  | .write err =>
    match s.writer, err with
    | .writing _ _, none => some { s with writer := .ready }
    | .writing index query, some err => some { s with writer := .failed index query err }
    | _, _ => none
  | .takeBack =>
    match s.writer with
    | .failed index query err =>
      match s.get query.id with
      | (none, s) => some { s with writer := .ended }
      | (some _, s) => some { s with writer := .failing index err }
    | _ => none
  | .fail =>
    match s.writer with
    | .failing index err =>
      (s.markDone index none (some err)).map fun s => { s with writer := .ended }
    | _ => none
  | .stopWriter => if s.writer = .ready ∧ s.done then some { s with writer := .ended } else none
  | .receive a =>
    match s.reader with
    | .reading =>
      match s.get a.id with
      | (none, s) => some s
      | (some index, s) => some { s with reader := .matched index a }
    | _ => none
  | .deliver =>
    match s.reader with
    | .matched index a =>
      (s.markDone index (some a) none).map fun s => { s with reader := .reading }
    | _ => none
  | .readError =>
    match s.reader with
    | .reading => some { s with reader := .ended, done := true }
    | _ => none
  | .close =>
    if s.main = .serving ∧ s.writer = .ended ∧ s.reader = .ended then
      some { s with main := .draining }
    else none
  | .drain id =>
    if s.main = .draining then
      match s.get id with
      | (none, _) => none
      | (some index, s) =>
        s.markDone index none
          (some (text "upstream connection closed with request in flight"))
    else none
  | .drained =>
    if s.main = .draining ∧ s.inFlight.size = 0 then some { s with main := .waiting } else none

/-! ## Steps taken -/

variable {s s' rest : Pipeline} {index : Nat} {id : UInt16}

theorem callerStep_eq_some {place : Caller} {next : Request → Pipeline}
    (taken : s.callerStep index place next = some s') :
    ∃ request, s.requests[index]? = some request ∧ request.caller = place ∧ next request = s' := by
  unfold callerStep at taken
  split at taken
  · cases taken
  · rename_i request found
    split at taken
    · rename_i same
      exact ⟨request, found, same, Option.some.inj taken⟩
    · cases taken

variable {answer : Option Message} {err : Option Text}

theorem markDone_eq_some (taken : s.markDone index answer err = some s') :
    ∃ request, s.requests[index]? = some request ∧
      s' = s.setRequest index (request.markDone answer err) := by
  obtain ⟨request, found, same⟩ := Option.map_eq_some_iff.mp taken
  exact ⟨request, found, same.symm⟩

theorem map_markDone_eq_some {release : Pipeline → Pipeline}
    (taken : (s.markDone index answer err).map release = some s') :
    ∃ request, s.requests[index]? = some request ∧
      s' = release (s.setRequest index (request.markDone answer err)) := by
  obtain ⟨done, marked, same⟩ := Option.map_eq_some_iff.mp taken
  obtain ⟨request, found, rfl⟩ := markDone_eq_some marked
  exact ⟨request, found, same.symm⟩

theorem get_eq_none (got : s.get id = (none, rest)) :
    s.inFlight.lookup id = none ∧ rest = s := by
  unfold get at got
  split at got
  · rename_i absent
    exact ⟨absent, (Prod.mk.inj got).2.symm⟩
  · cases (Prod.mk.inj got).1

theorem get_eq_some (got : s.get id = (some index, rest)) :
    s.inFlight.lookup id = some index ∧ rest = { s with inFlight := s.inFlight.erase id } := by
  unfold get at got
  split at got
  · cases (Prod.mk.inj got).1
  · rename_i there
    obtain ⟨same, rest⟩ := Prod.mk.inj got
    cases same
    exact ⟨there, rest.symm⟩

end Pipeline

end RouteDns.Transport
