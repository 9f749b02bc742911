import RouteDns.Transport.Pipeline

/-!
# Requests in flight

Every request is with its caller, with one of the parts of a pipeline, in the queue or in flight,
or nobody has it any more; it is never in two places.  A request in flight is there under the ID
it was sent with, and a response belongs to the request that was in flight under its ID when it
came in.  The lemmas say how this carries over from one state to the next.
-/

namespace RouteDns.Transport

open Dns

namespace Pipeline

/-! ## Who holds a request -/

/-- What can hold a request that is not completed. -/
inductive Hand where
  | main
  | queue
  | writer
  | reader
  | flight
  deriving DecidableEq

end Pipeline

def Caller.offers : Caller → Bool
  | .sending => true
  | _ => false

/-- The response that a caller has returned. -/
def Caller.response : Caller → Option Message
  | .returned (.ok response) => some response
  | _ => none

/-- Nothing but its caller has the request. -/
def Request.offered (request : Request) : Prop :=
  request.caller.offers = true

def Main.held : Main → Option Nat
  | .dialing index => some index
  | _ => none

/-- A request that the writer is about to complete or to give an ID. -/
def Writer.held : Writer → Option Nat
  | .received index => some index
  | .full index => some index
  | .failing index _ => some index
  | _ => none

/-- The query that the writer sends, or could not send. -/
def Writer.sends : Writer → Option (Nat × Message)
  | .writing index query => some (index, query)
  | .failed index query _ => some (index, query)
  | _ => none

/-- The response that the reader has for a request. -/
def Reader.response : Reader → Option (Nat × Message)
  | .matched index a => some (index, a)
  | _ => none

theorem Caller.response_returned {result : Except ResolveError Message} {response : Message} :
    (Caller.returned result).response = some response ↔ result = .ok response := by
  cases result <;> simp [Caller.response]

theorem Request.waitFor_eq_ok {request : Request} {response : Message}
    (waited : request.waitFor = .ok response) : request.err = none ∧ request.a = some response ∧
      Message.validateResponseQuestion request.q response = .ok () := by
  unfold Request.waitFor at waited
  split at waited
  · cases waited
  · cases waited
  · rename_i noError answer
    split at waited
    · cases waited
    · rename_i valid
      cases waited
      exact ⟨noError, answer, valid⟩

namespace Pipeline

def inHand (s : Pipeline) : Hand → Nat → Prop
  | .main, index => s.main.held = some index
  | .queue, index => index ∈ s.requeued
  | .writer, index => s.writer.held = some index
  | .reader, index => ∃ a, s.reader.response = some (index, a)
  | .flight, index => ∃ id, s.inFlight.lookup id = some index

/-! ## Histories -/

/-- The steps lead to a state. -/
abbrev Reaches (events : List PipelineEvent) (s : Pipeline) : Prop :=
  Run step (fun _ _ => True) newPipeline events s

/-- A request was given an ID, and its query was written with that ID. -/
def Sent (events : List PipelineEvent) (index : Nat) (q : Message) (id : UInt16) : Prop :=
  ∃ before after s, events = before ++ .add id :: after ∧
    Reaches (before ++ [PipelineEvent.add id]) s ∧
    s.inFlight.lookup id = some index ∧ s.writer = .writing index { q with id := id }

/-- A response came in while the request with its ID was in flight. -/
def Arrived (events : List PipelineEvent) (index : Nat) (q a : Message) : Prop :=
  ∃ before after s, events = before ++ .receive a :: after ∧ Reaches before s ∧
    s.inFlight.lookup a.id = some index ∧ Sent before index q a.id

variable {events : List PipelineEvent} {event : PipelineEvent} {s s' : Pipeline} {index : Nat}
  {q a : Message} {id : UInt16} {request new : Request}

theorem Sent.snoc (sent : Sent events index q id) (event : PipelineEvent) :
    Sent (events ++ [event]) index q id := by
  obtain ⟨before, after, s, split, rest⟩ := sent
  exact ⟨before, after ++ [event], s, by rw [split, List.append_assoc, List.cons_append], rest⟩

theorem Arrived.snoc (arrived : Arrived events index q a) (event : PipelineEvent) :
    Arrived (events ++ [event]) index q a := by
  obtain ⟨before, after, s, split, rest⟩ := arrived
  exact ⟨before, after ++ [event], s, by rw [split, List.append_assoc, List.cons_append], rest⟩

/-- A request that is completed without error has a response that arrived for it, and so has
one whose caller has returned a response. -/
structure Answered (events : List PipelineEvent) (index : Nat) (request : Request) : Prop where
  completed : 0 < request.closed → request.err = none →
    ∃ a, Arrived events index request.q a ∧ request.a = some { a with id := request.q.id }
  returned : ∀ response, request.caller.response = some response →
    ∃ a, Arrived events index request.q a ∧ response = { a with id := request.q.id } ∧
      Message.validateResponseQuestion request.q response = .ok ()

section

variable (answered : Answered events index request)
include answered

theorem Answered.snoc (event : PipelineEvent) :
    Answered (events ++ [event]) index request where
  completed closed noError := by
    obtain ⟨a, arrived, same⟩ := answered.completed closed noError
    exact ⟨a, arrived.snoc event, same⟩
  returned response caller := by
    obtain ⟨a, arrived, rest⟩ := answered.returned response caller
    exact ⟨a, arrived.snoc event, rest⟩

/-- The caller of an unanswered query may go anywhere else. -/
theorem Answered.of_caller (caller : Caller) (none : caller.response = none) :
    Answered events index { request with caller := caller } where
  completed := answered.completed
  returned _ some := by cases none.symm.trans some

/-- The caller of a completed request returns what it waited for. -/
theorem Answered.of_waitFor (closed : 0 < request.closed) :
    Answered events index { request with caller := .returned request.waitFor } where
  completed := answered.completed
  returned response same := by
    obtain ⟨noError, answer, valid⟩ := Request.waitFor_eq_ok (Caller.response_returned.mp same)
    obtain ⟨a, arrived, equal⟩ := answered.completed closed noError
    rw [answer] at equal
    exact ⟨a, arrived, Option.some.inj equal, valid⟩

/-- A request that is failed has no response. -/
theorem Answered.of_error (err : Text) :
    Answered events index (request.markDone none (some err)) where
  completed _ noError := nomatch noError
  returned := answered.returned

theorem Answered.of_arrived (arrived : Arrived events index request.q a) :
    Answered events index (request.markDone (some a) none) where
  completed _ _ := ⟨a, arrived, rfl⟩
  returned := answered.returned

end

theorem answered_newRequest (q : Message) : Answered events index (newRequest q) where
  completed closed := absurd closed (Nat.lt_irrefl 0)
  returned _ caller := by cases caller

/-! ## The invariant -/

/-- Requests keep their queries and their IDs. -/
def Extends (requests requests' : List Request) : Prop :=
  ∀ (index : Nat) (request : Request), requests[index]? = some request →
    ∃ new : Request, requests'[index]? = some new ∧ new.id = request.id ∧ new.q = request.q

theorem Extends.refl (requests : List Request) : Extends requests requests :=
  fun _ request found => ⟨request, found, rfl, rfl⟩

theorem Extends.concat (requests : List Request) (new : Request) :
    Extends requests (requests ++ [new]) := by
  intro index request found
  have inside := (List.getElem?_eq_some_iff.mp found).1
  exact ⟨request, by rw [List.getElem?_append_left inside, found], rfl, rfl⟩

theorem Extends.set {requests : List Request} (found : requests[index]? = some request)
    (id : new.id = request.id) (q : new.q = request.q) :
    Extends requests (requests.set index new) := by
  intro number old there
  by_cases same : index = number
  · subst same
    rw [found] at there
    cases there
    exact ⟨new, List.getElem?_set_self (List.getElem?_eq_some_iff.mp found).1, id, q⟩
  · exact ⟨old, by rw [List.getElem?_set_ne same, there], rfl, rfl⟩

/-- What is known of a state that steps lead to.  Nothing holds a request twice, the requests in
flight are there with their own IDs, and responses are those of the requests they arrived for. -/
structure Sound (events : List PipelineEvent) (s : Pipeline) : Prop where
  custody : Custody Request.offered Request.closed s.requests s.inHand
  requeued : s.requeued.Nodup
  few : s.inFlight.size ≤ maxInFlight
  flight : ∀ id index, s.inFlight.lookup id = some index →
    ∃ request : Request, s.requests[index]? = some request ∧ request.id = id ∧
      Sent events index request.q id
  query : ∀ index query other, s.writer.sends = some (index, query) →
    s.inFlight.lookup query.id = some other → other = index
  matched : ∀ index a, s.reader.response = some (index, a) →
    ∃ request : Request, s.requests[index]? = some request ∧ Arrived events index request.q a
  answered : ∀ index request, s.requests[index]? = some request → Answered events index request

theorem sound_newPipeline : Sound [] newPipeline where
  custody := Custody.empty fun hand _ inHand => by
    cases hand with
    | flight =>
      obtain ⟨id, found⟩ := inHand
      cases found
    | reader =>
      obtain ⟨response, none⟩ := inHand
      cases none
    | _ => cases inHand
  requeued := List.nodup_nil
  few := Nat.zero_le _
  flight _ _ found := nomatch found
  query _ _ _ sends := by cases sends
  matched _ _ reader := by cases reader
  answered _ _ found := nomatch found

theorem lookup_of_lookup_erase {map : FiniteMap UInt16 Nat} {key : UInt16}
    (found : (map.erase key).lookup id = some index) : map.lookup id = some index := by
  rw [FiniteMap.lookup_erase_ite] at found
  split at found
  · cases found
  · exact found

/-- Nothing comes into flight, and no query to the writer.  What the reader has is the response
that it received. -/
structure Shrinks (event : PipelineEvent) (s s' : Pipeline) : Prop where
  inFlight : ∀ id index, s'.inFlight.lookup id = some index → s.inFlight.lookup id = some index
  size : s'.inFlight.size ≤ s.inFlight.size
  sends : s'.writer.sends = none ∨ s'.writer.sends = s.writer.sends
  matched : s'.reader.response = none ∨ s'.reader.response = s.reader.response ∨
    ∃ index a, s'.reader.response = some (index, a) ∧ event = .receive a ∧
      s.inFlight.lookup a.id = some index

theorem Shrinks.of_eq (inFlight : s'.inFlight = s.inFlight)
    (sends : s'.writer.sends = none ∨ s'.writer.sends = s.writer.sends)
    (reader : s'.reader.response = none ∨ s'.reader.response = s.reader.response) :
    Shrinks event s s' where
  inFlight _ _ found := inFlight ▸ found
  size := Nat.le_of_eq (congrArg FiniteMap.size inFlight)
  sends := sends
  matched := reader.imp_right .inl

/-- A request is taken out of flight. -/
theorem Shrinks.of_erase (inFlight : s'.inFlight = s.inFlight.erase id)
    (sends : s'.writer.sends = none ∨ s'.writer.sends = s.writer.sends)
    (reader : s'.reader.response = s.reader.response ∨
      ∃ index a, s'.reader.response = some (index, a) ∧ event = .receive a ∧
        s.inFlight.lookup a.id = some index) :
    Shrinks event s s' where
  inFlight _ _ found := by
    rw [inFlight] at found
    exact lookup_of_lookup_erase found
  size := by
    rw [inFlight]
    exact FiniteMap.size_erase_le _ _
  sends := sends
  matched := .inr reader

variable (sound : Sound events s)
include sound

theorem Sound.next (run : Reaches events s) (shrinks : Shrinks event s s')
    (extend : Extends s.requests s'.requests)
    (custody : Custody Request.offered Request.closed s'.requests s'.inHand)
    (requeued : s'.requeued.Nodup)
    (answered : ∀ index request, s'.requests[index]? = some request →
      Answered (events ++ [event]) index request) :
    Sound (events ++ [event]) s' where
  custody := custody
  requeued := requeued
  few := shrinks.size.trans sound.few
  flight id index found := by
    obtain ⟨request, there, same, sent⟩ := sound.flight id index (shrinks.inFlight id index found)
    obtain ⟨new, there, sameId, sameQuery⟩ := extend index request there
    exact ⟨new, there, sameId.trans same, sameQuery ▸ sent.snoc event⟩
  query index query other sends found := by
    rcases shrinks.sends with none | same
    · cases none.symm.trans sends
    · exact sound.query index query other (same ▸ sends) (shrinks.inFlight _ _ found)
  matched index a reader := by
    rcases shrinks.matched with none | same | ⟨number, response, same, received, found⟩
    · cases none.symm.trans reader
    · obtain ⟨request, there, arrived⟩ := sound.matched index a (same ▸ reader)
      obtain ⟨new, there, -, sameQuery⟩ := extend index request there
      exact ⟨new, there, sameQuery ▸ arrived.snoc event⟩
    · cases same.symm.trans reader
      obtain ⟨request, there, -, sent⟩ := sound.flight a.id index found
      obtain ⟨new, there, -, sameQuery⟩ := extend index request there
      exact ⟨new, there, events, [], s, by rw [received], run, found, sameQuery ▸ sent⟩
  answered := answered

/-- What is taken out of flight under an ID is no longer in flight. -/
theorem Sound.erased (there : s.inFlight.lookup id = some index) {number : Nat}
    (still : ∃ other, (s.inFlight.erase id).lookup other = some number) :
    (∃ other, s.inFlight.lookup other = some number) ∧ number ≠ index := by
  obtain ⟨other, still⟩ := still
  have found := lookup_of_lookup_erase still
  refine ⟨⟨other, found⟩, ?_⟩
  rintro rfl
  obtain ⟨request, at_, own, -⟩ := sound.flight id number there
  obtain ⟨same, at', own', -⟩ := sound.flight other number found
  rw [at_] at at'
  cases at'
  rw [FiniteMap.lookup_erase_ite, if_pos (own'.symm.trans own)] at still
  cases still

section

variable (run : Reaches events s)
include run

/-- A step that changes no request. -/
theorem Sound.pass (shrinks : Shrinks event s s') (same : s'.requests = s.requests)
    (custody : Custody Request.offered Request.closed s.requests s'.inHand)
    (requeued : s'.requeued.Nodup) : Sound (events ++ [event]) s' := by
  rw [← same] at custody
  refine sound.next run shrinks (same ▸ Extends.refl _) custody requeued ?_
  rw [same]
  exact fun index request found => (sound.answered index request found).snoc event

/-- A step that changes one request. -/
theorem Sound.change (shrinks : Shrinks event s s') (found : s.requests[index]? = some request)
    (same : s'.requests = s.requests.set index new) (sameId : new.id = request.id)
    (sameQuery : new.q = request.q)
    (custody : Custody Request.offered Request.closed (s.requests.set index new) s'.inHand)
    (requeued : s'.requeued.Nodup) (answered : Answered (events ++ [event]) index new) :
    Sound (events ++ [event]) s' := by
  rw [← same] at custody
  refine sound.next run shrinks (same ▸ Extends.set found sameId sameQuery) custody requeued ?_
  rw [same]
  exact forall_getElem?_set (fun index request => Answered (events ++ [event]) index request)
    answered fun other old _ there => (sound.answered other old there).snoc event

/-- A caller goes on, and may take its request out of flight. -/
theorem Sound.callerStep (found : s.requests[index]? = some request) (caller : Caller)
    (stays : caller.offers = false)
    (answered : Answered (events ++ [event]) index { request with caller := caller })
    (inFlight : FiniteMap UInt16 Nat)
    (fewer : ∀ id index, inFlight.lookup id = some index → s.inFlight.lookup id = some index)
    (size : inFlight.size ≤ s.inFlight.size) :
    Sound (events ++ [event])
      { s with
        requests := s.requests.set index { request with caller := caller }
        inFlight := inFlight } := by
  have shrinks : Shrinks event s
      { s with
        requests := s.requests.set index { request with caller := caller }
        inFlight := inFlight } :=
    ⟨fewer, size, .inr rfl, .inr (.inl rfl)⟩
  refine sound.change run shrinks found rfl rfl rfl ?_ sound.requeued answered
  have replaced : Custody Request.offered Request.closed
      (s.requests.set index { request with caller := caller }) s.inHand :=
    sound.custody.replace found rfl fun offered =>
      Bool.noConfusion (stays.symm.trans offered)
  refine replaced.fewer ?_
  intro hand number inHand
  cases hand with
  | flight =>
    obtain ⟨id, there⟩ := inHand
    exact ⟨id, fewer id number there⟩
  | _ => exact inHand

/-- A request is completed by what holds it. -/
theorem Sound.completed {hand : Hand} {answer : Option Message} {err : Option Text}
    (shrinks : Shrinks event s s') (found : s.requests[index]? = some request)
    (had : s.inHand hand index)
    (same : s'.requests = s.requests.set index (request.markDone answer err))
    (left : ∀ other number, s'.inHand other number →
      s.inHand other number ∧ ¬ (other = hand ∧ number = index))
    (requeued : s'.requeued = s.requeued)
    (answered : Answered (events ++ [event]) index (request.markDone answer err)) :
    Sound (events ++ [event]) s' := by
  refine sound.change run shrinks found same rfl rfl ?_ (requeued ▸ sound.requeued) answered
  exact sound.custody.complete had found rfl (fun offered => offered) left

end

/-- A request that the writer holds comes into flight under an ID of its own. -/
theorem Sound.added (had : s.inHand .writer index) (found : s.requests[index]? = some request)
    (room : s.inFlight.size < maxInFlight)
    (reached : Reaches (events ++ [PipelineEvent.add id])
      { s.setRequest index { request with id := id } with
        inFlight := s.inFlight.insert id index
        writer := .writing index { request.q with id := id } }) :
    Sound (events ++ [PipelineEvent.add id])
      { s.setRequest index { request with id := id } with
        inFlight := s.inFlight.insert id index
        writer := .writing index { request.q with id := id } } where
  custody := by
    have replaced : Custody Request.offered Request.closed
        (s.requests.set index { request with id := id }) s.inHand :=
      sound.custody.replace found rfl fun offered => offered
    refine replaced.move had Hand.flight ?_
    intro hand number inHand
    cases hand with
    | writer => cases inHand
    | flight =>
      obtain ⟨other, there⟩ := inHand
      rw [FiniteMap.lookup_insert_ite] at there
      split at there
      · cases there
        exact .inl ⟨rfl, rfl⟩
      · exact .inr ⟨⟨other, there⟩, fun same => absurd same.1 (by decide)⟩
    | _ => exact .inr ⟨inHand, fun same => absurd same.1 (by decide)⟩
  requeued := sound.requeued
  few := (FiniteMap.size_insert_le _ _ _).trans room
  flight other number there := by
    rw [FiniteMap.lookup_insert_ite] at there
    split at there
    · rename_i same
      cases there
      subst same
      refine ⟨{ request with id := other },
        List.getElem?_set_self (List.getElem?_eq_some_iff.mp found).1, rfl, events, [], _, rfl,
        reached, ?_, rfl⟩
      rw [FiniteMap.lookup_insert_ite, if_pos rfl]
    · obtain ⟨old, at_, own, sent⟩ := sound.flight other number there
      have apart : index ≠ number := by
        rintro rfl
        have flying : s.inHand .flight index := ⟨other, there⟩
        cases sound.custody.exclusive had flying
      exact ⟨old, by rw [setRequest, List.getElem?_set_ne apart, at_], own, sent.snoc _⟩
  query number query other sends there := by
    cases sends
    rw [FiniteMap.lookup_insert_ite, if_pos rfl] at there
    exact (Option.some.inj there).symm
  matched number response reader := by
    obtain ⟨old, at_, arrived⟩ := sound.matched number response reader
    have apart : index ≠ number := by
      rintro rfl
      have matched : s.inHand .reader index := ⟨response, reader⟩
      cases sound.custody.exclusive had matched
    exact ⟨old, by rw [setRequest, List.getElem?_set_ne apart, at_], arrived.snoc _⟩
  answered := by
    have kept := (sound.answered index request found).snoc (PipelineEvent.add id)
    exact forall_getElem?_set
      (fun index request => Answered (events ++ [PipelineEvent.add id]) index request)
      ⟨kept.completed, kept.returned⟩ fun other old _ there =>
        (sound.answered other old there).snoc _

end Pipeline

end RouteDns.Transport
