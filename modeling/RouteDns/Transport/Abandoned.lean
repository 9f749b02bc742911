import RouteDns.Transport.PipelineSafety

/-!
# Abandoned requests

A caller that runs out of time takes its request out of flight and returns.  This helps only if
the request is in flight by then.  One that the main loop, the queue or the writer still has on
its way is given an ID later, and nobody waits for it any more.
-/

namespace RouteDns.Transport

open Dns

def Caller.isReturned : Caller → Bool
  | .returned _ => true
  | _ => false

/-- The request that a caller which ran out of time takes out of flight in a step. -/
def PipelineEvent.deletes? : PipelineEvent → Option Nat
  | .delete index => some index
  | _ => none

namespace Pipeline

def callers (s : Pipeline) : List Caller :=
  s.requests.map Request.caller

/-- A request was taken from its caller and is not yet in flight: a connection is opened for it,
it waits to be queued again, or the writer has it and is about to give it an ID. -/
def Entering (s : Pipeline) (index : Nat) : Prop :=
  s.main.held = some index ∨ index ∈ s.requeued ∨ s.writer = .received index

instance (s : Pipeline) (index : Nat) : Decidable (s.Entering index) :=
  inferInstanceAs (Decidable (_ ∨ _))

/-- A request is in flight or on its way there. -/
def Bound (s : Pipeline) (index : Nat) : Prop :=
  s.Entering index ∨ ∃ id, s.inFlight.lookup id = some index

/-- No call gives up while its request is on the way. -/
def Timely (s : Pipeline) (event : PipelineEvent) : Prop :=
  ∀ index ∈ event.deletes?, ¬ s.Entering index

instance (s : Pipeline) (event : PipelineEvent) : Decidable (s.Timely event) :=
  inferInstanceAs (Decidable (∀ index ∈ event.deletes?, ¬ s.Entering index))

/-! ## What a step can do -/

/-- What a step does to the callers and to the requests that are in flight or on their way. -/
inductive Effect (s s' : Pipeline) : PipelineEvent → Prop where
  | arrives (q : Message) (callers : s'.callers = s.callers ++ [.sending])
      (bound : ∀ index, s'.Bound index → s.Bound index) : Effect s s' (.resolve q)
  | quiet {event : PipelineEvent} (callers : s'.callers = s.callers)
      (bound : ∀ index, s'.Bound index → s.Bound index) : Effect s s' event
  | taken {event : PipelineEvent} (index : Nat) (sending : s.callers[index]? = some .sending)
      (callers : s'.callers = s.callers.set index .waiting)
      (bound : ∀ other, s'.Bound other → s.Bound other ∨ other = index) : Effect s s' event
  | unsent (index : Nat) (sending : s.callers[index]? = some .sending) (result : Caller)
      (callers : s'.callers = s.callers.set index result)
      (bound : ∀ other, s'.Bound other → s.Bound other) : Effect s s' (.sendTimeout index)
  | expires (index : Nat) (waiting : s.callers[index]? = some .waiting)
      (callers : s'.callers = s.callers.set index .expired)
      (bound : ∀ other, s'.Bound other → s.Bound other) : Effect s s' (.waitTimeout index)
  | deleted (index : Nat) (request : Request) (found : s.requests[index]? = some request)
      (expired : request.caller = .expired) (result : Caller)
      (callers : s'.callers = s.callers.set index result)
      (entering : ∀ other, s'.Entering other → s.Entering other)
      (fewer : ∀ id other, s'.inFlight.lookup id = some other → s.inFlight.lookup id = some other)
      (gone : s'.inFlight.lookup request.id ≠ some index) : Effect s s' (.delete index)
  | wakes (index : Nat) (request : Request) (found : s.requests[index]? = some request)
      (waiting : request.caller = .waiting) (closed : 0 < request.closed) (result : Caller)
      (callers : s'.callers = s.callers.set index result)
      (bound : ∀ other, s'.Bound other → s.Bound other) : Effect s s' (.wake index)

section Steps

variable {s s' : Pipeline} {event : PipelineEvent} {index : Nat} {request new : Request}
  {caller : Caller}

theorem callers_setRequest (s : Pipeline) (index : Nat) (request : Request) :
    (s.setRequest index request).callers = s.callers.set index request.caller := by
  simp [callers, setRequest, List.map_set]

theorem getElem?_callers (found : s.requests[index]? = some request) :
    s.callers[index]? = some request.caller := by
  simp [callers, found]

theorem exists_request (at_ : s.callers[index]? = some caller) :
    ∃ request, s.requests[index]? = some request ∧ request.caller = caller := by
  rwa [callers, List.getElem?_map, Option.map_eq_some_iff] at at_

/-- A request whose caller stays where it is. -/
theorem callers_setRequest_same (found : s.requests[index]? = some request)
    (same : new.caller = request.caller) : (s.setRequest index new).callers = s.callers := by
  obtain ⟨inside, at_⟩ := List.getElem?_eq_some_iff.mp (getElem?_callers found)
  rw [callers_setRequest, same, ← at_, List.set_getElem_self]

/-- Requests come to where they were, or from one place on the way to the next. -/
theorem bound_imp (main : ∀ index, s'.main.held = some index → s.Bound index)
    (queue : ∀ index ∈ s'.requeued, s.Bound index)
    (writer : ∀ index, s'.writer = .received index → s.Bound index)
    (flight : ∀ id index, s'.inFlight.lookup id = some index → s.Bound index) :
    ∀ index, s'.Bound index → s.Bound index := by
  rintro index ((held | queued | received) | ⟨id, there⟩)
  · exact main index held
  · exact queue index queued
  · exact writer index received
  · exact flight id index there

/-- Only the writer, or the requests in flight, have changed, and there is nothing new. -/
theorem bound_of_writer (main : s'.main.held = none ∨ s'.main.held = s.main.held)
    (queue : s'.requeued = s.requeued)
    (writer : ∀ index, s'.writer ≠ .received index ∨ s'.writer = s.writer)
    (flight : ∀ id index, s'.inFlight.lookup id = some index →
      s.inFlight.lookup id = some index) : ∀ index, s'.Bound index → s.Bound index := by
  refine bound_imp ?_ ?_ ?_ fun id index there => .inr ⟨id, flight id index there⟩
  · intro index held
    rcases main with none | same
    · cases none.symm.trans held
    · exact .inl (.inl (same ▸ held))
  · intro index queued
    exact .inl (.inr (.inl (queue ▸ queued)))
  · intro index received
    rcases writer index with other | same
    · exact absurd received other
    · exact .inl (.inr (.inr (same ▸ received)))

variable {err : Option Text} {id : UInt16}

/-- A request is completed by a part that goes on without it. -/
theorem Effect.completed (found : s.requests[index]? = some request) {answer : Option Message}
    (requests : s'.requests = s.requests.set index (request.markDone answer err))
    (bound : ∀ index, s'.Bound index → s.Bound index) : Effect s s' event := by
  refine .quiet ?_ bound
  have same : s'.callers = (s.setRequest index (request.markDone answer err)).callers := by
    rw [callers, requests, callers, setRequest]
  rw [same]
  exact callers_setRequest_same found rfl

/-! ### Callers -/

theorem Effect.sendTimeout (taken : s.step (.sendTimeout index) = some s') :
    Effect s s' (.sendTimeout index) := by
  obtain ⟨request, found, sending, rfl⟩ := callerStep_eq_some taken
  exact .unsent index (sending ▸ getElem?_callers found) _ (callers_setRequest _ _ _)
    fun _ there => there

theorem Effect.sendMain (taken : s.step (.sendMain index) = some s') :
    Effect s s' (.sendMain index) := by
  obtain ⟨-, taken⟩ := Option.ite_none_right_eq_some.mp taken
  obtain ⟨request, found, sending, rfl⟩ := callerStep_eq_some taken
  refine .taken index (sending ▸ getElem?_callers found) (callers_setRequest _ _ _) ?_
  rintro other ((held | rest) | flying)
  · exact .inr (Option.some.inj held).symm
  · exact .inl (.inl (.inr rest))
  · exact .inl (.inr flying)

theorem Effect.sendWriter (taken : s.step (.sendWriter index) = some s') :
    Effect s s' (.sendWriter index) := by
  obtain ⟨-, taken⟩ := Option.ite_none_right_eq_some.mp taken
  obtain ⟨request, found, sending, rfl⟩ := callerStep_eq_some taken
  refine .taken index (sending ▸ getElem?_callers found) (callers_setRequest _ _ _) ?_
  rintro other ((held | queued | received) | flying)
  · exact .inl (.inl (.inl held))
  · exact .inl (.inl (.inr (.inl queued)))
  · exact .inr (Writer.received.inj received).symm
  · exact .inl (.inr flying)

theorem Effect.waitTimeout (taken : s.step (.waitTimeout index) = some s') :
    Effect s s' (.waitTimeout index) := by
  obtain ⟨request, found, waiting, rfl⟩ := callerStep_eq_some taken
  exact .expires index (waiting ▸ getElem?_callers found) (callers_setRequest _ _ _)
    fun _ there => there

theorem Effect.delete (taken : s.step (.delete index) = some s') :
    Effect s s' (.delete index) := by
  obtain ⟨request, found, expired, rfl⟩ := callerStep_eq_some taken
  unfold Pipeline.delete
  split
  · refine .deleted index request found expired _ (callers_setRequest _ _ _) (fun _ there => there)
      (fun _ _ there => lookup_of_lookup_erase there) ?_
    intro there
    change (s.inFlight.erase request.id).lookup request.id = some index at there
    rw [FiniteMap.lookup_erase_ite, if_pos rfl] at there
    cases there
  · rename_i absent
    exact .deleted index request found expired _ (callers_setRequest _ _ _) (fun _ there => there)
      (fun _ _ there => there) absent

theorem Effect.wake (taken : s.step (.wake index) = some s') : Effect s s' (.wake index) := by
  obtain ⟨request, found, waiting, rfl⟩ := callerStep_eq_some taken
  split
  · rename_i closed
    exact .wakes index request found waiting closed _ (callers_setRequest _ _ _)
      fun _ there => there
  · exact .quiet rfl fun _ there => there

/-! ### The main loop -/

theorem Effect.requeueMain (taken : s.step (.requeueMain index) = some s') :
    Effect s s' (.requeueMain index) := by
  obtain ⟨⟨-, queued⟩, same⟩ := Option.ite_none_right_eq_some.mp taken
  cases same
  refine .quiet rfl (bound_imp ?_ ?_ (fun _ received => .inl (.inr (.inr received)))
    fun id _ there => .inr ⟨id, there⟩)
  · intro other held
    cases held
    exact .inl (.inr (.inl queued))
  · intro other remains
    exact .inl (.inr (.inl (List.mem_of_mem_erase remains)))

theorem Effect.dial (taken : s.step (.dial err) = some s') : Effect s s' (.dial err) := by
  simp only [step] at taken
  split at taken
  · obtain ⟨request, found, rfl⟩ := map_markDone_eq_some taken
    exact .completed found rfl
      (bound_of_writer (.inl rfl) rfl (fun _ => .inr rfl) fun _ _ there => there)
  · rename_i index dialing
    cases taken
    refine .quiet rfl (bound_imp ?_ ?_ ?_ fun id _ there => .inr ⟨id, there⟩)
    · intro other held
      cases held
    · intro other queued
      rcases List.mem_append.mp queued with queued | last
      · exact .inl (.inr (.inl queued))
      · cases List.mem_singleton.mp last
        exact .inl (.inl (by rw [dialing, Main.held]))
    · intro other received
      cases received
  · cases taken

theorem Effect.drain (taken : s.step (.drain id) = some s') : Effect s s' (.drain id) := by
  obtain ⟨-, taken⟩ := Option.ite_none_right_eq_some.mp taken
  split at taken
  · cases taken
  · rename_i index rest got
    obtain ⟨there, rfl⟩ := get_eq_some got
    obtain ⟨request, found, rfl⟩ := markDone_eq_some taken
    exact .completed found rfl (bound_of_writer (.inr rfl) rfl (fun _ => .inr rfl)
      fun _ _ there => lookup_of_lookup_erase there)

/-! ### The writer -/

theorem Effect.requeueWriter (taken : s.step (.requeueWriter index) = some s') :
    Effect s s' (.requeueWriter index) := by
  obtain ⟨⟨-, queued⟩, same⟩ := Option.ite_none_right_eq_some.mp taken
  cases same
  refine .quiet rfl (bound_imp (fun _ held => .inl (.inl held)) ?_ ?_
    fun id _ there => .inr ⟨id, there⟩)
  · intro other remains
    exact .inl (.inr (.inl (List.mem_of_mem_erase remains)))
  · intro other received
    cases received
    exact .inl (.inr (.inl queued))

/-- The writer goes on, and may take a request out of flight. -/
theorem Effect.writer_next (writer : Writer) (idle : ∀ index, writer ≠ .received index)
    {inFlight : FiniteMap UInt16 Nat}
    (fewer : ∀ id index, inFlight.lookup id = some index → s.inFlight.lookup id = some index) :
    Effect s { s with writer := writer, inFlight := inFlight } event :=
  .quiet rfl (bound_of_writer (.inr rfl) rfl (fun index => .inl (idle index)) fewer)

theorem Effect.add (taken : s.step (.add id) = some s') : Effect s s' (.add id) := by
  simp only [step] at taken
  split at taken
  · rename_i index received
    unfold Pipeline.add at taken
    split at taken
    · cases taken
      exact .writer_next (.full index) (fun _ => by simp) fun _ _ there => there
    · split at taken
      · cases taken
      · obtain ⟨request, found, rfl⟩ := Option.map_eq_some_iff.mp taken
        refine .quiet (callers_setRequest_same found rfl) (bound_imp
          (fun _ held => .inl (.inl held)) (fun _ queued => .inl (.inr (.inl queued))) ?_ ?_)
        · intro other same
          cases same
        · intro given other there
          rw [FiniteMap.lookup_insert_ite] at there
          split at there
          · cases there
            exact .inl (.inr (.inr received))
          · exact .inr ⟨given, there⟩
  · cases taken

theorem Effect.writer_fails {err : Text} (found : s.requests[index]? = some request)
    (writer : Writer) (idle : ∀ index, writer ≠ .received index) :
    Effect s { s.setRequest index (request.markDone none (some err)) with writer := writer }
      event :=
  .completed found rfl
    (bound_of_writer (.inr rfl) rfl (fun index => .inl (idle index)) fun _ _ there => there)

theorem Effect.full (taken : s.step .full = some s') : Effect s s' .full := by
  simp only [step] at taken
  split at taken
  · obtain ⟨request, found, rfl⟩ := map_markDone_eq_some taken
    exact .writer_fails found .ready fun _ => by simp
  · cases taken

theorem Effect.write (taken : s.step (.write err) = some s') : Effect s s' (.write err) := by
  simp only [step] at taken
  split at taken
  · cases taken
    exact .writer_next .ready (fun _ => by simp) fun _ _ there => there
  · rename_i index query err writing
    cases taken
    exact .writer_next (.failed index query err) (fun _ => by simp)
      fun _ _ there => there
  · cases taken

theorem Effect.takeBack (taken : s.step .takeBack = some s') : Effect s s' .takeBack := by
  simp only [step] at taken
  split at taken
  · rename_i index query err failed
    split at taken
    · rename_i rest got
      obtain ⟨-, rfl⟩ := get_eq_none got
      cases taken
      exact .writer_next .ended (fun _ => by simp) fun _ _ there => there
    · rename_i other rest got
      obtain ⟨-, rfl⟩ := get_eq_some got
      cases taken
      exact .writer_next (.failing index err) (fun _ => by simp)
        fun _ _ there => lookup_of_lookup_erase there
  · cases taken

theorem Effect.fail (taken : s.step .fail = some s') : Effect s s' .fail := by
  simp only [step] at taken
  split at taken
  · obtain ⟨request, found, rfl⟩ := map_markDone_eq_some taken
    exact .writer_fails found .ended fun _ => by simp
  · cases taken

/-! ### The reader -/

theorem Effect.receive {a : Message} (taken : s.step (.receive a) = some s') :
    Effect s s' (.receive a) := by
  simp only [step] at taken
  split at taken
  · split at taken
    · rename_i rest got
      obtain ⟨-, rfl⟩ := get_eq_none got
      cases taken
      exact .quiet rfl fun _ there => there
    · rename_i index rest got
      obtain ⟨-, rfl⟩ := get_eq_some got
      cases taken
      exact .quiet rfl (bound_of_writer (.inr rfl) rfl (fun _ => .inr rfl)
        fun _ _ there => lookup_of_lookup_erase there)
  · cases taken

theorem Effect.deliver (taken : s.step .deliver = some s') : Effect s s' .deliver := by
  simp only [step] at taken
  split at taken
  · obtain ⟨request, found, rfl⟩ := map_markDone_eq_some taken
    exact .completed found rfl
      (bound_of_writer (.inr rfl) rfl (fun _ => .inr rfl) fun _ _ there => there)
  · cases taken

theorem Effect.of_step (taken : s.step event = some s') : Effect s s' event := by
  cases event with
  | resolve q =>
    cases taken
    exact .arrives q (by simp [callers, newRequest]) fun _ there => there
  | sendTimeout index => exact .sendTimeout taken
  | sendMain index => exact .sendMain taken
  | sendWriter index => exact .sendWriter taken
  | requeueMain index => exact .requeueMain taken
  | requeueWriter index => exact .requeueWriter taken
  | waitTimeout index => exact .waitTimeout taken
  | delete index => exact .delete taken
  | wake index => exact .wake taken
  | dial err => exact .dial taken
  | add id => exact .add taken
  | full => exact .full taken
  | write err => exact .write taken
  | takeBack => exact .takeBack taken
  | fail => exact .fail taken
  | stopWriter =>
    obtain ⟨-, same⟩ := Option.ite_none_right_eq_some.mp taken
    cases same
    exact .writer_next .ended (fun _ => by simp) fun _ _ there => there
  | receive a => exact .receive taken
  | deliver => exact .deliver taken
  | readError =>
    simp only [step] at taken
    split at taken
    · cases taken
      exact .quiet rfl fun _ there => there
    · cases taken
  | close =>
    obtain ⟨-, same⟩ := Option.ite_none_right_eq_some.mp taken
    cases same
    exact .quiet rfl (bound_of_writer (.inl rfl) rfl (fun _ => .inr rfl) fun _ _ there => there)
  | drain id => exact .drain taken
  | drained =>
    obtain ⟨-, same⟩ := Option.ite_none_right_eq_some.mp taken
    cases same
    exact .quiet rfl (bound_of_writer (.inl rfl) rfl (fun _ => .inr rfl) fun _ _ there => there)

end Steps

/-! ## Runs -/

section Runs

variable {s s' : Pipeline} {event : PipelineEvent} {events : List PipelineEvent} {index : Nat}
  {caller : Caller}

/-- A caller that has returned stays where it is. -/
theorem Effect.returned_stays (effect : Effect s s' event)
    (at_ : s.callers[index]? = some caller) (returned : caller.isReturned = true) :
    s'.callers[index]? = some caller := by
  -- callers move on from places before the end only
  have kept : ∀ other place moved, s.callers[other]? = some place → place.isReturned = false →
      (s.callers.set other moved)[index]? = some caller := by
    intro other place moved there running
    rw [List.getElem?_set_ne, at_]
    rintro rfl
    rw [at_] at there
    cases there
    rw [returned] at running
    cases running
  cases effect with
  | arrives q callers bound =>
    rw [callers, List.getElem?_append_left (List.getElem?_eq_some_iff.mp at_).1, at_]
  | quiet callers bound => rw [callers, at_]
  | taken other sending callers bound | unsent other sending result callers bound =>
    rw [callers, kept other _ _ sending rfl]
  | expires other waiting callers bound => rw [callers, kept other _ _ waiting rfl]
  | deleted other request found expired result callers entering fewer gone =>
    rw [callers, kept other _ _ (getElem?_callers found) (by rw [expired]; rfl)]
  | wakes other request found waiting closed result callers bound =>
    rw [callers, kept other _ _ (getElem?_callers found) (by rw [waiting]; rfl)]

/-- No call that has returned has a request in flight or on the way. -/
def Settled (s : Pipeline) : Prop :=
  ∀ index caller, s.callers[index]? = some caller → caller.isReturned = true → ¬ s.Bound index

/-- A request in flight or on the way is in some hand. -/
theorem inHand_of_bound (bound : s.Bound index) : ∃ hand, s.inHand hand index := by
  rcases bound with (held | queued | received) | flying
  · exact ⟨.main, held⟩
  · exact ⟨.queue, queued⟩
  · exact ⟨.writer, by rw [inHand, received, Writer.held]⟩
  · exact ⟨.flight, flying⟩

/-- So its caller has handed it over, and it is not completed. -/
theorem Sound.open_of_bound (sound : Sound events s) (bound : s.Bound index) {request : Request}
    (found : s.requests[index]? = some request) :
    request.caller ≠ .sending ∧ request.closed = 0 := by
  obtain ⟨hand, inHand⟩ := inHand_of_bound bound
  obtain ⟨same, there, notOffered, unfinished⟩ := sound.custody.taken hand index inHand
  rw [found] at there
  cases there
  refine ⟨fun sending => notOffered ?_, unfinished⟩
  rw [Request.offered, sending]
  rfl

/-- One caller goes on; if it returns, its request has to be settled. -/
theorem Settled.set (settled : Settled s) {moved : Caller}
    (callers : s'.callers = s.callers.set index moved)
    (bound : ∀ other, s'.Bound other → s.Bound other ∨ other = index)
    (own : moved.isReturned = true → ¬ s'.Bound index) : Settled s' := by
  intro other caller at_ returned there
  by_cases same : other = index
  · subst same
    rw [callers, List.getElem?_set] at at_
    split at at_
    · split at at_
      · cases at_
        exact own returned there
      · cases at_
    · rename_i apart
      exact apart rfl
  · rw [callers, List.getElem?_set_ne (Ne.symm same)] at at_
    rcases bound other there with before | equal
    · exact settled other caller at_ returned before
    · exact same equal

theorem Settled.step (settled : Settled s) (sound : Sound events s) (timely : s.Timely event)
    (effect : Effect s s' event) : Settled s' := by
  cases effect with
  | arrives q callers bound =>
    unfold Settled
    rw [callers]
    refine forall_getElem?_concat
      (fun index (caller : Caller) => caller.isReturned = true → ¬ s'.Bound index) ?_ ?_
    · intro returned
      cases returned
    · intro index caller at_ returned there
      exact settled index caller at_ returned (bound index there)
  | quiet callers bound =>
    intro index caller at_ returned there
    exact settled index caller (callers ▸ at_) returned (bound index there)
  | taken index sending callers bound =>
    refine settled.set callers bound fun returned => ?_
    cases returned
  | unsent index sending result callers bound =>
    refine settled.set callers (fun other there => .inl (bound other there)) fun _ there => ?_
    obtain ⟨request, found, same⟩ := exists_request sending
    exact (sound.open_of_bound (bound index there) found).1 same
  | expires index waiting callers bound =>
    refine settled.set callers (fun other there => .inl (bound other there)) fun returned => ?_
    cases returned
  | deleted index request found expired result callers entering fewer gone =>
    refine settled.set callers ?_ ?_
    · rintro other (there | ⟨id, there⟩)
      · exact .inl (.inl (entering other there))
      · exact .inl (.inr ⟨id, fewer id other there⟩)
    · rintro - (there | ⟨id, there⟩)
      · exact timely index rfl (entering index there)
      · -- in flight it was under its own ID, and there it is gone
        obtain ⟨same, at_, own, -⟩ := sound.flight id index (fewer id index there)
        rw [found] at at_
        cases at_
        exact gone (own ▸ there)
  | wakes index request found waiting closed result callers bound =>
    refine settled.set callers (fun other there => .inl (bound other there)) fun _ there => ?_
    exact closed.ne' (sound.open_of_bound (bound index there) found).2

theorem settled_of_run (run : Run step Timely newPipeline events s) : Settled s := by
  induction run with
  | nil =>
    intro index caller at_
    cases at_
  | snoc before timely taken settled =>
    have sound := sound_of_reaches (before.weaken fun _ _ _ => trivial)
    exact settled.step sound timely (Effect.of_step taken)

theorem returned_stays {more : List PipelineEvent} (rest : Run step Timely s more s')
    (at_ : s.callers[index]? = some caller) (returned : caller.isReturned = true) :
    s'.callers[index]? = some caller := by
  induction rest with
  | nil => exact at_
  | snoc _ _ taken before => exact (Effect.of_step taken).returned_stays before returned

end Runs

/-- In every interleaving in which no call gives up while its request is on the way: once a call
has returned, with whatever result, its request is not in flight, at no time later. -/
theorem abandoned_not_in_flight {events more : List PipelineEvent} {s later : Pipeline}
    (run : Run step Timely newPipeline events s) (rest : Run step Timely s more later)
    {index : Nat} {request : Request} (found : s.requests[index]? = some request)
    (returned : request.caller.isReturned = true) (id : UInt16) :
    later.inFlight.lookup id ≠ some index := by
  intro there
  have still := returned_stays rest (getElem?_callers found) returned
  exact settled_of_run (run.append rest) index _ still returned (.inr ⟨id, there⟩)

/-- A call that gives up after its request was sent. -/
def abandonedInFlight : List PipelineEvent :=
  [.resolve sampleQuery, .sendMain 0, .dial none, .requeueWriter 0, .add 7, .write none,
    .waitTimeout 0, .delete 0]

theorem abandoned_in_flight_removed :
    ∃ s, Run step Timely newPipeline abandonedInFlight s ∧
      s.callers = [.returned (.error .timeout)] ∧ s.inFlight.lookup 7 ≠ some 0 := by
  have run : Run step Timely newPipeline abandonedInFlight _ := Run.of_foldlM rfl
  exact ⟨_, run, rfl, abandoned_not_in_flight run .nil rfl rfl 7⟩

/-- A call that gives up while the connection for its request is opened. -/
def abandonedDialing : List PipelineEvent :=
  [.resolve sampleQuery, .sendMain 0, .waitTimeout 0, .delete 0, .dial none, .requeueWriter 0,
    .add 7, .write none]

/-- A call that gives up when the writer has taken its request from the queue. -/
def abandonedReceived : List PipelineEvent :=
  [.resolve sampleQuery, .sendMain 0, .dial none, .requeueWriter 0, .waitTimeout 0, .delete 0,
    .add 7, .write none]

/-- Both requests come into flight after the call has returned, on a connection that stays
open. -/
theorem abandoned_then_in_flight :
    (∃ s, Reaches abandonedDialing s ∧ s.callers = [.returned (.error .timeout)] ∧
      s.inFlight.lookup 7 = some 0 ∧ s.writer = .ready ∧ s.reader = .reading) ∧
    ∃ s, Reaches abandonedReceived s ∧ s.callers = [.returned (.error .timeout)] ∧
      s.inFlight.lookup 7 = some 0 ∧ s.writer = .ready ∧ s.reader = .reading := by
  have dialing : Reaches abandonedDialing _ := Run.of_foldlM rfl
  have received : Reaches abandonedReceived _ := Run.of_foldlM rfl
  exact ⟨⟨_, dialing, rfl, rfl, rfl, rfl⟩, ⟨_, received, rfl, rfl, rfl, rfl⟩⟩

end Pipeline

end RouteDns.Transport
