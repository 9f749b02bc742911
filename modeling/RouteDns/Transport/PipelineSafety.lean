import RouteDns.Transport.InFlight

/-!
# Safety of pipelining

Each step of the callers, the main loop, the writer and the reader keeps what is known of the
requests, so that it holds in every interleaving and with every upstream.
-/

namespace RouteDns.Transport.Pipeline

open Dns

section Steps

variable {events : List PipelineEvent} {event : PipelineEvent} {s s' : Pipeline} {index : Nat}
  {request : Request} {a : Message} {id : UInt16}

variable (sound : Sound events s) (run : Reaches events s)
include sound run

/-! ## Callers -/

theorem Sound.resolve (q : Message) :
    Sound (events ++ [PipelineEvent.resolve q])
      { s with requests := s.requests ++ [newRequest q] } := by
  have shrinks : Shrinks (.resolve q) s { s with requests := s.requests ++ [newRequest q] } :=
    .of_eq rfl (.inr rfl) (.inr rfl)
  refine sound.next run shrinks (Extends.concat _ _) (sound.custody.append rfl) sound.requeued ?_
  exact forall_getElem?_concat
    (fun index request => Answered (events ++ [PipelineEvent.resolve q]) index request)
    (answered_newRequest q) fun other old there => (sound.answered other old there).snoc _

theorem Sound.sendTimeout (taken : s.step (.sendTimeout index) = some s') :
    Sound (events ++ [PipelineEvent.sendTimeout index]) s' := by
  obtain ⟨request, found, -, rfl⟩ := callerStep_eq_some taken
  exact sound.callerStep run found (.returned (.error .timeout)) rfl
    (((sound.answered index request found).snoc _).of_caller _ rfl) s.inFlight
    (fun _ _ there => there) (Nat.le_refl _)

theorem Sound.waitTimeout (taken : s.step (.waitTimeout index) = some s') :
    Sound (events ++ [PipelineEvent.waitTimeout index]) s' := by
  obtain ⟨request, found, -, rfl⟩ := callerStep_eq_some taken
  exact sound.callerStep run found .expired rfl
    (((sound.answered index request found).snoc _).of_caller _ rfl) s.inFlight
    (fun _ _ there => there) (Nat.le_refl _)

theorem Sound.delete (taken : s.step (.delete index) = some s') :
    Sound (events ++ [PipelineEvent.delete index]) s' := by
  obtain ⟨request, found, -, rfl⟩ := callerStep_eq_some taken
  have answered := ((sound.answered index request found).snoc (.delete index)).of_caller
    (.returned (.error .timeout)) rfl
  unfold Pipeline.delete
  split
  · exact sound.callerStep run found (.returned (.error .timeout)) rfl answered
      (s.inFlight.erase request.id) (fun _ _ => lookup_of_lookup_erase)
      (FiniteMap.size_erase_le _ _)
  · exact sound.callerStep run found (.returned (.error .timeout)) rfl answered s.inFlight
      (fun _ _ there => there) (Nat.le_refl _)

theorem Sound.wake (taken : s.step (.wake index) = some s') :
    Sound (events ++ [PipelineEvent.wake index]) s' := by
  obtain ⟨request, found, -, rfl⟩ := callerStep_eq_some taken
  split
  · rename_i closed
    exact sound.callerStep run found (.returned request.waitFor) rfl
      (((sound.answered index request found).snoc _).of_waitFor closed) s.inFlight
      (fun _ _ there => there) (Nat.le_refl _)
  · exact sound.pass run (.of_eq rfl (.inr rfl) (.inr rfl)) rfl sound.custody sound.requeued

/-! ## The main loop -/

/-- The main loop goes on without a request. -/
theorem Sound.main_next (main : Main) (free : main.held = none) :
    Sound (events ++ [event]) { s with main := main } := by
  refine sound.pass run (.of_eq rfl (.inr rfl) (.inr rfl)) rfl (sound.custody.fewer ?_)
    sound.requeued
  intro hand number inHand
  cases hand with
  | main => cases free.symm.trans inHand
  | _ => exact inHand

theorem Sound.sendMain (taken : s.step (.sendMain index) = some s') :
    Sound (events ++ [PipelineEvent.sendMain index]) s' := by
  obtain ⟨-, taken⟩ := Option.ite_none_right_eq_some.mp taken
  obtain ⟨request, found, sending, rfl⟩ := callerStep_eq_some taken
  refine sound.change run (.of_eq rfl (.inr rfl) (.inr rfl)) found rfl rfl rfl ?_
    sound.requeued (((sound.answered index request found).snoc _).of_caller _ rfl)
  refine sound.custody.take found (congrArg Caller.offers sending) Bool.false_ne_true rfl
    Hand.main ?_
  intro hand number inHand
  cases hand with
  | main => exact .inl ⟨rfl, (Option.some.inj inHand).symm⟩
  | _ => exact .inr inHand

theorem Sound.requeueMain (taken : s.step (.requeueMain index) = some s') :
    Sound (events ++ [PipelineEvent.requeueMain index]) s' := by
  obtain ⟨⟨-, queued⟩, same⟩ := Option.ite_none_right_eq_some.mp taken
  cases same
  refine sound.pass run (.of_eq rfl (.inr rfl) (.inr rfl)) rfl ?_ (sound.requeued.erase _)
  have had : s.inHand .queue index := queued
  refine sound.custody.move had Hand.main ?_
  intro hand number inHand
  cases hand with
  | main => exact .inl ⟨rfl, (Option.some.inj inHand).symm⟩
  | queue =>
    have remains := sound.requeued.mem_erase_iff.mp inHand
    exact .inr ⟨remains.2, fun same => remains.1 same.2⟩
  | _ => exact .inr ⟨inHand, fun same => absurd same.1 (by decide)⟩

/-- A request for which no connection can be opened is failed. -/
theorem Sound.dialFailed (dialing : s.main = .dialing index)
    (found : s.requests[index]? = some request) (err : Text) :
    Sound (events ++ [event])
      { s.setRequest index (request.markDone none (some err)) with main := .waiting } := by
  have had : s.inHand .main index := by rw [Pipeline.inHand, dialing, Main.held]
  refine sound.completed run (.of_eq rfl (.inr rfl) (.inr rfl)) found had rfl ?_ rfl
    (((sound.answered index request found).snoc _).of_error err)
  intro hand number inHand
  cases hand with
  | main => cases inHand
  | _ => exact ⟨inHand, fun same => absurd same.1 (by decide)⟩

/-- A request for which a connection was opened goes back to the queue; the writer and the reader
of the connection start. -/
theorem Sound.dialed (dialing : s.main = .dialing index) :
    Sound (events ++ [event])
      { s with
        main := .serving
        requeued := s.requeued ++ [index]
        writer := .ready
        reader := .reading
        done := false } := by
  have had : s.inHand .main index := by rw [Pipeline.inHand, dialing, Main.held]
  have absent : index ∉ s.requeued := by
    intro queued
    have both : s.inHand .queue index := queued
    cases sound.custody.exclusive both had
  refine sound.pass run (.of_eq rfl (.inl rfl) (.inl rfl)) rfl ?_ ?_
  · refine sound.custody.move had Hand.queue ?_
    intro hand number inHand
    cases hand with
    | queue =>
      rcases List.mem_append.mp inHand with queued | same
      · exact .inr ⟨queued, fun same => absurd same.1 (by decide)⟩
      · exact .inl ⟨rfl, List.mem_singleton.mp same⟩
    | flight => exact .inr ⟨inHand, fun same => absurd same.1 (by decide)⟩
    | reader =>
      obtain ⟨response, none⟩ := inHand
      cases none
    | _ => cases inHand
  · rw [← List.concat_eq_append]
    exact sound.requeued.concat absent

theorem Sound.dial {err : Option Text} (taken : s.step (.dial err) = some s') :
    Sound (events ++ [PipelineEvent.dial err]) s' := by
  simp only [step] at taken
  split at taken
  · rename_i index err dialing
    obtain ⟨request, found, rfl⟩ := map_markDone_eq_some taken
    exact sound.dialFailed run dialing found err
  · rename_i index dialing
    cases taken
    exact sound.dialed run dialing
  · cases taken

theorem Sound.drain (taken : s.step (.drain id) = some s') :
    Sound (events ++ [PipelineEvent.drain id]) s' := by
  obtain ⟨-, taken⟩ := Option.ite_none_right_eq_some.mp taken
  split at taken
  · cases taken
  · rename_i index rest got
    obtain ⟨there, rfl⟩ := get_eq_some got
    obtain ⟨request, found, rfl⟩ := markDone_eq_some taken
    have had : s.inHand .flight index := ⟨id, there⟩
    refine sound.completed run (.of_erase rfl (.inr rfl) (.inl rfl)) found had rfl ?_ rfl
      (((sound.answered index request found).snoc _).of_error _)
    intro hand number inHand
    cases hand with
    | flight =>
      obtain ⟨flying, other⟩ := sound.erased there inHand
      exact ⟨flying, fun same => other same.2⟩
    | _ => exact ⟨inHand, fun same => absurd same.1 (by decide)⟩

/-! ## The writer -/

/-- The writer goes on with the request and the query that it has, or without. -/
theorem Sound.writer_next (writer : Writer)
    (held : writer.held = none ∨ writer.held = s.writer.held)
    (sends : writer.sends = none ∨ writer.sends = s.writer.sends) :
    Sound (events ++ [event]) { s with writer := writer } := by
  refine sound.pass run (.of_eq rfl sends (.inr rfl)) rfl (sound.custody.fewer ?_) sound.requeued
  intro hand number inHand
  cases hand with
  | writer =>
    rcases held with none | same
    · cases none.symm.trans inHand
    · exact same.symm.trans inHand
  | _ => exact inHand

/-- The writer fails a request that it has. -/
theorem Sound.writer_fails (had : s.inHand .writer index)
    (found : s.requests[index]? = some request) (err : Text) (writer : Writer)
    (free : writer.held = none) (idle : writer.sends = none) :
    Sound (events ++ [event])
      { s.setRequest index (request.markDone none (some err)) with writer := writer } := by
  refine sound.completed run (.of_eq rfl (.inl idle) (.inr rfl)) found had rfl ?_ rfl
    (((sound.answered index request found).snoc _).of_error err)
  intro hand number inHand
  cases hand with
  | writer => cases free.symm.trans inHand
  | _ => exact ⟨inHand, fun same => absurd same.1 (by decide)⟩

theorem Sound.sendWriter (taken : s.step (.sendWriter index) = some s') :
    Sound (events ++ [PipelineEvent.sendWriter index]) s' := by
  obtain ⟨-, taken⟩ := Option.ite_none_right_eq_some.mp taken
  obtain ⟨request, found, sending, rfl⟩ := callerStep_eq_some taken
  refine sound.change run (.of_eq rfl (.inl rfl) (.inr rfl)) found rfl rfl rfl ?_
    sound.requeued (((sound.answered index request found).snoc _).of_caller _ rfl)
  refine sound.custody.take found (congrArg Caller.offers sending) Bool.false_ne_true rfl
    Hand.writer ?_
  intro hand number inHand
  cases hand with
  | writer => exact .inl ⟨rfl, (Option.some.inj inHand).symm⟩
  | _ => exact .inr inHand

theorem Sound.requeueWriter (taken : s.step (.requeueWriter index) = some s') :
    Sound (events ++ [PipelineEvent.requeueWriter index]) s' := by
  obtain ⟨⟨-, queued⟩, same⟩ := Option.ite_none_right_eq_some.mp taken
  cases same
  refine sound.pass run (.of_eq rfl (.inl rfl) (.inr rfl)) rfl ?_ (sound.requeued.erase _)
  have had : s.inHand .queue index := queued
  refine sound.custody.move had Hand.writer ?_
  intro hand number inHand
  cases hand with
  | writer => exact .inl ⟨rfl, (Option.some.inj inHand).symm⟩
  | queue =>
    have remains := sound.requeued.mem_erase_iff.mp inHand
    exact .inr ⟨remains.2, fun same => remains.1 same.2⟩
  | _ => exact .inr ⟨inHand, fun same => absurd same.1 (by decide)⟩

theorem Sound.add (taken : s.step (.add id) = some s') :
    Sound (events ++ [PipelineEvent.add id]) s' := by
  have reached : Reaches (events ++ [PipelineEvent.add id]) s' := run.snoc trivial taken
  simp only [step] at taken
  split at taken
  · rename_i index received
    have held : s.writer.held = some index := by rw [received, Writer.held]
    unfold Pipeline.add at taken
    split at taken
    · cases taken
      exact sound.writer_next run (.full index) (.inr held.symm) (.inl rfl)
    · rename_i room
      split at taken
      · cases taken
      · obtain ⟨request, found, rfl⟩ := Option.map_eq_some_iff.mp taken
        exact sound.added held found (Nat.lt_of_not_le room) reached
  · cases taken

theorem Sound.full (taken : s.step .full = some s') :
    Sound (events ++ [PipelineEvent.full]) s' := by
  simp only [step] at taken
  split at taken
  · rename_i index full
    obtain ⟨request, found, rfl⟩ := map_markDone_eq_some taken
    exact sound.writer_fails run (by rw [Pipeline.inHand, full, Writer.held]) found _ .ready rfl rfl
  · cases taken

theorem Sound.write {err : Option Text} (taken : s.step (.write err) = some s') :
    Sound (events ++ [PipelineEvent.write err]) s' := by
  simp only [step] at taken
  split at taken
  · cases taken
    exact sound.writer_next run .ready (.inl rfl) (.inl rfl)
  · rename_i index query err writing
    cases taken
    exact sound.writer_next run (.failed index query err) (.inl rfl)
      (.inr (by rw [writing, Writer.sends, Writer.sends]))
  · cases taken

theorem Sound.takeBack (taken : s.step .takeBack = some s') :
    Sound (events ++ [PipelineEvent.takeBack]) s' := by
  simp only [step] at taken
  split at taken
  · rename_i index query err failed
    split at taken
    · rename_i rest got
      obtain ⟨-, rfl⟩ := get_eq_none got
      cases taken
      exact sound.writer_next run .ended (.inl rfl) (.inl rfl)
    · rename_i other rest got
      obtain ⟨there, rfl⟩ := get_eq_some got
      cases taken
      -- What is in flight under the ID of the query is the request the query is for.
      have sends : s.writer.sends = some (index, query) := by rw [failed, Writer.sends]
      obtain rfl := sound.query index query other sends there
      have had : s.inHand .flight other := ⟨query.id, there⟩
      refine sound.pass run (.of_erase rfl (.inl rfl) (.inl rfl)) rfl ?_ sound.requeued
      refine sound.custody.move had Hand.writer ?_
      intro hand number inHand
      cases hand with
      | flight =>
        obtain ⟨flying, other⟩ := sound.erased there inHand
        exact .inr ⟨flying, fun same => other same.2⟩
      | writer => exact .inl ⟨rfl, (Option.some.inj inHand).symm⟩
      | _ => exact .inr ⟨inHand, fun same => absurd same.1 (by decide)⟩
  · cases taken

theorem Sound.fail (taken : s.step .fail = some s') :
    Sound (events ++ [PipelineEvent.fail]) s' := by
  simp only [step] at taken
  split at taken
  · rename_i index err failing
    obtain ⟨request, found, rfl⟩ := map_markDone_eq_some taken
    exact sound.writer_fails run (by rw [Pipeline.inHand, failing, Writer.held]) found err .ended
      rfl rfl
  · cases taken

/-! ## The reader -/

theorem Sound.receive (taken : s.step (.receive a) = some s') :
    Sound (events ++ [PipelineEvent.receive a]) s' := by
  simp only [step] at taken
  split at taken
  · split at taken
    · rename_i rest got
      obtain ⟨-, rfl⟩ := get_eq_none got
      cases taken
      exact sound.pass run (.of_eq rfl (.inr rfl) (.inr rfl)) rfl sound.custody sound.requeued
    · rename_i index rest got
      obtain ⟨there, rfl⟩ := get_eq_some got
      cases taken
      have had : s.inHand .flight index := ⟨a.id, there⟩
      refine sound.pass run
        (.of_erase rfl (.inr rfl) (.inr ⟨index, a, rfl, rfl, there⟩)) rfl ?_ sound.requeued
      refine sound.custody.move had Hand.reader ?_
      intro hand number inHand
      cases hand with
      | flight =>
        obtain ⟨flying, other⟩ := sound.erased there inHand
        exact .inr ⟨flying, fun same => other same.2⟩
      | reader =>
        obtain ⟨response, same⟩ := inHand
        exact .inl ⟨rfl, (Prod.mk.inj (Option.some.inj same)).1.symm⟩
      | _ => exact .inr ⟨inHand, fun same => absurd same.1 (by decide)⟩
  · cases taken

theorem Sound.deliver (taken : s.step .deliver = some s') :
    Sound (events ++ [PipelineEvent.deliver]) s' := by
  simp only [step] at taken
  split at taken
  · rename_i index a matched
    have response : s.reader.response = some (index, a) := by rw [matched, Reader.response]
    have had : s.inHand .reader index := ⟨a, response⟩
    obtain ⟨request, found, rfl⟩ := map_markDone_eq_some taken
    obtain ⟨same, there, arrived⟩ := sound.matched index a response
    rw [found] at there
    cases there
    refine sound.completed run (.of_eq rfl (.inr rfl) (.inl rfl)) found had rfl ?_ rfl
      (((sound.answered index request found).snoc _).of_arrived (arrived.snoc _))
    intro hand number inHand
    cases hand with
    | reader =>
      obtain ⟨response, none⟩ := inHand
      cases none
    | _ => exact ⟨inHand, fun same => absurd same.1 (by decide)⟩
  · cases taken

theorem Sound.readError (taken : s.step .readError = some s') :
    Sound (events ++ [PipelineEvent.readError]) s' := by
  simp only [step] at taken
  split at taken
  · cases taken
    refine sound.pass run (.of_eq rfl (.inr rfl) (.inl rfl)) rfl (sound.custody.fewer ?_)
      sound.requeued
    intro hand number inHand
    cases hand with
    | reader =>
      obtain ⟨response, none⟩ := inHand
      cases none
    | _ => exact inHand
  · cases taken

/-! ## Runs -/

theorem Sound.step (taken : s.step event = some s') : Sound (events ++ [event]) s' := by
  cases event with
  | resolve q =>
    cases taken
    exact sound.resolve run q
  | sendTimeout index => exact sound.sendTimeout run taken
  | sendMain index => exact sound.sendMain run taken
  | sendWriter index => exact sound.sendWriter run taken
  | requeueMain index => exact sound.requeueMain run taken
  | requeueWriter index => exact sound.requeueWriter run taken
  | waitTimeout index => exact sound.waitTimeout run taken
  | delete index => exact sound.delete run taken
  | wake index => exact sound.wake run taken
  | dial err => exact sound.dial run taken
  | add id => exact sound.add run taken
  | full => exact sound.full run taken
  | write err => exact sound.write run taken
  | takeBack => exact sound.takeBack run taken
  | fail => exact sound.fail run taken
  | stopWriter =>
    obtain ⟨-, same⟩ := Option.ite_none_right_eq_some.mp taken
    cases same
    exact sound.writer_next run .ended (.inl rfl) (.inl rfl)
  | receive a => exact sound.receive run taken
  | deliver => exact sound.deliver run taken
  | readError => exact sound.readError run taken
  | close =>
    obtain ⟨-, same⟩ := Option.ite_none_right_eq_some.mp taken
    cases same
    exact sound.main_next run .draining rfl
  | drain id => exact sound.drain run taken
  | drained =>
    obtain ⟨-, same⟩ := Option.ite_none_right_eq_some.mp taken
    cases same
    exact sound.main_next run .waiting rfl

end Steps

theorem sound_of_reaches {events : List PipelineEvent} {s : Pipeline} (run : Reaches events s) :
    Sound events s := by
  induction run with
  | nil => exact sound_newPipeline
  | snoc before _ taken sound => exact sound.step before taken

/-! ## Safety -/

/-- The response answers the first question of the query, up to the case of the name.  Queries
without a question are not validated. -/
def AnswersQuestion (q a : Message) : Prop :=
  ∀ question ∈ q.question.head?, ∃ answer ∈ a.question.head?,
    answer.name.map lowerByte = question.name.map lowerByte ∧
      answer.qclass = question.qclass ∧ answer.qtype = question.qtype

theorem answersQuestion_of_valid {q a : Message}
    (valid : Message.validateResponseQuestion q a = .ok ()) : AnswersQuestion q a := by
  intro question first
  unfold Message.validateResponseQuestion at valid
  split at valid
  · rename_i none
    rw [none] at first
    cases first
  · rename_i asked rest questions
    rw [questions] at first
    cases first
    split at valid
    · cases valid
    · rename_i answer more answers
      split at valid
      · rename_i same
        exact ⟨answer, by rw [answers]; rfl, same⟩
      · cases valid

/-- What the callers of a pipeline rely on after some steps. -/
structure Safe (events : List PipelineEvent) (s : Pipeline) : Prop where
  /-- The channel of a request is closed once at most. -/
  once : ∀ (index : Nat) (request : Request), s.requests[index]? = some request →
    request.closed ≤ 1
  /-- A request in flight is there under its own ID only. -/
  own : ∀ (id : UInt16) (index : Nat), s.inFlight.lookup id = some index →
    ∃ request : Request, s.requests[index]? = some request ∧ request.id = id
  distinct : ∀ (first second : Nat) (one two : Request), s.inHand .flight first →
    s.inHand .flight second → s.requests[first]? = some one → s.requests[second]? = some two →
      one.id = two.id → first = second
  few : s.inFlight.size ≤ 65535
  /-- A response that is returned is, but for the ID of the query, one that arrived for it. -/
  answered : ∀ (index : Nat) (request : Request) (response : Message),
    s.requests[index]? = some request → request.caller = .returned (.ok response) →
      ∃ a, Arrived events index request.q a ∧ response = { a with id := request.q.id } ∧
        AnswersQuestion request.q response

theorem Sound.distinct {events : List PipelineEvent} {s : Pipeline} {first second : Nat}
    {one two : Request} (sound : Sound events s) (flying : s.inHand .flight first)
    (flying' : s.inHand .flight second) (found : s.requests[first]? = some one)
    (found' : s.requests[second]? = some two) (same : one.id = two.id) : first = second := by
  obtain ⟨id, there⟩ := flying
  obtain ⟨id', there'⟩ := flying'
  obtain ⟨request, at_, own, -⟩ := sound.flight id first there
  obtain ⟨request', at', own', -⟩ := sound.flight id' second there'
  rw [found] at at_
  rw [found'] at at'
  cases at_
  cases at'
  rw [← own, same, own', there'] at there
  exact (Option.some.inj there).symm

/-- In every interleaving of any number of callers with the main loop, the writer and the reader,
and with every upstream, every request is completed once at most; those in flight have different
IDs and are at most 65535; and a caller returns a response only if it arrived for its request
while that was in flight, under the ID the request was sent with, and answers its question. -/
theorem pipeline_safe (events : List PipelineEvent) (s : Pipeline) (run : Reaches events s) :
    Safe events s := by
  have sound := sound_of_reaches run
  exact {
    once := sound.custody.once
    own := fun id index there => by
      obtain ⟨request, found, own, -⟩ := sound.flight id index there
      exact ⟨request, found, own⟩
    distinct := fun _ _ _ _ flying flying' found found' same =>
      sound.distinct flying flying' found found' same
    few := sound.few
    answered := fun index request response found returned => by
      have responded : request.caller.response = some response := by
        rw [returned, Caller.response]
      obtain ⟨a, arrived, equal, valid⟩ := (sound.answered index request found).returned _ responded
      exact ⟨a, arrived, equal, answersQuestion_of_valid valid⟩ }

def sampleQuery : Message :=
  Message.ofQuestion 4711 (text "example.com.") 1 1

/-- The steps in which a single query is sent with the ID 7 and answered. -/
def singleQuery (q a : Message) : List PipelineEvent :=
  [.resolve q, .sendMain 0, .dial none, .requeueWriter 0, .add 7, .write none, .receive a, .deliver,
    .wake 0]

/-- A response with the ID of the sent query is returned with the ID of the client. -/
theorem single_query_answered :
    ∃ s, Reaches (singleQuery sampleQuery { sampleQuery.reply with id := 7 }) s ∧
      s.requests.map Request.caller = [.returned (.ok sampleQuery.reply)] ∧
      Safe (singleQuery sampleQuery { sampleQuery.reply with id := 7 }) s := by
  have run : Reaches (singleQuery sampleQuery { sampleQuery.reply with id := 7 }) _ :=
    Run.of_foldlM rfl
  exact ⟨_, run, by decide +kernel, pipeline_safe _ _ run⟩

/-- A query without a question is not validated: a response to any other query is returned. -/
theorem unasked_question_returned :
    ∃ s, Reaches (singleQuery Message.empty { sampleQuery.reply with id := 7 }) s ∧
      s.requests.map Request.caller = [.returned (.ok { sampleQuery.reply with id := 0 })] ∧
      Message.empty.question = [] ∧ sampleQuery.reply.question ≠ [] := by
  have run : Reaches (singleQuery Message.empty { sampleQuery.reply with id := 7 }) _ :=
    Run.of_foldlM rfl
  exact ⟨_, run, by decide +kernel, rfl, by decide +kernel⟩

end RouteDns.Transport.Pipeline
