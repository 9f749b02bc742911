import RouteDns.Dns.Message
import RouteDns.Dnssec.NameOrder
import RouteDns.Dnssec.Response

/-!
# The validating resolver

`DNSSECValidator.Resolve` sends a query upstream with the DNSSEC OK bit set, validates the
response and passes it on without the DNSSEC records the client did not ask for.  The
resolver it asks also serves the lookups of the validator.

The authenticated-data bit of what it returns is compared with the verdict of the
validator.
-/

namespace RouteDns.Dnssec

open Dns Program

/-- The validator's view of a message.  The names of questions come off the wire, so they
spell domain names. -/
def messageSeen (msg : Message) : Msg where
  rcode := msg.rcode
  question := msg.question.map fun question =>
    { qname := (spelledName question.name).getD .top
      qtype := question.qtype
      qclass := question.qclass }
  answer := msg.answer.map Record.toRR
  ns := msg.ns.map Record.toRR

/-- The message of a lookup of the validator. -/
def lookupMessage (query : Query) (id : UInt16) : Message :=
  { (Message.ofQuestion id query.name query.qtype query.qclass).setEdns0 query.udpSize
      query.dnssecOk with checkingDisabled := query.checkingDisabled }

/-- What a resolver returns. -/
structure Reply where
  answer : Option Message
  err : Option Text
  deriving DecidableEq

/-- A response without an error. -/
def Reply.answered (answer : Message) : Reply where
  answer := some answer
  err := none

/-- The resolver behind, the clock, the order of walks over maps and the source of message
IDs. -/
structure Upstream (ω : Type) where
  resolve : Message → ω → Reply × ω
  now : ω → Time × ω
  rangeOrder : (keys : List RRsetKey) → ω → { order : List RRsetKey // order.Perm keys } × ω
  messageId : ω → UInt16 × ω

variable (dns : Library) {ω : Type} (upstream : Upstream ω)

/-- The surroundings of the validator inside the resolver.  A dropped lookup becomes an
error. -/
def Upstream.world : World ω where
  resolver query state :=
    let fresh := upstream.messageId state
    let sent := upstream.resolve (lookupMessage query fresh.1) fresh.2
    (match sent.1 with
      | { answer := _, err := some message } => .error message
      | { answer := none, err := none } =>
        .error (dns.typeToString query.qtype ++ text " lookup for " ++ quoted query.name ++
          text " dropped by resolver")
      | { answer := some answer, err := none } => .ok (messageSeen answer), sent.2)
  now := upstream.now
  rangeOrder := upstream.rangeOrder

namespace DNSSECValidator

/-- Remove signatures and denials from a section, except those that were asked for. -/
def filterDNSSECRR (records : List Record) (qtype : UInt16) : List Record :=
  records.filter fun record =>
    record.asOPT?.isSome || record.header.rrtype = qtype ||
      !(record.header.rrtype = typeRRSIG || record.header.rrtype = typeNSEC ||
        record.header.rrtype = typeNSEC3)

/-- Remove what the client did not ask for. -/
def stripDNSSEC (answer : Message) (clientSetDo clientHadEdns0 : Bool) (qtype : UInt16) :
    Message :=
  if clientSetDo then
    answer
  else
    let extra := filterDNSSECRR answer.extra qtype
    { answer with
      answer := filterDNSSECRR answer.answer qtype
      ns := filterDNSSECRR answer.ns qtype
      extra :=
        if clientHadEdns0 then Message.updateLastOPT OPT.clearDo extra
        else extra.filter fun record => record.asOPT?.isNone }

/-- The query with the DNSSEC OK bit set. -/
def upstreamQuery (q : Message) : Message :=
  match q.isEdns0 with
  | none => q.setEdns0 4096 true
  | some _ =>
    { q with extra := Message.updateLastOPT (fun opt => (opt.setUDPSize 4096).setDo) q.extra }

/-- Pass a query on. -/
def ask (q : Message) : Action ω Reply :=
  Program.step fun session =>
    let sent := upstream.resolve q session.world
    (sent.1, { session with world := sent.2 })

/-- The response to a query whose response from upstream got a verdict. -/
def afterVerdict (logOnly : Bool) (q answer : Message) (strip : Message → Message) :
    Except Err Unit → Message
  | .ok () => strip { answer with authenticatedData := true }
  | .error failure =>
    if failure.is .insecureDelegation then strip answer
    else if logOnly then strip answer
    else q.servfail

/-- Validate what upstream replied, unless there is no response or its code is one of a
failure. -/
def finish (logOnly : Bool) (q : Message) (qtype : UInt16) : Reply → Action ω Reply
  | { answer := some answer, err := none } => do
    let strip := fun answer =>
      stripDNSSEC answer (q.isEdns0.any OPT.dnssecOk) q.isEdns0.isSome qtype
    if answer.rcode ≠ rcodeSuccess ∧ answer.rcode ≠ rcodeNameError then
      pure (.answered (strip answer))
    else do
      let verdict ← (validate dns (upstream.world dns) (messageSeen answer)).attempt
      pure (.answered (afterVerdict logOnly q answer strip verdict))
  | reply => pure reply

/-- Resolve a query, then validate the response.  A query without a question makes the
resolver panic. -/
def resolve (logOnly : Bool) (q : Message) : Action ω Reply :=
  match q.question with
  | [] => Program.fail (.plain (text "runtime error: index out of range [0] with length 0"))
  | question :: _ => do
    let reply ← ask upstream (upstreamQuery q)
    finish dns upstream logOnly q question.qtype reply

@[simp]
theorem stripDNSSEC_authenticatedData (answer : Message) (clientSetDo clientHadEdns0 : Bool)
    (qtype : UInt16) :
    (stripDNSSEC answer clientSetDo clientHadEdns0 qtype).authenticatedData =
      answer.authenticatedData := by
  unfold stripDNSSEC
  split <;> rfl

/-- What upstream replied to a query, and the session at that point. -/
def forwarded (q : Message) (session : Session ω) : Reply × Session ω :=
  let sent := upstream.resolve (upstreamQuery q) session.world
  (sent.1, { session with world := sent.2 })

/-- The response codes that are validated. -/
def IsValidated (answer : Message) : Prop :=
  answer.rcode = rcodeSuccess ∨ answer.rcode = rcodeNameError

instance (answer : Message) : Decidable (IsValidated answer) :=
  inferInstanceAs (Decidable (_ ∨ _))

theorem isValidated_iff (answer : Message) :
    IsValidated answer ↔ ¬ (answer.rcode ≠ rcodeSuccess ∧ answer.rcode ≠ rcodeNameError) := by
  simp only [IsValidated, not_and_or, not_not]

/-- The verdict on the response from upstream. -/
def verdictOn (q : Message) (session : Session ω) (answer : Message) : Except Err Unit :=
  (validate dns (upstream.world dns) (messageSeen answer)).result (forwarded upstream q session).2

/-- The response from upstream was validated and accepted. -/
def Accepted (q : Message) (session : Session ω) : Prop :=
  ∃ answer, (forwarded upstream q session).1 = .answered answer ∧ IsValidated answer ∧
    verdictOn dns upstream q session answer = .ok ()

/-- The response from upstream was validated and replaced. -/
def Replaced (logOnly : Bool) (q : Message) (session : Session ω) : Prop :=
  logOnly = false ∧ ∃ answer, (forwarded upstream q session).1 = .answered answer ∧
    IsValidated answer ∧ ∃ failure, verdictOn dns upstream q session answer = .error failure ∧
      failure.is .insecureDelegation = false

/-- The authenticated-data bit of a response to a validated one. -/
theorem afterVerdict_authenticatedData (logOnly : Bool) (q answer : Message)
    (clientSetDo clientHadEdns0 : Bool) (qtype : UInt16) (verdict : Except Err Unit) :
    (afterVerdict logOnly q answer
        (fun answer => stripDNSSEC answer clientSetDo clientHadEdns0 qtype)
        verdict).authenticatedData =
      match verdict with
      | .ok () => true
      | .error failure =>
        (failure.is .insecureDelegation || logOnly) && answer.authenticatedData := by
  rcases verdict with failure | ⟨⟩
  · cases insecure : failure.is .insecureDelegation <;> cases logOnly <;>
      simp [afterVerdict, insecure, Message.servfail, Message.responseWithCode, Message.reply,
        Message.empty]
  · simp [afterVerdict]

section Answered

variable {dns upstream} {q : Message} {session : Session ω} {answer : Message}
  (replied : (forwarded upstream q session).1 = .answered answer)

include replied

theorem accepted_iff : Accepted dns upstream q session ↔
    IsValidated answer ∧ verdictOn dns upstream q session answer = .ok () := by
  constructor
  · rintro ⟨other, same, accepted⟩
    obtain rfl : answer = other := by simpa [Reply.answered] using replied.symm.trans same
    exact accepted
  · exact fun accepted => ⟨answer, replied, accepted⟩

theorem replaced_iff (logOnly : Bool) : Replaced dns upstream logOnly q session ↔
    logOnly = false ∧ IsValidated answer ∧ ∃ failure,
      verdictOn dns upstream q session answer = .error failure ∧
        failure.is .insecureDelegation = false := by
  refine and_congr_right fun _ => ?_
  constructor
  · rintro ⟨other, same, replaced⟩
    obtain rfl : answer = other := by simpa [Reply.answered] using replied.symm.trans same
    exact replaced
  · exact fun replaced => ⟨answer, replied, replaced⟩

end Answered

/-- A reply with an error or without a response is neither accepted nor replaced. -/
theorem not_accepted_of_unanswered {q : Message} {session : Session ω}
    (unanswered : ∀ answer, (forwarded upstream q session).1 ≠ .answered answer) (logOnly : Bool) :
    ¬ Accepted dns upstream q session ∧ ¬ Replaced dns upstream logOnly q session :=
  ⟨fun ⟨answer, replied, _⟩ => unanswered answer replied,
    fun ⟨_, answer, replied, _⟩ => unanswered answer replied⟩

/-- The response to one from upstream carries the bit if the validator accepts, and
otherwise only if upstream set it and the response is passed on. -/
theorem finish_authenticatedData (logOnly : Bool) (q answer : Message) (qtype : UInt16)
    (session : Session ω) :
    ∃ response, (finish dns upstream logOnly q qtype (.answered answer)).result session =
        .ok (.answered response) ∧
      (response.authenticatedData = true ↔
        if IsValidated answer then
          match (validate dns (upstream.world dns) (messageSeen answer)).result session with
          | .ok () => True
          | .error failure => (failure.is .insecureDelegation = true ∨ logOnly = true) ∧
              answer.authenticatedData = true
        else answer.authenticatedData = true) := by
  have finished : finish dns upstream logOnly q qtype (.answered answer) =
      if answer.rcode ≠ rcodeSuccess ∧ answer.rcode ≠ rcodeNameError then
        pure (.answered (stripDNSSEC answer (q.isEdns0.any OPT.dnssecOk) q.isEdns0.isSome qtype))
      else (validate dns (upstream.world dns) (messageSeen answer)).attempt >>= fun verdict =>
        pure (.answered (afterVerdict logOnly q answer (fun answer =>
          stripDNSSEC answer (q.isEdns0.any OPT.dnssecOk) q.isEdns0.isSome qtype) verdict)) := rfl
  rw [finished]
  by_cases validated : IsValidated answer
  · rw [if_neg ((isValidated_iff answer).mp validated), if_pos validated]
    refine ⟨_, rfl, ?_⟩
    rw [afterVerdict_authenticatedData]
    change (match (validate dns (upstream.world dns) (messageSeen answer)).result session with
      | .ok () => true
      | .error failure =>
        (failure.is .insecureDelegation || logOnly) && answer.authenticatedData) = true ↔ _
    rcases (validate dns (upstream.world dns) (messageSeen answer)).result session with
      failure | ⟨⟩ <;> simp
  · rw [if_pos (not_not.mp (mt (isValidated_iff answer).mpr validated)), if_neg validated]
    exact ⟨_, rfl, by rw [stripDNSSEC_authenticatedData]⟩

/-- The authenticated-data bit of every response tells whether the response from upstream
was validated and accepted, exactly if there is no response, or it was accepted, or it was
replaced, or upstream left the bit clear. -/
theorem authenticated_data_iff (logOnly : Bool) (q : Message) (session : Session ω) :
    (∀ reply, (resolve dns upstream logOnly q).result session = .ok reply →
        ∀ response, reply.answer = some response →
          (response.authenticatedData = true ↔ Accepted dns upstream q session)) ↔
      (q.question = [] ∨ Accepted dns upstream q session ∨
        Replaced dns upstream logOnly q session ∨
        ∀ answer, (forwarded upstream q session).1.answer = some answer →
          answer.authenticatedData = false) := by
  rcases asked : q.question with _ | ⟨question, rest⟩
  · have panics : (resolve dns upstream logOnly q).result session = .error
        (.plain (text "runtime error: index out of range [0] with length 0")) := by
      rw [resolve, asked]
      rfl
    simp [panics]
  · have finished : (resolve dns upstream logOnly q).result session =
        (finish dns upstream logOnly q question.qtype (forwarded upstream q session).1).result
          (forwarded upstream q session).2 := by
      rw [resolve, asked]
      rfl
    rw [finished]
    by_cases answered : ∃ answer, (forwarded upstream q session).1 = .answered answer
    · obtain ⟨answer, replied⟩ := answered
      obtain ⟨response, returned, bit⟩ := finish_authenticatedData dns upstream logOnly q answer
        question.qtype (forwarded upstream q session).2
      rw [accepted_iff replied, replaced_iff replied, replied, returned]
      simp only [Except.ok.injEq, forall_eq', Reply.answered, Option.some.injEq, bit, reduceCtorEq,
        false_or]
      change _ ↔ _ ∨ (_ ∧ _ ∧ ∃ failure, verdictOn dns upstream q session answer = _ ∧ _) ∨ _
      unfold verdictOn
      by_cases validated : IsValidated answer
      · rcases (validate dns (upstream.world dns) (messageSeen answer)).result
          (forwarded upstream q session).2 with failure | ⟨⟩
        · cases insecure : failure.is .insecureDelegation <;> cases logOnly <;>
            simp [validated, insecure]
        · simp [validated]
      · simp [validated]
    · -- An error or a dropped query is passed on as it is.
      have passed : (finish dns upstream logOnly q question.qtype
          (forwarded upstream q session).1).result (forwarded upstream q session).2 =
            .ok (forwarded upstream q session).1 := by
        rcases replied : (forwarded upstream q session).1 with ⟨_ | answer, _ | message⟩
        · rfl
        · rfl
        · exact absurd ⟨answer, replied⟩ answered
        · rfl
      obtain ⟨notAccepted, notReplaced⟩ := not_accepted_of_unanswered dns upstream
        (fun answer replied => answered ⟨answer, replied⟩) logOnly
      simp [passed, notAccepted, notReplaced]

/-- A response with the authenticated-data bit as given. -/
def markedResponse (marked : Bool) (response : Msg) : Message :=
  { Message.empty with
    response := true
    authenticatedData := marked
    rcode := response.rcode
    answer := response.answer.map .rr
    ns := response.ns.map .rr }

/-- A resolver in front of the sample delegations that gives one response to every query
for addresses and sets the bit as given. -/
def markingUpstream (marked : Bool) (response : Msg) : Upstream Orders where
  resolve query orders :=
    (match query.question with
      | [{ name := name, qtype := 43, qclass := _ }] =>
        match delegationsUpstream (.dnssec name typeDS) with
        | .ok found => .answered (markedResponse marked found)
        | .error message => { answer := none, err := some message }
      | _ => .answered (markedResponse marked response), orders)
  now orders := (sampleTime, orders)
  rangeOrder keys orders := (orders 0 keys, fun step => orders (step + 1))
  messageId orders := (0, orders)

/-- A query for the address of a name. -/
def addressQuery (name : DomainName) : Message :=
  .ofQuestion 0 name.print 1 classINET

theorem unmarked_response_unmarked :
    ∀ response, (Reply.answered (markedResponse false
          (responseOf rcodeSuccess openHeader.owner [Reference.addressOf openHeader]))).answer =
        some response →
      (response.authenticatedData = true ↔ Accepted reference (markingUpstream false
        (responseOf rcodeSuccess openHeader.owner [Reference.addressOf openHeader]))
          (addressQuery openHeader.owner) (standing sampleStore)) :=
  (authenticated_data_iff reference (markingUpstream false
    (responseOf rcodeSuccess openHeader.owner [Reference.addressOf openHeader])) false
    (addressQuery openHeader.owner) (standing sampleStore)).mpr
    (.inr (.inr (.inr (by rintro _ ⟨⟩; rfl)))) _ (by decide +kernel)

/-- A response from upstream reaches the client with the authenticated-data bit although
the validator did not accept it. -/
def Smuggles (logOnly : Bool) (q : Message) (response : Msg) : Prop :=
  (resolve reference (markingUpstream true response) logOnly q).result (standing sampleStore) =
      .ok (.answered (markedResponse true response)) ∧
    ¬ (IsValidated (markedResponse true response) ∧
      verdictOn reference (markingUpstream true response) q (standing sampleStore)
        (markedResponse true response) = .ok ())

instance (logOnly : Bool) (q : Message) (response : Msg) :
    Decidable (Smuggles logOnly q response) :=
  inferInstanceAs (Decidable (_ ∧ ¬ (_ ∧ _)))

/-- The bit gets through on a response that is not validated, on an insecure one, and on a
bogus one in log-only mode. -/
theorem upstream_bit_reaches_client :
    Smuggles false (addressQuery safeHeader.owner) (responseOf rcodeRefused safeHeader.owner []) ∧
      Smuggles false (addressQuery openHeader.owner)
        (responseOf rcodeSuccess openHeader.owner [Reference.addressOf openHeader]) ∧
      Smuggles true (addressQuery safeHeader.owner)
        (responseOf rcodeSuccess safeHeader.owner [Reference.addressOf safeHeader]) := by
  refine ⟨by decide +kernel, by decide +kernel, by decide +kernel⟩

end DNSSECValidator

end RouteDns.Dnssec
