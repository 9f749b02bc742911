import RouteDns.Dnssec.Verdict

/-!
# What the verdict on a response means

Validation of a response with answers stops at the first set that fails and looks at
nothing but the answer section.  This file relates its verdict to what a client
reads into it: that an insecure verdict concerns the whole response, that a name
error is proved, that the question is answered, and that an expanded wildcard does
not hide an existing name.  Each statement says exactly when the reading is right.
-/

namespace RouteDns.Dnssec

open Dns Program

variable (dns : Library) (resolver : Query → Except Text Msg) (now : Time) (store : Keystore)

theorem coherent_sessionWith (orders : Orders) :
    Coherent dns resolver now (standing store) (sessionWith store orders) :=
  coherent_refl.of_store_eq rfl

/-- Acceptance of a response with answers implies a fact exactly when one of its sets is
not verified or the fact holds anyway. -/
theorem accepted_imp_iff (orders : Orders) (answer : Msg) (answered : answer.answer ≠ [])
    (fact : Prop) :
    ((validate dns (World.steady resolver now) answer).result (sessionWith store orders) =
          .ok () → fact) ↔
      ((∃ key ∈ rrsetKeys dns answer.answer,
          verified dns resolver now (standing store) answer.answer key = false) ∨ fact) := by
  rw [validate_ok_iff_of_answer dns resolver now (standing store) answered
    (coherent_sessionWith dns resolver now store orders), imp_iff_not_or]
  simp

/-! ## Insecure verdicts -/

/-- A name lies at or below a zone whose parent proves that it has no DS record. -/
def BelowInsecure (name : Name) : Prop :=
  ∃ zone : DomainName, dns.isSubDomain zone.print name = true ∧
    provesNoDS dns resolver now (standing store) zone.print = true

/-- A set may be handed to a client: it is verified, or it comes from an insecure
zone. -/
def Passable (records : List RR) (key : RRsetKey) : Prop :=
  verified dns resolver now (standing store) records key = true ∨
    BelowInsecure dns resolver now store key.name

/-- A lookup finds DS records for a zone. -/
def HasDS (zone : Name) : Prop :=
  ∃ found, dsLookup dns resolver zone = .ok found ∧ found.ds ≠ []

/-- A lookup finds no DS records for a zone, and its parent proves that there are none or has
itself a chain of trust that ends at an insecure delegation. -/
def LacksDS (zone : Name) : Prop :=
  ∃ found, dsLookup dns resolver zone = .ok found ∧ found.ds = [] ∧
    (IsInsecure (chainResult dns resolver now (standing store) (parentZone dns zone)) ∨
      ∃ keys, chainResult dns resolver now (standing store) (parentZone dns zone) = .ok keys ∧
        verifyDSDenial dns (rrsetKeys dns found.resp.ns) found.resp zone keys.zsk now = .ok ())

/-- A set without signatures whose zones have DS records from the top down to one that lacks
them, or one that no signature authenticates and whose last signer is at or above its name and
has a chain of trust that ends at an insecure delegation. -/
def LooksInsecure (records : List RR) (key : RRsetKey) : Prop :=
  (sigsOf dns records key = [] ∧
    ∃ above zone below, enclosingZones dns key.name = above ++ zone :: below ∧
      (∀ earlier ∈ above, HasDS dns resolver earlier) ∧ LacksDS dns resolver now store zone) ∨
  (verified dns resolver now (standing store) records key = false ∧
    ∃ sig, (sigsOf dns records key).getLast? = some sig ∧
      SignerInsecure dns resolver now (standing store) key.name sig)

/-- The check of a set ends with an insecure delegation exactly if it looks insecure. -/
theorem validateSet_insecure_iff {records : List RR} {key : RRsetKey}
    (member : key ∈ rrsetKeys dns records) :
    IsInsecure ((validateSet dns (World.steady resolver now) records key).result
      (standing store)) ↔ LooksInsecure dns resolver now store records key := by
  unfold LooksInsecure
  by_cases unsigned : sigsOf dns records key = []
  · obtain ⟨detail, result⟩ :=
      validateSet_unsigned_result dns resolver now (standing store) member unsigned
    obtain ⟨owner, owner_eq⟩ := ownerOf_print (rrsetOf dns records key)
    have name_eq := canonicalName_ownerOf dns member
    rw [owner_eq, dns.canonicalName_print] at name_eq
    rw [result, isInsecure_bind_iff, ← name_eq, checkInsecureDelegation_insecure]
    simp [unsigned, isInsecure_error_iff, noDSOutcome_eq_false_iff, noDSOutcome_eq_true_iff, HasDS,
      LacksDS]
  · obtain ⟨sig, last⟩ := Option.ne_none_iff_exists'.mp
      (mt List.getLast?_eq_none_iff.mp unsigned)
    rw [validateSet, if_neg unsigned, validateRRset, validateWith_insecure_iff,
      canonicalName_ownerOf dns member, last]
    simp [unsigned, verified]

/-- The answer mixes a set that looks insecure with one that may not be handed on. -/
def Mixes (records : List RR) : Prop :=
  ∃ insecure ∈ rrsetKeys dns records, ∃ exposed ∈ rrsetKeys dns records,
    LooksInsecure dns resolver now store records insecure ∧
      verified dns resolver now (standing store) records exposed = false ∧
      ¬ BelowInsecure dns resolver now store exposed.name

/-- Visit one key before all others. -/
def firstOrder (key : RRsetKey) : MapOrder := fun keys =>
  if member : key ∈ keys then
    ⟨key :: keys.erase key, (List.perm_cons_erase member).symm⟩
  else
    ⟨keys, List.Perm.refl keys⟩

/-- An insecure verdict, whatever the order of the walk, means that every set of the
answer may be handed on exactly when no set that looks insecure comes with a set that is
neither verified nor at or below a zone that is proved to have no DS record. -/
theorem insecure_verdict_iff (answer : Msg) (answered : answer.answer ≠ []) :
    (∀ orders failure,
        (validate dns (World.steady resolver now) answer).result (sessionWith store orders) =
            .error failure →
          failure.is .insecureDelegation = true →
            ∀ key ∈ rrsetKeys dns answer.answer,
              Passable dns resolver now store answer.answer key) ↔
      ¬ Mixes dns resolver now store answer.answer := by
  have verdict := fun orders => validate_result_of_answer dns resolver now (standing store) answered
    (coherent_sessionWith dns resolver now store orders)
  constructor
  · rintro reading ⟨key, member, exposed, exposedMember, looks, unverified, outside⟩
    obtain ⟨failure, failed, insecure⟩ :=
      (validateSet_insecure_iff dns resolver now store member).mpr looks
    have passes := reading (fun _ => firstOrder key) failure ?_ insecure exposed exposedMember
    · rcases passes with good | below
      · rw [unverified] at good
        cases good
      · exact outside below
    have first : ((fun _ => firstOrder key : Orders) 0 (rrsetKeys dns answer.answer)).val =
        key :: (rrsetKeys dns answer.answer).erase key := by
      simp [firstOrder, member]
    rw [verdict, sessionWith, first, validateSets_cons_result, failed]
    rfl
  · intro unmixed orders failure failed insecure
    rw [verdict] at failed
    obtain ⟨key, member, alone⟩ := validateSets_error dns resolver now (standing store) failed
    have listed := (orders 0 (rrsetKeys dns answer.answer)).property.subset member
    have looks := (validateSet_insecure_iff dns resolver now store listed).mp
      ⟨failure, alone, insecure⟩
    intro exposed exposedMember
    by_contra stuck
    obtain ⟨unverified, outside⟩ := not_or.mp stuck
    exact unmixed ⟨key, listed, exposed, exposedMember, looks,
      Bool.eq_false_of_not_eq_true unverified, outside⟩

/-- An open zone, which the sample root delegates without a DS record. -/
def openHeader : RRHeader := Reference.headerOf { labels := [text "open"] }

/-- A safe zone, which the sample root delegates with a DS record. -/
def safeHeader : RRHeader := Reference.headerOf { labels := [text "safe"] }

/-- What the root zone answers to DS queries for its two delegations. -/
def delegationsUpstream (query : Query) : Except Text Msg :=
  if query.name = text "open." then
    .ok { rcode := rcodeSuccess, question := [], answer := []
          ns := [.nsec { hdr := { openHeader with rrtype := typeNSEC }, next := .top
                         typeBitMap := [typeNS, typeRRSIG, typeNSEC] },
            .rrsig (Reference.sign Reference.rootZSK openHeader typeNSEC)] }
  else
    .ok { rcode := rcodeSuccess, question := [], ns := []
          answer := [.ds (Reference.dsOf safeHeader (Reference.keyOf safeHeader 257 [])),
            .rrsig (Reference.sign Reference.rootZSK safeHeader typeDS)] }

/-- A response with the given answers. -/
def responseOf (rcode : Nat) (qname : DomainName) (answer : List RR) : Msg where
  rcode := rcode
  question := [{ qname := qname, qtype := 1, qclass := classINET }]
  answer := answer
  ns := []

theorem insecure_verdict_of_open_set :
    Passable reference delegationsUpstream sampleTime sampleStore
      [Reference.addressOf openHeader] (recordKey reference (Reference.addressOf openHeader)) := by
  refine (insecure_verdict_iff reference delegationsUpstream sampleTime sampleStore
    (responseOf rcodeSuccess openHeader.owner [Reference.addressOf openHeader])
    (by decide)).mpr ?_ (fun _ => listedOrder)
    (Sentinel.insecureDelegation.withDetail (text ": open.")) (by decide) (by decide) _ (by decide)
  rintro ⟨_, _, exposed, member, _, _, outside⟩
  obtain rfl := List.mem_singleton.mp member
  exact outside ⟨openHeader.owner, by decide, by decide⟩

/-- An unsigned set of the safe zone gets through with an unsigned set of the open
one. -/
theorem unsigned_set_passes_with_insecure_one :
    (∃ failure, (validate reference (World.steady delegationsUpstream sampleTime)
        (responseOf rcodeSuccess openHeader.owner
          [Reference.addressOf safeHeader, Reference.addressOf openHeader])).result
            (sessionWith sampleStore fun _ => listedOrder) = .error failure ∧
      failure.is .insecureDelegation = true) ∧
      ¬ Passable reference delegationsUpstream sampleTime sampleStore
        [Reference.addressOf safeHeader, Reference.addressOf openHeader]
        (recordKey reference (Reference.addressOf safeHeader)) := by
  refine ⟨⟨Sentinel.insecureDelegation.withDetail (text ": open."), by decide, by decide⟩, ?_⟩
  rintro (unsigned | ⟨zone, below, proved⟩)
  · revert unsigned
    decide
  · have safe_eq : (recordKey reference (Reference.addressOf safeHeader)).name =
        safeHeader.owner.print := by decide
    rw [safe_eq, reference.isSubDomain_print] at below
    rw [provesNoDS_congr reference _ _ _
      (by simp : reference.canonicalName zone.print = reference.canonicalName zone.lower.print)]
      at proved
    rcases List.suffix_cons_iff.mp below with labels_eq | outside
    · rw [show zone.lower = safeHeader.owner from DomainName.ext labels_eq] at proved
      revert proved
      decide
    · rw [show zone.lower = .top from DomainName.ext (List.suffix_nil.mp outside)] at proved
      revert proved
      decide

/-! ## Name errors -/

/-- The target of an alias in a section. -/
def aliasTarget (records : List RR) (name : DomainName) : Option DomainName :=
  records.findSome? fun
    | .cname record => if record.hdr.owner.lower = name.lower then some record.targetName else none
    | _ => none

/-- Follow aliases for at most the given number of steps. -/
def followAliases (records : List RR) : Nat → DomainName → DomainName
  | 0, name => name
  | steps + 1, name =>
    match aliasTarget records name with
    | none => name
    | some target => followAliases records steps target

/-- The name a negative response denies: the question name, or the end of the chain of
aliases that starts there. -/
def deniedName (records : List RR) (qname : DomainName) : DomainName :=
  followAliases records records.length qname

/-- The authenticated records of the authority section, in some order, deny the name the
response is about. -/
def DenialProven (answer : Msg) : Prop :=
  ∃ question ∈ answer.question.head?, ∃ order : List RRsetKey,
    order.Perm (rrsetKeys dns answer.ns) ∧
      provesDenial dns resolver now (standing store) answer.ns
        (dns.canonicalName (deniedName answer.answer question.qname).print) question.qtype
        answer.rcode order = true

/-- Nothing is denied without records in the authority section. -/
theorem not_denialProven_nil (answer : Msg) :
    ¬ DenialProven dns resolver now store { answer with ns := [] } := by
  rintro ⟨question, _, order, perm, proved⟩
  have order_eq : order = [] := perm.eq_nil
  subst order_eq
  simp [provesDenial, deniesWith, authenticDenials, nsecProvesDenial, nsec3ProvesDenial] at proved

/-- Whatever its authority section holds, an accepted negative response is proved,
exactly when it has no answers or one of its answer sets is not verified. -/
theorem accepted_denial_iff (orders : Orders) (answer : Msg) :
    (∀ ns, (validate dns (World.steady resolver now) { answer with ns := ns }).result
          (sessionWith store orders) = .ok () →
        DenialProven dns resolver now store { answer with ns := ns }) ↔
      (answer.answer = [] ∨
        ∃ key ∈ rrsetKeys dns answer.answer,
          verified dns resolver now (standing store) answer.answer key = false) := by
  by_cases answered : answer.answer = []
  · refine iff_of_true (fun ns accepted => ?_) (.inl answered)
    obtain ⟨question, asked, proved⟩ := (validate_ok_iff_of_empty dns resolver now (standing store)
      { answer with ns := ns } answered (coherent_sessionWith dns resolver now store orders)).mp
      accepted
    refine ⟨question, asked, _, (orders 0 (rrsetKeys dns ns)).property, ?_⟩
    simp only [answered]
    exact proved
  · have reading := fun ns => accepted_imp_iff dns resolver now store orders
      { answer with ns := ns } answered
      (DenialProven dns resolver now store { answer with ns := ns })
    simp only [reading, answered, false_or]
    exact ⟨fun all => (all []).resolve_right (not_denialProven_nil dns resolver now store answer),
      fun unverified _ => .inl unverified⟩

/-- An upstream that does not answer.  The keys of the root are in the keystore. -/
def silentUpstream : Query → Except Text Msg :=
  fun _ => .error (text "timeout")

/-- A record of the sample root that covers the open zone and the wildcard at the root. -/
def rootDenial : List RR :=
  [.nsec { hdr := { Reference.headerOf .top with rrtype := typeNSEC }
           next := Reference.lastName, typeBitMap := [typeNS, typeSOA] },
    .rrsig (Reference.sign Reference.rootZSK (Reference.headerOf .top) typeNSEC)]

theorem accepted_denial_of_empty_answer :
    DenialProven reference silentUpstream sampleTime sampleStore
      { responseOf rcodeNameError openHeader.owner [] with ns := rootDenial } :=
  (accepted_denial_iff reference silentUpstream sampleTime sampleStore (fun _ => listedOrder)
    (responseOf rcodeNameError openHeader.owner [])).mpr (.inl rfl) rootDenial (by decide +kernel)

/-- A name error for the safe zone is accepted without any proof once a signed record
of another name is put into the answer section. -/
theorem name_error_accepted_without_proof :
    (validate reference (World.steady silentUpstream sampleTime)
        (responseOf rcodeNameError safeHeader.owner
          (Reference.signedAddress Reference.rootZSK openHeader))).result
            (sessionWith sampleStore fun _ => listedOrder) = .ok () ∧
      ¬ DenialProven reference silentUpstream sampleTime sampleStore
        (responseOf rcodeNameError safeHeader.owner
          (Reference.signedAddress Reference.rootZSK openHeader)) :=
  ⟨by decide, not_denialProven_nil reference silentUpstream sampleTime sampleStore
    (responseOf rcodeNameError safeHeader.owner
      (Reference.signedAddress Reference.rootZSK openHeader))⟩

/-! ## Answers to the question -/

/-- An accepted answer section has a verified set at the question name exactly when it
has a record there that is no signature, or one of its sets is not verified. -/
theorem accepted_answer_iff (orders : Orders) (answer : Msg) (question : Question)
    (answered : answer.answer ≠ []) :
    ((validate dns (World.steady resolver now) answer).result (sessionWith store orders) =
          .ok () →
        ∃ key ∈ rrsetKeys dns answer.answer, key.name = dns.canonicalName question.name ∧
          verified dns resolver now (standing store) answer.answer key = true) ↔
      ((∃ rr ∈ answer.answer, rr.asRRSIG? = none ∧
          dns.canonicalName rr.header.name = dns.canonicalName question.name) ∨
        ∃ key ∈ rrsetKeys dns answer.answer,
          verified dns resolver now (standing store) answer.answer key = false) := by
  rw [accepted_imp_iff dns resolver now store orders answer answered]
  constructor
  · rintro (unverified | ⟨key, member, atQuestion, _⟩)
    · exact .inr unverified
    · obtain ⟨rr, rrMem, kind, rfl⟩ := (mem_rrsetKeys dns).mp member
      exact .inl ⟨rr, rrMem, kind, atQuestion⟩
  · rintro (⟨rr, rrMem, kind, atQuestion⟩ | unverified)
    · have member : recordKey dns rr ∈ rrsetKeys dns answer.answer :=
        (mem_rrsetKeys dns).mpr ⟨rr, rrMem, kind, rfl⟩
      cases good : verified dns resolver now (standing store) answer.answer (recordKey dns rr) with
      | true => exact .inr ⟨_, member, atQuestion, good⟩
      | false => exact .inl ⟨_, member, good⟩
    · exact .inl unverified

theorem accepted_answer_at_question :
    ∃ key ∈ rrsetKeys reference (Reference.signedAddress Reference.rootZSK openHeader),
      key.name = reference.canonicalName openHeader.name ∧
        verified reference silentUpstream sampleTime (standing sampleStore)
          (Reference.signedAddress Reference.rootZSK openHeader) key = true :=
  (accepted_answer_iff reference silentUpstream sampleTime sampleStore (fun _ => listedOrder)
    (responseOf rcodeSuccess openHeader.owner
      (Reference.signedAddress Reference.rootZSK openHeader))
    { qname := openHeader.owner, qtype := 1, qclass := classINET } (by decide)).mpr
      (.inl ⟨Reference.addressOf openHeader, by decide, by decide, by decide⟩) (by decide)

/-- A lone signature, and a signed record of another name, are accepted as answers to
a question about the safe zone. -/
theorem answers_accepted_beside_the_question :
    ((validate reference (World.steady silentUpstream sampleTime)
        (responseOf rcodeSuccess safeHeader.owner
          [.rrsig (Reference.sign Reference.rootZSK safeHeader 1)])).result
            (sessionWith sampleStore fun _ => listedOrder) = .ok () ∧
      rrsetKeys reference [.rrsig (Reference.sign Reference.rootZSK safeHeader 1)] = []) ∧
    (validate reference (World.steady silentUpstream sampleTime)
        (responseOf rcodeSuccess safeHeader.owner
          (Reference.signedAddress Reference.rootZSK openHeader))).result
            (sessionWith sampleStore fun _ => listedOrder) = .ok () ∧
      ∀ key ∈ rrsetKeys reference (Reference.signedAddress Reference.rootZSK openHeader),
        key.name ≠ reference.canonicalName safeHeader.name := by
  refine ⟨⟨by decide, by decide⟩, by decide, fun key member => ?_⟩
  obtain rfl := List.mem_singleton.mp member
  decide

/-! ## Expanded wildcards -/

/-- The signature that makes a set of a section accepted: the first that authenticates
it. -/
def acceptedBy (records : List RR) (key : RRsetKey) : Option RRSIG :=
  (sigsOf dns records key).find?
    (authenticates dns resolver now (standing store) (rrsetOf dns records key) key.name)

/-- The set under a key is an expanded wildcard: its signature was made for a name with
fewer labels. -/
def IsExpansion (key : RRsetKey) (sig : RRSIG) : Prop :=
  sig.labels.toNat < dns.countLabel key.name

instance (key : RRsetKey) (sig : RRSIG) : Decidable (IsExpansion dns key sig) :=
  inferInstanceAs (Decidable (_ < _))

/-- Authenticated denial records cover a name. -/
def coversName (denials : List NSEC × List NSEC3) (name : Name) : Bool :=
  denials.1.any (nsecCovers dns · name) || denials.2.any (dns.nsec3Cover · name)

/-- The authenticated records of the authority section deny the owner of an expanded
wildcard or the next closer name below the parent of the wildcard. -/
def expansionProven (answer : Msg) (key : RRsetKey) (sig : RRSIG) : Bool :=
  let denials := authenticDenials dns resolver now (standing store) answer.ns key.name
    (rrsetKeys dns answer.ns)
  coversName dns denials key.name ||
    coversName dns denials (lastNLabels dns key.name (sig.labels.toNat + 1))

/-- Whatever its authority section holds, the expanded wildcards of an accepted response
are proved, exactly when one of its answer sets is not verified or none is an expanded
wildcard. -/
theorem accepted_expansion_iff (orders : Orders) (answer : Msg) (answered : answer.answer ≠ []) :
    (∀ ns, (validate dns (World.steady resolver now) { answer with ns := ns }).result
          (sessionWith store orders) = .ok () →
        ∀ key ∈ rrsetKeys dns answer.answer,
          ∀ sig ∈ acceptedBy dns resolver now store answer.answer key,
            IsExpansion dns key sig →
              expansionProven dns resolver now store { answer with ns := ns } key sig = true) ↔
      ((∃ key ∈ rrsetKeys dns answer.answer,
          verified dns resolver now (standing store) answer.answer key = false) ∨
        ∀ key ∈ rrsetKeys dns answer.answer,
          ∀ sig ∈ acceptedBy dns resolver now store answer.answer key,
            ¬ IsExpansion dns key sig) := by
  have reading := fun ns =>
    accepted_imp_iff dns resolver now store orders { answer with ns := ns } answered
  constructor
  · intro all
    refine ((reading [] _).mp (all [])).imp_right fun proved key member sig accepted expanded => ?_
    have proved := proved key member sig accepted expanded
    cases proved
  · intro condition ns
    refine (reading ns _).mpr (condition.imp_right fun plain key member sig accepted expanded => ?_)
    exact absurd expanded (plain key member sig accepted)

theorem accepted_expansion_of_plain_answer :
    Reference.signedAddress Reference.rootZSK openHeader ≠ [] ∧
      ∀ ns, (validate reference (World.steady silentUpstream sampleTime)
          { responseOf rcodeSuccess openHeader.owner
              (Reference.signedAddress Reference.rootZSK openHeader) with ns := ns }).result
            (sessionWith sampleStore fun _ => listedOrder) = .ok () →
        ∀ key ∈ rrsetKeys reference (Reference.signedAddress Reference.rootZSK openHeader),
          ∀ sig ∈ acceptedBy reference silentUpstream sampleTime sampleStore
              (Reference.signedAddress Reference.rootZSK openHeader) key,
            IsExpansion reference key sig →
              expansionProven reference silentUpstream sampleTime sampleStore
                { responseOf rcodeSuccess openHeader.owner
                    (Reference.signedAddress Reference.rootZSK openHeader) with ns := ns }
                key sig = true := by
  refine ⟨by decide, (accepted_expansion_iff reference silentUpstream sampleTime sampleStore
    (fun _ => listedOrder) (responseOf rcodeSuccess openHeader.owner
      (Reference.signedAddress Reference.rootZSK openHeader)) (by decide)).mpr
    (.inr fun key member sig accepted => ?_)⟩
  obtain rfl := List.mem_singleton.mp member
  obtain rfl := Option.mem_some_iff.mp accepted
  decide

/-- A name below `safe`. -/
def expandedHeader : RRHeader := Reference.headerOf { labels := [text "x", text "safe"] }

/-- A signature that was made for the wildcard `*.safe.`. -/
def wildcardSignature : RRSIG :=
  { Reference.sign Reference.rootZSK expandedHeader 1 with labels := 1 }

def expandedAddress : List RR :=
  [Reference.addressOf expandedHeader, .rrsig wildcardSignature]

/-- An expanded wildcard is accepted for a name without any proof that the name does not
exist. -/
theorem expansion_accepted_without_proof :
    (validate reference (World.steady silentUpstream sampleTime)
        (responseOf rcodeSuccess expandedHeader.owner expandedAddress)).result
          (sessionWith sampleStore fun _ => listedOrder) = .ok () ∧
      ∃ key ∈ rrsetKeys reference expandedAddress,
        ∃ sig ∈ acceptedBy reference silentUpstream sampleTime sampleStore expandedAddress key,
          IsExpansion reference key sig ∧
            expansionProven reference silentUpstream sampleTime sampleStore
              (responseOf rcodeSuccess expandedHeader.owner expandedAddress) key sig = false :=
  ⟨by decide, recordKey reference (Reference.addressOf expandedHeader), by decide,
    wildcardSignature, by decide, by decide, by decide⟩

end RouteDns.Dnssec
