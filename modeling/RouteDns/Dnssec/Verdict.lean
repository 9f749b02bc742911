import RouteDns.Dnssec.Level

/-!
# Verdicts on sets and messages

In a world that stands still each set of a message has a verdict of its own, which
depends neither on the order in which the sets are visited nor on what was cached on
the way.  Validation of an answer section visits the sets up to the first one that
fails.
-/

namespace RouteDns.Dnssec

open Dns Program

variable (dns : Library) (resolver : Query → Except Text Msg) (now : Time)
  (start : Session Orders)

/-- A signature authenticates a set through the chain of trust of its signer, which
must be at or above the given name. -/
def authenticates (rrset : List RR) (name : Name) (sig : RRSIG) : Bool :=
  dns.isSubDomain (dns.canonicalName sig.signerName) name &&
    match chainResult dns resolver now start (dns.canonicalName sig.signerName) with
    | .error _ => false
    | .ok keys => (verifyRRSIG dns sig keys.zsk rrset now).toBool

/-- One of the signatures that cover a set of a section authenticates it. -/
def verified (records : List RR) (key : RRsetKey) : Bool :=
  (sigsOf dns records key).any
    (authenticates dns resolver now start (rrsetOf dns records key) key.name)

/-- The parent of a zone proves, with authenticated records, that the zone has no DS
record. -/
def provesNoDS (zone : Name) : Bool :=
  match dsLookup dns resolver zone with
  | .error _ => false
  | .ok found => found.ds = [] &&
      match chainResult dns resolver now start (parentZone dns zone) with
      | .error _ => false
      | .ok keys =>
        (verifyDSDenial dns (rrsetKeys dns found.resp.ns) found.resp zone keys.zsk now).toBool

variable {zone : Name} {key : RRsetKey} {keys : List RRsetKey} {answer : Msg}

/-- Only the canonical form of a zone name matters. -/
theorem provesNoDS_congr {other : Name} (same : dns.canonicalName zone = dns.canonicalName other) :
    provesNoDS dns resolver now start zone = provesNoDS dns resolver now start other := by
  simp only [provesNoDS, dsLookup, parentZone, verifyDSDenial, same]

theorem signerChain_settles (sig : RRSIG) :
    Settles (Coherent dns resolver now start)
      (buildChainOfTrust dns (World.steady resolver now) (dns.canonicalName sig.signerName))
      (chainResult dns resolver now start (dns.canonicalName sig.signerName)) :=
  chain_settles dns resolver now start (dns.canonicalName_qualified sig.signer.print_qualified)

theorem verify_settles (keys : List DNSKEY) (rrset : List RR) (sig : RRSIG) :
    Settles (Coherent dns resolver now start)
      (verifyNow dns (World.steady resolver now) keys rrset sig)
      (.ok (verifyRRSIG dns sig keys rrset now)) :=
  verifyNow_settles dns resolver now (coherent_stable dns resolver now start) keys rrset sig

/-- The outcome of asking for a proof that a zone has no DS records. -/
def noDSOutcome (zone : Name) : Except Err Bool :=
  (dsLookup dns resolver zone).bind fun found =>
    if found.ds ≠ [] then
      .ok false
    else
      match chainResult dns resolver now start (parentZone dns zone) with
      | .error cause => if cause.is .insecureDelegation then .ok true else .error cause
      | .ok parentKeys =>
        (verifyDSDenial dns (rrsetKeys dns found.resp.ns) found.resp zone parentKeys.zsk now).bind
          fun _ => .ok true

theorem proveNoDS_settles (qualified : Qualified zone) :
    Settles (Coherent dns resolver now start) (proveNoDS dns (World.steady resolver now) zone)
      (noDSOutcome dns resolver now start zone) := by
  have stable := coherent_stable dns resolver now start
  have parent := chain_settles dns resolver now start (qualified_parentZone dns qualified)
  refine (lookupDS_settles dns resolver now stable zone).bind fun found => .ite (.pure false) ?_
  refine parent.attempt.bind_ok ?_
  cases chainResult dns resolver now start (parentZone dns zone) with
  | error cause => exact .ite (.pure true) (.fail cause)
  | ok keys =>
    exact (checkDSDenial_settles dns resolver now stable found.resp zone keys.zsk).bind
      fun _ => .pure true

/-- All of a validation but the order of its walks is settled. -/
theorem validates_settled : Validates dns (World.steady resolver now) fun _ program =>
    Settled (Coherent dns resolver now start) program where
  toBudgeted := Settled.budgeted _
  chain sig := (signerChain_settles dns resolver now start sig).settled
  verify keys rrset sig := (verify_settles dns resolver now start keys rrset sig).settled
  insecure name := by
    rw [checkInsecureDelegation, dns.canonicalName_print]
    exact .ite (.pure _) (checkZones_within dns _ (Settled.budgeted _) (fun _ => 0)
      fun zone member => (proveNoDS_settles dns resolver now start
        (qualified_of_mem_enclosingZones dns member)).settled)

/-! ## Single sets -/

/-- A signer at or above a name has a chain of trust that ends at an insecure delegation. -/
def SignerInsecure (name : Name) (sig : RRSIG) : Prop :=
  dns.isSubDomain (dns.canonicalName sig.signerName) name = true ∧
    IsInsecure (chainResult dns resolver now start (dns.canonicalName sig.signerName))

variable (rrset : List RR) (owner : Name) (lastErr : Option Err)

/-- One round of the loop over the signatures. -/
theorem validateWith_cons_result (sig : RRSIG) (rest : List RRSIG) :
    ∃ failure, (validateWith dns (World.steady resolver now) rrset owner lastErr
          (sig :: rest)).result start =
        (if authenticates dns resolver now start rrset owner sig then .ok ()
        else (validateWith dns (World.steady resolver now) rrset owner (some failure)
          rest).result start) ∧
      (authenticates dns resolver now start rrset owner sig = false →
        (failure.is .insecureDelegation = true ↔
          SignerInsecure dns resolver now start owner sig)) := by
  have coherent : Coherent dns resolver now start start := coherent_refl
  have again := fun failure => (validateWith_within (validates_settled dns resolver now start)
    rrset owner (some failure) rest).settles coherent
  have chain := signerChain_settles dns resolver now start sig
  unfold authenticates SignerInsecure
  rw [validateWith]
  by_cases inBailiwick : dns.isSubDomain (dns.canonicalName sig.signerName) owner = true
  · simp only [inBailiwick, if_true, Bool.true_and]
    cases returned : chainResult dns resolver now start (dns.canonicalName sig.signerName) with
    | error failure =>
      rw [returned] at chain
      refine ⟨failure, (chain.attempt.bind_ok (again failure)).result_eq coherent, fun _ => ?_⟩
      rw [isInsecure_error_iff, true_and]
    | ok keys =>
      rw [returned] at chain
      have verify := verify_settles dns resolver now start keys.zsk rrset sig
      cases outcome : verifyRRSIG dns sig keys.zsk rrset now with
      | error failure =>
        rw [outcome] at verify
        simp only [outcome, Except.toBool, Bool.false_eq_true, if_false]
        refine ⟨failure, (chain.attempt.bind_ok (verify.bind_ok (again failure))).result_eq
          coherent, fun _ => iff_of_false ?_ fun insecure => not_isInsecure_ok _ insecure.2⟩
        rw [verifyRRSIG_not_insecure dns now outcome]
        exact Bool.false_ne_true
      | ok _ =>
        rw [outcome] at verify
        simp only [outcome, Except.toBool, if_true]
        refine ⟨.plain [], (chain.attempt.bind_ok ?_).result_eq coherent, by simp⟩
        exact verify.bind_ok (.pure ())
  · simp only [inBailiwick, Bool.false_and]
    exact ⟨_, rfl, by simp⟩

/-- A set with signatures is accepted exactly when one of them authenticates it. -/
theorem validateWith_ok_iff (sigs : List RRSIG) (pending : sigs ≠ [] ∨ lastErr ≠ none) :
    (validateWith dns (World.steady resolver now) rrset owner lastErr sigs).result start = .ok () ↔
      sigs.any (authenticates dns resolver now start rrset owner) = true := by
  induction sigs generalizing lastErr with
  | nil =>
    obtain ⟨failure, rfl⟩ := Option.ne_none_iff_exists'.mp (pending.resolve_left (by simp))
    simp [validateWith, Program.result]
  | cons sig rest ih =>
    obtain ⟨failure, round, -⟩ :=
      validateWith_cons_result dns resolver now start rrset owner lastErr sig rest
    rw [round, List.any_cons, Bool.or_eq_true]
    split
    · rename_i good
      simp [good]
    · rename_i bad
      rw [ih (some failure) (.inr (by simp))]
      simp [bad]

/-- A set with signatures is found insecure when none of them authenticates it and the signer of
the last one is insecure. -/
theorem validateWith_insecure_iff (sigs : List RRSIG) :
    IsInsecure ((validateWith dns (World.steady resolver now) rrset owner lastErr sigs).result
        start) ↔
      sigs.any (authenticates dns resolver now start rrset owner) = false ∧
        sigs.getLast?.elim (lastErr.any (Err.is .insecureDelegation) = true)
          (SignerInsecure dns resolver now start owner) := by
  induction sigs generalizing lastErr with
  | nil =>
    cases lastErr with
    | none => simp [validateWith, Program.result, not_isInsecure_ok]
    | some failure => simp [validateWith, Program.result, isInsecure_error_iff]
  | cons sig rest ih =>
    obtain ⟨next, round, cause⟩ :=
      validateWith_cons_result dns resolver now start rrset owner lastErr sig rest
    rw [round, List.any_cons, Bool.or_eq_false_iff]
    split
    · rename_i good
      simp [good, not_isInsecure_ok]
    · rename_i bad
      rw [Bool.not_eq_true] at bad
      rw [ih (some next), and_iff_right bad]
      refine and_congr_right fun _ => ?_
      cases rest with
      | nil => exact cause bad
      | cons other rest => rw [List.getLast?_cons_cons, List.getLast?_cons]; rfl

theorem proveNoDS_result (qualified : Qualified zone) :
    (proveNoDS dns (World.steady resolver now) zone).result start =
      noDSOutcome dns resolver now start zone :=
  (proveNoDS_settles dns resolver now start qualified).result_eq coherent_refl

theorem noDSOutcome_eq_false_iff (zone : Name) :
    noDSOutcome dns resolver now start zone = .ok false ↔
      ∃ found, dsLookup dns resolver zone = .ok found ∧ found.ds ≠ [] := by
  rw [noDSOutcome, bind_eq_ok_iff]
  refine exists_congr fun found => and_congr_right fun _ => ?_
  split
  · rename_i present
    exact iff_of_true rfl present
  · rename_i absent
    refine iff_of_false ?_ absent
    split
    · split <;> simp
    · rw [bind_eq_ok_iff]
      rintro ⟨_, _, ⟨⟩⟩

/-- A zone is proved to have no DS records when an enclosing delegation is insecure, or
when its parent denies them. -/
theorem noDSOutcome_eq_true_iff (zone : Name) :
    noDSOutcome dns resolver now start zone = .ok true ↔
      ∃ found, dsLookup dns resolver zone = .ok found ∧ found.ds = [] ∧
        (IsInsecure (chainResult dns resolver now start (parentZone dns zone)) ∨
          ∃ keys, chainResult dns resolver now start (parentZone dns zone) = .ok keys ∧
            verifyDSDenial dns (rrsetKeys dns found.resp.ns) found.resp zone keys.zsk now =
              .ok ()) := by
  rw [noDSOutcome, bind_eq_ok_iff]
  refine exists_congr fun found => and_congr_right fun _ => ?_
  split
  · rename_i present
    exact iff_of_false (by simp) fun denied => present denied.1
  · rename_i absent
    rw [not_not] at absent
    cases chainResult dns resolver now start (parentZone dns zone) with
    | error cause => simp [absent, isInsecure_error_iff]
    | ok keys =>
      simp only [absent, not_isInsecure_ok, bind_eq_ok_iff, Except.ok.injEq, exists_eq_left',
        true_and, false_or, and_true]
      exact ⟨fun ⟨(), denied⟩ => denied, fun denied => ⟨(), denied⟩⟩

/-- A proof that fails is bogus, not insecure. -/
theorem noDSOutcome_not_insecure (zone : Name) :
    ¬ IsInsecure (noDSOutcome dns resolver now start zone) := by
  rw [noDSOutcome, isInsecure_bind_iff]
  rintro (insecure | ⟨found, _, insecure⟩)
  · exact dsLookup_not_insecure dns resolver zone insecure
  · split at insecure
    · exact not_isInsecure_ok false insecure
    · split at insecure
      · split at insecure
        · exact not_isInsecure_ok true insecure
        · rename_i secure
          exact secure ((isInsecure_error_iff _).mp insecure)
      · rw [isInsecure_bind_iff] at insecure
        rcases insecure with ⟨failure, failed, insecure⟩ | ⟨_, _, insecure⟩
        · rw [verifyDSDenial_not_insecure dns now failed] at insecure
          cases insecure
        · exact not_isInsecure_ok true insecure

/-- The walk ends at an insecure delegation when one comes after zones with DS records
only. -/
theorem checkZones_insecure_iff {zones : List Name} (qualified : ∀ zone ∈ zones, Qualified zone) :
    IsInsecure ((checkZones dns (World.steady resolver now) zones).result start) ↔
      ∃ before zone after, zones = before ++ zone :: after ∧
        (∀ earlier ∈ before, noDSOutcome dns resolver now start earlier = .ok false) ∧
          noDSOutcome dns resolver now start zone = .ok true := by
  induction zones with
  | nil => exact iff_of_false (not_isInsecure_ok ()) (by simp)
  | cons zone rest ih =>
    have coherent : Coherent dns resolver now start start := coherent_refl
    have laterQualified : ∀ later ∈ rest, Qualified later := fun later member =>
      qualified later (List.mem_cons_of_mem zone member)
    have walk := ih laterQualified
    have settles := proveNoDS_settles dns resolver now start (qualified zone List.mem_cons_self)
    rw [checkZones, settles.settled.result_bind (fun insecure => .ite (.fail _)
      (checkZones_within dns _ (Settled.budgeted _) (fun _ => 0) fun later member =>
        (proveNoDS_settles dns resolver now start (laterQualified later member)).settled)) coherent,
      settles.result_eq coherent, isInsecure_bind_iff]
    constructor
    · rintro (insecure | ⟨proved, returned, insecure⟩)
      · exact absurd insecure (noDSOutcome_not_insecure dns resolver now start zone)
      · cases proved with
        | true => exact ⟨[], zone, rest, rfl, by simp, returned⟩
        | false =>
          obtain ⟨before, found, after, rfl, passed, denied⟩ := walk.mp insecure
          refine ⟨zone :: before, found, after, rfl, ?_, denied⟩
          exact List.forall_mem_cons.mpr ⟨returned, passed⟩
    · rintro ⟨_ | ⟨first, before⟩, found, after, split, passed, denied⟩
      · obtain ⟨rfl, rfl⟩ := List.cons.inj split
        exact .inr ⟨true, denied, ⟨_, rfl, by simp⟩⟩
      · obtain ⟨rfl, rfl⟩ := List.cons.inj split
        obtain ⟨ownPassed, laterPassed⟩ := List.forall_mem_cons.mp passed
        exact .inr ⟨false, ownPassed, walk.mpr ⟨before, found, after, rfl, laterPassed, denied⟩⟩

variable {records : List RR}

section

variable (member : key ∈ rrsetKeys dns records)
include member

/-- The owner of a grouped set is the name it was grouped under. -/
theorem canonicalName_ownerOf :
    dns.canonicalName (ownerOf (rrsetOf dns records key)) = key.name := by
  obtain ⟨first, rest, rrset_eq⟩ := List.exists_cons_of_ne_nil (rrsetOf_ne_nil dns member)
  have firstMem : first ∈ rrsetOf dns records key := by simp [rrset_eq]
  rw [rrset_eq, ← ((mem_rrsetOf dns).mp firstMem).2.2]
  rfl

/-- For a set without signatures the walk toward its name decides. -/
theorem validateSet_unsigned_result (unsigned : sigsOf dns records key = []) :
    ∃ detail, (validateSet dns (World.steady resolver now) records key).result start =
      ((checkInsecureDelegation dns (World.steady resolver now) key.name).result start).bind
        fun _ => .error (Sentinel.noSignature.withDetail detail) := by
  obtain ⟨owner, owner_eq⟩ := ownerOf_print (rrsetOf dns records key)
  have walk := (validates_settled dns resolver now start).insecure owner
  have canonical := canonicalName_ownerOf dns member
  rw [owner_eq, dns.canonicalName_print] at canonical
  have same : checkInsecureDelegation dns (World.steady resolver now) key.name =
      checkInsecureDelegation dns (World.steady resolver now) owner.print := by
    simp only [checkInsecureDelegation, ← canonical, dns.canonicalName_print,
      DomainName.lower_lower]
  refine ⟨text ": " ++ key.name ++ text "/" ++ dns.typeToString key.rrtype, ?_⟩
  rw [validateSet, if_pos unsigned, owner_eq,
    walk.result_bind (fun _ => .fail _) coherent_refl, same]
  rfl

/-- A set of a section passes exactly when it is verified. -/
theorem validateSet_ok_iff :
    (validateSet dns (World.steady resolver now) records key).result start = .ok () ↔
      verified dns resolver now start records key = true := by
  by_cases unsigned : sigsOf dns records key = []
  · obtain ⟨detail, result⟩ := validateSet_unsigned_result dns resolver now start member unsigned
    rw [result]
    simp only [verified, unsigned, List.any_nil, Bool.false_eq_true, iff_false, bind_eq_ok_iff]
    rintro ⟨_, _, ⟨⟩⟩
  · rw [validateSet, if_neg unsigned, validateRRset,
      validateWith_ok_iff dns resolver now start _ _ _ _ (.inl unsigned),
      canonicalName_ownerOf dns member]
    rfl

end

/-- The walk toward a name ends at an insecure delegation when one comes after zones with DS
records only. -/
theorem checkInsecureDelegation_insecure (owner : DomainName) :
    IsInsecure ((checkInsecureDelegation dns (World.steady resolver now) owner.print).result
        start) ↔
      ∃ above zone below, enclosingZones dns owner.lower.print = above ++ zone :: below ∧
        (∀ earlier ∈ above, noDSOutcome dns resolver now start earlier = .ok false) ∧
        noDSOutcome dns resolver now start zone = .ok true := by
  simp only [checkInsecureDelegation, dns.canonicalName_print]
  split
  · rename_i isRoot
    refine iff_of_false (not_isInsecure_ok ()) ?_
    rintro ⟨above, zone, below, split, -⟩
    rw [enclosingZones_print, (print_eq_root_iff _).mp isRoot] at split
    simp at split
  · exact checkZones_insecure_iff dns resolver now start fun _ member =>
      qualified_of_mem_enclosingZones dns member

/-! ## Answer sections -/

theorem validateSets_cons_result (records : List RR) (key : RRsetKey) (rest : List RRsetKey) :
    (validateSets dns (World.steady resolver now) records (key :: rest)).result start =
      ((validateSet dns (World.steady resolver now) records key).result start).bind fun _ =>
        (validateSets dns (World.steady resolver now) records rest).result start :=
  (validateSet_within (validates_settled dns resolver now start) records key).result_bind
    (fun _ => validateSets_within (validates_settled dns resolver now start) records rest)
    coherent_refl

/-- Sets pass together when each is verified. -/
theorem validateSets_ok_iff (members : ∀ key ∈ keys, key ∈ rrsetKeys dns records) :
    (validateSets dns (World.steady resolver now) records keys).result start = .ok () ↔
      ∀ key ∈ keys, verified dns resolver now start records key = true := by
  induction keys with
  | nil => simp [validateSets, Program.result]
  | cons key rest ih =>
    have tail := ih fun later member => members later (List.mem_cons_of_mem key member)
    have head := validateSet_ok_iff dns resolver now start (members key List.mem_cons_self)
    rw [validateSets_cons_result, List.forall_mem_cons, ← head, ← tail]
    cases (validateSet dns (World.steady resolver now) records key).result start with
    | error failure | ok _ => simp [Except.bind]

/-- Sets fail together with the failure of the first one that fails. -/
theorem validateSets_error {failure : Err}
    (failed : (validateSets dns (World.steady resolver now) records keys).result start =
      .error failure) :
    ∃ key ∈ keys,
      (validateSet dns (World.steady resolver now) records key).result start = .error failure := by
  induction keys with
  | nil => cases failed
  | cons key rest ih =>
    rw [validateSets_cons_result] at failed
    cases own : (validateSet dns (World.steady resolver now) records key).result start with
    | error own' =>
      rw [own] at failed
      cases failed
      exact ⟨key, List.mem_cons_self, own⟩
    | ok _ =>
      rw [own] at failed
      obtain ⟨later, member, laterFailed⟩ := ih failed
      exact ⟨later, List.mem_cons_of_mem key member, laterFailed⟩

variable {session : Session Orders}

/-- An answer section is validated set by set in the order of the walk over it. -/
theorem validate_result_of_answer (answered : answer.answer ≠ [])
    (coherent : Coherent dns resolver now start session) :
    (validate dns (World.steady resolver now) answer).result session =
      (validateSets dns (World.steady resolver now) answer.answer
        (session.world 0 (rrsetKeys dns answer.answer)).val).result start := by
  have reached : Coherent dns resolver now start
      { session with world := fun step => session.world (step + 1) } := coherent.of_store_eq rfl
  rw [validate, if_neg answered]
  exact ((validateSets_within (validates_settled dns resolver now start) _ _).settles
    coherent_refl).result_eq reached

/-- An answer section passes exactly when all its sets are verified. -/
theorem validate_ok_iff_of_answer (answered : answer.answer ≠ [])
    (coherent : Coherent dns resolver now start session) :
    (validate dns (World.steady resolver now) answer).result session = .ok () ↔
      ∀ key ∈ rrsetKeys dns answer.answer,
        verified dns resolver now start answer.answer key = true := by
  have perm := (session.world 0 (rrsetKeys dns answer.answer)).property
  rw [validate_result_of_answer dns resolver now start answered coherent,
    validateSets_ok_iff dns resolver now start fun key member => perm.subset member]
  exact ⟨fun all key member => all key (perm.mem_iff.mpr member),
    fun all key member => all key (perm.mem_iff.mp member)⟩

/-! ## Denials -/

theorem tryAncestor_settles (rrset : List RR) (qname : Name) (sig : RRSIG) :
    Settles (Coherent dns resolver now start)
      (tryAncestor dns (World.steady resolver now) rrset qname sig)
      (.ok (if authenticates dns resolver now start rrset qname sig then some () else none)) := by
  have chain := signerChain_settles dns resolver now start sig
  unfold authenticates tryAncestor
  by_cases inBailiwick : dns.isSubDomain (dns.canonicalName sig.signerName) qname = true
  · simp only [inBailiwick, if_true, Bool.true_and]
    cases returned : chainResult dns resolver now start (dns.canonicalName sig.signerName) with
    | error failure =>
      rw [returned] at chain
      exact chain.attempt.bind_ok (.pure none)
    | ok keys =>
      rw [returned] at chain
      exact chain.attempt.bind_ok (tryKeys_settles dns resolver now
        (coherent_stable dns resolver now start) keys.zsk rrset sig)
  · simp only [inBailiwick, Bool.false_and]
    exact .pure none

theorem rrsetSignedFromAncestor_settles (rrset : List RR) (sigs : List RRSIG) (qname : Name) :
    Settles (Coherent dns resolver now start)
      (rrsetSignedFromAncestor dns (World.steady resolver now) rrset sigs qname)
      (.ok (sigs.any (authenticates dns resolver now start rrset qname))) := by
  refine (Settles.search_test (authenticates dns resolver now start rrset qname)
    fun sig _ => tryAncestor_settles dns resolver now start rrset qname sig).bind_ok ?_
  cases sigs.any (authenticates dns resolver now start rrset qname) <;> exact .pure _

/-- The NSEC and NSEC3 records of a section that are authenticated from at or above a
name, set by set in the given order. -/
def authenticDenials (records : List RR) (qname : Name) (order : List RRsetKey) :
    List NSEC × List NSEC3 :=
  let signed := order.filter fun key => isDenialKey key &&
    (sigsOf dns records key).any
      (authenticates dns resolver now start (rrsetOf dns records key) qname)
  (signed.flatMap fun key => nsecsIn (rrsetOf dns records key),
    signed.flatMap fun key => nsec3sIn (rrsetOf dns records key))

theorem collectFrom_settles (records : List RR) (qname : Name) (order : List RRsetKey) :
    Settles (Coherent dns resolver now start)
      (collectFrom dns (World.steady resolver now) records qname order)
      (.ok (authenticDenials dns resolver now start records qname order)) := by
  induction order with
  | nil => exact .pure _
  | cons key rest ih =>
    have signed := rrsetSignedFromAncestor_settles dns resolver now start
      (rrsetOf dns records key) (sigsOf dns records key) qname
    rw [collectFrom]
    by_cases denial : isDenialKey key = true
    · rw [if_pos denial]
      refine signed.bind_ok ?_
      cases good : (sigsOf dns records key).any
          (authenticates dns resolver now start (rrsetOf dns records key) qname) with
      | true =>
        have collected : authenticDenials dns resolver now start records qname (key :: rest) =
            (nsecsIn (rrsetOf dns records key) ++
                (authenticDenials dns resolver now start records qname rest).1,
              nsec3sIn (rrsetOf dns records key) ++
                (authenticDenials dns resolver now start records qname rest).2) := by
          simp [authenticDenials, denial, good]
        rw [collected]
        exact ih.bind_ok (.pure _)
      | false =>
        have skipped : authenticDenials dns resolver now start records qname (key :: rest) =
            authenticDenials dns resolver now start records qname rest := by
          simp [authenticDenials, good]
        rw [skipped]
        exact ih
    · have skipped : authenticDenials dns resolver now start records qname (key :: rest) =
          authenticDenials dns resolver now start records qname rest := by
        simp [authenticDenials, denial]
      rw [if_neg denial, skipped]
      exact ih

/-- Records of either kind prove the denial of a name for a response code. -/
def deniesWith (dns : Library) (denials : List NSEC × List NSEC3) (qname : Name) (qtype : UInt16)
    (rcode : Nat) : Bool :=
  nsecProvesDenial dns denials.1 qname qtype rcode ||
    nsec3ProvesDenial dns denials.2 qname qtype rcode

/-- The authenticated denial records of a section, taken in the given order, prove the
denial of a name for a response code. -/
def provesDenial (records : List RR) (qname : Name) (qtype : UInt16) (rcode : Nat)
    (order : List RRsetKey) : Bool :=
  deniesWith dns (authenticDenials dns resolver now start records qname order) qname qtype rcode

/-- A response without answers passes exactly when its question is denied. -/
theorem validate_ok_iff_of_empty (answer : Msg) (unanswered : answer.answer = [])
    (coherent : Coherent dns resolver now start session) :
    (validate dns (World.steady resolver now) answer).result session = .ok () ↔
      ∃ question ∈ answer.question.head?,
        provesDenial dns resolver now start answer.ns (dns.canonicalName question.name)
          question.qtype answer.rcode (session.world 0 (rrsetKeys dns answer.ns)).val = true := by
  rw [validate, if_pos unanswered, validateDenial]
  cases answer.question with
  | nil => simp [Program.result]
  | cons question rest =>
    have reached : Coherent dns resolver now start
        { session with world := fun step => session.world (step + 1) } :=
      coherent.of_store_eq rfl
    have collected := (collectFrom_settles dns resolver now start answer.ns
      (dns.canonicalName question.name) (session.world 0 (rrsetKeys dns answer.ns)).val _
        reached).1
    have ran : (collectVerifiedDenialRecords dns (World.steady resolver now) answer.ns
        (dns.canonicalName question.name)).run session = (.ok _, _) := Prod.ext collected rfl
    simp only [Program.result, run_bind_of_ok ran, List.head?_cons, Option.mem_some_iff,
      exists_eq_left', provesDenial, deniesWith, Bool.or_eq_true]
    split
    · rename_i proved
      exact iff_of_true rfl (.inl proved)
    · rename_i unproved
      split
      · rename_i proved
        exact iff_of_true rfl (.inr proved)
      · rename_i unproved'
        exact iff_of_false (run_bind_fail_ne_ok _ _ _ _) (not_or.mpr ⟨unproved, unproved'⟩)

end RouteDns.Dnssec
