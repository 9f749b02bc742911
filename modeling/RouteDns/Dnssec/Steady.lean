import RouteDns.Dnssec.Keeps
import RouteDns.Program.Settled

/-!
# Validation in a world that stands still

While the resolver is a function and the clock does not move, the keystore is only
a memo: what the chain of trust of a zone returns does not depend on what was
looked up before.  So every check of the validator has a settled result, and a
verdict on a message can be read off the verdicts on its parts.
-/

namespace RouteDns.Dnssec

open Dns Program

variable (dns : Library) (resolver : Query → Except Text Msg) (now : Time)

/-- An outcome that reports an insecure delegation. -/
def IsInsecure {α : Type} (outcome : Except Err α) : Prop :=
  ∃ failure, outcome = .error failure ∧ failure.is .insecureDelegation = true

instance {α : Type} (outcome : Except Err α) : Decidable (IsInsecure outcome) :=
  match outcome with
  | .ok _ => isFalse (by rintro ⟨_, ⟨⟩, _⟩)
  | .error failure => decidable_of_iff (failure.is .insecureDelegation = true)
      ⟨fun insecure => ⟨failure, rfl, insecure⟩, by rintro ⟨_, ⟨⟩, insecure⟩; exact insecure⟩

/-! ## Outcomes -/

variable {α : Type} {failure : Err} {order : List RRsetKey} {keys : KeySet}
  {session : Session Orders} {other : Name}

variable {outcome : Except Err α}

theorem mapError_eq_ok_iff {adjust : Err → Err} {value : α} :
    outcome.mapError adjust = .ok value ↔ outcome = .ok value := by
  cases outcome <;> simp [Except.mapError]

theorem isInsecure_wrap_iff {before after : Text} :
    IsInsecure (outcome.mapError fun cause => .wrap before cause after) ↔ IsInsecure outcome := by
  cases outcome with
  | error failure | ok value => simp [IsInsecure, Except.mapError]

theorem isInsecure_bind_iff {β : Type} {next : α → Except Err β} :
    IsInsecure (outcome.bind next) ↔
      IsInsecure outcome ∨ ∃ value, outcome = .ok value ∧ IsInsecure (next value) := by
  cases outcome with
  | error failure | ok value => simp [IsInsecure, Except.bind]

theorem isInsecure_error_iff (failure : Err) :
    IsInsecure (.error failure : Except Err α) ↔ failure.is .insecureDelegation = true := by
  simp [IsInsecure]

theorem not_isInsecure_ok (value : α) : ¬ IsInsecure (.ok value) := by
  rintro ⟨_, ⟨⟩, _⟩

/-! ## Outcomes of the checks -/

/-- The outcome of a DS lookup. -/
def dsLookup (zone : Name) : Except Err DSLookup :=
  ((resolver (.dnssec (dns.canonicalName zone) typeDS)).mapError Err.plain).map
    DSLookup.ofResponse

theorem dsLookup_not_insecure (zone : Name) : ¬ IsInsecure (dsLookup dns resolver zone) := by
  unfold dsLookup
  cases resolver (.dnssec (dns.canonicalName zone) typeDS) with
  | error message => rintro ⟨_, ⟨⟩, ⟨⟩⟩
  | ok msg => exact not_isInsecure_ok _

/-- The outcome of a DNSKEY lookup. -/
def dnskeyLookup (zone : Name) : Except Err (KeySet × List RRSIG) :=
  ((resolver (.dnssec (dns.canonicalName zone) typeDNSKEY)).mapError Err.plain).bind fun msg =>
    if msg.rcode = rcodeSuccess then
      .ok (KeySet.classify (dnskeysIn msg.answer), rrsigsIn msg.answer)
    else
      .error (.plain (text "DNSKEY lookup for " ++ quoted zone ++ text " failed: rcode " ++
        dns.rcodeToString msg.rcode))

theorem dnskeyLookup_eq_ok_iff (zone : Name) (found : KeySet × List RRSIG) :
    dnskeyLookup dns resolver zone = .ok found ↔
      ∃ msg, resolver (.dnssec (dns.canonicalName zone) typeDNSKEY) = .ok msg ∧
        msg.rcode = rcodeSuccess ∧
          found = (KeySet.classify (dnskeysIn msg.answer), rrsigsIn msg.answer) := by
  unfold dnskeyLookup
  cases resolver (.dnssec (dns.canonicalName zone) typeDNSKEY) with
  | error message => simp [Except.mapError, Except.bind]
  | ok msg =>
    by_cases success : msg.rcode = rcodeSuccess
    · simp [Except.mapError, Except.bind, success, eq_comm]
    · simp [Except.mapError, Except.bind, success]

theorem dnskeyLookup_not_insecure (zone : Name) :
    ¬ IsInsecure (dnskeyLookup dns resolver zone) := by
  unfold dnskeyLookup
  rw [isInsecure_bind_iff]
  rintro (insecure | ⟨msg, _, insecure⟩)
  · cases replied : resolver (.dnssec (dns.canonicalName zone) typeDNSKEY) with
    | error message =>
      rw [replied] at insecure
      obtain ⟨_, ⟨⟩, ⟨⟩⟩ := insecure
    | ok msg =>
      rw [replied] at insecure
      exact not_isInsecure_ok msg insecure
  · split at insecure
    · exact not_isInsecure_ok _ insecure
    · obtain ⟨_, ⟨⟩, ⟨⟩⟩ := insecure

variable {zone : Name}

/-- A denial that fails is bogus, not insecure. -/
theorem verifyDSDenial_not_insecure {resp : Msg} {parentKeys : List DNSKEY}
    (failed : verifyDSDenial dns order resp zone parentKeys now = .error failure) :
    failure.is .insecureDelegation = false := by
  simp only [verifyDSDenial] at failed
  split at failed
  · cases failed
  · cases failed
    rfl

/-- Neither is a signature that fails. -/
theorem verifyRRSIG_not_insecure {sig : RRSIG} {keys : List DNSKEY} {rrset : List RR}
    (failed : verifyRRSIG dns sig keys rrset now = .error failure) :
    failure.is .insecureDelegation = false := by
  have withKeys (matching : List DNSKEY) (lastErr : Text)
      (failed : verifyWithKeys dns sig rrset lastErr matching = .error failure) :
      failure.is .insecureDelegation = false := by
    induction matching generalizing lastErr with
    | nil =>
      cases failed
      rfl
    | cons key rest ih =>
      rw [verifyWithKeys] at failed
      split at failed
      · cases failed
      · exact ih _ failed
  unfold verifyRRSIG at failed
  split at failed
  · dsimp only at failed
    split at failed
    · cases failed
      rfl
    · exact withKeys _ _ failed
  · cases failed
    rfl

/-- The outcome of checking a delegation under the keys of its parent zone. -/
def delegationOutcome (zone : Name) (found : DSLookup) (parentKeys : KeySet) :
    Except Err (List DS) :=
  if found.ds = [] then
    (verifyDSDenial dns (rrsetKeys dns found.resp.ns) found.resp zone parentKeys.zsk now).bind
      fun _ => .error (Sentinel.insecureDelegation.withDetail (text ": " ++ zone))
  else if found.sigs = [] then
    .error (Sentinel.noSignature.withDetail (text ": DS for " ++ zone))
  else if verifyAnyRRSIG dns found.sigs parentKeys.zsk (found.ds.map RR.ds) now then
    .ok found.ds
  else
    .error (Sentinel.signatureInvalid.withDetail (text ": DS RRSIG for " ++ zone))

/-- A delegation is accepted when it is signed. -/
theorem delegationOutcome_eq_ok_iff (zone : Name) (found : DSLookup) (parentKeys : KeySet)
    (ds : List DS) :
    delegationOutcome dns now zone found parentKeys = .ok ds ↔
      found.ds = ds ∧ ds ≠ [] ∧
        verifyAnyRRSIG dns found.sigs parentKeys.zsk (ds.map RR.ds) now = true := by
  unfold delegationOutcome
  by_cases absent : found.ds = []
  · rw [if_pos absent, bind_eq_ok_iff]
    constructor
    · rintro ⟨_, _, ⟨⟩⟩
    · rintro ⟨rfl, nonempty, _⟩
      exact absurd absent nonempty
  · rw [if_neg absent]
    split
    · rename_i unsigned
      simp [verifyAnyRRSIG, unsigned]
    · split
      · rename_i verified
        constructor
        · rintro ⟨⟩
          exact ⟨rfl, absent, verified⟩
        · rintro ⟨rfl, _, _⟩
          rfl
      · rename_i unverified
        refine iff_of_false (by simp) ?_
        rintro ⟨rfl, _, verified⟩
        exact unverified verified

/-- A delegation is insecure when its DS records are denied. -/
theorem delegationOutcome_insecure_iff (zone : Name) (found : DSLookup) (parentKeys : KeySet) :
    IsInsecure (delegationOutcome dns now zone found parentKeys) ↔
      found.ds = [] ∧
        verifyDSDenial dns (rrsetKeys dns found.resp.ns) found.resp zone parentKeys.zsk now =
          .ok () := by
  unfold delegationOutcome
  by_cases absent : found.ds = []
  · rw [if_pos absent]
    cases denied : verifyDSDenial dns (rrsetKeys dns found.resp.ns) found.resp zone
        parentKeys.zsk now with
    | ok _ => exact iff_of_true ⟨_, rfl, rfl⟩ ⟨absent, rfl⟩
    | error failure =>
      refine iff_of_false ?_ (by simp)
      rw [Except.bind, isInsecure_error_iff, verifyDSDenial_not_insecure dns now denied]
      simp
  · rw [if_neg absent]
    refine iff_of_false ?_ fun denied => absent denied.1
    split
    · rintro ⟨_, ⟨⟩, ⟨⟩⟩
    · split
      · exact not_isInsecure_ok _
      · rintro ⟨_, ⟨⟩, ⟨⟩⟩

/-- The whole key set is signed by one of its keys that a DS record vouches for. -/
def selfVerifies (zone : Name) (keys : KeySet) (sigs : List RRSIG) (ds : List DS) : Bool :=
  verifyAnyRRSIG dns (selfSignatures dns zone sigs) (filterKeysByDS dns keys.ksk ds)
    (keys.all.map RR.dnskey) now

/-- The outcome of checking the signatures of a key set over itself. -/
def selfSignatureOutcome (zone : Name) (keys : KeySet) (sigs : List RRSIG) (ds : List DS) :
    Except Err Unit :=
  if filterKeysByDS dns keys.ksk ds = [] then
    .error (.wrap (text "KSK doesn't match DS for " ++ zone ++ text ": ")
      (.sentinel .dsMismatch) [])
  else if selfSignatures dns zone sigs = [] then
    .error (Sentinel.noSignature.withDetail (text ": no RRSIG covering DNSKEY for " ++ zone))
  else if selfVerifies dns now zone keys sigs ds then
    .ok ()
  else
    .error (.wrap (text "DNSKEY self-signature verification failed for " ++ zone ++ text ": ")
      (.sentinel .signatureInvalid) [])

theorem selfSignatureOutcome_eq_ok_iff (zone : Name) (keys : KeySet) (sigs : List RRSIG)
    (ds : List DS) :
    selfSignatureOutcome dns now zone keys sigs ds = .ok () ↔
      selfVerifies dns now zone keys sigs ds = true := by
  unfold selfSignatureOutcome
  split
  · rename_i mismatch
    refine iff_of_false (by simp) ?_
    rw [selfVerifies, mismatch, verifyAnyRRSIG_iff]
    rintro ⟨_, _, _, member, _⟩
    cases member
  · split
    · rename_i unsigned
      simp [selfVerifies, verifyAnyRRSIG, unsigned]
    · split
      · rename_i verified
        exact iff_of_true rfl verified
      · rename_i unverified
        exact iff_of_false (by simp) unverified

theorem selfSignatureOutcome_not_insecure (zone : Name) (keys : KeySet) (sigs : List RRSIG)
    (ds : List DS) : ¬ IsInsecure (selfSignatureOutcome dns now zone keys sigs ds) := by
  unfold selfSignatureOutcome
  split
  · rintro ⟨_, ⟨⟩, ⟨⟩⟩
  · split
    · rintro ⟨_, ⟨⟩, ⟨⟩⟩
    · split
      · exact not_isInsecure_ok _
      · rintro ⟨_, ⟨⟩, ⟨⟩⟩

/-! ## Single steps -/

section Steps

variable {invariant : Session Orders → Prop} (stable : Stable invariant)

include stable

theorem readClock_settles :
    Settles invariant (readClock (World.steady resolver now)) (.ok now) :=
  fun session holds => ⟨rfl, stable.clock session _ _ holds⟩

theorem resolve_settles (query : Query) :
    Settles invariant (resolve (World.steady resolver now) query)
      ((resolver query).mapError Err.plain) := by
  intro session holds
  have kept := stable.asked session session.world query holds
  cases reply : resolver query with
  | ok msg | error message =>
    simp only [resolve, Program.run, World.steady, reply]
    exact ⟨rfl, kept⟩

theorem lookupDS_settles (zone : Name) :
    Settles invariant (lookupDS dns (World.steady resolver now) zone)
      (dsLookup dns resolver zone) := by
  have asked := resolve_settles resolver now stable (.dnssec (dns.canonicalName zone) typeDS)
  unfold dsLookup
  cases reply : resolver (.dnssec (dns.canonicalName zone) typeDS) with
  | error message =>
    rw [reply] at asked
    exact asked.bind_error
  | ok msg =>
    rw [reply] at asked
    exact asked.bind_ok (.pure _)

theorem lookupDNSKEY_settles (zone : Name) :
    Settles invariant (lookupDNSKEY dns (World.steady resolver now) zone)
      (dnskeyLookup dns resolver zone) :=
  (resolve_settles resolver now stable (.dnssec (dns.canonicalName zone) typeDNSKEY)).bind
    fun _ => .ite (.pure _) (.fail _)

theorem verifyNow_settles (keys : List DNSKEY) (rrset : List RR) (sig : RRSIG) :
    Settles invariant (verifyNow dns (World.steady resolver now) keys rrset sig)
      (.ok (verifyRRSIG dns sig keys rrset now)) :=
  (readClock_settles resolver now stable).bind_ok (.pure _)

theorem tryKeys_settles (keys : List DNSKEY) (rrset : List RR) (sig : RRSIG) :
    Settles invariant (tryKeys dns (World.steady resolver now) keys rrset sig)
      (.ok (if (verifyRRSIG dns sig keys rrset now).toBool then some () else none)) := by
  refine (verifyNow_settles dns resolver now stable keys rrset sig).bind_ok ?_
  cases verifyRRSIG dns sig keys rrset now with
  | error failure => exact .pure none
  | ok _ => exact .pure (some ())

theorem anyVerifies_settles (keys : List DNSKEY) (rrset : List RR) (sigs : List RRSIG) :
    Settles invariant (anyVerifies dns (World.steady resolver now) keys rrset sigs)
      (.ok (verifyAnyRRSIG dns sigs keys rrset now)) := by
  refine (Settles.search_test (fun sig => (verifyRRSIG dns sig keys rrset now).toBool)
    fun sig _ => tryKeys_settles dns resolver now stable keys rrset sig).bind_ok ?_
  unfold verifyAnyRRSIG
  cases sigs.any fun sig => (verifyRRSIG dns sig keys rrset now).toBool <;> exact .pure _

omit stable in
/-- The order in which the sets are visited does not matter to the denial of a DS
record. -/
theorem verifyDSDenial_perm {keys : List RRsetKey} (perm : order.Perm keys) (resp : Msg)
    (zone : Name) (parentKeys : List DNSKEY) :
    verifyDSDenial dns order resp zone parentKeys now =
      verifyDSDenial dns keys resp zone parentKeys now := by
  simp only [verifyDSDenial]
  rw [perm.any_eq]

theorem checkDSDenial_settles (resp : Msg) (zone : Name) (parentKeys : List DNSKEY) :
    Settles invariant (checkDSDenial dns (World.steady resolver now) resp zone parentKeys)
      (verifyDSDenial dns (rrsetKeys dns resp.ns) resp zone parentKeys now) := by
  refine (readClock_settles resolver now stable).bind_ok fun session holds => ?_
  refine ⟨?_, stable.ranged session _ holds⟩
  exact verifyDSDenial_perm dns now (session.world 0 (rrsetKeys dns resp.ns)).property resp zone
    parentKeys

theorem checkDelegation_settles (zone : Name) (found : DSLookup) (parentKeys : KeySet) :
    Settles invariant (checkDelegation dns (World.steady resolver now) zone found parentKeys)
      (delegationOutcome dns now zone found parentKeys) := by
  have denial := checkDSDenial_settles dns resolver now stable found.resp zone parentKeys.zsk
  have verifies := anyVerifies_settles dns resolver now stable parentKeys.zsk
    (found.ds.map RR.ds) found.sigs
  exact .ite (denial.bind fun _ => .fail _)
    (.ite (.fail _) (verifies.bind_ok (.ite (.pure _) (.fail _))))

theorem checkSelfSignature_settles (zone : Name) (keys : KeySet) (sigs : List RRSIG)
    (ds : List DS) :
    Settles invariant (checkSelfSignature dns (World.steady resolver now) zone keys sigs ds)
      (selfSignatureOutcome dns now zone keys sigs ds) := by
  have verifies := anyVerifies_settles dns resolver now stable (filterKeysByDS dns keys.ksk ds)
    (keys.all.map RR.dnskey) (selfSignatures dns zone sigs)
  exact .ite (.fail _) (.ite (.fail _) (verifies.bind_ok (.ite (.pure _) (.fail _))))

end Steps

/-! ## The keystore as a memo -/

/-- The keys of a zone that a keystore has to offer. -/
def liveKeys (store : Keystore) (zone : Name) : KeySet :=
  match store.storedKeys dns zone with
  | none => ⟨[], []⟩
  | some stored => if stored.expiresAt < now then ⟨[], []⟩ else stored.keys

theorem getDNSKEY_run (session : Session Orders) (zone : Name) :
    ∃ trace, (getDNSKEY dns (World.steady resolver now) zone).run session =
      (.ok (liveKeys dns now session.store zone), { session with trace := trace }) := by
  cases found : session.store.storedKeys dns zone with
  | none =>
    refine ⟨session.trace, ?_⟩
    simp [getDNSKEY, readStore, run_bind, liveKeys, found]
  | some stored =>
    refine ⟨.clock now :: session.trace, ?_⟩
    by_cases expired : stored.expiresAt < now
    · simp [getDNSKEY, readStore, readClock, World.steady, run_bind, liveKeys, found, expired]
    · simp [getDNSKEY, readStore, readClock, World.steady, run_bind, liveKeys, found, expired]

/-- Keys that were just stored are there at the same instant, whatever their TTL. -/
theorem liveKeys_addDNSKEY (store : Keystore) (zone other : Name) (sorted : keys.Sorted) :
    liveKeys dns now (store.addDNSKEY dns zone keys.all now) other =
      if dns.canonicalName other = dns.canonicalName zone then keys
      else liveKeys dns now store other := by
  unfold liveKeys
  rw [Keystore.storedKeys_addDNSKEY]
  by_cases same : dns.canonicalName other = dns.canonicalName zone
  · simp [same, sorted.classify_all, Int.not_lt.mpr (le_expiry now _)]
  · simp [same]

/-- A session that differs from the start of a run only by what the chain of trust
found in the meantime. -/
structure Coherent (start session : Session Orders) : Prop where
  live : ∀ zone, Qualified zone →
    liveKeys dns now session.store zone = liveKeys dns now start.store zone ∨
      ((liveKeys dns now start.store zone).IsEmpty ∧
        (buildChainOfTrust dns (World.steady resolver now) zone).result start =
          .ok (liveKeys dns now session.store zone))
  anchors : session.store.storedDS dns root = start.store.storedDS dns root

variable {dns resolver now}

theorem coherent_refl {start : Session Orders} : Coherent dns resolver now start start :=
  ⟨fun _ _ => .inl rfl, rfl⟩

theorem Coherent.of_store_eq {start other : Session Orders}
    (coherent : Coherent dns resolver now start session) (same : other.store = session.store) :
    Coherent dns resolver now start other where
  live := by rw [same]; exact coherent.live
  anchors := by rw [same]; exact coherent.anchors

variable (dns resolver now)

theorem coherent_stable (start : Session Orders) : Stable (Coherent dns resolver now start) where
  asked _ _ _ coherent := coherent.of_store_eq rfl
  clock _ _ _ coherent := coherent.of_store_eq rfl
  ranged _ _ coherent := coherent.of_store_eq rfl

/-- The DS records of a name that a keystore has to offer. -/
def liveDS (store : Keystore) (name : Name) : List DS :=
  (store.storedDS dns name).elim [] fun stored =>
    if stored.expiresAt < now then [] else stored.records

theorem getDS_settled (start : Session Orders) :
    Settled (Coherent dns resolver now start) (getDS dns (World.steady resolver now) root) := by
  refine ⟨.ok (liveDS dns now start.store root), ?_⟩
  intro session coherent
  have same := coherent.anchors
  cases found : start.store.storedDS dns root with
  | none =>
    simpa [getDS, readStore, run_bind, same, liveDS, found] using coherent
  | some stored =>
    rw [found] at same
    have kept := (coherent_stable dns resolver now start).clock session session.world now coherent
    by_cases expired : stored.expiresAt < now <;>
      simpa [getDS, readStore, readClock, World.steady, run_bind, same, expired, liveDS, found]
        using kept

variable {start : Session Orders} {chain : Name → Action Orders KeySet}

section

variable (parentSettled : zone ≠ root →
  Settled (Coherent dns resolver now start) (chain (parentZone dns zone)))
include parentSettled

theorem authenticateDS_settled :
    Settled (Coherent dns resolver now start)
      (authenticateDS dns (World.steady resolver now) chain zone) := by
  have stable := coherent_stable dns resolver now start
  unfold authenticateDS
  split
  · exact (getDS_settled dns resolver now start).bind fun _ => .ite (.fail _) (.pure _)
  · rename_i below
    refine (lookupDS_settles dns resolver now stable zone).settled.mapError.bind fun found => ?_
    refine (parentSettled below).mapError.bind fun parentKeys => ?_
    exact (checkDelegation_settles dns resolver now stable zone found parentKeys).settled

theorem checkedKeys_settled :
    Settled (Coherent dns resolver now start)
      (checkedKeys dns (World.steady resolver now) chain zone) := by
  have stable := coherent_stable dns resolver now start
  refine (lookupDNSKEY_settles dns resolver now stable zone).settled.mapError.bind ?_
  rintro ⟨keys, sigs⟩
  refine .ite (.fail _) ((authenticateDS_settled dns resolver now parentSettled).bind fun ds => ?_)
  exact (checkSelfSignature_settles dns resolver now stable _ _ _ _).settled.bind fun _ => .pure _

end

/-- Names with one canonical form have one chain of trust. -/
theorem buildChainOfTrust_congr {ω : Type} (world : World ω) {zone : Name}
    (same : dns.canonicalName zone = dns.canonicalName other) :
    buildChainOfTrust dns world zone = buildChainOfTrust dns world other := by
  unfold buildChainOfTrust
  rw [same]
  cases (dns.canonicalName other).length with
  | zero => rfl
  | succ levels => simp only [chainWithin, chainStep, same]

theorem liveKeys_congr (store : Keystore) {zone : Name}
    (same : dns.canonicalName zone = dns.canonicalName other) :
    liveKeys dns now store zone = liveKeys dns now store other := by
  have stored_eq : store.storedKeys dns zone = store.storedKeys dns other :=
    congrArg (fun key => (store.lookup key).bind KeystoreEntry.keys) same
  rw [liveKeys, stored_eq, liveKeys]

/-- Stored keys are returned as they are. -/
theorem chainStep_run_stored (chain : Name → Action Orders KeySet)
    (present : ¬ (liveKeys dns now session.store (dns.canonicalName zone)).IsEmpty) :
    ∃ trace, (chainStep dns (World.steady resolver now) chain zone).run session =
      (.ok (liveKeys dns now session.store (dns.canonicalName zone)),
        { session with trace := trace }) := by
  obtain ⟨trace, looked⟩ := getDNSKEY_run dns resolver now session (dns.canonicalName zone)
  refine ⟨.trusted (dns.canonicalName zone)
    (liveKeys dns now session.store (dns.canonicalName zone)) :: trace, ?_⟩
  rw [chainStep, run_bind, zoneKeys, run_bind_of_ok looked, if_neg present]
  rfl

/-- Without stored keys, what the checks say is returned and, if they pass, stored. -/
theorem chainStep_run_absent {start : Session Orders} {outcome : Except Err KeySet}
    (checks : Settles (Coherent dns resolver now start)
      (checkedKeys dns (World.steady resolver now) chain (dns.canonicalName zone)) outcome)
    (coherent : Coherent dns resolver now start session)
    (absent : (liveKeys dns now session.store (dns.canonicalName zone)).IsEmpty) :
    ∃ reached after, Coherent dns resolver now start reached ∧
      (chainStep dns (World.steady resolver now) chain zone).run session = (outcome, after) ∧
      match outcome with
      | .error _ => after.store = reached.store
      | .ok keys => keys.Sorted ∧
          after.store = reached.store.addDNSKEY dns (dns.canonicalName zone) keys.all now := by
  obtain ⟨trace, looked⟩ := getDNSKEY_run dns resolver now session (dns.canonicalName zone)
  obtain ⟨outcome_eq, kept⟩ := checks { session with trace := trace } (coherent.of_store_eq rfl)
  have ran : (checkedKeys dns (World.steady resolver now) chain (dns.canonicalName zone)).run
      { session with trace := trace } = (outcome, _) := Prod.ext outcome_eq rfl
  refine ⟨_, _, kept, Prod.ext ?_ rfl, ?_⟩ <;>
    rw [chainStep, run_bind, zoneKeys, run_bind_of_ok looked, if_pos absent, fetchKeys]
  · cases outcome with
    | error failure => rw [run_bind_of_error ran]
    | ok keys => rw [run_bind_of_ok ran]; rfl
  · cases outcome with
    | error failure => rw [run_bind_of_error ran]
    | ok keys =>
      rw [run_bind_of_ok ran]
      exact ⟨(checkedKeys_evidence dns _ ran).sorted, rfl⟩

/-- Storing what the chain of trust of the start returns changes no result. -/
theorem Coherent.addDNSKEY {start reached after : Session Orders}
    (kept : Coherent dns resolver now start reached)
    (absent : (liveKeys dns now start.store zone).IsEmpty)
    (returned : (buildChainOfTrust dns (World.steady resolver now) zone).result start = .ok keys)
    (sorted : keys.Sorted)
    (store_eq : after.store = reached.store.addDNSKEY dns zone keys.all now) :
    Coherent dns resolver now start after := by
  refine ⟨fun other otherQualified => ?_, ?_⟩
  · rw [store_eq, liveKeys_addDNSKEY dns now _ _ _ sorted]
    split
    · rename_i same
      refine .inr ⟨?_, ?_⟩
      · rwa [liveKeys_congr dns now start.store same]
      · rwa [buildChainOfTrust_congr dns _ same]
    · exact kept.live other otherQualified
  · rw [store_eq, Keystore.storedDS_addDNSKEY]
    exact kept.anchors

/-- Stored keys were there at the start, or the chain of trust of the start returns them. -/
theorem Coherent.stored_result {start : Session Orders}
    (coherent : Coherent dns resolver now start session) (qualified : Qualified zone)
    (present : ¬ (liveKeys dns now session.store (dns.canonicalName zone)).IsEmpty) :
    (buildChainOfTrust dns (World.steady resolver now) zone).result start =
      .ok (liveKeys dns now session.store (dns.canonicalName zone)) := by
  have canonical := dns.isCanonical_canonicalName qualified
  rcases coherent.live _ canonical.1 with same | ⟨_, found⟩
  · rw [same] at present
    obtain ⟨_, startRan⟩ := chainStep_run_stored dns resolver now
      (buildChainOfTrust dns (World.steady resolver now)) present
    rw [Program.result, buildChainOfTrust_eq dns (World.steady resolver now) qualified, startRan,
      same]
  · rw [← buildChainOfTrust_congr dns _ canonical.2, found]

/-- One level of the chain of trust, from a session that is coherent with the start of
the run, returns what it returns from the start. -/
theorem chainStep_settled (qualified : Qualified zone)
    (parentSettled : dns.canonicalName zone ≠ root → Settled (Coherent dns resolver now start)
      (buildChainOfTrust dns (World.steady resolver now)
        (parentZone dns (dns.canonicalName zone)))) :
    Settled (Coherent dns resolver now start)
      (buildChainOfTrust dns (World.steady resolver now) zone) := by
  have canonical := dns.isCanonical_canonicalName qualified
  obtain ⟨outcome, checks⟩ := checkedKeys_settled dns resolver now parentSettled
  have unfolded := buildChainOfTrust_eq dns (World.steady resolver now) qualified
  refine ⟨(buildChainOfTrust dns (World.steady resolver now) zone).result start, ?_⟩
  intro session coherent
  by_cases present : (liveKeys dns now session.store (dns.canonicalName zone)).IsEmpty
  · -- nothing stored: then nothing was stored at the start, and both runs make the checks
    have atStart : (liveKeys dns now start.store (dns.canonicalName zone)).IsEmpty := by
      rcases coherent.live _ canonical.1 with same | ⟨absent, _⟩
      · rwa [← same]
      · exact absent
    obtain ⟨_, _, _, startRan, _⟩ :=
      chainStep_run_absent dns resolver now checks coherent_refl atStart
    obtain ⟨reached, after, kept, ran, stored⟩ :=
      chainStep_run_absent dns resolver now checks coherent present
    have startResult : (buildChainOfTrust dns (World.steady resolver now) zone).result start =
        outcome := by
      rw [Program.result, unfolded, startRan]
    rw [startResult, unfolded, ran]
    refine ⟨rfl, ?_⟩
    cases outcome with
    | error failure => exact kept.of_store_eq stored
    | ok keys =>
      obtain ⟨sorted, store_eq⟩ := stored
      rw [← buildChainOfTrust_congr dns _ canonical.2] at startResult
      exact kept.addDNSKEY dns resolver now atStart startResult sorted store_eq
  · obtain ⟨trace, ran⟩ := chainStep_run_stored dns resolver now
      (buildChainOfTrust dns (World.steady resolver now)) present
    rw [coherent.stored_result dns resolver now qualified present, unfolded, ran]
    exact ⟨rfl, coherent.of_store_eq rfl⟩

/-- The chain of trust of every zone is settled. -/
theorem buildChainOfTrust_settled (start : Session Orders) (qualified : Qualified zone) :
    Settled (Coherent dns resolver now start)
      (buildChainOfTrust dns (World.steady resolver now) zone) := by
  induction length : (dns.canonicalName zone).length using Nat.strong_induction_on
    generalizing zone with
  | _ length ih =>
    subst length
    have canonical := dns.isCanonical_canonicalName qualified
    refine chainStep_settled dns resolver now qualified fun below => ?_
    have parent := isCanonical_parentZone dns canonical
    refine ih _ ?_ parent.1 rfl
    rw [parent.2]
    exact length_parentZone_lt dns canonical below

end RouteDns.Dnssec
