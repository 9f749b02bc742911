import RouteDns.Dnssec.Steady

/-!
# One level of the chain of trust in a world that stands still

Between one zone and its parent the chain of trust does one DNSKEY lookup, one DS
lookup and two signature checks.  This file says exactly when a level returns keys and
when it reports an insecure delegation, in terms of what the resolver sends and what
the level above returns.
-/

namespace RouteDns.Dnssec

open Dns Program

variable (dns : Library) (resolver : Query → Except Text Msg) (now : Time)
  (start : Session Orders)

/-! ## The chain of trust -/

/-- What the chain of trust of a zone returns. -/
def chainResult (zone : Name) : Except Err KeySet :=
  (buildChainOfTrust dns (World.steady resolver now) zone).result start

variable {zone : Name}

theorem chain_settles (qualified : Qualified zone) :
    Settles (Coherent dns resolver now start)
      (buildChainOfTrust dns (World.steady resolver now) zone)
      (chainResult dns resolver now start zone) :=
  (buildChainOfTrust_settled dns resolver now start qualified).settles coherent_refl

/-- The outcome of authenticating the DS records of a zone. -/
def dsResult (zone : Name) : Except Err (List DS) :=
  (authenticateDS dns (World.steady resolver now)
    (buildChainOfTrust dns (World.steady resolver now)) zone).result start

/-- At the root the configured anchors are the DS records. -/
theorem dsResult_root_eq_ok_iff (ds : List DS) :
    dsResult dns resolver now start root = .ok ds ↔
      ds = liveDS dns now start.store root ∧ ds ≠ [] := by
  have read : ((getDS dns (World.steady resolver now) root).run start).1 =
      .ok (liveDS dns now start.store root) := by
    cases found : start.store.storedDS dns root with
    | none => simp [getDS, readStore, run_bind, liveDS, found]
    | some stored =>
      by_cases expired : stored.expiresAt < now <;>
        simp [getDS, readStore, readClock, World.steady, run_bind, liveDS, found, expired]
  rw [dsResult, authenticateDS, if_pos rfl, Program.result, run_bind_of_ok (Prod.ext read rfl)]
  split
  · rename_i none
    simp [none]
  · rename_i some
    simp only [run_pure, Except.ok.injEq]
    constructor
    · rintro rfl
      exact ⟨rfl, some⟩
    · rintro ⟨rfl, _⟩
      rfl

/-- Below the root the outcome is that of the DS lookup, then that of the chain of the
parent zone, then that of the delegation. -/
theorem dsResult_below (qualified : Qualified zone) (below : zone ≠ root) :
    ∃ first second, dsResult dns resolver now start zone =
      ((dsLookup dns resolver zone).mapError fun cause => .wrap first cause []).bind fun found =>
        ((chainResult dns resolver now start (parentZone dns zone)).mapError
          fun cause => .wrap second cause []).bind fun parentKeys =>
            delegationOutcome dns now zone found parentKeys := by
  have stable := coherent_stable dns resolver now start
  have lookup := lookupDS_settles dns resolver now stable zone
  have parent := chain_settles dns resolver now start (qualified_parentZone dns qualified)
  refine ⟨text "failed to lookup DS for " ++ zone ++ text ": ",
    text "failed to build chain of trust for parent " ++ parentZone dns zone ++ text ": ", ?_⟩
  rw [dsResult, authenticateDS, if_neg below]
  refine Settles.result_eq ?_ (coherent_refl : Coherent dns resolver now start start)
  exact lookup.mapError.bind fun found => parent.mapError.bind fun parentKeys =>
    checkDelegation_settles dns resolver now stable zone found parentKeys

/-- DS records are authenticated when a zone-signing key of the parent signed them. -/
theorem dsResult_eq_ok_iff (qualified : Qualified zone) (below : zone ≠ root) (ds : List DS) :
    dsResult dns resolver now start zone = .ok ds ↔
      ∃ found parentKeys, dsLookup dns resolver zone = .ok found ∧
        chainResult dns resolver now start (parentZone dns zone) = .ok parentKeys ∧
          found.ds = ds ∧ ds ≠ [] ∧
            verifyAnyRRSIG dns found.sigs parentKeys.zsk (ds.map RR.ds) now = true := by
  obtain ⟨_, _, unfolded⟩ := dsResult_below dns resolver now start qualified below
  simp only [unfolded, bind_eq_ok_iff, mapError_eq_ok_iff, delegationOutcome_eq_ok_iff,
    exists_and_left]

/-- A delegation is insecure when that of an enclosing zone is, or when the parent denies
its DS records. -/
theorem dsResult_insecure_iff (qualified : Qualified zone) (below : zone ≠ root) :
    IsInsecure (dsResult dns resolver now start zone) ↔
      ∃ found, dsLookup dns resolver zone = .ok found ∧
        (IsInsecure (chainResult dns resolver now start (parentZone dns zone)) ∨
          ∃ parentKeys, chainResult dns resolver now start (parentZone dns zone) = .ok parentKeys ∧
            found.ds = [] ∧ verifyDSDenial dns (rrsetKeys dns found.resp.ns) found.resp zone
              parentKeys.zsk now = .ok ()) := by
  obtain ⟨_, _, unfolded⟩ := dsResult_below dns resolver now start qualified below
  simp only [unfolded, isInsecure_bind_iff, isInsecure_wrap_iff, mapError_eq_ok_iff,
    delegationOutcome_insecure_iff, dsLookup_not_insecure, false_or]

/-- The outcome of fetching and checking the keys of a zone. -/
def keysResult (zone : Name) : Except Err KeySet :=
  (checkedKeys dns (World.steady resolver now)
    (buildChainOfTrust dns (World.steady resolver now)) zone).result start

/-- The keys a DNSKEY response offers. -/
def offeredKeys (msg : Msg) : KeySet :=
  KeySet.classify (dnskeysIn msg.answer)

/-- The outcome of checking offered keys against the DS records of their zone. -/
def offeredOutcome (zone : Name) (keys : KeySet) (sigs : List RRSIG) : Except Err KeySet :=
  if keys.ksk = [] then
    .error (Sentinel.noKey.withDetail (text ": no KSK for " ++ zone))
  else
    (dsResult dns resolver now start zone).bind fun ds =>
      (selfSignatureOutcome dns now zone keys sigs ds).bind fun _ => .ok keys

theorem checkOffered_settles (qualified : Qualified zone) (keys : KeySet) (sigs : List RRSIG) :
    Settles (Coherent dns resolver now start) (checkOffered dns (World.steady resolver now)
        (buildChainOfTrust dns (World.steady resolver now)) zone keys sigs)
      (offeredOutcome dns resolver now start zone keys sigs) := by
  have stable := coherent_stable dns resolver now start
  have authenticated := (authenticateDS_settled dns resolver now (fun _ : zone ≠ root =>
    buildChainOfTrust_settled dns resolver now start (qualified_parentZone dns qualified))).settles
      coherent_refl
  exact .ite (.fail _) (authenticated.bind fun ds =>
    (checkSelfSignature_settles dns resolver now stable zone keys sigs ds).bind fun _ => .pure keys)

/-- Offered keys are accepted when they are signed by one of their own that an
authenticated DS record vouches for. -/
theorem offeredOutcome_eq_ok_iff (zone : Name) (keys : KeySet) (sigs : List RRSIG)
    (accepted : KeySet) :
    offeredOutcome dns resolver now start zone keys sigs = .ok accepted ↔
      keys = accepted ∧ keys.ksk ≠ [] ∧ ∃ ds, dsResult dns resolver now start zone = .ok ds ∧
        selfVerifies dns now zone keys sigs ds = true := by
  unfold offeredOutcome
  split
  · rename_i none
    simp [none]
  · rename_i some
    simp only [bind_eq_ok_iff, Except.ok.injEq]
    constructor
    · rintro ⟨ds, found, ⟨⟩, verified, same⟩
      exact ⟨same, some, ds, found, (selfSignatureOutcome_eq_ok_iff ..).mp verified⟩
    · rintro ⟨same, _, ds, found, verified⟩
      exact ⟨ds, found, (), (selfSignatureOutcome_eq_ok_iff ..).mpr verified, same⟩

theorem offeredOutcome_insecure_iff (zone : Name) (keys : KeySet) (sigs : List RRSIG) :
    IsInsecure (offeredOutcome dns resolver now start zone keys sigs) ↔
      keys.ksk ≠ [] ∧ IsInsecure (dsResult dns resolver now start zone) := by
  unfold offeredOutcome
  split
  · rename_i none
    refine iff_of_false ?_ (by simp [none])
    rintro ⟨_, ⟨⟩, ⟨⟩⟩
  · rename_i some
    simp [isInsecure_bind_iff, selfSignatureOutcome_not_insecure, not_isInsecure_ok, some]

variable {dns resolver now start}

theorem keysResult_eq (qualified : Qualified zone) :
    keysResult dns resolver now start zone =
      ((dnskeyLookup dns resolver zone).mapError fun cause =>
        .wrap (text "failed to lookup DNSKEY for " ++ zone ++ text ": ") cause []).bind
          fun found => offeredOutcome dns resolver now start zone found.1 found.2 := by
  have stable := coherent_stable dns resolver now start
  refine Settles.result_eq ?_ (coherent_refl : Coherent dns resolver now start start)
  exact (lookupDNSKEY_settles dns resolver now stable zone).mapError.bind fun found =>
    checkOffered_settles dns resolver now start qualified found.1 found.2

/-- When the keys of a zone are accepted, and when the zone is found to be insecure. -/
theorem keysResult_cases (qualified : Qualified zone) :
    (∀ keys, keysResult dns resolver now start zone = .ok keys ↔
      ∃ msg, resolver (.dnssec (dns.canonicalName zone) typeDNSKEY) = .ok msg ∧
        msg.rcode = rcodeSuccess ∧ offeredKeys msg = keys ∧ keys.ksk ≠ [] ∧
          ∃ ds, dsResult dns resolver now start zone = .ok ds ∧
            selfVerifies dns now zone keys (rrsigsIn msg.answer) ds = true) ∧
    (IsInsecure (keysResult dns resolver now start zone) ↔
      ∃ msg, resolver (.dnssec (dns.canonicalName zone) typeDNSKEY) = .ok msg ∧
        msg.rcode = rcodeSuccess ∧ (offeredKeys msg).ksk ≠ [] ∧
          IsInsecure (dsResult dns resolver now start zone)) := by
  rw [keysResult_eq qualified]
  constructor
  · intro keys
    simp only [bind_eq_ok_iff, mapError_eq_ok_iff, dnskeyLookup_eq_ok_iff,
      offeredOutcome_eq_ok_iff]
    constructor
    · rintro ⟨_, ⟨msg, replied, success, rfl⟩, rfl, nonempty, vouched⟩
      exact ⟨msg, replied, success, rfl, nonempty, vouched⟩
    · rintro ⟨msg, replied, success, rfl, nonempty, vouched⟩
      exact ⟨_, ⟨msg, replied, success, rfl⟩, rfl, nonempty, vouched⟩
  · simp only [isInsecure_bind_iff, isInsecure_wrap_iff, dnskeyLookup_not_insecure, false_or,
      mapError_eq_ok_iff, dnskeyLookup_eq_ok_iff, offeredOutcome_insecure_iff]
    constructor
    · rintro ⟨_, ⟨msg, replied, success, rfl⟩, nonempty, insecure⟩
      exact ⟨msg, replied, success, nonempty, insecure⟩
    · rintro ⟨msg, replied, success, nonempty, insecure⟩
      exact ⟨_, ⟨msg, replied, success, rfl⟩, nonempty, insecure⟩

/-- The chain of trust of a zone is its stored keys, or else what the checks say. -/
theorem chainResult_eq (canonical : dns.IsCanonical zone) :
    chainResult dns resolver now start zone =
      if (liveKeys dns now start.store zone).IsEmpty then keysResult dns resolver now start zone
      else .ok (liveKeys dns now start.store zone) := by
  have checks := (checkedKeys_settled dns resolver now (fun _ : zone ≠ root =>
    buildChainOfTrust_settled dns resolver now start
      (qualified_parentZone dns canonical.1))).settles coherent_refl
  have unfolded := buildChainOfTrust_eq dns (World.steady resolver now) canonical.1
  rw [chainResult, Program.result, unfolded]
  split
  · rename_i absent
    rw [← canonical.2] at checks absent
    obtain ⟨_, _, _, ran, _⟩ :=
      chainStep_run_absent dns resolver now checks coherent_refl absent
    rw [ran, keysResult, canonical.2]
  · rename_i present
    rw [← canonical.2] at present
    obtain ⟨_, ran⟩ := chainStep_run_stored dns resolver now
      (buildChainOfTrust dns (World.steady resolver now)) present
    rw [ran, canonical.2]

end RouteDns.Dnssec
