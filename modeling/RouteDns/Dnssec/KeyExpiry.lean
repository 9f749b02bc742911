import RouteDns.Dnssec.Trust
import RouteDns.Dnssec.Steady
import RouteDns.Program.Erasure

/-!
# How long fetched keys are trusted

A stored key set is used until the smallest TTL in the headers of its records runs out.
The signature that authenticated the set has an expiration time and an original TTL of
its own, which the validator does not look at when it stores the set.

The fetch of a key set is run once more with the signature and the times it involves
as results, so that whole runs can be compared with them.
-/

namespace RouteDns.Dnssec

open Dns Program

variable (dns : Library) {ω : Type} (world : World ω)

/-- What authenticated a set of fetched keys.  `fetchedAt` is the time at which the
response came in, which the validator does not read. -/
structure Authentication where
  keys : KeySet
  sig : RRSIG
  fetchedAt : Time
  checkedAt : Time
  deriving DecidableEq

/-- An authenticated key set that was stored. -/
structure Fetch extends Authentication where
  storedAt : Time
  deriving DecidableEq

namespace Fetch

/-- The smallest TTL in the headers of the fetched keys. -/
def headerTtl (fetch : Fetch) : UInt32 :=
  minTtl (fetch.keys.all.map fun key => key.hdr.ttl)

/-- The time until which the keystore hands out the keys. -/
def expiresAt (fetch : Fetch) : Time :=
  expiry fetch.storedAt fetch.headerTtl

/-- What the keystore holds. -/
def stored (fetch : Fetch) : DnskeySet where
  expiresAt := fetch.expiresAt
  keys := fetch.keys

end Fetch

/-! ## The fetch with its circumstances -/

/-- The first signature that verifies, and the time at which it was checked. -/
def firstVerifying (keys : List DNSKEY) (rrset : List RR) (sigs : List RRSIG) :
    Action ω (Option (RRSIG × Time)) :=
  Program.search (fun sig => do
    let now ← readClock world
    match verifyRRSIG dns sig keys rrset now with
    | .ok () => pure (some (sig, now))
    | .error _ => pure none) sigs

/-- `checkSelfSignature` with the signature that it accepts. -/
def selfSignature (zone : Name) (keys : KeySet) (sigs : List RRSIG) (ds : List DS) :
    Action ω (RRSIG × Time) := do
  let trustedKSK := filterKeysByDS dns keys.ksk ds
  if trustedKSK = [] then
    Program.fail (.wrap (text "KSK doesn't match DS for " ++ zone ++ text ": ")
      (.sentinel .dsMismatch) [])
  else
    let candidates := selfSignatures dns zone sigs
    if candidates = [] then
      Program.fail (Sentinel.noSignature.withDetail
        (text ": no RRSIG covering DNSKEY for " ++ zone))
    else
      match ← firstVerifying dns world trustedKSK (keys.all.map RR.dnskey) candidates with
      | some verified => pure verified
      | none =>
        Program.fail (.wrap (text "DNSKEY self-signature verification failed for " ++ zone ++
          text ": ") (.sentinel .signatureInvalid) [])

/-- `checkedKeys` with what authenticated the keys. -/
def authenticatedKeys (chain : Name → Action ω KeySet) (zone : Name) :
    Action ω Authentication := do
  let found ← (lookupDNSKEY dns world zone).mapError
    fun cause => .wrap (text "failed to lookup DNSKEY for " ++ zone ++ text ": ") cause []
  let fetchedAt ← Program.step fun session => ((world.now session.world).1, session)
  if found.1.ksk = [] then
    Program.fail (Sentinel.noKey.withDetail (text ": no KSK for " ++ zone))
  else do
    let ds ← authenticateDS dns world chain zone
    let verified ← selfSignature dns world zone found.1 found.2 ds
    pure { keys := found.1, sig := verified.1, fetchedAt := fetchedAt, checkedAt := verified.2 }

/-- `fetchKeys` with what authenticated the keys and when they were stored. -/
def fetchSigned (chain : Name → Action ω KeySet) (zone : Name) : Action ω Fetch := do
  let authentication ← authenticatedKeys dns world chain zone
  let storedAt ← readClock world
  writeStore ((← readStore).addDNSKEY dns zone authentication.keys.all storedAt)
  pure { authentication with storedAt := storedAt }

theorem anyVerifies_erases (keys : List DNSKEY) (rrset : List RR) (sigs : List RRSIG) :
    Erases Option.isSome (firstVerifying dns world keys rrset sigs)
      (anyVerifies dns world keys rrset sigs) := by
  have passes : Erases (Option.map fun _ => ()) (firstVerifying dns world keys rrset sigs)
      (Program.search (tryKeys dns world keys rrset) sigs) := by
    refine Erases.search (fun sig => ?_) sigs
    intro state
    simp only [tryKeys, verifyNow, readClock, run_bind, run_step, run_pure]
    rcases verifyRRSIG dns sig keys rrset (world.now state.world).1 with failure | ⟨⟩ <;> rfl
  intro state
  rw [anyVerifies, run_bind, passes state]
  rcases (firstVerifying dns world keys rrset sigs).run state with ⟨failure | found, reached⟩
  · rfl
  · cases found <;> rfl

theorem checkSelfSignature_erases (zone : Name) (keys : KeySet) (sigs : List RRSIG)
    (ds : List DS) :
    Erases (fun _ => ()) (selfSignature dns world zone keys sigs ds)
      (checkSelfSignature dns world zone keys sigs ds) := by
  refine Erases.ite (Erases.fail _) (Erases.ite (Erases.fail _) ?_)
  refine Erases.bind (anyVerifies_erases dns world _ _ _) ?_
  rintro (_ | verified)
  · exact Erases.fail _
  · exact Erases.pure verified

theorem checkedKeys_erases (chain : Name → Action ω KeySet) (zone : Name) :
    Erases Authentication.keys (authenticatedKeys dns world chain zone)
      (checkedKeys dns world chain zone) := by
  refine Erases.bind_left fun found => ?_
  refine Erases.observe _ fun fetchedAt => ?_
  refine Erases.ite (Erases.fail _) (Erases.bind_left fun ds => ?_)
  exact Erases.bind (checkSelfSignature_erases dns world zone found.1 found.2 ds) fun verified =>
    Erases.pure _

theorem fetchKeys_erases (chain : Name → Action ω KeySet) (zone : Name) :
    Erases (fun fetch => fetch.keys) (fetchSigned dns world chain zone)
      (fetchKeys dns world chain zone) := by
  exact Erases.bind (checkedKeys_erases dns world chain zone) fun authentication _ => rfl

variable {zone : Name} {fetch : Fetch}

variable {after before session : Session ω} {chain : Name → Action ω KeySet}

section

variable (ran : (fetchSigned dns world chain zone).run before = (.ok fetch, after))
include ran

/-- Storing is all that a fetch does after the checks. -/
theorem fetchSigned_run :
    ∃ checked, (checkedKeys dns world chain zone).run before = (.ok fetch.keys, checked) ∧
      after = { store := checked.store.addDNSKEY dns zone fetch.keys.all fetch.storedAt
                world := (world.now checked.world).2
                trace := .clock fetch.storedAt :: checked.trace } := by
  obtain ⟨authentication, checked, ranChecked, stored⟩ := run_bind_eq_ok ran
  cases stored
  exact ⟨checked, (checkedKeys_erases dns world chain zone).run_of_ok ranChecked, rfl⟩

/-- Fetched keys are sorted by their flags, and there are some. -/
theorem fetchSigned_keys : fetch.keys.Sorted ∧ ¬ fetch.keys.IsEmpty := by
  obtain ⟨checked, ranChecked, _⟩ := fetchSigned_run dns world ran
  have evidence := checkedKeys_evidence dns world ranChecked
  obtain ⟨_, _, _, _, _, key, trusted, _⟩ := evidence.vouched
  have member : key ∈ fetch.keys.ksk := ((mem_filterKeysByDS dns).mp trusted).1
  exact ⟨evidence.sorted, fun empty => List.ne_nil_of_mem member empty.2⟩

end

/-! ## Where stored and returned keys come from -/

/-- A key set was fetched for a zone in the course of what a trace records. -/
def FetchedBefore (trace : List Event) (zone : Name) (fetch : Fetch) : Prop :=
  ∃ before after, (fetchSigned dns world (buildChainOfTrust dns world) zone).run before =
    (.ok fetch, after) ∧ after.trace <:+ trace

/-- The keys of a zone were in use at the time of the latest event of a trace. -/
def InUse (trace : List Event) (zone : Name) (keys : KeySet) : Prop :=
  ∃ time older fetch, trace = .clock time :: older ∧ FetchedBefore dns world trace zone fetch ∧
    fetch.keys = keys ∧ time ≤ fetch.expiresAt

/-- Every stored key set comes from a fetch, and so does every key set a chain of trust
returned, which was in use then. -/
structure Accounted (session : Session ω) : Prop where
  stored : ∀ name set, session.store.storedKeys dns name = some set →
    ∃ fetch, FetchedBefore dns world session.trace (dns.canonicalName name) fetch ∧
      set = fetch.stored
  returned : ∀ newer zone keys older, session.trace = newer ++ .trusted zone keys :: older →
    InUse dns world older zone keys

variable {dns world}

theorem FetchedBefore.mono {trace later : List Event}
    (fetched : FetchedBefore dns world trace zone fetch) (grows : trace <:+ later) :
    FetchedBefore dns world later zone fetch := by
  obtain ⟨before, after, ran, inside⟩ := fetched
  exact ⟨before, after, ran, inside.trans grows⟩

theorem accounted_fresh (start : ω) :
    Accounted dns world { store := ∅, world := start, trace := [] } where
  stored := by simp [Keystore.storedKeys]
  returned := by simp

/-- Adding one event keeps the account; returned keys must be in use. -/
theorem Accounted.cons (accounted : Accounted dns world session) (event : Event) (state : ω)
    (inUse : ∀ zone keys, event = .trusted zone keys → InUse dns world session.trace zone keys) :
    Accounted dns world { session with world := state, trace := event :: session.trace } where
  stored := by
    intro name set found
    obtain ⟨fetch, fetched, same⟩ := accounted.stored name set found
    exact ⟨fetch, fetched.mono (List.suffix_cons _ _), same⟩
  returned := by
    rintro (_ | ⟨first, newer⟩) zone keys older split
    · obtain ⟨rfl, rfl⟩ := List.cons.inj split
      exact inUse zone keys rfl
    · exact accounted.returned newer zone keys older (List.cons.inj split).2

theorem accounted_stable : Stable (Accounted dns world) where
  asked _ state query accounted := accounted.cons (.asked query) state (by simp)
  clock _ state time accounted := accounted.cons (.clock time) state (by simp)
  ranged _ _ accounted := ⟨accounted.stored, accounted.returned⟩

/-- Fetched keys may be stored. -/
theorem Accounted.addDNSKEY (accounted : Accounted dns world session)
    (canonical : dns.IsCanonical zone) (sorted : fetch.keys.Sorted)
    (fetched : FetchedBefore dns world session.trace zone fetch) :
    Accounted dns world { session with
      store := session.store.addDNSKEY dns zone fetch.keys.all fetch.storedAt } where
  stored := by
    intro name set found
    rw [Keystore.storedKeys_addDNSKEY] at found
    split at found
    · rename_i same
      cases found
      rw [same, canonical.2, sorted.classify_all]
      exact ⟨fetch, fetched, rfl⟩
    · exact accounted.stored name set found
  returned := accounted.returned

variable (world) in
theorem getDNSKEY_accounted (canonical : dns.IsCanonical zone) :
    Triple (Accounted dns world) (getDNSKEY dns world zone)
      (fun keys session => Accounted dns world session ∧
        (¬ keys.IsEmpty → InUse dns world session.trace zone keys))
      (fun _ => Accounted dns world) := by
  refine Triple.bind _ readStore_triple fun store => ?_
  cases found : store.storedKeys dns zone with
  | none => exact Triple.pure fun session holds => ⟨holds.1, absurd KeySet.isEmpty_nil⟩
  | some set =>
    refine Triple.bind (fun now session => Accounted dns world session ∧
      session.store = store ∧ ∃ older, session.trace = .clock now :: older)
      (Triple.step fun session holds =>
        ⟨accounted_stable.clock _ _ _ holds.1, holds.2, _, rfl⟩) fun now => ?_
    refine Triple.ite (fun _ => Triple.pure fun session holds =>
      ⟨holds.1, absurd KeySet.isEmpty_nil⟩) (fun live => ?_)
    refine Triple.pure fun session holds => ⟨holds.1, fun _ => ?_⟩
    obtain ⟨accounted, rfl, older, read⟩ := holds
    obtain ⟨fetch, fetched, rfl⟩ := accounted.stored zone set found
    rw [canonical.2] at fetched
    exact ⟨now, older, fetch, read, fetched, rfl, Int.not_lt.mp live⟩

variable (world) in
theorem fetchKeys_accounted (canonical : dns.IsCanonical zone)
    (parentOk : zone ≠ root →
      Keeps (Accounted dns world) (buildChainOfTrust dns world (parentZone dns zone))) :
    Triple (Accounted dns world) (fetchKeys dns world (buildChainOfTrust dns world) zone)
      (fun keys session => Accounted dns world session ∧ InUse dns world session.trace zone keys)
      (fun _ => Accounted dns world) := by
  have grounds : Grounds dns (Accounted dns world) (fun _ _ => True) (fun _ _ => True) :=
    ⟨accounted_stable, fun _ _ _ known => known, fun _ _ _ known => known, fun _ _ _ _ => trivial⟩
  have checks : Keeps (Accounted dns world)
      (checkedKeys dns world (buildChainOfTrust dns world) zone) :=
    .of_triple (checkedKeys_triple dns world grounds fun below => (parentOk below).imp
      (fun _ holds => holds) (fun _ _ holds => ⟨holds, trivial⟩) (fun _ _ holds => holds))
  intro before accounted
  have checked_accounted := checks before accounted
  rcases outcome : (fetchKeys dns world (buildChainOfTrust dns world) zone).run before with
    ⟨failure | keys, after⟩
  · -- A fetch fails in its checks: storing cannot fail.
    rcases ranChecked : (checkedKeys dns world (buildChainOfTrust dns world) zone).run before with
      ⟨cause | keys, checked⟩
    · rw [fetchKeys, run_bind_of_error ranChecked] at outcome
      cases outcome
      rwa [ranChecked] at checked_accounted
    · rw [fetchKeys, run_bind_of_ok ranChecked] at outcome
      cases outcome
  · obtain ⟨fetch, ran, rfl⟩ := (fetchKeys_erases dns world _ zone).run_eq_ok outcome
    obtain ⟨checked, ranChecked, rfl⟩ := fetchSigned_run dns world ran
    rw [ranChecked] at checked_accounted
    have fetched : FetchedBefore dns world (.clock fetch.storedAt :: checked.trace) zone fetch :=
      ⟨_, _, ran, List.suffix_refl _⟩
    exact ⟨(accounted_stable.clock _ _ _ checked_accounted).addDNSKEY canonical
        (fetchSigned_keys dns world ran).1 fetched,
      fetch.storedAt, checked.trace, fetch, rfl, fetched, rfl, le_expiry _ _⟩

variable (world) in
theorem chainStep_accounted (qualified : Qualified zone)
    (parentOk : dns.canonicalName zone ≠ root → Keeps (Accounted dns world)
      (buildChainOfTrust dns world (parentZone dns (dns.canonicalName zone)))) :
    Keeps (Accounted dns world) (chainStep dns world (buildChainOfTrust dns world) zone) := by
  have canonical := dns.isCanonical_canonicalName qualified
  refine Triple.bind (fun keys session => Accounted dns world session ∧
    InUse dns world session.trace (dns.canonicalName zone) keys) ?_ fun keys => ?_
  · refine Triple.bind _ (getDNSKEY_accounted world canonical) fun stored => ?_
    refine Triple.ite (fun _ => ?_) (fun nonempty => Triple.pure fun session holds =>
      ⟨holds.1, holds.2 nonempty⟩)
    exact (fetchKeys_accounted world canonical parentOk).imp (fun _ holds => holds.1)
      (fun _ _ holds => holds) (fun _ _ holds => holds)
  · refine Triple.bind (fun _ => Accounted dns world) (Triple.step ?_) fun _ => Keeps.pure keys
    rintro session ⟨accounted, inUse⟩
    refine accounted.cons _ session.world ?_
    rintro _ _ ⟨⟩
    exact inUse

variable (world) in
theorem buildChainOfTrust_accounted (qualified : Qualified zone) :
    Keeps (Accounted dns world) (buildChainOfTrust dns world zone) := by
  -- The names of the zones on the way up get shorter.
  generalize bound : (dns.canonicalName zone).length = length
  induction length using Nat.strong_induction_on generalizing zone with
  | _ length ih =>
    have canonical := dns.isCanonical_canonicalName qualified
    have parent := isCanonical_parentZone dns canonical
    rw [buildChainOfTrust_eq dns world qualified]
    refine chainStep_accounted world qualified fun below => ?_
    have shorter := length_parentZone_lt dns canonical below
    exact ih _ (bound ▸ shorter) parent.1 (by rw [parent.2])

variable (world) in
theorem setAnchor_accounted (anchor : AnchorOwner dns) (tag : UInt16) (alg digestType : UInt8)
    (digest : Text) :
    Keeps (Accounted dns world) (setAnchor dns world anchor tag alg digestType digest) := by
  refine Triple.bind (fun _ => Accounted dns world)
    (Triple.step fun session accounted => accounted.cons _ session.world (by simp)) fun _ => ?_
  refine Triple.bind _ (readClock_triple world accounted_stable) fun now => ?_
  refine Triple.bind _ readStore_triple fun store => ?_
  refine Triple.step ?_
  rintro session ⟨⟨accounted, _⟩, rfl⟩
  exact { stored := by simpa only [Keystore.storedKeys_addDS] using accounted.stored
          returned := accounted.returned }

/-- Every call keeps the account. -/
theorem Call.perform_accounted (call : Call dns) :
    Keeps (Accounted dns world) (call.perform world) := by
  cases call with
  | setAnchor anchor tag alg digestType digest =>
    exact setAnchor_accounted world anchor tag alg digestType digest
  | validate answer =>
    exact .bind (validate_keeps dns world accounted_stable
      (fun _ => buildChainOfTrust_accounted world) answer).attempt fun _ => .pure _
  | buildChainOfTrust zone qualified =>
    exact .bind (buildChainOfTrust_accounted world qualified).attempt fun _ => .pure _

variable (world) in
theorem sessionAfter_accounted (calls : List (Call dns)) (start : ω) :
    Accounted dns world (sessionAfter world calls start) := by
  have keeps : Keeps (Accounted dns world) (performAll world calls) := by
    induction calls with
    | nil => exact .pure _
    | cons call rest ih => exact .bind call.perform_accounted fun _ => ih
  exact keeps.after (accounted_fresh start)

/-! ## The time a key set is trusted -/

/-- The second at which a signature expires, as one who looks at it at the given time
understands the 32 bits of its expiration field. -/
def expirationSecond (sig : RRSIG) (seen : Time) : Int :=
  let second := seen / 1000000000
  second + Int.bmod (sig.expiration.toNat - second) 4294967296

/-- A time up to which the signature over a fetched key set lets the set be trusted. -/
def Fetch.Covers (fetch : Fetch) (time : Time) : Prop :=
  time / 1000000000 ≤ expirationSecond fetch.sig fetch.checkedAt ∧
    time ≤ expiry fetch.fetchedAt fetch.sig.origTtl

instance (fetch : Fetch) (time : Time) : Decidable (fetch.Covers time) :=
  inferInstanceAs (Decidable (_ ∧ _))

/-- The smallest header TTL of the fetched keys, counted from the time they are stored,
ends before the signature expires and before its original TTL, counted from the time
the keys were fetched, runs out. -/
def Fetch.Modest (fetch : Fetch) : Prop :=
  fetch.storedAt / 1000000000 + fetch.headerTtl.toNat ≤
      expirationSecond fetch.sig fetch.checkedAt ∧
    fetch.storedAt + fetch.headerTtl.toNat * 1000000000 ≤
      fetch.fetchedAt + fetch.sig.origTtl.toNat * 1000000000

theorem Fetch.covers_until_iff (fetch : Fetch) :
    (∀ time ≤ fetch.expiresAt, fetch.Covers time) ↔ fetch.Modest := by
  have at_expiry : fetch.Covers fetch.expiresAt ↔ fetch.Modest := by
    unfold Fetch.Covers Fetch.Modest Fetch.expiresAt expiry
    rw [Int.add_mul_ediv_right _ _ (by decide)]
  rw [← at_expiry]
  constructor
  · exact fun covers => covers _ le_rfl
  · rintro ⟨expired, ttl⟩ time early
    exact ⟨(Int.ediv_le_ediv (by decide) early).trans expired, early.trans ttl⟩

/-- The keystore hands out a fetched key set until the header TTL runs out. -/
theorem liveKeys_nonempty_iff {store : Keystore} {name : Name}
    (found : store.storedKeys dns name = some fetch.stored) (some_key : ¬ fetch.keys.IsEmpty)
    (later : Time) : ¬ (liveKeys dns later store name).IsEmpty ↔ later ≤ fetch.expiresAt := by
  simp only [liveKeys, found, Fetch.stored]
  split
  · rename_i expired
    exact iff_of_false (not_not.mpr KeySet.isEmpty_nil) (Int.not_le.mpr expired)
  · rename_i live
    exact iff_of_true some_key (Int.not_lt.mp live)

/-- After any calls on a new validator, in any world: every key set that a chain of trust
returned was fetched before, and the signature over it covered the time of its use if the
header TTLs of the fetched keys are modest; and every stored key set is handed out at
covered times only, however the clock advances, exactly if they are. -/
theorem key_trust_time_iff (calls : List (Call dns)) (start : ω) :
    (∀ newer zone keys older,
        (sessionAfter world calls start).trace = newer ++ .trusted zone keys :: older →
          ∃ time rest fetch, older = .clock time :: rest ∧
            FetchedBefore dns world older zone fetch ∧ fetch.keys = keys ∧
            (fetch.Modest → fetch.Covers time)) ∧
      ∀ name set, (sessionAfter world calls start).store.storedKeys dns name = some set →
        ∃ fetch, FetchedBefore dns world (sessionAfter world calls start).trace
            (dns.canonicalName name) fetch ∧ fetch.keys = set.keys ∧
          ((∀ later,
              ¬ (liveKeys dns later (sessionAfter world calls start).store name).IsEmpty →
                fetch.Covers later) ↔ fetch.Modest) := by
  have accounted := sessionAfter_accounted world calls start
  refine ⟨fun newer zone keys older split => ?_, fun name set found => ?_⟩
  · obtain ⟨time, rest, fetch, read, fetched, same, early⟩ :=
      accounted.returned newer zone keys older split
    exact ⟨time, rest, fetch, read, fetched, same,
      fun modest => fetch.covers_until_iff.mpr modest time early⟩
  · obtain ⟨fetch, fetched, rfl⟩ := accounted.stored name set found
    obtain ⟨_, _, ran, _⟩ := id fetched
    refine ⟨fetch, fetched, rfl, ?_⟩
    simp only [liveKeys_nonempty_iff found (fetchSigned_keys dns world ran).2]
    exact fetch.covers_until_iff

/-- The calls that make a validator fetch the keys of the root. -/
def rootCalls : List (Call reference) :=
  [rootAnchor, .buildChainOfTrust root root_qualified]

theorem sample_key_trust_time_iff :
    ∃ fetch, FetchedBefore reference rootWorld
        (sessionAfter rootWorld rootCalls fun _ => listedOrder).trace root fetch ∧
      fetch.keys = ⟨[Reference.rootZSK], [Reference.rootKSK]⟩ ∧
      ((∀ later, ¬ (liveKeys reference later
            (sessionAfter rootWorld rootCalls fun _ => listedOrder).store root).IsEmpty →
          fetch.Covers later) ↔ fetch.Modest) :=
  (key_trust_time_iff rootCalls fun _ => listedOrder).2 root
    { expiresAt := expiry sampleTime 3600, keys := ⟨[Reference.rootZSK], [Reference.rootKSK]⟩ }
    (by decide +kernel)

/-- A key whose header carries the largest TTL. -/
def lingeringKey (key : DNSKEY) : DNSKEY :=
  { key with hdr := { key.hdr with ttl := 4294967295 } }

/-- A time in 2039. -/
def lateTime : Time := 2200000000000000000

/-- A world with such keys for the root, in which twenty-two years pass after four readings
of the clock. -/
def lingeringWorld : World Nat :=
  World.ofResolver
    (fun _ => .ok
      { rcode := rcodeSuccess, question := [], ns := []
        answer := [.dnskey (lingeringKey Reference.rootZSK),
          .dnskey (lingeringKey Reference.rootKSK),
          .rrsig (Reference.sign Reference.rootKSK Reference.rootKSK.hdr typeDNSKEY)] })
    (fun step => if step < 4 then sampleTime else lateTime) fun _ => listedOrder

/-- The keys of that world as they are fetched in 2017, under a signature until 2033 with
an original TTL of an hour. -/
def lingeringFetch : Fetch where
  keys := ⟨[lingeringKey Reference.rootZSK], [lingeringKey Reference.rootKSK]⟩
  sig := Reference.sign Reference.rootKSK Reference.rootKSK.hdr typeDNSKEY
  fetchedAt := sampleTime
  checkedAt := sampleTime
  storedAt := sampleTime

/-- The second chain of trust takes the keys from the keystore, in 2039. -/
theorem keys_trusted_past_signature :
    (fetchSigned reference lingeringWorld (buildChainOfTrust reference lingeringWorld) root).result
        (sessionAfter lingeringWorld [rootAnchor] 0) = .ok lingeringFetch ∧
      (buildChainOfTrust reference lingeringWorld root).result
        (sessionAfter lingeringWorld rootCalls 0) = .ok lingeringFetch.keys ∧
      ((buildChainOfTrust reference lingeringWorld root).after
          (sessionAfter lingeringWorld rootCalls 0)).trace =
        .trusted root lingeringFetch.keys :: .clock lateTime ::
          (sessionAfter lingeringWorld rootCalls 0).trace ∧
      ¬ lingeringFetch.Covers lateTime := by
  refine ⟨by decide +kernel, by decide +kernel, by decide +kernel, by decide +kernel⟩

end RouteDns.Dnssec
