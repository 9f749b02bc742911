import RouteDns.Dnssec.Keeps

/-!
# The trust invariant

Whatever the resolver answers and however the clock moves, every key set the
validator returns or stores chains to a configured anchor of the root: it was
self-signed by a key that matches an authenticated DS record, and below the root
the DS records were signed by a key the chain of the parent zone had returned.  The
trace of a session is what "had" refers to.
-/

namespace RouteDns.Dnssec

open Dns Program

variable (dns : Library) {ω : Type} (world : World ω)

/-- At a time the clock showed, a key with flags 257 that matches one of the DS
records made a good signature of the zone over the whole key set. -/
structure SelfSigned (trace : List Event) (zone : Name) (keys : KeySet) (ds : List DS)
    (sig : RRSIG) (key : DNSKEY) (now : Time) : Prop where
  signer : dns.canonicalName sig.signerName = zone
  covers : sig.typeCovered = typeDNSKEY
  mem : key ∈ keys.all
  flags : key.flags = 257
  shown : .clock now ∈ trace
  signs : Signs dns sig key (keys.all.map RR.dnskey) now
  matches_ds : ∃ d ∈ ds, digestMatches dns key d = true

/-- At a time the clock showed, a key with flags 256 made a good signature over the
DS records. -/
structure DelegationSigned (trace : List Event) (keys : KeySet) (ds : List DS) (sig : RRSIG)
    (key : DNSKEY) (now : Time) : Prop where
  mem : key ∈ keys.all
  flags : key.flags = 256
  shown : .clock now ∈ trace
  signs : Signs dns sig key (ds.map RR.ds) now

/-- The keys of a zone chain to configured anchors of the root by what a trace
records. -/
inductive Chained (trace : List Event) : Name → KeySet → Prop where
  | atRoot {keys : KeySet} {ds : List DS} {sig : RRSIG} {key : DNSKEY} {now : Time}
      (anchors : ∀ d ∈ ds, .anchored d ∈ trace ∧ d.hdr.name = root)
      (selfSigned : SelfSigned dns trace root keys ds sig key now) :
      Chained trace root keys
  | child {zone : Name} {keys parentKeys : KeySet} {ds : List DS} {sig dsSig : RRSIG}
      {key dsKey : DNSKEY} {now dsNow : Time} (below : zone ≠ root)
      (returned : .trusted (parentZone dns zone) parentKeys ∈ trace)
      (parent : Chained trace (parentZone dns zone) parentKeys)
      (delegated : DelegationSigned dns trace parentKeys ds dsSig dsKey dsNow)
      (selfSigned : SelfSigned dns trace zone keys ds sig key now) :
      Chained trace zone keys

variable {dns} {zone : Name} {keys : KeySet} {trace later : List Event}

variable {ds : List DS} {key : DNSKEY} {now : Time} {sig : RRSIG}

theorem SelfSigned.mono (grows : trace ⊆ later)
    (selfSigned : SelfSigned dns trace zone keys ds sig key now) :
    SelfSigned dns later zone keys ds sig key now :=
  { selfSigned with shown := grows selfSigned.shown }

theorem DelegationSigned.mono (grows : trace ⊆ later)
    (signed : DelegationSigned dns trace keys ds sig key now) :
    DelegationSigned dns later keys ds sig key now :=
  { signed with shown := grows signed.shown }

/-- A chain stays a chain as more happens. -/
theorem Chained.mono (grows : trace ⊆ later) (chained : Chained dns trace zone keys) :
    Chained dns later zone keys := by
  induction chained with
  | atRoot anchors selfSigned =>
    exact .atRoot (fun d member => ⟨grows (anchors d member).1, (anchors d member).2⟩)
      (selfSigned.mono grows)
  | child below returned _ delegated selfSigned ih =>
    exact .child below (grows returned) ih (delegated.mono grows) (selfSigned.mono grows)

/-- At the end of every chain stands a configured anchor of the root. -/
theorem Chained.anchor {trace : List Event} (chained : Chained dns trace zone keys) :
    ∃ d, .anchored d ∈ trace ∧ d.hdr.name = root := by
  induction chained with
  | atRoot anchors selfSigned =>
    obtain ⟨d, member, _⟩ := selfSigned.matches_ds
    exact ⟨d, anchors d member⟩
  | child _ _ _ _ _ ih => exact ih

/-- The invariant of a session: what is stored chains, what is configured for the
root was anchored, and every chain that was returned had been established before. -/
structure Trusting (dns : Library) (session : Session ω) : Prop where
  stored : ∀ name set, Qualified name → session.store.storedKeys dns name = some set →
    set.keys.Sorted ∧ Chained dns session.trace (dns.canonicalName name) set.keys
  configured : ∀ d ∈ session.store.configuredDS dns root,
    .anchored d ∈ session.trace ∧ d.hdr.name = root
  returned : ∀ newer zone keys older, session.trace = newer ++ .trusted zone keys :: older →
    Chained dns older zone keys

/-- A new validator trusts nothing. -/
theorem trusting_fresh (start : ω) :
    Trusting dns ({ store := ∅, world := start, trace := [] } : Session ω) where
  stored := by simp [Keystore.storedKeys]
  configured := by simp [Keystore.configuredDS, Keystore.storedDS]
  returned := by simp

variable {session : Session ω}

/-- Adding one event keeps the invariant; a returned chain must be established. -/
theorem Trusting.cons (trusting : Trusting dns session) (event : Event) (state : ω)
    (established : ∀ zone keys, event = .trusted zone keys →
      Chained dns session.trace zone keys) :
    Trusting dns { session with world := state, trace := event :: session.trace } where
  stored := fun name set qualified found =>
    ⟨(trusting.stored name set qualified found).1,
      (trusting.stored name set qualified found).2.mono (List.subset_cons_self _ _)⟩
  configured := fun d member =>
    ⟨List.mem_cons_of_mem _ (trusting.configured d member).1, (trusting.configured d member).2⟩
  returned := by
    rintro (_ | ⟨first, newer⟩) zone keys older split
    · obtain ⟨rfl, rfl⟩ := List.cons.inj split
      exact established zone keys rfl
    · exact trusting.returned newer zone keys older (List.cons.inj split).2

theorem trusting_stable : Stable (Trusting dns : Session ω → Prop) where
  asked _ state query trusting := trusting.cons (.asked query) state (by simp)
  clock _ state time trusting := trusting.cons (.clock time) state (by simp)
  ranged _ _ trusting := ⟨trusting.stored, trusting.configured, trusting.returned⟩

/-- What the validator knows of anchors. -/
def IsAnchor (trace : List Event) (ds : DS) : Prop :=
  .anchored ds ∈ trace ∧ ds.hdr.name = root

/-- What the validator knows of keys its own chain returned for a zone. -/
structure Established (dns : Library) (zone : Name) (trace : List Event) (keys : KeySet) :
    Prop where
  sorted : keys.Sorted
  returned : .trusted zone keys ∈ trace
  chained : Chained dns trace zone keys

theorem trusting_grounds (zone : Name) :
    Grounds dns (Trusting dns : Session ω → Prop) IsAnchor (Established dns zone) where
  stable := trusting_stable
  anchored_grows _ _ _ known := ⟨List.mem_cons_of_mem _ known.1, known.2⟩
  accepted_grows _ _ _ known := ⟨known.sorted, List.mem_cons_of_mem _ known.returned,
    known.chained.mono (List.subset_cons_self _ _)⟩
  configured _ trusting := trusting.configured

/-- The evidence behind fetched keys makes them chain. -/
theorem KeysEvidence.chained {trace : List Event}
    (evidence : KeysEvidence dns world IsAnchor (Established dns (parentZone dns zone)) trace zone
      keys) : Chained dns trace zone keys := by
  obtain ⟨ds, dsEvidence, sigs, sig, sigMem, key, keyMem, now, shown, signs⟩ := evidence.vouched
  obtain ⟨keyKSK, matches_ds⟩ := (mem_filterKeysByDS dns).mp keyMem
  have selected := (List.mem_filter.mp sigMem).2
  simp only [decide_eq_true_eq] at selected
  have selfSigned : SelfSigned dns trace zone keys ds sig key now :=
    { signer := selected.1
      covers := selected.2
      mem := List.mem_append_right _ keyKSK
      flags := evidence.sorted.ksk_flags key keyKSK
      shown := shown
      signs := signs
      matches_ds := matches_ds }
  rcases dsEvidence with ⟨rfl, known⟩ | ⟨below, _, _, _, parentKeys, parent, signed⟩
  · exact .atRoot known selfSigned
  · obtain ⟨dsSig, _, dsKey, dsKeyMem, dsNow, dsShown, dsSigns⟩ := signed
    exact .child below parent.returned parent.chained
      { mem := List.mem_append_left _ dsKeyMem
        flags := parent.sorted.zsk_flags dsKey dsKeyMem
        shown := dsShown
        signs := dsSigns } selfSigned

/-- Keys that chain may be stored. -/
theorem Trusting.addDNSKEY (trusting : Trusting dns session) (canonical : dns.IsCanonical zone)
    (sorted : keys.Sorted) (chained : Chained dns session.trace zone keys) (now : Time) :
    Trusting dns { session with store := session.store.addDNSKEY dns zone keys.all now } where
  stored := by
    intro name set qualified found
    rw [Keystore.storedKeys_addDNSKEY] at found
    split at found
    · rename_i same
      cases found
      rw [same, canonical.2, sorted.classify_all]
      exact ⟨sorted, chained⟩
    · exact trusting.stored name set qualified found
  configured := by
    simpa only [Keystore.configuredDS, Keystore.storedDS_addDNSKEY] using trusting.configured
  returned := trusting.returned

/-! ## The chain of trust keeps the invariant -/

theorem getDNSKEY_trusting (canonical : dns.IsCanonical zone) :
    Triple (Trusting dns) (getDNSKEY dns world zone)
      (fun keys session => Trusting dns session ∧
        (¬ keys.IsEmpty → keys.Sorted ∧ Chained dns session.trace zone keys))
      (fun _ => Trusting dns) := by
  refine Triple.bind _ readStore_triple fun store => ?_
  cases found : store.storedKeys dns zone with
  | none => exact Triple.pure fun session holds => ⟨holds.1, absurd KeySet.isEmpty_nil⟩
  | some set =>
    refine Triple.bind _ (readClock_triple world (trusting_stable.and (Stable.storeEq store)))
      fun now => ?_
    refine Triple.ite (fun _ => Triple.pure fun session holds =>
      ⟨holds.1.1, absurd KeySet.isEmpty_nil⟩) (fun _ => ?_)
    refine Triple.pure fun session holds => ⟨holds.1.1, fun _ => ?_⟩
    have kept := holds.1.1.stored zone set canonical.1 (by rw [holds.1.2, found])
    rwa [canonical.2] at kept

theorem chainStep_trusting {chain : Name → Action ω KeySet}
    (chainOk : ∀ zone, dns.IsCanonical zone → Triple (Trusting dns) (chain zone)
      (fun keys session => Trusting dns session ∧ Established dns zone session.trace keys)
      (fun _ => Trusting dns)) (qualified : Qualified zone) :
    Triple (Trusting dns) (chainStep dns world chain zone)
      (fun keys session => Trusting dns session ∧
        Established dns (dns.canonicalName zone) session.trace keys)
      (fun _ => Trusting dns) := by
  have canonical := dns.isCanonical_canonicalName qualified
  refine Triple.bind (fun keys session => Trusting dns session ∧ keys.Sorted ∧
    Chained dns session.trace (dns.canonicalName zone) keys) ?_ fun keys => ?_
  · refine Triple.bind _ (getDNSKEY_trusting world canonical) fun stored => ?_
    refine Triple.ite (fun _ => ?_) (fun nonempty => Triple.pure fun session holds =>
      ⟨holds.1, holds.2 nonempty⟩)
    have fetched := fetchKeys_triple dns world (trusting_grounds (parentZone dns _))
      (fun _ => chainOk _ (isCanonical_parentZone dns canonical))
      (fun session keys now trusting evidence => trusting.addDNSKEY canonical evidence.sorted
        (evidence.chained world) now)
    exact fetched.imp (fun _ holds => holds.1)
      (fun _ _ holds => ⟨holds.1, holds.2.sorted, holds.2.chained world⟩) (fun _ _ holds => holds)
  · refine Triple.bind (fun _ session => Trusting dns session ∧
      Established dns (dns.canonicalName zone) session.trace keys) (Triple.step ?_)
      fun _ => Triple.pure fun _ holds => holds
    rintro session ⟨trusting, sorted, chained⟩
    refine ⟨trusting.cons _ session.world ?_, sorted, List.mem_cons_self,
      chained.mono (List.subset_cons_self _ _)⟩
    rintro _ _ ⟨⟩
    exact chained

theorem chainWithin_trusting (levels : Nat) (qualified : Qualified zone) :
    Triple (Trusting dns) (chainWithin dns world levels zone)
      (fun keys session => Trusting dns session ∧
        Established dns (dns.canonicalName zone) session.trace keys)
      (fun _ => Trusting dns) := by
  induction levels generalizing zone with
  | zero => exact Triple.fail fun _ holds => holds
  | succ levels ih =>
    refine chainStep_trusting world (fun parent canonical => ?_) qualified
    have parentOk := ih canonical.1
    rwa [canonical.2] at parentOk

/-- The chain of trust returns keys that chain, and keeps the invariant. -/
theorem buildChainOfTrust_trusting (qualified : Qualified zone) :
    Triple (Trusting dns) (buildChainOfTrust dns world zone)
      (fun keys session => Trusting dns session ∧
        Established dns (dns.canonicalName zone) session.trace keys)
      (fun _ => Trusting dns) :=
  chainWithin_trusting world _ qualified

/-! ## Whole runs -/

/-- The calls a user makes on a validator. -/
inductive Call (dns : Library) where
  | setAnchor (anchor : AnchorOwner dns) (tag : UInt16) (alg digestType : UInt8) (digest : Text)
  | validate (answer : Msg)
  | buildChainOfTrust (zone : Name) (qualified : Qualified zone)

/-- Make one call; its error, if any, goes to the user. -/
def Call.perform : Call dns → Action ω Unit
  | .setAnchor anchor tag alg digestType digest =>
    Dnssec.setAnchor dns world anchor tag alg digestType digest
  | .validate answer => do
    let _ ← (Dnssec.validate dns world answer).attempt
    pure ()
  | .buildChainOfTrust zone _ => do
    let _ ← (Dnssec.buildChainOfTrust dns world zone).attempt
    pure ()

/-- Make calls one after the other. -/
def performAll : List (Call dns) → Action ω Unit
  | [] => pure ()
  | call :: rest => do
    call.perform world
    performAll rest

/-- The session of a new validator after some calls. -/
def sessionAfter (calls : List (Call dns)) (start : ω) : Session ω :=
  (performAll world calls).after { store := ∅, world := start, trace := [] }

/-- Anchors that were noted may be configured. -/
theorem Trusting.addDS (trusting : Trusting dns session) (anchor : AnchorOwner dns) {tag : UInt16}
    {alg digestType : UInt8} {digest : Text}
    (noted : .anchored (anchorDS anchor.name tag alg digestType digest) ∈ session.trace)
    (now : Time) :
    Trusting dns { session with
      store := session.store.addDS dns anchor.owner
        [anchorDS anchor.name tag alg digestType digest] now } where
  stored := by simpa only [Keystore.storedKeys_addDS] using trusting.stored
  configured := by
    intro d member
    rw [Keystore.configuredDS_addDS, List.mem_append] at member
    rcases member with old | new
    · exact trusting.configured d old
    · split at new
      · rename_i same
        rw [dns.canonicalName_root, anchor.canonicalName_owner] at same
        obtain rfl := List.mem_singleton.mp new
        exact ⟨noted, same.symm⟩
      · cases new
  returned := trusting.returned

theorem setAnchor_trusting (anchor : AnchorOwner dns) (tag : UInt16) (alg digestType : UInt8)
    (digest : Text) :
    Keeps (Trusting dns) (setAnchor dns world anchor tag alg digestType digest) := by
  have noted_stable : Stable fun session : Session ω => Trusting dns session ∧
      .anchored (anchorDS anchor.name tag alg digestType digest) ∈ session.trace :=
    trusting_stable.and (Stable.ofTrace
      (fun trace => .anchored (anchorDS anchor.name tag alg digestType digest) ∈ trace)
      fun _ _ noted => List.mem_cons_of_mem _ noted)
  refine Triple.bind (fun _ session => Trusting dns session ∧
      .anchored (anchorDS anchor.name tag alg digestType digest) ∈ session.trace)
    (Triple.step fun session trusting => ⟨trusting.cons _ session.world (by simp),
      List.mem_cons_self⟩) fun _ => ?_
  refine Triple.bind _ (readClock_triple world noted_stable) fun now => ?_
  refine Triple.bind _ readStore_triple fun store => ?_
  refine Triple.step ?_
  rintro session ⟨⟨⟨trusting, noted⟩, _⟩, rfl⟩
  exact trusting.addDS anchor noted now

theorem buildChainOfTrust_keeps (qualified : Qualified zone) :
    Keeps (Trusting dns) (buildChainOfTrust dns world zone) :=
  .of_triple (buildChainOfTrust_trusting world qualified)

/-- Every call keeps the invariant. -/
theorem Call.perform_trusting (call : Call dns) : Keeps (Trusting dns) (call.perform world) := by
  cases call with
  | setAnchor anchor tag alg digestType digest =>
    exact setAnchor_trusting world anchor tag alg digestType digest
  | validate answer =>
    exact .bind (validate_keeps dns world trusting_stable
      (fun _ => buildChainOfTrust_keeps world) answer).attempt fun _ => .pure _
  | buildChainOfTrust zone qualified =>
    exact .bind (buildChainOfTrust_keeps world qualified).attempt fun _ => .pure _

theorem sessionAfter_trusting (calls : List (Call dns)) (start : ω) :
    Trusting dns (sessionAfter world calls start) := by
  have keeps : Keeps (Trusting dns) (performAll world calls) := by
    induction calls with
    | nil => exact .pure _
    | cons call rest ih => exact .bind (call.perform_trusting world) fun _ => ih
  exact keeps.after (trusting_fresh start)

/-- After any calls on a new validator, in any world: each key set that the chain of
trust ever returned chained at that moment, each stored key set chains, and so do the
keys the next chain of trust returns, down to a configured anchor of the root. -/
theorem returned_keys_chain (calls : List (Call dns)) (start : ω) :
    (∀ newer zone keys older,
        (sessionAfter world calls start).trace = newer ++ .trusted zone keys :: older →
          Chained dns older zone keys ∧ ∃ d, .anchored d ∈ older ∧ d.hdr.name = root) ∧
      (∀ name set, Qualified name →
        (sessionAfter world calls start).store.storedKeys dns name = some set →
          Chained dns (sessionAfter world calls start).trace (dns.canonicalName name) set.keys) ∧
      ∀ zone keys reached, Qualified zone →
        (buildChainOfTrust dns world zone).run (sessionAfter world calls start) =
            (.ok keys, reached) →
          .trusted (dns.canonicalName zone) keys ∈ reached.trace ∧
            Chained dns reached.trace (dns.canonicalName zone) keys := by
  have trusting := sessionAfter_trusting world calls start
  refine ⟨fun newer zone keys older split => ?_, fun name set qualified found => ?_,
    fun zone keys reached qualified ran => ?_⟩
  · have chained := trusting.returned newer zone keys older split
    exact ⟨chained, chained.anchor⟩
  · exact (trusting.stored name set qualified found).2
  · have established := ((buildChainOfTrust_trusting world qualified).of_ok trusting ran).2
    exact ⟨established.returned, established.chained⟩

/-- A world in which the sample root zone answers every query. -/
def rootWorld : World Orders :=
  World.steady (fun _ => .ok (Reference.keysResponse Reference.rootZSK Reference.rootKSK))
    sampleTime

/-- The configured anchor of the sample root zone. -/
def rootAnchor : Call reference :=
  .setAnchor ⟨text ".", .top, rfl⟩ (Reference.keyTag Reference.rootKSK) 13 2 (text ".root-ksk")

/-- The key-signing key of a zone that the sample root delegates, and its other key. -/
def delegatedKSK : DNSKEY :=
  Reference.keyOf (Reference.headerOf Reference.exampleName) 257 (text "example-ksk")

def delegatedZSK : DNSKEY :=
  Reference.keyOf (Reference.headerOf Reference.exampleName) 256 (text "example-zsk")

/-- A world with the sample root zone and the zone below it. -/
def delegatedWorld : World Orders :=
  World.steady
    (fun query => .ok
      (if query.name = root then Reference.keysResponse Reference.rootZSK Reference.rootKSK
        else if query.qtype = typeDNSKEY then Reference.keysResponse delegatedZSK delegatedKSK
        else
          { rcode := rcodeSuccess, question := [], ns := []
            answer := [.ds (Reference.dsOf delegatedKSK.hdr delegatedKSK),
              .rrsig (Reference.sign Reference.rootZSK delegatedKSK.hdr typeDS)] }))
    sampleTime

theorem returned_delegated_keys_chain :
    ∃ reached, (buildChainOfTrust reference delegatedWorld Reference.exampleName.print).run
        (sessionAfter delegatedWorld [rootAnchor] fun _ => listedOrder) =
          (.ok ⟨[delegatedZSK], [delegatedKSK]⟩, reached) ∧
      Chained reference reached.trace (reference.canonicalName Reference.exampleName.print)
        ⟨[delegatedZSK], [delegatedKSK]⟩ := by
  have ran : (buildChainOfTrust reference delegatedWorld Reference.exampleName.print).run
      (sessionAfter delegatedWorld [rootAnchor] fun _ => listedOrder) =
        (.ok ⟨[delegatedZSK], [delegatedKSK]⟩,
          (buildChainOfTrust reference delegatedWorld Reference.exampleName.print).after
            (sessionAfter delegatedWorld [rootAnchor] fun _ => listedOrder)) :=
    Prod.ext (by decide +kernel) rfl
  exact ⟨_, ran, ((returned_keys_chain delegatedWorld [rootAnchor] fun _ => listedOrder).2.2 _ _ _
    Reference.exampleName.print_qualified ran).2⟩

end RouteDns.Dnssec
