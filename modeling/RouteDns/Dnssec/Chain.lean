import RouteDns.Dnssec.Validator
import RouteDns.Program.Triple

/-!
# What the chain of trust rests on

Most functions of the validator only ask, read the clock and walk over maps; they
keep every property of a session that such steps cannot destroy.  For the chain
of trust the file collects, once, the evidence behind a successful return: which
response the DS set came from, which key signed it, and which key signed the
fetched keys.  Nothing here depends on who the resolver is.
-/

namespace RouteDns.Dnssec

open Dns Program

variable (dns : Library) {ω : Type} (world : World ω)

/-! ## One level at a time -/

variable {zone : Name}

/-- Authenticating DS records uses the chain of the parent zone only. -/
theorem authenticateDS_congr {first second : Name → Action ω KeySet}
    (same : zone ≠ root → first (parentZone dns zone) = second (parentZone dns zone)) :
    authenticateDS dns world first zone = authenticateDS dns world second zone := by
  unfold authenticateDS
  split
  · rfl
  · rename_i below
    rw [same below]

theorem chainStep_congr {first second : Name → Action ω KeySet}
    (same : dns.canonicalName zone ≠ root →
      first (parentZone dns (dns.canonicalName zone)) =
        second (parentZone dns (dns.canonicalName zone))) :
    chainStep dns world first zone = chainStep dns world second zone := by
  simp only [chainStep, zoneKeys, fetchKeys, checkedKeys, checkOffered,
    authenticateDS_congr dns world same]

/-- Any two bounds no smaller than the length of the name give the same chain. -/
theorem chainWithin_eq {first second : Nat} (qualified : Qualified zone)
    (enough : (dns.canonicalName zone).length ≤ first)
    (enough' : (dns.canonicalName zone).length ≤ second) :
    chainWithin dns world first zone = chainWithin dns world second zone := by
  have canonical := dns.isCanonical_canonicalName qualified
  have positive := List.length_pos_iff.mpr canonical.1.ne_nil
  induction first generalizing second zone with
  | zero => omega
  | succ first ih =>
    obtain ⟨second, rfl⟩ := Nat.exists_eq_succ_of_ne_zero (by omega : second ≠ 0)
    refine chainStep_congr dns world fun below => ?_
    have parent := isCanonical_parentZone dns canonical
    have shorter := length_parentZone_lt dns canonical below
    exact ih parent.1 (by rw [parent.2]; omega) (by rw [parent.2]; omega)
      (dns.isCanonical_canonicalName parent.1)
      (List.length_pos_iff.mpr (dns.isCanonical_canonicalName parent.1).1.ne_nil)

/-- The chain of trust of a zone is one level on top of the chain of its parent. -/
theorem buildChainOfTrust_eq (qualified : Qualified zone) :
    buildChainOfTrust dns world zone =
      chainStep dns world (buildChainOfTrust dns world) zone := by
  have canonical := dns.isCanonical_canonicalName qualified
  have positive := List.length_pos_iff.mpr canonical.1.ne_nil
  obtain ⟨levels, levels_eq⟩ := Nat.exists_eq_succ_of_ne_zero positive.ne'
  have unfolded : buildChainOfTrust dns world zone =
      chainStep dns world (chainWithin dns world levels) zone := by
    rw [buildChainOfTrust, levels_eq]
    rfl
  rw [unfolded]
  refine chainStep_congr dns world fun below => ?_
  have parent := isCanonical_parentZone dns canonical
  have shorter := length_parentZone_lt dns canonical below
  exact chainWithin_eq dns world parent.1 (by rw [parent.2]; omega) le_rfl

/-! ## Properties that survive queries and clock readings -/

/-- A property of sessions that outside steps keep. -/
structure Stable (property : Session ω → Prop) : Prop where
  asked : ∀ session state query, property session →
    property { session with world := state, trace := .asked query :: session.trace }
  clock : ∀ session state time, property session →
    property { session with world := state, trace := .clock time :: session.trace }
  ranged : ∀ session state, property session → property { session with world := state }

namespace Stable

variable {first second : Session ω → Prop}

theorem and (left : Stable first) (right : Stable second) :
    Stable fun session => first session ∧ second session where
  asked session state query holds :=
    ⟨left.asked session state query holds.1, right.asked session state query holds.2⟩
  clock session state time holds :=
    ⟨left.clock session state time holds.1, right.clock session state time holds.2⟩
  ranged session state holds :=
    ⟨left.ranged session state holds.1, right.ranged session state holds.2⟩

/-- Facts that do not mention the session. -/
theorem const (fact : Prop) : Stable fun _ : Session ω => fact where
  asked _ _ _ holds := holds
  clock _ _ _ holds := holds
  ranged _ _ holds := holds

/-- Facts about the trace that later events cannot undo. -/
theorem ofTrace (fact : List Event → Prop)
    (grows : ∀ event trace, fact trace → fact (event :: trace)) :
    Stable fun session : Session ω => fact session.trace where
  asked _ _ _ holds := grows _ _ holds
  clock _ _ _ holds := grows _ _ holds
  ranged _ _ holds := holds

theorem storeEq (store : Keystore) : Stable fun session : Session ω => session.store = store where
  asked _ _ _ same := same
  clock _ _ _ same := same
  ranged _ _ same := same

end Stable

variable {trace : List Event}

section Steps

variable {property : Session ω → Prop} (stable : Stable property)

include stable

variable {failed : Err → Session ω → Prop}

theorem readClock_triple :
    Triple property (readClock world)
      (fun now session => property session ∧ .clock now ∈ session.trace) failed :=
  Triple.step fun session holds =>
    ⟨stable.clock session _ _ holds, List.mem_cons_self⟩

theorem rangeOver_triple (keys : List RRsetKey) :
    Triple property (rangeOver world keys) (fun _ => property) failed :=
  Triple.step fun session holds => stable.ranged session _ holds

omit stable in
theorem readStore_triple :
    Triple property (readStore : Action ω Keystore)
      (fun store session => property session ∧ session.store = store) failed :=
  Triple.step fun _ holds => ⟨holds, rfl⟩

/-- A reply the resolver may give to a query in some state. -/
def Replies (query : Query) (msg : Msg) : Prop :=
  ∃ state, (world.resolver query state).1 = .ok msg

theorem resolve_triple (query : Query) :
    Triple property (resolve world query)
      (fun msg session => property session ∧ Replies world query msg) (fun _ => property) := by
  intro session holds
  have kept := stable.asked session (world.resolver query session.world).2 query holds
  cases reply : (world.resolver query session.world).1 with
  | ok msg =>
    simp only [resolve, Program.run, reply]
    exact ⟨kept, session.world, reply⟩
  | error message =>
    simp only [resolve, Program.run, reply]
    exact kept

theorem lookupDS_triple (name : Name) :
    Triple property (lookupDS dns world name)
      (fun found session => property session ∧
        ∃ msg, Replies world (.dnssec (dns.canonicalName name) typeDS) msg ∧
          found = DSLookup.ofResponse msg)
      (fun _ => property) := by
  refine Triple.bind _ (resolve_triple world stable _) fun msg => ?_
  exact Triple.pure fun session holds => ⟨holds.1, msg, holds.2, rfl⟩

theorem lookupDNSKEY_triple (name : Name) :
    Triple property (lookupDNSKEY dns world name)
      (fun found session => property session ∧ found.1.Sorted) (fun _ => property) := by
  refine Triple.bind _ (resolve_triple world stable _) fun msg => ?_
  refine Triple.ite (fun _ => ?_) (fun _ => ?_)
  · exact Triple.pure fun session holds => ⟨holds.1, KeySet.classify_sorted _⟩
  · exact Triple.fail fun session holds => holds.1

theorem getDS_triple (name : Name) :
    Triple property (getDS dns world name)
      (fun ds session => property session ∧ ∀ d ∈ ds, d ∈ session.store.configuredDS dns name)
      (fun _ => property) := by
  refine Triple.bind _ readStore_triple fun store => ?_
  cases stored : store.storedDS dns name with
  | none => exact Triple.pure fun session holds => ⟨holds.1, by simp⟩
  | some set =>
    refine Triple.bind _ (readClock_triple world (stable.and (Stable.storeEq store)))
      fun now => ?_
    refine Triple.ite (fun _ => ?_) (fun _ => ?_)
    · exact Triple.pure fun session holds => ⟨holds.1.1, by simp⟩
    · refine Triple.pure fun session holds => ⟨holds.1.1, fun d member => ?_⟩
      rw [holds.1.2, Keystore.configuredDS, stored]
      exact member

theorem addDNSKEY_triple (name : Name) (keys : List DNSKEY)
    (stores : ∀ session now, property session →
      property { session with store := session.store.addDNSKEY dns name keys now }) :
    Triple property (addDNSKEY dns world name keys) (fun _ => property) (fun _ => property) := by
  refine Triple.bind _ (readClock_triple world stable) fun now => ?_
  refine Triple.bind _ readStore_triple fun store => ?_
  refine Triple.step ?_
  rintro session ⟨⟨holds, _⟩, rfl⟩
  exact stores session now holds

/-- Some key made one of the signatures good at a time the clock showed. -/
def SignedIn (sigs : List RRSIG) (keys : List DNSKEY) (rrset : List RR)
    (trace : List Event) : Prop :=
  ∃ sig ∈ sigs, ∃ key ∈ keys, ∃ now, .clock now ∈ trace ∧ Signs dns sig key rrset now

omit stable in
theorem SignedIn.cons {sigs : List RRSIG} {keys : List DNSKEY} {rrset : List RR} (event : Event)
    (signed : SignedIn dns sigs keys rrset trace) :
    SignedIn dns sigs keys rrset (event :: trace) := by
  obtain ⟨sig, sigMem, key, keyMem, now, seen, signs⟩ := signed
  exact ⟨sig, sigMem, key, keyMem, now, List.mem_cons_of_mem event seen, signs⟩

omit stable in
/-- A signed set is not empty and has one owner. -/
theorem SignedIn.one_owner {sigs : List RRSIG} {keys : List DNSKEY} {rrset : List RR}
    (signed : SignedIn dns sigs keys rrset trace) :
    rrset ≠ [] ∧ ∀ rr ∈ rrset, ∀ other ∈ rrset,
      dns.canonicalName rr.header.name = dns.canonicalName other.header.name := by
  obtain ⟨sig, _, key, _, now, _, signs⟩ := signed
  have attests := dns.attests_of_verify signs.good
  refine ⟨attests.nonempty, fun rr member other otherMem => ?_⟩
  rw [attests.owner rr member, attests.owner other otherMem]

theorem anyVerifies_triple (keys : List DNSKEY) (rrset : List RR) (sigs : List RRSIG) :
    Triple property (anyVerifies dns world keys rrset sigs)
      (fun verified session => property session ∧
        (verified = true → SignedIn dns sigs keys rrset session.trace))
      (fun _ => property) := by
  refine Triple.bind _ (Triple.search property (fun _ session =>
    property session ∧ SignedIn dns sigs keys rrset session.trace) fun sig sigMem => ?_) ?_
  · refine Triple.bind (fun outcome session => property session ∧
        (outcome = .ok () → SignedIn dns sigs keys rrset session.trace)) ?_ ?_
    · refine Triple.bind _ (readClock_triple world stable) fun now => ?_
      refine Triple.pure fun session holds => ⟨holds.1, fun good => ?_⟩
      obtain ⟨key, keyMem, signs⟩ := (verifyRRSIG_eq_ok_iff dns sig keys rrset now).mp good
      exact ⟨sig, sigMem, key, keyMem, now, holds.2, signs⟩
    · rintro (failure | ⟨⟩)
      · exact Triple.pure fun session holds => holds.1
      · exact Triple.pure fun session holds => ⟨holds.1, holds.2 rfl⟩
  · rintro (_ | ⟨⟩)
    · exact Triple.pure fun session holds => ⟨holds, by simp⟩
    · exact Triple.pure fun session holds => ⟨holds.1, fun _ => holds.2⟩

theorem checkDSDenial_triple (resp : Msg) (zone : Name) (keys : List DNSKEY) :
    Triple property (checkDSDenial dns world resp zone keys) (fun _ => property)
      (fun _ => property) := by
  refine Triple.bind (fun _ => property) ((readClock_triple world stable).imp
    (fun _ holds => holds) (fun _ _ holds => holds.1) (fun _ _ holds => holds)) fun now => ?_
  refine Triple.bind _ (rangeOver_triple world stable _) fun order => ?_
  exact Triple.ofExcept (fun _ _ _ holds => holds) (fun _ _ _ holds => holds)

theorem checkSelfSignature_triple (zone : Name) (keys : KeySet) (sigs : List RRSIG)
    (ds : List DS) :
    Triple property (checkSelfSignature dns world zone keys sigs ds)
      (fun _ session => property session ∧
        SignedIn dns (selfSignatures dns zone sigs) (filterKeysByDS dns keys.ksk ds)
          (keys.all.map RR.dnskey) session.trace)
      (fun _ => property) := by
  refine Triple.ite (fun _ => Triple.fail fun _ holds => holds) (fun _ => ?_)
  refine Triple.ite (fun _ => Triple.fail fun _ holds => holds) (fun _ => ?_)
  refine Triple.bind _ (anyVerifies_triple dns world stable _ _ _) fun verified => ?_
  refine Triple.ite (fun good => ?_) (fun _ => Triple.fail fun _ holds => holds.1)
  exact Triple.pure fun session holds => ⟨holds.1, holds.2 good⟩

end Steps

/-! ## The evidence behind a chain of trust -/

/-- How the DS records of a zone were authenticated: they are anchors of the root,
or the resolver sent them and a key of the parent zone signed them.  What is known
of anchors and of the keys of the parent zone is left to the user. -/
inductive DSEvidence (anchored : List Event → DS → Prop)
    (accepted : List Event → KeySet → Prop) (trace : List Event) (zone : Name)
    (ds : List DS) : Prop where
  | anchors (isRoot : zone = root) (known : ∀ d ∈ ds, anchored trace d)
  | delegated (below : zone ≠ root) (msg : Msg)
      (replied : Replies world (.dnssec (dns.canonicalName zone) typeDS) msg)
      (read : ds = (DSLookup.ofResponse msg).ds) (parentKeys : KeySet)
      (parentAccepted : accepted trace parentKeys)
      (signed : SignedIn dns (DSLookup.ofResponse msg).sigs parentKeys.zsk (ds.map RR.ds) trace)

/-- How fetched keys were authenticated: one of them matches an authenticated DS
record and signed them all in the name of the zone. -/
structure KeysEvidence (anchored : List Event → DS → Prop)
    (accepted : List Event → KeySet → Prop) (trace : List Event) (zone : Name)
    (keys : KeySet) : Prop where
  sorted : keys.Sorted
  vouched : ∃ ds, DSEvidence dns world anchored accepted trace zone ds ∧
    ∃ sigs, SignedIn dns (selfSignatures dns zone sigs) (filterKeysByDS dns keys.ksk ds)
      (keys.all.map RR.dnskey) trace

/-- Fetched keys belong to the zone they were fetched for: the key that signed them
belongs to the signer, the signer is the zone, and all keys have one owner. -/
theorem KeysEvidence.owned {dns : Library} {world : World ω} {anchored : List Event → DS → Prop}
    {accepted : List Event → KeySet → Prop} {keys : KeySet}
    (evidence : KeysEvidence dns world anchored accepted trace zone keys) :
    ∀ key ∈ keys.all, dns.canonicalName key.hdr.name = zone := by
  intro key member
  obtain ⟨ds, _, sigs, signed⟩ := evidence.vouched
  have one_owner := (signed.one_owner dns).2
  obtain ⟨sig, sigMem, signing, signingMem, now, _, signs⟩ := signed
  have signingKSK : signing ∈ keys.ksk := ((mem_filterKeysByDS dns).mp signingMem).1
  have signer : dns.canonicalName sig.signerName = zone := by
    have selected := (List.mem_filter.mp sigMem).2
    simp only [decide_eq_true_eq] at selected
    exact selected.1
  calc dns.canonicalName key.hdr.name
      = dns.canonicalName signing.hdr.name :=
        one_owner (.dnskey key) (List.mem_map_of_mem member) (.dnskey signing)
          (List.mem_map_of_mem (List.mem_append_right _ signingKSK))
    _ = dns.canonicalName sig.signerName := (dns.attests_of_verify signs.good).signer
    _ = zone := signer

section Evidence

variable {property : Session ω → Prop} {anchored : List Event → DS → Prop}
  {accepted : List Event → KeySet → Prop}

/-- The assumptions shared by the evidence lemmas: what is known of anchors and of
accepted keys is not lost as the trace grows, and the property guarantees that
configured anchors are known. -/
structure Grounds (property : Session ω → Prop) (anchored : List Event → DS → Prop)
    (accepted : List Event → KeySet → Prop) : Prop where
  stable : Stable property
  anchored_grows : ∀ event trace ds, anchored trace ds → anchored (event :: trace) ds
  accepted_grows : ∀ event trace keys, accepted trace keys → accepted (event :: trace) keys
  configured : ∀ session, property session → ∀ d ∈ session.store.configuredDS dns root,
    anchored session.trace d

variable (grounds : Grounds dns property anchored accepted)

include grounds

theorem DSEvidence.cons {ds : List DS} (event : Event)
    (evidence : DSEvidence dns world anchored accepted trace zone ds) :
    DSEvidence dns world anchored accepted (event :: trace) zone ds := by
  rcases evidence with ⟨isRoot, known⟩ | ⟨below, msg, replied, read, parentKeys, parent, signed⟩
  · exact .anchors isRoot fun d member => grounds.anchored_grows event trace d (known d member)
  · exact .delegated below msg replied read parentKeys
      (grounds.accepted_grows event trace parentKeys parent) (signed.cons dns event)

theorem KeysEvidence.cons {keys : KeySet} (event : Event)
    (evidence : KeysEvidence dns world anchored accepted trace zone keys) :
    KeysEvidence dns world anchored accepted (event :: trace) zone keys where
  sorted := evidence.sorted
  vouched := by
    obtain ⟨ds, dsEvidence, sigs, signed⟩ := evidence.vouched
    exact ⟨ds, dsEvidence.cons dns world grounds event, sigs, signed.cons dns event⟩

variable {chain : Name → Action ω KeySet} {zone : Name}
  (parentChain : zone ≠ root → Triple property (chain (parentZone dns zone))
    (fun keys session => property session ∧ accepted session.trace keys)
    (fun _ => property))
include parentChain

theorem authenticateDS_triple :
    Triple property (authenticateDS dns world chain zone)
      (fun ds session => property session ∧
        DSEvidence dns world anchored accepted session.trace zone ds)
      (fun _ => property) := by
  refine Triple.ite (fun isRoot => ?_) (fun below => ?_)
  · refine Triple.bind _ (getDS_triple dns world grounds.stable root) fun ds => ?_
    refine Triple.ite (fun _ => Triple.fail fun _ holds => holds.1) (fun _ => ?_)
    exact Triple.pure fun session holds => ⟨holds.1, .anchors isRoot fun d member =>
      grounds.configured session holds.1 d (holds.2 d member)⟩
  · refine Triple.bind _ (lookupDS_triple dns world grounds.stable zone).mapError fun found => ?_
    refine Triple.assuming fun ⟨msg, replied, read⟩ => ?_
    subst read
    refine Triple.bind _ (parentChain below).mapError fun parentKeys => ?_
    have stable := grounds.stable.and (Stable.ofTrace (fun trace => accepted trace parentKeys)
      fun event trace => grounds.accepted_grows event trace parentKeys)
    refine Triple.ite (fun _ => ?_) (fun _ => Triple.ite (fun _ => ?_) (fun _ => ?_))
    · refine Triple.bind (fun _ => property) ((checkDSDenial_triple dns world stable _ _ _).imp
        (fun _ holds => holds) (fun _ _ holds => holds.1) (fun _ _ holds => holds.1)) fun _ => ?_
      exact Triple.fail fun _ holds => holds
    · exact Triple.fail fun _ holds => holds.1
    · refine Triple.bind _ ((anyVerifies_triple dns world stable _ _ _).imp
        (fun _ holds => holds) (fun _ _ holds => holds) (fun _ _ holds => holds.1))
        fun verified => ?_
      refine Triple.ite (fun good => ?_) (fun _ => Triple.fail fun _ holds => holds.1.1)
      exact Triple.pure fun session holds => ⟨holds.1.1,
        .delegated below msg replied rfl parentKeys holds.1.2 (holds.2 good)⟩

/-- Keys pass the checks with their evidence. -/
theorem checkedKeys_triple :
    Triple property (checkedKeys dns world chain zone)
      (fun keys session => property session ∧
        KeysEvidence dns world anchored accepted session.trace zone keys)
      (fun _ => property) := by
  refine Triple.bind _ (lookupDNSKEY_triple dns world grounds.stable zone).mapError ?_
  rintro ⟨keys, sigs⟩
  refine Triple.assuming fun sorted => ?_
  refine Triple.ite (fun _ => Triple.fail fun _ holds => holds) (fun _ => ?_)
  refine Triple.bind _ (authenticateDS_triple dns world grounds parentChain) fun ds => ?_
  have dsStable : Stable fun session : Session ω => property session ∧
      DSEvidence dns world anchored accepted session.trace zone ds :=
    grounds.stable.and (Stable.ofTrace
      (fun trace => DSEvidence dns world anchored accepted trace zone ds)
      fun event _ => DSEvidence.cons dns world grounds event)
  refine Triple.bind _ ((checkSelfSignature_triple dns world dsStable zone keys sigs ds).imp
    (fun _ holds => holds) (fun _ _ holds => holds) (fun _ _ holds => holds.1)) fun _ => ?_
  exact Triple.pure fun _ holds => ⟨holds.1.1, sorted, ds, holds.1.2, sigs, holds.2⟩

/-- Fetched keys are returned with their evidence, once the property allows them
to be stored. -/
theorem fetchKeys_triple
    (stores : ∀ session keys now, property session →
      KeysEvidence dns world anchored accepted session.trace zone keys →
      property { session with store := session.store.addDNSKEY dns zone keys.all now }) :
    Triple property (fetchKeys dns world chain zone)
      (fun keys session => property session ∧
        KeysEvidence dns world anchored accepted session.trace zone keys)
      (fun _ => property) := by
  refine Triple.bind _ (checkedKeys_triple dns world grounds parentChain) fun keys => ?_
  have keysStable : Stable fun session : Session ω => property session ∧
      KeysEvidence dns world anchored accepted session.trace zone keys :=
    grounds.stable.and (Stable.ofTrace
      (fun trace => KeysEvidence dns world anchored accepted trace zone keys)
      fun event _ => KeysEvidence.cons dns world grounds event)
  refine Triple.bind _ ((addDNSKEY_triple dns world keysStable zone keys.all
    fun session now holds => ⟨stores session keys now holds.1 holds.2, holds.2⟩).imp
      (fun _ holds => holds) (fun _ _ holds => holds) (fun _ _ holds => holds.1)) fun _ => ?_
  exact Triple.pure fun _ holds => holds

end Evidence

/-- Without a property to keep, the checks still leave evidence. -/
theorem checkedKeys_evidence {chain : Name → Action ω KeySet} {keys : KeySet}
    {session reached : Session ω}
    (ran : (checkedKeys dns world chain zone).run session = (.ok keys, reached)) :
    KeysEvidence dns world (fun _ _ => True) (fun _ _ => True) reached.trace zone keys := by
  have grounds : Grounds dns (fun _ : Session ω => True) (fun _ _ => True) (fun _ _ => True) :=
    ⟨Stable.const True, fun _ _ _ known => known, fun _ _ _ known => known, fun _ _ _ _ => trivial⟩
  have parentChain : Triple (fun _ : Session ω => True) (chain (parentZone dns zone))
      (fun _ _ => True ∧ True) (fun _ _ => True) := by
    intro state _
    rcases (chain (parentZone dns zone)).run state with ⟨_ | _, _⟩ <;> simp [Meets]
  exact ((checkedKeys_triple dns world grounds fun _ => parentChain).of_ok trivial ran).2

end RouteDns.Dnssec
