import RouteDns.Dnssec.Level
import RouteDns.Dnssec.NameOrder

/-!
# How a zone is entered

The keys of a zone are accepted when one of them matches an authenticated DS record
and signed the key set.  The validator looks for that key among those with flags 257
and checks the signature over the keys with flags 256 and 257 alone, and it takes
configured anchors for DS records at the root only.  This file says what both
restrictions cost.
-/

namespace RouteDns.Dnssec

open Dns Program

variable (dns : Library) (now : Time)

/-- Some key of a DNSKEY response matches a DS record and made a current signature of
the zone over all keys of the response. -/
def SignedWhole (zone : Name) (msg : Msg) (ds : List DS) : Prop :=
  ∃ sig ∈ selfSignatures dns zone (rrsigsIn msg.answer), ∃ key ∈ dnskeysIn msg.answer,
    (∃ d ∈ ds, digestMatches dns key d = true) ∧
      Signs dns sig key ((dnskeysIn msg.answer).map RR.dnskey) now

/-- A key with flags 257 of a DNSKEY response matches a DS record and made a current
signature of the zone over the keys with flags 256 followed by those with flags 257. -/
def SignedUsable (zone : Name) (msg : Msg) (ds : List DS) : Prop :=
  ∃ sig ∈ selfSignatures dns zone (rrsigsIn msg.answer), ∃ key ∈ dnskeysIn msg.answer,
    key.flags = 257 ∧ (∃ d ∈ ds, digestMatches dns key d = true) ∧
      Signs dns sig key ((offeredKeys msg).all.map RR.dnskey) now

instance (zone : Name) (msg : Msg) (ds : List DS) : Decidable (SignedWhole dns now zone msg ds) :=
  inferInstanceAs (Decidable (∃ sig ∈ selfSignatures dns zone (rrsigsIn msg.answer),
    ∃ key ∈ dnskeysIn msg.answer, (∃ d ∈ ds, digestMatches dns key d = true) ∧
      Signs dns sig key ((dnskeysIn msg.answer).map RR.dnskey) now))

instance (zone : Name) (msg : Msg) (ds : List DS) : Decidable (SignedUsable dns now zone msg ds) :=
  inferInstanceAs (Decidable (∃ sig ∈ selfSignatures dns zone (rrsigsIn msg.answer),
    ∃ key ∈ dnskeysIn msg.answer, key.flags = 257 ∧ (∃ d ∈ ds, digestMatches dns key d = true) ∧
      Signs dns sig key ((offeredKeys msg).all.map RR.dnskey) now))

theorem mem_offeredKeys_ksk {key : DNSKEY} {msg : Msg} :
    key ∈ (offeredKeys msg).ksk ↔ key ∈ dnskeysIn msg.answer ∧ key.flags = 257 := by
  simp [offeredKeys, KeySet.classify]

theorem selfVerifies_iff_signedUsable (zone : Name) (msg : Msg) (ds : List DS) :
    selfVerifies dns now zone (offeredKeys msg) (rrsigsIn msg.answer) ds = true ↔
      SignedUsable dns now zone msg ds := by
  simp only [selfVerifies, verifyAnyRRSIG_iff, mem_filterKeysByDS, mem_offeredKeys_ksk,
    SignedUsable, and_assoc]

theorem SignedUsable.ksk_ne_nil {zone : Name} {msg : Msg} {ds : List DS}
    (usable : SignedUsable dns now zone msg ds) : (offeredKeys msg).ksk ≠ [] := by
  obtain ⟨_, _, key, member, flags, _⟩ := usable
  exact List.ne_nil_of_mem (mem_offeredKeys_ksk.mpr ⟨member, flags⟩)

/-- More DS records make no key set worse. -/
theorem SignedUsable.mono {zone : Name} {msg : Msg} {ds more : List DS} (grows : ds ⊆ more)
    (usable : SignedUsable dns now zone msg ds) : SignedUsable dns now zone msg more := by
  obtain ⟨sig, sigMem, key, keyMem, flags, ⟨d, dMem, digest⟩, signs⟩ := usable
  exact ⟨sig, sigMem, key, keyMem, flags, ⟨d, grows dMem, digest⟩, signs⟩

section Received

variable (resolver : Query → Except Text Msg) (start : Session Orders) {zone : Name}
  (canonical : dns.IsCanonical zone) {msg : Msg}
  (replied : resolver (.dnssec zone typeDNSKEY) = .ok msg)
  (success : msg.rcode = rcodeSuccess)

include canonical replied success

/-- The keys of a response are accepted exactly when they are signed in the way the
validator looks for, under some authenticated DS records. -/
theorem keysResult_ok_iff_signedUsable (keys : KeySet) :
    keysResult dns resolver now start zone = .ok keys ↔
      keys = offeredKeys msg ∧
        ∃ ds, dsResult dns resolver now start zone = .ok ds ∧
          SignedUsable dns now zone msg ds := by
  rw [(keysResult_cases canonical.1).1, canonical.2]
  constructor
  · rintro ⟨own, ownReplied, _, rfl, _, ds, authenticated, verified⟩
    obtain rfl : msg = own := Except.ok.inj (replied.symm.trans ownReplied)
    exact ⟨rfl, ds, authenticated, (selfVerifies_iff_signedUsable ..).mp verified⟩
  · rintro ⟨rfl, ds, authenticated, usable⟩
    exact ⟨msg, replied, success, rfl, usable.ksk_ne_nil, ds, authenticated,
      (selfVerifies_iff_signedUsable ..).mpr usable⟩

/-- A zone whose key set is signed as a whole by a key that matches an authenticated DS
record is accepted exactly when its keys are stored already, or a key with flags 257 that
matches a DS record also signed the keys with flags 256 and 257 alone. -/
theorem signed_zone_accepted_iff {ds : List DS}
    (authenticated : dsResult dns resolver now start zone = .ok ds) :
    (SignedWhole dns now zone msg ds →
        ∃ keys, chainResult dns resolver now start zone = .ok keys) ↔
      (SignedWhole dns now zone msg ds →
        ¬ (liveKeys dns now start.store zone).IsEmpty ∨ SignedUsable dns now zone msg ds) := by
  refine imp_congr_right fun _ => ?_
  rw [chainResult_eq canonical]
  split
  · rename_i absent
    simp only [absent, not_true, false_or,
      keysResult_ok_iff_signedUsable dns now resolver start canonical replied success,
      authenticated, Except.ok.injEq, exists_eq_left', exists_eq_left]
  · rename_i present
    exact iff_of_true ⟨_, rfl⟩ (.inl present)

end Received

/-! ## A key rollover -/

def rollingHeader : RRHeader := Reference.headerOf { labels := [text "rolling"] }

def rollingZSK : DNSKEY := Reference.keyOf rollingHeader 256 (text "rolling-zsk")

def rollingKSK : DNSKEY := Reference.keyOf rollingHeader 257 (text "rolling-ksk")

/-- The key-signing key before the last rollover, published with the revoke flag. -/
def revokedKSK : DNSKEY := Reference.keyOf rollingHeader 385 (text "rolling-old")

/-- The DNSKEY response of a zone with the given keys, signed as a whole by one of them. -/
def wholeResponse (signing : DNSKEY) (keys : List DNSKEY) : Msg where
  rcode := rcodeSuccess
  question := []
  answer := keys.map RR.dnskey ++
    [.rrsig (Reference.signContent signing signing.hdr typeDNSKEY (keys.map RR.dnskey))]
  ns := []

def rollingDS : DS := Reference.dsOf rollingHeader rollingKSK

/-- A zone with the given keys, securely delegated by the sample root. -/
def rollingUpstream (keys : List DNSKEY) (query : Query) : Except Text Msg :=
  if query.qtype = typeDNSKEY then
    .ok (wholeResponse rollingKSK keys)
  else
    .ok { rcode := rcodeSuccess, question := [], ns := []
          answer := [.ds rollingDS,
            .rrsig (Reference.signContent Reference.rootZSK rollingHeader typeDS [.ds rollingDS])] }

theorem zone_without_revoked_key_accepted :
    ∃ keys, chainResult contentBinding (rollingUpstream [rollingZSK, rollingKSK]) sampleTime
      (standing sampleStore) rollingHeader.name = .ok keys :=
  (signed_zone_accepted_iff contentBinding sampleTime (rollingUpstream [rollingZSK, rollingKSK])
    (standing sampleStore) ⟨by decide, by decide⟩ rfl rfl
    (by decide +kernel : dsResult contentBinding (rollingUpstream [rollingZSK, rollingKSK])
      sampleTime (standing sampleStore) rollingHeader.name = .ok [rollingDS])).mpr
    (fun _ => .inr (by decide +kernel)) (by decide +kernel)

/-- A key set that also holds a revoked key is signed as a whole by the key the parent
vouches for, but the zone is rejected. -/
theorem zone_with_revoked_key_rejected :
    dsResult contentBinding (rollingUpstream [rollingZSK, rollingKSK, revokedKSK]) sampleTime
        (standing sampleStore) rollingHeader.name = .ok [rollingDS] ∧
      SignedWhole contentBinding sampleTime rollingHeader.name
        (wholeResponse rollingKSK [rollingZSK, rollingKSK, revokedKSK]) [rollingDS] ∧
      ∀ keys, chainResult contentBinding (rollingUpstream [rollingZSK, rollingKSK, revokedKSK])
        sampleTime (standing sampleStore) rollingHeader.name ≠ .ok keys := by
  refine ⟨by decide +kernel, by decide +kernel, fun keys accepted => ?_⟩
  have rejected : (chainResult contentBinding
      (rollingUpstream [rollingZSK, rollingKSK, revokedKSK]) sampleTime (standing sampleStore)
      rollingHeader.name).toBool = false := by
    decide +kernel
  rw [accepted] at rejected
  cases rejected

/-! ## Anchors -/

/-- DS records that are configured now have not expired. -/
theorem liveDS_addDS (store : Keystore) (name other : Name) (dss : List DS)
    (same : dns.canonicalName other = dns.canonicalName name) :
    liveDS dns now (store.addDS dns name dss now) other = store.configuredDS dns name ++ dss := by
  have item_ds := store.getItem_ds dns name
  unfold Keystore.addDS liveDS Keystore.storedDS Keystore.configuredDS
  rw [FiniteMap.lookup_insert_ite, if_pos same, item_ds]
  exact if_neg (Int.not_lt.mpr (le_expiry now _))

/-- Whatever the resolver sends besides a DNSKEY response of the owner, and whatever else
the keystore holds, a configured anchor makes the chain of trust of its owner return the
keys of the response, unless keys are stored already. -/
def AnchorSuffices (anchor : AnchorOwner dns) (d : DS) (msg : Msg) : Prop :=
  ∀ (resolver : Query → Except Text Msg) (store : Keystore),
    resolver (.dnssec anchor.name.lower.print typeDNSKEY) = .ok msg →
      d ∈ liveDS dns now store anchor.owner →
        (liveKeys dns now store anchor.name.lower.print).IsEmpty →
          chainResult dns resolver now (standing store) anchor.name.lower.print =
            .ok (offeredKeys msg)

/-- A resolver that knows the keys of one zone and nothing else. -/
def onlyKeysOf (zone : Name) (msg : Msg) (query : Query) : Except Text Msg :=
  if query = .dnssec zone typeDNSKEY then .ok msg else .error (text "refused")

/-- The keystore of a validator with one anchor. -/
def anchoredAt (owner : Name) (d : DS) : Keystore :=
  Keystore.addDS dns ∅ owner [d] now

theorem liveDS_anchoredAt {owner other : Name} (d : DS)
    (same : dns.canonicalName other = dns.canonicalName owner) :
    liveDS dns now (anchoredAt dns now owner d) other = [d] := by
  rw [anchoredAt, liveDS_addDS dns now ∅ owner other [d] same]
  simp [Keystore.configuredDS, Keystore.storedDS]

theorem liveKeys_anchoredAt (owner other : Name) (d : DS) :
    (liveKeys dns now (anchoredAt dns now owner d) other).IsEmpty := by
  have nothing : (anchoredAt dns now owner d).storedKeys dns other = none := by
    rw [anchoredAt, Keystore.storedKeys_addDS]
    rfl
  simp [liveKeys, nothing, KeySet.IsEmpty]

/-- Below the root the parent zone is asked for DS records whatever is configured. -/
theorem not_anchorSuffices_below {anchor : AnchorOwner dns} (below : anchor.name.labels ≠ [])
    (d : DS) (msg : Msg) : ¬ AnchorSuffices dns now anchor d msg := by
  intro suffices_
  have canonical : dns.IsCanonical anchor.name.lower.print :=
    ⟨anchor.name.lower.print_qualified, by simp⟩
  have notRoot : anchor.name.lower.print ≠ root := by
    intro isRoot
    have empty := (print_eq_root_iff anchor.name.lower).mp isRoot
    simp [DomainName.lower_labels, below] at empty
  have absent : (liveKeys dns now (standing (anchoredAt dns now anchor.owner d)).store
      anchor.name.lower.print).IsEmpty := liveKeys_anchoredAt ..
  have accepted := suffices_ (onlyKeysOf anchor.name.lower.print msg)
    (anchoredAt dns now anchor.owner d) (by simp [onlyKeysOf])
    (by rw [liveDS_anchoredAt dns now d rfl]; exact List.mem_singleton_self d)
    absent
  rw [chainResult_eq canonical, if_pos absent,
    (keysResult_cases canonical.1).1] at accepted
  obtain ⟨_, _, _, _, _, ds, authenticated, _⟩ := accepted
  rw [dsResult_eq_ok_iff dns _ now _ canonical.1 notRoot] at authenticated
  obtain ⟨found, _, looked, _⟩ := authenticated
  have refused : dsLookup dns (onlyKeysOf anchor.name.lower.print msg) anchor.name.lower.print =
      .error (.plain (text "refused")) := by
    have otherType : Query.dnssec (dns.canonicalName anchor.name.lower.print) typeDS ≠
        .dnssec anchor.name.lower.print typeDNSKEY := by
      simp [Query.dnssec, typeDS, typeDNSKEY]
    rw [dsLookup, onlyKeysOf, if_neg otherType]
    rfl
  rw [refused] at looked
  cases looked

/-- At the root an anchor suffices for a key set that is signed in the way the validator
looks for. -/
theorem anchorSuffices_root_iff {anchor : AnchorOwner dns} (isRoot : anchor.name.labels = [])
    (d : DS) {msg : Msg} (success : msg.rcode = rcodeSuccess) :
    AnchorSuffices dns now anchor d msg ↔ SignedUsable dns now root msg [d] := by
  have zone_eq : anchor.name.lower.print = root :=
    (print_eq_root_iff _).mpr (by simp [DomainName.lower_labels, isRoot])
  have owner_eq : dns.canonicalName root = dns.canonicalName anchor.owner := by
    rw [anchor.canonicalName_owner, zone_eq, dns.canonicalName_root]
  unfold AnchorSuffices
  rw [zone_eq]
  constructor
  · intro suffices_
    have replied : onlyKeysOf root msg (.dnssec root typeDNSKEY) = .ok msg := if_pos rfl
    have absent : (liveKeys dns now (standing (anchoredAt dns now anchor.owner d)).store
        root).IsEmpty := liveKeys_anchoredAt ..
    have accepted := suffices_ (onlyKeysOf root msg) (anchoredAt dns now anchor.owner d) replied
      (by rw [liveDS_anchoredAt dns now d rfl]; exact List.mem_singleton_self d) absent
    rw [chainResult_eq dns.isCanonical_root, if_pos absent,
      keysResult_ok_iff_signedUsable dns now _ _ dns.isCanonical_root replied success] at accepted
    obtain ⟨_, ds, authenticated, usable⟩ := accepted
    obtain ⟨rfl, _⟩ := (dsResult_root_eq_ok_iff ..).mp authenticated
    rwa [show (standing (anchoredAt dns now anchor.owner d)).store =
      anchoredAt dns now anchor.owner d from rfl, liveDS_anchoredAt dns now d owner_eq] at usable
  · intro usable resolver store replied live (absent : (liveKeys dns now (standing store).store
      root).IsEmpty)
    have live_root : d ∈ liveDS dns now store root := by
      rwa [liveDS, Keystore.storedDS, owner_eq]
    rw [chainResult_eq dns.isCanonical_root, if_pos absent,
      keysResult_ok_iff_signedUsable dns now _ _ dns.isCanonical_root replied success]
    refine ⟨rfl, liveDS dns now store root, ?_, usable.mono dns now ?_⟩
    · exact (dsResult_root_eq_ok_iff ..).mpr ⟨rfl, List.ne_nil_of_mem live_root⟩
    · exact List.cons_subset.mpr ⟨live_root, List.nil_subset _⟩

/-- A configured anchor is at once among the DS records of its owner.  It suffices for key
sets signed as a whole by a key that matches it exactly at the root, and there for those
a key with flags 257 signed without the keys of other flags. -/
theorem anchor_suffices_iff (anchor : AnchorOwner dns) (tag : UInt16) (alg digestType : UInt8)
    (digest : Text) {msg : Msg} (success : msg.rcode = rcodeSuccess) :
    (∀ resolver session, anchorDS anchor.name tag alg digestType digest ∈
        liveDS dns now ((setAnchor dns (World.steady resolver now) anchor tag alg digestType
          digest).after session).store anchor.owner) ∧
      ((SignedWhole dns now anchor.name.lower.print msg
            [anchorDS anchor.name tag alg digestType digest] →
          AnchorSuffices dns now anchor (anchorDS anchor.name tag alg digestType digest) msg) ↔
        (SignedWhole dns now anchor.name.lower.print msg
            [anchorDS anchor.name tag alg digestType digest] →
          anchor.name.labels = [] ∧
            SignedUsable dns now root msg [anchorDS anchor.name tag alg digestType digest])) := by
  constructor
  · intro resolver session
    have stored : ((setAnchor dns (World.steady resolver now) anchor tag alg digestType
        digest).after session).store = session.store.addDS dns anchor.owner
          [anchorDS anchor.name tag alg digestType digest] now := rfl
    rw [stored, liveDS_addDS dns now _ _ _ _ rfl]
    exact List.mem_append_right _ (List.mem_singleton_self _)
  · refine imp_congr_right fun _ => ?_
    by_cases isRoot : anchor.name.labels = []
    · rw [anchorSuffices_root_iff dns now isRoot _ success]
      exact (and_iff_right isRoot).symm
    · exact iff_of_false (not_anchorSuffices_below dns now isRoot _ msg) fun holds =>
        isRoot holds.1

/-- The root as the owner of an anchor. -/
def rootOwner : AnchorOwner contentBinding where
  owner := root
  name := .top
  spells := by decide

/-- The owner of an anchor, configured without its final dot. -/
def rollingOwner : AnchorOwner contentBinding where
  owner := text "rolling"
  name := { labels := [text "rolling"] }
  spells := by decide

/-- The DS record an anchor stands for when its digest is that of a key. -/
def anchorOf (anchor : AnchorOwner contentBinding) (key : DNSKEY) : DS :=
  anchorDS anchor.name (Reference.keyTag key) key.algorithm 2 (Reference.dsOf key.hdr key).digest

theorem root_anchor_suffices :
    AnchorSuffices contentBinding sampleTime rootOwner (anchorOf rootOwner Reference.rootKSK)
      (wholeResponse Reference.rootKSK [Reference.rootZSK, Reference.rootKSK]) :=
  (anchor_suffices_iff contentBinding sampleTime rootOwner (Reference.keyTag Reference.rootKSK)
    Reference.rootKSK.algorithm 2 (Reference.dsOf Reference.rootKSK.hdr Reference.rootKSK).digest
    rfl).2.mpr (fun _ => ⟨rfl, by decide +kernel⟩) (by decide +kernel)

/-- The keys of an anchored zone are signed by the key of its anchor, but without an anchor
for the root they are not accepted. -/
theorem anchored_zone_rejected :
    SignedWhole contentBinding sampleTime rollingHeader.name
        (wholeResponse rollingKSK [rollingZSK, rollingKSK]) [anchorOf rollingOwner rollingKSK] ∧
      anchorOf rollingOwner rollingKSK ∈ liveDS contentBinding sampleTime
        (anchoredAt contentBinding sampleTime rollingOwner.owner
          (anchorOf rollingOwner rollingKSK)) rollingOwner.owner ∧
      chainResult contentBinding
          (onlyKeysOf rollingHeader.name (wholeResponse rollingKSK [rollingZSK, rollingKSK]))
          sampleTime
          (standing (anchoredAt contentBinding sampleTime rollingOwner.owner
            (anchorOf rollingOwner rollingKSK))) rollingHeader.name =
        .error (.wrap (text "failed to lookup DS for rolling.: ")
          (.plain (text "refused")) []) := by
  refine ⟨by decide +kernel, by decide +kernel, by decide +kernel⟩

end RouteDns.Dnssec
