import RouteDns.Dnssec.Verdict

/-!
# Which keys of a zone may sign

A key may sign zone data when it has the zone-key flag and the DNSSEC protocol number;
whether it is also a secure entry point must not matter.  The validator sorts the keys
of an authenticated set by the exact value of their flags and verifies everything but
the key set itself with those whose flags are 256.  This file follows the sorted sets
into the four places where they are used.
-/

namespace RouteDns.Dnssec

open Dns Program

variable (dns : Library) (resolver : Query → Except Text Msg) (now : Time)
  (start : Session Orders)

/-- The zone-key flag and the DNSSEC protocol number. -/
def IsZoneKey (key : DNSKEY) : Prop :=
  key.flags &&& 256 = 256 ∧ key.protocol = 3

instance : DecidablePred IsZoneKey := fun _ =>
  inferInstanceAs (Decidable (_ ∧ _))

/-- A key with exactly the flags of a zone-signing key. -/
def HasFlags256 (key : DNSKEY) : Prop :=
  key.flags = 256

instance : DecidablePred HasFlags256 := fun _ =>
  inferInstanceAs (Decidable (_ = _))

/-- One of the signatures was made by a permitted key of a set and is valid now. -/
def SignedBy (permitted : DNSKEY → Prop) (keys : List DNSKEY) (sigs : List RRSIG)
    (rrset : List RR) : Prop :=
  ∃ sig ∈ sigs, ∃ key ∈ keys, permitted key ∧ Signs dns sig key rrset now

instance (permitted : DNSKEY → Prop) [DecidablePred permitted] (keys : List DNSKEY)
    (sigs : List RRSIG) (rrset : List RR) :
    Decidable (SignedBy dns now permitted keys sigs rrset) :=
  inferInstanceAs (Decidable
    (∃ sig ∈ sigs, ∃ key ∈ keys, permitted key ∧ Signs dns sig key rrset now))

/-- The zone-signing half of a key set verifies what its keys with flags 256 signed. -/
theorem verifyAnyRRSIG_classify_iff (keys : List DNSKEY) (sigs : List RRSIG) (rrset : List RR) :
    verifyAnyRRSIG dns sigs (KeySet.classify keys).zsk rrset now = true ↔
      SignedBy dns now HasFlags256 keys sigs rrset := by
  simp only [verifyAnyRRSIG_iff, SignedBy, HasFlags256, KeySet.classify, List.mem_filter,
    decide_eq_true_eq, and_assoc]

/-- A set of denial records in a section denies the DS record of a name and was signed by
a permitted key of a set. -/
def DenialSignedBy (permitted : DNSKEY → Prop) (keys : List DNSKEY) (section_ : List RR)
    (name : Name) : Prop :=
  ∃ set ∈ rrsetKeys dns section_, isDenialKey set = true ∧
    (rrsetOf dns section_ set).any (deniesDS dns (dns.canonicalName name)) = true ∧
      SignedBy dns now permitted keys (sigsOf dns section_ set) (rrsetOf dns section_ set)

instance (permitted : DNSKEY → Prop) [DecidablePred permitted] (keys : List DNSKEY)
    (section_ : List RR) (name : Name) :
    Decidable (DenialSignedBy dns now permitted keys section_ name) :=
  inferInstanceAs (Decidable (∃ set ∈ rrsetKeys dns section_, _ ∧ _ ∧ _))

section Zone

variable {dns resolver now start} {zone : Name} {keys : List DNSKEY}
  (trusted : chainResult dns resolver now start zone = .ok (KeySet.classify keys))

include trusted

variable {rrset : List RR} {sigs : List RRSIG}

/-- Signatures in the name of the zone authenticate what its keys with flags 256
signed. -/
theorem any_authenticates_iff {name : Name}
    (fromZone : ∀ sig ∈ sigs, dns.canonicalName sig.signerName = zone)
    (inZone : dns.isSubDomain zone name = true) :
    sigs.any (authenticates dns resolver now start rrset name) = true ↔
      SignedBy dns now HasFlags256 keys sigs rrset := by
  rw [← verifyAnyRRSIG_classify_iff, verifyAnyRRSIG, List.any_eq_true, List.any_eq_true]
  have same : ∀ sig ∈ sigs, authenticates dns resolver now start rrset name sig =
      (verifyRRSIG dns sig (KeySet.classify keys).zsk rrset now).toBool := by
    intro sig member
    simp only [authenticates, fromZone sig member, inZone, trusted, Bool.true_and]
  constructor
  · rintro ⟨sig, member, good⟩
    exact ⟨sig, member, by rwa [← same sig member]⟩
  · rintro ⟨sig, member, good⟩
    exact ⟨sig, member, by rwa [same sig member]⟩

theorem validateRRset_ok_iff (signed : sigs ≠ [])
    (fromZone : ∀ sig ∈ sigs, dns.canonicalName sig.signerName = zone)
    (inZone : dns.isSubDomain zone (dns.canonicalName (ownerOf rrset)) = true) :
    (validateRRset dns (World.steady resolver now) rrset sigs).result start = .ok () ↔
      SignedBy dns now HasFlags256 keys sigs rrset := by
  rw [validateRRset, validateWith_ok_iff dns resolver now start _ _ _ _ (.inl signed),
    any_authenticates_iff trusted fromZone inZone]

theorem rrsetSignedFromAncestor_true_iff {qname : Name}
    (fromZone : ∀ sig ∈ sigs, dns.canonicalName sig.signerName = zone)
    (inZone : dns.isSubDomain zone qname = true) :
    (rrsetSignedFromAncestor dns (World.steady resolver now) rrset sigs qname).result start =
        .ok true ↔
      SignedBy dns now HasFlags256 keys sigs rrset := by
  rw [(rrsetSignedFromAncestor_settles dns resolver now start rrset sigs qname).result_eq
    coherent_refl, Except.ok.injEq, any_authenticates_iff trusted fromZone
    inZone]

variable {child : Name} {found : DSLookup} (qualified : Qualified child)
  (isParent : parentZone dns child = zone)
  (looked : dsLookup dns resolver child = .ok found)

include qualified isParent looked

theorem dsResult_found_iff (below : child ≠ root) (delegated : found.ds ≠ []) :
    dsResult dns resolver now start child = .ok found.ds ↔
      SignedBy dns now HasFlags256 keys found.sigs (found.ds.map RR.ds) := by
  rw [dsResult_eq_ok_iff dns resolver now start qualified below, looked, isParent, trusted]
  simp [delegated, verifyAnyRRSIG_classify_iff]

omit qualified in
theorem noDSOutcome_true_iff (undelegated : found.ds = []) :
    noDSOutcome dns resolver now start child = .ok true ↔
      DenialSignedBy dns now HasFlags256 keys found.resp.ns child := by
  rw [noDSOutcome_eq_true_iff, looked, isParent, trusted]
  simp only [Except.ok.injEq, exists_eq_left', undelegated, true_and, not_isInsecure_ok, false_or,
    verifyDSDenial_eq_ok_iff, verifyAnyRRSIG_classify_iff, DenialSignedBy]
  constructor
  · rintro ⟨set, member, denial, signed, denies⟩
    exact ⟨set, member, denial, denies, signed⟩
  · rintro ⟨set, member, denial, denies, signed⟩
    exact ⟨set, member, denial, signed, denies⟩

end Zone

/-- For a zone whose authenticated key set is known: a signature by any of its zone keys
makes its records, denial records, delegations and denied delegations accepted, exactly
when it comes with a signature by a key with flags 256. -/
theorem zone_key_accepted_iff {zone : Name} {keys : List DNSKEY}
    (trusted : chainResult dns resolver now start zone = .ok (KeySet.classify keys)) :
    (∀ rrset sigs, (∀ sig ∈ sigs, dns.canonicalName sig.signerName = zone) →
      dns.isSubDomain zone (dns.canonicalName (ownerOf rrset)) = true →
        ((SignedBy dns now IsZoneKey keys sigs rrset →
            (validateRRset dns (World.steady resolver now) rrset sigs).result start = .ok ()) ↔
          (SignedBy dns now IsZoneKey keys sigs rrset →
            SignedBy dns now HasFlags256 keys sigs rrset))) ∧
    (∀ rrset sigs qname, (∀ sig ∈ sigs, dns.canonicalName sig.signerName = zone) →
      dns.isSubDomain zone qname = true →
        ((SignedBy dns now IsZoneKey keys sigs rrset →
            (rrsetSignedFromAncestor dns (World.steady resolver now) rrset sigs qname).result
              start = .ok true) ↔
          (SignedBy dns now IsZoneKey keys sigs rrset →
            SignedBy dns now HasFlags256 keys sigs rrset))) ∧
    (∀ child found, Qualified child → child ≠ root → parentZone dns child = zone →
      dsLookup dns resolver child = .ok found → found.ds ≠ [] →
        ((SignedBy dns now IsZoneKey keys found.sigs (found.ds.map RR.ds) →
            dsResult dns resolver now start child = .ok found.ds) ↔
          (SignedBy dns now IsZoneKey keys found.sigs (found.ds.map RR.ds) →
            SignedBy dns now HasFlags256 keys found.sigs (found.ds.map RR.ds)))) ∧
    ∀ child found, Qualified child → parentZone dns child = zone →
      dsLookup dns resolver child = .ok found → found.ds = [] →
        ((DenialSignedBy dns now IsZoneKey keys found.resp.ns child →
            (proveNoDS dns (World.steady resolver now) child).result start = .ok true) ↔
          (DenialSignedBy dns now IsZoneKey keys found.resp.ns child →
            DenialSignedBy dns now HasFlags256 keys found.resp.ns child)) := by
  refine ⟨fun rrset sigs fromZone inZone => ?_, fun rrset sigs qname fromZone inZone => ?_,
    fun child found qualified below isParent looked delegated => ?_,
    fun child found qualified isParent looked undelegated => ?_⟩
  · refine imp_congr_right fun ⟨sig, member, _⟩ => ?_
    exact validateRRset_ok_iff trusted (List.ne_nil_of_mem member) fromZone
      inZone
  · rw [rrsetSignedFromAncestor_true_iff trusted fromZone inZone]
  · rw [dsResult_found_iff trusted qualified isParent looked below delegated]
  · rw [proveNoDS_result dns resolver now start qualified,
      noDSOutcome_true_iff trusted isParent looked undelegated]

def soloHeader : RRHeader := Reference.headerOf { labels := [text "solo"] }

/-- The only key of a zone that signs everything with it. -/
def soloKey : DNSKEY := Reference.keyOf soloHeader 257 (text "solo-key")

/-- A zone with one key, securely delegated by the sample root. -/
def soloUpstream (query : Query) : Except Text Msg :=
  if query.qtype = typeDNSKEY then
    .ok { rcode := rcodeSuccess, question := [], ns := []
          answer := [.dnskey soloKey, .rrsig (Reference.sign soloKey soloHeader typeDNSKEY)] }
  else
    .ok { rcode := rcodeSuccess, question := [], ns := []
          answer := [.ds (Reference.dsOf soloHeader soloKey),
            .rrsig (Reference.sign Reference.rootZSK soloHeader typeDS)] }

theorem root_zsk_accepted :
    (validateRRset reference (World.steady soloUpstream sampleTime)
        [Reference.addressOf soloHeader]
        [Reference.sign Reference.rootZSK soloHeader 1]).result (standing sampleStore) =
      .ok () := by
  have signed : SignedBy reference sampleTime HasFlags256 [Reference.rootZSK, Reference.rootKSK]
      [Reference.sign Reference.rootZSK soloHeader 1] [Reference.addressOf soloHeader] := by
    decide
  have zoneSigned : SignedBy reference sampleTime IsZoneKey [Reference.rootZSK, Reference.rootKSK]
      [Reference.sign Reference.rootZSK soloHeader 1] [Reference.addressOf soloHeader] := by
    decide
  refine ((zone_key_accepted_iff reference soloUpstream sampleTime (standing sampleStore)
    (by decide : chainResult reference soloUpstream sampleTime (standing sampleStore) root =
      .ok (KeySet.classify [Reference.rootZSK, Reference.rootKSK]))).1 _ _ ?_ (by decide)).mpr
    (fun _ => signed) zoneSigned
  rintro sig member
  obtain rfl := List.mem_singleton.mp member
  decide

/-- A zone that signs with a single key with flags 257 has an authenticated key set, but
nothing it signs is accepted. -/
theorem single_key_zone_rejected :
    chainResult reference soloUpstream sampleTime (standing sampleStore) soloHeader.name =
        .ok (KeySet.classify [soloKey]) ∧
      SignedBy reference sampleTime IsZoneKey [soloKey]
        [Reference.sign soloKey soloHeader 1] [Reference.addressOf soloHeader] ∧
      (validateRRset reference (World.steady soloUpstream sampleTime)
          [Reference.addressOf soloHeader] [Reference.sign soloKey soloHeader 1]).result
            (standing sampleStore) ≠ .ok () :=
  ⟨by decide, by decide, by decide⟩

end RouteDns.Dnssec
