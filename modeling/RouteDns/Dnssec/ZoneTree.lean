import Mathlib.Data.Finset.Basic
import RouteDns.Dnssec.KeyFlags
import RouteDns.Dnssec.NameOrder

/-!
# Trees of honestly operated zones

A tree has securely delegated zones, which publish signed keys and whose DS records are
signed in a zone above, and unsigned zones, for which a zone above proves that there is
no DS record.  A zone may lie any number of labels below the one that delegates it.
The chain of trust climbs one label at a time, so it reaches a zone exactly when every
name on the way to the root is a zone as well.
-/

namespace RouteDns.Dnssec

open Dns Program Canonical

variable (dns : Library)

/-! ## The name one label up -/

/-- Cutting the text of a name at its first dot takes off its first label. -/
def Cuts (name : DomainName) : Prop :=
  parentZone dns name.print = (name.drop 1).print

instance (name : DomainName) : Decidable (Cuts dns name) :=
  inferInstanceAs (Decidable (_ = _))

theorem afterDot?_append_of_not_mem {front : Text} (rest : Text) (free : dot ∉ front) :
    afterDot? (front ++ dot :: rest) = some rest := by
  induction front with
  | nil => simp [afterDot?]
  | cons byte front ih =>
    rw [List.mem_cons, not_or] at free
    rw [List.cons_append, afterDot?, if_neg (Ne.symm free.1), ih free.2]

/-- What follows the first dot ends with what follows a given dot. -/
theorem afterDot?_append (front rest : Text) :
    ∃ after, afterDot? (front ++ dot :: rest) = some after ∧ rest <:+ after := by
  induction front with
  | nil => exact ⟨rest, by simp [afterDot?], List.suffix_refl rest⟩
  | cons byte front ih =>
    by_cases isDot : byte = dot
    · exact ⟨front ++ dot :: rest, by simp [afterDot?, isDot],
        (List.suffix_cons dot rest).trans (List.suffix_append _ _)⟩
    · obtain ⟨after, cut, suffix⟩ := ih
      exact ⟨after, by simpa [afterDot?, isDot] using cut, suffix⟩

theorem dot_mem_escapeByte : ∀ byte : Byte, dot ∈ escapeByte byte → byte = dot := by
  decide +kernel

theorem dot_not_mem_printLabel {label : Label} (free : dot ∉ label) : dot ∉ printLabel label := by
  intro member
  obtain ⟨byte, byteMem, inside⟩ := List.mem_flatMap.mp member
  exact free (dot_mem_escapeByte byte inside ▸ byteMem)

section Cut

variable {name : DomainName} {first : Label} {rest : List Label}

theorem print_drop_one (labels_eq : name.labels = first :: rest) :
    (name.drop 1).print = if printLabels rest = [] then root else printLabels rest := by
  have drop_eq : (name.drop 1).labels = rest := by simp [labels_eq]
  rw [DomainName.print, drop_eq]
  cases rest with
  | nil => rfl
  | cons next others => simp

/-- The textual parent of a name, by what follows its first dot. -/
theorem parentZone_print (lower : name.lower = name) (labels_eq : name.labels = first :: rest)
    {after : Text} (cut : afterDot? (printLabel first ++ dot :: printLabels rest) = some after) :
    parentZone dns name.print = if after = [] then root else after := by
  have labels_ne : name.labels ≠ [] := by simp [labels_eq]
  have notRoot : name.print ≠ root := mt (print_eq_root_iff name).mp labels_ne
  have printed : name.print = printLabel first ++ dot :: printLabels rest := by
    rw [print_of_labels_ne_nil labels_ne, labels_eq, printLabels_cons]
  simp only [parentZone, dns.canonicalName_print, lower, notRoot, if_false]
  rw [printed, cut]

/-- A name whose first label has no dot is cut there. -/
theorem cuts_of_dot_not_mem (lower : name.lower = name) (labels_eq : name.labels = first :: rest)
    (free : dot ∉ first) : Cuts dns name := by
  rw [Cuts, print_drop_one labels_eq]
  exact parentZone_print dns lower labels_eq
    (afterDot?_append_of_not_mem _ (dot_not_mem_printLabel free))

theorem length_print_drop_le (lower : name.lower = name) (labels_eq : name.labels = first :: rest) :
    (name.drop 1).print.length ≤ (parentZone dns name.print).length := by
  obtain ⟨after, cut, suffix⟩ := afterDot?_append (printLabel first) (printLabels rest)
  rw [parentZone_print dns lower labels_eq cut, print_drop_one labels_eq]
  by_cases empty : after = []
  · have rest_nil : printLabels rest = [] := List.suffix_nil.mp (empty ▸ suffix)
    simp [empty, rest_nil]
  · split
    · exact List.length_pos_iff.mpr empty
    · exact suffix.length_le

end Cut

/-- A name properly above another. -/
def IsAbove (upper name : DomainName) : Prop :=
  upper.labels <:+ name.labels ∧ upper ≠ name

instance (upper name : DomainName) : Decidable (IsAbove upper name) :=
  inferInstanceAs (Decidable (_ ∧ _))

theorem printLabels_append (front rest : List Label) :
    printLabels (front ++ rest) = printLabels front ++ printLabels rest := by
  simp [printLabels]

/-- A name above another has the shorter text. -/
theorem IsAbove.length_lt {upper name : DomainName} (above : IsAbove upper name) :
    upper.print.length < name.print.length := by
  obtain ⟨⟨front, joined⟩, proper⟩ := above
  cases front with
  | nil => exact absurd (DomainName.ext (by simpa using joined)) proper
  | cons first front =>
    have name_ne : name.labels ≠ [] := by simp [← joined]
    have first_ne : first ≠ [] := name.nonempty first (by simp [← joined])
    have first_pos := List.length_pos_iff.mpr (printLabel_ne_nil first_ne)
    rw [print_of_labels_ne_nil name_ne, ← joined, List.cons_append, printLabels_cons,
      printLabels_append]
    by_cases top : upper.labels = []
    · rw [(print_eq_root_iff upper).mpr top]
      simp only [root, List.length_append, List.length_cons, List.length_nil]
      omega
    · rw [print_of_labels_ne_nil top]
      simp only [List.length_append, List.length_cons]
      omega

/-- When the textual parent of a name is some name above it, it is the one directly
above. -/
theorem IsAbove.eq_drop_of_parentZone {upper name : DomainName} (above : IsAbove upper name)
    (lower : name.lower = name) (isParent : parentZone dns name.print = upper.print) :
    upper = name.drop 1 := by
  obtain ⟨suffix, proper⟩ := above
  cases labels_eq : name.labels with
  | nil =>
    rw [labels_eq] at suffix
    exact absurd (DomainName.ext (by rw [List.suffix_nil.mp suffix, labels_eq])) proper
  | cons first rest =>
    have long := length_print_drop_le dns lower labels_eq
    rw [isParent] at long
    have inside : upper.labels <:+ (name.drop 1).labels := by
      rw [labels_eq] at suffix
      rcases List.suffix_cons_iff.mp suffix with equal | inside
      · exact absurd (DomainName.ext (equal.trans labels_eq.symm)) proper
      · simpa [labels_eq] using inside
    by_contra differs
    have short := IsAbove.length_lt ⟨inside, differs⟩
    omega

/-! ## Zones and what they publish -/

/-- A tree of zones as their operators set it up, with everything correctly signed at a
given time.  Names are in lower case.  The DS records of the root are its trust
anchors; `denial` is the authority section of the answer that a name has no DS
record. -/
structure ZoneTree (now : Time) where
  secure : Finset DomainName
  unsigned : Finset DomainName
  keys : DomainName → List DNSKEY
  keySigs : DomainName → List RRSIG
  ds : DomainName → List DS
  dsSigs : DomainName → List RRSIG
  denial : DomainName → List RR
  root_secure : .top ∈ secure
  lower_secure : ∀ zone ∈ secure, zone.lower = zone
  lower_unsigned : ∀ zone ∈ unsigned, zone.lower = zone
  disjoint : ∀ zone ∈ unsigned, zone ∉ secure
  keys_secure : ∀ name, name ∉ secure → keys name = []
  ds_secure : ∀ name, name ∉ secure → ds name = []
  keys_signed : ∀ zone ∈ secure, ∃ sig ∈ keySigs zone, ∃ key ∈ keys zone,
    IsZoneKey key ∧ (∃ d ∈ ds zone, digestMatches dns key d = true) ∧
      Signs dns sig key ((keys zone).map RR.dnskey) now
  ds_signed : ∀ zone ∈ secure, zone ≠ .top → ∃ parent ∈ secure, IsAbove parent zone ∧
    SignedBy dns now IsZoneKey (keys parent) (dsSigs zone) ((ds zone).map RR.ds)
  denial_signed : ∀ zone ∈ unsigned, ∃ parent ∈ secure, IsAbove parent zone ∧
    DenialSignedBy dns now IsZoneKey (keys parent) (denial zone) zone.print
  ds_covered : ∀ zone ∈ secure, ∀ sig ∈ dsSigs zone, sig.typeCovered = typeDS
  ds_signer : ∀ zone ∈ secure, ∀ sig ∈ dsSigs zone, IsAbove sig.signer.lower zone
  denial_signer : ∀ name, name ∉ secure → ∀ sig, .rrsig sig ∈ denial name →
    IsAbove sig.signer.lower name

namespace ZoneTree

variable {dns} {now : Time} (tree : ZoneTree dns now) {zone : DomainName}

theorem ds_ne_nil (secure : zone ∈ tree.secure) : tree.ds zone ≠ [] := by
  obtain ⟨_, _, _, _, _, ⟨d, member, _⟩, _⟩ := tree.keys_signed zone secure
  exact List.ne_nil_of_mem member

/-- A resolver answers the queries of the validator as the zones of the tree would.  A
text that spells no name cannot be sent. -/
structure Serves (resolver : Query → Except Text Msg) : Prop where
  dnskey : ∀ name : DomainName, name.lower = name →
    ∃ msg, resolver (.dnssec name.print typeDNSKEY) = .ok msg ∧
      dnskeysIn msg.answer = tree.keys name ∧
        (name ∈ tree.secure →
          msg.rcode = rcodeSuccess ∧ rrsigsIn msg.answer = tree.keySigs name)
  ds : ∀ name : DomainName, name.lower = name → name ≠ .top →
    ∃ msg, resolver (.dnssec name.print typeDS) = .ok msg ∧
      (DSLookup.ofResponse msg).ds = tree.ds name ∧
        (name ∈ tree.secure → (DSLookup.ofResponse msg).sigs = tree.dsSigs name) ∧
          (name ∉ tree.secure → msg.ns = tree.denial name)
  misspelled : ∀ asked qtype, (∀ name : DomainName, name.print ≠ asked) →
    ∃ failure, resolver (.dnssec asked qtype) = .error failure

/-- A resolver that answers from the data of the tree. -/
def resolve (query : Query) : Except Text Msg :=
  match spelledName query.name with
  | none => .error (text "bad domain name")
  | some name =>
    let positive := if query.qtype = typeDNSKEY then
        (tree.keys name).map RR.dnskey ++ (tree.keySigs name).map RR.rrsig
      else
        (tree.ds name).map RR.ds ++ (tree.dsSigs name).map RR.rrsig
    if name ∈ tree.secure then
      .ok { rcode := rcodeSuccess, question := [], answer := positive, ns := [] }
    else
      .ok { rcode := rcodeSuccess, question := [], answer := [], ns := tree.denial name }

theorem dnskeysIn_append_sigs (keys : List DNSKEY) (sigs : List RRSIG) :
    dnskeysIn (keys.map RR.dnskey ++ sigs.map RR.rrsig) = keys := by
  simp [dnskeysIn, List.filterMap_append, List.filterMap_map]

theorem dssIn_append_sigs (ds : List DS) (sigs : List RRSIG) :
    dssIn (ds.map RR.ds ++ sigs.map RR.rrsig) = ds := by
  simp [dssIn, List.filterMap_append, List.filterMap_map]

theorem rrsigsIn_append_sigs {α : Type} {wrap : α → RR}
    (plain : ∀ value, (wrap value).asRRSIG? = none) (values : List α) (sigs : List RRSIG) :
    rrsigsIn (values.map wrap ++ sigs.map RR.rrsig) = sigs := by
  have own : ∀ sig, (RR.rrsig sig).asRRSIG? = some sig := fun _ => rfl
  simp [rrsigsIn, List.filterMap_append, List.filterMap_map, plain, own]

/-- Every tree has a resolver that serves it. -/
theorem serves_resolve : tree.Serves tree.resolve where
  dnskey name _ := by
    by_cases secure : name ∈ tree.secure
    · refine ⟨_, by simp [resolve, Query.dnssec, spelledName_print, secure]; rfl, ?_⟩
      exact ⟨dnskeysIn_append_sigs _ _, fun _ => ⟨rfl, rrsigsIn_append_sigs (fun _ => rfl) _ _⟩⟩
    · refine ⟨_, by simp [resolve, Query.dnssec, spelledName_print, secure]; rfl, ?_⟩
      exact ⟨(tree.keys_secure name secure).symm, fun member => absurd member secure⟩
  ds name _ _ := by
    have other : typeDS ≠ typeDNSKEY := by decide
    by_cases secure : name ∈ tree.secure
    · refine ⟨_, by simp [resolve, Query.dnssec, spelledName_print, secure, other]; rfl, ?_⟩
      refine ⟨dssIn_append_sigs _ _, fun _ => ?_, fun unsecured => absurd secure unsecured⟩
      change (rrsigsIn _).filter _ = _
      rw [rrsigsIn_append_sigs (fun _ => rfl), List.filter_eq_self]
      exact fun sig member => by simpa using tree.ds_covered name secure sig member
    · refine ⟨_, by simp [resolve, Query.dnssec, spelledName_print, secure]; rfl, ?_⟩
      exact ⟨(tree.ds_secure name secure).symm, fun member => absurd member secure, fun _ => rfl⟩
  misspelled asked qtype unspelled :=
    ⟨_, by rw [resolve, Query.dnssec, spelledName_eq_none unspelled]⟩

/-- The keys of a zone with flags 256 or 257 are signed by one with flags 257 for which a
DS record of the zone vouches. -/
def EntryBy257 (zone : DomainName) : Prop :=
  SignedBy dns now (fun key => key.flags = 257 ∧ ∃ d ∈ tree.ds zone, digestMatches dns key d = true)
    (tree.keys zone) (selfSignatures dns zone.print (tree.keySigs zone))
    ((KeySet.classify (tree.keys zone)).all.map RR.dnskey)

instance (zone : DomainName) : Decidable (tree.EntryBy257 zone) :=
  inferInstanceAs (Decidable (SignedBy ..))

/-- The DS records of a zone are signed by a key with flags 256 of the zone one label
up. -/
def DelegatedBy256 (zone : DomainName) : Prop :=
  SignedBy dns now HasFlags256 (tree.keys (zone.drop 1)) (tree.dsSigs zone)
    ((tree.ds zone).map RR.ds)

instance (zone : DomainName) : Decidable (tree.DelegatedBy256 zone) :=
  inferInstanceAs (Decidable (SignedBy ..))

/-- Every name from the given one up to the root is a securely delegated zone, delegated
from one label up, with keys of the usual flags. -/
inductive Linked : DomainName → Prop where
  | root : tree.EntryBy257 .top → Linked .top
  | delegated {zone : DomainName} : zone ∈ tree.secure → zone ≠ .top → Cuts dns zone →
      tree.EntryBy257 zone → tree.DelegatedBy256 zone → Linked (zone.drop 1) → Linked zone

/-- The keystore holds the anchors of the root, and of keys only such as earlier
validations left there. -/
structure Anchored (store : Keystore) : Prop where
  anchors : ∃ stored, store.storedDS dns root = some stored ∧ ¬ stored.expiresAt < now ∧
    stored.records = tree.ds .top
  cached : ∀ zone, dns.IsCanonical zone → (liveKeys dns now store zone).IsEmpty ∨
    ∃ name : DomainName, name.print = zone ∧ tree.Linked name ∧
      liveKeys dns now store zone = KeySet.classify (tree.keys name)

variable {tree}

theorem Linked.entry (linked : tree.Linked zone) : tree.EntryBy257 zone := by
  cases linked <;> assumption

theorem Linked.secure (linked : tree.Linked zone) : zone ∈ tree.secure := by
  cases linked with
  | root => exact tree.root_secure
  | delegated member => exact member

theorem selfVerifies_iff (zone : DomainName) :
    selfVerifies dns now zone.print (KeySet.classify (tree.keys zone)) (tree.keySigs zone)
        (tree.ds zone) = true ↔ tree.EntryBy257 zone := by
  simp only [selfVerifies, verifyAnyRRSIG_iff, mem_filterKeysByDS, EntryBy257, SignedBy,
    KeySet.classify, List.mem_filter, decide_eq_true_eq, and_assoc]

theorem EntryBy257.ksk_ne_nil (entry : tree.EntryBy257 zone) :
    (KeySet.classify (tree.keys zone)).ksk ≠ [] := by
  obtain ⟨_, _, key, member, ⟨flags, _⟩, _⟩ := entry
  exact List.ne_nil_of_mem (a := key) (by simp [KeySet.classify, member, flags])

/-- The keys that a level of the chain returns are owned by its zone. -/
theorem EntryBy257.owned (entry : tree.EntryBy257 zone) {key : DNSKEY}
    (member : key ∈ (KeySet.classify (tree.keys zone)).all) :
    dns.canonicalName key.hdr.name = zone.print := by
  obtain ⟨sig, sigMem, signer, signerMem, ⟨flags, _⟩, signs⟩ := entry
  have attests := dns.attests_of_verify signs.good
  simp only [selfSignatures, List.mem_filter, decide_eq_true_eq] at sigMem
  have signerIn : signer ∈ (KeySet.classify (tree.keys zone)).all := by
    simp [KeySet.all, KeySet.classify, signerMem, flags]
  have signerOwner := attests.owner (.dnskey signer) (List.mem_map_of_mem signerIn)
  have keyOwner := attests.owner (.dnskey key) (List.mem_map_of_mem member)
  calc dns.canonicalName key.hdr.name
      = dns.canonicalName sig.hdr.name := keyOwner
    _ = dns.canonicalName signer.hdr.name := signerOwner.symm
    _ = dns.canonicalName sig.signerName := attests.signer
    _ = zone.print := sigMem.2.1

/-- What a key of a linked zone signed names that zone as the signer. -/
theorem Linked.signer_eq (linked : tree.Linked zone) {key : DNSKEY} (member : key ∈ tree.keys zone)
    (flags : HasFlags256 key) {sig : RRSIG} {rrset : List RR}
    (signs : Signs dns sig key rrset now) :
    sig.signer.lower = zone := by
  have owned := linked.entry.owned (by
    simp [KeySet.all, KeySet.classify, member, show key.flags = 256 from flags] :
      key ∈ (KeySet.classify (tree.keys zone)).all)
  rw [(dns.attests_of_verify signs.good).signer, dns.canonicalName_print] at owned
  exact print_injective owned

/-! ## The chain of trust in a tree -/

variable {resolver : Query → Except Text Msg} {start : Session Orders}

/-- What the DS lookup of a name below the root returns. -/
theorem Serves.dsLookup_eq (serves : tree.Serves resolver) (lower : zone.lower = zone)
    (notTop : zone ≠ .top) :
    ∃ found, dsLookup dns resolver zone.print = .ok found ∧ found.ds = tree.ds zone ∧
      (zone ∈ tree.secure → found.sigs = tree.dsSigs zone) ∧
        (zone ∉ tree.secure → found.resp.ns = tree.denial zone) := by
  obtain ⟨msg, replied, ds_eq, sigs_eq, ns_eq⟩ := serves.ds zone lower notTop
  have resp_eq : (DSLookup.ofResponse msg).resp = msg := by
    unfold DSLookup.ofResponse
    split <;> rfl
  refine ⟨.ofResponse msg, ?_, ds_eq, sigs_eq, fun unsecured => by rw [resp_eq, ns_eq unsecured]⟩
  rw [dsLookup, dns.canonicalName_print, lower, replied]
  rfl

/-- The anchors vouch for the root. -/
theorem Anchored.dsResult_root (anchored : tree.Anchored start.store) :
    dsResult dns resolver now start root = .ok (tree.ds .top) := by
  obtain ⟨stored, found, live, records⟩ := anchored.anchors
  refine (dsResult_root_eq_ok_iff ..).mpr ⟨?_, tree.ds_ne_nil tree.root_secure⟩
  simp [liveDS, found, live, records]

/-- A text for which the chain of trust returns keys is that of a name. -/
theorem Anchored.spelled (serves : tree.Serves resolver) (anchored : tree.Anchored start.store)
    {zone : Name} (canonical : dns.IsCanonical zone) {keys : KeySet}
    (returned : chainResult dns resolver now start zone = .ok keys) :
    ∃ name : DomainName, name.lower = name ∧ name.print = zone := by
  have lowered : ∀ name : DomainName, name.print = zone → name.lower = name := by
    rintro name rfl
    exact print_injective ((dns.canonicalName_print name).symm.trans canonical.2)
  rcases anchored.cached zone canonical with absent | ⟨name, spelled, _⟩
  · rw [chainResult_eq canonical, if_pos absent] at returned
    obtain ⟨msg, replied, _⟩ := ((keysResult_cases canonical.1).1 keys).mp
      returned
    by_contra unspelled
    obtain ⟨failure, refused⟩ := serves.misspelled zone typeDNSKEY fun name spelled =>
      unspelled ⟨name, lowered name spelled, spelled⟩
    rw [canonical.2, refused] at replied
    cases replied
  · exact ⟨name, lowered name spelled, spelled⟩

theorem isCanonical_print {name : DomainName} (lower : name.lower = name) :
    dns.IsCanonical name.print :=
  ⟨name.print_qualified, by rw [dns.canonicalName_print, lower]⟩

variable (serves : tree.Serves resolver)
include serves

/-- Fetched keys of a name are accepted when it is a secure zone, its DS records are
authenticated and vouch for an entry key. -/
theorem Serves.keysResult_eq_ok_iff (lower : zone.lower = zone) (keys : KeySet) :
    keysResult dns resolver now start zone.print = .ok keys ↔
      zone ∈ tree.secure ∧ keys = KeySet.classify (tree.keys zone) ∧ keys.ksk ≠ [] ∧
        ∃ ds, dsResult dns resolver now start zone.print = .ok ds ∧
          selfVerifies dns now zone.print keys (tree.keySigs zone) ds = true := by
  rw [(keysResult_cases zone.print_qualified).1, dns.canonicalName_print,
    lower]
  obtain ⟨msg, replied, keys_eq, ofSecure⟩ := serves.dnskey zone lower
  constructor
  · rintro ⟨own, ownReplied, _, rfl, nonempty, ds, authenticated, verified⟩
    obtain rfl : msg = own := Except.ok.inj (replied.symm.trans ownReplied)
    have secure : zone ∈ tree.secure := by
      by_contra unsecured
      rw [offeredKeys, keys_eq, tree.keys_secure zone unsecured] at nonempty
      exact nonempty rfl
    rw [(ofSecure secure).2] at verified
    exact ⟨secure, by rw [offeredKeys, keys_eq], nonempty, ds, authenticated, verified⟩
  · rintro ⟨secure, rfl, nonempty, ds, authenticated, verified⟩
    refine ⟨msg, replied, (ofSecure secure).1, by rw [offeredKeys, keys_eq], nonempty, ds,
      authenticated, ?_⟩
    rwa [(ofSecure secure).2]

variable (anchored : tree.Anchored start.store)
include anchored

theorem keysResult_top_iff (keys : KeySet) :
    keysResult dns resolver now start DomainName.top.print = .ok keys ↔
      tree.Linked .top ∧ keys = KeySet.classify (tree.keys .top) := by
  rw [serves.keysResult_eq_ok_iff lower_top, print_top, anchored.dsResult_root]
  constructor
  · rintro ⟨_, rfl, _, ds, authenticated, verified⟩
    obtain rfl := Except.ok.inj authenticated
    exact ⟨.root ((selfVerifies_iff .top).mp verified), rfl⟩
  · rintro ⟨linked, rfl⟩
    exact ⟨linked.secure, rfl, linked.entry.ksk_ne_nil, _, rfl,
      (selfVerifies_iff .top).mpr linked.entry⟩

/-- One level of the chain of trust, from what the chain of the textual parent returns. -/
theorem keysResult_below_iff (lower : zone.lower = zone) (notTop : zone ≠ .top)
    (parentChain : ∀ parent : DomainName, parent.lower = parent →
      parent.print = parentZone dns zone.print → ∀ keys,
        (chainResult dns resolver now start parent.print = .ok keys ↔
          tree.Linked parent ∧ keys = KeySet.classify (tree.keys parent))) (keys : KeySet) :
    keysResult dns resolver now start zone.print = .ok keys ↔
      tree.Linked zone ∧ keys = KeySet.classify (tree.keys zone) := by
  have canonical : dns.IsCanonical zone.print := isCanonical_print lower
  have below : zone.print ≠ root := fun isRoot =>
    notTop (DomainName.ext ((print_eq_root_iff zone).mp isRoot))
  obtain ⟨found, looked, ds_eq, sigs_eq, _⟩ := serves.dsLookup_eq lower notTop
  simp only [serves.keysResult_eq_ok_iff lower,
    dsResult_eq_ok_iff dns resolver now start canonical.1 below, looked]
  constructor
  · rintro ⟨secure, rfl, _, ds, ⟨_, parentKeys, ⟨⟩, parentReturned, rfl, _, signed⟩, verified⟩
    obtain ⟨parent, parentLower, parent_eq⟩ := anchored.spelled serves
      (isCanonical_parentZone dns canonical) parentReturned
    rw [← parent_eq] at parentReturned
    obtain ⟨parentLinked, rfl⟩ :=
      (parentChain parent parentLower parent_eq parentKeys).mp parentReturned
    rw [ds_eq, sigs_eq secure, verifyAnyRRSIG_classify_iff] at signed
    -- the signer lies above the zone, so the textual parent is the right one
    obtain ⟨sig, sigMem, key, keyMem, flags, signs⟩ := signed
    have above := tree.ds_signer zone secure sig sigMem
    rw [parentLinked.signer_eq keyMem flags signs] at above
    obtain rfl := above.eq_drop_of_parentZone dns lower parent_eq.symm
    rw [ds_eq] at verified
    exact ⟨.delegated secure notTop parent_eq.symm ((selfVerifies_iff zone).mp verified)
      ⟨sig, sigMem, key, keyMem, flags, signs⟩ parentLinked, rfl⟩
  · rintro ⟨linked, rfl⟩
    cases linked with
    | root => exact absurd rfl notTop
    | delegated secure _ cuts entry delegated parentLinked =>
      have parentReturned := (parentChain _ (tree.lower_secure _ parentLinked.secure) cuts.symm
        _).mpr ⟨parentLinked, rfl⟩
      refine ⟨secure, rfl, entry.ksk_ne_nil, tree.ds zone,
        ⟨found, KeySet.classify (tree.keys (zone.drop 1)), rfl, ?_, ds_eq,
          tree.ds_ne_nil secure, ?_⟩, (selfVerifies_iff zone).mpr entry⟩
      · rwa [cuts]
      · rw [sigs_eq secure, verifyAnyRRSIG_classify_iff]
        exact delegated

/-- The chain of trust of a name returns keys exactly when the name is linked to the
root, and then they are the keys of the zone. -/
theorem chain_eq_ok_iff (lower : zone.lower = zone) (keys : KeySet) :
    chainResult dns resolver now start zone.print = .ok keys ↔
      tree.Linked zone ∧ keys = KeySet.classify (tree.keys zone) := by
  -- on the length of the text, since a textual parent may have as many labels
  induction length_eq : zone.print.length using Nat.strong_induction_on generalizing zone keys with
  | _ length ih =>
  subst length_eq
  have canonical : dns.IsCanonical zone.print := isCanonical_print lower
  rw [chainResult_eq canonical]
  rcases anchored.cached zone.print canonical with absent | ⟨name, spelled, linked, live_eq⟩
  · rw [if_pos absent]
    by_cases top : zone = .top
    · subst top
      exact keysResult_top_iff serves anchored keys
    · refine keysResult_below_iff serves anchored lower top ?_ keys
      intro parent parentLower parent_eq parentKeys
      have below : zone.print ≠ root := fun isRoot =>
        top (DomainName.ext ((print_eq_root_iff zone).mp isRoot))
      have shorter := length_parentZone_lt dns canonical below
      rw [← parent_eq] at shorter
      exact ih _ shorter parentLower parentKeys rfl
  · obtain rfl := print_injective spelled
    have nonempty : ¬ (liveKeys dns now start.store name.print).IsEmpty := fun empty =>
      linked.entry.ksk_ne_nil (live_eq ▸ empty.2)
    rw [if_neg nonempty, live_eq, Except.ok.injEq]
    exact ⟨fun same => ⟨linked, same.symm⟩, fun ⟨_, same⟩ => same.symm⟩

end ZoneTree

end RouteDns.Dnssec
