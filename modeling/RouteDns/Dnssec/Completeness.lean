import RouteDns.Dnssec.ZoneTree

/-!
# Verdicts over a tree of honest zones

With a resolver that answers as the zones of a tree would, a correctly signed set of a
securely delegated zone should be accepted and an unsigned set of an unsigned zone
should be found insecure.  Both happen exactly when the delegations on the way are one
label apart: the walk from the root stops with an error at the first name that is not
delegated.
-/

namespace RouteDns.Dnssec

open Dns Program

variable {dns : Library} {now : Time}

namespace ZoneTree

variable {tree : ZoneTree dns now} {resolver : Query → Except Text Msg} {start : Session Orders}

theorem Linked.parent {zone : DomainName} (linked : tree.Linked zone) :
    tree.Linked (zone.drop 1) := by
  cases linked with
  | root entry => exact .root entry
  | delegated _ _ _ _ _ parent => exact parent

/-- All names above a linked one are linked. -/
theorem Linked.drop {zone : DomainName} (linked : tree.Linked zone) (count : Nat) :
    tree.Linked (zone.drop count) := by
  induction count with
  | zero => exact linked
  | succ count ih =>
    have next_eq : zone.drop (count + 1) = (zone.drop count).drop 1 := by
      apply DomainName.ext
      simp
    rw [next_eq]
    exact ih.parent

/-- No chain of trust in a tree ends in an insecure delegation: unsigned zones publish no
keys, so they are not reached. -/
theorem chain_not_insecure (serves : tree.Serves resolver) (anchored : tree.Anchored start.store)
    {zone : Name} (canonical : dns.IsCanonical zone) :
    ¬ IsInsecure (chainResult dns resolver now start zone) := by
  induction length_eq : zone.length using Nat.strong_induction_on generalizing zone with
  | _ length ih =>
  subst length_eq
  rw [chainResult_eq canonical]
  split
  · rw [(keysResult_cases canonical.1).2, canonical.2]
    rintro ⟨msg, replied, _, nonempty, insecure⟩
    obtain ⟨name, rfl⟩ : ∃ name : DomainName, name.print = zone := by
      by_contra unspelled
      obtain ⟨failure, refused⟩ := serves.misspelled zone typeDNSKEY (not_exists.mp unspelled)
      rw [refused] at replied
      cases replied
    have lower : name.lower = name :=
      print_injective ((dns.canonicalName_print name).symm.trans canonical.2)
    obtain ⟨own, ownReplied, keys_eq, _⟩ := serves.dnskey name lower
    obtain rfl : own = msg := Except.ok.inj (ownReplied.symm.trans replied)
    have secure : name ∈ tree.secure := by
      by_contra unsecured
      rw [offeredKeys, keys_eq, tree.keys_secure name unsecured] at nonempty
      exact nonempty rfl
    by_cases top : name = .top
    · subst top
      rw [print_top, anchored.dsResult_root] at insecure
      exact not_isInsecure_ok _ insecure
    · have below : name.print ≠ root := fun isRoot =>
        top (DomainName.ext ((print_eq_root_iff name).mp isRoot))
      obtain ⟨found, looked, ds_eq, _⟩ := serves.dsLookup_eq lower top
      rw [dsResult_insecure_iff dns resolver now start canonical.1 below, looked] at insecure
      obtain ⟨_, ⟨⟩, above | ⟨_, _, absent, _⟩⟩ := insecure
      · exact ih _ (length_parentZone_lt dns canonical below)
          (isCanonical_parentZone dns canonical) rfl above
      · exact tree.ds_ne_nil secure (ds_eq ▸ absent)
  · exact not_isInsecure_ok _

variable (tree) in
/-- The answer that a name has no DS record shows, under a key with flags 256 of the name
one label up, which is linked to the root, that the name is a delegation. -/
structure ProvablyUnsigned (name : DomainName) : Prop where
  unsecured : name ∉ tree.secure
  cuts : Cuts dns name
  linked : tree.Linked (name.drop 1)
  denied : DenialSignedBy dns now HasFlags256 (tree.keys (name.drop 1)) (tree.denial name)
    name.print

section Name

variable {name : DomainName} (lower : name.lower = name) (notTop : name ≠ .top)

include lower notTop

theorem noDSOutcome_false_iff (serves : tree.Serves resolver) :
    noDSOutcome dns resolver now start name.print = .ok false ↔ name ∈ tree.secure := by
  obtain ⟨found, looked, ds_eq, _⟩ := serves.dsLookup_eq lower notTop
  rw [noDSOutcome_eq_false_iff, looked]
  constructor
  · rintro ⟨_, ⟨⟩, present⟩
    by_contra unsecured
    exact present (ds_eq.trans (tree.ds_secure name unsecured))
  · intro secure
    exact ⟨found, rfl, ds_eq ▸ tree.ds_ne_nil secure⟩

theorem noDSOutcome_true_iff_provablyUnsigned (serves : tree.Serves resolver)
    (anchored : tree.Anchored start.store) :
    noDSOutcome dns resolver now start name.print = .ok true ↔ tree.ProvablyUnsigned name := by
  have canonical : dns.IsCanonical name.print := isCanonical_print lower
  obtain ⟨found, looked, ds_eq, _, ns_eq⟩ := serves.dsLookup_eq lower notTop
  constructor
  · intro proved
    have reached := proved
    rw [noDSOutcome_eq_true_iff, looked] at reached
    obtain ⟨_, ⟨⟩, absent, reached⟩ := reached
    have unsecured : name ∉ tree.secure := fun secure =>
      tree.ds_ne_nil secure (ds_eq ▸ absent)
    obtain ⟨keys, returned, _⟩ := reached.resolve_left
      (chain_not_insecure serves anchored (isCanonical_parentZone dns canonical))
    obtain ⟨parent, parentLower, parent_eq⟩ := anchored.spelled serves
      (isCanonical_parentZone dns canonical) returned
    rw [← parent_eq] at returned
    obtain ⟨linked, rfl⟩ := (chain_eq_ok_iff serves anchored parentLower keys).mp returned
    have denied := (noDSOutcome_true_iff returned parent_eq.symm looked
      absent).mp proved
    rw [ns_eq unsecured] at denied
    obtain ⟨set, setMem, isDenial, denies, sig, sigMem, key, keyMem, flags, signs⟩ := denied
    -- the signer lies above the name, so the textual parent is the right one
    have above := tree.denial_signer name unsecured sig ((mem_sigsOf dns).mp sigMem).1
    rw [linked.signer_eq keyMem flags signs] at above
    obtain rfl := above.eq_drop_of_parentZone dns lower parent_eq.symm
    exact ⟨unsecured, parent_eq.symm, linked,
      set, setMem, isDenial, denies, sig, sigMem, key, keyMem, flags, signs⟩
  · rintro ⟨unsecured, cuts, linked, denied⟩
    have returned := (chain_eq_ok_iff serves anchored (tree.lower_secure _ linked.secure) _).mpr
      ⟨linked, rfl⟩
    refine (noDSOutcome_true_iff returned cuts looked
      (ds_eq.trans (tree.ds_secure name unsecured))).mpr ?_
    rwa [ns_eq unsecured]

end Name

variable (tree) in
/-- Some name at or above the given one is provably unsigned. -/
def Opens (owner : DomainName) : Prop :=
  ∃ skipped < owner.labels.length, tree.ProvablyUnsigned (owner.drop skipped)

/-- A descending walk splits at each of its numbers. -/
theorem range_reverse_split {size skipped : Nat} (inside : skipped < size) :
    ∃ before after, (List.range size).reverse = before ++ skipped :: after ∧
      ∀ earlier ∈ before, skipped < earlier ∧ earlier < size := by
  obtain ⟨extra, rfl⟩ := Nat.exists_eq_add_of_lt inside
  refine ⟨((List.range extra).map (skipped + 1 + ·)).reverse, (List.range skipped).reverse, ?_, ?_⟩
  · rw [show skipped + extra + 1 = skipped + 1 + extra by omega, List.range_add, List.range_succ]
    simp
  · intro earlier member
    obtain ⟨offset, offsetMem, rfl⟩ := List.mem_map.mp (List.mem_reverse.mp member)
    have bound := List.mem_range.mp offsetMem
    omega

section Walk

variable {owner : DomainName} (lower : owner.lower = owner)

include lower

theorem lower_drop (count : Nat) : (owner.drop count).lower = owner.drop count := by
  rw [DomainName.lower_drop, lower]

omit lower in
theorem drop_ne_top {count : Nat} (inside : count < owner.labels.length) :
    owner.drop count ≠ .top := by
  intro isTop
  have empty : owner.labels.drop count = [] := congrArg DomainName.labels isTop
  rw [List.drop_eq_nil_iff] at empty
  omega

/-- The walk passes all names above a provably unsigned one: they are linked, so they have
DS records. -/
theorem noDSOutcome_false_above (serves : tree.Serves resolver) {skipped earlier : Nat}
    (opens : tree.ProvablyUnsigned (owner.drop skipped)) (further : skipped < earlier)
    (bound : earlier < owner.labels.length) :
    noDSOutcome dns resolver now start (owner.drop earlier).print = .ok false := by
  have above_eq : owner.drop earlier =
      ((owner.drop skipped).drop 1).drop (earlier - (skipped + 1)) := by
    apply DomainName.ext
    simp only [DomainName.drop_labels, List.drop_drop]
    congr 1
    omega
  refine (noDSOutcome_false_iff (lower_drop lower earlier) (drop_ne_top bound) serves).mpr ?_
  rw [above_eq]
  exact (opens.linked.drop _).secure

/-- The walk toward a name ends at an insecure delegation exactly when a name on the way
is provably unsigned; those before it are linked to the root. -/
theorem checkInsecureDelegation_insecure_iff (serves : tree.Serves resolver)
    (anchored : tree.Anchored start.store) :
    IsInsecure ((checkInsecureDelegation dns (World.steady resolver now) owner.print).result
      start) ↔ tree.Opens owner := by
  have proves : ∀ {skipped}, skipped < owner.labels.length →
      (noDSOutcome dns resolver now start (owner.drop skipped).print = .ok true ↔
        tree.ProvablyUnsigned (owner.drop skipped)) := fun inside =>
    noDSOutcome_true_iff_provablyUnsigned (lower_drop lower _) (drop_ne_top inside) serves anchored
  rw [checkInsecureDelegation_insecure, lower, enclosingZones_print]
  constructor
  · rintro ⟨before, zone, after, split, _, proved⟩
    have member : zone ∈ (List.range owner.labels.length).reverse.map
        fun skipped => (owner.drop skipped).print := by simp [split]
    obtain ⟨skipped, skippedMem, rfl⟩ := List.mem_map.mp member
    have inside : skipped < owner.labels.length := by simpa using skippedMem
    exact ⟨skipped, inside, (proves inside).mp proved⟩
  · rintro ⟨skipped, inside, opens⟩
    obtain ⟨before, after, split, between⟩ := range_reverse_split inside
    refine ⟨before.map fun skipped => (owner.drop skipped).print, (owner.drop skipped).print,
      after.map fun skipped => (owner.drop skipped).print, by simp [split], ?_,
      (proves inside).mpr opens⟩
    intro zone member
    obtain ⟨earlier, earlierMem, rfl⟩ := List.mem_map.mp member
    obtain ⟨further, bound⟩ := between earlier earlierMem
    exact noDSOutcome_false_above lower serves opens further bound

end Walk

/-! ## Verdicts -/

variable (tree) in
/-- The answer section holds one set of a secure zone, with a current signature by a key of
the zone, and signatures of that zone only. -/
structure SignedAnswer (zone : DomainName) (answer : Msg) (key : RRsetKey) : Prop where
  secure : zone ∈ tree.secure
  single : rrsetKeys dns answer.answer = [key]
  inZone : dns.isSubDomain zone.print key.name = true
  fromZone : ∀ sig ∈ sigsOf dns answer.answer key, sig.signer.lower = zone
  signed : SignedBy dns now IsZoneKey (tree.keys zone) (sigsOf dns answer.answer key)
    (rrsetOf dns answer.answer key)

variable (tree) in
/-- The answer section holds one set, without signatures, at or below an unsigned zone. -/
structure UnsignedAnswer (zone owner : DomainName) (answer : Msg) (key : RRsetKey) : Prop where
  unsigned : zone ∈ tree.unsigned
  single : rrsetKeys dns answer.answer = [key]
  owner_eq : key.name = owner.print
  inZone : zone.labels <:+ owner.labels
  unsignedSet : sigsOf dns answer.answer key = []

theorem answer_ne_nil {answer : Msg} {key : RRsetKey}
    (single : rrsetKeys dns answer.answer = [key]) : answer.answer ≠ [] := by
  intro empty
  rw [empty] at single
  cases single

theorem SignedAnswer.accepted_iff (serves : tree.Serves resolver)
    (anchored : tree.Anchored start.store) {zone : DomainName} {answer : Msg} {key : RRsetKey}
    (signedAnswer : tree.SignedAnswer zone answer key) :
    (validate dns (World.steady resolver now) answer).result start = .ok () ↔
      tree.Linked zone ∧ SignedBy dns now HasFlags256 (tree.keys zone)
        (sigsOf dns answer.answer key) (rrsetOf dns answer.answer key) := by
  have lower := tree.lower_secure zone signedAnswer.secure
  have fromZone : ∀ sig ∈ sigsOf dns answer.answer key,
      dns.canonicalName sig.signerName = zone.print := fun sig member => by
    rw [dns.canonicalName_print, signedAnswer.fromZone sig member]
  rw [validate_ok_iff_of_answer dns resolver now start (answer_ne_nil signedAnswer.single)
    coherent_refl, signedAnswer.single, List.forall_mem_singleton, verified]
  by_cases linked : tree.Linked zone
  · have trusted := (chain_eq_ok_iff serves anchored lower _).mpr ⟨linked, rfl⟩
    rw [any_authenticates_iff trusted fromZone signedAnswer.inZone]
    exact (and_iff_right linked).symm
  · refine iff_of_false ?_ fun accepted => linked accepted.1
    rw [List.any_eq_true]
    rintro ⟨sig, member, authentic⟩
    simp only [authenticates, fromZone sig member, Bool.and_eq_true] at authentic
    cases returned : chainResult dns resolver now start zone.print with
    | error failure => simp [returned] at authentic
    | ok keys => exact linked ((chain_eq_ok_iff serves anchored lower keys).mp returned).1

theorem UnsignedAnswer.insecure_iff (serves : tree.Serves resolver)
    (anchored : tree.Anchored start.store) {zone owner : DomainName} {answer : Msg}
    {key : RRsetKey} (unsignedAnswer : tree.UnsignedAnswer zone owner answer key) :
    IsInsecure ((validate dns (World.steady resolver now) answer).result start) ↔
      tree.Opens owner := by
  have coherent : Coherent dns resolver now start start := coherent_refl
  have member : key ∈ rrsetKeys dns answer.answer := by simp [unsignedAnswer.single]
  have order_eq : (start.world 0 (rrsetKeys dns answer.answer)).val = [key] := by
    have perm := (start.world 0 (rrsetKeys dns answer.answer)).property
    exact List.perm_singleton.mp (unsignedAnswer.single ▸ perm)
  obtain ⟨own, own_eq⟩ := ownerOf_print (rrsetOf dns answer.answer key)
  have own_lower : own.lower = owner := by
    have same := canonicalName_ownerOf dns member
    rw [own_eq, dns.canonicalName_print, unsignedAnswer.owner_eq] at same
    exact print_injective same
  have lower : owner.lower = owner := by rw [← own_lower, own.lower_lower]
  obtain ⟨detail, result⟩ := validateSet_unsigned_result dns resolver now start member
    unsignedAnswer.unsignedSet
  rw [validate_result_of_answer dns resolver now start (answer_ne_nil unsignedAnswer.single)
    coherent, order_eq, validateSets_cons_result, result, unsignedAnswer.owner_eq,
    ← checkInsecureDelegation_insecure_iff lower serves anchored]
  cases (checkInsecureDelegation dns (World.steady resolver now) owner.print).result start with
  | error failure => simp [Except.bind, IsInsecure]
  | ok _ =>
    refine iff_of_false ?_ (not_isInsecure_ok _)
    rintro ⟨_, ⟨⟩, ⟨⟩⟩

end ZoneTree

/-- In a tree of honest zones a correctly signed set is accepted exactly when its zone is
linked to the root and a key with flags 256 signed it, and an unsigned set is found
insecure exactly when a name at or above its owner is provably unsigned. -/
theorem honest_tree_verdicts_iff (tree : ZoneTree dns now) (resolver : Query → Except Text Msg)
    (serves : tree.Serves resolver) (store : Keystore) (anchored : tree.Anchored store)
    (orders : Orders) :
    (∀ zone answer key, tree.SignedAnswer zone answer key →
      ((validate dns (World.steady resolver now) answer).result (sessionWith store orders) =
          .ok () ↔
        tree.Linked zone ∧ SignedBy dns now HasFlags256 (tree.keys zone)
          (sigsOf dns answer.answer key) (rrsetOf dns answer.answer key))) ∧
    ∀ zone owner answer key, tree.UnsignedAnswer zone owner answer key →
      (IsInsecure ((validate dns (World.steady resolver now) answer).result
          (sessionWith store orders)) ↔
        tree.Opens owner) :=
  ⟨fun _ _ _ signedAnswer => signedAnswer.accepted_iff serves anchored,
    fun _ _ _ _ unsignedAnswer => unsignedAnswer.insecure_iff serves anchored⟩

/-! ## A tree with delegations one and two labels deep -/

namespace SampleTree

abbrev zone : DomainName := Reference.exampleName

/-- A secure zone two labels below the one that delegates it. -/
def deepZone : DomainName := { labels := [text "b", text "a", text "example"] }

/-- Unsigned zones, one and two labels below the one that delegates them. -/
def plainZone : DomainName := { labels := [text "u", text "example"] }

def deepPlainZone : DomainName := { labels := [text "c", text "a", text "example"] }

def zskOf (name : DomainName) : DNSKEY := Reference.keyOf (Reference.headerOf name) 256 (text "zsk")

def kskOf (name : DomainName) : DNSKEY := Reference.keyOf (Reference.headerOf name) 257 (text "ksk")

/-- The zone that delegates a name. -/
def parentOf (name : DomainName) : DomainName :=
  if IsAbove zone name then zone else .top

/-- The NSEC record of a name with its signature by the zone that answers. -/
def signedNSEC (signer owner : DomainName) (bitmap : List UInt16) : List RR :=
  [.nsec { hdr := { Reference.headerOf owner with rrtype := typeNSEC }, next := signer
           typeBitMap := bitmap },
    .rrsig (Reference.sign (zskOf signer) (Reference.headerOf owner) typeNSEC)]

/-- Delegations have a record of their own; other names are denied by the record of the
apex. -/
def denialOf (name : DomainName) : List RR :=
  if name = plainZone ∨ name = deepPlainZone then
    signedNSEC zone name [typeNS, typeRRSIG, typeNSEC]
  else
    signedNSEC (parentOf name) (parentOf name) [typeNS, typeSOA, typeRRSIG, typeNSEC]

def secureZones : Finset DomainName := {.top, zone, deepZone}

def unsignedZones : Finset DomainName := {plainZone, deepPlainZone}

/-- The signer of a signed NSEC record is the zone that answers. -/
theorem signer_of_mem_signedNSEC {signer owner : DomainName} {bitmap : List UInt16} {sig : RRSIG}
    (member : .rrsig sig ∈ signedNSEC signer owner bitmap) : sig.signer = signer := by
  simp only [signedNSEC, List.mem_cons, reduceCtorEq, RR.rrsig.injEq, List.not_mem_nil, or_false,
    false_or] at member
  rw [member]
  rfl

theorem isAbove_parentOf {name : DomainName} (below : name ≠ .top) :
    IsAbove (parentOf name) name := by
  unfold parentOf
  split
  · assumption
  · exact ⟨List.nil_suffix, below.symm⟩

theorem lower_parentOf (name : DomainName) : (parentOf name).lower = parentOf name := by
  unfold parentOf
  split <;> decide

end SampleTree

open SampleTree in
/-- Two securely delegated zones below the root and two unsigned ones, of each kind one
that is delegated from directly above and one that is not. -/
def sampleTree : ZoneTree reference sampleTime where
  secure := secureZones
  unsigned := unsignedZones
  keys name := if name ∈ secureZones then [zskOf name, kskOf name] else []
  keySigs name := [Reference.sign (kskOf name) (Reference.headerOf name) typeDNSKEY]
  ds name :=
    if name ∈ secureZones then [Reference.dsOf (Reference.headerOf name) (kskOf name)] else []
  dsSigs name :=
    if name = .top then []
    else [Reference.sign (zskOf (parentOf name)) (Reference.headerOf name) typeDS]
  denial := denialOf
  root_secure := by decide
  lower_secure := by decide
  lower_unsigned := by decide
  disjoint := by decide
  keys_secure name unsecured := if_neg unsecured
  ds_secure name unsecured := if_neg unsecured
  keys_signed := by decide +kernel
  ds_signed := by decide +kernel
  denial_signed := by decide +kernel
  ds_covered := by decide
  ds_signer := by decide +kernel
  denial_signer name unsecured sig member := by
    have below : name ≠ .top := fun isTop => unsecured (isTop ▸ by decide)
    unfold denialOf at member
    split at member
    · rename_i delegated
      rw [signer_of_mem_signedNSEC member]
      rcases delegated with rfl | rfl <;> decide
    · rw [signer_of_mem_signedNSEC member, lower_parentOf]
      exact isAbove_parentOf below

/-- A keystore with the trust anchor of the sample tree. -/
def anchoredStore : Keystore :=
  Keystore.addDS reference ∅ root (sampleTree.ds .top) sampleTime

theorem sampleTree_anchored : sampleTree.Anchored anchoredStore where
  anchors := ⟨_, rfl, by decide, by decide⟩
  cached zone _ := by
    left
    have unstored : anchoredStore.storedKeys reference zone = none := by
      rw [anchoredStore, Keystore.storedKeys_addDS]
      rfl
    rw [liveKeys, unstored]
    exact KeySet.isEmpty_nil

/-- The answer to a question for the address of a name. -/
def addressAnswer (name : DomainName) (sigs : List RRSIG) : Msg where
  rcode := rcodeSuccess
  question := []
  answer := Reference.addressOf (Reference.headerOf name) :: sigs.map RR.rrsig
  ns := []

/-- A correctly signed address at the apex of a secure zone. -/
def signedAddressAnswer (name : DomainName) : Msg :=
  addressAnswer name [Reference.sign (SampleTree.zskOf name) (Reference.headerOf name) 1]

/-- The set under which the address of a name is grouped. -/
def addressKey (name : DomainName) : RRsetKey :=
  recordKey reference (Reference.addressOf (Reference.headerOf name))

open SampleTree in
theorem linked_zone : sampleTree.Linked zone :=
  .delegated (by decide) (by decide) (cuts_of_dot_not_mem reference (by decide) rfl (by decide))
    (by decide +kernel) (by decide +kernel) (.root (by decide +kernel))

open SampleTree in
theorem shallow_delegations_validate :
    (validate reference (World.steady sampleTree.resolve sampleTime)
        (signedAddressAnswer zone)).result (standing anchoredStore) = .ok () ∧
      IsInsecure ((validate reference (World.steady sampleTree.resolve sampleTime)
        (addressAnswer plainZone [])).result (standing anchoredStore)) := by
  have verdicts := honest_tree_verdicts_iff sampleTree sampleTree.resolve sampleTree.serves_resolve
    anchoredStore sampleTree_anchored fun _ => listedOrder
  constructor
  · exact (verdicts.1 zone (signedAddressAnswer zone) (addressKey zone)
      ⟨by decide, by decide, by decide, by decide, by decide +kernel⟩).mpr
        ⟨linked_zone, by decide +kernel⟩
  · exact (verdicts.2 plainZone plainZone (addressAnswer plainZone []) (addressKey plainZone)
      ⟨by decide, by decide, by decide, List.suffix_refl _, by decide⟩).mpr
        ⟨0, by decide, by decide, by decide, linked_zone, by decide +kernel⟩

open SampleTree in
/-- A correctly signed set of a securely delegated zone is rejected, and an unsigned set of
an unsigned zone is not found insecure, when the zone lies two labels below the one
that delegates it. -/
theorem deep_delegations_fail :
    (sampleTree.Serves sampleTree.resolve ∧ sampleTree.Anchored anchoredStore) ∧
      (sampleTree.SignedAnswer deepZone (signedAddressAnswer deepZone) (addressKey deepZone) ∧
        (validate reference (World.steady sampleTree.resolve sampleTime)
          (signedAddressAnswer deepZone)).result (standing anchoredStore) ≠ .ok ()) ∧
      sampleTree.UnsignedAnswer deepPlainZone deepPlainZone (addressAnswer deepPlainZone [])
          (addressKey deepPlainZone) ∧
        ¬ IsInsecure ((validate reference (World.steady sampleTree.resolve sampleTime)
          (addressAnswer deepPlainZone [])).result (standing anchoredStore)) :=
  ⟨⟨sampleTree.serves_resolve, sampleTree_anchored⟩,
    ⟨⟨by decide, by decide, by decide, by decide, by decide +kernel⟩, by decide +kernel⟩,
    ⟨by decide, by decide, by decide, List.suffix_refl _, by decide⟩, by decide +kernel⟩

end RouteDns.Dnssec
