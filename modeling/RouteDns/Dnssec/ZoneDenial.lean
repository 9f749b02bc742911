import Mathlib.Data.Finset.Basic
import RouteDns.Dnssec.NameOrder
import RouteDns.Dnssec.Keystore

/-!
# What the NSEC records of a zone prove

A zone is a finite set of owner names below an apex, each with its types, and its NSEC
chain links every owner to its successor in canonical order.  Whatever part of the
chain is presented, in whatever order, an accepted denial is true of the zone: the one
record that covers the name determines its closest encloser.
-/

namespace RouteDns.Dnssec

open Dns Canonical

variable (dns : Library)

/-- The contents of a zone below the root, as far as denial records speak about it.
Names are given in lower case. -/
structure Zone where
  apex : DomainName
  owners : Finset DomainName
  types : DomainName → Finset UInt16
  below_root : apex.labels ≠ []
  lower_apex : apex.lower = apex
  lower_owner : ∀ owner ∈ owners, owner.lower = owner
  below_apex : ∀ owner ∈ owners, apex.labels <:+ owner.labels

namespace Zone

variable (zone : Zone)

/-- The owner names of the zone, by their labels. -/
def names : Set (List Label) :=
  { labels | ∃ owner ∈ zone.owners, owner.labels = labels }

/-- A name owns records of a type. -/
def Has (name : DomainName) (rrtype : UInt16) : Prop :=
  name ∈ zone.owners ∧ rrtype ∈ zone.types name

/-- A name owns neither records of a type nor an alias. -/
def Lacks (name : DomainName) (rrtype : UInt16) : Prop :=
  ¬ zone.Has name rrtype ∧ ¬ zone.Has name typeCNAME

/-- The record belongs to the NSEC chain of the zone. -/
structure Genuine (record : NSEC) : Prop where
  owner_mem : record.hdr.owner.lower ∈ zone.owners
  follows : Follows zone.names zone.apex.labels record.hdr.owner.lower.labels
    record.next.lower.labels
  exact : ∀ rrtype, rrtype ∈ record.typeBitMap ↔ rrtype ∈ zone.types record.hdr.owner.lower

variable {zone}

theorem mem_names_iff (name : DomainName) : name.labels ∈ zone.names ↔ name ∈ zone.owners := by
  constructor
  · rintro ⟨owner, member, labels_eq⟩
    rwa [← DomainName.ext labels_eq]
  · exact fun member => ⟨name, member, rfl⟩

theorem underApex : UnderApex zone.names zone.apex.labels := by
  rintro _ ⟨owner, member, rfl⟩
  exact zone.below_apex owner member

theorem lacks_of_not_mem {name : DomainName} (unowned : name ∉ zone.owners) (rrtype : UInt16) :
    zone.Lacks name rrtype :=
  ⟨fun has => unowned has.1, fun has => unowned has.1⟩

variable {record : NSEC} {name : DomainName}

variable (genuine : zone.Genuine record)
include genuine

/-- A covered name owns nothing. -/
theorem Genuine.not_mem_of_covers (below : zone.apex.labels <:+ name.lower.labels)
    (covers : nsecCovers dns record name.print = true) : name.lower ∉ zone.owners := by
  obtain ⟨_, spans⟩ := (nsecCovers_print_iff dns record name).mp covers
  rw [← mem_names_iff]
  exact genuine.follows.not_mem_of_spans underApex ((mem_names_iff _).mpr genuine.owner_mem) below
    spans

/-- The closest encloser that a covering record implies is the true one. -/
theorem Genuine.isClosestEncloser (below : zone.apex.labels <:+ name.lower.labels)
    (covers : nsecCovers dns record name.print = true) :
    IsClosestEncloser zone.names name.lower.labels
      (ancestor name.lower (sharedWith name record)).labels := by
  obtain ⟨_, spans⟩ := (nsecCovers_print_iff dns record name).mp covers
  exact genuine.follows.isClosestEncloser underApex ((mem_names_iff _).mpr genuine.owner_mem) below
    spans

/-- A bitmap speaks for the owner of its record. -/
theorem Genuine.lacks {rrtype : UInt16} (lacks : bitmapLacks record.typeBitMap rrtype = true) :
    zone.Lacks record.hdr.owner.lower rrtype := by
  simp only [bitmapLacks, Bool.and_eq_true, Bool.not_eq_true', List.contains_eq_mem,
    decide_eq_false_iff_not, genuine.exact] at lacks
  exact ⟨fun has => lacks.1 has.2, fun has => lacks.2 has.2⟩

end Zone

/-! ## The wildcard of a covered name -/

/-- The closest encloser of a name that a covering record implies, as a name. -/
abbrev impliedEncloser (name : DomainName) (record : NSEC) : DomainName :=
  ancestor name.lower (sharedWith name record)

/-- The text the code builds for the wildcard is the text of the wildcard. -/
theorem impliedWildcard_print {zone : Zone} {record : NSEC} {name : DomainName}
    (genuine : zone.Genuine record) (below : zone.apex.labels <:+ name.lower.labels)
    (covers : nsecCovers dns record name.print = true) :
    dns.canonicalName (wildcardText (nsecClosestEncloser dns name.lower.print record)) =
      (wildcardOf (impliedEncloser name record)).lower.print := by
  have inside := (genuine.isClosestEncloser dns below covers).below_apex Zone.underApex below
  have labels_ne : (impliedEncloser name record).labels ≠ [] := fun empty =>
    zone.below_root (List.suffix_nil.mp (empty ▸ inside))
  rw [nsecClosestEncloser_print, wildcardText_print labels_ne, dns.canonicalName_print]

theorem lower_ancestor (name : DomainName) (count : Nat) :
    (ancestor name.lower count).lower = ancestor name.lower count := by
  apply DomainName.ext
  have lowered := congrArg DomainName.labels name.lower_lower
  rw [DomainName.lower_labels] at lowered
  rw [DomainName.lower_labels, ancestor_labels, outer, List.map_drop, lowered]

theorem nsecCovers_lower (record : NSEC) (name : DomainName) :
    nsecCovers dns record name.lower.print = nsecCovers dns record name.print := by
  simp only [nsecCovers, dns.canonicalName_print, DomainName.lower_lower]

/-- The wildcard walk lets the first record decide that is found at the wildcard of a covering
record. -/
theorem nsecWildcardNODATA_eq {nsecs walked : List NSEC} {qname : Name} (qtype : UInt16)
    {wildcard : NSEC → Name}
    (named : ∀ cover ∈ walked, nsecCovers dns cover qname = true →
      dns.canonicalName (wildcardText (nsecClosestEncloser dns qname cover)) = wildcard cover) :
    nsecWildcardNODATA dns nsecs qname qtype walked =
      ((walked.filter (nsecCovers dns · qname)).findSome? fun cover =>
        nsecs.find? (nsecOwns dns (wildcard cover))).any fun record =>
          bitmapLacks record.typeBitMap qtype := by
  induction walked with
  | nil => rfl
  | cons cover rest ih =>
    have later := ih fun other member => named other (List.mem_cons_of_mem cover member)
    rw [nsecWildcardNODATA, List.filter_cons]
    split
    · rename_i covers
      rw [List.findSome?_cons]
      dsimp only
      rw [named cover List.mem_cons_self covers]
      cases nsecs.find? (nsecOwns dns (wildcard cover)) with
      | some record => rfl
      | none => exact later
    · exact later

/-- What the wildcard walk found when it accepts. -/
theorem nsecWildcardNODATA_found {nsecs walked : List NSEC} {qname : Name} {qtype : UInt16}
    (accepted : nsecWildcardNODATA dns nsecs qname qtype walked = true) :
    ∃ cover ∈ walked, nsecCovers dns cover qname = true ∧
      ∃ record ∈ nsecs,
        nsecOwns dns
            (dns.canonicalName (wildcardText (nsecClosestEncloser dns qname cover))) record =
          true ∧
        bitmapLacks record.typeBitMap qtype = true := by
  rw [nsecWildcardNODATA_eq dns qtype fun _ _ _ => rfl, Option.any_eq_true] at accepted
  obtain ⟨record, decided, lacks⟩ := accepted
  obtain ⟨cover, member, found⟩ := List.exists_of_findSome?_eq_some decided
  obtain ⟨walked, covers⟩ := List.mem_filter.mp member
  exact ⟨cover, walked, covers, record, List.mem_of_find?_eq_some found, List.find?_some found,
    lacks⟩

section Sound

variable {zone : Zone} {nsecs : List NSEC} (genuine : ∀ record ∈ nsecs, zone.Genuine record)
  {qname : DomainName} (below : zone.apex.labels <:+ qname.lower.labels)

include genuine below

/-- A name whose absence is accepted owns nothing, nor does the wildcard at its closest
encloser. -/
theorem nameError_sound (accepted : nsecProvesNXDOMAIN dns nsecs qname.print = true) :
    qname.lower ∉ zone.owners ∧
      ∃ encloser : DomainName,
        IsClosestEncloser zone.names qname.lower.labels encloser.labels ∧
          wildcardOf encloser ∉ zone.owners := by
  simp only [nsecProvesNXDOMAIN, dns.canonicalName_print] at accepted
  split at accepted
  · cases accepted
  · rename_i cover found
    have member := genuine cover (List.mem_of_find?_eq_some found)
    have covers : nsecCovers dns cover qname.print = true := by
      rw [← nsecCovers_lower]
      exact List.find?_some (p := (nsecCovers dns · qname.lower.print)) found
    have closest := member.isClosestEncloser dns below covers
    refine ⟨member.not_mem_of_covers dns below covers, impliedEncloser qname cover, closest, ?_⟩
    rw [impliedWildcard_print dns member below covers] at accepted
    split at accepted
    · cases accepted
    · rename_i record decided
      have spoken := List.find?_some decided
      rw [Bool.or_eq_true] at spoken
      have covered : nsecCovers dns record (wildcardOf (impliedEncloser qname cover)).print =
          true := by
        rw [← nsecCovers_lower]
        exact spoken.resolve_left (by simpa using accepted)
      have wildcardBelow : zone.apex.labels <:+
          (wildcardOf (impliedEncloser qname cover)).lower.labels := by
        rw [wildcardOf_lower, lower_ancestor]
        exact (closest.below_apex Zone.underApex below).trans (List.suffix_cons _ _)
      have unowned := (genuine record (List.mem_of_find?_eq_some decided)).not_mem_of_covers dns
        wildcardBelow covered
      rwa [wildcardOf_lower, lower_ancestor] at unowned

/-- A name whose lack of a type is accepted lacks it, and so does the wildcard at its
closest encloser if the name owns nothing. -/
theorem noData_sound {qtype : UInt16}
    (accepted : nsecProvesNODATA dns nsecs qname.print qtype = true) :
    zone.Lacks qname.lower qtype ∧
      (qname.lower ∉ zone.owners →
        ∃ encloser : DomainName,
          IsClosestEncloser zone.names qname.lower.labels encloser.labels ∧
            zone.Lacks (wildcardOf encloser) qtype) := by
  simp only [nsecProvesNODATA, dns.canonicalName_print] at accepted
  split at accepted
  · -- a record of the name itself decides
    rename_i record found
    have owns := (nsecOwns_print_iff dns record qname).mp (List.find?_some found)
    have member := genuine record (List.mem_of_find?_eq_some found)
    rw [← owns]
    exact ⟨member.lacks accepted, fun unowned => absurd member.owner_mem unowned⟩
  · obtain ⟨cover, coverMem, covers, record, recordMem, owns, lacks⟩ :=
      nsecWildcardNODATA_found dns accepted
    rw [nsecCovers_lower] at covers
    have member := genuine cover coverMem
    rw [impliedWildcard_print dns member below covers, nsecOwns_print_iff, wildcardOf_lower,
      lower_ancestor] at owns
    refine ⟨Zone.lacks_of_not_mem (member.not_mem_of_covers dns below covers) qtype, fun _ =>
      ⟨impliedEncloser qname cover, member.isClosestEncloser dns below covers, ?_⟩⟩
    rw [← owns]
    exact (genuine record recordMem).lacks lacks

end Sound

/-- Accepted denials are true of the zone.  Nothing is assumed about delegations: the
owners of the chain are all the names the statement is about. -/
theorem nsec_denials_sound (zone : Zone) (nsecs : List NSEC)
    (genuine : ∀ record ∈ nsecs, zone.Genuine record) (qname : DomainName)
    (below : zone.apex.labels <:+ qname.lower.labels) :
    (nsecProvesNXDOMAIN dns nsecs qname.print = true →
      qname.lower ∉ zone.owners ∧
        ∃ encloser : DomainName,
          IsClosestEncloser zone.names qname.lower.labels encloser.labels ∧
            wildcardOf encloser ∉ zone.owners) ∧
    ∀ qtype, nsecProvesNODATA dns nsecs qname.print qtype = true →
      zone.Lacks qname.lower qtype ∧
        (qname.lower ∉ zone.owners →
          ∃ encloser : DomainName,
            IsClosestEncloser zone.names qname.lower.labels encloser.labels ∧
              zone.Lacks (wildcardOf encloser) qtype) :=
  ⟨nameError_sound dns genuine below, fun _ => noData_sound dns genuine below⟩

/-! ## A sample zone -/

def exampleHost : DomainName := { labels := [text "b", text "example"] }

/-- A name between the two, in upper case. -/
def exampleMissing : DomainName := { labels := [text "A", text "example"] }

/-- A zone with records at the apex and at one host below it. -/
def exampleZone : Zone where
  apex := Reference.exampleName
  owners := {Reference.exampleName, exampleHost}
  types := fun name =>
    if name = Reference.exampleName then {typeNS, typeSOA, typeNSEC} else {1, typeNSEC}
  below_root := by decide
  lower_apex := by decide
  lower_owner := by decide
  below_apex := by decide

/-- The NSEC chain of the sample zone. -/
def exampleChain : List NSEC :=
  [{ hdr := { Reference.headerOf Reference.exampleName with rrtype := typeNSEC }
     next := exampleHost
     typeBitMap := [typeNS, typeSOA, typeNSEC] },
    { hdr := { Reference.headerOf exampleHost with rrtype := typeNSEC }
      next := Reference.exampleName
      typeBitMap := [1, typeNSEC] }]

/-- The chain denies a missing name, and a missing type of the host. -/
theorem example_denials_sound :
    (exampleMissing.lower ∉ exampleZone.owners ∧
      ∃ encloser : DomainName,
        IsClosestEncloser exampleZone.names exampleMissing.lower.labels encloser.labels ∧
          wildcardOf encloser ∉ exampleZone.owners) ∧
      exampleZone.Lacks exampleHost.lower 28 := by
  have names_eq : exampleZone.names = {Reference.exampleName.labels, exampleHost.labels} := by
    ext labels
    simp [Zone.names, exampleZone, eq_comm]
  have genuine : ∀ record ∈ exampleChain, exampleZone.Genuine record := by
    intro record member
    rcases List.mem_cons.mp member with rfl | member
    · refine ⟨by decide, .inl ⟨?_, by decide, ?_⟩, fun rrtype => ?_⟩
      · rw [names_eq]
        exact .inr (by decide)
      · rw [names_eq]
        rintro name (rfl | rfl) <;> decide
      · have same : (Reference.headerOf Reference.exampleName).owner.lower =
            Reference.exampleName := by decide
        simp [exampleZone, same]
    · obtain rfl := List.mem_singleton.mp member
      refine ⟨by decide, .inr ⟨?_, by decide⟩, fun rrtype => ?_⟩
      · rw [names_eq]
        rintro name (rfl | rfl) <;> decide
      · have other : (Reference.headerOf exampleHost).owner.lower ≠
            Reference.exampleName := by decide
        simp [exampleZone, other]
  exact ⟨(nsec_denials_sound reference exampleZone exampleChain genuine exampleMissing
      (by decide)).1 (by decide +kernel),
    ((nsec_denials_sound reference exampleZone exampleChain genuine exampleHost (by decide)).2 28
      (by decide +kernel)).1⟩

end RouteDns.Dnssec
