import RouteDns.Dnssec.ZoneDenial

/-!
# Empty non-terminals

A name that owns nothing exists all the same if some owner lies below it.  The record of the
chain that spans it then ends below it, so the name is its own closest encloser and what the
validator looks for is the wildcard directly below the name.  That the name exists is not
considered: a record that spans the wildcard makes the validator deny the name, and only a
record at the wildcard makes it accept that a type is absent.
-/

namespace RouteDns.Dnssec

open Dns Canonical

variable (dns : Library)

/-- The record belongs to the NSEC chain of a zone, which may be the root zone. -/
structure Linked (owners : Set (List Label)) (apex : List Label)
    (types : List Label → Set UInt16) (record : NSEC) : Prop where
  owner_mem : record.hdr.owner.lower.labels ∈ owners
  follows : Follows owners apex record.hdr.owner.lower.labels record.next.lower.labels
  exact : ∀ rrtype, rrtype ∈ record.typeBitMap ↔ rrtype ∈ types record.hdr.owner.lower.labels

section Chain

variable {owners : Set (List Label)} {apex : List Label} {types : List Label → Set UInt16}
  {record : NSEC} {name : DomainName}

section

variable (linked : Linked owners apex types record) (under : UnderApex owners apex)
  (below : apex <:+ name.lower.labels) (covers : nsecCovers dns record name.print = true)
include linked under below covers

/-- A covered name owns nothing. -/
theorem Linked.not_mem_of_covers : name.lower.labels ∉ owners :=
  linked.follows.not_mem_of_spans under linked.owner_mem below
    ((nsecCovers_print_iff dns record name).mp covers).2

/-- The owner of a covering record comes before the covered name. -/
theorem Linked.before_of_covers :
    Before record.hdr.owner.lower.labels name.lower.labels :=
  (linked.follows.spans_cases under linked.owner_mem below
    ((nsecCovers_print_iff dns record name).mp covers).2).1

/-- If some owner lies below a covered name, the covering record ends below it. -/
theorem Linked.next_below {owner : List Label} (member : owner ∈ owners)
    (ownerBelow : name.lower.labels <:+ owner) :
    name.lower.labels <:+ record.next.lower.labels := by
  have spans := ((nsecCovers_print_iff dns record name).mp covers).2
  rcases linked.follows.suffix_neighbour under linked.owner_mem below spans member
    (List.suffix_refl _) ownerBelow with aboveOwner | aboveNext
  · exact absurd (linked.before_of_covers dns under below covers) (not_before_of_suffix aboveOwner)
  · exact aboveNext

/-- A covering record that ends below the name ends at an owner. -/
theorem Linked.next_mem (nextBelow : name.lower.labels <:+ record.next.lower.labels) :
    record.next.lower.labels ∈ owners := by
  rcases linked.follows with ⟨member, _, _⟩ | ⟨_, isApex⟩
  · exact member
  · -- the last record ends at the apex, which would then be the covered name
    rw [isApex] at nextBelow
    have same : name.lower.labels = apex := nextBelow.eq_of_length_le below.length_le
    have before := linked.before_of_covers dns under below covers
    rw [same] at before
    exact absurd before (not_before_of_suffix (under _ linked.owner_mem))

end

/-- The chain has one bitmap for every owner. -/
theorem Linked.bitmapLacks_eq {other : NSEC} (linked : Linked owners apex types record)
    (otherLinked : Linked owners apex types other)
    (same : record.hdr.owner.lower = other.hdr.owner.lower) (rrtype : UInt16) :
    bitmapLacks record.typeBitMap rrtype = bitmapLacks other.typeBitMap rrtype := by
  have member_iff : ∀ listed, listed ∈ record.typeBitMap ↔ listed ∈ other.typeBitMap := by
    intro listed
    rw [linked.exact, otherLinked.exact, same]
  simp only [bitmapLacks, List.contains_eq_mem, member_iff]

end Chain

/-- What ends below a name shares all of its labels. -/
theorem impliedEncloser_eq_self {name : DomainName} {record : NSEC}
    (nextBelow : name.lower.labels <:+ record.next.lower.labels) :
    impliedEncloser name record = name.lower := by
  have all : sharedWith name record = name.lower.labels.length := by
    rw [sharedWith, shared_of_suffix nextBelow]
    exact max_eq_right (shared_le_length _ _)
  apply DomainName.ext
  rw [ancestor_labels, all, outer, Nat.sub_self, List.drop_zero]

theorem nsecOwns_wildcard_iff (record : NSEC) (name : DomainName) :
    nsecOwns dns (wildcardOf name.lower).print record = true ↔
      record.hdr.owner.lower = wildcardOf name.lower := by
  have lowered : (wildcardOf name.lower).lower = wildcardOf name.lower := by
    rw [wildcardOf_lower, DomainName.lower_lower]
  have owns := nsecOwns_print_iff dns record (wildcardOf name.lower)
  rwa [lowered] at owns

section Denial

variable {owners : Set (List Label)} {apex : List Label} {types : List Label → Set UInt16}
  (under : UnderApex owners apex) {nsecs : List NSEC}
  (linked : ∀ record ∈ nsecs, Linked owners apex types record)
  {qname : DomainName} (below : apex <:+ qname.lower.labels)
  {cover : NSEC} (member : cover ∈ nsecs) (covers : nsecCovers dns cover qname.print = true)
  (nextBelow : qname.lower.labels <:+ cover.next.lower.labels)

include under linked below member covers nextBelow

/-- Every record that covers an empty non-terminal implies the wildcard directly below it. -/
theorem impliedWildcard_nonTerminal (record : NSEC) (recordMem : record ∈ nsecs)
    (recordCovers : nsecCovers dns record qname.lower.print = true) :
    dns.canonicalName (wildcardText (nsecClosestEncloser dns qname.lower.print record)) =
      (wildcardOf qname.lower).print := by
  have link := linked record recordMem
  rw [nsecCovers_lower] at recordCovers
  have nextMem := (linked cover member).next_mem dns under below covers nextBelow
  have encloser_eq : ancestor qname.lower (sharedWith qname record) = qname.lower :=
    impliedEncloser_eq_self (link.next_below dns under below recordCovers nextMem nextBelow)
  have labels_ne : qname.lower.labels ≠ [] := fun empty =>
    not_before_of_suffix List.nil_suffix
      (empty ▸ link.before_of_covers dns under below recordCovers)
  rw [nsecClosestEncloser_print, encloser_eq, wildcardText_print labels_ne,
    dns.canonicalName_print, wildcardOf_lower, DomainName.lower_lower]

omit member covers nextBelow in
/-- A record at the wildcard below the name and a record that covers it exclude each other. -/
theorem not_nsecOwns_wildcard (record : NSEC) (recordMem : record ∈ nsecs)
    (recordCovers : nsecCovers dns record (wildcardOf qname.lower).print = true) (other : NSEC)
    (otherMem : other ∈ nsecs) : nsecOwns dns (wildcardOf qname.lower).print other = false := by
  have wildcardBelow : apex <:+ (wildcardOf qname.lower).lower.labels := by
    rw [wildcardOf_lower, DomainName.lower_lower]
    exact below.trans (List.suffix_cons _ _)
  have unowned := (linked record recordMem).not_mem_of_covers dns under wildcardBelow recordCovers
  rw [← Bool.not_eq_true, ← DomainName.lower_lower, ← wildcardOf_lower, nsecOwns_print_iff]
  exact fun owns => unowned (owns ▸ (linked other otherMem).owner_mem)

/-- The name is denied exactly if a record covers the wildcard below it. -/
theorem nameError_nonTerminal_iff :
    nsecProvesNXDOMAIN dns nsecs qname.print = true ↔
      ∃ record ∈ nsecs, nsecCovers dns record (wildcardOf qname.lower).print = true := by
  simp only [nsecProvesNXDOMAIN, dns.canonicalName_print]
  cases first : nsecs.find? (nsecCovers dns · qname.lower.print) with
  | none =>
    rw [← nsecCovers_lower] at covers
    exact absurd covers (List.find?_eq_none.mp first cover member)
  | some found =>
    have foundMem := List.mem_of_find?_eq_some first
    have foundCovers := List.find?_some (p := (nsecCovers dns · qname.lower.print)) first
    simp only [impliedWildcard_nonTerminal dns under linked below member covers nextBelow found
      foundMem foundCovers]
    have exclusive := not_nsecOwns_wildcard dns under linked below
    split
    · rename_i nothing
      refine iff_of_false (by simp) ?_
      rintro ⟨record, recordMem, recordCovers⟩
      have spoken := List.find?_eq_none.mp nothing record recordMem
      simp [recordCovers] at spoken
    · rename_i record decided
      have recordMem := List.mem_of_find?_eq_some decided
      have spoken := List.find?_some decided
      rw [Bool.or_eq_true] at spoken
      constructor
      · intro unowned
        exact ⟨record, recordMem, spoken.resolve_left (by simpa using unowned)⟩
      · rintro ⟨other, otherMem, otherCovers⟩
        rw [exclusive other otherMem otherCovers record recordMem]
        rfl

/-- A type is accepted as absent exactly if a record at the wildcard below the name says so. -/
theorem noData_nonTerminal_iff (qtype : UInt16) :
    nsecProvesNODATA dns nsecs qname.print qtype = true ↔
      ∃ record ∈ nsecs, record.hdr.owner.lower = wildcardOf qname.lower ∧
        bitmapLacks record.typeBitMap qtype = true := by
  have unowned := (linked cover member).not_mem_of_covers dns under below covers
  have direct : nsecs.find? (nsecOwns dns qname.lower.print) = none := by
    rw [List.find?_eq_none]
    intro record recordMem owns
    rw [nsecOwns_print_iff] at owns
    exact unowned (owns ▸ (linked record recordMem).owner_mem)
  have covered : cover ∈ nsecs.filter (nsecCovers dns · qname.lower.print) :=
    List.mem_filter.mpr ⟨member, by rwa [nsecCovers_lower]⟩
  have owns_iff := fun record => nsecOwns_wildcard_iff dns record qname
  simp only [nsecProvesNODATA, dns.canonicalName_print, direct]
  rw [nsecWildcardNODATA_eq dns qtype (impliedWildcard_nonTerminal dns under linked below member
    covers nextBelow)]
  cases found : nsecs.find? (nsecOwns dns (wildcardOf qname.lower).print) with
  | none =>
    rw [List.findSome?_eq_none_iff.mpr fun _ _ => rfl]
    refine iff_of_false Bool.false_ne_true ?_
    rintro ⟨record, recordMem, owns, -⟩
    exact List.find?_eq_none.mp found record recordMem ((owns_iff record).mpr owns)
  | some record =>
    have recordMem := List.mem_of_find?_eq_some found
    have owns := (owns_iff record).mp (List.find?_some found)
    obtain ⟨first, rest, split⟩ := List.exists_cons_of_ne_nil (List.ne_nil_of_mem covered)
    rw [split, List.findSome?_cons_of_isSome rfl, Option.any_some]
    constructor
    · exact fun lacks => ⟨record, recordMem, owns, lacks⟩
    · rintro ⟨other, otherMem, otherOwns, lacks⟩
      rwa [(linked record recordMem).bitmapLacks_eq (linked other otherMem)
        (owns.trans otherOwns.symm)]

end Denial

/-- For a name that exists without owning records, and any part of the chain with the record
that spans it: the name error is rejected if no record covers the wildcard below the name, and
only then; a type is accepted as absent if a record at that wildcard lacks it, and only then. -/
theorem nonTerminal_denials_iff {owners : Set (List Label)} {apex : List Label}
    {types : List Label → Set UInt16} (under : UnderApex owners apex) (nsecs : List NSEC)
    (linked : ∀ record ∈ nsecs, Linked owners apex types record) (qname : DomainName)
    (below : apex <:+ qname.lower.labels)
    (nonTerminal : ∃ cover ∈ nsecs, nsecCovers dns cover qname.print = true ∧
      qname.lower.labels <:+ cover.next.lower.labels) :
    (nsecProvesNXDOMAIN dns nsecs qname.print = false ↔
      ∀ record ∈ nsecs, nsecCovers dns record (wildcardOf qname.lower).print = false) ∧
    ∀ qtype, nsecProvesNODATA dns nsecs qname.print qtype = true ↔
      ∃ record ∈ nsecs, record.hdr.owner.lower = wildcardOf qname.lower ∧
        bitmapLacks record.typeBitMap qtype = true := by
  obtain ⟨cover, member, covers, nextBelow⟩ := nonTerminal
  refine ⟨?_, noData_nonTerminal_iff dns under linked below member covers nextBelow⟩
  rw [← Bool.not_eq_true, nameError_nonTerminal_iff dns under linked below member covers nextBelow]
  simp

/-! ## Zones with one owner below the apex -/

section Pair

variable (apex host : DomainName) (apexTypes hostTypes : List UInt16)

/-- The chain of a zone with records at its apex and at one name below. -/
def pairChain : List NSEC :=
  [{ hdr := { Reference.headerOf apex with rrtype := typeNSEC }
     next := host
     typeBitMap := apexTypes },
    { hdr := { Reference.headerOf host with rrtype := typeNSEC }
      next := apex
      typeBitMap := hostTypes }]

def pairOwners : Set (List Label) :=
  { labels | labels = apex.lower.labels ∨ labels = host.lower.labels }

def pairTypes (labels : List Label) : Set UInt16 :=
  { rrtype | rrtype ∈ if labels = apex.lower.labels then apexTypes else hostTypes }

variable {apex host}

theorem underApex_pair (below : apex.lower.labels <:+ host.lower.labels) :
    UnderApex (pairOwners apex host) apex.lower.labels := by
  rintro owner (rfl | rfl)
  · exact List.suffix_refl _
  · exact below

theorem linked_pair (below : apex.lower.labels <:+ host.lower.labels)
    (proper : apex.lower ≠ host.lower) :
    ∀ record ∈ pairChain apex host apexTypes hostTypes,
      Linked (pairOwners apex host) apex.lower.labels (pairTypes apex apexTypes hostTypes)
        record := by
  have differ : apex.lower.labels ≠ host.lower.labels := fun same => proper (DomainName.ext same)
  intro record member
  rcases List.mem_cons.mp member with rfl | member
  · refine ⟨.inl rfl, .inl ⟨.inr rfl, before_of_suffix_of_ne below differ, ?_⟩, fun rrtype => ?_⟩
    · rintro name (rfl | rfl) after
      · exact absurd rfl after.ne
      · exact fun before => before.ne rfl
    · change _ ↔ rrtype ∈ if apex.lower.labels = apex.lower.labels then apexTypes else hostTypes
      rw [if_pos rfl]
  · obtain rfl := List.mem_singleton.mp member
    refine ⟨.inr rfl, .inr ⟨?_, rfl⟩, fun rrtype => ?_⟩
    · rintro name (rfl | rfl)
      · exact not_before_of_suffix below
      · exact fun before => before.ne rfl
    · change _ ↔ rrtype ∈ if host.lower.labels = apex.lower.labels then apexTypes else hostTypes
      rw [if_neg differ.symm]

end Pair

/-- A name without records, with one owner below it. -/
def emptyName : DomainName := { labels := [text "inner", text "example"] }

def hostBelow : DomainName := { labels := [text "a", text "inner", text "example"] }

/-- With a host below the name, its chain denies the name and proves no type absent. -/
theorem nonTerminal_denied :
    let chain := pairChain Reference.exampleName hostBelow [typeNS, typeSOA, typeNSEC] [1, typeNSEC]
    (∀ record ∈ chain, Linked (pairOwners Reference.exampleName hostBelow)
      Reference.exampleName.lower.labels
      (pairTypes Reference.exampleName [typeNS, typeSOA, typeNSEC] [1, typeNSEC]) record) ∧
    (∃ cover ∈ chain, nsecCovers reference cover emptyName.print = true ∧
      emptyName.lower.labels <:+ cover.next.lower.labels) ∧
    nsecProvesNXDOMAIN reference chain emptyName.print = true ∧
    nsecProvesNODATA reference chain emptyName.print 28 = false := by
  refine ⟨linked_pair _ _ (by decide) (by decide), ⟨_, List.mem_cons_self, ?_, ?_⟩, ?_, ?_⟩
  · decide +kernel
  · decide
  · decide +kernel
  · decide +kernel

/-- With a wildcard below the name, its chain denies the types the wildcard lacks and not the
name. -/
theorem wildcard_nonTerminal_accepted :
    let chain := pairChain Reference.exampleName (wildcardOf emptyName)
      [typeNS, typeSOA, typeNSEC] [1, typeNSEC]
    nsecProvesNXDOMAIN reference chain emptyName.print = false ∧
      nsecProvesNODATA reference chain emptyName.print 28 = true := by
  have below : Reference.exampleName.lower.labels <:+ (wildcardOf emptyName).lower.labels := by
    decide
  have denials := nonTerminal_denials_iff reference (underApex_pair below)
    (pairChain Reference.exampleName (wildcardOf emptyName) [typeNS, typeSOA, typeNSEC]
      [1, typeNSEC])
    (linked_pair _ _ below (by decide)) emptyName (by decide)
    ⟨_, List.mem_cons_self, by decide +kernel, by decide⟩
  constructor
  · apply denials.1.mpr
    decide +kernel
  · apply (denials.2 28).mpr
    exact ⟨_, List.mem_cons_of_mem _ List.mem_cons_self, by decide, by decide⟩

end RouteDns.Dnssec
