import RouteDns.Dnssec.NameOrder
import RouteDns.Dnssec.Response

/-!
# Denial records from the parent side of a zone cut

The NSEC or NSEC3 record that a parent zone holds for a delegation says nothing about
the names of the child zone, nor about the types at the cut other than DS.  The
validator does not look for the NS and SOA bits that tell such records apart, so for
nearly every question there are record sets that deny it only by means of them.
-/

namespace RouteDns.Dnssec

open Dns Canonical Program

variable (dns : Library)

/-- A type bitmap from the parent side of a zone cut: NS is present, SOA is absent. -/
def isParentSide (bitmap : List UInt16) : Bool :=
  bitmap.contains typeNS && !bitmap.contains typeSOA

/-- The record is from the parent side of a cut above the question, or at its name when
the question is not for DS. -/
def nsecFromCut (qname : DomainName) (qtype : UInt16) (record : NSEC) : Bool :=
  isParentSide record.typeBitMap &&
    if record.hdr.owner.lower = qname.lower then
      qtype ≠ typeDS
    else
      record.hdr.owner.lower.labels <:+ qname.lower.labels

/-- The same for an NSEC3 record, by the names it matches. -/
def nsec3FromCut (qname : DomainName) (qtype : UInt16) (record : NSEC3) : Bool :=
  isParentSide record.typeBitMap &&
    (dns.nsec3Match record qname.lower.print && qtype ≠ typeDS ||
      (List.range qname.labels.length).any fun count =>
        dns.nsec3Match record (ancestor qname.lower count).print)

/-- The records that are not from the parent side of a cut at or above the question. -/
def withoutCuts (qname : DomainName) (qtype : UInt16) (denials : List NSEC × List NSEC3) :
    List NSEC × List NSEC3 :=
  (denials.1.filter fun record => !nsecFromCut qname qtype record,
    denials.2.filter fun record => !nsec3FromCut dns qname qtype record)

theorem deniesWith_nil (qname : Name) (qtype : UInt16) (rcode : Nat) :
    deniesWith dns ([], []) qname qtype rcode = false := by
  simp [deniesWith, nsecProvesDenial, nsec3ProvesDenial]

theorem deniesWith_of_other_rcode (denials : List NSEC × List NSEC3) (qname : Name)
    (qtype : UInt16) {rcode : Nat} (notNameError : rcode ≠ rcodeNameError)
    (notSuccess : rcode ≠ rcodeSuccess) : deniesWith dns denials qname qtype rcode = false := by
  simp [deniesWith, nsecProvesDenial, nsec3ProvesDenial, notNameError, notSuccess]

/-- A search is not disturbed by removing records that were not found. -/
theorem find?_filter_of_some {α : Type} {found : α} {test : α → Bool} {records : List α}
    (keep : α → Bool) (first : records.find? test = some found) (kept : keep found = true) :
    (records.filter keep).find? test = some found := by
  obtain ⟨passes, front, back, rfl, before⟩ := List.find?_eq_some_iff_append.mp first
  rw [List.filter_append, List.filter_cons_of_pos kept]
  exact List.find?_eq_some_iff_append.mpr ⟨passes, _, _, rfl,
    fun record member => before record (List.mem_of_mem_filter member)⟩

/-! ## Questions about the root -/

theorem nsecFromCut_top_iff (qtype : UInt16) (record : NSEC) :
    nsecFromCut .top qtype record = true ↔
      isParentSide record.typeBitMap = true ∧ record.hdr.owner.lower = .top ∧ qtype ≠ typeDS := by
  by_cases own : record.hdr.owner.lower = .top
  · simp [nsecFromCut, lower_top, own]
  · have notAbove : ¬ record.hdr.owner.lower.labels <:+ DomainName.top.labels := fun above =>
      own (DomainName.ext (List.suffix_nil.mp above))
    simp only [nsecFromCut, lower_top, own, notAbove, if_false, decide_false, Bool.and_false,
      Bool.false_eq_true, false_and, and_false]

theorem nsec3FromCut_top_iff (qtype : UInt16) (record : NSEC3) :
    nsec3FromCut dns .top qtype record = true ↔
      isParentSide record.typeBitMap = true ∧ dns.nsec3Match record root = true ∧
        qtype ≠ typeDS := by
  have labels_nil : DomainName.top.labels = [] := rfl
  simp [nsec3FromCut, lower_top, print_top, labels_nil]

/-- The text the code builds for the wildcard at the root; no name prints like it. -/
def rootWildcard : Name :=
  text "*.."

theorem canonicalName_rootWildcard : dns.canonicalName rootWildcard = rootWildcard := by
  rw [dns.canonicalName_of_qualified (by decide)]
  decide

theorem print_ne_rootWildcard (name : DomainName) : name.print ≠ rootWildcard := by
  intro equal
  have labels_ne : name.labels ≠ [] := fun empty => by
    rw [(print_eq_root_iff name).mpr empty] at equal
    revert equal
    decide
  rw [print_of_labels_ne_nil labels_ne] at equal
  have read := labelsFrom_printLabels name.labels
  rw [equal] at read
  exact name.nonempty [] (read ▸ by decide) rfl

theorem canonicalLabels_rootWildcard :
    canonicalLabels dns rootWildcard = [text "*", []] := by
  rw [canonicalLabels, canonicalName_rootWildcard]
  decide

/-- A record that covers the root covers the text built for its wildcard. -/
theorem nsecCovers_rootWildcard {record : NSEC} (covers : nsecCovers dns record root = true) :
    nsecCovers dns record rootWildcard = true := by
  obtain ⟨_, spans⟩ := (nsecCovers_print_iff dns record .top).mp covers
  have after : ∀ labels : List Label, ¬ Before labels DomainName.top.lower.labels := fun labels =>
    not_before_of_suffix List.nil_suffix
  -- nothing comes before the root, so the span wraps around
  have wraps : ¬ Before record.hdr.owner.lower.labels record.next.lower.labels := fun ascends => by
    rw [Spans, if_pos ascends] at spans
    exact after _ spans.1
  rw [Spans, if_neg wraps] at spans
  have next_after := spans.resolve_left (after _)
  have beforeNext : canonicalNameCmp dns rootWildcard record.next.lower.print < 0 := by
    rw [canonicalNameCmp, canonicalLabels_rootWildcard, canonicalLabels_print,
      compareOuter_neg_iff, DomainName.lower_lower]
    have next_ne : record.next.lower.labels.reverse ≠ [] := fun empty => by
      rw [List.reverse_eq_nil_iff.mp empty] at next_after
      exact after _ next_after
    obtain ⟨outermost, rest, reversed⟩ := List.exists_cons_of_ne_nil next_ne
    have outermost_ne : outermost ≠ [] := record.next.lower.nonempty outermost
      (List.mem_reverse.mp (reversed ▸ List.mem_cons_self))
    obtain ⟨byte, bytes, rfl⟩ := List.exists_cons_of_ne_nil outermost_ne
    rw [reversed]
    exact List.cons_lt_cons_iff.mpr (.inl (List.nil_lt_cons byte bytes))
  have notOwner : rootWildcard ≠ record.hdr.owner.lower.print := (print_ne_rootWildcard _).symm
  have descends : ¬ canonicalNameCmp dns record.hdr.owner.lower.print
      record.next.lower.print < 0 := by
    rw [canonicalNameCmp_print_neg_iff]
    simpa using wraps
  simp [nsecCovers, canonicalName_rootWildcard, notOwner, descends, beforeNext]

/-- A name error for the root is proved by any record that covers it. -/
theorem nsecProvesNXDOMAIN_root_iff (nsecs : List NSEC) :
    nsecProvesNXDOMAIN dns nsecs root = true ↔
      ∃ record ∈ nsecs, nsecCovers dns record root = true := by
  simp only [nsecProvesNXDOMAIN, dns.canonicalName_root]
  cases found : nsecs.find? (nsecCovers dns · root) with
  | none =>
    have uncovered := List.find?_eq_none.mp found
    exact iff_of_false (by simp) fun ⟨record, member, covers⟩ => uncovered record member covers
  | some cover =>
    have member := List.mem_of_find?_eq_some found
    have covers : nsecCovers dns cover root = true :=
      List.find?_some (p := (nsecCovers dns · root)) found
    refine iff_of_true ?_ ⟨cover, member, covers⟩
    have encloser_eq : nsecClosestEncloser dns root cover = root :=
      nsecClosestEncloser_print dns .top cover
    have wildcard_eq : dns.canonicalName (wildcardText (nsecClosestEncloser dns root cover)) =
        rootWildcard := by
      rw [encloser_eq]
      exact canonicalName_rootWildcard dns
    have unowned : ∀ record, nsecOwns dns rootWildcard record = false := fun record => by
      simp [nsecOwns, print_ne_rootWildcard]
    simp only [wildcard_eq, unowned, Bool.false_or, Bool.not_false]
    split
    · rename_i nothing
      exact absurd (nsecCovers_rootWildcard dns covers)
        (List.find?_eq_none.mp nothing cover member)
    · rfl

/-- Records from cuts are not needed to deny the name of the root. -/
theorem nameError_root_removable (qtype : UInt16) (denials : List NSEC × List NSEC3)
    (denied : deniesWith dns denials root qtype rcodeNameError = true) :
    deniesWith dns (withoutCuts dns .top qtype denials) root qtype rcodeNameError = true := by
  have countLabel_root : dns.countLabel root = 0 := dns.countLabel_print .top
  have no_nsec3 : ∀ nsec3s, nsec3ProvesDenial dns nsec3s root qtype rcodeNameError = false := by
    intro nsec3s
    simp [nsec3ProvesDenial, nsec3ProvesNXDOMAIN, nsec3ClosestEncloser, countLabel_root,
      nsec3ClosestEncloserBelow]
  simp only [deniesWith, no_nsec3, Bool.or_false, nsecProvesDenial_nameError,
    nsecProvesNXDOMAIN_root_iff] at denied ⊢
  obtain ⟨record, member, covers⟩ := denied
  have notOwner := ((nsecCovers_print_iff dns record .top).mp covers).1
  refine ⟨record, List.mem_filter.mpr ⟨member, ?_⟩, covers⟩
  rw [Bool.not_eq_eq_eq_not, Bool.not_true, ← Bool.not_eq_true, nsecFromCut_top_iff]
  exact fun cut => notOwner cut.2.1.symm

/-- No record is from a cut for a DS question about the root. -/
theorem withoutCuts_root_ds (denials : List NSEC × List NSEC3) :
    withoutCuts dns .top typeDS denials = denials := by
  refine Prod.ext (List.filter_eq_self.mpr fun record _ => ?_)
    (List.filter_eq_self.mpr fun record _ => ?_)
  · rw [Bool.not_eq_eq_eq_not, Bool.not_true, ← Bool.not_eq_true, nsecFromCut_top_iff]
    exact fun cut => cut.2.2 rfl
  · rw [Bool.not_eq_eq_eq_not, Bool.not_true, ← Bool.not_eq_true, nsec3FromCut_top_iff]
    exact fun cut => cut.2.2 rfl

theorem isParentSide_false_of_lacks {bitmap : List UInt16}
    (lacks : bitmapLacks bitmap typeNS = true) : isParentSide bitmap = false := by
  simp only [bitmapLacks, Bool.and_eq_true, Bool.not_eq_true'] at lacks
  rw [isParentSide, lacks.1, Bool.false_and]

theorem nsecProvesNODATA_root_ns_removable {nsecs : List NSEC}
    (denied : nsecProvesNODATA dns nsecs root typeNS = true) :
    nsecProvesNODATA dns (nsecs.filter fun record => !nsecFromCut .top typeNS record) root typeNS =
      true := by
  simp only [nsecProvesNODATA, dns.canonicalName_root] at denied ⊢
  cases found : nsecs.find? (nsecOwns dns root) with
  | some record =>
    simp only [found] at denied
    have kept : (!nsecFromCut .top typeNS record) = true := by
      simp [nsecFromCut, isParentSide_false_of_lacks denied]
    rw [find?_filter_of_some (fun record => !nsecFromCut .top typeNS record) found kept]
    exact denied
  | none =>
    -- a record from a cut at the root would own the root
    have untouched : (nsecs.filter fun record => !nsecFromCut .top typeNS record) = nsecs := by
      refine List.filter_eq_self.mpr fun record member => ?_
      rw [Bool.not_eq_eq_eq_not, Bool.not_true, ← Bool.not_eq_true, nsecFromCut_top_iff]
      rintro ⟨_, own, _⟩
      exact List.find?_eq_none.mp found record member
        ((nsecOwns_print_iff dns record .top).mpr own)
    rw [untouched, found]
    simpa only [found] using denied

theorem nsec3ProvesNODATA_root_ns_removable {nsec3s : List NSEC3}
    (denied : nsec3ProvesNODATA dns nsec3s root typeNS = true) :
    nsec3ProvesNODATA dns (nsec3s.filter fun record => !nsec3FromCut dns .top typeNS record) root
      typeNS = true := by
  simp only [nsec3ProvesNODATA, dns.canonicalName_root] at denied ⊢
  cases found : nsec3s.find? (dns.nsec3Match · root) with
  | some record =>
    simp only [found] at denied
    have kept : (!nsec3FromCut dns .top typeNS record) = true := by
      simp [nsec3FromCut, isParentSide_false_of_lacks denied]
    rw [find?_filter_of_some (fun record => !nsec3FromCut dns .top typeNS record) found kept]
    exact denied
  | none =>
    have untouched :
        (nsec3s.filter fun record => !nsec3FromCut dns .top typeNS record) = nsec3s := by
      refine List.filter_eq_self.mpr fun record member => ?_
      rw [Bool.not_eq_eq_eq_not, Bool.not_true, ← Bool.not_eq_true, nsec3FromCut_top_iff]
      rintro ⟨_, matched, _⟩
      exact List.find?_eq_none.mp found record member matched
    rw [untouched, found]
    simpa only [found] using denied

/-- A record of the root from the parent side of a cut. -/
def rootCut : NSEC where
  hdr := Reference.headerOf .top
  next := .top
  typeBitMap := [typeNS]

theorem deniesWith_rootCut {qtype : UInt16} (notNS : qtype ≠ typeNS) :
    deniesWith dns ([rootCut], []) root qtype rcodeSuccess = true := by
  have owns : nsecOwns dns root rootCut = true := (nsecOwns_print_iff dns rootCut .top).mpr rfl
  have lacks : bitmapLacks rootCut.typeBitMap qtype = true := by
    have cname_ne : typeCNAME ≠ typeNS := by decide
    simp [bitmapLacks, rootCut, notNS, cname_ne]
  simp [deniesWith, nsecProvesDenial_success, nsecProvesNODATA, owns, lacks]

theorem withoutCuts_rootCut {qtype : UInt16} (notDS : qtype ≠ typeDS) :
    withoutCuts dns .top qtype ([rootCut], []) = ([], []) := by
  have cut : nsecFromCut .top qtype rootCut = true :=
    (nsecFromCut_top_iff qtype rootCut).mpr ⟨by decide, by decide, notDS⟩
  simp [withoutCuts, cut]

/-! ## Questions below the root -/

/-- A record of the root from the parent side of a cut, whose span ends below a name. -/
def cutAbove (qname : DomainName) : NSEC where
  hdr := Reference.headerOf .top
  next := qname.lower.child (text "x") (by decide)
  typeBitMap := [typeNS]

/-- A record of the wildcard below a name. -/
def wildcardRecord (qname : DomainName) : NSEC where
  hdr := Reference.headerOf (wildcardOf qname.lower)
  next := .top
  typeBitMap := []

variable {qname : DomainName}

theorem lower_ne_top (below : qname.labels ≠ []) : qname.lower ≠ .top :=
  fun equal => below (List.map_eq_nil_iff.mp (congrArg DomainName.labels equal))

theorem nsecFromCut_cutAbove (below : qname.labels ≠ []) (qtype : UInt16) :
    nsecFromCut qname qtype (cutAbove qname) = true := by
  have notOwner : (cutAbove qname).hdr.owner.lower ≠ qname.lower := (lower_ne_top below).symm
  have above : (cutAbove qname).hdr.owner.lower.labels <:+ qname.lower.labels := List.nil_suffix
  have parentSide : isParentSide (cutAbove qname).typeBitMap = true :=
    (by decide : isParentSide [typeNS] = true)
  simp only [nsecFromCut, parentSide, notOwner, above, if_false, decide_true, Bool.and_true]

theorem nsecFromCut_wildcardRecord (qname : DomainName) (qtype : UInt16) :
    nsecFromCut qname qtype (wildcardRecord qname) = false := by
  have childSide : isParentSide (wildcardRecord qname).typeBitMap = false :=
    (by decide : isParentSide [] = false)
  rw [nsecFromCut, childSide, Bool.false_and]

/-- The labels of the two records; lower-casing does not change them. -/
theorem cutAbove_next_labels (qname : DomainName) :
    (cutAbove qname).next.lower.labels = text "x" :: qname.lower.labels := by
  have x_lower : (text "x").map lowerByte = text "x" := by decide
  have lowered := congrArg DomainName.labels qname.lower_lower
  rw [DomainName.lower_labels] at lowered
  simp only [cutAbove, DomainName.lower_labels, DomainName.child, List.map_cons, x_lower]
  simpa using lowered

theorem wildcardRecord_owner (qname : DomainName) :
    (wildcardRecord qname).hdr.owner.lower = wildcardOf qname.lower := by
  change (wildcardOf qname.lower).lower = wildcardOf qname.lower
  rw [wildcardOf_lower, qname.lower_lower]

/-- The span of the record of the root contains the names up to a child of the name. -/
theorem nsecCovers_cutAbove {qname name : DomainName} (below : name.labels ≠ [])
    (before : Before name.lower.labels (text "x" :: qname.lower.labels)) :
    nsecCovers dns (cutAbove qname) name.print = true := by
  rw [nsecCovers_print_iff, cutAbove_next_labels]
  have labels_ne : name.lower.labels ≠ [] := by simpa using below
  have owner_nil : (cutAbove qname).hdr.owner.lower.labels = [] := rfl
  refine ⟨lower_ne_top below, ?_⟩
  rw [owner_nil, Spans, if_pos (before_of_suffix_of_ne List.nil_suffix (by simp))]
  exact ⟨before_of_suffix_of_ne List.nil_suffix labels_ne.symm, before⟩

theorem covers_question (below : qname.labels ≠ []) :
    nsecCovers dns (cutAbove qname) qname.lower.print = true := by
  refine nsecCovers_cutAbove dns (by simpa using below) ?_
  rw [qname.lower_lower]
  exact before_of_suffix_of_ne (List.suffix_cons _ _) (List.cons_ne_self _ _).symm

theorem covers_wildcard (qname : DomainName) :
    nsecCovers dns (cutAbove qname) (wildcardOf qname.lower).print = true := by
  refine nsecCovers_cutAbove dns (by simp) ?_
  rw [wildcardOf_lower, qname.lower_lower]
  exact before_cons_cons (by decide) _

/-- The closest encloser the record of the root implies is the name itself. -/
theorem impliedWildcard_cutAbove (below : qname.labels ≠ []) :
    dns.canonicalName (wildcardText (nsecClosestEncloser dns qname.lower.print (cutAbove qname))) =
      (wildcardOf qname.lower).print := by
  have sharedAll : sharedWith qname (cutAbove qname) = qname.lower.labels.length := by
    rw [sharedWith, cutAbove_next_labels, shared_of_suffix (List.suffix_cons _ _)]
    exact max_eq_right (shared_le_length _ _)
  have encloser_eq : ancestor qname.lower (sharedWith qname (cutAbove qname)) = qname.lower := by
    apply DomainName.ext
    rw [sharedAll, ancestor_labels, outer, Nat.sub_self, List.drop_zero]
  rw [nsecClosestEncloser_print, encloser_eq, wildcardText_print (by simpa using below),
    dns.canonicalName_print, wildcardOf_lower, qname.lower_lower]

theorem nsecOwns_cutAbove (qname : DomainName) {name : DomainName} (below : name.labels ≠ []) :
    nsecOwns dns name.lower.print (cutAbove qname) = false := by
  rw [← Bool.not_eq_true, nsecOwns_print_iff]
  exact (lower_ne_top below).symm

theorem nsecOwns_wildcard_cutAbove (qname : DomainName) :
    nsecOwns dns (wildcardOf qname.lower).print (cutAbove qname) = false := by
  have unowned := nsecOwns_cutAbove dns qname (by simp : (wildcardOf qname.lower).labels ≠ [])
  rwa [wildcardOf_lower, qname.lower_lower] at unowned

/-- The record of the root alone denies the name. -/
theorem nsecProvesNXDOMAIN_cutAbove (below : qname.labels ≠ []) :
    nsecProvesNXDOMAIN dns [cutAbove qname] qname.lower.print = true := by
  simp [nsecProvesNXDOMAIN, dns.canonicalName_print, covers_question dns below,
    impliedWildcard_cutAbove dns below, nsecOwns_wildcard_cutAbove, covers_wildcard]

theorem nsecOwns_wildcardRecord (qname : DomainName) :
    nsecOwns dns qname.lower.print (wildcardRecord qname) = false := by
  rw [← Bool.not_eq_true, nsecOwns_print_iff, wildcardRecord_owner]
  intro equal
  exact List.cons_ne_self _ _ (congrArg DomainName.labels equal)

/-- With a record of the wildcard it denies any type of the name. -/
theorem nsecProvesNODATA_cutAbove (below : qname.labels ≠ []) (qtype : UInt16) :
    nsecProvesNODATA dns [cutAbove qname, wildcardRecord qname] qname.lower.print qtype = true := by
  have owned : nsecOwns dns (wildcardOf qname.lower).print (wildcardRecord qname) = true := by
    simp [nsecOwns, wildcardRecord_owner]
  have lacks : bitmapLacks (wildcardRecord qname).typeBitMap qtype = true := by
    simp [bitmapLacks, wildcardRecord]
  simp [nsecProvesNODATA, nsecWildcardNODATA, dns.canonicalName_print,
    nsecOwns_cutAbove dns qname below, nsecOwns_wildcardRecord, covers_question dns below,
    impliedWildcard_cutAbove dns below, nsecOwns_wildcard_cutAbove, owned, lacks]

/-- The record of the wildcard alone denies nothing. -/
theorem nsecProvesNODATA_wildcardRecord (qname : DomainName) (qtype : UInt16) :
    nsecProvesNODATA dns [wildcardRecord qname] qname.lower.print qtype = false := by
  have uncovered : nsecCovers dns (wildcardRecord qname) qname.lower.print = false := by
    rw [← Bool.not_eq_true, nsecCovers_print_iff, wildcardRecord_owner, qname.lower_lower]
    have wraps : ¬ Before (wildcardOf qname.lower).labels
        (wildcardRecord qname).next.lower.labels := not_before_of_suffix List.nil_suffix
    rw [Spans, if_neg wraps]
    rintro ⟨_, before | before⟩
    · exact not_before_of_suffix (List.suffix_cons _ _) before
    · exact not_before_of_suffix List.nil_suffix before
  simp [nsecProvesNODATA, nsecWildcardNODATA, dns.canonicalName_print, nsecOwns_wildcardRecord,
    uncovered]

/-! ## When records from cuts can be left out -/

/-- Whatever denies a question still denies it without the records from cuts. -/
def CutsRemovable (qname : DomainName) (qtype : UInt16) (rcode : Nat) : Prop :=
  ∀ denials, deniesWith dns denials qname.lower.print qtype rcode = true →
    deniesWith dns (withoutCuts dns qname qtype denials) qname.lower.print qtype rcode = true

theorem cutsRemovable_of_other_rcode (qname : DomainName) (qtype : UInt16) {rcode : Nat}
    (notNameError : rcode ≠ rcodeNameError) (notSuccess : rcode ≠ rcodeSuccess) :
    CutsRemovable dns qname qtype rcode := by
  intro denials denied
  rw [deniesWith_of_other_rcode dns denials _ qtype notNameError notSuccess] at denied
  cases denied

/-- For the types of the root only questions for NS and DS never rest on a cut. -/
theorem cutsRemovable_root_success_iff (qtype : UInt16) :
    CutsRemovable dns .top qtype rcodeSuccess ↔ qtype = typeNS ∨ qtype = typeDS := by
  constructor
  · intro all
    by_contra others
    rw [not_or] at others
    have removed := all ([rootCut], []) (deniesWith_rootCut dns others.1)
    rw [withoutCuts_rootCut dns others.2, deniesWith_nil] at removed
    cases removed
  · rintro (rfl | rfl) denials denied
    · simp only [lower_top, print_top, deniesWith, nsecProvesDenial_success,
        nsec3ProvesDenial_success, Bool.or_eq_true] at denied ⊢
      exact denied.imp (nsecProvesNODATA_root_ns_removable dns)
        (nsec3ProvesNODATA_root_ns_removable dns)
    · rwa [withoutCuts_root_ds]

/-- Below the root every kind of denial may rest on a cut. -/
theorem not_cutsRemovable_nameError (below : qname.labels ≠ []) (qtype : UInt16) :
    ¬ CutsRemovable dns qname qtype rcodeNameError := by
  intro all
  have denied : deniesWith dns ([cutAbove qname], []) qname.lower.print qtype rcodeNameError =
      true := by
    rw [deniesWith, nsecProvesDenial_nameError, nsecProvesNXDOMAIN_cutAbove dns below, Bool.true_or]
  have nothing : withoutCuts dns qname qtype ([cutAbove qname], []) = ([], []) := by
    simp [withoutCuts, nsecFromCut_cutAbove below qtype]
  have removed := all _ denied
  rw [nothing, deniesWith_nil] at removed
  cases removed

theorem not_cutsRemovable_success (below : qname.labels ≠ []) (qtype : UInt16) :
    ¬ CutsRemovable dns qname qtype rcodeSuccess := by
  intro all
  have denied : deniesWith dns ([cutAbove qname, wildcardRecord qname], []) qname.lower.print qtype
      rcodeSuccess = true := by
    rw [deniesWith, nsecProvesDenial_success, nsecProvesNODATA_cutAbove dns below, Bool.true_or]
  have left : withoutCuts dns qname qtype ([cutAbove qname, wildcardRecord qname], []) =
      ([wildcardRecord qname], []) := by
    simp [withoutCuts, nsecFromCut_cutAbove below qtype, nsecFromCut_wildcardRecord]
  have removed := all _ denied
  rw [left, deniesWith, nsecProvesDenial_success, nsecProvesNODATA_wildcardRecord] at removed
  cases removed

/-- Whatever records deny a question still deny it without those from the parent side of
a cut, exactly when the response code admits no denial at all, or the question is about
the root: its name, its DS or its NS records. -/
theorem cuts_removable_iff (qname : DomainName) (qtype : UInt16) (rcode : Nat) :
    (∀ denials, deniesWith dns denials (dns.canonicalName qname.print) qtype rcode = true →
        deniesWith dns (withoutCuts dns qname qtype denials) (dns.canonicalName qname.print) qtype
          rcode = true) ↔
      (rcode ≠ rcodeNameError ∧ rcode ≠ rcodeSuccess) ∨
        (qname.labels = [] ∧ (rcode = rcodeNameError ∨ qtype = typeNS ∨ qtype = typeDS)) := by
  rw [dns.canonicalName_print]
  change CutsRemovable dns qname qtype rcode ↔ _
  have distinct : rcodeSuccess ≠ rcodeNameError := by decide
  by_cases nameError : rcode = rcodeNameError
  · subst nameError
    by_cases isRoot : qname.labels = []
    · obtain rfl : qname = .top := DomainName.ext isRoot
      exact iff_of_true (nameError_root_removable dns qtype) (.inr ⟨isRoot, .inl rfl⟩)
    · exact iff_of_false (not_cutsRemovable_nameError dns isRoot qtype) (by simp [isRoot])
  · by_cases success : rcode = rcodeSuccess
    · subst success
      by_cases isRoot : qname.labels = []
      · obtain rfl : qname = .top := DomainName.ext isRoot
        rw [cutsRemovable_root_success_iff]
        simp [isRoot, distinct]
      · exact iff_of_false (not_cutsRemovable_success dns isRoot qtype) (by simp [isRoot])
    · exact iff_of_true (cutsRemovable_of_other_rcode dns qname qtype nameError success)
        (.inl ⟨nameError, success⟩)

/-- The record the sample root holds for its delegation of the safe zone. -/
def delegationRecord : NSEC where
  hdr := { safeHeader with rrtype := typeNSEC }
  next := Reference.lastName
  typeBitMap := [typeNS, typeDS, typeRRSIG, typeNSEC]

/-- A negative response with the record of the delegation of the safe zone. -/
def cutResponse (rcode : Nat) (qname : DomainName) : Msg :=
  { responseOf rcode qname [] with
    ns := [.nsec delegationRecord, .rrsig (Reference.sign Reference.rootZSK safeHeader typeNSEC)] }

def insideSafe : DomainName := { labels := [text "www", text "safe"] }

theorem root_denial_without_cuts :
    deniesWith reference (withoutCuts reference .top typeDS ([rootCut], []))
      (reference.canonicalName DomainName.top.print) typeDS rcodeSuccess = true :=
  (cuts_removable_iff reference .top typeDS rcodeSuccess).mpr
    (.inr ⟨rfl, .inr (.inr rfl)⟩) ([rootCut], []) (by decide)

/-- The response is accepted, its authenticated records are that one record, which is from
a cut for the question, and without it nothing is denied. -/
structure DeniedByCut (rcode : Nat) (qname : DomainName) : Prop where
  accepted : (validate reference (World.steady silentUpstream sampleTime)
    (cutResponse rcode qname)).result (standing sampleStore) = .ok ()
  authentic : authenticDenials reference silentUpstream sampleTime (standing sampleStore)
    (cutResponse rcode qname).ns qname.print (rrsetKeys reference (cutResponse rcode qname).ns) =
      ([delegationRecord], [])
  fromCut : nsecFromCut qname 1 delegationRecord = true
  needed : deniesWith reference (withoutCuts reference qname 1 ([delegationRecord], []))
    qname.print 1 rcode = false

/-- The parent's record at the delegation of a signed zone makes the validator accept
that a name of that zone does not exist, and that the zone has no address at its
apex. -/
theorem delegation_record_denies_child_names :
    DeniedByCut rcodeNameError insideSafe ∧ DeniedByCut rcodeSuccess safeHeader.owner :=
  ⟨⟨by decide +kernel, by decide, by decide, by decide⟩,
    ⟨by decide +kernel, by decide, by decide, by decide⟩⟩

end RouteDns.Dnssec
