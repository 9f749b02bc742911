import RouteDns.Dns.Reference
import RouteDns.Dnssec.Keeps
import RouteDns.Dnssec.ZoneTree

/-!
# Two notions of a parent

The chain of trust finds the parent of a zone by cutting the text of its name at the first
dot.  The walk of the insecure-delegation check splits the same name into labels and joins
them again.  A dot inside a label is printed with a backslash in front, which the first way
does not look at and the second does.  This file says for which names the two agree, and what
follows for the keys that vouch for a set of DS records.
-/

namespace RouteDns.Dnssec

open Dns Program

variable (dns : Library)

/-- The name that is left when the first label of the split name is dropped. -/
def parentByLabels (name : Name) : Name :=
  dns.fqdn (List.intercalate [dot] ((dns.splitDomainName (dns.canonicalName name)).drop 1))

theorem parentByLabels_print (name : DomainName) :
    parentByLabels dns name.print = (name.lower.drop 1).print := by
  rw [parentByLabels, dns.canonicalName_print, dns.splitDomainName_print, ← List.map_drop,
    ← DomainName.drop_labels]
  by_cases empty : (name.lower.drop 1).labels = []
  · rw [empty, (print_eq_root_iff _).mpr empty, dns.fqdn_eq]
    rfl
  · rw [print_of_labels_ne_nil empty]
    exact dns.fqdn_intercalate empty (name.lower.drop 1).nonempty

/-- The parent of a printed name depends on its lower-case form only. -/
theorem parentZone_lower (name : DomainName) :
    parentZone dns name.lower.print = parentZone dns name.print := by
  rw [← dns.canonicalName_print, parentZone_canonicalName dns name.print_qualified]

/-! ## Where the text is cut -/

/-- The part of a name in which a dot misleads the textual cut: its first label.  The last
byte of a name with one label is left out, since behind it comes the final dot only, and that
is the root. -/
def cutPart (name : DomainName) : Label :=
  match name.labels with
  | [] => []
  | [label] => label.dropLast
  | label :: _ :: _ => label

section Inside

variable {name : DomainName} {first : Label} {rest : List Label}

/-- With a dot in the first label the parent starts inside it, behind the first such dot. -/
theorem parentZone_inside {front back : Label} (lower : name.lower = name)
    (labels_eq : name.labels = (front ++ dot :: back) :: rest) (free : dot ∉ front) :
    parentZone dns name.print = printLabel back ++ dot :: printLabels rest := by
  have escaped : escapeByte dot = [backslash, dot] := by decide
  have split : printLabel (front ++ dot :: back) ++ dot :: printLabels rest =
      (printLabel front ++ [backslash]) ++ dot :: (printLabel back ++ dot :: printLabels rest) := by
    simp [printLabel, escaped]
  have front_free : dot ∉ printLabel front ++ [backslash] := by
    have apart : dot ≠ backslash := by decide
    simp [dot_not_mem_printLabel free, apart]
  have cut := afterDot?_append_of_not_mem (printLabel back ++ dot :: printLabels rest) front_free
  rw [← split] at cut
  rw [parentZone_print dns lower labels_eq cut, if_neg (by simp)]

/-- The textual cut takes off the first label exactly if no dot misleads it. -/
theorem cuts_iff (lower : name.lower = name) : Cuts dns name ↔ dot ∉ cutPart name := by
  rcases labels_eq : name.labels with _ | ⟨first, rest⟩
  · have top : name.print = root := (print_eq_root_iff name).mpr labels_eq
    have above : (name.drop 1).print = root := (print_eq_root_iff _).mpr (by simp [labels_eq])
    simp [Cuts, cutPart, labels_eq, top, above, parentZone]
  · by_cases free : dot ∉ first
    · have plain : dot ∉ cutPart name := by
        cases rest with
        | nil => simpa [cutPart, labels_eq] using fun member => free (List.dropLast_subset _ member)
        | cons next others => simpa [cutPart, labels_eq] using free
      exact iff_of_true (cuts_of_dot_not_mem dns lower labels_eq free) plain
    · -- the first dot of the label is where the text is cut
      obtain ⟨front, back, rfl, front_free⟩ := List.eq_append_cons_of_mem (not_not.mp free)
      rw [Cuts, parentZone_inside dns lower labels_eq front_free, print_drop_one labels_eq]
      cases rest with
      | nil =>
        have part : cutPart name = (front ++ dot :: back).dropLast := by simp [cutPart, labels_eq]
        rw [part]
        cases back with
        | nil => simpa [printLabel, printLabels, root] using front_free
        | cons byte more =>
          have long := List.length_pos_iff.mpr (printLabel_ne_nil (List.cons_ne_nil byte more))
          refine iff_of_false ?_ (by simp)
          intro same
          have lengths := congrArg List.length same
          have none_left : printLabels [] = [] := rfl
          rw [none_left, if_pos rfl, List.length_append, root, List.length_singleton] at lengths
          omega
      | cons next others =>
        refine iff_of_false ?_ ?_
        · intro same
          have lengths := congrArg List.length same
          rw [if_neg (by simp), List.length_append, List.length_cons] at lengths
          omega
        · simp [cutPart, labels_eq]

end Inside

/-! ## The keys that vouch for a set of DS records -/

section Vouching

variable {ω : Type} (world : World ω)

/-- A chain of trust that returns is noted with the zone it was built for. -/
theorem buildChainOfTrust_noted (zone : Name) :
    Triple (fun _ : Session ω => True) (buildChainOfTrust dns world zone)
      (fun keys session => .trusted (dns.canonicalName zone) keys ∈ session.trace)
      (fun _ _ => True) := by
  have always : ∀ {α : Type} (program : Action ω α),
      Triple (fun _ => True) program (fun _ _ => True) (fun _ _ => True) := by
    intro α program state _
    rcases program.run state with ⟨_ | _, _⟩ <;> exact trivial
  rw [buildChainOfTrust]
  cases (dns.canonicalName zone).length with
  | zero => exact Triple.fail fun _ _ => trivial
  | succ levels =>
    refine Triple.bind _ (always _) fun keys => ?_
    refine Triple.bind (fun _ session => .trusted (dns.canonicalName zone) keys ∈ session.trace)
      (Triple.step fun _ _ => List.mem_cons_self) fun _ => ?_
    exact Triple.pure fun _ noted => noted

/-- An accepted set of DS records is signed by keys that a chain of trust returned for the
textual parent of the zone. -/
theorem authenticateDS_signed {zone : Name} (canonical : dns.IsCanonical zone)
    (below : zone ≠ root) {session reached : Session ω} {ds : List DS}
    (ran : (authenticateDS dns world (buildChainOfTrust dns world) zone).run session =
      (.ok ds, reached)) :
    ∃ keys sigs, .trusted (parentZone dns zone) keys ∈ reached.trace ∧
      SignedIn dns sigs keys.zsk (ds.map RR.ds) reached.trace := by
  have grounds : Grounds dns (fun _ : Session ω => True) (fun _ _ => True)
      (fun trace keys => .trusted (parentZone dns zone) keys ∈ trace) :=
    ⟨Stable.const True, fun _ _ _ known => known,
      fun _ _ _ known => List.mem_cons_of_mem _ known, fun _ _ _ _ => trivial⟩
  have parentChain : Triple (fun _ : Session ω => True)
      (buildChainOfTrust dns world (parentZone dns zone))
      (fun keys session => True ∧ .trusted (parentZone dns zone) keys ∈ session.trace)
      (fun _ _ => True) := by
    have noted := buildChainOfTrust_noted dns world (parentZone dns zone)
    rw [(isCanonical_parentZone dns canonical).2] at noted
    exact noted.imp (fun _ holds => holds) (fun _ _ noted => ⟨trivial, noted⟩)
      (fun _ _ holds => holds)
  have evidence :=
    ((authenticateDS_triple dns world grounds fun _ => parentChain).of_ok trivial ran).2
  rcases evidence with ⟨isRoot, _⟩ | ⟨_, msg, _, _, keys, noted, signed⟩
  · exact absurd isRoot below
  · exact ⟨keys, _, noted, signed⟩

/-- Every set of DS records that the chain of trust accepts for a name below the root is signed
by the keys of a name properly above it. -/
def VouchedFromAbove (name : DomainName) : Prop :=
  ∀ session ds reached, name.lower.labels ≠ [] →
    (authenticateDS dns world (buildChainOfTrust dns world) name.lower.print).run session =
      (.ok ds, reached) →
    ∃ upper keys sigs, IsAbove upper name.lower ∧ .trusted upper.print keys ∈ reached.trace ∧
      SignedIn dns sigs keys.zsk (ds.map RR.ds) reached.trace

theorem vouchedFromAbove_of_cuts {name : DomainName} (cuts : Cuts dns name.lower) :
    VouchedFromAbove dns world name := by
  intro session ds reached labels_ne ran
  have canonical : dns.IsCanonical name.lower.print :=
    dns.canonicalName_print name ▸ dns.isCanonical_canonicalName name.print_qualified
  have below : name.lower.print ≠ root := mt (print_eq_root_iff _).mp labels_ne
  obtain ⟨keys, sigs, noted, signed⟩ := authenticateDS_signed dns world canonical below ran
  rw [cuts] at noted
  refine ⟨name.lower.drop 1, keys, sigs, ⟨List.drop_suffix 1 _, ?_⟩, noted, signed⟩
  intro same
  have lengths := congrArg (fun upper => upper.labels.length) same
  have positive := List.length_pos_iff.mpr labels_ne
  simp only [DomainName.drop_labels, List.length_drop] at lengths
  omega

end Vouching

/-! ## Agreement -/

/-- The name that the walk of the insecure-delegation check visits before it comes to a name;
the walk starts below the root. -/
def visitedBefore (name : Name) : Option Name :=
  (root :: enclosingZones dns (dns.canonicalName name)).dropLast.getLast?

theorem visitedBefore_print {name : DomainName} (labels_ne : name.labels ≠ []) :
    visitedBefore dns name.print = some (name.lower.drop 1).print := by
  obtain ⟨first, rest, labels_eq⟩ := List.exists_cons_of_ne_nil labels_ne
  have count : name.lower.labels.length = rest.length + 1 := by simp [labels_eq]
  rw [visitedBefore, dns.canonicalName_print, enclosingZones_print, count, List.range_succ_eq_map,
    List.reverse_cons, List.map_append, List.map_singleton, ← List.cons_append,
    List.dropLast_concat]
  cases rest with
  | nil =>
    have top : (name.lower.drop 1).print = root :=
      (print_eq_root_iff _).mpr (by simp [labels_eq])
    rw [top]
    rfl
  | cons next others =>
    rw [List.length_cons, List.range_succ_eq_map, List.map_cons, List.reverse_cons,
      List.map_append, List.map_singleton, ← List.cons_append, List.getLast?_concat]

/-- The parent of a name by its text is its parent by labels: the two ways to find it agree, and
only keys of names above a name vouch for its DS records. -/
structure ParentsAgree (name : DomainName) : Prop where
  byLabels : parentZone dns name.print = parentByLabels dns name.print
  oneUp : parentZone dns name.print = (name.lower.drop 1).print
  vouched : ∀ {ω : Type} (world : World ω), VouchedFromAbove dns world name
  walked : name.labels ≠ [] → visitedBefore dns name.print = some (parentZone dns name.print)

theorem dot_mem_map_lowerByte {label : Label} : dot ∈ label.map lowerByte ↔ dot ∈ label := by
  simp [List.mem_map, lowerByte_eq_dot_iff]

theorem dot_mem_cutPart_lower (name : DomainName) :
    dot ∈ cutPart name.lower ↔ dot ∈ cutPart name := by
  have lowered : cutPart name.lower = (cutPart name).map lowerByte := by
    rcases labels_eq : name.labels with _ | ⟨first, _ | ⟨next, rest⟩⟩
    · simp [cutPart, labels_eq]
    · simp [cutPart, labels_eq, List.map_dropLast]
    · simp [cutPart, labels_eq]
  rw [lowered, dot_mem_map_lowerByte]

/-- For every name: the parent of a zone found in its text is the name without the first label,
as splitting into labels gives it, only keys of names above the zone vouch for its DS records,
and the walk of the insecure-delegation check comes from the same parent, exactly if the first
label has no dot inside. -/
theorem parentsAgree_iff (name : DomainName) : ParentsAgree dns name ↔ dot ∉ cutPart name := by
  have cuts := cuts_iff dns name.lower_lower
  rw [dot_mem_cutPart_lower, Cuts, parentZone_lower] at cuts
  rw [← cuts]
  constructor
  · intro agree
    exact agree.oneUp
  · intro oneUp
    exact
      { byLabels := by rw [oneUp, parentByLabels_print]
        oneUp := oneUp
        vouched := fun world => vouchedFromAbove_of_cuts dns world
          (by rw [Cuts, parentZone_lower, oneUp])
        walked := fun labels_ne => by rw [visitedBefore_print dns labels_ne, oneUp] }

/-! ## A zone with a dot in its label -/

/-- The zone `a\.b.cut.`, whose first label is three bytes long. -/
def dottedZone : DomainName := { labels := [text "a.b", text "cut"] }

/-- The zone `b.cut.`, which is not above the other. -/
def besideZone : DomainName := { labels := [text "b", text "cut"] }

def besideZSK : DNSKEY :=
  Reference.keyOf (Reference.headerOf besideZone) 256 (text "beside-zsk")

/-- A DS record of the dotted zone, signed by the zone beside it. -/
def dottedDS : DS :=
  Reference.dsOf (Reference.headerOf dottedZone) besideZSK

def dottedWorld : World Nat :=
  World.ofResolver
    (fun _ => .ok
      { rcode := rcodeSuccess, question := [], ns := []
        answer := [.ds dottedDS,
          .rrsig (Reference.sign besideZSK (Reference.headerOf dottedZone) typeDS)] })
    (fun _ => sampleTime) fun _ => listedOrder

/-- A session whose keystore holds the keys of the zone beside the dotted one. -/
def besideSession : Session Nat where
  store := Keystore.addDNSKEY reference ∅ besideZone.print [besideZSK] sampleTime
  world := 0
  trace := []

/-- The zone for which an event notes a chain of trust. -/
def Event.trustedZone? : Event → Option Name
  | .trusted zone _ => some zone
  | _ => none

/-- The keys of `b.cut.` vouch for the DS records of `a\.b.cut.`, which lies below `cut.`
directly. -/
theorem dotted_zone_vouched_from_beside :
    parentZone reference dottedZone.print = besideZone.print ∧
      parentByLabels reference dottedZone.print = text "cut." ∧
      visitedBefore reference dottedZone.print = some (text "cut.") ∧
      ¬ IsAbove besideZone dottedZone.lower ∧
      ¬ VouchedFromAbove reference dottedWorld dottedZone := by
  refine ⟨by decide, by decide, by decide, by decide, ?_⟩
  intro vouched
  have accepted : (authenticateDS reference dottedWorld (buildChainOfTrust reference dottedWorld)
      dottedZone.lower.print).result besideSession = .ok [dottedDS] := by
    decide
  obtain ⟨upper, keys, sigs, above, noted, _⟩ := vouched besideSession [dottedDS] _ (by decide)
    (Prod.ext accepted rfl)
  have zones : ((authenticateDS reference dottedWorld (buildChainOfTrust reference dottedWorld)
      dottedZone.lower.print).run besideSession).2.trace.filterMap Event.trustedZone? =
        [besideZone.print] := by
    decide
  have zone_mem : upper.print ∈ [besideZone.print] :=
    zones ▸ List.mem_filterMap.mpr ⟨_, noted, rfl⟩
  obtain rfl : upper = besideZone := print_injective (List.mem_singleton.mp zone_mem)
  exact absurd above (by decide)

end RouteDns.Dnssec
