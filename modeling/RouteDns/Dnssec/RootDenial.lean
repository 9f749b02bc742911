import RouteDns.Dnssec.HashedDenial
import RouteDns.Dnssec.NonTerminal

/-!
# The wildcard that a denial asks about

A proof of absence asks about the wildcard at the closest encloser.  The code puts `*.` in front
of the text of the encloser.  That names the wildcard everywhere except at the root, whose text
is a dot of its own.  The four procedures are compared here with the rules they follow, in which
the wildcard of an encloser is left open; it matters for the enclosers only at whose wildcards
they look.
-/

namespace RouteDns.Dnssec

open Dns

variable (dns : Library)

/-- The name with one label, an asterisk, in front of the labels of an encloser, as text. -/
def wildcardName (encloser : Name) : Name :=
  if encloser = root then text "*." else wildcardText encloser

theorem wildcardName_print (encloser : DomainName) :
    wildcardName encloser.print = (wildcardOf encloser).print := by
  unfold wildcardName
  split
  · rename_i top
    obtain rfl : encloser = .top := print_injective (top.trans print_top.symm)
    decide
  · rename_i below
    exact wildcardText_print (mt (print_eq_root_iff encloser).mpr below)

theorem wildcardText_print_iff (encloser : DomainName) :
    wildcardText encloser.print = (wildcardOf encloser).print ↔ encloser ≠ .top := by
  constructor
  · rintro same rfl
    exact absurd same (by decide)
  · intro below
    exact wildcardText_print fun top => below (DomainName.ext top)

/-! ## The rules -/

section Rules

variable (wildcard : Name → Name)

/-- The record of the name decides whether a type is absent; without one, the first record at the
wildcard of an encloser that a covering record implies. -/
def nsecNODATA (nsecs : List NSEC) (qname : Name) (qtype : UInt16) : Bool :=
  ((nsecs.find? (nsecOwns dns qname)).or
    ((nsecs.filter (nsecCovers dns · qname)).findSome? fun cover =>
      nsecs.find? (nsecOwns dns
        (dns.canonicalName (wildcard (nsecClosestEncloser dns qname cover)))))).any fun record =>
    bitmapLacks record.typeBitMap qtype

/-- The name is covered, and the first record that says anything about the wildcard covers it. -/
def nsecNXDOMAIN (nsecs : List NSEC) (qname : Name) : Bool :=
  (nsecs.find? (nsecCovers dns · qname)).any fun cover =>
    let name := dns.canonicalName (wildcard (nsecClosestEncloser dns qname cover))
    (nsecs.find? fun record => nsecOwns dns name record || nsecCovers dns record name).any fun
      record => !nsecOwns dns name record

/-- The record that matches the name decides whether a type is absent; without one, the record
that matches the wildcard at the closest encloser. -/
def nsec3NODATA (nsec3s : List NSEC3) (qname : Name) (qtype : UInt16) : Bool :=
  match nsec3s.find? (dns.nsec3Match · qname) with
  | some record => bitmapLacks record.typeBitMap qtype
  | none =>
    qtype = typeDS && nsec3OptOutCovers dns nsec3s qname ||
      (nsec3ClosestEncloser dns nsec3s qname).any fun pair =>
        nsec3CoverAny dns nsec3s pair.2 &&
          (nsec3s.find? (dns.nsec3Match · (wildcard pair.1))).any fun record =>
            bitmapLacks record.typeBitMap qtype

/-- The next closer name is covered, and so is the wildcard unless the span is opt-out. -/
def nsec3NXDOMAIN (nsec3s : List NSEC3) (qname : Name) : Bool :=
  (nsec3ClosestEncloser dns nsec3s qname).any fun pair =>
    nsec3CoverAny dns nsec3s pair.2 &&
      (nsec3CoverAny dns nsec3s (wildcard pair.1) || nsec3OptOutCovers dns nsec3s pair.2)

end Rules

/-! ## The enclosers at whose wildcards the procedures look -/

/-- The walk over the covering records, which ends where a record is found at the wildcard. -/
def nsecWalked (nsecs : List NSEC) (qname : Name) : List NSEC → List Name
  | [] => []
  | cover :: rest =>
    if nsecCovers dns cover qname then
      let encloser := nsecClosestEncloser dns qname cover
      if (nsecs.find? (nsecOwns dns (dns.canonicalName (wildcardText encloser)))).isSome then
        [encloser]
      else encloser :: nsecWalked nsecs qname rest
    else nsecWalked nsecs qname rest

def nsecNODATATested (nsecs : List NSEC) (qname : Name) : List Name :=
  if (nsecs.find? (nsecOwns dns qname)).isSome then [] else nsecWalked dns nsecs qname nsecs

def nsecNXDOMAINTested (nsecs : List NSEC) (qname : Name) : List Name :=
  ((nsecs.find? (nsecCovers dns · qname)).map (nsecClosestEncloser dns qname)).toList

/-- The closest encloser, if the next closer name is covered. -/
def nsec3NXDOMAINTested (nsec3s : List NSEC3) (qname : Name) : List Name :=
  (((nsec3ClosestEncloser dns nsec3s qname).filter fun pair =>
    nsec3CoverAny dns nsec3s pair.2).map Prod.fst).toList

def nsec3NODATATested (nsec3s : List NSEC3) (qname : Name) (qtype : UInt16) : List Name :=
  if (nsec3s.find? (dns.nsec3Match · qname)).isSome ||
      (qtype = typeDS && nsec3OptOutCovers dns nsec3s qname) then []
  else nsec3NXDOMAINTested dns nsec3s qname

/-- A procedure that looks at the wildcards of some enclosers.  It decides by its rule, whatever
the rule takes for the wildcards of other names; the wildcard it looks at has one asterisk in
front of the labels of the encloser exactly if that is not the root. -/
structure TestsWildcards (tested : List Name) (decision : Bool) (rule : (Name → Name) → Bool) :
    Prop where
  printed : ∀ name ∈ tested, ∃ encloser : DomainName, name = encloser.print
  decides : ∀ wildcard : Name → Name, (∀ name ∈ tested, wildcard name = wildcardText name) →
    decision = rule wildcard
  named : ∀ encloser : DomainName, encloser.print ∈ tested →
    (wildcardText encloser.print = (wildcardOf encloser).print ↔ encloser ≠ .top)
  proper : root ∉ tested → decision = rule wildcardName

theorem testsWildcards {tested : List Name} {decision : Bool} {rule : (Name → Name) → Bool}
    (printed : ∀ name ∈ tested, ∃ encloser : DomainName, name = encloser.print)
    (decides : ∀ wildcard : Name → Name, (∀ name ∈ tested, wildcard name = wildcardText name) →
      decision = rule wildcard) : TestsWildcards tested decision rule where
  printed := printed
  decides := decides
  named encloser _ := wildcardText_print_iff encloser
  proper below := decides wildcardName fun name member =>
    if_neg fun top : name = root => below (top ▸ member)

/-! ## The procedures follow the rules -/

section Nsec

variable (nsecs : List NSEC) {qname : Name}

theorem nsecWalked_printed {qname : DomainName} {walked : List NSEC} :
    ∀ name ∈ nsecWalked dns nsecs qname.lower.print walked,
      ∃ encloser : DomainName, name = encloser.print := by
  induction walked with
  | nil => simp [nsecWalked]
  | cons cover rest ih =>
    have first := nsecClosestEncloser_print dns qname cover
    intro name member
    unfold nsecWalked at member
    split at member
    · dsimp only at member
      split at member
      · exact ⟨_, (List.mem_singleton.mp member).trans first⟩
      · rcases List.mem_cons.mp member with same | later
        · exact ⟨_, same.trans first⟩
        · exact ih name later
    · exact ih name member

/-- The walk takes the wildcards of the enclosers on its way only. -/
theorem nsecWildcardNODATA_walked (qtype : UInt16) {wildcard : Name → Name} {walked : List NSEC}
    (agrees : ∀ name ∈ nsecWalked dns nsecs qname walked, wildcard name = wildcardText name) :
    nsecWildcardNODATA dns nsecs qname qtype walked =
      ((walked.filter (nsecCovers dns · qname)).findSome? fun cover =>
        nsecs.find? (nsecOwns dns
          (dns.canonicalName (wildcard (nsecClosestEncloser dns qname cover))))).any fun record =>
        bitmapLacks record.typeBitMap qtype := by
  induction walked with
  | nil => rfl
  | cons cover rest ih =>
    rw [nsecWildcardNODATA, List.filter_cons]
    unfold nsecWalked at agrees
    split
    · rename_i covers
      rw [if_pos covers] at agrees
      dsimp only at agrees
      rw [List.findSome?_cons]
      dsimp only
      cases found : nsecs.find? (nsecOwns dns
          (dns.canonicalName (wildcardText (nsecClosestEncloser dns qname cover)))) with
      | some record =>
        rw [found, Option.isSome_some, if_pos rfl] at agrees
        rw [agrees _ List.mem_cons_self, found]
        rfl
      | none =>
        rw [found, Option.isSome_none, if_neg Bool.false_ne_true] at agrees
        rw [agrees _ List.mem_cons_self, found]
        exact ih fun name member => agrees name (List.mem_cons_of_mem _ member)
    · rename_i misses
      rw [if_neg misses] at agrees
      exact ih agrees

theorem nsecProvesNODATA_tests (qname : DomainName) (qtype : UInt16) :
    TestsWildcards (nsecNODATATested dns nsecs qname.lower.print)
      (nsecProvesNODATA dns nsecs qname.print qtype)
      (nsecNODATA dns · nsecs qname.lower.print qtype) := by
  unfold nsecNODATATested
  simp only [nsecProvesNODATA, nsecNODATA, dns.canonicalName_print]
  cases nsecs.find? (nsecOwns dns qname.lower.print) with
  | some record => exact testsWildcards (by simp) fun _ _ => rfl
  | none =>
    exact testsWildcards (nsecWalked_printed dns nsecs) fun wildcard agrees =>
      nsecWildcardNODATA_walked dns nsecs qtype agrees

theorem nsecProvesNXDOMAIN_tests (qname : DomainName) :
    TestsWildcards (nsecNXDOMAINTested dns nsecs qname.lower.print)
      (nsecProvesNXDOMAIN dns nsecs qname.print)
      (nsecNXDOMAIN dns · nsecs qname.lower.print) := by
  unfold nsecNXDOMAINTested
  simp only [nsecProvesNXDOMAIN, nsecNXDOMAIN, dns.canonicalName_print]
  cases nsecs.find? (nsecCovers dns · qname.lower.print) with
  | none => exact testsWildcards (by simp) fun _ _ => rfl
  | some cover =>
    refine testsWildcards ?_ fun wildcard agrees => ?_
    · intro name member
      exact ⟨_, (List.mem_singleton.mp member).trans (nsecClosestEncloser_print dns qname cover)⟩
    · rw [Option.any_some, agrees _ List.mem_cons_self]
      dsimp only
      split
      · rename_i none
        rw [none]
        rfl
      · rename_i record found
        rw [found]
        rfl

end Nsec

section Nsec3

variable (nsec3s : List NSEC3) (qname : DomainName)

theorem nsec3NXDOMAINTested_printed : ∀ name ∈ nsec3NXDOMAINTested dns nsec3s qname.print,
    ∃ encloser : DomainName, name = encloser.print := by
  intro name member
  rw [nsec3NXDOMAINTested, Option.mem_toList, Option.map_eq_some_iff] at member
  obtain ⟨pair, found, rfl⟩ := member
  obtain ⟨encloser, -, rfl⟩ := (nsec3ClosestEncloser_print_iff dns nsec3s qname pair).mp
    (Option.filter_eq_some_iff.mp found).1
  exact ⟨encloser, rfl⟩

theorem mem_nsec3NXDOMAINTested {qname : Name} {pair : Name × Name}
    (found : nsec3ClosestEncloser dns nsec3s qname = some pair)
    (covered : nsec3CoverAny dns nsec3s pair.2 = true) :
    pair.1 ∈ nsec3NXDOMAINTested dns nsec3s qname := by
  simp [nsec3NXDOMAINTested, found, Option.filter, covered]

theorem nsec3ProvesNXDOMAIN_tests :
    TestsWildcards (nsec3NXDOMAINTested dns nsec3s qname.print)
      (nsec3ProvesNXDOMAIN dns nsec3s qname.print)
      (nsec3NXDOMAIN dns · nsec3s qname.print) := by
  refine testsWildcards (nsec3NXDOMAINTested_printed dns nsec3s qname) fun wildcard agrees => ?_
  simp only [nsec3ProvesNXDOMAIN, nsec3NXDOMAIN]
  cases found : nsec3ClosestEncloser dns nsec3s qname.print with
  | none => rfl
  | some pair =>
    cases covered : nsec3CoverAny dns nsec3s pair.2 with
    | false => simp [covered]
    | true =>
      have same := agrees pair.1 (mem_nsec3NXDOMAINTested dns nsec3s found covered)
      simp [covered, same]

theorem nsec3ProvesNODATA_tests (qtype : UInt16) :
    TestsWildcards (nsec3NODATATested dns nsec3s qname.lower.print qtype)
      (nsec3ProvesNODATA dns nsec3s qname.print qtype)
      (nsec3NODATA dns · nsec3s qname.lower.print qtype) := by
  unfold nsec3NODATATested
  simp only [nsec3ProvesNODATA, nsec3NODATA, nsec3WildcardNODATA, dns.canonicalName_print]
  cases nsec3s.find? (dns.nsec3Match · qname.lower.print) with
  | some record => exact testsWildcards (by simp) fun _ _ => rfl
  | none =>
    cases optOut : qtype = typeDS && nsec3OptOutCovers dns nsec3s qname.lower.print with
    | true => exact testsWildcards (by simp) fun _ _ => by simp
    | false =>
      refine testsWildcards ?_ fun wildcard agrees => ?_
      · simpa using nsec3NXDOMAINTested_printed dns nsec3s qname.lower
      · simp only [Option.isSome_none, Bool.or_self, Bool.false_eq_true, if_false] at agrees
        cases found : nsec3ClosestEncloser dns nsec3s qname.lower.print with
        | none => simp
        | some pair =>
          cases covered : nsec3CoverAny dns nsec3s pair.2 with
          | false => simp [covered]
          | true =>
            have same := agrees pair.1 (mem_nsec3NXDOMAINTested dns nsec3s found covered)
            simp only [covered, same, Option.any_some]
            cases nsec3s.find? (dns.nsec3Match · (wildcardText pair.1)) <;> simp

end Nsec3

/-- Each procedure decides by its rule.  A wildcard it looks at is the name with one asterisk in
front of the labels of the closest encloser exactly if that is not the root. -/
theorem denials_about_wildcard (qname : DomainName) (nsecs : List NSEC) (nsec3s : List NSEC3)
    (qtype : UInt16) :
    (∀ encloser : DomainName, wildcardName encloser.print = (wildcardOf encloser).print) ∧
    TestsWildcards (nsecNODATATested dns nsecs qname.lower.print)
      (nsecProvesNODATA dns nsecs qname.print qtype)
      (nsecNODATA dns · nsecs qname.lower.print qtype) ∧
    TestsWildcards (nsecNXDOMAINTested dns nsecs qname.lower.print)
      (nsecProvesNXDOMAIN dns nsecs qname.print)
      (nsecNXDOMAIN dns · nsecs qname.lower.print) ∧
    TestsWildcards (nsec3NODATATested dns nsec3s qname.lower.print qtype)
      (nsec3ProvesNODATA dns nsec3s qname.print qtype)
      (nsec3NODATA dns · nsec3s qname.lower.print qtype) ∧
    TestsWildcards (nsec3NXDOMAINTested dns nsec3s qname.print)
      (nsec3ProvesNXDOMAIN dns nsec3s qname.print)
      (nsec3NXDOMAIN dns · nsec3s qname.print) :=
  ⟨wildcardName_print, nsecProvesNODATA_tests dns nsecs qname qtype,
    nsecProvesNXDOMAIN_tests dns nsecs qname, nsec3ProvesNODATA_tests dns nsec3s qname qtype,
    nsec3ProvesNXDOMAIN_tests dns nsec3s qname⟩

/-- A name of the sample zones is denied by the rule. -/
theorem exampleMissing_denied_by_rule :
    nsecNXDOMAINTested reference exampleChain exampleMissing.lower.print =
        [Reference.exampleName.print] ∧
      nsecProvesNXDOMAIN reference exampleChain exampleMissing.print =
        nsecNXDOMAIN reference wildcardName exampleChain exampleMissing.lower.print := by
  have tested : nsecNXDOMAINTested reference exampleChain exampleMissing.lower.print =
      [Reference.exampleName.print] := by
    decide +kernel
  refine ⟨tested,
    (denials_about_wildcard reference exampleMissing exampleChain [] 28).2.2.1.proper ?_⟩
  rw [tested]
  decide

/-- A root zone with a wildcard that owns addresses: the name error is accepted for a name that
the wildcard answers, and the absence of a type at the wildcard is not. -/
theorem root_wildcard_missed :
    let chain := pairChain .top (wildcardOf .top) [typeNS, typeSOA, typeNSEC] [1, typeNSEC]
    let qname : DomainName := { labels := [text "nx"] }
    (root ∈ nsecNXDOMAINTested reference chain qname.print ∧
        root ∈ nsecNODATATested reference chain qname.print) ∧
      nsecProvesNXDOMAIN reference chain qname.print = true ∧
      nsecNXDOMAIN reference wildcardName chain qname.print = false ∧
      nsecProvesNODATA reference chain qname.print 28 = false ∧
      nsecNODATA reference wildcardName chain qname.print 28 = true := by
  decide +kernel

end RouteDns.Dnssec
