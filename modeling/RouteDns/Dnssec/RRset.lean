import RouteDns.Dnssec.Signature

/-!
# Grouping a message section into sets

The records of a section are grouped by canonical owner name and type; signature
records are set aside under the name and type they cover.
-/

namespace RouteDns.Dnssec

open Dns

/-- A set is identified by its canonical owner name and its type. -/
structure RRsetKey where
  name : Name
  rrtype : UInt16
  deriving DecidableEq

/-- The sets of a section and the signatures that cover each. -/
structure Grouped where
  rrsets : FiniteMap RRsetKey (List RR)
  sigs : FiniteMap RRsetKey (List RRSIG)

variable (dns : Library)

/-- The set a record belongs to. -/
def recordKey (rr : RR) : RRsetKey where
  name := dns.canonicalName rr.header.name
  rrtype := rr.header.rrtype

/-- The set a signature covers. -/
def coveredKey (sig : RRSIG) : RRsetKey where
  name := dns.canonicalName sig.hdr.name
  rrtype := sig.typeCovered

/-- Group the records of a section, setting signatures aside. -/
def groupRRsByTypeAndName (records : List RR) : Grouped :=
  records.foldl (fun grouped rr =>
    match rr.asRRSIG? with
    | some sig => { grouped with sigs := grouped.sigs.push (coveredKey dns sig) sig }
    | none => { grouped with rrsets := grouped.rrsets.push (recordKey dns rr) rr })
    { rrsets := ∅, sigs := ∅ }

/-- Where a record goes that is not a signature. -/
def placeRecord (rr : RR) : Option (RRsetKey × RR) :=
  match rr.asRRSIG? with
  | some _ => none
  | none => some (recordKey dns rr, rr)

/-- Where a signature goes. -/
def placeSignature (rr : RR) : Option (RRsetKey × RRSIG) :=
  rr.asRRSIG?.map fun sig => (coveredKey dns sig, sig)

/-- The one pass over the section fills two independent maps. -/
theorem groupRRsByTypeAndName_eq (records : List RR) :
    groupRRsByTypeAndName dns records =
      { rrsets := FiniteMap.pushAll (placeRecord dns) ∅ records
        sigs := FiniteMap.pushAll (placeSignature dns) ∅ records } := by
  have general : ∀ start : Grouped,
      records.foldl (fun grouped rr =>
        match rr.asRRSIG? with
        | some sig => { grouped with sigs := grouped.sigs.push (coveredKey dns sig) sig }
        | none => { grouped with rrsets := grouped.rrsets.push (recordKey dns rr) rr }) start =
      { rrsets := start.rrsets.pushAll (placeRecord dns) records
        sigs := start.sigs.pushAll (placeSignature dns) records } := by
    induction records with
    | nil => intro start; rfl
    | cons rr rest ih =>
      intro start
      rw [List.foldl_cons, ih]
      cases kind : rr.asRRSIG? with
      | none | some sig => simp [FiniteMap.pushAll, placeRecord, placeSignature, kind]
  exact general _

/-- The records of a section that form one set. -/
def rrsetOf (records : List RR) (key : RRsetKey) : List RR :=
  (groupRRsByTypeAndName dns records).rrsets.get key

/-- The signatures of a section that cover one set. -/
def sigsOf (records : List RR) (key : RRsetKey) : List RRSIG :=
  (groupRRsByTypeAndName dns records).sigs.get key

/-- The sets of a section. -/
def rrsetKeys (records : List RR) : List RRsetKey :=
  (groupRRsByTypeAndName dns records).rrsets.keys

theorem rrsetOf_eq (records : List RR) (key : RRsetKey) :
    rrsetOf dns records key =
      records.filter fun rr => rr.asRRSIG? = none ∧ recordKey dns rr = key := by
  rw [rrsetOf, groupRRsByTypeAndName_eq, FiniteMap.get_pushAll]
  have empty : FiniteMap.get (∅ : FiniteMap RRsetKey (List RR)) key = [] := rfl
  rw [empty, List.nil_append]
  induction records with
  | nil => rfl
  | cons rr rest ih =>
    simp only [FiniteMap.placedAt, List.filterMap_cons, placeRecord] at ih ⊢
    rw [ih]
    cases kind : rr.asRRSIG? with
    | some sig => simp [kind]
    | none =>
      by_cases same : recordKey dns rr = key
      · simp [kind, same]
      · simp [kind, same, Ne.symm same]

variable {records : List RR} {key : RRsetKey}

theorem mem_rrsetOf {rr : RR} :
    rr ∈ rrsetOf dns records key ↔
      rr ∈ records ∧ rr.asRRSIG? = none ∧ recordKey dns rr = key := by
  simp [rrsetOf_eq]

theorem mem_sigsOf {sig : RRSIG} :
    sig ∈ sigsOf dns records key ↔ RR.rrsig sig ∈ records ∧ coveredKey dns sig = key := by
  rw [sigsOf, groupRRsByTypeAndName_eq, FiniteMap.get_pushAll]
  have empty : FiniteMap.get (∅ : FiniteMap RRsetKey (List RRSIG)) key = [] := rfl
  rw [empty, List.nil_append]
  simp only [FiniteMap.placedAt, List.mem_filterMap, placeSignature]
  constructor
  · rintro ⟨rr, member, placed⟩
    cases rr with
    | rrsig own =>
      by_cases same : key = coveredKey dns own
      · simp only [RR.asRRSIG?, Option.map_some, same, if_true, Option.some.injEq] at placed
        subst placed
        exact ⟨member, same.symm⟩
      · simp [RR.asRRSIG?, same] at placed
    | _ => simp [RR.asRRSIG?] at placed
  · rintro ⟨member, rfl⟩
    exact ⟨.rrsig sig, member, by simp [RR.asRRSIG?]⟩

theorem mem_rrsetKeys :
    key ∈ rrsetKeys dns records ↔
      ∃ rr ∈ records, rr.asRRSIG? = none ∧ recordKey dns rr = key := by
  rw [rrsetKeys, groupRRsByTypeAndName_eq, FiniteMap.mem_keys_pushAll]
  have empty : key ∉ (∅ : FiniteMap RRsetKey (List RR)).keys := by simp
  constructor
  · rintro (member | ⟨rr, member, value, placed⟩)
    · exact absurd member empty
    · unfold placeRecord at placed
      split at placed
      · cases placed
      · rename_i kind
        cases placed
        exact ⟨rr, member, kind, rfl⟩
  · rintro ⟨rr, member, kind, rfl⟩
    exact .inr ⟨rr, member, rr, by simp [placeRecord, kind]⟩

/-- A set that was grouped is not empty. -/
theorem rrsetOf_ne_nil (member : key ∈ rrsetKeys dns records) :
    rrsetOf dns records key ≠ [] := by
  obtain ⟨rr, rrMem, kind, same⟩ := (mem_rrsetKeys dns).mp member
  exact List.ne_nil_of_mem ((mem_rrsetOf dns).mpr ⟨rrMem, kind, same⟩)

end RouteDns.Dnssec
