import RouteDns.Blocklist.Hosts
import RouteDns.Dns.Query

/-!
# What a hosts file matches

A query for a name returns the addresses that the database has for it, a reverse query the names of
an address.  After loading, the database holds an entry for every name behind the first word of a
line, in the order of the lines and up to one more than the limit for a name and family, and under
every reverse name the names of the lines with that address.

Only a line that starts with a number sign is taken for a comment, and the first word of a line
does not have to be an address.
-/

namespace RouteDns.Blocklist

open Dns Cidr

/-! ## Matching -/

/-- What a query returns: addresses, where a missing one blocks, or names. -/
structure HostsMatch where
  ips : List (Option IP)
  names : List Text
  found : BlocklistMatch
  ok : Bool
  deriving DecidableEq

/-- The name in lower case and without its last dot. -/
def hostKey (lib : HostsLibrary) (name : Text) : Text :=
  lib.toLower (trimDot name)

def HostsDB.match_ (lib : HostsLibrary) (db : HostsDB) (q : AskedQuestion) : HostsMatch :=
  if q.qtype = typePTR then
    let names := db.ptrMap.get (lib.toLower q.name)
    { ips := []
      names := names
      found := { list := db.name, rule := names.headD [] }
      ok := (db.ptrMap.lookup (lib.toLower q.name)).isSome }
  else
    let name := hostKey lib q.name
    let ips := (db.filters.lookup name).getD { ip4 := [], ip6 := [] }
    { ips := if q.qtype = typeA then ips.ip4 else ips.ip6
      names := []
      found := { list := db.name, rule := name }
      ok := (db.filters.lookup name).isSome }

/-! ## Entries of the database -/

/-- An address of a family for a name; a missing one blocks. -/
structure HostEntry where
  key : Text
  isIP4 : Bool
  ip : Option IP
  deriving DecidableEq

/-- The addresses of a family for a name, in their order. -/
def addressesOf (entries : List HostEntry) (isIP4 : Bool) (key : Text) : List (Option IP) :=
  (entries.filter fun entry => entry.key = key ∧ entry.isIP4 = isIP4).map HostEntry.ip

theorem addressesOf_append (front back : List HostEntry) (isIP4 : Bool) (key : Text) :
    addressesOf (front ++ back) isIP4 key =
      addressesOf front isIP4 key ++ addressesOf back isIP4 key := by
  simp [addressesOf]

theorem addressesOf_flatMap (entriesOf : Text → List HostEntry) (lines : List Text) (isIP4 : Bool)
    (key : Text) :
    addressesOf (lines.flatMap entriesOf) isIP4 key =
      lines.flatMap fun line => addressesOf (entriesOf line) isIP4 key := by
  simp [addressesOf, List.filter_flatMap, List.map_flatMap]

theorem addressesOf_singleton (entry : HostEntry) (isIP4 : Bool) (key : Text) :
    addressesOf [entry] isIP4 key =
      if entry.key = key ∧ entry.isIP4 = isIP4 then [entry.ip] else [] := by
  unfold addressesOf
  split <;> simp [*]

/-- The addresses of a name in the database: one more than the limit. -/
def recordsOf (entries : List HostEntry) (key : Text) : IpRecords where
  ip4 := (addressesOf entries true key).take (maxHostsResponses + 1)
  ip6 := (addressesOf entries false key).take (maxHostsResponses + 1)

/-- The map holds the addresses of some entries. -/
def HoldsEntries (filters : FiniteMap Text IpRecords) (entries : List HostEntry) : Prop :=
  ∀ key, filters.lookup key =
    if entries.any fun entry => entry.key = key then some (recordsOf entries key) else none

/-- Appending up to a length is cutting off at it. -/
theorem take_concat_eq {α : Type} (list : List α) (limit : Nat) (entry : α) :
    (list ++ [entry]).take (limit + 1) =
      if (list.take (limit + 1)).length > limit then list.take (limit + 1)
      else list.take (limit + 1) ++ [entry] := by
  rw [List.length_take]
  split
  · rw [List.take_append_of_le_length (by omega)]
  · have short : (list ++ [entry]).length ≤ limit + 1 := by
      rw [List.length_append, List.length_singleton]
      omega
    rw [List.take_of_length_le short, List.take_of_length_le (by omega)]

section Entries

variable {filters : FiniteMap Text IpRecords} {entries : List HostEntry}

variable {key : Text} {isIP4 : Bool}

theorem addressesOf_eq_nil (absent : ¬ entries.any fun entry => entry.key = key) (isIP4 : Bool) :
    addressesOf entries isIP4 key = [] := by
  simp only [List.any_eq_true, decide_eq_true_eq, not_exists, not_and] at absent
  rw [addressesOf, List.map_eq_nil_iff, List.filter_eq_nil_iff]
  intro entry member
  simp [absent entry member]

section

variable (holds : HoldsEntries filters entries)
include holds

theorem HoldsEntries.getD (key : Text) :
    (filters.lookup key).getD { ip4 := [], ip6 := [] } = recordsOf entries key := by
  rw [holds key]
  split
  · rfl
  · rename_i absent
    rw [recordsOf, addressesOf_eq_nil absent, addressesOf_eq_nil absent]
    rfl

theorem HoldsEntries.eq_some (nonempty : addressesOf entries isIP4 key ≠ []) :
    filters.lookup key = some (recordsOf entries key) := by
  rw [holds key, if_pos]
  by_contra absent
  exact nonempty (addressesOf_eq_nil absent isIP4)

/-- Another entry changes what is held for its own name. -/
theorem HoldsEntries.concat {changed : FiniteMap Text IpRecords} {entry : HostEntry}
    (lookup : ∀ key, changed.lookup key =
      if key = entry.key then some (recordsOf (entries ++ [entry]) key) else filters.lookup key) :
    HoldsEntries changed (entries ++ [entry]) := by
  intro key
  rw [lookup key, List.any_append]
  by_cases own : key = entry.key
  · simp [own]
  · have other : entry.key ≠ key := Ne.symm own
    have same : recordsOf (entries ++ [entry]) key = recordsOf entries key := by
      simp [recordsOf, addressesOf_append, addressesOf_singleton, other]
    rw [if_neg own, same, holds key]
    simp [other]

end

theorem take_addressesOf_concat (key : Text) (isIP4 family : Bool) (ip : Option IP) (limit : Nat) :
    (addressesOf (entries ++ [{ key := key, isIP4 := isIP4, ip := ip }]) family key).take
        (limit + 1) =
      if isIP4 = family ∧ ¬ ((addressesOf entries family key).take (limit + 1)).length > limit then
        (addressesOf entries family key).take (limit + 1) ++ [ip]
      else (addressesOf entries family key).take (limit + 1) := by
  rw [addressesOf_append, addressesOf_singleton]
  by_cases same : isIP4 = family
  · rw [if_pos ⟨rfl, same⟩, take_concat_eq]
    by_cases full : ((addressesOf entries family key).take (limit + 1)).length > limit
    · rw [if_pos full, if_neg fun both => both.2 full]
    · rw [if_neg full, if_pos ⟨same, full⟩]
  · rw [if_neg fun both => same both.2, if_neg fun both => same both.1, List.append_nil]

/-- What is held for the name of another entry. -/
theorem recordsOf_concat (key : Text) (isIP4 : Bool) (ip : Option IP) :
    recordsOf (entries ++ [{ key := key, isIP4 := isIP4, ip := ip }]) key =
      let ips := recordsOf entries key
      if isIP4 then
        if ips.ip4.length > maxHostsResponses then ips else { ips with ip4 := ips.ip4 ++ [ip] }
      else
        if ips.ip6.length > maxHostsResponses then ips else
          { ips with ip6 := ips.ip6 ++ [ip] } := by
  unfold recordsOf
  rw [take_addressesOf_concat, take_addressesOf_concat]
  cases isIP4 <;> grind

/-- A name with more addresses than the limit is in the map. -/
theorem HoldsEntries.eq_some_of_full (holds : HoldsEntries filters entries) {limit : Nat}
    (full : ((addressesOf entries isIP4 key).take (maxHostsResponses + 1)).length > limit) :
    filters.lookup key = some (recordsOf entries key) := by
  apply holds.eq_some
  intro empty
  rw [empty] at full
  exact Nat.not_lt_zero _ full

/-- An entry that comes after the limit leaves the map as it is. -/
theorem lookup_kept {full : Prop} [Decidable full] {own : Text} {records : IpRecords}
    {after : Text → IpRecords} (kept : after own = if full then recordsOf entries own else records)
    (present : full → filters.lookup own = some (recordsOf entries own)) (key : Text) :
    (if full then filters else filters.insert own records).lookup key =
      if key = own then some (after key) else filters.lookup key := by
  by_cases same : key = own
  · rw [if_pos same, same, kept]
    split
    · exact present ‹full›
    · exact AList.lookup_insert filters
  · split
    · rfl
    · exact AList.lookup_insert_ne same

/-- A name keeps an address up to the limit. -/
theorem HoldsEntries.addName (lib : HostsLibrary) (holds : HoldsEntries filters entries)
    (isIP4 : Bool) (ip : Option IP) (name : Text) :
    HoldsEntries (HostsDB.addName lib isIP4 ip filters name)
      (entries ++ [{ key := hostKey lib name, isIP4 := isIP4, ip := ip }]) := by
  apply holds.concat
  have ips := holds.getD (hostKey lib name)
  have kept := @recordsOf_concat entries (hostKey lib name) isIP4 ip
  unfold HostsDB.addName
  rw [← hostKey]
  dsimp only at kept ⊢
  rw [ips]
  cases isIP4 with
  | true | false => exact lookup_kept kept holds.eq_some_of_full

end Entries

/-! ## Lines of the database -/

variable (lib : HostsLibrary)

/-- The first word and the names of a line that is not passed over. -/
def readLine (line : Text) : Option (Text × List Text) :=
  match lib.fields (lib.trimSpace line) with
  | [] => none
  | ipString :: names =>
    if ipString.head? = some (byteOf '#') ∨ names = [] then none else some (ipString, names)

/-- The entries that names get from an address, or from a word that is none. -/
def entriesFor (parsed : Option IP) (names : List Text) : List HostEntry :=
  names.map fun name =>
    { key := hostKey lib name
      isIP4 := (parsed.bind to4).isSome
      ip := parsed.filter fun ip => !isUnspecified ip }

/-- The entries a line adds to the database. -/
def readEntries (line : Text) : List HostEntry :=
  (readLine lib line).elim [] fun read => entriesFor lib (lib.parseIP read.1) read.2

/-- The names a line adds for a reverse name. -/
def readNames (reverse line : Text) : List Text :=
  (readLine lib line).elim [] fun read =>
    if lib.reverseAddr read.1 = some reverse then read.2 else []

/-- The map holds names by their reverse names; none is kept without a name. -/
def HoldsNames (ptrMap : FiniteMap Text (List Text)) (names : Text → List Text) : Prop :=
  ∀ reverse, ptrMap.lookup reverse = if names reverse = [] then none else some (names reverse)

/-- What a database holds after some lines. -/
structure HostsDB.Holds (db : HostsDB) (name : Text) (lines : List Text) : Prop where
  name_eq : db.name = name
  entries : HoldsEntries db.filters (lines.flatMap (readEntries lib))
  names : HoldsNames db.ptrMap fun reverse => lines.flatMap (readNames lib reverse)

variable {lib}

theorem HoldsEntries.addNames {filters : FiniteMap Text IpRecords} {entries : List HostEntry}
    (holds : HoldsEntries filters entries) (parsed : Option IP) (names : List Text) :
    HoldsEntries
      (names.foldl (HostsDB.addName lib (parsed.bind to4).isSome
        (parsed.filter fun ip => !isUnspecified ip)) filters)
      (entries ++ entriesFor lib parsed names) := by
  induction names generalizing filters entries with
  | nil => simpa [entriesFor] using holds
  | cons name rest ih =>
    have next := ih (holds.addName lib (parsed.bind to4).isSome
      (parsed.filter fun ip => !isUnspecified ip) name)
    rw [List.append_assoc] at next
    exact next

variable {names : List Text} {line : Text}

theorem HoldsNames.insert {ptrMap : FiniteMap Text (List Text)} {held : Text → List Text}
    (holds : HoldsNames ptrMap held) (own : Text) (nonempty : names ≠ []) :
    HoldsNames (ptrMap.insert own (ptrMap.get own ++ names)) fun reverse =>
      held reverse ++ if some own = some reverse then names else [] := by
  intro reverse
  have get_eq : ptrMap.get own = held own := by
    rw [FiniteMap.get, holds own]
    split <;> simp [*]
  rw [FiniteMap.lookup_insert_ite]
  by_cases same : reverse = own
  · subst same
    simp [get_eq, nonempty]
  · rw [if_neg same, holds reverse]
    simp [Ne.symm same]

theorem HostsDB.addLine_of_none (passed : readLine lib line = none) (db : HostsDB) :
    db.addLine lib line = db := by
  unfold readLine at passed
  unfold HostsDB.addLine
  cases fields : lib.fields (lib.trimSpace line) with
  | nil => rfl
  | cons ipString names =>
    rw [fields] at passed
    by_cases skipped : ipString.head? = some (byteOf '#') ∨ names = []
    · exact if_pos skipped
    · cases (if_neg skipped).symm.trans passed

theorem HostsDB.addLine_of_some {ipString : Text}
    (read : readLine lib line = some (ipString, names)) (db : HostsDB) :
    names ≠ [] ∧
      db.addLine lib line =
        { name := db.name
          filters := names.foldl (HostsDB.addName lib ((lib.parseIP ipString).bind to4).isSome
            ((lib.parseIP ipString).filter fun ip => !isUnspecified ip)) db.filters
          ptrMap := (lib.reverseAddr ipString).elim db.ptrMap fun reverse =>
            db.ptrMap.insert reverse (db.ptrMap.get reverse ++ names) } := by
  unfold readLine at read
  unfold HostsDB.addLine
  cases fields : lib.fields (lib.trimSpace line) with
  | nil =>
    rw [fields] at read
    cases read
  | cons first rest =>
    rw [fields] at read
    obtain ⟨kept, pair_eq⟩ := Option.ite_none_left_eq_some.mp read
    obtain ⟨rfl, rfl⟩ : first = ipString ∧ rest = names := by simpa using pair_eq
    refine ⟨fun empty => kept (.inr empty), ?_⟩
    dsimp only
    rw [if_neg kept]
    cases lib.reverseAddr first <;> rfl

/-- A line adds its entries and its names. -/
theorem HostsDB.Holds.addLine {db : HostsDB} {name : Text} {lines : List Text}
    (holds : db.Holds lib name lines) (line : Text) :
    (db.addLine lib line).Holds lib name (lines ++ [line]) := by
  have entries_eq : (lines ++ [line]).flatMap (readEntries lib) =
      lines.flatMap (readEntries lib) ++ readEntries lib line := by simp
  have names_eq : (fun reverse => (lines ++ [line]).flatMap (readNames lib reverse)) =
      fun reverse => lines.flatMap (readNames lib reverse) ++ readNames lib reverse line := by
    simp
  cases read : readLine lib line with
  | none =>
    rw [HostsDB.addLine_of_none read]
    refine ⟨holds.name_eq, ?_, ?_⟩
    · simpa [entries_eq, readEntries, read] using holds.entries
    · simpa [names_eq, readNames, read] using holds.names
  | some pair =>
    obtain ⟨ipString, names⟩ := pair
    obtain ⟨nonempty, added⟩ := HostsDB.addLine_of_some read db
    rw [added]
    refine ⟨holds.name_eq, ?_, ?_⟩
    · rw [entries_eq, readEntries, read]
      exact holds.entries.addNames (lib.parseIP ipString) names
    · simp only [names_eq, readNames, read, Option.elim_some]
      cases reverse : lib.reverseAddr ipString with
      | none => simpa using holds.names
      | some own => exact holds.names.insert own nonempty

theorem HostsDB.Holds.addLines {db : HostsDB} {name : Text} {lines : List Text}
    (holds : db.Holds lib name lines) (more : List Text) :
    (more.foldl (fun db line => db.addLine lib line) db).Holds lib name (lines ++ more) := by
  induction more generalizing db lines with
  | nil => simpa using holds
  | cons line rest ih =>
    have next := ih (holds.addLine line)
    rw [List.append_assoc] at next
    exact next

/-- A list is always loaded, and the database holds what its last attempt has. -/
theorem newHostsDB_holds (name : Text) (events : List LoadEvent) :
    ∃ db, newHostsDB lib name events = .ok db ∧ db.Holds lib name (lastAttempt events) := by
  have start : ({ name := name, filters := ∅, ptrMap := ∅ } : HostsDB).Holds lib name [] :=
    ⟨rfl, fun _ => rfl, fun _ => rfl⟩
  refine ⟨_, ?_, start.addLines (lastAttempt events)⟩
  rw [newHostsDB, load_eq]
  exact List.foldlM_pure

/-! ## Queries to the database -/

section Queries

variable {db : HostsDB} {name : Text} {lines : List Text} {q : AskedQuestion}

variable (holds : db.Holds lib name lines)
include holds

theorem HostsDB.Holds.match_ok_iff (forward : q.qtype ≠ typePTR) :
    (db.match_ lib q).ok = true ↔
      ∃ entry ∈ lines.flatMap (readEntries lib), entry.key = hostKey lib q.name := by
  rw [HostsDB.match_, if_neg forward]
  dsimp only
  rw [holds.entries, Option.isSome_ite]
  simp only [List.any_eq_true, decide_eq_true_eq]

/-- A query gets the addresses of its own family. -/
theorem HostsDB.Holds.match_ips (forward : q.qtype ≠ typePTR) :
    (db.match_ lib q).ips =
      (addressesOf (lines.flatMap (readEntries lib)) (q.qtype = typeA) (hostKey lib q.name)).take
        (maxHostsResponses + 1) := by
  rw [HostsDB.match_, if_neg forward]
  dsimp only
  rw [holds.entries.getD, recordsOf]
  split <;> simp [*]

theorem HostsDB.Holds.match_names (asked : q.qtype = typePTR) :
    (db.match_ lib q).names = lines.flatMap (readNames lib (lib.toLower q.name)) ∧
      ((db.match_ lib q).ok = true ↔ lines.flatMap (readNames lib (lib.toLower q.name)) ≠ []) := by
  rw [HostsDB.match_, if_pos asked]
  rw [FiniteMap.get, holds.names]
  split <;> simp [*]

end Queries

end RouteDns.Blocklist
