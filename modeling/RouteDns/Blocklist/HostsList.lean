import Mathlib.Algebra.Order.BigOperators.Group.List
import Mathlib.Algebra.Order.Group.Nat
import RouteDns.Blocklist.DomainMatch
import RouteDns.Blocklist.HostsMatch

/-!
# The meaning of a hosts file

What a hosts file says, line by line: the names in front of the first number sign have the address
in front of them.

The database differs from the list in three ways.  The words of a comment behind the names are
names to it.  Names behind a word that is no address are blocked.  And the limit on the addresses
of a name lets one more pass.  So a database agrees with the list in all queries exactly if its
lines have nothing but an address and names, or are comments as a whole, and no name has more than
ten addresses of a family.
-/

namespace RouteDns.Blocklist

open Dns Cidr

/-! ## Comments -/

/-- The character that starts a comment. -/
def hash : Byte := byteOf '#'

/-- A text up to its comment. -/
def uncommented (line : Text) : Text :=
  line.takeWhile fun byte => byte ≠ hash

/-- The fields of a line up to its comment, which may start inside a field. -/
def uncommentedFields : List Text → List Text
  | [] => []
  | field :: rest =>
    if hash ∈ field then
      if uncommented field = [] then [] else [uncommented field]
    else
      field :: uncommentedFields rest

theorem not_mem_uncommented (line : Text) : hash ∉ uncommented line := by
  intro member
  simpa using List.mem_takeWhile_imp member

theorem not_mem_uncommentedFields {fields : List Text} {field : Text}
    (member : field ∈ uncommentedFields fields) : hash ∉ field := by
  induction fields with
  | nil => cases member
  | cons first rest ih =>
    rw [uncommentedFields] at member
    split at member
    · split at member
      · cases member
      · rw [List.mem_singleton.mp member]
        exact not_mem_uncommented first
    · rcases List.mem_cons.mp member with rfl | later
      · assumption
      · exact ih later

theorem uncommentedFields_eq_self {fields : List Text} (plain : ∀ field ∈ fields, hash ∉ field) :
    uncommentedFields fields = fields := by
  induction fields with
  | nil => rfl
  | cons first rest ih =>
    rw [uncommentedFields, if_neg (plain first List.mem_cons_self),
      ih fun field member => plain field (List.mem_cons_of_mem first member)]

/-- What the functions on hosts files do with number signs and reverse names: a number sign is no
white space, no part of an address and no letter; the reverse names of two texts are the same if
these are the same address, and are in lower case. -/
structure HostsLaws (lib : HostsLibrary) : Prop where
  fields_trimSpace : ∀ line, lib.fields (lib.trimSpace line) = lib.fields line
  fields_uncommented : ∀ line, lib.fields (uncommented line) = uncommentedFields (lib.fields line)
  parseIP_hash : ∀ field, hash ∈ field → lib.parseIP field = none
  mem_toLower : ∀ name, hash ∈ lib.toLower name ↔ hash ∈ name
  reverseAddr_iff : ∀ field ip, lib.parseIP field = some ip →
    ∃ reverse, lib.reverseAddr field = some reverse ∧ lib.toLower reverse = reverse ∧
      ∀ other, lib.reverseAddr other = some reverse ↔ lib.parseIP other = some ip

/-! ## What a list says -/

variable (lib : HostsLibrary)

/-- The address and the names on a line. -/
def listedOn (line : Text) : Option (IP × List Text) :=
  match lib.fields (uncommented line) with
  | [] => none
  | address :: names => (lib.parseIP address).map fun ip => (ip, names)

/-- The addresses a line gives to names. -/
def listedEntries (line : Text) : List HostEntry :=
  (listedOn lib line).elim [] fun listed => entriesFor lib (some listed.1) listed.2

/-- The names a line gives to an address. -/
def listedNames (ip : IP) (line : Text) : List Text :=
  (listedOn lib line).elim [] fun listed => if listed.1 = ip then listed.2 else []

/-- The result of a query is what the list says: a match if it has the name; at most ten of the
addresses it gives to the name; and for a reverse query the names it gives to the address. -/
structure AsListed (lines : List Text) (q : AskedQuestion) (result : HostsMatch) : Prop where
  matched : q.qtype ≠ typePTR →
    (result.ok = true ↔
      ∃ entry ∈ lines.flatMap (listedEntries lib), entry.key = hostKey lib q.name)
  ip4 : q.qtype = typeA → result.ips =
    (addressesOf (lines.flatMap (listedEntries lib)) true (hostKey lib q.name)).take 10
  ip6 : q.qtype = typeAAAA → result.ips =
    (addressesOf (lines.flatMap (listedEntries lib)) false (hostKey lib q.name)).take 10
  names : q.qtype = typePTR → ∀ address ip reverse, lib.parseIP address = some ip →
    lib.reverseAddr address = some reverse → lib.toLower q.name = lib.toLower reverse →
      result.names = lines.flatMap (listedNames lib ip) ∧
        (result.ok = true ↔ lines.flatMap (listedNames lib ip) ≠ [])

/-- Lines that do not start with a number sign and have names start with an address and have no
number sign, and no name has more than ten addresses of a family. -/
structure Proper (lines : List Text) : Prop where
  plain : ∀ line ∈ lines, ∀ address names, lib.fields line = address :: names →
    address.head? ≠ some hash → names ≠ [] →
      (lib.parseIP address).isSome = true ∧ ∀ name ∈ names, hash ∉ name
  few : ∀ name isIP4,
    (addressesOf (lines.flatMap (listedEntries lib)) isIP4 (hostKey lib name)).length ≤ 10

variable {lib}

/-! ## Lines as read and as listed -/

variable {line : Text}

theorem listed_eq_nil (nameless : ∀ listed, listedOn lib line = some listed → listed.2 = []) :
    listedEntries lib line = [] ∧ ∀ ip, listedNames lib ip line = [] := by
  unfold listedEntries listedNames
  cases found : listedOn lib line with
  | none => exact ⟨rfl, fun _ => rfl⟩
  | some listed =>
    simp only [Option.elim_some, nameless listed found, ite_self]
    exact ⟨rfl, fun _ => trivial⟩

section Lines

variable (laws : HostsLaws lib) {line address : Text} {names : List Text}

include laws

theorem readLine_eq_some_iff :
    readLine lib line = some (address, names) ↔
      lib.fields line = address :: names ∧ address.head? ≠ some hash ∧ names ≠ [] := by
  rw [readLine, laws.fields_trimSpace]
  cases fields : lib.fields line with
  | nil => simp
  | cons first rest =>
    simp only [List.cons.injEq, Option.ite_none_left_eq_some, not_or, Option.some.injEq,
      Prod.mk.injEq, ne_eq]
    constructor
    · rintro ⟨kept, rfl, rfl⟩
      exact ⟨⟨rfl, rfl⟩, kept⟩
    · rintro ⟨⟨rfl, rfl⟩, kept⟩
      exact ⟨kept, rfl, rfl⟩

theorem listedOn_eq :
    listedOn lib line =
      match uncommentedFields (lib.fields line) with
      | [] => none
      | address :: names => (lib.parseIP address).map fun ip => (ip, names) := by
  rw [listedOn, laws.fields_uncommented]

theorem listedOn_of_address {ip : IP} (read : readLine lib line = some (address, names))
    (parsed : lib.parseIP address = some ip) (named : ∀ name ∈ names, hash ∉ name) :
    listedOn lib line = some (ip, names) := by
  obtain ⟨fields, -, -⟩ := (readLine_eq_some_iff laws).mp read
  have plain : hash ∉ address := by
    intro member
    rw [laws.parseIP_hash address member] at parsed
    cases parsed
  rw [listedOn_eq laws, fields, uncommentedFields, if_neg plain, uncommentedFields_eq_self named]
  simp [parsed]

/-- A line without an address or without a name lists nothing. -/
theorem listed_of_bare (fields : lib.fields line = address :: names)
    (bare : lib.parseIP address = none ∨ names = []) :
    listedEntries lib line = [] ∧ ∀ ip, listedNames lib ip line = [] := by
  apply listed_eq_nil
  intro listed found
  rw [listedOn_eq laws, fields, uncommentedFields] at found
  by_cases comment : hash ∈ address
  · rw [if_pos comment] at found
    by_cases empty : uncommented address = []
    · rw [if_pos empty] at found
      cases found
    · rw [if_neg empty] at found
      obtain ⟨ip, -, rfl⟩ := Option.map_eq_some_iff.mp found
      rfl
  · rw [if_neg comment] at found
    obtain ⟨ip, parsed, rfl⟩ := Option.map_eq_some_iff.mp found
    rcases bare with none_eq | rfl
    · rw [none_eq] at parsed
      cases parsed
    · rfl

/-- What the database passes over lists nothing. -/
theorem listed_of_passed (passed : readLine lib line = none) :
    listedEntries lib line = [] ∧ ∀ ip, listedNames lib ip line = [] := by
  cases fields : lib.fields line with
  | nil =>
    apply listed_eq_nil
    intro listed found
    rw [listedOn_eq laws, fields] at found
    cases found
  | cons address names =>
    apply listed_of_bare laws fields
    by_contra! kept
    have plain : address.head? ≠ some hash := by
      intro first
      exact kept.1 (laws.parseIP_hash address (List.mem_of_head? first))
    rw [(readLine_eq_some_iff laws).mpr ⟨fields, plain, kept.2⟩] at passed
    cases passed

theorem readEntries_eq_of_address {ip : IP} (read : readLine lib line = some (address, names))
    (parsed : lib.parseIP address = some ip) (plain : ∀ name ∈ names, hash ∉ name) :
    readEntries lib line = listedEntries lib line := by
  rw [listedEntries, listedOn_of_address laws read parsed plain, readEntries, read]
  simp only [Option.elim_some, parsed]

/-- A line adds the names of an address under its reverse name. -/
theorem readNames_eq_of_address {asked reverse : Text} {ip own : IP}
    (known : lib.parseIP asked = some ip) (reversed : lib.reverseAddr asked = some reverse)
    (read : readLine lib line = some (address, names)) (parsed : lib.parseIP address = some own)
    (plain : ∀ name ∈ names, hash ∉ name) :
    readNames lib reverse line = listedNames lib ip line := by
  obtain ⟨_, same, -, reverse_iff⟩ := laws.reverseAddr_iff asked ip known
  obtain rfl := Option.some.inj (reversed.symm.trans same)
  rw [listedNames, listedOn_of_address laws read parsed plain, readNames, read]
  simp only [Option.elim_some, reverse_iff, parsed, Option.some.injEq]

theorem mem_hostKey_iff {name : Text} : hash ∈ hostKey lib name ↔ hash ∈ name := by
  rw [hostKey, laws.mem_toLower, trimDot]
  split
  · rename_i last
    obtain ⟨front, rfl⟩ := List.getLast?_eq_some_iff.mp last
    have other : hash ≠ dot := by decide
    simp [other]
  · rfl

/-- No listed name has a number sign. -/
theorem not_mem_key_of_listed {entry : HostEntry} (member : entry ∈ listedEntries lib line) :
    hash ∉ entry.key := by
  rw [listedEntries, listedOn_eq laws] at member
  cases fields : uncommentedFields (lib.fields line) with
  | nil =>
    rw [fields] at member
    cases member
  | cons address names =>
    have plain : ∀ name ∈ names, hash ∉ name := by
      intro name listed
      have member : name ∈ uncommentedFields (lib.fields line) :=
        fields ▸ List.mem_cons_of_mem address listed
      exact not_mem_uncommentedFields member
    rw [fields] at member
    cases parsed : lib.parseIP address with
    | none =>
      simp [parsed] at member
    | some ip =>
      simp only [parsed, Option.map_some, Option.elim_some, entriesFor, List.mem_map] at member
      obtain ⟨name, listed, rfl⟩ := member
      rw [mem_hostKey_iff laws]
      exact plain name listed

end Lines

/-! ## Databases as listed -/

section Databases

variable (laws : HostsLaws lib) {db : HostsDB} {name : Text} {lines : List Text}

include laws

theorem Proper.readEntries_eq (proper : Proper lib lines) (member : line ∈ lines) :
    readEntries lib line = listedEntries lib line := by
  cases read : readLine lib line with
  | none => rw [(listed_of_passed laws read).1, readEntries, read, Option.elim_none]
  | some pair =>
    obtain ⟨fields, kept, named⟩ := (readLine_eq_some_iff laws).mp read
    obtain ⟨parsed, plain⟩ := proper.plain line member pair.1 pair.2 fields kept named
    exact readEntries_eq_of_address laws read (Option.some_get parsed).symm plain

theorem Proper.readNames_eq (proper : Proper lib lines) {asked reverse : Text} {ip : IP}
    (known : lib.parseIP asked = some ip) (reversed : lib.reverseAddr asked = some reverse)
    (member : line ∈ lines) :
    readNames lib reverse line = listedNames lib ip line := by
  cases read : readLine lib line with
  | none => rw [(listed_of_passed laws read).2, readNames, read, Option.elim_none]
  | some pair =>
    obtain ⟨fields, kept, named⟩ := (readLine_eq_some_iff laws).mp read
    obtain ⟨parsed, plain⟩ := proper.plain line member pair.1 pair.2 fields kept named
    exact readNames_eq_of_address laws known reversed read (Option.some_get parsed).symm plain

/-- A database of a proper list answers every query as listed. -/
theorem Proper.asListed (proper : Proper lib lines) (holds : db.Holds lib name lines)
    (q : AskedQuestion) : AsListed lib lines q (db.match_ lib q) := by
  have entries_eq : lines.flatMap (readEntries lib) = lines.flatMap (listedEntries lib) :=
    List.flatMap_congr fun _ => proper.readEntries_eq laws
  have few : ∀ isIP4,
      (addressesOf (lines.flatMap (listedEntries lib)) isIP4 (hostKey lib q.name)).take
        (maxHostsResponses + 1) =
      (addressesOf (lines.flatMap (listedEntries lib)) isIP4 (hostKey lib q.name)).take 10 := by
    intro isIP4
    have short := proper.few q.name isIP4
    exact (List.take_of_length_le (Nat.le_succ_of_le short)).trans
      (List.take_of_length_le short).symm
  constructor
  case matched =>
    intro forward
    rw [holds.match_ok_iff forward, entries_eq]
  case ip4 =>
    intro asked
    rw [holds.match_ips (asked ▸ by decide), entries_eq, few, asked]
    rfl
  case ip6 =>
    intro asked
    rw [holds.match_ips (asked ▸ by decide), entries_eq, few, asked]
    rfl
  case names =>
    intro asked address ip reverse known reversed spelled
    obtain ⟨_, same, lower, -⟩ := laws.reverseAddr_iff address ip known
    obtain rfl := Option.some.inj (reversed.symm.trans same)
    have names_eq : lines.flatMap (readNames lib reverse) = lines.flatMap (listedNames lib ip) :=
      List.flatMap_congr fun _ => proper.readNames_eq laws known reversed
    have found := holds.match_names asked
    rwa [spelled, lower, names_eq] at found

variable {names : List Text}

/-- A database that answers as listed has no name out of a comment. -/
theorem plain_of_asListed (holds : db.Holds lib name lines)
    (asListed : ∀ q, AsListed lib lines q (db.match_ lib q)) {line address : Text}
    (member : line ∈ lines) (read : readLine lib line = some (address, names)) :
    ∀ name ∈ names, hash ∉ name := by
  intro own named comment
  let q : AskedQuestion := { name := own, qtype := typeA, qclass := 1 }
  have forward : typeA ≠ typePTR := by decide
  have added : { key := hostKey lib own
                 isIP4 := ((lib.parseIP address).bind to4).isSome
                 ip := (lib.parseIP address).filter fun ip => !isUnspecified ip } ∈
      readEntries lib line := by
    rw [readEntries, read]
    exact List.mem_map.mpr ⟨own, named, rfl⟩
  have matched : (db.match_ lib q).ok = true :=
    (holds.match_ok_iff forward).mpr ⟨_, List.mem_flatMap.mpr ⟨line, member, added⟩, rfl⟩
  obtain ⟨entry, listed, same⟩ := ((asListed q).matched forward).mp matched
  obtain ⟨_, -, listed⟩ := List.mem_flatMap.mp listed
  apply not_mem_key_of_listed laws listed
  rw [same]
  exact (mem_hostKey_iff laws).mpr comment

/-- With no name out of a comment the list gives no more than the database has. -/
theorem length_listed_le
    (plain : ∀ address names, readLine lib line = some (address, names) →
      ∀ name ∈ names, hash ∉ name) (isIP4 : Bool) (key : Text) :
    (addressesOf (listedEntries lib line) isIP4 key).length ≤
      (addressesOf (readEntries lib line) isIP4 key).length := by
  cases read : readLine lib line with
  | none =>
    rw [(listed_of_passed laws read).1]
    exact Nat.zero_le _
  | some pair =>
    cases parsed : lib.parseIP pair.1 with
    | none =>
      obtain ⟨fields, -, -⟩ := (readLine_eq_some_iff laws).mp read
      rw [(listed_of_bare laws fields (.inl parsed)).1]
      exact Nat.zero_le _
    | some ip => rw [readEntries_eq_of_address laws read parsed (plain pair.1 pair.2 read)]

/-- Names behind a word that is no address are in the database only, as ones to block. -/
theorem length_listed_lt {line address own : Text}
    (read : readLine lib line = some (address, names)) (parsed : lib.parseIP address = none)
    (named : own ∈ names) :
    (addressesOf (listedEntries lib line) false (hostKey lib own)).length <
      (addressesOf (readEntries lib line) false (hostKey lib own)).length := by
  obtain ⟨fields, -, -⟩ := (readLine_eq_some_iff laws).mp read
  rw [(listed_of_bare laws fields (.inl parsed)).1, readEntries, read]
  apply List.length_pos_of_mem (a := none)
  refine List.mem_map.mpr ⟨{ key := hostKey lib own, isIP4 := false, ip := none }, ?_, rfl⟩
  refine List.mem_filter.mpr ⟨List.mem_map.mpr ⟨own, named, ?_⟩, by simp⟩
  simp [parsed]

omit laws in
/-- A database that answers as listed has as many addresses as it returns of the list. -/
theorem length_of_asListed (holds : db.Holds lib name lines)
    (asListed : ∀ q, AsListed lib lines q (db.match_ lib q)) (isIP4 : Bool) (own : Text) :
    min 11 (addressesOf (lines.flatMap (readEntries lib)) isIP4 (hostKey lib own)).length =
      min 10 (addressesOf (lines.flatMap (listedEntries lib)) isIP4 (hostKey lib own)).length := by
  rw [← List.length_take, ← List.length_take]
  apply congrArg
  cases isIP4 with
  | true =>
    let q : AskedQuestion := { name := own, qtype := typeA, qclass := 1 }
    have forward : typeA ≠ typePTR := by decide
    exact (holds.match_ips (q := q) forward).symm.trans ((asListed q).ip4 rfl)
  | false =>
    let q : AskedQuestion := { name := own, qtype := typeAAAA, qclass := 1 }
    have forward : typeAAAA ≠ typePTR := by decide
    exact (holds.match_ips (q := q) forward).symm.trans ((asListed q).ip6 rfl)

section

variable (plain : ∀ line ∈ lines, ∀ address names, readLine lib line = some (address, names) →
  ∀ name ∈ names, hash ∉ name)
include plain

theorem length_flatMap_listed_le (isIP4 : Bool) (key : Text) :
    (addressesOf (lines.flatMap (listedEntries lib)) isIP4 key).length ≤
      (addressesOf (lines.flatMap (readEntries lib)) isIP4 key).length := by
  rw [addressesOf_flatMap, addressesOf_flatMap, List.length_flatMap, List.length_flatMap]
  apply List.sum_le_sum
  intro line member
  exact length_listed_le laws (plain line member) isIP4 key

theorem length_flatMap_listed_lt {line address own : Text} (member : line ∈ lines)
    (read : readLine lib line = some (address, names)) (parsed : lib.parseIP address = none)
    (named : own ∈ names) :
    (addressesOf (lines.flatMap (listedEntries lib)) false (hostKey lib own)).length <
      (addressesOf (lines.flatMap (readEntries lib)) false (hostKey lib own)).length := by
  rw [addressesOf_flatMap, addressesOf_flatMap, List.length_flatMap, List.length_flatMap]
  apply List.sum_lt_sum
  · intro line member
    exact length_listed_le laws (plain line member) false (hostKey lib own)
  · exact ⟨line, member, length_listed_lt laws read parsed named⟩

end

theorem proper_of_asListed (holds : db.Holds lib name lines)
    (asListed : ∀ q, AsListed lib lines q (db.match_ lib q)) : Proper lib lines := by
  have plain : ∀ line ∈ lines, ∀ address names, readLine lib line = some (address, names) →
      ∀ name ∈ names, hash ∉ name := fun line member address names read =>
    plain_of_asListed laws holds asListed member read
  constructor
  case plain =>
    intro line member address names fields kept named
    have read := (readLine_eq_some_iff laws).mpr ⟨fields, kept, named⟩
    refine ⟨?_, plain line member address names read⟩
    rw [Option.isSome_iff_ne_none]
    intro parsed
    obtain ⟨own, first⟩ := List.exists_mem_of_ne_nil names named
    have less := length_flatMap_listed_lt laws plain member read parsed first
    have same := length_of_asListed holds asListed false own
    omega
  case few =>
    intro own isIP4
    have most := length_flatMap_listed_le laws plain isIP4 (hostKey lib own)
    have same := length_of_asListed holds asListed isIP4 own
    omega

end Databases

/-- A hosts file is always loaded, and its database answers every query as listed exactly if the
file is proper. -/
theorem hosts_asListed_iff (lib : HostsLibrary) (laws : HostsLaws lib) (name : Text)
    (events : List LoadEvent) :
    ∃ db, newHostsDB lib name events = .ok db ∧
      ((∀ q, AsListed lib (lastAttempt events) q (db.match_ lib q)) ↔
        Proper lib (lastAttempt events)) := by
  obtain ⟨db, loaded, holds⟩ := @newHostsDB_holds lib name events
  refine ⟨db, loaded, ?_⟩
  constructor
  · exact proper_of_asListed laws holds
  · intro proper q
    exact proper.asListed laws holds q

/-! ## ASCII files of one address -/

/-- The words between white space. -/
def asciiFields (line : Text) : List Text :=
  (line.splitOnP isBlank).filter fun field => field ≠ []

/-- The functions on hosts files as far as ASCII goes, with one address that can be read. -/
def asciiHosts : HostsLibrary :=
  { asciiStrings with
    fields := asciiFields
    parseIP := fun field =>
      if field = text "192.0.2.1" then some (v4InV6Prefix ++ [192, 0, 2, 1]) else none
    reverseAddr := fun field =>
      if field = text "192.0.2.1" then some (text "1.2.0.192.in-addr.arpa.") else none }

theorem asciiFields_dropWhile (line : Text) :
    asciiFields (line.dropWhile isBlank) = asciiFields line := by
  induction line with
  | nil => rfl
  | cons first rest ih =>
    rw [List.dropWhile_cons]
    split
    · rename_i blank
      rw [ih, asciiFields, asciiFields, List.splitOnP_cons_eq_if_modifyHead, if_pos blank]
      rfl
    · rfl

theorem asciiFields_rdropWhile (line : Text) :
    asciiFields (line.rdropWhile isBlank) = asciiFields line := by
  induction line using List.reverseRecOn with
  | nil => rfl
  | append_singleton front last ih =>
    rw [List.rdropWhile_concat]
    split
    · rename_i blank
      rw [ih, asciiFields, asciiFields, List.splitOnP_append_cons front [] blank,
        List.filter_append]
      exact (List.append_nil _).symm
    · rfl

/-- The parts of a line up to its comment, empty ones included. -/
def uncommentedParts : List Text → List Text
  | [] => []
  | part :: rest =>
    if hash ∈ part then [uncommented part] else part :: uncommentedParts rest

theorem splitOnP_uncommented (line : Text) :
    (uncommented line).splitOnP isBlank = uncommentedParts (line.splitOnP isBlank) := by
  induction line with
  | nil => rfl
  | cons first rest ih =>
    obtain ⟨part, parts, split_eq⟩ := List.exists_cons_of_ne_nil (List.splitOnP_ne_nil isBlank rest)
    rw [split_eq] at ih
    rw [uncommented, List.takeWhile_cons, List.splitOnP_cons_eq_if_modifyHead, split_eq]
    by_cases comment : first = hash
    · subst comment
      have solid : isBlank hash = false := by decide
      simp [solid, uncommentedParts, uncommented]
    · rw [uncommented] at ih
      simp only [comment, ne_eq, not_false_eq_true, decide_true, if_true,
        List.splitOnP_cons_eq_if_modifyHead, ih]
      cases blank : isBlank first with
      | true => simp [uncommentedParts]
      | false =>
        by_cases later : hash ∈ part
        · simp [uncommentedParts, later, uncommented, comment]
        · simp [uncommentedParts, later, Ne.symm comment]

theorem filter_uncommentedParts (parts : List Text) :
    (uncommentedParts parts).filter (fun field => field ≠ []) =
      uncommentedFields (parts.filter fun field => field ≠ []) := by
  induction parts with
  | nil => rfl
  | cons part rest ih =>
    by_cases empty : part = []
    · subst empty
      simpa [uncommentedParts] using ih
    · rw [uncommentedParts, List.filter_cons_of_pos (by simpa using empty), uncommentedFields]
      by_cases comment : hash ∈ part
      · rw [if_pos comment, if_pos comment]
        by_cases bare : uncommented part = [] <;> simp [bare]
      · rw [if_neg comment, if_neg comment, List.filter_cons_of_pos (by simpa using empty), ih]

theorem lowerByte_eq_hash_iff (byte : Byte) : lowerByte byte = hash ↔ byte = hash :=
  lowerByte_eq_iff byte (by decide) (by decide)

theorem asciiHosts_laws : HostsLaws asciiHosts := by
  constructor
  case fields_trimSpace =>
    intro line
    exact (asciiFields_rdropWhile _).trans (asciiFields_dropWhile line)
  case fields_uncommented =>
    intro line
    change asciiFields (uncommented line) = uncommentedFields (asciiFields line)
    rw [asciiFields, splitOnP_uncommented, filter_uncommentedParts, asciiFields]
  case parseIP_hash =>
    intro field comment
    apply if_neg
    rintro rfl
    exact absurd comment (by decide)
  case mem_toLower =>
    intro name
    change hash ∈ name.map lowerByte ↔ hash ∈ name
    simp [List.mem_map, lowerByte_eq_hash_iff]
  case reverseAddr_iff =>
    intro field ip known
    obtain ⟨rfl, rfl⟩ : field = text "192.0.2.1" ∧ v4InV6Prefix ++ [192, 0, 2, 1] = ip :=
      Option.ite_none_right_eq_some.mp known |>.imp id Option.some.inj
    refine ⟨text "1.2.0.192.in-addr.arpa.", rfl, by decide, ?_⟩
    intro other
    simp [asciiHosts]

/-- A line with a comment as a whole, and one that gives an address to two names. -/
def sampleHosts : List LoadEvent :=
  [.rule (text "# hosts"), .rule (text "192.0.2.1 Host.example. alias.example")]

theorem sampleHosts_proper : Proper asciiHosts (lastAttempt sampleHosts) := by
  have first : asciiHosts.fields (text "# hosts") = [text "#", text "hosts"] := by decide +kernel
  have second : asciiHosts.fields (text "192.0.2.1 Host.example. alias.example") =
      [text "192.0.2.1", text "Host.example.", text "alias.example"] := by decide +kernel
  constructor
  case plain =>
    intro line member address names fields kept named
    rcases List.mem_pair.mp member with rfl | rfl
    · obtain ⟨rfl, rfl⟩ := List.cons.inj (first.symm.trans fields)
      exact absurd rfl kept
    · obtain ⟨rfl, rfl⟩ := List.cons.inj (second.symm.trans fields)
      exact ⟨rfl, by decide⟩
  case few =>
    intro name isIP4
    have entries : ((lastAttempt sampleHosts).flatMap (listedEntries asciiHosts)).length = 2 := by
      decide +kernel
    rw [addressesOf, List.length_map]
    exact (List.length_filter_le _ _).trans (by rw [entries]; decide)

/-- The database of the sample answers every query as listed. -/
theorem sampleHosts_asListed :
    ∃ db, newHostsDB asciiHosts [] sampleHosts = .ok db ∧
      ∀ q, AsListed asciiHosts (lastAttempt sampleHosts) q (db.match_ asciiHosts q) := by
  obtain ⟨db, loaded, asListed_iff⟩ := hosts_asListed_iff asciiHosts asciiHosts_laws [] sampleHosts
  exact ⟨db, loaded, asListed_iff.mpr sampleHosts_proper⟩

/-- A name with a comment behind it. -/
def commentedHosts : List LoadEvent :=
  [.rule (text "192.0.2.1 host.example # not other.example")]

/-- The words of a comment behind the names match. -/
theorem comment_matched :
    ∃ db q, newHostsDB asciiHosts [] commentedHosts = .ok db ∧
      ¬ AsListed asciiHosts (lastAttempt commentedHosts) q (db.match_ asciiHosts q) := by
  let q : AskedQuestion := { name := text "other.example.", qtype := typeA, qclass := 1 }
  refine ⟨_, q, rfl, ?_⟩
  intro asListed
  have unlisted : ¬ ∃ entry ∈ (lastAttempt commentedHosts).flatMap (listedEntries asciiHosts),
      entry.key = hostKey asciiHosts q.name := by decide +kernel
  have forward : typeA ≠ typePTR := by decide
  exact unlisted ((asListed.matched forward).mp (by decide +kernel))

end RouteDns.Blocklist
