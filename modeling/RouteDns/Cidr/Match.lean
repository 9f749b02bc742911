import RouteDns.Cidr.Db

/-!
# What a list of networks matches

The tries of a database hold the paths of the listed networks, so a match is decided by the
listed networks alone.  It agrees with what the networks contain unless one is written as an
IPv6 network with an IPv4-mapped address: such a network goes into the trie for IPv4 with a
path that starts with the zeros of its IPv6 address.
-/

namespace RouteDns.Cidr

open Dns Blocklist

variable {net : NetLibrary}

/-! ## The tries of a loaded database -/

/-- The network on a line, if the line is accepted and has one. -/
def networkOn (net : NetLibrary) (line : Text) : Option ParsedCIDR :=
  (parseLine net line).toOption.join

variable {cidr : ParsedCIDR}

variable {line : Text} {path key : List Bool} {changed : CidrDB} {number : IP} {ones : Nat}

theorem parseLine_of_networkOn (network : networkOn net line = some cidr) :
    parseLine net line = .ok (some cidr) := by
  unfold networkOn at network
  cases parsed : parseLine net line with
  | error message => simp [parsed, Except.toOption] at network
  | ok found => simpa [parsed, Except.toOption] using network

/-- The networks listed on some lines. -/
def listed (net : NetLibrary) (lines : List Text) : List ParsedCIDR :=
  lines.filterMap (networkOn net)

/-- The trie of an address family. -/
def CidrDB.trie (db : CidrDB) (four : Bool) : PrefixTrie :=
  if four then db.ip4 else db.ip6

/-- The paths of the networks in the trie of an address family. -/
def familyPaths (four : Bool) (cidrs : List ParsedCIDR) : Set (List Bool) :=
  { path | ∃ cidr ∈ cidrs, (to4 cidr.ip).isSome = four ∧ cidr.path = path }

/-- A database holds some networks. -/
structure CidrDB.Lists (db : CidrDB) (name : Text) (cidrs : List ParsedCIDR) : Prop where
  name_eq : db.name = name
  holds : ∀ four, (db.trie four).Holds (familyPaths four cidrs)

variable {cidrs : List ParsedCIDR}

theorem mem_familyPaths_concat {four : Bool} :
    path ∈ familyPaths four (cidrs ++ [cidr]) ↔
      path ∈ familyPaths four cidrs ∨ (to4 cidr.ip).isSome = four ∧ cidr.path = path := by
  simp [familyPaths, or_and_right, exists_or]

/-- The database with another trie for an address family. -/
def CidrDB.withTrie (db : CidrDB) (four : Bool) (trie : PrefixTrie) : CidrDB :=
  if four then { db with ip4 := trie } else { db with ip6 := trie }

theorem CidrDB.trie_withTrie (db : CidrDB) (four other : Bool) (trie : PrefixTrie) :
    (db.withTrie four trie).trie other = if other = four then trie else db.trie other := by
  cases four <;> cases other <;> rfl

theorem CidrDB.name_withTrie (db : CidrDB) (four : Bool) (trie : PrefixTrie) :
    (db.withTrie four trie).name = db.name := by
  cases four <;> rfl

/-- A line with a network adds its path to the trie of its family. -/
theorem CidrDB.addLine_network (parsed : parseLine net line = .ok (some cidr)) (db : CidrDB) :
    db.addLine net line = .ok (db.withTrie (to4 cidr.ip).isSome
      ((db.trie (to4 cidr.ip).isSome).insert cidr.path)) := by
  unfold CidrDB.addLine
  rw [parsed]
  cases family : to4 cidr.ip <;> simp [family, cidr.add_network, withTrie, trie]

variable {name : Text}

theorem CidrDB.Lists.addLine {db : CidrDB} (lists : db.Lists name cidrs)
    (added : db.addLine net line = .ok changed) :
    changed.Lists name (cidrs ++ (networkOn net line).toList) := by
  unfold networkOn
  cases parsed : parseLine net line with
  | error message => simp [CidrDB.addLine, parsed] at added
  | ok found =>
    cases found with
    | none =>
      have same : db = changed := by simpa [CidrDB.addLine, parsed] using added
      simpa [Except.toOption, same] using lists
    | some cidr =>
      rw [CidrDB.addLine_network parsed] at added
      cases added
      refine ⟨(db.name_withTrie _ _).trans lists.name_eq, fun four => ?_⟩
      rw [CidrDB.trie_withTrie]
      simp only [Except.toOption, Option.join_some, Option.toList_some]
      split
      · rename_i same
        subst same
        have paths : familyPaths (to4 cidr.ip).isSome (cidrs ++ [cidr]) =
            insert cidr.path (familyPaths (to4 cidr.ip).isSome cidrs) := by
          ext path
          rw [mem_familyPaths_concat, Set.mem_insert_iff]
          tauto
        rw [paths]
        exact (lists.holds _).insert cidr.path
      · have paths : familyPaths four (cidrs ++ [cidr]) = familyPaths four cidrs := by
          ext path
          rw [mem_familyPaths_concat]
          tauto
        rw [paths]
        exact lists.holds four

theorem CidrDB.Lists.addLines {db : CidrDB} (lists : db.Lists name cidrs) {lines : List Text}
    (added : lines.foldlM (CidrDB.addLine net) db = .ok changed) :
    changed.Lists name (cidrs ++ listed net lines) := by
  induction lines generalizing db cidrs with
  | nil =>
    cases added
    simpa [listed] using lists
  | cons line rest ih =>
    rw [List.foldlM_cons] at added
    cases step : db.addLine net line with
    | error fault =>
      rw [step] at added
      cases added
    | ok next =>
      rw [step] at added
      have more := ih (lists.addLine step) added
      have joined : listed net (line :: rest) =
          (networkOn net line).toList ++ listed net rest := by
        rw [listed, List.filterMap_cons]
        cases networkOn net line <;> rfl
      rwa [joined, ← List.append_assoc]

variable {db : CidrDB}

/-- A loaded database holds the networks of the last attempt. -/
theorem lists_newCidrDB {events : List LoadEvent} (loaded : newCidrDB net name events = .ok db) :
    db.Lists name (listed net (lastAttempt events)) := by
  rw [newCidrDB, load_eq] at loaded
  have empty : CidrDB.Lists { name := name, ip4 := .absent, ip6 := .absent } name [] :=
    ⟨rfl, fun four => by cases four <;> simp [CidrDB.trie, familyPaths, PrefixTrie.Holds]⟩
  simpa using empty.addLines loaded

/-! ## A match as a walk -/

/-- The bits an address is looked up with. -/
def keyOf (ip : IP) : List Bool :=
  bitsOf ((to4 ip).getD ip)

/-- The text of a network given by its address in shortest form. -/
def shortString (net : NetLibrary) (number : IP) (ones : Nat) : Text :=
  net.ipString number ++ text "/" ++ text (Nat.repr ones)

variable {ip : IP}

theorem ruleString_eq (size : ip.length = 4 ∨ ip.length = 16) (maskBits : Nat) :
    ruleString net ((to4 ip).getD ip) maskBits =
      shortString net (andMask ((to4 ip).getD ip) maskBits) maskBits := by
  have length := length_getD_to4 size
  cases family : to4 ip with
  | none =>
    have sixteen : ip.length = 16 := by simpa [family] using length
    have six := to4_andMask_of_none sixteen family maskBits
    simp [ruleString, family, maskIP, sixteen, IPNet.string, IPNet.networkNumberAndMask, six,
      shortString]
  | some address =>
    have four : address.length = 4 := by simpa [family] using length
    have masked : to4 (andMask address maskBits) = some (andMask address maskBits) :=
      to4_four (by simpa using four)
    simp [ruleString, to4_four four, maskIP, four, IPNet.string, IPNet.networkNumberAndMask,
      masked, shortString]

variable (net) in
/-- A search walks along the trie and reports the network it stopped at. -/
theorem hasIP_eq (trie : PrefixTrie) (size : ip.length = 4 ∨ ip.length = 16) :
    hasIP net trie ip = some ((trie.walk (keyOf ip)).elim ([], false) fun depth =>
      (shortString net (andMask ((to4 ip).getD ip) depth) depth, true)) := by
  have bits : (if (to4 ip).isNone then 128 else 32) = (keyOf ip).length := by
    rw [keyOf, length_bitsOf, length_getD_to4 size]
    cases to4 ip <;> rfl
  unfold hasIP
  simp only [bits]
  by_cases absent : trie = .absent
  · rw [if_pos absent, absent, PrefixTrie.walk_absent]
    rfl
  · have walked : hasFrom ((to4 ip).getD ip) 0 (keyOf ip).length trie =
        some (trie.walk (keyOf ip)) := by
      unfold keyOf
      rw [hasFrom_eq _ (Nat.le_of_eq (Nat.zero_add _)) absent, List.drop_zero, List.take_length]
      simp
    rw [if_neg absent, walked]
    cases trie.walk (keyOf ip) with
    | none => rfl
    | some depth => simp [ruleString_eq size]

/-- What a match returns for the depth of a walk. -/
def matchAt (net : NetLibrary) (name : Text) (ip : IP) :
    Option Nat → Option BlocklistMatch × Bool
  | none => (some { list := name, rule := [] }, false)
  | some depth =>
    let number := andMask ((to4 ip).getD ip) depth
    (some { list := name, rule := shortString net number depth }, true)

variable (net) in
/-- A match walks along the trie of the address family. -/
theorem match_eq (db : CidrDB) (ip : IP) (size : ip.length = 4 ∨ ip.length = 16) :
    db.match_ net ip =
      some (matchAt net db.name ip ((db.trie (to4 ip).isSome).walk (keyOf ip))) := by
  have trie : (if (to4 ip).isNone then db.ip6 else db.ip4) = db.trie (to4 ip).isSome := by
    cases to4 ip <;> rfl
  simp only [CidrDB.match_, trie, hasIP_eq net _ size, if_neg (show ¬ ip.length = 0 by omega)]
  cases (db.trie (to4 ip).isSome).walk (keyOf ip) <;> rfl

/-! ## What the networks contain -/

/-- The number of ones in the mask of a network in its shortest form. -/
def IPNet.prefixLength (network : IPNet) : Nat :=
  (network.networkNumberAndMask.map Prod.snd).getD 0

/-- A network that the trie of its family treats as it is meant: any but an IPv6 network with
an IPv4-mapped address, and among these the one with the single address 0.0.0.0. -/
def ParsedCIDR.Harmless (cidr : ParsedCIDR) : Prop :=
  cidr.address.length = 4 ∨ to4 cidr.address = none ∨
    cidr.network = { ip := v4InV6Prefix ++ [0, 0, 0, 0], ones := 128, bits := 128 }

/-- A network in its shortest form, with a path that meets the addresses it contains. -/
structure ParsedCIDR.Short (cidr : ParsedCIDR) (number : IP) (ones : Nat) : Prop where
  form : cidr.network.networkNumberAndMask = some (number, ones)
  masked : andMask number ones = number
  family : number.length = if (to4 cidr.ip).isSome then 4 else 16
  meets : ∀ key, key.length = number.length * 8 → ∀ depth,
    PrefixTrie.meet cidr.path key = some depth ↔
      (bitsOf number).take ones <+: key ∧ depth = ones

/-- A path made of the bits of the shortest form meets the addresses it is a part of. -/
theorem meets_of_path_eq (path_eq : path = (bitsOf number).take ones)
    (bounded : ones ≤ number.length * 8) (length : key.length = number.length * 8) (depth : Nat) :
    PrefixTrie.meet path key = some depth ↔
      (bitsOf number).take ones <+: key ∧ depth = ones := by
  have path_length : path.length = ones := by simp [path_eq, bounded]
  rw [PrefixTrie.meet_eq_some_iff_initial (by omega), path_length, path_eq]

theorem prefix_append_iff {front back : List Bool} (length : key.length = front.length) :
    key <+: front ++ back ↔ front <+: key := by
  constructor
  · intro inside
    have same : key = front := by
      rw [List.prefix_iff_eq_take.mp inside, length, List.take_left]
    exact same ▸ List.prefix_rfl
  · intro inside
    rw [inside.eq_of_length length.symm]
    exact List.prefix_append _ _

theorem ParsedCIDR.Harmless.short (harmless : cidr.Harmless) :
    ∃ number ones, cidr.Short number ones := by
  have pathBits : cidr.path = (bitsOf (andMask cidr.address cidr.ones)).take cidr.ones := by
    rw [cidr.path_eq, take_bitsOf_andMask]
  have bounded : cidr.ones ≤ (andMask cidr.address cidr.ones).length * 8 := by
    rw [length_andMask]
    exact cidr.bounded
  by_cases four : cidr.address.length = 4
  · obtain ⟨family, network⟩ := cidr.four_cases four
    have masked : (andMask cidr.address cidr.ones).length = 4 := by simpa using four
    exact ⟨andMask cidr.address cidr.ones, cidr.ones,
      { form := by simp [network, IPNet.networkNumberAndMask, to4_four masked]
        masked := andMask_andMask _ _
        family := by simp [family, four]
        meets := fun key length depth => meets_of_path_eq pathBits bounded length depth }⟩
  · have sixteen : cidr.address.length = 16 := cidr.size.resolve_left four
    obtain ⟨ip_eq, network⟩ := cidr.sixteen_cases sixteen
    rcases harmless with four' | six | zero
    · exact absurd four' four
    · have six' := to4_andMask_of_none sixteen six cidr.ones
      exact ⟨andMask cidr.address cidr.ones, cidr.ones,
        { form := by simp [network, IPNet.networkNumberAndMask, six', sixteen]
          masked := andMask_andMask _ _
          family := by simp [ip_eq, six, sixteen]
          meets := fun key length depth => meets_of_path_eq pathBits bounded length depth }⟩
    · -- the single address 0.0.0.0, whose path starts with the zeros of the key
      have masked : andMask cidr.address cidr.ones = v4InV6Prefix ++ [0, 0, 0, 0] := by
        rw [← cidr.network_ip, zero]
      have mapped := (take_andMask_eq_iff sixteen).mp (by rw [masked]; rfl)
      have split : cidr.path =
          bitsOf [0, 0, 0, 0] ++ (bitsOf (v4InV6Prefix ++ [0, 0, 0, 0])).drop 32 := by
        rw [path, zero]
        decide
      refine ⟨[0, 0, 0, 0], 32,
        { form := by rw [zero]; rfl
          masked := by decide
          family := by rw [ip_eq, to4_sixteen sixteen, if_pos mapped.1]; rfl
          meets := fun key length depth => ?_ }⟩
      have thirtyTwo : key.length = 32 := length
      have longer : key.length ≤ cidr.path.length := by
        rw [split, thirtyTwo, List.length_append]
        exact Nat.le_add_right 32 _
      have whole : (bitsOf [0, 0, 0, 0]).take 32 = bitsOf [0, 0, 0, 0] := rfl
      rw [PrefixTrie.meet_eq_some_iff_extends longer, split, prefix_append_iff thirtyTwo, whole,
        thirtyTwo]

/-- A network contains the addresses of its length that start as it does. -/
theorem ParsedCIDR.Short.contains_iff (short : cidr.Short number ones) (ip : IP) :
    cidr.network.contains ip = true ↔ ((to4 ip).getD ip).length = number.length ∧
      (bitsOf number).take ones <+: keyOf ip := by
  simp only [IPNet.contains, short.form, Bool.and_eq_true, decide_eq_true_eq]
  refine and_congr_right fun length => ?_
  rw [andMask_eq_iff length.symm, List.prefix_iff_eq_take, keyOf]
  have same : (bitsOf ((to4 ip).getD ip)).take ((bitsOf number).take ones).length =
      (bitsOf ((to4 ip).getD ip)).take ones := by
    rw [List.take_eq_take_iff, List.length_take, length_bitsOf, length_bitsOf, length]
    omega
  rw [same]

/-- A harmless network contains the addresses of its family whose bits its path meets, at the
length of its prefix. -/
theorem ParsedCIDR.Harmless.contains_iff (harmless : cidr.Harmless)
    (size : ip.length = 4 ∨ ip.length = 16) :
    cidr.network.contains ip = true ↔ (to4 cidr.ip).isSome = (to4 ip).isSome ∧
      PrefixTrie.meet cidr.path (keyOf ip) = some cidr.network.prefixLength := by
  obtain ⟨number, ones, short⟩ := harmless.short
  have ones_eq : cidr.network.prefixLength = ones := by
    rw [IPNet.prefixLength, short.form]
    rfl
  have sameFamily : ((to4 ip).getD ip).length = number.length ↔
      (to4 cidr.ip).isSome = (to4 ip).isSome := by
    rw [short.family, length_getD_to4 size]
    cases (to4 ip).isSome <;> cases (to4 cidr.ip).isSome <;> simp
  rw [short.contains_iff, sameFamily, ones_eq]
  refine and_congr_right fun family => ?_
  have length : (keyOf ip).length = number.length * 8 := by
    rw [keyOf, length_bitsOf, sameFamily.mpr family]
  rw [short.meets _ length]
  simp

variable (net) in
/-- Where the path of a network meets an address, the network contains it, and the report of a
match there is the network's text. -/
theorem ParsedCIDR.Harmless.of_meet (harmless : cidr.Harmless)
    (size : ip.length = 4 ∨ ip.length = 16) (family : (to4 cidr.ip).isSome = (to4 ip).isSome)
    {depth : Nat} (met : PrefixTrie.meet cidr.path (keyOf ip) = some depth) :
    cidr.network.contains ip = true ∧ depth = cidr.network.prefixLength ∧
      shortString net (andMask ((to4 ip).getD ip) depth) depth = cidr.network.string net := by
  obtain ⟨number, ones, short⟩ := harmless.short
  have length : ((to4 ip).getD ip).length = number.length := by
    rw [short.family, length_getD_to4 size, family]
  have bits : (keyOf ip).length = number.length * 8 := by rw [keyOf, length_bitsOf, length]
  obtain ⟨front, rfl⟩ := (short.meets _ bits depth).mp met
  have contains := (short.contains_iff ip).mpr ⟨length, front⟩
  have same : andMask number depth = andMask ((to4 ip).getD ip) depth := by
    simp only [IPNet.contains, short.form, Bool.and_eq_true, decide_eq_true_eq] at contains
    exact contains.2
  refine ⟨contains, ?_, ?_⟩
  · rw [IPNet.prefixLength, short.form]
    rfl
  · rw [← same, short.masked, IPNet.string, short.form]
    rfl

/-! ## Correct matches -/

/-- A match reports a hit if and only if a listed network contains the address, and then the
one with the shortest prefix. -/
def Correct (net : NetLibrary) (name : Text) (db : CidrDB) (cidrs : List ParsedCIDR) (ip : IP) :
    Prop :=
  ∃ rule ok, db.match_ net ip = some (some { list := name, rule := rule }, ok) ∧
    (ok = true ↔ ∃ cidr ∈ cidrs, cidr.network.contains ip = true) ∧
    (ok = true → ∃ cidr ∈ cidrs, cidr.network.contains ip = true ∧
      rule = cidr.network.string net ∧
      ∀ other ∈ cidrs, other.network.contains ip = true →
        cidr.network.prefixLength ≤ other.network.prefixLength)

theorem correct_of_harmless (lists : db.Lists name cidrs) (harmless : ∀ cidr ∈ cidrs, cidr.Harmless)
    (size : ip.length = 4 ∨ ip.length = 16) :
    Correct net name db cidrs ip := by
  have holds := lists.holds (to4 ip).isSome
  have matched := match_eq net db ip size
  rw [lists.name_eq] at matched
  have reached : ∀ cidr ∈ cidrs, cidr.network.contains ip = true →
      ∃ stopped, (db.trie (to4 ip).isSome).walk (keyOf ip) = some stopped ∧
        stopped ≤ cidr.network.prefixLength := by
    intro cidr member contains
    obtain ⟨family, met⟩ := ((harmless cidr member).contains_iff size).mp contains
    exact holds.walk_le ⟨cidr, member, family, rfl⟩ met
  cases walked : (db.trie (to4 ip).isSome).walk (keyOf ip) with
  | none =>
    rw [walked] at matched reached
    refine ⟨[], false, matched, ⟨by simp, ?_⟩, by simp⟩
    rintro ⟨cidr, member, contains⟩
    obtain ⟨stopped, impossible, _⟩ := reached cidr member contains
    cases impossible
  | some depth =>
    rw [walked] at matched reached
    obtain ⟨path, ⟨cidr, member, family, rfl⟩, met⟩ := holds.exists_meet walked
    obtain ⟨contains, depth_eq, report⟩ := (harmless cidr member).of_meet net size family met
    refine ⟨_, true, matched, by simpa using ⟨cidr, member, contains⟩, fun _ =>
      ⟨cidr, member, contains, report, fun other inside otherContains => ?_⟩⟩
    obtain ⟨stopped, same, le⟩ := reached other inside otherContains
    cases same
    rwa [← depth_eq]

/-! ## IPv4-mapped networks -/

variable {cidr : ParsedCIDR}

/-- The path of an IPv4-mapped network starts with zeros. -/
theorem path_of_mapped (mapped : cidr.address.take 12 = v4InV6Prefix) :
    cidr.path.take 32 = List.replicate (min cidr.ones 32) false := by
  have zeros : (bitsOf cidr.address).take 32 = List.replicate 32 false := by
    rw [← List.take_append_drop 12 cidr.address, mapped, bitsOf, List.flatMap_append,
      List.take_append_of_le_length (by decide)]
    decide
  rw [cidr.path_eq, List.take_take, Nat.min_comm, ← List.take_take, zeros, List.take_replicate]

/-- If the path of an IPv4-mapped network is longer than an IPv4 address, the network does not
match 0.0.0.1. -/
theorem match_one (mapped : cidr.address.take 12 = v4InV6Prefix) (long : 32 ≤ cidr.ones)
    (lists : db.Lists name [cidr]) :
    db.match_ net [0, 0, 0, 1] = some (some { list := name, rule := [] }, false) := by
  have key : (keyOf [0, 0, 0, 1]).length = 32 := by decide
  have length := cidr.length_path
  have missed : (db.trie (to4 [0, 0, 0, 1]).isSome).walk (keyOf [0, 0, 0, 1]) = none := by
    rw [Option.eq_none_iff_forall_ne_some]
    intro depth walked
    obtain ⟨path, ⟨other, member, _, rfl⟩, met⟩ := (lists.holds true).exists_meet walked
    cases List.mem_singleton.mp member
    obtain ⟨front, _⟩ := (PrefixTrie.meet_eq_some_iff_extends (by omega)).mp met
    rw [List.prefix_iff_eq_take, key, path_of_mapped mapped, Nat.min_eq_right long] at front
    exact absurd front (by decide)
  rw [match_eq net db _ (.inl rfl), missed, lists.name_eq]
  rfl

section Mapped

variable (sixteen : cidr.address.length = 16) (mapped : cidr.address.take 12 = v4InV6Prefix)

include sixteen mapped

/-- An IPv4-mapped network goes into the trie for IPv4. -/
theorem family_of_mapped : (to4 cidr.ip).isSome = true := by
  rw [(cidr.sixteen_cases sixteen).1, to4_sixteen sixteen, if_pos mapped]
  rfl

/-- It matches the address 0.0.0.0. -/
theorem match_zero (lists : db.Lists name [cidr]) :
    ∃ rule, db.match_ net [0, 0, 0, 0] = some (some { list := name, rule := rule }, true) := by
  have key : keyOf [0, 0, 0, 0] = List.replicate 32 false := by decide
  have zeros := path_of_mapped mapped
  have met : ∃ depth, PrefixTrie.meet cidr.path (keyOf [0, 0, 0, 0]) = some depth := by
    rw [key]
    by_cases short : cidr.ones ≤ 32
    · have front : List.replicate cidr.ones false <+: List.replicate 32 false :=
        ⟨List.replicate (32 - cidr.ones) false, by
          rw [← List.replicate_add, Nat.add_sub_cancel' short]⟩
      rw [List.take_of_length_le (by rwa [cidr.length_path]), Nat.min_eq_left short] at zeros
      rw [zeros]
      exact ⟨_, PrefixTrie.meet_of_initial front⟩
    · rw [Nat.min_eq_right (by omega)] at zeros
      rw [← zeros]
      exact ⟨_, PrefixTrie.meet_of_extends (List.take_prefix 32 cidr.path)⟩
  obtain ⟨depth, met⟩ := met
  obtain ⟨stopped, walked, _⟩ := (lists.holds true).walk_le
    ⟨cidr, List.mem_cons_self, family_of_mapped sixteen mapped, rfl⟩ met
  have matched := match_eq net db [0, 0, 0, 0] (.inl rfl)
  rw [show (to4 [0, 0, 0, 0]).isSome = true from rfl, walked, lists.name_eq] at matched
  exact ⟨_, matched⟩

/-- If it contains 0.0.0.0, its address is that one and its mask leaves the mapping. -/
theorem network_of_contains_zero (contains : cidr.network.contains [0, 0, 0, 0] = true) :
    96 ≤ cidr.ones ∧ cidr.network =
      { ip := v4InV6Prefix ++ [0, 0, 0, 0], ones := cidr.ones, bits := 128 } := by
  have bounded := cidr.bounded
  obtain ⟨_, network⟩ := cidr.sixteen_cases sixteen
  have masked : (andMask cidr.address cidr.ones).length = 16 := by simpa using sixteen
  have short := to4_sixteen masked
  by_cases all : 96 ≤ cidr.ones
  · have front := (take_andMask_eq_iff sixteen).mpr ⟨mapped, all⟩
    have back : (andMask cidr.address cidr.ones).drop 12 = [0, 0, 0, 0] := by
      have zeros : ∀ ones : Fin 33, andMask [0, 0, 0, 0] ones = [0, 0, 0, 0] := by decide
      have form : cidr.network.networkNumberAndMask =
          some ((andMask cidr.address cidr.ones).drop 12, cidr.ones - 96) := by
        simp [network, IPNet.networkNumberAndMask, short, front]
      simp only [IPNet.contains, form, Bool.and_eq_true, decide_eq_true_eq] at contains
      rw [drop_andMask, ← andMask_andMask, ← drop_andMask]
      exact contains.2.trans (zeros ⟨cidr.ones - 96, by omega⟩)
    refine ⟨all, ?_⟩
    rw [network, ← List.take_append_drop 12 (andMask cidr.address cidr.ones), front, back]
  · have wide : (andMask cidr.address cidr.ones).take 12 ≠ v4InV6Prefix := fun front =>
      all ((take_andMask_eq_iff sixteen).mp front).2
    rw [if_neg wide] at short
    simp [network, IPNet.contains, IPNet.networkNumberAndMask, short, sixteen,
      to4_four (show [0, 0, 0, 0].length = 4 from rfl)] at contains

end Mapped

variable (net) in
/-- A network that is matched as it should be on its own is harmless. -/
theorem harmless_of_correct (lists : db.Lists name [cidr])
    (correct : ∀ ip, ip.length = 4 ∨ ip.length = 16 → Correct net name db [cidr] ip) :
    cidr.Harmless := by
  by_contra harmful
  have sixteen : cidr.address.length = 16 :=
    cidr.size.resolve_left fun four => harmful (.inl four)
  have mapped : cidr.address.take 12 = v4InV6Prefix := by
    by_contra unmapped
    exact harmful (.inr (.inl (by rw [to4_sixteen sixteen, if_neg unmapped])))
  -- the trie reports 0.0.0.0, so the network has to contain it
  obtain ⟨_, _, matched, hit, _⟩ := correct [0, 0, 0, 0] (.inl rfl)
  obtain ⟨_, matched'⟩ := match_zero sixteen mapped lists
  cases matched'.symm.trans matched
  obtain ⟨_, member, contains⟩ := hit.mp rfl
  cases List.mem_singleton.mp member
  obtain ⟨all, network⟩ := network_of_contains_zero sixteen mapped contains
  -- so it contains 0.0.0.1 as well, which the trie does not report
  have bounded := cidr.bounded
  have notHost : cidr.ones ≠ 128 := fun host => harmful (.inr (.inr (by rw [network, host])))
  have table : ∀ ones : Fin 32, IPNet.contains
      { ip := v4InV6Prefix ++ [0, 0, 0, 0], ones := ones.val + 96, bits := 128 } [0, 0, 0, 1] := by
    decide
  have contains' : cidr.network.contains [0, 0, 0, 1] = true := by
    have := table ⟨cidr.ones - 96, by omega⟩
    rwa [Nat.sub_add_cancel all, ← network] at this
  obtain ⟨_, _, matched, hit, _⟩ := correct [0, 0, 0, 1] (.inl rfl)
  cases (match_one mapped (by omega) lists).symm.trans matched
  cases hit.mpr ⟨cidr, List.mem_cons_self, contains'⟩

/-- The databases loaded from allowed lines match every address correctly if and only if no
allowed line holds an IPv6 network with an IPv4-mapped address, other than the single address
0.0.0.0. -/
theorem match_shortest_iff (net : NetLibrary) (name : Text) (allowed : Text → Prop) :
    (∀ events db, (∀ line ∈ lastAttempt events, allowed line) →
      newCidrDB net name events = .ok db → ∀ ip, ip.length = 4 ∨ ip.length = 16 →
        Correct net name db (listed net (lastAttempt events)) ip) ↔
      ∀ line cidr, allowed line → parseLine net line = .ok (some cidr) → cidr.Harmless := by
  constructor
  · intro correct line cidr isAllowed parsed
    have networks : listed net [line] = [cidr] := by
      simp [listed, networkOn, parsed, Except.toOption]
    have loaded := CidrDB.addLine_network parsed { name := name, ip4 := .absent, ip6 := .absent }
    have loaded : newCidrDB net name (loadOf [line]) = .ok _ := loaded
    have lists := lists_newCidrDB loaded
    rw [lastAttempt_loadOf, networks] at lists
    refine harmless_of_correct net lists fun ip size => ?_
    have atLine := correct (loadOf [line]) _ (by simpa [lastAttempt_loadOf] using isAllowed)
      loaded ip size
    rwa [lastAttempt_loadOf, networks] at atLine
  · intro harmless events db areAllowed loaded ip size
    refine correct_of_harmless (lists_newCidrDB loaded) (fun cidr member => ?_) size
    obtain ⟨line, inside, network⟩ := List.mem_filterMap.mp member
    exact harmless line cidr (areAllowed line inside) (parseLine_of_networkOn network)

/-- The network ::ffff:1.2.3.0/120. -/
def mappedNetwork : ParsedCIDR where
  address := v4InV6Prefix ++ [1, 2, 3, 0]
  ones := 120
  size := .inr rfl
  bounded := by decide

/-- A library that reads every line as that network. -/
def mappedLibrary : NetLibrary where
  trimSpace := id
  parseCIDR _ := .ok mappedNetwork
  ipString ip := ip

/-- The network contains 1.2.3.4 and not 0.0.0.0; the database finds 0.0.0.0 and not
1.2.3.4. -/
theorem mapped_network_misplaced :
    mappedNetwork.network.contains [1, 2, 3, 4] = true ∧
      mappedNetwork.network.contains [0, 0, 0, 0] = false ∧
      ((newCidrDB mappedLibrary (text "list") (loadOf [text "::ffff:1.2.3.0/120"])).toOption.map
        fun db => ((db.match_ mappedLibrary [1, 2, 3, 4]).map Prod.snd,
          (db.match_ mappedLibrary [0, 0, 0, 0]).map Prod.snd)) =
        some (some false, some true) := by
  decide +kernel

end RouteDns.Cidr
