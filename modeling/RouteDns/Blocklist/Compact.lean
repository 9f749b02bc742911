import Mathlib.Data.List.Infix
import RouteDns.Blocklist.DomainMatch
import RouteDns.Blocklist.Fingerprints

/-!
# Compact databases of domain rules

A compact database has the fingerprints of a list in place of a trie.  A match walks over the
labels of a name just the same, and asks for the flags recorded under the hash of the labels so
far.  Names that share a fingerprint share their flags, so a walk may see more flags than the
rules set.  It never sees less, so no match of the trie is lost; and where no two of the names
involved share a fingerprint, both walks are the same.
-/

namespace RouteDns.Blocklist

open Dns

structure DomainCompactDB where
  name : Text
  fingerprints : DomainFingerprints
  includeSubdomains : Bool
  deriving DecidableEq

/-- A compact database; the seed is drawn anew for each. -/
def newDomainCompactDB (lib : StringsLibrary) (seed : Nat) (name : Text) (includeSubdomains : Bool)
    (events : List LoadEvent) : Except Fault DomainCompactDB := do
  let c ← domainRules lib includeSubdomains Collected.new
    (fun c domain flag => .ok (c.record seed domain flag)) events
  pure
    { name := name
      fingerprints := buildFingerprints seed c.entries
      includeSubdomains := includeSubdomains }

/-- Match a name.  A search in the fingerprints always ends. -/
def DomainCompactDB.match_ (db : DomainCompactDB) (name : Text) : Option (Option BlocklistMatch) :=
  matchFrom
    (fun h label =>
      let h := domainSuffixHash h label
      some ((db.fingerprints.find h).map fun flags => (h, flags)))
    db.name name db.fingerprints.seed db.fingerprints.rootFlags (matchRounds name)

/-- Match the question of a query. -/
def DomainCompactDB.matchQuestion (db : DomainCompactDB) (lib : StringsLibrary) (question : Name) :
    Option (Option BlocklistMatch) :=
  db.match_ (domainQueryName lib question)

/-! ## Walks by fingerprints -/

/-- The flags found for a name. -/
def DomainFingerprints.lookup (f : DomainFingerprints) : FlagMap :=
  fun name => f.find (hashOf f.seed name)

theorem DomainCompactDB.match_eq_walk (db : DomainCompactDB) (query : Text) :
    db.match_ query = some (walk db.fingerprints.lookup db.name query []
      db.fingerprints.rootFlags (matchRounds query)) := by
  have start : db.fingerprints.seed = hashOf db.fingerprints.seed [] := rfl
  refine matchFrom_eq_walk (fun h above => h = hashOf db.fingerprints.seed above) ?_ db.name query
    start _ _
  rintro _ above label rfl
  have further : domainSuffixHash (hashOf db.fingerprints.seed above) label =
    hashOf db.fingerprints.seed (label :: above) := rfl
  simp only [further, DomainFingerprints.lookup]
  cases db.fingerprints.find (hashOf db.fingerprints.seed (label :: above)) with
  | none => exact .inl ⟨rfl, rfl⟩
  | some flags => exact .inr ⟨_, flags, rfl, rfl, rfl⟩

section Words

variable {seed : Nat} {rules : List Rule} {entries : List Nat}
variable (words : ∀ e, e ∈ entries ↔ IsWord seed rules e)

include words

theorem entries_lt : ∀ e ∈ entries, e < 2 ^ 64 := by
  intro e member
  obtain ⟨mark, marked, _, rfl⟩ := (words e).mp member
  exact domainEntry_lt (flags_lt_of_mem_marks marked) _

variable (few : (buildFingerprints seed entries).entries.length < 2 ^ 32)

include few

/-- The flags found for a name are those set on the names with its fingerprint. -/
theorem lookup_cases (name : List Label) :
    ((buildFingerprints seed entries).lookup name = none ∧
        ∀ mark ∈ rules.flatMap Rule.marks, mark.1 ≠ [] →
          fingerprint seed mark.1 ≠ fingerprint seed name) ∨
      ∃ flags, (buildFingerprints seed entries).lookup name = some flags ∧
        (∃ mark ∈ rules.flatMap Rule.marks, mark.1 ≠ [] ∧
          fingerprint seed mark.1 = fingerprint seed name) ∧
        ∀ flag < 16, flags &&& flag ≠ 0 ↔ ∃ mark ∈ rules.flatMap Rule.marks, mark.1 ≠ [] ∧
          fingerprint seed mark.1 = fingerprint seed name ∧ mark.2 &&& flag ≠ 0 := by
  have top : ∀ mark ∈ rules.flatMap Rule.marks,
      fingerprintOf (wordOf seed mark) = fingerprint seed mark.1 :=
    fun mark marked => fingerprintOf_domainEntry (flags_lt_of_mem_marks marked) _
  rcases find_buildFingerprints seed (entries_lt words) few (hashOf seed name) with
    ⟨missed, absent⟩ | ⟨flags, found, ⟨e, member, same⟩, _, tests⟩
  · refine .inl ⟨missed, fun mark marked proper same => ?_⟩
    exact absent (wordOf seed mark) ((words _).mpr ⟨mark, marked, proper, rfl⟩)
      ((top mark marked).trans same)
  · refine .inr ⟨flags, found, ?_, fun flag bit => (tests flag bit).trans ⟨?_, ?_⟩⟩
    · obtain ⟨mark, marked, proper, rfl⟩ := (words e).mp member
      exact ⟨mark, marked, proper, (top mark marked).symm.trans same⟩
    · rintro ⟨e, member, same, flagged⟩
      obtain ⟨mark, marked, proper, rfl⟩ := (words e).mp member
      rw [wordOf, domainEntry_and_flag (flags_lt_of_mem_marks marked) bit] at flagged
      exact ⟨mark, marked, proper, (top mark marked).symm.trans same, flagged⟩
    · rintro ⟨mark, marked, proper, same, flagged⟩
      refine ⟨wordOf seed mark, (words _).mpr ⟨mark, marked, proper, rfl⟩,
        (top mark marked).trans same, ?_⟩
      rwa [wordOf, domainEntry_and_flag (flags_lt_of_mem_marks marked) bit]

/-- Nothing that a rule sets is missed. -/
theorem includes_lookup (label : Label) (above : List Label) (flags : Nat)
    (kept : flagsOf rules (label :: above) = some flags) :
    ∃ more, (buildFingerprints seed entries).lookup (label :: above) = some more ∧
      Includes more flags := by
  have known : (flagsOf rules (label :: above)).isSome := by rw [kept]; rfl
  rcases flagsOf_isSome_iff.mp known with impossible | ⟨mark, marked, here⟩
  · cases impossible
  rcases lookup_cases words few (label :: above) with ⟨_, absent⟩ | ⟨more, found, _, tests⟩
  · exact absurd (by rw [here]) (absent mark marked (by simp [here]))
  · refine ⟨more, found, fun flag bit flagged => ?_⟩
    obtain ⟨mark, marked, here, flagged⟩ := (flagsOf_and_ne_zero_iff kept flag).mp flagged
    exact (tests flag bit).mpr ⟨mark, marked, by simp [here], by rw [here], flagged⟩

/-- Nothing else is found for a name that shares its fingerprint with no name of a rule. -/
theorem lookup_eq_or (label : Label) (above : List Label)
    (alone : ∀ mark ∈ rules.flatMap Rule.marks, mark.1 ≠ [] →
      fingerprint seed mark.1 = fingerprint seed (label :: above) → mark.1 = label :: above) :
    (flagsOf rules (label :: above) = none ∧
        (buildFingerprints seed entries).lookup (label :: above) = none) ∨
      ∃ flags more, flagsOf rules (label :: above) = some flags ∧
        (buildFingerprints seed entries).lookup (label :: above) = some more ∧
          Includes more flags ∧ Includes flags more := by
  rcases lookup_cases words few (label :: above) with
    ⟨missed, _⟩ | ⟨more, found, ⟨mark, marked, proper, same⟩, tests⟩
  · cases kept : flagsOf rules (label :: above) with
    | none => exact .inl ⟨rfl, missed⟩
    | some flags =>
      obtain ⟨more, found, _⟩ := includes_lookup words few label above flags kept
      rw [missed] at found
      cases found
  · have known : (flagsOf rules (label :: above)).isSome :=
      flagsOf_isSome_iff.mpr (.inr ⟨mark, marked, alone mark marked proper same⟩)
    obtain ⟨flags, kept⟩ := Option.isSome_iff_exists.mp known
    obtain ⟨_, found', included⟩ := includes_lookup words few label above flags kept
    rw [found] at found'
    cases found'
    refine .inr ⟨flags, more, kept, found, included, fun flag bit flagged => ?_⟩
    obtain ⟨mark, marked, proper, same, flagged⟩ := (tests flag bit).mp flagged
    exact (flagsOf_and_ne_zero_iff kept flag).mpr
      ⟨mark, marked, alone mark marked proper same, flagged⟩

omit few

/-- The root has children in both, if there is a rule at all. -/
theorem includes_rootFlags {flags : Nat} (kept : flagsOf rules [] = some flags) :
    Includes (buildFingerprints seed entries).rootFlags flags ∧
      Includes flags (buildFingerprints seed entries).rootFlags := by
  have merges := merges_buildFingerprints seed (entries_lt words)
  rw [DomainFingerprints.rootFlags]
  constructor
  · intro flag _ flagged
    obtain ⟨mark, marked, root, flagged⟩ := (flagsOf_and_ne_zero_iff kept flag).mp flagged
    obtain ⟨rule, loaded, member⟩ := List.mem_flatMap.mp marked
    have end_ : (filed rule.base, rule.shape.flag) ∈ rules.flatMap Rule.marks :=
      List.mem_flatMap.mpr ⟨rule, loaded, Rule.mem_marks.mpr (.inr rfl)⟩
    obtain ⟨m, merged, _⟩ := merges.present _
      ((words _).mpr ⟨_, end_, filed_ne_nil rule.base, rfl⟩)
    rw [if_neg (Nat.ne_of_gt (List.length_pos_of_mem merged))]
    rcases Rule.mem_marks.mp member with ⟨_, _, flags_eq⟩ | same
    · rwa [← flags_eq]
    · rw [same] at root
      exact absurd root (filed_ne_nil rule.base)
  · intro flag _ flagged
    split at flagged
    · simp at flagged
    · rename_i nonempty
      obtain ⟨m, merged⟩ := List.exists_mem_of_length_pos (Nat.pos_of_ne_zero nonempty)
      obtain ⟨_, e, member, _⟩ := merges.known m merged
      obtain ⟨mark, marked, _⟩ := (words e).mp member
      obtain ⟨rule, loaded, _⟩ := List.mem_flatMap.mp marked
      refine (flagsOf_and_ne_zero_iff kept flag).mpr ⟨([], ruleHasChildren), ?_, rfl, flagged⟩
      exact List.mem_flatMap.mpr ⟨rule, loaded, Rule.mem_marks.mpr
        (.inl ⟨List.nil_suffix, (filed_ne_nil rule.base).symm, rfl⟩)⟩

/-- There are no more fingerprints than nodes in a trie of the same rules. -/
theorem length_buildFingerprints_le {t : DomainTrie} {tree : EdgeTree Label}
    (flags : t.flagsAt tree = flagsOf rules) :
    (buildFingerprints seed entries).entries.length ≤ tree.edges.length + 1 := by
  have merges := merges_buildFingerprints seed (entries_lt words)
  rw [← List.length_map fingerprintOf]
  refine EdgeTree.length_le_of_nodup ?_ (fingerprint seed) ?_
  · exact List.pairwise_map.mpr (merges.ascending.imp Nat.ne_of_lt)
  · intro v member
    obtain ⟨m, merged, rfl⟩ := List.mem_map.mp member
    obtain ⟨_, e, there, same⟩ := merges.known m merged
    obtain ⟨mark, marked, _, rfl⟩ := (words e).mp there
    have known : (flagsOf rules mark.1).isSome := flagsOf_isSome_iff.mpr (.inr ⟨mark, marked, rfl⟩)
    rw [← flags, DomainTrie.flagsAt] at known
    obtain ⟨flags, located⟩ := Option.isSome_iff_exists.mp known
    obtain ⟨id, located, _⟩ := Option.bind_eq_some_iff.mp located
    exact ⟨mark.1, id, located,
      (fingerprintOf_domainEntry (flags_lt_of_mem_marks marked) _).symm.trans same⟩

end Words

section Databases

variable {lib : StringsLibrary} {name : Text} {includeSubdomains : Bool}
  {events : List LoadEvent} {db : DomainDB}

/-- A list that makes a database makes a compact one, with the words of its rules. -/
theorem newDomainCompactDB_eq_ok (seed : Nat)
    (loaded : newDomainDB lib name includeSubdomains events = .ok db) :
    ∃ entries, newDomainCompactDB lib seed name includeSubdomains events =
        .ok ⟨name, buildFingerprints seed entries, includeSubdomains⟩ ∧
      ∀ e, e ∈ entries ↔ IsWord seed (rulesOn lib includeSubdomains (lastAttempt events)) e := by
  obtain ⟨b, built, _⟩ := bind_eq_ok_iff.mp loaded
  obtain ⟨accepted, _⟩ := domainRules_eq_ok_iff.mp built
  obtain ⟨_, members⟩ := Collected.sound_new.records seed
    (rulesOn lib includeSubdomains (lastAttempt events))
  refine ⟨_, bind_eq_ok_iff.mpr ⟨_, domainRules_eq_ok_iff.mpr ⟨accepted, List.foldlM_pure⟩, rfl⟩,
    fun e => (members e).trans ?_⟩
  simp [Collected.new]

/-- The names whose fingerprints matter for a query: those on the way to a rule or to the name
itself. -/
def involved (rules : List Rule) (query : Text) : Set (List Label) :=
  { name | name ≠ [] ∧ ((∃ rule ∈ rules, name <:+ filed rule.base) ∨ name <:+ labels query) }

theorem mem_involved_of_mem_marks {rules : List Rule} {mark : List Label × Nat}
    (marked : mark ∈ rules.flatMap Rule.marks) (proper : mark.1 ≠ []) (query : Text) :
    mark.1 ∈ involved rules query := by
  obtain ⟨rule, loaded, member⟩ := List.mem_flatMap.mp marked
  refine ⟨proper, .inl ⟨rule, loaded, ?_⟩⟩
  rcases Rule.mem_marks.mp member with ⟨within, _⟩ | same
  · exact within
  · rw [same]

/-- A compact database hits what the database of the same list hits, and is the same on a query
for which no two fingerprints coincide. -/
theorem compact_refines (lib : StringsLibrary) (seed : Nat) (name : Text) (includeSubdomains : Bool)
    (events : List LoadEvent) (db : DomainDB)
    (loaded : newDomainDB lib name includeSubdomains events = .ok db)
    (fits : db.trie.blob.length < 2 ^ 32) :
    ∃ compact, newDomainCompactDB lib seed name includeSubdomains events = .ok compact ∧
      ∀ question,
        ((∃ found, db.matchQuestion lib question = some (some found)) →
            ∃ found, compact.matchQuestion lib question = some (some found)) ∧
          (Set.InjOn (fingerprint seed) (involved
              (rulesOn lib includeSubdomains (lastAttempt events)) (domainQueryName lib question)) →
            compact.matchQuestion lib question = db.matchQuestion lib question) := by
  obtain ⟨entries, built, words⟩ := newDomainCompactDB_eq_ok seed loaded
  obtain ⟨_, tree, stores, flagsAt_eq⟩ := stores_newDomainDB loaded fits
  obtain ⟨flags, kept, walks⟩ := match_eq_walk loaded fits
  have few : (buildFingerprints seed entries).entries.length < 2 ^ 32 := by
    have nodes := stores.nodes_length
    have bound : db.trie.nodes.length ≤ 2 ^ 28 := stores.few
    have length := length_buildFingerprints_le words flagsAt_eq
    omega
  obtain ⟨included, includes⟩ := includes_rootFlags words kept
  refine ⟨_, built, fun question => ?_⟩
  rw [DomainDB.matchQuestion, walks, DomainCompactDB.matchQuestion, DomainCompactDB.match_eq_walk]
  constructor
  · rintro ⟨found, hit⟩
    have hit := walk_ne_none_of_includes (includes_lookup words few) name
      (domainQueryName lib question) included (by rw [Option.some.inj hit]; simp)
    obtain ⟨found, hit⟩ := Option.ne_none_iff_exists'.mp hit
    exact ⟨found, congrArg some hit⟩
  · intro distinct
    refine congrArg some (walk_congr name _ ?_ included includes).symm
    intro label above within
    rw [List.append_nil, reverse_map_label_matchRounds] at within
    apply lookup_eq_or words few
    intro mark marked proper same
    exact distinct (mem_involved_of_mem_marks marked proper _) ⟨by simp, .inr within⟩ same

end Databases

/-- The names on the way to the rules of the sample and to a name below one of them. -/
def sampleNames : List (List Label) :=
  [[text "com"], [text "example", text "com"], [text "net"], [text "example", text "net"],
    [text "www", text "example", text "net"]]

theorem mem_sampleNames {name : List Label}
    (member : name ∈ involved (rulesOn asciiStrings false (lastAttempt (loadOf sampleLines)))
      (domainQueryName asciiStrings (text "www.Example.net."))) : name ∈ sampleNames := by
  have listed : ∀ rule ∈ rulesOn asciiStrings false (lastAttempt (loadOf sampleLines)),
      ∀ name ∈ (filed rule.base).tails, name ≠ [] → name ∈ sampleNames := by decide +kernel
  have asked : ∀ name ∈ (labels (domainQueryName asciiStrings (text "www.Example.net."))).tails,
      name ≠ [] → name ∈ sampleNames := by decide +kernel
  obtain ⟨proper, ⟨rule, loaded, within⟩ | within⟩ := member
  · exact listed rule loaded name ((List.mem_tails _ _).mpr within) proper
  · exact asked name ((List.mem_tails _ _).mpr within) proper

theorem sample_compact_refines :
    ∃ compact, newDomainCompactDB asciiStrings 7 (text "sample") false (loadOf sampleLines) =
        .ok compact ∧
      compact.matchQuestion asciiStrings (text "www.Example.net.") =
        some (some ⟨text "sample", text "*.example.net"⟩) := by
  obtain ⟨compact, built, agree⟩ := compact_refines asciiStrings 7 (text "sample") false
    (loadOf sampleLines) sampleDB (by decide +kernel) (by decide)
  have distinct : ∀ first ∈ sampleNames, ∀ second ∈ sampleNames,
      fingerprint 7 first = fingerprint 7 second → first = second := by decide +kernel
  have same := (agree (text "www.Example.net.")).2 fun first member second member' equal =>
    distinct first (mem_sampleNames member) second (mem_sampleNames member') equal
  exact ⟨compact, built, same.trans (by decide +kernel)⟩

end RouteDns.Blocklist
