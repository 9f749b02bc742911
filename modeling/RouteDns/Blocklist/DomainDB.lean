import RouteDns.Blocklist.Builder

/-!
# Databases of domain rules

A database is the finished trie of a list.  A match walks down the trie, so it is decided by
the flags the rules of the list set; it reports the rule with the shortest base that covers the
name.

Two inputs are not read as rules and names are meant to be read.  An empty base, left over from
a line like `..`, is filed under an empty label instead of the root.  And a rule for a name
itself is reported as the query wrote it, with a leading dot if the query has one.
-/

namespace RouteDns.Blocklist

open Dns

structure DomainDB where
  name : Text
  trie : DomainTrie
  includeSubdomains : Bool
  deriving DecidableEq

def newDomainDB (lib : StringsLibrary) (name : Text) (includeSubdomains : Bool)
    (events : List LoadEvent) : Except Fault DomainDB := do
  let b ← domainRules lib includeSubdomains DomainBuilder.new DomainBuilder.record events
  let trie ← b.done
  pure { name := name, trie := trie, includeSubdomains := includeSubdomains }

/-- The flags of a node. -/
def DomainTrie.flagsOfNode (t : DomainTrie) (node : Nat) : Nat :=
  (t.nodes[node]?.map DomainNode.flags).getD 0

/-- Match a name.  The outer option is empty if a search of the trie has no result. -/
def DomainDB.match_ (db : DomainDB) (name : Text) : Option (Option BlocklistMatch) :=
  matchFrom
    (fun node label => (trieFind db.trie node label).map
      (Option.map fun child => (child, db.trie.flagsOfNode child)))
    db.name name 0 (db.trie.flagsOfNode 0) (matchRounds name)

/-- Match the question of a query. -/
def DomainDB.matchQuestion (db : DomainDB) (lib : StringsLibrary) (question : Name) :
    Option (Option BlocklistMatch) :=
  db.match_ (domainQueryName lib question)

/-! ## The trie of a list -/

theorem stores_new [LabelHash] : DomainBuilder.new.Stores EdgeTree.bare ∧
    DomainBuilder.new.flagsAt EdgeTree.bare = noRules := by
  refine ⟨⟨⟨rfl, by simp [EdgeTree.bare], ?_, by decide, by decide⟩, rfl, ?_, ?_⟩, ?_⟩
  · exact OpenAddressing.holds_replicate 64 rfl
  · intro node member long
    cases List.mem_singleton.mp member
    cases long
  · simp [EdgeTree.bare]
  · funext name
    cases name with
    | nil => rfl
    | cons label above =>
      have missing : EdgeTree.bare.locate (label :: above) = none := by
        rw [EdgeTree.locate_cons]
        cases EdgeTree.bare.locate above <;> rfl
      rw [DomainTrie.flagsAt, missing]
      rfl

section Rules

variable {rules : List Rule} {b b' : DomainBuilder}

theorem records_blob_le
    (ran : rules.foldlM (fun b rule => DomainBuilder.record b rule.base rule.shape.flag) b =
      .ok b') : b.blob.length ≤ b'.blob.length := by
  induction rules generalizing b with
  | nil =>
    cases ran
    exact Nat.le_refl _
  | cons rule rest ih =>
    rw [List.foldlM_cons] at ran
    obtain ⟨c, step, further⟩ := bind_eq_ok_iff.mp ran
    exact Nat.le_trans (DomainBuilder.record_blob_le step) (ih further)

/-- Recording rules sets their flags. -/
theorem DomainBuilder.Stores.records {tree : EdgeTree Label} (stores : b.Stores tree)
    (plain : ∀ rule ∈ rules, rule.Plain)
    (ran : rules.foldlM (fun b rule => DomainBuilder.record b rule.base rule.shape.flag) b =
      .ok b') (fits : b'.blob.length < 2 ^ 32) :
    ∃ tree', b'.Stores tree' ∧
      b'.flagsAt tree' = (b.flagsAt tree).markAll (rules.flatMap Rule.marks) := by
  induction rules generalizing b tree with
  | nil =>
    cases ran
    exact ⟨tree, stores, rfl⟩
  | cons rule rest ih =>
    rw [List.foldlM_cons] at ran
    obtain ⟨c, step, further⟩ := bind_eq_ok_iff.mp ran
    obtain ⟨first, others⟩ := List.forall_mem_cons.mp plain
    have within := Nat.lt_of_le_of_lt (records_blob_le further) fits
    obtain ⟨tree', kept, flags⟩ := stores.record first step within
    obtain ⟨tree'', kept, marked⟩ := ih kept others further
    refine ⟨tree'', kept, marked.trans ?_⟩
    rw [flags, List.flatMap_cons, FlagMap.markAll, FlagMap.markAll, FlagMap.markAll,
      List.foldl_append]

end Rules

/-- The finished trie stands for the tree of its builder. -/
theorem DomainBuilder.Stores.done [LabelHash] {b : DomainBuilder} {tree : EdgeTree Label}
    (stores : b.Stores tree) :
    ∃ slots, b.done = .ok { b.toDomainTrie with slots := slots } ∧
      DomainTrie.Stores { b.toDomainTrie with slots := slots } tree := by
  rw [DomainBuilder.done]
  split
  · obtain ⟨slots, rebuilt, _, kept⟩ := stores.rebuild
      (show 3 * b.nodes.length ≤ 2 * (domainTableSize b.nodes.length + 8) by
        rw [domainTableSize]
        omega)
    rw [rebuilt]
    exact ⟨slots, rfl, kept.toStores⟩
  · exact ⟨b.slots, rfl, stores.toStores⟩

section Database

variable {lib : StringsLibrary} {name : Text} {includeSubdomains : Bool}
  {events : List LoadEvent} {db : DomainDB}

variable (loaded : newDomainDB lib name includeSubdomains events = .ok db)
include loaded

/-- A database stands for a tree with the flags of the rules on its list. -/
theorem stores_newDomainDB (fits : db.trie.blob.length < 2 ^ 32) :
    db.name = name ∧ ∃ tree, db.trie.Stores tree ∧
      db.trie.flagsAt tree = flagsOf (rulesOn lib includeSubdomains (lastAttempt events)) := by
  obtain ⟨b, built, finished⟩ := bind_eq_ok_iff.mp loaded
  obtain ⟨trie, done, made⟩ := bind_eq_ok_iff.mp finished
  cases made
  obtain ⟨_, recorded⟩ := domainRules_eq_ok_iff.mp built
  have blob_eq : trie.blob = b.blob := by
    rw [DomainBuilder.done] at done
    split at done
    · split at done
      · cases done
      · rename_i c rebuilt
        cases done
        rw [DomainBuilder.rebuild] at rebuilt
        obtain ⟨slots, _, rfl⟩ := Option.map_eq_some_iff.mp rebuilt
        rfl
    · cases done
      rfl
  obtain ⟨tree, stores, flags⟩ := stores_new.1.records
    (fun rule member => plain_of_mem_rulesOn member) recorded (blob_eq ▸ fits)
  obtain ⟨slots, done', kept⟩ := stores.done
  rw [done] at done'
  cases done'
  rw [stores_new.2] at flags
  exact ⟨rfl, tree, kept, flags⟩

/-- A match is a walk by the flags of the rules. -/
theorem match_eq_walk (fits : db.trie.blob.length < 2 ^ 32) :
    ∃ flags, flagsOf (rulesOn lib includeSubdomains (lastAttempt events)) [] = some flags ∧
      ∀ query, db.match_ query =
        some (walk (flagsOf (rulesOn lib includeSubdomains (lastAttempt events))) name query []
          flags (matchRounds query)) := by
  obtain ⟨rfl, tree, stores, flags⟩ := stores_newDomainDB loaded fits
  rw [← flags]
  have node : ∀ id ≤ tree.edges.length,
      db.trie.nodes[id]?.map DomainNode.flags = some (db.trie.flagsOfNode id) := by
    intro id inside
    have nodes := stores.nodes_length
    rw [DomainTrie.flagsOfNode, List.getElem?_eq_getElem (by omega)]
    rfl
  refine ⟨db.trie.flagsOfNode 0, node 0 (Nat.zero_le _), fun query => ?_⟩
  refine matchFrom_eq_walk (fun node above => tree.locate above = some node) ?_ db.name query
    EdgeTree.locate_nil _ _
  intro parent above label located
  have few := stores.few
  have nodes := stores.nodes_length
  have inside := EdgeTree.locate_le located
  have located' : tree.locate (label :: above) = tree.child parent label := by
    rw [EdgeTree.locate_cons, located, Option.bind_some]
  rw [stores.trieFind_eq (by omega), DomainTrie.flagsAt, located']
  cases found : tree.child parent label with
  | none => exact .inl ⟨rfl, rfl⟩
  | some child =>
    exact .inr ⟨child, _, rfl, node child (EdgeTree.child_le found), rfl⟩

end Database

end RouteDns.Blocklist
