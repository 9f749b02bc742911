import RouteDns.Program.Core
import RouteDns.Blocklist.Trie

/-!
# Building a trie

Rules are recorded one after the other: each walks down from the root, adds the nodes that are
missing and sets its flag on the last.  Whatever the order of the rules, the nodes end up with
the flags the rules set on the names they stand for.
-/

namespace RouteDns.Blocklist

open Dns

/-- Record a rule for a domain. -/
def DomainBuilder.record [LabelHash] (b : DomainBuilder) (domain : Text) (flag : Nat) :
    Except Fault DomainBuilder :=
  ((rounds domain).foldlM (fun (at_ : Nat × DomainBuilder) round => at_.2.child at_.1 round.label)
    (0, b)).map fun at_ => at_.2.withFlag at_.1 flag

/-! ## Builders and trees -/

/-- The flags a trie keeps for the names of a tree. -/
def DomainTrie.flagsAt (t : DomainTrie) (tree : EdgeTree Label) : FlagMap :=
  fun name => (tree.locate name).bind fun id => t.nodes[id]?.map DomainNode.flags

/-- A builder stands for a tree of labels. -/
structure DomainBuilder.Stores [LabelHash] (b : DomainBuilder) (tree : EdgeTree Label) : Prop
    extends b.toDomainTrie.Stores tree where
  parents_eq : b.parents = 0 :: tree.edges.map Prod.fst
  inside : ∀ node ∈ b.nodes, node.Inside b.blob
  children : ∀ edge ∈ tree.edges, ∀ node, b.nodes[edge.1]? = some node →
    node.flags ||| ruleHasChildren = node.flags

namespace DomainBuilder

theorem getElem?_modify_withFlag (nodes : List DomainNode) (node flag id : Nat) :
    (nodes.modify node (DomainNode.withFlag flag))[id]? =
      nodes[id]?.map fun n => if node = id then n.withFlag flag else n :=
  List.getElem?_modify _ _ _ _

/-- Flags do not touch labels. -/
theorem labelAt_withFlag (b : DomainBuilder) (node flag id : Nat) :
    (b.withFlag node flag).labelAt id = b.labelAt id := by
  unfold DomainTrie.labelAt withFlag
  rw [getElem?_modify_withFlag]
  cases b.nodes[id]? with
  | none => rfl
  | some n =>
    simp only [Option.map_some, Option.bind_some]
    split <;> rfl

theorem inside_of_mem_modify {nodes : List DomainNode} {blob : Text}
    (inside : ∀ node ∈ nodes, node.Inside blob) (place flag : Nat) :
    ∀ node ∈ nodes.modify place (DomainNode.withFlag flag), node.Inside blob := by
  intro node member
  obtain ⟨id, found⟩ := List.mem_iff_getElem?.mp member
  rw [getElem?_modify_withFlag] at found
  obtain ⟨source, there, rfl⟩ := Option.map_eq_some_iff.mp found
  have within := inside source (List.mem_of_getElem? there)
  split
  · exact within
  · exact within

variable [LabelHash] {above : List Label}

namespace Stores

variable {b : DomainBuilder} {tree : EdgeTree Label} (stores : b.Stores tree)
include stores

variable {id : Nat} {name : List Label}

/-- The node of a name. -/
theorem exists_node (located : tree.locate name = some id) :
    ∃ node, b.nodes[id]? = some node := by
  have bound := EdgeTree.locate_le located
  have nodes := stores.nodes_length
  exact ⟨_, List.getElem?_eq_getElem (show id < b.nodes.length by omega)⟩

theorem lt_maxDomainNodes {node : Nat} (inside : node ≤ tree.edges.length) :
    node < maxDomainNodes := by
  have nodes := stores.nodes_length
  have few := stores.few
  omega

theorem flags_modify (located : tree.locate name = some id) {nodes : List DomainNode} (flag : Nat)
    (nodes_eq : ∀ place ≤ tree.edges.length,
      nodes[place]? = b.nodes[place]?.map fun n => if id = place then n.withFlag flag else n)
    (other : List Label) :
    ((tree.locate other).bind fun place => nodes[place]?.map DomainNode.flags) =
      (b.flagsAt tree).mark name flag other := by
  unfold FlagMap.mark
  cases there : tree.locate other with
  | none =>
    have differs : other ≠ name := by
      rintro rfl
      rw [located] at there
      cases there
    rw [Function.update_of_ne differs, DomainTrie.flagsAt, there]
    rfl
  | some place =>
    obtain ⟨node, found⟩ := stores.exists_node there
    rw [Option.bind_some, nodes_eq place (EdgeTree.locate_le there), found]
    by_cases same : other = name
    · subst same
      rw [located] at there
      cases there
      rw [Function.update_self, DomainTrie.flagsAt, located, Option.bind_some, found]
      simp [DomainNode.withFlag]
    · have differs : id ≠ place := by
        rintro rfl
        exact same (EdgeTree.locate_injective there located)
      rw [Function.update_of_ne same, DomainTrie.flagsAt, there, Option.bind_some, found]
      simp [differs]

/-- Setting a flag on the node of a name. -/
theorem withFlag (located : tree.locate name = some id) (flag : Nat) :
    (b.withFlag id flag).Stores tree ∧
      (b.withFlag id flag).flagsAt tree = (b.flagsAt tree).mark name flag := by
  have length : (b.withFlag id flag).nodes.length = b.nodes.length := List.length_modify _ _ _
  refine ⟨⟨⟨length.trans stores.nodes_length, ?_, stores.table, ?_, ?_⟩, stores.parents_eq, ?_, ?_⟩,
    ?_⟩
  · intro place edge found
    rw [labelAt_withFlag]
    exact stores.label_eq place edge found
  · rw [length]
    exact stores.room
  · rw [length]
    exact stores.few
  · exact inside_of_mem_modify stores.inside id flag
  · intro edge member node found
    rw [DomainBuilder.withFlag, getElem?_modify_withFlag] at found
    obtain ⟨source, there, rfl⟩ := Option.map_eq_some_iff.mp found
    have flagged := stores.children edge member source there
    split
    · rw [DomainNode.withFlag]
      rw [Nat.or_right_comm, flagged]
    · exact flagged
  · funext other
    exact stores.flags_modify located flag (fun place _ => getElem?_modify_withFlag _ _ _ _) other

/-- A larger table holds the same tree. -/
theorem rebuild {size : Nat} (room : 3 * b.nodes.length ≤ 2 * size) :
    ∃ slots, b.rebuild size = some { b with slots := slots } ∧ slots.length = size ∧
      DomainBuilder.Stores { b with slots := slots } tree := by
  have nodes := stores.nodes_length
  obtain ⟨slots, built, length, holds⟩ := rebuild_holds stores.nodes_length stores.parents_eq
    stores.label_eq stores.few (show tree.edges.length ≤ size by omega)
  refine ⟨slots, built, length, ⟨⟨nodes, stores.label_eq, ?_, ?_, stores.few⟩, stores.parents_eq,
    stores.inside, stores.children⟩⟩
  · rwa [length]
  · rwa [length]

/-! ### New nodes -/

section Extend

variable {node : Nat} {label : Label}

theorem getElem?_extend_old {place : Nat} (before : place ≤ tree.edges.length) :
    (b.extend node label).nodes[place]? =
      b.nodes[place]?.map fun n => if node = place then n.withFlag ruleHasChildren else n := by
  have nodes := stores.nodes_length
  rw [DomainBuilder.extend, DomainBuilder.withFlag, getElem?_modify_withFlag,
    List.getElem?_append_left (by omega)]

theorem getElem?_extend_last (inside : node ≤ tree.edges.length) :
    (b.extend node label).nodes[tree.edges.length + 1]? = some (DomainNode.new b.blob label) := by
  have nodes := stores.nodes_length
  rw [DomainBuilder.extend, DomainBuilder.withFlag, getElem?_modify_withFlag, ← nodes,
    List.getElem?_concat_length, Option.map_some, if_neg (by omega)]

theorem length_extend : (b.extend node label).nodes.length = tree.edges.length + 1 + 1 := by
  simp [DomainBuilder.extend, DomainBuilder.withFlag, stores.nodes_length]

theorem text_blobWith (fits : (blobWith b.blob label).length < 2 ^ 32) {n : DomainNode}
    (member : n ∈ b.nodes) :
    n.Inside (blobWith b.blob label) ∧ n.text (blobWith b.blob label) = n.text b.blob := by
  have within := stores.inside n member
  unfold blobWith at fits ⊢
  split
  · exact ⟨within, rfl⟩
  · rename_i long
    rw [if_neg long, List.length_append] at fits
    exact ⟨within.append label, within.text_append (by omega) label⟩

theorem labelAt_extend_old (fits : (blobWith b.blob label).length < 2 ^ 32) {place : Nat}
    (before : place ≤ tree.edges.length) :
    (b.extend node label).labelAt place = b.labelAt place := by
  unfold DomainTrie.labelAt
  rw [stores.getElem?_extend_old before]
  cases there : b.nodes[place]? with
  | none => rfl
  | some n =>
    have same := (stores.text_blobWith fits (List.mem_of_getElem? there)).2
    simp only [Option.map_some, Option.bind_some]
    rw [← same]
    split <;> rfl

theorem labelAt_extend_last (inside : node ≤ tree.edges.length)
    (short : label.length ≤ maxDomainLabel) (fits : (blobWith b.blob label).length < 2 ^ 32) :
    (b.extend node label).labelAt (tree.edges.length + 1) = some label := by
  unfold DomainTrie.labelAt
  rw [stores.getElem?_extend_last inside]
  exact DomainNode.text_new short fits

theorem inside_extend (short : label.length ≤ maxDomainLabel)
    (fits : (blobWith b.blob label).length < 2 ^ 32) :
    ∀ n ∈ (b.extend node label).nodes, n.Inside (blobWith b.blob label) := by
  apply inside_of_mem_modify
  intro n member
  rcases List.mem_append.mp member with old | new
  · exact (stores.text_blobWith fits old).1
  · rw [List.mem_singleton.mp new]
    exact DomainNode.inside_new short fits

variable (inside : node ≤ tree.edges.length) (fresh : (node, label) ∉ tree.edges)

theorem label_eq_extend (short : label.length ≤ maxDomainLabel)
    (fits : (blobWith b.blob label).length < 2 ^ 32) (place : Nat) (edge : Nat × Label)
    (found : (tree.grow node label inside fresh).edges[place]? = some edge) :
    (b.extend node label).labelAt (place + 1) = some edge.2 := by
  rcases Nat.lt_or_ge place tree.edges.length with before | after
  · rw [stores.labelAt_extend_old fits before]
    rw [EdgeTree.grow, List.getElem?_append_left before] at found
    exact stores.label_eq place edge found
  · have place_eq : place = tree.edges.length := by
      obtain ⟨bound, _⟩ := List.getElem?_eq_some_iff.mp found
      simp only [EdgeTree.grow, List.length_append, List.length_singleton] at bound
      omega
    subst place_eq
    rw [EdgeTree.grow, List.getElem?_concat_length] at found
    cases found
    exact stores.labelAt_extend_last inside short fits

theorem children_extend (edge : Nat × Label)
    (member : edge ∈ (tree.grow node label inside fresh).edges) (n : DomainNode)
    (found : (b.extend node label).nodes[edge.1]? = some n) :
    n.flags ||| ruleHasChildren = n.flags := by
  have before : edge.1 ≤ tree.edges.length := by
    rcases List.mem_append.mp member with old | new
    · obtain ⟨place, there⟩ := List.mem_iff_getElem?.mp old
      obtain ⟨bound, _⟩ := List.getElem?_eq_some_iff.mp there
      have ordered := tree.ordered place edge there
      omega
    · rw [List.mem_singleton.mp new]
      exact inside
  rw [stores.getElem?_extend_old before] at found
  obtain ⟨source, there, rfl⟩ := Option.map_eq_some_iff.mp found
  split
  · simp only [DomainNode.withFlag]
    rw [Nat.or_assoc, Nat.or_self]
  · rename_i differs
    rcases List.mem_append.mp member with old | new
    · exact stores.children edge old source there
    · exact absurd (congrArg Prod.fst (List.mem_singleton.mp new)).symm differs

theorem flagsAt_extend (located : tree.locate above = some node) :
    (b.extend node label).flagsAt (tree.grow node label inside fresh) =
      ((b.flagsAt tree).mark above ruleHasChildren).mark (label :: above) 0 := by
  funext other
  rw [DomainTrie.flagsAt, EdgeTree.locate_grow inside fresh located]
  by_cases new : other = label :: above
  · have missing : tree.locate (label :: above) = none := by
      rw [EdgeTree.locate_cons, located]
      exact EdgeTree.child_eq_none_iff.mpr fresh
    have proper : label :: above ≠ above := List.cons_ne_self _ _
    subst new
    rw [if_pos rfl, Option.bind_some, stores.getElem?_extend_last inside, FlagMap.mark,
      Function.update_self, FlagMap.mark, Function.update_of_ne proper, DomainTrie.flagsAt, missing]
    simp [DomainNode.new]
  · rw [if_neg new, FlagMap.mark, Function.update_of_ne new]
    exact stores.flags_modify located ruleHasChildren
      (fun place before => stores.getElem?_extend_old before) other

end Extend

section Child

variable {node : Nat} (inside : node ≤ tree.edges.length) {label : Label}

/-- A new child of a node. -/
theorem addChild (fresh : (node, label) ∉ tree.edges)
    (room : 3 * (b.nodes.length + 1) ≤ 2 * b.slots.length)
    (few : b.nodes.length < maxDomainNodes) :
    ∃ slots,
      b.addChild node label = .ok (b.nodes.length, { b.extend node label with slots := slots }) ∧
      (label.length ≤ maxDomainLabel → (blobWith b.blob label).length < 2 ^ 32 →
        DomainBuilder.Stores { b.extend node label with slots := slots }
          (tree.grow node label inside fresh)) := by
  have nodes := stores.nodes_length
  obtain ⟨slots, stored, length, holds⟩ := trieAdd_holds stores.table
    (show tree.edges.length < b.slots.length by omega) (stores.lt_maxDomainNodes inside)
    (show tree.edges.length + 1 < maxDomainNodes by omega) label
  refine ⟨slots, ?_, ?_⟩
  · rw [← nodes] at stored
    have same : (b.extend node label).slots = b.slots := rfl
    rw [DomainBuilder.addChild]
    simp only [same, stored]
  · intro short fits
    refine ⟨⟨?_, stores.label_eq_extend inside fresh short fits, ?_, ?_, ?_⟩, ?_,
      stores.inside_extend short fits, stores.children_extend inside fresh⟩
    · simp [stores.length_extend, EdgeTree.grow]
    · rw [← length] at holds
      exact holds
    · simp only [stores.length_extend, length]
      omega
    · simp only [stores.length_extend]
      omega
    · simp [DomainBuilder.extend, DomainBuilder.withFlag, EdgeTree.grow, stores.parents_eq]

/-- A child that is there is returned. -/
theorem child_found (inside : node ≤ tree.edges.length) (found : tree.child node label = some id) :
    b.child node label = .ok (id, b) := by
  rw [DomainBuilder.child, stores.trieFind_eq (stores.lt_maxDomainNodes inside), found]

/-- A child that is not there is added, if there is a number left for it. -/
theorem child_new (fresh : (node, label) ∉ tree.edges) (few : b.nodes.length < maxDomainNodes) :
    ∃ slots,
      b.child node label = .ok (b.nodes.length, { b.extend node label with slots := slots }) ∧
      (label.length ≤ maxDomainLabel → (blobWith b.blob label).length < 2 ^ 32 →
        DomainBuilder.Stores { b.extend node label with slots := slots }
          (tree.grow node label inside fresh)) := by
  rw [DomainBuilder.child, stores.trieFind_eq (stores.lt_maxDomainNodes inside),
    EdgeTree.child_eq_none_iff.mpr fresh]
  simp only [Nat.not_le.mpr few, if_false]
  split
  · have room := stores.room
    have nodes := stores.nodes_length
    obtain ⟨slots, rebuilt, length, stores⟩ :=
      stores.rebuild (show 3 * b.nodes.length ≤ 2 * (b.slots.length * 2) by omega)
    rw [rebuilt]
    exact stores.addChild inside fresh (by simp only [length]; omega) few
  · exact stores.addChild inside fresh (by omega) few

/-- A child that is not there is refused if all numbers are taken. -/
theorem child_full (inside : node ≤ tree.edges.length) (fresh : (node, label) ∉ tree.edges)
    (full : maxDomainNodes ≤ b.nodes.length) :
    b.child node label =
      .error (.refused (Dns.text "blocklist has more than 268435456 labels")) := by
  rw [DomainBuilder.child, stores.trieFind_eq (stores.lt_maxDomainNodes inside),
    EdgeTree.child_eq_none_iff.mpr fresh]
  simp only [full, if_true]

/-- What a successful call did. -/
theorem child_cases {b' : DomainBuilder} (ran : b.child node label = .ok (id, b')) :
    tree.child node label = some id ∧ b' = b ∨
      ∃ (fresh : (node, label) ∉ tree.edges) (slots : List Nat), id = tree.edges.length + 1 ∧
        b' = { b.extend node label with slots := slots } ∧
        (label.length ≤ maxDomainLabel → b'.blob.length < 2 ^ 32 →
          b'.Stores (tree.grow node label inside fresh)) := by
  cases found : tree.child node label with
  | some old =>
    rw [stores.child_found inside found] at ran
    cases ran
    exact .inl ⟨rfl, rfl⟩
  | none =>
    have fresh := EdgeTree.child_eq_none_iff.mp found
    rcases Nat.lt_or_ge b.nodes.length maxDomainNodes with few | full
    · obtain ⟨slots, added, keeps⟩ := stores.child_new inside fresh few
      rw [added] at ran
      cases ran
      exact .inr ⟨fresh, slots, stores.nodes_length, rfl, keeps⟩
    · rw [stores.child_full inside fresh full] at ran
      cases ran

end Child

/-- The child of the node of a name. -/
theorem child {node : Nat} (located : tree.locate above = some node) {label : Label}
    (short : label.length ≤ maxDomainLabel) {b' : DomainBuilder}
    (ran : b.child node label = .ok (id, b')) (fits : b'.blob.length < 2 ^ 32) :
    ∃ tree', b'.Stores tree' ∧ tree'.locate (label :: above) = some id ∧
      b'.flagsAt tree' = ((b.flagsAt tree).mark above ruleHasChildren).mark (label :: above) 0 := by
  rcases stores.child_cases (EdgeTree.locate_le located) ran with
    ⟨found, rfl⟩ | ⟨fresh, slots, rfl, rfl, keeps⟩
  · have there : tree.locate (label :: above) = some id := by
      rw [EdgeTree.locate_cons, located, Option.bind_some, found]
    obtain ⟨place, _, edge⟩ := EdgeTree.child_eq_some_iff.mp found
    obtain ⟨parent, parent_eq⟩ := stores.exists_node located
    obtain ⟨old, old_eq⟩ := stores.exists_node there
    have flagged := stores.children _ (List.mem_of_getElem? edge) parent parent_eq
    have above_flags : b'.flagsAt tree above = some parent.flags := by
      rw [DomainTrie.flagsAt, located, Option.bind_some, parent_eq]
      rfl
    have there_flags : b'.flagsAt tree (label :: above) = some old.flags := by
      rw [DomainTrie.flagsAt, there, Option.bind_some, old_eq]
      rfl
    rw [FlagMap.mark_eq_self above_flags flagged, FlagMap.mark_eq_self there_flags (Nat.or_zero _)]
    exact ⟨tree, stores, there, rfl⟩
  · refine ⟨_, keeps short fits, ?_, stores.flagsAt_extend _ fresh located⟩
    rw [EdgeTree.locate_grow _ fresh located, if_pos rfl]

end Stores

variable {b b' : DomainBuilder}

/-- The blob only grows. -/
theorem child_blob_le {node id : Nat} {label : Label} (ran : b.child node label = .ok (id, b')) :
    b.blob.length ≤ b'.blob.length := by
  have appended : ∀ c : DomainBuilder, c.addChild node label = .ok (id, b') →
      c.blob.length ≤ b'.blob.length := by
    intro c added
    rw [addChild] at added
    split at added
    · cases added
    · cases added
      simp only [extend, withFlag, blobWith]
      split
      · exact Nat.le_refl _
      · rw [List.length_append]
        exact Nat.le_add_right _ _
  rw [child] at ran
  split at ran
  · cases ran
  · cases ran
    exact Nat.le_refl _
  · split at ran
    · cases ran
    split at ran
    · split at ran
      · cases ran
      · rename_i c rebuilt
        rw [rebuild] at rebuilt
        obtain ⟨slots, _, rfl⟩ := Option.map_eq_some_iff.mp rebuilt
        exact appended { b with slots := slots } ran
    · exact appended b ran

section Descend

variable {rest : List Label} {b b' : DomainBuilder} {node id : Nat}

theorem descend_blob_le
    (ran : rest.foldlM (fun (at_ : Nat × DomainBuilder) label => at_.2.child at_.1 label)
      (node, b) = .ok (id, b')) : b.blob.length ≤ b'.blob.length := by
  induction rest generalizing b node with
  | nil =>
    cases ran
    exact Nat.le_refl _
  | cons label rest ih =>
    rw [List.foldlM_cons] at ran
    obtain ⟨⟨next, c⟩, step, further⟩ := bind_eq_ok_iff.mp ran
    exact Nat.le_trans (child_blob_le step) (ih further)

/-- The nodes for the labels of a rule, and the flag on the last. -/
theorem Stores.descend {tree : EdgeTree Label} (stores : b.Stores tree)
    (located : tree.locate above = some node) (flag : Nat)
    (short : ∀ label ∈ rest, label.length ≤ maxDomainLabel)
    (ran : rest.foldlM (fun (at_ : Nat × DomainBuilder) label => at_.2.child at_.1 label)
      (node, b) = .ok (id, b')) (fits : b'.blob.length < 2 ^ 32) :
    ∃ tree', (b'.withFlag id flag).Stores tree' ∧
      (b'.withFlag id flag).flagsAt tree' =
        (b.flagsAt tree).markAll (marksFrom flag above rest) := by
  induction rest generalizing b tree above node with
  | nil =>
    cases ran
    exact ⟨tree, stores.withFlag located flag⟩
  | cons label rest ih =>
    rw [List.foldlM_cons] at ran
    obtain ⟨⟨next, c⟩, step, further⟩ := bind_eq_ok_iff.mp ran
    obtain ⟨first, others⟩ := List.forall_mem_cons.mp short
    have within := Nat.lt_of_le_of_lt (descend_blob_le further) fits
    obtain ⟨tree', kept, there, flags⟩ := stores.child located first step within
    obtain ⟨tree'', kept, marked⟩ := ih kept there others further
    refine ⟨tree'', kept, marked.trans ?_⟩
    rw [flags, FlagMap.markAll_marksFrom, marksFrom]
    rfl

end Descend

/-- A rule is recorded along the labels it is filed under. -/
theorem record_eq_ok_iff {domain : Text} {flag : Nat} :
    b.record domain flag = .ok b' ↔ ∃ id c,
      (filed domain).reverse.foldlM
        (fun (at_ : Nat × DomainBuilder) label => at_.2.child at_.1 label) (0, b) = .ok (id, c) ∧
      c.withFlag id flag = b' := by
  rw [record, ← map_label_rounds, List.foldlM_map]
  cases (rounds domain).foldlM
      (fun (at_ : Nat × DomainBuilder) round => at_.2.child at_.1 round.label) (0, b) with
  | error fault => simp [Except.map]
  | ok reached => simp [Except.map, Prod.ext_iff]

theorem record_blob_le {domain : Text} {flag : Nat} (ran : b.record domain flag = .ok b') :
    b.blob.length ≤ b'.blob.length := by
  obtain ⟨id, c, walked, rfl⟩ := record_eq_ok_iff.mp ran
  show b.blob.length ≤ c.blob.length
  exact descend_blob_le walked

/-- Recording a rule sets its flags. -/
theorem Stores.record {tree : EdgeTree Label} (stores : b.Stores tree) {rule : Rule}
    (plain : rule.Plain) (ran : b.record rule.base rule.shape.flag = .ok b')
    (fits : b'.blob.length < 2 ^ 32) :
    ∃ tree', b'.Stores tree' ∧ b'.flagsAt tree' = (b.flagsAt tree).markAll rule.marks := by
  obtain ⟨id, c, walked, rfl⟩ := record_eq_ok_iff.mp ran
  exact stores.descend EdgeTree.locate_nil rule.shape.flag
    (fun label member => plain.length_le (List.mem_reverse.mp member)) walked fits

end DomainBuilder

end RouteDns.Blocklist
