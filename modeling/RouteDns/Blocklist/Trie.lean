import Mathlib.Data.List.GetD
import Mathlib.Data.Nat.Bitwise
import RouteDns.Program.EdgeTree
import RouteDns.Program.OpenAddressing
import RouteDns.Blocklist.Coverage

/-!
# The trie of a domain list

The nodes of a trie are kept in one array, the labels that do not fit into a node in one blob,
and the edges in an open-addressed table.  A slot of the table is one word with the parent, the
child and a byte of the hash of the label under the parent; it is zero if it is vacant.

While a trie is built it stands for a tree of labels.  A search in the table finds the children
of that tree, wherever the hash puts them and however often the table is laid out again.
-/

namespace RouteDns.Blocklist

open Dns

/-! ## Hashes -/

def fnvOffsetBasis64 : Nat := 14695981039346656037

def fnvPrime64 : Nat := 1099511628211

def goldenRatio64 : Nat := 11400714819323198485

/-- Fold the bytes of a label into a hash. -/
def fnv (h : Nat) (label : Label) : Nat :=
  label.foldl (fun h byte => (h ^^^ byte.val) * fnvPrime64 % 2 ^ 64) h

def avalanche64 (h : Nat) : Nat :=
  let h := h ^^^ (h >>> 30)
  let h := h * 13787848793156543929 % 2 ^ 64
  let h := h ^^^ (h >>> 27)
  let h := h * 10723151780598845931 % 2 ^ 64
  h ^^^ (h >>> 31)

def domainHash (parent : Nat) (label : Label) : Nat :=
  avalanche64 (fnv (parent * goldenRatio64 % 2 ^ 64 ^^^ fnvOffsetBasis64) label)

theorem avalanche64_lt (h : Nat) : avalanche64 h < 2 ^ 64 := by
  have bound : ∀ x : Nat, x % 2 ^ 64 < 2 ^ 64 := fun x => Nat.mod_lt _ (by decide)
  exact Nat.xor_lt_two_pow (bound _) (Nat.lt_of_le_of_lt (Nat.shiftRight_le _ _) (bound _))

/-- A hash of a label together with the node it hangs under.  The table does not depend on
which one it is. -/
class LabelHash where
  hash : Nat → Label → Nat
  bounded : ∀ parent label, hash parent label < 2 ^ 64

instance : LabelHash where
  hash := domainHash
  bounded _ _ := avalanche64_lt _

/-- The low byte of a hash. -/
def tagOf (h : Nat) : Nat :=
  h % 256

/-! ## Slots -/

def domainNodeBits : Nat := 28

def maxDomainNodes : Nat := 2 ^ domainNodeBits

def domainSlotParent : Nat := 64 - domainNodeBits

def domainSlotKey : Nat := (maxDomainNodes - 1) <<< domainSlotParent ||| 255

def domainSlotChild : Nat := maxDomainNodes - 1

def domainSlot (parent child tag : Nat) : Nat :=
  parent <<< domainSlotParent % 2 ^ 64 ||| child <<< 8 ||| tag

/-- The child in a slot. -/
def slotChild (s : Nat) : Nat :=
  (s >>> 8) % 2 ^ 32 &&& domainSlotChild

/-- The start of the search for a hash. -/
def slotIndex (slots : List Nat) (h : Nat) : Nat :=
  h * slots.length / 2 ^ 64

def isVacant (s : Nat) : Bool :=
  s == 0

/-! ## Nodes -/

def domainInlineLabel : Nat := 6

/-- A node: six bytes for its label or for the place of the label in the blob. -/
structure DomainNode where
  label : List Byte
  length : Nat
  flags : Nat
  deriving DecidableEq

/-- Four bytes of a number, the least significant first. -/
def putUint32 (value : Nat) : List Byte :=
  [Fin.ofNat 256 value, Fin.ofNat 256 (value / 256), Fin.ofNat 256 (value / 256 ^ 2),
    Fin.ofNat 256 (value / 256 ^ 3)]

def uint32 : List Byte → Nat
  | [] => 0
  | byte :: rest => byte.val + 256 * uint32 rest

/-- The place of a label in the blob. -/
def DomainNode.offset (node : DomainNode) : Nat :=
  uint32 (node.label.take 4)

/-- The label of a node, from the node itself or from the blob.  The end of its place is a sum
in 32 bits, and there is no label if it lies before the start or outside of the blob. -/
def DomainNode.text (node : DomainNode) (blob : Text) : Option Label :=
  if node.length ≤ domainInlineLabel then some (node.label.take node.length)
  else
    let stop := (node.offset + node.length) % 2 ^ 32
    if node.offset ≤ stop ∧ stop ≤ blob.length then some ((blob.take stop).drop node.offset)
    else none

/-- A new node for a label, with the blob it is put behind. -/
def DomainNode.new (blob : Text) (label : Label) : DomainNode where
  label :=
    if label.length ≤ domainInlineLabel then
      label ++ List.replicate (domainInlineLabel - label.length) 0
    else putUint32 blob.length ++ [0, 0]
  length := label.length % 256
  flags := 0

/-- The blob once a label has its node. -/
def blobWith (blob : Text) (label : Label) : Text :=
  if label.length ≤ domainInlineLabel then blob else blob ++ label

def DomainNode.withFlag (flag : Nat) (node : DomainNode) : DomainNode :=
  { node with flags := node.flags ||| flag }

/-! ## Tries -/

structure DomainTrie where
  nodes : List DomainNode
  blob : Text
  slots : List Nat
  deriving DecidableEq

/-- A trie with the parents of its nodes. -/
structure DomainBuilder extends DomainTrie where
  parents : List Nat
  deriving DecidableEq

def DomainTrie.labelAt (t : DomainTrie) (node : Nat) : Option Label :=
  t.nodes[node]?.bind fun n => n.text t.blob

variable {slots : List Nat} {node : DomainNode} {edges : List (Nat × Label)} {size : Nat}

section Table

variable [LabelHash]

/-- The child of a node with a label.  The outer option is empty if the search never ends or
comes to a child without a label. -/
def trieFind (t : DomainTrie) (parent : Nat) (label : Label) : Option (Option Nat) :=
  let h := LabelHash.hash parent label
  let key := domainSlot parent 0 (tagOf h)
  (OpenAddressing.lookup isVacant
    (fun s => s &&& domainSlotKey == key && (t.labelAt (slotChild s)).all (· == label))
    t.slots (slotIndex t.slots h)).bind fun found =>
      found.elim (some none) fun s => (t.labelAt (slotChild s)).map fun _ => some (slotChild s)

/-- Record a child in a table. -/
def trieAdd (slots : List Nat) (parent : Nat) (label : Label) (node : Nat) : Option (List Nat) :=
  let h := LabelHash.hash parent label
  OpenAddressing.store isVacant slots (slotIndex slots h) (domainSlot parent node (tagOf h))

namespace DomainBuilder

/-- Record a node that is there under its parent. -/
def addAgain (b : DomainBuilder) (slots : List Nat) (id : Nat) : Option (List Nat) :=
  (b.labelAt id).bind fun label => trieAdd slots (b.parents.getD id 0) label id

/-- Lay the table out again at another size. -/
def rebuild (b : DomainBuilder) (size : Nat) : Option DomainBuilder :=
  ((List.range' 1 (b.nodes.length - 1)).foldlM b.addAgain (List.replicate size 0)).map fun slots =>
    { b with slots := slots }

/-- A trie with its root only, and a table of 64 slots. -/
def new : DomainBuilder where
  nodes := [{ label := List.replicate domainInlineLabel 0, length := 0, flags := 0 }]
  blob := []
  slots := List.replicate 64 0
  parents := [0]

/-- Set a flag on a node. -/
def withFlag (b : DomainBuilder) (node flag : Nat) : DomainBuilder :=
  { b with nodes := b.nodes.modify node (DomainNode.withFlag flag) }

/-- Append a node for a label under a parent. -/
def extend (b : DomainBuilder) (parent : Nat) (label : Label) : DomainBuilder :=
  withFlag
    { b with
      nodes := b.nodes ++ [DomainNode.new b.blob label]
      blob := blobWith b.blob label
      parents := b.parents ++ [parent] } parent ruleHasChildren

/-- Add a child that a node does not have yet; the table has room for it. -/
def addChild (b : DomainBuilder) (parent : Nat) (label : Label) :
    Except Fault (Nat × DomainBuilder) :=
  let id := b.nodes.length
  match trieAdd (b.extend parent label).slots parent label id with
  | none => .error .stuck
  | some slots => .ok (id, { b.extend parent label with slots := slots })

/-- The node for a label under a parent, added if it is new. -/
def child (b : DomainBuilder) (parent : Nat) (label : Label) :
    Except Fault (Nat × DomainBuilder) :=
  match trieFind b.toDomainTrie parent label with
  | none => .error .stuck
  | some (some node) => .ok (node, b)
  | some none =>
    if maxDomainNodes ≤ b.nodes.length then
      .error (.refused (Dns.text "blocklist has more than 268435456 labels"))
    else if b.slots.length * 2 < (b.nodes.length + 1) * 3 then
      match b.rebuild (b.slots.length * 2) with
      | none => .error .stuck
      | some b => b.addChild parent label
    else b.addChild parent label

end DomainBuilder

def domainTableSize (nodes : Nat) : Nat :=
  nodes * 3 / 2

/-- The finished trie, with a table of the size it wants. -/
def DomainBuilder.done (b : DomainBuilder) : Except Fault DomainTrie :=
  let want := domainTableSize b.nodes.length + 8
  if want * 4 / 3 < b.slots.length then
    match b.rebuild want with
    | none => .error .stuck
    | some b => .ok b.toDomainTrie
  else .ok b.toDomainTrie

/-! ## Packing -/

theorem slotIndex_lt (room : 0 < slots.length) (parent : Nat) (label : Label) :
    slotIndex slots (LabelHash.hash parent label) < slots.length := by
  rw [slotIndex, Nat.div_lt_iff_lt_mul (by decide), Nat.mul_comm slots.length]
  exact Nat.mul_lt_mul_of_pos_right (LabelHash.bounded parent label) room

end Table

theorem tagOf_lt (h : Nat) : tagOf h < 256 :=
  Nat.mod_lt _ (by decide)

section Slots

variable {parent child tag : Nat}

section

variable (inside : parent < maxDomainNodes) (below : child < maxDomainNodes) (byte : tag < 256)
include inside below byte

/-- The three parts of a slot do not overlap. -/
theorem domainSlot_eq : domainSlot parent child tag = 2 ^ 36 * parent + (2 ^ 8 * child + tag) := by
  have parent_lt : parent < 2 ^ 28 := inside
  have child_lt : child < 2 ^ 28 := below
  have high : parent <<< domainSlotParent % 2 ^ 64 = 2 ^ 36 * parent := by
    rw [Nat.shiftLeft_eq, Nat.mul_comm]
    exact Nat.mod_eq_of_lt (by simp only [domainSlotParent, domainNodeBits]; omega)
  have low : child <<< 8 ||| tag = 2 ^ 8 * child + tag := by
    rw [Nat.shiftLeft_eq, Nat.mul_comm]
    exact (Nat.two_pow_add_eq_or_of_lt byte child).symm
  rw [domainSlot, high, Nat.or_assoc, low]
  exact (Nat.two_pow_add_eq_or_of_lt (show 2 ^ 8 * child + tag < 2 ^ 36 by omega) parent).symm

theorem domainSlot_ne_zero (proper : child ≠ 0) : domainSlot parent child tag ≠ 0 := by
  rw [domainSlot_eq inside below byte]
  omega

theorem slotChild_domainSlot : slotChild (domainSlot parent child tag) = child := by
  have child_lt : child < 2 ^ 28 := below
  have mask : domainSlotChild = 2 ^ 28 - 1 := rfl
  rw [slotChild, domainSlot_eq inside below byte, mask, Nat.and_two_pow_sub_one_eq_mod,
    Nat.shiftRight_eq_div_pow]
  omega

/-- The key of a slot is the slot without its child. -/
theorem domainSlot_and_key :
    domainSlot parent child tag &&& domainSlotKey = domainSlot parent 0 tag := by
  have parent_lt : parent < 2 ^ 28 := inside
  have child_lt : child < 2 ^ 28 := below
  have key : domainSlotKey = 2 ^ 36 * (2 ^ 28 - 1) + (2 ^ 8 - 1) := by decide
  rw [domainSlot_eq inside below byte, domainSlot_eq inside (by decide) byte, key]
  apply Nat.eq_of_testBit_eq
  intro index
  have low : 2 ^ 8 * child + tag < 2 ^ 36 := by omega
  have low' : 2 ^ 8 * 0 + tag < 2 ^ 36 := by omega
  have ones : 2 ^ 8 - 1 < 2 ^ 36 := by decide
  rw [Nat.testBit_and, Nat.testBit_two_pow_mul_add _ low, Nat.testBit_two_pow_mul_add _ low',
    Nat.testBit_two_pow_mul_add _ ones, Nat.testBit_two_pow_mul_add child byte,
    Nat.testBit_two_pow_mul_add 0 byte, Nat.testBit_two_pow_sub_one, Nat.testBit_two_pow_sub_one]
  split
  · split
    · rename_i first
      simp [first]
    · rename_i later
      simp [later]
  · by_cases within : index - 36 < 28
    · simp [within]
    · have outside : parent.testBit (index - 36) = false :=
        Nat.testBit_lt_two_pow (Nat.lt_of_lt_of_le parent_lt
          (Nat.pow_le_pow_right (by decide) (Nat.not_lt.mp within)))
      simp [within, outside]

end

theorem domainSlot_key_inj {parent' tag' : Nat} (inside : parent < maxDomainNodes)
    (byte : tag < 256) (inside' : parent' < maxDomainNodes) (byte' : tag' < 256)
    (same : domainSlot parent 0 tag = domainSlot parent' 0 tag') : parent = parent' := by
  rw [domainSlot_eq inside (by decide) byte, domainSlot_eq inside' (by decide) byte'] at same
  omega

end Slots

/-! ## Labels of nodes -/

theorem uint32_putUint32 {value : Nat} (fits : value < 2 ^ 32) :
    uint32 (putUint32 value) = value := by
  simp only [putUint32, uint32, Fin.ofNat]
  omega

/-- The label of a node in the blob lies inside the blob. -/
def DomainNode.Inside (node : DomainNode) (blob : Text) : Prop :=
  domainInlineLabel < node.length → node.offset + node.length ≤ blob.length

theorem DomainNode.Inside.append {blob : Text} (inside : node.Inside blob) (more : Text) :
    node.Inside (blob ++ more) := by
  intro long
  rw [List.length_append]
  exact Nat.le_add_right_of_le (inside long)

/-- Labels appended to the blob leave the others as they are. -/
theorem DomainNode.Inside.text_append {blob : Text} (inside : node.Inside blob)
    (fits : blob.length < 2 ^ 32) (more : Text) : node.text (blob ++ more) = node.text blob := by
  unfold DomainNode.text
  split
  · rfl
  · rename_i long
    have within := inside (Nat.lt_of_not_le long)
    have ordered : node.offset ≤ node.offset + node.length := Nat.le_add_right _ _
    rw [Nat.mod_eq_of_lt (Nat.lt_of_le_of_lt within fits),
      if_pos ⟨ordered, inside.append more (Nat.lt_of_not_le long)⟩, if_pos ⟨ordered, within⟩,
      List.take_append_of_le_length within]

variable {blob : Text} {label : Label}

theorem DomainNode.new_long (long : ¬ label.length ≤ domainInlineLabel)
    (short : label.length ≤ maxDomainLabel) (fits : blob.length < 2 ^ 32) :
    (DomainNode.new blob label).offset = blob.length ∧
      (DomainNode.new blob label).length = label.length := by
  have bounded : label.length ≤ 63 := short
  refine ⟨?_, Nat.mod_eq_of_lt (by omega)⟩
  rw [offset, new]
  simp only [if_neg long]
  exact uint32_putUint32 fits

theorem DomainNode.inside_new (short : label.length ≤ maxDomainLabel)
    (fits : (blobWith blob label).length < 2 ^ 32) :
    (DomainNode.new blob label).Inside (blobWith blob label) := by
  intro long
  have long' : ¬ label.length ≤ domainInlineLabel := by
    simp only [new] at long
    omega
  rw [blobWith, if_neg long', List.length_append] at fits ⊢
  obtain ⟨place, length⟩ := new_long long' short (show blob.length < 2 ^ 32 by omega)
  omega

theorem DomainNode.text_new (short : label.length ≤ maxDomainLabel)
    (fits : (blobWith blob label).length < 2 ^ 32) :
    (DomainNode.new blob label).text (blobWith blob label) = some label := by
  have bounded : label.length ≤ 63 := short
  by_cases long : label.length ≤ domainInlineLabel
  · have length : (DomainNode.new blob label).length = label.length :=
      Nat.mod_eq_of_lt (by omega)
    rw [DomainNode.text, length, if_pos long, new]
    simp only [if_pos long]
    rw [List.take_left' rfl]
  · rw [blobWith, if_neg long, List.length_append] at fits
    obtain ⟨place, length⟩ := new_long long short (show blob.length < 2 ^ 32 by omega)
    have whole : (blob ++ label).length = blob.length + label.length := List.length_append
    rw [DomainNode.text, place, length, if_neg long, blobWith, if_neg long, Nat.mod_eq_of_lt fits,
      if_pos ⟨Nat.le_add_right _ _, Nat.le_of_eq whole.symm⟩,
      List.take_of_length_le (Nat.le_of_eq whole), List.drop_left' rfl]

/-! ## The table of a tree -/

variable [LabelHash]

/-- The slot for an edge and the start of the search for it. -/
def entryOf (size : Nat) (edge : Nat × Label) (id : Nat) : Nat × Nat :=
  (LabelHash.hash edge.1 edge.2 * size / 2 ^ 64,
    domainSlot edge.1 id (tagOf (LabelHash.hash edge.1 edge.2)))

/-- The slots for some edges; the edge at a place leads to the next node. -/
def entriesOf (size : Nat) (edges : List (Nat × Label)) : List (Nat × Nat) :=
  edges.mapIdx fun place edge => entryOf size edge (place + 1)

theorem length_entriesOf (size : Nat) (edges : List (Nat × Label)) :
    (entriesOf size edges).length = edges.length :=
  List.length_mapIdx

theorem entriesOf_concat (size : Nat) (edges : List (Nat × Label)) (edge : Nat × Label) :
    entriesOf size (edges ++ [edge]) =
      entriesOf size edges ++ [entryOf size edge (edges.length + 1)] := by
  simp [entriesOf, Nat.add_comm]

theorem mem_entriesOf {entry : Nat × Nat} :
    entry ∈ entriesOf size edges ↔
      ∃ (place : Nat) (edge : Nat × Label),
        edges[place]? = some edge ∧ entry = entryOf size edge (place + 1) := by
  rw [entriesOf, List.mem_mapIdx]
  constructor
  · rintro ⟨place, inside, rfl⟩
    exact ⟨place, edges[place], List.getElem?_eq_getElem inside, rfl⟩
  · rintro ⟨place, edge, found, rfl⟩
    obtain ⟨inside, rfl⟩ := List.getElem?_eq_some_iff.mp found
    exact ⟨place, inside, rfl⟩

/-- A trie stands for a tree of labels. -/
structure DomainTrie.Stores (t : DomainTrie) (tree : EdgeTree Label) : Prop where
  nodes_length : t.nodes.length = tree.edges.length + 1
  label_eq : ∀ (place : Nat) (edge : Nat × Label), tree.edges[place]? = some edge →
    t.labelAt (place + 1) = some edge.2
  table : OpenAddressing.Holds isVacant t.slots (entriesOf t.slots.length tree.edges)
  room : 3 * t.nodes.length ≤ 2 * t.slots.length
  few : t.nodes.length ≤ maxDomainNodes

namespace DomainTrie.Stores

variable {t : DomainTrie} {tree : EdgeTree Label}

variable (stores : t.Stores tree)
include stores

theorem length_lt : tree.edges.length < t.slots.length := by
  have nodes := stores.nodes_length
  have room := stores.room
  omega

/-- The nodes at both ends of an edge have numbers that fit into a slot. -/
theorem edge_lt {place : Nat} {edge : Nat × Label} (found : tree.edges[place]? = some edge) :
    edge.1 < maxDomainNodes ∧ place + 1 < maxDomainNodes := by
  obtain ⟨inside, _⟩ := List.getElem?_eq_some_iff.mp found
  have ordered := tree.ordered place edge found
  have nodes := stores.nodes_length
  have few := stores.few
  omega

/-- A search finds the child of the tree. -/
theorem trieFind_eq {parent : Nat} (inside : parent < maxDomainNodes) (label : Label) :
    trieFind t parent label = some (tree.child parent label) := by
  have start := slotIndex_lt (Nat.zero_lt_of_lt stores.length_lt) parent label
  have room : (entriesOf t.slots.length tree.edges).length < t.slots.length := by
    rw [length_entriesOf]
    exact stores.length_lt
  rcases stores.table.lookup_cases room
      (fun s => s &&& domainSlotKey == domainSlot parent 0 (tagOf (LabelHash.hash parent label)) &&
        (t.labelAt (slotChild s)).all (· == label)) start with
    ⟨missed, nowhere⟩ | ⟨item, found, accepted, stored⟩
  · have missing : tree.child parent label = none := by
      rw [EdgeTree.child_eq_none_iff]
      intro member
      obtain ⟨place, edge⟩ := List.mem_iff_getElem?.mp member
      obtain ⟨above, below⟩ := stores.edge_lt edge
      have entry : entryOf t.slots.length (parent, label) (place + 1) ∈
          entriesOf t.slots.length tree.edges := mem_entriesOf.mpr ⟨place, _, edge, rfl⟩
      have refused := nowhere _ entry
      rw [domainSlot_and_key above below (tagOf_lt _),
        slotChild_domainSlot above below (tagOf_lt _),
        stores.label_eq place _ edge] at refused
      simp at refused
    rw [trieFind, missing]
    simp only [missed, Option.bind_some, Option.elim_none]
  · obtain ⟨origin, entry⟩ := stored
    obtain ⟨place, edge, edge_eq, same⟩ := mem_entriesOf.mp entry
    obtain ⟨above, below⟩ := stores.edge_lt edge_eq
    have item_eq : item = domainSlot edge.1 (place + 1) (tagOf (LabelHash.hash edge.1 edge.2)) :=
      congrArg Prod.snd same
    have child_eq : slotChild item = place + 1 := by
      rw [item_eq, slotChild_domainSlot above below (tagOf_lt _)]
    have label_eq : t.labelAt (slotChild item) = some edge.2 := by
      rw [child_eq, stores.label_eq place edge edge_eq]
    simp only [label_eq, Option.all_some, Bool.and_eq_true, beq_iff_eq] at accepted
    obtain ⟨key, text⟩ := accepted
    rw [item_eq, domainSlot_and_key above below (tagOf_lt _)] at key
    have parent_eq := domainSlot_key_inj above (tagOf_lt _) inside (tagOf_lt _) key
    have here : tree.child parent label = some (place + 1) :=
      EdgeTree.child_eq_some_iff.mpr ⟨place, rfl, by rw [edge_eq, ← parent_eq, ← text]⟩
    rw [trieFind, here]
    simp only [found, Option.bind_some, Option.elim_some, label_eq, Option.map_some]
    rw [child_eq]

end DomainTrie.Stores

/-- Storing the next edge. -/
theorem trieAdd_holds (table : OpenAddressing.Holds isVacant slots (entriesOf slots.length edges))
    (room : edges.length < slots.length) {parent : Nat} (inside : parent < maxDomainNodes)
    (few : edges.length + 1 < maxDomainNodes) (label : Label) :
    ∃ stored, trieAdd slots parent label (edges.length + 1) = some stored ∧
      stored.length = slots.length ∧
      OpenAddressing.Holds isVacant stored
        (entriesOf slots.length (edges ++ [(parent, label)])) := by
  have solid : isVacant (domainSlot parent (edges.length + 1)
      (tagOf (LabelHash.hash parent label))) = false := by
    simpa [isVacant] using domainSlot_ne_zero inside few (tagOf_lt _) (Nat.succ_ne_zero _)
  have start := slotIndex_lt (Nat.zero_lt_of_lt room) parent label
  obtain ⟨stored, added, length, holds⟩ :=
    table.store (by rwa [length_entriesOf]) start solid
  rw [entriesOf_concat]
  exact ⟨stored, added, length, holds⟩

/-- A table that is laid out again holds the same edges. -/
theorem DomainBuilder.rebuild_holds {b : DomainBuilder} {tree : EdgeTree Label}
    (nodes_length : b.nodes.length = tree.edges.length + 1)
    (parents_eq : b.parents = 0 :: tree.edges.map Prod.fst)
    (label_eq : ∀ (place : Nat) (edge : Nat × Label), tree.edges[place]? = some edge →
      b.labelAt (place + 1) = some edge.2) (few : b.nodes.length ≤ maxDomainNodes)
    (room : tree.edges.length ≤ size) :
    ∃ slots, b.rebuild size = some { b with slots := slots } ∧ slots.length = size ∧
      OpenAddressing.Holds isVacant slots (entriesOf size tree.edges) := by
  suffices layout : ∀ count ≤ tree.edges.length, ∃ slots,
      (List.range' 1 count).foldlM b.addAgain (List.replicate size 0) = some slots ∧
        slots.length = size ∧
      OpenAddressing.Holds isVacant slots (entriesOf size (tree.edges.take count)) by
    obtain ⟨slots, built, length, holds⟩ := layout tree.edges.length (Nat.le_refl _)
    rw [List.take_length] at holds
    refine ⟨slots, ?_, length, holds⟩
    rw [rebuild, nodes_length, Nat.add_sub_cancel, built]
    rfl
  intro count
  induction count with
  | zero =>
    intro _
    exact ⟨_, rfl, List.length_replicate, OpenAddressing.holds_replicate size rfl⟩
  | succ count ih =>
    intro within
    obtain ⟨slots, built, length, holds⟩ := ih (by omega)
    have found : tree.edges[count]? = some tree.edges[count] := List.getElem?_eq_getElem within
    have ordered := tree.ordered count _ found
    have taken : (tree.edges.take count).length = count :=
      List.length_take_of_le (Nat.le_of_lt within)
    have parent : b.parents.getD (1 + count) 0 = tree.edges[count].1 := by
      rw [parents_eq, Nat.add_comm, List.getD_cons_succ, List.getD_eq_getElem?_getD,
        List.getElem?_map, found]
      rfl
    have label : b.labelAt (1 + count) = some tree.edges[count].2 := by
      rw [Nat.add_comm]
      exact label_eq count _ found
    rw [← length] at holds
    obtain ⟨stored, added, same, holds⟩ := trieAdd_holds holds (by rw [taken]; omega)
      (show tree.edges[count].1 < maxDomainNodes by omega) (by rw [taken]; omega)
      tree.edges[count].2
    refine ⟨stored, ?_, same.trans length, ?_⟩
    · rw [List.range'_1_concat, List.foldlM_append, built]
      rw [taken, Nat.add_comm count] at added
      simp only [Option.bind_eq_bind, Option.bind_some, List.foldlM_cons, List.foldlM_nil,
        addAgain, parent, label, added]
      rfl
    · rw [length, ← List.take_succ_eq_append_getElem within] at holds
      exact holds

end RouteDns.Blocklist
