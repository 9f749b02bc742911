import Mathlib.Data.List.Basic
import Mathlib.Data.List.Nodup
import Mathlib.Data.List.Perm.Subperm

/-!
# Trees that grow by an edge

A tree given by the list of its labelled edges in the order they were added.  Node 0 is the
root; every edge leads from a node that is there already to a new one, so the edge at some
place of the list leads to the node with the next number.  No node has two edges with one
label, so a node is known by the labels on the way to it.
-/

namespace RouteDns

universe u v

/-- A tree as its edges, each with the node it starts from. -/
structure EdgeTree (Λ : Type u) where
  edges : List (Nat × Λ)
  distinct : edges.Nodup
  ordered : ∀ (place : Nat) (edge : Nat × Λ), edges[place]? = some edge → edge.1 ≤ place

namespace EdgeTree

variable {Λ : Type u}

/-- The tree with nothing but its root. -/
def bare : EdgeTree Λ where
  edges := []
  distinct := List.nodup_nil
  ordered := by simp

/-- A new edge, from a node of the tree. -/
def grow (tree : EdgeTree Λ) (node : Nat) (label : Λ) (inside : node ≤ tree.edges.length)
    (fresh : (node, label) ∉ tree.edges) : EdgeTree Λ where
  edges := tree.edges ++ [(node, label)]
  distinct := by
    rw [List.nodup_append]
    exact ⟨tree.distinct, List.nodup_singleton _,
      fun edge member other same => by
        rw [List.mem_singleton.mp same]
        exact fun equal => fresh (equal ▸ member)⟩
  ordered := by
    intro place edge found
    rcases Nat.lt_or_ge place tree.edges.length with before | after
    · rw [List.getElem?_append_left before] at found
      exact tree.ordered place edge found
    · rw [List.getElem?_append_right after] at found
      obtain ⟨_, rfl⟩ := List.mem_singleton.mp (List.mem_of_getElem? found)
      omega

section Search

variable [DecidableEq Λ] (tree : EdgeTree Λ)

/-- The node an edge leads to. -/
def child (node : Nat) (label : Λ) : Option Nat :=
  (tree.edges.idxOf? (node, label)).map (· + 1)

/-- The node with some labels on the way up to the root. -/
def locate : List Λ → Option Nat
  | [] => some 0
  | label :: above => (locate above).bind fun node => tree.child node label

variable {tree}

theorem child_eq_some_iff {node id : Nat} {label : Λ} :
    tree.child node label = some id ↔
      ∃ place, id = place + 1 ∧ tree.edges[place]? = some (node, label) := by
  unfold child
  rw [Option.map_eq_some_iff]
  constructor
  · rintro ⟨place, found, rfl⟩
    obtain ⟨inside, same, _⟩ := List.idxOf?_eq_some_iff.mp found
    exact ⟨place, rfl, List.getElem?_eq_some_iff.mpr ⟨inside, same⟩⟩
  · rintro ⟨place, rfl, found⟩
    obtain ⟨inside, same⟩ := List.getElem?_eq_some_iff.mp found
    refine ⟨place, List.idxOf?_eq_some_iff.mpr ⟨inside, same, ?_⟩, rfl⟩
    intro earlier before equal
    have places := (tree.distinct.getElem_inj_iff).mp (equal.trans same.symm)
    omega

theorem child_eq_none_iff {node : Nat} {label : Λ} :
    tree.child node label = none ↔ (node, label) ∉ tree.edges := by
  rw [child, Option.map_eq_none_iff, List.idxOf?_eq_none_iff]

theorem child_le {node id : Nat} {label : Λ} (found : tree.child node label = some id) :
    id ≤ tree.edges.length := by
  obtain ⟨place, rfl, edge⟩ := child_eq_some_iff.mp found
  obtain ⟨inside, _⟩ := List.getElem?_eq_some_iff.mp edge
  exact inside

@[simp]
theorem locate_nil : tree.locate [] = some 0 := rfl

theorem locate_cons (label : Λ) (above : List Λ) :
    tree.locate (label :: above) =
      (tree.locate above).bind fun node => tree.child node label :=
  rfl

theorem locate_le {way : List Λ} {id : Nat} (reached : tree.locate way = some id) :
    id ≤ tree.edges.length := by
  cases way with
  | nil =>
    cases reached
    exact Nat.zero_le _
  | cons label above =>
    obtain ⟨node, _, found⟩ := Option.bind_eq_some_iff.mp reached
    exact child_le found

/-- The way to a node is determined by the node. -/
theorem locate_injective {first second : List Λ} {id : Nat}
    (left : tree.locate first = some id) (right : tree.locate second = some id) :
    first = second := by
  induction first generalizing second id with
  | nil =>
    cases left
    cases second with
    | nil => rfl
    | cons label above =>
      obtain ⟨node, _, found⟩ := Option.bind_eq_some_iff.mp right
      obtain ⟨place, impossible, _⟩ := child_eq_some_iff.mp found
      cases impossible
  | cons label above ih =>
    obtain ⟨node, reached, found⟩ := Option.bind_eq_some_iff.mp left
    obtain ⟨place, rfl, edge⟩ := child_eq_some_iff.mp found
    cases second with
    | nil => cases right
    | cons label' above' =>
      obtain ⟨node', reached', found'⟩ := Option.bind_eq_some_iff.mp right
      obtain ⟨place', same, edge'⟩ := child_eq_some_iff.mp found'
      cases same
      rw [edge] at edge'
      cases edge'
      rw [ih reached reached']

/-- There are no more different values of nodes than nodes. -/
theorem length_le_of_nodup {β : Type v} {values : List β} (distinct : values.Nodup)
    (value : List Λ → β)
    (known : ∀ v ∈ values, ∃ way id, tree.locate way = some id ∧ value way = v) :
    values.length ≤ tree.edges.length + 1 := by
  classical
  -- The values of the nodes in their order, each by the one way to the node.
  have among : values ⊆ (List.range (tree.edges.length + 1)).map fun id =>
      value (Classical.epsilon fun way => tree.locate way = some id) := by
    intro v member
    obtain ⟨way, id, reached, rfl⟩ := known v member
    have picked := Classical.epsilon_spec (p := fun way => tree.locate way = some id) ⟨way, reached⟩
    refine List.mem_map.mpr ⟨id, List.mem_range.mpr (Nat.lt_succ_of_le (locate_le reached)), ?_⟩
    rw [locate_injective picked reached]
  have bound := (List.Nodup.subperm distinct among).length_le
  rwa [List.length_map, List.length_range] at bound

variable {node : Nat} {label : Λ} (inside : node ≤ tree.edges.length)
  (fresh : (node, label) ∉ tree.edges)

/-- A new edge changes one child. -/
theorem child_grow (other : Nat) (label' : Λ) :
    (tree.grow node label inside fresh).child other label' =
      if (other, label') = (node, label) then some (tree.edges.length + 1)
      else tree.child other label' := by
  split
  · rename_i same
    cases same
    exact child_eq_some_iff.mpr ⟨tree.edges.length, rfl, by simp [grow]⟩
  · rename_i differs
    apply Option.ext
    intro id
    rw [child_eq_some_iff, child_eq_some_iff]
    apply exists_congr
    intro place
    apply and_congr_right
    intro _
    show (tree.edges ++ [(node, label)])[place]? = _ ↔ _
    rcases Nat.lt_or_ge place tree.edges.length with before | after
    · rw [List.getElem?_append_left before]
    · rw [List.getElem?_append_right after, List.getElem?_eq_none after]
      constructor
      · intro found
        exact absurd (List.mem_singleton.mp (List.mem_of_getElem? found)) differs
      · intro found
        cases found

/-- A node past the end has no children. -/
theorem child_eq_none_of_lt {past : Nat} (beyond : tree.edges.length < past) (label : Λ) :
    tree.child past label = none := by
  rw [child_eq_none_iff]
  intro member
  obtain ⟨place, found⟩ := List.mem_iff_getElem?.mp member
  have earlier := tree.ordered place _ found
  obtain ⟨within, _⟩ := List.getElem?_eq_some_iff.mp found
  omega

/-- A new edge adds one way. -/
theorem locate_grow {above : List Λ} (reached : tree.locate above = some node)
    (way : List Λ) :
    (tree.grow node label inside fresh).locate way =
      if way = label :: above then some (tree.edges.length + 1) else tree.locate way := by
  induction way with
  | nil => simp
  | cons last way ih =>
    rw [locate_cons, ih, locate_cons]
    by_cases beyond : way = label :: above
    · -- nothing is below the new node, and nothing was there before
      have missing : tree.locate way = none := by
        rw [beyond, locate_cons, reached]
        exact child_eq_none_iff.mpr fresh
      have longer : last :: way ≠ label :: above := by
        rw [beyond]
        intro same
        have lengths := congrArg List.length same
        simp at lengths
      have top : (tree.edges.length + 1, last) ≠ (node, label) := by
        intro same
        have := congrArg Prod.fst same
        omega
      rw [if_pos beyond, if_neg longer, missing, Option.bind_some, child_grow, if_neg top]
      exact child_eq_none_of_lt (Nat.lt_succ_self _) last
    · rw [if_neg beyond]
      cases middle : tree.locate way with
      | none =>
        have differs : last :: way ≠ label :: above := by
          intro same
          cases same
          rw [reached] at middle
          cases middle
        rw [if_neg differs]
        rfl
      | some id =>
        rw [Option.bind_some, Option.bind_some, child_grow]
        refine if_congr ?_ rfl rfl
        constructor
        · intro same
          cases same
          rw [locate_injective middle reached]
        · intro same
          cases same
          rw [reached] at middle
          cases middle
          rfl

end Search

end EdgeTree

end RouteDns
