import Mathlib.Data.Set.Insert

/-!
# Tries of shortest prefixes

A binary trie of bit strings that keeps only the shortest of the strings on a path: inserting
a string prunes everything below it, and nothing is inserted below a leaf.  A walk along a key
stops at the first leaf; a key that ends before it reaches one stops at its own end.

The trie is related to the set of strings inserted into it, which alone determines where a
walk stops.
-/

namespace RouteDns

/-- A trie; `absent` is the missing child. -/
inductive PrefixTrie where
  | absent
  | node (leaf : Bool) (left right : PrefixTrie)
  deriving DecidableEq

namespace PrefixTrie

/-- A leaf. -/
def tip : PrefixTrie :=
  node true absent absent

def isLeaf : PrefixTrie → Bool
  | absent => false
  | node leaf _ _ => leaf

def child (bit : Bool) : PrefixTrie → PrefixTrie
  | absent => absent
  | node _ left right => if bit then right else left

/-- The inner node with one child replaced. -/
def withChild (trie : PrefixTrie) (bit : Bool) (below : PrefixTrie) : PrefixTrie :=
  if bit then node false (trie.child false) below else node false below (trie.child true)

def insert : List Bool → PrefixTrie → PrefixTrie
  | [], _ => tip
  | bit :: rest, trie =>
    if trie.isLeaf then tip else trie.withChild bit (insert rest (trie.child bit))

/-- The number of bits a walk along a key passes before it stops at a node. -/
def walk : List Bool → PrefixTrie → Option Nat
  | _, absent => none
  | [], node _ _ _ => some 0
  | bit :: rest, node leaf left right =>
    if leaf then some 0 else (walk rest ((node leaf left right).child bit)).map (· + 1)

@[simp]
theorem walk_absent (key : List Bool) : walk key absent = none := by
  cases key <;> rfl

/-! ## The inserted strings -/

/-- What follows a bit in the strings that start with it. -/
def strip (bit : Bool) (paths : Set (List Bool)) : Set (List Bool) :=
  { rest | bit :: rest ∈ paths }

/-- A trie holds the shortest of some strings. -/
def Holds : PrefixTrie → Set (List Bool) → Prop
  | absent, paths => paths = ∅
  | node true _ _, paths => [] ∈ paths
  | node false left right, paths =>
    paths.Nonempty ∧ [] ∉ paths ∧ left.Holds (strip false paths) ∧ right.Holds (strip true paths)

theorem strip_insert_same (bit : Bool) (rest : List Bool) (paths : Set (List Bool)) :
    strip bit (Insert.insert (bit :: rest) paths) = Insert.insert rest (strip bit paths) := by
  ext path
  simp [strip]

theorem strip_insert_other {bit other : Bool} (differs : other ≠ bit) (rest : List Bool)
    (paths : Set (List Bool)) :
    strip other (Insert.insert (bit :: rest) paths) = strip other paths := by
  ext path
  simp [strip, differs]

variable {trie : PrefixTrie} {paths : Set (List Bool)}

/-- Below a node that is no leaf are the strings that go on. -/
theorem Holds.child (holds : trie.Holds paths) (inner : trie.isLeaf = false) : [] ∉ paths ∧
      ∀ bit, (trie.child bit).Holds (strip bit paths) := by
  cases trie with
  | absent =>
    cases holds
    exact ⟨Set.notMem_empty _, fun bit => Set.eq_empty_of_forall_notMem fun _ => id⟩
  | node leaf left right =>
    cases inner
    obtain ⟨_, notRoot, leftHolds, rightHolds⟩ := holds
    refine ⟨notRoot, fun bit => ?_⟩
    cases bit with
    | false => exact leftHolds
    | true => exact rightHolds

theorem Holds.insert (holds : trie.Holds paths) (path : List Bool) :
    (trie.insert path).Holds (Insert.insert path paths) := by
  induction path generalizing trie paths with
  | nil => exact Set.mem_insert _ _
  | cons bit rest ih =>
    rw [PrefixTrie.insert]
    cases leaf : trie.isLeaf with
    | true =>
      cases trie with
      | absent => cases leaf
      | node _ left right =>
        cases leaf
        exact Set.mem_insert_of_mem _ holds
    | false =>
      obtain ⟨notRoot, below⟩ := holds.child leaf
      have inserted := ih (below bit)
      rw [← strip_insert_same] at inserted
      have other := below (!bit)
      rw [← strip_insert_other (Bool.not_ne_self bit) rest paths] at other
      have notRoot' : [] ∉ Insert.insert (bit :: rest) paths := by simpa using notRoot
      cases bit with
      | false => exact ⟨Set.insert_nonempty _ _, notRoot', inserted, other⟩
      | true => exact ⟨Set.insert_nonempty _ _, notRoot', other, inserted⟩

/-! ## Walks -/

/-- Where two strings agree until one of them ends. -/
def meet : List Bool → List Bool → Option Nat
  | [], _ => some 0
  | _ :: _, [] => some 0
  | bit :: path, other :: key => if bit = other then (meet path key).map (· + 1) else none

variable {path key : List Bool}

theorem meet_of_initial (front : path <+: key) :
    meet path key = some path.length := by
  induction path generalizing key with
  | nil => rfl
  | cons bit path ih =>
    cases key with
    | nil => cases List.prefix_nil.mp front
    | cons other key =>
      obtain ⟨rfl, shorter⟩ := List.cons_prefix_cons.mp front
      simp [meet, ih shorter]

theorem meet_comm (path key : List Bool) : meet path key = meet key path := by
  induction path generalizing key with
  | nil => cases key <;> rfl
  | cons bit path ih =>
    cases key with
    | nil => rfl
    | cons other key => simp only [meet, ih key, eq_comm (a := bit)]

theorem meet_of_extends (front : key <+: path) :
    meet path key = some key.length := by
  rw [meet_comm, meet_of_initial front]

variable {depth : Nat}

theorem prefix_of_meet (met : meet path key = some depth) :
    path <+: key ∨ key <+: path := by
  induction path generalizing key depth with
  | nil => exact .inl (List.nil_prefix)
  | cons bit path ih =>
    cases key with
    | nil => exact .inr (List.nil_prefix)
    | cons other key =>
      rw [meet] at met
      split at met
      · rename_i same
        obtain ⟨below, met, _⟩ := Option.map_eq_some_iff.mp met
        rcases ih met with front | front
        · exact .inl (List.cons_prefix_cons.mpr ⟨same, front⟩)
        · exact .inr (List.cons_prefix_cons.mpr ⟨same.symm, front⟩)
      · cases met

/-- A string meets a longer key at its own end. -/
theorem meet_eq_some_iff_initial (shorter : path.length ≤ key.length) :
    meet path key = some depth ↔ path <+: key ∧ depth = path.length := by
  constructor
  · intro met
    have front : path <+: key := by
      rcases prefix_of_meet met with front | front
      · exact front
      · exact front.eq_of_length (Nat.le_antisymm front.length_le shorter) ▸ List.prefix_rfl
    rw [meet_of_initial front] at met
    exact ⟨front, (Option.some.inj met).symm⟩
  · rintro ⟨front, rfl⟩
    exact meet_of_initial front

/-- A string meets a shorter key at the end of the key. -/
theorem meet_eq_some_iff_extends (longer : key.length ≤ path.length) :
    meet path key = some depth ↔ key <+: path ∧ depth = key.length := by
  rw [meet_comm, meet_eq_some_iff_initial longer]

theorem meet_cons {bit : Bool} {rest key : List Bool} (met : meet rest key = some depth) :
    meet (bit :: rest) (bit :: key) = some (depth + 1) := by
  simp [meet, met]

theorem Holds.nonempty {leaf : Bool} {left right : PrefixTrie}
    (holds : (node leaf left right).Holds paths) : paths.Nonempty := by
  cases leaf with
  | true => exact ⟨[], holds⟩
  | false => exact holds.1

/-- A walk stops where the key meets an inserted string. -/
theorem Holds.exists_meet (holds : trie.Holds paths) {key : List Bool}
    (walked : trie.walk key = some depth) :
    ∃ path ∈ paths, meet path key = some depth := by
  induction key generalizing trie paths depth with
  | nil =>
    cases trie with
    | absent => cases walked
    | node leaf left right =>
      cases walked
      obtain ⟨path, member⟩ := holds.nonempty
      refine ⟨path, member, ?_⟩
      cases path <;> rfl
  | cons bit key ih =>
    cases trie with
    | absent => cases walked
    | node leaf left right =>
      cases leaf with
      | true =>
        cases walked
        exact ⟨[], holds, rfl⟩
      | false =>
        obtain ⟨below, walkedBelow, rfl⟩ := Option.map_eq_some_iff.mp walked
        obtain ⟨rest, member, met⟩ := ih ((holds.child rfl).2 bit) walkedBelow
        exact ⟨bit :: rest, member, meet_cons met⟩

/-- A walk stops no later than where the key meets any inserted string. -/
theorem Holds.walk_le (holds : trie.Holds paths) {key path : List Bool} (member : path ∈ paths)
    (met : meet path key = some depth) :
    ∃ stopped, trie.walk key = some stopped ∧ stopped ≤ depth := by
  induction key generalizing trie paths path depth with
  | nil =>
    cases trie with
    | absent =>
      cases holds
      cases member
    | node leaf left right => exact ⟨0, rfl, Nat.zero_le _⟩
  | cons bit key ih =>
    cases trie with
    | absent =>
      cases holds
      cases member
    | node leaf left right =>
      cases leaf with
      | true => exact ⟨0, rfl, Nat.zero_le _⟩
      | false =>
        obtain ⟨notRoot, below⟩ := holds.child rfl
        cases path with
        | nil => exact absurd member notRoot
        | cons first rest =>
          rw [meet] at met
          split at met
          · rename_i same
            subst same
            obtain ⟨shorter, metBelow, rfl⟩ := Option.map_eq_some_iff.mp met
            obtain ⟨stopped, walked, le⟩ := ih (below first) member metBelow
            refine ⟨stopped + 1, ?_, Nat.succ_le_succ le⟩
            exact Option.map_eq_some_iff.mpr ⟨stopped, walked, rfl⟩
          · cases met

/-- The inserted strings determine where a walk stops. -/
theorem Holds.walk_eq_some_iff (holds : trie.Holds paths) {key : List Bool} :
    trie.walk key = some depth ↔ (∃ path ∈ paths, meet path key = some depth) ∧
      ∀ path ∈ paths, ∀ other, meet path key = some other → depth ≤ other := by
  constructor
  · intro walked
    refine ⟨holds.exists_meet walked, fun path member other met => ?_⟩
    obtain ⟨stopped, same, le⟩ := holds.walk_le member met
    cases walked.symm.trans same
    exact le
  · rintro ⟨⟨path, member, met⟩, first⟩
    obtain ⟨stopped, walked, le⟩ := holds.walk_le member met
    obtain ⟨other, otherMem, otherMet⟩ := holds.exists_meet walked
    rwa [Nat.le_antisymm (first other otherMem stopped otherMet) le]

/-! ## Leaves -/

/-- No leaf has children. -/
def LeavesBare : PrefixTrie → Prop
  | absent => True
  | node leaf left right =>
    (leaf = true → left = absent ∧ right = absent) ∧ left.LeavesBare ∧ right.LeavesBare

theorem leavesBare_tip : tip.LeavesBare :=
  ⟨fun _ => ⟨rfl, rfl⟩, trivial, trivial⟩

theorem LeavesBare.child (bare : trie.LeavesBare) (bit : Bool) :
    (trie.child bit).LeavesBare := by
  cases trie with
  | absent => trivial
  | node leaf left right => cases bit with
    | false => exact bare.2.1
    | true => exact bare.2.2

theorem LeavesBare.insert (bare : trie.LeavesBare) (path : List Bool) :
    (trie.insert path).LeavesBare := by
  induction path generalizing trie with
  | nil => exact leavesBare_tip
  | cons bit rest ih =>
    rw [PrefixTrie.insert]
    split
    · exact leavesBare_tip
    · cases bit with
      | false => exact ⟨(absurd · Bool.false_ne_true), ih (bare.child false), bare.child true⟩
      | true => exact ⟨(absurd · Bool.false_ne_true), bare.child false, ih (bare.child true)⟩

end PrefixTrie

end RouteDns
