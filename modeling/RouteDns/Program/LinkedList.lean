import Mathlib.Data.List.Chain

/-!
# Doubly linked lists in memory

Nodes hold two pointers and a value, and live at locations of a memory that only grows.
Following a nil pointer makes a program fail.  `Linked` says that a list of locations is
the course of the pointers in both directions; taking a node out and putting one in are
proved correct once, for every payload.
-/

namespace RouteDns.LinkedList

/-- Where a node lives. -/
abbrev Loc := Nat

/-- A node; a missing location is a nil pointer. -/
structure Node (α : Type) where
  prev : Option Loc
  next : Option Loc
  value : α
  deriving DecidableEq

/-- The nodes that were ever allocated. -/
abbrev Memory (α : Type) := List (Node α)

variable {after before first head tail : Loc} {fuel : Nat}

namespace Memory

variable {α : Type}

/-- Put a new node behind all others; its location is the number of those. -/
def alloc (mem : Memory α) (value : α) : Memory α :=
  mem ++ [{ prev := none, next := none, value := value }]

def setNext (mem : Memory α) (loc : Loc) (target : Option Loc) : Memory α :=
  mem.modify loc fun node => { node with next := target }

def setPrev (mem : Memory α) (loc : Loc) (target : Option Loc) : Memory α :=
  mem.modify loc fun node => { node with prev := target }

def setValue (mem : Memory α) (loc : Loc) (value : α) : Memory α :=
  mem.modify loc fun node => { node with value := value }

/-! ## Access through pointers -/

/-- Follow a pointer. -/
def deref (mem : Memory α) (pointer : Option Loc) : Option (Node α) :=
  pointer.bind fun loc => mem[loc]?

/-- `pointer.next = target` -/
def writeNext (mem : Memory α) (pointer target : Option Loc) : Option (Memory α) := do
  let loc ← pointer
  let _ ← mem[loc]?
  pure (mem.setNext loc target)

/-- `pointer.prev = target` -/
def writePrev (mem : Memory α) (pointer target : Option Loc) : Option (Memory α) := do
  let loc ← pointer
  let _ ← mem[loc]?
  pure (mem.setPrev loc target)

/-- Let the neighbours of a node point to each other. -/
def unlink (mem : Memory α) (item : Option Loc) : Option (Memory α) := do
  let mem ← mem.writeNext (← mem.deref item).prev (← mem.deref item).next
  mem.writePrev (← mem.deref item).next (← mem.deref item).prev

/-- Put a node behind the one at the head. -/
def linkAfter (mem : Memory α) (head item : Option Loc) : Option (Memory α) := do
  let mem ← mem.writeNext item (← mem.deref head).next
  let mem ← mem.writePrev item head
  let mem ← mem.writePrev (← mem.deref head).next item
  mem.writeNext head item

/-! ## Fields of nodes -/

/-- The next pointer of a node, none if it is nil or the location is not allocated. -/
def next? (mem : Memory α) (loc : Loc) : Option Loc :=
  mem[loc]?.bind Node.next

def prev? (mem : Memory α) (loc : Loc) : Option Loc :=
  mem[loc]?.bind Node.prev

def value? (mem : Memory α) (loc : Loc) : Option α :=
  mem[loc]?.map Node.value

variable (mem : Memory α) (loc other : Loc) (target : Option Loc)

@[simp]
theorem length_setNext : (mem.setNext loc target).length = mem.length := by
  simp [setNext]

@[simp]
theorem length_setPrev : (mem.setPrev loc target).length = mem.length := by
  simp [setPrev]

theorem next?_setNext (allocated : loc < mem.length) :
    (mem.setNext loc target).next? other = if other = loc then target else mem.next? other := by
  by_cases same : other = loc
  · subst same
    simp [next?, setNext, allocated]
  · simp [next?, setNext, same, Ne.symm same]

theorem prev?_setPrev (allocated : loc < mem.length) :
    (mem.setPrev loc target).prev? other = if other = loc then target else mem.prev? other := by
  by_cases same : other = loc
  · subst same
    simp [prev?, setPrev, allocated]
  · simp [prev?, setPrev, same, Ne.symm same]

theorem value?_setValue (value : α) (allocated : loc < mem.length) :
    (mem.setValue loc value).value? other =
      if other = loc then some value else mem.value? other := by
  by_cases same : other = loc
  · subst same
    simp [value?, setValue, allocated]
  · simp [value?, setValue, same, Ne.symm same]

/-- Changing a node in place without its field leaves the field of every node alone. -/
theorem bind_modify {β : Type} (field : Node α → Option β) (update : Node α → Node α)
    (kept : ∀ node, field (update node) = field node) :
    (mem.modify loc update)[other]?.bind field = mem[other]?.bind field := by
  rw [List.getElem?_modify]
  cases mem[other]? with
  | none => simp
  | some node =>
    by_cases same : loc = other
    · simp [same, kept]
    · simp [same]

@[simp]
theorem prev?_setNext : (mem.setNext loc target).prev? other = mem.prev? other :=
  bind_modify mem loc other Node.prev _ fun _ => rfl

@[simp]
theorem next?_setPrev : (mem.setPrev loc target).next? other = mem.next? other :=
  bind_modify mem loc other Node.next _ fun _ => rfl

@[simp]
theorem next?_setValue (value : α) : (mem.setValue loc value).next? other = mem.next? other :=
  bind_modify mem loc other Node.next _ fun _ => rfl

@[simp]
theorem prev?_setValue (value : α) : (mem.setValue loc value).prev? other = mem.prev? other :=
  bind_modify mem loc other Node.prev _ fun _ => rfl

theorem value?_eq_bind : mem.value? loc = mem[loc]?.bind fun node => some node.value := by
  rw [value?, Option.map_eq_bind]
  rfl

@[simp]
theorem value?_setNext : (mem.setNext loc target).value? other = mem.value? other := by
  simp only [value?_eq_bind]
  exact bind_modify mem loc other (fun node => some node.value) _ fun _ => rfl

@[simp]
theorem value?_setPrev : (mem.setPrev loc target).value? other = mem.value? other := by
  simp only [value?_eq_bind]
  exact bind_modify mem loc other (fun node => some node.value) _ fun _ => rfl

variable {mem loc other}

theorem lt_of_next? (pointed : mem.next? loc = some other) : loc < mem.length := by
  by_contra outside
  simp [next?, List.getElem?_eq_none (Nat.le_of_not_lt outside)] at pointed

theorem lt_of_prev? (pointed : mem.prev? loc = some other) : loc < mem.length := by
  by_contra outside
  simp [prev?, List.getElem?_eq_none (Nat.le_of_not_lt outside)] at pointed

theorem lt_of_value? {value : α} (held : mem.value? loc = some value) : loc < mem.length := by
  by_contra outside
  simp [value?, List.getElem?_eq_none (Nat.le_of_not_lt outside)] at held

/-- Following a pointer to an allocated node gives its fields. -/
theorem deref_some (mem : Memory α) {loc : Loc} (allocated : loc < mem.length) :
    ∃ node, mem.deref (some loc) = some node ∧ node.prev = mem.prev? loc ∧
      node.next = mem.next? loc ∧ mem.value? loc = some node.value := by
  refine ⟨mem[loc], ?_, ?_, ?_, ?_⟩ <;> simp [deref, prev?, next?, value?, allocated]

theorem writeNext_some (allocated : loc < mem.length) :
    mem.writeNext (some loc) target = some (mem.setNext loc target) := by
  simp [writeNext, allocated]

theorem writePrev_some (allocated : loc < mem.length) :
    mem.writePrev (some loc) target = some (mem.setPrev loc target) := by
  simp [writePrev, allocated]

/-- What unlinking a node between two others does to the pointers. -/
theorem unlink_spec (prev : mem.prev? loc = some before) (next : mem.next? loc = some after)
    (distinct : loc ≠ before) (beforeIn : before < mem.length) (afterIn : after < mem.length) :
    ∃ changed, mem.unlink (some loc) = some changed ∧ changed.length = mem.length ∧
      (∀ other, changed.value? other = mem.value? other) ∧
      (∀ other, changed.next? other = if other = before then some after else mem.next? other) ∧
      ∀ other, changed.prev? other = if other = after then some before else mem.prev? other := by
  have allocated := lt_of_next? next
  obtain ⟨node, read, nodePrev, nodeNext, _⟩ := deref_some mem allocated
  obtain ⟨node', read', nodePrev', nodeNext', _⟩ :=
    deref_some (mem.setNext before (some after)) (by simpa using allocated : loc < _)
  rw [prev?_setNext, prev] at nodePrev'
  rw [next?_setNext _ _ _ _ beforeIn, if_neg distinct, next] at nodeNext'
  refine ⟨(mem.setNext before (some after)).setPrev after (some before), ?_, by simp, by simp,
    fun other => ?_, fun other => ?_⟩
  · simp only [unlink, read, Option.bind_eq_bind, Option.bind_some, nodePrev, prev, nodeNext, next,
      writeNext_some _ beforeIn, read', nodePrev', nodeNext']
    exact writePrev_some _ (by simpa using afterIn)
  · rw [next?_setPrev, next?_setNext _ _ _ _ beforeIn]
  · rw [prev?_setPrev _ _ _ _ (by simpa using afterIn), prev?_setNext]

/-- What linking a node behind another does to the pointers. -/
theorem linkAfter_spec (next : mem.next? head = some first) (distinct : loc ≠ head)
    (allocated : loc < mem.length) (firstIn : first < mem.length) :
    ∃ changed, mem.linkAfter (some head) (some loc) = some changed ∧
      changed.length = mem.length ∧ (∀ other, changed.value? other = mem.value? other) ∧
      (∀ other, changed.next? other =
        if other = head then some loc else if other = loc then some first else mem.next? other) ∧
      ∀ other, changed.prev? other =
        if other = first then some loc else if other = loc then some head else mem.prev? other := by
  have headIn := lt_of_next? next
  obtain ⟨node, read, _, nodeNext, _⟩ := deref_some mem headIn
  obtain ⟨node', read', _, nodeNext', _⟩ := deref_some
    ((mem.setNext loc (some first)).setPrev loc (some head)) (by simpa using headIn : head < _)
  rw [next?_setPrev, next?_setNext _ _ _ _ allocated, if_neg distinct.symm, next] at nodeNext'
  refine ⟨(((mem.setNext loc (some first)).setPrev loc (some head)).setPrev first
    (some loc)).setNext head (some loc), ?_, by simp, by simp, fun other => ?_, fun other => ?_⟩
  · simp only [linkAfter, read, Option.bind_eq_bind, Option.bind_some, nodeNext, next,
      writeNext_some _ allocated]
    rw [writePrev_some _ (by simpa using allocated), Option.bind_some, read', Option.bind_some,
      nodeNext', writePrev_some _ (by simpa using firstIn), Option.bind_some,
      writeNext_some _ (by simpa using headIn)]
  · rw [next?_setNext _ _ _ _ (by simpa using headIn), next?_setPrev, next?_setPrev,
      next?_setNext _ _ _ _ allocated]
  · rw [prev?_setNext, prev?_setPrev _ _ _ _ (by simpa using firstIn),
      prev?_setPrev _ _ _ _ (by simpa using allocated), prev?_setNext]

end Memory

/-! ## The course of the pointers -/

variable {α : Type} {mem changed : Memory α}

/-- Two nodes point to each other. -/
def Adjacent (mem : Memory α) (left right : Loc) : Prop :=
  mem.next? left = some right ∧ mem.prev? right = some left

/-- The locations follow each other in both directions, and none occurs twice. -/
structure Linked (mem : Memory α) (locs : List Loc) : Prop where
  chain : locs.IsChain (Adjacent mem)
  nodup : locs.Nodup

variable {front back : List Loc}

/-- The next pointer of a node leads to the rest of the course. -/
theorem Linked.next?_eq {loc : Loc} (linked : Linked mem (front ++ loc :: back))
    (back_ne : back ≠ []) :
    mem.next? loc = back.head? := by
  obtain ⟨after, back, rfl⟩ := List.exists_cons_of_ne_nil back_ne
  exact (List.isChain_append_cons_cons.mp linked.chain).2.1.1

/-- The previous pointer of a node leads to the course before it. -/
theorem Linked.prev?_eq {loc : Loc} (linked : Linked mem (front ++ loc :: back))
    (front_ne : front ≠ []) :
    mem.prev? loc = front.getLast? := by
  obtain ⟨front, before, rfl⟩ := (List.eq_nil_or_concat front).resolve_left front_ne
  have chain := linked.chain
  rw [List.concat_eq_append, List.append_assoc] at chain
  simpa using (List.isChain_append_cons_cons.mp chain).2.1.2

/-- The nodes of a course are allocated. -/
theorem Linked.allocated {second : Loc} {back : List Loc}
    (linked : Linked mem (first :: second :: back)) :
    ∀ loc ∈ first :: second :: back, loc < mem.length := by
  intro loc member
  obtain ⟨front, rest, split⟩ := List.append_of_mem member
  rw [split] at linked
  -- A node has a neighbour on one side or the other.
  rcases rest with _ | ⟨after, rest⟩
  · have front_ne : front ≠ [] := by
      rintro rfl
      simp at split
    have prev := linked.prev?_eq front_ne
    rw [List.getLast?_eq_some_getLast front_ne] at prev
    exact Memory.lt_of_prev? prev
  · exact Memory.lt_of_next? (linked.next?_eq (List.cons_ne_nil after rest))

variable {locs : List Loc}

/-- A course stays the same where the pointers along it do. -/
theorem isChain_frame (chain : locs.IsChain (Adjacent mem))
    (next : ∀ loc ∈ locs.dropLast, changed.next? loc = mem.next? loc)
    (prev : ∀ loc ∈ locs.tail, changed.prev? loc = mem.prev? loc) :
    locs.IsChain (Adjacent changed) := by
  induction locs with
  | nil => exact List.isChain_nil
  | cons first rest ih =>
    cases rest with
    | nil => exact List.isChain_singleton first
    | cons second rest =>
      obtain ⟨⟨nextFirst, prevSecond⟩, chain⟩ := List.isChain_cons_cons.mp chain
      refine List.isChain_cons_cons.mpr ⟨⟨?_, ?_⟩, ih chain ?_ ?_⟩
      · rw [next first (by simp), nextFirst]
      · rw [prev second (by simp), prevSecond]
      · exact fun loc member => next loc (List.mem_cons_of_mem first member)
      · exact fun loc member => prev loc (List.mem_cons_of_mem second member)

/-- Pointers of nodes outside a course do not matter to it. -/
theorem Linked.congr (linked : Linked mem locs) (next : ∀ loc, changed.next? loc = mem.next? loc)
    (prev : ∀ loc, changed.prev? loc = mem.prev? loc) : Linked changed locs where
  chain := isChain_frame linked.chain (fun loc _ => next loc) (fun loc _ => prev loc)
  nodup := linked.nodup

theorem unlink_between {loc : Loc} (linked : Linked mem (front ++ before :: loc :: after :: back)) :
    ∃ changed, mem.unlink (some loc) = some changed ∧
      Linked changed (front ++ before :: after :: back) ∧ changed.length = mem.length ∧
      ∀ other, changed.value? other = mem.value? other := by
  obtain ⟨chainFront, ⟨nextBefore, prevLoc⟩, chainBack⟩ :=
    List.isChain_append_cons_cons.mp linked.chain
  obtain ⟨⟨nextLoc, prevAfter⟩, chainBack⟩ := List.isChain_cons_cons.mp chainBack
  have beforeIn := Memory.lt_of_next? nextBefore
  have afterIn := Memory.lt_of_prev? prevAfter
  have nodup := linked.nodup
  have distinct : loc ≠ before := by
    rintro rfl
    simp [List.nodup_append] at nodup
  obtain ⟨changed, unlinked, length, values, next, prev⟩ :=
    Memory.unlink_spec prevLoc nextLoc distinct beforeIn afterIn
  refine ⟨changed, unlinked, ⟨?_, ?_⟩, length, values⟩
  · refine List.isChain_append_cons_cons.mpr ⟨?_, ⟨?_, ?_⟩, ?_⟩
    · refine isChain_frame chainFront (fun other member => (next other).trans (if_neg ?_))
        (fun other member => (prev other).trans (if_neg ?_))
      · rintro rfl
        grind
      · rintro rfl
        have member := List.mem_of_mem_tail member
        simp only [List.mem_append, List.mem_singleton] at member
        grind
    · rw [next, if_pos rfl]
    · rw [prev, if_pos rfl]
    · refine isChain_frame chainBack (fun other member => (next other).trans (if_neg ?_))
        (fun other member => (prev other).trans (if_neg ?_))
      · rintro rfl
        have member := List.dropLast_subset _ member
        grind
      · rintro rfl
        grind
  · refine nodup.sublist ?_
    exact List.Sublist.append_left ((List.sublist_cons_self loc _).cons_cons before) front

/-- Unlinking takes an inner node out of the course and changes no value. -/
theorem Linked.unlink {loc : Loc} (linked : Linked mem (front ++ loc :: back))
    (front_ne : front ≠ []) (back_ne : back ≠ []) :
    ∃ changed, mem.unlink (some loc) = some changed ∧ Linked changed (front ++ back) ∧
      changed.length = mem.length ∧ ∀ other, changed.value? other = mem.value? other := by
  obtain ⟨front, before, rfl⟩ := (List.eq_nil_or_concat front).resolve_left front_ne
  obtain ⟨after, back, rfl⟩ := List.exists_cons_of_ne_nil back_ne
  rw [List.concat_eq_append, List.append_assoc] at linked ⊢
  exact unlink_between linked

theorem link_between {loc : Loc} {back : List Loc} (linked : Linked mem (head :: first :: back))
    (allocated : loc < mem.length) (outside : loc ∉ head :: first :: back) :
    ∃ changed, mem.linkAfter (some head) (some loc) = some changed ∧
      Linked changed (head :: loc :: first :: back) ∧ changed.length = mem.length ∧
      ∀ other, changed.value? other = mem.value? other := by
  obtain ⟨⟨nextHead, prevFirst⟩, chainBack⟩ := List.isChain_cons_cons.mp linked.chain
  have nodup := linked.nodup
  have notHead : loc ≠ head := fun same => outside (same ▸ List.mem_cons_self)
  have notFirst : loc ≠ first := fun same => outside (by simp [same])
  obtain ⟨changed, linkedIn, length, values, next, prev⟩ :=
    Memory.linkAfter_spec nextHead notHead allocated (Memory.lt_of_prev? prevFirst)
  refine ⟨changed, linkedIn, ⟨?_, ?_⟩, length, values⟩
  · refine List.isChain_cons_cons.mpr ⟨⟨?_, ?_⟩, List.isChain_cons_cons.mpr ⟨⟨?_, ?_⟩, ?_⟩⟩
    · rw [next, if_pos rfl]
    · rw [prev, if_neg notFirst, if_pos rfl]
    · rw [next, if_neg notHead, if_pos rfl]
    · rw [prev, if_pos rfl]
    · refine isChain_frame chainBack (fun other member => ?_) (fun other member => ?_)
      · have member := List.dropLast_subset _ member
        rw [next, if_neg (by grind), if_neg (by grind)]
      · rw [prev, if_neg (by grind), if_neg (by grind)]
  · grind

/-- Linking puts a node behind the head of a course and changes no value. -/
theorem Linked.linkAfter {loc : Loc} {back : List Loc} (linked : Linked mem (head :: back))
    (back_ne : back ≠ []) (allocated : loc < mem.length) (outside : loc ∉ head :: back) :
    ∃ changed, mem.linkAfter (some head) (some loc) = some changed ∧
      Linked changed (head :: loc :: back) ∧ changed.length = mem.length ∧
      ∀ other, changed.value? other = mem.value? other := by
  obtain ⟨first, back, rfl⟩ := List.exists_cons_of_ne_nil back_ne
  exact link_between linked allocated outside

/-! ## New nodes -/

section Alloc

variable (mem) (value : α) (loc : Loc)

@[simp]
theorem length_alloc : (mem.alloc value).length = mem.length + 1 := by
  simp [Memory.alloc]

/-- A new node points nowhere. -/
theorem bind_alloc (pointer : Node α → Option Loc) (nil : pointer ⟨none, none, value⟩ = none) :
    (mem.alloc value)[loc]?.bind pointer = mem[loc]?.bind pointer := by
  rcases Nat.lt_trichotomy loc mem.length with old | rfl | outside
  · rw [Memory.alloc, List.getElem?_append_left old]
  · simp [Memory.alloc, nil]
  · rw [List.getElem?_eq_none (by rw [length_alloc]; omega), List.getElem?_eq_none (by omega)]

@[simp]
theorem next?_alloc : (mem.alloc value).next? loc = mem.next? loc :=
  bind_alloc mem value loc Node.next rfl

@[simp]
theorem prev?_alloc : (mem.alloc value).prev? loc = mem.prev? loc :=
  bind_alloc mem value loc Node.prev rfl

theorem value?_alloc_new : (mem.alloc value).value? mem.length = some value := by
  simp [Memory.value?, Memory.alloc]

variable {mem loc}

theorem value?_alloc_old {held : α} (old : mem.value? loc = some held) :
    (mem.alloc value).value? loc = some held := by
  have allocated := Memory.lt_of_value? old
  rw [← old, Memory.value?, Memory.value?, Memory.alloc, List.getElem?_append_left allocated]

end Alloc

/-! ## Walking along the pointers -/

/-- Walk from one location to another, with a bound on the number of steps. -/
def follow (step : Loc → Option Loc) (stop : Loc) : Nat → Option Loc → Option (List Loc)
  | 0, _ => none
  | fuel + 1, pointer => do
    let loc ← pointer
    if loc = stop then pure []
    else do
      let rest ← follow step stop fuel (step loc)
      pure (loc :: rest)

theorem follow_eq {step : Loc → Option Loc} {start stop : Loc}
    (chain : (start :: locs ++ [stop]).IsChain fun left right => step left = some right)
    (outside : stop ∉ locs) (enough : locs.length < fuel) :
    follow step stop fuel (step start) = some locs := by
  induction locs generalizing start fuel with
  | nil =>
    obtain ⟨fuel, rfl⟩ := Nat.exists_eq_succ_of_ne_zero (Nat.ne_of_gt enough)
    simp only [List.nil_append, List.cons_append, List.isChain_cons_cons] at chain
    simp [follow, chain.1]
  | cons loc rest ih =>
    obtain ⟨fuel, rfl⟩ := Nat.exists_eq_succ_of_ne_zero (Nat.ne_zero_of_lt enough)
    simp only [List.cons_append, List.isChain_cons_cons] at chain
    simp only [List.mem_cons, not_or] at outside
    have walked := ih chain.2 outside.2 (Nat.lt_of_succ_lt_succ enough)
    simp [follow, chain.1, Ne.symm outside.1, walked]

/-- The next pointers lead from one end of a course to the other. -/
theorem Linked.forward (linked : Linked mem (head :: locs ++ [tail]))
    (enough : locs.length < fuel) :
    follow mem.next? tail fuel (mem.next? head) = some locs := by
  refine follow_eq (linked.chain.imp fun _ _ adjacent => adjacent.1) ?_ enough
  intro member
  have nodup := linked.nodup
  grind

/-- The previous pointers lead back. -/
theorem Linked.backward (linked : Linked mem (head :: locs ++ [tail]))
    (enough : locs.length < fuel) :
    follow mem.prev? head fuel (mem.prev? tail) = some locs.reverse := by
  have reversed : tail :: locs.reverse ++ [head] = (head :: locs ++ [tail]).reverse := by simp
  refine follow_eq ?_ ?_ (by simpa using enough)
  · rw [reversed, List.isChain_reverse]
    exact linked.chain.imp fun _ _ adjacent => adjacent.2
  · intro member
    have nodup := linked.nodup
    grind

end RouteDns.LinkedList
