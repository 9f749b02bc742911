import RouteDns.Cache.Blob
import RouteDns.Cache.Recency
import RouteDns.Program.FiniteMap
import RouteDns.Program.LinkedList

/-!
# The least-recently-used cache

Stored responses form a doubly linked list between two sentinels, indexed by the hash of
their key.  Each function is written with explicit memory; following a nil pointer makes
it return nothing.  The functions are proved to act on the represented list of keys and
blobs as the operations on lists ordered by recency do.
-/

namespace RouteDns.Cache

open Dns LinkedList

/-- The payload of a node. -/
structure CacheItem where
  hash : UInt64
  blob : CacheBlob
  deriving DecidableEq

structure LruCache where
  maxItems : Int
  items : FiniteMap UInt64 Loc
  head : Loc
  tail : Loc
  memory : Memory CacheItem

namespace LruCache

/-- The zero value of a payload, which the sentinels hold. -/
def noItem : CacheItem where
  hash := 0
  blob := []

/-- Two new sentinels that point to each other. -/
def sentinels (memory : Memory CacheItem) : Memory CacheItem :=
  let allocated := (memory.alloc noItem).alloc noItem
  (allocated.setNext memory.length (some (memory.length + 1))).setPrev (memory.length + 1)
    (some memory.length)

def newLRUCache (capacity : Int) : LruCache where
  maxItems := capacity
  items := ∅
  head := 0
  tail := 1
  memory := sentinels []

/-- Clear the cache. -/
def reset (cache : LruCache) : LruCache :=
  { cache with
    items := ∅
    head := cache.memory.length
    tail := cache.memory.length + 1
    memory := sentinels cache.memory }

/-- Unlink an item from both the index and the linked list. -/
def unlink (cache : LruCache) (item : Option Loc) : Option LruCache := do
  let memory ← cache.memory.unlink item
  let node ← memory.deref item
  pure { cache with memory := memory, items := cache.items.erase node.value.hash }

/-- Find an item by key without changing its position in the queue. -/
def find (cache : LruCache) (hash : UInt64) (key : LruKey) : Option (Option Loc) :=
  match cache.items.lookup hash with
  | none => pure none
  | some loc => do
    let node ← cache.memory.deref (some loc)
    pure (if node.value.blob.matchesKey key then some loc else none)

/-- Load an item and put it to the top of the queue. -/
def touch (cache : LruCache) (hash : UInt64) (key : LruKey) : Option (LruCache × Option Loc) := do
  match ← cache.find hash key with
  | none => pure (cache, none)
  | some loc => do
    let memory ← cache.memory.unlink (some loc)
    let memory ← memory.linkAfter (some cache.head) (some loc)
    pure ({ cache with memory := memory }, some loc)

/-- Unlink the oldest items while there are too many, with a bound on their number. -/
def shrink : Nat → LruCache → Option LruCache
  | 0, cache => if cache.maxItems < cache.items.size then none else pure cache
  | fuel + 1, cache =>
    if cache.maxItems < cache.items.size then do
      let last ← cache.memory.deref (some cache.tail)
      let cache ← cache.unlink last.prev
      shrink fuel cache
    else
      pure cache

/-- Shrink the cache down to the maximum number of items. -/
def resize (cache : LruCache) : Option LruCache :=
  if cache.maxItems ≤ 0 then pure cache else shrink cache.items.size cache

/-- Unlink the item with a hash, if there is one. -/
def makeRoom (cache : LruCache) (hash : UInt64) : Option LruCache :=
  match cache.items.lookup hash with
  | none => pure cache
  | some existing => cache.unlink (some existing)

/-- Link a new item into the index and the top of the linked list. -/
def insert (cache : LruCache) (hash : UInt64) (blob : CacheBlob) : Option LruCache := do
  let item := cache.memory.length
  let cache := { cache with memory := cache.memory.alloc { hash := hash, blob := blob } }
  let cache ← cache.makeRoom hash
  let memory ← cache.memory.linkAfter (some cache.head) (some item)
  resize { cache with items := cache.items.insert hash item, memory := memory }

variable (hash : LruKey → UInt64)

def addKey (cache : LruCache) (key : LruKey) (blob : CacheBlob) : Option LruCache := do
  match ← cache.touch (hash key) key with
  | (cache, some loc) => do
    let node ← cache.memory.deref (some loc)
    pure { cache with memory := cache.memory.setValue loc { node.value with blob := blob } }
  | (cache, none) => cache.insert (hash key) blob

/-- The blob stored for a key, which becomes the most recent one. -/
def getKey (cache : LruCache) (key : LruKey) : Option (LruCache × Option CacheBlob) := do
  match ← cache.touch (hash key) key with
  | (cache, some loc) => do
    let node ← cache.memory.deref (some loc)
    pure (cache, some node.value.blob)
  | (cache, none) => pure (cache, none)

def get (cache : LruCache) (q : CacheQuery) : Option (LruCache × Option CacheBlob) :=
  cache.getKey hash (lruKeyFromQuery q)

def deleteKey (cache : LruCache) (key : LruKey) : Option LruCache := do
  match ← cache.find (hash key) key with
  | none => pure cache
  | some loc => cache.unlink (some loc)

def delete (cache : LruCache) (q : CacheQuery) : Option LruCache :=
  cache.deleteKey hash (lruKeyFromQuery q)

/-- Go along the list from an item and delete those a function selects.  The function may
remember the items it saw. -/
def deleteFrom (selects : (seen : List CacheItem) → CacheItem → Bool) :
    Nat → (seen : List CacheItem) → Option Loc → LruCache → Option LruCache
  | 0, _, _, _ => none
  | fuel + 1, seen, item, cache =>
    if item = some cache.tail then pure cache
    else do
      let node ← cache.memory.deref item
      let cache ← if selects seen node.value then cache.unlink item else pure cache
      deleteFrom selects fuel (seen ++ [node.value]) node.next cache

def deleteFunc (cache : LruCache) (selects : (seen : List CacheItem) → CacheItem → Bool) :
    Option LruCache := do
  let first ← cache.memory.deref (some cache.head)
  deleteFrom selects (cache.items.size + 1) [] first.next cache

/-! ## The list a cache stands for -/

/-- A stored entry and the location of its node. -/
structure Cell where
  loc : Loc
  key : LruKey
  blob : CacheBlob

namespace Cell

def entry (cell : Cell) : LruKey × CacheBlob :=
  (cell.key, cell.blob)

/-- The payload of the node. -/
def item (cell : Cell) : CacheItem where
  hash := hash cell.key
  blob := cell.blob

end Cell

/-- The linked list goes through the cells in order, the index holds exactly their nodes,
each under the hash of its key, and every blob was built for its key. -/
structure Holds (cache : LruCache) (cells : List Cell) : Prop where
  linked : Linked cache.memory (cache.head :: cells.map Cell.loc ++ [cache.tail])
  valued : ∀ cell ∈ cells, cache.memory.value? cell.loc = some (cell.item hash)
  indexed : ∀ digest loc, cache.items.lookup digest = some loc ↔
    ∃ cell ∈ cells, hash cell.key = digest ∧ cell.loc = loc
  distinct : Recency.Distinct hash (cells.map Cell.entry)
  built : ∀ cell ∈ cells, BuiltFor cell.key cell.blob

/-- The same with blobs that may come from anywhere: each stands under the key it decodes to. -/
structure Chained (cache : LruCache) (cells : List Cell) : Prop where
  linked : Linked cache.memory (cache.head :: cells.map Cell.loc ++ [cache.tail])
  valued : ∀ cell ∈ cells, cache.memory.value? cell.loc = some (cell.item hash)
  indexed : ∀ digest loc, cache.items.lookup digest = some loc ↔
    ∃ cell ∈ cells, hash cell.key = digest ∧ cell.loc = loc
  distinct : Recency.Distinct hash (cells.map Cell.entry)
  keyed : ∀ cell ∈ cells, cell.blob.key = cell.key

variable {hash} {cache : LruCache} {cells front back : List Cell} {cell : Cell}

theorem Holds.chained (holds : Holds hash cache cells) : Chained hash cache cells where
  linked := holds.linked
  valued := holds.valued
  indexed := holds.indexed
  distinct := holds.distinct
  keyed := by
    intro cell member
    obtain ⟨_, _, built⟩ := holds.built cell member
    exact key_eq built

variable {key : LruKey} {blob : CacheBlob} {fuel : Nat}

section

variable (chained : Chained hash cache cells)
include chained

theorem Chained.holds (built : ∀ cell ∈ cells, BuiltFor cell.key cell.blob) :
    Holds hash cache cells where
  linked := chained.linked
  valued := chained.valued
  indexed := chained.indexed
  distinct := chained.distinct
  built := built

theorem Chained.size : cache.items.size = cells.length := by
  have known : ∀ digest, (cache.items.lookup digest).isSome ↔
      digest ∈ cells.map fun cell => hash cell.key := by
    intro digest
    rw [Option.isSome_iff_exists, List.mem_map]
    constructor
    · rintro ⟨loc, found⟩
      obtain ⟨cell, member, same, _⟩ := (chained.indexed digest loc).mp found
      exact ⟨cell, member, same⟩
    · rintro ⟨cell, member, same⟩
      exact ⟨cell.loc, (chained.indexed digest cell.loc).mpr ⟨cell, member, same, rfl⟩⟩
  have nodup : (cells.map fun cell => hash cell.key).Nodup := by
    have distinct := chained.distinct
    rwa [Recency.Distinct, List.map_map] at distinct
  rw [FiniteMap.size_eq nodup known, List.length_map]

/-- The node of a cell can be read. -/
theorem Chained.deref (member : cell ∈ cells) :
    ∃ node, cache.memory.deref (some cell.loc) = some node ∧ node.value = cell.item hash := by
  have held := chained.valued cell member
  obtain ⟨node, read, _, _, value⟩ := Memory.deref_some _ (Memory.lt_of_value? held)
  exact ⟨node, read, Option.some.inj (value.symm.trans held)⟩

/-- The first node is behind the head. -/
theorem Chained.deref_head : ∃ node, cache.memory.deref (some cache.head) = some node ∧
    node.next = (cells.map Cell.loc ++ [cache.tail]).head? := by
  have linked : Linked cache.memory ([] ++ cache.head :: (cells.map Cell.loc ++ [cache.tail])) :=
    chained.linked
  have next := linked.next?_eq (by simp)
  obtain ⟨node, read, _, nodeNext, _⟩ := Memory.deref_some _ (Memory.lt_of_next?
    (next.trans (List.head?_eq_some_head (by simp))))
  exact ⟨node, read, nodeNext.trans next⟩

theorem Chained.find_of_match (member : cell ∈ cells)
    (matched : cell.blob.matchesKey cell.key = true) :
    cache.find (hash cell.key) cell.key = some (some cell.loc) := by
  obtain ⟨node, read, value⟩ := chained.deref member
  have found := (chained.indexed (hash cell.key) cell.loc).mpr ⟨cell, member, rfl, rfl⟩
  have matched' : node.value.blob.matchesKey cell.key = true := by
    rw [value]
    exact matched
  simp [find, found, read, matched']

/-- Nothing is found if no blob matches, also if one decodes to the key. -/
theorem Chained.find_of_unmatched
    (unmatched : ∀ cell ∈ cells, cell.key = key → cell.blob.matchesKey key = false) :
    cache.find (hash key) key = some none := by
  cases found : cache.items.lookup (hash key) with
  | none => simp [find, found]
  | some loc =>
    -- A blob under the hash of another key does not match either.
    obtain ⟨cell, member, _, rfl⟩ := (chained.indexed _ _).mp found
    obtain ⟨node, read, value⟩ := chained.deref member
    have unmatched' : node.value.blob.matchesKey key = false := by
      rw [value, ← Bool.not_eq_true]
      intro matched
      have same := (CacheBlob.eq_key_of_matchesKey matched).trans (chained.keyed cell member)
      rw [show (cell.item hash).blob = cell.blob from rfl,
        unmatched cell member same.symm] at matched
      cases matched
    simp [find, found, read, unmatched']

end

/-! ## One step at a time -/

/-- The course of the pointers around a cell. -/
theorem locs_split (front back : List Cell) (cell : Cell) (head tail : Loc) :
    head :: (front ++ cell :: back).map Cell.loc ++ [tail] =
      (head :: front.map Cell.loc) ++ cell.loc :: (back.map Cell.loc ++ [tail]) := by
  simp

theorem locs_append (front back : List Cell) (head tail : Loc) :
    (head :: front.map Cell.loc) ++ (back.map Cell.loc ++ [tail]) =
      head :: (front ++ back).map Cell.loc ++ [tail] := by
  simp

section

variable (chained : Chained hash cache (front ++ cell :: back))
include chained

theorem Chained.distinct_split :
    Recency.Distinct hash (front.map Cell.entry ++ cell.entry :: back.map Cell.entry) := by
  simpa using chained.distinct

/-- The index without the hash of a cell chained the other cells. -/
theorem Chained.indexed_erase (digest : UInt64) (loc : Loc) :
    (cache.items.erase (hash cell.key)).lookup digest = some loc ↔
        ∃ other ∈ front ++ back, hash other.key = digest ∧ other.loc = loc := by
  have others : ∀ other ∈ front ++ back, hash other.key ≠ hash cell.key := by
    intro other member
    refine chained.distinct_split.hash_ne (?_ : other.entry ∈ _)
    simpa using List.mem_map_of_mem (f := Cell.entry) member
  rw [FiniteMap.lookup_erase_ite]
  split
  · rename_i same
    refine iff_of_false (by simp) ?_
    rintro ⟨other, member, ownHash, _⟩
    exact others other member (ownHash.trans same)
  · rename_i apart
    rw [chained.indexed]
    simp only [List.perm_middle.mem_iff, List.mem_cons, exists_eq_or_imp]
    exact ⟨fun found => found.resolve_left fun own => apart own.1.symm, .inr⟩

/-- Unlinking takes a cell out. -/
theorem Chained.unlink :
    ∃ changed, cache.unlink (some cell.loc) = some changed ∧ Chained hash changed (front ++ back) ∧
      changed.maxItems = cache.maxItems ∧ changed.head = cache.head ∧
      changed.tail = cache.tail ∧
      ∀ loc, changed.memory.value? loc = cache.memory.value? loc := by
  have linked := chained.linked
  rw [locs_split] at linked
  obtain ⟨memory, unlinked, linked, length, values⟩ := linked.unlink (by simp) (by simp)
  have held := chained.valued cell (by simp)
  obtain ⟨node, read, _, _, value⟩ := Memory.deref_some memory
    (length ▸ Memory.lt_of_value? held : cell.loc < memory.length)
  have item : node.value = cell.item hash :=
    Option.some.inj (value.symm.trans ((values cell.loc).trans held))
  have kept : ∀ other ∈ front ++ back, other ∈ front ++ cell :: back :=
    fun other member => List.perm_middle.mem_iff.mpr (List.mem_cons_of_mem cell member)
  refine ⟨{ cache with memory := memory, items := cache.items.erase (hash cell.key) }, ?_, ?_,
    rfl, rfl, rfl, values⟩
  · simp [LruCache.unlink, unlinked, read, item, Cell.item]
  · exact
      { linked := by rwa [locs_append] at linked
        valued := fun other member => (values other.loc).trans
          (chained.valued other (kept _ member))
        indexed := chained.indexed_erase
        distinct := chained.distinct.sublist
          (List.Sublist.map _ (List.Sublist.append_left (List.sublist_cons_self _ _) _))
        keyed := fun other member => chained.keyed other (kept _ member) }

end

/-- Linking a node that is outside the list behind the head puts its cell in front. -/
theorem Chained.cons (chained : Chained hash cache cells) {memory : Memory CacheItem}
    {items : FiniteMap UInt64 Loc}
    (linked : Linked memory (cache.head :: cell.loc :: (cells.map Cell.loc ++ [cache.tail])))
    (values : ∀ loc item, cache.memory.value? loc = some item → memory.value? loc = some item)
    (value : memory.value? cell.loc = some (cell.item hash))
    (indexed : ∀ digest loc, items.lookup digest = some loc ↔
      (hash cell.key = digest ∧ cell.loc = loc) ∨ cache.items.lookup digest = some loc)
    (fresh : ∀ other ∈ cells, hash other.key ≠ hash cell.key)
    (keyed : cell.blob.key = cell.key) :
    Chained hash { cache with memory := memory, items := items } (cell :: cells) where
  linked := linked
  valued := by
    intro other member
    rcases List.mem_cons.mp member with rfl | old
    · exact value
    · exact values _ _ (chained.valued other old)
  indexed := by
    intro digest loc
    rw [indexed, chained.indexed]
    simp only [List.mem_cons, exists_eq_or_imp]
  distinct := by
    refine List.nodup_cons.mpr ⟨fun member => ?_, chained.distinct⟩
    rw [List.map_map, List.mem_map] at member
    obtain ⟨other, old, same⟩ := member
    exact fresh other old same
  keyed := List.forall_mem_cons.mpr ⟨keyed, chained.keyed⟩

/-- Touching a key moves its cell to the front. -/
theorem Chained.touch_of_match (chained : Chained hash cache (front ++ cell :: back))
    (matched : cell.blob.matchesKey cell.key = true) :
    ∃ changed, cache.touch (hash cell.key) cell.key = some (changed, some cell.loc) ∧
      Chained hash changed (cell :: (front ++ back)) ∧ changed.maxItems = cache.maxItems ∧
      changed.items = cache.items ∧ ∀ loc, changed.memory.value? loc = cache.memory.value? loc := by
  have found := chained.find_of_match (List.mem_append_right front List.mem_cons_self) matched
  have linked := chained.linked
  rw [locs_split] at linked
  have outside : cell.loc ∉ (cache.head :: front.map Cell.loc) ++
      (back.map Cell.loc ++ [cache.tail]) :=
    (List.nodup_cons.mp (List.nodup_middle.mp linked.nodup)).1
  obtain ⟨memory, unlinked, linked, length, values⟩ := linked.unlink (by simp) (by simp)
  have allocated : cell.loc < memory.length := by
    rw [length]
    exact Memory.lt_of_value? (chained.valued cell (by simp))
  rw [locs_append] at linked outside
  obtain ⟨memory', relinked, linked, _, values'⟩ :=
    linked.linkAfter (by simp) allocated outside
  have kept : ∀ loc, memory'.value? loc = cache.memory.value? loc :=
    fun loc => (values' loc).trans (values loc)
  refine ⟨{ cache with memory := memory' }, by simp [touch, found, unlinked, relinked], ?_, rfl,
    rfl, kept⟩
  exact
    { linked := linked
      valued := fun other member => (kept other.loc).trans
        (chained.valued other (List.perm_middle.mem_iff.mpr member))
      indexed := by
        intro digest loc
        simp only [chained.indexed, List.perm_middle.mem_iff]
      distinct := (List.Perm.nodup_iff (List.Perm.map _ (List.Perm.map _ List.perm_middle))).mp
        chained.distinct
      keyed := fun other member => chained.keyed other (List.perm_middle.mem_iff.mpr member) }

theorem Chained.touch_of_unmatched (chained : Chained hash cache cells)
    (unmatched : ∀ cell ∈ cells, cell.key = key → cell.blob.matchesKey key = false) :
    cache.touch (hash key) key = some (cache, none) := by
  simp [touch, chained.find_of_unmatched unmatched]

/-- A new node does not matter before it is linked. -/
theorem Chained.alloc (chained : Chained hash cache cells) (item : CacheItem) :
    Chained hash { cache with memory := cache.memory.alloc item } cells where
  linked := chained.linked.congr (fun loc => by simp) (fun loc => by simp)
  valued := fun cell member => value?_alloc_old item (chained.valued cell member)
  indexed := chained.indexed
  distinct := chained.distinct
  keyed := chained.keyed

/-- The blob of the first cell may be replaced. -/
theorem Chained.setValue (chained : Chained hash cache (cell :: cells))
    (keyed : blob.key = cell.key) :
    Chained hash { cache with
      memory := cache.memory.setValue cell.loc { hash := hash cell.key, blob := blob } }
      ({ cell with blob := blob } :: cells) where
  linked := by
    have linked := chained.linked
    exact linked.congr (fun loc => by simp) (fun loc => by simp)
  valued := by
    have allocated := Memory.lt_of_value? (chained.valued cell List.mem_cons_self)
    intro other member
    rw [Memory.value?_setValue _ _ _ _ allocated]
    rcases List.mem_cons.mp member with rfl | old
    · simp [Cell.item]
    · have apart : other.loc ≠ cell.loc := by
        intro same
        have nodup := chained.linked.nodup
        simp only [List.map_cons, List.cons_append, List.nodup_cons] at nodup
        exact nodup.2.1 (same ▸ List.mem_append_left _ (List.mem_map_of_mem old))
      rw [if_neg apart]
      exact chained.valued other (List.mem_cons_of_mem _ old)
  indexed := by
    intro digest loc
    rw [chained.indexed]
    simp only [List.mem_cons, exists_eq_or_imp]
  distinct := by
    have distinct := chained.distinct
    simpa [Recency.Distinct, Cell.entry] using distinct
  keyed := List.forall_mem_cons.mpr
    ⟨keyed, fun other old => chained.keyed other (List.mem_cons_of_mem _ old)⟩

section

variable (chained : Chained hash cache cells)
include chained

/-- The oldest cells go until the capacity is met. -/
theorem Chained.shrink (nonneg : 0 ≤ cache.maxItems)
    (enough : cells.length ≤ fuel + cache.maxItems.toNat) :
    ∃ changed, LruCache.shrink fuel cache = some changed ∧
      Chained hash changed (cells.take cache.maxItems.toNat) ∧
      changed.maxItems = cache.maxItems := by
  have size := chained.size
  have fits : ¬ cache.maxItems < cache.items.size →
      cells.take cache.maxItems.toNat = cells := fun few => List.take_of_length_le (by omega)
  induction fuel generalizing cache cells with
  | zero =>
    have few : ¬ cache.maxItems < cache.items.size := by omega
    exact ⟨cache, by simp [LruCache.shrink, few], by rwa [fits few], rfl⟩
  | succ fuel ih =>
    by_cases many : cache.maxItems < cache.items.size
    · obtain ⟨front, last, rfl⟩ := (List.eq_nil_or_concat cells).resolve_left (by
        rintro rfl
        simp at size
        omega)
      rw [List.concat_eq_append] at chained size enough ⊢
      have linked : Linked cache.memory
          ((cache.head :: front.map Cell.loc ++ [last.loc]) ++ cache.tail :: []) := by
        simpa using chained.linked
      have prev : cache.memory.prev? cache.tail = some last.loc := by
        rw [linked.prev?_eq (by simp), List.getLast?_concat]
      obtain ⟨node, read, nodePrev, _⟩ := Memory.deref_some _ (Memory.lt_of_prev? prev)
      obtain ⟨fewer, unlinked, chained', sameMax, _⟩ := chained.unlink
      rw [List.append_nil] at chained'
      have shorter : cache.maxItems.toNat ≤ front.length := by
        simp only [List.length_append, List.length_singleton] at size
        omega
      obtain ⟨changed, shrunk, result, sameMax'⟩ := ih chained' (sameMax ▸ nonneg)
        (by rw [sameMax]; simp only [List.length_append, List.length_singleton] at enough; omega)
        chained'.size (fun few => List.take_of_length_le (by have := chained'.size; omega))
      refine ⟨changed, ?_, ?_, sameMax'.trans sameMax⟩
      · simp [LruCache.shrink, many, read, nodePrev, prev, unlinked, shrunk]
      · rw [List.take_append_of_le_length shorter, ← sameMax]
        exact result
    · exact ⟨cache, by simp [LruCache.shrink, many], by rwa [fits many], rfl⟩

theorem Chained.resize :
    ∃ changed kept, cache.resize = some changed ∧ Chained hash changed kept ∧
      kept.map Cell.entry = Recency.bounded cache.maxItems (cells.map Cell.entry) ∧
      changed.maxItems = cache.maxItems := by
  by_cases unlimited : cache.maxItems ≤ 0
  · exact ⟨cache, cells, by simp [LruCache.resize, unlimited], chained,
      by rw [Recency.bounded, if_neg (Int.not_lt.mpr unlimited)], rfl⟩
  · have positive := Int.not_le.mp unlimited
    obtain ⟨changed, shrunk, result, sameMax⟩ := chained.shrink positive.le
      (by rw [chained.size]; exact Nat.le_add_right _ _ : cells.length ≤ cache.items.size + _)
    exact ⟨changed, _, by simp [LruCache.resize, unlimited, shrunk], result,
      by rw [Recency.bounded, if_pos positive, List.map_take], sameMax⟩

/-- Before an item is inserted, the one with the same hash goes. -/
theorem Chained.makeRoom (key : LruKey) :
    ∃ changed kept, cache.makeRoom (hash key) = some changed ∧
      Chained hash changed kept ∧ kept.Sublist cells ∧
      kept.map Cell.entry =
        (cells.map Cell.entry).filter (fun entry => hash entry.1 ≠ hash key) ∧
      changed.maxItems = cache.maxItems ∧ changed.head = cache.head ∧
      changed.tail = cache.tail ∧
      ∀ loc, changed.memory.value? loc = cache.memory.value? loc := by
  cases found : cache.items.lookup (hash key) with
  | none =>
    have kept : ∀ entry ∈ cells.map Cell.entry, decide (hash entry.1 ≠ hash key) = true := by
      intro entry member
      obtain ⟨cell, inside, rfl⟩ := List.mem_map.mp member
      refine decide_eq_true fun same => ?_
      have indexed := (chained.indexed _ _).mpr ⟨cell, inside, same, rfl⟩
      rw [found] at indexed
      cases indexed
    exact ⟨cache, cells, by simp [LruCache.makeRoom, found], chained, List.Sublist.refl cells,
      (List.filter_eq_self.mpr kept).symm, rfl, rfl, rfl, fun _ => rfl⟩
  | some existing =>
    obtain ⟨cell, member, same, rfl⟩ := (chained.indexed _ _).mp found
    obtain ⟨front, back, rfl⟩ := List.append_of_mem member
    obtain ⟨changed, unlinked, chained', maxItems, head, tail, values⟩ := chained.unlink
    refine ⟨changed, front ++ back, by simp [LruCache.makeRoom, found, unlinked], chained',
      List.Sublist.append_left (List.sublist_cons_self _ _) _, ?_, maxItems, head, tail, values⟩
    rw [← same, List.map_append, List.map_append, List.map_cons]
    exact (Recency.filter_hash_split chained.distinct_split).symm

/-- Inserting puts a cell in front and drops what has the same hash or is too much. -/
theorem Chained.insert (keyed : blob.key = key) :
    ∃ changed kept, cache.insert (hash key) blob = some changed ∧ Chained hash changed kept ∧
      kept.map Cell.entry = Recency.bounded cache.maxItems ((key, blob) ::
        (cells.map Cell.entry).filter (fun entry => hash entry.1 ≠ hash key)) ∧
      changed.maxItems = cache.maxItems := by
  let cell : Cell := { loc := cache.memory.length, key := key, blob := blob }
  have old : ∀ loc ∈ cache.head :: cells.map Cell.loc ++ [cache.tail],
      loc < cache.memory.length := by
    have linked := chained.linked
    cases cells with
    | nil | cons first rest => exact linked.allocated
  obtain ⟨room, kept, made, chained', sublist, entries, maxItems, head, tail, values⟩ :=
    (chained.alloc (cell.item hash)).makeRoom key
  have outside : cell.loc ∉ room.head :: (kept.map Cell.loc ++ [room.tail]) := by
    rw [head, tail]
    intro member
    refine Nat.lt_irrefl _ (old cell.loc ?_)
    exact ((List.Sublist.append_right (sublist.map Cell.loc) _).cons_cons _).subset member
  have value : room.memory.value? cell.loc = some (cell.item hash) := by
    rw [values]
    exact value?_alloc_new _ _
  obtain ⟨memory, linked, course, _, values'⟩ := chained'.linked.linkAfter (by simp)
    (Memory.lt_of_value? value) outside
  have fresh : ∀ other ∈ kept, hash other.key ≠ hash cell.key := by
    intro other member
    have filtered : other.entry ∈ kept.map Cell.entry := List.mem_map_of_mem member
    rw [entries] at filtered
    exact of_decide_eq_true (List.mem_filter.mp filtered).2
  have indexed : ∀ digest loc, (room.items.insert (hash key) cell.loc).lookup digest = some loc ↔
      (hash cell.key = digest ∧ cell.loc = loc) ∨ room.items.lookup digest = some loc := by
    intro digest loc
    rw [FiniteMap.lookup_insert_ite]
    split
    · rename_i same
      subst same
      constructor
      · exact fun found => .inl ⟨rfl, Option.some.inj found⟩
      · rintro (⟨_, rfl⟩ | found)
        · rfl
        · obtain ⟨other, member, sameHash, _⟩ := (chained'.indexed _ _).mp found
          exact absurd sameHash (fresh other member)
    · rename_i apart
      exact ⟨.inr, fun found => found.resolve_left fun own => apart own.1.symm⟩
  have inserted : Chained hash { room with
      memory := memory, items := room.items.insert (hash key) cell.loc }
      (cell :: kept) :=
    chained'.cons course (fun loc item held => (values' loc).trans held)
      ((values' cell.loc).trans value) indexed fresh keyed
  obtain ⟨changed, result, resized, chained'', bounded, sameMax⟩ := inserted.resize
  refine ⟨changed, result, ?_, chained'', ?_, sameMax.trans maxItems⟩
  · have made' : ({ cache with memory := cache.memory.alloc { hash := hash key, blob := blob } } :
        LruCache).makeRoom (hash key) = some room := made
    have linked' : room.memory.linkAfter (some room.head) (some cache.memory.length) =
        some memory := linked
    simp only [LruCache.insert, made', linked', Option.bind_eq_bind, Option.bind_some]
    exact resized
  · rw [bounded, List.map_cons, entries]
    simp only [maxItems]
    rfl

end

/-- The item an entry is stored as. -/
def itemOf (hash : LruKey → UInt64) (entry : LruKey × CacheBlob) : CacheItem where
  hash := hash entry.1
  blob := entry.2

/-- One pass of the loop over the items. -/
theorem deleteFrom_succ {selects : (seen : List CacheItem) → CacheItem → Bool}
    {seen : List CacheItem} {loc : Loc} {node : Node CacheItem} (notTail : loc ≠ cache.tail)
    (read : cache.memory.deref (some loc) = some node) :
    LruCache.deleteFrom selects (fuel + 1) seen (some loc) cache =
      (if selects seen node.value then cache.unlink (some loc) else some cache).bind fun cache =>
        LruCache.deleteFrom selects fuel (seen ++ [node.value]) node.next cache := by
  simp only [LruCache.deleteFrom, Option.some.injEq, notTail, if_false, read, Option.bind_eq_bind,
    Option.bind_some, Option.pure_def]
  split <;> rfl

/-- The node of a cell, which is not a sentinel, leads to the cells on both sides. -/
theorem Chained.neighbours (chained : Chained hash cache (front ++ cell :: back)) :
    cell.loc ≠ cache.head ∧ cell.loc ≠ cache.tail ∧
      ∃ node, cache.memory.deref (some cell.loc) = some node ∧
        node.prev = (cache.head :: front.map Cell.loc).getLast? ∧
        node.next = (back.map Cell.loc ++ [cache.tail]).head? ∧ node.value = cell.item hash := by
  have linked := chained.linked
  rw [locs_split] at linked
  have outside := (List.nodup_cons.mp (List.nodup_middle.mp linked.nodup)).1
  have prev := linked.prev?_eq (by simp)
  have next := linked.next?_eq (by simp)
  obtain ⟨node, read, nodePrev, nodeNext, value⟩ := Memory.deref_some _ (Memory.lt_of_next?
    (next.trans (List.head?_eq_some_head (by simp))))
  have held := chained.valued cell (by simp)
  exact ⟨fun same => outside (same ▸ by simp), fun same => outside (same ▸ by simp), node, read,
    nodePrev.trans prev, nodeNext.trans next, Option.some.inj (value.symm.trans held)⟩

/-- The loop over the items deletes those that are selected. -/
theorem Chained.deleteFrom {kept rest : List Cell} (chained : Chained hash cache (kept ++ rest))
    (selects : (seen : List CacheItem) → CacheItem → Bool) (seen : List (LruKey × CacheBlob))
    (enough : rest.length < fuel) :
    ∃ changed left, LruCache.deleteFrom selects fuel (seen.map (itemOf hash))
        (rest.map Cell.loc ++ [cache.tail]).head? cache = some changed ∧
      Chained hash changed (kept ++ left) ∧
      left.map Cell.entry = Recency.deleteFunc
        (fun seen entry => selects (seen.map (itemOf hash)) (itemOf hash entry)) seen
        (rest.map Cell.entry) ∧
      changed.maxItems = cache.maxItems := by
  induction rest generalizing cache kept seen fuel with
  | nil =>
    obtain ⟨fuel, rfl⟩ := Nat.exists_eq_succ_of_ne_zero (Nat.ne_of_gt enough)
    exact ⟨cache, [], by simp [LruCache.deleteFrom], chained, rfl, rfl⟩
  | cons cell rest ih =>
    obtain ⟨fuel, rfl⟩ := Nat.exists_eq_succ_of_ne_zero (Nat.ne_zero_of_lt enough)
    obtain ⟨_, notTail, node, read, _, next, item⟩ := chained.neighbours
    change node.value = itemOf hash cell.entry at item
    by_cases selected : selects (seen.map (itemOf hash)) (itemOf hash cell.entry) = true
    · obtain ⟨fewer, unlinked, chained', maxItems, _, tail, _⟩ := chained.unlink
      obtain ⟨changed, left, deleted, result, entries, sameMax⟩ :=
        ih chained' (seen ++ [cell.entry]) (Nat.lt_of_succ_lt_succ enough)
      refine ⟨changed, left, ?_, result, ?_, sameMax.trans maxItems⟩
      · rw [List.map_cons, List.cons_append, List.head?_cons, deleteFrom_succ notTail read, item,
          if_pos selected, unlinked, Option.bind_some, next]
        rwa [tail, List.map_append] at deleted
      · rw [entries, List.map_cons, Recency.deleteFunc, if_pos selected]
    · have chained' : Chained hash cache ((kept ++ [cell]) ++ rest) := by simpa using chained
      obtain ⟨changed, left, deleted, result, entries, sameMax⟩ :=
        ih chained' (seen ++ [cell.entry]) (Nat.lt_of_succ_lt_succ enough)
      refine ⟨changed, cell :: left, ?_, by simpa using result, ?_, sameMax⟩
      · rw [List.map_cons, List.cons_append, List.head?_cons, deleteFrom_succ notTail read, item,
          if_neg selected, Option.bind_some, next]
        rwa [List.map_append] at deleted
      · rw [List.map_cons, entries, List.map_cons, Recency.deleteFunc, if_neg selected]

end LruCache

end RouteDns.Cache
