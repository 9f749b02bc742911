import RouteDns.Cache.Lru

/-!
# Whole runs of the cache

Every sequence of operations on a new cache returns what the operations on a list ordered
by recency return, and leaves a cache that stands for the list they leave.
-/

namespace RouteDns.Cache

open Dns LinkedList

namespace LruCache

variable {hash : LruKey → UInt64} {cache : LruCache}

/-- A cache with a capacity stands for a list of entries. -/
structure Represents (hash : LruKey → UInt64) (capacity : Int) (cache : LruCache)
    (entries : List (LruKey × CacheBlob)) : Prop where
  capacity_eq : cache.maxItems = capacity
  cells : ∃ cells, Holds hash cache cells ∧ cells.map Cell.entry = entries

variable {capacity : Int} {entries : List (LruKey × CacheBlob)}

/-- A cache with a capacity carries a list of entries, each with a blob from anywhere under the
key it decodes to. -/
structure Carries (hash : LruKey → UInt64) (capacity : Int) (cache : LruCache)
    (entries : List (LruKey × CacheBlob)) : Prop where
  capacity_eq : cache.maxItems = capacity
  cells : ∃ cells, Chained hash cache cells ∧ cells.map Cell.entry = entries

theorem Represents.carries (represents : Represents hash capacity cache entries) :
    Carries hash capacity cache entries := by
  obtain ⟨cells, holds, same⟩ := represents.cells
  exact ⟨represents.capacity_eq, cells, holds.chained, same⟩

theorem Represents.built (represents : Represents hash capacity cache entries) :
    ∀ entry ∈ entries, BuiltFor entry.1 entry.2 := by
  obtain ⟨cells, holds, rfl⟩ := represents.cells
  exact List.forall_mem_map.mpr holds.built

section

variable (carries : Carries hash capacity cache entries)
include carries

theorem Carries.represents (built : ∀ entry ∈ entries, BuiltFor entry.1 entry.2) :
    Represents hash capacity cache entries := by
  obtain ⟨cells, chained, rfl⟩ := carries.cells
  exact ⟨carries.capacity_eq, cells, chained.holds fun cell member =>
    built cell.entry (List.mem_map_of_mem member), rfl⟩

theorem Carries.distinct :
    Recency.Distinct hash entries := by
  obtain ⟨cells, chained, rfl⟩ := carries.cells
  exact chained.distinct

theorem Carries.size :
    cache.items.size = entries.length := by
  obtain ⟨cells, chained, rfl⟩ := carries.cells
  rw [chained.size, List.length_map]

/-- A key has one entry. -/
theorem Carries.unique {first second : LruKey × CacheBlob} (firstIn : first ∈ entries)
    (secondIn : second ∈ entries) (same : first.1 = second.1) :
    first = second :=
  List.inj_on_of_nodup_map carries.distinct firstIn secondIn (congrArg hash same)

theorem Carries.keyed :
    ∀ entry ∈ entries, entry.2.key = entry.1 := by
  obtain ⟨cells, chained, rfl⟩ := carries.cells
  exact List.forall_mem_map.mpr chained.keyed

end

theorem Represents.distinct (represents : Represents hash capacity cache entries) :
    Recency.Distinct hash entries :=
  represents.carries.distinct

theorem chained_sentinels (memory : Memory CacheItem) (capacity : Int) :
    Chained hash { maxItems := capacity, items := ∅, head := memory.length
                   tail := memory.length + 1, memory := sentinels memory } [] where
  linked := by
    have allocated : memory.length < ((memory.alloc noItem).alloc noItem).length := by
      rw [length_alloc, length_alloc]
      omega
    refine ⟨List.isChain_cons_cons.mpr ⟨⟨?_, ?_⟩, List.isChain_singleton _⟩, by simp⟩
    · rw [sentinels, Memory.next?_setPrev, Memory.next?_setNext _ _ _ _ allocated, if_pos rfl]
    · rw [sentinels, Memory.prev?_setPrev _ _ _ _ (by simp), if_pos rfl]
  valued := by simp
  indexed := by simp
  distinct := List.nodup_nil
  keyed := by simp

theorem carries_new (hash : LruKey → UInt64) (capacity : Int) :
    Carries hash capacity (newLRUCache capacity) [] :=
  ⟨rfl, [], chained_sentinels [] capacity, rfl⟩

theorem represents_new (hash : LruKey → UInt64) (capacity : Int) :
    Represents hash capacity (newLRUCache capacity) [] :=
  (carries_new hash capacity).represents (by simp)

theorem Carries.reset (carries : Carries hash capacity cache entries) :
    Carries hash capacity cache.reset [] :=
  ⟨carries.capacity_eq, [], chained_sentinels cache.memory cache.maxItems, rfl⟩

theorem Represents.reset (represents : Represents hash capacity cache entries) :
    Represents hash capacity cache.reset [] :=
  represents.carries.reset.represents (by simp)

/-! ## Operations on blobs from anywhere -/

/-- The entries that can be found: their blobs match the keys they stand under. -/
def findable (entries : List (LruKey × CacheBlob)) : List (LruKey × CacheBlob) :=
  entries.filter fun entry => entry.2.matchesKey entry.1

theorem findable_of_built (built : ∀ entry ∈ entries, BuiltFor entry.1 entry.2) :
    findable entries = entries := by
  refine List.filter_eq_self.mpr fun entry member => ?_
  obtain ⟨_, _, own⟩ := built entry member
  exact (matchesKey_iff own entry.1).mpr rfl

/-- The entries after an add, which takes over the place of an entry that it finds. -/
def placed (hash : LruKey → UInt64) (capacity : Int) (key : LruKey) (blob : CacheBlob)
    (entries : List (LruKey × CacheBlob)) : List (LruKey × CacheBlob) :=
  if (Recency.find key (findable entries)).isSome then
    (key, blob) :: Recency.delete key entries
  else
    Recency.bounded capacity ((key, blob) :: entries.filter fun entry => hash entry.1 ≠ hash key)

/-- Within the capacity it does not matter whether an entry with the key is found. -/
theorem placed_eq_add (distinct : Recency.Distinct hash entries)
    (fits : Recency.Fits capacity entries) (key : LruKey) (blob : CacheBlob) :
    placed hash capacity key blob entries = Recency.add hash capacity key blob entries := by
  unfold placed Recency.add
  cases old : Recency.find key entries with
  | none =>
    have nothing : Recency.find key (findable entries) = none :=
      Recency.find_absent fun entry member =>
        Recency.absent_of_find old entry (List.mem_of_mem_filter member)
    rw [nothing]
  | some value =>
    obtain ⟨front, back, rfl⟩ := List.append_of_mem (Recency.mem_of_find old)
    have whole : Recency.bounded capacity ((key, blob) :: (front ++ back)) =
        (key, blob) :: (front ++ back) := by
      unfold Recency.bounded
      split
      · rename_i positive
        have bound := fits positive
        refine List.take_of_length_le ?_
        simp only [List.length_append, List.length_cons] at bound ⊢
        omega
      · rfl
    have filtered := Recency.filter_hash_split distinct
    have deleted := Recency.delete_split distinct
    rw [filtered, deleted, whole]
    simp

/-- The entries after a key was looked up, and moved to the front if it was found. -/
def touched (key : LruKey) (entries : List (LruKey × CacheBlob)) : List (LruKey × CacheBlob) :=
  if (Recency.find key (findable entries)).isSome then Recency.promote key entries else entries

/-- The entries after a key was removed, if it was found. -/
def removed (key : LruKey) (entries : List (LruKey × CacheBlob)) : List (LruKey × CacheBlob) :=
  if (Recency.find key (findable entries)).isSome then Recency.delete key entries else entries

variable {blob : CacheBlob}

section Members

variable {key : LruKey} {entry : LruKey × CacheBlob}

theorem mem_placed (member : entry ∈ placed hash capacity key blob entries) :
    entry = (key, blob) ∨ entry ∈ entries := by
  unfold placed at member
  split at member
  · rcases List.mem_cons.mp member with rfl | old
    · exact .inl rfl
    · exact .inr (Recency.mem_delete.mp old).1
  · rcases List.mem_cons.mp ((Recency.bounded_sublist _ _).mem member) with rfl | old
    · exact .inl rfl
    · exact .inr (List.mem_of_mem_filter old)

theorem mem_touched : entry ∈ touched key entries ↔ entry ∈ entries := by
  unfold touched
  split
  · exact Recency.mem_promote
  · rfl

theorem mem_removed (member : entry ∈ removed key entries) : entry ∈ entries := by
  unfold removed at member
  split at member
  · exact (Recency.mem_delete.mp member).1
  · exact member

theorem mem_removed_of_ne (member : entry ∈ entries) (other : entry.1 ≠ key) :
    entry ∈ removed key entries := by
  unfold removed
  split
  · exact Recency.mem_delete.mpr ⟨member, other⟩
  · exact member

/-- An entry that its key finds is gone when the key was removed. -/
theorem not_mem_removed (matched : blob.matchesKey key = true) :
    (key, blob) ∉ removed key entries := by
  intro member
  unfold removed at member
  split at member
  · exact (Recency.mem_delete.mp member).2 rfl
  · rename_i missing
    refine Recency.absent_of_find (Option.not_isSome_iff_eq_none.mp missing) (key, blob) ?_ rfl
    exact List.mem_filter.mpr ⟨member, matched⟩

/-- An entry stays when another key with another hash is added within the capacity. -/
theorem mem_placed_of_ne (member : entry ∈ entries) (other : entry.1 ≠ key)
    (apart : hash entry.1 ≠ hash key) (room : 0 < capacity → (entries.length : Int) < capacity) :
    entry ∈ placed hash capacity key blob entries := by
  have left : entry ∈ entries.filter fun entry => hash entry.1 ≠ hash key :=
    List.mem_filter.mpr ⟨member, by simpa using apart⟩
  unfold placed
  split
  · exact List.mem_cons_of_mem _ (Recency.mem_delete.mpr ⟨member, other⟩)
  · unfold Recency.bounded
    split
    · rename_i positive
      have fewer := List.length_filter_le (fun entry => decide (hash entry.1 ≠ hash key)) entries
      rw [List.take_of_length_le (by rw [List.length_cons]; have := room positive; omega)]
      exact List.mem_cons_of_mem _ left
    · exact List.mem_cons_of_mem _ left

end Members

section

variable (carries : Carries hash capacity cache entries)
include carries

/-- What a key finds. -/
theorem Carries.find_eq_some_iff {key : LruKey} :
    Recency.find key (findable entries) = some blob ↔
      (key, blob) ∈ entries ∧ blob.matchesKey key = true := by
  constructor
  · intro found
    exact List.mem_filter.mp (Recency.mem_of_find found)
  · rintro ⟨member, matched⟩
    have inside : (key, blob) ∈ findable entries := List.mem_filter.mpr ⟨member, matched⟩
    obtain ⟨front, back, split⟩ := List.append_of_mem inside
    have distinct : Recency.Distinct hash (findable entries) :=
      carries.distinct.sublist List.filter_sublist
    rw [split] at distinct ⊢
    exact Recency.find_split distinct

/-- A blob matches a key, and stands in the middle of the cells, or none does. -/
theorem Carries.key_cases (key : LruKey) :
    (∃ front cell back, Chained hash cache (front ++ cell :: back) ∧ cell.key = key ∧
        cell.blob.matchesKey cell.key = true ∧
        front.map Cell.entry ++ cell.entry :: back.map Cell.entry = entries ∧
        Recency.find key (findable entries) = some cell.blob) ∨
      ∃ cells, Chained hash cache cells ∧ cells.map Cell.entry = entries ∧
        (∀ cell ∈ cells, cell.key = key → cell.blob.matchesKey key = false) ∧
        Recency.find key (findable entries) = none := by
  obtain ⟨cells, chained, rfl⟩ := id carries.cells
  cases found : Recency.find key (findable (cells.map Cell.entry)) with
  | some blob =>
    obtain ⟨inside, matched⟩ := carries.find_eq_some_iff.mp found
    obtain ⟨cell, member, same⟩ := List.mem_map.mp inside
    obtain ⟨rfl, rfl⟩ := Prod.mk.inj same
    obtain ⟨front, back, rfl⟩ := List.append_of_mem member
    exact .inl ⟨front, cell, back, chained, rfl, matched, by simp, rfl⟩
  | none =>
    refine .inr ⟨cells, chained, rfl, ?_, rfl⟩
    rintro cell member rfl
    rw [← Bool.not_eq_true]
    intro matched
    have inside : cell.entry ∈ findable (cells.map Cell.entry) :=
      List.mem_filter.mpr ⟨List.mem_map_of_mem member, matched⟩
    exact Recency.absent_of_find found cell.entry inside rfl

theorem Carries.addKey {key : LruKey} (keyed : blob.key = key) :
    ∃ changed, cache.addKey hash key blob = some changed ∧
      Carries hash capacity changed (placed hash capacity key blob entries) := by
  rcases carries.key_cases key with ⟨front, cell, back, chained, rfl, matched, rfl, found⟩ |
    ⟨cells, chained, rfl, unmatched, found⟩
  · obtain ⟨touched, ran, chained', maxItems, _⟩ := chained.touch_of_match matched
    obtain ⟨node, read, value⟩ := chained'.deref List.mem_cons_self
    have deleted := Recency.delete_split chained.distinct_split
    refine ⟨{ touched with
      memory := touched.memory.setValue cell.loc { hash := hash cell.key, blob := blob } },
      by simp [LruCache.addKey, ran, read, value, Cell.item],
      maxItems.trans carries.capacity_eq, _, chained'.setValue keyed, ?_⟩
    simp only [Cell.entry] at found deleted
    simp [placed, found, deleted, Cell.entry]
  · obtain ⟨changed, kept, inserted, chained', entries', maxItems⟩ := chained.insert keyed
    refine ⟨changed, by simp [LruCache.addKey, chained.touch_of_unmatched unmatched, inserted],
      maxItems.trans carries.capacity_eq, kept, chained', ?_⟩
    rw [entries', carries.capacity_eq, placed, found]
    rfl

theorem Carries.getKey (key : LruKey) :
    ∃ changed, cache.getKey hash key = some (changed, Recency.find key (findable entries)) ∧
      Carries hash capacity changed (LruCache.touched key entries) := by
  rcases carries.key_cases key with ⟨front, cell, back, chained, rfl, matched, rfl, found⟩ |
    ⟨cells, chained, rfl, unmatched, found⟩
  · obtain ⟨changed, ran, chained', maxItems, _⟩ := chained.touch_of_match matched
    obtain ⟨node, read, value⟩ := chained'.deref List.mem_cons_self
    have promoted := Recency.promote_split chained.distinct_split
    simp only [Cell.entry] at promoted found
    refine ⟨changed, ?_, maxItems.trans carries.capacity_eq, _, chained', ?_⟩
    · simp [LruCache.getKey, ran, read, value, Cell.item, Cell.entry, found]
    · simp [LruCache.touched, found, Cell.entry, promoted]
  · refine ⟨cache, ?_, carries.capacity_eq, cells, chained, ?_⟩
    · simp [LruCache.getKey, chained.touch_of_unmatched unmatched, found]
    · simp [LruCache.touched, found]

theorem Carries.deleteKey (key : LruKey) :
    ∃ changed, cache.deleteKey hash key = some changed ∧
      Carries hash capacity changed (removed key entries) := by
  rcases carries.key_cases key with ⟨front, cell, back, chained, rfl, matched, rfl, found⟩ |
    ⟨cells, chained, rfl, unmatched, found⟩
  · obtain ⟨changed, unlinked, chained', maxItems, _⟩ := chained.unlink
    have located := chained.find_of_match (List.mem_append_right front List.mem_cons_self) matched
    have deleted := Recency.delete_split chained.distinct_split
    simp only [Cell.entry] at deleted found
    refine ⟨changed, by simp [LruCache.deleteKey, located, unlinked],
      maxItems.trans carries.capacity_eq, _, chained', ?_⟩
    simp [removed, found, Cell.entry, deleted]
  · refine ⟨cache, ?_, carries.capacity_eq, cells, chained, ?_⟩
    · simp [LruCache.deleteKey, chained.find_of_unmatched unmatched]
    · simp [removed, found]

theorem Carries.deleteFunc (selects : (seen : List CacheItem) → CacheItem → Bool) :
    ∃ changed, cache.deleteFunc selects = some changed ∧
      Carries hash capacity changed (Recency.deleteFunc
        (fun seen entry => selects (seen.map (itemOf hash)) (itemOf hash entry)) [] entries) := by
  obtain ⟨cells, chained, rfl⟩ := carries.cells
  obtain ⟨node, read, next⟩ := chained.deref_head
  have chained' : Chained hash cache ([] ++ cells) := chained
  obtain ⟨changed, left, deleted, result, entries, maxItems⟩ := chained'.deleteFrom selects []
    (by rw [chained.size]; exact Nat.lt_succ_self _ : cells.length < cache.items.size + 1)
  refine ⟨changed, ?_, maxItems.trans carries.capacity_eq, left, result, entries⟩
  simpa [LruCache.deleteFunc, read, next] using deleted

end

/-! ## Operations on blobs that were built for their keys -/

section Built

variable (built : ∀ entry ∈ entries, BuiltFor entry.1 entry.2) (key : LruKey)

include built

theorem touched_of_built : touched key entries = Recency.promote key entries := by
  rw [touched, findable_of_built built]
  cases found : Recency.find key entries with
  | none => exact (Recency.promote_absent (Recency.absent_of_find found)).symm
  | some blob => rfl

theorem removed_of_built : removed key entries = Recency.delete key entries := by
  rw [removed, findable_of_built built]
  cases found : Recency.find key entries with
  | none => exact (Recency.delete_absent (Recency.absent_of_find found)).symm
  | some blob => rfl

end Built

section

variable (represents : Represents hash capacity cache entries)
include represents

theorem Represents.addKey {key : LruKey} (built : BuiltFor key blob) :
    ∃ changed, cache.addKey hash key blob = some changed ∧
      Represents hash capacity changed (Recency.add hash capacity key blob entries) := by
  obtain ⟨_, _, own⟩ := id built
  obtain ⟨changed, ran, carries⟩ := represents.carries.addKey (key_eq own)
  rw [placed, findable_of_built represents.built] at carries
  refine ⟨changed, ran, carries.represents fun entry member => ?_⟩
  rcases Recency.mem_add member with rfl | ⟨old, _⟩
  · exact built
  · exact represents.built entry old

theorem Represents.getKey (key : LruKey) :
    ∃ changed, cache.getKey hash key = some (changed, Recency.find key entries) ∧
      Represents hash capacity changed (Recency.promote key entries) := by
  obtain ⟨changed, ran, carries⟩ := represents.carries.getKey key
  rw [findable_of_built represents.built] at ran
  rw [touched_of_built represents.built] at carries
  exact ⟨changed, ran, carries.represents fun entry member =>
    represents.built entry (Recency.mem_promote.mp member)⟩

theorem Represents.deleteKey (key : LruKey) :
    ∃ changed, cache.deleteKey hash key = some changed ∧
      Represents hash capacity changed (Recency.delete key entries) := by
  obtain ⟨changed, ran, carries⟩ := represents.carries.deleteKey key
  rw [removed_of_built represents.built] at carries
  exact ⟨changed, ran, carries.represents fun entry member =>
    represents.built entry (Recency.mem_delete.mp member).1⟩

theorem Represents.deleteFunc (selects : (seen : List CacheItem) → CacheItem → Bool) :
    ∃ changed, cache.deleteFunc selects = some changed ∧
      Represents hash capacity changed (Recency.deleteFunc
        (fun seen entry => selects (seen.map (itemOf hash)) (itemOf hash entry)) [] entries) := by
  obtain ⟨changed, ran, carries⟩ := represents.carries.deleteFunc selects
  exact ⟨changed, ran, carries.represents fun entry member =>
    represents.built entry ((Recency.deleteFunc_sublist _ _ _).mem member)⟩

/-- The operations on a cache. -/
inductive Op where
  | addKey (key : LruKey) (blob : CacheBlob) (built : BuiltFor key blob)
  | get (q : CacheQuery)
  | delete (q : CacheQuery)
  | deleteFunc (selects : (seen : List CacheItem) → CacheItem → Bool)
  | reset

/-- Perform an operation; only `get` returns something. -/
def Op.perform (hash : LruKey → UInt64) (cache : LruCache) :
    Op → Option (LruCache × Option CacheBlob)
  | .addKey key blob _ => do
    let cache ← cache.addKey hash key blob
    pure (cache, none)
  | .get q => cache.get hash q
  | .delete q => do
    let cache ← cache.delete hash q
    pure (cache, none)
  | .deleteFunc selects => do
    let cache ← cache.deleteFunc selects
    pure (cache, none)
  | .reset => pure (cache.reset, none)

/-- What an operation does to a list ordered by recency, and what it returns. -/
def Op.expected (hash : LruKey → UInt64) (capacity : Int)
    (entries : List (LruKey × CacheBlob)) :
    Op → List (LruKey × CacheBlob) × Option CacheBlob
  | .addKey key blob _ => (Recency.add hash capacity key blob entries, none)
  | .get q => (Recency.promote (lruKeyFromQuery q) entries,
      Recency.find (lruKeyFromQuery q) entries)
  | .delete q => (Recency.delete (lruKeyFromQuery q) entries, none)
  | .deleteFunc selects => (Recency.deleteFunc
      (fun seen entry => selects (seen.map (itemOf hash)) (itemOf hash entry)) [] entries, none)
  | .reset => ([], none)

/-- Perform operations one after the other and collect what they return. -/
def performAll (hash : LruKey → UInt64) :
    LruCache → List Op → Option (LruCache × List (Option CacheBlob))
  | cache, [] => pure (cache, [])
  | cache, op :: rest => do
    let (cache, returned) ← op.perform hash cache
    let (cache, later) ← performAll hash cache rest
    pure (cache, returned :: later)

def expectedAll (hash : LruKey → UInt64) (capacity : Int) :
    List (LruKey × CacheBlob) → List Op → List (LruKey × CacheBlob) × List (Option CacheBlob)
  | entries, [] => (entries, [])
  | entries, op :: rest =>
    let step := op.expected hash capacity entries
    let later := expectedAll hash capacity step.1 rest
    (later.1, step.2 :: later.2)

/-- An operation acts on the represented list as expected. -/
theorem Represents.perform (op : Op) :
    ∃ changed, op.perform hash cache = some (changed, (op.expected hash capacity entries).2) ∧
      Represents hash capacity changed (op.expected hash capacity entries).1 := by
  cases op with
  | addKey key blob built =>
    obtain ⟨changed, ran, result⟩ := represents.addKey built
    exact ⟨changed, by simp [Op.perform, ran, Op.expected], result⟩
  | get q => exact represents.getKey (lruKeyFromQuery q)
  | delete q =>
    obtain ⟨changed, ran, result⟩ := represents.deleteKey (lruKeyFromQuery q)
    exact ⟨changed, by simp [Op.perform, LruCache.delete, ran, Op.expected], result⟩
  | deleteFunc selects =>
    obtain ⟨changed, ran, result⟩ := represents.deleteFunc selects
    exact ⟨changed, by simp [Op.perform, ran, Op.expected], result⟩
  | reset => exact ⟨cache.reset, rfl, represents.reset⟩

theorem Represents.performAll (ops : List Op) :
    ∃ changed, LruCache.performAll hash cache ops =
        some (changed, (expectedAll hash capacity entries ops).2) ∧
      Represents hash capacity changed (expectedAll hash capacity entries ops).1 := by
  induction ops generalizing cache entries with
  | nil => exact ⟨cache, rfl, represents⟩
  | cons op rest ih =>
    obtain ⟨next, ran, represents'⟩ := represents.perform op
    obtain ⟨changed, ranRest, result⟩ := ih represents'
    exact ⟨changed, by simp [LruCache.performAll, ran, ranRest, expectedAll], result⟩

end

theorem fits_expectedAll (fits : Recency.Fits capacity entries) (ops : List Op) :
    Recency.Fits capacity (expectedAll hash capacity entries ops).1 := by
  induction ops generalizing entries with
  | nil => exact fits
  | cons op rest ih =>
    refine ih ?_
    cases op with
    | addKey key blob built => exact fits.add key blob
    | get q => exact fits.mono (Recency.length_promote _ _).le
    | delete q => exact fits.mono (List.length_filter_le _ _)
    | deleteFunc selects => exact fits.mono (Recency.deleteFunc_sublist _ _ _).length_le
    | reset => exact fun _ => Nat.zero_le _

/-- After any operations on a new cache, with any hash function and capacity: they returned
what the operations on a list ordered by recency return.  The linked list leads through the
same nodes in both directions, no two of them alike, which hold the entries of that list in
order; the index holds exactly these nodes, each under its hash.  The entries have distinct
keys, meet the capacity and hold blobs built for their keys, and the next `get` returns the
blob of its own key or nothing. -/
theorem lru_cache_is_recency_list (hash : LruKey → UInt64) (capacity : Int) (ops : List Op) :
    ∃ cache locs entries, entries = (expectedAll hash capacity [] ops).1 ∧
      LruCache.performAll hash (newLRUCache capacity) ops =
        some (cache, (expectedAll hash capacity [] ops).2) ∧
      (∀ fuel, locs.length < fuel →
        follow cache.memory.next? cache.tail fuel (cache.memory.next? cache.head) = some locs ∧
          follow cache.memory.prev? cache.head fuel (cache.memory.prev? cache.tail) =
            some locs.reverse) ∧
      (cache.head :: locs ++ [cache.tail]).Nodup ∧
      locs.map cache.memory.value? = entries.map (fun entry => some (itemOf hash entry)) ∧
      (∀ digest loc, cache.items.lookup digest = some loc ↔
        loc ∈ locs ∧ ∃ blob, cache.memory.value? loc = some { hash := digest, blob := blob }) ∧
      (entries.map Prod.fst).Nodup ∧
      (0 < capacity → entries.length ≤ capacity.toNat) ∧
      (∀ entry ∈ entries, BuiltFor entry.1 entry.2) ∧
      ∀ q, ∃ changed, cache.get hash q =
          some (changed, Recency.find (lruKeyFromQuery q) entries) ∧
        ∀ blob, Recency.find (lruKeyFromQuery q) entries = some blob →
          BuiltFor (lruKeyFromQuery q) blob := by
  obtain ⟨cache, ran, represents⟩ := (represents_new hash capacity).performAll ops
  obtain ⟨cells, holds, entries_eq⟩ := represents.cells
  refine ⟨cache, cells.map Cell.loc, _, rfl, ran, fun fuel enough =>
    ⟨holds.linked.forward enough, holds.linked.backward enough⟩, holds.linked.nodup, ?_, ?_, ?_,
    fits_expectedAll (fun _ => Nat.zero_le _) ops, represents.built, fun q => ?_⟩
  · rw [← entries_eq, List.map_map, List.map_map]
    exact List.map_congr_left holds.valued
  · intro digest loc
    rw [holds.indexed]
    constructor
    · rintro ⟨cell, member, rfl, rfl⟩
      exact ⟨List.mem_map_of_mem member, cell.blob, holds.valued cell member⟩
    · rintro ⟨member, blob, value⟩
      obtain ⟨cell, inside, rfl⟩ := List.mem_map.mp member
      have same := Option.some.inj ((holds.valued cell inside).symm.trans value)
      exact ⟨cell, inside, congrArg CacheItem.hash same, rfl⟩
  · rw [← entries_eq]
    refine List.Nodup.of_map hash ?_
    rw [List.map_map]
    exact holds.distinct
  · obtain ⟨changed, got, _⟩ := represents.getKey (lruKeyFromQuery q)
    exact ⟨changed, got, fun blob found => represents.built _ (Recency.mem_of_find found)⟩

/-- A query for the address of a name. -/
def sampleQuery (name : Name) : CacheQuery where
  msg := .ofQuestion 0 name 1 classINET
  asked := List.cons_ne_nil _ _

/-- An address and EDNS0 data in response to a query. -/
def sampleAnswer (ttl : UInt32) : Message :=
  { Message.empty with
    response := true
    answer := [.rr (.other { owner := .top, rrtype := 1, rrclass := classINET, ttl := ttl }
      [192, 0, 2, 1])]
    extra := [.opt { hdr := { owner := .top, rrtype := typeOPT, rrclass := 4096, ttl := 0 }
                     options := [] }] }

/-- The header of that response, its address and its EDNS0 data, packed. -/
def sampleWire (ttl : UInt32) : List Byte :=
  [0, 0, 128, 0, 0, 0, 0, 1, 0, 0, 0, 1] ++
    ([0, 0, 1, 0, 1] ++ bigEndian 4 ttl.toNat ++ [0, 4, 192, 0, 2, 1]) ++
    [0, 0, 41, 16, 0, 0, 0, 0, 0, 0, 0]

def sampleTable : List (Message × List Byte) :=
  [(sampleAnswer 300, sampleWire 300)]

/-- The key of a query, and the stored form of a packed response for it. -/
def entryOf (q : CacheQuery) (meta_ : CacheMeta) (wire : List Byte) : LruKey × CacheBlob :=
  let key := lruKeyFromQuery q
  (key, (blobFields key meta_).flatten ++ (key.net ++ (key.question.name ++ wire)))

theorem newCacheBlobFromWire_entryOf {q : CacheQuery} {meta_ : CacheMeta} {wire : List Byte}
    (net : (lruKeyFromQuery q).net.length ≤ 65535)
    (name : (lruKeyFromQuery q).question.name.length ≤ 65535) :
    newCacheBlobFromWire (lruKeyFromQuery q) meta_ wire = .ok (entryOf q meta_ wire).2 := by
  rw [newCacheBlobFromWire, if_neg (Nat.not_lt.mpr net), if_neg (Nat.not_lt.mpr name)]
  rfl

/-- An address stored at the epoch. -/
def sampleBlob (name : Name) (wire : List Byte) : CacheBlob :=
  (entryOf (sampleQuery name) { timestamp := 0, expiry := 0, prefetchEligible := false } wire).2

theorem newCacheBlobFromWire_sample (name : Name) (wire : List Byte)
    (short : name.length ≤ 65535) :
    newCacheBlobFromWire (lruKeyFromQuery (sampleQuery name))
      { timestamp := 0, expiry := 0, prefetchEligible := false } wire =
        .ok (sampleBlob name wire) := by
  refine newCacheBlobFromWire_entryOf (Nat.zero_le _) ?_
  rwa [show (lruKeyFromQuery (sampleQuery name)).question.name.length = name.length from
    List.length_map ..]

theorem built_sampleBlob (name : Name) (wire : List Byte) (short : name.length ≤ 65535) :
    BuiltFor (lruKeyFromQuery (sampleQuery name)) (sampleBlob name wire) :=
  ⟨_, wire, newCacheBlobFromWire_sample name wire short⟩

/-- Two adds whose keys share a hash, and a lookup for each. -/
def collidingOps : List Op :=
  [.addKey _ _ (built_sampleBlob (text "a.") (sampleWire 300) (by decide)),
    .addKey _ _ (built_sampleBlob (text "b.") (sampleWire 60) (by decide)),
    .get (sampleQuery (text "a.")),
    .get (sampleQuery (text "b."))]

theorem colliding_key_dropped :
    ∃ cache, LruCache.performAll (fun _ => 0) (newLRUCache 0) collidingOps =
      some (cache, [none, none, none, some (sampleBlob (text "b.") (sampleWire 60))]) := by
  obtain ⟨cache, _, _, _, ran, _⟩ := lru_cache_is_recency_list (fun _ => 0) 0 collidingOps
  have returned : (expectedAll (fun _ => 0) 0 [] collidingOps).2 =
      [none, none, none, some (sampleBlob (text "b.") (sampleWire 60))] := by
    decide +kernel
  exact ⟨cache, returned ▸ ran⟩

end LruCache

end RouteDns.Cache
