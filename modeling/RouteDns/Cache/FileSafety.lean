import RouteDns.Cache.FileRecords

/-!
# Reading inside of the blobs

Blobs of any content come into a cache from a file.  The lengths that stand in them are checked
when the file is read, and from then on every function on the cache stays inside of the blobs:
this is an invariant of the cache, which no function checks again.  Every read of a blob is
checked here; one outside of the blob would leave a function without a result.
-/

namespace RouteDns.Cache

open Dns LinkedList Reader LruCache

/-- How an entry is written to a cache file in JSON. -/
structure CacheItemJSON where
  key : LruKey
  timestamp : Time
  expiry : Time
  prefetchEligible : Bool
  msg : List Byte
  deriving DecidableEq

/-- What reading a file did: the cache it left, the lengths of the blobs it made and the
records it handed to the cache. -/
structure Reading where
  cache : LruCache
  requested : List Nat
  handed : List (LruKey × CacheBlob)

namespace Checked

/-! ## The functions on the cache -/

def find (cache : LruCache) (hash : UInt64) (key : LruKey) : Option (Option Loc) :=
  match cache.items.lookup hash with
  | none => pure none
  | some loc => do
    let node ← cache.memory.deref (some loc)
    let matched ← matchesKey node.value.blob key
    pure (if matched then some loc else none)

def touch (cache : LruCache) (hash : UInt64) (key : LruKey) : Option (LruCache × Option Loc) := do
  match ← find cache hash key with
  | none => pure (cache, none)
  | some loc => do
    let memory ← cache.memory.unlink (some loc)
    let memory ← memory.linkAfter (some cache.head) (some loc)
    pure ({ cache with memory := memory }, some loc)

section Index

variable (hash : LruKey → UInt64)

def addKey (cache : LruCache) (key : LruKey) (blob : CacheBlob) : Option LruCache := do
  match ← touch cache (hash key) key with
  | (cache, some loc) => do
    let node ← cache.memory.deref (some loc)
    pure { cache with memory := cache.memory.setValue loc { node.value with blob := blob } }
  | (cache, none) => cache.insert (hash key) blob

def get (cache : LruCache) (q : CacheQuery) : Option (LruCache × Option CacheBlob) := do
  match ← touch cache (hash (lruKeyFromQuery q)) (lruKeyFromQuery q) with
  | (cache, some loc) => do
    let node ← cache.memory.deref (some loc)
    pure (cache, some node.value.blob)
  | (cache, none) => pure (cache, none)

def delete (cache : LruCache) (q : CacheQuery) : Option LruCache := do
  match ← find cache (hash (lruKeyFromQuery q)) (lruKeyFromQuery q) with
  | none => pure cache
  | some loc => cache.unlink (some loc)

def evict : LruCache → List CacheQuery → Option LruCache
  | cache, [] => pure cache
  | cache, q :: rest => do
    let cache ← delete hash cache q
    evict cache rest

end Index

variable (unpack : List Byte → Except Text Message) (hash : LruKey → UInt64)

/-- What a stored response is served as, with its prefetch flag. -/
def served (blob : CacheBlob) (q : CacheQuery) (now : Time) : Option (Option (Message × Bool)) := do
  let expiry ← expiry blob
  if expiry < now then pure none
  else do
    let wire ← message blob
    match unpack wire with
    | .error _ => pure none
    | .ok answer => do
      let timestamp ← timestamp blob
      match ageCachedAnswer answer q.msg (cacheAge now timestamp) with
      | none => pure none
      | some aged => do
        let prefetchEligible ← prefetchEligible blob
        pure (some (aged, prefetchEligible))

def lookup (cache : LruCache) (q : CacheQuery) (now : Time) :
    Option (LruCache × Option (Message × Bool)) := do
  match ← get hash cache q with
  | (cache, none) => pure (cache, none)
  | (cache, some blob) => do
    match ← served unpack blob q now with
    | some hit => pure (cache, some hit)
    | none => do
      let cache ← evict hash cache [q]
      pure (cache, none)

/-- Go along the list from an item and drop what has expired. -/
def collectFrom (now : Time) : Nat → Option Loc → LruCache → Option LruCache
  | 0, _, _ => none
  | fuel + 1, item, cache =>
    if item = some cache.tail then pure cache
    else do
      let node ← cache.memory.deref item
      let expiry ← expiry node.value.blob
      let cache ← if expiry < now then cache.unlink item else pure cache
      collectFrom now fuel node.next cache

def collect (cache : LruCache) (now : Time) : Option LruCache := do
  let first ← cache.memory.deref (some cache.head)
  collectFrom now (cache.items.size + 1) first.next cache

def writeRaw (written : List Byte) (item : CacheItem) : Option (List Byte) :=
  if item.blob.length > maxRawCacheRecord then do
    -- the name of an entry that is skipped goes to the log
    let _ ← key item.blob
    pure written
  else pure (written ++ rawRecord item.blob)

def serializeRaw (cache : LruCache) : Option (List Byte) :=
  forEach cache writeRaw rawCacheHeader

def newCacheItemJSON (item : CacheItem) : Option CacheItemJSON := do
  let key ← key item.blob
  let timestamp ← timestamp item.blob
  let expiry ← expiry item.blob
  let prefetchEligible ← prefetchEligible item.blob
  let msg ← message item.blob
  pure { key := key, timestamp := nanoTime timestamp, expiry := nanoTime expiry
         prefetchEligible := prefetchEligible, msg := msg }

def encodeJSON (records : List CacheItemJSON) (item : CacheItem) : Option (List CacheItemJSON) := do
  let record ← newCacheItemJSON item
  pure (records ++ [record])

/-- The records of the JSON file. -/
def serialize (cache : LruCache) : Option (List CacheItemJSON) :=
  forEach cache encodeJSON []

/-- The calls on a cache, with the times at which those that look at the clock do. -/
inductive Call where
  | lookup (q : CacheQuery) (now : Time)
  | store (key : LruKey) (blob : CacheBlob) (built : BuiltFor key blob)
  | evict (queries : List CacheQuery)
  | flush
  | collect (now : Time)
  | serializeRaw
  | serialize

/-- The cache after a call. -/
def perform (cache : LruCache) : Call → Option LruCache
  | .lookup q now => do
    let (cache, _) ← lookup unpack hash cache q now
    pure cache
  | .store key blob _ => addKey hash cache key blob
  | .evict queries => evict hash cache queries
  | .flush => pure cache.reset
  | .collect now => collect cache now
  | .serializeRaw => do
    let _ ← serializeRaw cache
    pure cache
  | .serialize => do
    let _ ← serialize cache
    pure cache

def performAll (cache : LruCache) (calls : List Call) : Option LruCache :=
  calls.foldlM (perform unpack hash) cache

/-! ## Reading a file -/

def blobFromFile (blob : CacheBlob) : Option (Option LruKey) :=
  if blob.length < blobHdrLen then pure none
  else do
    let version ← version blob
    if version ≠ blobVersion then pure none
    else do
      let netLen ← netLen blob
      let nameLen ← nameLen blob
      if blobHdrLen + netLen + nameLen > blob.length then pure none
      else do
        let wire ← message blob
        match unpack wire with
        | .error _ => pure none
        | .ok _ => do
          let key ← key blob
          if key.question.name = [] then pure none else pure (some key)

/-- Add the records of a file one after the other, with a bound on their number. -/
def readRecords : Nat → Reading → (stream : List Byte) → Option Reading
  | 0, _, _ => none
  | fuel + 1, reading, stream =>
    match readFull 4 stream with
    | none => pure reading
    | some (length, stream) =>
      let n := ofBigEndian length
      if n < blobHdrLen ∨ n > maxRawCacheRecord then pure reading
      else
        let reading := { reading with requested := reading.requested ++ [n] }
        match readFull n stream with
        | none => pure reading
        | some (blob, stream) => do
          match ← blobFromFile unpack blob with
          | none => readRecords fuel reading stream
          | some key => do
            let cache ← addKey hash reading.cache key blob
            readRecords fuel
              { reading with cache := cache, handed := reading.handed ++ [(key, blob)] } stream

/-- Read a file into a cache, which is left as it is if the header is refused. -/
def deserializeRaw (cache : LruCache) (file : List Byte) : Option (Option Text × Reading) :=
  let reading := { cache := cache, requested := [], handed := [] }
  match readFull rawCacheHeaderLen file with
  | none => pure (some (text "failed to read cache file header: " ++ readError file), reading)
  | some (header, stream) =>
    if header.take 4 ≠ rawCacheMagic then pure (some (text "not a raw cache file"), reading)
    else if header.drop 4 ≠ [rawCacheVersion] then
      pure (some (text "unsupported raw cache file version " ++
        text (Nat.repr (ofBigEndian (header.drop 4)))), reading)
    else do
      let reading ← readRecords unpack hash (stream.length + 1) reading stream
      pure (none, reading)

/-! ## The index -/

variable {unpack hash}

section

variable (cache : LruCache)

/-- A key is compared with any blob, so nothing that only compares keys leaves the blobs. -/
theorem find_eq (digest : UInt64) (key : LruKey) :
    find cache digest key = cache.find digest key := by
  unfold find LruCache.find
  cases cache.items.lookup digest with
  | none => rfl
  | some loc => simp only [matchesKey_eq, Option.bind_eq_bind, Option.bind_some]

theorem touch_eq (digest : UInt64) (key : LruKey) :
    touch cache digest key = cache.touch digest key := by
  rw [touch, find_eq]
  rfl

theorem addKey_eq (key : LruKey) (blob : CacheBlob) :
    addKey hash cache key blob = cache.addKey hash key blob := by
  rw [addKey, touch_eq]
  rfl

theorem get_eq (q : CacheQuery) : get hash cache q = cache.get hash q := by
  rw [get, touch_eq]
  rfl

theorem delete_eq (q : CacheQuery) : delete hash cache q = cache.delete hash q := by
  rw [delete, find_eq]
  rfl

theorem evict_eq (queries : List CacheQuery) :
    evict hash cache queries = Memory.evict hash cache queries := by
  induction queries generalizing cache with
  | nil => rfl
  | cons q rest ih => simp only [evict, Memory.evict, delete_eq, ih]

end

/-! ## The loops over the items -/

variable {cache : LruCache} {front back : List Cell}

theorem isSome_foldlM {σ τ : Type} {body : σ → τ → Option σ} {items : List τ}
    (succeeds : ∀ state, ∀ item ∈ items, (body state item).isSome = true) (state : σ) :
    (items.foldlM body state).isSome = true := by
  induction items generalizing state with
  | nil => rfl
  | cons item rest ih =>
    obtain ⟨next, ran⟩ := Option.isSome_iff_exists.mp (succeeds state item List.mem_cons_self)
    rw [List.foldlM_cons, ran]
    exact ih (fun state other member => succeeds state other (List.mem_cons_of_mem _ member)) next

/-- Inside of the blobs the loop deletes what has expired. -/
theorem collectFrom_eq (now : Time) (seen : List CacheItem) {kept rest : List Cell}
    (chained : Chained hash cache (kept ++ rest)) (framed : ∀ cell ∈ rest, Framed cell.blob)
    (fuel : Nat) :
    collectFrom now fuel (rest.map Cell.loc ++ [cache.tail]).head? cache =
      LruCache.deleteFrom (fun _ item => item.blob.expiry < now) fuel seen
        (rest.map Cell.loc ++ [cache.tail]).head? cache := by
  induction rest generalizing cache kept seen fuel with
  | nil =>
    cases fuel with
    | zero => rfl
    | succ fuel => simp [collectFrom, LruCache.deleteFrom]
  | cons cell rest ih =>
    cases fuel with
    | zero => rfl
    | succ fuel =>
      obtain ⟨_, notTail, node, read, _, next, item⟩ := chained.neighbours
      obtain ⟨here, later⟩ := List.forall_mem_cons.mp framed
      rw [List.map_cons, List.cons_append, List.head?_cons, deleteFrom_succ notTail read]
      simp only [collectFrom, Option.some.injEq, notTail, if_false, read, item, next,
        Cell.item, expiry_eq here.header, Option.bind_eq_bind, Option.bind_some, decide_eq_true_eq]
      split
      · obtain ⟨fewer, unlinked, chained', _, _, tail, _⟩ := chained.unlink
        rw [unlinked, Option.bind_some, Option.bind_some, ← tail]
        exact ih _ chained' later fuel
      · have chained' : Chained hash cache ((kept ++ [cell]) ++ rest) := by simpa using chained
        exact ih _ chained' later fuel

end Checked

/-! ## The invariant -/

theorem framed_of_built {key : LruKey} {blob : CacheBlob} (built : BuiltFor key blob) :
    Framed blob := by
  obtain ⟨_, _, own⟩ := built
  have length := length_eq own
  refine ⟨by omega, ?_⟩
  rw [netLen_eq own, nameLen_eq own]
  omega

/-- The entries of a cache, with lengths that fit their blobs. -/
def FramedEntries (hash : LruKey → UInt64) (capacity : Int) (cache : LruCache) : Prop :=
  ∃ entries, Carries hash capacity cache entries ∧ ∀ entry ∈ entries, Framed entry.2

namespace FramedEntries

variable {hash : LruKey → UInt64} {capacity : Int} {cache : LruCache}
  (sound : FramedEntries hash capacity cache)

include sound

theorem addKey {key : LruKey} {blob : CacheBlob} (keyed : blob.key = key) (framed : Framed blob) :
    ∃ changed, cache.addKey hash key blob = some changed ∧ FramedEntries hash capacity changed := by
  obtain ⟨entries, carries, all⟩ := sound
  obtain ⟨changed, ran, result⟩ := carries.addKey keyed
  refine ⟨changed, ran, _, result, fun entry member => ?_⟩
  rcases mem_placed member with rfl | old
  · exact framed
  · exact all entry old

theorem get (q : CacheQuery) :
    ∃ changed found, cache.get hash q = some (changed, found) ∧
      FramedEntries hash capacity changed ∧ ∀ blob, found = some blob → Framed blob := by
  obtain ⟨entries, carries, all⟩ := sound
  obtain ⟨changed, ran, result⟩ := carries.getKey (lruKeyFromQuery q)
  refine ⟨changed, _, ran, ⟨_, result, fun entry member => all entry (mem_touched.mp member)⟩, ?_⟩
  intro blob found
  exact all _ (List.mem_of_mem_filter (Recency.mem_of_find found))

theorem evict (queries : List CacheQuery) :
    ∃ changed, Memory.evict hash cache queries = some changed ∧
      FramedEntries hash capacity changed := by
  obtain ⟨entries, carries, all⟩ := sound
  obtain ⟨changed, ran, result⟩ := Memory.carries_evict carries queries
  exact ⟨changed, ran, _, result, fun entry member => all entry (Memory.mem_evict member)⟩

theorem collect (now : Time) :
    ∃ changed, Checked.collect cache now = some changed ∧ FramedEntries hash capacity changed := by
  obtain ⟨entries, carries, all⟩ := sound
  obtain ⟨changed, ran, result⟩ := carries.deleteFunc fun _ item => item.blob.expiry < now
  obtain ⟨cells, chained, rfl⟩ := carries.cells
  refine ⟨changed, ?_, _, result, fun entry member =>
    all entry ((Recency.deleteFunc_sublist _ _ _).mem member)⟩
  have framed : ∀ cell ∈ cells, Framed cell.blob :=
    fun cell member => all cell.entry (List.mem_map_of_mem member)
  obtain ⟨node, read, next⟩ := chained.deref_head
  have whole : Chained hash cache ([] ++ cells) := chained
  have same := Checked.collectFrom_eq now [] whole framed (cache.items.size + 1)
  rw [LruCache.deleteFunc, read, Option.bind_eq_bind, Option.bind_some, next, ← same] at ran
  rw [Checked.collect, read, Option.bind_eq_bind, Option.bind_some, next, ran]

/-- A loop over the items completes if its body completes on the blobs whose lengths fit. -/
theorem isSome_forEach {σ : Type} {body : σ → CacheItem → Option σ}
    (succeeds : ∀ state item, Framed item.blob → (body state item).isSome = true) (state : σ) :
    (Checked.forEach cache body state).isSome = true := by
  obtain ⟨entries, carries, all⟩ := sound
  obtain ⟨cells, chained, rfl⟩ := carries.cells
  rw [Checked.forEach_eq chained]
  refine Checked.isSome_foldlM (fun state cell member => succeeds state _ ?_) state
  exact all cell.entry (List.mem_map_of_mem (List.mem_reverse.mp member))

end FramedEntries

namespace Checked

variable {unpack : List Byte → Except Text Message} {hash : LruKey → UInt64} {capacity : Int}
  {cache : LruCache}

theorem isSome_served {blob : CacheBlob} (framed : Framed blob) (q : CacheQuery) (now : Time) :
    (served unpack blob q now).isSome = true := by
  simp only [served, expiry_eq framed.header, message_eq framed, timestamp_eq framed.header,
    prefetchEligible_eq framed.header, Option.bind_eq_bind, Option.bind_some]
  split
  · rfl
  · cases unpack blob.message with
    | error reason => rfl
    | ok answer =>
      dsimp only
      cases ageCachedAnswer answer q.msg (cacheAge now blob.timestamp) with
      | none => rfl
      | some aged => rfl

theorem isSome_writeRaw (written : List Byte) (item : CacheItem) (framed : Framed item.blob) :
    (writeRaw written item).isSome = true := by
  simp only [writeRaw, key_eq framed, Option.bind_eq_bind, Option.bind_some]
  split <;> rfl

theorem isSome_encodeJSON (records : List CacheItemJSON) (item : CacheItem)
    (framed : Framed item.blob) : (encodeJSON records item).isSome = true := by
  simp only [encodeJSON, newCacheItemJSON, key_eq framed, message_eq framed,
    timestamp_eq framed.header, expiry_eq framed.header, prefetchEligible_eq framed.header,
    Option.bind_eq_bind, Option.bind_some]
  rfl

section

variable (sound : FramedEntries hash capacity cache)
include sound

theorem lookup_framed (q : CacheQuery) (now : Time) :
    ∃ changed hit, lookup unpack hash cache q now = some (changed, hit) ∧
      FramedEntries hash capacity changed := by
  obtain ⟨touched, found, got, sound', framed⟩ := sound.get q
  cases found with
  | none => exact ⟨touched, none, by simp [lookup, get_eq, got], sound'⟩
  | some blob =>
    obtain ⟨result, ran⟩ := Option.isSome_iff_exists.mp
      (@isSome_served unpack blob (framed blob rfl) q now)
    cases result with
    | some hit => exact ⟨touched, some hit, by simp [lookup, get_eq, got, ran], sound'⟩
    | none =>
      obtain ⟨changed, evicted, sound''⟩ := sound'.evict [q]
      exact ⟨changed, none, by simp [lookup, get_eq, got, ran, evict_eq, evicted], sound''⟩

/-- Every call completes and keeps the lengths. -/
theorem perform_framed (call : Call) :
    ∃ changed, perform unpack hash cache call = some changed ∧
      FramedEntries hash capacity changed := by
  cases call with
  | lookup q now =>
    obtain ⟨changed, hit, ran, sound'⟩ := @lookup_framed unpack hash capacity cache sound q now
    exact ⟨changed, by simp [perform, ran], sound'⟩
  | store key blob built =>
    obtain ⟨_, _, own⟩ := id built
    obtain ⟨changed, ran, sound'⟩ := sound.addKey (Cache.key_eq own) (framed_of_built built)
    exact ⟨changed, by rw [perform, addKey_eq, ran], sound'⟩
  | evict queries =>
    obtain ⟨changed, ran, sound'⟩ := sound.evict queries
    exact ⟨changed, by rw [perform, evict_eq, ran], sound'⟩
  | flush =>
    obtain ⟨_, carries, _⟩ := sound
    exact ⟨cache.reset, rfl, [], carries.reset, by simp⟩
  | collect now => exact sound.collect now
  | serializeRaw =>
    obtain ⟨_, written⟩ := Option.isSome_iff_exists.mp
      (sound.isSome_forEach isSome_writeRaw rawCacheHeader)
    exact ⟨cache, by simp [perform, serializeRaw, written], sound⟩
  | serialize =>
    obtain ⟨_, written⟩ := Option.isSome_iff_exists.mp (sound.isSome_forEach isSome_encodeJSON [])
    exact ⟨cache, by simp [perform, serialize, written], sound⟩

theorem performAll_framed (calls : List Call) :
    (performAll unpack hash cache calls).isSome = true := by
  induction calls generalizing cache with
  | nil => rfl
  | cons call rest ih =>
    obtain ⟨changed, ran, sound'⟩ := @perform_framed unpack hash capacity cache sound call
    rw [performAll, List.foldlM_cons, ran]
    exact ih sound'

end

/-! ## The records handed over -/

/-- The message in some bytes, if they are accepted. -/
def unpacked (unpack : List Byte → Except Text Message) (wire : List Byte) : Option Message :=
  (unpack wire).toOption

theorem blobFromFile_eq (blob : CacheBlob) :
    blobFromFile unpack blob = some (Cache.blobFromFile (unpacked unpack) blob) := by
  unfold blobFromFile Cache.blobFromFile unpacked
  by_cases short : blob.length < blobHdrLen
  · simp [short]
  have header := Nat.not_lt.mp short
  obtain ⟨version, readVersion, versionValue⟩ :=
    entryAt_of_lt (show 0 < blob.length by unfold blobHdrLen at header; omega)
  have sameVersion : version = blobVersion ↔ blob.version = blobVersion.val := by
    rw [Fin.ext_iff, versionValue]
    rfl
  by_cases other : blob.version = blobVersion.val
  · rw [← sameVersion] at other
    by_cases cut : blobHdrLen + blob.netLen + blob.nameLen > blob.length
    · simp [short, Checked.version, readVersion, other, netLen_eq header, nameLen_eq header, cut]
    have framed : Framed blob := ⟨header, Nat.not_lt.mp cut⟩
    cases read : unpack blob.message with
    | error reason =>
      simp [short, Checked.version, readVersion, other, netLen_eq header, nameLen_eq header, cut,
        message_eq framed, read, Except.toOption]
    | ok msg =>
      by_cases named : blob.key.question.name = [] <;>
        simp [short, Checked.version, readVersion, other, sameVersion.mp other, netLen_eq header,
          nameLen_eq header, cut, message_eq framed, key_eq framed, read, Except.toOption, named]
  · simp [short, Checked.version, readVersion, sameVersion, other]

/-- Reading hands over the usable records that precede, and makes no blob beyond the limit. -/
theorem readRecords_eq {fuel : Nat} {stream : List Byte} (enough : stream.length < fuel) :
    ∃ asked, (∀ length ∈ asked, length ≤ maxRawCacheRecord) ∧
      ∀ reading, readRecords unpack hash fuel reading stream =
        (reading.cache.addAll hash
            ((rawRecords fuel stream).filterMap (usable (unpacked unpack)))).map fun cache =>
          { cache := cache
            requested := reading.requested ++ asked
            handed := reading.handed ++
              (rawRecords fuel stream).filterMap (usable (unpacked unpack)) } := by
  induction fuel generalizing stream with
  | zero => cases enough
  | succ fuel ih =>
    unfold rawRecords
    cases next : readRecord stream with
    | none =>
      rcases readRecord_ended next with short | ⟨length, tail, read, outside | ⟨sensible, cut⟩⟩
      · exact ⟨[], by simp, fun reading => by simp [readRecords, short, LruCache.addAll]⟩
      · exact ⟨[], by simp, fun reading => by simp [readRecords, read, outside, LruCache.addAll]⟩
      · -- the blob of an incomplete record is made and not filled
        refine ⟨[ofBigEndian length], by simpa using Nat.not_lt.mp (not_or.mp sensible).2,
          fun reading => ?_⟩
        simp only [readRecords, read, if_neg sensible, cut]
        simp [LruCache.addAll]
    | some found =>
      obtain ⟨blob, rest⟩ := found
      have shorter := length_lt_of_readRecord next
      obtain ⟨asked, limited, ran⟩ := @ih rest (by omega)
      obtain ⟨length, tail, readLength, sensible, read⟩ := readRecord_found next
      refine ⟨ofBigEndian length :: asked, List.forall_mem_cons.mpr
        ⟨Nat.not_lt.mp (not_or.mp sensible).2, limited⟩, fun reading => ?_⟩
      simp only [readRecords, readLength, if_neg sensible, read, blobFromFile_eq,
        Option.bind_eq_bind, Option.bind_some]
      cases accepted : Cache.blobFromFile (unpacked unpack) blob with
      | none =>
        rw [List.filterMap_cons_none (by rw [usable, accepted]; rfl)]
        simp [ran]
      | some key =>
        rw [List.filterMap_cons_some (by rw [usable, accepted]; rfl)]
        simp only [addKey_eq, ran, List.append_assoc, List.cons_append, List.nil_append,
          LruCache.addAll, List.foldlM_cons, Option.bind_eq_bind, Option.map_bind,
          Function.comp_def]

theorem deserializeRaw_headed (cache : LruCache) (stream : List Byte) :
    ∃ asked, (∀ length ∈ asked, length ≤ maxRawCacheRecord) ∧
      deserializeRaw unpack hash cache (rawCacheHeader ++ stream) =
        (cache.addAll hash (fileEntries (unpacked unpack) (rawCacheHeader ++ stream))).map
          fun changed => (none,
            { cache := changed, requested := asked
              handed := fileEntries (unpacked unpack) (rawCacheHeader ++ stream) }) := by
  have magic : rawCacheHeader.take 4 = rawCacheMagic := by decide
  have version : rawCacheHeader.drop 4 = [rawCacheVersion] := by decide
  have read : readFull rawCacheHeaderLen (rawCacheHeader ++ stream) =
      some (rawCacheHeader, stream) := readFull_append rfl
  obtain ⟨asked, limited, ran⟩ := @readRecords_eq unpack hash _ stream (Nat.lt_succ_self _)
  refine ⟨asked, limited, ?_⟩
  simp only [deserializeRaw, read, magic, version, ne_eq, not_true_eq_false, if_false, ran,
    fileEntries_headed, Option.bind_eq_bind, List.nil_append]
  cases cache.addAll hash ((rawRecords (stream.length + 1) stream).filterMap
    (usable (unpacked unpack))) with
  | none => rfl
  | some changed => rfl

theorem deserializeRaw_refused (cache : LruCache) {file : List Byte}
    (wrong : ∀ header stream, readFull rawCacheHeaderLen file = some (header, stream) →
      header.take 4 ≠ rawCacheMagic ∨ header.drop 4 ≠ [rawCacheVersion]) :
    ∃ reason, deserializeRaw unpack hash cache file =
      some (some reason, { cache := cache, requested := [], handed := [] }) := by
  unfold deserializeRaw
  cases read : readFull rawCacheHeaderLen file with
  | none => exact ⟨_, rfl⟩
  | some found =>
    obtain ⟨header, stream⟩ := found
    dsimp only
    split
    · exact ⟨_, rfl⟩
    · rename_i magic
      rw [if_pos ((wrong header stream read).resolve_left magic)]
      exact ⟨_, rfl⟩

/-- Adding usable records to a cache completes and keeps the lengths. -/
theorem addAll_framed (sound : FramedEntries hash capacity cache)
    {added : List (LruKey × CacheBlob)}
    (accepted : ∀ entry ∈ added, Cache.blobFromFile (unpacked unpack) entry.2 = some entry.1) :
    ∃ changed, cache.addAll hash added = some changed ∧ FramedEntries hash capacity changed := by
  induction added generalizing cache with
  | nil => exact ⟨cache, rfl, sound⟩
  | cons entry rest ih =>
    obtain ⟨here, later⟩ := List.forall_mem_cons.mp accepted
    obtain ⟨framed, _, _, _, keyed⟩ := blobFromFile_eq_some_iff.mp here
    obtain ⟨next, ran, sound'⟩ := sound.addKey keyed framed
    obtain ⟨changed, ranRest, result⟩ := ih sound' later
    refine ⟨changed, ?_, result⟩
    rw [LruCache.addAll, List.foldlM_cons, ran]
    exact ranRest

/-- Decoding any bytes, and reading them as a file into a new cache, completes without a read
outside of a blob.  The file asks for no blob above the limit; if its header is refused,
nothing is handed to the cache, and otherwise exactly the usable records that precede the
first incomplete record or implausible length, which are added in their order.  All later
calls on the cache complete as well. -/
theorem reads_stay_inside (unpack : List Byte → Except Text Message) (hash : LruKey → UInt64)
    (capacity : Int) (bytes : List Byte) :
    (decodeRecord unpack bytes).isSome = true ∧
      ∃ failure reading,
        deserializeRaw unpack hash (newLRUCache capacity) bytes = some (failure, reading) ∧
        (∀ length ∈ reading.requested, length ≤ maxRawCacheRecord) ∧
        (newLRUCache capacity).addAll hash reading.handed = some reading.cache ∧
        (bytes.take rawCacheHeaderLen ≠ rawCacheHeader →
          failure ≠ none ∧ reading.handed = []) ∧
        (∀ stream, bytes = rawCacheHeader ++ stream → failure = none ∧
          ∃ blobs, Precede blobs stream ∧
            reading.handed = blobs.filterMap (usable (unpacked unpack))) ∧
        ∀ calls, (performAll unpack hash reading.cache calls).isSome = true := by
  refine ⟨isSome_decodeRecord unpack bytes, ?_⟩
  have new : FramedEntries hash capacity (newLRUCache capacity) :=
    ⟨[], carries_new hash capacity, by simp⟩
  rcases readHeader_cases bytes with ⟨stream, rfl⟩ | ⟨refused, wrong⟩
  · obtain ⟨asked, limited, ran⟩ := @deserializeRaw_headed unpack hash (newLRUCache capacity) stream
    obtain ⟨changed, added, sound⟩ := addAll_framed new fun entry member =>
      (@mem_fileEntries (unpacked unpack) (rawCacheHeader ++ stream) entry member).2
    rw [added] at ran
    refine ⟨none, _, ran, limited, added, fun refused => absurd rfl refused, fun other same => ?_,
      performAll_framed sound⟩
    rw [← List.append_cancel_left same]
    exact ⟨rfl, _, precede_rawRecords (Nat.lt_succ_self _), rfl⟩
  · obtain ⟨reason, ran⟩ := @deserializeRaw_refused unpack hash (newLRUCache capacity) bytes wrong
    refine ⟨some reason, _, ran, by simp, rfl, fun _ => ⟨by simp, rfl⟩, ?_, performAll_framed new⟩
    rintro stream rfl
    exact absurd rfl refused

end Checked

end RouteDns.Cache
