import RouteDns.Cache.FileRecords

/-!
# Which records of a file are hit

Three functions read the key of a record: the one that accepts it, the one that decodes its key
and the one that compares it with another.  They agree on a record exactly if it has no flags
but the two that are known.  What is stored under a key that no query has is not hit either.
-/

namespace RouteDns.Cache

open Dns Cidr Reader LruCache LinkedList

variable {unpack : List Byte → Option Message} {hash : LruKey → UInt64} {capacity : Int}
  {cache : LruCache} {entries : List (LruKey × CacheBlob)}

/-! ## Decoding and comparing -/

theorem val_keyFlags_key (blob : CacheBlob) : (keyFlags blob.key).val = blob.uintAt 18 1 % 4 := by
  have bits : ∀ first second : Bool,
      ((if first then 1 else 0) + (if second then 2 else 0) : Byte).val =
        (if first then 1 else 0) + (if second then 2 else 0) := by
    decide
  have sum := bits blob.key.dnssecOk blob.key.cd
  rw [keyFlags, sum]
  simp only [CacheBlob.key, decide_eq_true_eq]
  split <;> split <;> omega

/-- A blob matches the key it decodes to exactly if no unknown flag is set. -/
theorem matchesKey_key_iff {blob : CacheBlob} (framed : Framed blob) :
    blob.matchesKey blob.key = true ↔ blob.uintAt 18 1 < 4 := by
  have header := framed.header
  have texts := framed.texts
  have net : blob.key.net.length = blob.netLen := by
    refine List.length_take_of_le ?_
    rw [List.length_drop]
    omega
  have name : blob.key.question.name.length = blob.nameLen := by
    refine List.length_take_of_le ?_
    rw [List.length_drop]
    omega
  have mask : blob.key.ecsMask.toNat = blob.uintAt 23 1 := by
    have bound := blob.uintAt_lt 23 1
    rw [CacheBlob.key, UInt8.toNat_ofNat']
    omega
  have qtype : blob.key.question.qtype.toNat = blob.uintAt 19 2 := by
    have bound := blob.uintAt_lt 19 2
    rw [CacheBlob.key, UInt16.toNat_ofNat']
    omega
  have qclass : blob.key.question.qclass.toNat = blob.uintAt 21 2 := by
    have bound := blob.uintAt_lt 21 2
    rw [CacheBlob.key, UInt16.toNat_ofNat']
    omega
  have flags : blob.uintAt 18 1 % 4 = blob.uintAt 18 1 ↔ blob.uintAt 18 1 < 4 := by omega
  unfold CacheBlob.matchesKey
  rw [if_neg (Nat.not_lt.mpr header), net, name, mask, qtype, qclass, val_keyFlags_key, ← flags]
  simp only [decide_eq_false (Nat.not_lt.mpr texts)]
  by_cases same : blob.uintAt 18 1 % 4 = blob.uintAt 18 1
  · simp [same, CacheBlob.key]
  · simp [same, Ne.symm same]

/-! ## The keys of queries -/

/-- A name in a query is printable text. -/
def Printable (name : Name) : Prop :=
  ∀ byte ∈ name, 32 ≤ byte.val ∧ byte.val ≤ 126

/-- A key that a query may have: its name is printable and in lower case, and it has no client
subnet or the text of an address.  Nothing asks for the final dot of the name, or for an address
of four or sixteen bytes; others have a text, too. -/
structure QueryKey (key : LruKey) : Prop where
  printable : Printable key.question.name
  lower : ∀ byte ∈ key.question.name, ¬ (65 ≤ byte.val ∧ byte.val ≤ 90)
  net : key.net = [] ∧ key.ecsMask = 0 ∨ ∃ address : IP, key.net = ipString address

/-- The query with a key and some client subnets. -/
def queryOf (key : LruKey) (subnets : List Subnet) : CacheQuery where
  msg := { Message.ofQuestion 0 key.question.name key.question.qtype key.question.qclass with
    checkingDisabled := key.cd
    extra := [.opt
      { hdr := { owner := .top, rrtype := typeOPT, rrclass := 0
                 ttl := if key.dnssecOk then OPT.doBit else 0 }
        options := subnets.map .subnet }] }
  asked := List.cons_ne_nil _ _

theorem queryOf_dnssecOk (key : LruKey) (subnets : List Subnet) :
    (queryOf key subnets).dnssecOk = key.dnssecOk := by
  change decide ((if key.dnssecOk then OPT.doBit else 0) &&& OPT.doBit = OPT.doBit) = key.dnssecOk
  cases key.dnssecOk <;> decide

theorem queryOf_subnets (key : LruKey) (subnets : List Subnet) :
    (queryOf key subnets).subnets = subnets := by
  change (subnets.map EdnsOption.subnet).filterMap asSubnet? = subnets
  rw [List.filterMap_map]
  exact List.filterMap_some

theorem toLower_eq_self {name : Name} (lower : ∀ byte ∈ name, ¬ (65 ≤ byte.val ∧ byte.val ≤ 90)) :
    toLower name = name := by
  refine (List.map_congr_left fun byte member => ?_).trans (List.map_id name)
  rw [Fin.ext_iff, val_lowerByte, if_neg (lower byte member)]
  rfl

theorem queryKey_iff (key : LruKey) :
    QueryKey key ↔ ∃ q : CacheQuery, Printable q.question.name ∧ lruKeyFromQuery q = key := by
  constructor
  · intro isKey
    obtain ⟨subnets, net⟩ : ∃ subnets, CacheQuery.lastNet subnets = (key.net, key.ecsMask) := by
      rcases isKey.net with ⟨none, zero⟩ | ⟨address, some⟩
      · exact ⟨[], by rw [none, zero]; rfl⟩
      · exact ⟨[{ family := 1, sourceNetmask := key.ecsMask, address := address }],
          by rw [some]; rfl⟩
    refine ⟨queryOf key subnets, isKey.printable, ?_⟩
    rw [lruKeyFromQuery_eq, queryOf_dnssecOk, queryOf_subnets, net]
    have name : toLower (queryOf key subnets).question.name = key.question.name :=
      toLower_eq_self isKey.lower
    rw [name]
    rfl
  · rintro ⟨q, printable, rfl⟩
    have lowered : ∀ byte ∈ toLower q.question.name, ∃ source ∈ q.question.name,
        byte.val = if 65 ≤ source.val ∧ source.val ≤ 90 then source.val + 32 else source.val := by
      intro byte member
      obtain ⟨source, inside, rfl⟩ := List.mem_map.mp member
      exact ⟨source, inside, val_lowerByte source⟩
    rw [lruKeyFromQuery_eq]
    constructor
    case printable =>
      intro byte member
      obtain ⟨source, inside, value⟩ := lowered byte member
      have range := printable source inside
      rw [value]
      split <;> omega
    case lower =>
      intro byte member
      obtain ⟨source, inside, value⟩ := lowered byte member
      rw [value]
      split <;> omega
    case net =>
      unfold CacheQuery.lastNet
      cases q.subnets.getLast? with
      | none => exact .inl ⟨rfl, rfl⟩
      | some subnet => exact .inr ⟨subnet.address, rfl⟩

/-! ## Entries that are hit -/

/-- An item of a cache is found by the key its blob decodes to, is replaced where it is by what is
stored under that key, and is hit by a query. -/
structure Hittable (hash : LruKey → UInt64) (cache : LruCache) (loc : Loc) (blob : CacheBlob) :
    Prop where
  found : ∃ changed, cache.getKey hash blob.key = some (changed, some blob)
  replaced : ∀ newer, BuiltFor blob.key newer →
    ∃ changed, cache.addKey hash blob.key newer = some changed ∧ changed.items = cache.items ∧
      ∀ other, changed.memory.value? other =
        if other = loc then some { hash := hash blob.key, blob := newer }
        else cache.memory.value? other
  hit : ∃ q changed, Printable q.question.name ∧ cache.get hash q = some (changed, some blob)

/-- Every item in the index of a cache is hit. -/
def AllHit (hash : LruKey → UInt64) (cache : LruCache) : Prop :=
  ∀ digest loc item, cache.items.lookup digest = some loc → cache.memory.value? loc = some item →
    Hittable hash cache loc item.blob

/-- A record that is hit: no unknown flag is set, and a query may have its key. -/
def ProperRecord (blob : CacheBlob) : Prop :=
  blob.uintAt 18 1 < 4 ∧ QueryKey blob.key

namespace LruCache

variable {cells : List Cell} {cell : Cell}

theorem Chained.hittable (chained : Chained hash cache cells) (member : cell ∈ cells)
    (framed : Framed cell.blob) (proper : ProperRecord cell.blob) :
    Hittable hash cache cell.loc cell.blob := by
  obtain ⟨front, back, rfl⟩ := List.append_of_mem member
  have key : cell.blob.key = cell.key := chained.keyed cell member
  have matched : cell.blob.matchesKey cell.key = true := by
    rw [← key]
    exact (matchesKey_key_iff framed).mpr proper.1
  obtain ⟨touched, ran, chained', _, items, values⟩ := chained.touch_of_match matched
  obtain ⟨node, read, value⟩ := chained'.deref List.mem_cons_self
  have got : cache.getKey hash cell.blob.key = some (touched, some cell.blob) := by
    rw [key]
    simp [LruCache.getKey, ran, read, value, Cell.item]
  constructor
  case found => exact ⟨touched, got⟩
  case replaced =>
    intro newer _
    rw [key]
    refine ⟨{ touched with
      memory := touched.memory.setValue cell.loc { hash := hash cell.key, blob := newer } },
      by simp [LruCache.addKey, ran, read, value, Cell.item], items, fun other => ?_⟩
    have allocated := Memory.lt_of_value? (chained'.valued cell List.mem_cons_self)
    rw [Memory.value?_setValue _ _ _ _ allocated, values]
  case hit =>
    obtain ⟨q, printable, same⟩ := (queryKey_iff _).mp proper.2
    refine ⟨q, touched, printable, ?_⟩
    rw [LruCache.get, same]
    exact got

/-- What the lookups return tells the record from one that is not hit. -/
theorem Carries.properRecord (carries : Carries hash capacity cache entries) {loc : Loc}
    {blob : CacheBlob} (framed : Framed blob) (hittable : Hittable hash cache loc blob) :
    ProperRecord blob := by
  constructor
  · obtain ⟨_, got⟩ := hittable.found
    obtain ⟨_, got', _⟩ := carries.getKey blob.key
    have found : Recency.find blob.key (findable entries) = some blob := by
      rw [got'] at got
      exact (Prod.mk.inj (Option.some.inj got)).2
    exact (matchesKey_key_iff framed).mp (List.mem_filter.mp (Recency.mem_of_find found)).2
  · obtain ⟨q, _, printable, got⟩ := hittable.hit
    obtain ⟨_, got', _⟩ := carries.getKey (lruKeyFromQuery q)
    have found : Recency.find (lruKeyFromQuery q) (findable entries) = some blob := by
      rw [LruCache.get, got'] at got
      exact (Prod.mk.inj (Option.some.inj got)).2
    have key := carries.keyed _ (List.mem_of_mem_filter (Recency.mem_of_find found))
    exact (queryKey_iff _).mpr ⟨q, printable, key.symm⟩

end LruCache

section File

variable {file : List Byte} {before after : List (LruKey × CacheBlob)} {entry : LruKey × CacheBlob}

theorem framed_fileEntries (member : entry ∈ fileEntries unpack file) : Framed entry.2 :=
  (blobFromFile_eq_some_iff.mp (mem_fileEntries member).2).1

/-- A record that no later one displaces is in a cache without a limit, so it must be hit. -/
theorem properRecord_of_last (split : fileEntries unpack file = before ++ entry :: after)
    (apart : ∀ later ∈ after, hash entry.1 ≠ hash later.1)
    (reads : ∃ result, (newLRUCache 0).deserializeRaw unpack hash file = some result ∧
      ∀ cache, result = .ok cache → AllHit hash cache) : ProperRecord entry.2 := by
  have member : entry ∈ fileEntries unpack file := by
    rw [split]
    simp
  obtain ⟨result, ran, allHit⟩ := reads
  obtain ⟨_, ran', refused, carries⟩ := deserializeRaw_new unpack hash 0 file
  cases ran.symm.trans ran'
  cases result with
  | error reason =>
    rw [refused reason rfl] at member
    cases member
  | ok cache =>
    have carries := carries cache rfl
    obtain ⟨cells, chained, cellsEntries⟩ := carries.cells
    have kept : entry ∈ (before ++ entry :: after).foldl
        (fun entries entry => Recency.add hash 0 entry.1 entry.2 entries) [] :=
      Recency.mem_foldl_add_of_last (Int.lt_irrefl 0) apart
    rw [← split, ← cellsEntries] at kept
    obtain ⟨cell, inside, rfl⟩ := List.mem_map.mp kept
    have indexed := (chained.indexed _ _).mpr ⟨cell, inside, rfl, rfl⟩
    exact carries.properRecord (framed_fileEntries member)
      (allHit cache rfl _ _ _ indexed (chained.valued cell inside))

/-- What a cache holds of a file are records that no later one with their key displaces. -/
theorem allHit_of_proper (proper : ∀ before entry after,
      fileEntries unpack file = before ++ entry :: after →
        (∀ later ∈ after, later.1 ≠ entry.1) → ProperRecord entry.2)
    (carries : Carries hash capacity cache ((fileEntries unpack file).foldl
      (fun entries entry => Recency.add hash capacity entry.1 entry.2 entries) [])) :
    AllHit hash cache := by
  intro digest loc item indexed value
  obtain ⟨cells, chained, cellsEntries⟩ := carries.cells
  obtain ⟨cell, member, _, rfl⟩ := (chained.indexed digest loc).mp indexed
  cases (chained.valued cell member).symm.trans value
  have left : cell.entry ∈ cells.map Cell.entry := List.mem_map_of_mem member
  rw [cellsEntries] at left
  obtain ⟨before, after, split, last⟩ := Recency.mem_foldl_add left
  have read : cell.entry ∈ fileEntries unpack file := by
    rw [split]
    simp
  exact chained.hittable member (framed_fileEntries read)
    (proper before cell.entry after split last)

end File

/-- For every file: whatever the hash and the capacity of the cache are, it is read, and every
item of the cache it is read into is found by the key it decodes to, replaced in place by what is
stored under that key and hit by a query, exactly if this can be told from the records: of the
usable records of the file, the last one with each key has no unknown flag and a key that a query
may have. -/
theorem file_entries_hit_iff (unpack : List Byte → Option Message) (file : List Byte) :
    (∀ hash capacity, ∃ result,
      (newLRUCache capacity).deserializeRaw unpack hash file = some result ∧
        ∀ cache, result = .ok cache → AllHit hash cache) ↔
      ∀ before entry after, fileEntries unpack file = before ++ entry :: after →
        (∀ later ∈ after, later.1 ≠ entry.1) → ProperRecord entry.2 := by
  constructor
  · intro reads before entry after split last
    -- A hash that tells the key of the record from all others.
    let hash : LruKey → UInt64 := fun key => if key = entry.1 then 1 else 0
    refine properRecord_of_last split ?_ (reads hash 0)
    intro later member
    simp [hash, last later member]
  · intro proper hash capacity
    obtain ⟨result, ran, _, carries⟩ := deserializeRaw_new unpack hash capacity file
    exact ⟨result, ran, fun cache same => allHit_of_proper proper (carries cache same)⟩

/-! ## A record with an unknown flag -/

/-- A response for `a.` with the third key flag set. -/
def flaggedBlob : CacheBlob :=
  [2, 0, 0, 0, 0, 0, 0, 0, 0, 0, 0, 0, 0, 0, 0, 0, 0, 0, 4, 0, 1, 0, 1, 0, 0, 0, 0, 2] ++
    (text "a." ++ sampleWire 300)

def flaggedFile : List Byte :=
  rawCacheHeader ++ rawRecord flaggedBlob

/-- The record is accepted and takes up a slot, but no key finds it. -/
theorem flagged_record_never_hit :
    ∃ cache loc, (newLRUCache 0).deserializeRaw (unpackBy sampleTable) lengthHash flaggedFile =
        some (.ok cache) ∧
      cache.items.lookup (lengthHash flaggedBlob.key) = some loc ∧
      cache.memory.value? loc = some { hash := lengthHash flaggedBlob.key, blob := flaggedBlob } ∧
      ∀ key, ∃ changed, cache.getKey lengthHash key = some (changed, none) := by
  have handed :
      fileEntries (unpackBy sampleTable) flaggedFile = [(flaggedBlob.key, flaggedBlob)] := by
    decide +kernel
  obtain ⟨result, ran, refused, carries⟩ :=
    deserializeRaw_new (unpackBy sampleTable) lengthHash 0 flaggedFile
  cases result with
  | error reason =>
    cases refused reason rfl
  | ok cache =>
    have carries := carries cache rfl
    rw [handed] at carries
    have single : [(flaggedBlob.key, flaggedBlob)].foldl
        (fun entries entry => Recency.add lengthHash 0 entry.1 entry.2 entries) [] =
          [(flaggedBlob.key, flaggedBlob)] := by
      decide +kernel
    have unfindable : findable [(flaggedBlob.key, flaggedBlob)] = [] := by decide +kernel
    rw [single] at carries
    obtain ⟨cells, chained, cellsEntries⟩ := carries.cells
    obtain ⟨cell, _, rfl, same, _⟩ := List.map_eq_cons_iff.mp cellsEntries
    have values := chained.valued cell List.mem_cons_self
    have indexed := (chained.indexed _ _).mpr ⟨cell, List.mem_cons_self, rfl, rfl⟩
    rw [Cell.entry, Prod.mk.injEq] at same
    rw [Cell.item, same.1, same.2] at values
    rw [same.1] at indexed
    refine ⟨cache, cell.loc, ran, indexed, values, fun key => ?_⟩
    obtain ⟨changed, got, _⟩ := carries.getKey key
    rw [unfindable] at got
    exact ⟨changed, got⟩

end RouteDns.Cache
