import RouteDns.Cache.Access
import RouteDns.Cache.RawFile
import RouteDns.Cache.Subnets

/-!
# Cache files of any content

A raw cache file may hold any bytes.  Its records are read up to the first that is incomplete
or has an implausible length; those that can be used are added to the cache under the keys they
decode to.  A key is decoded from two bits of the flags and compared with all eight of them, so
a record with other bits set stands under a key that does not find it.
-/

namespace RouteDns.Cache

open Dns Cidr Reader LruCache

variable {unpack : List Byte → Option Message} {hash : LruKey → UInt64} {capacity : Int}
  {cache : LruCache} {entries : List (LruKey × CacheBlob)}

/-! ## The records of a file -/

/-- Nothing more is read: the next record is incomplete or its length is implausible. -/
def Stops (stream : List Byte) : Prop :=
  ∀ length rest, readFull 4 stream = some (length, rest) →
    ¬ Plausible (ofBigEndian length) ∨ rest.length < ofBigEndian length

/-- The blobs of a stream that precede the first incomplete record or implausible length. -/
def Precede (blobs : List CacheBlob) (stream : List Byte) : Prop :=
  ∃ rest, stream = (blobs.map rawRecord).flatten ++ rest ∧
    (∀ blob ∈ blobs, Plausible blob.length) ∧ Stops rest

variable {stream file : List Byte} {entry : LruKey × CacheBlob}

theorem readRecord_eq_none_iff : readRecord stream = none ↔ Stops stream := by
  unfold readRecord Stops
  cases readFull 4 stream with
  | none => simp
  | some read =>
    obtain ⟨length, rest⟩ := read
    have single : (∀ length' rest', some (length, rest) = some (length', rest') →
        ¬ Plausible (ofBigEndian length') ∨ rest'.length < ofBigEndian length') ↔
          ¬ Plausible (ofBigEndian length) ∨ rest.length < ofBigEndian length :=
      ⟨fun all => all length rest rfl, by rintro stops _ _ ⟨⟩; exact stops⟩
    rw [single]
    simp only [Option.bind_eq_bind, Option.bind_some]
    unfold Plausible readFull
    split
    · exact iff_of_true rfl (.inl (by omega))
    · split
      · rename_i short
        exact iff_of_true rfl (.inr short)
      · exact iff_of_false (by simp) (by omega)

/-- All that precedes is read. -/
theorem precede_rawRecords {fuel : Nat} (enough : stream.length < fuel) :
    Precede (rawRecords fuel stream) stream := by
  induction fuel generalizing stream with
  | zero => cases enough
  | succ fuel ih =>
    unfold rawRecords
    cases read : readRecord stream with
    | none => exact ⟨stream, rfl, by simp, readRecord_eq_none_iff.mp read⟩
    | some found =>
      obtain ⟨blob, rest⟩ := found
      have shorter := length_lt_of_readRecord read
      obtain ⟨left, split, sensible, stops⟩ := @ih rest (by omega)
      obtain ⟨rfl, long⟩ := readRecord_eq_some_iff.mp read
      refine ⟨left, ?_, List.forall_mem_cons.mpr ⟨long, sensible⟩, stops⟩
      rw [List.map_cons, List.flatten_cons, List.append_assoc, ← split]

/-! ## What is handed to the cache -/

/-- The usable records of a file, in its order. -/
def fileEntries (unpack : List Byte → Option Message) (file : List Byte) :
    List (LruKey × CacheBlob) :=
  if file.take rawCacheHeaderLen = rawCacheHeader then
    let stream := file.drop rawCacheHeaderLen
    (rawRecords (stream.length + 1) stream).filterMap (usable unpack)
  else []

/-- What makes a record usable. -/
theorem blobFromFile_eq_some_iff {blob : CacheBlob} {key : LruKey} :
    blobFromFile unpack blob = some key ↔
      Framed blob ∧ blob.version = blobVersion.val ∧ (unpack blob.message).isSome = true ∧
        blob.key.question.name ≠ [] ∧ blob.key = key := by
  unfold blobFromFile
  split
  · rename_i short
    refine iff_of_false (by simp) ?_
    rintro ⟨framed, version, _⟩
    exact short.elim (Nat.not_lt.mpr framed.header) fun other => other version
  · rename_i long
    obtain ⟨header, version⟩ := not_or.mp long
    split
    · rename_i cut
      exact iff_of_false (by simp) fun all => Nat.not_lt.mpr all.1.texts cut
    · rename_i fits
      have framed : Framed blob := ⟨Nat.not_lt.mp header, Nat.not_lt.mp fits⟩
      cases unpack blob.message with
      | none => simp
      | some msg => simp [framed, not_not.mp version]

theorem mem_usable {blobs : List CacheBlob} (member : entry ∈ blobs.filterMap (usable unpack)) :
    entry.2 ∈ blobs ∧ blobFromFile unpack entry.2 = some entry.1 := by
  obtain ⟨blob, inside, same⟩ := List.mem_filterMap.mp member
  obtain ⟨key, accepted, rfl⟩ := Option.map_eq_some_iff.mp same
  exact ⟨inside, accepted⟩

/-- What is handed over is accepted, and stands under the key it decodes to. -/
theorem mem_fileEntries (member : entry ∈ fileEntries unpack file) :
    Plausible entry.2.length ∧ blobFromFile unpack entry.2 = some entry.1 := by
  unfold fileEntries at member
  split at member
  · obtain ⟨inside, accepted⟩ := mem_usable member
    obtain ⟨_, _, sensible, _⟩ := precede_rawRecords (Nat.lt_succ_self _)
    exact ⟨sensible _ inside, accepted⟩
  · cases member

theorem keyed_fileEntries (unpack : List Byte → Option Message) (file : List Byte) :
    ∀ entry ∈ fileEntries unpack file, entry.2.key = entry.1 :=
  fun _ member => (blobFromFile_eq_some_iff.mp (mem_fileEntries member).2).2.2.2.2

namespace LruCache

/-- A file starts with the right header, or what is read of it as one is wrong. -/
theorem readHeader_cases (file : List Byte) :
    (∃ stream, file = rawCacheHeader ++ stream) ∨
      file.take rawCacheHeaderLen ≠ rawCacheHeader ∧
        ∀ header stream, readFull rawCacheHeaderLen file = some (header, stream) →
          header.take 4 ≠ rawCacheMagic ∨ header.drop 4 ≠ [rawCacheVersion] := by
  by_cases headed : file.take rawCacheHeaderLen = rawCacheHeader
  · exact .inl ⟨file.drop rawCacheHeaderLen, by rw [← headed, List.take_append_drop]⟩
  · refine .inr ⟨headed, fun header stream read => not_and_or.mp fun right => headed ?_⟩
    obtain ⟨rfl, length⟩ := readFull_eq_some_iff.mp read
    rw [← length, List.take_left, ← List.take_append_drop 4 header, right.1, right.2]
    rfl

theorem fileEntries_headed (unpack : List Byte → Option Message) (stream : List Byte) :
    fileEntries unpack (rawCacheHeader ++ stream) =
      (rawRecords (stream.length + 1) stream).filterMap (usable unpack) :=
  rfl

theorem fileEntries_refused (refused : file.take rawCacheHeaderLen ≠ rawCacheHeader) :
    fileEntries unpack file = [] :=
  if_neg refused

/-- A file with the right header is read into the cache, and any other refused. -/
theorem deserializeRaw_cases (cache : LruCache) (file : List Byte) :
    cache.deserializeRaw unpack hash file =
        (cache.addAll hash (fileEntries unpack file)).map .ok ∨
      fileEntries unpack file = [] ∧
        ∃ reason, cache.deserializeRaw unpack hash file = some (.error reason) := by
  rcases readHeader_cases file with ⟨stream, rfl⟩ | ⟨refused, wrong⟩
  · exact .inl (deserializeRaw_headed stream)
  · refine .inr ⟨fileEntries_refused refused, ?_⟩
    unfold LruCache.deserializeRaw
    cases read : readFull rawCacheHeaderLen file with
    | none => exact ⟨_, rfl⟩
    | some found =>
      obtain ⟨header, stream⟩ := found
      dsimp only
      split
      · exact ⟨_, rfl⟩
      · rename_i magic
        rw [if_pos ((wrong header stream read).resolve_left magic)]
        exact ⟨_, rfl⟩

/-- Reading a file into a new cache adds its usable records; a file that is refused has none. -/
theorem deserializeRaw_new (unpack : List Byte → Option Message) (hash : LruKey → UInt64)
    (capacity : Int) (file : List Byte) :
    ∃ result, (newLRUCache capacity).deserializeRaw unpack hash file = some result ∧
      (∀ reason, result = .error reason → fileEntries unpack file = []) ∧
      ∀ cache, result = .ok cache → Carries hash capacity cache
        ((fileEntries unpack file).foldl
          (fun entries entry => Recency.add hash capacity entry.1 entry.2 entries) []) := by
  rcases @deserializeRaw_cases unpack hash (newLRUCache capacity) file with
    ran | ⟨none, reason, ran⟩
  · obtain ⟨changed, added, carries⟩ := (carries_new hash capacity).addAll (fun _ => Nat.zero_le _)
      (keyed_fileEntries unpack file)
    rw [added] at ran
    refine ⟨.ok changed, ran, fun reason same => (by cases same), fun cache same => ?_⟩
    cases same
    exact carries
  · exact ⟨.error reason, ran, fun _ _ => none, fun cache same => (by cases same)⟩

end LruCache

end RouteDns.Cache
