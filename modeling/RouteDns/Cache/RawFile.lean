import RouteDns.Cache.LruRun
import RouteDns.Program.Reader

/-!
# The raw cache file

A cache is written to a file as it is held in memory: a header, then every stored response
behind its length, the least recent first.  Reading adds the responses to a cache one by one.
A response that cannot be used is skipped; a length that cannot be trusted or a file that ends
in the middle of a record ends the reading, and what was read so far stays.
-/

namespace RouteDns.Cache

open Dns LinkedList Reader LruCache

def rawCacheMagic : List Byte :=
  0 :: text "RDC"

def rawCacheVersion : Byte := 2

def rawCacheHeader : List Byte :=
  rawCacheMagic ++ [rawCacheVersion]

def rawCacheHeaderLen : Nat := 5

/-- `16 << 20` -/
def maxRawCacheRecord : Nat := 16777216

/-- A blob in the file. -/
def rawRecord (blob : CacheBlob) : List Byte :=
  bigEndian 4 blob.length ++ blob

namespace LruCache

/-- Go along the list from an item to the head and write the blobs. -/
def writeFrom (cache : LruCache) : Nat → Option Loc → (written : List Byte) → Option (List Byte)
  | 0, _, _ => none
  | fuel + 1, item, written =>
    if item = some cache.head then pure written
    else do
      let node ← cache.memory.deref item
      -- an entry too large for the file is skipped
      if node.value.blob.length > maxRawCacheRecord then writeFrom cache fuel node.prev written
      else writeFrom cache fuel node.prev (written ++ rawRecord node.value.blob)

/-- The file of a cache. -/
def serializeRaw (cache : LruCache) : Option (List Byte) := do
  let last ← cache.memory.deref (some cache.tail)
  cache.writeFrom (cache.items.size + 1) last.prev rawCacheHeader

end LruCache

variable (unpack : List Byte → Option Message) (hash : LruKey → UInt64)

/-- The key of a blob read from a file, if the blob is safe to use. -/
def blobFromFile (blob : CacheBlob) : Option LruKey :=
  if blob.length < blobHdrLen ∨ blob.version ≠ blobVersion.val then none
  else if blobHdrLen + blob.netLen + blob.nameLen > blob.length then none
  else if (unpack blob.message).isNone then none
  else if blob.key.question.name = [] then none
  else some blob.key

/-- Why a file cannot be read up to its end. -/
def readError (stream : List Byte) : Text :=
  if stream = [] then text "EOF" else text "unexpected EOF"

namespace LruCache

/-- Add the records of a file one after the other, with a bound on their number. -/
def readRecords : Nat → LruCache → (stream : List Byte) → Option LruCache
  | 0, _, _ => none
  | fuel + 1, cache, stream =>
    match readFull 4 stream with
    | none => pure cache
    | some (length, stream) =>
      if ofBigEndian length < blobHdrLen ∨ ofBigEndian length > maxRawCacheRecord then pure cache
      else
        match readFull (ofBigEndian length) stream with
        | none => pure cache
        | some (blob, stream) =>
          match blobFromFile unpack blob with
          | none => readRecords fuel cache stream
          | some key => do
            let cache ← cache.addKey hash key blob
            readRecords fuel cache stream

/-- Read a file into a cache. -/
def deserializeRaw (cache : LruCache) (file : List Byte) : Option (Except Text LruCache) :=
  match readFull rawCacheHeaderLen file with
  | none => pure (.error (text "failed to read cache file header: " ++ readError file))
  | some (header, stream) =>
    if header.take 4 ≠ rawCacheMagic then pure (.error (text "not a raw cache file"))
    else if header.drop 4 ≠ [rawCacheVersion] then
      pure (.error (text "unsupported raw cache file version " ++
        text (Nat.repr (ofBigEndian (header.drop 4)))))
    else do
      let cache ← readRecords unpack hash (stream.length + 1) cache stream
      pure (.ok cache)

end LruCache

/-! ## The records of a stream -/

/-- The length of a record that is read. -/
def Plausible (length : Nat) : Prop :=
  blobHdrLen ≤ length ∧ length ≤ maxRawCacheRecord

/-- The next record of a stream, if it is read, and what follows it. -/
def readRecord (stream : List Byte) : Option (CacheBlob × List Byte) := do
  let (length, stream) ← readFull 4 stream
  if ofBigEndian length < blobHdrLen ∨ ofBigEndian length > maxRawCacheRecord then none
  else readFull (ofBigEndian length) stream

/-- The blobs that precede, with a bound on their number. -/
def rawRecords : Nat → List Byte → List CacheBlob
  | 0, _ => []
  | fuel + 1, stream =>
    match readRecord stream with
    | none => []
    | some (blob, stream) => blob :: rawRecords fuel stream

@[simp]
theorem length_rawRecord (blob : CacheBlob) : (rawRecord blob).length = 4 + blob.length := by
  simp [rawRecord]

theorem ofBigEndian_length {length : Nat} (limited : length ≤ maxRawCacheRecord) :
    ofBigEndian (bigEndian 4 length) = length := by
  unfold maxRawCacheRecord at limited
  rw [ofBigEndian_bigEndian, Nat.mod_eq_of_lt (by omega)]

variable {blob : CacheBlob} {stream rest : List Byte}

theorem readRecord_eq_some_iff :
    readRecord stream = some (blob, rest) ↔
      stream = rawRecord blob ++ rest ∧ Plausible blob.length := by
  simp only [readRecord, Option.bind_eq_bind, Option.bind_eq_some_iff, Prod.exists,
    readFull_eq_some_iff]
  constructor
  · rintro ⟨length, tail, ⟨rfl, four⟩, read⟩
    split at read
    · cases read
    · rename_i sensible
      obtain ⟨rfl, blobLength⟩ := readFull_eq_some_iff.mp read
      have written : bigEndian 4 blob.length = length := by
        rw [blobLength, ← four, bigEndian_ofBigEndian]
      obtain ⟨long, limited⟩ := not_or.mp sensible
      refine ⟨by rw [rawRecord, written, List.append_assoc], ?_, ?_⟩
      · rw [blobLength]
        exact Nat.not_lt.mp long
      · rw [blobLength]
        exact Nat.not_lt.mp limited
  · rintro ⟨rfl, long, limited⟩
    refine ⟨bigEndian 4 blob.length, blob ++ rest, ⟨List.append_assoc .., length_bigEndian 4 _⟩, ?_⟩
    rw [ofBigEndian_length limited, if_neg (by omega), readFull_append rfl]

/-- The two reads of a record. -/
theorem readRecord_found (read : readRecord stream = some (blob, rest)) :
    ∃ length tail, readFull 4 stream = some (length, tail) ∧
      ¬ (ofBigEndian length < blobHdrLen ∨ ofBigEndian length > maxRawCacheRecord) ∧
      readFull (ofBigEndian length) tail = some (blob, rest) := by
  simp only [readRecord, Option.bind_eq_bind, Option.bind_eq_some_iff, Prod.exists] at read
  obtain ⟨length, tail, readLength, read⟩ := read
  split at read
  · cases read
  · rename_i sensible
    exact ⟨length, tail, readLength, sensible, read⟩

/-- Why there is no next record: no length, an implausible one or too few bytes. -/
theorem readRecord_ended {stream : List Byte} (ended : readRecord stream = none) :
    readFull 4 stream = none ∨ ∃ length tail, readFull 4 stream = some (length, tail) ∧
      ((ofBigEndian length < blobHdrLen ∨ ofBigEndian length > maxRawCacheRecord) ∨
        ¬ (ofBigEndian length < blobHdrLen ∨ ofBigEndian length > maxRawCacheRecord) ∧
          readFull (ofBigEndian length) tail = none) := by
  unfold readRecord at ended
  cases readLength : readFull 4 stream with
  | none => exact .inl rfl
  | some read =>
    simp only [readLength, Option.bind_eq_bind, Option.bind_some] at ended
    split at ended
    · rename_i outside
      exact .inr ⟨read.1, read.2, rfl, .inl outside⟩
    · rename_i sensible
      exact .inr ⟨read.1, read.2, rfl, .inr ⟨sensible, ended⟩⟩

/-- A record takes up bytes of the stream. -/
theorem length_lt_of_readRecord (read : readRecord stream = some (blob, rest)) :
    rest.length < stream.length := by
  obtain ⟨rfl, _⟩ := readRecord_eq_some_iff.mp read
  rw [List.length_append, length_rawRecord]
  omega

/-- The key and the blob of a record that can be used. -/
def usable (blob : CacheBlob) : Option (LruKey × CacheBlob) :=
  (blobFromFile unpack blob).map fun key => (key, blob)

variable {unpack hash} {cache : LruCache}

variable {fuel cut offset : Nat} {capacity : Int}

namespace LruCache

/-- Add entries one after the other. -/
def addAll (hash : LruKey → UInt64) (cache : LruCache) (added : List (LruKey × CacheBlob)) :
    Option LruCache :=
  added.foldlM (fun cache entry => cache.addKey hash entry.1 entry.2) cache

/-- Reading adds the usable records that precede. -/
theorem readRecords_eq {stream : List Byte} (enough : stream.length < fuel) :
    readRecords unpack hash fuel cache stream =
      cache.addAll hash ((rawRecords fuel stream).filterMap (usable unpack)) := by
  induction fuel generalizing cache stream with
  | zero => cases enough
  | succ fuel ih =>
    unfold readRecords rawRecords
    cases next : readRecord stream with
    | none =>
      rcases readRecord_ended next with short | ⟨length, tail, read, outside | ⟨sensible, cut⟩⟩
      · rw [short]
        rfl
      · simp only [read, if_pos outside]
        rfl
      · simp only [read, if_neg sensible, cut]
        rfl
    | some found =>
      obtain ⟨blob, rest⟩ := found
      have shorter := length_lt_of_readRecord next
      obtain ⟨length, tail, readLength, sensible, read⟩ := readRecord_found next
      simp only [readLength, if_neg sensible, read]
      cases accepted : blobFromFile unpack blob with
      | none =>
        rw [List.filterMap_cons_none (by rw [usable, accepted]; rfl)]
        exact ih (by omega)
      | some key =>
        rw [List.filterMap_cons_some (by rw [usable, accepted]; rfl)]
        simp only [LruCache.addAll, List.foldlM_cons]
        congr 1
        funext next
        exact ih (by omega)

theorem deserializeRaw_headed (stream : List Byte) :
    cache.deserializeRaw unpack hash (rawCacheHeader ++ stream) =
      (cache.addAll hash ((rawRecords (stream.length + 1) stream).filterMap (usable unpack))).map
        .ok := by
  have magic : rawCacheHeader.take 4 = rawCacheMagic := by decide
  have version : rawCacheHeader.drop 4 = [rawCacheVersion] := by decide
  have read : readFull rawCacheHeaderLen (rawCacheHeader ++ stream) =
      some (rawCacheHeader, stream) := readFull_append rfl
  simp only [LruCache.deserializeRaw, read, magic, version, ne_eq, not_true_eq_false, if_false,
    readRecords_eq (Nat.lt_succ_self _), Option.map_eq_bind]
  rfl

end LruCache

/-! ## Writing -/

variable {pack : Message → Option (List Byte)}

/-- The file of a list of entries, the most recent first. -/
def rawFile (entries : List (LruKey × CacheBlob)) : List Byte :=
  rawCacheHeader ++ (entries.reverse.map fun entry => rawRecord entry.2).flatten

theorem length_rawFile (entries : List (LruKey × CacheBlob)) :
    (rawFile entries).length = rawCacheHeaderLen +
      ((entries.reverse.map fun entry => rawRecord entry.2).flatten).length := by
  rw [rawFile, List.length_append]
  rfl

namespace LruCache

variable {cells front back : List Cell}

/-- The loops over the items from the back start at the last cell. -/
theorem Chained.deref_tail (chained : Chained hash cache cells) :
    ∃ node, cache.memory.deref (some cache.tail) = some node ∧
      node.prev = (cache.head :: cells.map Cell.loc).getLast? := by
  have linked := chained.linked
  have prev : cache.memory.prev? cache.tail = (cache.head :: cells.map Cell.loc).getLast? :=
    linked.prev?_eq (by simp)
  obtain ⟨node, read, nodePrev, _⟩ := Memory.deref_some _ (Memory.lt_of_prev?
    (prev.trans (List.getLast?_eq_some_getLast (by simp))))
  exact ⟨node, read, nodePrev.trans prev⟩

end LruCache

namespace Checked

variable {front back : List Cell}

/-- Go along the list from an item to the head and do something with each. -/
def forEachFrom {σ : Type} (cache : LruCache) (body : σ → CacheItem → Option σ) :
    Nat → Option Loc → σ → Option σ
  | 0, _, _ => none
  | fuel + 1, item, state =>
    if item = some cache.head then pure state
    else do
      let node ← cache.memory.deref item
      let state ← body state node.value
      forEachFrom cache body fuel node.prev state

/-- The loop of both formats over the items, the least recent first. -/
def forEach {σ : Type} (cache : LruCache) (body : σ → CacheItem → Option σ) (state : σ) :
    Option σ := do
  let last ← cache.memory.deref (some cache.tail)
  forEachFrom cache body (cache.items.size + 1) last.prev state

variable {σ : Type}

variable {body : σ → CacheItem → Option σ} {state : σ}

/-- The loop reads the items from one on, the least recent first. -/
theorem forEachFrom_eq (chained : Chained hash cache (front ++ back))
    (enough : front.length < fuel) :
    forEachFrom cache body fuel (cache.head :: front.map Cell.loc).getLast? state =
      front.reverse.foldlM (fun state cell => body state (cell.item hash)) state := by
  induction front using List.reverseRecOn generalizing back fuel state with
  | nil =>
    obtain ⟨fuel, rfl⟩ := Nat.exists_eq_succ_of_ne_zero (Nat.ne_of_gt enough)
    simp [forEachFrom]
  | append_singleton front cell ih =>
    obtain ⟨fuel, rfl⟩ := Nat.exists_eq_succ_of_ne_zero (Nat.ne_zero_of_lt enough)
    rw [List.append_assoc, List.singleton_append] at chained
    obtain ⟨notHead, _, node, read, prev, _, item⟩ := chained.neighbours
    have last : (cache.head :: (front ++ [cell]).map Cell.loc).getLast? = some cell.loc := by
      rw [List.map_append, ← List.cons_append]
      exact List.getLast?_concat
    have shorter : front.length < fuel := by
      rw [List.length_append, List.length_singleton] at enough
      exact Nat.lt_of_succ_lt_succ enough
    rw [last, List.reverse_concat, List.foldlM_cons]
    simp only [forEachFrom, Option.some.injEq, notHead, if_false, read, item, prev,
      Option.bind_eq_bind, Option.bind_some, ih chained shorter]

theorem forEach_eq {cells : List Cell} (chained : Chained hash cache cells) :
    forEach cache body state =
      cells.reverse.foldlM (fun state cell => body state (cell.item hash)) state := by
  obtain ⟨node, read, prev⟩ := chained.deref_tail
  have whole : Chained hash cache (cells ++ []) := by simpa using chained
  have enough : cells.length < cache.items.size + 1 := by
    rw [chained.size]
    exact Nat.lt_succ_self _
  simp only [forEach, read, Option.bind_eq_bind, Option.bind_some, prev,
    forEachFrom_eq whole enough]

end Checked

variable {entries : List (LruKey × CacheBlob)}

namespace LruCache

/-- What is written for an item. -/
def writeItem (written : List Byte) (item : CacheItem) : List Byte :=
  if item.blob.length > maxRawCacheRecord then written else written ++ rawRecord item.blob

theorem writeFrom_eq (cache : LruCache) (fuel : Nat) (item : Option Loc) (written : List Byte) :
    cache.writeFrom fuel item written =
      Checked.forEachFrom cache (fun written item => pure (writeItem written item)) fuel item
        written := by
  induction fuel generalizing item written with
  | zero => rfl
  | succ fuel ih =>
    unfold LruCache.writeFrom Checked.forEachFrom
    split
    · rfl
    · congr 1
      funext node
      rw [pure_bind, ← ih]
      exact (apply_ite (cache.writeFrom fuel node.prev) _ _ _).symm

/-- Items within the limit are written one behind the other. -/
theorem foldl_writeItem {cells : List Cell}
    (limited : ∀ cell ∈ cells, cell.blob.length ≤ maxRawCacheRecord) (written : List Byte) :
    cells.foldl (fun written cell => writeItem written (cell.item hash)) written =
      written ++ (cells.map fun cell => rawRecord cell.blob).flatten := by
  induction cells generalizing written with
  | nil => simp
  | cons cell rest ih =>
    obtain ⟨own, others⟩ := List.forall_mem_cons.mp limited
    rw [List.foldl_cons, writeItem, Cell.item, if_neg (Nat.not_lt.mpr own), ih others]
    simp

theorem Represents.serializeRaw (represents : Represents hash capacity cache entries)
    (limited : ∀ entry ∈ entries, entry.2.length ≤ maxRawCacheRecord) :
    cache.serializeRaw = some (rawFile entries) := by
  obtain ⟨cells, chained, rfl⟩ := represents.carries.cells
  have small : ∀ cell ∈ cells.reverse, cell.blob.length ≤ maxRawCacheRecord := fun cell member =>
    limited cell.entry (List.mem_map_of_mem (List.mem_reverse.mp member))
  unfold LruCache.serializeRaw
  simp only [writeFrom_eq]
  exact (Checked.forEach_eq chained).trans (by
    rw [List.foldlM_pure, foldl_writeItem small, rawFile, ← List.map_reverse, List.map_map]
    rfl)

end LruCache

/-! ## Reading -/

/-- An entry that was stored: its blob was built for its key, which has a name, from a message
in wire format. -/
def StoredEntry (pack : Message → Option (List Byte)) (entry : LruKey × CacheBlob) : Prop :=
  entry.1.question.name ≠ [] ∧
    ∃ meta_ msg wire, pack msg = some wire ∧ newCacheBlobFromWire entry.1 meta_ wire = .ok entry.2

section Stored

variable (accepts : ∀ {msg wire}, pack msg = some wire → (unpack wire).isSome)
  {entry : LruKey × CacheBlob} (stored : StoredEntry pack entry)

include stored

theorem StoredEntry.builtFor : BuiltFor entry.1 entry.2 := by
  obtain ⟨_, meta_, _, wire, _, built⟩ := stored
  exact ⟨meta_, wire, built⟩

theorem StoredEntry.hdrLen_le : blobHdrLen ≤ entry.2.length := by
  obtain ⟨_, _, _, _, _, built⟩ := stored
  have := length_eq built
  omega

include accepts in
/-- A stored blob is taken back from a file. -/
theorem blobFromFile_stored : blobFromFile unpack entry.2 = some entry.1 := by
  have long := stored.hdrLen_le
  obtain ⟨named, meta_, msg, wire, packed, built⟩ := stored
  have length := length_eq built
  have accepted : (unpack wire).isNone = false := by
    simpa using accepts packed
  rw [blobFromFile, version_eq built, netLen_eq built, nameLen_eq built, message_eq built,
    key_eq built, if_neg (by simpa using long), if_neg (by omega), accepted,
    if_neg Bool.false_ne_true, if_neg named]

end Stored

/-- The entries of a file, given in its order, whose records end before a cut.  The first
record starts at an offset. -/
def completeRecords (cut : Nat) :
    (offset : Nat) → List (LruKey × CacheBlob) → List (LruKey × CacheBlob)
  | _, [] => []
  | offset, entry :: newer =>
    if offset + (rawRecord entry.2).length ≤ cut then
      entry :: completeRecords cut (offset + (rawRecord entry.2).length) newer
    else completeRecords cut (offset + (rawRecord entry.2).length) newer

theorem completeRecords_sublist (cut offset : Nat) (entries : List (LruKey × CacheBlob)) :
    (completeRecords cut offset entries).Sublist entries := by
  induction entries generalizing offset with
  | nil => exact List.Sublist.refl _
  | cons entry newer ih =>
    unfold completeRecords
    split
    · exact (ih _).cons_cons entry
    · exact (ih _).cons entry

/-- Nothing is complete behind the cut. -/
theorem completeRecords_of_lt (behind : cut < offset) (entries : List (LruKey × CacheBlob)) :
    completeRecords cut offset entries = [] := by
  induction entries generalizing offset with
  | nil => rfl
  | cons entry newer ih =>
    rw [completeRecords, if_neg (by omega), ih (by omega)]

/-- All is complete in the whole file. -/
theorem completeRecords_of_le
    (whole : offset + ((entries.map fun entry => rawRecord entry.2).flatten).length ≤ cut) :
    completeRecords cut offset entries = entries := by
  induction entries generalizing offset with
  | nil => rfl
  | cons entry newer ih =>
    rw [List.map_cons, List.flatten_cons, List.length_append] at whole
    rw [completeRecords, if_pos (by omega), ih (by omega)]

/-- A record that is cut off is not read. -/
theorem readRecord_cut (limited : blob.length ≤ maxRawCacheRecord) {room : Nat}
    (cut : room < (rawRecord blob).length) : readRecord ((rawRecord blob).take room) = none := by
  rw [length_rawRecord] at cut
  unfold readRecord
  by_cases inLength : room < 4
  · rw [readFull_of_lt (by rw [List.length_take]; omega)]
    rfl
  · have split : (rawRecord blob).take room = bigEndian 4 blob.length ++ blob.take (room - 4) := by
      rw [rawRecord, List.take_append, length_bigEndian,
        List.take_of_length_le (by rw [length_bigEndian]; omega)]
    have short : (blob.take (room - 4)).length < blob.length := by
      rw [List.length_take]
      omega
    rw [split, readFull_append (length_bigEndian 4 _)]
    simp only [ofBigEndian_length limited, readFull_of_lt short, ite_self, Option.bind_eq_bind,
      Option.bind_some]

/-- The front of some records has those that are complete. -/
theorem rawRecords_take (sensible : ∀ entry ∈ entries, Plausible entry.2.length) (offset room : Nat)
    (enough : (((entries.map fun entry => rawRecord entry.2).flatten).take room).length < fuel) :
    rawRecords fuel (((entries.map fun entry => rawRecord entry.2).flatten).take room) =
      (completeRecords (offset + room) offset entries).map Prod.snd := by
  induction entries generalizing offset room fuel with
  | nil =>
    obtain ⟨fuel, rfl⟩ := Nat.exists_eq_succ_of_ne_zero (Nat.ne_zero_of_lt enough)
    rw [List.map_nil, List.flatten_nil, List.take_nil]
    rfl
  | cons entry newer ih =>
    obtain ⟨fuel, rfl⟩ := Nat.exists_eq_succ_of_ne_zero (Nat.ne_zero_of_lt enough)
    obtain ⟨own, others⟩ := List.forall_mem_cons.mp sensible
    rw [List.map_cons, List.flatten_cons] at enough ⊢
    by_cases cut : room < (rawRecord entry.2).length
    · -- the cut is in this record, and all later ones are behind it
      rw [List.take_append_of_le_length (Nat.le_of_lt cut), rawRecords, readRecord_cut own.2 cut,
        completeRecords, if_neg (by omega), completeRecords_of_lt (by omega)]
      rfl
    · have split : (rawRecord entry.2 ++
          (newer.map fun entry => rawRecord entry.2).flatten).take room = rawRecord entry.2 ++
            ((newer.map fun entry => rawRecord entry.2).flatten).take
              (room - (rawRecord entry.2).length) := by
        rw [List.take_append, List.take_of_length_le (Nat.not_lt.mp cut)]
      have sameCut : offset + (rawRecord entry.2).length +
          (room - (rawRecord entry.2).length) = offset + room := by
        omega
      have record := length_rawRecord entry.2
      rw [split, List.length_append] at enough
      rw [split, rawRecords, readRecord_eq_some_iff.mpr ⟨rfl, own⟩, completeRecords,
        if_pos (by omega), List.map_cons, ← sameCut]
      exact congrArg (entry.2 :: ·) (ih others _ _ (by omega))

namespace LruCache

/-- Reading a file that is cut off behind its header adds the entries whose records are
complete. -/
theorem deserializeRaw_take (accepts : ∀ {msg wire}, pack msg = some wire → (unpack wire).isSome)
    (stored : ∀ entry ∈ entries, StoredEntry pack entry)
    (limited : ∀ entry ∈ entries, entry.2.length ≤ maxRawCacheRecord)
    (behind : rawCacheHeaderLen ≤ cut) :
    cache.deserializeRaw unpack hash ((rawFile entries).take cut) =
      (cache.addAll hash (completeRecords cut rawCacheHeaderLen entries.reverse)).map .ok := by
  have split : (rawFile entries).take cut = rawCacheHeader ++
      ((entries.reverse.map fun entry => rawRecord entry.2).flatten).take
        (cut - rawCacheHeaderLen) := by
    rw [rawFile, List.take_append, List.take_of_length_le behind]
    rfl
  have sensible : ∀ entry ∈ entries.reverse, Plausible entry.2.length := fun entry member =>
    ⟨(stored entry (List.mem_reverse.mp member)).hdrLen_le,
      limited entry (List.mem_reverse.mp member)⟩
  have read := rawRecords_take sensible rawCacheHeaderLen (cut - rawCacheHeaderLen)
    (Nat.lt_succ_self _)
  have used : ∀ entry ∈ completeRecords cut rawCacheHeaderLen entries.reverse,
      (usable unpack ∘ Prod.snd) entry = some entry := by
    intro entry member
    have own := stored entry
      (List.mem_reverse.mp ((completeRecords_sublist cut rawCacheHeaderLen _).mem member))
    rw [Function.comp_apply, usable, blobFromFile_stored accepts own]
    rfl
  rw [split, deserializeRaw_headed, read, Nat.add_sub_cancel' behind, List.filterMap_map,
    List.filterMap_congr used, List.filterMap_some]

/-- Entries are added one after the other. -/
theorem Carries.addAll {entries added : List (LruKey × CacheBlob)}
    (carries : Carries hash capacity cache entries) (fits : Recency.Fits capacity entries)
    (keyed : ∀ entry ∈ added, entry.2.key = entry.1) :
    ∃ changed, cache.addAll hash added = some changed ∧
      Carries hash capacity changed
        (added.foldl (fun entries entry => Recency.add hash capacity entry.1 entry.2 entries)
          entries) := by
  induction added generalizing cache entries with
  | nil => exact ⟨cache, rfl, carries⟩
  | cons entry rest ih =>
    obtain ⟨next, ran, carries'⟩ := carries.addKey (keyed entry List.mem_cons_self)
    rw [placed_eq_add carries.distinct fits] at carries'
    obtain ⟨changed, ranRest, result⟩ := ih carries' (fits.add entry.1 entry.2)
      fun other member => keyed other (List.mem_cons_of_mem _ member)
    refine ⟨changed, ?_, result⟩
    rw [LruCache.addAll, List.foldlM_cons, ran]
    exact ranRest

variable {limit : Int}

/-- Entries that were added to an empty cache one after the other, the most recent last. -/
theorem Represents.addAll (empty : Represents hash limit cache [])
    (distinct : Recency.Distinct hash entries)
    (built : ∀ entry ∈ entries, BuiltFor entry.1 entry.2) :
    ∃ restored, cache.addAll hash entries.reverse = some restored ∧
      Represents hash limit restored (Recency.bounded limit entries) := by
  have keyed : ∀ entry ∈ entries.reverse, entry.2.key = entry.1 := by
    intro entry member
    obtain ⟨meta_, wire, own⟩ := built entry (List.mem_reverse.mp member)
    exact key_eq own
  obtain ⟨restored, added, carries⟩ := empty.carries.addAll (fun _ => Nat.zero_le _) keyed
  rw [List.foldl_reverse, Recency.foldr_add distinct] at carries
  refine ⟨restored, added, carries.represents ?_⟩
  intro entry member
  exact built entry ((Recency.bounded_sublist limit entries).mem member)

/-- Reading a file that is cut off behind its header restores the entries whose records are
complete, up to the limit of the cache. -/
theorem Represents.deserializeRaw
    (accepts : ∀ {msg wire}, pack msg = some wire → (unpack wire).isSome)
    (represents : Represents hash limit cache [])
    (stored : ∀ entry ∈ entries, StoredEntry pack entry)
    (limited : ∀ entry ∈ entries, entry.2.length ≤ maxRawCacheRecord)
    (distinct : Recency.Distinct hash entries) (behind : rawCacheHeaderLen ≤ cut) :
    ∃ restored,
      cache.deserializeRaw unpack hash ((rawFile entries).take cut) = some (.ok restored) ∧
        Represents hash limit restored (Recency.bounded limit
          (completeRecords cut rawCacheHeaderLen entries.reverse).reverse) := by
  have complete := (completeRecords_sublist cut rawCacheHeaderLen entries.reverse).reverse
  rw [List.reverse_reverse] at complete
  obtain ⟨restored, added, result⟩ := represents.addAll (distinct.sublist complete)
    fun entry member => (stored entry (complete.mem member)).builtFor
  rw [List.reverse_reverse] at added
  refine ⟨restored, ?_, result⟩
  rw [deserializeRaw_take accepts stored limited behind, added]
  rfl

end LruCache

/-- The file of a cache whose entries were stored for questions with a name, none of them
larger than a record of the file may be: reading it into an empty cache restores the entries
in their order, up to the limit of that cache, and reading a part that is cut off behind the
header restores those whose records are complete.  Blobs are restored byte for byte, so keys,
times, flags and messages are. -/
theorem raw_file_restores (accepts : ∀ {msg wire}, pack msg = some wire → (unpack wire).isSome)
    {capacity : Int} {entries : List (LruKey × CacheBlob)}
    (represents : LruCache.Represents hash capacity cache entries)
    (stored : ∀ entry ∈ entries, StoredEntry pack entry)
    (limited : ∀ entry ∈ entries, entry.2.length ≤ maxRawCacheRecord)
    {newHash : LruKey → UInt64}
    (apart : ∀ first ∈ entries, ∀ second ∈ entries,
      newHash first.1 = newHash second.1 → first.1 = second.1) :
    ∃ file, cache.serializeRaw = some file ∧
      ∀ (limit : Int) (empty : LruCache), LruCache.Represents newHash limit empty [] →
        (∃ restored, empty.deserializeRaw unpack newHash file = some (.ok restored) ∧
          LruCache.Represents newHash limit restored (Recency.bounded limit entries)) ∧
        ∀ cut, rawCacheHeaderLen ≤ cut → ∃ restored,
          empty.deserializeRaw unpack newHash (file.take cut) = some (.ok restored) ∧
            LruCache.Represents newHash limit restored (Recency.bounded limit
              (completeRecords cut rawCacheHeaderLen entries.reverse).reverse) := by
  have distinct := represents.distinct.rehash apart
  refine ⟨rawFile entries, represents.serializeRaw limited, ?_⟩
  intro limit empty isEmpty
  have part : ∀ cut, rawCacheHeaderLen ≤ cut → _ := fun _ behind =>
    isEmpty.deserializeRaw accepts stored limited distinct behind
  refine ⟨?_, part⟩
  obtain ⟨restored, ran, result⟩ := part (rawFile entries).length (by
    rw [length_rawFile]
    exact Nat.le_add_right _ _)
  rw [List.take_length] at ran
  rw [completeRecords_of_le (length_rawFile entries).ge, List.reverse_reverse] at result
  exact ⟨restored, ran, result⟩

/-- A hash that tells names of different lengths apart. -/
def lengthHash (key : LruKey) : UInt64 :=
  UInt64.ofNat key.question.name.length

/-- The entry of a message stored for a name. -/
def sampleEntry (name : Name) : LruKey × CacheBlob :=
  (lruKeyFromQuery (sampleQuery name), sampleBlob name (sampleWire 300))

theorem stored_sampleEntry (name : Name) (named : name ≠ []) (short : name.length ≤ 65535) :
    StoredEntry (packBy sampleTable) (sampleEntry name) :=
  ⟨fun empty => named (List.map_eq_nil_iff.mp empty), _, sampleAnswer 300, _, by decide +kernel,
    newCacheBlobFromWire_sample name _ short⟩

/-- A cache to which two entries were added. -/
theorem represents_two {older newer : LruKey × CacheBlob} (first : BuiltFor older.1 older.2)
    (second : BuiltFor newer.1 newer.2)
    (added : Recency.add lengthHash 0 newer.1 newer.2
      (Recency.add lengthHash 0 older.1 older.2 []) = [newer, older]) :
    ∃ cache, Represents lengthHash 0 cache [newer, older] := by
  obtain ⟨_, _, one⟩ := (represents_new lengthHash 0).addKey first
  obtain ⟨cache, _, two⟩ := one.addKey second
  rw [added] at two
  exact ⟨cache, two⟩

/-- Of two entries the more recent one fits into a cache for one. -/
theorem two_entries_restored :
    ∃ cache file restored,
      Represents lengthHash 0 cache [sampleEntry (text "bc."), sampleEntry (text "a.")] ∧
        cache.serializeRaw = some file ∧
        (newLRUCache 1).deserializeRaw (unpackBy sampleTable) lengthHash file =
          some (.ok restored) ∧
        Represents lengthHash 1 restored [sampleEntry (text "bc.")] := by
  have older := stored_sampleEntry (text "a.") (by decide) (by decide)
  have newer := stored_sampleEntry (text "bc.") (by decide) (by decide)
  obtain ⟨cache, two⟩ := represents_two older.builtFor newer.builtFor (by decide +kernel)
  have stored : ∀ entry ∈ [sampleEntry (text "bc."), sampleEntry (text "a.")],
      StoredEntry (packBy sampleTable) entry := by
    simpa using ⟨newer, older⟩
  have apart : ∀ first ∈ [sampleEntry (text "bc."), sampleEntry (text "a.")],
      ∀ second ∈ [sampleEntry (text "bc."), sampleEntry (text "a.")],
        lengthHash first.1 = lengthHash second.1 → first.1 = second.1 := by
    decide +kernel
  obtain ⟨file, written, read⟩ :=
    raw_file_restores isSome_unpackBy two stored (by decide +kernel) apart
  obtain ⟨⟨restored, ran, result⟩, _⟩ := read 1 _ (represents_new lengthHash 1)
  exact ⟨cache, file, restored, two, written, ran, result⟩

end RouteDns.Cache
