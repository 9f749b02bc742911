import RouteDns.Cache.FileSafety

/-!
# The cache file in JSON

A cache is written in one of two formats.  In JSON every entry is taken apart into its key, its
times and flags and its message, and put together again when the file is read; the raw format
holds the entries as they are.  Which of the two a file has is seen from its first bytes, not
from the configuration.  What `Store` has built is the same again after either way.

Encoding and decoding a record as JSON belong to the library of the language: a record is written
as one object on a line of its own, and the decoder skips line ends between objects.
-/

namespace RouteDns.Cache

open Dns Cidr Reader LinkedList LruCache

/-! ## The functions on files -/

def newline : Byte := 10

def openBrace : Byte := 123

/-- Records as JSON: `encode` writes one without the line end, `more` says whether another one
follows in a stream, and `decode` reads one off a stream. -/
structure JSONCodec where
  encode : CacheItemJSON → Except Text (List Byte)
  more : List Byte → Bool
  decode : List Byte → Except Text (CacheItemJSON × List Byte)

inductive CacheFileFormat where
  | json
  | raw
  deriving DecidableEq

/-- The cache of a backend and the format that it is configured to write. -/
structure MemoryBackend where
  lru : LruCache
  fileFormat : CacheFileFormat

section Files

variable (json : JSONCodec) (unpack : List Byte → Option Message) (hash : LruKey → UInt64)

/-- The stored form of a record read from a file, if it can be used. -/
def toCacheBlob (record : CacheItemJSON) : Option CacheBlob :=
  if record.key.question.name = [] ∨ record.msg = [] then none
  else if (unpack record.msg).isNone then none
  else
    (newCacheBlobFromWire record.key
      { timestamp := record.timestamp, expiry := record.expiry
        prefetchEligible := record.prefetchEligible } record.msg).toOption

/-- Write an item, unless there was an error before. -/
def encodeItem (written : Except Text (List Byte)) (item : CacheItem) :
    Option (Except Text (List Byte)) :=
  match written with
  | .error reason => pure (.error reason)
  | .ok bytes => do
    let record ← Checked.newCacheItemJSON item
    match json.encode record with
    | .error reason => pure (.error reason)
    | .ok object => pure (.ok (bytes ++ (object ++ [newline])))

namespace LruCache

/-- The JSON file of a cache. -/
def serialize (cache : LruCache) : Option (Except Text (List Byte)) :=
  Checked.forEach cache (encodeItem json) (.ok [])

/-- Add the records of a stream one after the other, with a bound on their number.  An error ends
the reading, and what was read so far stays. -/
def decodeRecords : Nat → LruCache → (stream : List Byte) → Option (Option Text × LruCache)
  | 0, _, _ => none
  | fuel + 1, cache, stream =>
    if json.more stream then
      match json.decode stream with
      | .error reason => pure (some reason, cache)
      | .ok (record, stream) =>
        match toCacheBlob unpack record with
        | none => decodeRecords fuel cache stream
        | some blob => do
          let cache ← cache.addKey hash record.key blob
          decodeRecords fuel cache stream
    else pure (none, cache)

def deserialize (cache : LruCache) (file : List Byte) : Option (Option Text × LruCache) :=
  decodeRecords json unpack hash (file.length + 1) cache file

end LruCache

/-- A file starts as a raw one does. -/
def isRawCacheFile (file : List Byte) : Bool :=
  match readFull 4 file with
  | none => false
  | some (magic, _) => magic = rawCacheMagic

namespace MemoryBackend

/-- What is written to the file. -/
def writeToFile (b : MemoryBackend) : Option (Except Text (List Byte)) :=
  match b.fileFormat with
  | .raw => do
    let file ← b.lru.serializeRaw
    pure (.ok file)
  | .json => b.lru.serialize json

/-- Read a file, whatever format is configured. -/
def loadFromFile (b : MemoryBackend) (file : List Byte) : Option (Option Text × MemoryBackend) :=
  if isRawCacheFile file then do
    match ← b.lru.deserializeRaw unpack hash file with
    | .error reason => pure (some reason, b)
    | .ok lru => pure (none, { b with lru := lru })
  else do
    let (reason, lru) ← b.lru.deserialize json unpack hash file
    pure (reason, { b with lru := lru })

end MemoryBackend

end Files

/-! ## What is assumed of JSON -/

/-- Text that JSON does not change. -/
def Ascii (text : Text) : Prop :=
  ∀ byte ∈ text, byte.val < 128

instance (text : Text) : Decidable (Ascii text) :=
  inferInstanceAs (Decidable (∀ byte ∈ text, byte.val < 128))

/-- The times that an item can hold. -/
def Holdable (time : Time) : Prop :=
  time = zeroTime ∨ -9223372036854775808 ≤ time ∧ time < 9223372036854775808

structure CacheItemJSON.Plain (record : CacheItemJSON) : Prop where
  named : record.key.question.name ≠ []
  name : Ascii record.key.question.name
  net : Ascii record.key.net
  timestamp : Holdable record.timestamp
  expiry : Holdable record.expiry

/-- The plain records among those that are written are encoded as objects and decoded from them
again.  Line ends before an object are skipped, and there is nothing in an empty stream. -/
structure JSONCodec.Lawful (json : JSONCodec) (Written : CacheItemJSON → Prop) : Prop where
  object : ∀ {record : CacheItemJSON}, Written record → record.Plain → ∃ members,
    json.encode record = .ok (openBrace :: members) ∧
      ∀ rest, json.decode (openBrace :: (members ++ rest)) = .ok (record, rest)
  more_object : ∀ rest, json.more (openBrace :: rest) = true
  more_newline : ∀ stream, json.more (newline :: stream) = json.more stream
  decode_newline : ∀ stream, json.decode (newline :: stream) = json.decode stream
  more_nil : json.more [] = false

/-! ## Taking an entry apart -/

theorem holdable_unixNano (time : Time) :
    -9223372036854775808 ≤ unixNano time ∧ unixNano time < 9223372036854775808 := by
  unfold unixNano
  split
  · decide
  · have low := @Int.le_bmod time 18446744073709551616 (by decide)
    have high := @Int.bmod_lt time 18446744073709551616 (by decide)
    unfold Time at *
    omega

theorem holdable_nanoTime (time : Time) : Holdable (nanoTime (unixNano time)) := by
  unfold nanoTime
  split
  · exact .inl rfl
  · exact .inr (holdable_unixNano time)

/-- The nanoseconds that an item holds do not change on the way through a time. -/
theorem unixNano_nanoTime (time : Time) : unixNano (nanoTime (unixNano time)) = unixNano time := by
  have range := holdable_unixNano time
  unfold nanoTime
  split
  · rename_i zero
    rw [zero]
    exact if_pos rfl
  · exact unixNano_of_range range.1 range.2

section Built

variable {key : LruKey} {meta_ : CacheMeta} {wire : List Byte} {blob : CacheBlob}

/-- The record of a response that was stored. -/
def storedRecord (key : LruKey) (meta_ : CacheMeta) (wire : List Byte) : CacheItemJSON where
  key := key
  timestamp := nanoTime (unixNano meta_.timestamp)
  expiry := nanoTime (unixNano meta_.expiry)
  prefetchEligible := meta_.prefetchEligible
  msg := wire

theorem newCacheItemJSON_built {digest : UInt64}
    (built : newCacheBlobFromWire key meta_ wire = .ok blob) :
    Checked.newCacheItemJSON { hash := digest, blob := blob } =
      some (storedRecord key meta_ wire) := by
  have framed := framed_of_built ⟨meta_, wire, built⟩
  unfold Checked.newCacheItemJSON storedRecord
  simp only [Checked.key_eq framed, Checked.timestamp_eq framed.header,
    Checked.expiry_eq framed.header, Checked.prefetchEligible_eq framed.header,
    Checked.message_eq framed, key_eq built, timestamp_eq built, expiry_eq built,
    prefetchEligible_eq built, message_eq built, Option.bind_eq_bind, Option.bind_some]
  rfl

/-- The blob depends on its times only through their nanoseconds. -/
theorem newCacheBlobFromWire_nanoTime (key : LruKey) (meta_ : CacheMeta) (wire : List Byte) :
    newCacheBlobFromWire key
        { timestamp := nanoTime (unixNano meta_.timestamp)
          expiry := nanoTime (unixNano meta_.expiry)
          prefetchEligible := meta_.prefetchEligible } wire =
      newCacheBlobFromWire key meta_ wire := by
  unfold newCacheBlobFromWire blobFields uint64OfTime
  simp only [unixNano_nanoTime]

/-- A record of a stored response is put together again, byte for byte. -/
theorem toCacheBlob_storedRecord {unpack : List Byte → Option Message}
    (named : key.question.name ≠ []) (accepted : (unpack wire).isSome) (header : unpack [] = none)
    (built : newCacheBlobFromWire key meta_ wire = .ok blob) :
    toCacheBlob unpack (storedRecord key meta_ wire) = some blob := by
  have nonempty : wire ≠ [] := by
    rintro rfl
    rw [header] at accepted
    cases accepted
  have unpacks : (unpack wire).isNone = false := by
    simpa using accepted
  unfold toCacheBlob storedRecord
  rw [if_neg (not_or.mpr ⟨named, nonempty⟩), unpacks, if_neg Bool.false_ne_true,
    newCacheBlobFromWire_nanoTime, built]
  rfl

end Built

/-! ## The lines of the file -/

/-- An entry that `Store` has built for a query. -/
def StoredFor (pack : Message → Option (List Byte)) (entry : LruKey × CacheBlob) : Prop :=
  ∃ (q : CacheQuery) (meta_ : CacheMeta) (msg : Message) (wire : List Byte),
    entry.1 = lruKeyFromQuery q ∧ pack msg = some wire ∧
      newCacheBlobFromWire entry.1 meta_ wire = .ok entry.2

/-- The record of an entry. -/
def WrittenFor (entries : List (LruKey × CacheBlob)) (record : CacheItemJSON) : Prop :=
  ∃ entry ∈ entries, ∀ digest,
    Checked.newCacheItemJSON { hash := digest, blob := entry.2 } = some record

/-- The line of an entry: it is written for the entry, and the entry is read from it. -/
structure Line (json : JSONCodec) (unpack : List Byte → Option Message)
    (entry : LruKey × CacheBlob) (line : List Byte) : Prop where
  written : ∀ (digest : UInt64) (bytes : List Byte),
    encodeItem json (.ok bytes) { hash := digest, blob := entry.2 } = some (.ok (bytes ++ line))
  read : ∃ members record, line = openBrace :: (members ++ [newline]) ∧
    (∀ rest, json.decode (openBrace :: (members ++ rest)) = .ok (record, rest)) ∧
      record.key = entry.1 ∧ toCacheBlob unpack record = some entry.2

/-- The client subnet of a key is empty or the text of an address. -/
theorem ascii_net (q : CacheQuery) : Ascii (lruKeyFromQuery q).net := by
  have addresses : ∀ byte ∈ addressBytes, byte.val < 128 := by decide +kernel
  rw [lruKeyFromQuery_eq]
  intro byte member
  dsimp only [CacheQuery.lastNet] at member
  cases last : q.subnets.getLast? with
  | none =>
    rw [last] at member
    cases member
  | some subnet =>
    rw [last] at member
    exact addresses byte (mem_addressBytes_of_mem_ipString member)

variable {json : JSONCodec} {unpack : List Byte → Option Message}
  {pack : Message → Option (List Byte)} {hash : LruKey → UInt64} {cache : LruCache}
  {entry : LruKey × CacheBlob} {all entries : List (LruKey × CacheBlob)}
  {lines : List (List Byte)}

theorem exists_line (lawful : json.Lawful (WrittenFor entries)) (member : entry ∈ entries)
    (accepts : ∀ {msg wire}, pack msg = some wire → (unpack wire).isSome)
    (header : unpack [] = none) (stored : StoredFor pack entry)
    (named : entry.1.question.name ≠ []) (ascii : Ascii entry.1.question.name) :
    ∃ line, Line json unpack entry line := by
  obtain ⟨q, meta_, msg, wire, keyed, packed, built⟩ := stored
  have plain : (storedRecord entry.1 meta_ wire).Plain := by
    refine ⟨named, ascii, ?_, holdable_nanoTime _, holdable_nanoTime _⟩
    change Ascii entry.1.net
    rw [keyed]
    exact ascii_net q
  obtain ⟨members, encoded, decoded⟩ :=
    lawful.object ⟨entry, member, fun _ => newCacheItemJSON_built built⟩ plain
  refine ⟨openBrace :: (members ++ [newline]), ?_, members, _, rfl, decoded, rfl,
    toCacheBlob_storedRecord named (accepts packed) header built⟩
  intro digest bytes
  simp only [encodeItem, newCacheItemJSON_built built, encoded, Option.bind_eq_bind,
    Option.bind_some]
  rfl

theorem exists_lines (each : ∀ entry ∈ entries, ∃ line, Line json unpack entry line) :
    ∃ lines, List.Forall₂ (Line json unpack) entries lines := by
  induction entries with
  | nil => exact ⟨[], .nil⟩
  | cons entry entries ih =>
    obtain ⟨first, rest⟩ := List.forall_mem_cons.mp each
    obtain ⟨line, own⟩ := first
    obtain ⟨lines, others⟩ := ih rest
    exact ⟨line :: lines, .cons own others⟩

/-- The loop over the items writes one line after the other. -/
theorem foldlM_encodeItem {cells : List Cell} {bytes : List Byte}
    (written : List.Forall₂ (Line json unpack) (cells.map Cell.entry) lines) :
    cells.foldlM (fun state cell => encodeItem json state (cell.item hash)) (.ok bytes) =
      some (.ok (bytes ++ lines.flatten)) := by
  induction cells generalizing lines bytes with
  | nil =>
    cases written
    simp
  | cons cell cells ih =>
    rw [List.map_cons] at written
    cases written with
    | cons own others =>
      rw [List.foldlM_cons]
      have first : encodeItem json (.ok bytes) (cell.item hash) = _ := own.written _ bytes
      rw [first, Option.bind_eq_bind, Option.bind_some, ih others]
      simp

theorem LruCache.Represents.serialize {capacity : Int}
    (represents : Represents hash capacity cache entries)
    (written : List.Forall₂ (Line json unpack) entries.reverse lines) :
    cache.serialize json = some (.ok lines.flatten) := by
  obtain ⟨cells, chained, rfl⟩ := represents.carries.cells
  rw [← List.map_reverse] at written
  rw [LruCache.serialize, Checked.forEach_eq chained, foldlM_encodeItem written, List.nil_append]

/-- Line ends between records are skipped. -/
theorem decodeRecords_newline (lawful : json.Lawful (WrittenFor all)) (fuel : Nat)
    (stream : List Byte) :
    cache.decodeRecords json unpack hash fuel (newline :: stream) =
      cache.decodeRecords json unpack hash fuel stream := by
  cases fuel with
  | zero => rfl
  | succ fuel =>
    unfold LruCache.decodeRecords
    rw [lawful.more_newline, lawful.decode_newline]

/-- Reading the lines adds their entries. -/
theorem decodeRecords_lines (lawful : json.Lawful (WrittenFor all))
    (written : List.Forall₂ (Line json unpack) entries lines) {fuel : Nat}
    (enough : entries.length < fuel) :
    cache.decodeRecords json unpack hash fuel lines.flatten =
      (cache.addAll hash entries).map fun cache => (none, cache) := by
  induction written generalizing cache fuel with
  | nil =>
    obtain ⟨fuel, rfl⟩ := Nat.exists_eq_succ_of_ne_zero (Nat.ne_zero_of_lt enough)
    unfold LruCache.decodeRecords
    rw [List.flatten_nil, lawful.more_nil]
    rfl
  | @cons entry line entries lines own _ ih =>
    obtain ⟨fuel, rfl⟩ := Nat.exists_eq_succ_of_ne_zero (Nat.ne_zero_of_lt enough)
    obtain ⟨members, record, rfl, decoded, keyed, usable⟩ := own.read
    have stream : ((openBrace :: (members ++ [newline])) :: lines).flatten =
        openBrace :: (members ++ (newline :: lines.flatten)) := by
      simp
    unfold LruCache.decodeRecords
    rw [stream, lawful.more_object, if_pos rfl, decoded]
    simp only [usable, keyed, Option.bind_eq_bind]
    rw [LruCache.addAll, List.foldlM_cons, Option.bind_eq_bind, Option.map_bind]
    congr 1
    funext next
    rw [decodeRecords_newline lawful]
    exact ih (Nat.lt_of_succ_lt_succ enough)

theorem length_le_flatten (written : List.Forall₂ (Line json unpack) entries lines) :
    entries.length ≤ lines.flatten.length := by
  induction written with
  | nil => exact Nat.le_refl _
  | cons own _ ih =>
    obtain ⟨members, record, rfl, -⟩ := own.read
    rw [List.flatten_cons, List.length_append, List.length_cons, List.length_cons]
    omega

theorem deserialize_lines (lawful : json.Lawful (WrittenFor all))
    (written : List.Forall₂ (Line json unpack) entries lines) :
    cache.deserialize json unpack hash lines.flatten =
      (cache.addAll hash entries).map fun cache => (none, cache) :=
  decodeRecords_lines lawful written (Nat.lt_succ_of_le (length_le_flatten written))

/-- A JSON file is not taken for a raw one. -/
theorem isRawCacheFile_lines (written : List.Forall₂ (Line json unpack) entries lines) :
    isRawCacheFile lines.flatten = false := by
  unfold isRawCacheFile
  cases read : readFull 4 lines.flatten with
  | none => rfl
  | some found =>
    obtain ⟨magic, rest⟩ := found
    obtain ⟨whole, length⟩ := readFull_eq_some_iff.mp read
    refine decide_eq_false ?_
    rintro rfl
    cases written with
    | nil => cases whole
    | cons own _ =>
      obtain ⟨members, record, rfl, -⟩ := own.read
      have first : openBrace = 0 := (List.cons.inj whole).1
      exact absurd first (by decide)

/-! ## The raw file -/

theorem isRawCacheFile_rawFile (entries : List (LruKey × CacheBlob)) :
    isRawCacheFile (rawFile entries) = true := by
  unfold isRawCacheFile rawFile rawCacheHeader
  rw [List.append_assoc, readFull_append (by decide)]
  exact decide_eq_true rfl

theorem StoredFor.storedEntry (stored : StoredFor pack entry)
    (named : entry.1.question.name ≠ []) : StoredEntry pack entry := by
  obtain ⟨q, meta_, msg, wire, -, packed, built⟩ := stored
  exact ⟨named, meta_, msg, wire, packed, built⟩

theorem deserializeRaw_rawFile
    (accepts : ∀ {msg wire}, pack msg = some wire → (unpack wire).isSome)
    (stored : ∀ entry ∈ entries, StoredEntry pack entry)
    (limited : ∀ entry ∈ entries, entry.2.length ≤ maxRawCacheRecord) :
    cache.deserializeRaw unpack hash (rawFile entries) =
      (cache.addAll hash entries.reverse).map .ok := by
  have behind : rawCacheHeaderLen ≤ (rawFile entries).length := by
    rw [length_rawFile]
    exact Nat.le_add_right _ _
  have read :
      cache.deserializeRaw unpack hash ((rawFile entries).take (rawFile entries).length) = _ :=
    deserializeRaw_take accepts stored limited behind
  rwa [List.take_length, completeRecords_of_le (length_rawFile entries).ge] at read

/-! ## Both formats -/

/-- The files of a cache whose entries `Store` has built for queries with an ASCII name, none of
them larger than a record of the raw file may be: whichever format is configured, reading the
JSON file into an empty cache leaves the same cache as reading the raw one, which has the entries
with their blobs byte for byte and in their order, up to its limit. -/
theorem formats_restore_alike (lawful : json.Lawful (WrittenFor entries))
    (accepts : ∀ {msg wire}, pack msg = some wire → (unpack wire).isSome)
    (header : unpack [] = none) {capacity : Int}
    (represents : Represents hash capacity cache entries)
    (stored : ∀ entry ∈ entries, StoredFor pack entry)
    (named : ∀ entry ∈ entries, entry.1.question.name ≠ [] ∧ Ascii entry.1.question.name)
    (limited : ∀ entry ∈ entries, entry.2.length ≤ maxRawCacheRecord)
    {newHash : LruKey → UInt64}
    (apart : ∀ first ∈ entries, ∀ second ∈ entries,
      newHash first.1 = newHash second.1 → first.1 = second.1) :
    ∃ jsonFile rawFile,
      MemoryBackend.writeToFile json { lru := cache, fileFormat := .json } =
          some (.ok jsonFile) ∧
        MemoryBackend.writeToFile json { lru := cache, fileFormat := .raw } =
          some (.ok rawFile) ∧
        ∀ (limit : Int) (empty : LruCache), Represents newHash limit empty [] →
          ∃ restored, Represents newHash limit restored (Recency.bounded limit entries) ∧
            ∀ configured,
              MemoryBackend.loadFromFile json unpack newHash
                  { lru := empty, fileFormat := configured } jsonFile =
                some (none, { lru := restored, fileFormat := configured }) ∧
              MemoryBackend.loadFromFile json unpack newHash
                  { lru := empty, fileFormat := configured } rawFile =
                some (none, { lru := restored, fileFormat := configured }) := by
  have storedEntries : ∀ entry ∈ entries, StoredEntry pack entry := fun entry member =>
    (stored entry member).storedEntry (named entry member).1
  obtain ⟨lines, written⟩ : ∃ lines, List.Forall₂ (Line json unpack) entries.reverse lines := by
    refine exists_lines ?_
    intro entry member
    have member := List.mem_reverse.mp member
    exact exists_line lawful member accepts header (stored entry member) (named entry member).1
      (named entry member).2
  refine ⟨lines.flatten, rawFile entries, represents.serialize written, ?_, ?_⟩
  · unfold MemoryBackend.writeToFile
    rw [represents.serializeRaw limited]
    rfl
  · intro limit empty isEmpty
    obtain ⟨restored, added, result⟩ :=
      isEmpty.addAll (represents.distinct.rehash apart) represents.built
    refine ⟨restored, result, ?_⟩
    intro configured
    unfold MemoryBackend.loadFromFile
    refine ⟨?_, ?_⟩
    · rw [isRawCacheFile_lines written, if_neg Bool.false_ne_true,
        deserialize_lines lawful written, added]
      rfl
    · rw [isRawCacheFile_rawFile, if_pos rfl,
        deserializeRaw_rawFile accepts storedEntries limited, added]
      rfl

/-! ## Two entries -/

/-- Skip line ends. -/
def skipLines (stream : List Byte) : List Byte :=
  stream.dropWhile fun byte => byte = newline

/-- The objects of the records in a table. -/
def jsonBy (table : List (CacheItemJSON × List Byte)) : JSONCodec where
  encode record :=
    ((table.find? fun row => row.1 = record).map Prod.snd).elim (.error (text "unknown")) .ok
  more stream := !(skipLines stream).isEmpty
  decode stream :=
    (table.find? fun row => row.2.isPrefixOf (skipLines stream)).elim
      (.error (text "unexpected EOF")) fun row =>
        .ok (row.1, (skipLines stream).drop row.2.length)

/-- What tells the rows of a table apart: their records, and the first bytes of their objects. -/
structure Apart (table : List (CacheItemJSON × List Byte)) (count : Nat) : Prop where
  object : ∀ row ∈ table, row.2.head? = some openBrace ∧ (row.2.take count).length = count
  records : (table.map Prod.fst).Nodup
  first : (table.map fun row => row.2.take count).Nodup

theorem jsonBy_lawful {table : List (CacheItemJSON × List Byte)} {count : Nat}
    (apart : Apart table count) :
    (jsonBy table).Lawful fun record => record ∈ table.map Prod.fst where
  object {record} known _ := by
    obtain ⟨row, member, rfl⟩ := List.mem_map.mp known
    obtain ⟨brace, -⟩ := apart.object row member
    obtain ⟨members, object⟩ := List.head?_eq_some_iff.mp brace
    have long : ∀ other ∈ table, count ≤ other.2.length := by
      intro other there
      have length := (apart.object other there).2
      rw [List.length_take] at length
      omega
    have unique : ∀ {p : CacheItemJSON × List Byte → Bool}, p row = true →
        (∀ other ∈ table, p other = true → other = row) → table.find? p = some row := by
      intro p own only
      obtain ⟨other, found⟩ := Option.isSome_iff_exists.mp
        (List.find?_isSome.mpr ⟨row, member, own⟩)
      rw [found, only other (List.mem_of_find?_eq_some found) (List.find?_some found)]
    refine ⟨members, ?_, fun rest => ?_⟩
    · simp only [jsonBy]
      rw [unique (decide_eq_true rfl) fun other there same =>
        List.inj_on_of_nodup_map apart.records there member (of_decide_eq_true same), ← object]
      rfl
    · have skipped : skipLines (openBrace :: (members ++ rest)) = row.2 ++ rest := by
        rw [object]
        rfl
      simp only [jsonBy, skipped]
      rw [unique (List.isPrefixOf_iff_prefix.mpr (List.prefix_append _ _)) ?_]
      · simp only [Option.elim_some, List.drop_left]
      · intro other there starts
        obtain ⟨more, whole⟩ := List.isPrefixOf_iff_prefix.mp starts
        have same := congrArg (List.take count) whole
        rw [List.take_append_of_le_length (long other there),
          List.take_append_of_le_length (long row member)] at same
        exact List.inj_on_of_nodup_map apart.first there member same
  more_object _ := rfl
  more_newline _ := rfl
  decode_newline _ := rfl
  more_nil := rfl

/-- A query for an address with both flags and a client subnet. -/
def subnetQuery : CacheQuery where
  msg :=
    { plainQuery.msg with
      checkingDisabled := true
      extra := [.opt
        { hdr := { owner := .top, rrtype := typeOPT, rrclass := 4096, ttl := OPT.doBit }
          options := [.subnet { family := 1, sourceNetmask := 24, address := [192, 0, 2, 0] }] }] }
  asked := by decide

/-- A minute later, and not to be prefetched. -/
def laterMinutes : CacheMeta where
  timestamp := 1700000060000000000
  expiry := 1700000360000000000
  prefetchEligible := false

def earlierEntry : LruKey × CacheBlob :=
  entryOf subnetQuery fiveMinutes (sampleWire 300)

def laterEntry : LruKey × CacheBlob :=
  entryOf (sampleQuery (text "a.")) laterMinutes (sampleWire 300)

/-- The records of the two entries, and the objects they are written as. -/
def jsonTable : List (CacheItemJSON × List Byte) :=
  [(storedRecord laterEntry.1 laterMinutes (sampleWire 300),
      text "\x7b\"Key\":\x7b\"Question\":\x7b\"Name\":\"a.\",\"Qtype\":1,\"Qclass\":1\x7d," ++
        text "\"Net\":\"\",\"Do\":false,\"CD\":false,\"ECSMask\":0\x7d,\"Answer\":" ++
        text "\x7b\"Timestamp\":\"2023-11-14T22:14:20Z\",\"Expiry\":\"2023-11-14T22:19:20Z\"," ++
        text "\"PrefetchEligible\":false," ++
        text "\"Msg\":\"AACAAAAAAAEAAAABAAABAAEAAAEsAATAAAIBAAApEAAAAAAAAAA=\"\x7d\x7d"),
    (storedRecord earlierEntry.1 fiveMinutes (sampleWire 300),
      text "\x7b\"Key\":\x7b\"Question\":\x7b\"Name\":\"example.com.\",\"Qtype\":1," ++
        text "\"Qclass\":1\x7d,\"Net\":\"192.0.2.0\",\"Do\":true,\"CD\":true,\"ECSMask\":24\x7d," ++
        text "\"Answer\":\x7b\"Timestamp\":\"2023-11-14T22:13:20Z\"," ++
        text "\"Expiry\":\"2023-11-14T22:18:20Z\",\"PrefetchEligible\":true," ++
        text "\"Msg\":\"AACAAAAAAAEAAAABAAABAAEAAAEsAATAAAIBAAApEAAAAAAAAAA=\"\x7d\x7d")]

theorem jsonTable_lawful : (jsonBy jsonTable).Lawful (WrittenFor [laterEntry, earlierEntry]) := by
  have apart : Apart jsonTable 40 := ⟨by decide +kernel, by decide +kernel, by decide +kernel⟩
  have lawful := jsonBy_lawful apart
  refine { lawful with object := fun written plain => lawful.object ?_ plain }
  obtain ⟨entry, member, record⟩ := written
  have known : ∀ entry ∈ [laterEntry, earlierEntry],
      Checked.newCacheItemJSON { hash := 0, blob := entry.2 } ∈
        jsonTable.map (some ∘ Prod.fst) := by
    decide +kernel
  have row := known entry member
  rw [record 0, ← List.map_map] at row
  simpa using row

/-- A cache with two entries is the same again after both formats. -/
theorem two_entries_restored_alike :
    ∃ cache jsonFile rawFile restored,
      Represents lengthHash 0 cache [laterEntry, earlierEntry] ∧
        MemoryBackend.writeToFile (jsonBy jsonTable) { lru := cache, fileFormat := .json } =
          some (.ok jsonFile) ∧
        MemoryBackend.writeToFile (jsonBy jsonTable) { lru := cache, fileFormat := .raw } =
          some (.ok rawFile) ∧
        Represents lengthHash 2 restored [laterEntry, earlierEntry] ∧
        MemoryBackend.loadFromFile (jsonBy jsonTable) (unpackBy sampleTable) lengthHash
            { lru := newLRUCache 2, fileFormat := .raw } jsonFile =
          some (none, { lru := restored, fileFormat := .raw }) ∧
        MemoryBackend.loadFromFile (jsonBy jsonTable) (unpackBy sampleTable) lengthHash
            { lru := newLRUCache 2, fileFormat := .json } rawFile =
          some (none, { lru := restored, fileFormat := .json }) := by
  have packed : packBy sampleTable (sampleAnswer 300) = some (sampleWire 300) := by decide +kernel
  have earlier : StoredFor (packBy sampleTable) earlierEntry := ⟨subnetQuery, _, _, _, rfl, packed,
    newCacheBlobFromWire_entryOf (by decide) (by decide)⟩
  have later : StoredFor (packBy sampleTable) laterEntry := ⟨sampleQuery (text "a."), _, _, _, rfl,
    packed, newCacheBlobFromWire_entryOf (by decide) (by decide)⟩
  have named : ∀ entry ∈ [laterEntry, earlierEntry],
      entry.1.question.name ≠ [] ∧ Ascii entry.1.question.name := by
    decide +kernel
  have apart : ∀ first ∈ [laterEntry, earlierEntry], ∀ second ∈ [laterEntry, earlierEntry],
      lengthHash first.1 = lengthHash second.1 → first.1 = second.1 := by
    decide +kernel
  obtain ⟨cache, two⟩ := represents_two (earlier.storedEntry (by decide)).builtFor
    (later.storedEntry (by decide)).builtFor (by decide +kernel)
  obtain ⟨jsonFile, rawFile, json, raw, loaded⟩ :=
    formats_restore_alike jsonTable_lawful isSome_unpackBy rfl two (by simpa using ⟨later, earlier⟩)
      named (by decide +kernel) apart
  obtain ⟨restored, result, same⟩ := loaded 2 _ (represents_new lengthHash 2)
  exact ⟨cache, jsonFile, rawFile, restored, two, json, raw, result, (same .raw).1, (same .json).2⟩

end RouteDns.Cache
