import Mathlib.Data.List.Induction
import RouteDns.Cidr.Text
import RouteDns.Dns.Message

/-!
# Cache keys and stored responses

A cached response is one array of bytes: metadata, the key it was stored under and the
message in wire format.  The array is written once; keys and metadata are read off fixed
offsets, so that a lookup compares its key with the stored one without decoding it.
-/

namespace RouteDns.Cache

open Dns Cidr

/-- What a response is stored under. -/
structure LruKey where
  question : AskedQuestion
  net : Text
  dnssecOk : Bool
  cd : Bool
  ecsMask : UInt8
  deriving DecidableEq

/-- A query the cache can look up: it has a question. -/
structure CacheQuery where
  msg : Message
  asked : msg.question ≠ []

/-- The question of a query. -/
def CacheQuery.question (q : CacheQuery) : AskedQuestion :=
  q.msg.question.head q.asked

/-- Lower-case a name.  Names are printable text, so only ASCII letters change. -/
def toLower (name : Name) : Name :=
  name.map lowerByte

/-- The key of a query; the case of the name does not matter and the last client subnet
option counts. -/
def lruKeyFromQuery (q : CacheQuery) : LruKey :=
  let key : LruKey :=
    { question := { q.question with name := toLower q.question.name }
      net := []
      dnssecOk := false
      cd := q.msg.checkingDisabled
      ecsMask := 0 }
  match q.msg.isEdns0 with
  | none => key
  | some edns0 =>
    edns0.options.foldl (fun key option =>
      match option with
      | .subnet subnet =>
        { key with net := ipString subnet.address, ecsMask := subnet.sourceNetmask }
      | _ => key) { key with dnssecOk := edns0.dnssecOk }

/-! ## Big-endian numbers -/

/-- The last `width` bytes of a number, most significant first. -/
def bigEndian : (width : Nat) → Nat → List Byte
  | 0, _ => []
  | width + 1, value => bigEndian width (value / 256) ++ [Fin.ofNat 256 value]

def ofBigEndian (bytes : List Byte) : Nat :=
  bytes.foldl (fun value byte => value * 256 + byte.val) 0

@[simp]
theorem length_bigEndian (width value : Nat) : (bigEndian width value).length = width := by
  induction width generalizing value with
  | zero => rfl
  | succ width ih => simp [bigEndian, ih]

theorem ofBigEndian_bigEndian (width value : Nat) :
    ofBigEndian (bigEndian width value) = value % 256 ^ width := by
  induction width generalizing value with
  | zero => simp [bigEndian, ofBigEndian, Nat.mod_one]
  | succ width ih =>
    simp only [ofBigEndian] at ih
    simp only [bigEndian, ofBigEndian, List.foldl_append, ih, List.foldl_cons, List.foldl_nil,
      Fin.ofNat]
    rw [Nat.pow_succ, Nat.mul_comm (256 ^ width), Nat.mod_mul]
    omega

theorem ofBigEndian_concat (bytes : List Byte) (byte : Byte) :
    ofBigEndian (bytes ++ [byte]) = ofBigEndian bytes * 256 + byte.val := by
  simp [ofBigEndian]

theorem bigEndian_ofBigEndian (bytes : List Byte) :
    bigEndian bytes.length (ofBigEndian bytes) = bytes := by
  induction bytes using List.reverseRecOn with
  | nil => rfl
  | append_singleton bytes byte ih =>
    rw [List.length_append, List.length_singleton, bigEndian, ofBigEndian_concat]
    have quotient : (ofBigEndian bytes * 256 + byte.val) / 256 = ofBigEndian bytes := by
      omega
    rw [quotient, ih]
    congr 2
    apply Fin.ext
    simp only [Fin.ofNat]
    omega

theorem ofBigEndian_lt (bytes : List Byte) : ofBigEndian bytes < 256 ^ bytes.length := by
  induction bytes using List.reverseRecOn with
  | nil => decide
  | append_singleton bytes byte ih =>
    rw [ofBigEndian_concat, List.length_append, List.length_singleton, Nat.pow_succ]
    omega

/-- Bytes of one length are told apart by their number. -/
theorem ofBigEndian_inj {first second : List Byte} (sameLength : first.length = second.length)
    (same : ofBigEndian first = ofBigEndian second) : first = second := by
  rw [← bigEndian_ofBigEndian first, ← bigEndian_ofBigEndian second, same, sameLength]

/-! ## The layout -/

abbrev CacheBlob := List Byte

/-- The metadata of a cached response. -/
structure CacheMeta where
  timestamp : Time
  expiry : Time
  prefetchEligible : Bool
  deriving DecidableEq

def blobVersion : Byte := 2

def blobHdrLen : Nat := 28

/-- The first instant of the year 1, which stands for no time at all. -/
def zeroTime : Time := -62135596800000000000

/-- The nanoseconds of a time as a 64-bit integer. -/
def unixNano (time : Time) : Time :=
  if time = zeroTime then 0 else Int.bmod time 18446744073709551616

/-- The two's complement of the nanoseconds. -/
def uint64OfTime (time : Time) : Nat :=
  (unixNano time % 18446744073709551616).toNat

def int64OfNat (value : Nat) : Time :=
  Int.bmod value 18446744073709551616

theorem uint64OfTime_lt (time : Time) : uint64OfTime time < 256 ^ 8 := by
  unfold uint64OfTime
  omega

theorem int64OfNat_uint64OfTime (time : Time) :
    int64OfNat (uint64OfTime time) = unixNano time := by
  unfold int64OfNat uint64OfTime
  rw [Int.toNat_of_nonneg (Int.emod_nonneg _ (by decide))]
  refine (Int.emod_bmod ..).trans ?_
  unfold unixNano
  split
  · rfl
  · exact Int.bmod_bmod

def keyFlags (key : LruKey) : Byte :=
  (if key.dnssecOk then 1 else 0) + (if key.cd then 2 else 0)

/-- The flags of a key are read back from its bits. -/
theorem keyFlags_bits (key : LruKey) :
    decide ((keyFlags key).val % 2 = 1) = key.dnssecOk ∧
      decide ((keyFlags key).val / 2 % 2 = 1) = key.cd := by
  have bits : ∀ first second : Bool,
      decide (((if first then 1 else 0) + (if second then 2 else 0) : Byte).val % 2 = 1) = first ∧
        decide (((if first then 1 else 0) + (if second then 2 else 0) : Byte).val / 2 % 2 = 1) =
          second := by
    decide
  exact bits key.dnssecOk key.cd

/-- The fields of the fixed part of the stored form, in order. -/
def blobFields (key : LruKey) (meta_ : CacheMeta) : List (List Byte) :=
  [[blobVersion],
    [if meta_.prefetchEligible then 1 else 0],
    bigEndian 8 (uint64OfTime meta_.timestamp),
    bigEndian 8 (uint64OfTime meta_.expiry),
    [keyFlags key],
    bigEndian 2 key.question.qtype.toNat,
    bigEndian 2 key.question.qclass.toNat,
    [Fin.ofNat 256 key.ecsMask.toNat],
    bigEndian 2 key.net.length,
    bigEndian 2 key.question.name.length]

/-- The stored form of a response in wire format. -/
def newCacheBlobFromWire (key : LruKey) (meta_ : CacheMeta) (wire : List Byte) :
    Except Text CacheBlob :=
  if key.question.name.length > 65535 then
    .error (text "question name too long to cache: " ++
      text (Nat.repr key.question.name.length) ++ text " bytes")
  else if key.net.length > 65535 then
    .error (text "ECS address too long to cache: " ++ text (Nat.repr key.net.length) ++
      text " bytes")
  else
    .ok ((blobFields key meta_).flatten ++ (key.net ++ (key.question.name ++ wire)))

namespace CacheBlob

/-- The number in some bytes of a blob. -/
def uintAt (blob : CacheBlob) (offset width : Nat) : Nat :=
  ofBigEndian ((blob.drop offset).take width)

theorem uintAt_lt (blob : CacheBlob) (offset width : Nat) :
    uintAt blob offset width < 256 ^ width :=
  Nat.lt_of_lt_of_le (ofBigEndian_lt _)
    (Nat.pow_le_pow_right (by decide) (List.length_take_le _ _))

def timestamp (blob : CacheBlob) : Time :=
  int64OfNat (uintAt blob 2 8)

def expiry (blob : CacheBlob) : Time :=
  int64OfNat (uintAt blob 10 8)

def prefetchEligible (blob : CacheBlob) : Bool :=
  uintAt blob 1 1 % 2 = 1

def netLen (blob : CacheBlob) : Nat :=
  uintAt blob 24 2

def nameLen (blob : CacheBlob) : Nat :=
  uintAt blob 26 2

def version (blob : CacheBlob) : Nat :=
  uintAt blob 0 1

/-- The bytes that encode the key. -/
def keyRegion (blob : CacheBlob) : List Byte :=
  (blob.take (blobHdrLen + netLen blob + nameLen blob)).drop 18

/-- The message in wire format. -/
def message (blob : CacheBlob) : List Byte :=
  blob.drop (blobHdrLen + netLen blob + nameLen blob)

/-- The blob was stored under a key. -/
def matchesKey (blob : CacheBlob) (key : LruKey) : Bool :=
  if blob.length < blobHdrLen then
    false
  else if blob.length < blobHdrLen + netLen blob + nameLen blob ||
      uintAt blob 18 1 != (keyFlags key).val ||
      uintAt blob 23 1 != key.ecsMask.toNat ||
      netLen blob != key.net.length ||
      nameLen blob != key.question.name.length ||
      uintAt blob 19 2 != key.question.qtype.toNat ||
      uintAt blob 21 2 != key.question.qclass.toNat then
    false
  else
    (blob.drop blobHdrLen).take (netLen blob) = key.net &&
      (blob.drop (blobHdrLen + netLen blob)).take (nameLen blob) = key.question.name

/-- The key a blob was stored under. -/
def key (blob : CacheBlob) : LruKey where
  question :=
    { name := (blob.drop (blobHdrLen + netLen blob)).take (nameLen blob)
      qtype := UInt16.ofNat (uintAt blob 19 2)
      qclass := UInt16.ofNat (uintAt blob 21 2) }
  net := (blob.drop blobHdrLen).take (netLen blob)
  dnssecOk := uintAt blob 18 1 % 2 = 1
  cd := uintAt blob 18 1 / 2 % 2 = 1
  ecsMask := UInt8.ofNat (uintAt blob 23 1)

end CacheBlob

/-- A blob matches no other key than the one it decodes to. -/
theorem CacheBlob.eq_key_of_matchesKey {blob : CacheBlob} {other : LruKey}
    (matched : blob.matchesKey other = true) : other = blob.key := by
  unfold CacheBlob.matchesKey at matched
  split at matched
  · cases matched
  · split at matched
    · cases matched
    · rename_i same
      simp only [Bool.or_eq_true, bne_iff_ne, decide_eq_true_eq, not_or, not_not] at same
      simp only [Bool.and_eq_true, decide_eq_true_eq] at matched
      obtain ⟨⟨⟨⟨⟨⟨_, sameFlags⟩, sameMask⟩, _⟩, _⟩, sameType⟩, sameClass⟩ := same
      obtain ⟨sameNet, sameName⟩ := matched
      obtain ⟨sameDo, sameCD⟩ := keyFlags_bits other
      simp only [CacheBlob.key, sameFlags, sameMask, sameType, sameClass, sameNet, sameName,
        UInt16.ofNat_toNat, UInt8.ofNat_toNat, sameDo, sameCD]

/-! ## Reading back what was written -/

/-- A blob that was built for a key. -/
def BuiltFor (key : LruKey) (blob : CacheBlob) : Prop :=
  ∃ meta_ wire, newCacheBlobFromWire key meta_ wire = .ok blob

/-- A field is read back from where the fields before it end. -/
theorem uintAt_field (fields : List (List Byte)) (rest : List Byte) (index : Fin fields.length) :
    CacheBlob.uintAt (fields.flatten ++ rest) (fields.take index).flatten.length
      (fields.get index).length = ofBigEndian (fields.get index) := by
  have split : fields.flatten ++ rest = (fields.take index).flatten ++
      (fields.get index ++ ((fields.drop (index + 1)).flatten ++ rest)) := by
    calc fields.flatten ++ rest
        = (fields.take index ++ fields.drop index).flatten ++ rest := by rw [List.take_append_drop]
      _ = _ := by
        rw [List.drop_eq_getElem_cons index.isLt, List.flatten_append, List.flatten_cons,
          List.append_assoc, List.append_assoc]
        rfl
  rw [CacheBlob.uintAt, split, List.drop_left, List.take_left]

section Built

variable {key : LruKey} {meta_ : CacheMeta} {wire : List Byte} {blob : CacheBlob}
  (built : newCacheBlobFromWire key meta_ wire = .ok blob)

include built

theorem built_eq : key.question.name.length ≤ 65535 ∧ key.net.length ≤ 65535 ∧
    blob = (blobFields key meta_).flatten ++ (key.net ++ (key.question.name ++ wire)) := by
  unfold newCacheBlobFromWire at built
  split at built
  · cases built
  · split at built
    · cases built
    · cases built
      exact ⟨by omega, by omega, rfl⟩

/-- The number in a field of a blob. -/
theorem uintAt_built (index : Fin 10) :
    CacheBlob.uintAt blob ((blobFields key meta_).take index).flatten.length
      ((blobFields key meta_).get index).length =
        ofBigEndian ((blobFields key meta_).get index) := by
  obtain ⟨_, _, rfl⟩ := built_eq built
  exact uintAt_field (blobFields key meta_) _ index

/-- A number that fits into its field is read back. -/
theorem uintAt_number (index : Fin 10) {offset width value : Nat}
    (before : ((blobFields key meta_).take index).flatten.length = offset)
    (field : (blobFields key meta_).get index = bigEndian width value)
    (fits : value < 256 ^ width) :
    CacheBlob.uintAt blob offset width = value := by
  have read := uintAt_built built index
  rwa [before, field, length_bigEndian, ofBigEndian_bigEndian, Nat.mod_eq_of_lt fits] at read

theorem timestamp_eq : CacheBlob.timestamp blob = unixNano meta_.timestamp := by
  rw [CacheBlob.timestamp, uintAt_number built 2 (by simp [blobFields]) rfl (uint64OfTime_lt _),
    int64OfNat_uint64OfTime]

theorem expiry_eq : CacheBlob.expiry blob = unixNano meta_.expiry := by
  rw [CacheBlob.expiry, uintAt_number built 3 (by simp [blobFields]) rfl (uint64OfTime_lt _),
    int64OfNat_uint64OfTime]

theorem prefetchEligible_eq :
    CacheBlob.prefetchEligible blob = meta_.prefetchEligible := by
  have flag := uintAt_built built 1
  have bits : ∀ flag : Bool,
      decide (ofBigEndian [if flag then (1 : Byte) else 0] % 2 = 1) = flag := by decide
  rw [CacheBlob.prefetchEligible]
  exact (congrArg (fun flag : Nat => decide (flag % 2 = 1)) flag).trans (bits _)

theorem netLen_eq : CacheBlob.netLen blob = key.net.length := by
  obtain ⟨_, short, _⟩ := built_eq built
  exact uintAt_number built 8 (by simp [blobFields]) rfl (by omega)

theorem nameLen_eq : CacheBlob.nameLen blob = key.question.name.length := by
  obtain ⟨short, _, _⟩ := built_eq built
  exact uintAt_number built 9 (by simp [blobFields]) rfl (by omega)

/-- Behind the fixed part come the texts of the key and the message. -/
theorem drop_hdrLen : blob.drop blobHdrLen = key.net ++ (key.question.name ++ wire) := by
  obtain ⟨_, _, rfl⟩ := built_eq built
  have hdrLen : blobHdrLen = (blobFields key meta_).flatten.length := by
    simp [blobHdrLen, blobFields]
  rw [hdrLen, List.drop_left]

theorem message_eq : CacheBlob.message blob = wire := by
  rw [CacheBlob.message, netLen_eq built, nameLen_eq built, Nat.add_assoc, ← List.drop_drop,
    drop_hdrLen built, ← List.drop_drop, List.drop_left, List.drop_left]

theorem version_eq : CacheBlob.version blob = blobVersion.val :=
  uintAt_built built 0

/-- A blob is as long as its parts. -/
theorem length_eq : blob.length =
    blobHdrLen + key.net.length + key.question.name.length + wire.length := by
  obtain ⟨_, _, rfl⟩ := built_eq built
  simp [blobHdrLen, blobFields]
  omega

theorem net_eq : (blob.drop blobHdrLen).take key.net.length = key.net := by
  rw [drop_hdrLen built, List.take_left]

theorem name_eq : (blob.drop (blobHdrLen + key.net.length)).take key.question.name.length =
    key.question.name := by
  rw [← List.drop_drop, drop_hdrLen built, List.drop_left, List.take_left]

theorem flags_eq : CacheBlob.uintAt blob 18 1 = (keyFlags key).val := by
  have flags := uintAt_built built 4
  simpa [blobFields, ofBigEndian] using flags

theorem qtype_eq : CacheBlob.uintAt blob 19 2 = key.question.qtype.toNat :=
  uintAt_number built 5 (by simp [blobFields]) rfl key.question.qtype.toNat_lt

theorem qclass_eq : CacheBlob.uintAt blob 21 2 = key.question.qclass.toNat :=
  uintAt_number built 6 (by simp [blobFields]) rfl key.question.qclass.toNat_lt

theorem mask_eq : CacheBlob.uintAt blob 23 1 = key.ecsMask.toNat := by
  have mask := uintAt_built built 7
  simpa [blobFields, ofBigEndian] using mask

/-- The key a blob was built for is read back. -/
theorem key_eq : CacheBlob.key blob = key := by
  obtain ⟨sameDo, sameCD⟩ := keyFlags_bits key
  simp only [CacheBlob.key, netLen_eq built, nameLen_eq built, net_eq built, name_eq built,
    flags_eq built, qtype_eq built, qclass_eq built, mask_eq built, UInt16.ofNat_toNat,
    UInt8.ofNat_toNat, sameDo, sameCD]

/-- A blob matches the key it was built for and no other. -/
theorem matchesKey_iff (other : LruKey) : CacheBlob.matchesKey blob other = true ↔ other = key := by
  constructor
  · intro matched
    rw [← key_eq built]
    exact CacheBlob.eq_key_of_matchesKey matched
  · rintro rfl
    have long := length_eq built
    have hdr : ¬ blob.length < blobHdrLen := by omega
    have fits : ¬ blob.length < blobHdrLen + other.net.length + other.question.name.length := by
      omega
    simp [CacheBlob.matchesKey, netLen_eq built, nameLen_eq built, net_eq built, name_eq built,
      flags_eq built, qtype_eq built, qclass_eq built, mask_eq built, hdr, fits]

/-- The region of the key holds the last six fields and the texts of the key; the metadata and
the message are outside. -/
theorem keyRegion_eq : CacheBlob.keyRegion blob =
    ((blobFields key meta_).drop 4).flatten ++ (key.net ++ key.question.name) := by
  rw [CacheBlob.keyRegion, netLen_eq built, nameLen_eq built]
  obtain ⟨_, _, rfl⟩ := built_eq built
  have fields : (blobFields key meta_).flatten =
      ((blobFields key meta_).take 4).flatten ++ ((blobFields key meta_).drop 4).flatten := rfl
  have before : ((blobFields key meta_).take 4).flatten.length = 18 := by
    simp [blobFields]
  have framed : blobHdrLen + key.net.length + key.question.name.length =
      ((blobFields key meta_).flatten ++ (key.net ++ key.question.name)).length := by
    simp [blobHdrLen, blobFields]
    omega
  rw [← List.append_assoc key.net, ← List.append_assoc, framed, List.take_left, fields,
    List.append_assoc, List.drop_left' before]

end Built

/-- Equal regions come from equal keys: either region would complete the same blob. -/
theorem keyRegion_injective {first second : LruKey} {firstMeta secondMeta : CacheMeta}
    {firstWire secondWire : List Byte} {firstBlob secondBlob : CacheBlob}
    (firstBuilt : newCacheBlobFromWire first firstMeta firstWire = .ok firstBlob)
    (secondBuilt : newCacheBlobFromWire second secondMeta secondWire = .ok secondBlob)
    (same : firstBlob.keyRegion = secondBlob.keyRegion) : first = second := by
  rw [keyRegion_eq firstBuilt, keyRegion_eq secondBuilt] at same
  obtain ⟨shortName, shortNet, _⟩ := built_eq firstBuilt
  obtain ⟨shortName', shortNet', _⟩ := built_eq secondBuilt
  have build {key : LruKey} (name : key.question.name.length ≤ 65535)
      (net : key.net.length ≤ 65535) : newCacheBlobFromWire key firstMeta [] =
        .ok (((blobFields key firstMeta).take 4).flatten ++
          (((blobFields key firstMeta).drop 4).flatten ++ (key.net ++ key.question.name))) := by
    rw [newCacheBlobFromWire, if_neg (by omega), if_neg (by omega), List.append_nil]
    rfl
  have rebuilt := build shortName' shortNet'
  rw [← key_eq (build shortName shortNet), ← key_eq rebuilt]
  exact congrArg (fun region =>
    CacheBlob.key (((blobFields first firstMeta).take 4).flatten ++ region)) same

/-- A time that 64-bit nanoseconds can hold is kept as it is. -/
theorem unixNano_of_range {time : Time} (low : -9223372036854775808 ≤ time)
    (high : time < 9223372036854775808) : unixNano time = time := by
  have other : time ≠ zeroTime := by
    unfold zeroTime
    unfold Time at *
    omega
  unfold unixNano
  rw [if_neg other]
  unfold Time at *
  exact Int.bmod_eq_of_le (by omega) (by omega)

/-- A stored response decodes to what it was built from; it matches its own key only, and its
region of the key is a faithful image of the key. -/
theorem newCacheBlobFromWire_faithful (key : LruKey) (meta_ : CacheMeta) (wire : List Byte)
    (name : key.question.name.length ≤ 65535) (net : key.net.length ≤ 65535)
    (timestamp : -9223372036854775808 ≤ meta_.timestamp ∧ meta_.timestamp < 9223372036854775808)
    (expiry : -9223372036854775808 ≤ meta_.expiry ∧ meta_.expiry < 9223372036854775808) :
    ∃ blob, newCacheBlobFromWire key meta_ wire = .ok blob ∧
      blob.key = key ∧ blob.timestamp = meta_.timestamp ∧ blob.expiry = meta_.expiry ∧
      blob.prefetchEligible = meta_.prefetchEligible ∧ blob.message = wire ∧
      (∀ other, blob.matchesKey other = true ↔ other = key) ∧
      ∀ other otherMeta otherWire otherBlob,
        newCacheBlobFromWire other otherMeta otherWire = .ok otherBlob →
          (blob.keyRegion = otherBlob.keyRegion ↔ key = other) := by
  have built : newCacheBlobFromWire key meta_ wire =
      .ok ((blobFields key meta_).flatten ++ (key.net ++ (key.question.name ++ wire))) := by
    rw [newCacheBlobFromWire, if_neg (by omega), if_neg (by omega)]
  refine ⟨_, built, key_eq built, ?_, ?_, prefetchEligible_eq built, message_eq built,
    matchesKey_iff built, ?_⟩
  · rw [timestamp_eq built, unixNano_of_range timestamp.1 timestamp.2]
  · rw [expiry_eq built, unixNano_of_range expiry.1 expiry.2]
  · intro other otherMeta otherWire otherBlob otherBuilt
    refine ⟨keyRegion_injective built otherBuilt, ?_⟩
    rintro rfl
    rw [keyRegion_eq built, keyRegion_eq otherBuilt]
    rfl

/-- The key of a query with a client subnet and both flags. -/
def subnetKey : LruKey where
  question := { name := text "www.example.com.", qtype := 28, qclass := classINET }
  net := text "192.0.2.0"
  dnssecOk := true
  cd := true
  ecsMask := 24

/-- Five minutes in November 2023. -/
def fiveMinutes : CacheMeta where
  timestamp := 1700000000000000000
  expiry := 1700000300000000000
  prefetchEligible := true

/-- A response that consists of its header. -/
theorem newCacheBlobFromWire_faithful_subnet :
    ∃ blob, newCacheBlobFromWire subnetKey fiveMinutes [18, 52, 129, 144, 0, 0, 0, 0, 0, 0, 0, 0] =
        .ok blob ∧
      blob.key = subnetKey ∧ blob.timestamp = 1700000000000000000 ∧
      blob.expiry = 1700000300000000000 ∧ blob.prefetchEligible = true ∧
      blob.message = [18, 52, 129, 144, 0, 0, 0, 0, 0, 0, 0, 0] ∧
      blob.matchesKey { subnetKey with ecsMask := 16 } = false := by
  obtain ⟨blob, built, key, timestamp, expiry, eligible, message, matches_, _⟩ :=
    newCacheBlobFromWire_faithful subnetKey fiveMinutes [18, 52, 129, 144, 0, 0, 0, 0, 0, 0, 0, 0]
      (by decide) (by decide) (by decide) (by decide)
  refine ⟨blob, built, key, timestamp, expiry, eligible, message, ?_⟩
  rw [Bool.eq_false_iff, ne_eq, matches_]
  decide

end RouteDns.Cache
