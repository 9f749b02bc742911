import RouteDns.Cache.Memory
import RouteDns.Program.Reader

/-!
# Reading stored responses

The functions that read a blob index it by fixed offsets and by lengths that stand in the blob.
Here every read is checked: a function returns nothing if it reads outside of the blob.
Within a blob whose lengths fit it, or that a function checks first, this does not happen, and
the function returns what the one without checks does.
-/

namespace RouteDns.Cache

open Dns Cidr Reader

/-- The metadata and the message of a response. -/
structure CacheAnswer extends CacheMeta where
  msg : Message
  deriving DecidableEq

/-- The time of some nanoseconds; zero stands for no time at all. -/
def nanoTime (nanos : Int) : Time :=
  if nanos = 0 then zeroTime else nanos

namespace Checked

/-- The number in some bytes from an offset on. -/
def uint (blob : CacheBlob) (offset width : Nat) : Option Nat := do
  let tail ← sliceFrom blob offset
  let bytes ← slice tail 0 width
  pure (ofBigEndian bytes)

def timestamp (blob : CacheBlob) : Option Time := do
  let nanos ← uint blob 2 8
  pure (int64OfNat nanos)

def expiry (blob : CacheBlob) : Option Time := do
  let nanos ← uint blob 10 8
  pure (int64OfNat nanos)

def version (blob : CacheBlob) : Option Byte :=
  entryAt blob 0

def prefetchEligible (blob : CacheBlob) : Option Bool := do
  let flags ← entryAt blob 1
  pure (decide (flags.val % 2 = 1))

def netLen (blob : CacheBlob) : Option Nat :=
  uint blob 24 2

def nameLen (blob : CacheBlob) : Option Nat :=
  uint blob 26 2

def message (blob : CacheBlob) : Option (List Byte) := do
  let netLen ← netLen blob
  let nameLen ← nameLen blob
  sliceFrom blob (blobHdrLen + netLen + nameLen)

/-- A comparison of the key flags, the mask or the type ends the function, and so does one of
the lengths. -/
def matchesKey (blob : CacheBlob) (key : LruKey) : Option Bool :=
  if blob.length < blobHdrLen then pure false
  else do
    let netLen ← netLen blob
    let nameLen ← nameLen blob
    if blob.length < blobHdrLen + netLen + nameLen then pure false
    else do
      let flags ← entryAt blob 18
      if flags ≠ keyFlags key then pure false
      else do
        let mask ← entryAt blob 23
        if mask.val ≠ key.ecsMask.toNat then pure false
        else if netLen ≠ key.net.length then pure false
        else if nameLen ≠ key.question.name.length then pure false
        else do
          let qtype ← uint blob 19 2
          if qtype ≠ key.question.qtype.toNat then pure false
          else do
            let qclass ← uint blob 21 2
            if qclass ≠ key.question.qclass.toNat then pure false
            else do
              let net ← slice blob blobHdrLen (blobHdrLen + netLen)
              if net ≠ key.net then pure false
              else do
                let name ← slice blob (blobHdrLen + netLen) (blobHdrLen + netLen + nameLen)
                pure (decide (name = key.question.name))

def key (blob : CacheBlob) : Option LruKey := do
  let netLen ← netLen blob
  let nameLen ← nameLen blob
  let name ← slice blob (blobHdrLen + netLen) (blobHdrLen + netLen + nameLen)
  let qtype ← uint blob 19 2
  let qclass ← uint blob 21 2
  let net ← slice blob blobHdrLen (blobHdrLen + netLen)
  let flags ← entryAt blob 18
  let mask ← entryAt blob 23
  pure
    { question := { name := name, qtype := UInt16.ofNat qtype, qclass := UInt16.ofNat qclass }
      net := net
      dnssecOk := flags.val % 2 = 1
      cd := flags.val / 2 % 2 = 1
      ecsMask := UInt8.ofNat mask.val }

end Checked

/-! ## Decoding a record -/

def binaryFormatVersion : Byte := 1

def headerSize : Nat := 10

/-- Why a message cannot be unpacked. -/
def unpackFailed (reason : Text) : Text :=
  text "failed to unpack DNS message: " ++ reason

namespace Checked

variable (unpack : List Byte → Except Text Message)

def tooShort (b : CacheBlob) : Text :=
  text "cache record too short: " ++ decimal b.length ++ text " bytes"

/-- Decode a blob back into the form the cache layer works with. -/
def cacheAnswer (b : CacheBlob) : Option (Except Text CacheAnswer) :=
  if b.length < blobHdrLen then pure (.error (tooShort b))
  else do
    let netLen ← netLen b
    let nameLen ← nameLen b
    if blobHdrLen + netLen + nameLen > b.length then pure (.error (tooShort b))
    else do
      let wire ← message b
      match unpack wire with
      | .error reason => pure (.error (unpackFailed reason))
      | .ok msg => do
        let timestamp ← timestamp b
        let expiry ← expiry b
        let prefetchEligible ← prefetchEligible b
        pure (.ok
          { timestamp := nanoTime timestamp
            expiry := nanoTime expiry
            prefetchEligible := prefetchEligible
            msg := msg })

/-- Decode a record of the format before the layout was shared.  Its timestamp is in seconds,
and it has no expiry. -/
def decodeCacheAnswer (b : List Byte) : Option (Except Text CacheAnswer) :=
  if b.length < headerSize then
    pure (.error (text "binary data too short: " ++ decimal b.length ++ text " bytes"))
  else do
    let version ← entryAt b 0
    if version ≠ binaryFormatVersion then
      pure (.error (text "unsupported binary format version: " ++ decimal version.val))
    else do
      let flags ← entryAt b 1
      let seconds ← slice b 2 10
      let wire ← sliceFrom b headerSize
      match unpack wire with
      | .error reason => pure (.error (unpackFailed reason))
      | .ok msg =>
        pure (.ok
          { timestamp := int64OfNat (ofBigEndian seconds) * 1000000000
            expiry := zeroTime
            prefetchEligible := flags.val % 2 = 1
            msg := msg })

/-- Decode a stored record, whichever format it is in. -/
def decodeRecord (b : List Byte) : Option (Except Text CacheAnswer) :=
  if b.length = 0 then pure (.error (text "empty cache record"))
  else do
    let version ← entryAt b 0
    if version = blobVersion then cacheAnswer unpack b
    else if version = binaryFormatVersion then decodeCacheAnswer unpack b
    else pure (.error (text "unsupported cache record version: " ++ decimal version.val))

end Checked

/-- The fixed part of a blob is complete, and the lengths in it fit the blob. -/
structure Framed (blob : CacheBlob) : Prop where
  header : blobHdrLen ≤ blob.length
  texts : blobHdrLen + blob.netLen + blob.nameLen ≤ blob.length

instance (blob : CacheBlob) : Decidable (Framed blob) :=
  decidable_of_iff (blobHdrLen ≤ blob.length ∧
    blobHdrLen + blob.netLen + blob.nameLen ≤ blob.length)
    ⟨fun fits => ⟨fits.1, fits.2⟩, fun framed => ⟨framed.header, framed.texts⟩⟩

/-! ## Within the fixed part -/

namespace Checked

variable {blob : CacheBlob}

theorem uint_of_le {offset width : Nat} (inside : offset + width ≤ blob.length) :
    uint blob offset width = some (blob.uintAt offset width) := by
  have fits : 0 + width ≤ (blob.drop offset).length := by
    rw [List.length_drop]
    omega
  have read := slice_of_le fits
  rw [Nat.zero_add, List.drop_zero] at read
  simp only [uint, sliceFrom_of_le (Nat.le_of_add_right_le inside), Option.bind_eq_bind,
    Option.bind_some, read]
  rfl

theorem entryAt_of_lt {index : Nat} (inside : index < blob.length) :
    ∃ byte : Byte, entryAt blob index = some byte ∧ byte.val = blob.uintAt index 1 := by
  refine ⟨blob[index], List.getElem?_eq_getElem inside, ?_⟩
  have single : ofBigEndian [blob[index]] = blob[index].val := by simp [ofBigEndian]
  rw [CacheBlob.uintAt, List.drop_eq_getElem_cons inside, List.take_succ_cons, List.take_zero,
    single]

section Header

variable (header : blobHdrLen ≤ blob.length)

include header

theorem timestamp_eq : timestamp blob = some blob.timestamp := by
  simp only [timestamp, uint_of_le (show 2 + 8 ≤ blob.length by unfold blobHdrLen at header; omega)]
  rfl

theorem expiry_eq : expiry blob = some blob.expiry := by
  simp only [expiry, uint_of_le (show 10 + 8 ≤ blob.length by unfold blobHdrLen at header; omega)]
  rfl

theorem netLen_eq : netLen blob = some blob.netLen :=
  uint_of_le (by unfold blobHdrLen at header; omega)

theorem nameLen_eq : nameLen blob = some blob.nameLen :=
  uint_of_le header

theorem prefetchEligible_eq : prefetchEligible blob = some blob.prefetchEligible := by
  obtain ⟨flags, read, value⟩ :=
    entryAt_of_lt (show 1 < blob.length by unfold blobHdrLen at header; omega)
  simp only [prefetchEligible, read, Option.bind_eq_bind, Option.bind_some, value]
  rfl

end Header

theorem slice_texts (framed : Framed blob) :
    slice blob blobHdrLen (blobHdrLen + blob.netLen) =
        some ((blob.drop blobHdrLen).take blob.netLen) ∧
      slice blob (blobHdrLen + blob.netLen) (blobHdrLen + blob.netLen + blob.nameLen) =
        some ((blob.drop (blobHdrLen + blob.netLen)).take blob.nameLen) := by
  have texts := framed.texts
  exact ⟨slice_of_le (by omega), slice_of_le texts⟩

theorem message_eq (framed : Framed blob) : message blob = some blob.message := by
  simp only [message, netLen_eq framed.header, nameLen_eq framed.header, Option.bind_eq_bind,
    Option.bind_some, sliceFrom_of_le framed.texts]
  rfl

theorem key_eq (framed : Framed blob) : key blob = some blob.key := by
  have header := framed.header
  unfold blobHdrLen at header
  obtain ⟨flags, readFlags, flagsValue⟩ := entryAt_of_lt (show 18 < blob.length by omega)
  obtain ⟨mask, readMask, maskValue⟩ := entryAt_of_lt (show 23 < blob.length by omega)
  simp only [key, netLen_eq framed.header, nameLen_eq framed.header, slice_texts framed,
    uint_of_le (show 19 + 2 ≤ blob.length by omega),
    uint_of_le (show 21 + 2 ≤ blob.length by omega),
    readFlags, readMask, Option.bind_eq_bind, Option.bind_some, flagsValue, maskValue]
  rfl

/-- A key is compared with any blob, however short it is. -/
theorem matchesKey_eq (blob : CacheBlob) (key : LruKey) :
    matchesKey blob key = some (blob.matchesKey key) := by
  by_cases short : blob.length < blobHdrLen
  · simp [matchesKey, CacheBlob.matchesKey, short]
  have header := Nat.not_lt.mp short
  by_cases cut : blob.length < blobHdrLen + blob.netLen + blob.nameLen
  · simp [matchesKey, CacheBlob.matchesKey, short, cut, netLen_eq header, nameLen_eq header]
  have framed : Framed blob := ⟨header, Nat.not_lt.mp cut⟩
  unfold blobHdrLen at header
  obtain ⟨flags, readFlags, flagsValue⟩ := entryAt_of_lt (show 18 < blob.length by omega)
  obtain ⟨mask, readMask, maskValue⟩ := entryAt_of_lt (show 23 < blob.length by omega)
  have sameFlags : (flags = keyFlags key) ↔ blob.uintAt 18 1 = (keyFlags key).val := by
    rw [← flagsValue, Fin.ext_iff]
  simp only [matchesKey, CacheBlob.matchesKey, if_neg short, if_neg cut, netLen_eq framed.header,
    nameLen_eq framed.header, slice_texts framed,
    uint_of_le (show 19 + 2 ≤ blob.length by omega),
    uint_of_le (show 21 + 2 ≤ blob.length by omega),
    readFlags, readMask, Option.bind_eq_bind, Option.bind_some, maskValue, ne_eq, sameFlags,
    decide_eq_false cut, Bool.false_or]
  split_ifs <;> simp_all

/-! ## Decoding any bytes -/

variable (unpack : List Byte → Except Text Message)

theorem isSome_cacheAnswer (b : CacheBlob) : (cacheAnswer unpack b).isSome = true := by
  by_cases short : b.length < blobHdrLen
  · simp [cacheAnswer, short]
  have header := Nat.not_lt.mp short
  by_cases cut : blobHdrLen + b.netLen + b.nameLen > b.length
  · simp [cacheAnswer, short, netLen_eq header, nameLen_eq header, cut]
  have framed : Framed b := ⟨header, Nat.not_lt.mp cut⟩
  simp only [cacheAnswer, if_neg short, netLen_eq header, nameLen_eq header, if_neg cut,
    message_eq framed, timestamp_eq header, expiry_eq header, prefetchEligible_eq header,
    Option.bind_eq_bind, Option.bind_some]
  cases unpack b.message with
  | error reason => rfl
  | ok msg => rfl

theorem isSome_decodeCacheAnswer (b : List Byte) : (decodeCacheAnswer unpack b).isSome = true := by
  by_cases short : b.length < headerSize
  · simp [decodeCacheAnswer, short]
  have header := Nat.not_lt.mp short
  have seconds : slice b 2 (2 + 8) = _ := slice_of_le header
  unfold headerSize at header
  obtain ⟨version, readVersion, _⟩ := entryAt_of_lt (show 0 < b.length by omega)
  obtain ⟨flags, readFlags, _⟩ := entryAt_of_lt (show 1 < b.length by omega)
  simp only [decodeCacheAnswer, if_neg short, readVersion, readFlags, seconds,
    sliceFrom_of_le (Nat.not_lt.mp short), Option.bind_eq_bind, Option.bind_some]
  split
  · rfl
  · cases unpack (b.drop headerSize) with
    | error reason => rfl
    | ok msg => rfl

/-- No record makes the decoder read outside of it. -/
theorem isSome_decodeRecord (b : List Byte) : (decodeRecord unpack b).isSome = true := by
  by_cases empty : b.length = 0
  · simp [decodeRecord, empty]
  obtain ⟨version, readVersion, _⟩ := entryAt_of_lt (Nat.pos_of_ne_zero empty)
  simp only [decodeRecord, if_neg empty, readVersion, Option.bind_eq_bind, Option.bind_some]
  split_ifs
  · exact isSome_cacheAnswer unpack b
  · exact isSome_decodeCacheAnswer unpack b
  · rfl

end Checked

end RouteDns.Cache
