import RouteDns.Cache.LruRun

/-!
# The memory cache

`storeInCache` gives a response an expiry and stores it; a lookup serves it until then,
with the time it spent in the cache taken off the TTL of every record.  Responses are
stored in wire format; packing and unpacking belong to the DNS library.

The steps on the cache act on a list ordered by recency.
-/

namespace RouteDns.Cache

open Dns LruCache

/-- The instants whose nanoseconds since the epoch fit into 64 bits, as the clock of the
cache shows them. -/
structure Instant where
  time : Time
  fits : -9223372036854775808 ≤ time ∧ time < 9223372036854775808

/-- The wire format of messages. -/
structure Codec where
  pack : Message → Option (List Byte)
  unpack : List Byte → Option Message
  unpack_pack : ∀ {msg wire}, pack msg = some wire → unpack wire = some msg

structure CacheOptions where
  negativeTTL : UInt32
  rcodeMaxTTL : Nat → Option UInt32
  shuffleAnswerFunc : Option (Message → Message)
  hardenBelowNXDOMAIN : Bool
  prefetchEligible : UInt32

/-- The TTL of negative responses, with its default. -/
def CacheOptions.negative (opt : CacheOptions) : UInt32 :=
  if opt.negativeTTL = 0 then 60 else opt.negativeTTL

/-- The time some seconds later. -/
def secondsAfter (now : Time) (ttl : UInt32) : Time :=
  now + ttl.toNat * 1000000000

/-! ## Storing -/

/-- The records of a message whose TTL counts. -/
def agingRecords (msg : Message) : List Record :=
  (msg.answer ++ msg.ns ++ msg.extra).filter fun record => record.asOPT?.isNone

/-- The lowest TTL in a message and whether one was found. -/
def minTTL (answer : Message) : UInt32 × Bool :=
  (agingRecords answer).foldl (fun (min, found) record =>
    if record.header.ttl < min then (record.header.ttl, true) else (min, found))
    (4294967295, false)

/-- The expiry by the response code, before the configured limit. -/
def rcodeExpiry (opt : CacheOptions) (answer : Message) (now : Time) : Option (Time × Bool) :=
  let (min, found) := minTTL answer
  if answer.rcode = rcodeSuccess ∨ answer.rcode = rcodeNameError ∨ answer.rcode = rcodeRefused ∨
      answer.rcode = rcodeNotImplemented ∨ answer.rcode = rcodeFormatError then
    if found then some (secondsAfter now min, opt.prefetchEligible < min)
    else some (secondsAfter now opt.negative, false)
  else if answer.rcode = rcodeServerFailure then
    some (secondsAfter now (if opt.negative < 300 then opt.negative else 300), false)
  else
    none

/-- The metadata with which `storeInCache` stores a response, if it does. -/
def cacheMeta (opt : CacheOptions) (answer : Message) (now : Time) : Option CacheMeta := do
  let (expiry, prefetchEligible) ← rcodeExpiry opt answer now
  let limited := match opt.rcodeMaxTTL answer.rcode with
    | none => expiry
    | some limit => if secondsAfter now limit < expiry then secondsAfter now limit else expiry
  pure { timestamp := now, expiry := limited, prefetchEligible := prefetchEligible }

/-- The stored form of a response to a query, if it is stored and can be encoded. -/
def encoded (codec : Codec) (opt : CacheOptions) (q : CacheQuery) (answer : Message)
    (now : Time) : Option CacheBlob := do
  let meta_ ← cacheMeta opt answer now
  let wire ← codec.pack answer
  (newCacheBlobFromWire (lruKeyFromQuery q) meta_ wire).toOption

/-! ## Serving -/

/-- The whole seconds a response has been in the cache. -/
def cacheAge (now stored : Time) : UInt32 :=
  if now ≤ stored then 0
  else
    let elapsed := (Int.bmod (now - stored) 18446744073709551616).tdiv 1000000000
    UInt32.ofNat (elapsed % 4294967296).toNat

/-- Take the age off the TTL of a record; a record that has aged out fails. -/
def ageRecord (age : UInt32) : Record → Option Record
  | .opt record => some (.opt record)
  | .rr record =>
    if record.header.ttl ≤ age then none
    else some (.rr (record.withTtl (record.header.ttl - age)))

/-- Prepare a decoded response to be served to a query. -/
def ageCachedAnswer (answer q : Message) (age : UInt32) : Option Message := do
  let aged ← answer.answer.mapM (ageRecord age)
  let ns ← answer.ns.mapM (ageRecord age)
  let extra ← answer.extra.mapM (ageRecord age)
  pure { answer with id := q.id, question := q.question, answer := aged, ns := ns, extra := extra }

/-- What a stored response is served as, with its prefetch flag. -/
def served (codec : Codec) (blob : CacheBlob) (q : CacheQuery) (now : Time) :
    Option (Message × Bool) :=
  if blob.expiry < now then none
  else do
    let answer ← codec.unpack blob.message
    let aged ← ageCachedAnswer answer q.msg (cacheAge now blob.timestamp)
    pure (aged, blob.prefetchEligible)

/-! ## The steps -/

/-- The steps on a memory cache. -/
inductive Step where
  | store (q : CacheQuery) (answer : Message)
  | lookup (q : CacheQuery)
  | evict (queries : List CacheQuery)
  | flush
  | collect

variable (hash : LruKey → UInt64) (codec : Codec) (opt : CacheOptions)

namespace Memory

def store (cache : LruCache) (q : CacheQuery) (answer : Message) (now : Time) :
    Option LruCache :=
  match encoded codec opt q answer now with
  | none => pure cache
  | some blob => cache.addKey hash (lruKeyFromQuery q) blob

def evict : LruCache → List CacheQuery → Option LruCache
  | cache, [] => pure cache
  | cache, q :: rest => do
    let cache ← cache.delete hash q
    evict cache rest

def lookup (cache : LruCache) (q : CacheQuery) (now : Time) :
    Option (LruCache × Option (Message × Bool)) := do
  let (cache, found) ← cache.get hash q
  match found with
  | none => pure (cache, none)
  | some blob =>
    match served codec blob q now with
    | some hit => pure (cache, some hit)
    | none => do
      let cache ← evict hash cache [q]
      pure (cache, none)

/-- Garbage collection: drop what has expired. -/
def collect (cache : LruCache) (now : Time) : Option LruCache :=
  cache.deleteFunc fun _ item => item.blob.expiry < now

/-- Perform a step at a time; only a lookup returns something. -/
def perform (cache : LruCache) (now : Time) :
    Step → Option (LruCache × Option (Message × Bool))
  | .store q answer => do
    let cache ← store hash codec opt cache q answer now
    pure (cache, none)
  | .lookup q => lookup hash codec cache q now
  | .evict queries => do
    let cache ← evict hash cache queries
    pure (cache, none)
  | .flush => pure (cache.reset, none)
  | .collect => do
    let cache ← collect cache now
    pure (cache, none)

/-- Perform steps one after the other. -/
def performAll : LruCache → List (Instant × Step) → Option LruCache
  | cache, [] => pure cache
  | cache, (now, step) :: rest => do
    let (cache, _) ← perform hash codec opt cache now.time step
    performAll cache rest

end Memory

/-! ## What the steps do to a list ordered by recency -/

/-- What a lookup returns from a list of entries. -/
def hitIn (entries : List (LruKey × CacheBlob)) (q : CacheQuery) (now : Time) :
    Option (Message × Bool) :=
  (Recency.find (lruKeyFromQuery q) entries).bind fun blob => served codec blob q now

/-- The entries after a lookup: the one it finds moves to the front, or away. -/
def entriesAfterLookup (entries : List (LruKey × CacheBlob)) (q : CacheQuery) (now : Time) :
    List (LruKey × CacheBlob) :=
  let promoted := Recency.promote (lruKeyFromQuery q) entries
  match hitIn codec entries q now with
  | some _ => promoted
  | none => Recency.delete (lruKeyFromQuery q) promoted

/-- The entries after a step. -/
def entriesAfterStep (capacity : Int) (entries : List (LruKey × CacheBlob)) (now : Time) :
    Step → List (LruKey × CacheBlob)
  | .store q answer =>
    match encoded codec opt q answer now with
    | none => entries
    | some blob => Recency.add hash capacity (lruKeyFromQuery q) blob entries
  | .lookup q => entriesAfterLookup codec entries q now
  | .evict queries =>
    queries.foldl (fun entries q => Recency.delete (lruKeyFromQuery q) entries) entries
  | .flush => []
  | .collect => entries.filter fun entry => !decide (entry.2.expiry < now)

/-- The entries of a new cache after some steps. -/
def entriesAfter (capacity : Int) (steps : List (Instant × Step)) : List (LruKey × CacheBlob) :=
  steps.foldl (fun entries step =>
    entriesAfterStep hash codec opt capacity entries step.1.time step.2) []

variable {hash codec opt}

variable {answer : Message} {blob : CacheBlob} {now : Time} {q : CacheQuery}

theorem encoded_eq_some (stored : encoded codec opt q answer now = some blob) :
    ∃ meta_ wire, cacheMeta opt answer now = some meta_ ∧ codec.pack answer = some wire ∧
      newCacheBlobFromWire (lruKeyFromQuery q) meta_ wire = .ok blob := by
  simp only [encoded, Option.bind_eq_bind, Option.bind_eq_some_iff] at stored
  obtain ⟨meta_, computed, wire, packed, built⟩ := stored
  refine ⟨meta_, wire, computed, packed, ?_⟩
  cases result : newCacheBlobFromWire (lruKeyFromQuery q) meta_ wire with
  | error message => simp [result, Except.toOption] at built
  | ok blob' => simpa [result, Except.toOption] using built

theorem builtFor_of_encoded (stored : encoded codec opt q answer now = some blob) :
    BuiltFor (lruKeyFromQuery q) blob := by
  obtain ⟨meta_, wire, _, _, built⟩ := encoded_eq_some stored
  exact ⟨meta_, wire, built⟩

namespace Memory

variable {entries : List (LruKey × CacheBlob)}

theorem carries_evict {capacity : Int} {cache : LruCache}
    (carries : Carries hash capacity cache entries) (queries : List CacheQuery) :
    ∃ changed, evict hash cache queries = some changed ∧
      Carries hash capacity changed
        (queries.foldl (fun entries q => removed (lruKeyFromQuery q) entries) entries) := by
  induction queries generalizing cache entries with
  | nil => exact ⟨cache, rfl, carries⟩
  | cons q rest ih =>
    obtain ⟨deleted, ran, carries'⟩ := carries.deleteKey (lruKeyFromQuery q)
    obtain ⟨changed, ranRest, result⟩ := ih carries'
    exact ⟨changed, by simp [evict, LruCache.delete, ran, ranRest], result⟩

variable {entry : LruKey × CacheBlob} {queries : List CacheQuery}

theorem mem_evict
    (member : entry ∈
      queries.foldl (fun entries q => removed (lruKeyFromQuery q) entries) entries) :
    entry ∈ entries := by
  induction queries generalizing entries with
  | nil => exact member
  | cons q rest ih => exact mem_removed (ih member)

theorem mem_evict_of_ne (member : entry ∈ entries)
    (others : ∀ q ∈ queries, lruKeyFromQuery q ≠ entry.1) :
    entry ∈ queries.foldl (fun entries q => removed (lruKeyFromQuery q) entries) entries := by
  induction queries generalizing entries with
  | nil => exact member
  | cons q rest ih =>
    obtain ⟨here, later⟩ := List.forall_mem_cons.mp others
    exact ih (mem_removed_of_ne member (Ne.symm here)) later

section Steps

variable {capacity : Int} {cache : LruCache} {entries : List (LruKey × CacheBlob)}
  (represents : Represents hash capacity cache entries)

include represents

theorem represents_store (q : CacheQuery) (answer : Message) (now : Time) :
    ∃ changed, store hash codec opt cache q answer now = some changed ∧
      Represents hash capacity changed
        (entriesAfterStep hash codec opt capacity entries now (.store q answer)) := by
  simp only [store, entriesAfterStep]
  cases stored : encoded codec opt q answer now with
  | none => exact ⟨cache, rfl, represents⟩
  | some blob => exact represents.addKey (builtFor_of_encoded stored)

theorem represents_evict (queries : List CacheQuery) :
    ∃ changed, evict hash cache queries = some changed ∧
      Represents hash capacity changed
        (queries.foldl (fun entries q => Recency.delete (lruKeyFromQuery q) entries) entries) := by
  induction queries generalizing cache entries with
  | nil => exact ⟨cache, rfl, represents⟩
  | cons q rest ih =>
    obtain ⟨deleted, ran, represents'⟩ := represents.deleteKey (lruKeyFromQuery q)
    obtain ⟨changed, ranRest, result⟩ := ih represents'
    exact ⟨changed, by simp [evict, LruCache.delete, ran, ranRest], result⟩

variable (codec) in
theorem represents_lookup (q : CacheQuery) (now : Time) :
    ∃ changed, lookup hash codec cache q now = some (changed, hitIn codec entries q now) ∧
      Represents hash capacity changed (entriesAfterLookup codec entries q now) := by
  obtain ⟨touched, got, represents'⟩ := represents.getKey (lruKeyFromQuery q)
  simp only [lookup, LruCache.get, got, entriesAfterLookup, hitIn]
  cases found : Recency.find (lruKeyFromQuery q) entries with
  | none =>
    -- nothing is evicted, and nothing with this key is there
    have absent : ∀ entry ∈ Recency.promote (lruKeyFromQuery q) entries,
        entry.1 ≠ lruKeyFromQuery q :=
      fun entry member => Recency.absent_of_find found entry (Recency.mem_promote.mp member)
    refine ⟨touched, rfl, ?_⟩
    simpa [Recency.delete_absent absent] using represents'
  | some blob =>
    cases hit : served codec blob q now with
    | some response => exact ⟨touched, by simp [hit], by simpa [hit] using represents'⟩
    | none =>
      obtain ⟨changed, evicted, result⟩ := represents_evict represents' [q]
      exact ⟨changed, by simp [hit, evicted], by simpa [hit] using result⟩

variable (codec opt) in
theorem represents_collect (now : Time) :
    ∃ changed, collect cache now = some changed ∧
      Represents hash capacity changed
        (entriesAfterStep hash codec opt capacity entries now .collect) := by
  obtain ⟨changed, ran, result⟩ := represents.deleteFunc fun _ item => item.blob.expiry < now
  rw [Recency.deleteFunc_const] at result
  exact ⟨changed, ran, result⟩

/-- A step acts on the represented list. -/
theorem represents_perform (now : Time) (step : Step) :
    ∃ changed returned, perform hash codec opt cache now step = some (changed, returned) ∧
      Represents hash capacity changed
        (entriesAfterStep hash codec opt capacity entries now step) := by
  cases step with
  | store q answer =>
    obtain ⟨changed, ran, result⟩ := represents_store represents q answer now
    exact ⟨changed, none, by simp [perform, ran], result⟩
  | lookup q =>
    obtain ⟨changed, ran, result⟩ := represents_lookup codec represents q now
    exact ⟨changed, _, ran, result⟩
  | evict queries =>
    obtain ⟨changed, ran, result⟩ := represents_evict represents queries
    exact ⟨changed, none, by simp [perform, ran], result⟩
  | flush => exact ⟨cache.reset, none, rfl, represents.reset⟩
  | collect =>
    obtain ⟨changed, ran, result⟩ := represents_collect codec opt represents now
    exact ⟨changed, none, by simp [perform, ran], result⟩

theorem represents_performAll (steps : List (Instant × Step)) :
    ∃ changed, performAll hash codec opt cache steps = some changed ∧
      Represents hash capacity changed (steps.foldl (fun entries step =>
        entriesAfterStep hash codec opt capacity entries step.1.time step.2) entries) := by
  induction steps generalizing cache entries with
  | nil => exact ⟨cache, rfl, represents⟩
  | cons step rest ih =>
    obtain ⟨next, returned, ran, represents'⟩ :=
      represents_perform represents step.1.time step.2
    obtain ⟨changed, ranRest, result⟩ := ih represents'
    exact ⟨changed, by simp [performAll, ran, ranRest], result⟩

end Steps

/-- The steps on a new cache leave the entries they leave on the list. -/
theorem represents_entriesAfter (hash : LruKey → UInt64) (codec : Codec) (opt : CacheOptions)
    (capacity : Int) (steps : List (Instant × Step)) :
    ∃ cache, performAll hash codec opt (newLRUCache capacity) steps = some cache ∧
      Represents hash capacity cache (entriesAfter hash codec opt capacity steps) :=
  represents_performAll (represents_new hash capacity) steps

end Memory

end RouteDns.Cache
