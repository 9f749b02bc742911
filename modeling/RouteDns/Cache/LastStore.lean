import RouteDns.Cache.Memory
import RouteDns.Program.History

/-!
# Where a served response comes from

An entry of the memory cache was put there by a store since which it was neither replaced
nor removed.  What a lookup serves from it is the message of that store, aged by the time
between the two.
-/

namespace RouteDns.Cache

open Dns LruCache

variable {hash : LruKey → UInt64} {codec : Codec} {opt : CacheOptions}

/-! ## The history of an entry -/

variable (codec opt) in
/-- A step neither removes the entry of a key on request nor replaces it. -/
def Spares (key : LruKey) (step : Instant × Step) : Prop :=
  match step.2 with
  | .store q answer => lruKeyFromQuery q = key → encoded codec opt q answer step.1.time = none
  | .evict queries => ∀ q ∈ queries, lruKeyFromQuery q ≠ key
  | .flush => False
  | .lookup _ | .collect => True

variable (codec opt) in
/-- A step stores a blob under a key. -/
def Stores (entry : LruKey × CacheBlob) (step : Instant × Step) : Prop :=
  ∃ q answer, step.2 = .store q answer ∧ lruKeyFromQuery q = entry.1 ∧
    encoded codec opt q answer step.1.time = some entry.2

variable {entries : List (LruKey × CacheBlob)} {entry : LruKey × CacheBlob} {capacity : Int}
  {steps : List (Instant × Step)} {now : Time} {answer hit : Message} {meta_ : CacheMeta}
  {stored : Instant} {age : UInt32} {blob : CacheBlob}

theorem mem_evicted {queries : List CacheQuery} (member : entry ∈ queries.foldl
      (fun entries q => Recency.delete (lruKeyFromQuery q) entries) entries) :
    entry ∈ entries ∧ ∀ q ∈ queries, lruKeyFromQuery q ≠ entry.1 := by
  induction queries generalizing entries with
  | nil => exact ⟨member, by simp⟩
  | cons q rest ih =>
    obtain ⟨left, others⟩ := ih member
    obtain ⟨inside, differs⟩ := Recency.mem_delete.mp left
    exact ⟨inside, List.forall_mem_cons.mpr ⟨fun same => differs same.symm, others⟩⟩

/-- An entry after a step was stored by it, or was there before and is spared. -/
theorem mem_entriesAfterStep {step : Instant × Step}
    (member : entry ∈ entriesAfterStep hash codec opt capacity entries step.1.time step.2) :
    Stores codec opt entry step ∨ entry ∈ entries ∧ Spares codec opt entry.1 step := by
  rcases step with ⟨now, step⟩
  cases step with
  | store q answer =>
    simp only [entriesAfterStep] at member
    cases stored : encoded codec opt q answer now.time with
    | none =>
      rw [stored] at member
      exact .inr ⟨member, fun _ => stored⟩
    | some blob =>
      rw [stored] at member
      rcases Recency.mem_add member with rfl | ⟨old, differs⟩
      · exact .inl ⟨q, answer, rfl, rfl, stored⟩
      · exact .inr ⟨old, fun same => absurd same.symm differs⟩
  | lookup q =>
    refine .inr ⟨?_, trivial⟩
    simp only [entriesAfterStep, entriesAfterLookup] at member
    split at member
    · exact Recency.mem_promote.mp member
    · exact Recency.mem_promote.mp (Recency.mem_delete.mp member).1
  | evict queries => exact .inr (mem_evicted member)
  | flush => cases member
  | collect => exact .inr ⟨List.mem_of_mem_filter member, trivial⟩

/-- Every entry was stored by a step since which it stayed. -/
theorem exists_store (member : entry ∈ entriesAfter hash codec opt capacity steps) :
    ∃ before origin after, History.Origin (fun entries (step : Instant × Step) =>
        entriesAfterStep hash codec opt capacity entries step.1.time step.2) []
      (entry ∈ ·) (Stores codec opt entry) (Spares codec opt entry.1) steps before origin after :=
  History.exists_origin (by simp) (fun _ _ => mem_entriesAfterStep) steps member

/-! ## Ages and expiries -/

/-- The whole seconds from one time to another. -/
def secondsBetween (stored now : Time) : Nat :=
  ((now - stored) / 1000000000).toNat

/-- The age is exact as long as its seconds fit into 32 bits. -/
theorem toNat_cacheAge {stored : Time} (ordered : stored ≤ now)
    (lasts : now < stored + 4294967296000000000) :
    (cacheAge now stored).toNat = secondsBetween stored now := by
  unfold Time at *
  simp only [cacheAge, secondsBetween]
  by_cases fresh : now ≤ stored
  · have same : now - stored = 0 := by omega
    simp [fresh, same]
  · have unwrapped : Int.bmod (now - stored) 18446744073709551616 = now - stored :=
      Int.bmod_eq_of_le (by omega) (by omega)
    rw [if_neg fresh, unwrapped, Int.tdiv_eq_ediv_of_nonneg (by omega), UInt32.toNat_ofNat']
    omega

/-- What `storeInCache` computes lies between the time of the store and the longest TTL. -/
theorem cacheMeta_bounds (computed : cacheMeta opt answer now = some meta_) :
    meta_.timestamp = now ∧ now ≤ meta_.expiry ∧ meta_.expiry ≤ now + 4294967295000000000 := by
  have after : ∀ ttl : UInt32, now ≤ secondsAfter now ttl ∧
      secondsAfter now ttl ≤ now + 4294967295000000000 := by
    intro ttl
    have bound : ttl.toNat < 4294967296 := ttl.toNat_lt
    unfold secondsAfter Time at *
    omega
  have byCode : ∀ result, rcodeExpiry opt answer now = some result →
      ∃ ttl, result.1 = secondsAfter now ttl := by
    intro result given
    simp only [rcodeExpiry] at given
    split at given
    · split at given <;> cases given <;> exact ⟨_, rfl⟩
    · split at given
      · cases given
        exact ⟨_, rfl⟩
      · cases given
  simp only [cacheMeta, Option.bind_eq_bind, Option.bind_eq_some_iff] at computed
  obtain ⟨⟨expiry, eligible⟩, given, rest⟩ := computed
  obtain ⟨ttl, rfl⟩ := byCode _ given
  cases rest
  refine ⟨rfl, ?_⟩
  split
  · exact after _
  · split
    · exact after _
    · exact after _

theorem unixNano_instant (instant : Instant) : unixNano instant.time = instant.time := by
  obtain ⟨time, fits⟩ := instant
  unfold Time at *
  have proper : time ≠ zeroTime := by
    unfold zeroTime
    omega
  show unixNano time = time
  rw [unixNano, if_neg proper]
  exact Int.bmod_eq_of_le (by omega) (by omega)

/-- An expiry that is too late to be stored exactly lies after every instant. -/
theorem le_of_le_unixNano {now : Instant} {expiry : Time} (later : stored.time ≤ expiry)
    (unexpired : now.time ≤ unixNano expiry) : now.time ≤ expiry := by
  have storedFits := stored.fits
  have nowFits := now.fits
  by_cases small : expiry < 9223372036854775808
  · rwa [unixNano_instant ⟨expiry, storedFits.1.trans later, small⟩] at unexpired
  · exact (nowFits.2.trans_le (Int.not_lt.mp small)).le

/-- A record as it is served after some seconds in the cache. -/
def AgedBy (seconds : Nat) (stored aged : Record) : Prop :=
  match stored with
  | .opt _ => aged = stored
  | .rr record => ∃ ttl : UInt32, aged = .rr (record.withTtl ttl) ∧ 0 < ttl.toNat ∧
      ttl.toNat + seconds = record.header.ttl.toNat

/-- A message as it is served to a query after some seconds in the cache. -/
structure ServedAs (stored q : Message) (seconds : Nat) (hit : Message) : Prop where
  same : hit = { stored with id := q.id, question := q.question, answer := hit.answer
                             ns := hit.ns, extra := hit.extra }
  answer : List.Forall₂ (AgedBy seconds) stored.answer hit.answer
  ns : List.Forall₂ (AgedBy seconds) stored.ns hit.ns
  extra : List.Forall₂ (AgedBy seconds) stored.extra hit.extra

theorem agedBy_of_ageRecord {stored aged : Record} (ran : ageRecord age stored = some aged) :
    AgedBy age.toNat stored aged := by
  cases stored with
  | opt record =>
    cases ran
    rfl
  | rr record =>
    simp only [ageRecord] at ran
    split at ran
    · cases ran
    · rename_i left
      cases ran
      have less : age.toNat < record.header.ttl.toNat :=
        UInt32.lt_iff_toNat_lt.mp (UInt32.not_le.mp left)
      have difference := UInt32.toNat_sub_of_le _ _ (UInt32.le_of_lt (UInt32.not_le.mp left))
      exact ⟨_, rfl, by omega, by omega⟩

theorem agedBy_of_mapM {stored aged : List Record} (ran : stored.mapM (ageRecord age) = some aged) :
    List.Forall₂ (AgedBy age.toNat) stored aged := by
  induction stored generalizing aged with
  | nil =>
    cases ran
    exact .nil
  | cons record rest ih =>
    simp only [List.mapM_cons, Option.bind_eq_bind, Option.bind_eq_some_iff] at ran
    obtain ⟨first, agedFirst, others, agedRest, result⟩ := ran
    cases result
    exact .cons (agedBy_of_ageRecord agedFirst) (ih agedRest)

theorem servedAs_of_ageCachedAnswer {stored q : Message}
    (ran : ageCachedAnswer stored q age = some hit) : ServedAs stored q age.toNat hit := by
  simp only [ageCachedAnswer, Option.bind_eq_bind, Option.bind_eq_some_iff] at ran
  obtain ⟨answer, agedAnswer, ns, agedNs, extra, agedExtra, result⟩ := ran
  cases result
  exact ⟨rfl, agedBy_of_mapM agedAnswer, agedBy_of_mapM agedNs, agedBy_of_mapM agedExtra⟩

/-- A stored response is served before its expiry and aged by its time in the cache. -/
theorem served_of_encoded {now : Instant} {query q : CacheQuery} {eligible : Bool}
    {wire : List Byte} (computed : cacheMeta opt answer stored.time = some meta_)
    (packed : codec.pack answer = some wire)
    (built : newCacheBlobFromWire (lruKeyFromQuery query) meta_ wire = .ok blob)
    (ordered : stored.time ≤ now.time)
    (hits : served codec blob q now.time = some (hit, eligible)) :
    now.time ≤ meta_.expiry ∧
      ServedAs answer q.msg (secondsBetween stored.time now.time) hit := by
  obtain ⟨timestamp, later, lasts⟩ := cacheMeta_bounds computed
  simp only [served] at hits
  split at hits
  · cases hits
  · rename_i unexpired
    rw [expiry_eq built] at unexpired
    have inTime : now.time ≤ meta_.expiry := le_of_le_unixNano later (Int.not_lt.mp unexpired)
    rw [message_eq built, codec.unpack_pack packed, timestamp_eq built, timestamp,
      unixNano_instant] at hits
    simp only [Option.bind_eq_bind, Option.bind_eq_some_iff, Option.some.injEq] at hits
    obtain ⟨_, rfl, aged, ran, result⟩ := hits
    cases result
    have short : now.time < stored.time + 4294967296000000000 := by
      unfold Time at *
      omega
    rw [← toNat_cacheAge ordered short]
    exact ⟨inTime, servedAs_of_ageCachedAnswer ran⟩

variable (hash codec opt) in
/-- After some steps on a new cache it holds a blob under a key. -/
def Held (capacity : Int) (steps : List (Instant × Step)) (key : LruKey) (blob : CacheBlob) :
    Prop :=
  ∃ cache changed, Memory.performAll hash codec opt (newLRUCache capacity) steps = some cache ∧
    cache.getKey hash key = some (changed, some blob)

theorem held_of_mem {key : LruKey}
    (member : (key, blob) ∈ entriesAfter hash codec opt capacity steps) :
    Held hash codec opt capacity steps key blob := by
  obtain ⟨cache, ran, represents⟩ :=
    Memory.represents_entriesAfter hash codec opt capacity steps
  obtain ⟨changed, got, _⟩ := represents.getKey key
  obtain ⟨front, back, split⟩ := List.append_of_mem member
  have distinct := represents.distinct
  rw [split] at got distinct
  exact ⟨cache, changed, ran, got.trans (by rw [Recency.find_split distinct])⟩

/-- After any steps on a new memory cache with any capacity, at times that do not decrease:
every step and the next lookup return.  If the lookup hits, the response is the message of
the last store that could be encoded under the same key.  Since that store the cache was
not flushed, the key was not evicted, and the cache held the stored form all along.  The
lookup is not after the expiry of the store; each record but OPT has its TTL reduced by the
whole seconds since the store, to no less than one second; and the ID and the question are
those of the query. -/
theorem hit_serves_last_store (hash : LruKey → UInt64) (codec : Codec) (opt : CacheOptions)
    (capacity : Int) (steps : List (Instant × Step)) (now : Instant) (q : CacheQuery)
    (ordered : (steps.map Prod.fst ++ [now]).Pairwise fun first second =>
      first.time ≤ second.time) :
    ∃ cache changed returned,
      Memory.performAll hash codec opt (newLRUCache capacity) steps = some cache ∧
      Memory.lookup hash codec cache q now.time = some (changed, returned) ∧
      ∀ hit eligible, returned = some (hit, eligible) →
        ∃ before stored query answer after meta_ wire blob,
          steps = before ++ (stored, .store query answer) :: after ∧
          lruKeyFromQuery query = lruKeyFromQuery q ∧
          cacheMeta opt answer stored.time = some meta_ ∧
          codec.pack answer = some wire ∧
          newCacheBlobFromWire (lruKeyFromQuery query) meta_ wire = .ok blob ∧
          (∀ step ∈ after, Spares codec opt (lruKeyFromQuery q) step) ∧
          (∀ passed, passed <+: after →
            Held hash codec opt capacity (before ++ (stored, .store query answer) :: passed)
              (lruKeyFromQuery q) blob) ∧
          now.time ≤ meta_.expiry ∧
          ServedAs answer q.msg (secondsBetween stored.time now.time) hit := by
  obtain ⟨cache, ran, represents⟩ :=
    Memory.represents_entriesAfter hash codec opt capacity steps
  obtain ⟨changed, looked, _⟩ := Memory.represents_lookup codec represents q now.time
  refine ⟨cache, changed, _, ran, looked, fun hit eligible hits => ?_⟩
  obtain ⟨blob, found, hits⟩ := Option.bind_eq_some_iff.mp hits
  obtain ⟨before, ⟨stored, step⟩, after, history⟩ := exists_store (Recency.mem_of_find found)
  obtain ⟨query, answer, rfl, same, encoded⟩ := history.brought
  obtain ⟨meta_, wire, computed, packed, built⟩ := encoded_eq_some encoded
  have earlier : stored.time ≤ now.time := by
    refine (List.pairwise_append.mp ordered).2.2 stored ?_ now List.mem_cons_self
    rw [history.split]
    simp
  obtain ⟨inTime, servedAs⟩ := served_of_encoded computed packed built earlier hits
  exact ⟨before, stored, query, answer, after, meta_, wire, blob, history.split, same, computed,
    packed, built, history.spared, fun passed front => held_of_mem (history.kept passed front),
    inTime, servedAs⟩

/-- The wire format of a single message. -/
def codecOf (msg : Message) (wire : List Byte) : Codec where
  pack := packBy [(msg, wire)]
  unpack := unpackBy [(msg, wire)]
  unpack_pack := by
    intro given bytes packed
    cases List.mem_singleton.mp (mem_of_packBy packed)
    simp [unpackBy]

def sampleCodec : Codec :=
  codecOf (sampleAnswer 300) (sampleWire 300)

/-- Numerals stand for seconds. -/
instance secondNumerals : NeZero 1000 := ⟨by decide⟩

def sampleInstant (second : Fin 1000) : Instant where
  time := second.val * 1000000000
  fits := by
    unfold Time
    omega

def sampleOptions : CacheOptions where
  negativeTTL := 0
  rcodeMaxTTL _ := none
  shuffleAnswerFunc := none
  hardenBelowNXDOMAIN := true
  prefetchEligible := 0

/-- A store and a garbage collection. -/
def sampleSteps : List (Instant × Step) :=
  [(sampleInstant 5, .store (sampleQuery (text "A.")) (sampleAnswer 300)),
    (sampleInstant 9, .collect)]

/-- What the cache serves ten seconds after the store. -/
def sampleHit : Message :=
  { sampleAnswer 290 with question := (sampleQuery (text "a.")).msg.question }

theorem sample_hit_after_ten_seconds :
    ∃ cache changed, Memory.performAll (fun _ => 0) sampleCodec sampleOptions
        (newLRUCache 1) sampleSteps = some cache ∧
      Memory.lookup (fun _ => 0) sampleCodec cache (sampleQuery (text "a."))
        (sampleInstant 15).time = some (changed, some (sampleHit, true)) ∧
      ∃ (stored : Instant) (answer : Message), ServedAs answer (sampleQuery (text "a.")).msg
        (secondsBetween stored.time (sampleInstant 15).time) sampleHit := by
  obtain ⟨cache, changed, returned, ran, looked, serves⟩ := hit_serves_last_store (fun _ => 0)
    sampleCodec sampleOptions 1 sampleSteps (sampleInstant 15)
    (sampleQuery (text "a.")) (by decide)
  have hits : ((Memory.performAll (fun _ => 0) sampleCodec sampleOptions
      (newLRUCache 1) sampleSteps).bind fun cache => (Memory.lookup (fun _ => 0)
        sampleCodec cache (sampleQuery (text "a."))
          (sampleInstant 15).time).map Prod.snd) = some (some (sampleHit, true)) := by
    decide +kernel
  rw [ran, Option.bind_some, looked] at hits
  cases hits
  obtain ⟨_, stored, _, answer, _, _, _, _, _, _, _, _, _, _, _, _, servedAs⟩ :=
    serves sampleHit true rfl
  exact ⟨cache, changed, ran, looked, stored, answer, servedAs⟩

end RouteDns.Cache
