import RouteDns.Cache.Access
import RouteDns.Cache.LastStore

/-!
# The age of a response

A response is served with the time it has been stored for taken off its TTLs.  The age is
computed in 64 bits and kept in 32, from a timestamp that may have been written by anyone who
shares the cache file or the Redis.  It is right for the next 136 years, unless the timestamp is
one that 64 bits cannot hold: then the age starts over at some other time.
-/

namespace RouteDns.Cache

open Dns LruCache

/-! ## Serving from Redis -/

/-- The nanoseconds of a time, as the standard library computes them. -/
def wrappedNanos (time : Time) : Time :=
  Int.bmod time 18446744073709551616

/-- What the Redis backend serves for a record. -/
def servedFromRedis (unpack : List Byte → Except Text Message) (value : List Byte) (q : CacheQuery)
    (now : Time) : Option (Option (Message × Bool)) := do
  match ← Checked.decodeRecord unpack value with
  | .error _ => pure none
  | .ok a =>
    match ageCachedAnswer a.msg q.msg (cacheAge now (wrappedNanos a.timestamp)) with
    | none => pure none
    | some answer => pure (some (answer, a.prefetchEligible))

/-! ## Honest ages -/

/-- A record is served with no more than what is left of its TTL after some seconds. -/
def AgedAtLeast (seconds : Nat) (stored served : Record) : Prop :=
  match stored with
  | .opt _ => served = stored
  | .rr record => ∃ ttl : UInt32, served = .rr (record.withTtl ttl) ∧
      ttl.toNat + seconds ≤ record.header.ttl.toNat

/-- A response is served only while all of its records last, and with what is left of them. -/
structure HonestHit (stored : Message) (seconds : Nat) (hit : Message) : Prop where
  lasting : ∀ record ∈ agingRecords stored, seconds < record.header.ttl.toNat
  answer : List.Forall₂ (AgedAtLeast seconds) stored.answer hit.answer
  ns : List.Forall₂ (AgedAtLeast seconds) stored.ns hit.ns
  extra : List.Forall₂ (AgedAtLeast seconds) stored.extra hit.extra

/-- The memory backend serves a blob honestly until a time. -/
def MemoryHonest (codec : Codec) (blob : CacheBlob) (q : CacheQuery) (limit : Instant) : Prop :=
  ∀ now : Instant, now.time ≤ limit.time → ∀ hit eligible,
    served codec blob q now.time = some (hit, eligible) →
      ∃ stored, codec.unpack blob.message = some stored ∧
        HonestHit stored (secondsBetween (nanoTime blob.timestamp) now.time) hit

/-- The Redis backend serves a record honestly until a time. -/
def RedisHonest (unpack : List Byte → Except Text Message) (value : List Byte) (q : CacheQuery)
    (limit : Instant) : Prop :=
  ∀ now : Instant, now.time ≤ limit.time → ∀ hit eligible,
    servedFromRedis unpack value q now.time = some (some (hit, eligible)) →
      ∃ a, Checked.decodeRecord unpack value = some (.ok a) ∧
        HonestHit a.msg (secondsBetween a.timestamp now.time) hit

/-- A message that is served whatever its age, or never. -/
def Ageless (msg : Message) : Prop :=
  agingRecords msg = [] ∨ ∃ record ∈ agingRecords msg, record.header.ttl = 0

instance (msg : Message) : Decidable (Ageless msg) :=
  inferInstanceAs (Decidable (_ ∨ _))

/-- The first instant that 64 bits hold. -/
def firstInstant : Time := -9223372036854775808

/-- From a timestamp until a time the age is computed right: for 2³² seconds, or for one if 64
bits cannot hold the timestamp. -/
def AgesUntil (timestamp limit : Time) : Prop :=
  if timestamp < firstInstant then limit < timestamp + 1000000000
  else limit < timestamp + 4294967296000000000

instance (timestamp limit : Time) : Decidable (AgesUntil timestamp limit) :=
  inferInstanceAs (Decidable (if timestamp < firstInstant then limit < timestamp + 1000000000
    else limit < timestamp + 4294967296000000000))

/-! ## Serving aged responses -/

variable {msg hit q stored : Message} {age seconds : Nat} {record : RR}
  {records : List Record} {now time : Time} {eligible : Bool}

theorem mem_agingRecords {record : Record} :
    record ∈ agingRecords msg ↔
      (record ∈ msg.answer ∨ record ∈ msg.ns ∨ record ∈ msg.extra) ∧ ∃ rr, record = .rr rr := by
  cases record with
  | rr record | opt record => simp [agingRecords, Record.asOPT?]

theorem agedAtLeast_of_agedBy (enough : seconds ≤ age) {stored served : Record}
    (aged : AgedBy age stored served) : AgedAtLeast seconds stored served := by
  cases stored with
  | opt record => exact aged
  | rr record =>
    obtain ⟨ttl, same, _, total⟩ := aged
    exact ⟨ttl, same, by omega⟩

theorem lt_ttl_of_agedBy {served : List Record} (aged : List.Forall₂ (AgedBy age) records served)
    (member : .rr record ∈ records) : age < record.header.ttl.toNat := by
  induction aged with
  | nil => cases member
  | cons first rest ih =>
    rcases List.mem_cons.mp member with same | later
    · subst same
      obtain ⟨ttl, _, positive, total⟩ := first
      omega
    · exact ih later

/-- An age that is not too small makes an honest hit. -/
theorem honestHit_of_le {age : UInt32} (ran : ageCachedAnswer stored q age = some hit)
    (enough : seconds ≤ age.toNat) : HonestHit stored seconds hit := by
  have servedAs := servedAs_of_ageCachedAnswer ran
  constructor
  case lasting =>
    intro record member
    obtain ⟨inside, rr, rfl⟩ := mem_agingRecords.mp member
    refine Nat.lt_of_le_of_lt enough ?_
    rcases inside with inAnswer | inNs | inExtra
    · exact lt_ttl_of_agedBy servedAs.answer inAnswer
    · exact lt_ttl_of_agedBy servedAs.ns inNs
    · exact lt_ttl_of_agedBy servedAs.extra inExtra
  case answer => exact servedAs.answer.imp fun _ _ => agedAtLeast_of_agedBy enough
  case ns => exact servedAs.ns.imp fun _ _ => agedAtLeast_of_agedBy enough
  case extra => exact servedAs.extra.imp fun _ _ => agedAtLeast_of_agedBy enough

theorem le_age_of_agedAtLeast {served : List Record}
    (aged : List.Forall₂ (AgedBy age) records served)
    (honest : List.Forall₂ (AgedAtLeast seconds) records served) (member : .rr record ∈ records) :
    seconds ≤ age := by
  induction aged with
  | nil => cases member
  | cons first rest ih =>
    cases honest with
    | cons firstHonest restHonest =>
      rcases List.mem_cons.mp member with same | later
      · subst same
        obtain ⟨ttl, rfl, _, total⟩ := first
        obtain ⟨ttl', same, most⟩ := firstHonest
        have sameTTL := congrArg (fun served => served.header.ttl) same
        simp only [Record.header, RR.ttl_withTtl] at sameTTL
        subst sameTTL
        omega
      · exact ih restHonest later

/-- The age of an honest hit is not too small, unless it does not matter. -/
theorem le_age_of_honestHit {age : UInt32} (ran : ageCachedAnswer stored q age = some hit)
    (honest : HonestHit stored seconds hit) (records : agingRecords stored ≠ []) :
    seconds ≤ age.toNat := by
  have servedAs := servedAs_of_ageCachedAnswer ran
  obtain ⟨record, member⟩ := List.exists_mem_of_ne_nil _ records
  obtain ⟨inside, rr, rfl⟩ := mem_agingRecords.mp member
  rcases inside with inAnswer | inNs | inExtra
  · exact le_age_of_agedAtLeast servedAs.answer honest.answer inAnswer
  · exact le_age_of_agedAtLeast servedAs.ns honest.ns inNs
  · exact le_age_of_agedAtLeast servedAs.extra honest.extra inExtra

theorem isSome_mapM_ageRecord (records : List Record) (age : UInt32) :
    (records.mapM (ageRecord age)).isSome = true ↔
      ∀ rr, .rr rr ∈ records → age < rr.header.ttl := by
  induction records with
  | nil => simp
  | cons record rest ih =>
    rw [List.mapM_cons]
    cases record with
    | opt record => simpa [ageRecord, Option.isSome_bind] using ih
    | rr record =>
      by_cases aged : record.header.ttl ≤ age
      · simp only [ageRecord, if_pos aged, Option.bind_eq_bind, Option.bind_none,
          Option.isSome_none, Bool.false_eq_true, false_iff, not_forall]
        exact ⟨record, List.mem_cons_self, UInt32.not_lt.mpr aged⟩
      · simpa [ageRecord, aged, Option.isSome_bind, UInt32.not_le.mp aged] using ih

theorem isSome_ageCachedAnswer (msg q : Message) (age : UInt32) :
    (ageCachedAnswer msg q age).isSome = true ↔
      ∀ record ∈ agingRecords msg, age < record.header.ttl := by
  have sections : (ageCachedAnswer msg q age).isSome = true ↔
      (msg.answer.mapM (ageRecord age)).isSome = true ∧
        (msg.ns.mapM (ageRecord age)).isSome = true ∧
        (msg.extra.mapM (ageRecord age)).isSome = true := by
    unfold ageCachedAnswer
    cases msg.answer.mapM (ageRecord age) with
    | none => simp
    | some answer =>
      cases msg.ns.mapM (ageRecord age) with
      | none => simp
      | some ns => cases msg.extra.mapM (ageRecord age) <;> simp
  rw [sections, isSome_mapM_ageRecord, isSome_mapM_ageRecord, isSome_mapM_ageRecord]
  constructor
  · rintro ⟨inAnswer, inNs, inExtra⟩ record member
    obtain ⟨inside, rr, rfl⟩ := mem_agingRecords.mp member
    exact inside.elim (inAnswer rr) fun later => later.elim (inNs rr) (inExtra rr)
  · intro all
    have aged : ∀ rr, (.rr rr ∈ msg.answer ∨ .rr rr ∈ msg.ns ∨ .rr rr ∈ msg.extra) →
        age < rr.header.ttl :=
      fun rr inside => all (.rr rr) (mem_agingRecords.mpr ⟨inside, rr, rfl⟩)
    exact ⟨fun rr inside => aged rr (.inl inside), fun rr inside => aged rr (.inr (.inl inside)),
      fun rr inside => aged rr (.inr (.inr inside))⟩

/-! ## A timestamp and its nanoseconds -/

/-- A message with a timestamp, of which the cache knows some nanoseconds, is served honestly at
a time. -/
def HonestAt (msg q : Message) (timestamp nanos now : Time) : Prop :=
  ∀ hit, ageCachedAnswer msg q (cacheAge now nanos) = some hit →
    HonestHit msg (secondsBetween timestamp now) hit

/-- What the cache knows of a timestamp: its nanoseconds in 64 bits, or any number for the zero
time. -/
def Stamps (nanos timestamp : Time) : Prop :=
  nanos = wrappedNanos timestamp ∨ timestamp = zeroTime ∧ firstInstant ≤ nanos

/-- Where there are no records but OPT, any age will do. -/
theorem agedAtLeast_of_opts (seconds : Nat) {served : List Record}
    (opts : ∀ record ∈ records, ∀ rr, record ≠ .rr rr)
    (all : List.Forall₂ (AgedBy age) records served) :
    List.Forall₂ (AgedAtLeast seconds) records served := by
  induction all with
  | nil => exact .nil
  | @cons stored _ _ _ first rest ih =>
    refine .cons ?_ (ih fun record member => opts record (List.mem_cons_of_mem _ member))
    cases stored with
    | opt record => exact first
    | rr record => exact absurd rfl (opts _ List.mem_cons_self record)

theorem honestAt_of_ageless {timestamp nanos : Time} (ageless : Ageless msg) :
    HonestAt msg q timestamp nanos now := by
  intro hit ran
  rcases ageless with none | ⟨record, member, zero⟩
  · have servedAs := servedAs_of_ageCachedAnswer ran
    have outside : ∀ record, (record ∈ msg.answer ∨ record ∈ msg.ns ∨ record ∈ msg.extra) →
        ∀ rr, record ≠ .rr rr := by
      rintro record inside rr rfl
      have member : Record.rr rr ∈ agingRecords msg := mem_agingRecords.mpr ⟨inside, rr, rfl⟩
      rw [none] at member
      cases member
    exact
      { lasting := by simp [none]
        answer := agedAtLeast_of_opts _ (fun record inside => outside record (.inl inside))
          servedAs.answer
        ns := agedAtLeast_of_opts _ (fun record inside => outside record (.inr (.inl inside)))
          servedAs.ns
        extra := agedAtLeast_of_opts _ (fun record inside => outside record (.inr (.inr inside)))
          servedAs.extra }
  · have all := (isSome_ageCachedAnswer msg q (cacheAge now nanos)).mp (by rw [ran]; rfl)
    have less := all record member
    rw [zero, UInt32.lt_iff_toNat_lt] at less
    exact absurd less (Nat.not_lt_zero _)

/-- A message with records that is served as new is not served honestly after a second. -/
theorem not_honestAt {timestamp nanos : Time} (aging : ¬ Ageless msg)
    (fresh : cacheAge now nanos = 0) (passed : timestamp + 1000000000 ≤ now) :
    ¬ HonestAt msg q timestamp nanos now := by
  intro honest
  obtain ⟨records, lasting⟩ := not_or.mp aging
  have serves : (ageCachedAnswer msg q (cacheAge now nanos)).isSome = true := by
    rw [isSome_ageCachedAnswer, fresh]
    intro record member
    exact UInt32.pos_iff_ne_zero.mpr fun zero => lasting ⟨record, member, zero⟩
  obtain ⟨hit, ran⟩ := Option.isSome_iff_exists.mp serves
  have zero := le_age_of_honestHit ran (honest hit ran) records
  rw [fresh] at zero
  unfold secondsBetween at zero
  simp only [UInt32.toNat_zero] at zero
  unfold Time at *
  omega

theorem cacheAge_of_le {nanos : Time} (future : now ≤ nanos) : cacheAge now nanos = 0 :=
  if_pos future

/-- After 2³² seconds the age starts over. -/
theorem cacheAge_startsOver (nanos : Time) :
    cacheAge (nanos + 4294967296000000000) nanos = 0 := by
  have later : ¬ nanos + 4294967296000000000 ≤ nanos := by
    unfold Time at *
    omega
  have elapsed : nanos + 4294967296000000000 - nanos = 4294967296000000000 := by
    unfold Time at *
    omega
  rw [cacheAge, if_neg later, elapsed]
  decide

theorem wrappedNanos_of_fits (first : firstInstant ≤ time) (last : time < 9223372036854775808) :
    wrappedNanos time = time := by
  unfold firstInstant Time at *
  exact Int.bmod_eq_of_le (by omega) (by omega)

/-- A time just before the first instant wraps around to the last ones. -/
theorem wrappedNanos_of_lt (before : time < firstInstant)
    (close : firstInstant < time + 1000000000) :
    wrappedNanos time = time + 18446744073709551616 := by
  unfold firstInstant Time at *
  rw [wrappedNanos, ← Int.add_bmod_right]
  exact Int.bmod_eq_of_le (by omega) (by omega)

theorem firstInstant_le_wrappedNanos (time : Time) : firstInstant ≤ wrappedNanos time :=
  Int.le_bmod (by decide)

namespace Stamps

variable {nanos timestamp : Time} (stamps : Stamps nanos timestamp)

include stamps

theorem firstInstant_le : firstInstant ≤ nanos := by
  rcases stamps with rfl | ⟨_, first⟩
  · exact firstInstant_le_wrappedNanos timestamp
  · exact first

theorem eq_of_fits (first : firstInstant ≤ timestamp) (last : timestamp < 9223372036854775808) :
    nanos = timestamp := by
  rcases stamps with same | ⟨zero, _⟩
  · exact same.trans (wrappedNanos_of_fits first last)
  · exact absurd (zero ▸ first) (by decide)

/-- A second after a timestamp before the first instant the age is still zero. -/
theorem second_le (before : timestamp < firstInstant)
    (close : firstInstant < timestamp + 1000000000) :
    timestamp + 1000000000 ≤ nanos := by
  rcases stamps with rfl | ⟨rfl, _⟩
  · rw [wrappedNanos_of_lt before close]
    unfold Time at *
    omega
  · exact absurd close (by decide)

end Stamps

/-- The age is not too small while it is computed right. -/
theorem secondsBetween_le_cacheAge {nanos timestamp : Time} (stamps : Stamps nanos timestamp)
    {limit : Time} (inTime : AgesUntil timestamp limit) {now : Instant}
    (before : now.time ≤ limit) :
    secondsBetween timestamp now.time ≤ (cacheAge now.time nanos).toNat := by
  have fits := now.fits
  have zero : now.time < timestamp + 1000000000 → secondsBetween timestamp now.time = 0 := by
    intro short
    unfold secondsBetween Time at *
    omega
  unfold AgesUntil at inTime
  split at inTime
  · rw [zero (lt_of_le_of_lt before inTime)]
    exact Nat.zero_le _
  · rename_i first
    by_cases later : now.time < timestamp
    · rw [zero (by unfold Time at *; omega)]
      exact Nat.zero_le _
    · have same := stamps.eq_of_fits (Int.not_lt.mp first) (by unfold Time at *; omega)
      rw [same, toNat_cacheAge (Int.not_lt.mp later) (lt_of_le_of_lt before inTime)]

/-- A message is served honestly at all times up to a limit exactly if its age does not matter
or is computed right until then. -/
theorem honestUntil_iff (q : Message) {timestamp nanos : Time} (stamps : Stamps nanos timestamp)
    (limit : Instant) :
    (∀ now : Instant, now.time ≤ limit.time → HonestAt msg q timestamp nanos now.time) ↔
      Ageless msg ∨ AgesUntil timestamp limit.time := by
  have limitFits := limit.fits
  constructor
  · intro honest
    by_contra neither
    obtain ⟨aging, late⟩ := not_or.mp neither
    unfold AgesUntil at late
    split at late
    · rename_i before
      by_cases close : firstInstant < timestamp + 1000000000
      · -- The age is zero for one second too long.
        have fits : firstInstant ≤ timestamp + 1000000000 ∧
            timestamp + 1000000000 < 9223372036854775808 := by
          unfold Time at *
          omega
        exact not_honestAt aging (cacheAge_of_le (stamps.second_le before close)) (Int.le_refl _)
          (honest ⟨timestamp + 1000000000, fits⟩ (Int.not_lt.mp late))
      · have passed := Int.not_lt.mp close
        exact not_honestAt aging (cacheAge_of_le stamps.firstInstant_le) passed
          (honest ⟨firstInstant, by decide⟩ limitFits.1)
    · rename_i first
      have fits : firstInstant ≤ timestamp + 4294967296000000000 ∧
          timestamp + 4294967296000000000 < 9223372036854775808 := by
        unfold Time at *
        omega
      have same := stamps.eq_of_fits (Int.not_lt.mp first) (by unfold Time at *; omega)
      refine not_honestAt aging ?_ ?_
        (honest ⟨timestamp + 4294967296000000000, fits⟩ (Int.not_lt.mp late))
      · rw [same]
        exact cacheAge_startsOver timestamp
      · dsimp only
        unfold Time at *
        omega
  · rintro (ageless | inTime)
    · exact fun _ _ => honestAt_of_ageless ageless
    · exact fun now before hit ran =>
        honestHit_of_le ran (secondsBetween_le_cacheAge stamps inTime before)

/-! ## The two backends -/

theorem stamps_nanoTime {nanos : Time} (first : firstInstant ≤ nanos)
    (last : nanos < 9223372036854775808) : Stamps nanos (nanoTime nanos) := by
  unfold nanoTime
  split
  · exact .inr ⟨rfl, first⟩
  · exact .inl (wrappedNanos_of_fits first last).symm

theorem int64OfNat_fits (value : Nat) :
    firstInstant ≤ int64OfNat value ∧ int64OfNat value < 9223372036854775808 :=
  ⟨Int.le_bmod (by decide), Int.bmod_lt (by decide)⟩

/-- The earlier of a time and the expiry of a blob. -/
def untilExpiry (blob : CacheBlob) (limit : Instant) : Instant where
  time := min limit.time blob.expiry
  fits := by
    have limitFits := limit.fits
    have expiryFits := int64OfNat_fits (blob.uintAt 10 8)
    unfold CacheBlob.expiry firstInstant Time at *
    omega

theorem served_eq_some_iff {codec : Codec} {blob : CacheBlob} {q : CacheQuery}
    (unpacked : codec.unpack blob.message = some msg) :
    served codec blob q now = some (hit, eligible) ↔
      now ≤ blob.expiry ∧ ageCachedAnswer msg q.msg (cacheAge now blob.timestamp) = some hit ∧
        blob.prefetchEligible = eligible := by
  unfold served
  split
  · rename_i expired
    simp [Int.not_le.mpr expired]
  · rename_i unexpired
    simp [unpacked, Int.not_lt.mp unexpired, Option.bind_eq_some_iff]

theorem memoryHonest_iff (codec : Codec) (blob : CacheBlob) (q : CacheQuery) (limit : Instant) :
    MemoryHonest codec blob q limit ↔
      ∀ msg, codec.unpack blob.message = some msg →
        Ageless msg ∨ AgesUntil (nanoTime blob.timestamp) (untilExpiry blob limit).time := by
  have stamps : Stamps blob.timestamp (nanoTime blob.timestamp) :=
    stamps_nanoTime (int64OfNat_fits _).1 (int64OfNat_fits _).2
  constructor
  · intro honest msg unpacked
    rw [← honestUntil_iff q.msg stamps (untilExpiry blob limit)]
    intro now before hit ran
    obtain ⟨inTime, unexpired⟩ := Int.le_min.mp before
    obtain ⟨stored, same, honestHit⟩ := honest now inTime hit _
      ((served_eq_some_iff unpacked).mpr ⟨unexpired, ran, rfl⟩)
    cases unpacked.symm.trans same
    exact honestHit
  · intro condition now inTime hit eligible hits
    cases unpacked : codec.unpack blob.message with
    | none =>
      simp only [served, unpacked, Option.bind_eq_bind, Option.bind_none, ite_self] at hits
      cases hits
    | some msg =>
      obtain ⟨unexpired, ran, _⟩ := (served_eq_some_iff unpacked).mp hits
      have honest := (honestUntil_iff q.msg stamps (untilExpiry blob limit)).mpr
        (condition msg unpacked)
      exact ⟨msg, rfl, honest now (Int.le_min.mpr ⟨inTime, unexpired⟩) hit ran⟩

theorem servedFromRedis_eq_some_iff {unpack : List Byte → Except Text Message} {value : List Byte}
    {q : CacheQuery} :
    servedFromRedis unpack value q now = some (some (hit, eligible)) ↔
      ∃ a, Checked.decodeRecord unpack value = some (.ok a) ∧
        ageCachedAnswer a.msg q.msg (cacheAge now (wrappedNanos a.timestamp)) = some hit ∧
        a.prefetchEligible = eligible := by
  unfold servedFromRedis
  cases Checked.decodeRecord unpack value with
  | none => simp
  | some decoded =>
    cases decoded with
    | error reason => simp
    | ok a =>
      cases ran : ageCachedAnswer a.msg q.msg (cacheAge now (wrappedNanos a.timestamp)) with
      | none | some answer => simp [ran]

theorem redisHonest_iff (unpack : List Byte → Except Text Message) (value : List Byte)
    (q : CacheQuery) (limit : Instant) :
    RedisHonest unpack value q limit ↔
      ∀ a, Checked.decodeRecord unpack value = some (.ok a) →
        Ageless a.msg ∨ AgesUntil a.timestamp limit.time := by
  constructor
  · intro honest a decoded
    have stamps : Stamps (wrappedNanos a.timestamp) a.timestamp := .inl rfl
    rw [← honestUntil_iff q.msg stamps limit]
    intro now inTime hit ran
    obtain ⟨other, same, honestHit⟩ := honest now inTime hit _
      (servedFromRedis_eq_some_iff.mpr ⟨a, decoded, ran, rfl⟩)
    cases decoded.symm.trans same
    exact honestHit
  · intro condition now inTime hit eligible hits
    obtain ⟨a, decoded, ran, _⟩ := servedFromRedis_eq_some_iff.mp hits
    have stamps : Stamps (wrappedNanos a.timestamp) a.timestamp := .inl rfl
    have honest := (honestUntil_iff q.msg stamps limit).mpr (condition a decoded)
    exact ⟨a, decoded, honest now inTime hit ran⟩

/-- For every blob, record and query and for all current times up to any limit: an entry is
served only while the time since its timestamp is less than every TTL, and with no more than
what is left of the TTLs, exactly if its message does not unpack, or its TTLs do not matter, or
the age is computed right until then; the memory backend serves nothing after the expiry. -/
theorem honest_ages_iff (codec : Codec) (unpack : List Byte → Except Text Message) (q : CacheQuery)
    (limit : Instant) :
    (∀ blob, MemoryHonest codec blob q limit ↔
      ∀ msg, codec.unpack blob.message = some msg →
        Ageless msg ∨ AgesUntil (nanoTime blob.timestamp) (min limit.time blob.expiry)) ∧
    ∀ value, RedisHonest unpack value q limit ↔
      ∀ a, Checked.decodeRecord unpack value = some (.ok a) →
        Ageless a.msg ∨ AgesUntil a.timestamp limit.time :=
  ⟨fun blob => memoryHonest_iff codec blob q limit,
    fun value => redisHonest_iff unpack value q limit⟩

/-! ## Entries that look new -/

/-- A record of a message that lasts for two days, in which every field is zero but the
version. -/
def undatedRecord : List Byte :=
  2 :: List.replicate 27 0 ++ sampleWire 172800

def unpackTwoDays (wire : List Byte) : Except Text Message :=
  (unpackBy [(sampleAnswer 172800, sampleWire 172800)] wire).elim (.error (text "overflow")) .ok

/-- A day in November 2026. -/
def november : Instant where
  time := 1794700800000000000
  fits := by decide

/-- A blob stored one nanosecond after the epoch that does not expire. -/
def lastingBlob : CacheBlob :=
  [2, 0, 0, 0, 0, 0, 0, 0, 0, 1, 127, 255, 255, 255, 255, 255, 255, 255, 0, 0, 0, 0, 0, 0, 0, 0, 0,
    0] ++ sampleWire 300

/-- 2³² seconds later. -/
def startedOver : Instant where
  time := 4294967296000000001
  fits := by decide

/-- A record of the zero time is served as one and a half days old, and a response that is 136
years old as a new one. -/
theorem old_entries_look_new :
    (servedFromRedis unpackTwoDays undatedRecord (sampleQuery (text "a.")) november.time =
        some (some ({ sampleAnswer 42014 with
          question := (sampleQuery (text "a.")).msg.question }, false)) ∧
      ¬ RedisHonest unpackTwoDays undatedRecord (sampleQuery (text "a.")) november) ∧
    served sampleCodec lastingBlob (sampleQuery (text "a.")) startedOver.time =
        some ({ sampleAnswer 300 with
          question := (sampleQuery (text "a.")).msg.question }, false) ∧
      ¬ MemoryHonest sampleCodec lastingBlob (sampleQuery (text "a."))
        startedOver := by
  refine ⟨⟨by decide +kernel, ?_⟩, by decide +kernel, ?_⟩
  · intro honest
    have condition := (redisHonest_iff _ _ _ _).mp honest
      { timestamp := zeroTime, expiry := zeroTime, prefetchEligible := false
        msg := sampleAnswer 172800 } (by decide +kernel)
    exact absurd condition (by decide)
  · intro honest
    have condition := (memoryHonest_iff _ _ _ _).mp honest (sampleAnswer 300)
      (by decide +kernel)
    exact absurd condition (by decide +kernel)

end RouteDns.Cache
