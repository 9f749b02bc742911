import RouteDns.Cache.LastStore

/-!
# When a response expires

The expiry of a response is set by the smallest TTL of its records.  The search for it starts
at the largest TTL there is and looks for smaller ones, so it finds nothing in a response
whose records all have the largest TTL.
-/

namespace RouteDns.Cache

open Dns LruCache

/-- A TTL is the smallest of a response. -/
structure IsSmallest (ttl : UInt32) (answer : Message) : Prop where
  attained : ∃ record ∈ agingRecords answer, record.header.ttl = ttl
  le : ∀ record ∈ agingRecords answer, ttl ≤ record.header.ttl

/-- The response codes with which a response is stored for as long as its records last. -/
def CachedByTTL (rcode : Nat) : Prop :=
  rcode = rcodeSuccess ∨ rcode = rcodeNameError ∨ rcode = rcodeRefused ∨
    rcode = rcodeNotImplemented ∨ rcode = rcodeFormatError

instance (rcode : Nat) : Decidable (CachedByTTL rcode) :=
  inferInstanceAs (Decidable (_ ∨ _))

/-- A TTL within the limit that is configured for a response code. -/
def CacheOptions.cappedTTL (opt : CacheOptions) (rcode : Nat) (ttl : UInt32) : UInt32 :=
  match opt.rcodeMaxTTL rcode with
  | none => ttl
  | some limit => if limit < ttl then limit else ttl

/-- What a response has to be stored with. -/
structure ExpiresProperly (opt : CacheOptions) (answer : Message) (now : Time)
    (stored : CacheMeta) : Prop where
  withRecords : ∀ ttl, IsSmallest ttl answer →
    stored.expiry = secondsAfter now (opt.cappedTTL answer.rcode ttl)
  withoutRecords : agingRecords answer = [] →
    stored.expiry = secondsAfter now (opt.cappedTTL answer.rcode opt.negative)
  prefetch : stored.prefetchEligible = true →
    ∃ ttl, IsSmallest ttl answer ∧ opt.prefetchEligible < ttl

theorem le_largest (ttl : UInt32) : ttl ≤ 4294967295 := by
  have bound := ttl.toNat_lt
  rw [UInt32.le_iff_toNat_le]
  simp only [UInt32.reduceToNat]
  omega

theorem lt_largest_iff (ttl : UInt32) : ttl < 4294967295 ↔ ttl ≠ 4294967295 :=
  ⟨UInt32.ne_of_lt, UInt32.lt_of_le_of_ne (le_largest ttl)⟩

/-! ## The search -/

/-- One record of the search. -/
def lowerTTL (best : UInt32 × Bool) (record : Record) : UInt32 × Bool :=
  if record.header.ttl < best.1 then (record.header.ttl, true) else best

theorem minTTL_eq (answer : Message) :
    minTTL answer = (agingRecords answer).foldl lowerTTL (4294967295, false) :=
  rfl

/-- The search ends with the smallest of the TTLs and the one it started with. -/
theorem search_least (records : List Record) (best : UInt32 × Bool) :
    (records.foldl lowerTTL best).1 ≤ best.1 ∧
      (∀ record ∈ records, (records.foldl lowerTTL best).1 ≤ record.header.ttl) ∧
      ((records.foldl lowerTTL best).1 = best.1 ∨
        ∃ record ∈ records, record.header.ttl = (records.foldl lowerTTL best).1) := by
  induction records generalizing best with
  | nil => simp
  | cons record rest ih =>
    obtain ⟨below, least, attained⟩ := ih (lowerTTL best record)
    have step : (lowerTTL best record).1 ≤ best.1 ∧
        (lowerTTL best record).1 ≤ record.header.ttl ∧
        ((lowerTTL best record).1 = best.1 ∨ record.header.ttl = (lowerTTL best record).1) := by
      unfold lowerTTL
      split
      · rename_i lower
        exact ⟨UInt32.le_of_lt lower, UInt32.le_refl _, .inr rfl⟩
      · rename_i higher
        exact ⟨UInt32.le_refl _, UInt32.not_lt.mp higher, .inl rfl⟩
    refine ⟨UInt32.le_trans below step.1, ?_, ?_⟩
    · exact List.forall_mem_cons.mpr ⟨UInt32.le_trans below step.2.1, least⟩
    · rcases attained with same | ⟨other, member, same⟩
      · rcases step.2.2 with start | own
        · exact .inl (same.trans start)
        · exact .inr ⟨record, List.mem_cons_self, own.trans same.symm⟩
      · exact .inr ⟨other, List.mem_cons_of_mem _ member, same⟩

/-- Something is found only if it is smaller than where the search started. -/
theorem search_found (records : List Record) (best : UInt32 × Bool) :
    (records.foldl lowerTTL best).2 = true ↔
      best.2 = true ∨ ∃ record ∈ records, record.header.ttl < best.1 := by
  induction records generalizing best with
  | nil => simp
  | cons record rest ih =>
    rw [List.foldl_cons, ih]
    unfold lowerTTL
    split
    · rename_i lower
      simp [lower]
    · rename_i higher
      simp [higher]

theorem minTTL_found_iff (answer : Message) :
    (minTTL answer).2 = true ↔
      ∃ record ∈ agingRecords answer, record.header.ttl ≠ 4294967295 := by
  rw [minTTL_eq, search_found]
  simp [lt_largest_iff]

variable {answer : Message}

theorem IsSmallest.unique {first second : UInt32} (isFirst : IsSmallest first answer)
    (isSecond : IsSmallest second answer) : first = second := by
  obtain ⟨record, member, rfl⟩ := isFirst.attained
  obtain ⟨other, member', rfl⟩ := isSecond.attained
  exact UInt32.le_antisymm (isFirst.le other member') (isSecond.le record member)

/-- In a response with records the search ends at the smallest TTL, whether it reports so or
not. -/
theorem isSmallest_minTTL (records : agingRecords answer ≠ []) :
    IsSmallest (minTTL answer).1 answer := by
  obtain ⟨_, least, attained⟩ := search_least (agingRecords answer) (4294967295, false)
  rw [← minTTL_eq] at least attained
  refine ⟨?_, least⟩
  rcases attained with same | found
  · -- No TTL is above the one the search started with.
    obtain ⟨record, member⟩ := List.exists_mem_of_ne_nil _ records
    exact ⟨record, member, UInt32.le_antisymm (same ▸ le_largest _) (least record member)⟩
  · exact found

/-! ## The expiry -/

theorem secondsAfter_injective (now : Time) : Function.Injective (secondsAfter now) := by
  intro first second same
  unfold secondsAfter Time at *
  exact UInt32.toNat_inj.mp (by omega)

theorem secondsAfter_lt_iff (now : Time) (first second : UInt32) :
    secondsAfter now first < secondsAfter now second ↔ first < second := by
  rw [UInt32.lt_iff_toNat_lt]
  unfold secondsAfter Time
  omega

/-- The TTL a response is stored with, before the limit. -/
def chosenTTL (opt : CacheOptions) (answer : Message) : UInt32 :=
  if (minTTL answer).2 then (minTTL answer).1 else opt.negative

theorem cacheMeta_eq {opt : CacheOptions} {now : Time} (cached : CachedByTTL answer.rcode) :
    cacheMeta opt answer now = some
      { timestamp := now
        expiry := secondsAfter now (opt.cappedTTL answer.rcode (chosenTTL opt answer))
        prefetchEligible := (minTTL answer).2 &&
          decide (opt.prefetchEligible < (minTTL answer).1) } := by
  have byCode : rcodeExpiry opt answer now = some (secondsAfter now (chosenTTL opt answer),
      (minTTL answer).2 && decide (opt.prefetchEligible < (minTTL answer).1)) := by
    simp only [rcodeExpiry, chosenTTL]
    rw [if_pos (by exact cached)]
    cases (minTTL answer).2 <;> rfl
  unfold CacheOptions.cappedTTL
  simp only [cacheMeta, byCode, Option.bind_eq_bind, Option.bind_some, Option.pure_def]
  cases opt.rcodeMaxTTL answer.rcode with
  | none => rfl
  | some limit =>
    simp only [secondsAfter_lt_iff, Option.some.injEq, CacheMeta.mk.injEq, and_true, true_and]
    split <;> rfl

/-- Within the limit a TTL comes to the same as the largest one. -/
theorem cappedTTL_eq_iff (opt : CacheOptions) (rcode : Nat) (ttl : UInt32) :
    opt.cappedTTL rcode ttl = opt.cappedTTL rcode 4294967295 ↔
      ttl = 4294967295 ∨ ∃ limit ∈ opt.rcodeMaxTTL rcode, limit ≤ ttl := by
  unfold CacheOptions.cappedTTL
  cases opt.rcodeMaxTTL rcode with
  | none => simp
  | some limit =>
    simp only [Option.mem_def, Option.some.injEq, exists_eq_left']
    by_cases above : limit < ttl
    · have below := UInt32.lt_of_lt_of_le above (le_largest ttl)
      simp [above, below, UInt32.le_of_lt above]
    · have within := UInt32.not_lt.mp above
      by_cases below : limit < 4294967295
      · have notLargest : ttl ≠ 4294967295 :=
          UInt32.ne_of_lt (UInt32.lt_of_le_of_lt within below)
        rw [if_neg above, if_pos below]
        simp only [notLargest, false_or]
        exact ⟨fun same => same ▸ UInt32.le_refl _, UInt32.le_antisymm within⟩
      · have largest : limit = 4294967295 :=
          UInt32.le_antisymm (le_largest limit) (UInt32.not_lt.mp below)
        rw [if_neg above, if_neg below, largest]
        exact ⟨.inl, fun same => same.elim id (UInt32.le_antisymm (le_largest ttl))⟩

/-- A search that finds nothing ends where it started. -/
theorem minTTL_of_not_found (unfound : ¬ (minTTL answer).2 = true) :
    (minTTL answer).1 = 4294967295 := by
  obtain ⟨_, _, attained⟩ := search_least (agingRecords answer) (4294967295, false)
  rw [← minTTL_eq] at attained
  rcases attained with same | ⟨record, member, same⟩
  · exact same
  · rw [minTTL_found_iff] at unfound
    by_contra smaller
    exact unfound ⟨record, member, fun largest => smaller (same.symm.trans largest)⟩

/-- A response with a code other than SERVFAIL is stored with the smallest TTL of its records,
with the negative TTL if it has none, within the limit for its code, and is eligible for
prefetching only above the configured TTL, exactly if it does not consist of records with the
largest TTL, or if the negative TTL is no less within that limit. -/
theorem expires_properly_iff (opt : CacheOptions) (answer : Message) (now : Time)
    (cached : CachedByTTL answer.rcode) :
    (∃ stored, cacheMeta opt answer now = some stored ∧ ExpiresProperly opt answer now stored) ↔
      agingRecords answer = [] ∨
        (∃ record ∈ agingRecords answer, record.header.ttl ≠ 4294967295) ∨
        opt.negative = 4294967295 ∨
          ∃ limit ∈ opt.rcodeMaxTTL answer.rcode, limit ≤ opt.negative := by
  rw [cacheMeta_eq cached, ← minTTL_found_iff, ← cappedTTL_eq_iff]
  constructor
  · rintro ⟨_, ⟨rfl⟩, proper⟩
    by_cases empty : agingRecords answer = []
    · exact .inl empty
    by_cases found : (minTTL answer).2 = true
    · exact .inr (.inl found)
    · have expiry := proper.withRecords _ (isSmallest_minTTL empty)
      rw [chosenTTL, if_neg found, minTTL_of_not_found found] at expiry
      exact .inr (.inr (secondsAfter_injective now expiry))
  · intro condition
    refine ⟨_, rfl, ?_⟩
    constructor
    case withRecords =>
      intro ttl smallest
      obtain ⟨record, member, _⟩ := smallest.attained
      have records := List.ne_nil_of_mem member
      rw [smallest.unique (isSmallest_minTTL records), chosenTTL]
      by_cases found : (minTTL answer).2 = true
      · rw [if_pos found]
      · have same := (condition.resolve_left records).resolve_left found
        rw [if_neg found, minTTL_of_not_found found, same]
    case withoutRecords =>
      intro empty
      have unfound : ¬ (minTTL answer).2 = true := by
        rw [minTTL_found_iff, empty]
        simp
      rw [chosenTTL, if_neg unfound]
    case prefetch =>
      intro eligible
      obtain ⟨found, above⟩ := Bool.and_eq_true_iff.mp eligible
      obtain ⟨record, member, _⟩ := (minTTL_found_iff answer).mp found
      exact ⟨_, isSmallest_minTTL (List.ne_nil_of_mem member), of_decide_eq_true above⟩

/-- An address that lasts for five minutes is stored for as long. -/
theorem five_minutes_stored :
    CachedByTTL (sampleAnswer 300).rcode ∧
      ∃ stored, cacheMeta sampleOptions (sampleAnswer 300) 0 = some stored ∧
        ExpiresProperly sampleOptions (sampleAnswer 300) 0 stored := by
  refine ⟨by decide, (expires_properly_iff sampleOptions (sampleAnswer 300) 0 (by decide)).mpr ?_⟩
  exact .inr (.inl (by decide))

/-- An address with the largest TTL is stored for the minute of a negative response. -/
theorem largest_ttl_stored_as_negative :
    IsSmallest 4294967295 (sampleAnswer 4294967295) ∧
      (cacheMeta sampleOptions (sampleAnswer 4294967295) 0).map CacheMeta.expiry =
        some (secondsAfter 0 60) ∧
      ¬ ∃ stored, cacheMeta sampleOptions (sampleAnswer 4294967295) 0 = some stored ∧
        ExpiresProperly sampleOptions (sampleAnswer 4294967295) 0 stored := by
  have smallest : IsSmallest 4294967295 (sampleAnswer 4294967295) :=
    ⟨by decide, by decide⟩
  have negative : (cacheMeta sampleOptions (sampleAnswer 4294967295) 0).map CacheMeta.expiry =
      some (secondsAfter 0 60) := by
    decide
  refine ⟨smallest, negative, ?_⟩
  rintro ⟨stored, computed, proper⟩
  rw [computed, Option.map_some, proper.withRecords _ smallest] at negative
  exact absurd negative (by decide)

end RouteDns.Cache
