import RouteDns.Cache.LastStore
import RouteDns.Program.Run

/-!
# Lookups that are overtaken

The calls on the memory cache run at the same time, and each of their locked sections is one
step.  A lookup reads an entry in one such section, judges it outside of the lock and removes
what it cannot serve in another one.  It removes by key.  A store for the same query may take
its turn in between, and then what is removed is the entry it stored.

An entry is known by the number of stores for its key so far, the generation of the key.
-/

namespace RouteDns.Cache

open Dns LruCache

/-- Where a lookup is. -/
inductive LookupPhase where
  /-- It took the blob of its query. -/
  | judging (blob : CacheBlob)
  /-- It found that it cannot serve the blob. -/
  | evicting (blob : CacheBlob)
  | returned (hit : Option (Message × Bool))

/-- A lookup that took its first locked section, and the generation of its key at that time. -/
structure LookupCall where
  q : CacheQuery
  generation : Nat
  phase : LookupPhase

def LookupCall.key (call : LookupCall) : LruKey :=
  lruKeyFromQuery call.q

/-- The blob that a lookup took, until it returns. -/
def LookupCall.taken? (call : LookupCall) : Option CacheBlob :=
  match call.phase with
  | .judging blob => some blob
  | .evicting blob => some blob
  | .returned _ => none

/-- A lookup goes on, or stays where it is. -/
structure LookupCall.Continues (call call' : LookupCall) : Prop where
  q : call'.q = call.q
  generation : call'.generation = call.generation
  taken : ∀ blob ∈ call'.taken?, blob ∈ call.taken?

theorem LookupCall.continues_refl (call : LookupCall) : call.Continues call :=
  ⟨rfl, rfl, fun _ taken => taken⟩

/-- The memory cache, the lookups in the order of their first locked sections, and the keys
that were stored. -/
structure SharedCache where
  cache : LruCache
  lookups : List LookupCall
  stores : List LruKey

/-- The steps of the calls.  A lookup is given by its place among the lookups, a store by the
blob it encoded before it took the lock. -/
inductive CacheEvent where
  | get (q : CacheQuery)
  | judge (index : Nat) (now : Time)
  | remove (index : Nat)
  | store (q : CacheQuery) (blob : CacheBlob) (built : BuiltFor (lruKeyFromQuery q) blob)
  | evict (queries : List CacheQuery)
  | flush
  | collect (now : Time)

/-- The keys that a step stores. -/
def CacheEvent.keys : CacheEvent → List LruKey
  | .store q _ _ => [lruKeyFromQuery q]
  | _ => []

namespace SharedCache

/-- The cache before the first call. -/
def start (cache : LruCache) : SharedCache where
  cache := cache
  lookups := []
  stores := []

def generation (s : SharedCache) (key : LruKey) : Nat :=
  s.stores.count key

variable (hash : LruKey → UInt64) (codec : Codec)

/-- The entry that a key finds, by its generation and blob. -/
def current? (s : SharedCache) (key : LruKey) : Option (Nat × CacheBlob) := do
  let (_, found) ← s.cache.getKey hash key
  let blob ← found
  pure (s.generation key, blob)

def step (s : SharedCache) : CacheEvent → Option SharedCache
  | .get q => do
    let (cache, found) ← s.cache.get hash q
    let phase := match found with
      | none => .returned none
      | some blob => .judging blob
    let call := { q := q, generation := s.generation (lruKeyFromQuery q), phase := phase }
    pure { s with cache := cache, lookups := s.lookups ++ [call] }
  | .judge index now => do
    let call ← s.lookups[index]?
    match call.phase with
    | .judging blob =>
      let phase := match served codec blob call.q now with
        | some hit => .returned (some hit)
        | none => .evicting blob
      pure { s with lookups := s.lookups.set index { call with phase := phase } }
    | _ => none
  | .remove index => do
    let call ← s.lookups[index]?
    match call.phase with
    | .evicting _ => do
      let cache ← Memory.evict hash s.cache [call.q]
      let call := { call with phase := .returned none }
      pure { s with cache := cache, lookups := s.lookups.set index call }
    | _ => none
  | .store q blob _ => do
    let cache ← s.cache.addKey hash (lruKeyFromQuery q) blob
    pure { s with cache := cache, stores := s.stores ++ [lruKeyFromQuery q] }
  | .evict queries => do
    let cache ← Memory.evict hash s.cache queries
    pure { s with cache := cache }
  | .flush => pure { s with cache := s.cache.reset }
  | .collect now => do
    let cache ← Memory.collect s.cache now
    pure { s with cache := cache }

/-! ## What may happen to an entry -/

/-- Why a step may take an entry away: a lookup removes its key, a store replaces it, has its
hash or finds the cache full, its key is evicted, the cache is flushed, or it has expired. -/
def Reason (s : SharedCache) (key : LruKey) (blob : CacheBlob) : CacheEvent → Prop
  | .get _ => False
  | .judge _ _ => False
  | .remove index => ∃ call, s.lookups[index]? = some call ∧ call.key = key
  | .store q _ _ => lruKeyFromQuery q = key ∨ hash (lruKeyFromQuery q) = hash key ∨
      0 < s.cache.maxItems ∧ s.cache.maxItems ≤ s.cache.items.size
  | .evict queries => ∃ q ∈ queries, lruKeyFromQuery q = key
  | .flush => True
  | .collect now => blob.expiry < now

/-- A lookup that removes an entry read this entry, and nothing was stored for its key since. -/
def Own (s : SharedCache) (key : LruKey) (entry : Nat × CacheBlob) (event : CacheEvent) : Prop :=
  ∀ index, event = .remove index →
    ∃ call, s.lookups[index]? = some call ∧ call.key = key ∧
      call.generation = entry.1 ∧ call.phase = .evicting entry.2

/-- The runs of the calls on a cache. -/
abbrev Reaches (s : SharedCache) (events : List CacheEvent) (t : SharedCache) : Prop :=
  Run (step hash codec) (fun _ _ => True) s events t

/-- A step of a run takes an entry away. -/
structure Taken (key : LruKey) (entry : Nat × CacheBlob) (s : SharedCache) (event : CacheEvent)
    (t : SharedCache) : Prop where
  stepped : step hash codec s event = some t
  there : s.current? hash key = some entry
  gone : t.current? hash key ≠ some entry

/-- In every step of a run, what is taken away is taken for a reason, and by a lookup only if it
is the entry that it read. -/
def TakesOwn (s : SharedCache) (events : List CacheEvent) : Prop :=
  ∀ before event after t u key entry, events = before ++ event :: after →
    Reaches hash codec s before t → Taken hash codec key entry t event u →
      Reason hash t key entry.2 event ∧ t.Own key entry event

/-- From every point of a run to every later one, an entry is still there, unless it was taken
away in between, and not by a lookup that had read another. -/
def EntriesStay (s : SharedCache) (events : List CacheEvent) : Prop :=
  ∀ before between after t u key entry, events = before ++ (between ++ after) →
    Reaches hash codec s before t → Reaches hash codec t between u →
      t.current? hash key = some entry → u.current? hash key = some entry ∨
        ∃ earlier event later v w, between = earlier ++ event :: later ∧
          Reaches hash codec t earlier v ∧ Taken hash codec key entry v event w ∧
          Reason hash v key entry.2 event ∧ v.Own key entry event

/-- No lookup removes an entry that was stored after it read: since then nothing was stored for
its key, or nothing is there any more. -/
def NotOvertaken (s : SharedCache) (events : List CacheEvent) : Prop :=
  ∀ before index after t call, events = before ++ .remove index :: after →
    Reaches hash codec s before t → t.lookups[index]? = some call →
      t.generation call.key = call.generation ∨ t.current? hash call.key = none

/-! ## What a step does -/

variable {hash codec} {capacity : Int} {entries entries' : List (LruKey × CacheBlob)}
  {s s' : SharedCache} {event : CacheEvent}

/-- What a step does to the entries, the stores and the lookups. -/
structure Effect (hash : LruKey → UInt64) (capacity : Int) (s : SharedCache)
    (entries : List (LruKey × CacheBlob)) (event : CacheEvent) (s' : SharedCache)
    (entries' : List (LruKey × CacheBlob)) : Prop where
  carries : Carries hash capacity s'.cache entries'
  from_ : ∀ entry ∈ entries', entry ∈ entries ∨ entry.1 ∈ event.keys
  kept : ∀ entry ∈ entries, entry ∈ entries' ∨ Reason hash s entry.1 entry.2 event
  stores : s'.stores = s.stores ++ event.keys
  lookups : ∀ (index : Nat) (call' : LookupCall), s'.lookups[index]? = some call' →
    (∃ call, s.lookups[index]? = some call ∧ call.Continues call') ∨
      call'.generation = s'.generation call'.key ∧
        ∀ blob ∈ call'.taken?, (call'.key, blob) ∈ entries'

theorem lookups_same (same : s'.lookups = s.lookups) (index : Nat) (call' : LookupCall)
    (found : s'.lookups[index]? = some call') :
    ∃ call, s.lookups[index]? = some call ∧ call.Continues call' :=
  ⟨call', same ▸ found, call'.continues_refl⟩

variable {index : Nat}

theorem lookups_set {call new : LookupCall} (found : s.lookups[index]? = some call)
    (continues : call.Continues new) (other : Nat) (call' : LookupCall)
    (found' : (s.lookups.set index new)[other]? = some call') :
    ∃ call, s.lookups[other]? = some call ∧ call.Continues call' :=
  forall_getElem?_set
    (fun other call' => ∃ call, s.lookups[other]? = some call ∧ call.Continues call')
    ⟨call, found, continues⟩ (fun _ old _ there => ⟨old, there, old.continues_refl⟩)
    other call' found'

section

variable (carries : Carries hash capacity s.cache entries)
include carries

theorem get_effect {q : CacheQuery} (stepped : step hash codec s (.get q) = some s') :
    ∃ entries', Effect hash capacity s entries (.get q) s' entries' := by
  obtain ⟨changed, got, carries'⟩ := carries.getKey (lruKeyFromQuery q)
  rw [step, LruCache.get, got] at stepped
  cases stepped
  refine ⟨_, carries', fun entry member => .inl (mem_touched.mp member),
    fun entry member => .inl (mem_touched.mpr member), (List.append_nil _).symm, ?_⟩
  refine forall_getElem?_concat _ (.inr ⟨rfl, ?_⟩) fun other old there =>
    .inl ⟨old, there, old.continues_refl⟩
  cases found : Recency.find (lruKeyFromQuery q) (findable entries) with
  | none => simp [LookupCall.taken?]
  | some blob =>
    have member := (carries.find_eq_some_iff.mp found).1
    simpa [LookupCall.taken?, LookupCall.key] using mem_touched.mpr member

theorem judge_effect {now : Time} (stepped : step hash codec s (.judge index now) = some s') :
    ∃ entries', Effect hash capacity s entries (.judge index now) s' entries' := by
  obtain ⟨call, found, stepped⟩ := Option.bind_eq_some_iff.mp stepped
  split at stepped
  · rename_i blob phase
    cases stepped
    refine ⟨entries, carries, fun _ member => .inl member, fun _ member => .inl member,
      (List.append_nil _).symm, fun other call' found' =>
        .inl (lookups_set found ?_ other call' found')⟩
    refine ⟨rfl, rfl, ?_⟩
    cases served codec blob call.q now with
    | none => simp [LookupCall.taken?, phase]
    | some hit => simp [LookupCall.taken?]
  · cases stepped

/-- A lookup that removes is evicting, and the entry of its key is gone then. -/
theorem remove_cases (stepped : step hash codec s (.remove index) = some s') :
    ∃ call blob, s.lookups[index]? = some call ∧ call.phase = .evicting blob ∧
      s'.stores = s.stores ∧
      s'.lookups = s.lookups.set index { call with phase := .returned none } ∧
      Carries hash capacity s'.cache (removed call.key entries) := by
  obtain ⟨call, found, stepped⟩ := Option.bind_eq_some_iff.mp stepped
  split at stepped
  · rename_i blob phase
    obtain ⟨changed, ran, carries'⟩ := Memory.carries_evict carries [call.q]
    rw [ran] at stepped
    cases stepped
    exact ⟨call, blob, found, phase, rfl, rfl, carries'⟩
  · cases stepped

theorem remove_effect (stepped : step hash codec s (.remove index) = some s') :
    ∃ entries', Effect hash capacity s entries (.remove index) s' entries' := by
  obtain ⟨call, blob, found, phase, stores, lookups, carries'⟩ := remove_cases carries stepped
  refine ⟨_, carries', fun entry member => .inl (mem_removed member), fun entry member => ?_,
    stores.trans (List.append_nil _).symm, fun other call' found' => .inl ?_⟩
  · by_cases same : call.key = entry.1
    · exact .inr ⟨call, found, same⟩
    · exact .inl (mem_removed_of_ne member (Ne.symm same))
  · rw [lookups] at found'
    refine lookups_set found ?_ other call' found'
    exact ⟨rfl, rfl, by simp [LookupCall.taken?]⟩

theorem store_effect {q : CacheQuery} {blob : CacheBlob} {built : BuiltFor (lruKeyFromQuery q) blob}
    (stepped : step hash codec s (.store q blob built) = some s') :
    ∃ entries', Effect hash capacity s entries (.store q blob built) s' entries' := by
  obtain ⟨_, _, own⟩ := id built
  obtain ⟨changed, ran, carries'⟩ := carries.addKey (key_eq own)
  rw [step, ran] at stepped
  cases stepped
  refine ⟨_, carries', fun entry member => ?_, fun entry member => ?_, rfl,
    fun other call' found' => .inl (lookups_same rfl other call' found')⟩
  · rcases mem_placed member with rfl | old
    · exact .inr List.mem_cons_self
    · exact .inl old
  · by_cases reason : Reason hash s entry.1 entry.2 (.store q blob built)
    · exact .inr reason
    · simp only [Reason, not_or, not_and] at reason
      obtain ⟨other, apart, room⟩ := reason
      refine .inl (mem_placed_of_ne member (Ne.symm other) (Ne.symm apart) fun positive => ?_)
      rw [carries.capacity_eq, carries.size] at room
      omega

theorem evict_effect {queries : List CacheQuery}
    (stepped : step hash codec s (.evict queries) = some s') :
    ∃ entries', Effect hash capacity s entries (.evict queries) s' entries' := by
  obtain ⟨changed, ran, carries'⟩ := Memory.carries_evict carries queries
  rw [step, ran] at stepped
  cases stepped
  refine ⟨_, carries', fun entry member => .inl (Memory.mem_evict member), fun entry member => ?_,
    (List.append_nil _).symm, fun other call' found' => .inl (lookups_same rfl other call' found')⟩
  by_cases asked : ∃ q ∈ queries, lruKeyFromQuery q = entry.1
  · exact .inr asked
  · exact .inl (Memory.mem_evict_of_ne member fun q inside same => asked ⟨q, inside, same⟩)

theorem flush_effect (stepped : step hash codec s .flush = some s') :
    ∃ entries', Effect hash capacity s entries .flush s' entries' := by
  cases stepped
  exact ⟨[], carries.reset, by simp, fun _ _ => .inr trivial, (List.append_nil _).symm,
    fun other call' found' => .inl (lookups_same rfl other call' found')⟩

theorem collect_effect {now : Time} (stepped : step hash codec s (.collect now) = some s') :
    ∃ entries', Effect hash capacity s entries (.collect now) s' entries' := by
  obtain ⟨changed, ran, carries'⟩ := carries.deleteFunc fun _ item => item.blob.expiry < now
  rw [Recency.deleteFunc_const] at carries'
  rw [step, Memory.collect, ran] at stepped
  cases stepped
  refine ⟨_, carries', fun entry member => .inl (List.mem_of_mem_filter member),
    fun entry member => ?_, (List.append_nil _).symm,
    fun other call' found' => .inl (lookups_same rfl other call' found')⟩
  by_cases expired : entry.2.expiry < now
  · exact .inr expired
  · exact .inl (List.mem_filter.mpr ⟨member, by simp [itemOf, expired]⟩)

theorem step_effect (stepped : step hash codec s event = some s') :
    ∃ entries', Effect hash capacity s entries event s' entries' := by
  cases event with
  | get q => exact get_effect carries stepped
  | judge index now => exact judge_effect carries stepped
  | remove index => exact remove_effect carries stepped
  | store q blob built => exact store_effect carries stepped
  | evict queries => exact evict_effect carries stepped
  | flush => exact flush_effect carries stepped
  | collect now => exact collect_effect carries stepped

end

/-! ## The invariant -/

/-- The cache is in order, and a lookup for whose key nothing was stored since it read knows the
entry of the key, if there is one. -/
structure Sound (hash : LruKey → UInt64) (capacity : Int) (s : SharedCache)
    (entries : List (LruKey × CacheBlob)) : Prop where
  carries : Carries hash capacity s.cache entries
  known : ∀ (index : Nat) (call : LookupCall), s.lookups[index]? = some call →
    call.generation ≤ s.generation call.key ∧
      ∀ blob ∈ call.taken?, call.generation = s.generation call.key →
        ∀ other, (call.key, other) ∈ entries → other = blob

theorem Sound.start {cache : LruCache} (carries : Carries hash capacity cache entries) :
    Sound hash capacity (start cache) entries :=
  ⟨carries, by simp [SharedCache.start]⟩

theorem Effect.generation (effect : Effect hash capacity s entries event s' entries')
    (key : LruKey) : s'.generation key = s.generation key + event.keys.count key := by
  rw [SharedCache.generation, effect.stores, List.count_append]
  rfl

theorem Effect.sound (effect : Effect hash capacity s entries event s' entries')
    (sound : Sound hash capacity s entries) : Sound hash capacity s' entries' := by
  refine ⟨effect.carries, fun index call' found' => ?_⟩
  rcases effect.lookups index call' found' with ⟨call, found, continues⟩ | ⟨new, there⟩
  · have sameKey : call'.key = call.key := by rw [LookupCall.key, continues.q, LookupCall.key]
    obtain ⟨older, known⟩ := sound.known index call found
    have counted := effect.generation call.key
    rw [sameKey, continues.generation]
    refine ⟨by omega, fun blob taken same other member => ?_⟩
    -- nothing was stored for the key in this step
    have unstored : event.keys.count call.key = 0 := by omega
    rcases effect.from_ _ member with old | stored
    · exact known blob (continues.taken blob taken) (by omega) other old
    · exact absurd stored (List.count_eq_zero.mp unstored)
  · refine ⟨new.le, fun blob taken _ other member => ?_⟩
    exact congrArg Prod.snd (effect.carries.unique member (there blob taken) rfl)

theorem Sound.reaches (sound : Sound hash capacity s entries) {events : List CacheEvent}
    (run : Reaches hash codec s events s') : ∃ entries', Sound hash capacity s' entries' := by
  refine run.invariant (fun s => ∃ entries, Sound hash capacity s entries) ⟨entries, sound⟩ ?_
  rintro state next event ⟨entries, sound⟩ _ stepped
  obtain ⟨entries', effect⟩ := step_effect sound.carries stepped
  exact ⟨entries', effect.sound sound⟩

variable {entry : Nat × CacheBlob}

theorem current?_eq_some_iff (carries : Carries hash capacity s.cache entries) {key : LruKey} :
    s.current? hash key = some entry ↔
      entry.1 = s.generation key ∧ (key, entry.2) ∈ entries ∧ entry.2.matchesKey key = true := by
  obtain ⟨changed, got, _⟩ := carries.getKey key
  rw [← carries.find_eq_some_iff]
  simp only [current?, got, Option.bind_eq_bind, Option.bind_some, Option.bind_eq_some_iff,
    Option.pure_def, Option.some.injEq]
  constructor
  · rintro ⟨blob, found, rfl⟩
    exact ⟨rfl, found⟩
  · rintro ⟨generation, found⟩
    exact ⟨entry.2, found, by rw [← generation]⟩

/-- What a step takes away it takes for a reason. -/
theorem reason_of_taken (carries : Carries hash capacity s.cache entries) {key : LruKey}
    (taken : Taken hash codec key entry s event s') :
    Reason hash s key entry.2 event := by
  obtain ⟨entries', effect⟩ := step_effect carries taken.stepped
  obtain ⟨generation, member, matched⟩ := (current?_eq_some_iff carries).mp taken.there
  rcases effect.kept _ member with kept | reason
  · by_cases stored : key ∈ event.keys
    · cases event with
      | store q blob built => exact .inl (List.mem_singleton.mp stored).symm
      | _ => cases stored
    · have counted := effect.generation key
      rw [List.count_eq_zero.mpr stored] at counted
      refine absurd ((current?_eq_some_iff effect.carries).mpr ⟨?_, kept, matched⟩) taken.gone
      omega
  · exact reason

/-- A lookup for whose key nothing was stored since it read takes the entry that it read. -/
theorem own_of_taken (sound : Sound hash capacity s entries) {key : LruKey}
    (taken : Taken hash codec key entry s event s')
    (current : ∀ index call, event = .remove index → s.lookups[index]? = some call →
      s.generation call.key = call.generation ∨ s.current? hash call.key = none) :
    s.Own key entry event := by
  rintro index rfl
  obtain ⟨call, found, rfl⟩ := reason_of_taken sound.carries taken
  obtain ⟨call', blob, found', phase, _⟩ := remove_cases sound.carries taken.stepped
  cases found.symm.trans found'
  obtain ⟨generation, member, _⟩ := (current?_eq_some_iff sound.carries).mp taken.there
  rcases current index call rfl found with same | absent
  · have read := (sound.known index call found).2 blob (by simp [LookupCall.taken?, phase])
      same.symm entry.2 member
    exact ⟨call, found, rfl, same.symm.trans generation.symm, read ▸ phase⟩
  · cases absent.symm.trans taken.there

/-- What a lookup finds under its key when it removes is taken. -/
theorem taken_of_remove (carries : Carries hash capacity s.cache entries) {call : LookupCall}
    (stepped : step hash codec s (.remove index) = some s') (found : s.lookups[index]? = some call)
    (there : s.current? hash call.key = some entry) :
    Taken hash codec call.key entry s (.remove index) s' := by
  obtain ⟨call', _, found', _, _, _, carries'⟩ := remove_cases carries stepped
  cases found.symm.trans found'
  refine ⟨stepped, there, fun still => ?_⟩
  obtain ⟨_, member, matched⟩ := (current?_eq_some_iff carries').mp still
  exact not_mem_removed matched member

/-! ## Whole runs -/

variable {events : List CacheEvent}

theorem takesOwn_of_notOvertaken (sound : Sound hash capacity s entries)
    (apart : NotOvertaken hash codec s events) : TakesOwn hash codec s events := by
  intro before event after t u key entry split reached taken
  obtain ⟨_, sound'⟩ := sound.reaches reached
  refine ⟨reason_of_taken sound'.carries taken, own_of_taken sound' taken ?_⟩
  rintro index call rfl found
  exact apart before index after t call split reached found

/-- What holds of every step holds from every point to every later one. -/
theorem entriesStay_of_takesOwn (takes : TakesOwn hash codec s events) :
    EntriesStay hash codec s events := by
  intro before between after t u key entry split reached run there
  induction run generalizing after with
  | nil => exact .inl there
  | @snoc passed v w event run _ stepped ih =>
    rw [List.append_assoc] at split
    rcases ih ([event] ++ after) split with still | ⟨earlier, other, later, rest⟩
    · by_cases gone : w.current? hash key = some entry
      · exact .inl gone
      · have taken : Taken hash codec key entry v event w := ⟨stepped, still, gone⟩
        obtain ⟨reason, own⟩ := takes (before ++ passed) event after v w key entry
          (by rw [split, List.append_assoc]; rfl) (reached.append run) taken
        exact .inr ⟨passed, event, [], v, w, rfl, run, taken, reason, own⟩
    · obtain ⟨v, w, rfl, front, taken, reason, own⟩ := rest
      exact .inr ⟨earlier, other, later ++ [event], v, w, by simp, front, taken, reason, own⟩

theorem notOvertaken_of_takesOwn (sound : Sound hash capacity s entries)
    (run : Reaches hash codec s events s') (takes : TakesOwn hash codec s events) :
    NotOvertaken hash codec s events := by
  intro before index after t call split reached found
  rw [split] at run
  obtain ⟨t', front, back⟩ := run.split
  cases front.unique reached
  obtain ⟨u, stepped, _⟩ := back.uncons
  obtain ⟨_, sound'⟩ := sound.reaches reached
  cases there : t.current? hash call.key with
  | none => exact .inr rfl
  | some entry =>
    have taken := taken_of_remove sound'.carries stepped found there
    obtain ⟨_, own⟩ := takes before _ after t u call.key entry split reached taken
    obtain ⟨call', found', _, generation, _⟩ := own index rfl
    cases found.symm.trans found'
    have current := ((current?_eq_some_iff sound'.carries).mp there).1
    exact .inl (current.symm.trans generation.symm)

/-- For every interleaving of the calls on a cache: a lookup that is about to remove can do so.
In every step what is taken away is taken for a reason, by a lookup only if it is the entry that
it read, and an entry stays until something takes it away, exactly if no lookup removes its key
after a store for it, with an entry there. -/
theorem lookups_take_own_iff {cache : LruCache} (carries : Carries hash capacity cache entries)
    (run : Reaches hash codec (start cache) events s) :
    (∀ (index : Nat) (call : LookupCall) (blob : CacheBlob), s.lookups[index]? = some call →
        call.phase = .evicting blob → ∃ s', step hash codec s (.remove index) = some s') ∧
      ((TakesOwn hash codec (start cache) events ∧ EntriesStay hash codec (start cache) events) ↔
        NotOvertaken hash codec (start cache) events) := by
  have sound : Sound hash capacity (start cache) entries := Sound.start carries
  refine ⟨fun index call blob found phase => ?_, fun takes => ?_, fun apart => ?_⟩
  · obtain ⟨_, sound'⟩ := sound.reaches run
    obtain ⟨changed, ran, _⟩ := Memory.carries_evict sound'.carries [call.q]
    exact ⟨_, by simp only [step, found, phase, ran, Option.bind_eq_bind, Option.bind_some]; rfl⟩
  · exact notOvertaken_of_takesOwn sound run takes.1
  · have takes := takesOwn_of_notOvertaken sound apart
    exact ⟨takes, entriesStay_of_takesOwn takes⟩

/-! ## A lookup that is overtaken -/

/-- A response for `a.` with its times. -/
def datedBlob (stored expiry : Time) : CacheBlob :=
  (entryOf (sampleQuery (text "a."))
    { timestamp := stored, expiry := expiry, prefetchEligible := false } (sampleWire 300)).2

theorem built_dated (stored expiry : Time) :
    BuiltFor (lruKeyFromQuery (sampleQuery (text "a."))) (datedBlob stored expiry) :=
  ⟨_, _, newCacheBlobFromWire_entryOf (by decide) (by decide)⟩

def storeDated (stored expiry : Time) : CacheEvent :=
  .store (sampleQuery (text "a.")) (datedBlob stored expiry) (built_dated stored expiry)

/-- A lookup reads a response that expired after five seconds and judges it after ten. -/
def expiredLookup : List CacheEvent :=
  [storeDated 0 5000000000, .get (sampleQuery (text "a.")), .judge 0 10000000000]

/-- A new response is stored after the lookup read the old one. -/
def overtakenLookup : List CacheEvent :=
  [storeDated 0 5000000000, .get (sampleQuery (text "a.")),
    storeDated 10000000000 310000000000, .judge 0 10000000000]

def sampleHash (_ : LruKey) : UInt64 := 0

/-- The state after some steps on a new cache. -/
def after (events : List CacheEvent) : Option SharedCache :=
  events.foldlM (Run.guarded (step sampleHash sampleCodec) fun _ _ => True) (start (newLRUCache 0))

/-- The generations of the keys of the lookups, now and when they read. -/
def generations (s : SharedCache) : List (Nat × Nat) :=
  s.lookups.map fun call => (s.generation call.key, call.generation)

theorem samples_after :
    ((after expiredLookup).map generations = some [(1, 1)] ∧
      (after (expiredLookup ++ [.remove 0])).isSome = true) ∧
    (after overtakenLookup).map generations = some [(2, 1)] ∧
    (after overtakenLookup).bind (fun s =>
        s.current? sampleHash (lruKeyFromQuery (sampleQuery (text "a.")))) =
      some (2, datedBlob 10000000000 310000000000) ∧
    (after (overtakenLookup ++ [.remove 0])).map (fun s =>
        s.current? sampleHash (lruKeyFromQuery (sampleQuery (text "a.")))) = some none := by
  decide +kernel

theorem mem_generations {call : LookupCall} (found : s.lookups[index]? = some call) :
    (s.generation call.key, call.generation) ∈ s.generations :=
  List.mem_map_of_mem (List.mem_of_getElem? found)

/-- The only removal is the last step. -/
theorem before_remove {front before after_ : List CacheEvent}
    (split : front ++ [.remove 0] = before ++ .remove index :: after_)
    (others : ∀ index, .remove index ∉ front) : before = front := by
  rcases List.append_eq_append_iff.mp split with ⟨more, rfl, rest⟩ | ⟨more, rfl, rest⟩
  · cases more with
    | nil => exact List.append_nil front
    | cons event more => simp at rest
  · cases more with
    | nil => exact (List.append_nil before).symm
    | cons event more =>
      cases rest
      exact absurd (by simp) (others index)

/-- A lookup that is not overtaken removes the expired response. -/
theorem expired_entry_removed :
    ∃ s, Reaches sampleHash sampleCodec (start (newLRUCache 0)) (expiredLookup ++ [.remove 0]) s ∧
      TakesOwn sampleHash sampleCodec (start (newLRUCache 0)) (expiredLookup ++ [.remove 0]) ∧
      EntriesStay sampleHash sampleCodec (start (newLRUCache 0))
        (expiredLookup ++ [.remove 0]) := by
  obtain ⟨⟨computed, removes⟩, _⟩ := samples_after
  obtain ⟨s, ran⟩ := Option.isSome_iff_exists.mp removes
  obtain ⟨u, ran', current⟩ := Option.map_eq_some_iff.mp computed
  have run := Run.of_foldlM ran
  refine ⟨s, run, (lookups_take_own_iff (carries_new sampleHash 0) run).2.mpr ?_⟩
  intro before index later t call split reached found
  have whole := before_remove split (by simp [expiredLookup, storeDated])
  rw [whole] at reached
  cases reached.unique (Run.of_foldlM ran')
  have member := mem_generations found
  rw [current] at member
  obtain ⟨now, then_⟩ := Prod.mk.inj (List.mem_singleton.mp member)
  exact .inl (now.trans then_.symm)

/-- The lookup removes the response that was stored after it read, which could be served. -/
theorem fresh_entry_removed :
    ∃ s t, Reaches sampleHash sampleCodec (start (newLRUCache 0)) overtakenLookup s ∧
      Taken sampleHash sampleCodec (lruKeyFromQuery (sampleQuery (text "a.")))
        (2, datedBlob 10000000000 310000000000) s (.remove 0) t ∧
      (served sampleCodec (datedBlob 10000000000 310000000000) (sampleQuery (text "a."))
        10000000000).isSome = true ∧
      ¬ TakesOwn sampleHash sampleCodec (start (newLRUCache 0))
        (overtakenLookup ++ [.remove 0]) := by
  obtain ⟨_, computed, there, removes⟩ := samples_after
  obtain ⟨u, ran, gone⟩ := Option.map_eq_some_iff.mp removes
  obtain ⟨s, ran', current⟩ := Option.map_eq_some_iff.mp computed
  have front := Run.of_foldlM ran'
  obtain ⟨s', front', back⟩ := (Run.of_foldlM ran).split
  cases front'.unique front
  obtain ⟨t, stepped, rest⟩ := back.uncons
  rw [Run.nil.unique rest] at stepped
  rw [ran', Option.bind_some] at there
  have taken : Taken sampleHash sampleCodec (lruKeyFromQuery (sampleQuery (text "a.")))
      (2, datedBlob 10000000000 310000000000) s (.remove 0) u :=
    ⟨stepped, there, by rw [gone]; simp⟩
  refine ⟨s, u, front, taken, by decide +kernel, fun takes => ?_⟩
  obtain ⟨_, own⟩ := takes overtakenLookup (.remove 0) [] s u _ _ rfl front taken
  obtain ⟨call, found, _, generation, _⟩ := own 0 rfl
  have member := mem_generations found
  rw [current, generation] at member
  simp at member

end SharedCache

end RouteDns.Cache
