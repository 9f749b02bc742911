import RouteDns.Cache.LastStore
import RouteDns.Dns.Ancestor

/-!
# NXDOMAIN below a cached NXDOMAIN

A name below one that does not exist does not exist either (RFC 8020).  On a miss the cache
looks up one parent of the query name after the other; the first response it finds decides.
The parents are cut off the text of the name at its dots, and the verdict is the response
code alone.
-/

namespace RouteDns.Cache

open Dns LruCache

/-- The query with another name in its question. -/
def CacheQuery.withName (q : CacheQuery) (name : Name) : CacheQuery where
  msg := { q.msg with question := { q.question with name := name } :: q.msg.question.tail }
  asked := List.cons_ne_nil _ _

/-- The parents of a name in the order of the loop. -/
def parentNames (name : Name) : List Name :=
  let fragments := name.splitOn dot
  (List.range' 1 (fragments.length - 2)).map fun i => List.intercalate [dot] (fragments.drop i)

section Model

variable (hash : LruKey → UInt64) (codec : Codec) (opt : CacheOptions)

/-- The loop over the parents of a name. -/
def answerFromParents (q : CacheQuery) (now : Time) :
    LruCache → List Name → Option (LruCache × Option (Message × Bool))
  | cache, [] => pure (cache, none)
  | cache, name :: rest => do
    let (cache, found) ← Memory.lookup hash codec cache (q.withName name) now
    match found with
    | some (answer, _) =>
      if answer.rcode = rcodeNameError then pure (cache, some (q.msg.nxdomain, false))
      else pure (cache, none)
    | none => answerFromParents q now cache rest

def answerFromCache (cache : LruCache) (q : CacheQuery) (now : Time) :
    Option (LruCache × Option (Message × Bool)) := do
  let (cache, found) ← Memory.lookup hash codec cache q now
  match found with
  | some (answer, prefetchEligible) =>
    pure (cache, some ((opt.shuffleAnswerFunc.getD id) answer, prefetchEligible))
  | none =>
    if opt.hardenBelowNXDOMAIN then
      answerFromParents hash codec q now cache (parentNames q.question.name)
    else
      pure (cache, none)

end Model

/-! ## Parents and ancestors -/

/-- The texts behind the dots are joined from the fragments behind the first. -/
theorem afterDots_eq (name : Name) :
    afterDots name = (List.range (name.splitOn dot).tail.length).map fun i =>
      List.intercalate [dot] ((name.splitOn dot).tail.drop i) := by
  induction name with
  | nil => rfl
  | cons byte rest ih =>
    obtain ⟨first, others, split⟩ := List.exists_cons_of_ne_nil (List.splitOn_ne_nil dot rest)
    have whole : List.intercalate [dot] (first :: others) = rest := by
      rw [← split, List.intercalate_splitOn]
    rw [split] at ih
    rw [afterDots, List.splitOn_cons_eq_if_modifyHead, split]
    by_cases separates : byte = dot
    · rw [if_pos separates, if_pos (by simpa using separates), ih]
      simp only [List.tail_cons, List.length_cons, List.range_succ_eq_map, List.map_cons,
        List.drop_zero, whole, List.map_map]
      rfl
    · rw [if_neg separates, if_neg (by simpa using separates), ih]
      rfl

theorem parentNames_eq (name : Name) : parentNames name = (afterDots name).dropLast := by
  obtain ⟨first, others, split⟩ := List.exists_cons_of_ne_nil (List.splitOn_ne_nil dot name)
  simp only [afterDots_eq, parentNames, split, List.tail_cons, ← List.map_dropLast]
  cases others with
  | nil => rfl
  | cons second others =>
    simp only [List.length_cons, List.range_succ, List.dropLast_concat,
      List.range'_eq_map_range, List.map_map]
    refine List.map_congr_left fun i _ => ?_
    rw [Function.comp, Nat.add_comm, List.drop_succ_cons]

/-! ## What a lookup leaves to be found -/

variable {hash : LruKey → UInt64} {codec : Codec} {opt : CacheOptions}

/-- Whether a blob is served does not depend on the query. -/
theorem served_other (blob : CacheBlob) (q other : CacheQuery) (now : Time) :
    served codec blob other now = (served codec blob q now).map fun hit =>
      ({ hit.1 with id := other.msg.id, question := other.msg.question }, hit.2) := by
  simp only [served, ageCachedAnswer]
  split
  · rfl
  · simp only [Option.bind_eq_bind, Option.pure_def, Option.map_bind, Option.bind_assoc,
      Option.bind_some, Option.map_some, Function.comp_def]

/-- A lookup removes nothing that could be served at its time. -/
theorem hitIn_after_lookup (entries : List (LruKey × CacheBlob)) (other q : CacheQuery)
    (now : Time) :
    hitIn codec (entriesAfterLookup codec entries other now) q now =
      hitIn codec entries q now := by
  simp only [entriesAfterLookup]
  split
  · rw [hitIn, Recency.find_promote]
    rfl
  · rename_i missed
    rw [hitIn, Recency.find_delete, Recency.find_promote]
    split
    · rename_i same
      rw [hitIn, same]
      rw [hitIn] at missed
      cases found : Recency.find (lruKeyFromQuery other) entries with
      | none => rfl
      | some blob =>
        rw [found, Option.bind_some] at missed
        rw [Option.bind_some, served_other blob other q, missed]
        rfl
    · rfl

variable (codec) in
/-- The response the cache can serve for a name, under the type, the class and the options
of a query. -/
def cachedFor (entries : List (LruKey × CacheBlob)) (q : CacheQuery) (now : Time) (name : Name) :
    Option Message :=
  (hitIn codec entries (q.withName name) now).map Prod.fst

variable (codec) in
/-- The first of some names that has a cached response, with the response. -/
def firstCached (entries : List (LruKey × CacheBlob)) (q : CacheQuery) (now : Time)
    (names : List Name) : Option (Name × Message) :=
  names.findSome? fun name => (cachedFor codec entries q now name).map (Prod.mk name)

/-- The verdict of the loop: the first response found decides. -/
def verdictOfParents (q : CacheQuery) : Option (Name × Message) → Option (Message × Bool)
  | some (_, answer) => if answer.rcode = rcodeNameError then some (q.msg.nxdomain, false) else none
  | none => none

variable {capacity : Int} {cache : LruCache} {entries : List (LruKey × CacheBlob)}

theorem firstCached_after_lookup (entries : List (LruKey × CacheBlob)) (other q : CacheQuery)
    (now : Time) :
    firstCached codec (entriesAfterLookup codec entries other now) q now =
      firstCached codec entries q now := by
  unfold firstCached cachedFor
  simp only [hitIn_after_lookup]

variable {answer : Message} {name : Name} {now : Time} {q : CacheQuery}

theorem firstCached_eq_some_iff {names : List Name} :
    firstCached codec entries q now names = some (name, answer) ↔
      ∃ nearer farther, names = nearer ++ name :: farther ∧
        cachedFor codec entries q now name = some answer ∧
        ∀ other ∈ nearer, cachedFor codec entries q now other = none := by
  simp only [firstCached, List.findSome?_eq_some_iff, Option.map_eq_some_iff,
    Option.map_eq_none_iff, Prod.mk.injEq]
  constructor
  · rintro ⟨nearer, other, farther, split, ⟨found, cached, rfl, rfl⟩, uncached⟩
    exact ⟨nearer, farther, split, cached, uncached⟩
  · rintro ⟨nearer, farther, split, cached, uncached⟩
    exact ⟨nearer, name, farther, split, ⟨answer, cached, rfl, rfl⟩, uncached⟩

variable (codec) in
theorem answerFromParents_eq (represents : Represents hash capacity cache entries)
    (q : CacheQuery) (now : Time) (names : List Name) :
    (answerFromParents hash codec q now cache names).map Prod.snd =
      some (verdictOfParents q (firstCached codec entries q now names)) := by
  induction names generalizing cache entries with
  | nil => rfl
  | cons name rest ih =>
    obtain ⟨next, looked, represents'⟩ :=
      Memory.represents_lookup codec represents (q.withName name) now
    have later := ih represents'
    rw [firstCached_after_lookup] at later
    simp only [answerFromParents, looked]
    cases found : hitIn codec entries (q.withName name) now with
    | none => simpa [firstCached, cachedFor, found] using later
    | some hit =>
      by_cases missing : hit.1.rcode = rcodeNameError <;>
        simp [firstCached, cachedFor, found, verdictOfParents, missing]

/-! ## When the synthesised response is right -/

variable (hash codec opt) in
/-- The cache misses a query and makes up an NXDOMAIN for it. -/
def Synthesises (cache : LruCache) (q : CacheQuery) (now : Time) : Prop :=
  (Memory.lookup hash codec cache q now).map Prod.snd = some none ∧
    (answerFromCache hash codec opt cache q now).map Prod.snd =
      some (some (q.msg.nxdomain, false))

theorem synthesises_iff (harden : opt.hardenBelowNXDOMAIN = true)
    (represents : Represents hash capacity cache entries) (q : CacheQuery) (now : Time) :
    Synthesises hash codec opt cache q now ↔
      hitIn codec entries q now = none ∧
        ∃ name answer, firstCached codec entries q now (parentNames q.question.name) =
          some (name, answer) ∧ answer.rcode = rcodeNameError := by
  obtain ⟨next, looked, represents'⟩ := Memory.represents_lookup codec represents q now
  have parents := answerFromParents_eq codec represents' q now (parentNames q.question.name)
  rw [firstCached_after_lookup] at parents
  rw [Synthesises, answerFromCache, looked]
  cases hitIn codec entries q now with
  | some hit => simp
  | none =>
    simp only [Option.map_some, harden, if_true, true_and, Option.bind_eq_bind,
      Option.bind_some, parents, Option.some.injEq]
    cases firstCached codec entries q now (parentNames q.question.name) with
    | none => simp [verdictOfParents]
    | some found => simp [verdictOfParents, Prod.ext_iff]

/-- A record is an alias owned by a name. -/
def IsAliasOf (name : Name) (record : Record) : Prop :=
  record.header.rrtype = typeCNAME ∧ toLower record.header.name = toLower name

instance (name : Name) (record : Record) : Decidable (IsAliasOf name record) :=
  inferInstanceAs (Decidable (_ ∧ _))

/-- A response states that a name itself does not exist: it is an NXDOMAIN, and not one at
the end of a chain of aliases that starts at the name. -/
def Denies (name : Name) (answer : Message) : Prop :=
  answer.rcode = rcodeNameError ∧ ∀ record ∈ answer.answer, ¬ IsAliasOf name record

instance (name : Name) (answer : Message) : Decidable (Denies name answer) :=
  inferInstanceAs (Decidable (_ ∧ _))

variable (codec) in
/-- An ancestor of the query name is cached as denied, and no nearer one has a cached
response that says otherwise. -/
def Justified (entries : List (LruKey × CacheBlob)) (q : CacheQuery) (now : Time) : Prop :=
  ∃ nearer name farther answer, ancestors q.question.name = nearer ++ name :: farther ∧
    cachedFor codec entries q now name = some answer ∧ Denies name answer ∧
    ∀ other ∈ nearer, ∀ response, cachedFor codec entries q now other = some response →
      Denies other response

/-- Of two elements that split a list, one is before the other or they are the same. -/
theorem split_cases {α : Type} {front back front' back' : List α} {first second : α}
    (same : front ++ first :: back = front' ++ second :: back') :
    second ∈ front ∨ first = second ∨ first ∈ front' := by
  rcases List.append_eq_append_iff.mp same with ⟨between, rfl, rest⟩ | ⟨between, rfl, rest⟩
  · cases between with
    | nil => exact .inr (.inl (List.cons.inj rest).1)
    | cons head tail =>
      rw [(List.cons.inj rest).1]
      exact .inr (.inr (by simp))
  · cases between with
    | nil => exact .inr (.inl (List.cons.inj rest).1.symm)
    | cons head tail =>
      rw [(List.cons.inj rest).1]
      exact .inl (by simp)

/-- The nearest cached ancestor decides whether a made up NXDOMAIN is justified. -/
theorem justified_iff :
    Justified codec entries q now ↔
      ∃ name answer, firstCached codec entries q now (ancestors q.question.name) =
        some (name, answer) ∧ Denies name answer := by
  constructor
  · rintro ⟨nearer, name, farther, answer, split, cached, denied, others⟩
    have some_ : (firstCached codec entries q now (ancestors q.question.name)).isSome := by
      rw [firstCached, List.findSome?_isSome_iff]
      exact ⟨name, by rw [split]; simp, by rw [cached]; rfl⟩
    obtain ⟨⟨nearest, response⟩, found⟩ := Option.isSome_iff_exists.mp some_
    refine ⟨nearest, response, found, ?_⟩
    obtain ⟨nearer', farther', split', cached', uncached⟩ := firstCached_eq_some_iff.mp found
    rcases split_cases (split.symm.trans split') with before | rfl | before
    · exact others nearest before response cached'
    · rw [cached] at cached'
      cases cached'
      exact denied
    · rw [uncached name before] at cached
      cases cached
  · rintro ⟨name, answer, found, denied⟩
    obtain ⟨nearer, farther, split, cached, uncached⟩ := firstCached_eq_some_iff.mp found
    refine ⟨nearer, name, farther, answer, split, cached, denied, ?_⟩
    intro other before response found
    rw [uncached other before] at found
    cases found

/-- If the first cached text behind a dot is an ancestor, it is the nearest cached one. -/
theorem firstCached_ancestors
    (found : firstCached codec entries q now (parentNames q.question.name) = some (name, answer))
    (member : name ∈ ancestors q.question.name) :
    firstCached codec entries q now (ancestors q.question.name) = some (name, answer) := by
  obtain ⟨front, back, texts, cached, uncached⟩ := firstCached_eq_some_iff.mp found
  obtain ⟨nearer, farther, split, first⟩ := List.eq_append_cons_of_mem member
  rw [parentNames_eq] at texts
  exact firstCached_eq_some_iff.mpr ⟨nearer, farther, split, cached, fun other before =>
    uncached other (mem_before_of_ancestors split first texts before)⟩

variable (codec) in
/-- An NXDOMAIN cached for a text behind a dot justifies one for the query: it is an ancestor and
the response has no alias of its own name, or it is none and the nearest cached ancestor is
denied. -/
def Warrants (entries : List (LruKey × CacheBlob)) (q : CacheQuery) (now : Time) (name : Name)
    (answer : Message) : Prop :=
  if name ∈ ancestors q.question.name then ∀ record ∈ answer.answer, ¬ IsAliasOf name record
  else ∃ nearest denial, firstCached codec entries q now (ancestors q.question.name) =
    some (nearest, denial) ∧ Denies nearest denial

/-- For any query and any content of the cache: if the cache makes up an NXDOMAIN, it is justified
by an ancestor, exactly if the query itself is cached or the first cached text behind a dot of
its name has no NXDOMAIN or one that warrants this.  The ancestors of a printed name are those
whose labels are a proper suffix of its own. -/
theorem synthesis_justified_iff (hash : LruKey → UInt64) (codec : Codec) (opt : CacheOptions)
    (capacity : Int) (cache : LruCache) (entries : List (LruKey × CacheBlob)) (q : CacheQuery)
    (now : Time) (harden : opt.hardenBelowNXDOMAIN = true)
    (represents : Represents hash capacity cache entries) :
    ((Synthesises hash codec opt cache q now → Justified codec entries q now) ↔
      (hitIn codec entries q now).isSome ∨
        ∀ name answer, firstCached codec entries q now (parentNames q.question.name) =
          some (name, answer) → answer.rcode = rcodeNameError →
            Warrants codec entries q now name answer) ∧
    ∀ qname : DomainName, q.question.name = qname.print →
      ancestors q.question.name =
        (List.range qname.labels.length).map fun count => (qname.drop (count + 1)).print := by
  refine ⟨?_, fun qname printed => printed ▸ ancestors_print qname⟩
  rw [synthesises_iff harden represents, justified_iff]
  constructor
  · intro justified
    cases missed : hitIn codec entries q now with
    | some hit => exact .inl rfl
    | none =>
      refine .inr fun name answer found missing => ?_
      obtain ⟨nearest, denial, nearestFound, denied⟩ :=
        justified ⟨missed, name, answer, found, missing⟩
      unfold Warrants
      split
      · rename_i member
        rw [firstCached_ancestors found member] at nearestFound
        cases nearestFound
        exact denied.2
      · exact ⟨nearest, denial, nearestFound, denied⟩
  · rintro condition ⟨missed, name, answer, found, missing⟩
    rcases condition with hit | warranted
    · rw [missed] at hit
      cases hit
    · have warrants := warranted name answer found missing
      unfold Warrants at warrants
      split at warrants
      · rename_i member
        exact ⟨name, answer, firstCached_ancestors found member, missing, warrants⟩
      · exact warrants

/-- An NXDOMAIN with the given answer section. -/
def denialWith (answer : List Record) : Message :=
  { Message.empty with response := true, rcode := rcodeNameError, answer := answer }

/-- The alias of a name to one that does not exist. -/
def danglingAlias (ttl : UInt32) : Record :=
  .rr (.cname
    { hdr := { owner := { labels := [text "alias", text "example"] }, rrtype := typeCNAME
               rrclass := classINET, ttl := ttl }
      targetName := { labels := [text "gone", text "example"] } })

/-- A denial, with an alias for each record of the answer section, packed. -/
def denialWire (answer : List Record) : List Byte :=
  [0, 0, 128, 3, 0, 0, 0, Fin.ofNat 256 answer.length, 0, 0, 0, 0] ++ answer.flatMap fun _ =>
    5 :: text "alias" ++ 7 :: text "example" ++ [0, 0, 5, 0, 1, 0, 0, 1, 44, 0, 14] ++
      4 :: text "gone" ++ 7 :: text "example" ++ [0]

def denialCodec (answer : List Record) : Codec :=
  codecOf (denialWith answer) (denialWire answer)

/-- The store of an NXDOMAIN for a name. -/
def denialStored (name : Name) (answer : List Record) : List (Instant × Step) :=
  [(sampleInstant 5, .store (sampleQuery name) (denialWith answer))]

/-- The entries of the cache after that store. -/
def denialEntries (name : Name) (answer : List Record) : List (LruKey × CacheBlob) :=
  entriesAfter (fun _ => 0) (denialCodec answer) sampleOptions 0
    (denialStored name answer)

/-- With an NXDOMAIN stored for one name, the cache makes one up for another. -/
def SynthesisedBy (name : Name) (answer : List Record) (asked : Name) : Prop :=
  ∃ cache, Memory.performAll (fun _ => 0) (denialCodec answer) sampleOptions
      (newLRUCache 0) (denialStored name answer) = some cache ∧
    Synthesises (fun _ => 0) (denialCodec answer) sampleOptions cache
      (sampleQuery asked) (sampleInstant 6).time

/-- The NXDOMAIN as it is served for a name. -/
def servedDenial (name : Name) (answer : List Record) : Message :=
  { denialWith answer with question := (sampleQuery name).msg.question }

theorem represents_denial (name : Name) (answer : List Record) :
    ∃ cache, Memory.performAll (fun _ => 0) (denialCodec answer) sampleOptions
        (newLRUCache 0) (denialStored name answer) = some cache ∧
      Represents (fun _ => 0) 0 cache (denialEntries name answer) :=
  Memory.represents_entriesAfter (fun _ => 0) (denialCodec answer) sampleOptions 0
    (denialStored name answer)

theorem synthesisedBy_of_found {asked parent : Name} {answer : List Record} {found : Message}
    (missed : hitIn (denialCodec answer) (denialEntries name answer)
      (sampleQuery asked) (sampleInstant 6).time = none)
    (first : firstCached (denialCodec answer) (denialEntries name answer)
      (sampleQuery asked) (sampleInstant 6).time (parentNames asked) = some (parent, found))
    (missing : found.rcode = rcodeNameError) : SynthesisedBy name answer asked := by
  obtain ⟨cache, ran, represents⟩ := represents_denial name answer
  exact ⟨cache, ran, (synthesises_iff rfl represents _ _).mpr
    ⟨missed, parent, found, first, missing⟩⟩

theorem denial_synthesised_below :
    ∃ cache, Memory.performAll (fun _ => 0) (denialCodec []) sampleOptions
        (newLRUCache 0) (denialStored (text "b.example.") []) = some cache ∧
      Synthesises (fun _ => 0) (denialCodec []) sampleOptions cache
        (sampleQuery (text "a.b.example.")) (sampleInstant 6).time ∧
      Justified (denialCodec []) (denialEntries (text "b.example.") [])
        (sampleQuery (text "a.b.example.")) (sampleInstant 6).time := by
  obtain ⟨cache, ran, represents⟩ := represents_denial (text "b.example.") []
  have first : firstCached (denialCodec []) (denialEntries (text "b.example.") [])
      (sampleQuery (text "a.b.example.")) (sampleInstant 6).time
        (parentNames (text "a.b.example.")) =
      some (text "b.example.", servedDenial (text "b.example.") []) := by
    decide +kernel
  have synthesises : Synthesises (fun _ => 0) (denialCodec []) sampleOptions cache
      (sampleQuery (text "a.b.example.")) (sampleInstant 6).time :=
    (synthesises_iff rfl represents _ _).mpr ⟨by decide +kernel, _, _, first, rfl⟩
  refine ⟨cache, ran, synthesises, (synthesis_justified_iff (fun _ => 0)
    (denialCodec []) sampleOptions 0 cache (denialEntries (text "b.example.") [])
    (sampleQuery (text "a.b.example.")) (sampleInstant 6).time rfl represents).1.mpr
    (.inr ?_) synthesises⟩
  intro name answer found _
  cases first.symm.trans found
  rw [Warrants, if_pos (by decide)]
  intro record member
  cases member

/-- The cache makes up an NXDOMAIN below an alias whose target does not exist, and for a name
with an escaped dot because of what stands behind that dot. -/
theorem synthesis_not_justified :
    (SynthesisedBy (text "alias.example.") [danglingAlias 300] (text "www.alias.example.") ∧
      ¬ Justified (denialCodec [danglingAlias 300])
        (denialEntries (text "alias.example.") [danglingAlias 300])
        (sampleQuery (text "www.alias.example.")) (sampleInstant 6).time) ∧
    (SynthesisedBy (text "b.example.") [] (text "a\\.b.example.") ∧
      ¬ Justified (denialCodec []) (denialEntries (text "b.example.") [])
        (sampleQuery (text "a\\.b.example.")) (sampleInstant 6).time) := by
  refine ⟨⟨?_, ?_⟩, ?_, ?_⟩
  · exact synthesisedBy_of_found (by decide +kernel)
      (by decide +kernel : _ = some (text "alias.example.",
        servedDenial (text "alias.example.") [danglingAlias 299])) rfl
  · have nearest : firstCached (denialCodec [danglingAlias 300])
        (denialEntries (text "alias.example.") [danglingAlias 300])
        (sampleQuery (text "www.alias.example.")) (sampleInstant 6).time
          (ancestors (text "www.alias.example.")) =
        some (text "alias.example.", servedDenial (text "alias.example.") [danglingAlias 299]) := by
      decide +kernel
    rw [justified_iff]
    rintro ⟨name, answer, found, denied⟩
    cases nearest.symm.trans found
    exact denied.2 (danglingAlias 299) List.mem_cons_self (by decide)
  · exact synthesisedBy_of_found (by decide +kernel)
      (by decide +kernel :
        _ = some (text "b.example.", servedDenial (text "b.example.") [])) rfl
  · have nearest : firstCached (denialCodec []) (denialEntries (text "b.example.") [])
        (sampleQuery (text "a\\.b.example.")) (sampleInstant 6).time
          (ancestors (text "a\\.b.example.")) = none := by
      decide +kernel
    rw [justified_iff]
    rintro ⟨name, answer, found, _⟩
    cases nearest.symm.trans found

end RouteDns.Cache
