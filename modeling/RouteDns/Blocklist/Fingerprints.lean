import Mathlib.Data.List.Sort
import RouteDns.Program.Buckets
import RouteDns.Blocklist.Trie

/-!
# Fingerprints of a domain list

The compact database keeps no labels.  It has one word for every name on the way to a rule: a
fingerprint of 60 bits, which is a hash of the labels, and the flags of the name in the four
bits that are left.  The words are sorted, words with one fingerprint are merged, and an index
says where the words with given top bits start.

A search returns the flags of every name with the fingerprint it looks for.  It misses nothing
that was recorded, whatever the filter for repeated words dropped on the way.
-/

namespace RouteDns.Blocklist

open Dns

/-! ## Words -/

def domainFlagBits : Nat := 4

def domainFlagMask : Nat := 15

/-- Fold a label into the hash of the labels behind it. -/
def domainSuffixHash (h : Nat) (label : Label) : Nat :=
  (fnv h label ^^^ dot.val) * fnvPrime64 % 2 ^ 64

def domainEntry (h flags : Nat) : Nat :=
  (avalanche64 h >>> domainFlagBits) <<< domainFlagBits ||| flags

/-- The fingerprint of a word. -/
def fingerprintOf (entry : Nat) : Nat :=
  entry >>> domainFlagBits

/-! ## Collecting -/

/-- The words written last, by the low bits of their fingerprint. -/
abbrev DomainRecent := Nat → Nat

def DomainRecent.place (entry : Nat) : Nat :=
  fingerprintOf entry &&& 4095

/-- Whether a word was written lately; it is noted if not. -/
def DomainRecent.seen (r : DomainRecent) (entry : Nat) : Bool × DomainRecent :=
  if r (place entry) = entry then (true, r)
  else (false, Function.update r (place entry) entry)

/-- What is collected from the rules. -/
structure Collected where
  entries : List Nat
  recent : DomainRecent

namespace Collected

def new : Collected where
  entries := []
  recent := fun _ => 0

/-- Write a word, unless it was written lately. -/
def write (c : Collected) (entry : Nat) : Collected :=
  match c.recent.seen entry with
  | (true, recent) => { c with recent := recent }
  | (false, recent) => { entries := c.entries ++ [entry], recent := recent }

/-- One round of recording a rule, with the hash so far. -/
def round (flag : Nat) (at_ : Nat × Collected) (round : Round) : Nat × Collected :=
  let h := domainSuffixHash at_.1 round.label
  let e := if round.more then domainEntry h ruleHasChildren else domainEntry h flag
  (h, at_.2.write e)

def record (seed : Nat) (c : Collected) (domain : Text) (flag : Nat) : Collected :=
  ((rounds domain).foldl (round flag) (seed, c)).2

end Collected

/-! ## Building -/

structure DomainFingerprints where
  entries : List Nat
  index : List Nat
  shift : Nat
  seed : Nat
  deriving DecidableEq

/-- Add a word to sorted and merged ones. -/
def mergeEntry (merged : List Nat) (e : Nat) : List Nat :=
  match merged.getLast? with
  | none => [e]
  | some last =>
    if last >>> domainFlagBits = e >>> domainFlagBits then
      merged.dropLast ++ [last ||| (e &&& domainFlagMask)]
    else merged ++ [e]

/-- Double the number of buckets until they are small enough. -/
def growBuckets (count : Nat) : (fuel buckets : Nat) → Nat
  | 0, buckets => buckets
  | fuel + 1, buckets =>
    if buckets * 8 < count then growBuckets count fuel (buckets * 2) else buckets

/-- Count bits until they suffice for the buckets. -/
def growBits (buckets : Nat) : (fuel bits : Nat) → Nat
  | 0, bits => bits
  | fuel + 1, bits => if 2 ^ bits < buckets then growBits buckets fuel (bits + 1) else bits

def domainBucketBits (buckets : Nat) : Nat :=
  growBits buckets buckets 0

/-- The fingerprints of some words. -/
def buildFingerprints (seed : Nat) (entries : List Nat) : DomainFingerprints :=
  let merged := (entries.insertionSort (· ≤ ·)).foldl mergeEntry []
  let buckets := growBuckets merged.length merged.length 8
  let shift := 64 - domainBucketBits buckets
  { entries := merged
    index := (List.range buckets).map (fun b => Buckets.start (· >>> shift) merged b % 2 ^ 32) ++
      [merged.length % 2 ^ 32]
    shift := shift
    seed := seed }

/-! ## Searching -/

namespace DomainFingerprints

/-- Look for a word among sorted ones, up to the first that is greater. -/
def findIn (want : Nat) : List Nat → Option Nat
  | [] => none
  | e :: rest =>
    if (e >>> domainFlagBits) <<< domainFlagBits = want then some (e % 256 &&& domainFlagMask)
    else if want < e then none
    else findIn want rest

/-- The flags recorded for a hash. -/
def find (f : DomainFingerprints) (h : Nat) : Option Nat :=
  let want := domainEntry h 0
  let bucket := want >>> f.shift
  let first := f.index.getD bucket 0
  let last := f.index.getD (bucket + 1) 0
  findIn want ((f.entries.drop first).take (last - first))

/-- The flags of the root. -/
def rootFlags (f : DomainFingerprints) : Nat :=
  if f.entries.length = 0 then 0 else ruleHasChildren

end DomainFingerprints

/-! ## What is collected -/

/-- The hash of some labels. -/
def hashOf (seed : Nat) : List Label → Nat
  | [] => seed
  | label :: above => domainSuffixHash (hashOf seed above) label

/-- The fingerprint of some labels. -/
def fingerprint (seed : Nat) (name : List Label) : Nat :=
  avalanche64 (hashOf seed name) >>> domainFlagBits

/-- The word for flags on a name. -/
def wordOf (seed : Nat) (mark : List Label × Nat) : Nat :=
  domainEntry (hashOf seed mark.1) mark.2

variable {flags : Nat}

theorem domainEntry_eq (small : flags < 16) (h : Nat) :
    domainEntry h flags = 16 * (avalanche64 h >>> domainFlagBits) + flags := by
  rw [domainEntry, Nat.shiftLeft_eq, Nat.mul_comm]
  exact (Nat.two_pow_add_eq_or_of_lt (show flags < 2 ^ 4 from small) _).symm

theorem fingerprintOf_domainEntry (small : flags < 16) (h : Nat) :
    fingerprintOf (domainEntry h flags) = avalanche64 h >>> domainFlagBits := by
  rw [fingerprintOf, domainEntry_eq small, domainFlagBits, Nat.shiftRight_eq_div_pow]
  omega

theorem domainEntry_lt (small : flags < 16) (h : Nat) :
    domainEntry h flags < 2 ^ 64 := by
  have bounded := avalanche64_lt h
  rw [domainEntry_eq small, domainFlagBits, Nat.shiftRight_eq_div_pow]
  omega

variable {flag m want : Nat} {c : Collected} {mark : List Label × Nat} {list : List Nat}

/-- The low bits of a word decide about its flags. -/
theorem and_flag (bit : flag < 16) (entry : Nat) : entry &&& flag = entry % 16 &&& flag := by
  apply Nat.eq_of_testBit_eq
  intro index
  rw [Nat.testBit_and, Nat.testBit_and, show 16 = 2 ^ 4 from rfl, Nat.testBit_mod_two_pow]
  by_cases low : index < 4
  · simp [low]
  · have outside : flag.testBit index = false :=
      Nat.testBit_lt_two_pow (Nat.lt_of_lt_of_le bit
        (Nat.pow_le_pow_right (show 0 < 2 by decide) (Nat.not_lt.mp low)))
    simp [outside]

theorem domainEntry_and_flag {flags : Nat} (small : flags < 16) (bit : flag < 16) (h : Nat) :
    domainEntry h flags &&& flag = flags &&& flag := by
  rw [and_flag bit, domainEntry_eq small, Nat.mul_add_mod, ← and_flag bit]

theorem Shape.flag_lt (shape : Shape) : shape.flag < 16 := by
  cases shape <;> decide

theorem Shape.flag_ne_zero (shape : Shape) : shape.flag ≠ 0 := by
  cases shape <;> decide

namespace Collected

/-- What the filter has noted is written. -/
def Sound (c : Collected) : Prop :=
  ∀ place, c.recent place ≠ 0 → c.recent place ∈ c.entries

theorem sound_new : new.Sound :=
  fun _ noted => absurd rfl noted

/-- A word the filter drops is there already. -/
theorem Sound.write (sound : c.Sound) {entry : Nat} (proper : entry ≠ 0) :
    (c.write entry).Sound ∧
      ∀ other, other ∈ (c.write entry).entries ↔ other ∈ c.entries ∨ other = entry := by
  unfold Collected.write DomainRecent.seen
  by_cases noted : c.recent (DomainRecent.place entry) = entry
  · rw [if_pos noted]
    refine ⟨sound, fun other => ⟨.inl, ?_⟩⟩
    rintro (old | rfl)
    · exact old
    · have there := sound (DomainRecent.place other) (by rwa [noted])
      rwa [noted] at there
  · rw [if_neg noted]
    refine ⟨?_, fun other => by simp⟩
    intro place kept
    simp only at kept ⊢
    by_cases here : place = DomainRecent.place entry
    · rw [here, Function.update_self]
      exact List.mem_append_right _ (List.mem_singleton.mpr rfl)
    · rw [Function.update_of_ne here] at kept ⊢
      exact List.mem_append_left _ (sound place kept)

end Collected

theorem wordOf_ne_zero {seed : Nat} {name : List Label} (small : flags < 16) (proper : flags ≠ 0) :
    wordOf seed (name, flags) ≠ 0 := by
  rw [wordOf, domainEntry_eq small]
  omega

/-- The flags below a name start with those of the next label. -/
theorem marksFrom_eq_cons (flag : Nat) (above rest : List Label) :
    marksFrom flag above rest =
      (above, if rest = [] then flag else ruleHasChildren) :: (marksFrom flag above rest).tail := by
  cases rest <;> rfl

/-- A rule writes the words for the names below the root. -/
theorem Collected.Sound.rounds (sound : c.Sound) (seed : Nat) (small : flag < 16)
    (proper : flag ≠ 0) {above : List Label} {steps : List Round}
    (continues : Continues above steps) :
    (steps.foldl (Collected.round flag) (hashOf seed above, c)).2.Sound ∧
      ∀ other, other ∈ (steps.foldl (Collected.round flag) (hashOf seed above, c)).2.entries ↔
        other ∈ c.entries ∨
          ∃ mark ∈ (marksFrom flag above (steps.map Round.label)).tail,
            other = wordOf seed mark := by
  induction steps generalizing c above with
  | nil => exact ⟨sound, by simp [marksFrom]⟩
  | cons round rest ih =>
    obtain ⟨_, more, further⟩ := continues
    generalize flags_eq : (if rest.map Round.label = [] then flag else ruleHasChildren) = flags
    have flags_lt : flags < 16 := by
      rw [← flags_eq]
      split
      · exact small
      · decide
    have flags_ne : flags ≠ 0 := by
      rw [← flags_eq]
      split
      · exact proper
      · decide
    have step : Collected.round flag (hashOf seed above, c) round =
        (hashOf seed (round.label :: above),
          c.write (wordOf seed (round.label :: above, flags))) := by
      rw [Collected.round, wordOf, ← flags_eq]
      by_cases last : rest = []
      · have ends : round.more = false := by
          rw [Bool.eq_false_iff]
          exact fun goesOn => more.mp goesOn last
        simp [last, ends, hashOf]
      · simp [last, more.mpr last, hashOf]
    obtain ⟨written, members⟩ := sound.write (wordOf_ne_zero flags_lt flags_ne)
    obtain ⟨kept, later⟩ := ih written further
    rw [List.foldl_cons, step]
    refine ⟨kept, fun other => ?_⟩
    rw [later, members, List.map_cons, marksFrom, List.tail_cons, marksFrom_eq_cons, flags_eq]
    simp [or_assoc]

theorem Rule.mem_tail_marks {rule : Rule} :
    mark ∈ rule.marks.tail ↔ mark ∈ rule.marks ∧ mark.1 ≠ [] := by
  obtain ⟨label, rest, filed_eq⟩ := List.exists_cons_of_ne_nil
    (show (filed rule.base).reverse ≠ [] by simpa using filed_ne_nil rule.base)
  rw [Rule.marks, filed_eq, marksFrom, List.tail_cons, List.mem_cons]
  constructor
  · intro member
    refine ⟨.inr member, ?_⟩
    rcases mem_marksFrom.mp member with ⟨below, _⟩ | rfl
    · rintro empty
      rw [empty] at below
      cases List.suffix_nil.mp below
    · simp
  · rintro ⟨rfl | member, proper⟩
    · exact absurd rfl proper
    · exact member

/-- The words of some rules. -/
def IsWord (seed : Nat) (rules : List Rule) (entry : Nat) : Prop :=
  ∃ mark ∈ rules.flatMap Rule.marks, mark.1 ≠ [] ∧ entry = wordOf seed mark

theorem flags_lt_of_mem_marks {rules : List Rule} (marked : mark ∈ rules.flatMap Rule.marks) :
    mark.2 < 16 := by
  obtain ⟨rule, _, member⟩ := List.mem_flatMap.mp marked
  rcases Rule.mem_marks.mp member with ⟨_, _, flags⟩ | rfl
  · rw [flags]
    decide
  · exact rule.shape.flag_lt

theorem Collected.Sound.records (sound : c.Sound) (seed : Nat) (rules : List Rule) :
    (rules.foldl (fun c rule => c.record seed rule.base rule.shape.flag) c).Sound ∧
      ∀ entry, entry ∈ (rules.foldl (fun c rule =>
          c.record seed rule.base rule.shape.flag) c).entries ↔
        entry ∈ c.entries ∨ IsWord seed rules entry := by
  induction rules generalizing c with
  | nil => exact ⟨sound, by simp [IsWord]⟩
  | cons rule rest ih =>
    obtain ⟨kept, written⟩ := sound.rounds seed rule.shape.flag_lt
      rule.shape.flag_ne_zero (continues_rounds rule.base)
    rw [map_label_rounds] at written
    obtain ⟨kept, members⟩ := ih kept
    refine ⟨kept, fun entry => ?_⟩
    have own : entry ∈ (c.record seed rule.base rule.shape.flag).entries ↔
        entry ∈ c.entries ∨ ∃ mark ∈ rule.marks.tail, entry = wordOf seed mark := written entry
    have all : entry ∈ ((rule :: rest).foldl (fun c rule =>
        c.record seed rule.base rule.shape.flag) c).entries ↔
        entry ∈ (c.record seed rule.base rule.shape.flag).entries ∨ IsWord seed rest entry :=
      members entry
    rw [all, own]
    simp only [Rule.mem_tail_marks, IsWord, List.flatMap_cons, List.mem_append, or_and_right,
      exists_or, and_assoc, or_assoc]

/-! ## Merging -/

/-- Sorted words with their flags merged. -/
structure Merges (entries merged : List Nat) : Prop where
  ascending : merged.Pairwise fun first second => fingerprintOf first < fingerprintOf second
  present : ∀ e ∈ entries, ∃ m ∈ merged, fingerprintOf m = fingerprintOf e
  known : ∀ m ∈ merged, m < 2 ^ 64 ∧ ∃ e ∈ entries, fingerprintOf e = fingerprintOf m
  flags : ∀ m ∈ merged, ∀ flag < 16,
    m &&& flag ≠ 0 ↔ ∃ e ∈ entries, fingerprintOf e = fingerprintOf m ∧ e &&& flag ≠ 0

theorem fingerprintOf_or (last e : Nat) :
    fingerprintOf (last ||| (e &&& domainFlagMask)) = fingerprintOf last := by
  have low : (e &&& domainFlagMask) >>> domainFlagBits = 0 := by
    rw [domainFlagMask, show 15 = 2 ^ 4 - 1 from rfl, Nat.and_two_pow_sub_one_eq_mod,
      domainFlagBits, Nat.shiftRight_eq_div_pow]
    omega
  rw [fingerprintOf, Nat.shiftRight_or_distrib, low, Nat.or_zero, fingerprintOf]

theorem or_and_flag_ne_zero (bit : flag < 16) (last e : Nat) :
    (last ||| (e &&& domainFlagMask)) &&& flag ≠ 0 ↔ last &&& flag ≠ 0 ∨ e &&& flag ≠ 0 := by
  have low : e &&& domainFlagMask &&& flag = e &&& flag := by
    rw [domainFlagMask, show 15 = 2 ^ 4 - 1 from rfl, Nat.and_two_pow_sub_one_eq_mod,
      ← and_flag bit]
  rw [or_and_ne_zero, low]

theorem mergeEntry_concat (init : List Nat) (last e : Nat) :
    mergeEntry (init ++ [last]) e =
      if fingerprintOf last = fingerprintOf e then init ++ [last ||| (e &&& domainFlagMask)]
      else init ++ [last] ++ [e] := by
  rw [mergeEntry, List.getLast?_concat, List.dropLast_concat]
  rfl

section Shows

variable {test : Nat → Prop}
  (joins : ∀ last e, test (last ||| (e &&& domainFlagMask)) ↔ test last ∨ test e)

include joins

/-- Merging shows a word of some fingerprint if and only if it was there or is the new one. -/
theorem mergeEntry_shows (merged : List Nat) (e mark : Nat) :
    (∃ m ∈ mergeEntry merged e, fingerprintOf m = mark ∧ test m) ↔
      (∃ m ∈ merged, fingerprintOf m = mark ∧ test m) ∨ fingerprintOf e = mark ∧ test e := by
  rcases List.eq_nil_or_concat' merged with rfl | ⟨init, last, rfl⟩
  · simp [mergeEntry]
  · rw [mergeEntry_concat]
    split
    · rename_i equal
      simp only [List.mem_append, List.mem_singleton, or_and_right, exists_or, exists_eq_left,
        fingerprintOf_or, joins, equal, and_or_left, or_assoc]
    · simp only [List.mem_append, List.mem_singleton, or_and_right, exists_or, exists_eq_left]

theorem merged_shows (entries : List Nat) (mark : Nat) :
    (∃ m ∈ entries.foldl mergeEntry [], fingerprintOf m = mark ∧ test m) ↔
      ∃ e ∈ entries, fingerprintOf e = mark ∧ test e := by
  induction entries using List.reverseRecOn with
  | nil => rfl
  | append_singleton entries e ih =>
    rw [List.foldl_append, List.foldl_cons, List.foldl_nil, mergeEntry_shows joins, ih]
    simp [or_and_right, exists_or]

end Shows

/-- The merged words have the fingerprints of the given ones. -/
theorem merged_marks (entries : List Nat) (mark : Nat) :
    (∃ m ∈ entries.foldl mergeEntry [], fingerprintOf m = mark) ↔
      ∃ e ∈ entries, fingerprintOf e = mark := by
  simpa using @merged_shows (fun _ => True) (fun _ _ => by simp) entries mark

theorem mergeEntry_ascending {merged : List Nat} {e : Nat}
    (ascending : merged.Pairwise fun first second => fingerprintOf first < fingerprintOf second)
    (after : ∀ m ∈ merged, fingerprintOf m ≤ fingerprintOf e) :
    (mergeEntry merged e).Pairwise fun first second =>
      fingerprintOf first < fingerprintOf second := by
  rcases List.eq_nil_or_concat' merged with rfl | ⟨init, last, rfl⟩
  · exact List.pairwise_singleton _ _
  · obtain ⟨front, _, less⟩ := List.pairwise_append.mp ascending
    have before : ∀ m ∈ init, fingerprintOf m < fingerprintOf last :=
      fun m member => less m member last (List.mem_singleton.mpr rfl)
    rw [mergeEntry_concat]
    split
    · rw [List.pairwise_append]
      refine ⟨front, List.pairwise_singleton _ _, ?_⟩
      simpa [fingerprintOf_or] using before
    · rename_i differs
      have last_lt : fingerprintOf last < fingerprintOf e :=
        Nat.lt_of_le_of_ne (after last (by simp)) differs
      rw [List.pairwise_append]
      refine ⟨ascending, List.pairwise_singleton _ _, fun m member other same => ?_⟩
      rw [List.mem_singleton.mp same]
      rcases List.mem_append.mp member with inner | top
      · exact (before m inner).trans last_lt
      · rwa [List.mem_singleton.mp top]

theorem fingerprintOf_le {first second : Nat} (ordered : first ≤ second) :
    fingerprintOf first ≤ fingerprintOf second := by
  rw [fingerprintOf, fingerprintOf, Nat.shiftRight_eq_div_pow, Nat.shiftRight_eq_div_pow]
  exact Nat.div_le_div_right ordered

variable {entries : List Nat}

theorem foldl_mergeEntry_ascending (sorted : entries.Pairwise (· ≤ ·)) :
    (entries.foldl mergeEntry []).Pairwise fun first second =>
      fingerprintOf first < fingerprintOf second := by
  induction entries using List.reverseRecOn with
  | nil => exact List.Pairwise.nil
  | append_singleton entries e ih =>
    obtain ⟨front, _, last⟩ := List.pairwise_append.mp sorted
    rw [List.foldl_append]
    apply mergeEntry_ascending (ih front)
    intro m member
    obtain ⟨x, there, same⟩ := (merged_marks entries _).mp ⟨m, member, rfl⟩
    rw [← same]
    exact fingerprintOf_le (last x there e (List.mem_singleton.mpr rfl))

/-- Ascending words are told apart by their fingerprints. -/
theorem eq_of_fingerprintOf_eq {merged : List Nat}
    (ascending : merged.Pairwise fun first second => fingerprintOf first < fingerprintOf second)
    {other : Nat} (member : m ∈ merged) (otherMem : other ∈ merged)
    (same : fingerprintOf m = fingerprintOf other) : m = other :=
  List.inj_on_of_nodup_map (List.pairwise_map.mpr (ascending.imp Nat.ne_of_lt)) member otherMem same

/-- Merging sorted words. -/
theorem merges_foldl (sorted : entries.Pairwise (· ≤ ·)) (bounded : ∀ e ∈ entries, e < 2 ^ 64) :
    Merges entries (entries.foldl mergeEntry []) where
  ascending := foldl_mergeEntry_ascending sorted
  present e member := (merged_marks entries _).mpr ⟨e, member, rfl⟩
  known m member := by
    obtain ⟨e, there, same⟩ := (merged_marks entries _).mp ⟨m, member, rfl⟩
    refine ⟨?_, e, there, same⟩
    have small := bounded e there
    simp only [fingerprintOf, domainFlagBits, Nat.shiftRight_eq_div_pow] at same
    omega
  flags m member flag bit := by
    have shows := @merged_shows (· &&& flag ≠ 0) (or_and_flag_ne_zero bit) entries (fingerprintOf m)
    constructor
    · exact fun flagged => shows.mp ⟨m, member, rfl, flagged⟩
    · intro flagged
      obtain ⟨other, otherMem, same, flagged⟩ := shows.mpr flagged
      rwa [← eq_of_fingerprintOf_eq (foldl_mergeEntry_ascending sorted) otherMem member same]

theorem Merges.perm {entries others merged : List Nat} (merges : Merges others merged)
    (same : others.Perm entries) : Merges entries merged where
  ascending := merges.ascending
  present e member := merges.present e (same.mem_iff.mpr member)
  known m member := by
    obtain ⟨small, e, there, equal⟩ := merges.known m member
    exact ⟨small, e, same.mem_iff.mp there, equal⟩
  flags m member flag bit := by
    rw [merges.flags m member flag bit]
    simp only [same.mem_iff]

theorem merges_buildFingerprints (seed : Nat) (bounded : ∀ e ∈ entries, e < 2 ^ 64) :
    Merges entries (buildFingerprints seed entries).entries := by
  have same := List.perm_insertionSort (· ≤ ·) entries
  exact (merges_foldl (List.pairwise_insertionSort (· ≤ ·) entries)
    fun e member => bounded e (same.mem_iff.mp member)).perm same

/-! ## Buckets -/

/-- The number of buckets is a power of two, and not much greater than needed. -/
theorem growBuckets_eq (count fuel : Nat) {bits : Nat} (enough : 2 ^ bits * 4 ≤ max 32 count) :
    ∃ more, growBuckets count fuel (2 ^ bits) = 2 ^ more ∧ bits ≤ more ∧
      2 ^ more * 4 ≤ max 32 count := by
  induction fuel generalizing bits with
  | zero => exact ⟨bits, rfl, Nat.le_refl _, enough⟩
  | succ fuel ih =>
    rw [growBuckets]
    split
    · have doubled : 2 ^ bits * 2 = 2 ^ (bits + 1) := (Nat.pow_succ 2 bits).symm
      have enough : 2 ^ (bits + 1) * 4 ≤ max 32 count := by omega
      obtain ⟨more, grown, further, bound⟩ := ih enough
      rw [doubled]
      exact ⟨more, grown, by omega, bound⟩
    · exact ⟨bits, rfl, Nat.le_refl _, enough⟩

theorem growBits_eq {fuel bits more : Nat} (within : bits ≤ more) (enough : more ≤ bits + fuel) :
    growBits (2 ^ more) fuel bits = more := by
  induction fuel generalizing bits with
  | zero =>
    rw [growBits]
    omega
  | succ fuel ih =>
    rw [growBits]
    split
    · rename_i small
      have less := (Nat.pow_lt_pow_iff_right (show 1 < 2 by decide)).mp small
      exact ih less (by omega)
    · rename_i large
      have same : ¬ bits < more := fun less =>
        large ((Nat.pow_lt_pow_iff_right (show 1 < 2 by decide)).mpr less)
      omega

theorem domainBucketBits_eq (more : Nat) : domainBucketBits (2 ^ more) = more :=
  growBits_eq (Nat.zero_le _) (by rw [Nat.zero_add]; exact Nat.lt_two_pow_self.le)

/-! ## Finding -/

theorem fingerprintOf_shiftLeft (e want : Nat) :
    (e >>> domainFlagBits) <<< domainFlagBits = 16 * want ↔ fingerprintOf e = want := by
  rw [Nat.shiftLeft_eq, domainFlagBits, fingerprintOf, domainFlagBits]
  omega

/-- The word that is looked for, if it is there. -/
theorem findIn_eq_some
    (ascending : list.Pairwise fun first second => fingerprintOf first < fingerprintOf second)
    (member : m ∈ list) (here : fingerprintOf m = want) :
    DomainFingerprints.findIn (16 * want) list = some (m % 256 &&& domainFlagMask) := by
  induction list with
  | nil => cases member
  | cons e rest ih =>
    obtain ⟨later, ascending⟩ := List.pairwise_cons.mp ascending
    rw [DomainFingerprints.findIn]
    simp only [fingerprintOf_shiftLeft]
    rcases List.mem_cons.mp member with rfl | member
    · rw [if_pos here]
    · have before := later m member
      have below : ¬ 16 * want < e := by
        rw [fingerprintOf, fingerprintOf, domainFlagBits, Nat.shiftRight_eq_div_pow,
          Nat.shiftRight_eq_div_pow] at before
        rw [fingerprintOf, domainFlagBits, Nat.shiftRight_eq_div_pow] at here
        omega
      rw [if_neg (by omega), if_neg below]
      exact ih ascending member

theorem findIn_eq_none (absent : ∀ m ∈ list, fingerprintOf m ≠ want) :
    DomainFingerprints.findIn (16 * want) list = none := by
  induction list with
  | nil => rfl
  | cons e rest ih =>
    obtain ⟨first, others⟩ := List.forall_mem_cons.mp absent
    rw [DomainFingerprints.findIn]
    simp only [fingerprintOf_shiftLeft, if_neg first]
    split
    · rfl
    · exact ih others

/-- The starts of the buckets of some words, and the end of the last bucket. -/
def indexOf (bits : Nat) (merged : List Nat) : List Nat :=
  (List.range (2 ^ bits)).map (fun b => Buckets.start (· >>> (64 - bits)) merged b % 2 ^ 32) ++
    [merged.length % 2 ^ 32]

section Search

variable {merged : List Nat} {bits : Nat}

/-- The fingerprint of a word decides about its bucket. -/
theorem shiftRight_eq_fingerprintOf (enough : bits ≤ 60) (m : Nat) :
    m >>> (64 - bits) = fingerprintOf m >>> (60 - bits) := by
  rw [fingerprintOf, ← Nat.shiftRight_add, domainFlagBits]
  congr 1
  omega

theorem shiftRight_lt (enough : bits ≤ 60) (bounded : m < 2 ^ 64) :
    m >>> (64 - bits) < 2 ^ bits := by
  rw [Nat.shiftRight_eq_div_pow, Nat.div_lt_iff_lt_mul (Nat.two_pow_pos _), ← Nat.pow_add]
  rwa [show bits + (64 - bits) = 64 by omega]

variable (enough : bits ≤ 60)
variable (ascending : merged.Pairwise fun first second =>
  fingerprintOf first < fingerprintOf second)
variable (bounded : ∀ m ∈ merged, m < 2 ^ 64)
variable (few : merged.length < 2 ^ 32)

include enough ascending

theorem sorted_buckets :
    merged.Pairwise fun first second => first >>> (64 - bits) ≤ second >>> (64 - bits) := by
  apply ascending.imp
  intro first second less
  rw [shiftRight_eq_fingerprintOf enough, shiftRight_eq_fingerprintOf enough,
    Nat.shiftRight_eq_div_pow, Nat.shiftRight_eq_div_pow]
  exact Nat.div_le_div_right (Nat.le_of_lt less)

include bounded few

theorem getD_indexOf {b : Nat} (inside : b ≤ 2 ^ bits) :
    (indexOf bits merged).getD b 0 = Buckets.start (· >>> (64 - bits)) merged b := by
  have sorted := sorted_buckets enough ascending
  rw [indexOf, List.getD_eq_getElem?_getD]
  rcases Nat.lt_or_eq_of_le inside with before | rfl
  · have within := Buckets.start_le_length sorted b
    rw [List.getElem?_append_left (by simpa using before), List.getElem?_map,
      List.getElem?_range before]
    exact Nat.mod_eq_of_lt (by omega)
  · -- Every word lies in a bucket before the end.
    have all : (merged.filter fun m => m >>> (64 - bits) < 2 ^ bits) = merged := by
      rw [List.filter_eq_self]
      intro m member
      exact decide_eq_true (shiftRight_lt enough (bounded m member))
    rw [Buckets.start_eq sorted, all, List.getElem?_append_right (by simp),
      Nat.mod_eq_of_lt few]
    simp

/-- A search reads the words of one bucket. -/
theorem find_eq_findIn (seed h : Nat) :
    DomainFingerprints.find ⟨merged, indexOf bits merged, 64 - bits, seed⟩ h =
      DomainFingerprints.findIn (16 * (avalanche64 h >>> domainFlagBits))
        (merged.filter fun m => m >>> (64 - bits) = domainEntry h 0 >>> (64 - bits)) := by
  have inside : domainEntry h 0 >>> (64 - bits) < 2 ^ bits :=
    shiftRight_lt enough (domainEntry_lt (by decide) h)
  rw [← Buckets.slice_eq_filter (sorted_buckets enough ascending), Buckets.slice,
    ← getD_indexOf enough ascending bounded few (Nat.le_of_lt inside),
    ← getD_indexOf enough ascending bounded few inside, DomainFingerprints.find,
    ← Nat.add_zero (16 * _), ← domainEntry_eq (show 0 < 16 by decide)]

/-- A search finds the one word that has the fingerprint, if there is one. -/
theorem find_cases (seed h : Nat) :
    (DomainFingerprints.find ⟨merged, indexOf bits merged, 64 - bits, seed⟩ h = none ∧
        ∀ m ∈ merged, fingerprintOf m ≠ avalanche64 h >>> domainFlagBits) ∨
      ∃ m ∈ merged, fingerprintOf m = avalanche64 h >>> domainFlagBits ∧
        DomainFingerprints.find ⟨merged, indexOf bits merged, 64 - bits, seed⟩ h =
          some (m % 256 &&& domainFlagMask) := by
  rw [find_eq_findIn enough ascending bounded few]
  by_cases there : ∃ m ∈ merged, fingerprintOf m = avalanche64 h >>> domainFlagBits
  · obtain ⟨m, member, here⟩ := there
    right
    have inBucket : m >>> (64 - bits) = domainEntry h 0 >>> (64 - bits) := by
      rw [shiftRight_eq_fingerprintOf enough, shiftRight_eq_fingerprintOf enough, here,
        fingerprintOf_domainEntry (show 0 < 16 by decide)]
    exact ⟨m, member, here, findIn_eq_some (ascending.filter _)
      (List.mem_filter.mpr ⟨member, decide_eq_true inBucket⟩) here⟩
  · left
    have absent : ∀ m ∈ merged, fingerprintOf m ≠ avalanche64 h >>> domainFlagBits :=
      fun m member here => there ⟨m, member, here⟩
    exact ⟨findIn_eq_none fun m member => absent m (List.mem_filter.mp member).1, absent⟩

end Search

theorem lowFlags_and (bit : flag < 16) (m : Nat) :
    (m % 256 &&& domainFlagMask) &&& flag = m &&& flag := by
  rw [domainFlagMask, show 15 = 2 ^ 4 - 1 from rfl, Nat.and_two_pow_sub_one_eq_mod, and_flag bit m]
  congr 1
  omega

theorem buildFingerprints_eq (seed : Nat) (entries : List Nat)
    (few : (buildFingerprints seed entries).entries.length < 2 ^ 32) :
    ∃ bits ≤ 60, buildFingerprints seed entries =
      ⟨(buildFingerprints seed entries).entries,
        indexOf bits (buildFingerprints seed entries).entries, 64 - bits, seed⟩ := by
  obtain ⟨bits, buckets, _, notMany⟩ := growBuckets_eq
    (buildFingerprints seed entries).entries.length (buildFingerprints seed entries).entries.length
    (show 2 ^ 3 * 4 ≤ max 32 (buildFingerprints seed entries).entries.length by omega)
  refine ⟨bits, ?_, ?_⟩
  · by_contra many
    have large : 2 ^ 61 ≤ 2 ^ bits := Nat.pow_le_pow_right (by decide) (by omega)
    omega
  · simp only [buildFingerprints] at buckets ⊢
    rw [show (8 : Nat) = 2 ^ 3 from rfl, buckets, domainBucketBits_eq, indexOf]

/-- What a search returns, in terms of the words that were collected. -/
theorem find_buildFingerprints (seed : Nat) (bounded : ∀ e ∈ entries, e < 2 ^ 64)
    (few : (buildFingerprints seed entries).entries.length < 2 ^ 32) (h : Nat) :
    ((buildFingerprints seed entries).find h = none ∧
        ∀ e ∈ entries, fingerprintOf e ≠ avalanche64 h >>> domainFlagBits) ∨
      ∃ flags, (buildFingerprints seed entries).find h = some flags ∧
        (∃ e ∈ entries, fingerprintOf e = avalanche64 h >>> domainFlagBits) ∧ flags < 16 ∧
        ∀ flag < 16, flags &&& flag ≠ 0 ↔
          ∃ e ∈ entries, fingerprintOf e = avalanche64 h >>> domainFlagBits ∧ e &&& flag ≠ 0 := by
  have merges := merges_buildFingerprints seed bounded
  obtain ⟨bits, enough, built⟩ := buildFingerprints_eq seed entries few
  have small : ∀ m ∈ (buildFingerprints seed entries).entries, m < 2 ^ 64 :=
    fun m member => (merges.known m member).1
  have cases := find_cases enough merges.ascending small few seed h
  rw [← built] at cases
  rcases cases with ⟨found, absent⟩ | ⟨m, member, here, found⟩
  · refine .inl ⟨found, fun e there same => ?_⟩
    obtain ⟨m, member, equal⟩ := merges.present e there
    exact absent m member (equal.trans same)
  · refine .inr ⟨_, found, ?_, ?_, fun flag bit => ?_⟩
    · obtain ⟨_, e, there, same⟩ := merges.known m member
      exact ⟨e, there, same.trans here⟩
    · exact Nat.lt_of_le_of_lt Nat.and_le_right (by decide)
    · rw [lowFlags_and bit, merges.flags m member flag bit, here]

end RouteDns.Blocklist
