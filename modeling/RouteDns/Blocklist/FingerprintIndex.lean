import Mathlib.Data.Finset.Card
import RouteDns.Blocklist.Fingerprints

/-!
# What a list of fingerprints answers

The words of a list are merged, indexed and searched; together this is a map from fingerprints
to the union of the flags that were recorded with them.  The index cuts the words into the
buckets of their top bits, and a search stays within it.
-/

namespace RouteDns.Blocklist

/-- The union of the flags of the words with a fingerprint. -/
def unionFlags (entries : List Nat) (mark : Nat) : Nat :=
  (entries.filter (fingerprintOf · = mark)).foldl
    (fun flags e => flags ||| (e &&& domainFlagMask)) 0

theorem foldl_or_and_ne_zero {flag : Nat} (bit : flag < 16) (entries : List Nat) (flags : Nat) :
    entries.foldl (fun flags e => flags ||| (e &&& domainFlagMask)) flags &&& flag ≠ 0 ↔
      flags &&& flag ≠ 0 ∨ ∃ e ∈ entries, e &&& flag ≠ 0 := by
  induction entries generalizing flags with
  | nil => simp
  | cons e rest ih =>
    rw [List.foldl_cons, ih, or_and_flag_ne_zero bit, or_assoc, List.exists_mem_cons_iff]

theorem foldl_or_lt (entries : List Nat) {flags : Nat} (small : flags < 16) :
    entries.foldl (fun flags e => flags ||| (e &&& domainFlagMask)) flags < 16 := by
  induction entries generalizing flags with
  | nil => exact small
  | cons e rest ih =>
    exact ih (Nat.or_lt_two_pow (n := 4) small
      (Nat.lt_of_le_of_lt Nat.and_le_right (show domainFlagMask < 16 by decide)))

/-- Flags are told apart by the tests for single ones. -/
theorem flags_ext {first second : Nat} (small : first < 16) (small' : second < 16)
    (same : ∀ flag < 16, first &&& flag ≠ 0 ↔ second &&& flag ≠ 0) : first = second := by
  have table : ∀ first second : Fin 16,
      (∀ flag : Fin 16, first.val &&& flag.val ≠ 0 ↔ second.val &&& flag.val ≠ 0) →
        first = second := by
    decide
  exact Fin.mk.inj_iff.mp (table ⟨first, small⟩ ⟨second, small'⟩ fun flag => same flag flag.isLt)

section Built

variable (seed : Nat) {entries : List Nat} (bounded : ∀ e ∈ entries, e < 2 ^ 64)

include bounded

/-- There is one merged word for every fingerprint. -/
theorem length_entries : (buildFingerprints seed entries).entries.length =
    (entries.map fingerprintOf).toFinset.card := by
  have merges := merges_buildFingerprints seed bounded
  have distinct : ((buildFingerprints seed entries).entries.map fingerprintOf).Nodup :=
    List.pairwise_map.mpr (merges.ascending.imp Nat.ne_of_lt)
  rw [← List.length_map fingerprintOf, ← List.toFinset_card_of_nodup distinct]
  congr 1
  ext mark
  simp only [List.mem_toFinset, List.mem_map]
  constructor
  · rintro ⟨m, member, rfl⟩
    exact (merges.known m member).2
  · rintro ⟨e, member, rfl⟩
    exact merges.present e member

variable (few : (entries.map fingerprintOf).toFinset.card < 2 ^ 32)

include few

/-- A search returns the union of the flags recorded with the fingerprint. -/
theorem find_eq_unionFlags (h : Nat) :
    (buildFingerprints seed entries).find h =
      if ∃ e ∈ entries, fingerprintOf e = avalanche64 h >>> domainFlagBits then
        some (unionFlags entries (avalanche64 h >>> domainFlagBits))
      else none := by
  rw [← length_entries seed bounded] at few
  rcases find_buildFingerprints seed bounded few h with
    ⟨missed, absent⟩ | ⟨flags, found, there, small, tests⟩
  · rw [missed, if_neg]
    rintro ⟨e, member, same⟩
    exact absent e member same
  · rw [found, if_pos there]
    congr 1
    refine flags_ext small (foldl_or_lt _ (by decide)) fun flag bit => ?_
    rw [tests flag bit, unionFlags, foldl_or_and_ne_zero bit]
    simp [and_assoc]

/-- The entries of the index are the starts of the buckets. -/
theorem getD_index :
    ∃ bits ≤ 60, (buildFingerprints seed entries).shift = 64 - bits ∧
      (buildFingerprints seed entries).index.length = 2 ^ bits + 1 ∧
      ∀ b ≤ 2 ^ bits, (buildFingerprints seed entries).index.getD b 0 =
        Buckets.start (· >>> (64 - bits)) (buildFingerprints seed entries).entries b := by
  have merges := merges_buildFingerprints seed bounded
  rw [← length_entries seed bounded] at few
  obtain ⟨bits, enough, built⟩ := buildFingerprints_eq seed entries few
  have starts := fun b => @getD_indexOf _ bits enough merges.ascending
    (fun m member => (merges.known m member).1) few b
  refine ⟨bits, enough, by rw [built], ?_, fun b inside => ?_⟩
  · rw [built]
    simp [indexOf]
  · exact (congrArg (·.index.getD b 0) built).trans (starts b inside)

end Built

/-- The order of the words does not matter. -/
theorem buildFingerprints_perm (seed : Nat) {entries others : List Nat}
    (same : others.Perm entries) :
    buildFingerprints seed others = buildFingerprints seed entries := by
  have sorted : others.insertionSort (· ≤ ·) = entries.insertionSort (· ≤ ·) :=
    (((List.perm_insertionSort _ others).trans same).trans
      (List.perm_insertionSort _ entries).symm).eq_of_pairwise' (List.pairwise_insertionSort _ _)
        (List.pairwise_insertionSort _ _)
  rw [buildFingerprints, sorted]
  rfl

/-- A list of fingerprints answers with the union of the recorded flags; its index does not
decrease, cuts the words into their buckets and covers every search, and the order of the words
does not matter. -/
theorem fingerprints_exact (seed : Nat) (entries : List Nat) (bounded : ∀ e ∈ entries, e < 2 ^ 64)
    (few : (entries.map fingerprintOf).toFinset.card < 2 ^ 32) :
    let f := buildFingerprints seed entries
    (∀ h, f.find h = if ∃ e ∈ entries, fingerprintOf e = avalanche64 h >>> domainFlagBits then
        some (unionFlags entries (avalanche64 h >>> domainFlagBits)) else none) ∧
    f.index.Pairwise (· ≤ ·) ∧
    (∀ b, b + 1 < f.index.length →
      (f.entries.drop (f.index.getD b 0)).take (f.index.getD (b + 1) 0 - f.index.getD b 0) =
        f.entries.filter fun m => m >>> f.shift = b) ∧
    (∀ h, (domainEntry h 0 >>> f.shift) + 1 < f.index.length ∧
      f.index.getD ((domainEntry h 0 >>> f.shift) + 1) 0 ≤ f.entries.length) ∧
    ∀ others : List Nat, others.Perm entries → buildFingerprints seed others = f := by
  intro f
  obtain ⟨bits, enough, shift_eq, length_eq, starts⟩ := getD_index seed bounded few
  have sorted := sorted_buckets enough (merges_buildFingerprints seed bounded).ascending
  have inside : ∀ h, domainEntry h 0 >>> (64 - bits) < 2 ^ bits := fun h =>
    shiftRight_lt enough (domainEntry_lt (by decide) h)
  refine ⟨find_eq_unionFlags seed bounded few, ?_, ?_, ?_, fun _ => buildFingerprints_perm seed⟩
  · rw [List.pairwise_iff_getElem]
    intro first second firstIn secondIn less
    rw [length_eq] at firstIn secondIn
    rw [← List.getD_eq_getElem _ 0, ← List.getD_eq_getElem _ 0, starts first (by omega),
      starts second (by omega)]
    exact Buckets.start_mono less.le
  · intro b within
    rw [length_eq] at within
    rw [starts b (by omega), starts (b + 1) (by omega), shift_eq]
    exact Buckets.slice_eq_filter sorted b
  · intro h
    rw [shift_eq, length_eq, starts _ (inside h)]
    exact ⟨Nat.succ_lt_succ (inside h), Buckets.start_le_length sorted _⟩

/-- Two words with one fingerprint. -/
theorem fingerprints_exact_pair :
    (buildFingerprints 0 [domainEntry 5 2, domainEntry 5 1]).find 5 =
      some (unionFlags [domainEntry 5 2, domainEntry 5 1] (avalanche64 5 >>> domainFlagBits)) := by
  have exact_ := (fingerprints_exact 0 [domainEntry 5 2, domainEntry 5 1] (by decide +kernel)
    (by decide +kernel)).1 5
  rwa [if_pos (by decide +kernel)] at exact_

end RouteDns.Blocklist
