import Mathlib.Data.List.Induction
import Mathlib.Data.List.Nodup

/-!
# Lists ordered by recency

What a cache with least-recently-used replacement is meant to be: a list of keys with
values, the most recent first.  Keys are told apart by a hash as well, so an entry gives
way to a new one whose key has the same hash.
-/

namespace RouteDns.Recency

variable {κ ν η : Type} (hash : κ → η)

/-- The value of a key. -/
def find [DecidableEq κ] (key : κ) (entries : List (κ × ν)) : Option ν :=
  (entries.find? fun entry => entry.1 = key).map Prod.snd

def delete [DecidableEq κ] (key : κ) (entries : List (κ × ν)) : List (κ × ν) :=
  entries.filter fun entry => entry.1 ≠ key

/-- Move a key to the front. -/
def promote [DecidableEq κ] (key : κ) (entries : List (κ × ν)) : List (κ × ν) :=
  entries.filter (fun entry => entry.1 = key) ++ delete key entries

/-- Drop entries from the back until a positive capacity is met. -/
def bounded (capacity : Int) (entries : List (κ × ν)) : List (κ × ν) :=
  if 0 < capacity then entries.take capacity.toNat else entries

/-- Put a key with a value at the front. -/
def add [DecidableEq κ] [DecidableEq η] (capacity : Int) (key : κ) (value : ν)
    (entries : List (κ × ν)) : List (κ × ν) :=
  if (find key entries).isSome then
    (key, value) :: delete key entries
  else
    bounded capacity ((key, value) :: entries.filter fun entry => hash entry.1 ≠ hash key)

/-- Delete the entries a function selects.  It is asked about one entry after the other and
may remember those it saw. -/
def deleteFunc (selects : (seen : List (κ × ν)) → κ × ν → Bool) :
    (seen : List (κ × ν)) → List (κ × ν) → List (κ × ν)
  | _, [] => []
  | seen, entry :: rest =>
    if selects seen entry then deleteFunc selects (seen ++ [entry]) rest
    else entry :: deleteFunc selects (seen ++ [entry]) rest

/-- No two keys share a hash. -/
def Distinct (entries : List (κ × ν)) : Prop :=
  (entries.map fun entry => hash entry.1).Nodup

variable {hash}

theorem Distinct.sublist {fewer entries : List (κ × ν)} (distinct : Distinct hash entries)
    (sublist : fewer.Sublist entries) : Distinct hash fewer :=
  List.Nodup.sublist (sublist.map _) distinct

variable {entries : List (κ × ν)}

/-- Another hash that tells the keys apart does so as well. -/
theorem Distinct.rehash {newHash : κ → η} (distinct : Distinct hash entries)
    (apart : ∀ first ∈ entries, ∀ second ∈ entries,
      newHash first.1 = newHash second.1 → first.1 = second.1) : Distinct newHash entries := by
  unfold Distinct List.Nodup at *
  rw [List.pairwise_map] at *
  refine distinct.imp_of_mem fun firstIn secondIn differs same => ?_
  exact differs (congrArg hash (apart _ firstIn _ secondIn same))

/-! ## Shortening a list -/

theorem bounded_sublist (capacity : Int) (entries : List (κ × ν)) :
    (bounded capacity entries).Sublist entries := by
  unfold bounded
  split
  · exact List.take_sublist _ _
  · exact List.Sublist.refl _

theorem bounded_cons_bounded (capacity : Int) (entry : κ × ν) (entries : List (κ × ν)) :
    bounded capacity (entry :: bounded capacity entries) = bounded capacity (entry :: entries) := by
  unfold bounded
  split
  · obtain ⟨count, capacity_eq⟩ := Nat.exists_eq_succ_of_ne_zero
      (show capacity.toNat ≠ 0 by omega)
    rw [capacity_eq, List.take_succ_cons, List.take_succ_cons, List.take_take,
      Nat.min_eq_left (Nat.le_succ count)]
  · rfl

/-- A function that forgets what it saw selects as a filter does. -/
theorem deleteFunc_const (selects : κ × ν → Bool) (seen entries : List (κ × ν)) :
    deleteFunc (fun _ => selects) seen entries = entries.filter fun entry => !selects entry := by
  induction entries generalizing seen with
  | nil => rfl
  | cons entry rest ih =>
    rw [deleteFunc, ih]
    by_cases selected : selects entry = true <;> simp [selected]

theorem deleteFunc_sublist (selects : (seen : List (κ × ν)) → κ × ν → Bool)
    (seen entries : List (κ × ν)) : (deleteFunc selects seen entries).Sublist entries := by
  induction entries generalizing seen with
  | nil => exact List.Sublist.refl _
  | cons entry rest ih =>
    rw [deleteFunc]
    split
    · exact (ih _).cons entry
    · exact (ih _).cons_cons entry

variable {capacity : Int}

/-- A positive capacity is met. -/
def Fits (capacity : Int) (entries : List (κ × ν)) : Prop :=
  0 < capacity → entries.length ≤ capacity.toNat

theorem Fits.mono {fewer entries : List (κ × ν)} (fits : Fits capacity entries)
    (shorter : fewer.length ≤ entries.length) : Fits capacity fewer :=
  fun positive => Nat.le_trans shorter (fits positive)

theorem fits_bounded (capacity : Int) (entries : List (κ × ν)) :
    Fits capacity (bounded capacity entries) := by
  intro positive
  rw [bounded, if_pos positive]
  exact List.length_take_le _ _

/-! ## One key -/

section Split

variable {front back : List (κ × ν)} {entry : κ × ν}
  (distinct : Distinct hash (front ++ entry :: back))

include distinct

/-- The other entries of a list have other hashes. -/
theorem Distinct.hash_ne {other : κ × ν} (member : other ∈ front ++ back) :
    hash other.1 ≠ hash entry.1 := by
  unfold Distinct at distinct
  rw [List.map_append, List.map_cons, List.nodup_middle, List.nodup_cons, ← List.map_append]
    at distinct
  exact fun same => distinct.1 (same ▸ List.mem_map_of_mem member)

theorem Distinct.key_ne {other : κ × ν} (member : other ∈ front ++ back) : other.1 ≠ entry.1 :=
  fun same => distinct.hash_ne member (congrArg hash same)

theorem filter_hash_split [DecidableEq η] :
    (front ++ entry :: back).filter (fun other => hash other.1 ≠ hash entry.1) = front ++ back := by
  have kept : ∀ other ∈ front ++ back, decide (hash other.1 ≠ hash entry.1) = true :=
    fun other member => decide_eq_true (distinct.hash_ne member)
  rw [List.filter_append, List.filter_cons_of_neg (by simp), ← List.filter_append]
  exact List.filter_eq_self.mpr kept

variable [DecidableEq κ]

theorem delete_split : delete entry.1 (front ++ entry :: back) = front ++ back := by
  have kept : ∀ other ∈ front ++ back, decide (other.1 ≠ entry.1) = true :=
    fun other member => decide_eq_true (distinct.key_ne member)
  rw [delete, List.filter_append, List.filter_cons_of_neg (by simp), ← List.filter_append]
  exact List.filter_eq_self.mpr kept

theorem promote_split : promote entry.1 (front ++ entry :: back) = entry :: (front ++ back) := by
  have others : ∀ other ∈ front ++ back, ¬ decide (other.1 = entry.1) = true :=
    fun other member same => distinct.key_ne member (of_decide_eq_true same)
  have own : (front ++ entry :: back).filter (fun other => other.1 = entry.1) = [entry] := by
    rw [List.filter_append, List.filter_cons_of_pos (by simp),
      List.filter_eq_nil_iff.mpr fun other member =>
        others other (List.mem_append_left back member),
      List.filter_eq_nil_iff.mpr fun other member =>
        others other (List.mem_append_right front member)]
    rfl
  rw [promote, own, delete_split distinct]
  rfl

theorem find_split : find entry.1 (front ++ entry :: back) = some entry.2 := by
  have before : ∀ other ∈ front, ¬ decide (other.1 = entry.1) = true :=
    fun other member same =>
      distinct.key_ne (List.mem_append_left back member) (of_decide_eq_true same)
  rw [find, List.find?_append, List.find?_eq_none.mpr before]
  simp

end Split

section Absent

variable [DecidableEq κ] {key : κ} {entries : List (κ × ν)}
  (absent : ∀ entry ∈ entries, entry.1 ≠ key)

include absent

theorem find_absent : find key entries = none := by
  simpa [find] using absent

theorem delete_absent : delete key entries = entries :=
  List.filter_eq_self.mpr fun entry member => decide_eq_true (absent entry member)

theorem promote_absent : promote key entries = entries := by
  have nothing : entries.filter (fun entry => entry.1 = key) = [] :=
    List.filter_eq_nil_iff.mpr fun entry member same =>
      absent entry member (of_decide_eq_true same)
  rw [promote, nothing, delete_absent absent]
  rfl

end Absent

variable [DecidableEq κ] [DecidableEq η] {key : κ}

theorem absent_of_find (absent : find key entries = none) :
    ∀ entry ∈ entries, entry.1 ≠ key := by
  simpa [find] using absent

theorem find_delete (key other : κ) (entries : List (κ × ν)) :
    find other (delete key entries) = if other = key then none else find other entries := by
  split
  · rename_i same
    exact find_absent fun entry member => same ▸ of_decide_eq_true (List.mem_filter.mp member).2
  · rename_i differs
    have passes : (fun entry : κ × ν => decide (decide (entry.1 ≠ key) = true ∧
        decide (entry.1 = other) = true)) = fun entry => decide (entry.1 = other) := by
      funext entry
      by_cases same : entry.1 = other <;> simp [same, differs]
    rw [find, delete, List.find?_filter, passes]
    rfl

/-- Moving a key to the front changes no value. -/
theorem find_promote (key other : κ) (entries : List (κ × ν)) :
    find other (promote key entries) = find other entries := by
  have split : find other (promote key entries) =
      (find other (entries.filter fun entry => entry.1 = key)).or
        (find other (delete key entries)) := by
    rw [promote, find, List.find?_append, Option.map_or]
    rfl
  rw [split, find_delete]
  by_cases same : other = key
  · subst same
    simp [find, List.find?_filter]
  · have elsewhere : find other (entries.filter fun entry => entry.1 = key) = none := by
      refine find_absent fun entry member other_eq => same ?_
      exact other_eq.symm.trans (of_decide_eq_true (List.mem_filter.mp member).2)
    rw [elsewhere, if_neg same]
    rfl

/-! ## Where the entries come from -/

variable {entry : κ × ν} {value : ν}

theorem mem_delete : entry ∈ delete key entries ↔ entry ∈ entries ∧ entry.1 ≠ key := by
  simp [delete]

theorem mem_promote : entry ∈ promote key entries ↔ entry ∈ entries := by
  have perm := List.filter_append_perm (fun entry => decide (entry.1 = key)) entries
  simpa [promote, delete] using perm.mem_iff

/-- An entry is the added one or an old one with another key. -/
theorem mem_add (member : entry ∈ add hash capacity key value entries) :
    entry = (key, value) ∨ entry ∈ entries ∧ entry.1 ≠ key := by
  unfold add at member
  split at member
  · rcases List.mem_cons.mp member with new | old
    · exact .inl new
    · exact .inr (mem_delete.mp old)
  · rcases List.mem_cons.mp ((bounded_sublist _ _).mem member) with new | old
    · exact .inl new
    · obtain ⟨inside, differs⟩ := List.mem_filter.mp old
      exact .inr ⟨inside, fun same => of_decide_eq_true differs (congrArg hash same)⟩

/-- Without a limit the added entry is there, and those with another hash stay. -/
theorem mem_add_of_unlimited (unlimited : ¬ 0 < capacity)
    (kept : entry = (key, value) ∨ entry ∈ entries ∧ hash entry.1 ≠ hash key) :
    entry ∈ add hash capacity key value entries := by
  unfold add bounded
  rcases kept with rfl | ⟨old, apart⟩
  · split <;> exact List.mem_cons_self
  · split
    · refine List.mem_cons_of_mem _ (mem_delete.mpr ⟨old, ?_⟩)
      exact fun same => apart (congrArg hash same)
    · exact List.mem_cons_of_mem _ (List.mem_filter.mpr ⟨old, decide_eq_true apart⟩)

/-- Of the entries that were added those are left whose keys were not added again. -/
theorem mem_foldl_add {added : List (κ × ν)}
    (member : entry ∈
      added.foldl (fun entries entry => add hash capacity entry.1 entry.2 entries) []) :
    ∃ before after, added = before ++ entry :: after ∧ ∀ later ∈ after, later.1 ≠ entry.1 := by
  induction added using List.reverseRecOn with
  | nil => cases member
  | append_singleton added last ih =>
    rw [List.foldl_append, List.foldl_cons, List.foldl_nil] at member
    rcases mem_add member with rfl | ⟨old, differs⟩
    · exact ⟨added, [], rfl, by simp⟩
    · obtain ⟨before, after, rfl, others⟩ := ih old
      refine ⟨before, after ++ [last], by simp, ?_⟩
      intro later inside
      rcases List.mem_append.mp inside with earlier | final
      · exact others later earlier
      · rw [List.mem_singleton.mp final]
        exact differs.symm

/-- Without a limit an entry is left if the hash of its key was not added again. -/
theorem mem_foldl_add_of_last (unlimited : ¬ 0 < capacity)
    {before after : List (κ × ν)} (apart : ∀ later ∈ after, hash entry.1 ≠ hash later.1) :
    entry ∈ (before ++ entry :: after).foldl
      (fun entries entry => add hash capacity entry.1 entry.2 entries) [] := by
  induction after using List.reverseRecOn with
  | nil =>
    rw [List.foldl_append]
    exact mem_add_of_unlimited unlimited (.inl rfl)
  | append_singleton after last ih =>
    rw [← List.cons_append, ← List.append_assoc, List.foldl_append]
    refine mem_add_of_unlimited unlimited (.inr ⟨ih fun later member => ?_, ?_⟩)
    · exact apart later (List.mem_append_left _ member)
    · exact apart last (by simp)

/-! ## The size of a list -/

theorem mem_of_find (found : find key entries = some value) : (key, value) ∈ entries := by
  obtain ⟨entry, first, rfl⟩ := Option.map_eq_some_iff.mp found
  have same : entry.1 = key := by simpa using List.find?_some first
  subst same
  exact List.mem_of_find?_eq_some first

theorem Fits.add (fits : Fits capacity entries) (key : κ) (value : ν) :
    Fits capacity (add hash capacity key value entries) := by
  unfold Recency.add
  split
  · rename_i present
    obtain ⟨old, found⟩ := Option.isSome_iff_exists.mp present
    have shorter : (delete key entries).length < entries.length :=
      List.length_filter_lt_length_iff_exists.mpr ⟨_, mem_of_find found, by simp⟩
    exact fits.mono shorter
  · exact fits_bounded _ _

theorem length_promote (key : κ) (entries : List (κ × ν)) :
    (promote key entries).length = entries.length := by
  have perm := List.filter_append_perm (fun entry => decide (entry.1 = key)) entries
  simpa [promote, delete] using perm.length_eq

/-! ## Filling an empty list -/

/-- A key whose hash is new is put before the others. -/
theorem add_fresh (fresh : ∀ entry ∈ entries, hash entry.1 ≠ hash key) :
    add hash capacity key value entries = bounded capacity ((key, value) :: entries) := by
  have absent : find key entries = none :=
    find_absent fun entry member same => fresh entry member (congrArg hash same)
  have kept : (entries.filter fun entry => hash entry.1 ≠ hash key) = entries :=
    List.filter_eq_self.mpr fun entry member => decide_eq_true (fresh entry member)
  rw [add, absent, kept]
  rfl

/-- Entries added one after the other, the most recent last, are the list up to its
capacity. -/
theorem foldr_add (distinct : Distinct hash entries) :
    entries.foldr (fun entry added => add hash capacity entry.1 entry.2 added) [] =
      bounded capacity entries := by
  induction entries with
  | nil => simp [bounded]
  | cons entry older ih =>
    have fresh : ∀ other ∈ bounded capacity older, hash other.1 ≠ hash entry.1 := by
      intro other member
      have split : Distinct hash ([] ++ entry :: older) := distinct
      exact split.hash_ne ((bounded_sublist capacity older).mem member)
    rw [List.foldr_cons, ih (distinct.sublist (List.sublist_cons_self entry older)),
      add_fresh fresh, bounded_cons_bounded]

end RouteDns.Recency
