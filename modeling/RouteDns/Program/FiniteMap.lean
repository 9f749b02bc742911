import Mathlib.Data.List.AList

/-!
# Finite maps

Non-dependent association lists, as a model of hash maps: looking up an absent
key of a map of lists gives the empty list, and `push` appends to the list of one
key.  Pushing every entry of a list under its own key groups that list.
-/

namespace RouteDns

universe u v w

/-- A finite map from `κ` to `ν`. -/
abbrev FiniteMap (κ : Type u) (ν : Type v) := AList fun _ : κ => ν

namespace FiniteMap

variable {κ : Type u} {ν : Type v} {ι : Type w} [DecidableEq κ]

theorem lookup_insert_ite (map : FiniteMap κ ν) (key other : κ) (value : ν) :
    (map.insert key value).lookup other = if other = key then some value else map.lookup other := by
  by_cases same : other = key
  · subst same
    simp
  · simp [same, AList.lookup_insert_ne]

theorem lookup_erase_ite (map : FiniteMap κ ν) (key other : κ) :
    (map.erase key).lookup other = if other = key then none else map.lookup other := by
  by_cases same : other = key
  · subst same
    simp
  · simp [same, AList.lookup_erase_ne]

theorem eq_empty_of_lookup {map : FiniteMap κ ν} (absent : ∀ key, map.lookup key = none) :
    map = ∅ := by
  apply AList.ext
  apply List.eq_nil_iff_forall_not_mem.mpr
  intro entry member
  have known : entry.1 ∈ map := List.mem_map_of_mem member
  exact AList.lookup_eq_none.mp (absent entry.1) known

/-- The number of keys. -/
def size (map : FiniteMap κ ν) : Nat :=
  map.keys.length

/-- A map with known keys is as large as their list. -/
theorem size_eq {map : FiniteMap κ ν} {keys : List κ} (nodup : keys.Nodup)
    (known : ∀ key, (map.lookup key).isSome ↔ key ∈ keys) : map.size = keys.length := by
  have same : map.keys.Perm keys := by
    rw [List.perm_ext_iff_of_nodup map.keys_nodup nodup]
    intro key
    rw [← known, AList.lookup_isSome, AList.mem_keys]
  exact same.length_eq

theorem size_erase_le (map : FiniteMap κ ν) (key : κ) : size (map.erase key) ≤ map.size := by
  unfold size
  rw [AList.keys_erase]
  exact List.length_erase_le

theorem size_insert_le (map : FiniteMap κ ν) (key : κ) (value : ν) :
    size (map.insert key value) ≤ map.size + 1 := by
  unfold size
  rw [AList.keys_insert, List.length_cons]
  exact Nat.succ_le_succ List.length_erase_le

/-- The list stored under a key, empty if there is none. -/
def get (map : FiniteMap κ (List ν)) (key : κ) : List ν :=
  (map.lookup key).getD []

/-- Append a value to the list of a key. -/
def push (map : FiniteMap κ (List ν)) (key : κ) (value : ν) : FiniteMap κ (List ν) :=
  map.insert key (map.get key ++ [value])

theorem get_push (map : FiniteMap κ (List ν)) (key other : κ) (value : ν) :
    (map.push key value).get other =
      map.get other ++ if other = key then [value] else [] := by
  unfold push get
  rw [lookup_insert_ite]
  by_cases same : other = key
  · subst same
    simp
  · simp [same]

theorem mem_keys_push (map : FiniteMap κ (List ν)) (key other : κ) (value : ν) :
    other ∈ (map.push key value).keys ↔ other = key ∨ other ∈ map.keys := by
  rw [← AList.mem_keys, ← AList.mem_keys]
  exact AList.mem_insert map

/-- Push the entries of a list that `place` gives a key and a value. -/
def pushAll (place : ι → Option (κ × ν)) (map : FiniteMap κ (List ν)) (entries : List ι) :
    FiniteMap κ (List ν) :=
  entries.foldl (fun grouped entry =>
    match place entry with
    | some (key, value) => grouped.push key value
    | none => grouped) map

/-- The values of a list that `place` puts under a key, in order. -/
def placedAt (place : ι → Option (κ × ν)) (key : κ) (entries : List ι) : List ν :=
  entries.filterMap fun entry =>
    match place entry with
    | some (at_, value) => if key = at_ then some value else none
    | none => none

variable (place : ι → Option (κ × ν)) (map : FiniteMap κ (List ν))

theorem pushAll_cons (entry : ι) (rest : List ι) :
    map.pushAll place (entry :: rest) =
        ((place entry).elim map fun pair => map.push pair.1 pair.2).pushAll place rest := by
  rw [pushAll, List.foldl_cons]
  cases place entry with
  | none | some pair => rfl

/-- Grouping keeps the values of each key in their order. -/
theorem get_pushAll (entries : List ι) (key : κ) :
    (map.pushAll place entries).get key = map.get key ++ placedAt place key entries := by
  induction entries generalizing map with
  | nil => simp [pushAll, placedAt]
  | cons entry rest ih =>
    rw [pushAll_cons, ih]
    cases placed : place entry with
    | none => simp [placedAt, placed]
    | some pair =>
      by_cases same : key = pair.1
      · simp [placedAt, placed, get_push, same]
      · simp [placedAt, placed, get_push, same]

/-- The keys of a grouping are those some entry is placed under. -/
theorem mem_keys_pushAll (entries : List ι) (key : κ) :
    key ∈ (map.pushAll place entries).keys ↔
      key ∈ map.keys ∨ ∃ entry ∈ entries, ∃ value, place entry = some (key, value) := by
  induction entries generalizing map with
  | nil => simp [pushAll]
  | cons entry rest ih =>
    rw [pushAll_cons, ih]
    cases placed : place entry with
    | none => simp [placed]
    | some pair =>
      simp only [Option.elim_some, mem_keys_push, List.mem_cons, exists_eq_or_imp, placed,
        Option.some.injEq]
      constructor
      · rintro ((rfl | old) | later)
        · exact .inr (.inl ⟨pair.2, rfl⟩)
        · exact .inl old
        · exact .inr (.inr later)
      · rintro (old | ⟨value, rfl⟩ | later)
        · exact .inl (.inr old)
        · exact .inl (.inl rfl)
        · exact .inr later

end FiniteMap

end RouteDns
