import RouteDns.Dns.Name

/-!
# Walking the labels of a name

Domain lists are matched label by label, from the top-level domain inwards.  The loops find a
label behind the last dot of what is left of the name; they stop when nothing is left before
that dot, so that a leading dot is passed over.  A walk is the list of their rounds.
-/

namespace RouteDns.Blocklist

open Dns

/-- Cut a text at its last dot: what stands before the dot, if there is one, and the label
behind it. -/
def cutLast : Text → Option Text × Label
  | [] => (none, [])
  | byte :: rest =>
    match cutLast rest with
    | (some before, label) => (some (byte :: before), label)
    | (none, label) => if byte = dot then (some [], label) else (none, byte :: label)

/-- One round of a walk: the label, whether anything is left before it, and the name from the
label on. -/
structure Round where
  label : Label
  more : Bool
  suffix : Text
  deriving DecidableEq

/-- The rounds over a name of which `front` is left; `behind` follows it. -/
def roundsFrom : (fuel : Nat) → (front behind : Text) → List Round
  | 0, _, _ => []
  | fuel + 1, front, behind =>
    match cutLast front with
    | (none, label) => [⟨label, false, label ++ behind⟩]
    | (some before, label) =>
      if before = [] then [⟨label, false, label ++ behind⟩]
      else ⟨label, true, label ++ behind⟩ :: roundsFrom fuel before (dot :: label ++ behind)

/-- The rounds over a name.  A name without dots takes one round, even the empty one. -/
def rounds (name : Text) : List Round :=
  roundsFrom (name.length + 1) name []

/-! ## Label sequences -/

/-- The labels of a name: it is split at its dots, and a leading empty label is ignored. -/
def labels (name : Text) : List Label :=
  match name.splitOn dot with
  | [] :: rest => rest
  | pieces => pieces

/-- The labels a name is filed under: the walk gives the empty name one empty label. -/
def filed (name : Text) : List Label :=
  if name = [] then [[]] else labels name

/-- The text of some labels. -/
def joined (labels : List Label) : Text :=
  [dot].intercalate labels

variable {front label name : Text}

theorem cutLast_none (cut : cutLast front = (none, label)) : label = front ∧ dot ∉ front := by
  induction front generalizing label with
  | nil =>
    cases cut
    exact ⟨rfl, List.not_mem_nil⟩
  | cons byte rest ih =>
    rw [cutLast] at cut
    rcases shorter : cutLast rest with ⟨_ | before, last⟩
    · rw [shorter] at cut
      obtain ⟨rfl, absent⟩ := ih shorter
      by_cases separates : byte = dot
      · simp [separates] at cut
      · simp only [separates, if_false, Prod.mk.injEq, true_and] at cut
        exact ⟨cut.symm, by simp [absent, Ne.symm separates]⟩
    · rw [shorter] at cut
      cases cut

theorem cutLast_some {before : Text} (cut : cutLast front = (some before, label)) :
    front = before ++ dot :: label ∧ dot ∉ label := by
  induction front generalizing before label with
  | nil => cases cut
  | cons byte rest ih =>
    rw [cutLast] at cut
    rcases shorter : cutLast rest with ⟨_ | front, last⟩
    · rw [shorter] at cut
      obtain ⟨rfl, absent⟩ := cutLast_none shorter
      by_cases separates : byte = dot
      · simp only [separates, if_true, Prod.mk.injEq, Option.some.injEq] at cut
        obtain ⟨rfl, rfl⟩ := cut
        exact ⟨by rw [separates]; rfl, absent⟩
      · simp [separates] at cut
    · rw [shorter] at cut
      obtain ⟨rfl, absent⟩ := ih shorter
      cases cut
      exact ⟨rfl, absent⟩

theorem splitOn_of_notMem (absent : dot ∉ label) : label.splitOn dot = [label] := by
  have joined : [dot].intercalate [label] = label := by simp [List.intercalate]
  have split := @List.splitOn_intercalate _ [label] _ _ dot (by simpa using absent) (by simp)
  rwa [joined] at split

theorem splitOn_append (before : Text) (absent : dot ∉ label) :
    (before ++ dot :: label).splitOn dot = before.splitOn dot ++ [label] := by
  rw [List.splitOn, List.splitOnP_append_cons _ _ (by simp), ← List.splitOn, ← List.splitOn,
    splitOn_of_notMem absent]

theorem labels_nil : labels [] = [] := rfl

theorem labels_of_notMem (absent : dot ∉ name) (nonempty : name ≠ []) : labels name = [name] := by
  rw [labels, splitOn_of_notMem absent]
  cases name with
  | nil => exact absurd rfl nonempty
  | cons byte rest => rfl

theorem labels_append (before : Text) (absent : dot ∉ label) :
    labels (before ++ dot :: label) = labels before ++ [label] := by
  rw [labels, splitOn_append before absent, labels]
  rcases pieces : before.splitOn dot with _ | ⟨_ | ⟨byte, first⟩, rest⟩
  · exact absurd pieces (List.splitOn_ne_nil _ _)
  · rfl
  · rfl

/-- Only the empty name has no labels. -/
theorem labels_eq_nil_iff : labels name = [] ↔ name = [] := by
  constructor
  · intro empty
    have whole := @List.intercalate_splitOn _ name _ _ dot
    rw [labels] at empty
    rcases pieces : name.splitOn dot with _ | ⟨_ | ⟨byte, first⟩, rest⟩
    · exact absurd pieces (List.splitOn_ne_nil _ _)
    · rw [pieces] at empty whole
      cases (empty : rest = [])
      exact whole.symm
    · rw [pieces] at empty
      cases empty
  · rintro rfl
    rfl

/-- A walk passes the labels a name is filed under from the last to the first. -/
theorem map_label_rounds (name : Text) : (rounds name).map Round.label = (filed name).reverse := by
  suffices walk : ∀ (fuel : Nat) (front behind : Text), front.length < fuel →
      (roundsFrom fuel front behind).map Round.label = (filed front).reverse from
    walk _ name [] (Nat.lt_succ_self _)
  intro fuel
  induction fuel with
  | zero => exact fun front behind short => absurd short (Nat.not_lt_zero _)
  | succ fuel ih =>
    intro front behind short
    rw [roundsFrom, filed]
    rcases cut : cutLast front with ⟨_ | before, label⟩
    · obtain ⟨rfl, absent⟩ := cutLast_none cut
      by_cases empty : label = []
      · simp [empty]
      · simp [empty, labels_of_notMem absent empty]
    · obtain ⟨rfl, absent⟩ := cutLast_some cut
      rw [if_neg (List.append_ne_nil_of_right_ne_nil _ (List.cons_ne_nil _ _)),
        labels_append before absent, List.reverse_append]
      by_cases first : before = []
      · simp [first, labels_nil]
      · have shorter : before.length < fuel := by
          simp only [List.length_append, List.length_cons] at short
          omega
        simp only [if_neg first, List.map_cons, ih before _ shorter, filed]
        rfl

theorem filed_ne_nil (name : Text) : filed name ≠ [] := by
  unfold filed
  split
  · exact List.cons_ne_nil _ _
  · rwa [ne_eq, labels_eq_nil_iff]

/-! ## The texts of a walk -/

theorem joined_cons (label : Label) (above : List Label) :
    joined (label :: above) = label ++ if above = [] then [] else dot :: joined above := by
  cases above with
  | nil | cons next rest => simp [joined, List.intercalate]

/-- Rounds that go on from some labels: each has the text of the labels it leads to, and
something is left before its label unless it is the last. -/
def Continues : List Label → List Round → Prop
  | _, [] => True
  | above, round :: rest =>
    round.suffix = joined (round.label :: above) ∧ (round.more = true ↔ rest ≠ []) ∧
      Continues (round.label :: above) rest

theorem roundsFrom_ne_nil {fuel : Nat} (positive : 0 < fuel) (front behind : Text) :
    roundsFrom fuel front behind ≠ [] := by
  cases fuel with
  | zero => cases positive
  | succ fuel =>
    rw [roundsFrom]
    split
    · exact List.cons_ne_nil _ _
    · split <;> exact List.cons_ne_nil _ _

theorem continues_rounds (name : Text) : Continues [] (rounds name) := by
  suffices walk : ∀ (fuel : Nat) (above : List Label) (front behind : Text),
      front.length < fuel → (behind = if above = [] then [] else dot :: joined above) →
      Continues above (roundsFrom fuel front behind) from
    walk _ [] name [] (Nat.lt_succ_self _) rfl
  intro fuel
  induction fuel with
  | zero => exact fun above front behind short => absurd short (Nat.not_lt_zero _)
  | succ fuel ih =>
    intro above front behind short follows
    have text : ∀ label, label ++ behind = joined (label :: above) := by
      intro label
      rw [joined_cons, follows]
    rw [roundsFrom]
    rcases cut : cutLast front with ⟨_ | before, label⟩
    · exact ⟨text label, by simp, trivial⟩
    · obtain ⟨rfl, _⟩ := cutLast_some cut
      by_cases first : before = []
      · simp only [if_pos first]
        exact ⟨text label, by simp, trivial⟩
      · have shorter : before.length < fuel := by
          simp only [List.length_append, List.length_cons] at short
          omega
        simp only [if_neg first]
        refine ⟨text label, ?_, ?_⟩
        · simp [roundsFrom_ne_nil (Nat.zero_lt_of_lt shorter)]
        · apply ih _ before _ shorter
          rw [if_neg (List.cons_ne_nil _ _), List.cons_append, text]

theorem splitOn_dot_cons (name : Text) : (dot :: name).splitOn dot = [] :: name.splitOn dot :=
  (List.splitOnP_append_cons [] name (by simp)).trans rfl

/-- A name is the text of its labels, behind the leading dot if it has one. -/
theorem eq_joined_labels (name : Text) :
    name = if name.head? = some dot then dot :: joined (labels name) else joined (labels name) := by
  have whole : joined (name.splitOn dot) = name := List.intercalate_splitOn dot
  cases name with
  | nil => rfl
  | cons first rest =>
    by_cases led : first = dot
    · subst led
      have above : rest.splitOn dot ≠ [] := List.splitOn_ne_nil _ _
      rw [splitOn_dot_cons, joined_cons, if_neg above] at whole
      rw [List.head?_cons, if_pos rfl, labels, splitOn_dot_cons]
      exact whole.symm
    · have notLed : (first :: rest).head? ≠ some dot := fun same => led (Option.some.inj same)
      rw [if_neg notLed, labels]
      split
      · rename_i pieces
        rw [pieces, joined_cons] at whole
        split at whole
        · cases whole
        · cases whole
          exact absurd rfl led
      · exact whole.symm

end RouteDns.Blocklist
