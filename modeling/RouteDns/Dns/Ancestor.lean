import RouteDns.Dns.Name

/-!
# The ancestors of a name

In a presentation text a dot separates labels unless a backslash escapes it.  The ancestors
of a name are the texts behind its separators; code that splits a text at every dot takes an
escaped dot for a separator too.
-/

namespace RouteDns.Dns

/-- The texts behind the dots of a text, the longest first. -/
def afterDots : Text → List Text
  | [] => []
  | byte :: rest => if byte = dot then rest :: afterDots rest else afterDots rest

/-- The texts behind the dots that separate labels; `escaped` says whether the byte read
next is. -/
def afterSeparators : (escaped : Bool) → Text → List Text
  | _, [] => []
  | true, _ :: rest => afterSeparators false rest
  | false, byte :: rest =>
    if byte = dot then rest :: afterSeparators false rest
    else afterSeparators (byte = backslash) rest

/-- The text behind a separator as a name: behind the last dot is the root. -/
def orRoot (rest : Text) : Name :=
  if rest = [] then root else rest

/-- The names above a name, the nearest first. -/
def ancestors (name : Name) : List Name :=
  if name = root then [] else (afterSeparators false name).map orRoot

/-! ## Behind the dots -/

theorem length_lt_of_mem_afterDots {name rest : Text} (member : rest ∈ afterDots name) :
    rest.length < name.length := by
  induction name with
  | nil => cases member
  | cons byte others ih =>
    rw [List.length_cons]
    rw [afterDots] at member
    split at member
    · rcases List.mem_cons.mp member with rfl | later
      · exact Nat.lt_succ_self _
      · exact (ih later).trans (Nat.lt_succ_self _)
    · exact (ih member).trans (Nat.lt_succ_self _)

theorem afterDots_pairwise (name : Text) :
    (afterDots name).Pairwise fun first second => second.length < first.length := by
  induction name with
  | nil => exact .nil
  | cons byte rest ih =>
    rw [afterDots]
    split
    · exact List.pairwise_cons.mpr ⟨fun _ member => length_lt_of_mem_afterDots member, ih⟩
    · exact ih

theorem afterSeparators_sublist (escaped : Bool) (name : Text) :
    (afterSeparators escaped name).Sublist (afterDots name) := by
  induction name generalizing escaped with
  | nil => cases escaped <;> exact .slnil
  | cons byte rest ih =>
    cases escaped with
    | true =>
      rw [afterSeparators, afterDots]
      split
      · exact (ih false).cons rest
      · exact ih false
    | false =>
      rw [afterSeparators, afterDots]
      split
      · exact (ih false).cons_cons rest
      · exact ih _

/-- An ancestor before another one stands before it among the texts behind the dots as well. -/
theorem mem_before_of_ancestors {name above other : Name} {nearer farther front back : List Name}
    (split : ancestors name = nearer ++ above :: farther) (first : above ∉ nearer)
    (texts : (afterDots name).dropLast = front ++ above :: back) (member : other ∈ nearer) :
    other ∈ front := by
  unfold ancestors at split
  split at split
  · cases nearer <;> cases split
  · obtain ⟨before, after, separated, rfl, rest⟩ := List.map_eq_append_iff.mp split
    obtain ⟨text, later, rfl, rfl, rfl⟩ := List.map_eq_cons_iff.mp rest
    obtain ⟨otherText, inside, rfl⟩ := List.mem_map.mp member
    have sublist := afterSeparators_sublist false name
    have pairs := (afterDots_pairwise name).sublist sublist
    rw [separated] at sublist pairs
    have longer : text.length < otherText.length :=
      (List.pairwise_append.mp pairs).2.2 otherText inside text List.mem_cons_self
    -- The other text is longer than this one, so it is not empty and stands for itself.
    have itself : orRoot otherText = otherText := by
      rw [orRoot, if_neg]
      rintro rfl
      exact Nat.not_lt_zero _ longer
    have behind : otherText ∈ afterDots name := sublist.subset (List.mem_append_left _ inside)
    obtain ⟨last, whole⟩ := List.dropLast_prefix (afterDots name)
    have order := afterDots_pairwise name
    rw [← whole, texts, List.append_assoc, List.cons_append] at behind order
    rw [itself] at member ⊢
    rcases List.mem_append.mp behind with found | found
    · exact found
    · rcases List.mem_cons.mp found with same | beyond
      · exact absurd (same ▸ member) first
      · have shorter : otherText.length < (orRoot text).length :=
          List.rel_of_pairwise_cons (List.pairwise_append.mp order).2.1 beyond
        unfold orRoot at shorter
        split at shorter
        · rw [Nat.lt_one_iff.mp shorter] at longer
          exact absurd longer (Nat.not_lt_zero _)
        · exact absurd shorter longer.not_gt

/-! ## The ancestors of printed names -/

theorem afterSeparators_escapeByte (byte : Byte) (rest : Text) :
    afterSeparators false (escapeByte byte ++ rest) = afterSeparators false rest := by
  have slash_ne : backslash ≠ dot := by decide
  rcases escapeByte_cases byte with printed | ⟨hundreds, tens, ones, printed, plain⟩ |
    ⟨printed, plain⟩
  · simp [printed, afterSeparators, slash_ne]
  · simp [printed, afterSeparators, slash_ne, plain]
  · simp [printed, afterSeparators, plain]

theorem afterSeparators_printLabel (label : Label) (rest : Text) :
    afterSeparators false (printLabel label ++ rest) = afterSeparators false rest := by
  induction label with
  | nil => rfl
  | cons byte label ih =>
    rw [printLabel_cons, List.append_assoc, afterSeparators_escapeByte, ih]

theorem afterSeparators_printLabels (labels : List Label) :
    afterSeparators false (printLabels labels) =
      (List.range labels.length).map fun count => printLabels (labels.drop (count + 1)) := by
  induction labels with
  | nil => rfl
  | cons label rest ih =>
    rw [printLabels_cons, afterSeparators_printLabel, afterSeparators, if_pos rfl, ih,
      List.length_cons, List.range_succ_eq_map, List.map_cons, List.map_map]
    rfl

theorem orRoot_printLabels (name : DomainName) : orRoot (printLabels name.labels) = name.print := by
  unfold orRoot DomainName.print
  cases labels : name.labels with
  | nil => rfl
  | cons label rest => simp

/-- The ancestors of a printed name are the names whose labels are a proper suffix of its
own, from the nearest to the root. -/
theorem ancestors_print (name : DomainName) :
    ancestors name.print =
      (List.range name.labels.length).map fun count => (name.drop (count + 1)).print := by
  by_cases empty : name.labels = []
  · rw [(print_eq_root_iff name).mpr empty, empty]
    rfl
  · rw [ancestors, if_neg (mt (print_eq_root_iff name).mp empty), print_of_labels_ne_nil empty,
      afterSeparators_printLabels, List.map_map]
    exact List.map_congr_left fun count _ => orRoot_printLabels (name.drop (count + 1))

end RouteDns.Dns
