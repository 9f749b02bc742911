import Mathlib.Order.Fin.Basic
import RouteDns.Canonical.Chain
import RouteDns.Dnssec.Denial

/-!
# Denial records over labels

The denial functions work on presentation texts: they undo escapes byte by byte,
compare label lists and join labels again.  This file shows what they compute on the
text of a domain name, in terms of its labels and the canonical order on them.
-/

namespace RouteDns.Dnssec

open Dns Canonical

variable (dns : Library)

theorem lower_top : DomainName.top.lower = .top := rfl

theorem print_top : DomainName.top.print = root := rfl

/-! ## Reading labels off a text -/

theorem isDigit_iff (byte : Byte) :
    isDigit byte = true ↔ byteOf '0' ≤ byte ∧ byte ≤ byteOf '9' := by
  simp [isDigit]

theorem isDigit_digits : ∀ byte : Byte, (isDigit (digit (byte.val / 100)) &&
    isDigit (digit (byte.val / 10 % 10)) && isDigit (digit (byte.val % 10))) = true := by
  decide +kernel

/-- Reading undoes the escape of one byte, whatever follows. -/
theorem labelsFrom_escapeByte (current : Label) (byte : Byte) (rest : Text) :
    labelsFrom current (escapeByte byte ++ rest) = labelsFrom (current ++ [byte]) rest := by
  unfold escapeByte
  split
  · rename_i special
    have plain : isDigit byte = false := by
      rw [← Bool.not_eq_true, isDigit_iff]
      exact not_digit_of_isSpecial byte special
    rcases rest with _ | ⟨second, _ | ⟨third, after⟩⟩ <;> simp [labelsFrom, plain]
  · rename_i plain
    have byte_ne : byte ≠ backslash ∧ byte ≠ dot := by
      constructor <;> rintro rfl <;> exact plain (by decide)
    split
    · have digits := isDigit_digits byte
      simp only [List.cons_append, List.nil_append]
      rw [labelsFrom, if_pos rfl]
      simp only [digits, if_true, digits_value]
    · rw [List.singleton_append, labelsFrom.eq_def]
      simp [byte_ne.1, byte_ne.2]

theorem labelsFrom_printLabel (current label : Label) (rest : Text) :
    labelsFrom current (printLabel label ++ dot :: rest) =
      (current ++ label) :: labelsFrom [] rest := by
  induction label generalizing current with
  | nil =>
    have dot_ne : dot ≠ backslash := by decide
    rw [labelsFrom.eq_def]
    simp [printLabel, dot_ne]
  | cons byte label ih =>
    rw [printLabel_cons, List.append_assoc, labelsFrom_escapeByte, ih]
    simp

theorem labelsFrom_printLabels (labels : List Label) :
    labelsFrom [] (printLabels labels) = labels := by
  induction labels with
  | nil => rfl
  | cons label rest ih => rw [printLabels_cons, labelsFrom_printLabel, ih, List.nil_append]

theorem print_injective : Function.Injective DomainName.print := by
  intro left right equal
  apply DomainName.ext
  by_cases empty : left.labels = []
  · rw [empty, (print_eq_root_iff right).mp (equal ▸ (print_eq_root_iff left).mpr empty)]
  · have right_ne : right.labels ≠ [] := fun rightEmpty =>
      empty ((print_eq_root_iff left).mp (equal ▸ (print_eq_root_iff right).mpr rightEmpty))
    rw [print_of_labels_ne_nil empty, print_of_labels_ne_nil right_ne] at equal
    rw [← labelsFrom_printLabels left.labels, equal, labelsFrom_printLabels]

@[simp]
theorem print_inj {left right : DomainName} : left.print = right.print ↔ left = right :=
  print_injective.eq_iff

/-- The name a text spells, if it is the presentation text of one. -/
def spelledName (asked : Text) : Option DomainName :=
  let labels := if asked = root then [] else labelsFrom [] asked
  if valid : ∀ label ∈ labels, label ≠ [] then
    let name : DomainName := { labels := labels, nonempty := valid }
    if name.print = asked then some name else none
  else
    none

theorem spelledName_print (name : DomainName) : spelledName name.print = some name := by
  have labels_eq : (if name.print = root then [] else labelsFrom [] name.print) = name.labels := by
    split
    · rename_i isRoot
      exact ((print_eq_root_iff name).mp isRoot).symm
    · rename_i notRoot
      rw [print_of_labels_ne_nil (mt (print_eq_root_iff name).mpr notRoot), labelsFrom_printLabels]
  simp only [spelledName, labels_eq]
  rw [dif_pos name.nonempty, if_pos trivial]

theorem spelledName_eq_none {asked : Text} (unspelled : ∀ name : DomainName, name.print ≠ asked) :
    spelledName asked = none := by
  simp only [spelledName, unspelled, if_false, dite_eq_ite, ite_self]

@[simp]
theorem canonicalLabels_print (name : DomainName) :
    canonicalLabels dns name.print = name.lower.labels := by
  simp only [canonicalLabels, dns.canonicalName_print]
  split
  · rename_i isRoot
    exact ((print_eq_root_iff _).mp isRoot).symm
  · rename_i notRoot
    rw [print_of_labels_ne_nil (mt (print_eq_root_iff _).mpr notRoot), labelsFrom_printLabels]

/-! ## Comparison -/

/-- Comparing the outermost labels first is comparing the lists of labels. -/
theorem compareOuter_eq (left right : List Label) :
    compareOuter left right = if left < right then -1 else if left = right then 0 else 1 := by
  induction left generalizing right with
  | nil => cases right <;> simp [compareOuter]
  | cons first rest ih =>
    cases right with
    | nil => simp [compareOuter]
    | cons other others =>
      rcases lt_trichotomy first other with less | rfl | greater
      · have lists : first :: rest < other :: others := List.cons_lt_cons_iff.mpr (.inl less)
        simp [compareOuter, bytesCompare, less, lists]
      · have lists : first :: rest < first :: others ↔ rest < others := by
          simp
        simp [compareOuter, bytesCompare, lists, ih]
      · have lists : ¬ first :: rest < other :: others := by
          rw [List.cons_lt_cons_iff]
          rintro (less | ⟨rfl, _⟩)
          · exact lt_asymm less greater
          · exact lt_irrefl _ greater
        simp [compareOuter, bytesCompare, lt_asymm greater, greater.ne', lists]

theorem compareOuter_neg_iff (left right : List Label) :
    compareOuter left right < 0 ↔ left < right := by
  rw [compareOuter_eq]
  split
  · simp [*]
  · split <;> simp [*]

theorem canonicalNameCmp_print (left right : DomainName) :
    canonicalNameCmp dns left.print right.print =
      if Before left.lower.labels right.lower.labels then -1
      else if left.lower = right.lower then 0 else 1 := by
  have same : left.lower.labels.reverse = right.lower.labels.reverse ↔ left.lower = right.lower :=
    List.reverse_inj.trans ⟨DomainName.ext, congrArg DomainName.labels⟩
  rw [canonicalNameCmp, canonicalLabels_print, canonicalLabels_print, compareOuter_eq]
  exact if_congr Iff.rfl rfl (if_congr same rfl rfl)

theorem canonicalNameCmp_print_neg_iff (left right : DomainName) :
    canonicalNameCmp dns left.print right.print < 0 ↔
      Before left.lower.labels right.lower.labels := by
  rw [canonicalNameCmp, canonicalLabels_print, canonicalLabels_print, compareOuter_neg_iff]
  rfl

/-- A record covers the names of its span, except its own owner. -/
theorem nsecCovers_print_iff (record : NSEC) (qname : DomainName) :
    nsecCovers dns record qname.print = true ↔
      qname.lower ≠ record.hdr.owner.lower ∧
        Spans record.hdr.owner.lower.labels record.next.lower.labels qname.lower.labels := by
  simp only [nsecCovers, dns.canonicalName_print, print_inj, Spans]
  by_cases own : qname.lower = record.hdr.owner.lower
  · simp [own]
  · have less := canonicalNameCmp_print_neg_iff dns
    simp only [own, if_false, ne_eq, not_false_eq_true, true_and]
    by_cases ascends : Before record.hdr.owner.lower.labels record.next.lower.labels
    · rw [if_pos ((less _ _).mpr (by simpa using ascends)), if_pos ascends]
      simp only [Bool.and_eq_true, decide_eq_true_eq, less, DomainName.lower_lower]
    · rw [if_neg (mt (less _ _).mp (by simpa using ascends)), if_neg ascends]
      simp only [Bool.or_eq_true, decide_eq_true_eq, less, DomainName.lower_lower]

theorem nsecOwns_print_iff (record : NSEC) (name : DomainName) :
    nsecOwns dns name.lower.print record = true ↔ record.hdr.owner.lower = name.lower := by
  simp [nsecOwns]

/-! ## Ancestors and wildcards -/

/-- The ancestor of a name with its outermost labels. -/
def ancestor (name : DomainName) (count : Nat) : DomainName :=
  name.drop (name.labels.length - count)

@[simp]
theorem ancestor_labels (name : DomainName) (count : Nat) :
    (ancestor name count).labels = outer name.labels count :=
  rfl

theorem lastNLabels_print (name : DomainName) (count : Nat) :
    lastNLabels dns name.lower.print count = (ancestor name.lower count).print := by
  unfold lastNLabels
  by_cases none : count = 0
  · have labels_nil : (ancestor name.lower count).labels = [] := by simp [outer, none]
    rw [if_pos none, (print_eq_root_iff _).mpr labels_nil]
  · simp only [none, if_false, dns.splitDomainName_print, List.length_map, dns.canonicalName_print,
      DomainName.lower_lower]
    split
    · rename_i all
      rw [print_inj]
      apply DomainName.ext
      rw [ancestor_labels, outer, Nat.sub_eq_zero_of_le all, List.drop_zero]
    · have labels_ne : (ancestor name.lower count).labels ≠ [] := by
        rw [← List.length_pos_iff, ancestor_labels, length_outer (by omega)]
        omega
      rw [← List.map_drop]
      exact (dns.fqdn_intercalate labels_ne (ancestor name.lower count).nonempty).trans
        (print_of_labels_ne_nil labels_ne).symm

/-- The wildcard directly below a name. -/
def wildcardOf (encloser : DomainName) : DomainName :=
  encloser.child (text "*") (by decide)

@[simp]
theorem wildcardOf_labels (encloser : DomainName) :
    (wildcardOf encloser).labels = text "*" :: encloser.labels :=
  rfl

theorem wildcardOf_lower (encloser : DomainName) :
    (wildcardOf encloser).lower = wildcardOf encloser.lower := by
  apply DomainName.ext
  have star : (text "*").map lowerByte = text "*" := by decide
  simp [star]

/-- Putting an asterisk in front of a name below the root gives its wildcard. -/
theorem wildcardText_print {encloser : DomainName} (labels_ne : encloser.labels ≠ []) :
    wildcardText encloser.print = (wildcardOf encloser).print := by
  have star : printLabel (text "*") = text "*" := by decide
  rw [print_of_labels_ne_nil labels_ne, print_of_labels_ne_nil (by simp), wildcardOf_labels,
    printLabels_cons, star]
  rfl

/-- How many labels a name shares with the nearer end of a span. -/
def sharedWith (qname : DomainName) (record : NSEC) : Nat :=
  max (shared qname.lower.labels record.hdr.owner.lower.labels)
    (shared qname.lower.labels record.next.lower.labels)

theorem nsecClosestEncloser_print (qname : DomainName) (record : NSEC) :
    nsecClosestEncloser dns qname.lower.print record =
      (ancestor qname.lower (sharedWith qname record)).print := by
  simp only [nsecClosestEncloser, dns.canonicalName_print, dns.compareDomainName_print,
    DomainName.lower_lower, sharedWith, lastNLabels_print]

end RouteDns.Dnssec
