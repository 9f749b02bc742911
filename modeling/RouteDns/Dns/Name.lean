import Mathlib.Algebra.Ring.Nat
import Mathlib.Data.List.Basic
import Mathlib.Data.Fin.Basic

/-!
# Domain names and their presentation text

A Go string is a list of bytes.  A domain name is a list of non-empty labels of
arbitrary bytes, leftmost label first, and its presentation text is what the DNS
library prints when it unpacks a name from the wire: label bytes with a meaning
in master files are preceded by a backslash, unprintable bytes are written as a
backslash and three decimal digits, and every label is followed by a dot.
-/

namespace RouteDns.Dns

/-- One byte of a Go string. -/
abbrev Byte := Fin 256

/-- Numerals stand for bytes. -/
instance byteNumerals : NeZero 256 := ⟨by decide⟩

instance byteLawful : LawfulBEq Byte := inferInstance

/-- A Go string. -/
abbrev Text := List Byte

/-- The byte of an ASCII character. -/
def byteOf (char : Char) : Byte :=
  Fin.ofNat 256 char.toNat

/-- A string literal as bytes. -/
def text (literal : String) : Text :=
  literal.toList.map byteOf

/-- The text of a domain name as the code passes it around. -/
abbrev Name := Text

/-- The label separator. -/
def dot : Byte := byteOf '.'

/-- The escape character. -/
def backslash : Byte := byteOf '\\'

/-- The name of the root zone. -/
def root : Name := [dot]

/-- One label of a domain name, as raw bytes. -/
abbrev Label := List Byte

/-- A domain name: the labels from the leftmost to the one below the root. -/
@[ext]
structure DomainName where
  labels : List Label
  nonempty : ∀ label ∈ labels, label ≠ [] := by decide
  deriving DecidableEq

/-! ## Case folding -/

/-- Lower-case one US-ASCII letter. -/
def lowerByte (byte : Byte) : Byte :=
  if byteOf 'A' ≤ byte ∧ byte ≤ byteOf 'Z' then byte + 32 else byte

/-- Upper-case one US-ASCII letter. -/
def upperByte (byte : Byte) : Byte :=
  if byteOf 'a' ≤ byte ∧ byte ≤ byteOf 'z' then byte - 32 else byte

theorem val_lowerByte (byte : Byte) :
    (lowerByte byte).val = if 65 ≤ byte.val ∧ byte.val ≤ 90 then byte.val + 32 else byte.val := by
  have upper : (byteOf 'A' ≤ byte ∧ byte ≤ byteOf 'Z') ↔ 65 ≤ byte.val ∧ byte.val ≤ 90 := Iff.rfl
  simp only [lowerByte, upper]
  split
  · rw [Fin.val_add]
    change (byte.val + 32) % 256 = byte.val + 32
    omega
  · rfl

/-- Lower-casing gives a byte that is no letter for that byte only. -/
theorem lowerByte_eq_iff (byte : Byte) {other : Byte} (upper : ¬ (65 ≤ other.val ∧ other.val ≤ 90))
    (lower : ¬ (97 ≤ other.val ∧ other.val ≤ 122)) : lowerByte byte = other ↔ byte = other := by
  rw [Fin.ext_iff, Fin.ext_iff, val_lowerByte]
  split <;> omega

theorem lowerByte_idem : ∀ byte : Byte, lowerByte (lowerByte byte) = lowerByte byte := by
  intro byte
  apply Fin.ext
  rw [val_lowerByte (lowerByte byte), if_neg]
  rw [val_lowerByte]
  split <;> omega

namespace DomainName

/-- The name with its letters lower-cased: DNS names are compared up to case. -/
def lower (name : DomainName) : DomainName where
  labels := name.labels.map (List.map lowerByte)
  nonempty := by
    intro label member
    obtain ⟨source, sourceMem, rfl⟩ := List.mem_map.mp member
    simpa using name.nonempty source sourceMem

@[simp]
theorem lower_labels (name : DomainName) :
    name.lower.labels = name.labels.map (List.map lowerByte) :=
  rfl

@[simp]
theorem lower_lower (name : DomainName) : name.lower.lower = name.lower := by
  apply DomainName.ext
  simp only [lower_labels, List.map_map]
  apply List.map_congr_left
  intro label _
  simp [lowerByte_idem]

/-- The name that owns nothing but the root label. -/
def top : DomainName where
  labels := []
  nonempty := by simp

/-- The name one label below another. -/
def child (label : Label) (labelNonempty : label ≠ []) (parent : DomainName) : DomainName where
  labels := label :: parent.labels
  nonempty := by
    intro entry member
    rcases List.mem_cons.mp member with rfl | member
    · exact labelNonempty
    · exact parent.nonempty entry member

/-- The ancestor that many labels further up. -/
def drop (name : DomainName) (count : Nat) : DomainName where
  labels := name.labels.drop count
  nonempty := fun label member => name.nonempty label (List.mem_of_mem_drop member)

@[simp]
theorem drop_labels (name : DomainName) (count : Nat) :
    (name.drop count).labels = name.labels.drop count :=
  rfl

theorem lower_drop (name : DomainName) (count : Nat) :
    (name.drop count).lower = name.lower.drop count := by
  apply DomainName.ext
  rw [lower_labels, drop_labels, drop_labels, lower_labels, List.map_drop]

end DomainName

/-! ## Fully qualified text -/

/-- Whether a text ends with a dot that no backslash escapes; `escaped` says
whether the byte read next is. -/
def endsWithDot : (escaped : Bool) → Text → Bool
  | _, [] => false
  | true, _ :: rest => endsWithDot false rest
  | false, [byte] => byte = dot
  | false, byte :: rest => endsWithDot (byte = backslash) rest

/-- A fully qualified name text as it is read off the wire: it ends with an
unescaped dot and holds ASCII bytes only. -/
structure Qualified (name : Name) : Prop where
  ends : endsWithDot false name = true
  ascii : (name.all fun byte => byte.val < 128) = true

instance (name : Name) : Decidable (Qualified name) :=
  decidable_of_iff (endsWithDot false name = true ∧
      (name.all fun byte => byte.val < 128) = true)
    ⟨fun ⟨ends, ascii⟩ => ⟨ends, ascii⟩, fun ⟨ends, ascii⟩ => ⟨ends, ascii⟩⟩

theorem root_qualified : Qualified root := by
  decide

variable {name : Name} {rest : Text} {labels : List Label}

theorem Qualified.ne_nil (qualified : Qualified name) : name ≠ [] := by
  rintro rfl
  cases qualified.ends

theorem lowerByte_lt_iff : ∀ byte : Byte, (lowerByte byte).val < 128 ↔ byte.val < 128 := by
  intro byte
  rw [val_lowerByte]
  split <;> omega

theorem lowerByte_eq_dot_iff : ∀ byte : Byte, lowerByte byte = dot ↔ byte = dot :=
  fun byte => lowerByte_eq_iff byte (by decide) (by decide)

theorem lowerByte_eq_backslash_iff :
    ∀ byte : Byte, lowerByte byte = backslash ↔ byte = backslash :=
  fun byte => lowerByte_eq_iff byte (by decide) (by decide)

theorem endsWithDot_map_lowerByte (escaped : Bool) (name : Text) :
    endsWithDot escaped (name.map lowerByte) = endsWithDot escaped name := by
  induction name generalizing escaped with
  | nil => cases escaped <;> rfl
  | cons byte rest ih =>
    cases escaped with
    | true => simpa [endsWithDot] using ih false
    | false =>
      cases rest with
      | nil => simp [endsWithDot, lowerByte_eq_dot_iff]
      | cons other rest =>
        simpa [endsWithDot, lowerByte_eq_backslash_iff] using ih (byte = backslash)

/-- Lower-casing keeps a name fully qualified. -/
theorem Qualified.map_lowerByte (qualified : Qualified name) : Qualified (name.map lowerByte) where
  ends := by rw [endsWithDot_map_lowerByte, qualified.ends]
  ascii := by
    have ascii := qualified.ascii
    simp only [List.all_map, List.all_eq_true, decide_eq_true_eq] at ascii ⊢
    intro byte member
    simpa [lowerByte_lt_iff] using ascii byte member

theorem endsWithDot_after_dot (escaped : Bool) (front rest : Text) (rest_ne : rest ≠ []) :
    endsWithDot escaped (front ++ dot :: rest) = endsWithDot false rest := by
  induction front generalizing escaped with
  | nil =>
    have dot_ne : dot ≠ backslash := by decide
    cases escaped <;> simp [endsWithDot, dot_ne]
  | cons byte front ih =>
    cases escaped with
    | true => simpa [endsWithDot] using ih false
    | false =>
      have tail_ne : front ++ dot :: rest ≠ [] := by simp
      obtain ⟨first, tail, tail_eq⟩ := List.exists_cons_of_ne_nil tail_ne
      have unfolded := ih (byte = backslash)
      rw [tail_eq] at unfolded
      simpa [tail_eq, endsWithDot] using unfolded

/-- What follows a dot of a fully qualified name is fully qualified again, whether
or not that dot was escaped. -/
theorem Qualified.after_dot {front : Text} (qualified : Qualified (front ++ dot :: rest))
    (rest_ne : rest ≠ []) : Qualified rest where
  ends := by rw [← endsWithDot_after_dot false front rest rest_ne, qualified.ends]
  ascii := by
    have ascii := qualified.ascii
    simp only [List.all_append, List.all_cons, Bool.and_eq_true] at ascii
    exact ascii.2.2

theorem dot_mem_of_endsWithDot {escaped : Bool} {name : Text}
    (ends : endsWithDot escaped name = true) : dot ∈ name := by
  induction name generalizing escaped with
  | nil => cases escaped <;> cases ends
  | cons byte rest ih =>
    cases escaped with
    | true => exact List.mem_cons_of_mem byte (ih ends)
    | false =>
      cases rest with
      | nil =>
        have byte_eq : byte = dot := by simpa [endsWithDot] using ends
        simp [byte_eq]
      | cons other rest => exact List.mem_cons_of_mem byte (ih ends)

/-- A fully qualified name has a dot. -/
theorem Qualified.dot_mem (qualified : Qualified name) : dot ∈ name :=
  dot_mem_of_endsWithDot qualified.ends

/-! ## Presentation text -/

/-- Label bytes that the library prints with a backslash in front. -/
def isSpecial (byte : Byte) : Bool :=
  byte ∈ text ". '@;()\"\\"

/-- The decimal digit of a value below ten. -/
def digit (value : Nat) : Byte :=
  byteOf '0' + Fin.ofNat 256 value

/-- The presentation text of one label byte. -/
def escapeByte (byte : Byte) : Text :=
  if isSpecial byte then
    [backslash, byte]
  else if byte < 32 ∨ 126 < byte then
    [backslash, digit (byte.val / 100), digit (byte.val / 10 % 10), digit (byte.val % 10)]
  else
    [byte]

/-- The presentation text of one label. -/
def printLabel (label : Label) : Text :=
  label.flatMap escapeByte

/-- The presentation text of a list of labels, each followed by a dot. -/
def printLabels (labels : List Label) : Text :=
  labels.flatMap fun label => printLabel label ++ [dot]

/-- The presentation text of a name; the root is a single dot. -/
def DomainName.print (name : DomainName) : Name :=
  if name.labels = [] then root else printLabels name.labels

/-- A byte is printed behind a backslash, as three digits behind one, or as it stands. -/
theorem escapeByte_cases (byte : Byte) :
    escapeByte byte = [backslash, byte] ∨
      (∃ hundreds tens ones, escapeByte byte = [backslash, hundreds, tens, ones] ∧
        (tens ≠ dot ∧ tens ≠ backslash) ∧ ones ≠ dot ∧ ones ≠ backslash) ∨
      escapeByte byte = [byte] ∧ byte ≠ dot ∧ byte ≠ backslash := by
  have digits : ∀ value : Fin 10, digit value ≠ dot ∧ digit value ≠ backslash := by decide
  unfold escapeByte
  split
  · exact .inl rfl
  · rename_i plain
    split
    · have tens := digits ⟨byte.val / 10 % 10, Nat.mod_lt _ (by decide)⟩
      have ones := digits ⟨byte.val % 10, Nat.mod_lt _ (by decide)⟩
      exact .inr (.inl ⟨_, _, _, rfl, tens, ones⟩)
    · refine .inr (.inr ⟨rfl, ?_⟩)
      constructor <;> rintro rfl <;> exact plain (by decide)

theorem escapeByte_ne_nil (byte : Byte) : escapeByte byte ≠ [] := by
  rcases escapeByte_cases byte with printed | ⟨_, _, _, printed, _⟩ | ⟨printed, _⟩ <;>
    simp [printed]

/-- What every byte is printed as: no escape sequence holds a letter or ends with a dot of its
own, and all of it is ASCII. -/
theorem escapeByte_shape :
    ∀ byte : Byte, (escapeByte byte).map lowerByte = escapeByte (lowerByte byte) ∧
      endsWithDot false (escapeByte byte) = false ∧
      ((escapeByte byte).all fun byte => byte.val < 128) = true := by
  decide +kernel

/-- Printing and lower-casing commute, byte by byte. -/
theorem map_lowerByte_escapeByte :
    ∀ byte : Byte, (escapeByte byte).map lowerByte = escapeByte (lowerByte byte) :=
  fun byte => (escapeByte_shape byte).1

theorem map_lowerByte_printLabel (label : Label) :
    (printLabel label).map lowerByte = printLabel (label.map lowerByte) := by
  simp only [printLabel, List.map_flatMap, List.flatMap_map, map_lowerByte_escapeByte]

theorem map_lowerByte_printLabels (labels : List Label) :
    (printLabels labels).map lowerByte = printLabels (labels.map (List.map lowerByte)) := by
  have dot_lower : lowerByte dot = dot := by decide
  simp only [printLabels, List.map_flatMap, List.flatMap_map, List.map_append,
    map_lowerByte_printLabel, List.map_cons, List.map_nil, dot_lower]

theorem map_lowerByte_print (name : DomainName) :
    name.print.map lowerByte = name.lower.print := by
  unfold DomainName.print
  by_cases empty : name.labels = []
  · simp only [empty, if_true, DomainName.lower_labels, List.map_nil]
    decide
  · simp only [empty, if_false, DomainName.lower_labels, List.map_eq_nil_iff,
      map_lowerByte_printLabels]

theorem print_of_labels_ne_nil {name : DomainName} (labels_ne : name.labels ≠ []) :
    name.print = printLabels name.labels := by
  simp [DomainName.print, labels_ne]

@[simp]
theorem printLabels_cons (label : Label) (rest : List Label) :
    printLabels (label :: rest) = printLabel label ++ dot :: printLabels rest := by
  simp [printLabels]

theorem printLabel_cons (byte : Byte) (label : Label) :
    printLabel (byte :: label) = escapeByte byte ++ printLabel label := by
  simp [printLabel]

/-- What follows a printed byte decides where a text ends. -/
theorem endsWithDot_escapeByte (byte : Byte) (rest_ne : rest ≠ []) :
    endsWithDot false (escapeByte byte ++ rest) = endsWithDot false rest := by
  rcases escapeByte_cases byte with printed | ⟨hundreds, tens, ones, printed, plain⟩ |
    ⟨printed, plain⟩
  · simp [printed, endsWithDot]
  · simp [printed, endsWithDot, plain]
  · simp [printed, endsWithDot, plain]

theorem endsWithDot_printLabel (label : Label) (rest_ne : rest ≠ []) :
    endsWithDot false (printLabel label ++ rest) = endsWithDot false rest := by
  induction label with
  | nil => rfl
  | cons byte label ih =>
    have tail_ne : printLabel label ++ rest ≠ [] := List.append_ne_nil_of_right_ne_nil _ rest_ne
    rw [printLabel_cons, List.append_assoc, endsWithDot_escapeByte byte tail_ne, ih]

theorem endsWithDot_printLabels (label : Label) (rest : List Label) :
    endsWithDot false (printLabels (label :: rest)) = true := by
  induction rest generalizing label with
  | nil =>
    rw [printLabels_cons, endsWithDot_printLabel label (by simp)]
    decide
  | cons next rest ih =>
    have tail_ne : printLabels (next :: rest) ≠ [] := by simp
    rw [printLabels_cons, endsWithDot_after_dot false (printLabel label) _ tail_ne, ih]

theorem not_endsWithDot_escapeByte :
    ∀ byte : Byte, endsWithDot false (escapeByte byte) = false :=
  fun byte => (escapeByte_shape byte).2.1

theorem not_endsWithDot_printLabel (label : Label) :
    endsWithDot false (printLabel label) = false := by
  induction label with
  | nil => rfl
  | cons byte label ih =>
    rw [printLabel_cons]
    by_cases last : printLabel label = []
    · rw [last, List.append_nil, not_endsWithDot_escapeByte]
    · rw [endsWithDot_escapeByte byte last, ih]

theorem printLabel_ne_nil {label : Label} (label_ne : label ≠ []) : printLabel label ≠ [] := by
  obtain ⟨byte, rest, rfl⟩ := List.exists_cons_of_ne_nil label_ne
  rw [printLabel_cons]
  exact List.append_ne_nil_of_left_ne_nil (escapeByte_ne_nil byte) _

/-- Only the root prints as a single dot. -/
theorem print_eq_root_iff (name : DomainName) : name.print = root ↔ name.labels = [] := by
  constructor
  · intro isRoot
    by_contra labels_ne
    obtain ⟨label, rest, labels_eq⟩ := List.exists_cons_of_ne_nil labels_ne
    have label_ne := printLabel_ne_nil (name.nonempty label (by simp [labels_eq]))
    have label_pos := List.length_pos_iff.mpr label_ne
    rw [print_of_labels_ne_nil labels_ne, labels_eq, printLabels_cons] at isRoot
    have lengths := congrArg List.length isRoot
    simp only [root, List.length_append, List.length_cons, List.length_nil] at lengths
    omega
  · intro empty
    simp [DomainName.print, empty]

/-- Printed labels joined by dots lack only the final dot. -/
theorem intercalate_printLabel (labels_ne : labels ≠ []) :
    List.intercalate [dot] (labels.map printLabel) ++ [dot] = printLabels labels := by
  induction labels with
  | nil => exact absurd rfl labels_ne
  | cons label rest ih =>
    cases rest with
    | nil => simp [List.intercalate, printLabels]
    | cons next rest =>
      have tail := ih (by simp)
      simp only [List.map_cons, printLabels_cons] at tail ⊢
      rw [← tail]
      simp [List.intercalate]

theorem not_endsWithDot_intercalate (nonempty : ∀ label ∈ labels, label ≠ []) :
    endsWithDot false (List.intercalate [dot] (labels.map printLabel)) = false := by
  induction labels with
  | nil => rfl
  | cons label rest ih =>
    cases rest with
    | nil => simpa [List.intercalate] using not_endsWithDot_printLabel label
    | cons next rest =>
      have tail := ih fun entry member => nonempty entry (List.mem_cons_of_mem label member)
      have joined : List.intercalate [dot] ((label :: next :: rest).map printLabel) =
          printLabel label ++
            dot :: List.intercalate [dot] ((next :: rest).map printLabel) := by
        simp [List.intercalate]
      have tail_ne : List.intercalate [dot] ((next :: rest).map printLabel) ≠ [] := by
        have next_ne := printLabel_ne_nil (nonempty next (by simp))
        cases rest with
        | nil => simpa [List.intercalate] using next_ne
        | cons => simp [List.intercalate]
      rw [joined, endsWithDot_after_dot false _ _ tail_ne, tail]

theorem ascii_escapeByte :
    ∀ byte : Byte, ((escapeByte byte).all fun byte => byte.val < 128) = true :=
  fun byte => (escapeByte_shape byte).2.2

/-- The presentation text of a name is fully qualified. -/
theorem DomainName.print_qualified (name : DomainName) : Qualified name.print := by
  by_cases empty : name.labels = []
  · rw [DomainName.print, if_pos empty]
    exact root_qualified
  · rw [print_of_labels_ne_nil empty]
    obtain ⟨label, rest, labels_eq⟩ := List.exists_cons_of_ne_nil empty
    refine ⟨labels_eq ▸ endsWithDot_printLabels label rest, ?_⟩
    simp only [printLabels, printLabel, List.all_flatMap, List.all_append, ascii_escapeByte]
    simp [dot, byteOf]

/-! ## Printing is one to one -/

/-- The byte three decimal digits stand for, in 8-bit arithmetic. -/
def byteOfDigits (hundreds tens ones : Byte) : Byte :=
  (hundreds - byteOf '0') * 100 + (tens - byteOf '0') * 10 + (ones - byteOf '0')

/-- Read one printed byte off the front of a text. -/
def readByte : Text → Option (Byte × Text)
  | [] => none
  | first :: rest =>
    if first = backslash then
      match rest with
      | [] => none
      | second :: rest =>
        if byteOf '0' ≤ second ∧ second ≤ byteOf '9' then
          match rest with
          | third :: fourth :: rest =>
            some (byteOfDigits second third fourth, rest)
          | _ => none
        else
          some (second, rest)
    else
      some (first, rest)

/-- Three decimal digits stand for the byte they were made from. -/
theorem digits_value : ∀ byte : Byte,
    byteOfDigits (digit (byte.val / 100)) (digit (byte.val / 10 % 10)) (digit (byte.val % 10)) =
      byte := by
  decide +kernel

theorem digit_hundreds : ∀ byte : Byte,
    byteOf '0' ≤ digit (byte.val / 100) ∧ digit (byte.val / 100) ≤ byteOf '9' := by
  intro byte
  have value : (digit (byte.val / 100)).val = (48 + byte.val / 100 % 256) % 256 := rfl
  constructor
  · change 48 ≤ (digit (byte.val / 100)).val
    omega
  · change (digit (byte.val / 100)).val ≤ 57
    omega

theorem not_digit_of_isSpecial : ∀ byte : Byte, isSpecial byte = true →
    ¬ (byteOf '0' ≤ byte ∧ byte ≤ byteOf '9') := by
  decide +kernel

theorem readByte_escapeByte (byte : Byte) (rest : Text) :
    readByte (escapeByte byte ++ rest) = some (byte, rest) := by
  unfold escapeByte
  split
  · rename_i special
    simp [readByte, not_digit_of_isSpecial byte special]
  · rename_i plain
    split
    · simp [readByte, digit_hundreds, digits_value]
    · have byte_ne : byte ≠ backslash := by
        rintro rfl
        exact plain (by decide)
      simp [readByte, byte_ne]

theorem printLabel_injective : Function.Injective printLabel := by
  intro left
  induction left with
  | nil =>
    intro right equal
    by_contra right_ne
    exact printLabel_ne_nil (Ne.symm right_ne) equal.symm
  | cons byte left ih =>
    intro right equal
    cases right with
    | nil => exact absurd equal (printLabel_ne_nil (List.cons_ne_nil byte left))
    | cons other right =>
      have read := congrArg readByte equal
      rw [printLabel_cons, printLabel_cons, readByte_escapeByte, readByte_escapeByte] at read
      simp only [Option.some.injEq, Prod.mk.injEq] at read
      rw [read.1, ih read.2]

end RouteDns.Dns
