import Mathlib.Data.List.Basic

/-!
# Lines of a stream

A scanner takes lines off a stream through a buffer.  A line ends with a line break, which is
not part of it, and neither is a carriage return before that; what stands behind the last line
break is a line as well.  A line that fills the buffer before its end is seen is too long.  The
end of the stream may be seen together with the last of its data, or only by reading on.
-/

namespace RouteDns.Lines

universe u

variable {α : Type u} [DecidableEq α]

/-- A line without the carriage return at its end. -/
def dropCR (cr : α) (line : List α) : List α :=
  if line.getLast? = some cr then line.dropLast else line

variable (newline cr : α) (limit : Nat)

/-- The lines of a stream, the first of which has begun, and whether the scanner gets to the
end of the stream. -/
def scanFrom (together : Bool) : (line : List α) → (stream : List α) → List (List α) × Bool
  | line, [] => (if line = [] then [] else [dropCR cr line], true)
  | line, entry :: stream =>
    if entry = newline then
      (dropCR cr line :: (scanFrom together [] stream).1, (scanFrom together [] stream).2)
    else if line.length + 1 < limit ∨ together ∧ stream = [] then
      scanFrom together (line ++ [entry]) stream
    else ([], false)

def scan (together : Bool) (stream : List α) : List (List α) × Bool :=
  scanFrom newline cr limit together [] stream

/-- What stands behind the last line break, if a line has begun. -/
def openFrom : (line : List α) → (stream : List α) → List α
  | line, [] => line
  | line, entry :: stream =>
    if entry = newline then openFrom [] stream else openFrom (line ++ [entry]) stream

def openLine (stream : List α) : List α :=
  openFrom newline [] stream

/-- Lines as they are written. -/
def written (lines : List (List α)) : List α :=
  lines.flatMap fun line => line ++ [newline]

variable {newline cr limit} {together : Bool}

theorem length_dropCR_le (line : List α) : (dropCR cr line).length ≤ line.length := by
  unfold dropCR
  split
  · rw [List.length_dropLast]
    exact Nat.sub_le _ _
  · exact Nat.le_refl _

variable {line stream : List α} {lines : List (List α)}

theorem mem_of_mem_dropCR {entry : α} (member : entry ∈ dropCR cr line) : entry ∈ line := by
  unfold dropCR at member
  split at member
  · exact List.dropLast_subset line member
  · exact member

/-! ## What a scanner hands over -/

/-- Lines have no line breaks in them. -/
theorem newline_notMem_scanFrom (begun : newline ∉ line) :
    ∀ found ∈ (scanFrom newline cr limit together line stream).1, newline ∉ found := by
  induction stream generalizing line with
  | nil =>
    intro found member
    unfold scanFrom at member
    split at member
    · cases member
    · rw [List.mem_singleton.mp member]
      exact fun inside => begun (mem_of_mem_dropCR inside)
  | cons entry stream ih =>
    intro found member
    unfold scanFrom at member
    split at member
    · rcases List.mem_cons.mp member with rfl | later
      · exact fun inside => begun (mem_of_mem_dropCR inside)
      · exact ih List.not_mem_nil found later
    · rename_i other
      split at member
      · refine ih ?_ found member
        simp [begun, Ne.symm other]
      · cases member

theorem newline_notMem_scan :
    ∀ found ∈ (scan newline cr limit together stream).1, newline ∉ found :=
  newline_notMem_scanFrom List.not_mem_nil

theorem scanFrom_short_iff (room : line.length < limit ∨ stream = []) (positive : 0 < limit)
    (ended : (scanFrom newline cr limit together line stream).2 = true) :
    (∀ found ∈ (scanFrom newline cr limit together line stream).1, found.length < limit) ↔
      (dropCR cr (openFrom newline line stream)).length < limit := by
  induction stream generalizing line with
  | nil =>
    unfold scanFrom openFrom
    by_cases empty : line = []
    · simp [empty, dropCR, positive]
    · simp [empty]
  | cons entry stream ih =>
    have short : line.length < limit := room.resolve_right (List.cons_ne_nil _ _)
    unfold scanFrom at ended ⊢
    unfold openFrom
    split
    · rename_i same
      rw [if_pos same] at ended
      have first : (dropCR cr line).length < limit :=
        Nat.lt_of_le_of_lt (length_dropCR_le line) short
      rw [List.forall_mem_cons]
      exact (and_iff_right first).trans (ih (.inl positive) ended)
    · rename_i other
      rw [if_neg other] at ended
      split at ended
      · rename_i fits
        rw [if_pos fits]
        refine ih ?_ ended
        rw [List.length_append, List.length_singleton]
        exact fits.imp id And.right
      · cases ended

/-- Only the line behind the last line break can have the length of the buffer. -/
theorem scan_short_iff (positive : 0 < limit)
    (ended : (scan newline cr limit together stream).2 = true) :
    (∀ found ∈ (scan newline cr limit together stream).1, found.length < limit) ↔
      (dropCR cr (openLine newline stream)).length < limit :=
  scanFrom_short_iff (.inl positive) positive ended

/-! ## Within a line -/

/-- A scanner reads on while its buffer has room. -/
theorem scanFrom_ahead {ahead : List α} (free : newline ∉ ahead)
    (room : line.length + ahead.length < limit) :
    scanFrom newline cr limit together line (ahead ++ stream) =
      scanFrom newline cr limit together (line ++ ahead) stream := by
  induction ahead generalizing line with
  | nil => simp
  | cons entry ahead ih =>
    rw [List.mem_cons, not_or] at free
    rw [List.length_cons] at room
    rw [List.cons_append, scanFrom, if_neg (Ne.symm free.1), if_pos (.inl (by omega)),
      ih free.2 (by rw [List.length_append, List.length_singleton]; omega), List.append_assoc]
    rfl

/-- A line break ends a line. -/
theorem scan_line (free : newline ∉ line) (short : line.length < limit) :
    scan newline cr limit together (line ++ newline :: stream) =
      (dropCR cr line :: (scan newline cr limit together stream).1,
        (scan newline cr limit together stream).2) := by
  rw [scan, scanFrom_ahead free (by simpa using short), scanFrom, if_pos rfl, List.nil_append]
  rfl

/-- A line that fills the buffer ends the scan. -/
theorem scan_long (free : newline ∉ line) (positive : 0 < limit) (long : limit ≤ line.length) :
    (scan newline cr limit together (line ++ newline :: stream)).2 = false := by
  obtain ⟨count, rfl⟩ := Nat.exists_eq_succ_of_ne_zero (Nat.ne_of_gt positive)
  have split : line = line.take count ++ (line)[count] :: line.drop (count + 1) := by
    rw [List.getElem_cons_drop, List.take_append_drop]
  rw [split, List.mem_append, List.mem_cons, not_or, not_or] at free
  have full : (line.take count).length = count := by
    rw [List.length_take]
    omega
  rw [scan, split, List.append_assoc, scanFrom_ahead free.1 (by rw [List.length_nil]; omega),
    List.cons_append, scanFrom, if_neg (Ne.symm free.2.1), if_neg (by simp [full])]

/-- A stream without line breaks is one line. -/
theorem scan_single {front : List α} {last : α} (free : newline ∉ front ++ [last])
    (fits : front.length + 1 < limit ∨ together ∧ front.length + 1 = limit) :
    scan newline cr limit together (front ++ [last]) = ([dropCR cr (front ++ [last])], true) := by
  rw [List.mem_append, List.mem_singleton, not_or] at free
  have room : front.length + 1 < limit ∨ together ∧ ([] : List α) = [] :=
    fits.imp id fun fits => ⟨fits.1, rfl⟩
  rw [scan, scanFrom_ahead free.1 (by rw [List.length_nil]; omega), List.nil_append, scanFrom,
    if_neg (Ne.symm free.2), if_pos room, scanFrom, if_neg (by simp)]

/-- All of such a stream stands behind the last line break. -/
theorem openLine_of_free (free : newline ∉ stream) : openLine newline stream = stream := by
  have whole : ∀ line : List α, openFrom newline line stream = line ++ stream := by
    induction stream with
    | nil => simp [openFrom]
    | cons entry stream ih =>
      intro line
      rw [List.mem_cons, not_or] at free
      rw [openFrom, if_neg (Ne.symm free.1), ih free.2, List.append_assoc]
      rfl
  exact whole []

/-! ## Reading back what was written -/

omit [DecidableEq α] in
theorem written_cons (line : List α) (lines : List (List α)) :
    written newline (line :: lines) = line ++ newline :: written newline lines := by
  simp [written]

/-- Lines are read back up to a carriage return at their ends, if they are shorter than the
buffer. -/
theorem scan_written (free : ∀ line ∈ lines, newline ∉ line)
    (short : ∀ line ∈ lines, line.length < limit) :
    scan newline cr limit together (written newline lines) = (lines.map (dropCR cr), true) := by
  induction lines with
  | nil => rfl
  | cons line lines ih =>
    rw [List.forall_mem_cons] at free short
    rw [written_cons, scan_line free.1 short.1, ih free.2 short.2]
    rfl

/-- Written lines are scanned to the end only if they are shorter than the buffer. -/
theorem scan_written_ends_iff (positive : 0 < limit) (free : ∀ line ∈ lines, newline ∉ line) :
    (scan newline cr limit together (written newline lines)).2 = true ↔
      ∀ line ∈ lines, line.length < limit := by
  refine ⟨fun ended => ?_, fun short => by rw [scan_written free short]⟩
  induction lines with
  | nil => simp
  | cons line lines ih =>
    rw [List.forall_mem_cons] at free ⊢
    rw [written_cons] at ended
    by_cases short : line.length < limit
    · rw [scan_line free.1 short] at ended
      exact ⟨short, ih free.2 ended⟩
    · rw [scan_long free.1 positive (Nat.not_lt.mp short)] at ended
      cases ended

end RouteDns.Lines
