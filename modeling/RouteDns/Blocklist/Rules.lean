import Mathlib.Data.List.DropRight
import RouteDns.Blocklist.Labels
import RouteDns.Blocklist.Load

/-!
# The rules of a domain list

A rule is a base domain and a shape.  It comes from one line of a list, trimmed and in lower
case; lines that could match nothing are passed over, and a line with a wildcard inside is
refused.  Two databases are built from the rules and matched in the same way: they differ in
how they find the flags below a node they have walked to.
-/

namespace RouteDns.Blocklist

open Dns

/-! ## Text -/

def Ascii (line : Text) : Prop :=
  ∀ byte ∈ line, byte.val < 128

instance (line : Text) : Decidable (Ascii line) :=
  inferInstanceAs (Decidable (∀ byte ∈ line, byte.val < 128))

/-- The white space among the ASCII characters. -/
def isBlank (byte : Byte) : Bool :=
  9 ≤ byte.val ∧ byte.val ≤ 13 ∨ byte.val = 32

def trimBlanks (line : Text) : Text :=
  (line.dropWhile isBlank).rdropWhile isBlank

/-- Take one dot off the end. -/
def trimDot (line : Text) : Text :=
  if line.getLast? = some dot then line.dropLast else line

/-- The functions of the standard library on texts.  Outside ASCII they follow the Unicode
tables, of which nothing is assumed. -/
structure StringsLibrary where
  trimSpace : Text → Text
  toLower : Text → Text
  trimSpace_ascii : ∀ line, Ascii line → trimSpace line = trimBlanks line
  toLower_ascii : ∀ line, Ascii line → toLower line = line.map lowerByte

def maxDomainLabel : Nat := 63

def maxDomainName : Nat := 255

/-- Whether a label is too long, of which `length` bytes are read already. -/
def overlongFrom : (length : Nat) → Text → Bool
  | length, [] => maxDomainLabel < length
  | length, byte :: rest =>
    if byte = dot then maxDomainLabel < length || overlongFrom 0 rest
    else overlongFrom (length + 1) rest

def hasOverlongLabel (r : Text) : Bool :=
  overlongFrom 0 r

def lowerASCII (name : Text) : Text :=
  name.map lowerByte

/-! ## Flags -/

def ruleExact : Nat := 1

def ruleApexSub : Nat := 2

def ruleSubOnly : Nat := 4

def ruleHasChildren : Nat := 8

/-- What a rule matches: the name itself, the name and everything under it, or only what is
under it. -/
inductive Shape where
  | exact
  | apexSub
  | subOnly
  deriving DecidableEq

def Shape.flag : Shape → Nat
  | exact => ruleExact
  | apexSub => ruleApexSub
  | subOnly => ruleSubOnly

/-- How a rule of a shape starts. -/
def Shape.sign : Shape → Text
  | exact => []
  | apexSub => text "."
  | subOnly => text "*."

structure Rule where
  shape : Shape
  base : Text
  deriving DecidableEq

section Model

variable (lib : StringsLibrary) (includeSubdomains : Bool)

/-! ## Reading rules -/

def star : Byte := byteOf '*'

/-- The sign at the start decides the shape of a rule. -/
def ruleOf (r : Text) : Rule :=
  if (text "*.").isPrefixOf r then ⟨.subOnly, r.drop 2⟩
  else if (text ".").isPrefixOf r then ⟨.apexSub, r.drop 1⟩
  else if includeSubdomains then ⟨.apexSub, r⟩
  else ⟨.exact, r⟩

/-- The label the first wildcard of a text is in. -/
def starLabel (r : Text) : Text :=
  (cutLast (r.takeWhile (· ≠ star))).2 ++ (r.dropWhile (· ≠ star)).takeWhile (· ≠ dot)

/-- The rule on a line, if it has one. -/
def domainRule (line : Text) : Except Text (Option Rule) :=
  let r := lib.toLower (trimDot (lib.trimSpace line))
  if r = [] then .ok none
  else if r = text "*" then .ok none
  else if hasOverlongLabel r then .ok none
  else
    let rule := ruleOf includeSubdomains r
    if star ∈ rule.base then
      .error (text "invalid blocklist item: '" ++ starLabel rule.base ++ text "'")
    else .ok (some rule)

/-- Why a database is not built: an error, or a search of its trie that has no result. -/
inductive Fault where
  | refused (message : Text)
  | stuck
  deriving DecidableEq

variable {σ : Type}

/-- Hand the rules of a list to `record`, one by one. -/
def domainRules (start : σ) (record : σ → Text → Nat → Except Fault σ)
    (events : List LoadEvent) : Except Fault σ :=
  load start (fun state line =>
    match domainRule lib includeSubdomains line with
    | .error message => .error (.refused message)
    | .ok none => .ok state
    | .ok (some rule) => record state rule.base rule.shape.flag) events

/-! ## Matching -/

/-- The name a query asks about. -/
def domainQueryName (question : Name) : Text :=
  let name := trimDot question
  if name.length ≤ maxDomainName then lowerASCII name else lib.toLower name

/-- How the rule is written that covers a query at a node, if one of its rules does; `more`
says that the query goes on below the node. -/
def domainRuleAt (flags : Nat) (more : Bool) : Option Text :=
  if flags &&& ruleApexSub ≠ 0 then some (text ".")
  else if flags &&& ruleSubOnly ≠ 0 ∧ more then some (text "*.")
  else none

def domainMatched (list sign name : Text) : BlocklistMatch :=
  { list := list, rule := sign ++ name }

/-- The rounds in which a name is matched; there is none for the empty name. -/
def matchRounds (name : Text) : List Round :=
  if name = [] then [] else rounds name

/-- Match a name from a node with some flags on.  `find` looks for the flags below a node; the
outer option is empty if the search never ends. -/
def matchFrom (find : σ → Label → Option (Option (σ × Nat))) (list name : Text) :
    σ → (flags : Nat) → List Round → Option (Option BlocklistMatch)
  | _, flags, [] =>
    some (if flags &&& ruleExact ≠ 0 then some (domainMatched list [] name) else none)
  | node, flags, round :: rest =>
    if flags &&& ruleHasChildren = 0 then some none
    else
      match find node round.label with
      | none => none
      | some none => some none
      | some (some (child, flags)) =>
        match domainRuleAt flags round.more with
        | some sign => some (some (domainMatched list sign round.suffix))
        | none => matchFrom find list name child flags rest

/-- The rules on some lines. -/
def rulesOn (lines : List Text) : List Rule :=
  lines.filterMap fun line => (domainRule lib includeSubdomains line).toOption.join

variable {lib includeSubdomains}

/-- A list is loaded if all lines of the last attempt are accepted and their rules recorded. -/
theorem domainRules_eq_ok_iff {start built : σ} {record : σ → Text → Nat → Except Fault σ}
    {events : List LoadEvent} :
    domainRules lib includeSubdomains start record events = .ok built ↔
      (∀ line ∈ lastAttempt events, ∃ found, domainRule lib includeSubdomains line = .ok found) ∧
        (rulesOn lib includeSubdomains (lastAttempt events)).foldlM
          (fun state rule => record state rule.base rule.shape.flag) start = .ok built := by
  rw [domainRules, load_eq]
  generalize lastAttempt events = lines
  induction lines generalizing start with
  | nil => simp [rulesOn]
  | cons line rest ih =>
    have rules : rulesOn lib includeSubdomains (line :: rest) =
        (domainRule lib includeSubdomains line).toOption.join.toList ++
          rulesOn lib includeSubdomains rest := by
      rw [rulesOn, List.filterMap_cons]
      cases (domainRule lib includeSubdomains line).toOption.join <;> rfl
    rw [List.foldlM_cons, rules, List.forall_mem_cons]
    cases read : domainRule lib includeSubdomains line with
    | error message =>
      constructor
      · intro built
        cases built
      · rintro ⟨⟨⟨_, impossible⟩, _⟩, _⟩
        cases impossible
    | ok found =>
      cases found with
      | none =>
        have first : ∃ found, Except.ok none = (Except.ok found : Except Text (Option Rule)) :=
          ⟨_, rfl⟩
        simp only [Except.toOption, Option.join_some, Option.toList_none, List.nil_append,
          first, true_and]
        exact ih
      | some rule =>
        have first : ∃ found, Except.ok (some rule) = (Except.ok found : Except Text _) :=
          ⟨_, rfl⟩
        simp only [Except.toOption, Option.join_some, Option.toList_some,
          List.singleton_append, List.foldlM_cons, first, true_and]
        cases recorded : record start rule.base rule.shape.flag with
        | error fault =>
          constructor
          · intro built
            cases built
          · rintro ⟨_, built⟩
            cases built
        | ok next => exact ih

end Model

/-! ## What the rules are -/

theorem overlongFrom_eq_true_iff (length : Nat) (r : Text) :
    overlongFrom length r = true ↔ ∃ label rest, r.splitOn dot = label :: rest ∧
      (maxDomainLabel < length + label.length ∨ ∃ label ∈ rest, maxDomainLabel < label.length) := by
  induction r generalizing length with
  | nil => simp [overlongFrom, List.splitOn_nil]
  | cons byte r ih =>
    rw [overlongFrom]
    by_cases separates : byte = dot
    · rw [if_pos separates, separates, splitOn_dot_cons, Bool.or_eq_true, ih 0]
      obtain ⟨first, rest, pieces⟩ := List.exists_cons_of_ne_nil (List.splitOn_ne_nil dot r)
      simp [pieces]
    · obtain ⟨first, rest, pieces⟩ := List.exists_cons_of_ne_nil (List.splitOn_ne_nil dot r)
      have split : (byte :: r).splitOn dot = (byte :: first) :: rest := by
        rw [List.splitOn, List.splitOnP_cons_eq_if_modifyHead, ← List.splitOn, pieces]
        simp [separates]
      rw [if_neg separates, ih, split, pieces]
      simp [Nat.add_assoc, Nat.add_comm 1]

theorem hasOverlongLabel_eq_true_iff (r : Text) :
    hasOverlongLabel r = true ↔ ∃ label ∈ r.splitOn dot, maxDomainLabel < label.length := by
  rw [hasOverlongLabel, overlongFrom_eq_true_iff]
  obtain ⟨first, rest, pieces⟩ := List.exists_cons_of_ne_nil (List.splitOn_ne_nil dot r)
  simp [pieces]

/-- The rule on a line of an ASCII list: the line is trimmed of white space and one dot and
lower-cased, and lines that could match nothing have no rule. -/
def readRule (includeSubdomains : Bool) (line : Text) : Option Rule :=
  let r := (trimDot (trimBlanks line)).map lowerByte
  if r = [] ∨ r = text "*" ∨ ∃ label ∈ r.splitOn dot, maxDomainLabel < label.length then none
  else some (ruleOf includeSubdomains r)

variable {line : Text} {lines : List Text} {rule : Rule}

theorem Ascii.subset {part : Text} (ascii : Ascii line) (within : part ⊆ line) : Ascii part :=
  fun byte member => ascii byte (within member)

theorem trimBlanks_subset (line : Text) : trimBlanks line ⊆ line :=
  List.Subset.trans (List.rdropWhile_prefix _ _).subset (List.dropWhile_suffix _).subset

theorem trimDot_subset (line : Text) : trimDot line ⊆ line := by
  unfold trimDot
  split
  · exact List.dropLast_subset line
  · exact List.Subset.refl line

variable {lib : StringsLibrary} {includeSubdomains : Bool}

/-- On ASCII lines the standard library reads the rules as described. -/
theorem domainRule_ascii (ascii : Ascii line) {found : Option Rule}
    (accepted : domainRule lib includeSubdomains line = .ok found) :
    readRule includeSubdomains line = found := by
  have trimmed : Ascii (trimDot (trimBlanks line)) :=
    ascii.subset (List.Subset.trans (trimDot_subset _) (trimBlanks_subset line))
  rw [domainRule, lib.trimSpace_ascii line ascii, lib.toLower_ascii _ trimmed] at accepted
  unfold readRule
  generalize (trimDot (trimBlanks line)).map lowerByte = r at accepted ⊢
  simp only [← hasOverlongLabel_eq_true_iff] at accepted ⊢
  by_cases empty : r = []
  · rw [if_pos empty] at accepted
    rw [if_pos (.inl empty)]
    exact Except.ok.inj accepted
  rw [if_neg empty] at accepted
  by_cases wild : r = text "*"
  · rw [if_pos wild] at accepted
    rw [if_pos (.inr (.inl wild))]
    exact Except.ok.inj accepted
  rw [if_neg wild] at accepted
  by_cases long : hasOverlongLabel r = true
  · rw [if_pos long] at accepted
    rw [if_pos (.inr (.inr long))]
    exact Except.ok.inj accepted
  rw [if_neg long] at accepted
  rw [if_neg (by simp [empty, wild, long])]
  split at accepted
  · cases accepted
  · exact Except.ok.inj accepted

/-- The rules of an accepted ASCII list. -/
theorem rulesOn_ascii (ascii : ∀ line ∈ lines, Ascii line)
    (accepted : ∀ line ∈ lines, ∃ found, domainRule lib includeSubdomains line = .ok found) :
    rulesOn lib includeSubdomains lines = lines.filterMap (readRule includeSubdomains) := by
  apply List.filterMap_congr
  intro line member
  obtain ⟨found, read⟩ := accepted line member
  rw [domainRule_ascii (ascii line member) read, read]
  rfl

/-- What every recorded rule has. -/
structure Rule.Plain (rule : Rule) : Prop where
  starless : star ∉ rule.base
  short : ∀ label ∈ rule.base.splitOn dot, label.length ≤ maxDomainLabel
  bare : rule.shape = .exact → rule.base ≠ [] ∧ rule.base.head? ≠ some dot

theorem splitOn_subset_append (front rest : Text) :
    rest.splitOn dot ⊆ (front ++ dot :: rest).splitOn dot := by
  have split : (front ++ dot :: rest).splitOn dot = front.splitOn dot ++ rest.splitOn dot :=
    List.splitOnP_append_cons _ _ (by simp)
  rw [split]
  exact List.subset_append_right _ _

theorem ruleOf_splitOn_subset (includeSubdomains : Bool) (r : Text) :
    (ruleOf includeSubdomains r).base.splitOn dot ⊆ r.splitOn dot := by
  unfold ruleOf
  split
  · rename_i signed
    obtain ⟨rest, rfl⟩ := List.isPrefixOf_iff_prefix.mp signed
    exact splitOn_subset_append [star] rest
  · split
    · rename_i signed
      obtain ⟨rest, rfl⟩ := List.isPrefixOf_iff_prefix.mp signed
      exact splitOn_subset_append [] rest
    · split <;> exact List.Subset.refl _

theorem plain_of_domainRule (accepted : domainRule lib includeSubdomains line = .ok (some rule)) :
    rule.Plain := by
  rw [domainRule] at accepted
  generalize lib.toLower (trimDot (lib.trimSpace line)) = r at accepted
  simp only at accepted
  split at accepted
  · cases accepted
  rename_i nonempty
  split at accepted
  · cases accepted
  split at accepted
  · cases accepted
  rename_i short
  split at accepted
  · cases accepted
  rename_i starless
  cases accepted
  refine ⟨starless, ?_, ?_⟩
  · intro label member
    by_contra long
    apply short
    rw [hasOverlongLabel_eq_true_iff]
    exact ⟨label, ruleOf_splitOn_subset includeSubdomains r member, Nat.lt_of_not_le long⟩
  · unfold ruleOf
    split
    · intro impossible
      cases impossible
    · split
      · intro impossible
        cases impossible
      · rename_i unsigned
        split
        · intro impossible
          cases impossible
        · refine fun _ => ⟨nonempty, ?_⟩
          intro led
          apply unsigned
          cases r with
          | nil => cases led
          | cons first rest =>
            cases led
            rfl

theorem plain_of_mem_rulesOn (member : rule ∈ rulesOn lib includeSubdomains lines) :
    rule.Plain := by
  obtain ⟨line, _, found⟩ := List.mem_filterMap.mp member
  cases read : domainRule lib includeSubdomains line with
  | error message => simp [read, Except.toOption] at found
  | ok accepted =>
    have rule_eq : accepted = some rule := by simpa [read, Except.toOption] using found
    exact plain_of_domainRule (rule_eq ▸ read)

/-- The labels a rule is filed under are short enough for a node. -/
theorem Rule.Plain.length_le (plain : rule.Plain) {label : Label}
    (member : label ∈ filed rule.base) :
    label.length ≤ maxDomainLabel := by
  unfold filed at member
  split at member
  · rw [List.mem_singleton.mp member]
    exact Nat.zero_le _
  · apply plain.short label
    rw [labels] at member
    split at member
    · rename_i pieces
      rw [pieces]
      exact List.mem_cons_of_mem _ member
    · exact member

/-- The name of an ASCII query in lower case. -/
theorem domainQueryName_ascii (lib : StringsLibrary) {question : Name} (ascii : Ascii question) :
    domainQueryName lib question = (trimDot question).map lowerByte := by
  unfold domainQueryName
  simp only
  split
  · rfl
  · exact lib.toLower_ascii _ (ascii.subset (trimDot_subset question))

end RouteDns.Blocklist
