import Mathlib.Logic.Function.Basic
import RouteDns.Blocklist.Rules

/-!
# What a list of rules covers

A rule covers names by their labels.  A database keeps, for every name on the way to a rule,
the flags of the rules that end there; a walk along a name that reads these flags ends at the
rule with the shortest base that covers the name.
-/

namespace RouteDns.Blocklist

open Dns

/-! ## Rules over labels -/

/-- A rule with some labels covers a name. -/
def Shape.Covers (shape : Shape) (base name : List Label) : Prop :=
  match shape with
  | exact => base = name
  | apexSub => base <:+ name
  | subOnly => base <:+ name ∧ base ≠ name

instance (shape : Shape) (base name : List Label) : Decidable (shape.Covers base name) :=
  match shape with
  | .exact => inferInstanceAs (Decidable (base = name))
  | .apexSub => inferInstanceAs (Decidable (base <:+ name))
  | .subOnly => inferInstanceAs (Decidable (base <:+ name ∧ base ≠ name))

variable {shape : Shape} {flag more : Nat}

theorem Shape.Covers.isSuffix {base name : List Label} (covers : shape.Covers base name) :
    base <:+ name := by
  cases shape with
  | exact =>
    cases (covers : base = name)
    exact List.suffix_refl base
  | apexSub => exact covers
  | subOnly => exact covers.1

/-- A rule that a match may report; `place` gives the labels a base stands for.  The bases with
the fewest labels come first, a rule for the name itself only if there is no other, and among
equals a rule that covers its base comes first. -/
structure Chosen (place : Text → List Label) (rules : List Rule) (name : List Label)
    (rule : Rule) : Prop where
  loaded : rule ∈ rules
  covers : rule.shape.Covers (place rule.base) name
  first : ∀ other ∈ rules, other.shape ≠ .exact → other.shape.Covers (place other.base) name →
    rule.shape ≠ .exact ∧
      ((place rule.base).length < (place other.base).length ∨
        (place rule.base).length = (place other.base).length ∧
          (rule.shape = .apexSub ∨ other.shape = .subOnly))

/-- A rule as it is reported: the sign of its shape and its labels. -/
def Rule.normalForm (rule : Rule) : Text :=
  rule.shape.sign ++ joined (labels rule.base)

/-! ## The flags of the names -/

/-- The flags kept for a name, if it is on the way to a rule. -/
abbrev FlagMap := List Label → Option Nat

/-- Set flags for a name. -/
def FlagMap.mark (lookup : FlagMap) (name : List Label) (flags : Nat) : FlagMap :=
  Function.update lookup name (some ((lookup name).getD 0 ||| flags))

/-- Before any rule there is only the root. -/
def noRules : FlagMap :=
  Function.update (fun _ => none) [] (some 0)

/-- The flags a rule sets on its way down from a name, along the labels still to go. -/
def marksFrom (flag : Nat) : (above rest : List Label) → List (List Label × Nat)
  | above, [] => [(above, flag)]
  | above, label :: rest => (above, ruleHasChildren) :: marksFrom flag (label :: above) rest

def Rule.marks (rule : Rule) : List (List Label × Nat) :=
  marksFrom rule.shape.flag [] (filed rule.base).reverse

def FlagMap.markAll (lookup : FlagMap) (marks : List (List Label × Nat)) : FlagMap :=
  marks.foldl (fun lookup mark => lookup.mark mark.1 mark.2) lookup

/-- The flags some rules set. -/
def flagsOf (rules : List Rule) : FlagMap :=
  noRules.markAll (rules.flatMap Rule.marks)

variable {name : List Label}

variable {lookup others : FlagMap}

/-- Flags that are set already change nothing. -/
theorem FlagMap.mark_eq_self {flags value : Nat} (kept : lookup name = some value)
    (set : value ||| flags = value) : lookup.mark name flags = lookup := by
  rw [FlagMap.mark, kept, Option.getD_some, set, ← kept, Function.update_eq_self]

theorem FlagMap.mark_mark_zero (lookup : FlagMap) (name : List Label) (flags : Nat) :
    (lookup.mark name 0).mark name flags = lookup.mark name flags := by
  simp [FlagMap.mark]

theorem or_and_ne_zero {first second : Nat} :
    (first ||| second) &&& flag ≠ 0 ↔ first &&& flag ≠ 0 ∨ second &&& flag ≠ 0 := by
  rw [Nat.and_or_distrib_right, ne_eq, Nat.or_eq_zero_iff]
  tauto

theorem Shape.flag_and_hasChildren (shape : Shape) : shape.flag &&& ruleHasChildren = 0 := by
  cases shape <;> decide

theorem Shape.flag_and_flag_ne_zero {first second : Shape} :
    first.flag &&& second.flag ≠ 0 ↔ first = second := by
  cases first <;> cases second <;> decide

theorem FlagMap.markAll_isSome (lookup : FlagMap) (marks : List (List Label × Nat))
    (name : List Label) :
    (lookup.markAll marks name).isSome ↔
      (lookup name).isSome ∨ ∃ mark ∈ marks, mark.1 = name := by
  induction marks generalizing lookup with
  | nil => simp [markAll]
  | cons mark rest ih =>
    rw [markAll, List.foldl_cons, ← markAll, ih, FlagMap.mark]
    by_cases same : name = mark.1
    · simp [same]
    · simp [Function.update_of_ne same, Ne.symm same]

theorem FlagMap.markAll_flag (lookup : FlagMap) (marks : List (List Label × Nat))
    (name : List Label) (flag : Nat) :
    (lookup.markAll marks name).getD 0 &&& flag ≠ 0 ↔
      (lookup name).getD 0 &&& flag ≠ 0 ∨ ∃ mark ∈ marks, mark.1 = name ∧ mark.2 &&& flag ≠ 0 := by
  induction marks generalizing lookup with
  | nil => simp [markAll]
  | cons mark rest ih =>
    rw [markAll, List.foldl_cons, ← markAll, ih, FlagMap.mark]
    by_cases same : name = mark.1
    · subst same
      rw [Function.update_self, Option.getD_some, or_and_ne_zero]
      simp [or_assoc]
    · simp [Function.update_of_ne same, Ne.symm same]

/-- The first flags of a rule are those of the name it starts from. -/
theorem FlagMap.markAll_marksFrom (lookup : FlagMap) (flag : Nat) (above rest : List Label) :
    (lookup.mark above 0).markAll (marksFrom flag above rest) =
      lookup.markAll (marksFrom flag above rest) := by
  cases rest with
  | nil | cons label rest => rw [marksFrom, markAll, List.foldl_cons, mark_mark_zero]; rfl

theorem mem_marksFrom {above rest : List Label} {mark : List Label × Nat} :
    mark ∈ marksFrom flag above rest ↔
      (above <:+ mark.1 ∧ mark.1 <:+ rest.reverse ++ above ∧ mark.1 ≠ rest.reverse ++ above ∧
          mark.2 = ruleHasChildren) ∨
        mark = (rest.reverse ++ above, flag) := by
  induction rest generalizing above with
  | nil =>
    rw [marksFrom, List.mem_singleton, List.reverse_nil, List.nil_append]
    constructor
    · exact .inr
    · rintro (⟨below, within, proper, _⟩ | same)
      · exact absurd (List.IsSuffix.eq_of_length_le within below.length_le) proper
      · exact same
  | cons label rest ih =>
    have target : (label :: rest).reverse ++ above = rest.reverse ++ (label :: above) := by simp
    have longer : above.length < (rest.reverse ++ (label :: above)).length := by
      simp only [List.length_append, List.length_cons]
      omega
    have reach : label :: above <:+ rest.reverse ++ (label :: above) := List.suffix_append _ _
    rw [marksFrom, List.mem_cons, ih, target]
    constructor
    · rintro (rfl | ⟨below, within, proper, flags⟩ | same)
      · refine .inl ⟨List.suffix_refl _, (List.suffix_cons label above).trans reach, ?_, rfl⟩
        intro same
        rw [← same] at longer
        exact Nat.lt_irrefl _ longer
      · exact .inl ⟨(List.suffix_cons label above).trans below, within, proper, flags⟩
      · exact .inr same
    · rintro (⟨below, within, proper, flags⟩ | same)
      · rcases List.suffix_or_suffix_of_suffix within reach with shorter | further
        · rcases List.suffix_cons_iff.mp shorter with same | inside
          · exact .inr (.inl ⟨same ▸ List.suffix_refl _, within, proper, flags⟩)
          · have here : mark.1 = above := inside.eq_of_length_le below.length_le
            exact .inl (Prod.ext here flags)
        · exact .inr (.inl ⟨further, within, proper, flags⟩)
      · exact .inr (.inr same)

theorem Rule.mem_marks {rule : Rule} {mark : List Label × Nat} :
    mark ∈ rule.marks ↔
      (mark.1 <:+ filed rule.base ∧ mark.1 ≠ filed rule.base ∧ mark.2 = ruleHasChildren) ∨
        mark = (filed rule.base, rule.shape.flag) := by
  rw [Rule.marks, mem_marksFrom, List.reverse_reverse, List.append_nil]
  simp

variable {flags : Nat}

section Rules

variable {rules : List Rule}

theorem flagsOf_isSome_iff :
    (flagsOf rules name).isSome ↔
      name = [] ∨ ∃ mark ∈ rules.flatMap Rule.marks, mark.1 = name := by
  rw [flagsOf, FlagMap.markAll_isSome, noRules]
  by_cases root : name = []
  · simp [root]
  · simp [root]

theorem flagsOf_isSome {rule : Rule} (loaded : rule ∈ rules) (within : name <:+ filed rule.base) :
    flagsOf rules name ≠ none := by
  rw [← Option.isSome_iff_ne_none, flagsOf_isSome_iff]
  right
  by_cases same : name = filed rule.base
  · exact ⟨(name, rule.shape.flag), List.mem_flatMap.mpr ⟨rule, loaded,
      Rule.mem_marks.mpr (.inr (by rw [same]))⟩, rfl⟩
  · exact ⟨(name, ruleHasChildren), List.mem_flatMap.mpr ⟨rule, loaded,
      Rule.mem_marks.mpr (.inl ⟨within, same, rfl⟩)⟩, rfl⟩

theorem noRules_flag (name : List Label) (flag : Nat) : (noRules name).getD 0 &&& flag = 0 := by
  unfold noRules
  by_cases root : name = []
  · simp [root]
  · simp [Function.update_of_ne root]

variable (kept : flagsOf rules name = some flags)
include kept

/-- A flag is set on a name if a rule sets it there. -/
theorem flagsOf_and_ne_zero_iff (flag : Nat) :
    flags &&& flag ≠ 0 ↔
      ∃ mark ∈ rules.flatMap Rule.marks, mark.1 = name ∧ mark.2 &&& flag ≠ 0 := by
  have marked := FlagMap.markAll_flag noRules (rules.flatMap Rule.marks) name flag
  rw [← flagsOf, kept, Option.getD_some, noRules_flag] at marked
  simpa only [ne_eq, not_true_eq_false, false_or] using marked

/-- The flag for children is set where a longer rule passes. -/
theorem hasChildren_iff :
    flags &&& ruleHasChildren ≠ 0 ↔
      ∃ rule ∈ rules, name <:+ filed rule.base ∧ name ≠ filed rule.base := by
  rw [flagsOf_and_ne_zero_iff kept]
  simp only [List.mem_flatMap]
  constructor
  · rintro ⟨mark, ⟨rule, loaded, member⟩, rfl, flagged⟩
    rcases Rule.mem_marks.mp member with ⟨within, proper, _⟩ | same
    · exact ⟨rule, loaded, within, proper⟩
    · rw [same] at flagged
      exact absurd rule.shape.flag_and_hasChildren flagged
  · rintro ⟨rule, loaded, within, proper⟩
    have flagged : ruleHasChildren &&& ruleHasChildren ≠ 0 := by decide
    exact ⟨(name, ruleHasChildren), ⟨rule, loaded, Rule.mem_marks.mpr (.inl ⟨within, proper, rfl⟩)⟩,
      rfl, flagged⟩

/-- The flag of a shape is set where a rule of the shape ends. -/
theorem shape_iff (shape : Shape) :
    flags &&& shape.flag ≠ 0 ↔ ∃ rule ∈ rules, filed rule.base = name ∧ rule.shape = shape := by
  rw [flagsOf_and_ne_zero_iff kept]
  simp only [List.mem_flatMap]
  constructor
  · rintro ⟨mark, ⟨rule, loaded, member⟩, rfl, flagged⟩
    rcases Rule.mem_marks.mp member with ⟨_, _, flags_eq⟩ | same
    · rw [flags_eq, Nat.and_comm] at flagged
      exact absurd shape.flag_and_hasChildren flagged
    · rw [same] at flagged ⊢
      exact ⟨rule, loaded, rfl, Shape.flag_and_flag_ne_zero.mp flagged⟩
  · rintro ⟨rule, loaded, rfl, rfl⟩
    exact ⟨(filed rule.base, rule.shape.flag),
      ⟨rule, loaded, Rule.mem_marks.mpr (.inr rfl)⟩, rfl, Shape.flag_and_flag_ne_zero.mpr rfl⟩

end Rules

/-! ## Walks -/

/-- Match a name by the flags of the names above it. -/
def walk (lookup : FlagMap) (list name : Text) :
    (above : List Label) → (flags : Nat) → List Round → Option BlocklistMatch
  | _, flags, [] =>
    if flags &&& ruleExact ≠ 0 then some (domainMatched list [] name) else none
  | above, flags, round :: rest =>
    if flags &&& ruleHasChildren = 0 then none
    else
      match lookup (round.label :: above) with
      | none => none
      | some flags =>
        match domainRuleAt flags round.more with
        | some sign => some (domainMatched list sign round.suffix)
        | none => walk lookup list name (round.label :: above) flags rest

variable {above : List Label}

/-- A search that finds the flags of the names makes the match a walk. -/
theorem matchFrom_eq_walk {σ : Type} {find : σ → Label → Option (Option (σ × Nat))}
    (At : σ → List Label → Prop) (finds : ∀ node above label, At node above →
      (find node label = some none ∧ lookup (label :: above) = none) ∨
        ∃ child flags, find node label = some (some (child, flags)) ∧
          lookup (label :: above) = some flags ∧ At child (label :: above)) (list name : Text)
    {node : σ} (reached : At node above) (flags : Nat) (rounds : List Round) :
    matchFrom find list name node flags rounds =
      some (walk lookup list name above flags rounds) := by
  induction rounds generalizing node above flags with
  | nil => rfl
  | cons round rest ih =>
    rw [matchFrom, walk]
    split
    · rfl
    · rcases finds node above round.label reached with
        ⟨missed, missing⟩ | ⟨child, flags, found, kept, further⟩
      · rw [missed, missing]
      · rw [found, kept]
        simp only
        cases domainRuleAt flags round.more with
        | some sign => rfl
        | none => exact ih further flags

/-- Flags that include others. -/
def Includes (more flags : Nat) : Prop :=
  ∀ flag < 16, flags &&& flag ≠ 0 → more &&& flag ≠ 0

theorem domainRuleAt_eq_none_iff {goesOn : Bool} :
    domainRuleAt flags goesOn = none ↔
      ¬ flags &&& ruleApexSub ≠ 0 ∧ ¬ (flags &&& ruleSubOnly ≠ 0 ∧ goesOn) := by
  rw [domainRuleAt]
  split_ifs <;> simp_all

variable {steps : List Round}

/-- A walk by more flags on more names hits whatever the walk hits. -/
theorem walk_ne_none_of_includes
    (includes : ∀ label above flags, lookup (label :: above) = some flags →
      ∃ more, others (label :: above) = some more ∧ Includes more flags) (list name : Text)
    {flags : Nat} (included : Includes more flags)
    (hit : walk lookup list name above flags steps ≠ none) :
    walk others list name above more steps ≠ none := by
  induction steps generalizing above flags more with
  | nil =>
    rw [walk] at hit ⊢
    have exactly := included ruleExact (by decide)
    split at hit
    · rename_i flagged
      rw [if_pos (exactly flagged)]
      simp
    · exact absurd rfl hit
  | cons round rest ih =>
    rw [walk] at hit ⊢
    have children := included ruleHasChildren (by decide)
    split at hit
    · exact absurd rfl hit
    · rename_i goesOn
      rw [if_neg (children goesOn)]
      cases found : lookup (round.label :: above) with
      | none =>
        rw [found] at hit
        exact absurd rfl hit
      | some flags =>
        obtain ⟨more, found', included⟩ := includes _ _ _ found
        rw [found] at hit
        rw [found']
        simp only at hit ⊢
        -- Either the larger flags stop the walk here, or neither do.
        cases at_ : domainRuleAt more round.more with
        | some sign => simp
        | none =>
          obtain ⟨notApex, notSub⟩ := domainRuleAt_eq_none_iff.mp at_
          have passes : domainRuleAt flags round.more = none := by
            rw [domainRuleAt_eq_none_iff]
            exact ⟨fun flagged => notApex (included _ (by decide) flagged),
              fun flagged => notSub ⟨included _ (by decide) flagged.1, flagged.2⟩⟩
          rw [passes] at hit
          exact ih included hit

/-- Walks by the same flags on the way to a name are the same. -/
theorem walk_congr (list name : Text) {flags : Nat}
    (same : ∀ label above', label :: above' <:+ (steps.map Round.label).reverse ++ above →
      (lookup (label :: above') = none ∧ others (label :: above') = none) ∨
        ∃ flags more, lookup (label :: above') = some flags ∧
          others (label :: above') = some more ∧ Includes more flags ∧ Includes flags more)
    (included : Includes more flags) (includes : Includes flags more) :
    walk lookup list name above flags steps = walk others list name above more steps := by
  have test : ∀ {flags more : Nat}, Includes more flags → Includes flags more →
      ∀ flag < 16, (flags &&& flag ≠ 0) = (more &&& flag ≠ 0) :=
    fun included includes flag bit => propext ⟨included flag bit, includes flag bit⟩
  induction steps generalizing above flags more with
  | nil =>
    rw [walk, walk]
    simp only [test included includes ruleExact (by decide)]
  | cons round rest ih =>
    have target : ((round :: rest).map Round.label).reverse ++ above =
        (rest.map Round.label).reverse ++ (round.label :: above) := by simp
    rw [target] at same
    rw [walk, walk]
    have children : (flags &&& ruleHasChildren = 0) = (more &&& ruleHasChildren = 0) :=
      propext (not_iff_not.mp (iff_of_eq (test included includes ruleHasChildren (by decide))))
    simp only [children]
    rcases same round.label above (List.suffix_append _ _) with
      ⟨missing, missing'⟩ | ⟨flags, more, found, found', included, includes⟩
    · rw [missing, missing']
    · rw [found, found']
      simp only
      have at_ : domainRuleAt flags round.more = domainRuleAt more round.more := by
        unfold domainRuleAt
        simp only [test included includes ruleApexSub (by decide),
          test included includes ruleSubOnly (by decide)]
      rw [at_, ih same included includes]

/-- What the outcome of a match says about the rules: a miss that none covers the name, a hit
that the reported one comes first. -/
def Outcome (rules : List Rule) (list name : Text) (target : List Label) :
    Option BlocklistMatch → Prop
  | none => ∀ rule ∈ rules, ¬ rule.shape.Covers (filed rule.base) target
  | some found => ∃ rule, Chosen filed rules target rule ∧
      found = domainMatched list rule.shape.sign
        (if rule.shape = .exact then name else joined (filed rule.base))

theorem domainRuleAt_cases (flags : Nat) (more : Bool) :
    (flags &&& Shape.flag .apexSub ≠ 0 ∧ domainRuleAt flags more = some (Shape.sign .apexSub)) ∨
      (flags &&& Shape.flag .apexSub = 0 ∧ flags &&& Shape.flag .subOnly ≠ 0 ∧ more = true ∧
        domainRuleAt flags more = some (Shape.sign .subOnly)) ∨
      (flags &&& Shape.flag .apexSub = 0 ∧ (more = true → flags &&& Shape.flag .subOnly = 0) ∧
        domainRuleAt flags more = none) := by
  unfold domainRuleAt
  by_cases apex : flags &&& ruleApexSub ≠ 0
  · exact .inl ⟨apex, if_pos apex⟩
  · rw [if_neg apex]
    by_cases below : flags &&& ruleSubOnly ≠ 0 ∧ more = true
    · exact .inr (.inl ⟨not_not.mp apex, below.1, below.2, if_pos below⟩)
    · refine .inr (.inr ⟨not_not.mp apex, ?_, if_neg below⟩)
      intro goesOn
      by_contra flagged
      exact below ⟨flagged, goesOn⟩

/-! ## A walk on its way -/

/-- No rule that covers names from above ends on the way to a place. -/
def Quiet (rules : List Rule) (above whole : List Label) : Prop :=
  ∀ rule ∈ rules, rule.shape ≠ .exact → rule.shape.Covers (filed rule.base) whole →
    ¬ filed rule.base <:+ above

/-- The rules that cover a name end at a place or below it. -/
def Below (rules : List Rule) (here whole : List Label) : Prop :=
  ∀ rule ∈ rules, rule.shape.Covers (filed rule.base) whole → here <:+ filed rule.base

section Places

variable {rules : List Rule} {above here whole : List Label} {label : Label} {rule : Rule}

/-- Nothing covers the name from above, so whatever does comes next. -/
theorem Quiet.below (quiet : Quiet rules above whole) (reach : label :: above <:+ whole) :
    Below rules (label :: above) whole := by
  intro rule loaded covers
  have outside : ¬ filed rule.base <:+ above := by
    by_cases shape : rule.shape = .exact
    · rw [shape] at covers
      intro inside
      have lengths := (reach.trans (covers ▸ inside)).length_le
      simp only [List.length_cons] at lengths
      omega
    · exact quiet rule loaded shape covers
  rcases List.suffix_or_suffix_of_suffix covers.isSuffix reach with shorter | longer
  · rcases List.suffix_cons_iff.mp shorter with same | inside
    · exact same ▸ List.suffix_refl _
    · exact absurd inside outside
  · exact longer

/-- The bases of covering rules are longer than a place, or end there. -/
theorem Below.longer_or_here (below : Below rules here whole) (loaded : rule ∈ rules)
    (covers : rule.shape.Covers (filed rule.base) whole) :
    here.length < (filed rule.base).length ∨ filed rule.base = here := by
  have further := below rule loaded covers
  rcases Nat.lt_or_eq_of_le further.length_le with shorter | equal
  · exact .inl shorter
  · exact .inr (further.eq_of_length equal).symm

/-- A rule that ends at a place comes first, unless another one there covers the place as well. -/
theorem Below.chosen (below : Below rules here whole) (loaded : rule ∈ rules)
    (base : filed rule.base = here) (inexact : rule.shape ≠ .exact)
    (covers : rule.shape.Covers here whole)
    (rank : rule.shape = .apexSub ∨
      ∀ other ∈ rules, filed other.base = here → other.shape ≠ .apexSub) :
    Chosen filed rules whole rule where
  loaded := loaded
  covers := base ▸ covers
  first other member notExact otherCovers := by
    rw [base]
    refine ⟨inexact, ?_⟩
    rcases below.longer_or_here member otherCovers with longer | same
    · exact .inl longer
    · refine .inr ⟨by rw [same], rank.imp_right fun noApex => ?_⟩
      cases kind : other.shape with
      | exact => exact absurd kind notExact
      | apexSub => exact absurd kind (noApex other member same)
      | subOnly => rfl

/-- If no rule that ends at a place covers the name, the walk goes on from there. -/
theorem Below.quiet (below : Below rules here whole)
    (noApex : ∀ other ∈ rules, filed other.base = here → other.shape ≠ .apexSub)
    (noSub : here ≠ whole → ∀ other ∈ rules, filed other.base = here → other.shape ≠ .subOnly) :
    Quiet rules here whole := by
  intro rule loaded inexact covers within
  have base : filed rule.base = here :=
    within.eq_of_length_le (below rule loaded covers).length_le
  cases kind : rule.shape with
  | exact => exact inexact kind
  | apexSub => exact noApex rule loaded base kind
  | subOnly =>
    rw [kind, base] at covers
    exact noSub covers.2 rule loaded base kind

/-- A flag that is not set belongs to no rule that ends there. -/
theorem shape_ne (kept : flagsOf rules here = some flags) (unset : flags &&& shape.flag = 0) :
    ∀ other ∈ rules, filed other.base = here → other.shape ≠ shape := by
  intro other member base kind
  exact (shape_iff kept shape).mpr ⟨other, member, base, kind⟩ unset

/-- A walk that has come to the name itself. -/
theorem outcome_walk_nil (list name : Text) (quiet : Quiet rules whole whole)
    (kept : flagsOf rules whole = some flags) :
    Outcome rules list name whole (walk (flagsOf rules) list name whole flags []) := by
  rw [walk]
  have exactly := shape_iff kept .exact
  split
  · rename_i flagged
    obtain ⟨rule, loaded, here, shape⟩ := exactly.mp flagged
    refine ⟨rule, ⟨loaded, by rw [shape]; exact here, ?_⟩, by rw [shape]; rfl⟩
    intro other member inexact covers
    exact absurd covers.isSuffix (quiet other member inexact covers)
  · rename_i unflagged
    intro rule loaded covers
    by_cases shape : rule.shape = .exact
    · rw [shape] at covers
      exact unflagged (exactly.mpr ⟨rule, loaded, covers, shape⟩)
    · exact quiet rule loaded shape covers covers.isSuffix

/-- Where no rule passes on, none covers the name. -/
theorem Below.childless (below : Below rules (label :: above) whole)
    (kept : flagsOf rules above = some flags) (childless : flags &&& ruleHasChildren = 0) :
    ∀ rule ∈ rules, ¬ rule.shape.Covers (filed rule.base) whole := by
  intro rule loaded covers
  have passes := below rule loaded covers
  apply (hasChildren_iff kept).mpr _ childless
  refine ⟨rule, loaded, (List.suffix_cons _ _).trans passes, ?_⟩
  intro same
  have lengths := passes.length_le
  rw [← same, List.length_cons] at lengths
  omega

end Places

/-- A walk from a name that no rule above covers the target from. -/
theorem outcome_walk_from (rules : List Rule) (list name : Text) (continues : Continues above steps)
    (quiet : Quiet rules above ((steps.map Round.label).reverse ++ above))
    (kept : flagsOf rules above = some flags) :
    Outcome rules list name ((steps.map Round.label).reverse ++ above)
      (walk (flagsOf rules) list name above flags steps) := by
  induction steps generalizing above flags with
  | nil => exact outcome_walk_nil list name quiet kept
  | cons round rest ih =>
    obtain ⟨suffix, more, further⟩ := continues
    have target : ((round :: rest).map Round.label).reverse ++ above =
        (rest.map Round.label).reverse ++ (round.label :: above) := by simp
    rw [target] at quiet ⊢
    have reach : round.label :: above <:+
        (rest.map Round.label).reverse ++ (round.label :: above) := List.suffix_append _ _
    -- The name goes on exactly if there are rounds left.
    have proper : round.more = true ↔ round.label :: above ≠
        (rest.map Round.label).reverse ++ (round.label :: above) := by
      rw [more]
      refine not_congr ⟨fun nothing => by rw [nothing]; rfl, fun same => ?_⟩
      simpa using same
    have below := quiet.below reach
    rw [walk]
    split
    · rename_i childless
      exact below.childless kept childless
    cases found : flagsOf rules (round.label :: above) with
    | none =>
      intro rule loaded covers
      exact flagsOf_isSome loaded (below rule loaded covers) found
    | some flags =>
      simp only
      rcases domainRuleAt_cases flags round.more with
        ⟨apex, at_⟩ | ⟨notApex, sub, goesOn, at_⟩ | ⟨notApex, notSub, at_⟩
      · obtain ⟨rule, loaded, here, shape⟩ := (shape_iff found .apexSub).mp apex
        rw [at_]
        refine ⟨rule, below.chosen loaded here (by simp [shape]) ?_ (.inl shape), ?_⟩
        · rw [shape]
          exact reach
        rw [shape, here, suffix]
        rfl
      · obtain ⟨rule, loaded, here, shape⟩ := (shape_iff found .subOnly).mp sub
        rw [at_]
        refine ⟨rule, below.chosen loaded here (by simp [shape]) ?_
          (.inr (shape_ne found notApex)), ?_⟩
        · rw [shape]
          exact ⟨reach, proper.mp goesOn⟩
        rw [shape, here, suffix]
        rfl
      · rw [at_]
        apply ih further _ found
        exact below.quiet (shape_ne found notApex) fun goesOn =>
          shape_ne found (notSub (proper.mpr goesOn))

/-- The labels a name is matched with. -/
theorem reverse_map_label_matchRounds (name : Text) :
    ((matchRounds name).map Round.label).reverse = labels name := by
  unfold matchRounds
  split
  · rename_i empty
    rw [empty]
    rfl
  · rename_i nonempty
    rw [map_label_rounds, List.reverse_reverse, filed, if_neg nonempty]

/-- A match by the flags of the rules. -/
theorem outcome_walk (rules : List Rule) (list name : Text) (kept : flagsOf rules [] = some flags) :
    Outcome rules list name (labels name)
      (walk (flagsOf rules) list name [] flags (matchRounds name)) := by
  have continues : Continues [] (matchRounds name) := by
    unfold matchRounds
    split
    · trivial
    · exact continues_rounds name
  have outcome := outcome_walk_from rules list name continues
    (fun rule _ _ _ nothing => filed_ne_nil _ (List.suffix_nil.mp nothing)) kept
  rwa [List.append_nil, reverse_map_label_matchRounds] at outcome

end RouteDns.Blocklist
