import Mathlib.Order.WellFounded
import RouteDns.Blocklist.DomainDB

/-!
# What a domain database matches

A rule stands for the labels of its base, a query for the labels of its name.  A match of a
database is compared with the rules over these labels: it is to hit the names some rule covers
and to report the rule that comes first.

A database keeps to this with two exceptions, which concern the rule that comes first.  If it
is a rule for the name itself and the query starts with a dot, the dot is reported too.  If its
base is empty, the database finds it only from names whose last label is empty.
-/

namespace RouteDns.Blocklist

open Dns

/-- An outcome agrees with the rules over the labels of a name. -/
def Agrees (rules : List Rule) (list : Text) (name : List Label)
    (outcome : Option BlocklistMatch) : Prop :=
  (outcome.isSome = true ↔ ∃ rule ∈ rules, rule.shape.Covers (labels rule.base) name) ∧
    ∀ found, outcome = some found → found.list = list ∧
      ∃ rule, Chosen labels rules name rule ∧ found.rule = rule.normalForm

/-- A name from which a rule with an empty base is found, under the empty label it is filed
under. -/
def FindsEmptyBase (rules : List Rule) (name : List Label) (shape : Shape) : Prop :=
  [[]] <:+ name ∧ (shape = .subOnly → name ≠ [[]] ∧
    ∀ other ∈ rules, other.shape = .apexSub → labels other.base ≠ [[]])

/-! ## The rule that comes first -/

/-- Rules that come first have the least rank. -/
def Rule.rank (place : Text → List Label) (name : List Label) (rule : Rule) : Nat :=
  match rule.shape with
  | .exact => 2 * name.length + 2
  | .apexSub => 2 * (place rule.base).length
  | .subOnly => 2 * (place rule.base).length + 1

/-- Among the rules that cover a name, one comes first. -/
theorem exists_chosen (place : Text → List Label) {rules : List Rule} {name : List Label}
    (covered : ∃ rule ∈ rules, rule.shape.Covers (place rule.base) name) :
    ∃ rule, Chosen place rules name rule := by
  let covering : Set Rule :=
    { rule | rule ∈ rules ∧ rule.shape.Covers (place rule.base) name }
  have nonempty : covering.Nonempty := covered
  obtain ⟨rule, ⟨loaded, covers⟩, least⟩ :=
    (measure (Rule.rank place name)).wf.has_min covering nonempty
  refine ⟨rule, loaded, covers, ?_⟩
  intro other member inexact otherCovers
  have rank_le : rule.rank place name ≤ other.rank place name :=
    Nat.not_lt.mp (least other ⟨member, otherCovers⟩)
  have length_le := otherCovers.isSuffix.length_le
  cases kind : other.shape with
  | exact => exact absurd kind inexact
  | apexSub | subOnly =>
    cases own : rule.shape <;> simp only [Rule.rank, own, kind] at rank_le <;> simp <;> omega

section Readings

variable {rules : List Rule} {name : List Label} {rule : Rule}

theorem filed_of_ne_nil {base : Text} (nonempty : base ≠ []) : filed base = labels base :=
  if_neg nonempty

theorem filed_nil : filed [] = [[]] := rfl

theorem Rule.Plain.inexact_of_empty (plain : rule.Plain) (empty : rule.base = []) :
    rule.shape ≠ .exact :=
  fun exactly => (plain.bare exactly).1 empty

/-- What a rule covers from where it is filed, it covers by its labels. -/
theorem Rule.Plain.covers_of_filed (plain : rule.Plain)
    (covers : rule.shape.Covers (filed rule.base) name) :
    rule.shape.Covers (labels rule.base) name := by
  by_cases empty : rule.base = []
  · have inexact := plain.inexact_of_empty empty
    rw [empty, filed_nil] at covers
    rw [empty, labels_nil]
    cases kind : rule.shape with
    | exact => exact absurd kind inexact
    | apexSub => exact List.nil_suffix
    | subOnly =>
      rw [kind] at covers
      refine ⟨List.nil_suffix, ?_⟩
      rintro rfl
      cases List.suffix_nil.mp covers.1
  · rwa [filed_of_ne_nil empty] at covers

/-- Where a rule with an empty base is found, it covers the name from where it is filed. -/
theorem FindsEmptyBase.covers (finds : FindsEmptyBase rules name rule.shape) (plain : rule.Plain)
    (empty : rule.base = []) : rule.shape.Covers (filed rule.base) name := by
  rw [empty, filed_nil]
  cases kind : rule.shape with
  | exact => exact absurd kind (plain.inexact_of_empty empty)
  | apexSub => exact finds.1
  | subOnly => exact ⟨finds.1, (finds.2 kind).1.symm⟩

variable {other : Rule}

/-- If the first rule has a base, every covering rule has one. -/
theorem Chosen.base_ne_nil (plain : ∀ rule ∈ rules, rule.Plain)
    (chosen : Chosen labels rules name rule) (nonempty : rule.base ≠ []) (member : other ∈ rules)
    (covers : other.shape.Covers (labels other.base) name) : other.base ≠ [] := by
  intro empty
  have inexact := (plain other member).inexact_of_empty empty
  rcases (chosen.first other member inexact covers).2 with shorter | ⟨equal, _⟩
  · rw [empty, labels_nil] at shorter
    exact Nat.not_lt_zero _ shorter
  · rw [empty, labels_nil] at equal
    exact nonempty (labels_eq_nil_iff.mp (List.eq_nil_of_length_eq_zero equal))

/-- Two first rules with empty bases have the same shape. -/
theorem Chosen.shape_eq_of_empty (chosen : Chosen labels rules name rule) (plain : rule.Plain)
    (empty : rule.base = []) (alike : Chosen labels rules name other) :
    other.base = [] ∧ other.shape = rule.shape := by
  have inexact := plain.inexact_of_empty empty
  obtain ⟨otherInexact, order⟩ := alike.first rule chosen.loaded inexact chosen.covers
  rw [empty, labels_nil] at order
  have bare : other.base = [] := by
    apply labels_eq_nil_iff.mp
    apply List.eq_nil_of_length_eq_zero
    rcases order with shorter | ⟨equal, _⟩
    · exact absurd shorter (Nat.not_lt_zero _)
    · exact equal
  obtain ⟨_, order'⟩ := chosen.first other alike.loaded otherInexact alike.covers
  rw [empty, bare] at order'
  rw [bare, labels_nil] at order
  refine ⟨bare, ?_⟩
  rcases order with shorter | ⟨_, apex | sub⟩
  · exact absurd shorter (Nat.lt_irrefl _)
  · rcases order' with shorter | ⟨_, apex' | sub'⟩
    · exact absurd shorter (Nat.lt_irrefl _)
    · rw [apex, apex']
    · rw [apex] at sub'
      cases sub'
  · rcases order' with shorter | ⟨_, apex' | sub'⟩
    · exact absurd shorter (Nat.lt_irrefl _)
    · rw [sub] at apex'
      cases apex'
    · rw [sub, sub']

theorem eq_of_joined_eq_nil {above : List Label} (nonempty : above ≠ [])
    (empty : joined above = []) :
    above = [[]] := by
  cases above with
  | nil => exact absurd rfl nonempty
  | cons label rest =>
    rw [joined_cons] at empty
    obtain ⟨rfl, others⟩ := List.append_eq_nil_iff.mp empty
    split at others
    · rename_i last
      rw [last]
    · cases others

end Readings

/-! ## Outcomes -/

section Outcomes

variable {rules : List Rule} (plain : ∀ rule ∈ rules, rule.Plain) {list name : Text}

/-- The first rule is matched and reported as it is meant. -/
def AsMeant (rules : List Rule) (name : Text) : Prop :=
  ∀ rule, Chosen labels rules (labels name) rule →
    (rule.shape = .exact → name.head? ≠ some dot) ∧
      (rule.base = [] → FindsEmptyBase rules (labels name) rule.shape)

/-- What is reported for a rule with a base. -/
theorem report_eq_normalForm {rule : Rule} (chosen : Chosen labels rules (labels name) rule)
    (based : rule.base ≠ []) (meant : AsMeant rules name) :
    rule.shape.sign ++ (if rule.shape = .exact then name else joined (filed rule.base)) =
      rule.normalForm := by
  rw [filed_of_ne_nil based, Rule.normalForm]
  split
  · rename_i exactly
    have covers := chosen.covers
    rw [exactly] at covers
    have undotted := (meant rule chosen).1 exactly
    have whole := eq_joined_labels name
    rw [if_neg undotted] at whole
    rw [show labels rule.base = labels name from covers, ← whole]
  · rfl

include plain

/-- If no covering rule has an empty base, both readings have the same first rules. -/
theorem Chosen.of_filed {rule : Rule} (chosen : Chosen filed rules (labels name) rule)
    (based : ∀ other ∈ rules, other.shape.Covers (labels other.base) (labels name) →
      other.base ≠ []) : Chosen labels rules (labels name) rule := by
  have covers := (plain rule chosen.loaded).covers_of_filed chosen.covers
  have own := filed_of_ne_nil (based rule chosen.loaded covers)
  refine ⟨chosen.loaded, covers, ?_⟩
  intro other member inexact otherCovers
  have same := filed_of_ne_nil (based other member otherCovers)
  have first := chosen.first other member inexact (same ▸ otherCovers)
  rwa [own, same] at first

variable {reported : Rule} {outcome : Option BlocklistMatch} {shape : Shape}

/-- What is reported where a rule with an empty base comes first. -/
theorem sign_eq_of_empty {rule : Rule} (chosen : Chosen labels rules (labels name) rule)
    (empty : rule.base = []) (finds : FindsEmptyBase rules (labels name) rule.shape)
    (first : Chosen filed rules (labels name) reported) :
    filed reported.base = [[]] ∧ reported.shape = rule.shape := by
  have rulePlain := plain rule chosen.loaded
  have inexact := rulePlain.inexact_of_empty empty
  obtain ⟨reportedInexact, order⟩ :=
    first.first rule chosen.loaded inexact (finds.covers rulePlain empty)
  have length : (filed rule.base).length = 1 := by
    rw [empty]
    rfl
  have positive := List.length_pos_iff.mpr (filed_ne_nil reported.base)
  have equal : (filed reported.base).length = 1 ∧
      (reported.shape = .apexSub ∨ rule.shape = .subOnly) := by
    rcases order with shorter | ⟨equal, kinds⟩
    · omega
    · exact ⟨equal.trans length, kinds⟩
  have top : filed reported.base = [[]] := by
    rcases List.suffix_or_suffix_of_suffix first.covers.isSuffix finds.1 with within | within
    · exact within.eq_of_length equal.1
    · exact (within.eq_of_length equal.1.symm).symm
  refine ⟨top, ?_⟩
  have covers := (plain reported first.loaded).covers_of_filed first.covers
  cases kind : rule.shape with
  | exact => exact absurd kind inexact
  | apexSub =>
    rcases equal.2 with apex | sub
    · exact apex
    · rw [kind] at sub
      cases sub
  | subOnly =>
    cases own : reported.shape with
    | exact => exact absurd own reportedInexact
    | subOnly => rfl
    | apexSub =>
      by_cases bare : reported.base = []
      · -- an equal base of the other shape would come first
        have order := (chosen.first reported first.loaded reportedInexact covers).2
        rw [empty, bare, kind, own] at order
        simp at order
      · rw [filed_of_ne_nil bare] at top
        exact absurd top ((finds.2 kind).2 reported first.loaded own)

theorem agrees_of_asMeant (known : Outcome rules list name (labels name) outcome)
    (meant : AsMeant rules name) : Agrees rules list (labels name) outcome := by
  cases outcome with
  | none =>
    refine ⟨⟨fun impossible => (by cases impossible), ?_⟩,
      fun found impossible => by cases impossible⟩
    intro covered
    obtain ⟨rule, chosen⟩ := exists_chosen labels covered
    exfalso
    apply known rule chosen.loaded
    by_cases empty : rule.base = []
    · exact ((meant rule chosen).2 empty).covers (plain rule chosen.loaded) empty
    · rw [filed_of_ne_nil empty]
      exact chosen.covers
  | some found =>
    obtain ⟨reported, first, rfl⟩ := known
    have covers := (plain reported first.loaded).covers_of_filed first.covers
    have covered : ∃ rule ∈ rules, rule.shape.Covers (labels rule.base) (labels name) :=
      ⟨reported, first.loaded, covers⟩
    refine ⟨⟨fun _ => covered, fun _ => rfl⟩, ?_⟩
    rintro _ ⟨⟩
    refine ⟨rfl, ?_⟩
    obtain ⟨rule, chosen⟩ := exists_chosen labels covered
    by_cases empty : rule.base = []
    · obtain ⟨top, kind⟩ :=
        sign_eq_of_empty plain chosen empty ((meant rule chosen).2 empty) first
      have inexact := (plain rule chosen.loaded).inexact_of_empty empty
      refine ⟨rule, chosen, ?_⟩
      simp only [domainMatched, top, kind, if_neg inexact, Rule.normalForm, empty]
      rfl
    · have same := first.of_filed plain fun other member otherCovers =>
        chosen.base_ne_nil plain empty member otherCovers
      exact ⟨reported, same, report_eq_normalForm same
        (chosen.base_ne_nil plain empty first.loaded covers) meant⟩

/-- A rule with an empty base is never reported as a rule for the name itself. -/
theorem sign_ne_name {rule : Rule} (loaded : rule ∈ rules) (exactly : rule.shape = .exact)
    (covers : rule.shape.Covers (filed rule.base) (labels name)) (inexact : shape ≠ .exact) :
    name ≠ shape.sign := by
  obtain ⟨based, undotted⟩ := (plain rule loaded).bare exactly
  rw [exactly, filed_of_ne_nil based] at covers
  have whole := eq_joined_labels rule.base
  rw [if_neg undotted, show labels rule.base = labels name from covers] at whole
  rintro rfl
  cases shape with
  | exact => exact inexact rfl
  | apexSub => exact based whole
  | subOnly =>
    apply (plain rule loaded).starless
    rw [whole]
    decide

omit plain in
/-- A report with the sign of a rule for more than the name has only that sign. -/
theorem sign_append_eq_sign {own : Shape} {rest : Text} (inexact : own ≠ .exact)
    (inexact' : shape ≠ .exact) (text : own.sign ++ rest = shape.sign) :
    own = shape ∧ rest = [] := by
  cases own with
  | exact => exact absurd rfl inexact
  | apexSub =>
    cases shape with
    | exact => exact absurd rfl inexact'
    | apexSub => simpa using text
    | subOnly => cases text
  | subOnly =>
    cases shape with
    | exact => exact absurd rfl inexact'
    | apexSub => cases text
    | subOnly => simpa using text

omit plain in
/-- If a rule for the name itself comes first, the name is reported as the query writes it. -/
theorem undotted_of_reported {rule alike : Rule} (chosen : Chosen labels rules (labels name) rule)
    (exactly : rule.shape = .exact) (loaded : reported ∈ rules)
    (covers : reported.shape.Covers (labels reported.base) (labels name))
    (likeChosen : Chosen labels rules (labels name) alike) (text : reported.shape.sign ++
      (if reported.shape = .exact then name else joined (filed reported.base)) =
        alike.normalForm) : name.head? ≠ some dot := by
  intro dotted
  have only : ∀ other ∈ rules, other.shape.Covers (labels other.base) (labels name) →
      other.shape = .exact := by
    intro other member otherCovers
    by_contra inexact
    exact (chosen.first other member inexact otherCovers).1 exactly
  have reportedExact := only reported loaded covers
  have likeExact := only alike likeChosen.loaded likeChosen.covers
  have likeCovers := likeChosen.covers
  rw [likeExact] at likeCovers
  have whole := eq_joined_labels name
  rw [if_pos dotted] at whole
  have name_eq : name = joined (labels name) := by
    simpa [reportedExact, likeExact, Rule.normalForm, Shape.sign,
      show labels alike.base = labels name from likeCovers] using text
  have lengths := congrArg List.length (whole.symm.trans name_eq)
  simp at lengths

omit plain in
/-- If a rule filed under one empty label comes first, a rule with an empty base is found. -/
theorem findsEmptyBase_of_top (first : Chosen filed rules (labels name) reported)
    (top : filed reported.base = [[]]) : FindsEmptyBase rules (labels name) reported.shape := by
  have covers := first.covers
  rw [top] at covers
  refine ⟨covers.isSuffix, ?_⟩
  intro sub
  rw [sub] at covers
  refine ⟨covers.2.symm, ?_⟩
  intro other member apex otherTop
  have based : other.base ≠ [] := by
    intro bare
    rw [bare, labels_nil] at otherTop
    cases otherTop
  have otherFiled := (filed_of_ne_nil based).trans otherTop
  have order := (first.first other member (by simp [apex])
    (by rw [apex, otherFiled]; exact covers.1)).2
  rw [top, otherFiled, sub, apex] at order
  simp at order

theorem asMeant_of_agrees (known : Outcome rules list name (labels name) outcome)
    (agrees : Agrees rules list (labels name) outcome) : AsMeant rules name := by
  intro rule chosen
  obtain ⟨hits, reports⟩ := agrees
  have hit := hits.mpr ⟨rule, chosen.loaded, chosen.covers⟩
  obtain ⟨found, rfl⟩ := Option.isSome_iff_exists.mp hit
  obtain ⟨_, alike, likeChosen, text⟩ := reports found rfl
  obtain ⟨reported, first, rfl⟩ := known
  have covers := (plain reported first.loaded).covers_of_filed first.covers
  refine ⟨?_, ?_⟩
  · intro exactly
    exact undotted_of_reported chosen exactly first.loaded covers likeChosen text
  · intro empty
    have inexact := (plain rule chosen.loaded).inexact_of_empty empty
    obtain ⟨likeEmpty, likeShape⟩ :=
      chosen.shape_eq_of_empty (plain rule chosen.loaded) empty likeChosen
    have text : reported.shape.sign ++
        (if reported.shape = .exact then name else joined (filed reported.base)) =
          rule.shape.sign := by
      simpa [domainMatched, Rule.normalForm, likeEmpty, likeShape, labels_nil, joined] using text
    have reportedInexact : reported.shape ≠ .exact := by
      intro exactly
      apply sign_ne_name plain first.loaded exactly first.covers inexact
      simpa [exactly, Shape.sign] using text
    rw [if_neg reportedInexact] at text
    obtain ⟨kind, nothing⟩ := sign_append_eq_sign reportedInexact inexact text
    rw [← kind]
    exact findsEmptyBase_of_top first (eq_of_joined_eq_nil (filed_ne_nil _) nothing)

theorem agrees_iff_asMeant (known : Outcome rules list name (labels name) outcome) :
    Agrees rules list (labels name) outcome ↔ AsMeant rules name :=
  ⟨asMeant_of_agrees plain known, agrees_of_asMeant plain known⟩

end Outcomes

/-! ## Databases -/

/-- The name of an ASCII query in lower case and without a final dot. -/
def queryName (question : Name) : Text :=
  (trimDot question).map lowerByte

/-- A database built from an ASCII list hits exactly the names its rules cover and reports the
rule that comes first, exactly if that rule is matched and reported as it is meant. -/
theorem match_agrees_iff (lib : StringsLibrary) (name : Text) (includeSubdomains : Bool)
    (events : List LoadEvent) (db : DomainDB)
    (loaded : newDomainDB lib name includeSubdomains events = .ok db)
    (ascii : ∀ line ∈ lastAttempt events, Ascii line)
    (fits : db.trie.blob.length < 2 ^ 32) (question : Name) (asciiName : Ascii question) :
    (∃ outcome, db.matchQuestion lib question = some outcome ∧
        Agrees ((lastAttempt events).filterMap (readRule includeSubdomains)) name
          (labels (queryName question)) outcome) ↔
      AsMeant ((lastAttempt events).filterMap (readRule includeSubdomains))
        (queryName question) := by
  obtain ⟨b, built, _⟩ := bind_eq_ok_iff.mp loaded
  obtain ⟨accepted, _⟩ := domainRules_eq_ok_iff.mp built
  obtain ⟨flags, kept, walks⟩ := match_eq_walk loaded fits
  have plain : ∀ rule ∈ rulesOn lib includeSubdomains (lastAttempt events), rule.Plain :=
    fun rule member => plain_of_mem_rulesOn member
  have ran : db.matchQuestion lib question = _ :=
    (walks _).trans (by rw [domainQueryName_ascii lib asciiName])
  have known := outcome_walk (rulesOn lib includeSubdomains (lastAttempt events)) name
    (queryName question) kept
  rw [← rulesOn_ascii ascii accepted, ← agrees_iff_asMeant plain known]
  constructor
  · rintro ⟨outcome, same, agrees⟩
    rw [ran] at same
    exact Option.some.inj same ▸ agrees
  · intro agrees
    exact ⟨_, ran, agrees⟩

/-- The standard library, as far as ASCII goes. -/
def asciiStrings : StringsLibrary where
  trimSpace := trimBlanks
  toLower := List.map lowerByte
  trimSpace_ascii := fun _ _ => rfl
  toLower_ascii := fun _ _ => rfl

def sampleLines : List Text :=
  [text "Example.com.", text " *.example.net"]

/-- The database of the sample: four nodes below the root, two of them with their labels in
the blob. -/
def sampleDB : DomainDB where
  name := text "sample"
  trie :=
    { nodes :=
        [⟨[0, 0, 0, 0, 0, 0], 0, 8⟩, ⟨text "com" ++ [0, 0, 0], 3, 8⟩, ⟨[0, 0, 0, 0, 0, 0], 7, 1⟩,
          ⟨text "net" ++ [0, 0, 0], 3, 8⟩, ⟨[7, 0, 0, 0, 0, 0], 7, 4⟩]
      blob := text "exampleexample"
      slots := [206158431256, 0, 0, 0, 0, 818, 0, 0, 0, 0, 0, 0, 68719477292, 0, 404] }
  includeSubdomains := false

theorem sample_match_agrees :
    newDomainDB asciiStrings (text "sample") false (loadOf sampleLines) = .ok sampleDB ∧
      ∃ outcome, sampleDB.matchQuestion asciiStrings (text "www.Example.net.") = some outcome ∧
        Agrees ((lastAttempt (loadOf sampleLines)).filterMap (readRule false)) (text "sample")
          (labels (queryName (text "www.Example.net."))) outcome := by
  have loaded : newDomainDB asciiStrings (text "sample") false (loadOf sampleLines) =
      .ok sampleDB := by decide +kernel
  refine ⟨loaded, (match_agrees_iff asciiStrings (text "sample") false (loadOf sampleLines) sampleDB
    loaded (by decide +kernel) (by decide) (text "www.Example.net.") (by decide +kernel)).mpr ?_⟩
  have based : ∀ rule ∈ (lastAttempt (loadOf sampleLines)).filterMap (readRule false),
      rule.base ≠ [] := by decide +kernel
  have undotted : (queryName (text "www.Example.net.")).head? ≠ some dot := by decide +kernel
  exact fun rule chosen => ⟨fun _ => undotted, fun empty => absurd empty (based rule chosen.loaded)⟩

/-- A query with a leading dot is answered with a rule that is not on the list. -/
theorem dotted_query_disagrees :
    newDomainDB asciiStrings (text "sample") false (loadOf sampleLines) = .ok sampleDB ∧
      ¬ ∃ outcome, sampleDB.matchQuestion asciiStrings (text ".example.com.") = some outcome ∧
        Agrees ((lastAttempt (loadOf sampleLines)).filterMap (readRule false)) (text "sample")
          (labels (queryName (text ".example.com."))) outcome := by
  refine ⟨by decide +kernel, ?_⟩
  rintro ⟨outcome, ran, _, reports⟩
  have reported : sampleDB.matchQuestion asciiStrings (text ".example.com.") =
      some (some ⟨text "sample", text ".example.com"⟩) := by decide +kernel
  have unlisted : ∀ rule ∈ (lastAttempt (loadOf sampleLines)).filterMap (readRule false),
      text ".example.com" ≠ rule.normalForm := by decide +kernel
  cases ran
  obtain ⟨_, rule, chosen, same⟩ := reports _ rfl
  exact unlisted rule chosen.loaded same

end RouteDns.Blocklist
