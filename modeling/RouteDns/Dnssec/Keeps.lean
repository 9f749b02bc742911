import RouteDns.Dnssec.Chain
import RouteDns.Program.Cost

/-!
# What validation keeps

Everything `Validate` does to a session goes through the clock, the resolver, map
walks and `buildChainOfTrust`.  The file goes through it once, for all properties with
a budget.  A property that outside steps and the chain of trust keep is kept by a whole
validation.
-/

namespace RouteDns.Dnssec

open Dns Program

variable (dns : Library) {ω : Type} (world : World ω)

/-- The enclosing zones of a name are its ancestors below the root and itself. -/
theorem enclosingZones_print (name : DomainName) :
    enclosingZones dns name.print =
      (List.range name.labels.length).reverse.map fun skipped => (name.drop skipped).print := by
  simp only [enclosingZones, dns.splitDomainName_print, List.length_map]
  apply List.map_congr_left
  intro skipped member
  have inside : skipped < name.labels.length := by simpa using member
  have rest_ne : (name.drop skipped).labels ≠ [] := by
    simpa [List.drop_eq_nil_iff] using inside
  rw [← List.map_drop, print_of_labels_ne_nil rest_ne]
  exact dns.fqdn_intercalate rest_ne (name.drop skipped).nonempty

/-- The names at which the insecure-delegation walk looks are fully qualified. -/
theorem qualified_of_mem_enclosingZones {name : DomainName} {zone : Name}
    (member : zone ∈ enclosingZones dns name.print) : Qualified zone := by
  rw [enclosingZones_print] at member
  obtain ⟨skipped, _, rfl⟩ := List.mem_map.mp member
  exact (name.drop skipped).print_qualified

/-- The owner text of a grouped set is the presentation of a domain name. -/
theorem ownerOf_print (rrset : List RR) : ∃ owner : DomainName, ownerOf rrset = owner.print := by
  cases rrset with
  | nil => exact ⟨.top, rfl⟩
  | cons rr rest => exact ⟨rr.header.owner, rfl⟩

/-! ## Budgets -/

/-- How often a name can be cut at its first dot before only the root is left. -/
def levels (name : Name) : Nat :=
  if name = root then 0 else name.count dot

/-- What the signatures of a set may cost: a chain of trust for the signer of each. -/
def signatureBudget (sigs : List RRSIG) : Nat :=
  (sigs.map fun sig => 2 * levels sig.signerName + 1).sum

/-- What one set of the answer may cost: its signatures, or without any a walk down to its
owner. -/
def setBudget (records : List RR) (key : RRsetKey) : Nat :=
  if sigsOf dns records key = [] then
    levels (ownerOf (rrsetOf dns records key)) * (levels (ownerOf (rrsetOf dns records key)) + 1)
  else
    signatureBudget (sigsOf dns records key)

/-- What a response may cost: its sets, or for a negative one the signatures of its authority
section and a walk down to the name in question. -/
def validationBudget (answer : Msg) : Nat :=
  if answer.answer = [] then
    ((rrsetKeys dns answer.ns).map fun key => signatureBudget (sigsOf dns answer.ns key)).sum +
      (answer.question.map fun question =>
        levels question.name * (levels question.name + 1)).headD 0
  else
    ((rrsetKeys dns answer.answer).map (setBudget dns answer.answer)).sum

/-! ## Going through a validation -/

section Budgeted

variable {within : ∀ {α : Type}, Nat → Action ω α → Prop}

/-- The walk down to a name needs the sum of what the names on the way need. -/
theorem checkZones_within (budgeted : Budgeted within) (cost : Name → Nat) {zones : List Name}
    (pass : ∀ zone ∈ zones, within (cost zone) (proveNoDS dns world zone)) :
    within (zones.map cost).sum (checkZones dns world zones) := by
  induction zones with
  | nil => exact budgeted.pure _
  | cons zone rest ih =>
    rw [List.map_cons, List.sum_cons]
    refine budgeted.bind (pass zone List.mem_cons_self) fun insecure => ?_
    exact budgeted.ite (fun _ => budgeted.fail _) fun _ =>
      ih fun later member => pass later (List.mem_cons_of_mem zone member)

/-- What a property has to allow for a validation to have it: the chains of trust of signers,
single signatures, and walks down to a name. -/
structure Validates (within : ∀ {α : Type}, Nat → Action ω α → Prop) : Prop
    extends Budgeted within where
  chain : ∀ sig : RRSIG, within (2 * levels sig.signerName + 1)
    (buildChainOfTrust dns world (dns.canonicalName sig.signerName))
  verify : ∀ keys rrset sig, within 0 (verifyNow dns world keys rrset sig)
  insecure : ∀ name : DomainName, within (levels name.print * (levels name.print + 1))
    (checkInsecureDelegation dns world name.print)

variable {dns world} (validates : Validates dns world within)

include validates

theorem validateWith_within (rrset : List RR) (owner : Name) (lastErr : Option Err)
    (sigs : List RRSIG) :
    within (signatureBudget sigs) (validateWith dns world rrset owner lastErr sigs) := by
  induction sigs generalizing lastErr with
  | nil =>
    cases lastErr with
    | none => exact validates.pure _
    | some failure => exact validates.fail _
  | cons sig rest ih =>
    rw [signatureBudget, List.map_cons, List.sum_cons]
    refine validates.ite (fun _ => validates.bind (validates.attempt (validates.chain sig)) ?_)
      fun _ => validates.mono (ih _) (Nat.le_add_left _ _)
    rintro (failure | keys)
    · exact ih _
    · refine validates.bind_free (validates.verify _ _ _) ?_
      rintro (failure | ⟨⟩)
      · exact ih _
      · exact validates.pure _

theorem validateSet_within (records : List RR) (key : RRsetKey) :
    within (setBudget dns records key) (validateSet dns world records key) := by
  obtain ⟨owner, owner_eq⟩ := ownerOf_print (rrsetOf dns records key)
  have walk := validates.insecure owner
  rw [← owner_eq] at walk
  unfold validateSet setBudget
  by_cases unsigned : sigsOf dns records key = []
  · simp only [if_pos unsigned]
    exact validates.bind_then_free walk fun _ => validates.fail _
  · simp only [if_neg unsigned]
    exact validateWith_within validates _ _ _ _

theorem validateSets_within (records : List RR) (keys : List RRsetKey) :
    within (keys.map (setBudget dns records)).sum (validateSets dns world records keys) := by
  induction keys with
  | nil => exact validates.pure _
  | cons key rest ih =>
    rw [List.map_cons, List.sum_cons]
    exact validates.bind (validateSet_within validates records key) fun _ => ih

theorem rrsetSignedFromAncestor_within (rrset : List RR) (sigs : List RRSIG) (qname : Name) :
    within (signatureBudget sigs) (rrsetSignedFromAncestor dns world rrset sigs qname) := by
  refine validates.bind_then_free (validates.search _ fun sig _ => ?_) fun _ => validates.pure _
  refine validates.ite (fun _ => validates.bind_then_free (validates.attempt (validates.chain sig))
    ?_) fun _ => validates.pure _
  rintro (failure | keys)
  · exact validates.pure _
  · refine validates.bind_free (validates.verify _ _ _) ?_
    rintro (failure | ⟨⟩) <;> exact validates.pure _

theorem collectFrom_within (records : List RR) (qname : Name) (keys : List RRsetKey) :
    within (keys.map fun key => signatureBudget (sigsOf dns records key)).sum
      (collectFrom dns world records qname keys) := by
  induction keys with
  | nil => exact validates.pure _
  | cons key rest ih =>
    rw [List.map_cons, List.sum_cons]
    refine validates.ite (fun _ => ?_) fun _ => validates.mono ih (Nat.le_add_left _ _)
    refine validates.bind (rrsetSignedFromAncestor_within validates _ _ _) fun signed => ?_
    exact validates.ite (fun _ => validates.bind_then_free ih fun _ => validates.pure _)
      fun _ => ih

variable (range : ∀ keys, within 0 (rangeOver world keys))

include range

theorem validateDenial_within (answer : Msg) (negative : answer.answer = []) :
    within (validationBudget dns answer) (validateDenial dns world answer) := by
  rw [validationBudget, if_pos negative]
  unfold validateDenial
  cases answer.question with
  | nil => exact validates.fail _
  | cons question rest =>
    refine validates.bind ?_ fun collected => ?_
    · refine validates.bind_free (range _) fun order => ?_
      refine validates.mono (collectFrom_within validates _ _ _) ?_
      exact ((order.property.map _).sum_eq).le
    · refine validates.ite (fun _ => validates.pure _) fun _ =>
        validates.ite (fun _ => validates.pure _) fun _ => ?_
      refine validates.bind_then_free ?_ fun _ => validates.fail _
      have walk := validates.insecure question.qname
      rw [checkInsecureDelegation] at walk ⊢
      rwa [dns.canonicalName_print, dns.canonicalName_print, DomainName.lower_lower,
        ← dns.canonicalName_print]

/-- A response needs no more than its sets and signatures are worth. -/
theorem validate_within (answer : Msg) :
    within (validationBudget dns answer) (validate dns world answer) := by
  refine validates.ite (validateDenial_within validates range answer) fun positive => ?_
  rw [validationBudget, if_neg positive]
  refine validates.bind_free (range _) fun order =>
    validates.mono (validateSets_within validates _ order.val) ?_
  exact ((order.property.map _).sum_eq).le

end Budgeted

/-! ## What a validation keeps -/

variable {property : Session ω → Prop} (stable : Stable property)
  (chainKeeps : ∀ zone, Qualified zone → Keeps property (buildChainOfTrust dns world zone))

include stable chainKeeps

theorem proveNoDS_keeps {zone : Name} (qualified : Qualified zone) :
    Keeps property (proveNoDS dns world zone) := by
  refine (Keeps.of_triple (lookupDS_triple dns world stable zone)).bind fun found => ?_
  refine .ite (.pure _) (.bind (chainKeeps _ (qualified_parentZone dns qualified)).attempt ?_)
  rintro (cause | parentKeys)
  · exact .ite (.pure _) (.fail _)
  · exact .bind (checkDSDenial_triple dns world stable _ _ _) fun _ => .pure _

theorem validates_keeps : Validates dns world fun _ program => Keeps property program where
  toBudgeted := Keeps.budgeted property
  chain sig := chainKeeps _ (dns.canonicalName_qualified sig.signer.print_qualified)
  verify _ _ _ := (Keeps.of_triple (readClock_triple world stable)).bind fun _ => .pure _
  insecure name := by
    rw [checkInsecureDelegation, dns.canonicalName_print]
    refine .ite (.pure _) ?_
    exact checkZones_within dns world (Keeps.budgeted property) (fun _ => 0) fun zone member =>
      proveNoDS_keeps dns world stable chainKeeps (qualified_of_mem_enclosingZones dns member)

/-- Validation keeps what outside steps and the chain of trust keep. -/
theorem validate_keeps (answer : Msg) : Keeps property (validate dns world answer) :=
  validate_within (validates_keeps dns world stable chainKeeps)
    (rangeOver_triple world stable) answer

end RouteDns.Dnssec
