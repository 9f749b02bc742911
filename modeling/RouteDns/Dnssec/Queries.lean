import RouteDns.Dnssec.Keeps
import RouteDns.Dnssec.ZoneTree
import RouteDns.Program.Cost

/-!
# How many queries a validation sends

The chain of trust asks for the keys and the DS records of every zone on the way to the root,
and the insecure-delegation check builds such a chain for every name on the way down.  The
bounds hold for every resolver, every keystore and every clock, so in particular if each key
set has expired by the time it is needed again.
-/

namespace RouteDns.Dnssec

open Dns Program

/-! ## Levels of a name -/

theorem levels_root : levels root = 0 :=
  rfl

theorem levels_le_count (name : Name) : levels name ≤ name.count dot := by
  unfold levels
  split
  · exact Nat.zero_le _
  · exact le_rfl

/-- A name has no more levels than bytes. -/
theorem levels_le_length (name : Name) : levels name ≤ name.length :=
  (levels_le_count name).trans List.count_le_length

theorem count_dot_escapeByte : ∀ byte : Byte,
    (escapeByte byte).count dot = if byte = dot then 1 else 0 := by
  decide +kernel

theorem count_dot_printLabel (label : Label) : (printLabel label).count dot = label.count dot := by
  induction label with
  | nil => rfl
  | cons byte label ih =>
    rw [printLabel_cons, List.count_append, count_dot_escapeByte, ih, List.count_cons]
    by_cases isDot : byte = dot
    · simp [isDot, Nat.add_comm]
    · simp [isDot]

/-- The levels of a printed name: one for each label, and one more for each dot inside a
label. -/
theorem levels_print (name : DomainName) :
    levels name.print = (name.labels.map fun label => label.count dot + 1).sum := by
  by_cases empty : name.labels = []
  · rw [(print_eq_root_iff name).mpr empty, empty]
    rfl
  · rw [levels, if_neg (mt (print_eq_root_iff name).mp empty), print_of_labels_ne_nil empty]
    induction name.labels with
    | nil => rfl
    | cons label rest ih =>
      rw [printLabels_cons, List.count_append, List.count_cons_self, count_dot_printLabel, ih,
        List.map_cons, List.sum_cons]
      omega

/-- No label of the name has a dot inside. -/
def DotFree (name : DomainName) : Prop :=
  ∀ label ∈ name.labels, dot ∉ label

instance (name : DomainName) : Decidable (DotFree name) :=
  inferInstanceAs (Decidable (∀ label ∈ name.labels, dot ∉ label))

variable {name : DomainName} {bound : Nat}

/-- A name without escaped dots has as many levels as labels. -/
theorem levels_of_dotFree (free : DotFree name) : levels name.print = name.labels.length := by
  have ones : ∀ label ∈ name.labels, label.count dot + 1 = 1 := fun label member => by
    rw [List.count_eq_zero_of_not_mem (free label member)]
  rw [levels_print, List.map_congr_left ones]
  rw [List.map_const', List.sum_replicate_nat, Nat.mul_one]

/-- Dropping labels lowers the levels by at least as many. -/
theorem levels_drop_add_le (name : DomainName) {skipped : Nat}
    (inside : skipped ≤ name.labels.length) :
    levels (name.drop skipped).print + skipped ≤ levels name.print := by
  have dropped :
      skipped ≤ ((name.labels.take skipped).map fun label => label.count dot + 1).sum := by
    have each : ∀ count ∈ (name.labels.take skipped).map (fun label => label.count dot + 1),
        1 ≤ count := by
      intro count member
      obtain ⟨label, _, rfl⟩ := List.mem_map.mp member
      exact Nat.le_add_left 1 _
    simpa [inside] using List.length_le_sum_of_one_le _ each
  rw [levels_print, levels_print, DomainName.drop_labels]
  conv_rhs => rw [← List.take_append_drop skipped name.labels, List.map_append, List.sum_append]
  omega

variable (dns : Library)

theorem levels_canonicalName {name : Name} (qualified : Qualified name) :
    levels (dns.canonicalName name) = levels name := by
  rw [dns.canonicalName_of_qualified qualified]
  have same_count : (name.map lowerByte).count dot = name.count dot := by
    rw [List.count_eq_countP, List.count_eq_countP, List.countP_map]
    apply List.countP_congr
    intro byte _
    simp [lowerByte_eq_dot_iff]
  have same_root : name.map lowerByte = root ↔ name = root := by
    cases name with
    | nil => simp
    | cons byte rest => simp [root, lowerByte_eq_dot_iff]
  simp only [levels, same_root, same_count]

variable {zone : Name}

/-- Going to the parent takes off a level. -/
theorem levels_parentZone_lt (canonical : dns.IsCanonical zone) (below : zone ≠ root) :
    levels (parentZone dns zone) < levels zone := by
  have positive : 0 < zone.count dot := List.count_pos_iff.mpr canonical.1.dot_mem
  have own : levels zone = zone.count dot := if_neg below
  rw [own]
  simp only [parentZone, canonical.2, if_neg below]
  split
  · simpa [levels_root] using positive
  · rename_i parent cut
    split
    · simpa [levels_root] using positive
    · obtain ⟨before, rfl⟩ := afterDot?_eq_some cut
      have fewer := levels_le_count parent
      rw [List.count_append, List.count_cons_self]
      omega

/-! ## Steps that send nothing -/

/-- The number of queries a session has sent. -/
def Event.isQuery : Event → Bool
  | .asked _ => true
  | _ => false

def queries {ω : Type} (session : Session ω) : Nat :=
  session.trace.countP Event.isQuery

variable {ω : Type} (world : World ω)

theorem readClock_costs : CostsAtMost queries 0 (readClock world : Action ω Time) :=
  CostsAtMost.step fun _ => le_rfl

theorem rangeOver_costs (keys : List RRsetKey) : CostsAtMost queries 0 (rangeOver world keys) :=
  CostsAtMost.step fun _ => le_rfl

theorem readStore_costs : CostsAtMost queries 0 (readStore : Action ω Keystore) :=
  CostsAtMost.step fun _ => le_rfl

theorem writeStore_costs (store : Keystore) :
    CostsAtMost queries 0 (writeStore store : Action ω Unit) :=
  CostsAtMost.step fun _ => le_rfl

/-- A query is one query. -/
theorem resolve_costs (query : Query) : CostsAtMost queries 1 (resolve world query) := by
  intro session
  rcases answered : world.resolver query session.world with ⟨failure | msg, state⟩ <;>
    simp [Program.after, Program.run, resolve, answered, queries, List.countP_cons,
      Event.isQuery]

theorem getDNSKEY_costs (name : Name) : CostsAtMost queries 0 (getDNSKEY dns world name) := by
  refine readStore_costs.bind_free fun store => ?_
  cases store.storedKeys dns name with
  | none => exact .pure _
  | some stored =>
    exact (readClock_costs world).bind_free fun _ => .ite (fun _ => .pure _) fun _ => .pure _

theorem getDS_costs (name : Name) : CostsAtMost queries 0 (getDS dns world name) := by
  refine readStore_costs.bind_free fun store => ?_
  cases store.storedDS dns name with
  | none => exact .pure _
  | some stored =>
    exact (readClock_costs world).bind_free fun _ => .ite (fun _ => .pure _) fun _ => .pure _

theorem addDNSKEY_costs (name : Name) (keys : List DNSKEY) :
    CostsAtMost queries 0 (addDNSKEY dns world name keys) :=
  (readClock_costs world).bind_free fun _ => readStore_costs.bind_free fun _ => writeStore_costs _

theorem verifyNow_costs (keys : List DNSKEY) (rrset : List RR) (sig : RRSIG) :
    CostsAtMost queries 0 (verifyNow dns world keys rrset sig) :=
  (readClock_costs world).bind_free fun _ => .pure _

theorem tryKeys_costs (keys : List DNSKEY) (rrset : List RR) (sig : RRSIG) :
    CostsAtMost queries 0 (tryKeys dns world keys rrset sig) := by
  refine (verifyNow_costs dns world keys rrset sig).bind_free ?_
  rintro (failure | ⟨⟩) <;> exact .pure _

theorem anyVerifies_costs (keys : List DNSKEY) (rrset : List RR) (sigs : List RRSIG) :
    CostsAtMost queries 0 (anyVerifies dns world keys rrset sigs) := by
  have tried := (CostsAtMost.budgeted queries).search (fun _ : RRSIG => 0)
    fun sig (_ : sig ∈ sigs) => tryKeys_costs dns world keys rrset sig
  exact (tried.mono (by simp)).bind_free fun _ => .pure _

theorem checkDSDenial_costs (resp : Msg) (zone : Name) (keys : List DNSKEY) :
    CostsAtMost queries 0 (checkDSDenial dns world resp zone keys) :=
  (readClock_costs world).bind_free fun _ => (rangeOver_costs world _).bind_free fun _ =>
    .ofExcept _

theorem checkDelegation_costs (zone : Name) (found : DSLookup) (keys : KeySet) :
    CostsAtMost queries 0 (checkDelegation dns world zone found keys) := by
  refine .ite (fun _ => ?_) fun _ => .ite (fun _ => .fail _) fun _ => ?_
  · exact (checkDSDenial_costs dns world _ _ _).bind_free fun _ => .fail _
  · refine (anyVerifies_costs dns world _ _ _).bind_free fun verified => ?_
    exact .ite (fun _ => .pure _) fun _ => .fail _

theorem checkSelfSignature_costs (zone : Name) (keys : KeySet) (sigs : List RRSIG) (ds : List DS) :
    CostsAtMost queries 0 (checkSelfSignature dns world zone keys sigs ds) := by
  refine .ite (fun _ => .fail _) fun _ => .ite (fun _ => .fail _) fun _ => ?_
  refine (anyVerifies_costs dns world _ _ _).bind_free fun verified => ?_
  exact .ite (fun _ => .pure _) fun _ => .fail _

/-! ## The chain of trust -/

theorem lookupDNSKEY_costs (name : Name) : CostsAtMost queries 1 (lookupDNSKEY dns world name) :=
  (resolve_costs world _).bind_then_free fun _ => .ite (fun _ => .pure _) fun _ => .fail _

theorem lookupDS_costs (name : Name) : CostsAtMost queries 1 (lookupDS dns world name) :=
  (resolve_costs world _).bind_then_free fun _ => .pure _

variable {chain : Name → Action ω KeySet}

/-- The DS records of a zone below the root are asked for once, on top of what the chain of the
parent asks. -/
theorem authenticateDS_costs
    (parentChain : zone ≠ root → CostsAtMost queries bound (chain (parentZone dns zone))) :
    CostsAtMost queries (if zone = root then 0 else 1 + bound)
      (authenticateDS dns world chain zone) := by
  unfold authenticateDS
  by_cases isRoot : zone = root
  · rw [if_pos isRoot, if_pos isRoot]
    refine (getDS_costs dns world root).bind_free fun ds => ?_
    exact .ite (fun _ => .fail _) fun _ => .pure _
  · rw [if_neg isRoot, if_neg isRoot]
    refine (lookupDS_costs dns world zone).mapError.bind fun found => ?_
    exact (parentChain isRoot).mapError.bind_then_free fun keys =>
      checkDelegation_costs dns world _ _ _

/-- Keys that are not stored are asked for once, on top of the DS records. -/
theorem zoneKeys_costs (vouched : CostsAtMost queries bound (authenticateDS dns world chain zone)) :
    CostsAtMost queries (1 + bound) (zoneKeys dns world chain zone) := by
  have offered : ∀ keys sigs, CostsAtMost queries bound
      (checkOffered dns world chain zone keys sigs) := by
    intro keys sigs
    refine .ite (fun _ => .fail _) fun _ => vouched.bind_then_free fun ds => ?_
    exact (checkSelfSignature_costs dns world zone keys sigs ds).bind_free fun _ => .pure _
  have fetched : CostsAtMost queries (1 + bound) (fetchKeys dns world chain zone) := by
    refine .bind_then_free
      ((lookupDNSKEY_costs dns world zone).mapError.bind fun found => offered _ _) fun keys => ?_
    exact (addDNSKEY_costs dns world zone _).bind_free fun _ => .pure _
  refine .bind_free (getDNSKEY_costs dns world zone) fun stored => ?_
  exact .ite (fun _ => fetched) fun _ => .pure _

/-- The chain of trust of a zone sends at most two queries a level and one for the root. -/
theorem chainWithin_costs (depth : Nat) (qualified : Qualified zone) :
    CostsAtMost queries (2 * levels zone + 1) (chainWithin dns world depth zone) := by
  induction depth generalizing zone with
  | zero => exact .fail _
  | succ depth ih =>
    have canonical := dns.isCanonical_canonicalName qualified
    have keys := zoneKeys_costs dns world (authenticateDS_costs dns world fun _ =>
      ih (isCanonical_parentZone dns canonical).1)
    have level : CostsAtMost queries _ (chainWithin dns world (depth + 1) zone) :=
      keys.bind_then_free fun _ => .bind_free (.step fun _ => le_rfl) fun _ => .pure _
    refine level.mono ?_
    rw [← levels_canonicalName dns qualified]
    split
    · omega
    · rename_i below
      have fewer := levels_parentZone_lt dns canonical below
      omega

theorem buildChainOfTrust_costs (qualified : Qualified zone) :
    CostsAtMost queries (2 * levels zone + 1) (buildChainOfTrust dns world zone) :=
  chainWithin_costs dns world _ qualified

/-! ## The insecure-delegation check -/

/-- Looking at one name costs at most two queries for each of its levels. -/
theorem proveNoDS_costs (canonical : dns.IsCanonical zone) (below : zone ≠ root) :
    CostsAtMost queries (2 * levels zone) (proveNoDS dns world zone) := by
  have fewer := levels_parentZone_lt dns canonical below
  have parent := buildChainOfTrust_costs dns world (isCanonical_parentZone dns canonical).1
  refine ((lookupDS_costs dns world zone).bind fun found => .ite (fun _ => .pure _) fun _ =>
    parent.attempt.bind_then_free ?_).mono (by omega)
  rintro (cause | keys)
  · exact .ite (fun _ => .pure _) fun _ => .fail _
  · exact (checkDSDenial_costs dns world _ _ _).bind_free fun _ => .pure _

/-- Numbers that stay below a descending line sum up to no more than its triangle. -/
theorem sum_descending_le {value : Nat → Nat} {top count : Nat} (le : count ≤ top)
    (below : ∀ index < count, value index + index ≤ top) :
    ((List.range count).map fun index => 2 * value index).sum +
      (top - count) * (top - count + 1) ≤ top * (top + 1) := by
  induction count with
  | zero => simp
  | succ count ih =>
    have rest := ih (Nat.le_of_succ_le le) fun index inside =>
      below index (Nat.lt_succ_of_lt inside)
    have last := below count (Nat.lt_succ_self count)
    obtain ⟨gap, rfl⟩ := Nat.exists_eq_add_of_le le
    have gap_succ : count + 1 + gap - count = gap + 1 := by omega
    have gap_eq : count + 1 + gap - (count + 1) = gap := by omega
    have square : gap * (gap + 1) + 2 * (gap + 1) = (gap + 1) * (gap + 1 + 1) := by
      rw [← Nat.add_mul, Nat.mul_comm]
    rw [gap_succ] at rest
    rw [gap_eq, List.range_succ, List.map_append, List.sum_append, List.map_singleton,
      List.sum_singleton]
    omega

/-- The names the walk visits are canonical and below the root. -/
theorem isCanonical_of_mem_enclosingZones (member : zone ∈ enclosingZones dns name.lower.print) :
    dns.IsCanonical zone ∧ zone ≠ root := by
  rw [enclosingZones_print] at member
  obtain ⟨skipped, inside, rfl⟩ := List.mem_map.mp member
  constructor
  · refine ⟨DomainName.print_qualified _, ?_⟩
    rw [dns.canonicalName_print, DomainName.lower_drop, DomainName.lower_lower]
  · have proper : skipped < name.lower.labels.length := by simpa using inside
    apply mt (print_eq_root_iff _).mp
    simpa [List.drop_eq_nil_iff] using proper

/-- The walk down to a name sends at most a square number of queries. -/
theorem checkInsecureDelegation_costs (name : DomainName) :
    CostsAtMost queries (levels name.print * (levels name.print + 1))
      (checkInsecureDelegation dns world name.print) := by
  rw [checkInsecureDelegation, dns.canonicalName_print]
  refine .ite (fun _ => .pure _) fun _ => ?_
  have walk := checkZones_within dns world (CostsAtMost.budgeted queries) (2 * levels ·)
    fun zone (member : zone ∈ enclosingZones dns name.lower.print) =>
      have visited := isCanonical_of_mem_enclosingZones dns member
      proveNoDS_costs dns world visited.1 visited.2
  refine walk.mono ?_
  have below : ∀ skipped < name.lower.labels.length,
      levels (name.lower.drop skipped).print + skipped ≤ levels name.lower.print :=
    fun skipped inside => levels_drop_add_le name.lower inside.le
  have enough : name.lower.labels.length ≤ levels name.lower.print :=
    (Nat.le_add_left _ _).trans (levels_drop_add_le name.lower le_rfl)
  have descending := sum_descending_le enough below
  rw [← levels_canonicalName dns name.print_qualified, dns.canonicalName_print,
    enclosingZones_print, List.map_map, List.map_reverse, List.sum_reverse]
  exact (Nat.le_add_right _ _).trans descending

/-! ## A whole validation -/

theorem validates_costs : Validates dns world (CostsAtMost queries) where
  toBudgeted := CostsAtMost.budgeted queries
  chain sig := by
    rw [← levels_canonicalName dns sig.signer.print_qualified]
    exact buildChainOfTrust_costs dns world (dns.canonicalName_qualified sig.signer.print_qualified)
  verify := verifyNow_costs dns world
  insecure := checkInsecureDelegation_costs dns world

/-- Validating a response sends no more queries than its sets and signatures are worth. -/
theorem validate_costs (answer : Msg) :
    CostsAtMost queries (validationBudget dns answer) (validate dns world answer) :=
  validate_within (validates_costs dns world) (rangeOver_costs world) answer

/-- For every resolver, clock and session: the chain of trust of a name with `n` labels and no
escaped dot follows the recursion of the source to its end and sends at most `2n + 1` queries,
the insecure-delegation check at most `n(n + 1)`, and a validation at most the sum of the first
bound over the signatures and of the second over the unsigned sets of the response, where a name
counts with its levels, which are its labels if no dot is escaped and never more than its
bytes. -/
theorem validation_queries_bounded :
    (∀ name : DomainName, DotFree name →
      buildChainOfTrust dns world name.print =
        chainStep dns world (buildChainOfTrust dns world) name.print ∧
      CostsAtMost queries (2 * name.labels.length + 1) (buildChainOfTrust dns world name.print) ∧
      CostsAtMost queries (name.labels.length * (name.labels.length + 1))
        (checkInsecureDelegation dns world name.print) ∧
      levels name.print = name.labels.length) ∧
    (∀ name : Name, levels name ≤ name.length) ∧
    ∀ answer : Msg, CostsAtMost queries (validationBudget dns answer)
      (validate dns world answer) := by
  refine ⟨?_, levels_le_length, validate_costs dns world⟩
  intro name free
  have count := levels_of_dotFree free
  refine ⟨buildChainOfTrust_eq dns world name.print_qualified, ?_, ?_, count⟩
  · have chain := buildChainOfTrust_costs dns world name.print_qualified
    rwa [count] at chain
  · have walk := checkInsecureDelegation_costs dns world name
    rwa [count] at walk

/-- A name with two labels, of which none has a dot inside. -/
def twoLabels : DomainName := { labels := [text "leaf", text "twig"] }

/-- Under a resolver that never answers and a clock that stands still, the chain of the name
sends at most five queries and the walk down to it at most six. -/
theorem two_labels_queries_bounded :
    DotFree twoLabels ∧
      CostsAtMost queries 5 (buildChainOfTrust reference
        (World.steady (fun _ => .error (text "timeout")) 0) twoLabels.print) ∧
      CostsAtMost queries 6 (checkInsecureDelegation reference
        (World.steady (fun _ => .error (text "timeout")) 0) twoLabels.print) := by
  have free : DotFree twoLabels := by decide
  have bounded := (validation_queries_bounded reference
    (World.steady (fun _ => .error (text "timeout")) 0)).1 twoLabels free
  exact ⟨free, bounded.2.1, bounded.2.2.1⟩

end RouteDns.Dnssec
