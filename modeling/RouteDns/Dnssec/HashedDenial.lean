import RouteDns.Dns.Reference
import RouteDns.Dnssec.NameOrder

/-!
# Name errors from NSEC3 records

A name error needs a record that matches an ancestor of the name and records that cover the
next closer name and the wildcard.  Whether a record matches the name itself, or the wildcard,
is not asked.  Since a record may cover a name that it or another record matches, a set can deny
a name that it shows to exist; it cannot exactly if nothing in it matches these two names.
-/

namespace RouteDns.Dnssec

open Dns Canonical

variable (dns : Library)

/-! ## The closest encloser -/

/-- The search finds the longest ancestor below a bound that a record matches. -/
theorem nsec3ClosestEncloserBelow_eq_some_iff (nsec3s : List NSEC3) (qname : Name) (bound : Nat)
    (pair : Name × Name) :
    nsec3ClosestEncloserBelow dns nsec3s qname bound = some pair ↔
      ∃ count < bound, pair = (lastNLabels dns qname count, lastNLabels dns qname (count + 1)) ∧
        nsec3MatchAny dns nsec3s (lastNLabels dns qname count) = true ∧
        ∀ longer, count < longer → longer < bound →
          nsec3MatchAny dns nsec3s (lastNLabels dns qname longer) = false := by
  induction bound with
  | zero => simp [nsec3ClosestEncloserBelow]
  | succ bound ih =>
    rw [nsec3ClosestEncloserBelow]
    split
    · rename_i matched
      constructor
      · rintro ⟨⟩
        exact ⟨bound, Nat.lt_succ_self bound, rfl, matched, fun longer after before => by omega⟩
      · rintro ⟨count, inside, rfl, _, longest⟩
        rcases Nat.lt_succ_iff_lt_or_eq.mp inside with below | rfl
        · rw [longest bound below (Nat.lt_succ_self bound)] at matched
          cases matched
        · rfl
    · rename_i unmatched
      rw [Bool.not_eq_true] at unmatched
      rw [ih]
      constructor
      · rintro ⟨count, inside, pair_eq, matched, longest⟩
        refine ⟨count, inside.trans (Nat.lt_succ_self bound), pair_eq, matched, ?_⟩
        intro longer after before
        rcases Nat.lt_succ_iff_lt_or_eq.mp before with below | rfl
        · exact longest longer after below
        · exact unmatched
      · rintro ⟨count, inside, pair_eq, matched, longest⟩
        rcases Nat.lt_succ_iff_lt_or_eq.mp inside with below | rfl
        · exact ⟨count, below, pair_eq, matched, fun longer after before =>
            longest longer after (before.trans (Nat.lt_succ_self bound))⟩
        · rw [unmatched] at matched
          cases matched

/-- The longest proper ancestor of a name that some record matches. -/
structure ClosestMatched (nsec3s : List NSEC3) (qname encloser : DomainName) : Prop where
  above : encloser.labels <:+ qname.lower.labels
  proper : encloser.labels.length < qname.labels.length
  matched : nsec3MatchAny dns nsec3s encloser.print = true
  longest : ∀ between : DomainName, between.labels <:+ qname.lower.labels →
    encloser.labels.length < between.labels.length →
      between.labels.length < qname.labels.length →
        nsec3MatchAny dns nsec3s between.print = false

theorem ancestor_of_suffix {above name : DomainName} (suffix : above.labels <:+ name.labels) :
    ancestor name above.labels.length = above :=
  DomainName.ext (List.suffix_iff_eq_drop.mp suffix).symm

theorem length_lower_labels (name : DomainName) :
    name.lower.labels.length = name.labels.length := by
  simp

theorem nsec3ClosestEncloser_print_iff (nsec3s : List NSEC3) (qname : DomainName)
    (pair : Name × Name) :
    nsec3ClosestEncloser dns nsec3s qname.print = some pair ↔
      ∃ encloser, ClosestMatched dns nsec3s qname encloser ∧
        pair = (encloser.print, (ancestor qname.lower (encloser.labels.length + 1)).print) := by
  simp only [nsec3ClosestEncloser, dns.canonicalName_print, dns.countLabel_print,
    nsec3ClosestEncloserBelow_eq_some_iff, lastNLabels_print, length_lower_labels]
  constructor
  · rintro ⟨count, inside, rfl, matched, longest⟩
    have length_eq : (ancestor qname.lower count).labels.length = count :=
      length_outer (inside.le.trans_eq (length_lower_labels qname).symm)
    refine ⟨ancestor qname.lower count, ⟨outer_suffix _ _, ?_, matched, ?_⟩, ?_⟩
    · rwa [length_eq]
    · intro between suffix after before
      rw [length_eq] at after
      rw [← ancestor_of_suffix suffix]
      exact longest _ after before
    · rw [length_eq]
  · rintro ⟨encloser, closest, rfl⟩
    have encloser_eq := ancestor_of_suffix closest.above
    refine ⟨encloser.labels.length, closest.proper, ?_, ?_, ?_⟩
    · rw [encloser_eq]
    · rw [encloser_eq]
      exact closest.matched
    · intro longer after before
      have length_eq : (ancestor qname.lower longer).labels.length = longer :=
        length_outer (before.le.trans_eq (length_lower_labels qname).symm)
      exact closest.longest _ (outer_suffix _ _) (by rwa [length_eq]) (by rwa [length_eq])

variable {nsec3s : List NSEC3} {qname : DomainName}

/-- The next closer name is the name itself or an ancestor that no record matches. -/
theorem ClosestMatched.nextCloser_unmatched {encloser : DomainName}
    (closest : ClosestMatched dns nsec3s qname encloser)
    (unmatched : nsec3MatchAny dns nsec3s qname.lower.print = false) :
    nsec3MatchAny dns nsec3s
      (ancestor qname.lower (encloser.labels.length + 1)).print = false := by
  have proper := closest.proper
  have inside : encloser.labels.length + 1 ≤ qname.lower.labels.length := by
    rw [length_lower_labels]
    omega
  have length_eq : (ancestor qname.lower (encloser.labels.length + 1)).labels.length =
      encloser.labels.length + 1 := length_outer inside
  rcases inside.eq_or_lt with whole | between
  · have name_eq := ancestor_of_suffix (List.suffix_refl qname.lower.labels)
    rwa [whole, name_eq]
  · rw [length_lower_labels] at between
    exact closest.longest _ (outer_suffix _ _) (by omega) (by omega)

/-! ## Contradictions -/

/-- If the name error is accepted, no record matches the name, the next closer name, or the
wildcard at the closest encloser when the wildcard was covered and opt-out not needed. -/
def NoContradiction (nsec3s : List NSEC3) (qname : DomainName) : Prop :=
  nsec3ProvesNXDOMAIN dns nsec3s qname.print = true →
    ∀ encloser nextCloser : DomainName,
      nsec3ClosestEncloser dns nsec3s qname.print = some (encloser.print, nextCloser.print) →
        nsec3MatchAny dns nsec3s qname.lower.print = false ∧
        nsec3MatchAny dns nsec3s nextCloser.print = false ∧
        (nsec3CoverAny dns nsec3s (wildcardText encloser.print) = true →
          nsec3MatchAny dns nsec3s (wildcardOf encloser).print = false)

/-- No record matches the name, nor the wildcard at the longest proper ancestor that one
matches. -/
def Unmatched (nsec3s : List NSEC3) (qname : DomainName) : Prop :=
  ∀ encloser, ClosestMatched dns nsec3s qname encloser →
    nsec3MatchAny dns nsec3s qname.lower.print = false ∧
    nsec3MatchAny dns nsec3s (wildcardOf encloser).print = false

theorem noContradiction_of_unmatched (unmatched : Unmatched dns nsec3s qname) :
    NoContradiction dns nsec3s qname := by
  intro _ encloser nextCloser found
  obtain ⟨other, closest, pair_eq⟩ := (nsec3ClosestEncloser_print_iff dns nsec3s qname _).mp found
  obtain ⟨rfl, rfl⟩ : encloser = other ∧
      nextCloser = ancestor qname.lower (other.labels.length + 1) := by
    simpa using pair_eq
  obtain ⟨name, wildcard⟩ := unmatched encloser closest
  exact ⟨name, closest.nextCloser_unmatched dns name, fun _ => wildcard⟩

/-- If every record covers every name, all that is needed is some matched ancestor. -/
theorem unmatched_of_noContradiction (covers : ∀ record name, dns.nsec3Cover record name = true)
    (consistent : NoContradiction dns nsec3s qname) : Unmatched dns nsec3s qname := by
  intro encloser closest
  have found := (nsec3ClosestEncloser_print_iff dns nsec3s qname _).mpr ⟨encloser, closest, rfl⟩
  have nonempty : ∃ record, record ∈ nsec3s := by
    obtain ⟨record, member, _⟩ := List.any_eq_true.mp closest.matched
    exact ⟨record, member⟩
  have coverAny : ∀ name, nsec3CoverAny dns nsec3s name = true := by
    intro name
    obtain ⟨record, member⟩ := nonempty
    exact List.any_eq_true.mpr ⟨record, member, covers record name⟩
  have accepted : nsec3ProvesNXDOMAIN dns nsec3s qname.print = true := by
    simp [nsec3ProvesNXDOMAIN, found, coverAny]
  obtain ⟨name, _, wildcard⟩ := consistent accepted encloser _ found
  exact ⟨name, wildcard (coverAny _)⟩

/-- What is matched does not depend on what is covered. -/
theorem unmatched_withCover_iff (cover : NSEC3 → Name → Bool) (nsec3s : List NSEC3)
    (qname : DomainName) :
    Unmatched { dns with nsec3Cover := cover } nsec3s qname ↔ Unmatched dns nsec3s qname := by
  constructor
  · intro unmatched encloser closest
    exact unmatched encloser ⟨closest.above, closest.proper, closest.matched, closest.longest⟩
  · intro unmatched encloser closest
    exact unmatched encloser ⟨closest.above, closest.proper, closest.matched, closest.longest⟩

/-- For every set of records, every name and every meaning of `Match`: no meaning of `Cover`
makes an accepted name error contradict the set, if and only if no record of it matches the name
or the wildcard at the longest matched ancestor. -/
theorem nameError3_noContradiction_iff (nsec3s : List NSEC3) (qname : DomainName) :
    (∀ cover : NSEC3 → Name → Bool, NoContradiction { dns with nsec3Cover := cover } nsec3s qname) ↔
      Unmatched dns nsec3s qname := by
  constructor
  · intro consistent
    rw [← unmatched_withCover_iff dns fun _ _ => true]
    exact unmatched_of_noContradiction _ (fun _ _ => rfl) (consistent _)
  · intro unmatched cover
    apply noContradiction_of_unmatched
    rwa [unmatched_withCover_iff]

/-! ## A sample zone -/

/-- A record of the sample zone, whose hashes are the names themselves. -/
def hashedLink (owner next : Text) (owner_ne : owner ≠ []) : NSEC3 where
  hdr := { Reference.headerOf (Reference.exampleName.child owner owner_ne) with
    rrtype := typeNSEC3 }
  hash := 1
  flags := 0
  iterations := 0
  salt := []
  nextDomain := next
  typeBitMap := [1]

/-- The chain of a zone with two owners, the apex and a host. -/
def hashedChain : List NSEC3 :=
  [hashedLink (text "example-") (text "a-example-") (by decide),
    hashedLink (text "a-example-") (text "example-") (by decide)]

/-- The chain denies the host: the record that matches it covers it as well. -/
theorem matched_host_denied :
    let host : DomainName := { labels := [text "a", text "example"] }
    nsec3ProvesNXDOMAIN reference hashedChain host.print = true ∧
      nsec3MatchAny reference hashedChain host.print = true := by
  decide +kernel

end RouteDns.Dnssec
