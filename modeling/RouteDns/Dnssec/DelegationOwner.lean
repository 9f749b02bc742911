import RouteDns.Dnssec.Chain

/-!
# Whose DS records vouch for a zone

A fetched key set always belongs to the zone it was fetched for.  The DS set that
vouches for it need not: `lookupDS` takes the DS records of whatever owner the
response holds, and the signature of the parent zone only fixes that they have one
owner.  So the owner is the one the resolver chose.
-/

namespace RouteDns.Dnssec

open Dns Program

variable (dns : Library)

/-- The DS records in the response to the DS query for a zone. -/
def dsAnswer (resolver : Query → Except Text Msg) (zone : Name) : List DS :=
  match resolver (.dnssec (dns.canonicalName zone) typeDS) with
  | .ok msg => (DSLookup.ofResponse msg).ds
  | .error _ => []

/-- The chain of trust of a zone returns keys that were not in the keystore. -/
structure AcceptsFetched {ω : Type} (world : World ω) (zone : Name) (session : Session ω)
    (keys : KeySet) : Prop where
  absent : (getDNSKEY dns world (dns.canonicalName zone)).result session = .ok ⟨[], []⟩
  returned : (buildChainOfTrust dns world zone).result session = .ok keys

/-- A level of the chain returns fetched keys only after they passed the checks. -/
theorem AcceptsFetched.fetched {ω : Type} {world : World ω} {zone : Name} {session : Session ω}
    {keys : KeySet} (accepts : AcceptsFetched dns world zone session keys) :
    ∃ chain reached after,
      (checkedKeys dns world chain (dns.canonicalName zone)).run reached = (.ok keys, after) := by
  have looked : (getDNSKEY dns world (dns.canonicalName zone)).run session =
      (.ok ⟨[], []⟩, (getDNSKEY dns world (dns.canonicalName zone)).after session) :=
    Prod.ext accepts.absent rfl
  have ran : (buildChainOfTrust dns world zone).run session =
      (.ok keys, (buildChainOfTrust dns world zone).after session) :=
    Prod.ext accepts.returned rfl
  rw [buildChainOfTrust] at ran
  cases levels : (dns.canonicalName zone).length with
  | zero => rw [levels] at ran; cases ran
  | succ levels' =>
    rw [levels, chainWithin, chainStep] at ran
    obtain ⟨fetched, reached, zoneRan, noted⟩ := run_bind_eq_ok ran
    rw [zoneKeys, run_bind_of_ok looked, if_pos KeySet.isEmpty_nil] at zoneRan
    obtain rfl : fetched = keys := Except.ok.inj (congrArg Prod.fst noted)
    obtain ⟨checked, passed, checksRan, stored⟩ := run_bind_eq_ok zoneRan
    obtain rfl : checked = fetched := Except.ok.inj (congrArg Prod.fst stored)
    exact ⟨_, _, _, checksRan⟩

/-- For accepted keys of a zone below the root, the vouching DS set and the key set
are owned by the zone exactly when the first DS record of the upstream answer is. -/
theorem acceptsFetched_owned_iff (resolver : Query → Except Text Msg) (clock : Nat → Time)
    (order : Nat → MapOrder) (session : Session Nat) (zone : Name) (keys : KeySet)
    (below : dns.canonicalName zone ≠ root)
    (accepts : AcceptsFetched dns (World.ofResolver resolver clock order) zone session keys) :
    ((∀ ds ∈ dsAnswer dns resolver (dns.canonicalName zone),
          dns.canonicalName ds.hdr.name = dns.canonicalName zone) ∧
        ∀ key ∈ keys.all, dns.canonicalName key.hdr.name = dns.canonicalName zone) ↔
      ∃ ds ∈ (dsAnswer dns resolver (dns.canonicalName zone)).head?,
        dns.canonicalName ds.hdr.name = dns.canonicalName zone := by
  obtain ⟨chain, reached, after, ran⟩ := accepts.fetched
  have evidence := checkedKeys_evidence dns _ ran
  obtain ⟨ds, ⟨isRoot, _⟩ | ⟨_, msg, ⟨_, replied⟩, read, _, _, signed⟩, _⟩ := evidence.vouched
  · exact absurd isRoot below
  · have answer_eq : dsAnswer dns resolver (dns.canonicalName zone) = ds := by
      have replied : resolver (.dnssec (dns.canonicalName (dns.canonicalName zone)) typeDS) =
        .ok msg := replied
      rw [dsAnswer, replied, read]
    obtain ⟨nonempty, one_owner⟩ := signed.one_owner dns
    obtain ⟨first, rest, rfl⟩ := List.exists_cons_of_ne_nil (by simpa using nonempty : ds ≠ [])
    rw [answer_eq]
    constructor
    · rintro ⟨owned, _⟩
      exact ⟨first, rfl, owned first List.mem_cons_self⟩
    · rintro ⟨_, ⟨⟩, owned⟩
      refine ⟨fun d member => ?_, evidence.owned⟩
      rw [← owned]
      exact one_owner (.ds d) (List.mem_map_of_mem member) (.ds first) (by simp)

/-! ## A sibling's DS set -/

def victimHeader : RRHeader := Reference.headerOf { labels := [text "victim"] }

def siblingHeader : RRHeader := Reference.headerOf { labels := [text "sibling"] }

/-- A key for the victim; whether the victim or an attacker made it is not in it. -/
def victimKSK : DNSKEY := Reference.keyOf victimHeader 257 (text "victim-ksk")

/-- An upstream that serves the key, and a DS record with its digest that the root
zone signed for the given owner. -/
def delegatingUpstream (owner : RRHeader) (query : Query) : Except Text Msg :=
  if query.qtype = typeDNSKEY then
    .ok { rcode := rcodeSuccess, question := [], ns := []
          answer := [.dnskey victimKSK,
            .rrsig (Reference.sign victimKSK victimHeader typeDNSKEY)] }
  else
    .ok { rcode := rcodeSuccess, question := [], ns := []
          answer := [.ds (Reference.dsOf owner victimKSK),
            .rrsig (Reference.sign Reference.rootZSK owner typeDS)] }

def delegatingWorld (owner : RRHeader) : World Nat :=
  World.ofResolver (delegatingUpstream owner) (fun _ => sampleTime) (fun _ => listedOrder)

/-- A session whose keystore holds the keys of the root. -/
def rootSession : Session Nat where
  store := sampleStore
  world := 0
  trace := []

theorem victim_ds_vouches_for_victim :
    AcceptsFetched reference (delegatingWorld victimHeader) (text "victim.") rootSession
        ⟨[], [victimKSK]⟩ ∧
      ∀ key ∈ [victimKSK],
        reference.canonicalName key.hdr.name = reference.canonicalName (text "victim.") := by
  have accepts : AcceptsFetched reference (delegatingWorld victimHeader) (text "victim.")
      rootSession ⟨[], [victimKSK]⟩ := ⟨by decide, by decide⟩
  exact ⟨accepts, ((acceptsFetched_owned_iff reference (delegatingUpstream victimHeader) _ _
    rootSession (text "victim.") _ (by decide) accepts).mpr
      ⟨Reference.dsOf victimHeader victimKSK, by decide, by decide⟩).2⟩

/-- A DS set that the root zone signed for the sibling vouches for a key of the
victim. -/
theorem sibling_ds_vouches_for_victim :
    AcceptsFetched reference (delegatingWorld siblingHeader) (text "victim.") rootSession
        ⟨[], [victimKSK]⟩ ∧
      ∃ ds ∈ dsAnswer reference (delegatingUpstream siblingHeader)
          (reference.canonicalName (text "victim.")),
        reference.canonicalName ds.hdr.name ≠ reference.canonicalName (text "victim.") :=
  ⟨⟨by decide, by decide⟩, Reference.dsOf siblingHeader victimKSK, by decide, by decide⟩

end RouteDns.Dnssec
