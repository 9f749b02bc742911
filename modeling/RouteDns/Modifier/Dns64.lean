import Mathlib.Logic.Relation
import RouteDns.Cidr.Net
import RouteDns.Dns.Query

/-!
# Synthesising AAAA records

For a query for IPv6 addresses that has none, the addresses of an A query are embedded into
prefixes and returned as AAAA records, after the aliases of the A response.

The AAAA records are all owned by the query name.  If the A response goes through aliases, the
query name is an alias as well and a resolver that follows it arrives at a name without records.
-/

namespace RouteDns.Modifier

open Dns Cidr

/-! ## Addresses -/

/-- A prefix that addresses are embedded into. -/
structure Dns64Prefix where
  ip : IP
  prefixLen : Nat
  size : ip.length = 16
  valid : prefixLen ∈ [32, 40, 48, 56, 64, 96]

/-- Write bytes into an address. -/
def place (ip : IP) (bytes : List (Nat × Byte)) : IP :=
  bytes.foldl (fun ip entry => ip.set entry.1 entry.2) ip

/-- Embed an IPv4 address; the ninth byte is zero for all but the longest prefix. -/
def synthesizeIPv6 (pre : Dns64Prefix) (ipv4 : IP) : IP :=
  match to4 ipv4 with
  | some [a, b, c, d] =>
    match pre.prefixLen with
    | 96 => place pre.ip [(12, a), (13, b), (14, c), (15, d)]
    | 64 => place pre.ip [(8, 0), (9, a), (10, b), (11, c), (12, d)]
    | 56 => place pre.ip [(7, a), (8, 0), (9, b), (10, c), (11, d)]
    | 48 => place pre.ip [(6, a), (7, b), (8, 0), (9, c), (10, d)]
    | 40 => place pre.ip [(5, a), (6, b), (7, c), (8, 0), (9, d)]
    | 32 => place pre.ip [(4, a), (5, b), (6, c), (7, d), (8, 0)]
    | _ => pre.ip
  | _ => pre.ip

/-! ## The resolver -/

structure DNS64 where
  prefixes : List Dns64Prefix
  configured : prefixes ≠ []

def hasAAAARecords (msg : Message) : Bool :=
  msg.answer.any fun rr => rr.header.rrtype = typeAAAA

/-- The header of the records made from an A record. -/
def synthesizedHeader (q : NamedQuery) (hdr : RRHeader) : RRHeader where
  owner := q.name
  rrtype := typeAAAA
  rrclass := q.question.qclass
  ttl := hdr.ttl

/-- The records made from an A record, one for every prefix. -/
def synthesized (prefixes : List Dns64Prefix) (q : NamedQuery) (hdr : RRHeader) (ip : IP) :
    List Record :=
  match to4 ip with
  | none => []
  | some ipv4 =>
    prefixes.map fun pre => .ofAddress (synthesizedHeader q hdr) (synthesizeIPv6 pre ipv4)

namespace DNS64

variable (r : DNS64)

def synthesizeAAAA (aAnswer : Message) (q : NamedQuery) : List Record :=
  let cnames := (aAnswer.answer.filterMap Record.asCNAME?).map Record.ofCNAME
  let aaaa := (aAnswer.answer.filterMap Record.asA?).flatMap fun record =>
    synthesized r.prefixes q record.1 record.2
  if aaaa = [] then [] else cnames ++ aaaa

/-- The query for IPv4 addresses instead. -/
def aQuery (q : NamedQuery) : Message :=
  { q.msg with question := { q.question with qtype := typeA } :: q.msg.question.tail }

/-- The response with the synthesised records. -/
def response (q : NamedQuery) (answer aAnswer : Message) : Message :=
  { q.msg.reply with
    recursionAvailable := answer.recursionAvailable
    answer := r.synthesizeAAAA aAnswer q
    ns := aAnswer.ns
    extra := aAnswer.extra }

def resolve (resolver : Message → Resolved) (q : NamedQuery) : Resolved :=
  if q.question.qtype ≠ typeAAAA then resolver q.msg
  else if q.msg.isEdns0.any OPT.dnssecOk then resolver q.msg
  else
    match resolver q.msg with
    | .error err => .error err
    | .ok none => .ok none
    | .ok (some answer) =>
      if answer.rcode ≠ rcodeSuccess then .ok (some answer)
      else if hasAAAARecords answer then .ok (some answer)
      else
        match resolver (aQuery q) with
        | .error _ => .ok (some answer)
        | .ok none => .ok (some answer)
        | .ok (some aAnswer) =>
          if aAnswer.rcode ≠ rcodeSuccess then .ok (some answer)
          else if r.synthesizeAAAA aAnswer q = [] then .ok (some answer)
          else .ok (some (r.response q answer aAnswer))

end DNS64

/-! ## Chains of aliases -/

/-- The aliases lead from a name to a target, one to the next. -/
def LeadsTo : DomainName → List CNAME → DomainName → Prop
  | name, [], target => name.lower = target.lower
  | name, record :: rest, target =>
    record.hdr.owner.lower = name.lower ∧ LeadsTo record.targetName rest target

/-- The names that are aliases, up to case. -/
def aliases (records : List Record) : List DomainName :=
  (records.filterMap Record.asCNAME?).map fun record => record.hdr.owner.lower

/-- The records are a chain of aliases in some order and addresses at the end of the chain.
Records of other types do not matter. -/
structure ChainTo (name : DomainName) (records : List Record) (target : DomainName) : Prop where
  leads : ∃ chain, (records.filterMap Record.asCNAME?).Perm chain ∧ LeadsTo name chain target
  addressed : records.filterMap Record.asA? ≠ []
  addresses : ∀ record ∈ records.filterMap Record.asA?,
    record.1.owner.lower = target.lower ∧ record.2.length = 4

/-- One alias is followed. -/
def Step (records : List Record) (name next : DomainName) : Prop :=
  ∃ record ∈ records.filterMap Record.asCNAME?,
    record.hdr.owner.lower = name.lower ∧ record.targetName = next

/-- Following the aliases from a name ends at a name that is no alias. -/
def EndsAt (records : List Record) (name final : DomainName) : Prop :=
  Relation.ReflTransGen (Step records) name final ∧ final.lower ∉ aliases records

/-- The aliases lead to the AAAA records, and these are owned by what owns the A records they are
made from. -/
structure ChainKept (prefixes : List Dns64Prefix) (name : DomainName)
    (records response : List Record) : Prop where
  ends : ∃ final, EndsAt response name final ∧ response.filterMap Record.asAAAA? ≠ [] ∧
    ∀ record ∈ response.filterMap Record.asAAAA?, record.1.owner.lower = final.lower
  owners : (response.filterMap Record.asAAAA?).map
      (fun record => (record.1.owner.lower, record.2)) =
    (records.filterMap Record.asA?).flatMap fun record =>
      prefixes.map fun pre => (record.1.owner.lower, synthesizeIPv6 pre record.2)

/-! ## Synthesised responses -/

/-- The headers and addresses of the synthesised records. -/
def synthesizedAddresses (prefixes : List Dns64Prefix) (q : NamedQuery)
    (records : List (RRHeader × IP)) : List (RRHeader × IP) :=
  records.flatMap fun record =>
    prefixes.map fun pre => (synthesizedHeader q record.1, synthesizeIPv6 pre record.2)

theorem filterMap_asCNAME?_append (cnames : List CNAME) (addresses : List (RRHeader × IP)) :
    (cnames.map Record.ofCNAME ++
      addresses.map fun record => Record.ofAddress record.1 record.2).filterMap Record.asCNAME? =
        cnames := by
  have aliases : Record.asCNAME? ∘ Record.ofCNAME = some := rfl
  have none : (Record.asCNAME? ∘ fun record : RRHeader × IP => .ofAddress record.1 record.2) =
      fun _ => none := rfl
  rw [List.filterMap_append, List.filterMap_map, List.filterMap_map, aliases, none]
  simp

theorem filterMap_asAAAA?_append (cnames : List CNAME) {addresses : List (RRHeader × IP)}
    (isAAAA : ∀ record ∈ addresses, record.1.rrtype = typeAAAA) :
    (cnames.map Record.ofCNAME ++
      addresses.map fun record => Record.ofAddress record.1 record.2).filterMap Record.asAAAA? =
        addresses := by
  have none : Record.asAAAA? ∘ Record.ofCNAME = fun _ => none := rfl
  have read : ∀ record ∈ addresses,
      (Record.asAAAA? ∘ fun record => Record.ofAddress record.1 record.2) record = some record :=
    fun record member => if_pos (isAAAA record member)
  rw [List.filterMap_append, List.filterMap_map, List.filterMap_map, none,
    List.filterMap_congr read]
  simp

section Chain

variable (r : DNS64) (q : NamedQuery) {aAnswer : Message} {target : DomainName}
  (chain : ChainTo q.name aAnswer.answer target)

include chain

theorem synthesizedAddresses_ne_nil :
    synthesizedAddresses r.prefixes q (aAnswer.answer.filterMap Record.asA?) ≠ [] := by
  obtain ⟨record, rest, split⟩ := List.exists_cons_of_ne_nil chain.addressed
  simp [synthesizedAddresses, split, r.configured]

/-- All A records of a chain are used. -/
theorem synthesizeAAAA_eq :
    r.synthesizeAAAA aAnswer q =
      (aAnswer.answer.filterMap Record.asCNAME?).map Record.ofCNAME ++
        (synthesizedAddresses r.prefixes q (aAnswer.answer.filterMap Record.asA?)).map
          fun record => .ofAddress record.1 record.2 := by
  have aaaa : ((aAnswer.answer.filterMap Record.asA?).flatMap fun record =>
      synthesized r.prefixes q record.1 record.2) =
        (synthesizedAddresses r.prefixes q (aAnswer.answer.filterMap Record.asA?)).map
          fun record => .ofAddress record.1 record.2 := by
    rw [synthesizedAddresses, List.map_flatMap]
    apply List.flatMap_congr
    intro record member
    rw [synthesized, to4_four (chain.addresses record member).2, List.map_map]
    rfl
  have nonempty := synthesizedAddresses_ne_nil r q chain
  rw [DNS64.synthesizeAAAA, aaaa, if_neg (by simpa using nonempty)]

theorem cnames_synthesizeAAAA :
    (r.synthesizeAAAA aAnswer q).filterMap Record.asCNAME? =
      aAnswer.answer.filterMap Record.asCNAME? := by
  rw [synthesizeAAAA_eq r q chain, filterMap_asCNAME?_append]

theorem addresses_synthesizeAAAA :
    (r.synthesizeAAAA aAnswer q).filterMap Record.asAAAA? =
      synthesizedAddresses r.prefixes q (aAnswer.answer.filterMap Record.asA?) := by
  rw [synthesizeAAAA_eq r q chain, filterMap_asAAAA?_append]
  intro record member
  obtain ⟨source, _, made⟩ := List.mem_flatMap.mp member
  obtain ⟨pre, _, rfl⟩ := List.mem_map.mp made
  rfl

omit chain in
/-- Synthesised records are owned by the query name. -/
theorem owner_synthesizedAddresses {records : List (RRHeader × IP)} {record : RRHeader × IP}
    (member : record ∈ synthesizedAddresses r.prefixes q records) : record.1.owner = q.name := by
  obtain ⟨source, _, made⟩ := List.mem_flatMap.mp member
  obtain ⟨pre, _, rfl⟩ := List.mem_map.mp made
  rfl

theorem aliases_synthesizeAAAA :
    aliases (r.synthesizeAAAA aAnswer q) = aliases aAnswer.answer := by
  rw [aliases, cnames_synthesizeAAAA r q chain, aliases]

/-- With an alias the query name is the first one, and the end of the chain is none. -/
theorem cnames_eq_nil_of_chainKept
    (kept : ChainKept r.prefixes q.name aAnswer.answer (r.synthesizeAAAA aAnswer q)) :
    aAnswer.answer.filterMap Record.asCNAME? = [] := by
  obtain ⟨links, perm, leads⟩ := chain.leads
  obtain ⟨⟨final, ⟨_, notAlias⟩, nonempty, owned⟩, _⟩ := kept
  by_contra some
  obtain ⟨record, rest, rfl⟩ : ∃ record rest, links = record :: rest :=
    List.exists_cons_of_ne_nil fun empty => some (by rw [empty] at perm; exact perm.eq_nil)
  obtain ⟨made, member⟩ := List.exists_mem_of_ne_nil _ nonempty
  have final_eq : q.name.lower = final.lower := by
    rw [← owned made member]
    rw [addresses_synthesizeAAAA r q chain] at member
    rw [owner_synthesizedAddresses r q member]
  apply notAlias
  rw [aliases_synthesizeAAAA r q chain, ← final_eq, ← leads.1]
  exact List.mem_map_of_mem (perm.mem_iff.mpr List.mem_cons_self)

/-- Without an alias the query name owns the A records. -/
theorem chainKept_of_cnames_eq_nil (none : aAnswer.answer.filterMap Record.asCNAME? = []) :
    ChainKept r.prefixes q.name aAnswer.answer (r.synthesizeAAAA aAnswer q) := by
  obtain ⟨links, perm, leads⟩ := chain.leads
  rw [none] at perm
  rw [perm.nil_eq.symm] at leads
  have noAlias : aliases aAnswer.answer = [] := by
    rw [aliases, none]
    rfl
  refine ⟨⟨q.name, ⟨.refl, ?_⟩, ?_, ?_⟩, ?_⟩
  · rw [aliases_synthesizeAAAA r q chain, noAlias]
    exact List.not_mem_nil
  · rw [addresses_synthesizeAAAA r q chain]
    exact synthesizedAddresses_ne_nil r q chain
  · intro record member
    rw [addresses_synthesizeAAAA r q chain] at member
    rw [owner_synthesizedAddresses r q member]
  · rw [addresses_synthesizeAAAA r q chain, synthesizedAddresses, List.map_flatMap]
    apply List.flatMap_congr
    intro record member
    rw [List.map_map, (chain.addresses record member).1, ← (leads : q.name.lower = target.lower)]
    rfl

/-- The AAAA records are where the aliases lead exactly if there are no aliases. -/
theorem chainKept_synthesizeAAAA_iff :
    ChainKept r.prefixes q.name aAnswer.answer (r.synthesizeAAAA aAnswer q) ↔
      aAnswer.answer.filterMap Record.asCNAME? = [] :=
  ⟨cnames_eq_nil_of_chainKept r q chain, chainKept_of_cnames_eq_nil r q chain⟩

end Chain

/-- The response to an AAAA query for which there are only A records, at the end of a chain of
aliases: its AAAA records are where the aliases lead, with the owner of the A records, if and
only if there are no aliases. -/
theorem synthesised_chain_kept_iff (r : DNS64) (resolver : Message → Resolved) (q : NamedQuery)
    {answer aAnswer : Message} {target : DomainName} (asksAAAA : q.question.qtype = typeAAAA)
    (notSecure : q.msg.isEdns0.any OPT.dnssecOk = false)
    (answered : resolver q.msg = .ok (some answer)) (success : answer.rcode = rcodeSuccess)
    (noAAAA : hasAAAARecords answer = false)
    (aAnswered : resolver (DNS64.aQuery q) = .ok (some aAnswer))
    (aSuccess : aAnswer.rcode = rcodeSuccess) (chain : ChainTo q.name aAnswer.answer target) :
    ∃ resp, r.resolve resolver q = .ok (some resp) ∧
      (ChainKept r.prefixes q.name aAnswer.answer resp.answer ↔
        aAnswer.answer.filterMap Record.asCNAME? = []) := by
  have nonempty : r.synthesizeAAAA aAnswer q ≠ [] := by
    rw [synthesizeAAAA_eq r q chain]
    have some := synthesizedAddresses_ne_nil r q chain
    simp [some]
  refine ⟨r.response q answer aAnswer, ?_, chainKept_synthesizeAAAA_iff r q chain⟩
  simp [DNS64.resolve, asksAAAA, notSecure, answered, success, noAAAA, aAnswered, aSuccess,
    nonempty]

/-! ## Sample responses -/

def webName : DomainName := { labels := [text "www", text "example"] }

def cdnName : DomainName := { labels := [text "cdn", text "example"] }

/-- The well-known prefix, 64:ff9b::/96. -/
def wellKnownPrefix : Dns64Prefix where
  ip := [0, 100, 255, 155, 0, 0, 0, 0, 0, 0, 0, 0, 0, 0, 0, 0]
  prefixLen := 96
  size := rfl
  valid := by decide

def wellKnown : DNS64 where
  prefixes := [wellKnownPrefix]
  configured := List.cons_ne_nil _ _

def webQuery : NamedQuery where
  msg := Message.ofQuestion 1 webName.print typeAAAA classINET
  name := webName
  asked := rfl

def addressAt (owner : DomainName) : Record :=
  .ofAddress { owner := owner, rrtype := typeA, rrclass := classINET, ttl := 300 } [1, 2, 3, 4]

def aliasOf (owner target : DomainName) : Record :=
  .ofCNAME
    { hdr := { owner := owner, rrtype := typeCNAME, rrclass := classINET, ttl := 300 }
      targetName := target }

/-- A response with some records, for A queries only. -/
def onlyA (records : List Record) (q : Message) : Resolved :=
  if q.question.any fun question => question.qtype = typeA then
    .ok (some { q.reply with answer := records })
  else
    .ok (some q.reply)

/-- Without an alias the AAAA record is owned by the query name, as the A record. -/
theorem direct_chain_kept :
    ∃ resp, wellKnown.resolve (onlyA [addressAt webName]) webQuery = .ok (some resp) ∧
      ChainKept wellKnown.prefixes webName [addressAt webName] resp.answer := by
  have chain : ChainTo webName [addressAt webName] webName := by
    refine ⟨⟨[], .nil, rfl⟩, by decide, ?_⟩
    intro record member
    obtain rfl := List.mem_singleton.mp member
    exact ⟨rfl, rfl⟩
  obtain ⟨resp, resolved, kept⟩ := synthesised_chain_kept_iff wellKnown
    (onlyA [addressAt webName]) webQuery rfl rfl rfl rfl rfl rfl rfl chain
  exact ⟨resp, resolved, kept.mpr rfl⟩

/-- An A response with an alias and the address of its target. -/
def aliasedAnswer : Message :=
  { (DNS64.aQuery webQuery).reply with answer := [aliasOf webName cdnName, addressAt cdnName] }

/-- With an alias to the owner of the address, the AAAA record is not where the alias leads. -/
theorem aliased_chain_lost :
    ChainTo webName aliasedAnswer.answer cdnName ∧
      ∃ resp, wellKnown.resolve (onlyA aliasedAnswer.answer) webQuery = .ok (some resp) ∧
        resp.answer.map (fun record => record.header.owner) = [webName, webName] ∧
        ¬ ChainKept wellKnown.prefixes webName aliasedAnswer.answer resp.answer := by
  have chain : ChainTo webQuery.name aliasedAnswer.answer cdnName := by
    refine ⟨⟨_, .refl _, rfl, rfl⟩, by decide, ?_⟩
    intro record member
    obtain rfl := List.mem_singleton.mp member
    exact ⟨rfl, rfl⟩
  refine ⟨chain, wellKnown.response webQuery webQuery.msg.reply aliasedAnswer, rfl, rfl, ?_⟩
  exact fun kept =>
    absurd ((chainKept_synthesizeAAAA_iff wellKnown webQuery chain).mp kept) (by decide)

end RouteDns.Modifier
