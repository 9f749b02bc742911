import RouteDns.Cache.Blob

/-!
# Keys and client subnets

A query may carry several client subnet options.  The key of the cache depends on the query
only through its question, three flags and these options.
-/

namespace RouteDns.Cache

open Dns Cidr

/-- The type assertion to a client subnet. -/
def asSubnet? : EdnsOption → Option Subnet
  | .subnet subnet => some subnet
  | _ => none

namespace CacheQuery

/-- The client subnets of a query, in the order of its options. -/
def subnets (q : CacheQuery) : List Subnet :=
  match q.msg.isEdns0 with
  | none => []
  | some edns0 => edns0.options.filterMap asSubnet?

/-- The client asked for DNSSEC records. -/
def dnssecOk (q : CacheQuery) : Bool :=
  match q.msg.isEdns0 with
  | none => false
  | some edns0 => edns0.dnssecOk

/-- The query with other client subnets and no other options. -/
def withSubnets (q : CacheQuery) (subnets : List Subnet) : CacheQuery where
  msg :=
    let hdr : RRHeader :=
      match q.msg.isEdns0 with
      | none => { owner := .top, rrtype := typeOPT, rrclass := 0, ttl := 0 }
      | some edns0 => edns0.hdr
    { q.msg with extra := [.opt { hdr := hdr, options := subnets.map .subnet }] }
  asked := q.asked

variable (q : CacheQuery) (subnets : List Subnet)

@[simp]
theorem withSubnets_question : (q.withSubnets subnets).question = q.question :=
  rfl

@[simp]
theorem withSubnets_checkingDisabled :
    (q.withSubnets subnets).msg.checkingDisabled = q.msg.checkingDisabled :=
  rfl

theorem isEdns0_withSubnets : ∃ edns0, (q.withSubnets subnets).msg.isEdns0 = some edns0 ∧
    edns0.options = subnets.map .subnet ∧ edns0.dnssecOk = q.dnssecOk := by
  refine ⟨_, rfl, rfl, ?_⟩
  change OPT.dnssecOk { hdr := _, options := _ } = q.dnssecOk
  unfold dnssecOk
  split
  · change decide ((0 : UInt32) &&& OPT.doBit = OPT.doBit) = false
    decide
  · rfl

@[simp]
theorem withSubnets_subnets : (q.withSubnets subnets).subnets = subnets := by
  obtain ⟨edns0, found, options, _⟩ := q.isEdns0_withSubnets subnets
  simp only [CacheQuery.subnets, found, options, List.filterMap_map]
  exact List.filterMap_some

@[simp]
theorem withSubnets_dnssecOk : (q.withSubnets subnets).dnssecOk = q.dnssecOk := by
  obtain ⟨edns0, found, _, same⟩ := q.isEdns0_withSubnets subnets
  rw [← same]
  simp only [dnssecOk, found]

/-- What the cache takes from the client subnets: the address and the mask of the last. -/
def lastNet : List Subnet → Text × UInt8 :=
  fun subnets =>
    match subnets.getLast? with
    | none => ([], 0)
    | some subnet => (ipString subnet.address, subnet.sourceNetmask)

@[simp]
theorem lastNet_append (subnet : Subnet) :
    lastNet (subnets ++ [subnet]) = (ipString subnet.address, subnet.sourceNetmask) := by
  simp [lastNet]

end CacheQuery

open CacheQuery

/-- The loop over the options keeps the last client subnet. -/
theorem foldl_options_eq (key : LruKey) (options : List EdnsOption) :
    options.foldl (fun key option =>
        match option with
        | .subnet subnet =>
          { key with net := ipString subnet.address, ecsMask := subnet.sourceNetmask }
        | _ => key) key =
      match (options.filterMap asSubnet?).getLast? with
      | none => key
      | some subnet =>
        { key with net := ipString subnet.address, ecsMask := subnet.sourceNetmask } := by
  induction options using List.reverseRecOn with
  | nil => rfl
  | append_singleton options option ih =>
    rw [List.foldl_append, ih, List.filterMap_append]
    cases option with
    | subnet subnet =>
      simp only [List.foldl_cons, List.foldl_nil, List.filterMap_cons, asSubnet?,
        List.filterMap_nil, List.getLast?_append, List.getLast?_singleton, Option.some_or]
      split
      · rfl
      · rfl
    | padding padding | other code data => simp [asSubnet?]

/-- The key of a query in terms of its parts. -/
theorem lruKeyFromQuery_eq (q : CacheQuery) : lruKeyFromQuery q =
    { question := { q.question with name := toLower q.question.name }
      net := (lastNet q.subnets).1
      dnssecOk := q.dnssecOk
      cd := q.msg.checkingDisabled
      ecsMask := (lastNet q.subnets).2 } := by
  unfold lruKeyFromQuery subnets dnssecOk
  cases q.msg.isEdns0 with
  | none => rfl
  | some edns0 =>
    apply (foldl_options_eq _ edns0.options).trans
    simp only [lastNet]
    split
    · rfl
    · rfl

/-- Two queries have one question, up to the case of the name, and the same flags. -/
structure SameRequest (first second : CacheQuery) : Prop where
  name : toLower first.question.name = toLower second.question.name
  qtype : first.question.qtype = second.question.qtype
  qclass : first.question.qclass = second.question.qclass
  dnssecOk : first.dnssecOk = second.dnssecOk
  cd : first.msg.checkingDisabled = second.msg.checkingDisabled

theorem sameRequest_withSubnets (q : CacheQuery) (subnets : List Subnet) :
    SameRequest (q.withSubnets subnets) q := by
  constructor <;> simp

/-- Two queries have one key if they are one request and agree in the client subnet that
counts. -/
theorem lruKeyFromQuery_eq_iff (first second : CacheQuery) :
    lruKeyFromQuery first = lruKeyFromQuery second ↔
      SameRequest first second ∧ lastNet first.subnets = lastNet second.subnets := by
  rw [lruKeyFromQuery_eq, lruKeyFromQuery_eq]
  simp only [LruKey.mk.injEq, AskedQuestion.mk.injEq]
  constructor
  · rintro ⟨⟨name, qtype, qclass⟩, net, dnssecOk, cd, mask⟩
    exact ⟨⟨name, qtype, qclass, dnssecOk, cd⟩, Prod.ext net mask⟩
  · rintro ⟨same, net⟩
    exact ⟨⟨same.name, same.qtype, same.qclass⟩, by rw [net], same.dnssecOk, same.cd, by rw [net]⟩

/-- A query for an address record without EDNS0 options. -/
def plainQuery : CacheQuery where
  msg := Message.ofQuestion 1 (text "example.com.") 1 classINET
  asked := by decide

end RouteDns.Cache
