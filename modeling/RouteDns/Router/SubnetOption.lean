import RouteDns.Dedup.Key
import RouteDns.Modifier.ClientSubnet

/-!
# Which client subnet counts

Four components look for the client subnet of a query: the client blocklist, routes with a
source for it, the cache and the merging of requests.  A query may carry several.  A proxy
appends its own behind whatever the client has sent, so a decision that goes by the last one
cannot be influenced by the client, and one that goes by the first one can.
-/

namespace RouteDns.Router

open Dns Cidr Cache Dedup

/-- What a listener knows about the sender of a query; an address that is not known is empty. -/
structure ClientInfo where
  sourceIP : IP
  dohPath : Text
  tlsServerName : Text
  listener : Text

/-! ## The client blocklist -/

/-- Where a query goes: on to the resolver, to the resolver for blocked clients, or nowhere. -/
inductive ClientDecision where
  | allowed
  | diverted
  | refused
  deriving DecidableEq

/-- A client blocklist: its database, whether it has a resolver for blocked clients, and whether
it goes by the client subnet. -/
structure ClientBlocklist where
  blocklistDB : IP → Bool
  blocklistResolver : Bool
  useECS : Bool

/-- The loop over the options, which ends at the first client subnet. -/
def firstAddress (ip : IP) : List EdnsOption → IP
  | [] => ip
  | .subnet ecs :: _ => ecs.address
  | _ :: rest => firstAddress ip rest

namespace ClientBlocklist

/-- The address that is matched. -/
def clientIP (r : ClientBlocklist) (q : Message) (ci : ClientInfo) : IP :=
  if r.useECS then
    match q.isEdns0 with
    | none => ci.sourceIP
    | some edns0 => firstAddress ci.sourceIP edns0.options
  else ci.sourceIP

def resolve (r : ClientBlocklist) (q : Message) (ci : ClientInfo) : ClientDecision :=
  let ip := r.clientIP q ci
  if ip = [] then .allowed
  else if r.blocklistDB ip then
    if r.blocklistResolver then .diverted else .refused
  else .allowed

end ClientBlocklist

/-! ## Routes -/

structure TimeOfDay where
  hour : Nat
  minute : Nat

namespace TimeOfDay

def isBefore (t : TimeOfDay) (hour minute : Nat) : Bool :=
  t.hour < hour ∨ t.hour = hour ∧ t.minute ≤ minute

def isAfter (t : TimeOfDay) (hour minute : Nat) : Bool :=
  t.hour > hour ∨ t.hour = hour ∧ t.minute > minute

end TimeOfDay

/-- The local time at which a route is tried. -/
structure LocalTime where
  weekday : Fin 7
  hour : Nat
  minute : Nat

/-- A route.  Its regular expressions are given by what they match. -/
structure Route where
  types : List UInt16
  class_ : UInt16
  name : Text → Bool
  source : Option IPNet
  ecsSource : Option IPNet
  weekdays : List (Fin 7)
  before : Option TimeOfDay
  after : Option TimeOfDay
  inverted : Bool
  dohPath : Text → Bool
  listenerID : Text → Bool
  tlsServerName : Text → Bool

/-- The loop over the options, which goes on to the last client subnet. -/
def lastAddress (options : List EdnsOption) : IP :=
  options.foldl (fun ecsIP option =>
    match option with
    | .subnet e => e.address
    | _ => ecsIP) []

namespace Route

def matchType (r : Route) (qtype : UInt16) : Bool :=
  r.types = [] ∨ qtype ∈ r.types

/-- The address a route compares with its source for client subnets. -/
def ecsIP (q : Message) : IP :=
  match q.isEdns0 with
  | none => []
  | some opt => lastAddress opt.options

def matchTime (r : Route) (now : LocalTime) : Bool :=
  (r.weekdays = [] ∨ now.weekday ∈ r.weekdays) ∧
    (∀ before ∈ r.before, before.isAfter now.hour now.minute) ∧
    ∀ after ∈ r.after, after.isBefore now.hour now.minute

/-- Every condition of the route is met. -/
def meets (r : Route) (q : CacheQuery) (ci : ClientInfo) (now : LocalTime) : Bool :=
  r.matchType q.question.qtype ∧
    (r.class_ = 0 ∨ r.class_ = q.question.qclass) ∧
    r.name q.question.name ∧
    (∀ source ∈ r.source, source.contains ci.sourceIP) ∧
    (∀ source ∈ r.ecsSource, ecsIP q.msg ≠ [] ∧ source.contains (ecsIP q.msg)) ∧
    r.dohPath ci.dohPath ∧ r.listenerID ci.listener ∧ r.tlsServerName ci.tlsServerName ∧
    r.matchTime now

/-- An inverted route matches where a condition is not met. -/
def match_ (r : Route) (q : CacheQuery) (ci : ClientInfo) (now : LocalTime) : Bool :=
  if r.meets q ci now then !r.inverted else r.inverted

end Route

/-! ## What the loops find -/

theorem firstAddress_eq (ip : IP) (options : List EdnsOption) :
    firstAddress ip options =
      ((options.filterMap asSubnet?).head?.map Subnet.address).getD ip := by
  induction options with
  | nil => rfl
  | cons option rest ih =>
    cases option with
    | subnet subnet => rfl
    | padding padding => exact ih
    | other code data => exact ih

theorem lastAddress_eq (options : List EdnsOption) :
    lastAddress options =
      ((options.filterMap asSubnet?).getLast?.map Subnet.address).getD [] := by
  induction options using List.reverseRecOn with
  | nil => rfl
  | append_singleton options option ih =>
    rw [lastAddress, List.foldl_append, List.filterMap_append]
    cases option with
    | subnet subnet => simp [asSubnet?]
    | padding padding | other code data => simpa [asSubnet?, lastAddress] using ih

theorem clientIP_eq (r : ClientBlocklist) (q : CacheQuery) (ci : ClientInfo) :
    r.clientIP q.msg ci =
      if r.useECS then (q.subnets.head?.map Subnet.address).getD ci.sourceIP else ci.sourceIP := by
  unfold ClientBlocklist.clientIP CacheQuery.subnets
  cases q.msg.isEdns0 with
  | none => rfl
  | some edns0 => simp only [firstAddress_eq]

theorem ecsIP_eq (q : CacheQuery) :
    Route.ecsIP q.msg = (q.subnets.getLast?.map Subnet.address).getD [] := by
  unfold Route.ecsIP CacheQuery.subnets
  cases q.msg.isEdns0 with
  | none => rfl
  | some edns0 => exact lastAddress_eq edns0.options

/-! ## Agreement -/

/-- The numbers of a key for merging that come from the client subnets. -/
def ecsNumbers (key : DedupKey) : EcsPart where
  ipv4 := key.ecsIPv4
  ipv6Hi := key.ecsIPv6Hi
  ipv6Lo := key.ecsIPv6Lo
  mask := key.ecsMask

/-- All components take what they use of the client subnets from one of them. -/
structure ActsOn (q : CacheQuery) (subnet : Subnet) : Prop where
  blocklist : ∀ (r : ClientBlocklist) (ci : ClientInfo), r.useECS = true →
    r.clientIP q.msg ci = subnet.address
  route : Route.ecsIP q.msg = subnet.address
  cache : (lruKeyFromQuery q).net = ipString subnet.address ∧
    (lruKeyFromQuery q).ecsMask = subnet.sourceNetmask
  dedup : ecsNumbers (dedupKey q) = ecsOf subnet

/-- No component, however it is configured, decides on one query other than on another. -/
structure SameDecisions (q other : CacheQuery) : Prop where
  blocklist : ∀ (r : ClientBlocklist) (ci : ClientInfo), r.resolve q.msg ci = r.resolve other.msg ci
  route : ∀ (r : Route) (ci : ClientInfo) (now : LocalTime),
    r.match_ q ci now = r.match_ other ci now
  cache : lruKeyFromQuery q = lruKeyFromQuery other
  dedup : dedupKey q = dedupKey other

/-- Everything is decided by the last client subnet: all components act on it, and what stands in
front of it makes no difference. -/
structure LastCounts (q : CacheQuery) : Prop where
  last : ∀ subnet ∈ q.subnets.getLast?, ActsOn q subnet
  unaffected : ∀ subnets : List Subnet, subnets.length = q.subnets.length →
    subnets.getLast? = q.subnets.getLast? → SameDecisions (q.withSubnets subnets) q

/-- A component that reads a single client subnet acts on it. -/
theorem actsOn_of_single {q : CacheQuery} {subnet : Subnet} (single : q.subnets = [subnet]) :
    ActsOn q subnet := by
  constructor
  case blocklist =>
    intro r ci useECS
    rw [clientIP_eq, if_pos useECS, single]
    rfl
  case route =>
    rw [ecsIP_eq, single]
    rfl
  case cache =>
    rw [lruKeyFromQuery_eq, single]
    exact ⟨rfl, rfl⟩
  case dedup =>
    rw [dedupKey_eq, single]
    rfl

/-- Nothing but the client subnets and the flags is read from the EDNS0 data. -/
theorem sameDecisions_withSubnets (q : CacheQuery) :
    SameDecisions (q.withSubnets q.subnets) q := by
  constructor
  case blocklist =>
    intro r ci
    have same : r.clientIP (q.withSubnets q.subnets).msg ci = r.clientIP q.msg ci := by
      rw [clientIP_eq, clientIP_eq, CacheQuery.withSubnets_subnets]
    simp only [ClientBlocklist.resolve, same]
  case route =>
    intro r ci now
    have same : Route.ecsIP (q.withSubnets q.subnets).msg = Route.ecsIP q.msg := by
      rw [ecsIP_eq, ecsIP_eq, CacheQuery.withSubnets_subnets]
    have meets : r.meets (q.withSubnets q.subnets) ci now = r.meets q ci now := by
      unfold Route.meets
      rw [decide_eq_decide, same, CacheQuery.withSubnets_question]
    rw [Route.match_, Route.match_, meets]
  case cache =>
    rw [lruKeyFromQuery_eq_iff]
    exact ⟨sameRequest_withSubnets q _, by simp⟩
  case dedup => exact dedupKey_withSubnets rfl

/-- A blocklist with a single address, which goes by the client subnet. -/
def blocksOnly (ip : IP) : ClientBlocklist where
  blocklistDB := fun other => other = ip
  blocklistResolver := false
  useECS := true

theorem resolve_blocksOnly {ip : IP} (known : ip ≠ []) (q : CacheQuery) (ci : ClientInfo) :
    (blocksOnly ip).resolve q.msg ci = .refused ↔
      (q.subnets.head?.map Subnet.address).getD ci.sourceIP = ip := by
  have address : (blocksOnly ip).clientIP q.msg ci =
      (q.subnets.head?.map Subnet.address).getD ci.sourceIP := by
    rw [clientIP_eq]
    rfl
  unfold ClientBlocklist.resolve
  simp only [address]
  split
  · rename_i unknown
    rw [unknown]
    simp [Ne.symm known]
  · by_cases listed : (q.subnets.head?.map Subnet.address).getD ci.sourceIP = ip
    · simp [blocksOnly, listed]
    · simp [blocksOnly, listed]

/-- With several client subnets the first one decides who is blocked. -/
theorem decisions_differ {q : CacheQuery} {first second : Subnet} {rest : List Subnet}
    (several : q.subnets = first :: second :: rest) :
    ¬ SameDecisions
      (q.withSubnets ({ first with address := 0 :: first.address } :: second :: rest)) q := by
  intro same
  have known : (0 : Byte) :: first.address ≠ [] := List.cons_ne_nil _ _
  have decided := same.blocklist (blocksOnly (0 :: first.address)) ⟨[], [], [], []⟩
  have blocked := (resolve_blocksOnly known
    (q.withSubnets ({ first with address := 0 :: first.address } :: second :: rest))
    ⟨[], [], [], []⟩).mpr (by rw [CacheQuery.withSubnets_subnets]; rfl)
  have passes := (resolve_blocksOnly known q ⟨[], [], [], []⟩).mp (decided ▸ blocked)
  rw [several] at passes
  exact List.cons_ne_self 0 first.address passes.symm

/-- For every query and every order of its options: all four components act on the last client
subnet, and what stands in front of it changes no decision, exactly if the query has at most
one. -/
theorem lastCounts_iff (q : CacheQuery) : LastCounts q ↔ q.subnets.length ≤ 1 := by
  constructor
  · intro counts
    by_contra several
    match found : q.subnets with
    | [] => simp [found] at several
    | [_] => simp [found] at several
    | first :: second :: rest =>
      refine decisions_differ found (counts.unaffected _ ?_ ?_)
      · rw [found]
        rfl
      · rw [found]
        rfl
  · intro few
    constructor
    case last =>
      intro subnet last
      match found : q.subnets, few with
      | [], _ =>
        rw [found] at last
        cases last
      | [only], _ =>
        rw [found] at last
        cases last
        exact actsOn_of_single found
    case unaffected =>
      intro subnets sameLength sameLast
      have same : subnets = q.subnets := by
        match found : q.subnets, few with
        | [], _ => exact List.length_eq_zero_iff.mp (by rw [sameLength, found]; rfl)
        | [only], _ =>
          rw [found] at sameLength sameLast
          obtain ⟨other, rfl⟩ := List.length_eq_one_iff.mp sameLength
          cases sameLast
          rfl
      rw [same]
      exact sameDecisions_withSubnets q

/-! ## A client that puts its own subnet in front -/

/-- The subnets `203.0.113.7/32` and `198.51.100.0/24`. -/
def spoofedSubnet : Subnet where
  family := 1
  sourceNetmask := 32
  address := [203, 0, 113, 7]

def proxySubnet : Subnet where
  family := 1
  sourceNetmask := 24
  address := [198, 51, 100, 0]

/-- A blocked client passes with an option in front of the one of its proxy, and is merged with
other clients; a route and the cache go by the proxy. -/
theorem spoofed_subnet_in_front :
    (blocksOnly proxySubnet.address).resolve
        (plainQuery.withSubnets [proxySubnet]).msg ⟨[], [], [], []⟩ = .refused ∧
      (blocksOnly proxySubnet.address).resolve
        (plainQuery.withSubnets [spoofedSubnet, proxySubnet]).msg ⟨[], [], [], []⟩ = .allowed ∧
      dedupKey (plainQuery.withSubnets [spoofedSubnet, proxySubnet]) =
        dedupKey (plainQuery.withSubnets [spoofedSubnet]) ∧
      Route.ecsIP (plainQuery.withSubnets [spoofedSubnet, proxySubnet]).msg =
        proxySubnet.address ∧
      lruKeyFromQuery (plainQuery.withSubnets [spoofedSubnet, proxySubnet]) =
        lruKeyFromQuery (plainQuery.withSubnets [proxySubnet]) := by
  decide +kernel

/-! ## Behind a modifier that adds a subnet -/

theorem subnets_eq_options (q : CacheQuery) :
    q.subnets = ((Modifier.options q.msg).filter Modifier.isSubnet).filterMap asSubnet? := by
  have own : ∀ option,
      (if Modifier.isSubnet option then asSubnet? option else none) = asSubnet? option := by
    intro option
    cases option <;> rfl
  unfold CacheQuery.subnets Modifier.options
  cases q.msg.isEdns0 <;> simp [List.filterMap_filter, own]

variable (addr : Option IP) (prefix4 prefix6 : UInt8) (q : CacheQuery) (ci : ClientInfo)

/-- The query that is passed on. -/
def added : CacheQuery where
  msg := Modifier.ECSModifier.query ⟨Modifier.ecsModifierAdd addr prefix4 prefix6⟩ q.msg
    ⟨ci.sourceIP⟩
  asked := by
    simp only [Modifier.ECSModifier.query, Modifier.ecsModifierAdd]
    split <;> exact q.asked

/-- Whatever subnets a client sends, all components act on the one that was added. -/
theorem added_subnet_decides : ActsOn (added addr prefix4 prefix6 q ci)
    (Modifier.subnetFor (addr.getD ci.sourceIP) prefix4 prefix6) := by
  apply actsOn_of_single
  rw [subnets_eq_options]
  exact congrArg (List.filterMap asSubnet?) (Modifier.filter_options_add addr _ _ q.msg _)

end RouteDns.Router
