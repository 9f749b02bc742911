import RouteDns.Cache.Subnets

/-!
# Merging requests in flight

While a request is on its way, further requests with the same key wait for its answer.  The
key holds the address of the first client subnet as a number, in a field of its own for each
address family, and zeros where there is none.  The key of the cache holds the text of the
last one.
-/

namespace RouteDns.Dedup

open Dns Cidr Cache

/-- What requests in flight are told apart by. -/
structure DedupKey where
  name : Name
  qtype : UInt16
  qclass : UInt16
  dnssecOk : Bool
  cd : Bool
  ecsIPv4 : Nat
  ecsIPv6Hi : Nat
  ecsIPv6Lo : Nat
  ecsMask : UInt8
  deriving DecidableEq

/-- The 16 bytes of an address. -/
def to16 (ip : IP) : Option IP :=
  if ip.length = 4 then some (v4InV6Prefix ++ ip)
  else if ip.length = 16 then some ip
  else none

/-- The number of 4 bytes; the nil slice has length 0. -/
def byteToUint32 (b : IP) : Nat :=
  if b.length ≠ 4 then 0 else ofBigEndian b

/-- The high and the low half of 16 bytes. -/
def byteToUint128 (b : IP) : Nat × Nat :=
  if b.length ≠ 16 then (0, 0)
  else (ofBigEndian (b.take 8), ofBigEndian (b.drop 8))

/-- The numbers of the key that come from the client subnets. -/
structure EcsPart where
  ipv4 : Nat
  ipv6Hi : Nat
  ipv6Lo : Nat
  mask : UInt8
  deriving DecidableEq

/-- The variables before the options are looked at. -/
def EcsPart.zero : EcsPart where
  ipv4 := 0
  ipv6Hi := 0
  ipv6Lo := 0
  mask := 0

/-- What a client subnet sets, by its address family. -/
def ecsOf (ecs : Subnet) : EcsPart :=
  if ecs.family = 1 then
    { EcsPart.zero with
      ipv4 := byteToUint32 ((to4 ecs.address).getD []), mask := ecs.sourceNetmask }
  else if ecs.family = 2 then
    let (hi, lo) := byteToUint128 ((to16 ecs.address).getD [])
    { EcsPart.zero with ipv6Hi := hi, ipv6Lo := lo, mask := ecs.sourceNetmask }
  else EcsPart.zero

/-- The loop over the options, which ends at the first client subnet. -/
def findEcs : List EdnsOption → EcsPart
  | [] => EcsPart.zero
  | .subnet ecs :: _ => ecsOf ecs
  | _ :: rest => findEcs rest

/-- The key of a request. -/
def dedupKey (q : CacheQuery) : DedupKey :=
  let (dnssecOk, ecs) :=
    match q.msg.isEdns0 with
    | none => (false, EcsPart.zero)
    | some edns0 => (edns0.dnssecOk, findEcs edns0.options)
  { name := toLower q.question.name
    qtype := q.question.qtype
    qclass := q.question.qclass
    dnssecOk := dnssecOk
    cd := q.msg.checkingDisabled
    ecsIPv4 := ecs.ipv4
    ecsIPv6Hi := ecs.ipv6Hi
    ecsIPv6Lo := ecs.ipv6Lo
    ecsMask := ecs.mask }

/-! ## The key and the client subnets -/

/-- What the key takes from the client subnets: the numbers of the first. -/
def firstEcs (subnets : List Subnet) : EcsPart :=
  match subnets.head? with
  | none => EcsPart.zero
  | some subnet => ecsOf subnet

theorem findEcs_eq (options : List EdnsOption) :
    findEcs options = firstEcs (options.filterMap asSubnet?) := by
  induction options with
  | nil => rfl
  | cons option rest ih =>
    cases option with
    | subnet subnet => rfl
    | padding padding => exact ih
    | other code data => exact ih

theorem dedupKey_eq (q : CacheQuery) : dedupKey q =
    { name := toLower q.question.name
      qtype := q.question.qtype
      qclass := q.question.qclass
      dnssecOk := q.dnssecOk
      cd := q.msg.checkingDisabled
      ecsIPv4 := (firstEcs q.subnets).ipv4
      ecsIPv6Hi := (firstEcs q.subnets).ipv6Hi
      ecsIPv6Lo := (firstEcs q.subnets).ipv6Lo
      ecsMask := (firstEcs q.subnets).mask } := by
  unfold dedupKey CacheQuery.subnets CacheQuery.dnssecOk
  cases q.msg.isEdns0 with
  | none => rfl
  | some edns0 => simp only [findEcs_eq]

theorem dedupKey_eq_iff (first second : CacheQuery) :
    dedupKey first = dedupKey second ↔
      SameRequest first second ∧ firstEcs first.subnets = firstEcs second.subnets := by
  have parts (left right : EcsPart) : left = right ↔ left.ipv4 = right.ipv4 ∧
      left.ipv6Hi = right.ipv6Hi ∧ left.ipv6Lo = right.ipv6Lo ∧ left.mask = right.mask := by
    cases left
    cases right
    simp
  rw [dedupKey_eq, dedupKey_eq, parts]
  simp only [DedupKey.mk.injEq]
  constructor
  · rintro ⟨name, qtype, qclass, dnssecOk, cd, ecs⟩
    exact ⟨⟨name, qtype, qclass, dnssecOk, cd⟩, ecs⟩
  · rintro ⟨same, ecs⟩
    exact ⟨same.name, same.qtype, same.qclass, same.dnssecOk, same.cd, ecs⟩

/-! ## What the numbers tell -/

/-- The address of no host, in each family. -/
def zero4 : IP := List.replicate 4 0

def zero16 : IP := List.replicate 16 0

/-- The address of a client subnet, if it belongs to its family and is not the zero address. -/
def toldAddress (subnet : Subnet) : Option IP :=
  if subnet.family = 1 then (to4 subnet.address).filter fun ip => ip ≠ zero4
  else if subnet.family = 2 then (to16 subnet.address).filter fun ip => ip ≠ zero16
  else none

/-- The mask of a client subnet, if it has a family. -/
def toldMask (subnet : Subnet) : UInt8 :=
  if subnet.family = 1 ∨ subnet.family = 2 then subnet.sourceNetmask else 0

/-- What the key for merging tells of client subnets: the first one's address and mask. -/
def told (subnets : List Subnet) : Option IP × UInt8 :=
  match subnets.head? with
  | none => (none, 0)
  | some subnet => (toldAddress subnet, toldMask subnet)

/-- The numbers of an address and a mask. -/
def numbers (ip : Option IP) (mask : UInt8) : EcsPart where
  ipv4 := byteToUint32 (ip.getD [])
  ipv6Hi := (byteToUint128 (ip.getD [])).1
  ipv6Lo := (byteToUint128 (ip.getD [])).2
  mask := mask

/-- The address that has the numbers. -/
def EcsPart.address (part : EcsPart) : Option IP :=
  if part.ipv4 ≠ 0 then some (bigEndian 4 part.ipv4)
  else if part.ipv6Hi ≠ 0 ∨ part.ipv6Lo ≠ 0 then
    some (bigEndian 8 part.ipv6Hi ++ bigEndian 8 part.ipv6Lo)
  else none

theorem length_of_to16 {ip ip16 : IP} (sixteen : to16 ip = some ip16) : ip16.length = 16 := by
  unfold to16 at sixteen
  split at sixteen
  · rename_i short
    cases sixteen
    rw [List.length_append, short]
    rfl
  · split at sixteen
    · rename_i long
      cases sixteen
      exact long
    · cases sixteen

/-- The numbers of a client subnet are those of what it tells. -/
theorem ecsOf_eq_numbers (subnet : Subnet) :
    ecsOf subnet = numbers (toldAddress subnet) (toldMask subnet) := by
  by_cases four : subnet.family = 1
  · rw [toldAddress, if_pos four, toldMask, if_pos (.inl four), ecsOf, if_pos four]
    cases found : to4 subnet.address with
    | none => rfl
    | some ip =>
      by_cases zero : ip = zero4
      · rw [zero]
        rfl
      · simp [Option.filter, zero, numbers, byteToUint128, length_of_to4 found, EcsPart.zero]
  · by_cases sixteen : subnet.family = 2
    · rw [toldAddress, if_neg four, if_pos sixteen, toldMask, if_pos (.inr sixteen), ecsOf,
        if_neg four, if_pos sixteen]
      cases found : to16 subnet.address with
      | none => rfl
      | some ip =>
        by_cases zero : ip = zero16
        · rw [zero]
          rfl
        · simp [Option.filter, zero, numbers, byteToUint32, length_of_to16 found, EcsPart.zero]
    · rw [toldAddress, if_neg four, if_neg sixteen, toldMask,
        if_neg (not_or.mpr ⟨four, sixteen⟩), ecsOf, if_neg four, if_neg sixteen]
      rfl

theorem address_numbers_four {ip : IP} (mask : UInt8) (length : ip.length = 4)
    (nonzero : ip ≠ zero4) : (numbers (some ip) mask).address = some ip := by
  have number : (numbers (some ip) mask).ipv4 = ofBigEndian ip := if_neg (not_not.mpr length)
  have set : ofBigEndian ip ≠ 0 := fun zero =>
    nonzero (ofBigEndian_inj (length : _ = zero4.length) zero)
  rw [EcsPart.address, number, if_pos set, ← length, bigEndian_ofBigEndian]

theorem address_numbers_sixteen {ip : IP} (mask : UInt8) (length : ip.length = 16)
    (nonzero : ip ≠ zero16) : (numbers (some ip) mask).address = some ip := by
  have halves : byteToUint128 ip = (ofBigEndian (ip.take 8), ofBigEndian (ip.drop 8)) :=
    if_neg (not_not.mpr length)
  have low : (ip.take 8).length = 8 := by rw [List.length_take, length]; rfl
  have high : (ip.drop 8).length = 8 := by rw [List.length_drop, length]
  have unset : (numbers (some ip) mask).ipv4 = 0 :=
    if_pos (by rw [Option.getD_some, length]; decide)
  have set : ofBigEndian (ip.take 8) ≠ 0 ∨ ofBigEndian (ip.drop 8) ≠ 0 := by
    by_contra! zero
    apply nonzero
    have front : ip.take 8 = List.replicate 8 0 := ofBigEndian_inj low zero.1
    have back : ip.drop 8 = List.replicate 8 0 := ofBigEndian_inj high zero.2
    rw [← List.take_append_drop 8 ip, front, back]
    rfl
  rw [EcsPart.address, unset, if_neg (not_not.mpr rfl)]
  simp only [numbers, Option.getD_some, halves, if_pos set]
  have front := bigEndian_ofBigEndian (ip.take 8)
  have back := bigEndian_ofBigEndian (ip.drop 8)
  rw [low] at front
  rw [high] at back
  rw [front, back, List.take_append_drop]

/-- What a client subnet tells can be read off its numbers. -/
theorem address_ecsOf (subnet : Subnet) : (ecsOf subnet).address = toldAddress subnet := by
  rw [ecsOf_eq_numbers]
  cases address : toldAddress subnet with
  | none => rfl
  | some ip =>
    unfold toldAddress at address
    split at address
    · obtain ⟨found, nonzero⟩ := Option.filter_eq_some_iff.mp address
      exact address_numbers_four _ (length_of_to4 found) (of_decide_eq_true nonzero)
    · split at address
      · obtain ⟨found, nonzero⟩ := Option.filter_eq_some_iff.mp address
        exact address_numbers_sixteen _ (length_of_to16 found) (of_decide_eq_true nonzero)
      · cases address

theorem firstEcs_eq_iff (first second : List Subnet) :
    firstEcs first = firstEcs second ↔ told first = told second := by
  have toTold (subnets : List Subnet) :
      told subnets = ((firstEcs subnets).address, (firstEcs subnets).mask) := by
    unfold told firstEcs
    cases subnets.head? with
    | none => rfl
    | some subnet =>
      dsimp only
      rw [address_ecsOf, ecsOf_eq_numbers]
      rfl
  have toNumbers (subnets : List Subnet) :
      firstEcs subnets = numbers (told subnets).1 (told subnets).2 := by
    unfold told firstEcs
    cases subnets.head? with
    | none => rfl
    | some subnet => exact ecsOf_eq_numbers subnet
  constructor
  · intro same
    rw [toTold, toTold, same]
  · intro same
    rw [toNumbers, toNumbers, same]

/-- Queries that differ in client subnets only have one key for merging if the first ones have
the same numbers. -/
theorem dedupKey_withSubnets {q : CacheQuery} {subnets : List Subnet}
    (same : firstEcs subnets = firstEcs q.subnets) :
    dedupKey (q.withSubnets subnets) = dedupKey q := by
  rw [dedupKey_eq_iff]
  exact ⟨sameRequest_withSubnets q subnets, by simp [same]⟩

/-- Two queries are merged only if the cache does not keep them apart, exactly if they differ in
the question, the flags or what is told of their first client subnets, or agree in the text of
their last ones. -/
theorem dedup_agrees_iff (first second : CacheQuery) :
    (dedupKey first = dedupKey second → lruKeyFromQuery first = lruKeyFromQuery second) ↔
      ¬ SameRequest first second ∨ told first.subnets ≠ told second.subnets ∨
        CacheQuery.lastNet first.subnets = CacheQuery.lastNet second.subnets := by
  rw [dedupKey_eq_iff, firstEcs_eq_iff, lruKeyFromQuery_eq_iff]
  tauto

/-- A client that wants no part of its address passed on sends a subnet of length 0.  Its
query is merged with one that carries none, which the cache keeps apart. -/
theorem zero_length_subnet_merged :
    dedupKey plainQuery =
        dedupKey (plainQuery.withSubnets [{ family := 1, sourceNetmask := 0, address := zero4 }]) ∧
      lruKeyFromQuery plainQuery ≠
        lruKeyFromQuery
          (plainQuery.withSubnets [{ family := 1, sourceNetmask := 0, address := zero4 }]) := by
  decide +kernel

end RouteDns.Dedup
