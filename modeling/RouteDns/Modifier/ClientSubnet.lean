import Mathlib.Data.List.Forall2
import RouteDns.Cidr.Net
import RouteDns.Dns.Message

/-!
# Client subnets

A modifier changes the client subnets in the EDNS0 record of a query before the query is passed
on: it deletes them, adds one, or restricts their addresses to a number of bits.

Restricting replaces the announced length by the configured one.  An option that announced
fewer bits then announces more than the client did, with zeros that the client never sent.
-/

namespace RouteDns.Modifier

open Dns Cidr

/-- What a listener knows about the sender of a query. -/
structure ClientInfo where
  sourceIP : IP

abbrev ECSModifierFunc := Message → ClientInfo → Message

/-- `ip.Mask(net.CIDRMask(ones, bits))`; there is no mask with more ones than bits. -/
def maskTo (ip : IP) (ones : UInt8) (bits : Nat) : IP :=
  if ones.toNat ≤ bits then maskIP ip ones.toNat bits else []

def isSubnet : EdnsOption → Bool
  | .subnet _ => true
  | _ => false

/-- Rewrite the options of the EDNS0 record, if there is one. -/
def updateOptions (update : List EdnsOption → List EdnsOption) (q : Message) : Message :=
  { q with
    extra := Message.updateLastOPT (fun opt => { opt with options := update opt.options }) q.extra }

def ecsModifierDelete : ECSModifierFunc := fun q _ =>
  updateOptions (List.filter fun option => !isSubnet option) q

/-- The subnet of an address. -/
def subnetFor (sourceIP : IP) (prefix4 prefix6 : UInt8) : Subnet :=
  match to4 sourceIP with
  | some ip4 => { family := 1, sourceNetmask := prefix4, address := maskTo ip4 prefix4 32 }
  | none => { family := 2, sourceNetmask := prefix6, address := maskTo sourceIP prefix6 128 }

def ecsModifierAdd (addr : Option IP) (prefix4 prefix6 : UInt8) : ECSModifierFunc := fun q ci =>
  let q := ecsModifierDelete q ci
  let ecs := subnetFor (addr.getD ci.sourceIP) prefix4 prefix6
  let q := if q.isEdns0.isNone then q.setEdns0 4096 false else q
  updateOptions (fun options => options ++ [.subnet ecs]) q

def ecsModifierAddIfMissing (addr : Option IP) (prefix4 prefix6 : UInt8) : ECSModifierFunc :=
  fun q ci =>
    if q.isEdns0.any fun opt => opt.options.any isSubnet then q
    else ecsModifierAdd addr prefix4 prefix6 q ci

/-- Restrict a subnet to the configured number of bits of its family. -/
def restrict (prefix4 prefix6 : UInt8) (ecs : Subnet) : Subnet :=
  if ecs.family = 1 then
    { ecs with
      address := maskTo ((to4 ecs.address).getD []) prefix4 32
      sourceNetmask := prefix4 }
  else if ecs.family = 2 then
    { ecs with
      address := maskTo ecs.address prefix6 128
      sourceNetmask := prefix6 }
  else
    ecs

def restrictOption (prefix4 prefix6 : UInt8) : EdnsOption → EdnsOption
  | .subnet ecs => .subnet (restrict prefix4 prefix6 ecs)
  | option => option

def ecsModifierPrivacy (prefix4 prefix6 : UInt8) : ECSModifierFunc := fun q _ =>
  updateOptions (List.map (restrictOption prefix4 prefix6)) q

/-- A resolver that modifies queries; without an operation it does nothing. -/
structure ECSModifier where
  modifier : Option ECSModifierFunc

namespace ECSModifier

/-- The query that is passed on; the caller's own is not touched. -/
def query (r : ECSModifier) (q : Message) (ci : ClientInfo) : Message :=
  match r.modifier with
  | some modifier => modifier q ci
  | none => q

def resolve {Result : Type} (r : ECSModifier) (resolver : Message → ClientInfo → Result)
    (q : Message) (ci : ClientInfo) : Result :=
  resolver (r.query q ci) ci

end ECSModifier

/-! ## The options of a message -/

/-- The options of all EDNS0 records of a message.  A proper message has one such record; the
modifiers work on the last. -/
def allOptions (q : Message) : List EdnsOption :=
  (q.extra.filterMap Record.asOPT?).flatMap OPT.options

/-- The options of the EDNS0 record. -/
def options (q : Message) : List EdnsOption :=
  q.isEdns0.elim [] OPT.options

/-- The options of records before it. -/
def earlierOptions (q : Message) : List EdnsOption :=
  (q.extra.filterMap Record.asOPT?).dropLast.flatMap OPT.options

theorem allOptions_eq (q : Message) : allOptions q = earlierOptions q ++ options q := by
  unfold allOptions earlierOptions options Message.isEdns0
  cases last : (q.extra.filterMap Record.asOPT?).getLast? with
  | none => simp [List.getLast?_eq_none_iff.mp last]
  | some opt =>
    obtain ⟨front, split⟩ := List.getLast?_eq_some_iff.mp last
    simp [split]

/-- Only the EDNS0 record is rewritten. -/
theorem allOptions_updateOptions {update : List EdnsOption → List EdnsOption}
    (update_nil : update [] = []) (q : Message) :
    allOptions (updateOptions update q) = earlierOptions q ++ update (options q) := by
  unfold allOptions earlierOptions options Message.isEdns0
  rw [updateOptions, Message.filterMap_updateLastOPT, List.flatMap_append]
  congr 1
  cases last : (q.extra.filterMap Record.asOPT?).getLast? with
  | none => simp [update_nil]
  | some opt => simp

theorem options_updateOptions (update : List EdnsOption → List EdnsOption) {q : Message}
    (hasEdns0 : q.isEdns0.isSome = true) :
    options (updateOptions update q) = update (options q) := by
  obtain ⟨opt, found⟩ := Option.isSome_iff_exists.mp hasEdns0
  rw [options, updateOptions, Message.isEdns0_updateLastOPT, options, found]
  rfl

theorem filter_options_delete (q : Message) (ci : ClientInfo) :
    (options (ecsModifierDelete q ci)).filter isSubnet = [] := by
  rw [List.filter_eq_nil_iff]
  intro option member
  rw [options, ecsModifierDelete, updateOptions, Message.isEdns0_updateLastOPT] at member
  cases found : q.isEdns0 with
  | none => simp [found] at member
  | some opt =>
    rw [found] at member
    simpa using (List.mem_filter.mp member).2

/-- Whatever subnets a query had, it is passed on with the added one alone. -/
theorem filter_options_add (addr : Option IP) (prefix4 prefix6 : UInt8) (q : Message)
    (ci : ClientInfo) :
    (options (ecsModifierAdd addr prefix4 prefix6 q ci)).filter isSubnet =
      [.subnet (subnetFor (addr.getD ci.sourceIP) prefix4 prefix6)] := by
  simp only [ecsModifierAdd]
  split
  · obtain ⟨opt, found, empty⟩ := (ecsModifierDelete q ci).isEdns0_setEdns0 4096 false
    rw [options_updateOptions _ (by rw [found]; rfl), options, found, Option.elim_some, empty]
    rfl
  · rename_i present
    rw [Option.isNone_iff_eq_none] at present
    rw [options_updateOptions _ (Option.isSome_iff_ne_none.mpr present), List.filter_append,
      filter_options_delete]
    rfl

/-! ## Restricted subnets -/

/-- A subnet of IPv4, with the four bytes of its address. -/
def IsIPv4 (ecs : Subnet) (ip : IP) : Prop :=
  ecs.family = 1 ∧ to4 ecs.address = some ip

/-- A subnet of IPv6. -/
def IsIPv6 (ecs : Subnet) : Prop :=
  ecs.family = 2 ∧ ecs.address.length = 16

/-- The bits with those beyond a count cleared. -/
def clearBeyond (count : Nat) (bits : List Bool) : List Bool :=
  bits.take count ++ List.replicate (bits.length - count) false

/-- The bits a subnet may keep: as many as it had, and no more than configured. -/
def bitsKept (ecs : Subnet) (configured : UInt8) : Nat :=
  min ecs.sourceNetmask.toNat configured.toNat

/-- The second subnet is the first one restricted to the configured number of bits. -/
structure Restricted (prefix4 prefix6 : UInt8) (before after : Subnet) : Prop where
  family : after.family = before.family
  ip4 : ∀ ip, IsIPv4 before ip →
    after.sourceNetmask.toNat = bitsKept before prefix4 ∧
      ∃ kept, to4 after.address = some kept ∧
        bitsOf kept = clearBeyond (bitsKept before prefix4) (bitsOf ip)
  ip6 : IsIPv6 before →
    after.sourceNetmask.toNat = bitsKept before prefix6 ∧
      bitsOf after.address = clearBeyond (bitsKept before prefix6) (bitsOf before.address)

/-- The same for an option; other options stay as they are. -/
def RestrictedOption (prefix4 prefix6 : UInt8) : EdnsOption → EdnsOption → Prop
  | .subnet before, after => ∃ ecs, after = .subnet ecs ∧ Restricted prefix4 prefix6 before ecs
  | before, after => after = before

/-- The configured number of bits fits the family, and the subnet has no fewer. -/
structure LongEnough (prefix4 prefix6 : UInt8) (ecs : Subnet) : Prop where
  ip4 : ∀ ip, IsIPv4 ecs ip → prefix4.toNat ≤ 32 ∧ prefix4.toNat ≤ ecs.sourceNetmask.toNat
  ip6 : IsIPv6 ecs → prefix6.toNat ≤ 128 ∧ prefix6.toNat ≤ ecs.sourceNetmask.toNat

/-- The subnet has no more than the configured number of bits, and no bit set beyond them. -/
structure WithinLimit (prefix4 prefix6 : UInt8) (ecs : Subnet) : Prop where
  ip4 : ∀ ip, IsIPv4 ecs ip → ecs.sourceNetmask.toNat ≤ prefix4.toNat ∧
    bitsOf ip = clearBeyond ecs.sourceNetmask.toNat (bitsOf ip)
  ip6 : IsIPv6 ecs → ecs.sourceNetmask.toNat ≤ prefix6.toNat ∧
    bitsOf ecs.address = clearBeyond ecs.sourceNetmask.toNat (bitsOf ecs.address)

theorem bitsOf_andMask_eq (ip : IP) (ones : Nat) :
    bitsOf (andMask ip ones) = clearBeyond ones (bitsOf ip) := by
  rw [bitsOf_andMask, clearBeyond, length_bitsOf]

theorem length_clearBeyond (count : Nat) (bits : List Bool) :
    (clearBeyond count bits).length = bits.length := by
  simp only [clearBeyond, List.length_append, List.length_take, List.length_replicate]
  omega

variable {bits : Nat} {ip : IP} {ones : UInt8}

/-- A mask of the size of the address is applied to all of it. -/
theorem maskTo_of_length (size : ip.length * 8 = bits) (fits : ones.toNat ≤ bits) :
    maskTo ip ones bits = andMask ip ones.toNat := by
  have sameSize : ¬ (bits = 128 ∧ ip.length = 4 ∧ 96 ≤ ones.toNat) := by omega
  have sameFamily : ¬ (bits = 32 ∧ ip.length = 16 ∧ ip.take 12 = v4InV6Prefix) := by omega
  rw [maskTo, if_pos fits, maskIP]
  simp only [if_neg sameSize, if_neg sameFamily, if_pos size]

theorem maskTo_of_exceeds (exceeds : ¬ ones.toNat ≤ bits) (ip : IP) : maskTo ip ones bits = [] :=
  if_neg exceeds

section Restrict

variable {prefix4 prefix6 : UInt8} {ecs : Subnet}

theorem restrict_of_isIPv4 (isIPv4 : IsIPv4 ecs ip) :
    restrict prefix4 prefix6 ecs =
      { ecs with address := maskTo ip prefix4 32, sourceNetmask := prefix4 } := by
  rw [restrict, if_pos isIPv4.1, isIPv4.2, Option.getD_some]

theorem restrict_of_isIPv6 (isIPv6 : IsIPv6 ecs) :
    restrict prefix4 prefix6 ecs =
      { ecs with address := maskTo ecs.address prefix6 128, sourceNetmask := prefix6 } := by
  have other : ecs.family ≠ 1 := by
    rw [isIPv6.1]
    decide
  rw [restrict, if_neg other, if_pos isIPv6.1]

theorem restrict_family : (restrict prefix4 prefix6 ecs).family = ecs.family := by
  unfold restrict
  split
  · rfl
  · split <;> rfl

theorem bitsKept_eq_iff {configured : UInt8} :
    configured.toNat = bitsKept ecs configured ↔ configured.toNat ≤ ecs.sourceNetmask.toNat := by
  rw [bitsKept]
  omega

theorem restrict_ip4_iff (isIPv4 : IsIPv4 ecs ip) :
    ((restrict prefix4 prefix6 ecs).sourceNetmask.toNat = bitsKept ecs prefix4 ∧
      ∃ kept, to4 (restrict prefix4 prefix6 ecs).address = some kept ∧
        bitsOf kept = clearBeyond (bitsKept ecs prefix4) (bitsOf ip)) ↔
      prefix4.toNat ≤ 32 ∧ prefix4.toNat ≤ ecs.sourceNetmask.toNat := by
  rw [restrict_of_isIPv4 isIPv4]
  constructor
  · rintro ⟨length_eq, kept, four, _⟩
    refine ⟨?_, bitsKept_eq_iff.mp length_eq⟩
    by_contra exceeds
    rw [maskTo_of_exceeds exceeds] at four
    cases four
  · rintro ⟨fits, shorter⟩
    have four := length_of_to4 isIPv4.2
    have size : ip.length * 8 = 32 := by rw [four]
    rw [← bitsKept_eq_iff.mpr shorter, maskTo_of_length size fits]
    exact ⟨rfl, _, to4_four (by rwa [length_andMask]), bitsOf_andMask_eq _ _⟩

theorem restrict_ip6_iff (isIPv6 : IsIPv6 ecs) :
    ((restrict prefix4 prefix6 ecs).sourceNetmask.toNat = bitsKept ecs prefix6 ∧
      bitsOf (restrict prefix4 prefix6 ecs).address =
        clearBeyond (bitsKept ecs prefix6) (bitsOf ecs.address)) ↔
      prefix6.toNat ≤ 128 ∧ prefix6.toNat ≤ ecs.sourceNetmask.toNat := by
  rw [restrict_of_isIPv6 isIPv6]
  constructor
  · rintro ⟨length_eq, bits_eq⟩
    refine ⟨?_, bitsKept_eq_iff.mp length_eq⟩
    by_contra exceeds
    rw [maskTo_of_exceeds exceeds] at bits_eq
    have sizes := congrArg List.length bits_eq
    rw [length_clearBeyond, length_bitsOf, length_bitsOf, isIPv6.2] at sizes
    cases sizes
  · rintro ⟨fits, shorter⟩
    have size : ecs.address.length * 8 = 128 := by rw [isIPv6.2]
    rw [← bitsKept_eq_iff.mpr shorter, maskTo_of_length size fits]
    exact ⟨rfl, bitsOf_andMask_eq _ _⟩

/-- The configured length is announced in any case, so it has to be the smaller one; beyond the
size of an address there is no mask and the address is lost. -/
theorem restricted_restrict_iff :
    Restricted prefix4 prefix6 ecs (restrict prefix4 prefix6 ecs) ↔
      LongEnough prefix4 prefix6 ecs := by
  constructor
  · intro restricted
    exact ⟨fun ip isIPv4 => (restrict_ip4_iff isIPv4).mp (restricted.ip4 ip isIPv4),
      fun isIPv6 => (restrict_ip6_iff isIPv6).mp (restricted.ip6 isIPv6)⟩
  · intro enough
    exact ⟨restrict_family, fun ip isIPv4 => (restrict_ip4_iff isIPv4).mpr (enough.ip4 ip isIPv4),
      fun isIPv6 => (restrict_ip6_iff isIPv6).mpr (enough.ip6 isIPv6)⟩

/-- A subnet that is left alone has to be restricted already. -/
theorem restricted_self_iff :
    Restricted prefix4 prefix6 ecs ecs ↔ WithinLimit prefix4 prefix6 ecs := by
  have kept_iff : ∀ configured : UInt8, ecs.sourceNetmask.toNat = bitsKept ecs configured ↔
      ecs.sourceNetmask.toNat ≤ configured.toNat := by
    intro configured
    rw [bitsKept]
    omega
  constructor
  · intro restricted
    refine ⟨fun ip isIPv4 => ?_, fun isIPv6 => ?_⟩
    · obtain ⟨length_eq, kept, four, bits_eq⟩ := restricted.ip4 ip isIPv4
      obtain rfl : ip = kept := Option.some.inj (isIPv4.2.symm.trans four)
      rw [← length_eq] at bits_eq
      exact ⟨(kept_iff prefix4).mp length_eq, bits_eq⟩
    · obtain ⟨length_eq, bits_eq⟩ := restricted.ip6 isIPv6
      rw [← length_eq] at bits_eq
      exact ⟨(kept_iff prefix6).mp length_eq, bits_eq⟩
  · intro within
    refine ⟨rfl, fun ip isIPv4 => ?_, fun isIPv6 => ?_⟩
    · obtain ⟨short, bits_eq⟩ := within.ip4 ip isIPv4
      rw [← (kept_iff prefix4).mpr short]
      exact ⟨rfl, ip, isIPv4.2, bits_eq⟩
    · obtain ⟨short, bits_eq⟩ := within.ip6 isIPv6
      rw [← (kept_iff prefix6).mpr short]
      exact ⟨rfl, bits_eq⟩

end Restrict

/-! ## Restricted queries -/

theorem forall₂_append_map {α : Type} {relates : α → α → Prop} (front back : List α) (f : α → α) :
    List.Forall₂ relates (front ++ back) (front ++ back.map f) ↔
      (∀ entry ∈ front, relates entry entry) ∧ ∀ entry ∈ back, relates entry (f entry) := by
  induction front with
  | nil => simp [List.forall₂_map_right_iff, List.forall₂_same]
  | cons entry front ih => simp [ih, and_assoc]

theorem restrictedOption_restrict_iff {prefix4 prefix6 : UInt8} (option : EdnsOption) :
    RestrictedOption prefix4 prefix6 option (restrictOption prefix4 prefix6 option) ↔
      ∀ ecs, option = .subnet ecs → LongEnough prefix4 prefix6 ecs := by
  cases option with
  | subnet ecs => simp [RestrictedOption, restrictOption, restricted_restrict_iff]
  | padding padding | other code data => simp [RestrictedOption, restrictOption]

theorem restrictedOption_self_iff {prefix4 prefix6 : UInt8} (option : EdnsOption) :
    RestrictedOption prefix4 prefix6 option option ↔
      ∀ ecs, option = .subnet ecs → WithinLimit prefix4 prefix6 ecs := by
  cases option with
  | subnet ecs => simp [RestrictedOption, restricted_self_iff]
  | padding padding | other code data => simp [RestrictedOption]

theorem forall_subnet_iff {P : Subnet → Prop} (options : List EdnsOption) :
    (∀ option ∈ options, ∀ ecs, option = .subnet ecs → P ecs) ↔
      ∀ ecs, .subnet ecs ∈ options → P ecs := by
  constructor
  · exact fun all ecs member => all _ member ecs rfl
  · rintro all _ member ecs rfl
    exact all ecs member

/-- In the query that is passed on every subnet announces the smaller of its own and the
configured number of bits, with no other bit set, exactly if the configured number is not the
larger one and fits the family.  Subnets outside the EDNS0 record are not touched, so they have
to be restricted already. -/
theorem privacy_restricts_iff (prefix4 prefix6 : UInt8) (q : Message) (ci : ClientInfo) :
    List.Forall₂ (RestrictedOption prefix4 prefix6) (allOptions q)
        (allOptions (ECSModifier.query ⟨some (ecsModifierPrivacy prefix4 prefix6)⟩ q ci)) ↔
      (∀ ecs, .subnet ecs ∈ options q → LongEnough prefix4 prefix6 ecs) ∧
        ∀ ecs, .subnet ecs ∈ earlierOptions q → WithinLimit prefix4 prefix6 ecs := by
  have passed : allOptions (ECSModifier.query ⟨some (ecsModifierPrivacy prefix4 prefix6)⟩ q ci) =
      earlierOptions q ++ (options q).map (restrictOption prefix4 prefix6) :=
    allOptions_updateOptions rfl q
  rw [passed, allOptions_eq, forall₂_append_map, and_comm]
  simp only [restrictedOption_restrict_iff, restrictedOption_self_iff, forall_subnet_iff]

/-- A query with one subnet, 10.1.0.0/16. -/
def subnetQuery : Message :=
  { Message.empty with
    extra := [.opt
      { hdr := { owner := .top, rrtype := typeOPT, rrclass := 1232, ttl := 0 }
        options := [.subnet
          { family := 1, sourceNetmask := 16, address := v4InV6Prefix ++ [10, 1, 0, 0] }] }] }

/-- Restricted to 24 bits, the subnet announces 24 bits. -/
theorem privacy_announces_more :
    let passed := ECSModifier.query ⟨some (ecsModifierPrivacy 24 56)⟩ subnetQuery ⟨[]⟩
    allOptions passed =
        [.subnet { family := 1, sourceNetmask := 24, address := [10, 1, 0, 0] }] ∧
      ¬ List.Forall₂ (RestrictedOption 24 56) (allOptions subnetQuery) (allOptions passed) := by
  have passed : allOptions
      (ECSModifier.query ⟨some (ecsModifierPrivacy 24 56)⟩ subnetQuery ⟨[]⟩) =
        [.subnet { family := 1, sourceNetmask := 24, address := [10, 1, 0, 0] }] := by
    decide +kernel
  refine ⟨passed, ?_⟩
  intro all
  obtain ⟨⟨ecs, same, restricted⟩, _⟩ := List.forall₂_cons.mp all
  cases same
  have length_eq := (restricted.ip4 [10, 1, 0, 0] ⟨rfl, by decide⟩).1
  revert length_eq
  decide

end RouteDns.Modifier
