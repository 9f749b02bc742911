import RouteDns.Dns.Name

/-!
# Addresses and networks

The parts of Go's package `net` that lists of networks rest on.  An IPv4 address has two
representations, of 4 and of 16 bytes, and the functions of the package take one for the
other in places.  Every mask is made by `CIDRMask`, so a mask is given by its number of ones
and its size in bits.

A network contains an address if they agree in as many bits as the mask has ones.
-/

namespace RouteDns.Cidr

open Dns

/-- An address: 4 or 16 bytes. -/
abbrev IP := List Byte

/-- What the 16 bytes of an IPv4 address start with. -/
def v4InV6Prefix : IP :=
  [0, 0, 0, 0, 0, 0, 0, 0, 0, 0, 255, 255]

/-- The 4 bytes of an IPv4 address. -/
def to4 (ip : IP) : Option IP :=
  if ip.length = 4 then some ip
  else if ip.length = 16 ∧ ip.take 12 = v4InV6Prefix then some (ip.drop 12)
  else none

/-- A byte of a mask that has some ones left. -/
def maskByte (ones : Nat) : Byte :=
  Fin.ofNat 256 (256 - 2 ^ (8 - ones))

/-- The bytes of a mask. -/
def cidrMask : (ones length : Nat) → List Byte
  | _, 0 => []
  | ones, length + 1 => maskByte ones :: cidrMask (ones - 8) length

/-- The bitwise conjunction of an address with a mask of its size. -/
def andMask (ip : IP) (ones : Nat) : IP :=
  List.zipWith (· &&& ·) ip (cidrMask ones ip.length)

/-- Apply a mask to an address; one of them may be cut down to IPv4 for it. -/
def maskIP (ip : IP) (ones bits : Nat) : IP :=
  let (ones, bits) :=
    if bits = 128 ∧ ip.length = 4 ∧ 96 ≤ ones then (ones - 96, 32) else (ones, bits)
  let ip := if bits = 32 ∧ ip.length = 16 ∧ ip.take 12 = v4InV6Prefix then ip.drop 12 else ip
  if ip.length * 8 = bits then andMask ip ones else []

/-- A network, as the address and the mask of its struct. -/
structure IPNet where
  ip : IP
  ones : Nat
  bits : Nat
  deriving DecidableEq

namespace IPNet

/-- The address of a network in its shortest form, with the ones of the mask for it. -/
def networkNumberAndMask (network : IPNet) : Option (IP × Nat) :=
  match to4 network.ip with
  | some ip =>
    if network.bits = 32 then some (ip, network.ones)
    else if network.bits = 128 then some (ip, network.ones - 96)
    else none
  | none =>
    if network.ip.length = 16 ∧ network.bits = 128 then some (network.ip, network.ones)
    else none

def contains (network : IPNet) (ip : IP) : Bool :=
  let ip := (to4 ip).getD ip
  match network.networkNumberAndMask with
  | none => ip = []
  | some (number, ones) => ip.length = number.length && andMask number ones = andMask ip ones

end IPNet

/-- What `ParseCIDR` reads: an address in IPv4 or IPv6 notation and a number of ones. -/
structure ParsedCIDR where
  address : IP
  ones : Nat
  size : address.length = 4 ∨ address.length = 16
  bounded : ones ≤ address.length * 8
  deriving DecidableEq

namespace ParsedCIDR

/-- The address `ParseCIDR` returns, always of 16 bytes. -/
def ip (cidr : ParsedCIDR) : IP :=
  if cidr.address.length = 4 then v4InV6Prefix ++ cidr.address else cidr.address

/-- The network `ParseCIDR` returns. -/
def network (cidr : ParsedCIDR) : IPNet where
  ip := maskIP cidr.ip cidr.ones (cidr.address.length * 8)
  ones := cidr.ones
  bits := cidr.address.length * 8

end ParsedCIDR

/-- The functions of the standard library on the text of addresses. -/
structure NetLibrary where
  trimSpace : Text → Text
  parseCIDR : Text → Except Text ParsedCIDR
  ipString : IP → Text

def IPNet.string (net : NetLibrary) (network : IPNet) : Text :=
  match network.networkNumberAndMask with
  | none => text "<nil>"
  | some (number, ones) => net.ipString number ++ text "/" ++ text (Nat.repr ones)

/-! ## Bits -/

/-- The bits of a byte from the left. -/
def byteBits (byte : Byte) : List Bool :=
  (List.range 8).map fun index => byte.val.testBit (7 - index)

/-- The bits of an address from the left. -/
def bitsOf (ip : IP) : List Bool :=
  ip.flatMap byteBits

variable (byte : Byte)

@[simp]
theorem length_byteBits : (byteBits byte).length = 8 := rfl

@[simp]
theorem length_bitsOf (ip : IP) : (bitsOf ip).length = ip.length * 8 := by
  induction ip with
  | nil => rfl
  | cons byte rest ih =>
    rw [bitsOf, List.flatMap_cons, List.length_append, ← bitsOf, ih, length_byteBits,
      List.length_cons]
    omega

theorem bitsOf_cons (rest : IP) : bitsOf (byte :: rest) = byteBits byte ++ bitsOf rest :=
  rfl

theorem getElem?_byteBits (index : Nat) :
    (byteBits byte)[index]? = if index < 8 then some (byte.val.testBit (7 - index)) else none := by
  split
  · rename_i inside
    simp [byteBits, inside]
  · rename_i outside
    exact List.getElem?_eq_none (Nat.not_lt.mp outside)

/-- A mask has its ones on the left. -/
theorem testBit_maskByte (ones : Nat) {index : Nat} (inside : index < 8) :
    (maskByte ones).val.testBit (7 - index) = decide (index < ones) := by
  have table : ∀ (ones : Fin 9) (index : Fin 8),
      (maskByte ones).val.testBit (7 - index) = decide (index.val < ones.val) := by
    decide
  have sameMask : maskByte ones = maskByte (min ones 8) := by
    unfold maskByte
    rw [show 8 - min ones 8 = 8 - ones by omega]
  rw [sameMask, table ⟨min ones 8, by omega⟩ ⟨index, inside⟩]
  simp [inside]

theorem testBit_and_maskByte (ones : Nat) {index : Nat} (inside : index < 8) :
    (byte &&& maskByte ones).val.testBit (7 - index) =
      (byte.val.testBit (7 - index) && decide (index < ones)) := by
  rw [Fin.and_val, Nat.testBit_and, testBit_maskByte ones inside]

theorem byteBits_injective : Function.Injective byteBits := by
  intro byte other same
  refine Fin.ext (Nat.eq_of_testBit_eq fun position => ?_)
  by_cases inside : position < 8
  · have bits := congrArg (·[7 - position]?) same
    simpa [getElem?_byteBits, show 7 - position < 8 by omega,
      show 7 - (7 - position) = position by omega] using bits
  · have small : ∀ byte : Byte, byte.val < 2 ^ position := fun byte =>
      byte.isLt.trans_le (Nat.pow_le_pow_right Nat.two_pos (Nat.not_lt.mp inside) : 2 ^ 8 ≤ _)
    rw [Nat.testBit_lt_two_pow (small byte), Nat.testBit_lt_two_pow (small other)]

/-- An address is given by its bits. -/
theorem bitsOf_injective : Function.Injective bitsOf := by
  intro ip other same
  have sameLength : ip.length = other.length := by
    have lengths := congrArg List.length same
    rw [length_bitsOf, length_bitsOf] at lengths
    omega
  induction ip generalizing other with
  | nil =>
    cases List.length_eq_zero_iff.mp sameLength.symm
    rfl
  | cons byte rest ih =>
    obtain ⟨first, others, rfl⟩ := List.exists_cons_of_length_eq_add_one sameLength.symm
    obtain ⟨front, back⟩ := List.append_inj same rfl
    rw [byteBits_injective front, ih back (by simpa using sameLength)]

theorem length_cidrMask (ones length : Nat) : (cidrMask ones length).length = length := by
  induction length generalizing ones with
  | zero => rfl
  | succ length ih => rw [cidrMask, List.length_cons, ih]

@[simp]
theorem length_andMask (ip : IP) (ones : Nat) : (andMask ip ones).length = ip.length := by
  simp [andMask, length_cidrMask]

theorem andMask_cons (rest : IP) (ones : Nat) :
    andMask (byte :: rest) ones = (byte &&& maskByte ones) :: andMask rest (ones - 8) :=
  rfl

theorem take_bitsOf_cons (rest : IP) (ones : Nat) :
    (bitsOf (byte :: rest)).take ones =
      (byteBits byte).take ones ++ (bitsOf rest).take (ones - 8) := by
  rw [bitsOf_cons, List.take_append, length_byteBits]

theorem bitsOf_and_maskByte (ones : Nat) :
    byteBits (byte &&& maskByte ones) =
      (byteBits byte).take ones ++ List.replicate (8 - ones) false := by
  apply List.ext_getElem?
  intro index
  rw [getElem?_byteBits, List.getElem?_append, List.getElem?_take, List.length_take,
    length_byteBits, getElem?_byteBits, List.getElem?_replicate]
  by_cases inside : index < 8
  · rw [if_pos inside, testBit_and_maskByte byte ones inside]
    by_cases few : index < ones
    · simp [few, inside]
    · have behind : ¬ index < min ones 8 := by omega
      have cleared : index - min ones 8 < 8 - ones := by omega
      rw [if_neg behind, if_pos cleared]
      simp [few]
  · have behind : ¬ index < min ones 8 := by omega
    have beyond : ¬ index - min ones 8 < 8 - ones := by omega
    rw [if_neg inside, if_neg behind, if_neg beyond]

/-- A mask clears the bits behind its ones. -/
theorem bitsOf_andMask (ip : IP) (ones : Nat) :
    bitsOf (andMask ip ones) =
      (bitsOf ip).take ones ++ List.replicate (ip.length * 8 - ones) false := by
  induction ip generalizing ones with
  | nil => simp [andMask, bitsOf]
  | cons byte rest ih =>
    rw [andMask_cons, bitsOf_cons, bitsOf_and_maskByte, ih, take_bitsOf_cons, List.length_cons]
    rcases Nat.le_total ones 8 with few | many
    · have none : ones - 8 = 0 := by omega
      have zeros : (rest.length + 1) * 8 - ones = 8 - ones + rest.length * 8 := by omega
      rw [none, zeros, List.replicate_add]
      simp
    · have none : 8 - ones = 0 := by omega
      have zeros : (rest.length + 1) * 8 - ones = rest.length * 8 - (ones - 8) := by omega
      rw [none, zeros]
      simp

/-- Masked addresses are equal if the addresses agree in the ones of the mask. -/
theorem andMask_eq_iff {ip other : IP} (sameLength : ip.length = other.length) (ones : Nat) :
    andMask ip ones = andMask other ones ↔ (bitsOf ip).take ones = (bitsOf other).take ones := by
  rw [← bitsOf_injective.eq_iff, bitsOf_andMask, bitsOf_andMask, sameLength, List.append_left_inj]

/-- A mask leaves the bits of its ones. -/
theorem take_bitsOf_andMask (ip : IP) (ones : Nat) :
    (bitsOf (andMask ip ones)).take ones = (bitsOf ip).take ones := by
  have none : min (ones - min ones (ip.length * 8)) (ip.length * 8 - ones) = 0 := by omega
  rw [bitsOf_andMask, List.take_append, List.take_take, Nat.min_self, List.length_take,
    length_bitsOf, List.take_replicate, none]
  exact List.append_nil _

/-- Masking twice is masking once. -/
theorem andMask_andMask (ip : IP) (ones : Nat) : andMask (andMask ip ones) ones = andMask ip ones :=
  (andMask_eq_iff (length_andMask ip ones) ones).mpr (take_bitsOf_andMask ip ones)

/-- A mask with a one for every bit changes nothing. -/
theorem andMask_full {ip : IP} {ones : Nat} (full : ip.length * 8 ≤ ones) :
    andMask ip ones = ip := by
  apply bitsOf_injective
  rw [bitsOf_andMask, List.take_of_length_le (by rwa [length_bitsOf]), Nat.sub_eq_zero_of_le full]
  exact List.append_nil _

theorem take_andMask (ip : IP) (ones count : Nat) :
    (andMask ip ones).take count = andMask (ip.take count) ones := by
  induction ip generalizing ones count with
  | nil => simp [andMask]
  | cons byte rest ih =>
    cases count with
    | zero => rfl
    | succ count => rw [andMask_cons, List.take_succ_cons, ih, List.take_succ_cons, andMask_cons]

theorem drop_andMask (ip : IP) (ones count : Nat) :
    (andMask ip ones).drop count = andMask (ip.drop count) (ones - count * 8) := by
  induction ip generalizing ones count with
  | nil => simp [andMask]
  | cons byte rest ih =>
    cases count with
    | zero => rw [List.drop_zero, List.drop_zero, Nat.zero_mul, Nat.sub_zero]
    | succ count =>
      rw [andMask_cons, List.drop_succ_cons, ih, List.drop_succ_cons,
        show ones - 8 - count * 8 = ones - (count + 1) * 8 by omega]

/-! ## Address families -/

theorem to4_four {ip : IP} (four : ip.length = 4) : to4 ip = some ip :=
  if_pos four

theorem to4_sixteen {ip : IP} (sixteen : ip.length = 16) :
    to4 ip = if ip.take 12 = v4InV6Prefix then some (ip.drop 12) else none := by
  simp [to4, sixteen]

theorem to4_mapped {rest : IP} (four : rest.length = 4) :
    to4 (v4InV6Prefix ++ rest) = some rest := by
  have front : (v4InV6Prefix ++ rest).take 12 = v4InV6Prefix := List.take_left' rfl
  have back : (v4InV6Prefix ++ rest).drop 12 = rest := List.drop_left' rfl
  have sixteen : (v4InV6Prefix ++ rest).length = 16 := by
    rw [List.length_append, four]
    rfl
  rw [to4_sixteen sixteen, if_pos front, back]

/-- The 4 bytes of an IPv4 address. -/
theorem to4_eq_some_iff {ip ip4 : IP} :
    to4 ip = some ip4 ↔ ip4.length = 4 ∧ (ip = ip4 ∨ ip = v4InV6Prefix ++ ip4) := by
  constructor
  · intro found
    unfold to4 at found
    split at found
    · rename_i four
      cases found
      exact ⟨four, .inl rfl⟩
    · obtain ⟨mapped, same⟩ := Option.ite_none_right_eq_some.mp found
      cases same
      refine ⟨?_, .inr ?_⟩
      · rw [List.length_drop, mapped.1]
      · rw [← mapped.2, List.take_append_drop]
  · rintro ⟨length, rfl | rfl⟩
    · exact to4_four length
    · exact to4_mapped length

theorem length_of_to4 {ip ip4 : IP} (four : to4 ip = some ip4) : ip4.length = 4 :=
  (to4_eq_some_iff.mp four).1

/-- The families differ in the length of their addresses. -/
theorem length_getD_to4 {ip : IP} (size : ip.length = 4 ∨ ip.length = 16) :
    ((to4 ip).getD ip).length = if (to4 ip).isSome then 4 else 16 := by
  rcases size with four | sixteen
  · simp [to4_four four, four]
  · rw [to4_sixteen sixteen]
    split <;> simp [sixteen]

theorem andMask_v4InV6Prefix : ∀ ones : Fin 96, andMask v4InV6Prefix ones ≠ v4InV6Prefix := by
  decide +kernel

/-- A mask that leaves an IPv4 prefix leaves all of it. -/
theorem take_andMask_eq_iff {ip : IP} {ones : Nat} (sixteen : ip.length = 16) :
    (andMask ip ones).take 12 = v4InV6Prefix ↔ ip.take 12 = v4InV6Prefix ∧ 96 ≤ ones := by
  have twelve : (ip.take 12).length = 12 := by simp [sixteen]
  rw [take_andMask]
  constructor
  · intro masked
    have all : 96 ≤ ones := by
      by_contra few
      have again := andMask_andMask (ip.take 12) ones
      rw [masked] at again
      exact andMask_v4InV6Prefix ⟨ones, by omega⟩ again
    rw [andMask_full (by omega)] at masked
    exact ⟨masked, all⟩
  · rintro ⟨mapped, all⟩
    rw [andMask_full (by omega), mapped]

/-- Masking does not turn an IPv6 address into an IPv4 one. -/
theorem to4_andMask_of_none {ip : IP} (sixteen : ip.length = 16) (six : to4 ip = none)
    (ones : Nat) : to4 (andMask ip ones) = none := by
  rw [to4_sixteen sixteen] at six
  rw [to4_sixteen (by simpa using sixteen), if_neg]
  rw [take_andMask_eq_iff sixteen]
  rintro ⟨mapped, _⟩
  rw [if_pos mapped] at six
  cases six

end RouteDns.Cidr
