import Mathlib.Data.Nat.Bitwise
import RouteDns.Program.PrefixTrie
import RouteDns.Blocklist.Load
import RouteDns.Cidr.Net

/-!
# Lists of networks

A list of networks is kept in two tries, one for each address family.  A network goes into
the trie of the address it is written with; the path through the trie is made of the bits of
the network's own address, as many as its mask has ones.
-/

namespace RouteDns.Cidr

open Dns Blocklist

/-! ## The trie -/

def bitMask : List Byte :=
  [128, 64, 32, 16, 8, 4, 2, 1]

/-- A bit of an address from the left; there is none behind its end. -/
def bit (ip : IP) (n : Nat) : Option Bool := do
  let byte ← ip[n / 8]?
  let mask ← bitMask[n % 8]?
  pure (byte &&& mask ≠ 0)

section Model

variable (net : NetLibrary)

/-- The text of the network of an address with a mask. -/
def ruleString (ip : IP) (maskBits : Nat) : Text :=
  let size := if (to4 ip).isNone then 128 else 32
  IPNet.string net { ip := maskIP ip maskBits size, ones := maskBits, bits := size }

/-- The loop over the bits of a network; the last node is made a leaf. -/
def addFrom (ip : IP) : (i left : Nat) → PrefixTrie → Option PrefixTrie
  | _, 0, _ => some .tip
  | i, left + 1, p =>
    if p.isLeaf then some .tip
    else do
      let b ← bit ip i
      let below ← addFrom ip (i + 1) left (p.child b)
      pure (p.withChild b below)

/-- Add a network to a trie. -/
def add (trie : PrefixTrie) (n : IPNet) : Option PrefixTrie :=
  addFrom n.ip 0 n.ones trie

/-- The loop over the bits of an address; it returns how many it passed. -/
def hasFrom (ip : IP) : (i left : Nat) → PrefixTrie → Option (Option Nat)
  | i, 0, _ => some (some i)
  | i, left + 1, p =>
    if p.isLeaf then some (some i)
    else do
      let b ← bit ip i
      if p.child b = .absent then pure none else hasFrom ip (i + 1) left (p.child b)

/-- The text of the network that covers an address. -/
def hasIP (trie : PrefixTrie) (ip : IP) : Option (Text × Bool) :=
  if trie = .absent then some ([], false)
  else do
    let size := if (to4 ip).isNone then 128 else 32
    let ip := (to4 ip).getD ip
    let passed ← hasFrom ip 0 size trie
    match passed with
    | none => pure ([], false)
    | some maskBits => pure (ruleString net ip maskBits, true)

/-! ## The database -/

structure CidrDB where
  name : Text
  ip4 : PrefixTrie
  ip6 : PrefixTrie

/-- Why a database is not built. -/
inductive Fault where
  | refused (message : Text)
  | panic

/-- The line with a mask, if it has none. -/
def withMask (r : Text) : Text :=
  if byteOf '/' ∈ r then r
  else if byteOf '.' ∈ r then r ++ text "/32"
  else if byteOf ':' ∈ r then r ++ text "/128"
  else r

/-- The network on a line; empty lines and comments have none. -/
def parseLine (line : Text) : Except Text (Option ParsedCIDR) :=
  let r := net.trimSpace line
  if r.head? = some (byteOf '#') ∨ r = [] then .ok none
  else (net.parseCIDR (withMask r)).map some

def CidrDB.addLine (db : CidrDB) (line : Text) : Except Fault CidrDB :=
  match parseLine net line with
  | .error message => .error (.refused message)
  | .ok none => .ok db
  | .ok (some cidr) =>
    if (to4 cidr.ip).isNone then
      match add db.ip6 cidr.network with
      | some trie => .ok { db with ip6 := trie }
      | none => .error .panic
    else
      match add db.ip4 cidr.network with
      | some trie => .ok { db with ip4 := trie }
      | none => .error .panic

def newCidrDB (name : Text) (events : List LoadEvent) : Except Fault CidrDB :=
  load { name := name, ip4 := .absent, ip6 := .absent } (CidrDB.addLine net) events

/-- Match an address; the outer option is empty if the code panics. -/
def CidrDB.match_ (db : CidrDB) (ip : IP) : Option (Option BlocklistMatch × Bool) :=
  if ip.length = 0 then some (none, false)
  else do
    let (rule, ok) ← hasIP net (if (to4 ip).isNone then db.ip6 else db.ip4) ip
    pure (some { list := db.name, rule := rule }, ok)

end Model

/-! ## The loops as walks -/

theorem bitMask_eq : ∀ index : Fin 8,
    (bitMask[index.val]?.map Fin.val) = some (2 ^ (7 - index.val)) := by
  decide

theorem and_ne_zero {byte mask : Byte} {position : Nat} (value : mask.val = 2 ^ position) :
    decide (byte &&& mask ≠ 0) = byte.val.testBit position := by
  have bits : (byte &&& mask).val = (byte.val.testBit position).toNat * 2 ^ position := by
    rw [Fin.and_val, value, Nat.and_two_pow]
  simp only [ne_eq, Fin.ext_iff, bits]
  cases byte.val.testBit position <;> simp

theorem bit_eq (ip : IP) (n : Nat) : bit ip n = (bitsOf ip)[n]? := by
  induction ip generalizing n with
  | nil => rfl
  | cons byte rest ih =>
    by_cases first : n < 8
    · obtain ⟨mask, found, value⟩ := Option.map_eq_some_iff.mp (bitMask_eq ⟨n, first⟩)
      have inside : n / 8 = 0 := by omega
      have place : n % 8 = n := by omega
      have here : n < (byteBits byte).length := first
      rw [bitsOf_cons, List.getElem?_append_left here, getElem?_byteBits, if_pos first, bit,
        inside, place, found, ← and_ne_zero value]
      rfl
    · have further : n / 8 = (n - 8) / 8 + 1 := by omega
      have place : n % 8 = (n - 8) % 8 := by omega
      rw [bitsOf_cons, List.getElem?_append_right (Nat.not_lt.mp first), length_byteBits, ← ih,
        bit, further, place]
      rfl

/-- The bits a loop still has to read. -/
theorem bits_cons {ip : IP} {i left : Nat} (enough : i + (left + 1) ≤ (bitsOf ip).length) :
    ∃ b, bit ip i = some b ∧
      ((bitsOf ip).drop i).take (left + 1) = b :: ((bitsOf ip).drop (i + 1)).take left := by
  have inside : i < (bitsOf ip).length := by omega
  refine ⟨(bitsOf ip)[i], ?_, ?_⟩
  · rw [bit_eq, List.getElem?_eq_getElem inside]
  · rw [List.drop_eq_getElem_cons inside, List.take_succ_cons]

theorem addFrom_eq (ip : IP) {i left : Nat} (enough : i + left ≤ (bitsOf ip).length)
    (p : PrefixTrie) :
    addFrom ip i left p = some (p.insert (((bitsOf ip).drop i).take left)) := by
  induction left generalizing i p with
  | zero => rfl
  | succ left ih =>
    obtain ⟨b, read, bits⟩ := bits_cons enough
    rw [addFrom, bits, PrefixTrie.insert]
    split
    · rfl
    · simp [read, ih (show i + 1 + left ≤ _ by omega)]

theorem add_eq (trie : PrefixTrie) {n : IPNet} (fits : n.ones ≤ n.ip.length * 8) :
    add trie n = some (trie.insert ((bitsOf n.ip).take n.ones)) := by
  rw [add, addFrom_eq n.ip (by simpa using fits), List.drop_zero]

theorem hasFrom_eq (ip : IP) {i left : Nat} (enough : i + left ≤ (bitsOf ip).length)
    {p : PrefixTrie} (present : p ≠ .absent) :
    hasFrom ip i left p =
      some ((p.walk (((bitsOf ip).drop i).take left)).map fun passed => i + passed) := by
  induction left generalizing i p with
  | zero =>
    cases p with
    | absent => exact absurd rfl present
    | node leaf l r => rfl
  | succ left ih =>
    obtain ⟨b, read, bits⟩ := bits_cons enough
    cases p with
    | absent => exact absurd rfl present
    | node leaf l r =>
      rw [hasFrom, bits, PrefixTrie.walk]
      cases leaf with
      | true => rfl
      | false =>
        simp only [PrefixTrie.isLeaf, read, Bool.false_eq_true, if_false,
          Option.bind_eq_bind, Option.bind_some]
        by_cases absent : (PrefixTrie.node false l r).child b = .absent
        · rw [if_pos absent, absent, PrefixTrie.walk_absent]
          rfl
        · rw [if_neg absent, ih (show i + 1 + left ≤ _ by omega) absent, Option.map_map]
          congr 2
          funext passed
          simp only [Function.comp_apply]
          omega

/-! ## The networks as paths -/

namespace ParsedCIDR

variable (cidr : ParsedCIDR)

/-- The network in IPv4 notation is kept in the trie for IPv4. -/
theorem four_cases (four : cidr.address.length = 4) :
    to4 cidr.ip = some cidr.address ∧
      cidr.network = { ip := andMask cidr.address cidr.ones, ones := cidr.ones, bits := 32 } := by
  have ip_eq : cidr.ip = v4InV6Prefix ++ cidr.address := if_pos four
  have mapped := to4_mapped four
  have front : (v4InV6Prefix ++ cidr.address).take 12 = v4InV6Prefix := List.take_left' rfl
  have back : (v4InV6Prefix ++ cidr.address).drop 12 = cidr.address := List.drop_left' rfl
  have sixteen : (v4InV6Prefix ++ cidr.address).length = 16 := by
    rw [List.length_append, four]
    rfl
  refine ⟨ip_eq ▸ mapped, ?_⟩
  simp [network, ip_eq, maskIP, four, front, back, sixteen]

theorem sixteen_cases (sixteen : cidr.address.length = 16) :
    cidr.ip = cidr.address ∧
      cidr.network = { ip := andMask cidr.address cidr.ones, ones := cidr.ones, bits := 128 } := by
  have ip_eq : cidr.ip = cidr.address := if_neg (by omega)
  refine ⟨ip_eq, ?_⟩
  simp [network, ip_eq, maskIP, sixteen]

theorem network_ip : cidr.network.ip = andMask cidr.address cidr.ones := by
  rcases cidr.size with four | sixteen
  · rw [(cidr.four_cases four).2]
  · rw [(cidr.sixteen_cases sixteen).2]

/-- The path of a network through its trie. -/
def path : List Bool :=
  (bitsOf cidr.network.ip).take cidr.network.ones

theorem path_eq : cidr.path = (bitsOf cidr.address).take cidr.ones := by
  rw [path, network_ip]
  exact take_bitsOf_andMask cidr.address cidr.ones

theorem length_path : cidr.path.length = cidr.ones := by
  have bounded := cidr.bounded
  rw [path_eq, List.length_take, length_bitsOf]
  omega

theorem add_network (trie : PrefixTrie) : add trie cidr.network = some (trie.insert cidr.path) := by
  refine add_eq trie ?_
  rw [network_ip, length_andMask]
  exact cidr.bounded

end ParsedCIDR

end RouteDns.Cidr
