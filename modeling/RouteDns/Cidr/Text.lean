import RouteDns.Cidr.Net

/-!
# The text of an address

Addresses are printed the way Go's package `net` prints them: IPv4 addresses, of either
size, in dotted decimal notation, other addresses of 16 bytes in hexadecimal groups with the
longest run of zero groups left out, and everything that is no address so that it cannot be
taken for one.
-/

namespace RouteDns.Cidr

open Dns

/-- A number in decimal notation. -/
def decimal (number : Nat) : Text :=
  text (Nat.repr number)

def hexDigit (value : Nat) : Byte :=
  if value % 16 < 10 then Fin.ofNat 256 (48 + value % 16) else Fin.ofNat 256 (87 + value % 16)

/-- The hexadecimal digits of bytes. -/
def hexString (bytes : List Byte) : Text :=
  bytes.flatMap fun byte => [hexDigit (byte.val / 16), hexDigit byte.val]

/-- A group of 16 bits in hexadecimal, without leading zeros. -/
def appendHex (group : Nat) : Text :=
  (if 4096 ≤ group then [hexDigit (group / 4096)] else []) ++
    (if 256 ≤ group then [hexDigit (group / 256)] else []) ++
    (if 16 ≤ group then [hexDigit (group / 16)] else []) ++ [hexDigit group]

/-- The groups of an address of 16 bytes. -/
def groupsOf : IP → List Nat
  | high :: low :: rest => (high.val * 256 + low.val) :: groupsOf rest
  | _ => []

/-- The length of the run of zero groups that starts at an index. -/
def zeroRun (groups : List Nat) (index : Nat) : Nat :=
  ((groups.drop index).takeWhile (· = 0)).length

/-- The start and the end of the first longest run of at least two zero groups. -/
def longestZeros (groups : List Nat) : Option (Nat × Nat) :=
  (List.range groups.length).foldl (fun found index =>
    let length := zeroRun groups index
    let longest := match found with
      | none => 0
      | some (start, stop) => stop - start
    if 2 ≤ length ∧ longest < length then some (index, index + length) else found) none

def joinGroups (groups : List Nat) : Text :=
  List.intercalate [byteOf ':'] (groups.map appendHex)

/-- An IPv4 address in dotted decimal notation. -/
def appendTo4 (ip : IP) : Text :=
  List.intercalate [dot] (ip.map fun byte => decimal byte.val)

/-- An address of 16 bytes in groups. -/
def appendTo6 (ip : IP) : Text :=
  let groups := groupsOf ip
  match longestZeros groups with
  | none => joinGroups groups
  | some (start, stop) =>
    joinGroups (groups.take start) ++ text "::" ++ joinGroups (groups.drop stop)

/-- The text of an address. -/
def ipString (ip : IP) : Text :=
  if ip.length = 0 then text "<nil>"
  else if ip.length ≠ 4 ∧ ip.length ≠ 16 then text "?" ++ hexString ip
  else
    match to4 ip with
    | some ip4 => appendTo4 ip4
    | none => appendTo6 ip

/-! ## Digits -/

def digitBytes : Text := text "0123456789"

def hexBytes : Text := text "0123456789abcdef"

variable {char : Char}

/-- A character that is a digit is kept apart by its byte. -/
theorem isDigit_iff_lt : char.isDigit ↔ 48 ≤ char.toNat ∧ char.toNat ≤ 57 := by
  simp only [Char.isDigit, Bool.and_eq_true, decide_eq_true_eq, ge_iff_le, UInt32.le_iff_toNat_le]
  rfl

theorem val_byteOf_of_isDigit (digit : char.isDigit) :
    (byteOf char).val = char.toNat := by
  have range := isDigit_iff_lt.mp digit
  simp only [byteOf, Fin.ofNat]
  omega

theorem byteOf_mem_digitBytes (digit : char.isDigit) :
    byteOf char ∈ digitBytes := by
  have table : ∀ byte : Byte, 48 ≤ byte.val → byte.val ≤ 57 → byte ∈ digitBytes := by
    decide +kernel
  have range := isDigit_iff_lt.mp digit
  rw [← val_byteOf_of_isDigit digit] at range
  exact table _ range.1 range.2

theorem isDigit_of_mem_repr {number : Nat} (member : char ∈ (Nat.repr number).toList) :
    char.isDigit := by
  rw [Nat.toList_repr] at member
  exact Nat.isDigit_of_mem_toDigits (by omega) (by omega) member

variable {byte : Byte}

theorem mem_digitBytes_of_mem_decimal {number : Nat} (member : byte ∈ decimal number) :
    byte ∈ digitBytes := by
  obtain ⟨char, charMem, rfl⟩ := List.mem_map.mp member
  exact byteOf_mem_digitBytes (isDigit_of_mem_repr charMem)

theorem decimal_ne_nil (number : Nat) : decimal number ≠ [] := by
  intro empty
  have short : (Nat.repr number).toList = [] := List.map_eq_nil_iff.mp empty
  rw [Nat.toList_repr] at short
  exact Nat.toDigits_ne_nil short

/-- Digits are told apart by their bytes. -/
theorem map_byteOf_injOn {left right : List Char} (leftDigits : ∀ char ∈ left, char.isDigit)
    (rightDigits : ∀ char ∈ right, char.isDigit) (same : left.map byteOf = right.map byteOf) :
    left = right := by
  induction left generalizing right with
  | nil => exact (List.map_eq_nil_iff.mp same.symm).symm
  | cons char left ih =>
    cases right with
    | nil => cases same
    | cons other right =>
      obtain ⟨sameByte, sameRest⟩ := List.cons.inj same
      rw [List.forall_mem_cons] at leftDigits rightDigits
      have sameChar : char = other := by
        apply Char.ext
        apply UInt32.toNat_inj.mp
        change char.toNat = other.toNat
        rw [← val_byteOf_of_isDigit leftDigits.1, ← val_byteOf_of_isDigit rightDigits.1,
          sameByte]
      rw [sameChar, ih leftDigits.2 rightDigits.2 sameRest]

theorem decimal_injective : Function.Injective decimal := by
  intro first second same
  have digits : (Nat.repr first).toList = (Nat.repr second).toList :=
    map_byteOf_injOn (fun _ member => isDigit_of_mem_repr member)
      (fun _ member => isDigit_of_mem_repr member) same
  rw [Nat.toList_repr, Nat.toList_repr] at digits
  calc
    first = Nat.ofDigitChars 10 (Nat.toDigits 10 first) 0 := Nat.ofDigitChars_ten_toDigits.symm
    _ = Nat.ofDigitChars 10 (Nat.toDigits 10 second) 0 := by rw [digits]
    _ = second := Nat.ofDigitChars_ten_toDigits

theorem hexDigit_mem (value : Nat) : hexDigit value ∈ hexBytes := by
  have table : ∀ digit : Fin 16, hexDigit digit.val ∈ hexBytes := by
    decide +kernel
  have reduced : hexDigit value = hexDigit (value % 16) := by
    simp only [hexDigit, Nat.mod_mod]
  rw [reduced]
  exact table ⟨value % 16, Nat.mod_lt _ (by omega)⟩

theorem mem_hexBytes_of_mem_hexString {bytes : List Byte} (member : byte ∈ hexString bytes) :
    byte ∈ hexBytes := by
  obtain ⟨source, _, member⟩ := List.mem_flatMap.mp member
  rcases List.mem_pair.mp member with rfl | rfl
  · exact hexDigit_mem _
  · exact hexDigit_mem _

theorem mem_hexBytes_of_mem_appendHex {group : Nat} (member : byte ∈ appendHex group) :
    byte ∈ hexBytes := by
  have single : ∀ {condition : Prop} [Decidable condition] {value : Nat},
      byte ∈ (if condition then [hexDigit value] else []) → byte ∈ hexBytes := by
    intro condition _ value member
    split at member
    · exact List.mem_singleton.mp member ▸ hexDigit_mem value
    · cases member
  simp only [appendHex, List.mem_append] at member
  rcases member with ((member | member) | member) | member
  · exact single member
  · exact single member
  · exact single member
  · exact List.mem_singleton.mp member ▸ hexDigit_mem group

/-! ## What the text of an address looks like -/

def colon : Byte := byteOf ':'

/-- The bytes of the text of an address that is no IPv4 address. -/
def groupBytes : Text := text "0123456789abcdef:?<nil>"

theorem forall_mem_intercalate {α : Type} {separator : List α} {parts : List (List α)}
    {property : α → Prop} (inParts : ∀ part ∈ parts, ∀ entry ∈ part, property entry)
    (inSeparator : ∀ entry ∈ separator, property entry) :
    ∀ entry ∈ List.intercalate separator parts, property entry := by
  induction parts with
  | nil => simp
  | cons part rest ih =>
    have inRest := ih fun part member => inParts part (List.mem_cons_of_mem _ member)
    have inPart := inParts part List.mem_cons_self
    cases rest with
    | nil => simpa using inPart
    | cons next rest =>
      intro entry member
      rw [List.intercalate_cons_cons] at member
      rcases List.mem_append.mp member with member | member
      · rcases List.mem_append.mp member with member | member
        · exact inPart entry member
        · exact inSeparator entry member
      · exact inRest entry member

/-- What the text of an address without dots is put together from. -/
theorem groupBytes_parts :
    ∀ part ∈ [hexBytes, [colon], text "::", text "?", text "<nil>"], ∀ byte ∈ part,
      byte ∈ groupBytes := by
  decide +kernel

theorem hexBytes_subset_groupBytes : ∀ byte ∈ hexBytes, byte ∈ groupBytes :=
  groupBytes_parts hexBytes (by simp)

theorem mem_joinGroups {groups : List Nat} (member : byte ∈ joinGroups groups) :
    byte ∈ groupBytes := by
  have inParts : ∀ part ∈ groups.map appendHex, ∀ entry ∈ part, entry ∈ groupBytes := by
    intro part partMem entry entryMem
    obtain ⟨group, _, rfl⟩ := List.mem_map.mp partMem
    exact hexBytes_subset_groupBytes _ (mem_hexBytes_of_mem_appendHex entryMem)
  exact forall_mem_intercalate inParts (groupBytes_parts [colon] (by simp)) byte member

variable {ip : IP}

/-- What is no IPv4 address is printed without a dot. -/
theorem mem_groupBytes_of_mem_ipString (other : to4 ip = none) (member : byte ∈ ipString ip) :
    byte ∈ groupBytes := by
  simp only [ipString, other] at member
  split at member
  · exact groupBytes_parts (text "<nil>") (by simp) _ member
  · split at member
    · rcases List.mem_append.mp member with member | member
      · exact groupBytes_parts (text "?") (by simp) _ member
      · exact hexBytes_subset_groupBytes _ (mem_hexBytes_of_mem_hexString member)
    · simp only [appendTo6] at member
      split at member
      · exact mem_joinGroups member
      · rcases List.mem_append.mp member with member | member
        · rcases List.mem_append.mp member with member | member
          · exact mem_joinGroups member
          · exact groupBytes_parts (text "::") (by simp) _ member
        · exact mem_joinGroups member

variable {ip ip4 : IP}

theorem ipString_of_to4 (four : to4 ip = some ip4) : ipString ip = appendTo4 ip4 := by
  have length : ip.length = 4 ∨ ip.length = 16 := by
    obtain ⟨short, rfl | rfl⟩ := to4_eq_some_iff.mp four
    · exact .inl short
    · rw [List.length_append, short]
      exact .inr rfl
  simp only [ipString, four]
  rw [if_neg (by omega), if_neg (by omega)]

/-- An IPv4 address is printed in digits and dots, with a number at the end. -/
theorem exists_ipString_eq (four : to4 ip = some ip4) :
    ∃ front number, ipString ip = front ++ decimal number ∧
      ∀ byte ∈ front, byte ∈ digitBytes ∨ byte = dot := by
  rw [ipString_of_to4 four]
  obtain ⟨length, _⟩ := to4_eq_some_iff.mp four
  match ip4, length with
  | [a, b, c, d], _ =>
    refine ⟨decimal a.val ++ [dot] ++ decimal b.val ++ [dot] ++ decimal c.val ++ [dot], d.val,
      ?_, ?_⟩
    · simp [appendTo4, List.intercalate_cons_cons]
    · intro byte member
      simp only [List.mem_append, List.mem_singleton] at member
      rcases member with ((((member | member) | member) | member) | member) | member
      · exact .inl (mem_digitBytes_of_mem_decimal member)
      · exact .inr member
      · exact .inl (mem_digitBytes_of_mem_decimal member)
      · exact .inr member
      · exact .inl (mem_digitBytes_of_mem_decimal member)
      · exact .inr member

theorem mem_of_mem_ipString_of_to4 (four : to4 ip = some ip4) (member : byte ∈ ipString ip) :
    byte ∈ digitBytes ∨ byte = dot := by
  obtain ⟨front, number, shape, inFront⟩ := exists_ipString_eq four
  rw [shape] at member
  rcases List.mem_append.mp member with member | member
  · exact inFront byte member
  · exact .inl (mem_digitBytes_of_mem_decimal member)

/-- The bytes that occur in the text of an address. -/
def addressBytes : Text := text "0123456789abcdef:.?<nil>"

theorem addressBytes_parts :
    ∀ part ∈ [groupBytes, digitBytes, [dot]], ∀ byte ∈ part, byte ∈ addressBytes := by
  decide +kernel

theorem mem_addressBytes_of_mem_ipString (member : byte ∈ ipString ip) :
    byte ∈ addressBytes := by
  cases four : to4 ip with
  | none =>
    exact addressBytes_parts groupBytes (by simp) _ (mem_groupBytes_of_mem_ipString four member)
  | some ip4 =>
    rcases mem_of_mem_ipString_of_to4 four member with digit | rfl
    · exact addressBytes_parts digitBytes (by simp) _ digit
    · exact addressBytes_parts [dot] (by simp) dot List.mem_cons_self

theorem dot_notMem_ipString (other : to4 ip = none) : dot ∉ ipString ip := by
  intro member
  exact absurd (mem_groupBytes_of_mem_ipString other member) (by decide +kernel)

theorem ne_of_mem_digitBytes : ∀ byte ∈ digitBytes, byte ≠ dot ∧ byte ≠ colon := by
  decide +kernel

/-- A dot in the text of an address is followed by more of it, but not by a colon. -/
theorem after_dot_of_ipString {before after : Text} (split : ipString ip = before ++ dot :: after) :
    ∃ next rest, after = next :: rest ∧ next ≠ colon := by
  cases four : to4 ip with
  | none =>
    apply absurd _ (dot_notMem_ipString four)
    rw [split]
    simp
  | some ip4 =>
    cases after with
    | nil =>
      obtain ⟨front, number, shape, _⟩ := exists_ipString_eq four
      have last : (ipString ip).getLast? = some dot := by
        rw [split]
        simp
      rw [shape, List.getLast?_append_of_ne_nil _ (decimal_ne_nil number)] at last
      have ends := mem_digitBytes_of_mem_decimal (List.mem_of_getLast? last)
      exact absurd rfl (ne_of_mem_digitBytes dot ends).1
    | cons next rest =>
      refine ⟨next, rest, rfl, ?_⟩
      rintro rfl
      have member : colon ∈ ipString ip := by
        rw [split]
        simp
      rcases mem_of_mem_ipString_of_to4 four member with digit | same
      · exact absurd rfl (ne_of_mem_digitBytes colon digit).2
      · exact absurd same (by decide)

example :
    [[192, 0, 2, 1], v4InV6Prefix ++ [192, 0, 2, 1],
        [32, 1, 13, 184, 0, 0, 0, 0, 0, 0, 0, 0, 0, 0, 0, 1], List.replicate 16 0].map ipString =
      [text "192.0.2.1", text "192.0.2.1", text "2001:db8::1", text "::"] := by
  decide +kernel

end RouteDns.Cidr
