import Mathlib.Data.List.DropRight
import RouteDns.Cidr.Text

/-!
# The client address of a DoH request

A request that comes through a known reverse proxy is attributed to the address the proxy put at
the end of the `X-Forwarded-For` header; everything before it may come from the client.  The
header lines are joined, the entry after the last comma is taken, and the address falls back to
the one of the TCP peer.

Joining puts a comma in front of the last line, so what the earlier lines hold is cut off again.
-/

namespace RouteDns.Transport

open Dns Cidr

/-! ## Model -/

/-- The functions of the standard library on the texts of a request: the host of an address with
a port, which is empty if there is none, the address a text spells, and white space. -/
structure RequestLibrary where
  splitHostPort : Text → Text
  parseIP : Text → Option IP
  trimSpace : Text → Text
  parseIP_nil : parseIP [] = none
  trimSpace_nil : trimSpace [] = []
  trimSpace_space : ∀ line, trimSpace (byteOf ' ' :: line) = trimSpace line

/-- A request: the address of the peer and the header lines in the order they came in, under
their canonical keys. -/
structure HttpRequest where
  remoteAddr : Text
  header : List (Text × Text)

/-- The lines of a header. -/
def HttpRequest.values (r : HttpRequest) (key : Text) : List Text :=
  (r.header.filter fun line => line.1 = key).map Prod.snd

def forwardedFor : Text := text "X-Forwarded-For"

def comma : Byte := byteOf ','

/-- What comes after the last comma, or everything if there is none. -/
def afterLastComma (line : Text) : Text :=
  line.rtakeWhile fun byte => byte ≠ comma

/-- A loopback address of either family. -/
def isLoopback (ip : IP) : Bool :=
  match to4 ip with
  | some ip4 => ip4.head? = some 127
  | none => ip = List.replicate 15 0 ++ [1]

def extractClientAddress (lib : RequestLibrary) (httpProxyNet : Option IPNet) (r : HttpRequest) :
    Option IP :=
  let clientIP := lib.parseIP (lib.splitHostPort r.remoteAddr)
  let xForwardedFor := List.intercalate (text ", ") (r.values forwardedFor)
  match httpProxyNet with
  | none => clientIP
  | some proxyNet =>
    if xForwardedFor = [] then clientIP
    else if clientIP.any proxyNet.contains then
      match lib.parseIP (lib.trimSpace (afterLastComma xForwardedFor)) with
      | some ip => if isLoopback ip then clientIP else some ip
      | none => clientIP
    else
      clientIP

/-! ## What the address depends on -/

variable (lib : RequestLibrary)

/-- The address of the peer. -/
def peerAddress (r : HttpRequest) : Option IP :=
  lib.parseIP (lib.splitHostPort r.remoteAddr)

/-- The part after the last comma of the last line; nothing if there is no line. -/
def lastEntry (r : HttpRequest) : Text :=
  (r.values forwardedFor).getLast?.elim [] afterLastComma

/-! ### The last line of the joined header -/

theorem intercalate_concat {α : Type} (separator : List α) {front : List (List α)}
    (nonempty : front ≠ []) (last : List α) :
    List.intercalate separator (front ++ [last]) =
      List.intercalate separator front ++ (separator ++ last) := by
  induction front with
  | nil => exact absurd rfl nonempty
  | cons first rest ih =>
    cases rest with
    | nil => simp [List.intercalate]
    | cons second rest =>
      have later := ih (List.cons_ne_nil _ _)
      simp only [List.intercalate, List.cons_append, List.intersperse, List.flatten_cons,
        List.append_assoc] at later ⊢
      rw [later]

/-- Only the part behind the front counts once it has a comma. -/
theorem afterLastComma_append (front line : Text) :
    afterLastComma (front ++ line) =
      if comma ∈ line then afterLastComma line else afterLastComma front ++ line := by
  induction line using List.reverseRecOn with
  | nil => simp
  | append_singleton line byte ih =>
    unfold afterLastComma at ih ⊢
    rw [← List.append_assoc, List.rtakeWhile_concat, List.rtakeWhile_concat, ih]
    by_cases isComma : byte = comma
    · simp [isComma]
    · by_cases member : comma ∈ line <;> simp [isComma, member, Ne.symm isComma]

theorem afterLastComma_of_not_mem {line : Text} (absent : comma ∉ line) :
    afterLastComma line = line := by
  have whole := afterLastComma_append [] line
  rwa [if_neg absent] at whole

/-- A line joined to others by a comma and a space has the same last entry, but for the space. -/
theorem trimSpace_afterLastComma_joined (front line : Text) :
    lib.trimSpace (afterLastComma (front ++ (text ", " ++ line))) =
      lib.trimSpace (afterLastComma line) := by
  have separator : text ", " ++ line = [comma] ++ ([byteOf ' '] ++ line) := by
    rfl
  have member : comma ∈ [comma] ++ ([byteOf ' '] ++ line) := by simp
  have noSpace : comma ∉ [byteOf ' '] := by decide
  rw [separator, afterLastComma_append front, if_pos member, afterLastComma_append [comma]]
  by_cases inLine : comma ∈ line
  · rw [if_pos (List.mem_append_right _ inLine), afterLastComma_append, if_pos inLine]
  · have absent : comma ∉ [byteOf ' '] ++ line := by
      rw [List.mem_append]
      exact fun either => either.elim noSpace inLine
    have cut : afterLastComma [comma] = [] := by decide
    rw [if_neg absent, cut, List.nil_append, afterLastComma_of_not_mem inLine]
    exact lib.trimSpace_space line

theorem trimSpace_lastEntry (r : HttpRequest) :
    lib.trimSpace (afterLastComma (List.intercalate (text ", ") (r.values forwardedFor))) =
      lib.trimSpace (lastEntry r) := by
  unfold lastEntry
  rcases List.eq_nil_or_concat (r.values forwardedFor) with none | ⟨front, last, split⟩
  · rw [none]
    rfl
  · rw [split, List.concat_eq_append, List.getLast?_concat, Option.elim_some]
    by_cases single : front = []
    · rw [single]
      simp [List.intercalate]
    · rw [intercalate_concat _ single, trimSpace_afterLastComma_joined]

/-! ### The address -/

/-- The address of a request from the address of its peer and the one in the last entry. -/
def attributed (httpProxyNet : Option IPNet) (peer entry : Option IP) : Option IP :=
  match httpProxyNet with
  | none => peer
  | some proxyNet =>
    if peer.any proxyNet.contains then
      match entry with
      | some ip => if isLoopback ip then peer else some ip
      | none => peer
    else
      peer

theorem extractClientAddress_eq (httpProxyNet : Option IPNet) (r : HttpRequest) :
    extractClientAddress lib httpProxyNet r =
      attributed httpProxyNet (peerAddress lib r) (lib.parseIP (lib.trimSpace (lastEntry r))) := by
  cases httpProxyNet with
  | none => rfl
  | some proxyNet =>
    unfold extractClientAddress attributed
    dsimp only
    split
    · -- an empty header has an empty last entry, which is no address
      rename_i empty
      have entry := trimSpace_lastEntry lib r
      rw [empty] at entry
      have nothing : lib.parseIP (lib.trimSpace (lastEntry r)) = none := by
        rw [← entry]
        exact (congrArg lib.parseIP lib.trimSpace_nil).trans lib.parseIP_nil
      rw [nothing]
      split <;> rfl
    · rw [trimSpace_lastEntry]
      rfl

/-- The address depends only on the peer and on the entry after the last comma of the last header
line, whatever the other lines and the earlier entries hold; and it is the address of the peer
unless that is inside the proxy network. -/
theorem client_address_not_forged (httpProxyNet : Option IPNet) :
    (∀ r other : HttpRequest, r.remoteAddr = other.remoteAddr → lastEntry r = lastEntry other →
      extractClientAddress lib httpProxyNet r = extractClientAddress lib httpProxyNet other) ∧
    ∀ r : HttpRequest,
      (∀ proxyNet ip, httpProxyNet = some proxyNet → peerAddress lib r = some ip →
        proxyNet.contains ip = false) →
      extractClientAddress lib httpProxyNet r = peerAddress lib r := by
  constructor
  · intro r other samePeer sameEntry
    rw [extractClientAddress_eq, extractClientAddress_eq, sameEntry, peerAddress, samePeer,
      ← peerAddress]
  · intro r outside
    rw [extractClientAddress_eq]
    cases httpProxyNet with
    | none => rfl
    | some proxyNet =>
      have notProxy : (peerAddress lib r).any proxyNet.contains = false := by
        cases peer : peerAddress lib r with
        | none => rfl
        | some ip => exact outside proxyNet ip rfl peer
      simp [attributed, notProxy]

/-! ### The standard library -/

/-- The host before the last colon; IPv6 addresses are in brackets. -/
def splitHostPort (hostport : Text) : Text :=
  let host := (hostport.rdropWhile fun byte => byte ≠ colon).dropLast
  let port := hostport.rtakeWhile fun byte => byte ≠ colon
  let inner := (host.drop 1).dropLast
  let bare (part : Text) : Bool := byteOf '[' ∉ part ∧ byteOf ']' ∉ part
  if host = byteOf '[' :: inner ++ [byteOf ']'] then
    if bare (inner ++ port) then inner else []
  else if colon ∉ host ∧ bare hostport then host
  else []

/-- The value of a digit; 16 if it is none. -/
def digitValue (byte : Byte) : Nat :=
  (text "0123456789abcdef").idxOf (lowerByte byte)

/-- The number that one digit or more spell. -/
def parseNumber (base : Nat) (digits : Text) : Option Nat :=
  if digits ≠ [] ∧ ∀ byte ∈ digits, digitValue byte < base then
    some (digits.foldl (fun number byte => number * base + digitValue byte) 0)
  else none

/-- A field of an IPv4 address, which has no leading zero. -/
def parseOctet (field : Text) : Option Byte :=
  if field.head? = some (byteOf '0') ∧ 1 < field.length then none
  else ((parseNumber 10 field).filter fun value => value < 256).map (Fin.ofNat 256)

def parseIPv4 (s : Text) : Option IP :=
  ((s.splitOn dot).mapM parseOctet).filter fun ip => ip.length = 4

/-- A group of an IPv6 address. -/
def parseGroup (field : Text) : Option IP :=
  if field.length ≤ 4 then
    (parseNumber 16 field).map fun group => [Fin.ofNat 256 (group / 256), Fin.ofNat 256 group]
  else none

/-- Groups between colons, the last of which may be in another form. -/
def parseGroups (parseLast : Text → Option IP) (s : Text) : Option IP :=
  if s = [] then some []
  else do
    let fields := s.splitOn colon
    let front ← fields.dropLast.mapM parseGroup
    let last ← parseLast (fields.getLastD [])
    return front.flatten ++ last

/-- What stands before and behind the first two colons in a row. -/
def cutEllipsis : Text → Option (Text × Text)
  | first :: second :: rest =>
    if first = colon ∧ second = colon then some ([], rest)
    else (cutEllipsis (second :: rest)).map fun parts => (first :: parts.1, parts.2)
  | _ => none

/-- An address of 16 bytes; two colons stand for all groups that are left out. -/
def parseIPv6 (s : Text) : Option IP :=
  let parseLast field := (parseGroup field).or (parseIPv4 field)
  match cutEllipsis s with
  | none => (parseGroups parseLast s).filter fun ip => ip.length = 16
  | some (before, after) => do
    let high ← parseGroups parseGroup before
    let low ← parseGroups parseLast after
    if high.length + low.length < 16 then
      return high ++ (List.replicate (16 - high.length - low.length) 0 ++ low)
    else none

def parseIP (s : Text) : Option IP :=
  if colon ∈ s then parseIPv6 s else (parseIPv4 s).map fun ip => v4InV6Prefix ++ ip

/-- White space in UTF-8. -/
def whiteSpace : List Text :=
  [[9], [10], [11], [12], [13], [32], [194, 133], [194, 160], [225, 154, 128], [226, 128, 168],
    [226, 128, 169], [226, 128, 175], [226, 129, 159], [227, 128, 128]] ++
    (List.range 11).map fun index => [226, 128, Fin.ofNat 256 (128 + index)]

/-- Take characters off the front of a line, at most as many as given. -/
def trimFront (characters : List Text) : Nat → Text → Text
  | 0, line => line
  | count + 1, line =>
    match characters.find? fun character => character.isPrefixOf line with
    | some character => trimFront characters count (line.drop character.length)
    | none => line

def trimSpace (line : Text) : Text :=
  let line := trimFront whiteSpace line.length line
  (trimFront (whiteSpace.map List.reverse) line.length line.reverse).reverse

def netLibrary : RequestLibrary where
  splitHostPort := splitHostPort
  parseIP := parseIP
  trimSpace := trimSpace
  parseIP_nil := by decide
  trimSpace_nil := rfl
  trimSpace_space := fun _ => rfl

/-- A request through a proxy in 10.0.0.0/8, with lines of the header. -/
def proxied (lines : List Text) : HttpRequest where
  remoteAddr := text "10.0.0.1:4711"
  header := lines.map fun line => (forwardedFor, line)

/-- What the client claims in front of the proxy's entry does not matter. -/
theorem forged_entry_ignored :
    extractClientAddress netLibrary (some ⟨[10, 0, 0, 0], 8, 32⟩)
        (proxied [text "192.0.2.66", text "192.0.2.66,192.0.2.1"]) =
      some (v4InV6Prefix ++ [192, 0, 2, 1]) := by
  rw [(client_address_not_forged netLibrary (some ⟨[10, 0, 0, 0], 8, 32⟩)).1
    (proxied [text "192.0.2.66", text "192.0.2.66,192.0.2.1"]) (proxied [text "192.0.2.1"]) rfl
    (by decide +kernel)]
  decide +kernel

end RouteDns.Transport
