import RouteDns.Dns.Library

/-!
# An executable stand-in for the DNS library

The laws of `Library` are consistent: this file has functions on texts that
satisfy them.  Names are handled as the library documents it.  Cryptography is
symbolic: a signature is the public key it was made with, a digest is the owner
name of a key followed by its public key, and a hash is the name itself.
-/

namespace RouteDns.Dns

namespace Reference

/-! ## Splitting names -/

/-- Put a byte in front of the first piece. -/
def pushByte (byte : Byte) : List Text → List Text
  | [] => [[byte]]
  | piece :: pieces => (byte :: piece) :: pieces

/-- The pieces of a text between its unescaped dots. -/
def pieces : (escaped : Bool) → Text → List Text
  | _, [] => [[]]
  | true, byte :: rest => pushByte byte (pieces false rest)
  | false, byte :: rest =>
    if byte = dot then [] :: pieces false rest else pushByte byte (pieces (byte = backslash) rest)

def splitDomainName (name : Name) : List Text :=
  if name = root then
    []
  else if (pieces false name).getLast? = some [] then
    (pieces false name).dropLast
  else
    pieces false name

/-- A printed byte stays in one piece. -/
theorem pieces_escapeByte (byte : Byte) (rest : Text) :
    pieces false (escapeByte byte ++ rest) =
      (escapeByte byte).foldr pushByte (pieces false rest) := by
  have slash_ne : backslash ≠ dot := by decide
  rcases escapeByte_cases byte with printed | ⟨hundreds, tens, ones, printed, plain⟩ |
    ⟨printed, plain⟩
  · simp [printed, pieces, slash_ne]
  · simp [printed, pieces, slash_ne, plain]
  · simp [printed, pieces, plain]

theorem foldr_pushByte (front piece : Text) (rest : List Text) :
    front.foldr pushByte (piece :: rest) = (front ++ piece) :: rest := by
  induction front with
  | nil => rfl
  | cons byte front ih => simp [ih, pushByte]

theorem pieces_printLabel (label : Label) (rest : Text) :
    pieces false (printLabel label ++ dot :: rest) = printLabel label :: pieces false rest := by
  induction label with
  | nil => simp [printLabel, pieces]
  | cons byte label ih =>
    rw [printLabel_cons, List.append_assoc, pieces_escapeByte, ih, foldr_pushByte]

theorem pieces_printLabels (labels : List Label) :
    pieces false (printLabels labels) = labels.map printLabel ++ [[]] := by
  induction labels with
  | nil => rfl
  | cons label rest ih => rw [printLabels_cons, pieces_printLabel, ih]; rfl

theorem splitDomainName_print (name : DomainName) :
    splitDomainName name.print = name.labels.map printLabel := by
  by_cases top : name.labels = []
  · simp [DomainName.print, top, splitDomainName]
  · rw [splitDomainName, if_neg (mt (print_eq_root_iff name).mp top), print_of_labels_ne_nil top,
      pieces_printLabels]
    simp

/-! ## Comparing names -/

def countLabel (name : Name) : Nat :=
  (splitDomainName name).length

def compareDomainName (left right : Name) : Nat :=
  Canonical.shared (splitDomainName (left.map lowerByte)) (splitDomainName (right.map lowerByte))

def isSubDomain (parent child : Name) : Bool :=
  compareDomainName parent child = countLabel parent

theorem countLabel_print (name : DomainName) : countLabel name.print = name.labels.length := by
  simp [countLabel, splitDomainName_print]

theorem compareDomainName_print (left right : DomainName) :
    compareDomainName left.print right.print =
      Canonical.shared left.lower.labels right.lower.labels := by
  rw [compareDomainName, map_lowerByte_print, map_lowerByte_print, splitDomainName_print,
    splitDomainName_print, Canonical.shared_map printLabel_injective]

theorem isSubDomain_print (parent child : DomainName) :
    isSubDomain parent.print child.print = true ↔ parent.lower.labels <:+ child.lower.labels := by
  have length_eq : parent.lower.labels.length = parent.labels.length := by simp
  simp only [isSubDomain, compareDomainName_print, countLabel_print, decide_eq_true_eq]
  rw [← Canonical.length_le_shared_iff List.suffix_rfl, length_eq,
    Canonical.shared_comm child.lower.labels]
  have bound := Canonical.shared_le_length parent.lower.labels child.lower.labels
  omega

def fqdn (name : Text) : Name :=
  if endsWithDot false name then name else name ++ [dot]

def canonicalName (name : Text) : Name :=
  (fqdn name).map lowerByte

/-! ## Signatures and digests -/

/-- A tag that tells the public keys of an example apart. -/
def keyTag (key : DNSKEY) : UInt16 :=
  UInt16.ofNat (key.publicKey.foldl (fun sum byte => sum * 31 + byte.val) key.flags.toNat)

def toDS (key : DNSKEY) (digestType : UInt8) : Option DS :=
  if digestType = 1 ∨ digestType = 2 ∨ digestType = 4 then
    some
      { hdr := { key.hdr with rrtype := typeDS }
        keyTag := keyTag key
        algorithm := key.algorithm
        digestType := digestType
        digest := canonicalName key.hdr.name ++ key.publicKey }
  else
    none

/-- The records have one owner, type and class. -/
def isRRset : List RR → Bool
  | [] => false
  | first :: rest => rest.all fun rr =>
    rr.header.name = first.header.name ∧ rr.header.rrtype = first.header.rrtype ∧
      rr.header.rrclass = first.header.rrclass

/-- The checks a signature has to pass besides the cryptographic one.  A signature without labels
cannot be checked for an expanded wildcard, whose name would have an empty label. -/
def wellFormed (sig : RRSIG) (key : DNSKEY) (rrset : List RR) : Bool :=
  isRRset rrset && sig.keyTag = keyTag key && sig.hdr.rrclass = key.hdr.rrclass &&
    sig.algorithm = key.algorithm &&
    canonicalName sig.signerName = canonicalName key.hdr.name &&
    key.protocol = 3 && key.flags &&& 256 = 256 &&
    rrset.all fun rr =>
      rr.header.rrclass = sig.hdr.rrclass ∧ rr.header.rrtype = sig.typeCovered ∧
        sig.labels.toNat ≤ countLabel rr.header.name ∧
        canonicalName rr.header.name = canonicalName sig.hdr.name ∧
        canonicalName sig.signerName <:+ canonicalName rr.header.name ∧
        (sig.labels = 0 → countLabel rr.header.name = 0)

def verify (sig : RRSIG) (key : DNSKEY) (rrset : List RR) : Option Text :=
  if wellFormed sig key rrset then
    if sig.signature = key.publicKey then none else some (text "dns: bad signature")
  else
    some (text "dns: bad rrset")

variable {key : DNSKEY} {rrset : List RR} {sig : RRSIG}

/-- A well-formed signature attests what the library promises. -/
theorem attests_of_wellFormed (formed : wellFormed sig key rrset = true) :
    Attests canonicalName sig key rrset := by
  simp only [wellFormed, Bool.and_eq_true, List.all_eq_true, decide_eq_true_eq] at formed
  obtain ⟨⟨⟨⟨⟨⟨⟨isSet, _⟩, _⟩, _⟩, signer⟩, _⟩, _⟩, members⟩ := formed
  exact
    { nonempty := by rintro rfl; simp [isRRset] at isSet
      owner := fun rr member => (members rr member).2.2.2.1
      rrtype := fun rr member => (members rr member).2.1
      signer := signer.symm }

theorem attests_of_verify (good : verify sig key rrset = none) :
    Attests canonicalName sig key rrset := by
  unfold verify at good
  split at good
  · rename_i formed
    exact attests_of_wellFormed formed
  · cases good

/-- The apex of a sample zone below the root. -/
def exampleName : DomainName := { labels := [text "example"] }

/-- A name after all others of the samples. -/
def lastName : DomainName := { labels := [text "zone"] }

/-- A header without a type. -/
def headerOf (owner : DomainName) : RRHeader where
  owner := owner
  rrtype := 0
  rrclass := classINET
  ttl := 3600

/-- A key with the given owner, flags and public key. -/
def keyOf (owner : RRHeader) (flags : UInt16) (publicKey : Text) : DNSKEY where
  hdr := { owner with rrtype := typeDNSKEY }
  flags := flags
  protocol := 3
  algorithm := 13
  publicKey := publicKey

/-- The DS record with which an owner vouches for a key. -/
def dsOf (owner : RRHeader) (key : DNSKEY) : DS where
  hdr := { owner with rrtype := typeDS }
  keyTag := keyTag key
  algorithm := key.algorithm
  digestType := 2
  digest := canonicalName key.hdr.name ++ key.publicKey

/-- The signature a key makes over a set with the given owner and type; it is valid
from 2001 to 2033. -/
def sign (key : DNSKEY) (owner : RRHeader) (covered : UInt16) : RRSIG where
  hdr := { owner with rrtype := typeRRSIG }
  typeCovered := covered
  algorithm := key.algorithm
  labels := UInt8.ofNat (countLabel owner.name)
  origTtl := owner.ttl
  expiration := 2000000000
  inception := 1000000000
  keyTag := keyTag key
  signer := key.hdr.owner
  signature := key.publicKey

/-- The two keys of a sample root zone. -/
def rootZSK : DNSKEY := keyOf (headerOf .top) 256 (text "root-zsk")

def rootKSK : DNSKEY := keyOf (headerOf .top) 257 (text "root-ksk")

/-- An address record with the given owner. -/
def addressOf (owner : RRHeader) : RR :=
  .other { owner with rrtype := 1 } (text "192.0.2.1")

/-- An address record with its signature. -/
def signedAddress (key : DNSKEY) (owner : RRHeader) : List RR :=
  [addressOf owner, .rrsig (sign key owner 1)]

/-- The DNSKEY response of a zone with a zone-signing and a key-signing key. -/
def keysResponse (zsk ksk : DNSKEY) : Msg where
  rcode := rcodeSuccess
  question := []
  answer := [.dnskey zsk, .dnskey ksk, .rrsig (sign ksk ksk.hdr typeDNSKEY)]
  ns := []

/-- Serial-number comparison of the validity period with the current time. -/
def validityPeriod (sig : RRSIG) (now : Time) : Bool :=
  let utc := now / 1000000000
  let year68 : Int := 2147483648
  let inception := (sig.inception.toNat : Int)
  let expiration := (sig.expiration.toNat : Int)
  let from_ := inception + (inception - utc).tdiv year68 * year68
  let until_ := expiration + (expiration - utc).tdiv year68 * year68
  from_ ≤ utc && utc ≤ until_

/-! ## NSEC3 hashes -/

/-- A hash that is the name itself, written as one label. -/
def hashName (name : Name) : Text :=
  (canonicalName name).map fun byte => if byte = dot then byteOf '-' else byte

/-- The hash and the zone of an NSEC3 owner name. -/
def nsec3Owner (record : NSEC3) : Option (Text × Name) :=
  match splitDomainName (canonicalName record.hdr.name) with
  | hash :: first :: rest => some (hash, fqdn (List.intercalate [dot] (first :: rest)))
  | _ => none

def nsec3Match (record : NSEC3) (name : Name) : Bool :=
  match nsec3Owner record with
  | none => false
  | some (hash, zone) => isSubDomain zone name && hash = hashName name

def nsec3Cover (record : NSEC3) (name : Name) : Bool :=
  match nsec3Owner record with
  | none => false
  | some (hash, zone) =>
    let nameHash := hashName name
    isSubDomain zone name &&
      (if hash = record.nextDomain then nameHash ≠ hash
       else if record.nextDomain < hash then hash < nameHash || nameHash < record.nextDomain
       else !(nameHash < hash) && nameHash < record.nextDomain)

def typeToString (rrtype : UInt16) : Text :=
  if rrtype = 1 then text "A"
  else if rrtype = typeNS then text "NS"
  else if rrtype = typeCNAME then text "CNAME"
  else if rrtype = typeSOA then text "SOA"
  else if rrtype = typeDS then text "DS"
  else if rrtype = typeDNSKEY then text "DNSKEY"
  else []

def rcodeToString (rcode : Nat) : Text :=
  if rcode = rcodeSuccess then text "NOERROR"
  else if rcode = 2 then text "SERVFAIL"
  else if rcode = rcodeNameError then text "NXDOMAIN"
  else []

end Reference

/-- The library with names as documented and symbolic cryptography. -/
def reference : Library where
  canonicalName := Reference.canonicalName
  fqdn := Reference.fqdn
  splitDomainName := Reference.splitDomainName
  compareDomainName := Reference.compareDomainName
  countLabel := Reference.countLabel
  isSubDomain := Reference.isSubDomain
  keyTag := Reference.keyTag
  toDS := Reference.toDS
  verify := Reference.verify
  validityPeriod := Reference.validityPeriod
  nsec3Match := Reference.nsec3Match
  nsec3Cover := Reference.nsec3Cover
  typeToString := Reference.typeToString
  rcodeToString := Reference.rcodeToString
  fqdn_eq := fun _ => rfl
  canonicalName_eq := fun _ _ => rfl
  splitDomainName_print := Reference.splitDomainName_print
  countLabel_print := Reference.countLabel_print
  compareDomainName_print := Reference.compareDomainName_print
  isSubDomain_print := Reference.isSubDomain_print
  attests_of_verify := Reference.attests_of_verify

namespace Reference

/-- What a signature says about the records it covers; their order does not matter. -/
def contentTag (rrset : List RR) : Byte :=
  Fin.ofNat 256 (rrset.map fun rr =>
    match rr with
    | .dnskey key => (keyTag key).toNat
    | _ => 1).sum

/-- The signature a key makes over the given records. -/
def signContent (key : DNSKEY) (owner : RRHeader) (covered : UInt16) (rrset : List RR) : RRSIG :=
  { sign key owner covered with signature := key.publicKey ++ [contentTag rrset] }

def verifyContent (sig : RRSIG) (key : DNSKEY) (rrset : List RR) : Option Text :=
  if wellFormed sig key rrset then
    if sig.signature = key.publicKey ++ [contentTag rrset] then none
    else some (text "dns: bad signature")
  else
    some (text "dns: bad rrset")

end Reference

/-- The same library with signatures that are good for the signed records only. -/
def contentBinding : Library :=
  { reference with
    verify := Reference.verifyContent
    attests_of_verify := by
      intro sig key rrset good
      unfold Reference.verifyContent at good
      split at good
      · rename_i formed
        exact Reference.attests_of_wellFormed formed
      · cases good }

end RouteDns.Dns
