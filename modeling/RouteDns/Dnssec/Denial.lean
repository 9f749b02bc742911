import RouteDns.Dnssec.RRset

/-!
# Denial of existence

The two uses the validator makes of authenticated NSEC and NSEC3 records: to
accept that a delegation has no DS record, and to accept that a name or type does
not exist.  The order in which the sets of a section are visited is not
determined by the section, so functions that walk over it take the order.
-/

namespace RouteDns.Dnssec

open Dns

variable (dns : Library)

/-! ## Denial of a DS record -/

/-- A type bitmap of a delegation point without a DS record: NS is present, DS
and SOA are absent. -/
def bitmapProvesInsecureDelegation (bitmap : List UInt16) : Bool :=
  bitmap.contains typeNS && !bitmap.contains typeDS && !bitmap.contains typeSOA

/-- The NSEC record proves an insecure delegation at its own name. -/
def nsecDeniesDS (record : NSEC) (name : Name) : Bool :=
  dns.canonicalName record.hdr.name = name && bitmapProvesInsecureDelegation record.typeBitMap

/-- The opt-out flag of an NSEC3 record. -/
def optOut (record : NSEC3) : Bool :=
  record.flags &&& 1 = 1

/-- The NSEC3 record proves an insecure delegation, by matching the name or by an
opt-out span that covers it. -/
def nsec3DeniesDS (record : NSEC3) (name : Name) : Bool :=
  if dns.nsec3Match record name then
    bitmapProvesInsecureDelegation record.typeBitMap
  else
    optOut record && dns.nsec3Cover record name

/-- A record of either kind denies the DS record of a name. -/
def deniesDS (name : Name) : RR → Bool
  | .nsec record => nsecDeniesDS dns record name
  | .nsec3 record => nsec3DeniesDS dns record name
  | _ => false

/-- Whether a set holds NSEC or NSEC3 records. -/
def isDenialKey (key : RRsetKey) : Bool :=
  key.rrtype = typeNSEC || key.rrtype = typeNSEC3

/-- The authority section of a response proves, under the keys of the parent zone,
that a name has no DS record. -/
def verifyDSDenial (order : List RRsetKey) (resp : Msg) (name : Name)
    (parentKeys : List DNSKEY) (now : Time) : Except Err Unit :=
  let name := dns.canonicalName name
  if order.any fun key =>
      isDenialKey key &&
        verifyAnyRRSIG dns (sigsOf dns resp.ns key) parentKeys (rrsetOf dns resp.ns key) now &&
        (rrsetOf dns resp.ns key).any (deniesDS dns name) then
    .ok ()
  else
    .error (Sentinel.bogusDenial.withDetail (text " for " ++ name))

/-- A denial is accepted for one signed set with a record that denies. -/
theorem verifyDSDenial_eq_ok_iff (order : List RRsetKey) (resp : Msg) (name : Name)
    (parentKeys : List DNSKEY) (now : Time) :
    verifyDSDenial dns order resp name parentKeys now = .ok () ↔
      ∃ key ∈ order, isDenialKey key = true ∧
        verifyAnyRRSIG dns (sigsOf dns resp.ns key) parentKeys (rrsetOf dns resp.ns key) now =
            true ∧
          (rrsetOf dns resp.ns key).any (deniesDS dns (dns.canonicalName name)) = true := by
  simp only [verifyDSDenial]
  split
  · rename_i denied
    simpa only [List.any_eq_true, Bool.and_eq_true, and_assoc, true_iff] using denied
  · rename_i undenied
    simpa only [List.any_eq_true, Bool.and_eq_true, and_assoc, reduceCtorEq, false_iff] using
      undenied

/-! ## Names in canonical order -/

def isDigit (byte : Byte) : Bool :=
  byteOf '0' ≤ byte && byte ≤ byteOf '9'

/-- Split a text into raw labels, undoing the escapes; `current` holds the bytes of
the label read so far. -/
def labelsFrom : (current : Label) → Text → List Label
  | _, [] => []
  | current, byte :: rest =>
    if byte = backslash then
      match rest with
      | first :: second :: third :: after =>
        if isDigit first && isDigit second && isDigit third then
          labelsFrom (current ++ [byteOfDigits first second third]) after
        else
          labelsFrom (current ++ [first]) (second :: third :: after)
      | first :: after => labelsFrom (current ++ [first]) after
      | [] => []
    else if byte = dot then
      current :: labelsFrom [] rest
    else
      labelsFrom (current ++ [byte]) rest

/-- The raw lower-cased labels of a name, without the root label. -/
def canonicalLabels (name : Name) : List Label :=
  let name := dns.canonicalName name
  if name = root then [] else labelsFrom [] name

/-- `bytes.Compare`. -/
def bytesCompare (left right : Label) : Int :=
  if left < right then -1 else if left = right then 0 else 1

/-- Compare two label lists that start at the outermost label. -/
def compareOuter : List Label → List Label → Int
  | first :: rest, other :: others =>
    if bytesCompare first other ≠ 0 then bytesCompare first other else compareOuter rest others
  | [], [] => 0
  | [], _ :: _ => -1
  | _ :: _, [] => 1

/-- Compare two names in DNSSEC canonical order. -/
def canonicalNameCmp (left right : Name) : Int :=
  compareOuter (canonicalLabels dns left).reverse (canonicalLabels dns right).reverse

/-- The rightmost labels of a name, or the root when there are none. -/
def lastNLabels (name : Name) (count : Nat) : Name :=
  if count = 0 then
    root
  else
    let labels := dns.splitDomainName name
    if labels.length ≤ count then
      dns.canonicalName name
    else
      dns.fqdn (List.intercalate [dot] (labels.drop (labels.length - count)))

/-- The wildcard name below a closest encloser, as text. -/
def wildcardText (encloser : Name) : Name :=
  text "*." ++ encloser

/-! ## NSEC -/

/-- The span of an NSEC record contains a name; the span of the last record wraps
around. -/
def nsecCovers (record : NSEC) (qname : Name) : Bool :=
  let owner := dns.canonicalName record.hdr.name
  let next := dns.canonicalName record.nextDomain
  let qname := dns.canonicalName qname
  if qname = owner then
    false
  else if canonicalNameCmp dns owner next < 0 then
    canonicalNameCmp dns owner qname < 0 && canonicalNameCmp dns qname next < 0
  else
    canonicalNameCmp dns owner qname < 0 || canonicalNameCmp dns qname next < 0

/-- The closest encloser of a name that a covering NSEC record implies. -/
def nsecClosestEncloser (qname : Name) (record : NSEC) : Name :=
  let owner := dns.canonicalName record.hdr.name
  let next := dns.canonicalName record.nextDomain
  lastNLabels dns qname
    (max (dns.compareDomainName qname owner) (dns.compareDomainName qname next))

/-- The bitmap lists neither the type nor CNAME. -/
def bitmapLacks (bitmap : List UInt16) (qtype : UInt16) : Bool :=
  !bitmap.contains qtype && !bitmap.contains typeCNAME

/-- The record is owned by a canonical name. -/
def nsecOwns (name : Name) (record : NSEC) : Bool :=
  dns.canonicalName record.hdr.name = name

/-- Look for a covering record whose wildcard is owned by a record, and let that
record decide. -/
def nsecWildcardNODATA (nsecs : List NSEC) (qname : Name) (qtype : UInt16) : List NSEC → Bool
  | [] => false
  | cover :: rest =>
    if nsecCovers dns cover qname then
      let wildcard := dns.canonicalName (wildcardText (nsecClosestEncloser dns qname cover))
      match nsecs.find? (nsecOwns dns wildcard) with
      | some record => bitmapLacks record.typeBitMap qtype
      | none => nsecWildcardNODATA nsecs qname qtype rest
    else
      nsecWildcardNODATA nsecs qname qtype rest

/-- The records prove that a name exists without a type. -/
def nsecProvesNODATA (nsecs : List NSEC) (qname : Name) (qtype : UInt16) : Bool :=
  let qname := dns.canonicalName qname
  match nsecs.find? (nsecOwns dns qname) with
  | some record => bitmapLacks record.typeBitMap qtype
  | none => nsecWildcardNODATA dns nsecs qname qtype nsecs

/-- The records prove that a name does not exist: it is covered, and so is the
wildcard at its closest encloser. -/
def nsecProvesNXDOMAIN (nsecs : List NSEC) (qname : Name) : Bool :=
  let qname := dns.canonicalName qname
  match nsecs.find? (nsecCovers dns · qname) with
  | none => false
  | some cover =>
    let wildcard := dns.canonicalName (wildcardText (nsecClosestEncloser dns qname cover))
    -- the first record that says anything about the wildcard decides
    match nsecs.find? fun record =>
        nsecOwns dns wildcard record || nsecCovers dns record wildcard with
    | none => false
    | some record => !nsecOwns dns wildcard record

/-- The NSEC records prove the denial for a response code. -/
def nsecProvesDenial (nsecs : List NSEC) (qname : Name) (qtype : UInt16) (rcode : Nat) : Bool :=
  if nsecs = [] then
    false
  else if rcode = rcodeNameError then
    nsecProvesNXDOMAIN dns nsecs qname
  else if rcode = rcodeSuccess then
    nsecProvesNODATA dns nsecs qname qtype
  else
    false

/-! ## NSEC3 -/

def nsec3MatchAny (nsec3s : List NSEC3) (name : Name) : Bool :=
  nsec3s.any (dns.nsec3Match · name)

def nsec3CoverAny (nsec3s : List NSEC3) (name : Name) : Bool :=
  nsec3s.any (dns.nsec3Cover · name)

def nsec3OptOutCovers (nsec3s : List NSEC3) (name : Name) : Bool :=
  nsec3s.any fun record => optOut record && dns.nsec3Cover record name

/-- Try the ancestors of a name with fewer than the given number of labels, the
longest first. -/
def nsec3ClosestEncloserBelow (nsec3s : List NSEC3) (qname : Name) : Nat → Option (Name × Name)
  | 0 => none
  | count + 1 =>
    if nsec3MatchAny dns nsec3s (lastNLabels dns qname count) then
      some (lastNLabels dns qname count, lastNLabels dns qname (count + 1))
    else
      nsec3ClosestEncloserBelow nsec3s qname count

/-- The longest proper ancestor of a name that a record matches, with the next
closer name. -/
def nsec3ClosestEncloser (nsec3s : List NSEC3) (qname : Name) : Option (Name × Name) :=
  let qname := dns.canonicalName qname
  nsec3ClosestEncloserBelow dns nsec3s qname (dns.countLabel qname)

/-- The wildcard case of a denied type. -/
def nsec3WildcardNODATA (nsec3s : List NSEC3) (qname : Name) (qtype : UInt16) : Bool :=
  match nsec3ClosestEncloser dns nsec3s qname with
  | none => false
  | some (encloser, nextCloser) =>
    if nsec3CoverAny dns nsec3s nextCloser then
      match nsec3s.find? (dns.nsec3Match · (wildcardText encloser)) with
      | some record => bitmapLacks record.typeBitMap qtype
      | none => false
    else
      false

/-- The records prove that a name exists without a type. -/
def nsec3ProvesNODATA (nsec3s : List NSEC3) (qname : Name) (qtype : UInt16) : Bool :=
  let qname := dns.canonicalName qname
  match nsec3s.find? (dns.nsec3Match · qname) with
  | some record => bitmapLacks record.typeBitMap qtype
  | none =>
    if qtype = typeDS && nsec3OptOutCovers dns nsec3s qname then
      true
    else
      nsec3WildcardNODATA dns nsec3s qname qtype

/-- The records prove that a name does not exist, or that it may be an unsigned
delegation in an opt-out span. -/
def nsec3ProvesNXDOMAIN (nsec3s : List NSEC3) (qname : Name) : Bool :=
  match nsec3ClosestEncloser dns nsec3s qname with
  | none => false
  | some (encloser, nextCloser) =>
    if nsec3CoverAny dns nsec3s nextCloser then
      nsec3CoverAny dns nsec3s (wildcardText encloser) ||
        nsec3OptOutCovers dns nsec3s nextCloser
    else
      false

/-- The NSEC3 records prove the denial for a response code. -/
def nsec3ProvesDenial (nsec3s : List NSEC3) (qname : Name) (qtype : UInt16) (rcode : Nat) :
    Bool :=
  if nsec3s = [] then
    false
  else if rcode = rcodeNameError then
    nsec3ProvesNXDOMAIN dns nsec3s qname
  else if rcode = rcodeSuccess then
    nsec3ProvesNODATA dns nsec3s qname qtype
  else
    false

/-! ## Response codes

No records prove nothing, so the test for an empty set never decides. -/

theorem nsecProvesDenial_nameError (nsecs : List NSEC) (qname : Name) (qtype : UInt16) :
    nsecProvesDenial dns nsecs qname qtype rcodeNameError = nsecProvesNXDOMAIN dns nsecs qname := by
  cases nsecs <;> rfl

theorem nsecProvesDenial_success (nsecs : List NSEC) (qname : Name) (qtype : UInt16) :
    nsecProvesDenial dns nsecs qname qtype rcodeSuccess =
      nsecProvesNODATA dns nsecs qname qtype := by
  cases nsecs <;> rfl

theorem nsec3ClosestEncloserBelow_nil (qname : Name) (count : Nat) :
    nsec3ClosestEncloserBelow dns [] qname count = none := by
  induction count with
  | zero => rfl
  | succ count ih => exact ih

theorem nsec3ProvesDenial_success (nsec3s : List NSEC3) (qname : Name) (qtype : UInt16) :
    nsec3ProvesDenial dns nsec3s qname qtype rcodeSuccess =
      nsec3ProvesNODATA dns nsec3s qname qtype := by
  cases nsec3s with
  | nil =>
    simp [nsec3ProvesDenial, nsec3ProvesNODATA, nsec3OptOutCovers, nsec3WildcardNODATA,
      nsec3ClosestEncloser, nsec3ClosestEncloserBelow_nil]
  | cons record rest => rfl

end RouteDns.Dnssec
