import RouteDns.Dns.Record
import RouteDns.Canonical.Order

/-!
# The DNS library

The validator is written against an external DNS library.  Its functions are
parameters here, together with the documented facts the validator relies on:
how names are brought into canonical form, split and compared, and what a
successful signature check establishes beyond the cryptography.  Key tags,
digests, the cryptographic check itself, validity periods and the hash
comparisons of NSEC3 records are left open.
-/

namespace RouteDns.Dns

/-- What a successful signature check establishes besides the cryptography: the
records form one set with the owner and type the signature names, and the key is
a zone key of the signer. -/
structure Attests (canonicalName : Name → Name) (sig : RRSIG) (key : DNSKEY)
    (rrset : List RR) : Prop where
  nonempty : rrset ≠ []
  owner : ∀ rr ∈ rrset, canonicalName rr.header.name = canonicalName sig.hdr.name
  rrtype : ∀ rr ∈ rrset, rr.header.rrtype = sig.typeCovered
  signer : canonicalName key.hdr.name = canonicalName sig.signerName

/-- The functions of the DNS library the validator calls, with their documented
behaviour.  `verify` returns the error text, or nothing when the signature is
good; `toDS` returns nothing for a digest type it does not know. -/
structure Library where
  canonicalName : Name → Name
  fqdn : Text → Name
  splitDomainName : Name → List Text
  compareDomainName : Name → Name → Nat
  countLabel : Name → Nat
  isSubDomain : (parent child : Name) → Bool
  keyTag : DNSKEY → UInt16
  toDS : DNSKEY → (digestType : UInt8) → Option DS
  verify : RRSIG → DNSKEY → List RR → Option Text
  validityPeriod : RRSIG → Time → Bool
  nsec3Match : NSEC3 → Name → Bool
  nsec3Cover : NSEC3 → Name → Bool
  typeToString : UInt16 → Text
  rcodeToString : Nat → Text
  fqdn_eq : ∀ name, fqdn name = if endsWithDot false name then name else name ++ [dot]
  canonicalName_eq : ∀ name, Qualified (fqdn name) →
    canonicalName name = (fqdn name).map lowerByte
  splitDomainName_print : ∀ name : DomainName,
    splitDomainName name.print = name.labels.map printLabel
  countLabel_print : ∀ name : DomainName, countLabel name.print = name.labels.length
  compareDomainName_print : ∀ left right : DomainName,
    compareDomainName left.print right.print =
      Canonical.shared left.lower.labels right.lower.labels
  isSubDomain_print : ∀ parent child : DomainName,
    isSubDomain parent.print child.print = true ↔ parent.lower.labels <:+ child.lower.labels
  attests_of_verify : ∀ {sig key rrset}, verify sig key rrset = none →
    Attests canonicalName sig key rrset

namespace Library

variable (dns : Library)

variable {name : Name}

theorem canonicalName_of_qualified (qualified : Qualified name) :
    dns.canonicalName name = name.map lowerByte := by
  have fqdn_self : dns.fqdn name = name := by rw [dns.fqdn_eq, if_pos qualified.ends]
  rw [dns.canonicalName_eq name (by rwa [fqdn_self]), fqdn_self]

theorem canonicalName_qualified (qualified : Qualified name) :
    Qualified (dns.canonicalName name) := by
  rw [dns.canonicalName_of_qualified qualified]
  exact qualified.map_lowerByte

/-- Canonical form is a fixed point on fully qualified names. -/
theorem canonicalName_idem (qualified : Qualified name) :
    dns.canonicalName (dns.canonicalName name) = dns.canonicalName name := by
  rw [dns.canonicalName_of_qualified (dns.canonicalName_qualified qualified),
    dns.canonicalName_of_qualified qualified, List.map_map]
  apply List.map_congr_left
  intro byte _
  exact lowerByte_idem byte

/-- The canonical form of a printed name is the printed lower-case name. -/
@[simp]
theorem canonicalName_print (name : DomainName) :
    dns.canonicalName name.print = name.lower.print := by
  rw [dns.canonicalName_of_qualified name.print_qualified, map_lowerByte_print]

/-- Printed labels joined and qualified again are the printed name. -/
theorem fqdn_intercalate {labels : List Label} (labels_ne : labels ≠ [])
    (nonempty : ∀ label ∈ labels, label ≠ []) :
    dns.fqdn (List.intercalate [dot] (labels.map printLabel)) = printLabels labels := by
  rw [dns.fqdn_eq, not_endsWithDot_intercalate nonempty, if_neg (by simp),
    intercalate_printLabel labels_ne]

@[simp]
theorem canonicalName_root : dns.canonicalName root = root := by
  rw [dns.canonicalName_of_qualified root_qualified]
  decide

/-- A text that is canonical and fully qualified. -/
def IsCanonical (name : Name) : Prop :=
  Qualified name ∧ dns.canonicalName name = name

theorem isCanonical_canonicalName (qualified : Qualified name) :
    dns.IsCanonical (dns.canonicalName name) :=
  ⟨dns.canonicalName_qualified qualified, dns.canonicalName_idem qualified⟩

theorem isCanonical_root : dns.IsCanonical root :=
  ⟨root_qualified, dns.canonicalName_root⟩

end Library

end RouteDns.Dns
