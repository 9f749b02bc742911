import RouteDns.Dnssec.Keystore

/-!
# Signatures, key selection and grouping

The parts of the validator that only look at records: error values, the name of
the parent zone, verification of one set under given keys, the keys a DS set
vouches for, and grouping of a message section into sets with their signatures.
-/

namespace RouteDns.Dnssec

open Dns

/-! ## Errors -/

/-- The error values of the package that callers test for. -/
inductive Sentinel where
  | noSignature
  | noKey
  | signatureInvalid
  | signatureExpired
  | dsMismatch
  | noTrustAnchor
  | insecureDelegation
  | signerOutOfBailiwick
  | denialOfExistence
  | bogusDenial
  deriving DecidableEq

/-- The message of each error value. -/
def Sentinel.message : Sentinel → Text
  | noSignature => text "dnssec: no RRSIG for RRset"
  | noKey => text "dnssec: no matching DNSKEY"
  | signatureInvalid => text "dnssec: signature verification failed"
  | signatureExpired => text "dnssec: RRSIG outside its validity period"
  | dsMismatch => text "dnssec: DNSKEY doesn't match DS"
  | noTrustAnchor => text "dnssec: no trust anchor"
  | insecureDelegation => text "dnssec: insecure delegation"
  | signerOutOfBailiwick => text "dnssec: RRSIG signer name out of bailiwick"
  | denialOfExistence => text "dnssec: denial of existence not proven"
  | bogusDenial => text "dnssec: unauthenticated denial of DS"

/-- An error: one of the package's own values, a message of its own, or another
error wrapped between two pieces of text. -/
inductive Err where
  | sentinel (value : Sentinel)
  | plain (message : Text)
  | wrap (before : Text) (cause : Err) (after : Text)
  deriving DecidableEq

namespace Err

/-- `errors.Is`: the value is somewhere in the chain of wrapped errors. -/
def is (value : Sentinel) : Err → Bool
  | sentinel own => own = value
  | plain _ => false
  | wrap _ cause _ => cause.is value

/-- The text of an error. -/
def message : Err → Text
  | sentinel value => value.message
  | plain message => message
  | wrap before cause after => before ++ cause.message ++ after

@[simp]
theorem is_wrap (value : Sentinel) (before after : Text) (cause : Err) :
    (wrap before cause after).is value = cause.is value :=
  rfl

end Err

/-- An error value of the package followed by some detail. -/
def Sentinel.withDetail (value : Sentinel) (detail : Text) : Err :=
  .wrap [] (.sentinel value) detail

@[simp]
theorem is_withDetail (value own : Sentinel) (detail : Text) :
    (own.withDetail detail).is value = decide (own = value) :=
  rfl

/-- Decimal notation. -/
def decimal (value : Nat) : Text :=
  text (Nat.repr value)

section

variable (dns : Library)

/-! ## The parent zone -/

/-- The part of a text after its first dot. -/
def afterDot? : Text → Option Text
  | [] => none
  | byte :: rest => if byte = dot then some rest else afterDot? rest

/-- The parent zone of a zone name: everything after the first dot, or the root
when nothing is left. -/
def parentZone (name : Name) : Name :=
  let name := dns.canonicalName name
  if name = root then
    root
  else
    match afterDot? name with
    | none => root
    | some parent => if parent = [] then root else parent

theorem afterDot?_eq_some {name after : Text} (cut : afterDot? name = some after) :
    ∃ before, name = before ++ dot :: after := by
  induction name with
  | nil => cases cut
  | cons byte rest ih =>
    rw [afterDot?] at cut
    split at cut
    · rename_i byte_eq
      cases cut
      exact ⟨[], by rw [byte_eq]; rfl⟩
    · obtain ⟨before, rfl⟩ := ih cut
      exact ⟨byte :: before, rfl⟩

variable {zone : Name}

/-- The parent of a canonical zone name is canonical. -/
theorem isCanonical_parentZone (canonical : dns.IsCanonical zone) :
    dns.IsCanonical (parentZone dns zone) := by
  simp only [parentZone, canonical.2]
  split
  · exact dns.isCanonical_root
  · split
    · exact dns.isCanonical_root
    · rename_i parent cut
      split
      · exact dns.isCanonical_root
      · rename_i parent_ne
        obtain ⟨before, rfl⟩ := afterDot?_eq_some cut
        have qualified := canonical.1.after_dot parent_ne
        refine ⟨qualified, ?_⟩
        have lowered := canonical.2
        rw [dns.canonicalName_of_qualified canonical.1, List.map_append, List.map_cons] at lowered
        rw [dns.canonicalName_of_qualified qualified]
        exact (List.cons.inj (List.append_inj_right lowered (by simp))).2

theorem parentZone_canonicalName (qualified : Qualified zone) :
    parentZone dns (dns.canonicalName zone) = parentZone dns zone := by
  simp only [parentZone, dns.canonicalName_idem qualified]

theorem qualified_parentZone (qualified : Qualified zone) : Qualified (parentZone dns zone) := by
  rw [← parentZone_canonicalName dns qualified]
  exact (isCanonical_parentZone dns (dns.isCanonical_canonicalName qualified)).1

/-- Going to the parent makes a zone name shorter. -/
theorem length_parentZone_lt (canonical : dns.IsCanonical zone) (zone_ne : zone ≠ root) :
    (parentZone dns zone).length < zone.length := by
  have long : root.length < zone.length := by
    have dotMem := canonical.1.dot_mem
    rcases zone with _ | ⟨first, rest⟩
    · simp at dotMem
    · cases rest with
      | cons other rest => simp [root]
      | nil =>
        have first_dot : first = dot := by simpa [eq_comm] using dotMem
        exact absurd (by rw [first_dot]; rfl) zone_ne
  simp only [parentZone, canonical.2, if_neg zone_ne]
  split
  · exact long
  · rename_i parent cut
    split
    · exact long
    · obtain ⟨before, rfl⟩ := afterDot?_eq_some cut
      simp only [List.length_append, List.length_cons]
      omega

/-! ## Verifying one set -/

/-- The keys with a key tag and an algorithm. -/
def findKeysByTag (keys : List DNSKEY) (tag : UInt16) (alg : UInt8) : List DNSKEY :=
  keys.filter fun key => dns.keyTag key = tag ∧ key.algorithm = alg

/-- Try the candidate keys of a signature in order. -/
def verifyWithKeys (sig : RRSIG) (rrset : List RR) (lastErr : Text) :
    List DNSKEY → Except Err Unit
  | [] => .error (Sentinel.signatureInvalid.withDetail (text ": " ++ lastErr))
  | key :: rest =>
    match dns.verify sig key rrset with
    | none => .ok ()
    | some failure => verifyWithKeys sig rrset failure rest

/-- Verify a signature over a set: it must be inside its validity period and good
under one of the keys with its tag and algorithm. -/
def verifyRRSIG (sig : RRSIG) (keys : List DNSKEY) (rrset : List RR) (now : Time) :
    Except Err Unit :=
  if dns.validityPeriod sig now then
    let matching := findKeysByTag dns keys sig.keyTag sig.algorithm
    if matching = [] then
      .error (Sentinel.noKey.withDetail (text ": tag=" ++ decimal sig.keyTag.toNat ++
        text " alg=" ++ decimal sig.algorithm.toNat))
    else
      verifyWithKeys dns sig rrset [] matching
  else
    .error (Sentinel.signatureExpired.withDetail (text ": inception=" ++
      decimal sig.inception.toNat ++ text " expiration=" ++ decimal sig.expiration.toNat))

/-- One of the signatures verifies under the keys. -/
def verifyAnyRRSIG (sigs : List RRSIG) (keys : List DNSKEY) (rrset : List RR) (now : Time) :
    Bool :=
  sigs.any fun sig => (verifyRRSIG dns sig keys rrset now).toBool

theorem verifyWithKeys_eq_ok_iff (sig : RRSIG) (rrset : List RR) (lastErr : Text)
    (keys : List DNSKEY) :
    verifyWithKeys dns sig rrset lastErr keys = .ok () ↔
      ∃ key ∈ keys, dns.verify sig key rrset = none := by
  induction keys generalizing lastErr with
  | nil => simp [verifyWithKeys]
  | cons key rest ih =>
    cases good : dns.verify sig key rrset with
    | none => simp [verifyWithKeys, good]
    | some failure => simp [verifyWithKeys, good, ih]

/-- A key of a set makes a signature good at a time. -/
structure Signs (sig : RRSIG) (key : DNSKEY) (rrset : List RR) (now : Time) : Prop where
  current : dns.validityPeriod sig now = true
  tag : dns.keyTag key = sig.keyTag
  algorithm : key.algorithm = sig.algorithm
  good : dns.verify sig key rrset = none

instance (sig : RRSIG) (key : DNSKEY) (rrset : List RR) (now : Time) :
    Decidable (Signs dns sig key rrset now) :=
  decidable_of_iff (dns.validityPeriod sig now = true ∧ dns.keyTag key = sig.keyTag ∧
      key.algorithm = sig.algorithm ∧ dns.verify sig key rrset = none)
    ⟨fun ⟨current, tag, algorithm, good⟩ => ⟨current, tag, algorithm, good⟩,
      fun ⟨current, tag, algorithm, good⟩ => ⟨current, tag, algorithm, good⟩⟩

/-- Verification succeeds exactly when one of the keys makes the signature good. -/
theorem verifyRRSIG_eq_ok_iff (sig : RRSIG) (keys : List DNSKEY) (rrset : List RR) (now : Time) :
    verifyRRSIG dns sig keys rrset now = .ok () ↔ ∃ key ∈ keys, Signs dns sig key rrset now := by
  unfold verifyRRSIG
  by_cases current : dns.validityPeriod sig now
  · rw [if_pos current]
    by_cases none_match : findKeysByTag dns keys sig.keyTag sig.algorithm = []
    · simp only [none_match, if_true, reduceCtorEq, false_iff]
      rintro ⟨key, member, signs⟩
      have selected : key ∈ findKeysByTag dns keys sig.keyTag sig.algorithm := by
        simp [findKeysByTag, member, signs.tag, signs.algorithm]
      simp [none_match] at selected
    · simp only [none_match, if_false, verifyWithKeys_eq_ok_iff]
      constructor
      · rintro ⟨key, selected, good⟩
        simp only [findKeysByTag, List.mem_filter, decide_eq_true_eq] at selected
        exact ⟨key, selected.1, current, selected.2.1, selected.2.2, good⟩
      · rintro ⟨key, member, signs⟩
        exact ⟨key, by simp [findKeysByTag, member, signs.tag, signs.algorithm], signs.good⟩
  · rw [if_neg current]
    simp only [reduceCtorEq, false_iff]
    rintro ⟨key, _, signs⟩
    exact current signs.current

theorem verifyAnyRRSIG_iff (sigs : List RRSIG) (keys : List DNSKEY) (rrset : List RR)
    (now : Time) :
    verifyAnyRRSIG dns sigs keys rrset now = true ↔
      ∃ sig ∈ sigs, ∃ key ∈ keys, Signs dns sig key rrset now := by
  have toBool_iff : ∀ sig, (verifyRRSIG dns sig keys rrset now).toBool = true ↔
      verifyRRSIG dns sig keys rrset now = .ok () := by
    intro sig
    cases verifyRRSIG dns sig keys rrset now <;> simp [Except.toBool]
  simp only [verifyAnyRRSIG, List.any_eq_true, toBool_iff, verifyRRSIG_eq_ok_iff]

/-! ## Keys a DS set vouches for -/

/-- Case-insensitive comparison of digests, which are hexadecimal text. -/
def equalFold (left right : Text) : Bool :=
  left.map lowerByte = right.map lowerByte

/-- The digest of a key is that of a DS record. -/
def digestMatches (key : DNSKEY) (ds : DS) : Bool :=
  match dns.toDS key ds.digestType with
  | none => false
  | some computed => equalFold computed.digest ds.digest

/-- The keys whose digest is that of one of the DS records. -/
def filterKeysByDS (keys : List DNSKEY) (ds : List DS) : List DNSKEY :=
  keys.filter fun key => ds.any (digestMatches dns key)

@[simp]
theorem mem_filterKeysByDS {key : DNSKEY} {keys : List DNSKEY} {ds : List DS} :
    key ∈ filterKeysByDS dns keys ds ↔ key ∈ keys ∧ ∃ d ∈ ds, digestMatches dns key d = true := by
  simp [filterKeysByDS]

end

end RouteDns.Dnssec
