import RouteDns.Dnssec.Session

/-!
# The validator

`Validate` and everything it calls that looks up records, reads the clock or uses
the keystore.  The recursion of `buildChainOfTrust` climbs one label at a time; it
is bounded here by the length of the zone name, which the name of a parent zone
always undercuts.
-/

namespace RouteDns.Dnssec

open Dns

variable (dns : Library) {ω : Type} (world : World ω)

/-! ## Keystore access -/

/-- The keys stored for a zone, none if they have expired. -/
def getDNSKEY (name : Name) : Action ω KeySet := do
  match (← readStore).storedKeys dns name with
  | none => pure ⟨[], []⟩
  | some stored =>
    if stored.expiresAt < (← readClock world) then pure ⟨[], []⟩ else pure stored.keys

/-- The DS records configured for a zone, none if they have expired. -/
def getDS (name : Name) : Action ω (List DS) := do
  match (← readStore).storedDS dns name with
  | none => pure []
  | some stored =>
    if stored.expiresAt < (← readClock world) then pure [] else pure stored.records

def addDNSKEY (name : Name) (keys : List DNSKEY) : Action ω Unit := do
  let now ← readClock world
  writeStore ((← readStore).addDNSKEY dns name keys now)

def addDS (name : Name) (dss : List DS) : Action ω Unit := do
  let now ← readClock world
  writeStore ((← readStore).addDS dns name dss now)

/-- The DS record that a trust anchor configured for a name stands for. -/
def anchorDS (name : DomainName) (tag : UInt16) (alg digestType : UInt8) (digest : Text) : DS where
  hdr :=
    { owner := name.lower
      rrtype := typeDS
      rrclass := classINET
      ttl := 4294967295 }
  keyTag := tag
  algorithm := alg
  digestType := digestType
  digest := digest.map upperByte

/-- A configured owner text, with or without its final dot, and the domain name it
spells. -/
structure AnchorOwner where
  owner : Text
  name : DomainName
  spells : dns.fqdn owner = name.print

/-- The canonical form of a configured owner. -/
theorem AnchorOwner.canonicalName_owner {dns : Library} (anchor : AnchorOwner dns) :
    dns.canonicalName anchor.owner = anchor.name.lower.print := by
  have qualified : Qualified (dns.fqdn anchor.owner) := by
    rw [anchor.spells]
    exact anchor.name.print_qualified
  rw [dns.canonicalName_eq _ qualified, anchor.spells, map_lowerByte_print]

/-- Configure a trust anchor. -/
def setAnchor (anchor : AnchorOwner dns) (tag : UInt16) (alg digestType : UInt8)
    (digest : Text) : Action ω Unit := do
  let ds := anchorDS anchor.name tag alg digestType digest
  note (.anchored ds)
  addDS dns world anchor.owner [ds]

/-! ## Lookups -/

def dnskeysIn (records : List RR) : List DNSKEY :=
  records.filterMap fun
    | .dnskey key => some key
    | _ => none

def dssIn (records : List RR) : List DS :=
  records.filterMap fun
    | .ds record => some record
    | _ => none

def rrsigsIn (records : List RR) : List RRSIG :=
  records.filterMap RR.asRRSIG?

/-- A name between double quotes. -/
def quoted (name : Name) : Text :=
  text "\"" ++ name.flatMap (fun byte =>
    if byte = backslash ∨ byte = byteOf '"' then [backslash, byte] else [byte]) ++ text "\""

/-- Fetch the DNSKEY records of a zone and the signatures that come with them. -/
def lookupDNSKEY (name : Name) : Action ω (KeySet × List RRSIG) := do
  let msg ← resolve world (.dnssec (dns.canonicalName name) typeDNSKEY)
  if msg.rcode = rcodeSuccess then
    pure (KeySet.classify (dnskeysIn msg.answer), rrsigsIn msg.answer)
  else
    Program.fail (.plain (text "DNSKEY lookup for " ++ quoted name ++ text " failed: rcode " ++
      dns.rcodeToString msg.rcode))

/-- What a DS lookup returns. -/
structure DSLookup where
  ds : List DS
  sigs : List RRSIG
  resp : Msg

/-- The DS records and their signatures in a response; only a successful response
is searched. -/
def DSLookup.ofResponse (resp : Msg) : DSLookup :=
  if resp.rcode = rcodeSuccess then
    { ds := dssIn resp.answer
      sigs := (rrsigsIn resp.answer).filter fun sig => sig.typeCovered = typeDS
      resp := resp }
  else
    { ds := [], sigs := [], resp := resp }

/-- Fetch the DS records of a zone. -/
def lookupDS (name : Name) : Action ω DSLookup := do
  let msg ← resolve world (.dnssec (dns.canonicalName name) typeDS)
  pure (DSLookup.ofResponse msg)

/-! ## The chain of trust -/

/-- Verify a signature at the current time. -/
def verifyNow (keys : List DNSKEY) (rrset : List RR) (sig : RRSIG) :
    Action ω (Except Err Unit) := do
  let now ← readClock world
  pure (verifyRRSIG dns sig keys rrset now)

/-- Look whether a signature verifies under known keys. -/
def tryKeys (keys : List DNSKEY) (rrset : List RR) (sig : RRSIG) : Action ω (Option Unit) := do
  match ← verifyNow dns world keys rrset sig with
  | .ok () => pure (some ())
  | .error _ => pure none

/-- One of the signatures verifies; the clock is read for each that is tried. -/
def anyVerifies (keys : List DNSKEY) (rrset : List RR) (sigs : List RRSIG) : Action ω Bool := do
  let found ← Program.search (tryKeys dns world keys rrset) sigs
  pure found.isSome

/-- The denial of a DS record in a response, checked at the current time. -/
def checkDSDenial (resp : Msg) (zone : Name) (parentKeys : List DNSKEY) : Action ω Unit := do
  let now ← readClock world
  let order ← rangeOver world (rrsetKeys dns resp.ns)
  Program.ofExcept (verifyDSDenial dns order.val resp zone parentKeys now)

/-- Accept the DS records of a lookup under the keys of the parent zone; without records
the parent zone has to deny them. -/
def checkDelegation (zone : Name) (found : DSLookup) (parentKeys : KeySet) :
    Action ω (List DS) :=
  if found.ds = [] then do
    checkDSDenial dns world found.resp zone parentKeys.zsk
    Program.fail (Sentinel.insecureDelegation.withDetail (text ": " ++ zone))
  else if found.sigs = [] then
    Program.fail (Sentinel.noSignature.withDetail (text ": DS for " ++ zone))
  else do
    if ← anyVerifies dns world parentKeys.zsk (found.ds.map RR.ds) found.sigs then
      pure found.ds
    else
      Program.fail (Sentinel.signatureInvalid.withDetail (text ": DS RRSIG for " ++ zone))

/-- The DS records that vouch for a zone: the configured anchors of the root, or
a set signed by the parent zone, whose chain of trust `chain` builds. -/
def authenticateDS (chain : Name → Action ω KeySet) (zone : Name) : Action ω (List DS) :=
  if zone = root then do
    let ds ← getDS dns world root
    if ds = [] then Program.fail (.sentinel .noTrustAnchor) else pure ds
  else do
    let found ← (lookupDS dns world zone).mapError
      fun cause => .wrap (text "failed to lookup DS for " ++ zone ++ text ": ") cause []
    let parentKeys ← (chain (parentZone dns zone)).mapError
      fun cause => .wrap (text "failed to build chain of trust for parent " ++
        parentZone dns zone ++ text ": ") cause []
    checkDelegation dns world zone found parentKeys

/-- The signatures over a DNSKEY set that its own zone made. -/
def selfSignatures (zone : Name) (sigs : List RRSIG) : List RRSIG :=
  sigs.filter fun sig =>
    dns.canonicalName sig.signerName = zone ∧ sig.typeCovered = typeDNSKEY

/-- Accept fetched keys that a DS-matching key among them signs. -/
def checkSelfSignature (zone : Name) (keys : KeySet) (sigs : List RRSIG) (ds : List DS) :
    Action ω Unit := do
  let trustedKSK := filterKeysByDS dns keys.ksk ds
  if trustedKSK = [] then
    Program.fail (.wrap (text "KSK doesn't match DS for " ++ zone ++ text ": ")
      (.sentinel .dsMismatch) [])
  else
    let candidates := selfSignatures dns zone sigs
    if candidates = [] then
      Program.fail (Sentinel.noSignature.withDetail
        (text ": no RRSIG covering DNSKEY for " ++ zone))
    else if ← anyVerifies dns world trustedKSK (keys.all.map RR.dnskey) candidates then
      pure ()
    else
      Program.fail (.wrap (text "DNSKEY self-signature verification failed for " ++ zone ++
        text ": ") (.sentinel .signatureInvalid) [])

/-- Authenticate the keys of a zone that a lookup returned. -/
def checkOffered (chain : Name → Action ω KeySet) (zone : Name) (keys : KeySet)
    (sigs : List RRSIG) : Action ω KeySet :=
  if keys.ksk = [] then
    Program.fail (Sentinel.noKey.withDetail (text ": no KSK for " ++ zone))
  else do
    let ds ← authenticateDS dns world chain zone
    checkSelfSignature dns world zone keys sigs ds
    pure keys

/-- Fetch the keys of a zone and authenticate them. -/
def checkedKeys (chain : Name → Action ω KeySet) (zone : Name) : Action ω KeySet := do
  let found ← (lookupDNSKEY dns world zone).mapError
    fun cause => .wrap (text "failed to lookup DNSKEY for " ++ zone ++ text ": ") cause []
  checkOffered dns world chain zone found.1 found.2

/-- Fetch the keys of a zone, authenticate them and store them. -/
def fetchKeys (chain : Name → Action ω KeySet) (zone : Name) : Action ω KeySet := do
  let keys ← checkedKeys dns world chain zone
  addDNSKEY dns world zone keys.all
  pure keys

/-- The stored keys of a zone, or fetched ones. -/
def zoneKeys (chain : Name → Action ω KeySet) (zone : Name) : Action ω KeySet := do
  let stored ← getDNSKEY dns world zone
  if stored.IsEmpty then fetchKeys dns world chain zone else pure stored

/-- One level of the chain of trust, noted in the trace when it returns. -/
def chainStep (chain : Name → Action ω KeySet) (zone : Name) : Action ω KeySet := do
  let keys ← zoneKeys dns world chain (dns.canonicalName zone)
  note (.trusted (dns.canonicalName zone) keys)
  pure keys

/-- The chain of trust with a bound on the number of levels. -/
def chainWithin : Nat → Name → Action ω KeySet
  | 0, _ => Program.fail (.sentinel .noTrustAnchor)
  | levels + 1, zone => chainStep dns world (chainWithin levels) zone

/-- The validated keys of a zone. -/
def buildChainOfTrust (zone : Name) : Action ω KeySet :=
  chainWithin dns world (dns.canonicalName zone).length zone

/-! ## Insecure delegations -/

/-- A zone has no DS record and its parent zone proves it. -/
def proveNoDS (zone : Name) : Action ω Bool := do
  let found ← lookupDS dns world zone
  if found.ds ≠ [] then
    pure false
  else do
    match ← (buildChainOfTrust dns world (parentZone dns zone)).attempt with
    | .error cause => if cause.is .insecureDelegation then pure true else Program.fail cause
    | .ok parentKeys =>
      checkDSDenial dns world found.resp zone parentKeys.zsk
      pure true

/-- The names from the one below the root down to the given name. -/
def enclosingZones (name : Name) : List Name :=
  let labels := dns.splitDomainName name
  (List.range labels.length).reverse.map fun skipped =>
    dns.fqdn (List.intercalate [dot] (labels.drop skipped))

/-- Fail at the first zone that is an insecure delegation. -/
def checkZones : List Name → Action ω Unit
  | [] => pure ()
  | zone :: rest => do
    if ← proveNoDS dns world zone then
      Program.fail (Sentinel.insecureDelegation.withDetail (text ": " ++ zone))
    else
      checkZones rest

/-- Walk from the root toward a name and fail at the first insecure delegation. -/
def checkInsecureDelegation (name : Name) : Action ω Unit :=
  let name := dns.canonicalName name
  if name = root then pure () else checkZones dns world (enclosingZones dns name)

/-! ## Validation -/

/-- The owner of a set, read off its first record.  A grouped set has one. -/
def ownerOf : List RR → Name
  | [] => root
  | rr :: _ => rr.header.name

/-- Try the signatures of a set in order; without success the last error counts. -/
def validateWith (rrset : List RR) (owner : Name) :
    (lastErr : Option Err) → List RRSIG → Action ω Unit
  | lastErr, [] =>
    match lastErr with
    | none => pure ()
    | some failure => Program.fail failure
  | _, sig :: rest => do
    let signer := dns.canonicalName sig.signerName
    if dns.isSubDomain signer owner then
      match ← (buildChainOfTrust dns world signer).attempt with
      | .error failure => validateWith rrset owner (some failure) rest
      | .ok keys =>
        match ← verifyNow dns world keys.zsk rrset sig with
        | .error failure => validateWith rrset owner (some failure) rest
        | .ok () => pure ()
    else
      validateWith rrset owner (some (Sentinel.signerOutOfBailiwick.withDetail
        (text ": " ++ signer ++ text " cannot sign " ++ owner))) rest

/-- Validate a set against its signatures. -/
def validateRRset (rrset : List RR) (sigs : List RRSIG) : Action ω Unit :=
  validateWith dns world rrset (dns.canonicalName (ownerOf rrset)) none sigs

/-- Look whether a signature authenticates a set under a signer at or above a name. -/
def tryAncestor (rrset : List RR) (qname : Name) (sig : RRSIG) : Action ω (Option Unit) :=
  let signer := dns.canonicalName sig.signerName
  if dns.isSubDomain signer qname then do
    match ← (buildChainOfTrust dns world signer).attempt with
    | .error _ => pure none
    | .ok keys => tryKeys dns world keys.zsk rrset sig
  else
    pure none

/-- One of the signatures authenticates the set under a signer at or above a
name. -/
def rrsetSignedFromAncestor (rrset : List RR) (sigs : List RRSIG) (qname : Name) :
    Action ω Bool := do
  let found ← Program.search (tryAncestor dns world rrset qname) sigs
  pure found.isSome

def nsecsIn (records : List RR) : List NSEC :=
  records.filterMap fun
    | .nsec record => some record
    | _ => none

def nsec3sIn (records : List RR) : List NSEC3 :=
  records.filterMap fun
    | .nsec3 record => some record
    | _ => none

/-- Collect the authenticated denial records of a section, set by set. -/
def collectFrom (records : List RR) (qname : Name) :
    List RRsetKey → Action ω (List NSEC × List NSEC3)
  | [] => pure ([], [])
  | key :: rest => do
    if isDenialKey key then
      let rrset := rrsetOf dns records key
      if ← rrsetSignedFromAncestor dns world rrset (sigsOf dns records key) qname then
        let (nsecs, nsec3s) ← collectFrom records qname rest
        pure (nsecsIn rrset ++ nsecs, nsec3sIn rrset ++ nsec3s)
      else
        collectFrom records qname rest
    else
      collectFrom records qname rest

/-- The NSEC and NSEC3 records of a section that are signed from at or above a
name. -/
def collectVerifiedDenialRecords (records : List RR) (qname : Name) :
    Action ω (List NSEC × List NSEC3) := do
  let order ← rangeOver world (rrsetKeys dns records)
  collectFrom dns world records qname order.val

/-- Authenticate a negative response. -/
def validateDenial (answer : Msg) : Action ω Unit :=
  match answer.question with
  | [] => Program.fail (Sentinel.denialOfExistence.withDetail (text ": response has no question"))
  | question :: _ => do
    let qname := dns.canonicalName question.name
    let (nsecs, nsec3s) ← collectVerifiedDenialRecords dns world answer.ns qname
    if nsecProvesDenial dns nsecs qname question.qtype answer.rcode then
      pure ()
    else if nsec3ProvesDenial dns nsec3s qname question.qtype answer.rcode then
      pure ()
    else do
      checkInsecureDelegation dns world qname
      Program.fail (Sentinel.denialOfExistence.withDetail
        (text ": " ++ qname ++ text "/" ++ dns.typeToString question.qtype))

/-- Validate one set of the answer section. -/
def validateSet (records : List RR) (key : RRsetKey) : Action ω Unit := do
  let rrset := rrsetOf dns records key
  let sigs := sigsOf dns records key
  if sigs = [] then do
    checkInsecureDelegation dns world (ownerOf rrset)
    Program.fail (Sentinel.noSignature.withDetail
      (text ": " ++ key.name ++ text "/" ++ dns.typeToString key.rrtype))
  else
    validateRRset dns world rrset sigs

/-- Validate the sets of the answer section in the given order, up to the first
failure. -/
def validateSets (records : List RR) : List RRsetKey → Action ω Unit
  | [] => pure ()
  | key :: rest => do
    validateSet dns world records key
    validateSets records rest

/-- Check the signatures of a response. -/
def validate (answer : Msg) : Action ω Unit :=
  if answer.answer = [] then
    validateDenial dns world answer
  else do
    let order ← rangeOver world (rrsetKeys dns answer.answer)
    validateSets dns world answer.answer order.val

end RouteDns.Dnssec
