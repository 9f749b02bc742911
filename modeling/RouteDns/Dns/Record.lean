import RouteDns.Dns.Name

/-!
# Resource records and messages

The record types the validator looks into are kept with the fields it reads;
every other record is a header with opaque data.  Header fields are independent
of the constructor, as they are in the library, so a record may carry any type
number in its header.  Records come off the wire, so their names are domain names;
the code sees the presentation text of each.
-/

namespace RouteDns.Dns

def typeNS : UInt16 := 2
def typeCNAME : UInt16 := 5
def typeSOA : UInt16 := 6
def typeNULL : UInt16 := 10
def typeDS : UInt16 := 43
def typeRRSIG : UInt16 := 46
def typeNSEC : UInt16 := 47
def typeDNSKEY : UInt16 := 48
def typeNSEC3 : UInt16 := 50

def classINET : UInt16 := 1

def rcodeSuccess : Nat := 0
def rcodeNameError : Nat := 3

/-- The header shared by all records. -/
structure RRHeader where
  owner : DomainName
  rrtype : UInt16
  rrclass : UInt16
  ttl : UInt32
  deriving DecidableEq

abbrev RRHeader.name (hdr : RRHeader) : Name :=
  hdr.owner.print

structure DNSKEY where
  hdr : RRHeader
  flags : UInt16
  protocol : UInt8
  algorithm : UInt8
  publicKey : Text
  deriving DecidableEq

structure DS where
  hdr : RRHeader
  keyTag : UInt16
  algorithm : UInt8
  digestType : UInt8
  digest : Text
  deriving DecidableEq

structure RRSIG where
  hdr : RRHeader
  typeCovered : UInt16
  algorithm : UInt8
  labels : UInt8
  origTtl : UInt32
  expiration : UInt32
  inception : UInt32
  keyTag : UInt16
  signer : DomainName
  signature : Text
  deriving DecidableEq

abbrev RRSIG.signerName (sig : RRSIG) : Name :=
  sig.signer.print

structure NSEC where
  hdr : RRHeader
  next : DomainName
  typeBitMap : List UInt16
  deriving DecidableEq

abbrev NSEC.nextDomain (record : NSEC) : Name :=
  record.next.print

structure NSEC3 where
  hdr : RRHeader
  hash : UInt8
  flags : UInt8
  iterations : UInt16
  salt : Text
  nextDomain : Text
  typeBitMap : List UInt16
  deriving DecidableEq

structure CNAME where
  hdr : RRHeader
  targetName : DomainName
  deriving DecidableEq

abbrev CNAME.target (record : CNAME) : Name :=
  record.targetName.print

/-- A resource record. -/
inductive RR where
  | dnskey (record : DNSKEY)
  | ds (record : DS)
  | rrsig (record : RRSIG)
  | nsec (record : NSEC)
  | nsec3 (record : NSEC3)
  | cname (record : CNAME)
  | other (hdr : RRHeader) (rdata : Text)
  deriving DecidableEq

namespace RR

/-- The header of a record, whatever its type. -/
def header : RR → RRHeader
  | dnskey record => record.hdr
  | ds record => record.hdr
  | rrsig record => record.hdr
  | nsec record => record.hdr
  | nsec3 record => record.hdr
  | cname record => record.hdr
  | other hdr _ => hdr

/-- The type assertion to a signature record. -/
def asRRSIG? : RR → Option RRSIG
  | rrsig record => some record
  | _ => none

end RR

structure Question where
  qname : DomainName
  qtype : UInt16
  qclass : UInt16
  deriving DecidableEq

abbrev Question.name (question : Question) : Name :=
  question.qname.print

/-- A response, as far as the validator reads it. -/
structure Msg where
  rcode : Nat
  question : List Question
  answer : List RR
  ns : List RR
  deriving DecidableEq

/-- A query the validator sends upstream. -/
structure Query where
  name : Name
  qtype : UInt16
  qclass : UInt16
  recursionDesired : Bool
  checkingDisabled : Bool
  udpSize : UInt16
  dnssecOk : Bool
  deriving DecidableEq

/-- A query for one name and type with the DNSSEC OK and the checking-disabled
bits set. -/
def Query.dnssec (name : Name) (qtype : UInt16) : Query where
  name := name
  qtype := qtype
  qclass := classINET
  recursionDesired := true
  checkingDisabled := true
  udpSize := 4096
  dnssecOk := true

/-- A point in time, in nanoseconds since the epoch. -/
abbrev Time := Int

end RouteDns.Dns
