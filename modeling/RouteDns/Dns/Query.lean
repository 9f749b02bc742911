import RouteDns.Dns.Message

/-!
# Queries and the records that answer them

A query off the wire asks for a domain name; its question holds the text of that name.  Records
of the types A and AAAA hold an address as their data, records of the type CNAME another name.
-/

namespace RouteDns.Dns

def typeA : UInt16 := 1
def typePTR : UInt16 := 12
def typeAAAA : UInt16 := 28

/-- What a resolver returns; no message is a response to be dropped. -/
abbrev Resolved := Except Text (Option Message)

namespace Record

/-- The header and address of a record of an address type. -/
def asAddress? (rrtype : UInt16) : Record → Option (RRHeader × List Byte)
  | .rr (.other hdr rdata) => if hdr.rrtype = rrtype then some (hdr, rdata) else none
  | _ => none

/-- The type assertion to an A record. -/
def asA? : Record → Option (RRHeader × List Byte) :=
  asAddress? typeA

/-- The type assertion to an AAAA record. -/
def asAAAA? : Record → Option (RRHeader × List Byte) :=
  asAddress? typeAAAA

/-- The type assertion to a CNAME record. -/
def asCNAME? : Record → Option CNAME
  | .rr (.cname record) => some record
  | _ => none

/-- A record that holds an address. -/
def ofAddress (hdr : RRHeader) (address : List Byte) : Record :=
  .rr (.other hdr address)

def ofCNAME (record : CNAME) : Record :=
  .rr (.cname record)

end Record

/-- A query whose question asks for a domain name. -/
structure NamedQuery where
  msg : Message
  name : DomainName
  asked : msg.question.head?.map AskedQuestion.name = some name.print

namespace NamedQuery

theorem question_ne_nil (q : NamedQuery) : q.msg.question ≠ [] := by
  intro empty
  have asked := q.asked
  rw [empty] at asked
  cases asked

/-- The question of a query. -/
def question (q : NamedQuery) : AskedQuestion :=
  q.msg.question.head q.question_ne_nil

theorem question_name (q : NamedQuery) : q.question.name = q.name.print := by
  have asked := q.asked
  rw [List.head?_eq_some_head q.question_ne_nil] at asked
  exact Option.some.inj asked

end NamedQuery

end RouteDns.Dns
