import RouteDns.Dns.Record

/-!
# Messages

The messages that resolvers pass to each other: the header, the question and three
sections of records.  A question holds the text of its name, which a resolver may set to
anything.  The OPT pseudo-record keeps the EDNS0 data of a message in its header and
options.
-/

namespace RouteDns.Dns

def typeOPT : UInt16 := 41

def rcodeFormatError : Nat := 1
def rcodeServerFailure : Nat := 2
def rcodeNotImplemented : Nat := 4
def rcodeRefused : Nat := 5

def opcodeQuery : Nat := 0
def opcodeNotify : Nat := 4

def edns0Subnet : UInt16 := 8
def edns0TcpKeepalive : UInt16 := 11
def edns0Padding : UInt16 := 12
def edns0Ede : UInt16 := 15

/-- A question about the name with the given text. -/
@[ext]
structure AskedQuestion where
  name : Name
  qtype : UInt16
  qclass : UInt16
  deriving DecidableEq

/-- A client subnet: the address family, the length of the network and its address. -/
structure Subnet where
  family : UInt16
  sourceNetmask : UInt8
  address : List Byte
  deriving DecidableEq

/-- An EDNS0 option by its type: a client subnet, padding, or any other with its code and
data.  An option for local use is of another type whatever its code. -/
inductive EdnsOption where
  | subnet (subnet : Subnet)
  | padding (padding : Text)
  | other (code : UInt16) (data : Text)
  deriving DecidableEq

/-- The code of an option. -/
def EdnsOption.code : EdnsOption → UInt16
  | subnet _ => edns0Subnet
  | padding _ => edns0Padding
  | other code _ => code

/-- The EDNS0 pseudo-record.  Its class is the UDP size and its TTL holds flags. -/
structure OPT where
  hdr : RRHeader
  options : List EdnsOption
  deriving DecidableEq

namespace OPT

/-- The DNSSEC OK bit of the TTL. -/
def doBit : UInt32 := 32768

/-- The client understands DNSSEC records. -/
def dnssecOk (opt : OPT) : Bool :=
  opt.hdr.ttl &&& doBit = doBit

def setDo (opt : OPT) : OPT :=
  { opt with hdr := { opt.hdr with ttl := opt.hdr.ttl ||| doBit } }

def clearDo (opt : OPT) : OPT :=
  { opt with hdr := { opt.hdr with ttl := opt.hdr.ttl &&& ~~~ doBit } }

def setUDPSize (opt : OPT) (size : UInt16) : OPT :=
  { opt with hdr := { opt.hdr with rrclass := size } }

end OPT

/-- The record with another TTL in its header. -/
def RR.withTtl (ttl : UInt32) : RR → RR
  | .dnskey record => .dnskey { record with hdr := { record.hdr with ttl := ttl } }
  | .ds record => .ds { record with hdr := { record.hdr with ttl := ttl } }
  | .rrsig record => .rrsig { record with hdr := { record.hdr with ttl := ttl } }
  | .nsec record => .nsec { record with hdr := { record.hdr with ttl := ttl } }
  | .nsec3 record => .nsec3 { record with hdr := { record.hdr with ttl := ttl } }
  | .cname record => .cname { record with hdr := { record.hdr with ttl := ttl } }
  | .other hdr rdata => .other { hdr with ttl := ttl } rdata

theorem RR.ttl_withTtl (ttl : UInt32) (record : RR) : (record.withTtl ttl).header.ttl = ttl := by
  cases record <;> rfl

/-- A record of a message. -/
inductive Record where
  | rr (record : RR)
  | opt (record : OPT)
  deriving DecidableEq

namespace Record

def header : Record → RRHeader
  | rr record => record.header
  | opt record => record.hdr

/-- The type assertion to the EDNS0 pseudo-record. -/
def asOPT? : Record → Option OPT
  | rr _ => none
  | opt record => some record

/-- The record as the validator reads it, which has no use for EDNS0 data. -/
def toRR : Record → RR
  | rr record => record
  | opt record => .other record.hdr []

end Record

/-- A query or a response. -/
structure Message where
  id : UInt16
  response : Bool
  opcode : Nat
  authoritative : Bool
  truncated : Bool
  recursionDesired : Bool
  recursionAvailable : Bool
  zero : Bool
  authenticatedData : Bool
  checkingDisabled : Bool
  rcode : Nat
  question : List AskedQuestion
  answer : List Record
  ns : List Record
  extra : List Record
  deriving DecidableEq

namespace Message

/-- A message with nothing set. -/
def empty : Message where
  id := 0
  response := false
  opcode := opcodeQuery
  authoritative := false
  truncated := false
  recursionDesired := false
  recursionAvailable := false
  zero := false
  authenticatedData := false
  checkingDisabled := false
  rcode := rcodeSuccess
  question := []
  answer := []
  ns := []
  extra := []

/-- Rewrite the last EDNS0 pseudo-record of a section. -/
def updateLastOPT (update : OPT → OPT) : List Record → List Record
  | [] => []
  | record :: rest =>
    if rest.any fun later => later.asOPT?.isSome then
      record :: updateLastOPT update rest
    else
      match record with
      | .opt opt => .opt (update opt) :: rest
      | .rr _ => record :: rest

/-- The EDNS0 pseudo-record of a message, the last one if there are several. -/
def isEdns0 (msg : Message) : Option OPT :=
  (msg.extra.filterMap Record.asOPT?).getLast?

theorem filterMap_asOPT?_opt (record : OPT) (rest : List Record) :
    (.opt record :: rest).filterMap Record.asOPT? = record :: rest.filterMap Record.asOPT? :=
  rfl

theorem filterMap_asOPT?_ne_nil_iff {records : List Record} :
    records.filterMap Record.asOPT? ≠ [] ↔ records.any fun other => other.asOPT?.isSome := by
  simp [Option.isSome_iff_ne_none]

variable (update : OPT → OPT)

/-- Of the pseudo-records of a section the last one is rewritten. -/
theorem filterMap_updateLastOPT (records : List Record) :
    (updateLastOPT update records).filterMap Record.asOPT? =
      (records.filterMap Record.asOPT?).dropLast ++
        ((records.filterMap Record.asOPT?).getLast?.map update).toList := by
  induction records with
  | nil => rfl
  | cons record rest ih =>
    unfold updateLastOPT
    split
    · rename_i later
      have nonempty := filterMap_asOPT?_ne_nil_iff.mpr later
      cases record with
      | rr record =>
        rw [List.filterMap_cons_none rfl, List.filterMap_cons_none rfl]
        exact ih
      | opt record =>
        rw [filterMap_asOPT?_opt, filterMap_asOPT?_opt, ih, List.dropLast_cons_of_ne_nil nonempty,
          List.getLast?_cons_of_ne_nil nonempty]
        rfl
    · rename_i later
      have empty := not_not.mp (mt filterMap_asOPT?_ne_nil_iff.mp later)
      cases record with
      | rr record =>
        change List.filterMap Record.asOPT? (.rr record :: rest) = _
        rw [List.filterMap_cons_none rfl, empty]
        rfl
      | opt record =>
        change List.filterMap Record.asOPT? (.opt (update record) :: rest) = _
        rw [filterMap_asOPT?_opt, filterMap_asOPT?_opt, empty]
        rfl

theorem getLast?_updateLastOPT (records : List Record) :
    ((updateLastOPT update records).filterMap Record.asOPT?).getLast? =
      (records.filterMap Record.asOPT?).getLast?.map update := by
  rw [filterMap_updateLastOPT]
  cases last : (records.filterMap Record.asOPT?).getLast? with
  | none => simp [List.getLast?_eq_none_iff.mp last]
  | some record => simp

/-- Rewriting the last pseudo-record rewrites the EDNS0 data of a message. -/
theorem isEdns0_updateLastOPT (msg : Message) :
    isEdns0 { msg with extra := updateLastOPT update msg.extra } = msg.isEdns0.map update :=
  getLast?_updateLastOPT update msg.extra

variable {rest : List Record}

theorem updateLastOPT_of_later {record : Record}
    (later : rest.any fun other => other.asOPT?.isSome) :
    updateLastOPT update (record :: rest) = record :: updateLastOPT update rest :=
  if_pos later

theorem updateLastOPT_of_last {record : OPT} (last : ¬ rest.any fun other => other.asOPT?.isSome) :
    updateLastOPT update (.opt record :: rest) = .opt (update record) :: rest :=
  if_neg last

theorem updateLastOPT_of_none {record : RR} (last : ¬ rest.any fun other => other.asOPT?.isSome) :
    updateLastOPT update (.rr record :: rest) = .rr record :: rest :=
  if_neg last

theorem any_updateLastOPT (records : List Record) :
    ((updateLastOPT update records).any fun record => record.asOPT?.isSome) =
      records.any fun record => record.asOPT?.isSome := by
  induction records with
  | nil => rfl
  | cons record rest ih =>
    unfold updateLastOPT
    split
    · rw [List.any_cons, List.any_cons, ih]
    · cases record <;> rfl

/-- Rewriting the last pseudo-record twice rewrites it once. -/
theorem updateLastOPT_updateLastOPT (after before : OPT → OPT) (records : List Record) :
    updateLastOPT after (updateLastOPT before records) =
      updateLastOPT (after ∘ before) records := by
  induction records with
  | nil => rfl
  | cons record rest ih =>
    by_cases later : rest.any fun other => other.asOPT?.isSome
    · have still : (updateLastOPT before rest).any fun other => other.asOPT?.isSome := by
        rw [any_updateLastOPT, later]
      rw [updateLastOPT_of_later before later, updateLastOPT_of_later after still,
        updateLastOPT_of_later _ later, ih]
    · cases record with
      | rr record =>
        rw [updateLastOPT_of_none before later, updateLastOPT_of_none after later,
          updateLastOPT_of_none _ later]
      | opt record =>
        rw [updateLastOPT_of_last before later, updateLastOPT_of_last after later,
          updateLastOPT_of_last _ later, Function.comp_apply]

/-- Append an EDNS0 pseudo-record. -/
def setEdns0 (msg : Message) (udpSize : UInt16) (dnssecOk : Bool) : Message :=
  let plain : OPT :=
    { hdr := { owner := .top, rrtype := typeOPT, rrclass := udpSize, ttl := 0 }, options := [] }
  { msg with extra := msg.extra ++ [.opt (if dnssecOk then plain.setDo else plain)] }

theorem isEdns0_setEdns0 (msg : Message) (udpSize : UInt16) (dnssecOk : Bool) :
    ∃ edns0, (msg.setEdns0 udpSize dnssecOk).isEdns0 = some edns0 ∧ edns0.options = [] := by
  cases dnssecOk <;> simp [isEdns0, setEdns0, Record.asOPT?, OPT.setDo]

/-- A query for one name and type. -/
def ofQuestion (id : UInt16) (name : Name) (qtype qclass : UInt16) : Message :=
  { empty with id := id, recursionDesired := true
               question := [{ name := name, qtype := qtype, qclass := qclass }] }

/-- The empty response to a query. -/
def reply (request : Message) : Message :=
  { empty with
    id := request.id
    response := true
    opcode := request.opcode
    recursionDesired := request.opcode = opcodeQuery && request.recursionDesired
    checkingDisabled := request.opcode = opcodeQuery && request.checkingDisabled
    question := request.question.take 1 }

/-- A response to a query with the given response code. -/
def responseWithCode (query : Message) (rcode : Nat) : Message :=
  { query.reply with rcode := rcode, recursionAvailable := true }

def nxdomain (query : Message) : Message :=
  query.responseWithCode rcodeNameError

def servfail (query : Message) : Message :=
  query.responseWithCode rcodeServerFailure

/-- Why a response does not answer the question that was asked. -/
inductive QuestionError where
  | missing (expected : AskedQuestion)
  | mismatch (expected got : AskedQuestion)
  deriving DecidableEq

/-- Confirm that a response answers the question of a query.  A query without question is
not validated; the case of the name does not matter. -/
def validateResponseQuestion (q a : Message) : Except QuestionError Unit :=
  match q.question with
  | [] => .ok ()
  | question :: _ =>
    match a.question with
    | [] => .error (.missing question)
    | answer :: _ =>
      if answer.name.map lowerByte = question.name.map lowerByte ∧
          answer.qclass = question.qclass ∧ answer.qtype = question.qtype then .ok ()
      else .error (.mismatch question answer)

end Message

/-! ## Tables of packed messages -/

section Tables

variable {table : List (Message × List Byte)} {msg : Message} {wire : List Byte}

/-- Pack a message of a table. -/
def packBy (table : List (Message × List Byte)) (msg : Message) : Option (List Byte) :=
  (table.find? fun row => row.1 = msg).map Prod.snd

/-- Unpack the bytes of a message of a table. -/
def unpackBy (table : List (Message × List Byte)) (wire : List Byte) : Option Message :=
  (table.find? fun row => row.2 = wire).map Prod.fst

theorem mem_of_packBy (packed : packBy table msg = some wire) : (msg, wire) ∈ table := by
  obtain ⟨row, found, rfl⟩ := Option.map_eq_some_iff.mp packed
  have same : row.1 = msg := by simpa using List.find?_some found
  rw [← same]
  exact List.mem_of_find?_eq_some found

theorem isSome_unpackBy (packed : packBy table msg = some wire) :
    (unpackBy table wire).isSome := by
  unfold unpackBy
  rw [Option.isSome_map, List.find?_isSome]
  exact ⟨_, mem_of_packBy packed, decide_eq_true rfl⟩

end Tables

end RouteDns.Dns
