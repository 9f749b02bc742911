import RouteDns.Cidr.Text
import RouteDns.Dns.Message
import RouteDns.Program.Reader

/-!
# Plain DNS listeners

A listener hands every query to a resolver, adjusts the padding of the response and truncates
it if it goes over UDP.  What kind of listener it is it learns from the name of its network,
which the configuration makes of the transport and the IP version.

Truncating a message and measuring its length belong to the DNS library.
-/

namespace RouteDns.Transport

open Dns Cidr

def minMsgSize : Nat := 512

def responsePaddingBlockSize : Nat := 468

/-- A message to be packed, with or without compression. -/
structure Outgoing where
  msg : Message
  compress : Bool
  deriving DecidableEq

/-- The functions of the DNS library on the size of messages.  Sizes below the minimum are
treated as equal to it. -/
structure Sizing where
  len : Outgoing → Nat
  truncate : Nat → Outgoing → Outgoing
  truncate_small : ∀ {size}, size < minMsgSize → truncate size = truncate minMsgSize

/-- The UDP size of an EDNS0 pseudo-record. -/
def udpSize (edns0 : OPT) : Nat :=
  edns0.hdr.rrclass.toNat

/-! ## Padding -/

/-- Rewrite the EDNS0 options of a message. -/
def mapOptions (update : List EdnsOption → List EdnsOption) (a : Outgoing) : Outgoing :=
  { a with
    msg := { a.msg with
      extra := Message.updateLastOPT (fun edns0 => { edns0 with options := update edns0.options })
        a.msg.extra } }

/-- Remove padding. -/
def stripPadding (m : Outgoing) : Outgoing :=
  mapOptions (List.filter fun option => option.code ≠ edns0Padding) m

/-- The EDNS0 options of a message. -/
def ednsOptions (m : Outgoing) : List EdnsOption :=
  (m.msg.isEdns0.map OPT.options).getD []

def isPaddingType : EdnsOption → Bool
  | .padding _ => true
  | _ => false

/-- Every option with the code of padding is of its type.  The loop over the options asserts
this without a check, and panics at an option that is not. -/
def paddingAsserted (options : List EdnsOption) : Bool :=
  options.all fun option => option.code ≠ edns0Padding || isPaddingType option

/-- Make padding options empty, and add one if there is none. -/
def clearPadding (options : List EdnsOption) : List EdnsOption :=
  let cleared := options.map fun option =>
    if option.code = edns0Padding then .padding [] else option
  if options.any fun option => option.code = edns0Padding then cleared
  else cleared ++ [.padding []]

/-- Fill the last padding option. -/
def fillPadding (padding : Text) : List EdnsOption → List EdnsOption
  | [] => []
  | option :: rest =>
    if option.code = edns0Padding ∧ ¬ rest.any fun later => later.code = edns0Padding then
      .padding padding :: rest
    else option :: fillPadding padding rest

def respPadBuf : Text :=
  List.replicate responsePaddingBlockSize 0

/-- The bytes of a buffer before an index; a slice outside of the buffer panics. -/
def sliceTo (buffer : Text) (stop : Int) : Option Text :=
  if stop < 0 then none else Reader.slice buffer 0 stop.toNat

/-- The length of the padding of a response. -/
def answerPadLen (len udpSize : Int) : Int :=
  let padLen := responsePaddingBlockSize - len % responsePaddingBlockSize
  if udpSize < len + padLen then max (udpSize - len) 0 else padLen

/-- A response with EDNS0 data, those of the query if it has none of its own. -/
def withEdns0 (edns0q : OPT) (a : Outgoing) : Outgoing :=
  if a.msg.isEdns0.isNone then
    { a with msg := a.msg.setEdns0 edns0q.hdr.rrclass edns0q.dnssecOk }
  else a

/-- Pad an answer to a query with EDNS0 to full blocks, as far as the size of the query
allows. -/
def padAnswer (sizing : Sizing) (q : Message) (a : Outgoing) : Option Outgoing :=
  match q.isEdns0 with
  | none => some a
  | some edns0q =>
    let a := withEdns0 edns0q a
    if paddingAsserted (ednsOptions a) then
      let a := mapOptions clearPadding a
      (sliceTo respPadBuf (answerPadLen (sizing.len a) (udpSize edns0q))).map fun padding =>
        mapOptions (fillPadding padding) a
    else none

/-! ## The handler -/

/-- A client may use a listener. -/
def isAllowed (allowedNet : List IPNet) (ip : IP) : Bool :=
  allowedNet.isEmpty || allowedNet.any fun net => net.contains ip

/-- What becomes of a query: it is ignored, the connection is closed, the handler panics, or a
message is handed to the writer. -/
inductive Handled where
  | ignored (metric : Text)
  | closed
  | panicked
  | wrote (a : Outgoing)
  deriving DecidableEq

section Handler

variable (sizing : Sizing) (resolve : Message → Except Text (Option Outgoing))
  (allowedNet : List IPNet) (sourceIP : IP)

/-- The response to a query before it is made fit for the transport.  Resolvers leave the
query as it is. -/
def respondTo (req : Message) : Option Outgoing :=
  if isAllowed allowedNet sourceIP then
    match resolve req with
    | .error _ => some { msg := req.servfail, compress := false }
    | .ok a => a
  else some { msg := { req.reply with rcode := rcodeRefused }, compress := false }

/-- The size a response over UDP is truncated to. -/
def maxSize (req : Message) : Nat :=
  match req.isEdns0 with
  | none => minMsgSize
  | some edns0 => udpSize edns0

/-- Handle a query to a listener of the given protocol. -/
def listenHandler (protocol : Text) (req : Message) : Handled :=
  if req.question = [] then .ignored (text "noquestion")
  else
    match respondTo resolve allowedNet sourceIP req with
    | none => .closed
    | some a =>
      let padded :=
        if protocol = text "dot" ∨ protocol = text "dtls" then padAnswer sizing req a
        else some (stripPadding a)
      match padded with
      | none => .panicked
      | some a =>
        .wrote (if protocol = text "udp" ∨ protocol = text "dtls" then
          sizing.truncate (maxSize req) a
        else a)

end Handler

/-- The name of a network, for the IP version 4 or 6 or for any. -/
def networkForIPVersion (base : Text) (ipVersion : Nat) : Text :=
  if ipVersion = 0 then base else base ++ decimal ipVersion

/-- The handler of a plain listener as the configuration builds it. -/
def plainHandler (sizing : Sizing) (resolve : Message → Except Text (Option Outgoing))
    (allowedNet : List IPNet) (sourceIP : IP) (protocol : Text) (ipVersion : Nat) :
    Message → Handled :=
  listenHandler sizing resolve allowedNet sourceIP (networkForIPVersion protocol ipVersion)

/-! ## Truncation -/

/-- The size of responses a client can take. -/
def announcedSize (req : Message) : Nat :=
  match req.isEdns0 with
  | none => minMsgSize
  | some edns0 => max minMsgSize (udpSize edns0)

theorem truncate_maxSize (sizing : Sizing) (req : Message) :
    sizing.truncate (maxSize req) = sizing.truncate (announcedSize req) := by
  unfold maxSize announcedSize
  cases req.isEdns0 with
  | none => rfl
  | some edns0 =>
    change sizing.truncate (udpSize edns0) = sizing.truncate (max minMsgSize (udpSize edns0))
    rcases Nat.lt_or_ge (udpSize edns0) minMsgSize with small | enough
    · rw [Nat.max_eq_left small.le, sizing.truncate_small small]
    · rw [Nat.max_eq_right enough]

theorem networkForIPVersion_udp (ipVersion : Nat) :
    networkForIPVersion (text "udp") ipVersion = text "udp" ↔ ipVersion = 0 := by
  unfold networkForIPVersion
  split
  · simp_all
  · rename_i single
    constructor
    · intro same
      rw [List.append_right_eq_self] at same
      exact absurd same (decimal_ne_nil ipVersion)
    · intro any
      exact absurd any single

/-- The network of a UDP listener is no encrypted one. -/
theorem networkForIPVersion_ne (ipVersion : Nat) (other : Text)
    (different : other.head? ≠ some (byteOf 'u')) :
    networkForIPVersion (text "udp") ipVersion ≠ other := by
  rintro rfl
  apply different
  unfold networkForIPVersion
  split
  · rfl
  · rfl

section Udp

variable (sizing : Sizing) (resolve : Message → Except Text (Option Outgoing))
  (allowedNet : List IPNet) (sourceIP : IP) (ipVersion : Nat) (req : Message) (answer : Outgoing)

/-- A UDP listener truncates exactly if it serves both IP versions. -/
theorem plainHandler_udp (asked : req.question ≠ [])
    (answered : respondTo resolve allowedNet sourceIP req = some answer) :
    plainHandler sizing resolve allowedNet sourceIP (text "udp") ipVersion req =
      .wrote (if ipVersion = 0 then sizing.truncate (announcedSize req) (stripPadding answer)
        else stripPadding answer) := by
  have notDot := networkForIPVersion_ne ipVersion (text "dot") (by decide)
  have notDtls := networkForIPVersion_ne ipVersion (text "dtls") (by decide)
  unfold plainHandler listenHandler
  simp only [asked, if_false, answered, notDot, notDtls, or_false, networkForIPVersion_udp,
    truncate_maxSize]

/-- The response to a query over UDP is truncated to the size that its client can take exactly
if the listener serves both IP versions or truncation would leave the response as it is. -/
theorem udp_truncated_iff (asked : req.question ≠ [])
    (answered : respondTo resolve allowedNet sourceIP req = some answer) :
    plainHandler sizing resolve allowedNet sourceIP (text "udp") ipVersion req =
        .wrote (sizing.truncate (announcedSize req) (stripPadding answer)) ↔
      ipVersion = 0 ∨
        sizing.truncate (announcedSize req) (stripPadding answer) = stripPadding answer := by
  rw [plainHandler_udp sizing resolve allowedNet sourceIP ipVersion req answer asked answered,
    Handled.wrote.injEq]
  split
  · rename_i any
    exact ⟨fun _ => .inl any, fun _ => rfl⟩
  · rename_i single
    constructor
    · intro same
      exact .inr same.symm
    · rintro (any | same)
      · exact absurd any single
      · exact same.symm

end Udp

/-! ## Messages without names to compress -/

/-- The length of an option on the wire. -/
def optionLen : EdnsOption → Nat
  | .subnet subnet => 8 + (subnet.sourceNetmask.toNat + 7) / 8
  | .padding padding => 4 + padding.length
  | .other _ data => 4 + data.length

/-- The length of a record of the root with plain data on the wire. -/
def recordLen (record : Record) : Nat :=
  11 + match record with
    | .opt opt => (opt.options.map optionLen).sum
    | .rr (.other _ rdata) => rdata.length
    | .rr _ => 0

/-- The length of a header with questions for names without escapes. -/
def questionLen (msg : Message) : Nat :=
  12 + (msg.question.map fun question => question.name.length + 5).sum

/-- The records of a section that fit into a message. -/
def truncateLoop (size : Nat) : Nat → List Record → List Record
  | _, [] => []
  | l, record :: rest =>
    if l + recordLen record ≤ size then record :: truncateLoop size (l + recordLen record) rest
    else []

/-- The sizes of messages with such records and names, and what is left of one without records
in its other sections. -/
def plainSizing : Sizing where
  len a := questionLen a.msg + ((a.msg.answer ++ a.msg.ns ++ a.msg.extra).map recordLen).sum
  truncate size a :=
    let size := max minMsgSize size
    if questionLen a.msg + (a.msg.answer.map recordLen).sum ≤ size then { a with compress := false }
    else
      { msg := { a.msg with
          answer := truncateLoop size (questionLen a.msg) a.msg.answer
          truncated := true }
        compress := true }
  truncate_small := by
    intro size small
    funext a
    rw [Nat.max_eq_left small.le, Nat.max_self]

def sampleQuery : Message :=
  Message.ofQuestion 1 (text "example.com.") 1 classINET

/-- A record with 490 bytes of data. -/
def sampleRecord : Record :=
  .rr (.other { owner := .top, rrtype := typeNULL, rrclass := classINET, ttl := 60 }
    (List.replicate 490 0))

/-- A response of 1031 bytes. -/
def sampleAnswer : Outgoing where
  msg := { sampleQuery.reply with answer := [sampleRecord, sampleRecord] }
  compress := false

/-- A listener for both IP versions truncates. -/
theorem any_version_truncates :
    sampleQuery.question ≠ [] ∧
      respondTo (fun _ => .ok (some sampleAnswer)) [] [] sampleQuery = some sampleAnswer ∧
      plainSizing.len sampleAnswer = 1031 ∧
      plainHandler plainSizing (fun _ => .ok (some sampleAnswer)) [] [] (text "udp") 0 sampleQuery =
        .wrote (plainSizing.truncate (announcedSize sampleQuery) (stripPadding sampleAnswer)) :=
  ⟨by decide, rfl, by decide +kernel,
    (udp_truncated_iff plainSizing (fun _ => .ok (some sampleAnswer)) [] [] 0 sampleQuery
      sampleAnswer (by decide) rfl).mpr (.inl rfl)⟩

/-- A listener for IPv4 only does not: the response should lose its records, none of which
fits. -/
theorem single_version_does_not_truncate :
    plainHandler plainSizing (fun _ => .ok (some sampleAnswer)) [] [] (text "udp") 4 sampleQuery =
        .wrote sampleAnswer ∧
      plainSizing.truncate (announcedSize sampleQuery) (stripPadding sampleAnswer) =
        { msg := { sampleQuery.reply with truncated := true }, compress := true } := by
  decide +kernel

end RouteDns.Transport
