import Mathlib.Data.List.TakeDrop
import RouteDns.Cache.Blob
import RouteDns.Program.Reader

/-!
# DNS over QUIC

Every query and every response goes over a stream of its own, as two bytes with the length
of the packed message followed by the message.  Both sides read the length and then exactly
as many bytes.

The length field holds 16 bits, so that a frame tells the length of a packed message only
if that is less than 65536.
-/

namespace RouteDns.Transport

open Dns Cache Reader

/-- The wire format of messages, which belongs to the DNS library. -/
structure Wire where
  pack : Message → Option (List Byte)
  unpack : List Byte → Option Message

/-- Add a length prefix; the length is converted to 16 bits. -/
def addLength (p : List Byte) : List Byte :=
  bigEndian 2 (p.length % 65536) ++ p

/-- Read a length prefix and as many bytes as it says. -/
def readFramed (stream : List Byte) : Option (List Byte) := do
  let (length, rest) ← readFull 2 stream
  let (b, _) ← readFull (ofBigEndian length) rest
  pure b

/-- A message carries an option that must not be used over QUIC. -/
def hasKeepalive (msg : Message) : Bool :=
  match msg.isEdns0 with
  | none => false
  | some edns0 => edns0.options.any fun option => option.code = edns0TcpKeepalive

/-- An opcode may be acted on in data that can be replayed. -/
def isReplayableOpcode (opcode : Nat) : Bool :=
  opcode = opcodeQuery || opcode = opcodeNotify

section Model

variable (wire : Wire)

/-! ## The listener -/

/-- How a stream ends: with an error under its name in the metrics, without an answer, or with
the bytes written for an answer. -/
inductive StreamOutcome where
  | failed (metric : Text)
  | dropped
  | responded (answer : Message) (written : List Byte)
  deriving DecidableEq

/-- What a listener writes for an answer. -/
def writeAnswer (a : Message) : StreamOutcome :=
  match wire.pack a with
  | none => .failed (text "encode")
  | some p => .responded a (addLength p)

/-- Handle the stream of a query.  The resolver leaves the query as it is; the handshake of
the connection completes sooner or later or not at all. -/
def handleStream (resolve : Message → Except Text (Option Message)) (handshakeCompletes : Bool)
    (stream : List Byte) : StreamOutcome :=
  match readFramed stream with
  | none => .failed (text "read")
  | some b =>
    match wire.unpack b with
    | none => .failed (text "unpack")
    | some q =>
      if q.question = [] then .failed (text "noquestion")
      else if hasKeepalive q then .failed (text "keepalive")
      else if !isReplayableOpcode q.opcode && !handshakeCompletes then
        .failed (text "tooearly")
      else
        match resolve q with
        | .error _ => writeAnswer wire { q.reply with rcode := rcodeServerFailure }
        | .ok none => .dropped
        | .ok (some a) => writeAnswer wire a

/-! ## The client -/

/-- The query as it is sent: without ID and without the option. -/
def prepareQuery (q : Message) : Message :=
  { q with
    id := 0
    extra := Message.updateLastOPT (fun edns0 =>
      { edns0 with
        options := edns0.options.filter fun option => option.code ≠ edns0TcpKeepalive }) q.extra }

/-- What a client writes, if it gets so far, and what it returns. -/
structure ClientOutcome where
  written : Option (List Byte)
  result : Except Text Message

/-- Decode a response and check it against the query. -/
def acceptResponse (q : Message) (b : List Byte) : Except Text Message :=
  match wire.unpack b with
  | none => .error (text "unpack")
  | some a =>
    match q.validateResponseQuestion { a with id := q.id } with
    | .error _ => .error (text "question")
    | .ok _ =>
      if hasKeepalive a then .error (text "keepalive") else .ok { a with id := q.id }

/-- Resolve a query.  `getStream` may fail before anything is written, for an address that
cannot be resolved or a connection that cannot be made; `send` writes to the stream and
closes it, and is the stream that comes back. -/
def resolveDoq (getStream : Except Text Unit) (send : List Byte → Except Text (List Byte))
    (q : Message) : ClientOutcome :=
  match wire.pack (prepareQuery q) with
  | none => ⟨none, .error (text "pack")⟩
  | some p =>
    match getStream with
    | .error metric => ⟨none, .error metric⟩
    | .ok _ =>
      ⟨some (addLength p),
        match send (addLength p) with
        | .error metric => .error metric
        | .ok stream =>
          match readFramed stream with
          | none => .error (text "read")
          | some b => acceptResponse wire q b⟩

end Model

/-! ## Frames -/

theorem readFramed_addLength (p : List Byte) :
    readFramed (addLength p) = some (p.take (p.length % 65536)) := by
  have field : ofBigEndian (bigEndian 2 (p.length % 65536)) = p.length % 65536 := by
    rw [ofBigEndian_bigEndian]
    omega
  have body : readFull (p.length % 65536) p =
      some (p.take (p.length % 65536), p.drop (p.length % 65536)) :=
    readFull_of_le (Nat.mod_le _ _)
  unfold readFramed addLength
  rw [readFull_append (length_bigEndian 2 _)]
  simp only [Option.bind_eq_bind, Option.bind_some, field, body]
  rfl

/-- A frame tells a packed message exactly if its length fits into the length field. -/
theorem readFramed_addLength_eq_iff (p : List Byte) :
    readFramed (addLength p) = some p ↔ p.length < 65536 := by
  rw [readFramed_addLength, Option.some.injEq, List.take_eq_self_iff]
  constructor
  · intro fits
    exact lt_of_le_of_lt fits (Nat.mod_lt _ (by omega))
  · intro short
    rw [Nat.mod_eq_of_lt short]

theorem writeAnswer_eq_responded {wire : Wire} {a answer : Message} {written : List Byte} :
    writeAnswer wire a = .responded answer written ↔
      a = answer ∧ ∃ p, wire.pack a = some p ∧ written = addLength p := by
  unfold writeAnswer
  cases wire.pack a with
  | none => simp
  | some p =>
    simp only [StreamOutcome.responded.injEq, Option.some.injEq, exists_eq_left']
    exact and_congr_right fun _ => eq_comm

section Written

variable {wire : Wire} {written packed : List Byte}

theorem handleStream_written {resolve : Message → Except Text (Option Message)}
    {handshakeCompletes : Bool} {stream : List Byte} {answer : Message}
    (responded : handleStream wire resolve handshakeCompletes stream = .responded answer written)
    (packs : wire.pack answer = some packed) : written = addLength packed := by
  have answered {a : Message} (same : writeAnswer wire a = .responded answer written) :
      written = addLength packed := by
    obtain ⟨rfl, p, packs', shape⟩ := writeAnswer_eq_responded.mp same
    rw [packs'] at packs
    cases packs
    exact shape
  unfold handleStream at responded
  repeat' split at responded
  all_goals first
    | exact answered responded
    | cases responded

theorem resolveDoq_written {getStream : Except Text Unit}
    {send : List Byte → Except Text (List Byte)} {q : Message}
    (wrote : (resolveDoq wire getStream send q).written = some written)
    (packs : wire.pack (prepareQuery q) = some packed) : written = addLength packed := by
  unfold resolveDoq at wrote
  rw [packs] at wrote
  cases getStream with
  | error metric => cases wrote
  | ok _ => exact (Option.some.inj wrote).symm

end Written

/-- The reader at the other end recovers a response of the listener, or a query of the client,
exactly if it was packed into less than 65536 bytes. -/
theorem doq_frames_iff (wire : Wire) :
    (∀ resolve handshakeCompletes stream answer written packed,
      handleStream wire resolve handshakeCompletes stream = .responded answer written →
      wire.pack answer = some packed →
      (readFramed written = some packed ↔ packed.length < 65536)) ∧
    ∀ getStream send q written packed,
      (resolveDoq wire getStream send q).written = some written →
      wire.pack (prepareQuery q) = some packed →
      (readFramed written = some packed ↔ packed.length < 65536) := by
  constructor
  · intro resolve handshakeCompletes stream answer written packed responded packs
    rw [handleStream_written responded packs]
    exact readFramed_addLength_eq_iff packed
  · intro getStream send q written packed wrote packs
    rw [resolveDoq_written wrote packs]
    exact readFramed_addLength_eq_iff packed

/-! ## A query and its answer -/

def doqQuery : Message :=
  Message.ofQuestion 0 (text "example.com.") 1 classINET

/-- An answer with one record of the root. -/
def doqAnswer (data : List Byte) : Message :=
  { doqQuery.reply with
    answer := [.rr (.other
      { owner := .top, rrtype := typeNULL, rrclass := classINET, ttl := 60 } data)] }

def questionBytes : List Byte :=
  7 :: text "example" ++ 3 :: text "com" ++ [0, 0, 1, 0, 1]

def queryBytes : List Byte :=
  [0, 0, 1, 0, 0, 1, 0, 0, 0, 0, 0, 0] ++ questionBytes

def answerBytes (data : List Byte) : List Byte :=
  [0, 0, 129, 0, 0, 1, 0, 1, 0, 0, 0, 0] ++ questionBytes ++ [0, 0, 10, 0, 1, 0, 0, 0, 60] ++
    bigEndian 2 data.length ++ data

def doqTable (data : List Byte) : List (Message × List Byte) :=
  [(doqQuery, queryBytes), (doqAnswer data, answerBytes data)]

def doqWire (data : List Byte) : Wire where
  pack := packBy (doqTable data)
  unpack := unpackBy (doqTable data)

section

variable (data : List Byte)

theorem length_answerBytes : (answerBytes data).length = 40 + data.length := by
  rw [answerBytes, List.length_append, List.length_append, length_bigEndian]
  rfl

theorem pack_doqQuery : (doqWire data).pack doqQuery = some queryBytes := by
  simp [doqWire, doqTable, packBy]

theorem unpack_queryBytes : (doqWire data).unpack queryBytes = some doqQuery := by
  simp [doqWire, doqTable, unpackBy]

theorem pack_doqAnswer : (doqWire data).pack (doqAnswer data) = some (answerBytes data) := by
  have different : doqQuery ≠ doqAnswer data := fun same =>
    Bool.false_ne_true (congrArg Message.response same)
  simp [doqWire, doqTable, packBy, different]

theorem unpack_answerBytes : (doqWire data).unpack (answerBytes data) = some (doqAnswer data) := by
  have different : queryBytes ≠ answerBytes data := by
    intro same
    have flags : ([0, 0, 1] : List Byte) = [0, 0, 129] := congrArg (List.take 3) same
    exact absurd flags (by decide)
  simp [doqWire, doqTable, unpackBy, different]

theorem handleStream_queryBytes :
    handleStream (doqWire data) (fun _ => .ok (some (doqAnswer data))) true
        (addLength queryBytes) =
      .responded (doqAnswer data) (addLength (answerBytes data)) := by
  unfold handleStream
  rw [(readFramed_addLength_eq_iff queryBytes).mpr (by decide)]
  dsimp only
  rw [unpack_queryBytes]
  exact writeAnswer_eq_responded.mpr ⟨rfl, _, pack_doqAnswer data, rfl⟩

end

/-- A short answer, and a short query, are recovered. -/
theorem short_message_recovered :
    handleStream (doqWire [1, 2, 3, 4]) (fun _ => .ok (some (doqAnswer [1, 2, 3, 4]))) true
        (addLength queryBytes) =
        .responded (doqAnswer [1, 2, 3, 4]) (addLength (answerBytes [1, 2, 3, 4])) ∧
      readFramed (addLength (answerBytes [1, 2, 3, 4])) = some (answerBytes [1, 2, 3, 4]) ∧
      (resolveDoq (doqWire [1, 2, 3, 4]) (.ok ()) .ok { doqQuery with id := 5 }).written =
        some (addLength queryBytes) ∧
      readFramed (addLength queryBytes) = some queryBytes := by
  have responded := handleStream_queryBytes [1, 2, 3, 4]
  have frames := doq_frames_iff (doqWire [1, 2, 3, 4])
  have packs : (doqWire [1, 2, 3, 4]).pack (prepareQuery { doqQuery with id := 5 }) =
      some queryBytes := pack_doqQuery _
  have wrote : (resolveDoq (doqWire [1, 2, 3, 4]) (.ok ()) .ok
      { doqQuery with id := 5 }).written = some (addLength queryBytes) := by
    rw [resolveDoq, packs]
  refine ⟨responded, ?_, wrote, ?_⟩
  · exact (frames.1 _ _ _ _ _ _ responded (pack_doqAnswer _)).mpr (by decide)
  · exact (frames.2 _ _ _ _ _ wrote packs).mpr (by decide)

/-- The frame of an answer of 65536 bytes holds nothing for its reader. -/
theorem oversized_answer_lost :
    ∃ data written, (doqWire data).pack (doqAnswer data) = some (answerBytes data) ∧
      (answerBytes data).length = 65536 ∧
      handleStream (doqWire data) (fun _ => .ok (some (doqAnswer data))) true
        (addLength queryBytes) = .responded (doqAnswer data) written ∧
      readFramed written = some [] := by
  have length : (answerBytes (List.replicate 65496 0)).length = 65536 := by
    rw [length_answerBytes, List.length_replicate]
  refine ⟨List.replicate 65496 0, _, pack_doqAnswer _, length, handleStream_queryBytes _, ?_⟩
  rw [readFramed_addLength, length]
  rfl

/-! ## An exchange -/

theorem hasKeepalive_prepareQuery (q : Message) : hasKeepalive (prepareQuery q) = false := by
  have edns : (prepareQuery q).isEdns0 = q.isEdns0.map fun edns0 =>
      { edns0 with
        options := edns0.options.filter fun option => option.code ≠ edns0TcpKeepalive } :=
    Message.isEdns0_updateLastOPT _ q
  unfold hasKeepalive
  rw [edns]
  cases q.isEdns0 with
  | none => rfl
  | some edns0 => simp

/-- What the client reads if the listener at the other end handles its stream. -/
def served (wire : Wire) (resolve : Message → Except Text (Option Message))
    (handshakeCompletes : Bool) (stream : List Byte) : Except Text (List Byte) :=
  match handleStream wire resolve handshakeCompletes stream with
  | .responded _ written => .ok written
  | _ => .ok []

/-- A client gets the answer of the listener's resolver if both messages fit into frames. -/
theorem resolveDoq_served {wire : Wire} {resolve : Message → Except Text (Option Message)}
    {handshakeCompletes : Bool} {q a : Message} {p b : List Byte}
    (packsQuery : wire.pack (prepareQuery q) = some p)
    (unpacksQuery : wire.unpack p = some (prepareQuery q)) (queryFits : p.length < 65536)
    (asked : q.question ≠ []) (safe : isReplayableOpcode q.opcode || handshakeCompletes)
    (answers : resolve (prepareQuery q) = .ok (some a))
    (packsAnswer : wire.pack a = some b) (unpacksAnswer : wire.unpack b = some a)
    (answerFits : b.length < 65536)
    (answered : q.validateResponseQuestion { a with id := q.id } = .ok ())
    (allowed : hasKeepalive a = false) :
    (resolveDoq wire (.ok ()) (served wire resolve handshakeCompletes) q).result =
      .ok { a with id := q.id } := by
  have responded : handleStream wire resolve handshakeCompletes (addLength p) =
      .responded a (addLength b) := by
    have gate : (!isReplayableOpcode (prepareQuery q).opcode && !handshakeCompletes) = false := by
      rw [← Bool.not_or]
      change (!(isReplayableOpcode q.opcode || handshakeCompletes)) = false
      rw [safe]
      rfl
    have question : (prepareQuery q).question ≠ [] := asked
    unfold handleStream
    simp only [(readFramed_addLength_eq_iff p).mpr queryFits, unpacksQuery, question,
      hasKeepalive_prepareQuery, gate, answers, if_false, Bool.false_eq_true]
    exact writeAnswer_eq_responded.mpr ⟨rfl, b, packsAnswer, rfl⟩
  simp only [resolveDoq, packsQuery, served, responded,
    (readFramed_addLength_eq_iff b).mpr answerFits, acceptResponse, unpacksAnswer, answered,
    allowed, Bool.false_eq_true, if_false]

/-- A query with an ID of its client. -/
theorem query_answered :
    (resolveDoq (doqWire [1, 2, 3, 4]) (.ok ())
      (served (doqWire [1, 2, 3, 4]) (fun _ => .ok (some (doqAnswer [1, 2, 3, 4]))) false)
      { doqQuery with id := 5 }).result = .ok { doqAnswer [1, 2, 3, 4] with id := 5 } :=
  resolveDoq_served (pack_doqQuery _) (unpack_queryBytes _) (by decide) (List.cons_ne_nil _ _) rfl
    rfl (pack_doqAnswer _) (unpack_answerBytes _) (by decide) rfl rfl

end RouteDns.Transport
