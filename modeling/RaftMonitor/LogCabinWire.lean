import RaftMonitor.WireBytes
import RaftMonitor.PacketTypes

namespace RaftMonitor.LogCabin
open WireBytes

def maxMessageLength : ℕ := 1024 + 1024 * 1024

structure Header where
  messageId : UInt64
  payloadLength : UInt32

def Header.toBigEndian (h : Header) : List UInt8 :=
  bigEndian 8 h.messageId.toNat ++ bigEndian 4 h.payloadLength.toNat

def outbound (messageId : UInt64) (message : List UInt8) : List UInt8 :=
  Header.toBigEndian ⟨messageId, UInt32.ofNat message.length⟩ ++ message

theorem Header.toBigEndian_length (h : Header) : h.toBigEndian.length = 12 := by
  simp [Header.toBigEndian]

theorem outbound_length (messageId : UInt64) (message : List UInt8) :
    (outbound messageId message).length = 12 + message.length := by
  simp [outbound, Header.toBigEndian_length]

theorem outbound_getElem? (messageId : UInt64) (message : List UInt8) (i : ℕ) :
    (outbound messageId message)[12 + i]? = message[i]? := by
  unfold outbound
  rw [List.getElem?_append_right (by rw [Header.toBigEndian_length]; omega),
    Header.toBigEndian_length]
  congr 1
  omega

inductive ClientOpCode
  | getSupportedRpcVersions
  | openSession
  | getConfiguration
  | setConfiguration
  | readOnlyTree
  | readWriteTree
  deriving DecidableEq, Repr

inductive RaftOpCode
  | getSupportedRpcVersions
  | requestVote
  | appendEntries
  | appendSnapshotChunk
  deriving DecidableEq, Repr

inductive Rpc
  | client (op : ClientOpCode)
  | raft (op : RaftOpCode)
  deriving DecidableEq, Repr

def Rpc.service : Rpc → UInt16
  | .client _ => 1
  | .raft _ => 2

def Rpc.opCode : Rpc → UInt16
  | .client .getSupportedRpcVersions => 0
  | .client .openSession => 1
  | .client .getConfiguration => 2
  | .client .setConfiguration => 3
  | .client .readOnlyTree => 4
  | .client .readWriteTree => 5
  | .raft .getSupportedRpcVersions => 0
  | .raft .requestVote => 1
  | .raft .appendEntries => 2
  | .raft .appendSnapshotChunk => 3

def Rpc.packetType : Rpc → PacketType
  | .client .getSupportedRpcVersions => .getRpcVersions
  | .client .openSession => .openSession
  | .client .getConfiguration => .getConfig
  | .client .setConfiguration => .setConfig
  | .client .readOnlyTree => .readOnlyTree
  | .client .readWriteTree => .readWriteTree
  | .raft .getSupportedRpcVersions => .getRpcVersions
  | .raft .requestVote => .requestVote
  | .raft .appendEntries => .appendHeartbeat
  | .raft .appendSnapshotChunk => .appendSnapshot

structure RequestHeaderVersion1 where
  version : UInt8
  service : UInt16
  serviceSpecificErrorVersion : UInt8
  opCode : UInt16

def RequestHeaderVersion1.toBigEndian (h : RequestHeaderVersion1) : List UInt8 :=
  [h.version] ++ bigEndian 2 h.service.toNat ++ [h.serviceSpecificErrorVersion] ++
    bigEndian 2 h.opCode.toNat

/-- What a `ClientRPC` puts on the wire: the procedure, the serialized protocol buffer and
the two fields the decoder does not read. -/
structure Request where
  messageId : UInt64
  rpc : Rpc
  serviceSpecificErrorVersion : UInt8
  body : List UInt8

/-- The buffer the `ClientRPC` constructor fills: version 1 header, then the body. -/
def Request.message (r : Request) : List UInt8 :=
  RequestHeaderVersion1.toBigEndian
    ⟨1, r.rpc.service, r.serviceSpecificErrorVersion, r.rpc.opCode⟩ ++ r.body

def Request.frame (r : Request) : List UInt8 := outbound r.messageId r.message

theorem Request.message_eq (r : Request) :
    r.message = [1, UInt8.ofNat (r.rpc.service.toNat / 256), UInt8.ofNat r.rpc.service.toNat,
      r.serviceSpecificErrorVersion, UInt8.ofNat (r.rpc.opCode.toNat / 256),
      UInt8.ofNat r.rpc.opCode.toNat] ++ r.body := by
  simp [Request.message, RequestHeaderVersion1.toBigEndian, bigEndian_two]

theorem Request.frame_length (r : Request) : r.frame.length = 18 + r.body.length := by
  rw [Request.frame, outbound_length, Request.message_eq]
  simp only [List.length_append, List.length_cons, List.length_nil]
  omega

inductive RejectStatus
  | invalidVersion
  | invalidService
  | invalidRequest
  deriving DecidableEq, Repr

def RejectStatus.code : RejectStatus → UInt8
  | .invalidVersion => 2
  | .invalidService => 3
  | .invalidRequest => 4

inductive ErrorCode
  | notLeader
  | sessionExpired
  deriving DecidableEq, Repr

def ErrorCode.code : ErrorCode → UInt8
  | .notLeader => 1
  | .sessionExpired => 2

structure Error where
  errorCode : ErrorCode
  leaderHint : Option (List UInt8)

/-- `Error::SerializeWithCachedSizesToArray`: field 1 as an enum, field 2, when set, as a
length-delimited string. -/
def Error.serialize (e : Error) : List UInt8 :=
  [0x08, e.errorCode.code] ++
    match e.leaderHint with
    | none => []
    | some hint => [0x12] ++ varint32 hint.length ++ hint

/-- The three ways a `ServerRPC` answers: `reply`, `returnError` and `reject`. -/
inductive Reply
  | ok (body : List UInt8)
  | serviceSpecificError (error : Error)
  | rejected (status : RejectStatus)

def Reply.message : Reply → List UInt8
  | .ok body => 0 :: body
  | .serviceSpecificError error => 1 :: error.serialize
  | .rejected status => [status.code]

structure Response where
  messageId : UInt64
  reply : Reply

def Response.frame (r : Response) : List UInt8 := outbound r.messageId r.reply.message

end RaftMonitor.LogCabin
