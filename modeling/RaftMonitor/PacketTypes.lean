import RaftMonitor.Text

namespace RaftMonitor

inductive RaftImplementation
  | logcabin
  | etcd
  deriving DecidableEq, Repr

def RaftImplementation.name : RaftImplementation → Text
  | .logcabin => "logcabin".toList
  | .etcd => "etcd".toList

inductive PacketType
  | getRpcVersions
  | openSession
  | getConfig
  | setConfig
  | readOnlyTree
  | readWriteTree
  | requestVote
  | appendHeartbeat
  | appendSnapshot
  | reply
  | invalid
  deriving DecidableEq, Repr

namespace OngaroRAFT

/-- The switches on service number and opcode, for a packet taken to be a request. -/
def requestType (service opCode : ℕ) : PacketType :=
  -- CLIENT_SERVICE
  if service = 1 then
    match opCode with
    | 0 => .getRpcVersions
    | 1 => .openSession
    | 2 => .getConfig
    | 3 => .setConfig
    | 4 => .readOnlyTree
    | 5 => .readWriteTree
    | _ => .invalid
  -- RAFT_SERVICE
  else if service = 2 then
    match opCode with
    | 0 => .getRpcVersions
    | 1 => .requestVote
    | 2 => .appendHeartbeat
    | 3 => .appendSnapshot
    | _ => .invalid
  else .invalid

/-- `ongaroRAFT::packetType`. It reads the bytes at 12, 14 and 17, so the caller has to
make sure that they are there. -/
def packetType (pkt : List UInt8) (_ : 18 ≤ pkt.length) : PacketType :=
  let version := pkt[12].toNat
  if version = 1 then requestType pkt[14].toNat pkt[17].toNat else .reply

theorem packetType_of_getElem? {pkt : List UInt8} (h : 18 ≤ pkt.length)
    {version service opCode : UInt8}
    (hv : pkt[12]? = some version) (hs : pkt[14]? = some service) (ho : pkt[17]? = some opCode) :
    packetType pkt h =
      if version = 1 then requestType service.toNat opCode.toNat else .reply := by
  obtain ⟨-, rfl⟩ := List.getElem?_eq_some_iff.mp hv
  obtain ⟨-, rfl⟩ := List.getElem?_eq_some_iff.mp hs
  obtain ⟨-, rfl⟩ := List.getElem?_eq_some_iff.mp ho
  have hv : pkt[12].toNat = 1 ↔ pkt[12] = 1 := by rw [← UInt8.toNat_inj]; rfl
  simp only [packetType, hv]

theorem requestType_ne_reply (service opCode : ℕ) : requestType service opCode ≠ .reply := by
  unfold requestType
  split_ifs
  · split <;> simp
  · split <;> simp
  · simp

theorem requestType_eq_requestVote_iff {service opCode : ℕ} :
    requestType service opCode = .requestVote ↔ service = 2 ∧ opCode = 1 := by
  unfold requestType
  split_ifs with h1 h2
  · split <;> simp [h1]
  · split <;> simp_all
  · simp [h2]

theorem requestType_eq_tree_iff {service opCode : ℕ} :
    (requestType service opCode = .readOnlyTree ∨ requestType service opCode = .readWriteTree) ↔
      service = 1 ∧ (opCode = 4 ∨ opCode = 5) := by
  unfold requestType
  split_ifs with h1 h2
  · split <;> simp_all
  · split <;> simp [h2]
  · simp [h1]

end OngaroRAFT

namespace EtcdRAFT

/-- `etcdRAFT::packetType`: the first pattern that occurs anywhere in the payload decides. -/
def packetType (pkt : List UInt8) : PacketType :=
  let data : Text := pkt.map fun b => Char.ofNat b.toNat
  let has (pattern : String) : Bool := (find pattern.toList data).isSome
  if has "POST /log/append HTTP/1.1" then .appendHeartbeat
  else if has "200 OK" then .reply
  else if has "GET /version HTTP/1.1" then .getRpcVersions
  else if has "GET /v2/admin" then .getConfig
  else if has "PUT /join" then .setConfig
  else if has "POST /vote" then .requestVote
  else if has "PUT /v2/keys" then .readWriteTree
  else if has "GET /v2/keys" then .readOnlyTree
  -- continuations of any message end up here as well
  else .reply

end EtcdRAFT

end RaftMonitor
