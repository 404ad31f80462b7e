import RaftMonitor.ElectedLogs
import RaftMonitor.Runs
import RaftMonitor.Text
import RaftMonitor.WireBytes

namespace RaftMonitor.LogCabin

open WireBytes (varintBytes)

namespace Raft

structure Server (n : ℕ) where
  serverId : Fin n
  address : Text
  deriving DecidableEq

structure Configuration (n : ℕ) where
  prevConfiguration : List (Server n)
  nextConfiguration : Option (List (Server n))
  deriving DecidableEq

end Raft

inductive EntryType (n : ℕ) (Op : Type)
  | configuration (description : Raft.Configuration n)
  | data (operation : Op)
  | noop
  deriving DecidableEq

abbrev Log.Entry (n : ℕ) (Op : Type) := ElectedLogs.Entry (EntryType n Op)

/-- `Storage::Log`; the index of the first entry is 1. -/
abbrev Log (n : ℕ) (Op : Type) := List (Log.Entry n Op)

/-- The deque of the entries throws an exception if there is no such entry. -/
def Log.getEntry {n : ℕ} {Op : Type} (log : Log n Op) (index : ℕ) : Option (Log.Entry n Op) :=
  if index = 0 then none else log[index - 1]?

namespace Raft

structure RequestVote (n : ℕ) where
  serverId : Fin n
  recipientId : Fin n
  term : ℕ
  lastLogTerm : ℕ
  lastLogIndex : ℕ

structure AppendEntries (n : ℕ) (Op : Type) where
  serverId : Fin n
  recipientId : Fin n
  term : ℕ
  prevLogTerm : ℕ
  prevLogIndex : ℕ
  entries : Log n Op
  commitIndex : ℕ

inductive Request (n : ℕ) (Op : Type)
  | requestVote (request : RequestVote n)
  | appendEntries (request : AppendEntries n Op)

inductive Response
  | requestVote (term : ℕ) (granted : Bool)
  | appendEntries (term : ℕ) (success : Bool)

end Raft

inductive RaftConsensus.State
  | follower
  | candidate
  | leader
  deriving DecidableEq

/-- A call that a thread waits for. The reply is found by the number of the request. -/
structure Peer.Call (n : ℕ) (Op : Type) where
  messageId : ℕ
  epoch : ℕ
  request : Raft.Request n Op

structure Peer (n : ℕ) (Op : Type) where
  requestVoteDone : Bool
  haveVote : Bool
  forceHeartbeat : Bool
  nextIndex : ℕ
  lastAgreeIndex : ℕ
  lastAckEpoch : ℕ
  rpc : Option (Peer.Call n Op)

/-- The servers are `Fin n`, numbered from 1 in the source, where 0 stands for `none`. Terms,
indexes and epochs are of type `uint64_t` there, and no run is long enough to reach the limit.
`lastSyncedIndex` is that of the `LocalServer`, whose own entry in `peers` is not used. `sync` is
what the thread that writes to the disk of a leader is waiting for: the term and the index of the
last entry. -/
structure RaftConsensus (n : ℕ) (Op : Type) where
  serverId : Fin n
  currentTerm : ℕ
  state : RaftConsensus.State
  leaderId : Option (Fin n)
  votedFor : Option (Fin n)
  log : Log n Op
  commitIndex : ℕ
  currentEpoch : ℕ
  lastSyncedIndex : ℕ
  logSyncQueued : Bool
  sync : Option (ℕ × ℕ)
  peers : Fin n → Peer n Op

namespace RaftConsensus
variable {n : ℕ} {Op : Type}

def SimpleConfiguration.quorumAll (servers : List (Fin n)) (predicate : Fin n → Bool) : Bool :=
  servers = [] ∨ servers.length / 2 + 1 ≤ servers.countP predicate

def SimpleConfiguration.quorumMin (servers : List (Fin n)) (getValue : Fin n → ℕ) : ℕ :=
  ((servers.map getValue).insertionSort (· ≤ ·)).getD ((servers.length - 1) / 2) 0

/-- `Configuration`, which is in the state `BLANK` if `id` is 0 and `TRANSITIONAL` if there are new
servers. -/
structure Configuration (n : ℕ) where
  id : ℕ
  description : Raft.Configuration n

namespace Configuration

def oldServers (c : Configuration n) : List (Fin n) :=
  c.description.prevConfiguration.map (·.serverId)

def newServers (c : Configuration n) : List (Fin n) :=
  (c.description.nextConfiguration.getD []).map (·.serverId)

def hasVote (c : Configuration n) (j : Fin n) : Bool := j ∈ c.oldServers ∨ j ∈ c.newServers

def quorumAll (c : Configuration n) (predicate : Fin n → Bool) : Bool :=
  SimpleConfiguration.quorumAll c.oldServers predicate &&
    (c.newServers = [] || SimpleConfiguration.quorumAll c.newServers predicate)

def quorumMin (c : Configuration n) (getValue : Fin n → ℕ) : ℕ :=
  if c.newServers = [] then SimpleConfiguration.quorumMin c.oldServers getValue
  else min (SimpleConfiguration.quorumMin c.oldServers getValue)
    (SimpleConfiguration.quorumMin c.newServers getValue)

/-- `ConfigurationManager::add`, for an entry and its place in the log. -/
def add (c : Configuration n) (entry : Log.Entry n Op × ℕ) : Configuration n :=
  match entry.1.data with
  | .configuration description => ⟨entry.2 + 1, description⟩
  | _ => c

/-- The `ConfigurationManager` has the last configuration of the log in force, also when entries
were appended or cut off. -/
def ofLog (log : Log n Op) : Configuration n := log.zipIdx.foldl add ⟨0, ⟨[], none⟩⟩

end Configuration

def configuration (s : RaftConsensus n Op) : Configuration n := .ofLog s.log

def haveVote (s : RaftConsensus n Op) (j : Fin n) : Bool :=
  if j = s.serverId then s.votedFor = some s.serverId else (s.peers j).haveVote

def getLastAgreeIndex (s : RaftConsensus n Op) (j : Fin n) : ℕ :=
  if j = s.serverId then s.lastSyncedIndex else (s.peers j).lastAgreeIndex

def getLastAckEpoch (s : RaftConsensus n Op) (j : Fin n) : ℕ :=
  if j = s.serverId then s.currentEpoch else (s.peers j).lastAckEpoch

def init (serverId : Fin n) (currentTerm : ℕ) (votedFor : Option (Fin n)) (log : Log n Op) :
    RaftConsensus n Op where
  serverId := serverId
  currentTerm := currentTerm
  state := .follower
  leaderId := none
  votedFor := votedFor
  log := log
  commitIndex := 0
  currentEpoch := 0
  lastSyncedIndex := 0
  logSyncQueued := false
  sync := none
  peers _ := ⟨false, false, true, log.length + 1, 0, 0, none⟩

/-- Stops and starts again: of the log it finds the first `kept` entries. It may have been about to
step down to `newTerm`. -/
def restart (s : RaftConsensus n Op) (newTerm kept : ℕ) : RaftConsensus n Op :=
  init s.serverId newTerm (if s.currentTerm < newTerm then none else s.votedFor) (s.log.take kept)

/-- What is still to be written to the disk is written before `stepDown` returns. An assertion that
fails gives `none`. -/
def stepDown (s : RaftConsensus n Op) (newTerm : ℕ) : Option (RaftConsensus n Op) :=
  if newTerm < s.currentTerm then none
  else
    let s := if s.currentTerm < newTerm then { s with
        currentTerm := newTerm
        leaderId := none
        votedFor := none }
      else s
    some { s with
      state := .follower
      logSyncQueued := false }

/-- Only a leader leaves it to another thread to write the entries to the disk. -/
def append (s : RaftConsensus n Op) (entries : Log n Op) : Option (RaftConsensus n Op) :=
  if ∃ entry ∈ entries, entry.term = 0 then none
  else some { s with
    log := s.log ++ entries
    logSyncQueued := s.logSyncQueued || s.state = .leader }

def beginLeadership (s : RaftConsensus n Op) : RaftConsensus n Op :=
  { s with
    lastSyncedIndex := s.log.length
    peers := fun j => { s.peers j with
      nextIndex := s.log.length + 1
      lastAgreeIndex := 0
      forceHeartbeat := true } }

def becomeLeader (s : RaftConsensus n Op) : Option (RaftConsensus n Op) :=
  if s.state ≠ .candidate then none
  else append (beginLeadership { s with
      state := .leader
      leaderId := some s.serverId })
    [⟨s.currentTerm, .noop⟩]

/-- A server without a configuration goes back to sleep. -/
def startNewElection (s : RaftConsensus n Op) : Option (RaftConsensus n Op) :=
  if s.configuration.id = 0 then some s
  else
    let s := { s with
      currentTerm := s.currentTerm + 1
      state := .candidate
      leaderId := none
      votedFor := some s.serverId
      peers := fun j => { s.peers j with
        requestVoteDone := false
        haveVote := false } }
    if s.configuration.quorumAll s.haveVote then s.becomeLeader else some s

def getLastLogTerm (s : RaftConsensus n Op) : ℕ := ElectedLogs.lastTerm s.log

def requestVote (s : RaftConsensus n Op) (j : Fin n) : Raft.RequestVote n where
  serverId := s.serverId
  recipientId := j
  term := s.currentTerm
  lastLogTerm := s.getLastLogTerm
  lastLogIndex := s.log.length

def setPeer (s : RaftConsensus n Op) (j : Fin n) (peer : Peer n Op) : RaftConsensus n Op :=
  { s with peers := Function.update s.peers j peer }

def requestVoteReply (s : RaftConsensus n Op) (j : Fin n) (epoch : ℕ)
    (request : Raft.RequestVote n) (term : ℕ) (granted : Bool) : Option (RaftConsensus n Op) :=
  if s.currentTerm ≠ request.term ∨ s.state ≠ .candidate then some s
  else if s.currentTerm < term then s.stepDown term
  else
    let s := s.setPeer j { s.peers j with
      requestVoteDone := true
      lastAckEpoch := epoch
      haveVote := (s.peers j).haveVote || granted }
    if granted ∧ s.configuration.quorumAll s.haveVote then s.becomeLeader else some s

/-- `withheld` says whether the server has heard from a leader recently; a leader always withholds
its vote. -/
def handleRequestVote (s : RaftConsensus n Op) (withheld : Bool) (request : Raft.RequestVote n) :
    Option (RaftConsensus n Op × Raft.Response) :=
  if s.state = .leader ∨ withheld then some (s, .requestVote s.currentTerm false)
  else
    (if s.currentTerm < request.term then s.stepDown request.term else some s).bind fun s =>
    let logIsOk := s.getLastLogTerm < request.lastLogTerm ∨
      (request.lastLogTerm = s.getLastLogTerm ∧ s.log.length ≤ request.lastLogIndex)
    -- a vote is given once, but the answer says so again if the same candidate asks again
    (if request.term = s.currentTerm ∧ logIsOk ∧ s.votedFor = none then
      (s.stepDown s.currentTerm).map fun s => { s with votedFor := some request.serverId }
    else some s).map fun s =>
    (s, .requestVote s.currentTerm
      (request.term = s.currentTerm ∧ s.votedFor = some request.serverId))

/-- The leader commits a configuration: it steps down if it is not a part of it, and it goes on
to the new servers of a transitional one. -/
def committedConfiguration (s : RaftConsensus n Op) : Option (RaftConsensus n Op) :=
  if s.commitIndex < s.configuration.id then some s
  else if s.configuration.hasVote s.serverId = false then s.stepDown (s.currentTerm + 1)
  else if s.configuration.newServers ≠ [] then
    s.append [⟨s.currentTerm,
      .configuration ⟨s.configuration.description.nextConfiguration.getD [], none⟩⟩]
  else some s

/-- The leader has written its log to the disk up to `lastIndex`, or heard that another server
has. -/
def advanceCommittedId (s : RaftConsensus n Op) : Option (RaftConsensus n Op) :=
  if s.state ≠ .leader then some s
  else
    let newCommittedId := s.configuration.quorumMin s.getLastAgreeIndex
    if newCommittedId ≤ s.commitIndex then some s
    else (s.log.getEntry newCommittedId).bind fun entry =>
      if entry.term ≠ s.currentTerm then some s
      else committedConfiguration { s with commitIndex := newCommittedId }

/-- What `ByteSize` counts for a field of this many bytes. -/
def delimited (length : ℕ) : ℕ := 1 + (varintBytes 10 length).length + length

def serverSize (server : Raft.Server n) : ℕ :=
  (1 + (varintBytes 10 (server.serverId + 1)).length) + delimited server.address.length

def simpleConfigurationSize (servers : List (Raft.Server n)) : ℕ :=
  (servers.map fun server => delimited (serverSize server)).sum

def configurationSize (description : Raft.Configuration n) : ℕ :=
  delimited (simpleConfigurationSize description.prevConfiguration) +
    match description.nextConfiguration with
    | none => 0
    | some servers => delimited (simpleConfigurationSize servers)

/-- What `ByteSize` counts for an entry; the type takes one byte. -/
def entrySize (size : Op → ℕ) (entry : Log.Entry n Op) : ℕ :=
  1 + (varintBytes 10 entry.term).length + 2 +
    match entry.data with
    | .configuration description => delimited (configurationSize description)
    | .data operation => delimited (size operation)
    | .noop => 0

/-- `ByteSize` of a request whose commit index is not set yet; servers are numbered from 1. -/
def requestSize (size : Op → ℕ) (request : Raft.AppendEntries n Op) : ℕ :=
  (1 + (varintBytes 10 (request.serverId + 1)).length) +
  (1 + (varintBytes 10 (request.recipientId + 1)).length) +
  (1 + (varintBytes 10 request.term).length) +
  (1 + (varintBytes 10 request.prevLogIndex).length) +
  (1 + (varintBytes 10 request.prevLogTerm).length) +
  (request.entries.map fun entry => delimited (entrySize size entry)).sum

def maxMessageLength : ℕ := 1024 + 1024 * 1024

def softRPCSizeLimit : ℕ := maxMessageLength - 1024

/-- The loop over the entries that are to be sent: one that does not fit is left out, and the loop
goes on with the next one. -/
def packEntries (size : Op → ℕ) (request : Raft.AppendEntries n Op) :
    Log n Op → Raft.AppendEntries n Op
  | [] => request
  | entry :: rest =>
    let longer := { request with entries := request.entries ++ [entry] }
    if requestSize size longer < softRPCSizeLimit ∨ request.entries = [] then
      packEntries size longer rest
    else packEntries size request rest

/-- The request that `appendEntries` sends. The difference `nextIndex - 1` is a large number if
`nextIndex` is 0. -/
def appendEntries (size : Op → ℕ) (s : RaftConsensus n Op) (j : Fin n) :
    Option (Raft.AppendEntries n Op) :=
  let peer := s.peers j
  if peer.nextIndex = 0 ∨ s.log.length < peer.nextIndex - 1 then none
  else
    let prevLogIndex := peer.nextIndex - 1
    (if prevLogIndex = 0 then some 0 else (s.log.getEntry prevLogIndex).map (·.term)).map
    fun prevLogTerm =>
    let request : Raft.AppendEntries n Op :=
      ⟨s.serverId, j, s.currentTerm, prevLogTerm, prevLogIndex, [], 0⟩
    let request := if peer.forceHeartbeat then request
      else packEntries size request (s.log.drop prevLogIndex)
    { request with commitIndex := min s.commitIndex (prevLogIndex + request.entries.length) }

def appendEntriesReply (s : RaftConsensus n Op) (j : Fin n) (epoch : ℕ)
    (request : Raft.AppendEntries n Op) (term : ℕ) (success : Bool) :
    Option (RaftConsensus n Op) :=
  if s.currentTerm ≠ request.term then some s
  else if s.state ≠ .leader then none
  else if s.currentTerm < term then s.stepDown term
  else if term ≠ s.currentTerm then none
  else
    let agreed := request.prevLogIndex + request.entries.length
    let peer := { s.peers j with lastAckEpoch := epoch }
    if success then
      (if agreed < peer.lastAgreeIndex then some (s.setPeer j peer)
      else (s.setPeer j { peer with lastAgreeIndex := agreed }).advanceCommittedId).map fun s =>
        s.setPeer j { s.peers j with
          nextIndex := (s.peers j).lastAgreeIndex + 1
          forceHeartbeat := false }
    else some (s.setPeer j { peer with
      nextIndex := if 1 < peer.nextIndex then peer.nextIndex - 1 else peer.nextIndex })

/-- The loop over the entries of a request, the first of which has the index `entryId`: the part of
the log that stays, and the entries that are appended to it. -/
def mergeEntries (commitIndex : ℕ) (log : Log n Op) : ℕ → Log n Op → Option (Log n Op × Log n Op)
  | _, [] => some (log, [])
  | entryId, entry :: entries =>
    if entryId ≤ log.length then
      (log.getEntry entryId).bind fun old =>
        if old.term = entry.term then mergeEntries commitIndex log (entryId + 1) entries
        -- the source asserts that no committed entry is truncated
        else if commitIndex < entryId then some (log.take (entryId - 1), entry :: entries)
        else none
    else some (log, entry :: entries)

/-- Records the leader, or asserts that it is the one that is known. -/
def hailLeader (s : RaftConsensus n Op) (leader : Fin n) : Option (RaftConsensus n Op) :=
  match s.leaderId with
  | none => some { s with leaderId := some leader }
  | some known => if known = leader then some s else none

def matchesPrevious (s : RaftConsensus n Op) (request : Raft.AppendEntries n Op) : Bool :=
  request.prevLogIndex ≤ s.log.length ∧ (request.prevLogIndex = 0 ∨
    (s.log.getEntry request.prevLogIndex).map (·.term) = some request.prevLogTerm)

def setCommitIndex (s : RaftConsensus n Op) (commitIndex : ℕ) : Option (RaftConsensus n Op) :=
  if s.commitIndex < commitIndex then
    if commitIndex ≤ s.log.length then some { s with commitIndex := commitIndex } else none
  else some s

/-- The term and the leader of a request that is not stale. -/
def acceptLeader (s : RaftConsensus n Op) (request : Raft.AppendEntries n Op) :
    Option (RaftConsensus n Op) :=
  (s.stepDown request.term).bind fun s => s.hailLeader request.serverId

def handleAppendEntries (s : RaftConsensus n Op) (request : Raft.AppendEntries n Op) :
    Option (RaftConsensus n Op × Raft.Response) :=
  if request.term < s.currentTerm then some (s, .appendEntries s.currentTerm false)
  else
    -- the response is filled in before the term changes, and once more if it does
    let term := if s.currentTerm < request.term then request.term else s.currentTerm
    (s.acceptLeader request).bind fun s =>
    if s.matchesPrevious request = false then some (s, .appendEntries term false)
    else (mergeEntries s.commitIndex s.log (request.prevLogIndex + 1) request.entries).bind
      fun (log, entries) =>
      (if entries = [] then some s else append { s with log := log } entries).bind fun s =>
      (s.setCommitIndex request.commitIndex).map fun s => (s, .appendEntries term true)

/-- Stops in the middle of `handleAppendEntries`, when the entries that do not agree are gone and
`count` new ones have been written, and starts again. -/
def stopAppending (s : RaftConsensus n Op) (request : Raft.AppendEntries n Op) (count : ℕ) :
    Option (RaftConsensus n Op) :=
  if request.term < s.currentTerm then some (s.restart s.currentTerm s.log.length)
  else
    (s.acceptLeader request).bind fun s =>
    if s.matchesPrevious request = false then some (s.restart s.currentTerm s.log.length)
    else (mergeEntries s.commitIndex s.log (request.prevLogIndex + 1) request.entries).map
      fun (log, entries) => init s.serverId s.currentTerm s.votedFor (log ++ entries.take count)

/-- The thread that writes to the disk of a leader takes what there is to write. -/
def takeSync (s : RaftConsensus n Op) : Option (RaftConsensus n Op) :=
  if s.state = .leader ∧ s.logSyncQueued ∧ s.sync = none then
    some { s with
      sync := some (s.currentTerm, s.log.length)
      logSyncQueued := false }
  else none

def syncComplete (s : RaftConsensus n Op) (term lastIndex : ℕ) : Option (RaftConsensus n Op) :=
  let s := { s with sync := none }
  if s.state = .leader ∧ s.currentTerm = term then
    advanceCommittedId { s with lastSyncedIndex := lastIndex }
  else some s

/-- The beginning of `replicateEntry`; a call at a server that is not leader is refused. -/
def replicate (s : RaftConsensus n Op) (operation : Op) : Option (RaftConsensus n Op) :=
  s.append [⟨s.currentTerm, .data operation⟩]

/-- The test with which `upToDateLeader` returns: a majority has answered to this server in the
epoch or later, and an entry of its own term is committed. -/
def upToDate (s : RaftConsensus n Op) (epoch : ℕ) : Option Bool :=
  if s.state ≠ .leader ∨ s.configuration.quorumMin s.getLastAckEpoch < epoch then some false
  else (if s.commitIndex = 0 then some 0 else (s.log.getEntry s.commitIndex).map (·.term)).map
    fun commitTerm => commitTerm = s.currentTerm

/-- The thread of a peer goes on with the response to its call. -/
def reply (s : RaftConsensus n Op) (j : Fin n) (call : Peer.Call n Op) (response : Raft.Response) :
    Option (RaftConsensus n Op) :=
  let s := s.setPeer j { s.peers j with rpc := none }
  match call.request, response with
  | .requestVote request, .requestVote term granted =>
    s.requestVoteReply j call.epoch request term granted
  | .appendEntries request, .appendEntries term success =>
    s.appendEntriesReply j call.epoch request term success
  | _, _ => none

end RaftConsensus

structure ReplicateCall (n : ℕ) (Op : Type) where
  server : Fin n
  term : ℕ
  index : ℕ
  operation : Op

/-- A call of `getLastCommittedId` that waits for answers; `acknowledged` calls of `replicate` had
returned when it began. -/
structure ReadCall (n : ℕ) where
  server : Fin n
  epoch : ℕ
  acknowledged : ℕ

/-- The servers, all requests that were sent and all replies with the number of the request, the
threads that wait in a call, and what calls have returned. A request may arrive any number of
times or not at all. -/
structure RaftSystem (n : ℕ) (Op : Type) where
  servers : Fin n → RaftConsensus n Op
  requests : List (Raft.Request n Op)
  replies : List (ℕ × Raft.Response)
  calls : List (ReplicateCall n Op)
  results : List (ℕ × Op)
  reads : List (ReadCall n)
  readResults : List (ℕ × ℕ)
  failed : Bool

/-- What is on the disks of the servers when they start: the same log, in which the configuration
names all servers and is stable, and for each server its own term and vote. A server for which
others have voted in a later term than that of the last entry has been in that term as well. -/
structure RaftSystem.Start (n : ℕ) (Op : Type) where
  log : Log n Op
  terms : Fin n → ℕ
  votes : Fin n → Option (Fin n)
  pos : ∀ entry ∈ log, 0 < entry.term
  sorted : log.Pairwise fun entry entry' => entry.term ≤ entry'.term
  configured : (RaftConsensus.Configuration.ofLog log).id ≠ 0
  named : (RaftConsensus.Configuration.ofLog log).oldServers.Perm (List.finRange n)
  stable : (RaftConsensus.Configuration.ofLog log).newServers = []
  lastTerm_le : ∀ i, ElectedLogs.lastTerm log ≤ terms i
  votes_le : ∀ i j, votes i = some j → ElectedLogs.lastTerm log < terms i → terms i ≤ terms j

namespace RaftSystem
variable {n : ℕ} {Op : Type}

def Start.configuring (addresses : Fin n → Text) : Start n Op where
  log := [⟨1, .configuration ⟨(List.finRange n).map fun i => ⟨i, addresses i⟩, none⟩⟩]
  terms _ := 1
  votes _ := none
  pos := by simp
  sorted := List.pairwise_singleton _ _
  configured := Nat.one_ne_zero
  named := by
    simp [RaftConsensus.Configuration.ofLog, RaftConsensus.Configuration.add,
      RaftConsensus.Configuration.oldServers, Function.comp_def]
  stable := rfl
  lastTerm_le _ := le_rfl
  votes_le := nofun

def init (start : Start n Op) : RaftSystem n Op where
  servers i := .init i (start.terms i) (start.votes i) start.log
  requests := []
  replies := []
  calls := []
  results := []
  reads := []
  readResults := []
  failed := false

/-- What can happen next:
* `timerThreadMain` starts an election, `stepDownThreadMain` counts the epochs and steps down;
* a thread of `peerThreadMain` sends a request, and later has an error or the reply;
* a request is handled by its recipient;
* `leaderDiskThreadMain` begins or ends to write to the disk;
* a client calls `replicate` or `getLastCommittedId`, and the call returns;
* a server stops, perhaps in the middle of `handleAppendEntries`, and starts again. -/
inductive Event (n : ℕ) (Op : Type)
  | timeout (i : Fin n)
  | countEpoch (i : Fin n)
  | stepDown (i : Fin n)
  | sendRequestVote (i j : Fin n)
  | sendAppendEntries (i j : Fin n)
  | rpcFailed (i j : Fin n)
  | handleReply (i j : Fin n) (k : ℕ)
  | handleRequest (k : ℕ) (withheld : Bool)
  | takeSync (i : Fin n)
  | syncComplete (i : Fin n)
  | replicate (i : Fin n) (operation : Op)
  | replicated (k : ℕ)
  | upToDateLeader (i : Fin n)
  | upToDate (k : ℕ)
  | restart (i : Fin n) (newTerm kept : ℕ)
  | stopAppending (k count : ℕ)

/-- A server goes on with a new state, unless an assertion has failed. -/
def act (S : RaftSystem n Op) (i : Fin n) : Option (RaftConsensus n Op) → RaftSystem n Op
  | some s => { S with servers := Function.update S.servers i s }
  | none => { S with failed := true }

def send (S : RaftSystem n Op) (i j : Fin n) (request : Raft.Request n Op) : RaftSystem n Op :=
  let s := S.servers i
  let call := ⟨S.requests.length, s.currentEpoch, request⟩
  { S.act i (some (s.setPeer j { s.peers j with rpc := some call })) with
    requests := S.requests ++ [request] }

def respond (S : RaftSystem n Op) (k : ℕ) (i : Fin n) :
    Option (RaftConsensus n Op × Raft.Response) → RaftSystem n Op
  | some (s, response) => { S.act i (some s) with replies := S.replies ++ [(k, response)] }
  | none => { S with failed := true }

/-- The threads of a server that stops are gone. -/
def stop (S : RaftSystem n Op) (i : Fin n) : RaftSystem n Op :=
  { S with
    calls := S.calls.filter fun call => call.server ≠ i
    reads := S.reads.filter fun call => call.server ≠ i }

variable (size : Op → ℕ)

def step (S : RaftSystem n Op) : Event n Op → Option (RaftSystem n Op)
  | .timeout i =>
    let s := S.servers i
    if s.state ≠ .leader then some (S.act i s.startNewElection) else none
  | .countEpoch i =>
    let s := S.servers i
    if s.state = .leader then
      some (S.act i (some { s with currentEpoch := s.currentEpoch + 1 }))
    else none
  | .stepDown i =>
    let s := S.servers i
    if s.state = .leader then some (S.act i (s.stepDown (s.currentTerm + 1))) else none
  | .sendRequestVote i j =>
    let s := S.servers i
    if s.state = .candidate ∧ j ≠ i ∧ (s.peers j).rpc.isNone ∧
        (s.peers j).requestVoteDone = false then
      some (S.send i j (.requestVote (s.requestVote j)))
    else none
  | .sendAppendEntries i j =>
    let s := S.servers i
    if s.state = .leader ∧ j ≠ i ∧ (s.peers j).rpc.isNone then
      match s.appendEntries size j with
      | some request => some (S.send i j (.appendEntries request))
      | none => some { S with failed := true }
    else none
  | .rpcFailed i j =>
    -- the request may still arrive, but nobody waits for its reply
    let s := S.servers i
    some (S.act i (some (s.setPeer j { s.peers j with rpc := none })))
  | .handleReply i j k =>
    let s := S.servers i
    match (s.peers j).rpc, S.replies[k]? with
    | some call, some (messageId, response) =>
      if messageId = call.messageId then some (S.act i (s.reply j call response)) else none
    | _, _ => none
  | .handleRequest k withheld =>
    match S.requests[k]? with
    | some (.requestVote request) =>
      let i := request.recipientId
      some (S.respond k i ((S.servers i).handleRequestVote withheld request))
    | some (.appendEntries request) =>
      let i := request.recipientId
      some (S.respond k i ((S.servers i).handleAppendEntries request))
    | none => none
  | .takeSync i => (S.servers i).takeSync.map fun s => S.act i (some s)
  | .syncComplete i =>
    let s := S.servers i
    s.sync.map fun (term, lastIndex) => S.act i (s.syncComplete term lastIndex)
  | .replicate i operation =>
    let s := S.servers i
    if s.state = .leader then
      some { S.act i (s.replicate operation) with
        calls := S.calls ++ [⟨i, s.currentTerm, s.log.length + 1, operation⟩] }
    else none
  | .replicated k =>
    S.calls[k]?.bind fun call =>
    let s := S.servers call.server
    -- the call gives up when the term in which it appended its entry is over
    if s.currentTerm ≠ call.term then some { S with calls := S.calls.eraseIdx k }
    else if call.index ≤ s.commitIndex then
      some { S with
        calls := S.calls.eraseIdx k
        results := S.results ++ [(call.index, call.operation)] }
    else none
  | .upToDateLeader i =>
    let s := S.servers i
    some { S.act i (some { s with currentEpoch := s.currentEpoch + 1 }) with
      reads := S.reads ++ [⟨i, s.currentEpoch + 1, S.results.length⟩] }
  | .upToDate k =>
    S.reads[k]?.bind fun call =>
    let s := S.servers call.server
    match s.upToDate call.epoch with
    | none => some { S with failed := true }
    | some true => some { S with
        reads := S.reads.eraseIdx k
        readResults := S.readResults ++ [(call.acknowledged, s.commitIndex)] }
    | some false =>
      if s.state ≠ .leader then some { S with reads := S.reads.eraseIdx k } else none
  | .restart i newTerm kept =>
    let s := S.servers i
    -- only a leader has entries that are not on its disk
    if s.currentTerm ≤ newTerm ∧ kept ≤ s.log.length ∧
        (if s.state = .leader then s.lastSyncedIndex else s.log.length) ≤ kept then
      some ((S.act i (some (s.restart newTerm kept))).stop i)
    else none
  | .stopAppending k count =>
    match S.requests[k]? with
    | some (.appendEntries request) =>
      let i := request.recipientId
      some ((S.act i ((S.servers i).stopAppending request count)).stop i)
    | _ => none

end RaftSystem

end RaftMonitor.LogCabin
