import RaftMonitor.PacketTypes
import RaftMonitor.StdMap

namespace RaftMonitor
open Std StdMap

/-- An address as `GetSourceIP` prints it. `getLastIP` reads an uninitialised pointer when
the text has no field at all, so there is one. -/
structure Address where
  text : Text
  fields_ne_nil : strtok '.' text ≠ []

def getLastIP (ip : Address) : ℤ := atoi ((strtok '.' ip.text).getLast ip.fields_ne_nil)

/-- What the sniffer hands to the callback; a packet without data has no raw layer. -/
structure Packet where
  sourceIP : Address
  destinationIP : Text
  srcPort : ℕ
  dstPort : ℕ
  rawLayer : Option (List UInt8)

def Packet.bytes (p : Packet) : List UInt8 := p.rawLayer.getD []

def Packet.ports (p : Packet) : ℕ × ℕ := (p.srcPort, p.dstPort)

/-- The `type` that `RaftMonitor::callback` computes. A LogCabin packet of at most 18 bytes
gets the type -1, which is the constant `INVALID`. -/
def classify (implementation : RaftImplementation) (bytes : List UInt8) : PacketType :=
  match implementation with
  | .logcabin =>
    if h : bytes.length > 18 then OngaroRAFT.packetType bytes (Nat.le_of_lt h) else .invalid
  | .etcd => EtcdRAFT.packetType bytes

def PacketType.action : PacketType → Text
  | .getRpcVersions => "Get Supported RPC Versions From".toList
  | .openSession => "Open Session With".toList
  | .getConfig => "Get Configuration From".toList
  | .setConfig => "Set Configuration Of".toList
  | .readOnlyTree => "Get Read-Only Tree From".toList
  | .readWriteTree => "Get Read-Write Tree From".toList
  | .requestVote => "Request Vote From".toList
  | .appendHeartbeat => "Append/Heartbeat".toList
  | .appendSnapshot => "Append Snapshot".toList
  | .reply => "Reply".toList
  | .invalid => "Session Reply".toList

def Packet.line (p : Packet) (action : Text) : Text :=
  p.sourceIP.text ++ ":".toList ++ stdToString p.srcPort ++ ": ".toList ++ action ++
    " -> ".toList ++ p.destinationIP ++ ":".toList ++ stdToString p.dstPort ++ "\n".toList

/-- The global `out_file`: the file it is attached to, its error state, and all that was
written through it, with the file each text went to. -/
structure OutFile where
  name : Option Text
  good : Bool
  written : List (Text × Text)

/-- `open` in append mode. It fails on a stream that is already attached, which stays so. -/
def OutFile.openApp (f : OutFile) (name : Text) (opens : Bool) : OutFile :=
  match f.name with
  | some _ => { f with good := false }
  | none => if opens then { f with name := some name, good := true } else { f with good := false }

def OutFile.isOpen (f : OutFile) : Bool := f.name.isSome

def OutFile.write (f : OutFile) (text : Text) : OutFile :=
  match f.name with
  | some name => if f.good then { f with written := f.written ++ [(name, text)] } else f
  | none => { f with good := false }

def OutFile.close (f : OutFile) : OutFile :=
  match f.name with
  | some _ => { f with name := none }
  | none => { f with good := false }

/-- A rule of the `OUTPUT` chain: to drop packets of one source with some probability, both as
they stand in the command, or any other rule that someone has set. -/
inductive Rule
  | drop (source probability : Text)
  | other (specification : Text)
  deriving DecidableEq, Repr

/-- The fields of `RaftMonitor` that packets and tests change, the text the monitor printed,
and the firewall its `iptables` commands act on. The counters are of type `int`. -/
structure Monitor where
  implementation : RaftImplementation
  logfile : Text
  counts : ExtTreeMap (ℕ × ℕ) Int32 pairCmp
  numElections : Int32
  runTest : Bool
  currentLeader : ℤ
  outFile : OutFile
  console : List Text
  rules : List Rule

def Monitor.new (implementation : RaftImplementation) : Monitor where
  implementation := implementation
  logfile := []
  counts := ∅
  numElections := 0
  runTest := false
  currentLeader := 1
  outFile := ⟨none, true, []⟩
  console := []
  rules := []

namespace Monitor

def countElection (m : Monitor) (type : PacketType) : Monitor :=
  if type = .requestVote then { m with numElections := m.numElections + 1 } else m

/-- Reads and writes of the tree are taken to come from the leader. -/
def trackLeader (m : Monitor) (type : PacketType) (ip : Address) : Monitor :=
  if type = .readOnlyTree ∨ type = .readWriteTree then
    let nodeId := getLastIP ip
    if nodeId ≠ m.currentLeader then
      { m with
        currentLeader := nodeId
        console := m.console ++ ["RM: new leader = ".toList ++ stdToString nodeId ++ "\n".toList] }
    else m
  else m

def logPacket (m : Monitor) (action : Text) (p : Packet) : Monitor :=
  if action ≠ "Append/Heartbeat".toList ∧ action ≠ "Reply".toList ∧
      action ≠ "Session Reply".toList then
    let m := { m with console := m.console ++ [p.line action] }
    if m.runTest then { m with outFile := m.outFile.write (p.line action) } else m
  else m

def callback (m : Monitor) (p : Packet) : Monitor :=
  let type := classify m.implementation p.bytes
  let m := m.countElection type
  let m := m.trackLeader type p.sourceIP
  -- packets of all types are counted, during tests and between them
  let m := { m with counts := increment m.counts p.ports }
  m.logPacket type.action p

def startBlock (m : Monitor) (source fraction : Text) : Monitor :=
  { m with rules := m.rules ++ [.drop source fraction] }

/-- `iptables -D` removes the first equal rule, or fails without effect. -/
def clearBlock (m : Monitor) (source fraction : Text) : Monitor :=
  { m with rules := m.rules.erase (.drop source fraction) }

/-- The arguments of `startTest` and `stopTest`, the fraction as `to_string` prints it, and
the time at which the call is made. -/
structure TestCall where
  testname : Text
  partition : ℤ
  fraction : Text
  source : Text
  time : Text

def ruler : Text := "+----------------------------------------------+\n".toList

def beginning (c : TestCall) : Text :=
  ruler ++ "Beginning test ".toList ++ c.testname ++ " at time ".toList ++ c.time ++ "\n".toList

def ending (c : TestCall) : Text :=
  "Ending test ".toList ++ c.testname ++ " at time ".toList ++ c.time ++ "\n".toList ++ ruler

/-- `RaftMonitor::startTest`; `opens` says whether the log file can be opened. -/
def startTest (m : Monitor) (c : TestCall) (opens : Bool) : Monitor × ℤ :=
  let logfile := c.testname ++ ".log".toList
  let m := { m with logfile := logfile, outFile := m.outFile.openApp logfile opens }
  if m.outFile.isOpen then
    let m := { m with runTest := true, numElections := 0 }
    let m := if c.partition ≠ 0 then m.startBlock c.source c.fraction else m
    ({ m with outFile := m.outFile.write (beginning c) }, 0)
  else (m, -1)

/-- The statistics that `stopTest` prints: the packet counts in the order of the map, and
the number of elections. -/
structure Report where
  packets : List ((ℕ × ℕ) × Int32)
  elections : Int32

def packetsLine (ports : ℕ × ℕ) (n : ℤ) : Text :=
  "Packets ".toList ++ stdToString ports.1 ++ "->".toList ++ stdToString ports.2 ++ ":".toList ++
    stdToString n

def electionsLine (n : ℤ) : Text := "Elections: ".toList ++ stdToString n

def Report.text (r : Report) : Text :=
  (r.packets.flatMap fun e => packetsLine e.1 e.2.toInt ++ "\n".toList) ++
    electionsLine r.elections.toInt ++ "\n".toList

def report (m : Monitor) : Report := ⟨m.counts.toList, m.numElections⟩

def stopTest (m : Monitor) (c : TestCall) : Monitor × ℤ :=
  let m := if c.partition ≠ 0 then m.clearBlock c.source c.fraction else m
  let m := { m with runTest := false }
  let m := { m with outFile := (m.outFile.write (m.report.text ++ ending c)).close }
  ({ m with counts := ∅ }, 0)

theorem countElection_eq (m : Monitor) (type : PacketType) :
    m.countElection type =
      { m with numElections := m.numElections + if type = .requestVote then 1 else 0 } := by
  unfold countElection
  split_ifs
  · rfl
  · rw [Int32.add_zero]

theorem trackLeader_eq (m : Monitor) (type : PacketType) (ip : Address) :
    ∃ console, m.trackLeader type ip =
      { m with
        currentLeader :=
          if type = .readOnlyTree ∨ type = .readWriteTree then getLastIP ip else m.currentLeader
        console := console } := by
  dsimp only [trackLeader]
  split_ifs with ht hl
  · exact ⟨_, rfl⟩
  · rw [not_not.mp hl]
    exact ⟨m.console, rfl⟩
  · exact ⟨m.console, rfl⟩

theorem write_frame {f : OutFile} (text : Text) :
    (f.write text).name = f.name ∧ (f.isOpen → (f.write text).good = f.good) := by
  unfold OutFile.write OutFile.isOpen
  split
  · split_ifs <;> simp
  · simp_all

theorem logPacket_eq (m : Monitor) (action : Text) (p : Packet) :
    ∃ console outFile, m.logPacket action p = { m with console := console, outFile := outFile } ∧
      outFile.name = m.outFile.name ∧ (m.outFile.isOpen → outFile.good = m.outFile.good) := by
  dsimp only [logPacket]
  split_ifs with ha hr
  · exact ⟨_, _, rfl, write_frame _⟩
  · exact ⟨_, m.outFile, rfl, rfl, fun _ => rfl⟩
  · exact ⟨m.console, m.outFile, rfl, rfl, fun _ => rfl⟩

theorem callback_eq (m : Monitor) (p : Packet) :
    ∃ console outFile, m.callback p =
      { m with
        counts := increment m.counts p.ports
        numElections := m.numElections +
          if classify m.implementation p.bytes = .requestVote then 1 else 0
        currentLeader :=
          if classify m.implementation p.bytes = .readOnlyTree ∨
              classify m.implementation p.bytes = .readWriteTree
          then getLastIP p.sourceIP else m.currentLeader
        console := console
        outFile := outFile } ∧
      outFile.name = m.outFile.name ∧ (m.outFile.isOpen → outFile.good = m.outFile.good) := by
  dsimp only [callback]
  rw [countElection_eq]
  obtain ⟨c, hc⟩ := trackLeader_eq
    { m with numElections := m.numElections +
        if classify m.implementation p.bytes = .requestVote then 1 else 0 }
    (classify m.implementation p.bytes) p.sourceIP
  rw [hc]
  exact logPacket_eq _ _ p

@[simp] theorem callback_implementation (m : Monitor) (p : Packet) :
    (m.callback p).implementation = m.implementation := by
  obtain ⟨c, f, h, -⟩ := callback_eq m p
  rw [h]

@[simp] theorem callback_counts (m : Monitor) (p : Packet) :
    (m.callback p).counts = increment m.counts p.ports := by
  obtain ⟨c, f, h, -⟩ := callback_eq m p
  rw [h]

theorem callback_numElections (m : Monitor) (p : Packet) :
    (m.callback p).numElections = m.numElections +
      if classify m.implementation p.bytes = .requestVote then 1 else 0 := by
  obtain ⟨c, f, h, -⟩ := callback_eq m p
  rw [h]

theorem callback_currentLeader (m : Monitor) (p : Packet) :
    (m.callback p).currentLeader =
      if classify m.implementation p.bytes = .readOnlyTree ∨
          classify m.implementation p.bytes = .readWriteTree
      then getLastIP p.sourceIP else m.currentLeader := by
  obtain ⟨c, f, h, -⟩ := callback_eq m p
  rw [h]

def callbacks (m : Monitor) (ps : List Packet) : Monitor := ps.foldl callback m

@[simp] theorem callbacks_implementation (m : Monitor) (ps : List Packet) :
    (m.callbacks ps).implementation = m.implementation := by
  unfold callbacks
  induction ps generalizing m with
  | nil => rfl
  | cons p ps ih => rw [List.foldl_cons, ih, callback_implementation]

theorem callbacks_numElections (m : Monitor) (ps : List Packet) :
    (m.callbacks ps).numElections = m.numElections +
      Int32.ofNat (ps.countP fun p => classify m.implementation p.bytes = .requestVote) := by
  unfold callbacks
  induction ps generalizing m with
  | nil => exact (Int32.add_zero _).symm
  | cons p ps ih =>
    rw [List.foldl_cons, ih, callback_numElections, callback_implementation, List.countP_cons,
      Nat.add_comm, Int32.ofNat_add, Int32.add_assoc]
    simp only [decide_eq_true_eq]
    split_ifs <;> rfl

theorem callbacks_currentLeader (m : Monitor) (ps : List Packet)
    (h : ∀ p ∈ ps, classify m.implementation p.bytes ≠ .readOnlyTree ∧
      classify m.implementation p.bytes ≠ .readWriteTree) :
    (m.callbacks ps).currentLeader = m.currentLeader := by
  unfold callbacks
  induction ps generalizing m with
  | nil => rfl
  | cons p ps ih =>
    have hp := h p List.mem_cons_self
    rw [List.foldl_cons, ih, callback_currentLeader, if_neg (by tauto)]
    simpa using fun q hq => h q (List.mem_cons_of_mem p hq)

end Monitor

end RaftMonitor
