import RaftMonitor.PacketTypes
import RaftMonitor.ProcessTable
import RaftMonitor.Text

namespace RaftMonitor
open Std ProcessTable

def RaftEnv.rootDir : Text := ".".toList

/-- The arguments of `createProcess`: the executable, and the argument vector without its
closing null pointer. -/
structure Command where
  path : Text
  args : List Text
  deriving DecidableEq, Repr

/-- The fields of `RaftClusterConfig` and of its two subclasses, the text of the configuration
file, the shell commands that were executed, and the lines that were printed. `processes`
holds the map `id2pid` and all calls of `createProcess` and `stopProcess`. -/
structure ClusterConfig where
  clusterPort : ℤ
  numNodes : ℤ
  processes : Table ℤ Command compare
  confFile : Text
  dataPathRoot : Text
  conf : Text
  commands : List Text
  console : List Text
  exited : Bool

namespace ClusterConfig

/-- A new object. The constructors leave `clusterPort` and `numNodes` to chance. -/
def new (clusterPort numNodes : ℤ) : ClusterConfig where
  clusterPort := clusterPort
  numNodes := numNodes
  processes := ⟨∅, []⟩
  confFile := []
  dataPathRoot := []
  conf := []
  commands := []
  console := []
  exited := false

def print (c : ClusterConfig) (line : Text) : ClusterConfig :=
  { c with console := c.console ++ [line] }

def exit (c : ClusterConfig) : ClusterConfig := { c with exited := true }

def executeCommand (c : ClusterConfig) (cmdStr : Text) : ClusterConfig :=
  let c := c.print ("executing: ".toList ++ cmdStr)
  { c with commands := c.commands ++ [cmdStr] }

def firstNodeId : ℤ := 1

/-- The ids from `firstNodeId()` to `numNodes`, over which all loops run. -/
def nodeIds (c : ClusterConfig) : List ℤ := Int.range firstNodeId (c.numNodes + 1)

def reset (c : ClusterConfig) (nNodes port : ℤ) : ClusterConfig :=
  { c with
    processes := { c.processes with pids := ∅ }
    clusterPort := port
    numNodes := nNodes }

def startNode (os : Os) (c : ClusterConfig) (id : ℤ) (command : Command) (failure : Text) :
    ClusterConfig × Bool :=
  let (t, ok) := spawn os c.processes id command
  if ok then ({ c with processes := t }, true)
  else (({ c with processes := t } : ClusterConfig).print failure, false)

theorem startNode_eq (os : Os) (c : ClusterConfig) (id : ℤ) (command : Command) (failure : Text) :
    ∃ console, startNode os c id command failure =
      ({ c with processes := (spawn os c.processes id command).1, console := console },
        (spawn os c.processes id command).2) := by
  dsimp only [startNode]
  split_ifs with hok
  · exact ⟨c.console, by rw [hok]⟩
  · exact ⟨c.console ++ [failure], by rw [Bool.eq_false_iff.mpr hok]; rfl⟩

/-- `killNode`, which both subclasses define alike. -/
def killNode (os : Os) (c : ClusterConfig) (id : ℤ) : ClusterConfig × Bool :=
  let (t, ok) := kill os c.processes id
  ({ c with processes := t }, ok)

/-- The loop of `launchCluster` over the nodes; the first failure ends the process. -/
def launchNodes (launchNode : ClusterConfig → ℤ → ClusterConfig × Bool) (failure : Text) :
    List ℤ → ClusterConfig → ClusterConfig
  | [], c => c
  | id :: ids, c =>
    let (c, ok) := launchNode c id
    if ok then launchNodes launchNode failure ids c else (c.print failure).exit

/-- Starting and killing nodes changes nothing but the process table, the console and whether
the process has ended. -/
structure SameSettings (c c' : ClusterConfig) : Prop where
  clusterPort : c'.clusterPort = c.clusterPort
  numNodes : c'.numNodes = c.numNodes
  confFile : c'.confFile = c.confFile
  dataPathRoot : c'.dataPathRoot = c.dataPathRoot
  conf : c'.conf = c.conf
  commands : c'.commands = c.commands

theorem SameSettings.refl (c : ClusterConfig) : SameSettings c c := ⟨rfl, rfl, rfl, rfl, rfl, rfl⟩

theorem SameSettings.trans {c c' c'' : ClusterConfig} (h : SameSettings c c')
    (h' : SameSettings c' c'') : SameSettings c c'' where
  clusterPort := h'.clusterPort.trans h.clusterPort
  numNodes := h'.numNodes.trans h.numNodes
  confFile := h'.confFile.trans h.confFile
  dataPathRoot := h'.dataPathRoot.trans h.dataPathRoot
  conf := h'.conf.trans h.conf
  commands := h'.commands.trans h.commands

theorem startNode_requested (os : Os) (c : ClusterConfig) (i : ℤ) (command : Command)
    (failure : Text) :
    SameSettings c (startNode os c i command failure).1 ∧
      requested (startNode os c i command failure).1.processes.events =
        requested c.processes.events ++ [command] := by
  obtain ⟨console, heq⟩ := startNode_eq os c i command failure
  rw [heq]
  exact ⟨⟨rfl, rfl, rfl, rfl, rfl, rfl⟩, requested_spawn os c.processes i command⟩

/-- The loop asks for the processes of some of the first nodes, and of all if none fails. -/
theorem launchNodes_requested (os : Os) {nodeCommand : ClusterConfig → ℤ → Command}
    (hcommand : ∀ {c c'}, SameSettings c c' → nodeCommand c' = nodeCommand c)
    (message failure : Text) (ids : List ℤ) (c : ClusterConfig) :
    let launchNode := fun c i => startNode os c i (nodeCommand c i) message
    let c' := launchNodes launchNode failure ids c
    SameSettings c c' ∧ ∃ started, started <+: ids ∧
      requested c'.processes.events =
        requested c.processes.events ++ started.map (nodeCommand c) ∧
      (c'.exited = false → started = ids) := by
  intro launchNode
  induction ids generalizing c with
  | nil =>
    exact ⟨SameSettings.refl c, [], List.prefix_rfl, (List.append_nil _).symm, fun _ => rfl⟩
  | cons i ids ih =>
    obtain ⟨hsame, hrequested⟩ := startNode_requested os c i (nodeCommand c i) message
    dsimp only [launchNodes]
    split_ifs with hok
    · obtain ⟨hsame', started, hfirst, hrequested', hall⟩ := ih (launchNode c i).1
      refine ⟨hsame.trans hsame', i :: started, List.cons_prefix_cons.mpr ⟨rfl, hfirst⟩, ?_, ?_⟩
      · rw [hrequested', hrequested, hcommand hsame, List.map_cons, List.append_assoc,
          List.singleton_append]
      · intro hlive
        rw [hall hlive]
    · -- the process ends
      refine ⟨hsame.trans ⟨rfl, rfl, rfl, rfl, rfl, rfl⟩, [i], ?_, hrequested, nofun⟩
      exact List.cons_prefix_cons.mpr ⟨rfl, List.nil_prefix⟩

end ClusterConfig

open ClusterConfig

namespace LogCabin

def getHost (nodeNumber : ℤ) : Text := "192.168.2.".toList ++ stdToString nodeNumber

def getHostPort (c : ClusterConfig) (nodeNumber : ℤ) : Text :=
  "192.168.2.".toList ++ stdToString nodeNumber ++ ":".toList ++ stdToString c.clusterPort

def confText (c : ClusterConfig) (storageDir : Text) : Text :=
  "storageModule = filesystem\n".toList ++ "storagePath = ".toList ++ storageDir ++
    "\n".toList ++ "servers = ".toList ++
    ((c.nodeIds.map (getHostPort c)).foldl (joinStep ";".toList) ([], true)).1 ++ "\n".toList

/-- `writeConfFile`; `opens` says whether the file can be opened. The only caller has checked
that there are nodes, so the assertion in `lastNodeId()` holds. -/
def writeConfFile (c : ClusterConfig) (storageDir : Text) (opens : Bool) : ClusterConfig × Bool :=
  if opens then ({ c with conf := confText c storageDir }, true)
  else (c.print ("error: Failed to open: ".toList ++ c.confFile), false)

def program : Text := RaftEnv.rootDir ++ "/logcabin/build/LogCabin".toList

def nodeCommand (c : ClusterConfig) (id : ℤ) : Command where
  path := program
  args := [program, "--id".toList, stdToString id, "--config".toList, c.confFile]

def launchNode (os : Os) (c : ClusterConfig) (id : ℤ) : ClusterConfig × Bool :=
  startNode os c id (nodeCommand c id) "error: failed to launch subprocess".toList

def reconfigure (c : ClusterConfig) : Text :=
  c.nodeIds.foldl (fun cmdStr id => cmdStr ++ (" ".toList ++ getHostPort c id))
    (RaftEnv.rootDir ++ "/logcabin/build/Examples/Reconfigure".toList)

def storageDir : Text := RaftEnv.rootDir ++ "/teststorage/logcabin".toList

def prepare (c : ClusterConfig) (opens : Bool) : ClusterConfig × Bool :=
  let c := c.executeCommand ("rm -rf ".toList ++ storageDir)
  let c := { c with confFile := RaftEnv.rootDir ++ "/teststorage/logcabin.conf".toList }
  let (c, ok) := writeConfFile c storageDir opens
  if ok then
    (c.executeCommand (RaftEnv.rootDir ++
      "/logcabin/build/LogCabin --bootstrap --id 1 --config ".toList ++ c.confFile), true)
  else (c.print "error: failed to write conf file".toList, false)

def launchCluster (os : Os) (c : ClusterConfig) (nNodes port : ℤ) (opens : Bool) :
    ClusterConfig :=
  let c := c.reset nNodes port
  -- assert(numNodes >= 1)
  if c.numNodes < 1 then c.exit else
  let (c, ok) := prepare c opens
  if ok then
    let c := launchNodes (launchNode os) "error: Failed to launch cluster; exiting".toList
      c.nodeIds c
    if c.exited then c else c.executeCommand (reconfigure c)
  else c.exit

theorem prepare_ok (c : ClusterConfig) (opens : Bool) : (prepare c opens).2 = opens := by
  cases opens <;> rfl

theorem prepare_processes (c : ClusterConfig) (opens : Bool) :
    (prepare c opens).1.processes = c.processes := by
  cases opens <;> rfl

theorem prepare_numNodes (c : ClusterConfig) (opens : Bool) :
    (prepare c opens).1.numNodes = c.numNodes := by
  cases opens <;> rfl

def stopNode (os : Os) (c : ClusterConfig) (id : ℤ) : ClusterConfig :=
  let (c, ok) := killNode os c id
  if ok then c else c.print ("error: Failed to kill node: ".toList ++ stdToString id)

/-- `stopCluster`; `lastNodeId()` asserts that there are nodes. -/
def stopCluster (os : Os) (c : ClusterConfig) : ClusterConfig :=
  if c.numNodes < 1 then c.exit else c.nodeIds.foldl (stopNode os) c

end LogCabin

namespace Etcd

def getPeerPort (nodeNumber port : ℤ) : Text := stdToString (port + nodeNumber)

def getPublicPort (nodeNumber port : ℤ) : Text := stdToString (port + nodeNumber - 1000)

def getAddress : Text := "192.168.2.1".toList

def getHost (_nodeId : ℤ) : Text := getAddress

def getHostPort (c : ClusterConfig) (nodeId : ℤ) : Text :=
  getHost nodeId ++ ":".toList ++ stdToString c.clusterPort

def peerAddr (nodeNumber port : ℤ) : Text :=
  getAddress ++ ":".toList ++ getPeerPort nodeNumber port

def pubAddr (nodeNumber port : ℤ) : Text :=
  getAddress ++ ":".toList ++ getPublicPort nodeNumber port

def getPeerString (numNodes thisNode port : ℤ) : Text :=
  ((Int.range 1 (numNodes + 1)).foldl
    (fun acc i => if i ≠ thisNode then joinStep ",".toList acc (peerAddr i port) else acc)
    ([], true)).1

def program : Text := RaftEnv.rootDir ++ "/etcd-v0.4.6-linux-amd64/etcd".toList

def machineName (nodeNum : ℤ) : Text := "machine".toList ++ stdToString nodeNum

def nodeCommand (c : ClusterConfig) (nodeNum : ℤ) : Command where
  path := program
  args := [program, "-peer-addr".toList, peerAddr nodeNum c.clusterPort,
    "-addr".toList, pubAddr nodeNum c.clusterPort,
    "-peers".toList, getPeerString c.numNodes nodeNum c.clusterPort,
    -- unlike in `launchCluster` there is no dash
    "data-dir".toList, c.dataPathRoot ++ "/".toList ++ machineName nodeNum,
    "-name".toList, machineName nodeNum]

def launchNode (os : Os) (c : ClusterConfig) (nodeNum : ℤ) : ClusterConfig × Bool :=
  startNode os c nodeNum (nodeCommand c nodeNum) "Failed to launch subprocess".toList

def firstCommand (c : ClusterConfig) (port : ℤ) : Command where
  path := program
  args := [program, "-peer-addr".toList, peerAddr 1 port, "-addr".toList, pubAddr 1 port,
    "-data-dir".toList, c.dataPathRoot ++ "/machine1".toList, "-name".toList, "machine1".toList]

def prepare (c : ClusterConfig) (port : ℤ) : ClusterConfig :=
  let c := { c with dataPathRoot := RaftEnv.rootDir ++ "/teststorage".toList }
  let c := c.executeCommand ("rm -rf ".toList ++ c.dataPathRoot ++ "/machine*".toList)
  c.print ("launching etcd node:".toList ++
    (firstCommand c port).args.flatMap fun arg => " ".toList ++ arg)

def launchCluster (os : Os) (c : ClusterConfig) (nNodes port : ℤ) : ClusterConfig :=
  let c := prepare (c.reset nNodes port) port
  let failure := "Error: failed to launch cluster; exiting".toList
  let (c, ok) := startNode os c 1 (firstCommand c port) failure
  if ok then launchNodes (launchNode os) failure (Int.range 2 (c.numNodes + 1)) c else c.exit

/-- Reading `id2pid[id]` enters the pid 0 when there is no entry. -/
def readPid (c : ClusterConfig) (id : ℤ) : ClusterConfig × ℤ :=
  let pids := c.processes.pids.insertIfNew id 0
  ({ c with processes := { c.processes with pids := pids } }, pids.getD id 0)

/-- One pass of the loop of `stopCluster`; the message reads the map again. -/
def stopNode (os : Os) (c : ClusterConfig) (id : ℤ) : ClusterConfig :=
  let (c, ok) := killNode os c id
  if ok then c
  else
    let (c, pid) := readPid c id
    c.print ("Failed to kill node: ".toList ++ stdToString id ++ " with pid: ".toList ++
      stdToString pid)

def stopCluster (os : Os) (c : ClusterConfig) : ClusterConfig :=
  c.nodeIds.foldl (stopNode os) c

end Etcd

namespace ClusterConfig

def getHost (impl : RaftImplementation) (nodeId : ℤ) : Text :=
  match impl with
  | .logcabin => LogCabin.getHost nodeId
  | .etcd => Etcd.getHost nodeId

def launchNode (impl : RaftImplementation) (os : Os) (c : ClusterConfig) (id : ℤ) :
    ClusterConfig × Bool :=
  match impl with
  | .logcabin => LogCabin.launchNode os c id
  | .etcd => Etcd.launchNode os c id

/-- Only LogCabin writes a configuration file. -/
def launchCluster (impl : RaftImplementation) (os : Os) (c : ClusterConfig) (nNodes port : ℤ)
    (opens : Bool) : ClusterConfig :=
  match impl with
  | .logcabin => LogCabin.launchCluster os c nNodes port opens
  | .etcd => Etcd.launchCluster os c nNodes port

def stopCluster (impl : RaftImplementation) (os : Os) (c : ClusterConfig) : ClusterConfig :=
  match impl with
  | .logcabin => LogCabin.stopCluster os c
  | .etcd => Etcd.stopCluster os c

theorem launchNode_eq (impl : RaftImplementation) (os : Os) (c : ClusterConfig) (id : ℤ) :
    ∃ command failure, launchNode impl os c id = startNode os c id command failure := by
  cases impl with
  | logcabin => exact ⟨_, _, rfl⟩
  | etcd => exact ⟨_, _, rfl⟩

end ClusterConfig

end RaftMonitor
