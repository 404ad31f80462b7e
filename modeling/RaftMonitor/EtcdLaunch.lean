import RaftMonitor.Processes

namespace RaftMonitor.Etcd
open ProcessTable ClusterConfig

/-- A parser that takes pairs of a flag and its value, from left to right, and stops at the first
argument that does not start with a dash. -/
def parseFlags : List Text → List (Text × Text)
  | ('-' :: flag) :: value :: args => (flag, value) :: parseFlags args
  | _ => []

/-- What a command sets a flag to; the first argument is the program. -/
def setting (command : Command) (flag : String) : Option Text :=
  (parseFlags command.args.tail).reverse.lookup flag.toList

def dataPath : Text := RaftEnv.rootDir ++ "/teststorage".toList

/-- The command gives the node its own data directory, name and addresses. -/
structure Identifies (port i : ℤ) (command : Command) : Prop where
  dataDir : setting command "data-dir" = some (dataPath ++ "/".toList ++ machineName i)
  name : setting command "name" = some (machineName i)
  peerAddr : setting command "peer-addr" = some (Etcd.peerAddr i port)
  addr : setting command "addr" = some (pubAddr i port)

theorem parseFlags_firstCommand (c : ClusterConfig) (port : ℤ) :
    parseFlags (firstCommand c port).args.tail =
      [("peer-addr".toList, Etcd.peerAddr 1 port), ("addr".toList, pubAddr 1 port),
        ("data-dir".toList, c.dataPathRoot ++ "/machine1".toList),
        ("name".toList, "machine1".toList)] := rfl

theorem parseFlags_nodeCommand (c : ClusterConfig) (i : ℤ) :
    parseFlags (nodeCommand c i).args.tail =
      [("peer-addr".toList, Etcd.peerAddr i c.clusterPort),
        ("addr".toList, pubAddr i c.clusterPort),
        ("peers".toList, getPeerString c.numNodes i c.clusterPort)] := rfl

theorem identifies_firstCommand {c : ClusterConfig} (h : c.dataPathRoot = dataPath) (port : ℤ) :
    Identifies port 1 (firstCommand c port) := by
  refine ⟨?_, ?_, ?_, ?_⟩
  · rw [setting, parseFlags_firstCommand, h]
    rfl
  · rw [setting, parseFlags_firstCommand]
    rfl
  · rw [setting, parseFlags_firstCommand]
    rfl
  · rw [setting, parseFlags_firstCommand]
    rfl

theorem setting_nodeCommand (c : ClusterConfig) (i : ℤ) :
    setting (nodeCommand c i) "data-dir" = none ∧ setting (nodeCommand c i) "name" = none := by
  unfold setting
  rw [parseFlags_nodeCommand]
  exact ⟨rfl, rfl⟩

theorem nodeCommand_congr {c c' : ClusterConfig} (h : SameSettings c c') :
    nodeCommand c' = nodeCommand c := by
  funext i
  simp only [nodeCommand, h.clusterPort, h.numNodes, h.dataPathRoot]

/-- A launch starts the first node with its own command, and the others with that of
`launchNode`, up to the first failure. -/
theorem launchCluster_requested (os : Os) (c : ClusterConfig) (n port : ℤ) :
    SameSettings (prepare (c.reset n port) port) (Etcd.launchCluster os c n port) ∧
      ∃ started, started <+: Int.range 2 (n + 1) ∧
        requested (Etcd.launchCluster os c n port).processes.events =
          requested c.processes.events ++ firstCommand (prepare (c.reset n port) port) port ::
            started.map (nodeCommand (prepare (c.reset n port) port)) ∧
        ((Etcd.launchCluster os c n port).exited = false → started = Int.range 2 (n + 1)) := by
  obtain ⟨hsame, hrequested⟩ := startNode_requested os (prepare (c.reset n port) port) 1
    (firstCommand (prepare (c.reset n port) port) port)
    "Error: failed to launch cluster; exiting".toList
  have hevents : requested (prepare (c.reset n port) port).processes.events =
      requested c.processes.events := rfl
  have hnumNodes : (prepare (c.reset n port) port).numNodes = n := rfl
  dsimp only [Etcd.launchCluster]
  split_ifs with hok
  · obtain ⟨hsame', started, hfirst, hrequested', hall⟩ := launchNodes_requested os
      nodeCommand_congr "Failed to launch subprocess".toList
      "Error: failed to launch cluster; exiting".toList (Int.range 2 (n + 1))
      (startNode os (prepare (c.reset n port) port) 1
        (firstCommand (prepare (c.reset n port) port) port)
        "Error: failed to launch cluster; exiting".toList).1
    rw [hsame.numNodes, hnumNodes]
    refine ⟨hsame.trans hsame', started, hfirst, ?_, hall⟩
    refine hrequested'.trans ?_
    rw [hrequested, nodeCommand_congr hsame, hevents, List.append_assoc, List.singleton_append]
  · refine ⟨hsame.trans ⟨rfl, rfl, rfl, rfl, rfl, rfl⟩, [], List.nil_prefix, ?_, nofun⟩
    exact hrequested.trans (by rw [hevents]; rfl)

theorem killIterations_requested (os : Os) (restarts : List ℤ) (c : ClusterConfig) :
    requested (restarts.foldl (killIteration .etcd os) c).processes.events =
      requested c.processes.events ++ restarts.map (nodeCommand c) := by
  induction restarts generalizing c with
  | nil => exact (List.append_nil _).symm
  | cons i restarts ih =>
    have hkill : SameSettings c (killNode os c i).1 :=
      ⟨rfl, rfl, rfl, rfl, rfl, rfl⟩
    obtain ⟨hsame, hrequested⟩ := startNode_requested os (killNode os c i).1 i
      (nodeCommand (killNode os c i).1 i) "Failed to launch subprocess".toList
    have hstep : requested (killIteration .etcd os c i).processes.events =
        requested c.processes.events ++ [nodeCommand c i] := by
      refine hrequested.trans ?_
      rw [nodeCommand_congr hkill, ← requested_kill os c.processes i]
      rfl
    have hsettings : nodeCommand (killIteration .etcd os c i) = nodeCommand c :=
      nodeCommand_congr (hkill.trans hsame)
    rw [List.foldl_cons, ih, hstep, hsettings, List.append_assoc, List.map_cons,
      List.singleton_append]

/-- The nodes in the order in which they are started: by the launch of the cluster, and then
each time one of them is killed and launched again. -/
def startedNodes (n : ℤ) (restarts : List ℤ) : List ℤ := Int.range 1 (n + 1) ++ restarts

theorem range_eq_cons {n : ℤ} (hn : 1 ≤ n) : Int.range 1 (n + 1) = 1 :: Int.range 2 (n + 1) := by
  have hlength : (n + 1 - 1).toNat = (n + 1 - 2).toNat + 1 := by omega
  unfold Int.range
  rw [hlength, List.range_succ_eq_map, List.map_cons, List.map_map]
  congr 1
  apply List.map_congr_left
  intro k _
  simp only [Function.comp_apply, Nat.succ_eq_add_one, Nat.cast_add, Nat.cast_one]
  omega

/-- Of all starts of a test only the first one, that of the first node by `launchCluster`, gives
its node its own directory and name. The command of `launchNode` has `data-dir` without the
dash, at which the parser stops. A launch that fails starts only some of the nodes. -/
theorem start_identifies_iff (os : Os) (port₀ n₀ n port : ℤ) (hn : 1 ≤ n) (opens : Bool)
    (restarts : List ℤ) :
    let launched := ClusterConfig.launchCluster .etcd os (new port₀ n₀) n port opens
    let commands :=
      requested (restarts.foldl (killIteration .etcd os) launched).processes.events
    commands.length ≤ (startedNodes n restarts).length ∧
      (launched.exited = false → commands.length = (startedNodes n restarts).length) ∧
      ∀ (k : ℕ) (i : ℤ) (command : Command), (startedNodes n restarts)[k]? = some i →
        commands[k]? = some command → (Identifies port i command ↔ k = 0) := by
  intro launched commands
  obtain ⟨hsame, started, hfirst, hlaunched, hall⟩ :=
    launchCluster_requested os (new port₀ n₀) n port
  have hcommands : commands = firstCommand (prepare ((new port₀ n₀).reset n port) port) port ::
      (started ++ restarts).map (nodeCommand (prepare ((new port₀ n₀).reset n port) port)) := by
    have hrestarts := killIterations_requested os restarts
      (Etcd.launchCluster os (new port₀ n₀) n port)
    rw [hlaunched, nodeCommand_congr hsame] at hrestarts
    refine hrestarts.trans ?_
    simp [requested, new]
  rw [hcommands, startedNodes, range_eq_cons hn, List.cons_append]
  refine ⟨?_, ?_, ?_⟩
  · have hle := hfirst.length_le
    simp only [List.length_cons, List.length_map, List.length_append]
    omega
  · intro hlive
    rw [hall hlive, List.length_cons, List.length_map, List.length_cons]
  · intro k i command hi hcommand
    cases k with
    | zero =>
      rw [List.getElem?_cons_zero, Option.some.injEq] at hi hcommand
      rw [← hi, ← hcommand]
      exact iff_of_true (identifies_firstCommand rfl port) rfl
    | succ k =>
      rw [List.getElem?_cons_succ, List.getElem?_map] at hcommand
      obtain ⟨j, -, hj⟩ := Option.map_eq_some_iff.mp hcommand
      refine iff_of_false ?_ (Nat.succ_ne_zero k)
      intro h
      have hname := h.name
      rw [← hj, (setting_nodeCommand _ j).2] at hname
      cases hname

theorem first_start_identifies :
    ∃ command, (requested (ClusterConfig.launchCluster .etcd sampleOs (new 0 0) 2 61023
        true).processes.events)[0]? = some command ∧ Identifies 61023 1 command :=
  ⟨_, rfl, ((start_identifies_iff sampleOs 0 0 2 61023 (by decide) true []).2.2 0 1 _ rfl
    rfl).mpr rfl⟩

/-- The second node gets neither a directory nor a name, and neither does the first one when it
is launched again. -/
theorem nodes_share_defaults :
    ∃ first second again, requested (killIteration .etcd sampleOs
        (ClusterConfig.launchCluster .etcd sampleOs (new 0 0) 2 61023 true) 1).processes.events =
          [first, second, again] ∧
      setting first "name" = some "machine1".toList ∧
      setting second "name" = none ∧ setting second "data-dir" = none ∧
      setting again "name" = none ∧ setting again "data-dir" = none ∧
      ¬ Identifies 61023 2 second ∧ ¬ Identifies 61023 1 again := by
  refine ⟨_, _, _, rfl, rfl, rfl, rfl, rfl, rfl, ?_, ?_⟩
  · intro h
    cases h.name
  · intro h
    cases h.name

def peers (n t : ℤ) : List ℤ := (Int.range 1 (n + 1)).filter (· ≠ t)

theorem mem_peers {n t j : ℤ} : j ∈ peers n t ↔ 1 ≤ j ∧ j ≤ n ∧ j ≠ t := by
  unfold peers
  rw [List.mem_filter, Int.mem_range_iff, decide_eq_true_eq, Int.lt_add_one_iff, and_assoc]

theorem nodup_peers (n t : ℤ) : (peers n t).Nodup := (nodup_range 1 (n + 1)).filter _

theorem getPeerString_eq (n t port : ℤ) :
    getPeerString n t port = [','].intercalate ((peers n t).map (peerAddr · port)) := by
  unfold getPeerString peers
  rw [← foldl_joinStep, List.foldl_map, List.foldl_filter]
  simp only [decide_eq_true_eq]
  rfl

theorem peerAddr_injective (port : ℤ) : Function.Injective (peerAddr · port) := by
  intro i j h
  have hport : port + i = port + j := stdToString_injective (List.append_cancel_left h)
  omega

theorem pubAddr_injective (port : ℤ) : Function.Injective (pubAddr · port) := by
  intro i j h
  have hport : port + i - 1000 = port + j - 1000 :=
    stdToString_injective (List.append_cancel_left h)
  omega

theorem peerAddr_eq_pubAddr_iff {i j port : ℤ} :
    peerAddr i port = pubAddr j port ↔ j = i + 1000 := by
  constructor
  · intro h
    have hport : port + i = port + j - 1000 := stdToString_injective (List.append_cancel_left h)
    omega
  · rintro rfl
    have hport : port + i = port + (i + 1000) - 1000 := by omega
    unfold peerAddr pubAddr getPeerPort getPublicPort
    rw [← hport]

theorem comma_notMem_peerAddr (i port : ℤ) : ',' ∉ peerAddr i port := by
  have hport : ',' ∉ stdToString (port + i) := notMem_stdToString rfl (by decide) _
  have haddress : ',' ∉ getAddress ++ ":".toList := by decide
  intro h
  rcases List.mem_append.mp h with h | h
  · exact haddress h
  · exact hport h

theorem splitOn_getPeerString {n t : ℤ} (h : peers n t ≠ []) (port : ℤ) :
    (getPeerString n t port).splitOn ',' = (peers n t).map (peerAddr · port) := by
  rw [getPeerString_eq]
  apply List.splitOn_intercalate
  · intro a ha
    obtain ⟨i, -, rfl⟩ := List.mem_map.mp ha
    exact comma_notMem_peerAddr i port
  · simpa using h

theorem count_peerAddr (n t j port : ℤ) :
    ((getPeerString n t port).splitOn ',').count (peerAddr j port) =
      if j ∈ peers n t then 1 else 0 := by
  by_cases hempty : peers n t = []
  · have hstring : (getPeerString n t port).splitOn ',' = [[]] := by
      rw [getPeerString_eq, hempty]
      rfl
    have hne : ([] : Text) ≠ peerAddr j port := by
      unfold peerAddr getAddress
      simp
    rw [hstring, hempty, if_neg List.not_mem_nil]
    simp [hne]
  · rw [splitOn_getPeerString hempty, List.count_map_of_injective _ _ (peerAddr_injective port)]
    split_ifs with hj
    · exact List.count_eq_one_of_mem (nodup_peers n t) hj
    · exact List.count_eq_zero_of_not_mem hj

def addresses (n port : ℤ) : List Text :=
  (Int.range 1 (n + 1)).map (peerAddr · port) ++ (Int.range 1 (n + 1)).map (pubAddr · port)

theorem nodup_addresses_iff (n port : ℤ) : (addresses n port).Nodup ↔ n ≤ 1000 := by
  unfold addresses
  rw [List.nodup_append]
  constructor
  · rintro ⟨-, -, hdisjoint⟩
    by_contra hn
    have hpeer : peerAddr 1 port ∈ (Int.range 1 (n + 1)).map (peerAddr · port) :=
      List.mem_map_of_mem (Int.mem_range_iff.mpr (by omega))
    have hpub : pubAddr 1001 port ∈ (Int.range 1 (n + 1)).map (pubAddr · port) :=
      List.mem_map_of_mem (Int.mem_range_iff.mpr (by omega))
    exact hdisjoint _ hpeer _ hpub (peerAddr_eq_pubAddr_iff.mpr rfl)
  · intro hn
    refine ⟨(nodup_range 1 (n + 1)).map (peerAddr_injective port),
      (nodup_range 1 (n + 1)).map (pubAddr_injective port), ?_⟩
    intro a ha b hb hab
    obtain ⟨i, hi, rfl⟩ := List.mem_map.mp ha
    obtain ⟨j, hj, rfl⟩ := List.mem_map.mp hb
    rw [Int.mem_range_iff] at hi hj
    have hports := peerAddr_eq_pubAddr_iff.mp hab
    omega

/-- Splitting the list that a node is given yields the peer addresses of all other nodes in
order. So the address that a node is launched with, by `launchCluster` or by `launchNode`, occurs
once in the list of every other node and never in its own; and all addresses are distinct if and
only if there are at most 1000 nodes. -/
theorem peer_topology (n port : ℤ) :
    (∀ t, (peers n t ≠ [] → (getPeerString n t port).splitOn ',' =
        (peers n t).map fun j => getAddress ++ ":".toList ++ getPeerPort j port) ∧
      (peers n t = [] → getPeerString n t port = [])) ∧
    (∀ (c : ClusterConfig) (j : ℤ) (command : Command), c.numNodes = n → c.clusterPort = port →
      1 ≤ j → j ≤ n → command = nodeCommand c j ∨ j = 1 ∧ command = firstCommand c port →
        ∃ address, setting command "peer-addr" = some address ∧ ∀ t,
          setting (nodeCommand c t) "peers" = some (getPeerString n t port) ∧
            ((getPeerString n t port).splitOn ',').count address = if j = t then 0 else 1) ∧
    ((addresses n port).Nodup ↔ n ≤ 1000) := by
  refine ⟨?_, ?_, nodup_addresses_iff n port⟩
  · intro t
    refine ⟨fun h => splitOn_getPeerString h port, fun h => ?_⟩
    rw [getPeerString_eq, h]
    rfl
  · intro c j command hnodes hport hj hjn hcommand
    refine ⟨peerAddr j port, ?_, ?_⟩
    · rcases hcommand with rfl | ⟨rfl, rfl⟩
      · rw [setting, parseFlags_nodeCommand, hport]
        rfl
      · rw [setting, parseFlags_firstCommand]
        rfl
    · intro t
      refine ⟨by rw [setting, parseFlags_nodeCommand, hnodes, hport]; rfl, ?_⟩
      rw [count_peerAddr]
      by_cases hjt : j = t
      · rw [if_pos hjt, if_neg]
        intro hmem
        exact (mem_peers.mp hmem).2.2 hjt
      · rw [if_neg hjt, if_pos (mem_peers.mpr ⟨hj, hjn, hjt⟩)]

/-- The middle one of three nodes is told about the other two, and the first one is on its list. -/
theorem three_nodes_topology :
    (getPeerString 3 2 61023).splitOn ',' =
        ["192.168.2.1:61024".toList, "192.168.2.1:61026".toList] ∧
      ∃ address, setting (firstCommand (ClusterConfig.launchCluster .etcd sampleOs (new 0 0) 3 61023
          true) 61023) "peer-addr" = some address ∧
        ((getPeerString 3 2 61023).splitOn ',').count address = 1 := by
  obtain ⟨hsplit, hlaunched, -⟩ := peer_topology 3 61023
  refine ⟨(hsplit 2).1 (by decide), ?_⟩
  obtain ⟨address, hsetting, hcount⟩ := hlaunched (ClusterConfig.launchCluster .etcd sampleOs
    (new 0 0) 3 61023 true) 1 _ rfl rfl (by decide) (by decide) (Or.inr ⟨rfl, rfl⟩)
  exact ⟨address, hsetting, (hcount 2).2⟩

end RaftMonitor.Etcd
