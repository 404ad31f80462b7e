import RaftMonitor.ClusterConfig
import RaftMonitor.Runs

namespace RaftMonitor.ClusterConfig
open Std ProcessTable

variable {os : Os} {c : ClusterConfig}

inductive Call
  | launchCluster (nNodes port : ℤ) (opens : Bool)
  | launchNode (id : ℤ)
  | killNode (id : ℤ)
  | stopCluster

/-- No call is made once the process has ended. -/
def step (impl : RaftImplementation) (os : Os) (c : ClusterConfig) (call : Call) :
    Option ClusterConfig :=
  if c.exited then none
  else some <| match call with
    | .launchCluster nNodes port opens => launchCluster impl os c nNodes port opens
    | .launchNode id => (launchNode impl os c id).1
    | .killNode id => (killNode os c id).1
    | .stopCluster => stopCluster impl os c

theorem sound_startNode (hos : os.Fresh) (h : Sound os c.processes) (id : ℤ) (command : Command)
    (failure : Text) : Sound os (startNode os c id command failure).1.processes := by
  obtain ⟨console, heq⟩ := startNode_eq os c id command failure
  rw [heq]
  exact h.spawn hos id command

theorem sound_launchNode (impl : RaftImplementation) (hos : os.Fresh) (h : Sound os c.processes)
    (id : ℤ) : Sound os (launchNode impl os c id).1.processes := by
  obtain ⟨command, failure, heq⟩ := launchNode_eq impl os c id
  rw [heq]
  exact sound_startNode hos h id command failure

theorem sound_launchNodes (impl : RaftImplementation) (hos : os.Fresh) (failure : Text)
    (ids : List ℤ) (h : Sound os c.processes) :
    Sound os (launchNodes (launchNode impl os) failure ids c).processes := by
  induction ids generalizing c with
  | nil => exact h
  | cons id ids ih =>
    have hid := sound_launchNode impl hos h id
    dsimp only [launchNodes]
    split_ifs
    · exact ih hid
    · exact hid

theorem sound_launchCluster (impl : RaftImplementation) (hos : os.Fresh)
    (h : Sound os c.processes) (nNodes port : ℤ) (opens : Bool) :
    Sound os (launchCluster impl os c nNodes port opens).processes := by
  have hreset : Sound os (c.reset nNodes port).processes := h.clear
  cases impl with
  | logcabin =>
    have hprep : Sound os (LogCabin.prepare (c.reset nNodes port) opens).1.processes := by
      rw [LogCabin.prepare_processes]
      exact hreset
    dsimp only [launchCluster, LogCabin.launchCluster]
    split_ifs
    · exact hreset
    · exact sound_launchNodes .logcabin hos _ _ hprep
    · exact sound_launchNodes .logcabin hos _ _ hprep
    · exact hprep
  | etcd =>
    have hprep : Sound os (Etcd.prepare (c.reset nNodes port) port).processes := hreset
    have hfirst := sound_startNode hos hprep 1
      (Etcd.firstCommand (Etcd.prepare (c.reset nNodes port) port) port)
      "Error: failed to launch cluster; exiting".toList
    dsimp only [launchCluster, Etcd.launchCluster]
    split_ifs
    · exact sound_launchNodes .etcd hos _ _ hfirst
    · exact hfirst

def AllKilled (os : Os) : List ℤ → ClusterConfig → Prop
  | [], _ => True
  | id :: ids, c => (killNode os c id).2 = true ∧ AllKilled os ids (killNode os c id).1

theorem stopNode_of_killed {id : ℤ} (h : (killNode os c id).2 = true) :
    LogCabin.stopNode os c id = (killNode os c id).1 ∧
      Etcd.stopNode os c id = (killNode os c id).1 := by
  simp [LogCabin.stopNode, Etcd.stopNode, h]

theorem sound_stopNodes_logcabin (ids : List ℤ) (h : Sound os c.processes) :
    Sound os (ids.foldl (LogCabin.stopNode os) c).processes := by
  induction ids generalizing c with
  | nil => exact h
  | cons id ids ih =>
    apply ih
    have hkill : Sound os (killNode os c id).1.processes := h.kill id
    dsimp only [LogCabin.stopNode]
    split_ifs
    · exact hkill
    · exact hkill

theorem sound_stopNodes_etcd (ids : List ℤ) (h : Sound os c.processes)
    (hkilled : AllKilled os ids c) : Sound os (ids.foldl (Etcd.stopNode os) c).processes := by
  induction ids generalizing c with
  | nil => exact h
  | cons id ids ih =>
    rw [List.foldl_cons, (stopNode_of_killed hkilled.1).2]
    exact ih (h.kill id) hkilled.2

theorem nodup_range (m n : ℤ) : (Int.range m n).Nodup := by
  apply List.nodup_range.map
  intro j k h
  simpa using h

/-- When etcd's `stopCluster` is called, every node has an entry, and the next calls of `kill`,
one for each node, succeed. -/
def StopsCleanly (impl : RaftImplementation) (os : Os) (c : ClusterConfig) (call : Call) : Prop :=
  impl = .etcd → call = .stopCluster →
    (∀ id ∈ c.nodeIds, id ∈ c.processes.pids) ∧
      ∀ k < c.nodeIds.length, os.kill ((signalled c.processes.events).length + k) = true

theorem allKilled_of_entries {ids : List ℤ} (hids : ids.Nodup)
    (hentry : ∀ id ∈ ids, id ∈ c.processes.pids)
    (hkill : ∀ k < ids.length, os.kill ((signalled c.processes.events).length + k) = true) :
    AllKilled os ids c := by
  induction ids generalizing c with
  | nil => trivial
  | cons id ids ih =>
    obtain ⟨hnotin, hids⟩ := List.nodup_cons.mp hids
    obtain ⟨pid, -, hkilled⟩ := kill_of_mem (hentry id (List.mem_cons_self ..)) os
    have hfirst : os.kill (signalled c.processes.events).length = true := hkill 0 (by simp)
    rw [hfirst] at hkilled
    have heq : killNode os c id = ({ c with processes :=
        ⟨c.processes.pids.erase id, c.processes.events ++ [.signalled pid]⟩ }, true) := by
      simp only [killNode, hkilled]
    refine ⟨by rw [heq], ?_⟩
    rw [heq]
    -- the other nodes keep their entries, and one more call of `kill` was made
    apply ih hids
    · intro j hj
      have hne : id ≠ j := fun h => hnotin (h ▸ hj)
      apply ExtTreeMap.mem_erase.mpr
      exact ⟨by simpa using hne, hentry j (List.mem_cons_of_mem _ hj)⟩
    · intro k hk
      have hnext := hkill (k + 1) (by simpa using hk)
      rw [signalled_concat_signalled, List.length_append, List.length_singleton, Nat.add_assoc,
        Nat.add_comm 1 k]
      exact hnext

theorem sound_step {impl : RaftImplementation} (hos : os.Fresh) {call : Call}
    {c' : ClusterConfig} (h : Sound os c.processes) (hclean : StopsCleanly impl os c call)
    (hstep : step impl os c call = some c') : Sound os c'.processes := by
  unfold step at hstep
  split_ifs at hstep
  rw [← Option.some.inj hstep]
  cases call with
  | launchCluster nNodes port opens => exact sound_launchCluster impl hos h nNodes port opens
  | launchNode id => exact sound_launchNode impl hos h id
  | killNode id => exact h.kill id
  | stopCluster =>
    cases impl with
    | logcabin =>
      dsimp only [stopCluster, LogCabin.stopCluster]
      split_ifs
      · exact h
      · exact sound_stopNodes_logcabin _ h
    | etcd =>
      obtain ⟨hentry, hkill⟩ := hclean rfl rfl
      exact sound_stopNodes_etcd _ h (allKilled_of_entries (nodup_range _ _) hentry hkill)

/-- Whatever calls are made on a cluster object, in any order and whether or not launches and
kills succeed, `kill` is only ever given the pid of a child of this object that was not
killed before. For etcd this asks that `stopCluster` finds and kills every node: the error
message reads the map with `operator[]`, which enters the pid 0. -/
theorem only_children_killed (impl : RaftImplementation) (os : Os) (hos : os.Fresh)
    (port n : ℤ) (calls : List Call) (c : ClusterConfig)
    (hclean : Runs.Meets (step impl os) (StopsCleanly impl os) (new port n) calls)
    (hrun : Runs.run (step impl os) (new port n) calls = some c) :
    Genuine c.processes.events := by
  have hsound : Sound os c.processes := by
    apply Runs.invariant_of_meets (I := fun c => Sound os c.processes) _ (sound_empty os)
      hclean hrun
    intro s call t hs hok hst
    exact sound_step hos hs hok hst
  exact hsound.genuine

def sampleOs : Os := ⟨fun k => 100 + k, fun _ => true⟩

theorem sampleOs_reliable : sampleOs.Reliable where
  positive k := by simp only [sampleOs]; omega
  injective j k h := by simp only [sampleOs] at h; omega
  kills k := rfl

def sampleCalls : List Call := [.launchCluster 1 61023 true, .stopCluster]

theorem clean_calls_kill_children :
    ∃ c, Runs.run (step .etcd sampleOs) (new 0 0) sampleCalls = some c ∧
      Genuine c.processes.events := by
  refine ⟨_, rfl, only_children_killed .etcd sampleOs sampleOs_reliable.fresh 0 0 sampleCalls _
    ?_ rfl⟩
  refine ⟨by rintro - ⟨⟩, fun t ht => ?_⟩
  rw [← Option.some.inj ht]
  exact ⟨fun _ _ => ⟨by decide, fun _ _ => rfl⟩, fun _ _ => trivial⟩

/-- The first `stopCluster` misses the node that is gone and enters the pid 0 for it, so the
second one kills the process group of the driver. -/
theorem second_stop_kills_group :
    sampleOs.Fresh ∧ ∃ c, Runs.run (step .etcd sampleOs) (new 0 0)
        [.launchCluster 1 61023 true, .killNode 1, .stopCluster, .stopCluster] = some c ∧
      0 ∈ signalled c.processes.events ∧ ¬ Genuine c.processes.events := by
  refine ⟨sampleOs_reliable.fresh, _, rfl, by decide, fun h => ?_⟩
  have hkilled : (0 : ℤ) ∈ created _ := h.mem_created (by decide)
  revert hkilled
  decide

theorem mem_startNode {id : ℤ} {command : Command} {failure : Text}
    (hok : (startNode os c id command failure).2 = true) {j : ℤ}
    (hj : j = id ∨ j ∈ c.processes.pids) :
    j ∈ (startNode os c id command failure).1.processes.pids := by
  obtain ⟨console, heq⟩ := startNode_eq os c id command failure
  rw [heq] at hok ⊢
  dsimp only [spawn] at hok ⊢
  split_ifs at hok ⊢ with hfail
  apply ExtTreeMap.mem_insert.mpr
  rcases hj with rfl | hj
  · exact Or.inl (by simp)
  · exact Or.inr hj

theorem mem_launchNode (impl : RaftImplementation) {id : ℤ}
    (hok : (launchNode impl os c id).2 = true) {j : ℤ} (hj : j = id ∨ j ∈ c.processes.pids) :
    j ∈ (launchNode impl os c id).1.processes.pids := by
  obtain ⟨command, failure, heq⟩ := launchNode_eq impl os c id
  rw [heq] at hok ⊢
  exact mem_startNode hok hj

theorem mem_launchNodes (impl : RaftImplementation) (failure : Text) {ids : List ℤ}
    (hlive : (launchNodes (launchNode impl os) failure ids c).exited = false) {j : ℤ}
    (hj : j ∈ ids ∨ j ∈ c.processes.pids) :
    j ∈ (launchNodes (launchNode impl os) failure ids c).processes.pids := by
  induction ids generalizing c with
  | nil => exact hj.resolve_left List.not_mem_nil
  | cons id ids ih =>
    dsimp only [launchNodes] at hlive ⊢
    split_ifs at hlive ⊢ with hok
    · apply ih hlive
      rcases hj with hj | hj
      · rcases List.mem_cons.mp hj with hj | hj
        · exact Or.inr (mem_launchNode impl hok (Or.inl hj))
        · exact Or.inl hj
      · exact Or.inr (mem_launchNode impl hok (Or.inr hj))
    · cases hlive

theorem mem_launchCluster (impl : RaftImplementation) {n port : ℤ} {opens : Bool}
    (hlive : (launchCluster impl os c n port opens).exited = false) {id : ℤ}
    (hid : 1 ≤ id ∧ id ≤ n) : id ∈ (launchCluster impl os c n port opens).processes.pids := by
  cases impl with
  | logcabin =>
    have hids : id ∈ (LogCabin.prepare (c.reset n port) opens).1.nodeIds := by
      rw [nodeIds, LogCabin.prepare_numNodes]
      exact Int.mem_range_iff.mpr ⟨hid.1, Int.lt_add_one_iff.mpr hid.2⟩
    dsimp only [launchCluster, LogCabin.launchCluster] at hlive ⊢
    split_ifs at hlive ⊢ with hnodes hok hexited
    · cases hlive
    · cases hexited.symm.trans hlive
    · exact mem_launchNodes .logcabin _ hlive (Or.inl hids)
    · cases hlive
  | etcd =>
    have hnumNodes : ∀ (command : Command) (failure : Text),
        (startNode os (Etcd.prepare (c.reset n port) port) 1 command failure).1.numNodes = n := by
      intro command failure
      obtain ⟨console, heq⟩ :=
        startNode_eq os (Etcd.prepare (c.reset n port) port) 1 command failure
      rw [heq]
      rfl
    dsimp only [launchCluster, Etcd.launchCluster] at hlive ⊢
    split_ifs at hlive ⊢ with hok
    · apply mem_launchNodes .etcd _ hlive
      by_cases hfirst : id = 1
      · exact Or.inr (mem_startNode hok (Or.inl hfirst))
      · left
        rw [hnumNodes]
        apply Int.mem_range_iff.mpr
        omega
    · cases hlive

section Stopping

variable {stop : ClusterConfig → ℤ → ClusterConfig}

theorem mem_signalled_stopNodes
    (hevents : ∀ c id, (stop c id).processes.events = (killNode os c id).1.processes.events)
    {p : ℤ} (h : p ∈ signalled c.processes.events) (ids : List ℤ) :
    p ∈ signalled (ids.foldl stop c).processes.events := by
  induction ids generalizing c with
  | nil => exact h
  | cons id ids ih =>
    apply ih
    rw [hevents]
    exact mem_signalled_kill h os id

theorem mem_signalled_of_entry
    (hevents : ∀ c id, (stop c id).processes.events = (killNode os c id).1.processes.events)
    (hpids : ∀ (c : ClusterConfig) (id j : ℤ), j ≠ id →
      (stop c id).processes.pids[j]? = c.processes.pids[j]?)
    {ids : List ℤ} {id pid : ℤ} (hid : id ∈ ids) (h : c.processes.pids[id]? = some pid) :
    pid ∈ signalled (ids.foldl stop c).processes.events := by
  induction ids generalizing c with
  | nil => cases hid
  | cons j ids ih =>
    rw [List.foldl_cons]
    by_cases hj : id = j
    · apply mem_signalled_stopNodes hevents
      rw [hevents, ← hj]
      exact mem_signalled_kill_self h os
    · apply ih ((List.mem_cons.mp hid).resolve_left hj)
      rw [hpids c j id hj]
      exact h

end Stopping

theorem stopNode_events (os : Os) (c : ClusterConfig) (id : ℤ) :
    (LogCabin.stopNode os c id).processes.events = (killNode os c id).1.processes.events ∧
      (Etcd.stopNode os c id).processes.events = (killNode os c id).1.processes.events := by
  dsimp only [LogCabin.stopNode, Etcd.stopNode]
  split_ifs <;> exact ⟨rfl, rfl⟩

theorem stopNode_pids (os : Os) (c : ClusterConfig) {id j : ℤ} (h : j ≠ id) :
    (LogCabin.stopNode os c id).processes.pids[j]? = c.processes.pids[j]? ∧
      (Etcd.stopNode os c id).processes.pids[j]? = c.processes.pids[j]? := by
  have hkill : (killNode os c id).1.processes.pids[j]? = c.processes.pids[j]? :=
    getElem?_kill_of_ne os c.processes h
  dsimp only [LogCabin.stopNode, Etcd.stopNode]
  split_ifs
  · exact ⟨hkill, hkill⟩
  · refine ⟨hkill, ?_⟩
    dsimp only [Etcd.readPid, print]
    rw [ExtTreeMap.getElem?_insertIfNew]
    simp [h.symm, hkill]

theorem mem_signalled_stopCluster (impl : RaftImplementation) (os : Os) {c : ClusterConfig}
    {id pid : ℤ} (hid : 1 ≤ id ∧ id ≤ c.numNodes) (h : c.processes.pids[id]? = some pid) :
    pid ∈ signalled (stopCluster impl os c).processes.events := by
  have hmem : id ∈ c.nodeIds := by
    apply Int.mem_range_iff.mpr
    unfold firstNodeId
    omega
  cases impl with
  | logcabin =>
    have hnodes : ¬ c.numNodes < 1 := by omega
    dsimp only [stopCluster, LogCabin.stopCluster]
    rw [if_neg hnodes]
    exact mem_signalled_of_entry (fun c id => (stopNode_events os c id).1)
      (fun c _ _ hne => (stopNode_pids os c hne).1) hmem h
  | etcd =>
    exact mem_signalled_of_entry (fun c id => (stopNode_events os c id).2)
      (fun c _ _ hne => (stopNode_pids os c hne).2) hmem h

/-- The process goes on, and the children that run are the nodes in `K`. -/
structure Serves (os : Os) (n : ℤ) (c : ClusterConfig) (K : Finset ℤ) : Prop
    extends Tracks os c.processes K where
  numNodes : c.numNodes = n
  exited : c.exited = false

variable {n : ℤ} {K : Finset ℤ}

theorem Serves.startNode (h : Serves os n c K) (hos : os.Reliable) {id : ℤ} (hid : id ∉ K)
    (command : Command) (failure : Text) :
    Serves os n (startNode os c id command failure).1 (insert id K) ∧
      (ClusterConfig.startNode os c id command failure).2 = true := by
  obtain ⟨console, heq⟩ := startNode_eq os c id command failure
  obtain ⟨htracks, hok⟩ := h.toTracks.spawn hos hid command
  rw [heq]
  exact ⟨⟨htracks, h.numNodes, h.exited⟩, hok⟩

theorem Serves.launchNode (impl : RaftImplementation) (h : Serves os n c K) (hos : os.Reliable)
    {id : ℤ} (hid : id ∉ K) :
    Serves os n (launchNode impl os c id).1 (insert id K) ∧
      (ClusterConfig.launchNode impl os c id).2 = true := by
  obtain ⟨command, failure, heq⟩ := launchNode_eq impl os c id
  rw [heq]
  exact h.startNode hos hid command failure

theorem Serves.killNode (h : Serves os n c K) (hos : os.Reliable) {id : ℤ} (hid : id ∈ K) :
    Serves os n (killNode os c id).1 (K.erase id) ∧ (ClusterConfig.killNode os c id).2 = true := by
  obtain ⟨htracks, hok⟩ := h.toTracks.kill hos hid
  exact ⟨⟨htracks, h.numNodes, h.exited⟩, hok⟩

theorem Serves.launchNodes (impl : RaftImplementation) (hos : os.Reliable) (failure : Text)
    {ids : List ℤ} (hids : ids.Nodup) (hK : ∀ id ∈ ids, id ∉ K) (h : Serves os n c K) :
    Serves os n (launchNodes (ClusterConfig.launchNode impl os) failure ids c)
      (K ∪ ids.toFinset) := by
  induction ids generalizing c K with
  | nil =>
    rw [List.toFinset_nil, Finset.union_empty]
    exact h
  | cons id ids ih =>
    obtain ⟨hnotin, hids⟩ := List.nodup_cons.mp hids
    obtain ⟨hid, hok⟩ := h.launchNode impl hos (hK id (List.mem_cons_self ..))
    have hrest : ∀ j ∈ ids, j ∉ insert id K := by
      intro j hj hmem
      rcases Finset.mem_insert.mp hmem with rfl | hmem
      · exact hnotin hj
      · exact hK j (List.mem_cons_of_mem _ hj) hmem
    have hunion : K ∪ (id :: ids).toFinset = insert id K ∪ ids.toFinset := by
      ext j
      simp
    dsimp only [ClusterConfig.launchNodes]
    rw [if_pos hok, hunion]
    exact ih hids hrest hid

theorem Serves.stopNodes {stop : ClusterConfig → ℤ → ClusterConfig}
    (hstop : ∀ c id, (ClusterConfig.killNode os c id).2 = true →
      stop c id = (ClusterConfig.killNode os c id).1)
    (hos : os.Reliable) {ids : List ℤ} (hids : ids.Nodup) (hK : ∀ id ∈ ids, id ∈ K)
    (h : Serves os n c K) : Serves os n (ids.foldl stop c) (K \ ids.toFinset) := by
  induction ids generalizing c K with
  | nil => simpa using h
  | cons id ids ih =>
    obtain ⟨hnotin, hids⟩ := List.nodup_cons.mp hids
    obtain ⟨hid, hok⟩ := h.killNode hos (hK id (List.mem_cons_self ..))
    have hrest : ∀ j ∈ ids, j ∈ K.erase id := by
      intro j hj
      apply Finset.mem_erase.mpr
      exact ⟨fun heq => hnotin (heq ▸ hj), hK j (List.mem_cons_of_mem _ hj)⟩
    have hdiff : K \ (id :: ids).toFinset = K.erase id \ ids.toFinset := by
      ext j
      simp
      tauto
    rw [List.foldl_cons, hstop c id hok, hdiff]
    exact ih hids hrest hid

theorem toFinset_range (m n : ℤ) : (Int.range m (n + 1)).toFinset = Finset.Icc m n := by
  ext j
  rw [List.mem_toFinset, Int.mem_range_iff, Finset.mem_Icc, Int.lt_add_one_iff]

theorem Serves.reset (h : Tracks os c.processes ∅) (hos : os.Reliable) (hlive : c.exited = false)
    (n port : ℤ) : Serves os n (c.reset n port) ∅ := by
  have hpids : c.processes.pids = ∅ := (h.all_killed hos).1
  refine ⟨?_, rfl, hlive⟩
  dsimp only [ClusterConfig.reset]
  rw [← hpids]
  exact h

theorem serves_launchCluster (impl : RaftImplementation) (hos : os.Reliable)
    (h : Tracks os c.processes ∅) (hlive : c.exited = false) (hn : 1 ≤ n) (port : ℤ) :
    Serves os n (launchCluster impl os c n port true) (Finset.Icc 1 n) := by
  have hreset := Serves.reset h hos hlive n port
  cases impl with
  | logcabin =>
    have hprep : Serves os n (LogCabin.prepare (c.reset n port) true).1 ∅ :=
      ⟨hreset.toTracks, hreset.numNodes, hreset.exited⟩
    have hnodes := hprep.launchNodes .logcabin hos
      "error: Failed to launch cluster; exiting".toList (nodup_range 1 (n + 1)) (by simp)
    rw [toFinset_range, Finset.empty_union] at hnodes
    have hpos : ¬ (c.reset n port).numNodes < 1 := by rw [hreset.numNodes]; omega
    dsimp only [launchCluster, LogCabin.launchCluster]
    rw [if_neg hpos, if_pos (LogCabin.prepare_ok _ true), if_neg]
    · exact ⟨hnodes.toTracks, hnodes.numNodes, hnodes.exited⟩
    · exact Bool.eq_false_iff.mp hnodes.exited
  | etcd =>
    have hprep : Serves os n (Etcd.prepare (c.reset n port) port) ∅ :=
      ⟨hreset.toTracks, hreset.numNodes, hreset.exited⟩
    -- the first node is started with its own command, the others by `launchNode`
    obtain ⟨hfirst, hok⟩ := hprep.startNode hos (Finset.notMem_empty 1)
      (Etcd.firstCommand (Etcd.prepare (c.reset n port) port) port)
      "Error: failed to launch cluster; exiting".toList
    have hothers : ∀ id ∈ Int.range 2 (n + 1), id ∉ insert 1 (∅ : Finset ℤ) := by
      intro id hid
      have hge := (Int.mem_range_iff.mp hid).1
      simp
      omega
    have hicc : insert 1 ∅ ∪ (Int.range 2 (n + 1)).toFinset = Finset.Icc 1 n := by
      rw [toFinset_range]
      ext j
      simp
      omega
    dsimp only [launchCluster, Etcd.launchCluster]
    rw [if_pos hok, hfirst.numNodes, ← hicc]
    exact hfirst.launchNodes .etcd hos _ (nodup_range 2 (n + 1)) hothers

theorem Serves.stopCluster (impl : RaftImplementation) (h : Serves os n c (Finset.Icc 1 n))
    (hos : os.Reliable) (hn : 1 ≤ n) : Serves os n (stopCluster impl os c) ∅ := by
  have hids : c.nodeIds = Int.range 1 (n + 1) := by rw [nodeIds, h.numNodes, firstNodeId]
  have hK : ∀ id ∈ c.nodeIds, id ∈ Finset.Icc 1 n := by
    intro id hid
    rwa [hids, ← List.mem_toFinset, toFinset_range] at hid
  have hnone : Finset.Icc 1 n \ c.nodeIds.toFinset = ∅ := by
    rw [hids, toFinset_range, Finset.sdiff_self]
  have hnodup : c.nodeIds.Nodup := nodup_range _ _
  rw [← hnone]
  cases impl with
  | logcabin =>
    have hpos : ¬ c.numNodes < 1 := by rw [h.numNodes]; omega
    dsimp only [ClusterConfig.stopCluster, LogCabin.stopCluster]
    rw [if_neg hpos]
    exact h.stopNodes (fun _ _ hok => (stopNode_of_killed hok).1) hos hnodup hK
  | etcd => exact h.stopNodes (fun _ _ hok => (stopNode_of_killed hok).2) hos hnodup hK

/-- The driver's `KILL` iteration: the marked node is killed and launched again. -/
def killIteration (impl : RaftImplementation) (os : Os) (c : ClusterConfig) (markedNode : ℤ) :
    ClusterConfig :=
  (launchNode impl os (killNode os c markedNode).1 markedNode).1

theorem Serves.killIterations (impl : RaftImplementation) (hos : os.Reliable) {marks : List ℤ}
    (hmarks : ∀ m ∈ marks, m ∈ K) (h : Serves os n c K) :
    Serves os n (marks.foldl (killIteration impl os) c) K := by
  induction marks generalizing c with
  | nil => exact h
  | cons m marks ih =>
    have hm := hmarks m (List.mem_cons_self ..)
    have hkill := (h.killNode hos hm).1
    -- the id is free again, so the launch enters it under a new pid
    have hlaunch := (hkill.launchNode impl hos (Finset.notMem_erase m K)).1
    rw [Finset.insert_erase hm] at hlaunch
    exact ih (fun j hj => hmarks j (List.mem_cons_of_mem _ hj)) hlaunch

/-- `n` processes run, and `id2pid` maps precisely the ids from 1 to `n` injectively
onto them. -/
structure RunsNodes (c : ClusterConfig) (n : ℤ) : Prop where
  nodup : (running c.processes.events).Nodup
  length : ((running c.processes.events).length : ℤ) = n
  ids : ∀ id, id ∈ c.processes.pids ↔ 1 ≤ id ∧ id ≤ n
  injective : ∀ (i j pid : ℤ), c.processes.pids[i]? = some pid →
    c.processes.pids[j]? = some pid → i = j
  onto : ∀ pid : ℤ, pid ∈ running c.processes.events ↔
    ∃ id : ℤ, c.processes.pids[id]? = some pid

theorem Serves.runsNodes (h : Serves os n c (Finset.Icc 1 n)) (hos : os.Reliable) (hn : 1 ≤ n) :
    RunsNodes c n where
  nodup := h.nodup_running hos
  length := by
    rw [h.length_running hos, Int.card_Icc]
    omega
  ids id := by rw [h.names, Finset.mem_Icc]
  injective := h.inj
  onto _ := h.toTracks.mem_running_iff

structure AllGone (c : ClusterConfig) : Prop where
  running : running c.processes.events = []
  pids : c.processes.pids = ∅
  once : ∀ pid ∈ created c.processes.events, (signalled c.processes.events).count pid = 1

theorem exited_of_unwritable (os : Os) (c : ClusterConfig) (n port : ℤ) :
    (launchCluster .logcabin os c n port false).exited = true := by
  dsimp only [launchCluster, LogCabin.launchCluster]
  split_ifs with hnodes hok
  · rfl
  · rw [LogCabin.prepare_ok] at hok
    cases hok
  · rw [LogCabin.prepare_ok] at hok
    cases hok
  · rfl

/-- The only launch that does not come to its end is one of LogCabin whose configuration file
cannot be written. -/
theorem serves_of_writable {impl : RaftImplementation} (hos : os.Reliable) (hn : 1 ≤ n)
    (port₀ n₀ port : ℤ) {opens : Bool} (h : ¬ (impl = .logcabin ∧ opens = false)) :
    Serves os n (launchCluster impl os (new port₀ n₀) n port opens) (Finset.Icc 1 n) := by
  have htrue : launchCluster impl os (new port₀ n₀) n port opens =
      launchCluster impl os (new port₀ n₀) n port true := by
    cases impl with
    | logcabin =>
      have hopens : opens = true := by simpa using h
      rw [hopens]
    | etcd => rfl
  rw [htrue]
  exact serves_launchCluster impl hos (tracks_empty os) rfl hn port

/-- The life cycle of a cluster in the driver: it is launched, in each iteration a marked node
is killed and launched again, and at the end it is stopped. A launch does not return when
LogCabin's configuration file cannot be written. -/
theorem cluster_life_cycle (impl : RaftImplementation) (os : Os) (hos : os.Reliable)
    (port₀ n₀ n port : ℤ) (hn : 1 ≤ n) (opens : Bool) (marks : List ℤ)
    (hmarks : ∀ m ∈ marks, 1 ≤ m ∧ m ≤ n) :
    let launched := launchCluster impl os (new port₀ n₀) n port opens
    (launched.exited = true ↔ impl = .logcabin ∧ opens = false) ∧
      (launched.exited = false →
        (∀ k, RunsNodes ((marks.take k).foldl (killIteration impl os) launched) n) ∧
          AllGone (stopCluster impl os (marks.foldl (killIteration impl os) launched))) := by
  intro launched
  by_cases hwritable : impl = .logcabin ∧ opens = false
  · obtain ⟨rfl, rfl⟩ := hwritable
    have hexited : launched.exited = true := exited_of_unwritable os _ n port
    refine ⟨⟨fun _ => ⟨rfl, rfl⟩, fun _ => hexited⟩, fun hlive => ?_⟩
    exact absurd hexited (Bool.eq_false_iff.mp hlive)
  · have hlaunched : Serves os n launched (Finset.Icc 1 n) :=
      serves_of_writable hos hn port₀ n₀ port hwritable
    have hmem : ∀ m ∈ marks, m ∈ Finset.Icc 1 n := fun m hm => Finset.mem_Icc.mpr (hmarks m hm)
    have hstopped := (hlaunched.killIterations impl hos hmem).stopCluster impl hos hn
    obtain ⟨hpids, hrunning, honce⟩ := hstopped.all_killed hos
    refine ⟨⟨fun h => ?_, fun h => absurd h hwritable⟩,
      fun _ => ⟨fun k => ?_, hrunning, hpids, honce⟩⟩
    · exact absurd h (Bool.eq_false_iff.mp hlaunched.exited)
    · have hserves : Serves os n ((marks.take k).foldl (killIteration impl os) launched)
          (Finset.Icc 1 n) :=
        hlaunched.killIterations impl hos fun m hm => hmem m (List.mem_of_mem_take hm)
      exact hserves.runsNodes hos hn

/-- Three nodes, of which the second is killed twice. -/
theorem etcd_life_cycle :
    AllGone (stopCluster .etcd sampleOs ([2, 2].foldl (killIteration .etcd sampleOs)
      (launchCluster .etcd sampleOs (new 0 0) 3 61023 true))) :=
  ((cluster_life_cycle .etcd sampleOs sampleOs_reliable 0 0 3 61023 (by decide) true [2, 2]
    (by decide)).2 (by decide)).2

end RaftMonitor.ClusterConfig
