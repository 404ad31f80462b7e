import RaftMonitor.EtcdPackets
import RaftMonitor.NodeAttribution
import RaftMonitor.Processes
import RaftMonitor.Segments

namespace RaftMonitor
open ProcessTable ClusterConfig EtcdRAFT

/-- The bytes of a packet pass for a request to read or write the tree. For etcd one of the
two requests occurs in them, and nothing that is looked for before. -/
def PassesForTree (impl : RaftImplementation) (bytes : List UInt8) : Prop :=
  match impl with
  | .logcabin => LogCabin.LooksLikeTree bytes
  | .etcd =>
    (∀ r ∈ RequestForm.putKeys.earlier, ¬ r.1 <:+: payload bytes) ∧
      (RequestForm.putKeys.text <:+: payload bytes ∨ RequestForm.getKeys.text <:+: payload bytes)

theorem passesForTree_iff {impl : RaftImplementation} {bytes : List UInt8} :
    (classify impl bytes = .readOnlyTree ∨ classify impl bytes = .readWriteTree) ↔
      PassesForTree impl bytes := by
  cases impl with
  | logcabin => exact LogCabin.classify_eq_tree_iff
  | etcd =>
    have hrules : rules = RequestForm.putKeys.earlier ++
        [(RequestForm.putKeys.text, .readWriteTree),
          (RequestForm.getKeys.text, .readOnlyTree)] := rfl
    simp only [classify, packetType_eq_firstMatch, PassesForTree]
    rw [hrules, firstMatch_append_eq_iff (by decide), firstMatch_append_eq_iff (by decide),
      ← and_or_left]
    apply and_congr_right
    intro _
    by_cases hput : RequestForm.putKeys.text <:+: payload bytes
    · rw [firstMatch_cons_of_occurs hput]
      simp [hput]
    · by_cases hget : RequestForm.getKeys.text <:+: payload bytes
      · rw [firstMatch_cons_of_absent hput, firstMatch_cons_of_occurs hget]
        simp [hget]
      · rw [firstMatch_cons_of_absent hput, firstMatch_cons_of_absent hget]
        simp [firstMatch, hput, hget]

structure Quad where
  a : Fin 256
  b : Fin 256
  c : Fin 256
  d : Fin 256
  deriving DecidableEq, Repr

def Quad.text (q : Quad) : Text :=
  stdToString q.a.val ++ '.' :: (stdToString q.b.val ++ '.' ::
    (stdToString q.c.val ++ '.' :: stdToString q.d.val))

theorem Quad.strtok_text (q : Quad) :
    strtok '.' q.text = [stdToString q.a.val, stdToString q.b.val, stdToString q.c.val,
      stdToString q.d.val] := by
  have hdot : ∀ z : ℤ, '.' ∉ stdToString z := fun z => notMem_stdToString rfl (by decide) z
  have hne : ∀ z : ℤ, stdToString z ≠ [] := stdToString_ne_nil
  unfold Quad.text
  rw [strtok_append_cons (hdot _) (hne _), strtok_append_cons (hdot _) (hne _),
    strtok_append_cons (hdot _) (hne _), strtok_of_notMem (hdot _) (hne _)]

def Quad.address (q : Quad) : Address where
  text := q.text
  fields_ne_nil := by
    rw [q.strtok_text]
    exact List.cons_ne_nil _ _

theorem getLastIP_address (q : Quad) : getLastIP q.address = (q.d : ℕ) := by
  have hlast : (strtok '.' q.address.text).getLast q.address.fields_ne_nil =
      Nat.toDigits 10 q.d := by
    simp only [Quad.address, q.strtok_text]
    rfl
  unfold getLastIP
  rw [hlast]
  exact atoi_toDigits (by omega)

/-- The id stands for a node: a cluster that was launched has a process for it, and whatever
process it has when `stopCluster` is called, such as the one of its last `launchNode`, is
killed. -/
structure IsNode (impl : RaftImplementation) (n id : ℤ) : Prop where
  range : 1 ≤ id ∧ id ≤ n
  launched : ∀ (os : Os) (c : ClusterConfig) (port : ℤ) (opens : Bool),
    (launchCluster impl os c n port opens).exited = false →
      id ∈ (launchCluster impl os c n port opens).processes.pids
  killed : ∀ (os : Os) (c : ClusterConfig) (pid : ℤ), c.numNodes = n →
    c.processes.pids[id]? = some pid → pid ∈ signalled (stopCluster impl os c).processes.events

theorem isNode_of_range {impl : RaftImplementation} {n id : ℤ} (h : 1 ≤ id ∧ id ≤ n) :
    IsNode impl n id where
  range := h
  launched _ _ _ _ hlive := mem_launchCluster impl hlive h
  killed os _ _ hn hpid := mem_signalled_stopCluster impl os (hn ▸ h) hpid

theorem callbacks_currentLeader_range {n : ℤ} {ps : List Packet} {m : Monitor}
    (hm : 1 ≤ m.currentLeader ∧ m.currentLeader ≤ n)
    (h : ∀ p ∈ ps, PassesForTree m.implementation p.bytes →
      1 ≤ getLastIP p.sourceIP ∧ getLastIP p.sourceIP ≤ n) :
    1 ≤ (m.callbacks ps).currentLeader ∧ (m.callbacks ps).currentLeader ≤ n := by
  unfold Monitor.callbacks
  induction ps generalizing m with
  | nil => exact hm
  | cons p ps ih =>
    rw [List.foldl_cons]
    apply ih
    · rw [Monitor.callback_currentLeader]
      split_ifs with htree
      · exact h p List.mem_cons_self (passesForTree_iff.mp htree)
      · exact hm
    · rw [Monitor.callback_implementation]
      exact fun q hq => h q (List.mem_cons_of_mem p hq)

/-- The tracked leader is a node of the cluster after every packet of a sequence if and only if
every packet that passes for a tree request comes from an address that ends in the id of a
node. Nothing else is asked of the sender. -/
theorem leader_isNode_iff (impl : RaftImplementation) (n : ℤ) (hn : 1 ≤ n)
    (ps : List (Quad × Packet)) (hsource : ∀ p ∈ ps, p.2.sourceIP = p.1.address) :
    (∀ k, IsNode impl n ((Monitor.new impl).callbacks ((ps.take k).map Prod.snd)).currentLeader) ↔
      ∀ p ∈ ps, PassesForTree impl p.2.bytes → 1 ≤ (p.1.d : ℤ) ∧ (p.1.d : ℤ) ≤ n := by
  have hlast : ∀ p ∈ ps, getLastIP p.2.sourceIP = (p.1.d : ℕ) := by
    intro p hp
    rw [hsource p hp, getLastIP_address]
  constructor
  · intro h p hp htree
    obtain ⟨before, after, rfl⟩ := List.append_of_mem hp
    have hk := (h (before.length + 1)).range
    have htake : ((before ++ p :: after).take (before.length + 1)).map Prod.snd =
        before.map Prod.snd ++ [p.2] := by
      simp [List.take_append]
    rw [htake, Monitor.callbacks_concat_currentLeader _ _ (passesForTree_iff.mpr htree),
      hlast p hp] at hk
    exact hk
  · intro h k
    apply isNode_of_range
    apply callbacks_currentLeader_range
    · exact ⟨le_rfl, hn⟩
    · intro q hq htree
      obtain ⟨p, hp, rfl⟩ := List.mem_map.mp hq
      have hmem := List.mem_of_mem_take hp
      rw [hlast p hmem]
      exact h p hmem htree

def readRequest : List UInt8 :=
  [0, 0, 0, 1, 0, 0, 0, 7, 0, 0, 0, 0, 1, 0, 1, 0, 0, 4, 8]

def readFrom (q : Quad) : Quad × Packet :=
  (q, ⟨q.address, "192.168.2.1".toList, 40000, 61023, some readRequest⟩)

theorem leader_isNode_two :
    IsNode .logcabin 3
      ((Monitor.new .logcabin).callbacks [(readFrom ⟨192, 168, 2, 2⟩).2]).currentLeader := by
  have h := (leader_isNode_iff .logcabin 3 (by decide) [readFrom ⟨192, 168, 2, 2⟩]
    (by simp [readFrom])).mpr (by simp [readFrom])
  exact h 1

/-- A request from a host that is no node makes it the leader; the process that a test launches
for this leader outlives the cluster. -/
theorem stranger_becomes_leader :
    ∃ m, (Monitor.new .logcabin).callbacks [(readFrom ⟨192, 168, 2, 9⟩).2] = m ∧
      m.currentLeader = 9 ∧ ¬ IsNode .logcabin 3 m.currentLeader ∧
      running (stopCluster .logcabin sampleOs (killIteration .logcabin sampleOs
        (launchCluster .logcabin sampleOs (new 0 0) 3 61023 true) m.currentLeader)).processes.events
          = [103] := by
  refine ⟨_, rfl, by decide, ?_, by decide⟩
  intro h
  have hrange := h.range
  revert hrange
  decide

end RaftMonitor
