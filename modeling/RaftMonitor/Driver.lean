import RaftMonitor.ClusterConfig
import RaftMonitor.Monitor

namespace RaftMonitor
open ProcessTable ClusterConfig

inductive TestMode
  | random
  | leader
  deriving DecidableEq, Repr

/-- The type of a test with its arguments; the fraction is as `to_string` prints it. -/
inductive TestType
  | basic
  | block (mode : TestMode) (frac : Text)
  | kill (mode : TestMode)
  deriving DecidableEq, Repr

def TestType.name : TestType → Text
  | .basic => "basic".toList
  | .block _ _ => "block".toList
  | .kill _ => "kill".toList

structure TestArgs where
  type : TestType
  iterations : ℤ

/-- What one iteration meets outside of the driver: the node that `getRandomNodeId` picks,
whether the log file can be opened, the times that are printed, and the packets that the
monitor handles before the test, from its start, while a node is down and at its end. -/
structure IterationWorld where
  randomNode : ℤ
  opens : Bool
  startTime : Text
  stopTime : Text
  before : List Packet
  running : List Packet
  down : List Packet
  ending : List Packet

/-- What one test meets: the answers of the operating system, what the fields of the new
cluster object held before, whether its configuration file can be written, and its iterations. -/
structure TestWorld where
  os : Os
  clusterPort : ℤ
  numNodes : ℤ
  confOpens : Bool
  iteration : ℕ → IterationWorld

/-- A client object: its id, the test for which it was created, and whether `destroyClient`
and `delete` were called on it. -/
structure Client where
  id : ℤ
  test : ℕ
  destroyed : Bool
  deleted : Bool
  deriving DecidableEq, Repr

/-- The argument of a client thread; clients are given by their places in the heap. -/
structure ClientOperations where
  client : ℕ
  nIterations : ℕ
  nClients : ℕ
  deriving DecidableEq, Repr

structure Iteration where
  test : ℕ
  iter : ℕ
  heap : List Client
  clients : List ℕ
  operations : List ClientOperations

/-- The test has its clients to itself: `clients` are `nClients` clients, all created for this
test and alive, with the ids from 1 on; and the threads run on them. -/
structure Iteration.Isolated (it : Iteration) (nClients : ℕ) : Prop where
  length : it.clients.length = nClients
  alive : ∀ p ∈ it.clients, ∃ c, it.heap[p]? = some c ∧
    c.test = it.test ∧ c.destroyed = false ∧ c.deleted = false
  ids : it.clients.map (fun p => it.heap[p]?.map Client.id) =
    (List.range nClients).map fun i : ℕ => some ((i : ℤ) + 1)
  operations : ∀ o ∈ it.operations, o.client ∈ it.clients ∧ o.nClients = nClients

/-- The globals of the driver, all client objects ever created, and the iterations so far. -/
structure Driver where
  monitor : Monitor
  cluster : ClusterConfig
  heap : List Client
  clients : List ℕ
  iterations : List Iteration

namespace Driver

def new (impl : RaftImplementation) : Driver where
  monitor := Monitor.new impl
  cluster := ClusterConfig.new 0 0
  heap := []
  clients := []
  iterations := []

def createClient (test : ℕ) (d : Driver) (i : ℕ) : Driver :=
  { d with
    heap := d.heap ++ [⟨i + 1, test, false, false⟩]
    clients := d.clients ++ [d.heap.length] }

def createClients (d : Driver) (test nClients : ℕ) : Driver :=
  (List.range nClients).foldl (createClient test) d

def destroyClient (heap : List Client) (client : ℕ) : List Client :=
  heap.modify client fun c => { c with destroyed := true, deleted := true }

/-- All of `clients` are destroyed; the vector keeps its elements. -/
def destroyClients (d : Driver) : Driver :=
  { d with heap := d.clients.foldl destroyClient d.heap }

def sniff (d : Driver) (ps : List Packet) : Driver := { d with monitor := d.monitor.callbacks ps }

def started (d : Driver) (test iter : ℕ) : Iteration where
  test := test
  iter := iter
  heap := d.heap
  clients := d.clients
  operations := d.clients.map fun client => ⟨client, iter, d.clients.length⟩

def startClients (d : Driver) (test iter : ℕ) : Driver :=
  { d with iterations := d.iterations ++ [d.started test iter] }

def markedNode (d : Driver) (mode : TestMode) (randomNode : ℤ) : ℤ :=
  match mode with
  | .random => randomNode
  | .leader => d.monitor.currentLeader

def testCall (impl : RaftImplementation) (d : Driver) (type : TestType) (randomNode : ℤ)
    (time : Text) : Monitor.TestCall :=
  match type with
  | .block mode frac => ⟨type.name, 1, frac, getHost impl (d.markedNode mode randomNode), time⟩
  | _ => ⟨type.name, 0, "0.000000".toList, [], time⟩

def killTest (impl : RaftImplementation) (os : Os) (d : Driver) (w : IterationWorld)
    (mode : TestMode) : Driver :=
  let node := d.markedNode mode w.randomNode
  let d := { d with cluster := (killNode os d.cluster node).1 }
  let d := d.sniff w.down
  { d with cluster := (launchNode impl os d.cluster node).1 }

/-- The body of the loop over the iterations of a test. Stopping and joining the client
threads changes nothing here. -/
def runIteration (impl : RaftImplementation) (os : Os) (type : TestType) (test : ℕ)
    (world : ℕ → IterationWorld) (d : Driver) (iter : ℕ) : Driver :=
  let w := world iter
  let d := d.sniff w.before
  let call := testCall impl d type w.randomNode
  let d := { d with monitor := (d.monitor.startTest (call w.startTime) w.opens).1 }
  let d := d.startClients test iter
  let d := d.sniff w.running
  let d := match type with
    | .kill mode => d.killTest impl os w mode
    | _ => d
  let d := d.sniff w.ending
  { d with monitor := (d.monitor.stopTest (call w.stopTime)).1 }

def launch (impl : RaftImplementation) (nNodes : ℤ) (d : Driver) (w : TestWorld) : Driver :=
  let cluster := ClusterConfig.new w.clusterPort w.numNodes
  { d with cluster := launchCluster impl w.os cluster nNodes 61023 w.confOpens }

/-- The body of the loop over the tests. Connecting changes nothing here. -/
def runTest (impl : RaftImplementation) (nNodes : ℤ) (nClients : ℕ) (d : Driver) (test : ℕ)
    (args : TestArgs) (w : TestWorld) : Driver :=
  let d := d.launch impl nNodes w
  -- `launchCluster` may end the process
  if d.cluster.exited then d else
  let d := d.createClients test nClients
  let d := (List.range args.iterations.toNat).foldl
    (runIteration impl w.os args.type test w.iteration) d
  let d := d.destroyClients
  { d with cluster := stopCluster impl w.os d.cluster }

def runTests (impl : RaftImplementation) (nNodes : ℤ) (nClients : ℕ) :
    ℕ → List (TestArgs × TestWorld) → Driver → Driver
  | _, [], d => d
  | test, (args, w) :: tests, d =>
    let d := runTest impl nNodes nClients d test args w
    if d.cluster.exited then d else runTests impl nNodes nClients (test + 1) tests d

def main (impl : RaftImplementation) (nNodes : ℤ) (nClients : ℕ)
    (tests : List (TestArgs × TestWorld)) : Driver :=
  runTests impl nNodes nClients 0 tests (new impl)

theorem createClients_eq (d : Driver) (test nClients : ℕ) :
    d.createClients test nClients =
      { d with
        heap := d.heap ++ (List.range nClients).map fun i => ⟨(i : ℤ) + 1, test, false, false⟩
        clients := d.clients ++ (List.range nClients).map fun i => d.heap.length + i } := by
  unfold createClients
  induction nClients with
  | zero => simp
  | succ n ih => simp [List.range_succ, ih, createClient]

theorem length_destroyClients (clients : List ℕ) (heap : List Client) :
    (clients.foldl destroyClient heap).length = heap.length := by
  induction clients generalizing heap with
  | nil => rfl
  | cons p ps ih => rw [List.foldl_cons, ih, destroyClient, List.length_modify]

theorem runIteration_eq (impl : RaftImplementation) (os : Os) (type : TestType) (test : ℕ)
    (world : ℕ → IterationWorld) (d : Driver) (iter : ℕ) :
    ∃ monitor cluster, runIteration impl os type test world d iter =
      { d.startClients test iter with monitor := monitor, cluster := cluster } := by
  cases type with
  | basic => exact ⟨_, _, rfl⟩
  | block mode frac => exact ⟨_, _, rfl⟩
  | kill mode => exact ⟨_, _, rfl⟩

theorem foldl_runIteration (impl : RaftImplementation) (os : Os) (type : TestType) (test : ℕ)
    (world : ℕ → IterationWorld) (iters : List ℕ) (d : Driver) :
    ∃ monitor cluster, iters.foldl (runIteration impl os type test world) d =
      { d with
        monitor := monitor
        cluster := cluster
        iterations := d.iterations ++ iters.map (d.started test) } := by
  induction iters generalizing d with
  | nil => exact ⟨d.monitor, d.cluster, by simp⟩
  | cons iter iters ih =>
    obtain ⟨monitor, cluster, heq⟩ := runIteration_eq impl os type test world d iter
    obtain ⟨monitor', cluster', heq'⟩ := ih (runIteration impl os type test world d iter)
    refine ⟨monitor', cluster', ?_⟩
    rw [List.foldl_cons, heq', heq]
    simp [startClients, started]

structure Between (nClients test : ℕ) (d : Driver) : Prop where
  heap : d.heap.length = test * nClients
  clients : d.clients.length = test * nClients
  iterations : ∀ it ∈ d.iterations, it.Isolated nClients ↔ it.test = 0

/-- The clients of the first test are those just created; later ones follow the old. -/
theorem Between.started_isolated_iff {nClients test : ℕ} {d : Driver} (h : d.Between nClients test)
    (hpos : 1 ≤ nClients) (iter : ℕ) :
    ((d.createClients test nClients).started test iter).Isolated nClients ↔ test = 0 := by
  rw [createClients_eq]
  constructor
  · -- the vector has `test * nClients` elements too many
    intro hiso
    have hlength := hiso.length
    simp only [started, List.length_append, List.length_map, List.length_range,
      h.clients] at hlength
    have hzero : test * nClients = 0 := by omega
    rcases Nat.mul_eq_zero.mp hzero with hzero | hzero
    · exact hzero
    · omega
  · rintro rfl
    have hheap : d.heap = [] := List.eq_nil_of_length_eq_zero (by rw [h.heap, Nat.zero_mul])
    have hclients : d.clients = [] :=
      List.eq_nil_of_length_eq_zero (by rw [h.clients, Nat.zero_mul])
    refine ⟨?_, ?_, ?_, ?_⟩
    · simp [started, hclients]
    · intro p hp
      simp only [started, hclients, hheap, List.nil_append, List.length_nil, zero_add, List.map_id',
        List.mem_range] at hp ⊢
      refine ⟨⟨(p : ℤ) + 1, 0, false, false⟩, ?_, rfl, rfl, rfl⟩
      rw [List.getElem?_map, List.getElem?_range hp]
      rfl
    · simp only [started, hclients, hheap, List.nil_append, List.length_nil, zero_add, List.map_id']
      apply List.map_congr_left
      intro p hp
      rw [List.getElem?_map, List.getElem?_range (List.mem_range.mp hp)]
      rfl
    · intro o ho
      obtain ⟨p, hp, rfl⟩ := List.mem_map.mp ho
      refine ⟨hp, ?_⟩
      simp [hclients]

theorem Between.runTest {nClients test : ℕ} {d : Driver} (h : d.Between nClients test)
    (impl : RaftImplementation) (nNodes : ℤ) (hpos : 1 ≤ nClients) (args : TestArgs)
    (w : TestWorld) :
    (∀ it ∈ (runTest impl nNodes nClients d test args w).iterations,
        it.Isolated nClients ↔ it.test = 0) ∧
      ((Driver.runTest impl nNodes nClients d test args w).cluster.exited = false →
        (Driver.runTest impl nNodes nClients d test args w).Between nClients (test + 1)) := by
  dsimp only [Driver.runTest]
  split_ifs with hexited
  · exact ⟨h.iterations, fun hlive => absurd hexited (Bool.eq_false_iff.mp hlive)⟩
  · have h₁ : (d.launch impl nNodes w).Between nClients test :=
      ⟨h.heap, h.clients, h.iterations⟩
    generalize d.launch impl nNodes w = d₁ at h₁ ⊢
    obtain ⟨monitor, cluster, heq⟩ := foldl_runIteration impl w.os args.type test w.iteration
      (List.range args.iterations.toNat) (d₁.createClients test nClients)
    rw [heq]
    have hiterations : ∀ it ∈ (d₁.createClients test nClients).iterations ++
        (List.range args.iterations.toNat).map ((d₁.createClients test nClients).started test),
        it.Isolated nClients ↔ it.test = 0 := by
      intro it hit
      rcases List.mem_append.mp hit with hit | hit
      · rw [createClients_eq] at hit
        exact h₁.iterations it hit
      · obtain ⟨iter, -, rfl⟩ := List.mem_map.mp hit
        exact h₁.started_isolated_iff hpos iter
    refine ⟨hiterations, fun _ => ⟨?_, ?_, hiterations⟩⟩
    · dsimp only [destroyClients]
      rw [length_destroyClients, createClients_eq]
      simp [h₁.heap, Nat.succ_mul]
    · dsimp only [destroyClients]
      rw [createClients_eq]
      simp [h₁.clients, Nat.succ_mul]

theorem Between.runTests {nClients test : ℕ} {d : Driver} (h : d.Between nClients test)
    (impl : RaftImplementation) (nNodes : ℤ) (hpos : 1 ≤ nClients)
    (tests : List (TestArgs × TestWorld)) :
    ∀ it ∈ (runTests impl nNodes nClients test tests d).iterations,
      it.Isolated nClients ↔ it.test = 0 := by
  induction tests generalizing d test with
  | nil => exact h.iterations
  | cons t tests ih =>
    obtain ⟨hiterations, hnext⟩ := h.runTest impl nNodes hpos t.1 t.2
    dsimp only [Driver.runTests]
    split_ifs with hexited
    · exact hiterations
    · exact ih (hnext (Bool.eq_false_iff.mpr hexited))

/-- The clients of an iteration are those of its test if and only if it is the first test:
`clients` is never cleared, so from the second test on it also holds the clients of the
tests before, which were destroyed and deleted. -/
theorem isolated_iff_first_test (impl : RaftImplementation) (nNodes : ℤ) (nClients : ℕ)
    (hpos : 1 ≤ nClients) (tests : List (TestArgs × TestWorld)) (it : Iteration)
    (hit : it ∈ (main impl nNodes nClients tests).iterations) :
    it.Isolated nClients ↔ it.test = 0 := by
  have hnew : (new impl).Between nClients 0 :=
    ⟨(Nat.zero_mul _).symm, (Nat.zero_mul _).symm, fun it hit => absurd hit List.not_mem_nil⟩
  exact hnew.runTests impl nNodes hpos tests it hit

def sampleTest : TestArgs × TestWorld :=
  (⟨.basic, 1⟩, ⟨⟨fun k => 100 + k, fun _ => true⟩, 0, 0, true,
    fun _ => ⟨1, true, [], [], [], [], [], []⟩⟩)

theorem first_test_isolated :
    ∃ it ∈ (main .logcabin 1 1 [sampleTest]).iterations, it.Isolated 1 := by
  have hfirst : (main .logcabin 1 1 [sampleTest]).iterations[0]? =
      some ⟨0, 0, [⟨1, 0, false, false⟩], [0], [⟨0, 0, 1⟩]⟩ := rfl
  refine ⟨_, List.mem_of_getElem? hfirst, ?_⟩
  exact (isolated_iff_first_test .logcabin 1 1 le_rfl [sampleTest] _
    (List.mem_of_getElem? hfirst)).mpr rfl

/-- The second test starts a thread for the deleted client of the first one. -/
theorem second_test_not_isolated :
    ∃ it ∈ (main .logcabin 1 1 [sampleTest, sampleTest]).iterations,
      it.operations = [⟨0, 0, 2⟩, ⟨1, 0, 2⟩] ∧ it.heap[0]?.map Client.deleted = some true ∧
        ¬ it.Isolated 1 := by
  have hsecond : (main .logcabin 1 1 [sampleTest, sampleTest]).iterations[1]? =
      some ⟨1, 0, [⟨1, 0, true, true⟩, ⟨1, 1, false, false⟩], [0, 1],
        [⟨0, 0, 2⟩, ⟨1, 0, 2⟩]⟩ := rfl
  refine ⟨_, List.mem_of_getElem? hsecond, rfl, rfl, fun h => ?_⟩
  exact absurd h.length (by decide)

end Driver

end RaftMonitor
