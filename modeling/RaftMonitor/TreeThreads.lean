import RaftMonitor.ClientThreads
import RaftMonitor.TreeClient

namespace RaftMonitor.LogCabin
open ClientThreads

def writeFile (t : Tree) (path contents : Text) : Option (Tree × Bool) :=
  (TreeDetails.new.write t path contents).map fun r => (r.1, r.2.status = .ok)

/-- `LogCabinRaftClient::readFile`, which does not look at the status. -/
def readFile (t : Tree) (path : Text) : Option Text :=
  (TreeDetails.new.read t path).map (·.2)

section RootFile

variable {t : Tree} {path name : Text}

theorem way_nil (h : t.Ok) : t.view.way [] = .ok := by
  unfold FileSystem.way
  simp [List.inits, Tree.view_nil h]

theorem writeFile_spec (h : t.Ok) (hpath : ∀ w, ClientImpl.canonicalize path w = (.ok, path))
    (hname : components path = some [name]) (hfile : t.view [name] ≠ some .directory)
    (contents : Text) :
    ∃ t', writeFile t path contents = some (t', true) ∧ t'.Ok ∧
      t'.view = Function.update t.view [name] (some (.file contents)) := by
  have hserve : t.view.readWrite ⟨none, none, none, some (path, contents), none⟩ =
      some (Function.update t.view [name] (some (.file contents)), .ok) := by
    unfold FileSystem.readWrite
    rw [if_neg (not_not.mpr (show t.view.Meets none from trivial))]
    dsimp only
    unfold FileSystem.onPath
    rw [hname]
    dsimp only
    unfold FileSystem.write
    rw [List.dropLast_singleton, way_nil h]
    dsimp only
    rw [if_neg hfile]
  rcases Tree.readWrite_simulates h ⟨none, none, none, some (path, contents), none⟩ with
    ⟨-, ha⟩ | ⟨r, a, hr, ha, hsim⟩
  · cases ha.symm.trans hserve
  · cases ha.symm.trans hserve
    refine ⟨r.1, ?_, hsim.ok, hsim.view⟩
    have hstatus : r.2.status = .ok := hsim.status
    unfold writeFile TreeDetails.write ClientImpl.write
    rw [ClientImpl.readWrite_of_canonicalize (hpath _)]
    change ((t.readWriteTreeRPC ⟨none, none, none, some (path, contents), none⟩).map _).map _ = _
    rw [hr]
    simp [ClientImpl.treeResult, hstatus, Result.ok]

theorem readFile_spec (h : t.Ok) (hpath : ∀ w, ClientImpl.canonicalize path w = (.ok, path))
    (hname : components path = some [name]) :
    readFile t path = some (match t.view [name] with
      | some (.file contents) => contents
      | _ => []) := by
  have hread := Tree.readOnly_simulates h ⟨none, none, some path⟩
  have hserve : t.view.readOnly ⟨none, none, some path⟩ =
      some ((t.view.read [name]).1, some (t.view.read [name]).2) := by
    unfold FileSystem.readOnly
    rw [if_neg (not_not.mpr (show t.view.Meets none from trivial))]
    dsimp only
    unfold FileSystem.readPath
    rw [hname]
  rw [hserve] at hread
  obtain ⟨r, hr, hvalue⟩ := Option.map_eq_some_iff.mp hread
  obtain ⟨hstatus, hcontents⟩ := Prod.mk.inj hvalue
  unfold readFile TreeDetails.read
  rw [ClientImpl.read_of_canonicalize (hpath _)]
  change ((t.readOnlyTreeRPC ⟨none, none, some path⟩).map _).map _ = _
  rw [hr, Option.map_some, Option.map_some, hstatus, hcontents]
  unfold FileSystem.read
  rw [List.dropLast_singleton, way_nil h]
  cases t.view [name] with
  | none => rfl
  | some e => cases e <;> rfl

end RootFile

/-- The clients of a LogCabin cluster, its tree, all writes and reads, and what was printed. -/
structure Threads (n : ℕ) where
  pc : Fin n → Pc
  alive : Fin n → Bool
  tree : Tree
  writes : List (Fin n × ℕ)
  reads : List (Read n)
  console : List Text

namespace Threads
variable {n : ℕ}

/-- Threads were created for all clients. `launchCluster` has removed the old storage. -/
def init (alive : Fin n → Bool) : Threads n := ⟨fun _ => .entry, alive, .new, [], [], []⟩

/-- One access to shared data, by a client or by the driver. What comes of a write is up to the
tree. -/
inductive Action (n : ℕ)
  | enter (k : Fin n)
  | test (k : Fin n)
  | write (k : Fin n)
  | read (k : Fin n)
  | stop (k : Fin n)

def step (nIterations : ℤ) (s : Threads n) : Action n → Option (Threads n)
  | .enter k => match s.pc k with
    | .entry => some { s with
        alive := Function.update s.alive k true
        pc := Function.update s.pc k (.test 0) }
    | _ => none
  | .test k => match s.pc k with
    | .test i => some { s with
        pc := Function.update s.pc k (if s.alive k then .write i else .returned) }
    | _ => none
  | .write k => match s.pc k with
    | .write i => (writeFile s.tree (testfile k i) (stdToString nIterations)).map fun r => { s with
        pc := Function.update s.pc k (.read i r.2)
        tree := r.1
        writes := s.writes ++ [(k, i)]
        console := s.console ++
          [(if r.2 then "Write succeeded! ".toList else "Write failed: ".toList) ++
            testfile k i] }
    | _ => none
  | .read k => match s.pc k with
    | .read i written => (readFile s.tree (testfile k i)).map fun result => { s with
        pc := Function.update s.pc k (.test (i + 1))
        reads := s.reads ++ [⟨k, i, written, result⟩]
        console := s.console ++
          [(if result ≠ stdToString nIterations then "Read failed: ".toList
            else "Read succeeded! ".toList) ++ testfile k i] }
    | _ => none
  | .stop k => some { s with alive := Function.update s.alive k false }

/-- The name of the file of a client in a pass, below the root directory. -/
def name (k : Fin n) (i : ℕ) : Text := (testfile k i).tail

theorem testfile_eq_cons (k : Fin n) (i : ℕ) : testfile k i = '/' :: name k i := rfl

theorem name_canonical (k : Fin n) (i : ℕ) : ClientImpl.Canonical (name k i) := by
  have hname : name k i = "testfile".toList ++ stdToString (toInt32 (clientId k + i * n)) := rfl
  rw [hname]
  refine ⟨⟨by simp, ?_⟩, by simp, by simp⟩
  have hslash := notMem_stdToString (c := '/') rfl (by decide) (toInt32 (clientId k + i * n))
  simpa using hslash

theorem join_name (k : Fin n) (i : ℕ) : ClientImpl.join [name k i] = testfile k i := by
  rw [testfile_eq_cons]
  exact List.append_nil _

theorem canonicalize_testfile (k : Fin n) (i : ℕ) (workingDirectory : Text) :
    ClientImpl.canonicalize (testfile k i) workingDirectory = (.ok, testfile k i) := by
  rw [← join_name]
  exact ClientImpl.canonicalize_join (by simpa using name_canonical k i) workingDirectory

theorem components_testfile (k : Fin n) (i : ℕ) : components (testfile k i) = some [name k i] := by
  rw [← join_name]
  exact ClientImpl.components_join (by simpa using (name_canonical k i).1)

/-- A step of the clients of a store, whose writes all succeed. -/
def Action.onStore : Action n → ClientThreads.Action n
  | .enter k => .enter k
  | .test k => .test k
  | .write k => .write k .succeeded
  | .read k => .read k
  | .stop k => .stop k

/-- The clients are at the same places, and the test files have the same contents. -/
structure Simulates (s : Threads n) (a : State n) : Prop where
  pc : s.pc = a.pc
  alive : s.alive = a.alive
  writes : s.writes = a.writes
  reads : s.reads = a.reads
  console : s.console = a.console
  ok : s.tree.Ok
  files : ∀ (k : Fin n) i, s.tree.view [name k i] = a.store[testfile k i]?.map .file

theorem simulates_init (alive : Fin n → Bool) :
    Simulates (init alive) (ClientThreads.init alive ∅) where
  pc := rfl
  alive := rfl
  writes := rfl
  reads := rfl
  console := rfl
  ok := Tree.ok_new
  files k i := by
    change Tree.new.view [name k i] = _
    rw [Tree.view_new]
    simp [FileSystem.new, ClientThreads.init]

theorem step_simulates {v : ℤ} {s t : Threads n} {a : State n} {action : Action n}
    (h : Simulates s a) (hstep : step v s action = some t) :
    ∃ b, ClientThreads.step v a action.onStore = some b ∧ Simulates t b := by
  have hpc : ∀ k, a.pc k = s.pc k := fun k => congrFun h.pc.symm k
  cases action with
  | enter k =>
    simp only [step] at hstep
    split at hstep
    · rename_i hk
      cases hstep
      refine ⟨_, by simp only [ClientThreads.step, Action.onStore, hpc, hk]; rfl, ?_⟩
      exact { h with pc := congrArg (Function.update · k _) h.pc,
                     alive := congrArg (Function.update · k _) h.alive }
    · cases hstep
  | test k =>
    simp only [step] at hstep
    split at hstep
    · rename_i i hk
      cases hstep
      refine ⟨_, by simp only [ClientThreads.step, Action.onStore, hpc, hk]; rfl, ?_⟩
      exact { h with pc := by rw [h.pc, h.alive] }
    · cases hstep
  | write k =>
    simp only [step] at hstep
    split at hstep
    · rename_i i hk
      have hfile : s.tree.view [name k i] ≠ some .directory := by
        rw [h.files k i]
        simp
      obtain ⟨tree, hwrite, hok, hview⟩ := writeFile_spec h.ok (canonicalize_testfile k i)
        (components_testfile k i) hfile (stdToString v)
      rw [hwrite] at hstep
      cases hstep
      refine ⟨_, by simp only [ClientThreads.step, Action.onStore, hpc, hk]; rfl, ?_⟩
      refine ⟨?_, h.alive, ?_, h.reads, ?_, hok, ?_⟩
      · exact congrArg (Function.update · k _) h.pc
      · exact congrArg (· ++ _) h.writes
      · exact congrArg (· ++ _) h.console
      · intro j l
        change tree.view [name j l] =
          (a.store.insert (testfile k i) (stdToString v))[testfile j l]?.map _
        rw [hview, Std.ExtTreeMap.getElem?_insert]
        by_cases heq : testfile k i = testfile j l
        · rw [if_pos (by simp [heq]), show name j l = name k i from congrArg List.tail heq.symm,
            Function.update_self]
          rfl
        · have hname : [name j l] ≠ [name k i] := by
            intro hf
            rw [testfile_eq_cons, testfile_eq_cons, List.singleton_inj.mp hf] at heq
            exact heq rfl
          rw [if_neg (by simpa using heq), Function.update_of_ne hname]
          exact h.files j l
    · cases hstep
  | read k =>
    simp only [step] at hstep
    split at hstep
    · rename_i i written hk
      rw [readFile_spec h.ok (canonicalize_testfile k i) (components_testfile k i)] at hstep
      cases hstep
      have hresult : (match s.tree.view [name k i] with
          | some (.file contents) => contents
          | _ => []) = a.store.getD (testfile k i) [] := by
        rw [h.files k i, Std.ExtTreeMap.getD_eq_getD_getElem?]
        cases a.store[testfile k i]? <;> rfl
      refine ⟨_, by simp only [ClientThreads.step, Action.onStore, hpc, hk]; rfl, ?_⟩
      refine ⟨congrArg (Function.update · k _) h.pc, h.alive, h.writes, ?_, ?_, h.ok, h.files⟩
      · rw [hresult, h.reads]
      · rw [hresult, h.console]
    · cases hstep
  | stop k =>
    cases hstep
    exact ⟨_, rfl, { h with alive := congrArg (Function.update · k _) h.alive }⟩

/-- Nothing has failed so far, neither for a client nor on the console. -/
structure Flawless (v : ℤ) (a : State n) : Prop where
  inv : Inv v a
  written : ∀ k i written, a.pc k = .read i written → written = true
  reads : ∀ r ∈ a.reads, r.written = true
  console : ∀ line ∈ a.console,
    "Write succeeded! ".toList <+: line ∨ "Read succeeded! ".toList <+: line

theorem flawless_init (v : ℤ) (alive : Fin n → Bool) (store : Std.ExtTreeMap Text Text) :
    Flawless v (ClientThreads.init alive store) where
  inv := inv_init v alive store
  written k i written h := by simp [ClientThreads.init] at h
  reads r hr := by simp [ClientThreads.init] at hr
  console line hline := by simp [ClientThreads.init] at hline

variable {v : ℤ} {a b : State n}

theorem Flawless.written_update (h : Flawless v a) {k : Fin n} {p : Pc}
    (hp : ∀ i written, p = .read i written → written = true) :
    ∀ j i written, Function.update a.pc k p j = .read i written → written = true := by
  intro j i written hj
  by_cases hjk : j = k
  · rw [hjk, Function.update_self] at hj
    exact hp i written hj
  · rw [Function.update_of_ne hjk] at hj
    exact h.written j i written hj

theorem flawless_step {action : Action n} (h : Flawless v a)
    (hrange : ClientThreads.PassInRange a action.onStore)
    (hstep : ClientThreads.step v a action.onStore = some b) : Flawless v b := by
  have hinv := inv_step h.inv hrange hstep
  cases action with
  | enter k =>
    simp only [Action.onStore, ClientThreads.step] at hstep
    split at hstep
    · cases hstep
      exact ⟨hinv, h.written_update (by simp), h.reads, h.console⟩
    · cases hstep
  | test k =>
    simp only [Action.onStore, ClientThreads.step] at hstep
    split at hstep
    · cases hstep
      refine ⟨hinv, h.written_update fun i written hp => ?_, h.reads, h.console⟩
      split_ifs at hp
    · cases hstep
  | write k =>
    simp only [Action.onStore, ClientThreads.step] at hstep
    split at hstep
    · cases hstep
      refine ⟨hinv, h.written_update fun i written hp => ?_, h.reads, fun line hline => ?_⟩
      · cases hp
        rfl
      · rcases List.mem_append.mp hline with hline | hline
        · exact h.console line hline
        · rw [List.mem_singleton.mp hline]
          exact .inl (List.prefix_append _ _)
    · cases hstep
  | read k =>
    simp only [Action.onStore, ClientThreads.step] at hstep
    split at hstep
    · rename_i i written hk
      cases hstep
      have hwritten : written = true := h.written k i written hk
      refine ⟨hinv, h.written_update (by simp), fun r hr => ?_, fun line hline => ?_⟩
      · rcases List.mem_append.mp hr with hr | hr
        · exact h.reads r hr
        · rw [List.mem_singleton.mp hr]
          exact hwritten
      · rcases List.mem_append.mp hline with hline | hline
        · exact h.console line hline
        · -- the value is there, since the write of this pass succeeded
          have hresult : a.store.getD (testfile k i) [] = stdToString v :=
            hinv.answered _ (List.mem_append_right _ (List.mem_singleton_self _)) hwritten
          rw [List.mem_singleton.mp hline, if_neg (not_not.mpr hresult)]
          exact .inr (List.prefix_append _ _)
    · cases hstep
  | stop k =>
    cases hstep
    exact ⟨hinv, h.written, h.reads, h.console⟩

/-- The condition on a step: writes are made in passes whose number is in range. -/
def PassInRange (s : Threads n) : Action n → Prop
  | .write k => (s.pc k).WritesInRange k
  | _ => True

instance (s : Threads n) : ∀ a : Action n, Decidable (PassInRange s a)
  | .write k => inferInstanceAs (Decidable ((s.pc k).WritesInRange k))
  | .enter _ | .test _ | .read _ | .stop _ => isTrue trivial

/-- Clients of a LogCabin cluster in any interleaving, on the tree that it starts with: every write
succeeds, no file is written twice, every read returns what was written, and the console shows
nothing else. -/
theorem clients_of_tree_never_fail (v : ℤ) (alive : Fin n → Bool) (actions : List (Action n))
    (s : Threads n) (hrange : Runs.Meets (step v) PassInRange (init alive) actions)
    (hrun : Runs.run (step v) (init alive) actions = some s) :
    (s.writes.map fun w => testfile w.1 w.2).Nodup ∧
      (∀ r ∈ s.reads, r.written = true ∧ r.result = stdToString v) ∧
      ∀ line ∈ s.console,
        "Write succeeded! ".toList <+: line ∨ "Read succeeded! ".toList <+: line := by
  have h : ∃ a, Simulates s a ∧ Flawless v a := by
    refine Runs.invariant_of_meets (I := fun s => ∃ a, Simulates s a ∧ Flawless v a) ?_
      ⟨_, simulates_init alive, flawless_init v alive ∅⟩ hrange hrun
    rintro s action t ⟨a, hsim, hflawless⟩ hok hstep
    obtain ⟨b, hb, hsim'⟩ := step_simulates hsim hstep
    refine ⟨b, hsim', flawless_step hflawless ?_ hb⟩
    cases action with
    | write k =>
      change (a.pc k).WritesInRange k
      rw [← hsim.pc]
      exact hok
    | enter k | test k | read k | stop k => trivial
  obtain ⟨a, hsim, hflawless⟩ := h
  rw [hsim.writes, hsim.reads, hsim.console]
  refine ⟨?_, fun r hr => ?_, hflawless.console⟩
  · apply hflawless.inv.once.map_on
    intro w hw w' hw' heq
    have hunique :=
      testfile_injective (hflawless.inv.range w hw) (hflawless.inv.range w' hw') heq
    exact Prod.ext hunique.1 hunique.2
  · exact ⟨hflawless.reads r hr, hflawless.inv.answered r hr (hflawless.reads r hr)⟩

def sampleActions (j k : Fin n) : List (Action n) :=
  [.enter j, .enter k, .test k, .test j, .write j, .write k, .read k, .read j]

theorem two_clients_of_tree :
    ∃ s, Runs.run (step 7) (init fun _ => false) (sampleActions (0 : Fin 2) 1) = some s ∧
      s.reads.length = 2 ∧ ∀ r ∈ s.reads, r.written = true ∧ r.result = stdToString 7 :=
  ⟨_, rfl, rfl, (clients_of_tree_never_fail 7 (fun _ => false) (sampleActions (0 : Fin 2) 1) _
    (by decide) rfl).2.1⟩

end Threads

end RaftMonitor.LogCabin
