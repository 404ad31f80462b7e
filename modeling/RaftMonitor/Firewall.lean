import RaftMonitor.Driver

namespace RaftMonitor
open ProcessTable ClusterConfig

namespace Monitor

def TestCall.rule (c : TestCall) : Rule := .drop c.source c.fraction

theorem isOpen_openApp (f : OutFile) (name : Text) (opens : Bool) :
    (f.openApp name opens).isOpen = (f.isOpen || opens) := by
  unfold OutFile.openApp OutFile.isOpen
  cases hname : f.name with
  | some _ => simp
  | none => cases opens <;> simp

theorem startTest_rules (m : Monitor) (c : TestCall) (opens : Bool) :
    (m.startTest c opens).1.rules =
      if c.partition ≠ 0 ∧ (m.outFile.isOpen || opens) = true then m.rules ++ [c.rule]
      else m.rules := by
  dsimp only [startTest]
  rw [isOpen_openApp]
  by_cases hopen : (m.outFile.isOpen || opens) = true
  · by_cases hpartition : c.partition ≠ 0
    · rw [if_pos hopen, if_pos hpartition, if_pos ⟨hpartition, hopen⟩]
      rfl
    · rw [if_pos hopen, if_neg hpartition, if_neg fun h => hpartition h.1]
  · rw [if_neg hopen, if_neg fun h => hopen h.2]

theorem callbacks_rules (m : Monitor) (ps : List Packet) : (m.callbacks ps).rules = m.rules := by
  unfold callbacks
  induction ps generalizing m with
  | nil => rfl
  | cons p ps ih =>
    obtain ⟨_, _, heq, -⟩ := callback_eq m p
    rw [List.foldl_cons, ih, heq]

theorem stopTest_rules (m : Monitor) (c : TestCall) :
    (m.stopTest c).1.rules = if c.partition ≠ 0 then m.rules.erase c.rule else m.rules := by
  dsimp only [stopTest]
  split_ifs <;> rfl

/-- What a test, with the packets handled during it, makes of the rules. When the log file cannot
be opened the rule is not set, but it is removed nevertheless. -/
theorem test_rules (m : Monitor) (c : TestCall) (opens : Bool) (ps : List Packet)
    (stopTime : Text) :
    (((m.startTest c opens).1.callbacks ps).stopTest { c with time := stopTime }).1.rules =
      if c.partition = 0 then m.rules
      else if (m.outFile.isOpen || opens) = true then (m.rules ++ [c.rule]).erase c.rule
      else m.rules.erase c.rule := by
  have hrule : TestCall.rule { c with time := stopTime } = c.rule := rfl
  rw [stopTest_rules, callbacks_rules, startTest_rules, hrule]
  by_cases hpartition : c.partition = 0
  · simp [hpartition]
  by_cases hopen : (m.outFile.isOpen || opens) = true
  · rw [if_pos hpartition, if_pos ⟨hpartition, hopen⟩, if_neg hpartition, if_pos hopen]
  · rw [if_pos hpartition, if_neg fun h => hopen h.2, if_neg hpartition, if_neg hopen]

theorem erase_concat_perm {α : Type*} [DecidableEq α] (l : List α) (a : α) :
    ((l ++ [a]).erase a).Perm l := by
  have herase := (List.perm_append_singleton a l).erase a
  rwa [List.erase_cons_head] at herase

theorem erase_perm_iff {α : Type*} [DecidableEq α] (l : List α) (a : α) :
    (l.erase a).Perm l ↔ a ∉ l := by
  constructor
  · intro h hmem
    have hlength := h.length_eq
    have hpos := List.length_pos_of_mem hmem
    rw [List.length_erase_of_mem hmem] at hlength
    omega
  · intro h
    rw [List.erase_of_not_mem h]

/-- A test leaves the rules of the firewall up to their order if and only if it sets none, or its
log file is open, or no rule equal to its own was there. -/
theorem rules_perm_iff (m : Monitor) (c : TestCall) (opens : Bool) (ps : List Packet)
    (stopTime : Text) :
    ((((m.startTest c opens).1.callbacks ps).stopTest { c with time := stopTime }).1.rules.Perm
        m.rules) ↔
      c.partition = 0 ∨ m.outFile.isOpen = true ∨ opens = true ∨ c.rule ∉ m.rules := by
  rw [test_rules]
  by_cases hpartition : c.partition = 0
  · simp [hpartition]
  by_cases hopen : (m.outFile.isOpen || opens) = true
  · rw [if_neg hpartition, if_pos hopen]
    rw [Bool.or_eq_true] at hopen
    exact iff_of_true (erase_concat_perm m.rules c.rule) (by tauto)
  · rw [if_neg hpartition, if_neg hopen, erase_perm_iff]
    rw [Bool.or_eq_true, not_or] at hopen
    tauto

/-- A run that was aborted during its test has left the rule of the test. -/
def leftover : Monitor :=
  { Monitor.new .etcd with rules := [.drop "192.168.2.1".toList "0.500000".toList] }

/-- The next test cannot open its log file and takes the rule out, which it did not set. -/
theorem leftover_rule_removed :
    let c : TestCall := ⟨"block".toList, 1, "0.500000".toList, "192.168.2.1".toList, []⟩
    (leftover.startTest c false).2 = -1 ∧
      ((leftover.startTest c false).1.stopTest c).1.rules = [] ∧
      ¬ ((leftover.startTest c false).1.stopTest c).1.rules.Perm leftover.rules := by
  refine ⟨rfl, rfl, fun h => ?_⟩
  exact absurd h.length_eq (by decide)

end Monitor

namespace Driver

theorem runIteration_monitor (impl : RaftImplementation) (os : Os) (type : TestType) (test : ℕ)
    (world : ℕ → IterationWorld) (d : Driver) (iter : ℕ) :
    ∃ (c : Monitor.TestCall) (ps : List Packet) (stopTime : Text),
      (runIteration impl os type test world d iter).monitor =
        ((((d.monitor.callbacks (world iter).before).startTest c (world iter).opens).1.callbacks
          ps).stopTest { c with time := stopTime }).1 := by
  let c := testCall impl (d.sniff (world iter).before) type (world iter).randomNode
    (world iter).startTime
  cases type with
  | basic =>
    refine ⟨c, (world iter).running ++ (world iter).ending, (world iter).stopTime, ?_⟩
    rw [Monitor.callbacks, Monitor.callbacks, List.foldl_append]
    rfl
  | block mode frac =>
    refine ⟨c, (world iter).running ++ (world iter).ending, (world iter).stopTime, ?_⟩
    rw [Monitor.callbacks, Monitor.callbacks, List.foldl_append]
    rfl
  | kill mode =>
    refine ⟨c, (world iter).running ++ (world iter).down ++ (world iter).ending,
      (world iter).stopTime, ?_⟩
    rw [Monitor.callbacks, Monitor.callbacks, List.foldl_append, List.foldl_append]
    rfl

def Clean (rules : List Rule) : Prop := ∀ source probability, .drop source probability ∉ rules

section Clean
variable {d : Driver} (hclean : Clean d.monitor.rules) (impl : RaftImplementation)
include hclean

theorem runIteration_rules (os : Os) (type : TestType) (test : ℕ) (world : ℕ → IterationWorld)
    (iter : ℕ) : (runIteration impl os type test world d iter).monitor.rules = d.monitor.rules := by
  obtain ⟨c, ps, stopTime, heq⟩ := runIteration_monitor impl os type test world d iter
  have habsent : c.rule ∉ d.monitor.rules := hclean c.source c.fraction
  rw [heq, Monitor.test_rules, Monitor.callbacks_rules]
  split_ifs
  · rfl
  · rw [List.erase_append_right _ habsent, List.erase_cons_head, List.append_nil]
  · exact List.erase_of_not_mem habsent

theorem foldl_runIteration_rules (os : Os) (type : TestType) (test : ℕ)
    (world : ℕ → IterationWorld) (iters : List ℕ) :
    (iters.foldl (runIteration impl os type test world) d).monitor.rules = d.monitor.rules := by
  induction iters generalizing d with
  | nil => rfl
  | cons iter iters ih =>
    have hstep := runIteration_rules hclean impl os type test world iter
    rw [List.foldl_cons, ih (hstep ▸ hclean), hstep]

theorem runTest_rules (nNodes : ℤ) (nClients test : ℕ) (args : TestArgs) (w : TestWorld) :
    (runTest impl nNodes nClients d test args w).monitor.rules = d.monitor.rules := by
  dsimp only [runTest]
  split_ifs
  · rfl
  · have hmonitor : ((d.launch impl nNodes w).createClients test nClients).monitor = d.monitor := by
      rw [createClients_eq]
      rfl
    dsimp only [destroyClients]
    rw [foldl_runIteration_rules (hmonitor ▸ hclean), hmonitor]

/-- Whatever tests are run, and whichever log files cannot be opened, a firewall without rules of
the monitor's kind is in the end as it was. -/
theorem runTests_rules (nNodes : ℤ) (nClients test : ℕ) (tests : List (TestArgs × TestWorld)) :
    (runTests impl nNodes nClients test tests d).monitor.rules = d.monitor.rules := by
  induction tests generalizing d test with
  | nil => rfl
  | cons t tests ih =>
    have hstep := runTest_rules hclean impl nNodes nClients test t.1 t.2
    dsimp only [runTests]
    split_ifs
    · exact hstep
    · rw [ih (hstep ▸ hclean), hstep]

end Clean

end Driver

end RaftMonitor
