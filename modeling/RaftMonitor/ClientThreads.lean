import RaftMonitor.Runs
import RaftMonitor.Text

namespace RaftMonitor.ClientThreads
open Std

/-- Where a client is in `runTestOperations`, with the number of its pass. -/
inductive Pc
  | entry
  | test (i : ℕ)
  | write (i : ℕ)
  | read (i : ℕ) (written : Bool)
  | returned
  deriving DecidableEq, Repr

/-- `writeFile` reports success, or it reports a failure that may have been applied after all. -/
inductive WriteOutcome
  | succeeded
  | failed (applied : Bool)
  deriving DecidableEq, Repr

/-- A read: its client and pass, whether the write of this pass succeeded, and what it returned. -/
structure Read (n : ℕ) where
  client : Fin n
  pass : ℕ
  written : Bool
  result : Text
  deriving DecidableEq

/-- The clients, the store, all writes (successful or not) and reads, and what was printed. -/
structure State (n : ℕ) where
  pc : Fin n → Pc
  alive : Fin n → Bool
  store : ExtTreeMap Text Text
  writes : List (Fin n × ℕ)
  reads : List (Read n)
  console : List Text

/-- Threads were created for all clients, on a store that may hold anything. -/
def init {n : ℕ} (alive : Fin n → Bool) (store : ExtTreeMap Text Text) : State n :=
  ⟨fun _ => .entry, alive, store, [], [], []⟩

variable {n : ℕ}

/-- `createClients` numbers the clients from 1. -/
def clientId (k : Fin n) : ℤ := (k : ℤ) + 1

/-- The file that a client uses in a pass; `nClients` is the number of clients. -/
def testfile (k : Fin n) (i : ℕ) : Text :=
  "/testfile".toList ++ stdToString (toInt32 (clientId k + i * n))

/-- One access to shared data, by a client or by the driver. -/
inductive Action (n : ℕ)
  | enter (k : Fin n)
  | test (k : Fin n)
  | write (k : Fin n) (outcome : WriteOutcome)
  | read (k : Fin n)
  | stop (k : Fin n)

def WriteOutcome.ok : WriteOutcome → Bool
  | .succeeded => true
  | .failed _ => false

def WriteOutcome.applied : WriteOutcome → Bool
  | .succeeded => true
  | .failed applied => applied

/-- One step of the system; `nIterations` is the argument of `runTestOperations`. An action is
not enabled unless its client has come to it. -/
def step (nIterations : ℤ) (s : State n) : Action n → Option (State n)
  | .enter k => match s.pc k with
    | .entry => some { s with
        alive := Function.update s.alive k true
        pc := Function.update s.pc k (.test 0) }
    | _ => none
  | .test k => match s.pc k with
    | .test i => some { s with
        pc := Function.update s.pc k (if s.alive k then .write i else .returned) }
    | _ => none
  | .write k outcome => match s.pc k with
    | .write i => some { s with
        pc := Function.update s.pc k (.read i outcome.ok)
        store := if outcome.applied then s.store.insert (testfile k i) (stdToString nIterations)
          else s.store
        writes := s.writes ++ [(k, i)]
        console := s.console ++
          [(if outcome.ok then "Write succeeded! ".toList else "Write failed: ".toList) ++
            testfile k i] }
    | _ => none
  | .read k => match s.pc k with
    | .read i written =>
      let result := s.store.getD (testfile k i) []
      some { s with
        pc := Function.update s.pc k (.test (i + 1))
        reads := s.reads ++ [⟨k, i, written, result⟩]
        console := s.console ++
          [(if result ≠ stdToString nIterations then "Read failed: ".toList
            else "Read succeeded! ".toList) ++ testfile k i] }
    | _ => none
  | .stop k => some { s with alive := Function.update s.alive k false }

def InRange (k : Fin n) (i : ℕ) : Prop := clientId k + i * n < 2 ^ 31

instance (k : Fin n) (i : ℕ) : Decidable (InRange k i) :=
  inferInstanceAs (Decidable (_ < _))

/-- A client that is about to write is in a pass whose number is in range. -/
def Pc.WritesInRange (k : Fin n) : Pc → Prop
  | .write i => InRange k i
  | _ => True

instance (k : Fin n) : ∀ p : Pc, Decidable (p.WritesInRange k)
  | .write i => inferInstanceAs (Decidable (InRange k i))
  | .entry | .test _ | .read _ _ | .returned => isTrue trivial

/-- The condition on a step: writes are made in passes whose number is in range. -/
def PassInRange (s : State n) : Action n → Prop
  | .write k _ => (s.pc k).WritesInRange k
  | _ => True

instance (s : State n) : ∀ a : Action n, Decidable (PassInRange s a)
  | .write k _ => inferInstanceAs (Decidable ((s.pc k).WritesInRange k))
  | .enter _ | .test _ | .read _ | .stop _ => isTrue trivial

theorem testfile_eq {k : Fin n} {i : ℕ} (h : InRange k i) :
    testfile k i = "/testfile".toList ++ stdToString (clientId k + i * n) := by
  have hpos : 0 ≤ clientId k + i * n := by unfold clientId; positivity
  unfold testfile
  rw [toInt32_of_range (by omega) h]

theorem client_pass_unique {j k : Fin n} {i l : ℕ}
    (h : clientId j + i * n = clientId k + l * n) : j = k ∧ i = l := by
  have hnat : (j : ℕ) + i * n = k + l * n := by
    unfold clientId at h
    zify
    omega
  have hclient : (j : ℕ) = k := by
    have hmod := congrArg (· % n) hnat
    simpa [Nat.add_mul_mod_self_right, Nat.mod_eq_of_lt] using hmod
  have hn : 0 < n := j.pos
  have hpass : i * n = l * n := by omega
  exact ⟨Fin.ext hclient, Nat.eq_of_mul_eq_mul_right hn hpass⟩

theorem testfile_injective {j k : Fin n} {i l : ℕ} (hi : InRange j i) (hl : InRange k l)
    (h : testfile j i = testfile k l) : j = k ∧ i = l := by
  rw [testfile_eq hi, testfile_eq hl] at h
  exact client_pass_unique (stdToString_injective (List.append_cancel_left h))

def Pc.Passed (i : ℕ) : Pc → Prop
  | .entry => False
  | .test j => i < j
  | .write j => i < j
  | .read j _ => i ≤ j
  | .returned => True

/-- A client that wrote successfully finds its value until it has read it. -/
structure Inv (v : ℤ) (s : State n) : Prop where
  range : ∀ w ∈ s.writes, InRange w.1 w.2
  once : s.writes.Nodup
  passed : ∀ w ∈ s.writes, (s.pc w.1).Passed w.2
  current : ∀ k i written, s.pc k = .read i written → (k, i) ∈ s.writes
  holds : ∀ k i, s.pc k = .read i true → s.store[testfile k i]? = some (stdToString v)
  answered : ∀ r ∈ s.reads, r.written = true → r.result = stdToString v

theorem inv_init (v : ℤ) (alive : Fin n → Bool) (store : ExtTreeMap Text Text) :
    Inv v (init alive store) where
  range w hw := by simp [init] at hw
  once := List.nodup_nil
  passed w hw := by simp [init] at hw
  current k i written h := by simp [init] at h
  holds k i h := by simp [init] at h
  answered r hr := by simp [init] at hr

variable {v : ℤ} {s : State n}

theorem Inv.passed_update (h : Inv v s) {k : Fin n} {p : Pc}
    (hp : ∀ i, (s.pc k).Passed i → p.Passed i) :
    ∀ w ∈ s.writes, (Function.update s.pc k p w.1).Passed w.2 := by
  intro w hw
  have hpassed := h.passed w hw
  by_cases hk : w.1 = k
  · rw [hk, Function.update_self]
    exact hp w.2 (hk ▸ hpassed)
  · rw [Function.update_of_ne hk]
    exact hpassed

theorem Inv.move (h : Inv v s) {k : Fin n} {p : Pc}
    (hp : ∀ i, (s.pc k).Passed i → p.Passed i) (hread : ∀ i written, p ≠ .read i written)
    (alive : Fin n → Bool) {reads : List (Read n)}
    (hreads : ∀ r ∈ reads, r.written = true → r.result = stdToString v) (console : List Text) :
    Inv v { s with
      pc := Function.update s.pc k p, alive := alive, reads := reads, console := console } := by
  have hother : ∀ j i written, Function.update s.pc k p j = .read i written →
      s.pc j = .read i written := by
    intro j i written hj
    by_cases hk : j = k
    · rw [hk, Function.update_self] at hj
      exact absurd hj (hread i written)
    · rwa [Function.update_of_ne hk] at hj
  refine ⟨h.range, h.once, h.passed_update hp, ?_, ?_, hreads⟩
  · intro j i written hj
    exact h.current j i written (hother j i written hj)
  · intro j i hj
    exact h.holds j i (hother j i true hj)

theorem Inv.write (h : Inv v s) {k : Fin n} {i : ℕ} (hk : s.pc k = .write i) (hi : InRange k i)
    (outcome : WriteOutcome) (console : List Text) :
    Inv v { s with
      pc := Function.update s.pc k (.read i outcome.ok)
      store := if outcome.applied then s.store.insert (testfile k i) (stdToString v) else s.store
      writes := s.writes ++ [(k, i)]
      console := console } := by
  have hnew : (k, i) ∉ s.writes := by
    intro hmem
    have hpassed := h.passed _ hmem
    rw [hk] at hpassed
    exact lt_irrefl i hpassed
  have hread : ∀ j l written, Function.update s.pc k (.read i outcome.ok) j = .read l written →
      j = k ∧ l = i ∧ written = outcome.ok ∨ j ≠ k ∧ s.pc j = .read l written := by
    intro j l written hj
    by_cases hjk : j = k
    · rw [hjk, Function.update_self] at hj
      injection hj with hl hw
      exact Or.inl ⟨hjk, hl.symm, hw.symm⟩
    · rw [Function.update_of_ne hjk] at hj
      exact Or.inr ⟨hjk, hj⟩
  refine ⟨?_, ?_, ?_, ?_, ?_, h.answered⟩
  · intro w hw
    rcases List.mem_append.mp hw with hw | hw
    · exact h.range w hw
    · rw [List.mem_singleton.mp hw]
      exact hi
  · apply List.nodup_append.mpr
    refine ⟨h.once, List.nodup_singleton _, ?_⟩
    intro w hw w' hw' heq
    exact hnew (List.mem_singleton.mp hw' ▸ heq ▸ hw)
  · intro w hw
    rcases List.mem_append.mp hw with hw | hw
    · apply h.passed_update _ w hw
      intro l hl
      rw [hk] at hl
      exact hl.le
    · rw [List.mem_singleton.mp hw]
      dsimp only
      rw [Function.update_self]
      exact le_rfl
  · intro j l written hj
    rcases hread j l written hj with ⟨rfl, rfl, -⟩ | ⟨-, hj⟩
    · exact List.mem_append_right _ (List.mem_singleton_self _)
    · exact List.mem_append_left _ (h.current j l written hj)
  · intro j l hj
    dsimp only
    rcases hread j l true hj with ⟨rfl, rfl, hok⟩ | ⟨hjk, hj⟩
    · -- the write that was just made
      have happlied : outcome.applied = true := by
        cases outcome with
        | succeeded => rfl
        | failed applied => exact absurd hok (by simp [WriteOutcome.ok])
      rw [if_pos happlied, ExtTreeMap.getElem?_insert_self]
    · -- an earlier write of another client
      have hrange := h.range _ (h.current j l true hj)
      have hne : testfile k i ≠ testfile j l := by
        intro heq
        exact hjk (testfile_injective hi hrange heq).1.symm
      split_ifs
      · rw [ExtTreeMap.getElem?_insert, if_neg (by simpa using hne)]
        exact h.holds j l hj
      · exact h.holds j l hj

theorem inv_step {a : Action n} {t : State n} (h : Inv v s) (hrange : PassInRange s a)
    (hstep : step v s a = some t) : Inv v t := by
  cases a with
  | enter k =>
    simp only [step] at hstep
    split at hstep
    · rename_i hk
      rw [← Option.some.inj hstep]
      apply h.move _ (by simp) _ h.answered
      intro i hi
      rw [hk] at hi
      exact hi.elim
    · cases hstep
  | test k =>
    simp only [step] at hstep
    split at hstep
    · rename_i i hk
      rw [← Option.some.inj hstep]
      apply h.move _ (by split_ifs <;> simp) _ h.answered
      intro l hl
      rw [hk] at hl
      split_ifs
      · exact hl
      · trivial
    · cases hstep
  | write k outcome =>
    simp only [step] at hstep
    split at hstep
    · rename_i i hk
      rw [← Option.some.inj hstep]
      have hi : (s.pc k).WritesInRange k := hrange
      rw [hk] at hi
      exact h.write hk hi outcome _
    · cases hstep
  | read k =>
    simp only [step] at hstep
    split at hstep
    · rename_i i written hk
      rw [← Option.some.inj hstep]
      apply h.move _ (by simp)
      · intro r hr hw
        rcases List.mem_append.mp hr with hr | hr
        · exact h.answered r hr hw
        · rw [List.mem_singleton.mp hr] at hw ⊢
          have hstore := h.holds k i (hk.trans (congrArg _ hw))
          dsimp only
          rw [ExtTreeMap.getD_eq_getD_getElem?, hstore]
          rfl
      · intro l hl
        rw [hk] at hl
        exact Nat.lt_succ_of_le hl
    · cases hstep
  | stop k =>
    rw [← Option.some.inj hstep]
    exact ⟨h.range, h.once, h.passed, h.current, h.holds, h.answered⟩

/-- Clients never interfere: in every interleaving no file is written twice, by whichever
clients, and every read after a successful write returns what was written. -/
theorem clients_never_interfere (v : ℤ) (alive : Fin n → Bool) (store : ExtTreeMap Text Text)
    (actions : List (Action n)) (s : State n)
    (hrange : Runs.Meets (step v) PassInRange (init alive store) actions)
    (hrun : Runs.run (step v) (init alive store) actions = some s) :
    (s.writes.map fun w => testfile w.1 w.2).Nodup ∧
      ∀ r ∈ s.reads, r.written = true → r.result = stdToString v := by
  have h : Inv v s :=
    Runs.invariant_of_meets (fun _ _ _ hs hok hst => inv_step hs hok hst)
      (inv_init v alive store) hrange hrun
  refine ⟨?_, h.answered⟩
  apply h.once.map_on
  intro w hw w' hw' heq
  have hunique := testfile_injective (h.range w hw) (h.range w' hw') heq
  exact Prod.ext hunique.1 hunique.2

def sampleActions : List (Action 2) :=
  [.enter 0, .enter 1, .test 1, .test 0, .write 0 .succeeded, .write 1 .succeeded, .read 1, .read 0]

theorem two_clients_never_interfere :
    ∃ s, Runs.run (step 7) (init (fun _ => false) ∅) sampleActions = some s ∧
      s.reads.length = 2 ∧ ∀ r ∈ s.reads, r.written = true → r.result = stdToString 7 :=
  ⟨_, rfl, rfl, (clients_never_interfere 7 (fun _ => false) ∅ sampleActions _
    (by decide) rfl).2⟩

end RaftMonitor.ClientThreads
