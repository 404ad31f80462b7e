import RaftMonitor.ClientThreads

namespace RaftMonitor.Shutdown
open Std ClientThreads

/-- The next step of the driver in an iteration: three loops over the clients, in this order. -/
inductive DriverPc
  | create (k : ℕ)
  | stop (k : ℕ)
  | join (k : ℕ)
  deriving DecidableEq, Repr

/-- The end of a loop is the beginning of the next one; the last loop ends the iteration. -/
def DriverPc.next (n : ℕ) : DriverPc → DriverPc
  | .create k => if k + 1 < n then .create (k + 1) else .stop 0
  | .stop k => if k + 1 < n then .stop (k + 1) else .join 0
  | .join k => if k + 1 < n then .join (k + 1) else .create 0

inductive ClientStep
  | enter
  | test
  | write (outcome : WriteOutcome)
  | read
  deriving DecidableEq, Repr

def ClientStep.action {n : ℕ} (k : Fin n) : ClientStep → ClientThreads.Action n
  | .enter => .enter k
  | .test => .test k
  | .write outcome => .write k outcome
  | .read => .read k

inductive Event (n : ℕ)
  | create (k : Fin n)
  | stop (k : Fin n)
  | join (k : Fin n)
  | client (k : Fin n) (c : ClientStep)
  deriving DecidableEq, Repr

/-- The clients, the `nIterations` that each one's last thread was given, and the driver with
the number of its iteration. A client without a thread is at `returned`. -/
structure System (n : ℕ) where
  threads : State n
  nIterations : Fin n → ℤ
  iter : ℕ
  driver : DriverPc

variable {n : ℕ}

/-- The clients were created, and no thread was. The constructor leaves `alive` to chance. -/
def init (alive : Fin n → Bool) (store : ExtTreeMap Text Text) : System n where
  threads := { ClientThreads.init alive store with pc := fun _ => .returned }
  nIterations := fun _ => 0
  iter := 0
  driver := .create 0

/-- The driver moves on, to the next iteration after the last `join`. -/
def System.advance (s : System n) : System n :=
  { s with
    driver := s.driver.next n
    iter := if s.driver = .join (n - 1) then s.iter + 1 else s.iter }

def System.createThread (s : System n) (k : Fin n) : System n :=
  { s with
    threads := { s.threads with pc := Function.update s.threads.pc k .entry }
    nIterations := Function.update s.nIterations k s.iter }

/-- One step of the whole. The driver keeps to its loops, and `pthread_join` waits for the
thread; a thread steps as in `runTestOperations`. -/
def step (iterations : ℕ) (s : System n) : Event n → Option (System n)
  | .create k =>
    if s.driver = .create k ∧ s.iter < iterations then some (s.createThread k).advance else none
  | .stop k =>
    if s.driver = .stop k then
      (ClientThreads.step 0 s.threads (.stop k)).map fun t => { s.advance with threads := t }
    else none
  | .join k =>
    if s.driver = .join k ∧ s.threads.pc k = .returned then some s.advance else none
  | .client k c =>
    (ClientThreads.step (s.nIterations k) s.threads (c.action k)).map fun t =>
      { s with threads := t }

/-- What concerns one client: its place in the code, its flag, and how many writes and reads
it has made. -/
structure View where
  pc : Pc
  alive : Bool
  writes : ℕ
  reads : ℕ

def view (s : System n) (k : Fin n) : View where
  pc := s.threads.pc k
  alive := s.threads.alive k
  writes := s.threads.writes.countP (·.1 = k)
  reads := s.threads.reads.countP (·.client = k)

inductive Move : View → View → Prop
  | stay (v : View) : Move v v
  | enter (a : Bool) (w r : ℕ) : Move ⟨.entry, a, w, r⟩ ⟨.test 0, true, w, r⟩
  | test (i : ℕ) (a : Bool) (w r : ℕ) :
      Move ⟨.test i, a, w, r⟩ ⟨if a then .write i else .returned, a, w, r⟩
  | write (i : ℕ) (ok a : Bool) (w r : ℕ) : Move ⟨.write i, a, w, r⟩ ⟨.read i ok, a, w + 1, r⟩
  | read (i : ℕ) (ok a : Bool) (w r : ℕ) :
      Move ⟨.read i ok, a, w, r⟩ ⟨.test (i + 1), a, w, r + 1⟩

theorem view_eq {s : System n} {k : Fin n} {p : Pc} (h : s.threads.pc k = p) :
    view s k = ⟨p, s.threads.alive k, s.threads.writes.countP (·.1 = k),
      s.threads.reads.countP (·.client = k)⟩ := by
  rw [← h]
  rfl

theorem views_of_client {v : ℤ} {s : System n} {k : Fin n} {c : ClientStep} {t : State n}
    (h : ClientThreads.step v s.threads (c.action k) = some t) :
    Move (view s k) (view { s with threads := t } k) ∧
      ∀ j, j ≠ k → view { s with threads := t } j = view s j := by
  cases c with
  | enter =>
    simp only [ClientStep.action, ClientThreads.step] at h
    split at h
    · rename_i hk
      rw [← Option.some.inj h, view_eq hk]
      refine ⟨?_, fun j hj => by simp [view, hj]⟩
      simpa [view] using Move.enter _ _ _
    · cases h
  | test =>
    simp only [ClientStep.action, ClientThreads.step] at h
    split at h
    · rename_i i hk
      rw [← Option.some.inj h, view_eq hk]
      refine ⟨?_, fun j hj => by simp [view, hj]⟩
      simpa [view] using Move.test i _ _ _
    · cases h
  | write outcome =>
    simp only [ClientStep.action, ClientThreads.step] at h
    split at h
    · rename_i i hk
      rw [← Option.some.inj h, view_eq hk]
      refine ⟨?_, fun j hj => by simp [view, hj, hj.symm]⟩
      simpa [view] using Move.write i outcome.ok _ _ _
    · cases h
  | read =>
    simp only [ClientStep.action, ClientThreads.step] at h
    split at h
    · rename_i i written hk
      rw [← Option.some.inj h, view_eq hk]
      refine ⟨?_, fun j hj => by simp [view, hj, hj.symm]⟩
      simpa [view] using Move.read i written _ _ _
    · cases h

theorem step_view {iterations : ℕ} {s t : System n} {e : Event n} {k : Fin n}
    (h : step iterations s e = some t) (he : e ≠ .create k) :
    e = .stop k ∧ view t k = { view s k with alive := false } ∨ Move (view s k) (view t k) := by
  cases e with
  | create j =>
    simp only [step] at h
    split_ifs at h
    have hjk : k ≠ j := fun heq => he (heq ▸ rfl)
    have hview : view t k = view s k := by
      rw [← Option.some.inj h]
      simp [view, System.advance, System.createThread, hjk]
    exact Or.inr (hview ▸ Move.stay _)
  | stop j =>
    simp only [step, ClientThreads.step, Option.map_some] at h
    split_ifs at h
    rw [← Option.some.inj h]
    by_cases hjk : k = j
    · left
      rw [hjk]
      simp [view]
    · right
      have hview : view { s.advance with
          threads := { s.threads with alive := Function.update s.threads.alive j false } } k =
            view s k := by
        simp [view, hjk]
      exact hview ▸ Move.stay _
  | join j =>
    simp only [step] at h
    split_ifs at h
    rw [← Option.some.inj h]
    exact Or.inr (Move.stay _)
  | client j c =>
    simp only [step] at h
    obtain ⟨u, hu, rfl⟩ := Option.map_eq_some_iff.mp h
    obtain ⟨hmove, hothers⟩ := views_of_client hu
    right
    by_cases hjk : k = j
    · rw [hjk]
      exact hmove
    · rw [hothers k hjk]
      exact Move.stay _

/-- The writes that a client still makes when it finds its flag false. -/
def writesLeft : Pc → ℕ
  | .write _ => 1
  | _ => 0

def readsLeft : Pc → ℕ
  | .write _ => 1
  | .read _ _ => 1
  | _ => 0

/-- The client has entered `runTestOperations` and its flag is false, so that it makes at most
`w` writes and `r` reads in all. -/
structure Stopping (w r : ℕ) (v : View) : Prop where
  alive : v.alive = false
  entered : v.pc ≠ .entry
  writes : v.writes + writesLeft v.pc ≤ w
  reads : v.reads + readsLeft v.pc ≤ r

theorem Stopping.move {w r : ℕ} {v v' : View} (h : Stopping w r v) (hm : Move v v') :
    Stopping w r v' := by
  cases hm with
  | stay => exact h
  | enter a _ _ => exact absurd rfl h.entered
  | test i a _ _ =>
    obtain rfl : a = false := h.alive
    exact ⟨rfl, by simp, h.writes, h.reads⟩
  | write i ok a _ _ => exact ⟨h.alive, by simp, h.writes, h.reads⟩
  | read i ok a _ _ => exact ⟨h.alive, by simp, h.writes, h.reads⟩

theorem Stopping.run {iterations w r : ℕ} {s t : System n} {k : Fin n} {after : List (Event n)}
    (h : Stopping w r (view s k)) (hafter : .create k ∉ after)
    (hrun : Runs.run (step iterations) s after = some t) : Stopping w r (view t k) := by
  have hmeets : Runs.Meets (step iterations) (fun _ e => e ≠ .create k) s after := by
    apply Runs.meets_of_forall
    intro e he heq
    exact hafter (heq ▸ he)
  apply Runs.invariant_of_meets (I := fun s => Stopping w r (view s k)) _ h hmeets hrun
  intro s e t hs he hst
  rcases step_view hst he with ⟨-, heq⟩ | hm
  · rw [heq]
    exact ⟨rfl, hs.entered, hs.writes, hs.reads⟩
  · exact hs.move hm

/-- Until the driver creates the client's next thread the flag stays false, and the client
makes at most one more write and one more read. -/
def StaysStopped (iterations : ℕ) (s : System n) (k : Fin n) : Prop :=
  ∀ (after : List (Event n)) (t : System n), .create k ∉ after →
    Runs.run (step iterations) s after = some t →
      (view t k).alive = false ∧ (view t k).writes ≤ (view s k).writes + 1 ∧
        (view t k).reads ≤ (view s k).reads + 1

theorem step_stop {iterations : ℕ} {s t : System n} {k : Fin n}
    (h : step iterations s (.stop k) = some t) :
    t = { s.advance with
      threads := { s.threads with alive := Function.update s.threads.alive k false } } := by
  simp only [step, ClientThreads.step, Option.map_some] at h
  split_ifs at h
  exact (Option.some.inj h).symm

/-- When the driver stores false, in whatever state it does so, the client is stopped for good
if and only if its thread has already stored true. The thread stores true when it starts, which
may be after it was told to stop. -/
theorem staysStopped_iff_entered (iterations : ℕ) (s t : System n) (k : Fin n)
    (h : step iterations s (.stop k) = some t) :
    StaysStopped iterations t k ↔ s.threads.pc k ≠ .entry := by
  have ht := step_stop h
  have hpc : t.threads.pc k = s.threads.pc k := by rw [ht]
  have halive : t.threads.alive k = false := by simp [ht]
  constructor
  · -- a thread that has not started yet starts, and the flag is true again
    intro hstay hentry
    rw [← hpc] at hentry
    have henter : step iterations t (.client k .enter) = some { t with
        threads := { t.threads with
          alive := Function.update t.threads.alive k true
          pc := Function.update t.threads.pc k (.test 0) } } := by
      simp [step, ClientStep.action, ClientThreads.step, hentry]
    have hflag := (hstay [.client k .enter] _ (by simp)
      (Runs.run_cons.mpr ⟨_, henter, Runs.run_nil _⟩)).1
    simp [view] at hflag
  · intro hentered after u hafter hrun
    have hstopping : Stopping ((view t k).writes + 1) ((view t k).reads + 1) (view t k) := by
      have hpcne : (view t k).pc ≠ .entry := fun heq => hentered (hpc ▸ heq)
      refine ⟨halive, hpcne, ?_, ?_⟩
      · unfold writesLeft
        split <;> omega
      · unfold readsLeft
        split <;> omega
    have hu := hstopping.run hafter hrun
    have hw := hu.writes
    have hr := hu.reads
    exact ⟨hu.alive, by omega, by omega⟩

def startedSystem : System 1 :=
  (Runs.run (step 1) (init (fun _ => false) ∅)
    [.create 0, .client 0 .enter, .client 0 .test]).get rfl

theorem started_client_stays_stopped :
    ∃ t, step 1 startedSystem (.stop 0) = some t ∧ StaysStopped 1 t 0 :=
  ⟨_, rfl, (staysStopped_iff_entered 1 startedSystem _ 0 rfl).mpr (by decide)⟩

/-- The driver waits for the client, or for one before it, while the client goes on. -/
structure Overtaken (s : System n) (k : Fin n) : Prop where
  alive : s.threads.alive k = true
  entered : s.threads.pc k ≠ .entry
  running : s.threads.pc k ≠ .returned
  waits : ∃ j ≤ (k : ℕ), s.driver = .join j

theorem Overtaken.step {iterations : ℕ} {s t : System n} {k : Fin n} {e : Event n}
    (h : Overtaken s k) (hst : step iterations s e = some t) : Overtaken t k := by
  obtain ⟨j, hjk, hj⟩ := h.waits
  cases e with
  | create i => simp [Shutdown.step, hj] at hst
  | stop i => simp [Shutdown.step, hj] at hst
  | join i =>
    simp only [Shutdown.step, hj] at hst
    split_ifs at hst with hi
    obtain ⟨hij, hreturned⟩ := hi
    obtain rfl : j = i := by simpa using hij
    have hne : (i : ℕ) ≠ k := fun heq => h.running (Fin.ext heq ▸ hreturned)
    have hlt : (i : ℕ) < k := by omega
    have hnext : (i : ℕ) + 1 < n := by omega
    rw [← Option.some.inj hst]
    refine ⟨h.alive, h.entered, h.running, i + 1, hlt, ?_⟩
    simp [System.advance, DriverPc.next, hj, hnext]
  | client i c =>
    have hm : Move (view s k) (view t k) := (step_view hst (by simp)).resolve_left (by simp)
    simp only [Shutdown.step] at hst
    obtain ⟨u, hu, rfl⟩ := Option.map_eq_some_iff.mp hst
    have hclient : (view { s with threads := u } k).alive = true ∧
        (view { s with threads := u } k).pc ≠ .entry ∧
        (view { s with threads := u } k).pc ≠ .returned := by
      have halive : (view s k).alive = true := h.alive
      have hentered : (view s k).pc ≠ .entry := h.entered
      have hrunning : (view s k).pc ≠ .returned := h.running
      generalize view s k = v at hm halive hentered hrunning
      generalize view { s with threads := u } k = v' at hm
      cases hm with
      | stay => exact ⟨halive, hentered, hrunning⟩
      | enter a _ _ => exact absurd rfl hentered
      | test i a _ _ =>
        obtain rfl : a = true := halive
        simp
      | write i ok a _ _ => exact ⟨halive, by simp, by simp⟩
      | read i ok a _ _ => exact ⟨halive, by simp, by simp⟩
    exact ⟨hclient.1, hclient.2.1, hclient.2.2, j, hjk, hj⟩

theorem Overtaken.run {iterations : ℕ} {s t : System n} {k : Fin n} {after : List (Event n)}
    (h : Overtaken s k) (hrun : Runs.run (Shutdown.step iterations) s after = some t) :
    Overtaken t k := by
  have hmeets : Runs.Meets (Shutdown.step iterations) (fun _ _ => True) s after :=
    Runs.meets_of_forall s fun _ _ => trivial
  apply Runs.invariant_of_meets (I := fun s => Overtaken s k) _ h hmeets hrun
  intro s e t hs _ hst
  exact hs.step hst

def overtakenRun : List (Event 1) := [.create 0, .stop 0, .client 0 .enter]

/-- The flag is true again, the client makes a second pass, and the driver waits for a thread
that never returns. -/
theorem overtaken_client_never_stops :
    ∃ s, Runs.run (step 1) (init (fun _ => false) ∅) overtakenRun = some s ∧
      s.threads.alive 0 = true ∧
      (∃ t, Runs.run (step 1) s [.client 0 .test, .client 0 (.write .succeeded), .client 0 .read,
        .client 0 .test, .client 0 (.write .succeeded), .client 0 .read] = some t ∧
          (view t 0).writes = 2) ∧
      ∀ after t, Runs.run (step 1) s after = some t →
        t.threads.alive 0 = true ∧ t.threads.pc 0 ≠ .returned ∧ t.driver = .join 0 := by
  refine ⟨_, rfl, rfl, ⟨_, rfl, rfl⟩, ?_⟩
  intro after t hrun
  have h : Overtaken t 0 := Overtaken.run ⟨rfl, by decide, by decide, 0, le_rfl, rfl⟩ hrun
  obtain ⟨j, hj, hdriver⟩ := h.waits
  obtain rfl : j = 0 := by simpa using hj
  exact ⟨h.alive, h.running, hdriver⟩

end RaftMonitor.Shutdown
