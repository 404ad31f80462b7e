import RaftMonitor.ExactlyOnce
import RaftMonitor.RaftClients

namespace RaftMonitor.LogCabin

open ElectedLogs RaftSystem StateMachine

variable {n : ℕ}

def EntryType.command : EntryType n Command → Option Command
  | .data command => some command
  | _ => none

/-- There is no next entry as long as the thread of the state machine has to wait. -/
def RaftConsensus.getNextEntry (s : RaftConsensus n Command) (lastEntryId : ℕ) :
    Option Consensus.Entry :=
  let nextEntryId := lastEntryId + 1
  if s.commitIndex < nextEntryId then none
  else (s.log.getEntry nextEntryId).map fun logEntry => ⟨nextEntryId, logEntry.data.command⟩

def Log.entries (log : Log n Command) : List Consensus.Entry :=
  log.mapIdx fun k logEntry => ⟨k + 1, logEntry.data.command⟩

theorem Log.entries_concat (log : Log n Command) (logEntry : Log.Entry n Command) :
    Log.entries (log ++ [logEntry]) =
      Log.entries log ++ [⟨log.length + 1, logEntry.data.command⟩] := by
  unfold Log.entries
  rw [List.mapIdx_concat]

theorem Log.entries_isPrefix {log log' : Log n Command} (h : log <+: log') :
    Log.entries log <+: Log.entries log' := by
  obtain ⟨rest, rfl⟩ := h
  unfold Log.entries
  rw [List.mapIdx_append]
  exact List.prefix_append _ _

theorem Log.increasing_entries (log : Log n Command) : Increasing 0 (Log.entries log) := by
  unfold Increasing
  rw [List.pairwise_cons]
  constructor
  · intro m hm
    obtain ⟨k, hk, rfl⟩ := List.mem_iff_getElem.mp hm
    simp [Log.entries]
  · rw [List.pairwise_iff_getElem]
    intro i j hi hj hij
    simp only [Log.entries, List.getElem_map, List.getElem_mapIdx]
    omega

/-- The servers, each with the state machine that it has in memory. -/
structure Servers (n : ℕ) where
  raft : RaftSystem n Command
  machines : Fin n → StateMachine

namespace Servers

def init (start : Start n Command) : Servers n := ⟨RaftSystem.init start, fun _ => .new⟩

/-- Something happens in the consensus modules, or the thread of a state machine goes on with the
next entry. -/
inductive Event (n : ℕ)
  | raft (event : RaftSystem.Event n Command)
  | applyEntry (i : Fin n)

variable (size : Command → ℕ)

/-- The state machine of a server that starts again begins with the first entry. -/
def step (S : Servers n) : Event n → Option (Servers n)
  | .raft event => (S.raft.step size event).map fun raft => {
      raft
      machines :=
        match S.raft.stopped event with
        -- the state machine is only in memory
        | some i => Function.update S.machines i .new
        | none => S.machines }
  | .applyEntry i =>
    -- not enabled if the command is unknown, for the server then aborts
    ((S.raft.servers i).getNextEntry (S.machines i).lastEntryId).bind fun entry =>
      ((S.machines i).applyEntry entry).map fun sm =>
        { S with machines := Function.update S.machines i sm }

def Contiguous (S : Servers n) : Event n → Prop
  | .raft event => RaftSystem.Contiguous size S.raft event
  | .applyEntry _ => True

instance (S : Servers n) : DecidablePred (Contiguous size S)
  | .raft event => inferInstanceAs (Decidable (RaftSystem.Contiguous size S.raft event))
  | .applyEntry _ => isTrue trivial

def Reaches (S : Servers n) (events : List (Event n)) (S' : Servers n) : Prop :=
  Runs.run (step size) S events = some S' ∧ Runs.Meets (step size) (Contiguous size) S events

/-- The entries of the log of a server that its state machine has applied. -/
def applied (S : Servers n) (i : Fin n) : List Consensus.Entry :=
  Log.entries ((S.raft.servers i).log.take (S.machines i).lastEntryId)

/-- The state machine has applied entries that the server has committed, all from the first on. -/
def HasApplied (s : RaftConsensus n Command) (sm : StateMachine) : Prop :=
  sm.lastEntryId ≤ s.commitIndex ∧
    replay (Log.entries (s.log.take sm.lastEntryId)) = some sm

structure Inv (start : Start n Command) (S : Servers n)
    (G : World (Fin n) (EntryType n Command)) : Prop where
  rel : Rel start S.raft G
  accounted : Accounted S.raft G
  applied : ∀ i, HasApplied (S.raft.servers i) (S.machines i)

variable {size} {start : Start n Command} {S S' : Servers n}
  {G G' : World (Fin n) (EntryType n Command)} {s s' : RaftConsensus n Command}
  {sm sm' : StateMachine} {i j : Fin n}

theorem hasApplied_new (s : RaftConsensus n Command) : HasApplied s .new :=
  ⟨Nat.zero_le _, by rw [show StateMachine.new.lastEntryId = 0 from rfl, List.take_zero]; rfl⟩

theorem HasApplied.mono (h : HasApplied s sm) (hlength : s.commitIndex ≤ s.log.length)
    (hle : s.commitIndex ≤ s'.commitIndex)
    (hpre : s.log.take s.commitIndex <+: s'.log.take s'.commitIndex) : HasApplied s' sm := by
  refine ⟨h.1.trans hle, ?_⟩
  have htake := take_eq_of_le_length hpre (k := sm.lastEntryId) (by
    rw [List.length_take, min_eq_left hlength]
    exact h.1)
  rw [List.take_take, List.take_take, min_eq_left h.1, min_eq_left (h.1.trans hle)] at htake
  rw [htake]
  exact h.2

theorem HasApplied.next (h : HasApplied s sm) {entry : Consensus.Entry}
    (hentry : s.getNextEntry sm.lastEntryId = some entry)
    (happly : sm.applyEntry entry = some sm') : HasApplied s sm' := by
  unfold RaftConsensus.getNextEntry at hentry
  dsimp only at hentry
  split_ifs at hentry with hwait
  obtain ⟨logEntry, hlogEntry, rfl⟩ := Option.map_eq_some_iff.mp hentry
  rw [RaftConsensus.getEntry_succ] at hlogEntry
  have hlength := (List.getElem?_eq_some_iff.mp hlogEntry).1
  have hlast : sm'.lastEntryId = sm.lastEntryId + 1 := by
    obtain ⟨sm₁, -, rfl⟩ := Option.map_eq_some_iff.mp happly
    rfl
  refine ⟨hlast ▸ Nat.le_of_not_lt hwait, ?_⟩
  rw [hlast, List.take_add_one, hlogEntry, Option.toList_some, Log.entries_concat,
    List.length_take, min_eq_left hlength.le]
  have hreplay := h.2
  unfold replay at hreplay ⊢
  rw [Runs.run_append, hreplay, Option.bind_some, Runs.run_cons]
  exact ⟨sm', happly, rfl⟩

theorem inv_init (start : Start n Command) :
    Inv start (init start) (World.init start.setting start.terms start.votes) where
  rel := rel_init start
  accounted := accounted_init start _
  applied _ := hasApplied_new _

theorem Inv.raft (h : Inv start S G) {event : RaftSystem.Event n Command}
    (hcontiguous : RaftSystem.Contiguous size S.raft event)
    (hstep : step size S (.raft event) = some S') : ∃ G', Extends G G' ∧ Inv start S' G' := by
  obtain ⟨raft, hraft, rfl⟩ := Option.map_eq_some_iff.mp hstep
  obtain ⟨k, G', hmoves, hrel, hproceeds⟩ := h.rel.step hcontiguous hraft
  have hext := (h.rel.consistent.steps hmoves).2.1
  refine ⟨G', hext, hrel, h.accounted.proceeds h.rel hext hproceeds, fun i => ?_⟩
  have hkeeps : S.raft.stopped event ≠ some i → HasApplied (raft.servers i) (S.machines i) := by
    intro hne
    have hle := hproceeds.commitIndex_le hne
    exact (h.applied i).mono (h.rel.agrees i).committed.1 hle
      (h.rel.committed_isPrefix hrel hext hle)
  dsimp only
  cases hstopped : S.raft.stopped event with
  | none => exact hkeeps (by simp [hstopped])
  | some j =>
    dsimp only
    by_cases hij : i = j
    · subst hij
      rw [Function.update_self]
      exact hasApplied_new _
    · rw [Function.update_of_ne hij]
      exact hkeeps fun heq => hij (Option.some.inj (heq.symm.trans hstopped))

theorem Inv.step (h : Inv start S G) {event : Event n} (hcontiguous : Contiguous size S event)
    (hstep : step size S event = some S') : ∃ G', Extends G G' ∧ Inv start S' G' := by
  cases event with
  | raft event => exact h.raft hcontiguous hstep
  | applyEntry j =>
    obtain ⟨entry, hentry, hmap⟩ := Option.bind_eq_some_iff.mp hstep
    obtain ⟨sm, hsm, rfl⟩ := Option.map_eq_some_iff.mp hmap
    refine ⟨G, .refl G, h.rel, h.accounted, fun i => ?_⟩
    dsimp only
    by_cases hij : i = j
    · subst hij
      rw [Function.update_self]
      exact (h.applied i).next hentry hsm
    · rw [Function.update_of_ne hij]
      exact h.applied i

theorem Inv.run (h : Inv start S G) {events : List (Event n)} (hrun : Reaches size S events S') :
    ∃ G', Extends G G' ∧ Inv start S' G' := by
  refine Runs.invariant_of_meets (I := fun T => ∃ G', Extends G G' ∧ Inv start T G') ?_
    ⟨G, .refl G, h⟩ hrun.2 hrun.1
  rintro T event T' ⟨G₁, hext, hinv⟩ hcontiguous hstep
  obtain ⟨G₂, hext', hinv'⟩ := hinv.step hcontiguous hstep
  exact ⟨G₂, hext.trans hext', hinv'⟩

theorem inv_of_runs {before after : List (Event n)}
    (hbefore : Reaches size (init start) before S) (hafter : Reaches size S after S') :
    ∃ G G', Inv start S G ∧ Inv start S' G' ∧ Extends G G' := by
  obtain ⟨G, -, hinv⟩ := (inv_init start).run hbefore
  obtain ⟨G', hext, hinv'⟩ := hinv.run hafter
  exact ⟨G, G', hinv, hinv', hext⟩

theorem Inv.chosen (h : Inv start S G) (i : Fin n) :
    Chosen G (S.raft.servers i).currentTerm
      ((S.raft.servers i).log.take (S.machines i).lastEntryId) :=
  (h.rel.agrees i).committed.2.anti (List.take_prefix_take_left (h.applied i).1)

theorem Inv.length_applied (h : Inv start S G) (i : Fin n) :
    ((S.raft.servers i).log.take (S.machines i).lastEntryId).length =
      (S.machines i).lastEntryId := by
  rw [List.length_take, min_eq_left ((h.applied i).1.trans (h.rel.agrees i).committed.1)]

/-- The first state machine reaches the state of the second with what the second has applied beyond
it. -/
def CatchesUp (S : Servers n) (i : Fin n) (S' : Servers n) (j : Fin n) : Prop :=
  S.applied i <+: S'.applied j ∧
    Runs.run applyEntry (S.machines i) ((S'.applied j).drop (S.machines i).lastEntryId) =
      some (S'.machines j)

theorem Inv.catchesUp (h : Inv start S G) (h' : Inv start S' G')
    (hpre : (S.raft.servers i).log.take (S.machines i).lastEntryId <+:
      (S'.raft.servers j).log.take (S'.machines j).lastEntryId) : CatchesUp S i S' j := by
  have hentries : S.applied i <+: S'.applied j := Log.entries_isPrefix hpre
  refine ⟨hentries, ?_⟩
  obtain ⟨rest, hrest⟩ := hentries
  have hlength : (S.applied i).length = (S.machines i).lastEntryId := by
    unfold Servers.applied Log.entries
    rw [List.length_mapIdx, h.length_applied i]
  have hreplay : replay (S.applied i) = some (S.machines i) := (h.applied i).2
  have hreplay' : replay (S'.applied j) = some (S'.machines j) := (h'.applied j).2
  rw [← hrest, ← hlength, List.drop_left]
  unfold replay at hreplay hreplay'
  rwa [← hrest, Runs.run_append, hreplay, Option.bind_some] at hreplay'

theorem Inv.catchesUp_of_le (h : Inv start S G) (h' : Inv start S' G') (hext : Extends G G') :
    ((S.machines i).lastEntryId ≤ (S'.machines j).lastEntryId → CatchesUp S i S' j) ∧
      ((S'.machines j).lastEntryId ≤ (S.machines i).lastEntryId → CatchesUp S' j S i) := by
  have hcomparable := h'.rel.consistent.chosen_comparable ((h.chosen i).mono hext le_rfl)
    (h'.chosen j)
  have hlength := h.length_applied i
  have hlength' := h'.length_applied j
  -- lists of which one begins with the other are ordered by their lengths
  constructor
  · intro hle
    rcases hcomparable with hpre | hpre
    · exact h.catchesUp h' hpre
    · exact h.catchesUp h' (hpre.eq_of_length_le (by omega) ▸ List.prefix_rfl)
  · intro hle
    rcases hcomparable with hpre | hpre
    · exact h'.catchesUp h (hpre.eq_of_length_le (by omega) ▸ List.prefix_rfl)
    · exact h'.catchesUp h hpre

/-- A state machine is in the state after the first committed entries of its server, and of two,
at whatever times, the one that has applied less reaches the state of the other with the committed
entries that it has not applied. -/
theorem machines_agree (start : Start n Command) (before after : List (Event n))
    (S S' : Servers n) (hbefore : Reaches size (init start) before S)
    (hafter : Reaches size S after S') (i j : Fin n) :
    (S.machines i).lastEntryId ≤ (S.raft.servers i).commitIndex ∧
    replay (S.applied i) = some (S.machines i) ∧
    ((S.machines i).lastEntryId ≤ (S'.machines j).lastEntryId → CatchesUp S i S' j) ∧
    ((S'.machines j).lastEntryId ≤ (S.machines i).lastEntryId → CatchesUp S' j S i) := by
  obtain ⟨G, G', hinv, hinv', hext⟩ := inv_of_runs hbefore hafter
  obtain ⟨hle, hreplay⟩ := hinv.applied i
  exact ⟨hle, hreplay, hinv.catchesUp_of_le hinv' hext⟩

def sampleEvents (i j : Fin n) : List (Event n) :=
  ([.timeout i, .sendRequestVote i j, .handleRequest 0 false, .handleReply i j 0,
    .replicate i ⟨some 5, true, none⟩,
    .replicate i ⟨some 6, false, some (⟨3, 1, 1⟩, ⟨none, none, none, some (['/', 'f'], ['1']),
      none⟩)⟩,
    .sendAppendEntries i j, .handleRequest 1 false, .handleReply i j 1,
    .sendAppendEntries i j, .handleRequest 2 false, .handleReply i j 2, .takeSync i,
    .syncComplete i, .replicated 0, .replicated 0, .upToDateLeader i, .sendAppendEntries i j,
    .handleRequest 3 false, .handleReply i j 3, .upToDate 0].map Event.raft) ++
  [.applyEntry i, .applyEntry i, .applyEntry i, .applyEntry i, .applyEntry j, .applyEntry j,
    .applyEntry j, .applyEntry j]

theorem sample_machines : ∃ S : Servers 3,
    Reaches (fun _ => 1) (init sampleStart) (sampleEvents 0 1) S ∧
    S.raft.readResults = [(2, 4)] ∧ (S.machines 0).lastEntryId = 4 ∧
    (S.machines 1).lastEntryId = 4 ∧ ((S.machines 0).getResponse ⟨3, 1, 1⟩).isSome ∧
    ((S.machines 1).getResponse ⟨3, 1, 1⟩).isSome := by
  have hrun : ((Runs.run (step fun _ => 1) (init sampleStart) (sampleEvents (0 : Fin 3) 1)).map
      fun S => (S.raft.readResults, (S.machines 0).lastEntryId, (S.machines 1).lastEntryId,
        ((S.machines 0).getResponse ⟨3, 1, 1⟩).isSome,
        ((S.machines 1).getResponse ⟨3, 1, 1⟩).isSome)) =
      some ([(2, 4)], 4, 4, true, true) := by
    decide +kernel
  obtain ⟨S, hS, hfacts⟩ := Option.map_eq_some_iff.mp hrun
  simp only [Prod.mk.injEq] at hfacts
  exact ⟨S, ⟨hS, by decide +kernel⟩, hfacts⟩

theorem sample_machines_agree : ∃ S : Servers 3, (S.machines 1).lastEntryId = 4 ∧
    CatchesUp S 0 S 1 ∧ CatchesUp S 1 S 0 := by
  obtain ⟨S, hS, -, hlast, hlast', -⟩ := sample_machines
  obtain ⟨-, -, hfirst, hsecond⟩ := machines_agree _ _ [] S S hS ⟨rfl, trivial⟩ 0 1
  exact ⟨S, hlast', hfirst (by omega), hsecond (by omega)⟩

theorem HasApplied.inv (h : HasApplied s sm) : ∃ seen last, StateMachine.Inv seen last sm := by
  obtain ⟨last, hinv⟩ := inv_replay (Log.increasing_entries _) h.2
  exact ⟨_, last, hinv⟩

theorem response_eq_of_run {entries : List Consensus.Entry}
    (hrun : Runs.run applyEntry sm entries = some sm') {seen seen' last last'}
    (hinv : StateMachine.Inv seen last sm) (hinv' : StateMachine.Inv seen' last' sm')
    {rpcInfo : ExactlyOnceRPCInfo} {response response' : ReadWriteTree.Response}
    (hresponse : sm.getResponse rpcInfo = some response)
    (hresponse' : sm'.getResponse rpcInfo = some response') : response = response' := by
  obtain ⟨x, hx, hclient, hnumber, rfl⟩ := hinv.getResponse hresponse
  obtain ⟨y, hy, hclient', hnumber', rfl⟩ := hinv'.getResponse hresponse'
  have hx' : x ∈ sm'.executed := (executed_run hrun).subset hx
  have hxy : x = y := List.inj_on_of_nodup_map hinv'.once hx' hy
    (Prod.ext (hclient.trans hclient'.symm) (hnumber.trans hnumber'.symm))
  rw [hxy]

/-- Whichever server a client asks, and however often, a call has one response. -/
theorem responses_agree (start : Start n Command) (before after : List (Event n))
    (S S' : Servers n) (hbefore : Reaches size (init start) before S)
    (hafter : Reaches size S after S') (i j : Fin n)
    (rpcInfo : ExactlyOnceRPCInfo) (response response' : ReadWriteTree.Response)
    (hresponse : (S.machines i).getResponse rpcInfo = some response)
    (hresponse' : (S'.machines j).getResponse rpcInfo = some response') :
    response = response' := by
  obtain ⟨G, G', h, h', hext⟩ := inv_of_runs hbefore hafter
  obtain ⟨seen, last, hinv⟩ := (h.applied i).inv
  obtain ⟨seen', last', hinv'⟩ := (h'.applied j).inv
  obtain ⟨hfirst, hsecond⟩ := h.catchesUp_of_le (i := i) (j := j) h' hext
  rcases le_total (S.machines i).lastEntryId (S'.machines j).lastEntryId with hle | hle
  · exact response_eq_of_run (hfirst hle).2 hinv hinv' hresponse hresponse'
  · exact (response_eq_of_run (hsecond hle).2 hinv' hinv hresponse' hresponse).symm

theorem sample_responses_agree : ∃ S : Servers 3, ∃ response,
    (S.machines 0).getResponse ⟨3, 1, 1⟩ = some response ∧
    (S.machines 1).getResponse ⟨3, 1, 1⟩ = some response := by
  obtain ⟨S, hS, -, -, -, hfirst, hsecond⟩ := sample_machines
  obtain ⟨response, hresponse⟩ := Option.isSome_iff_exists.mp hfirst
  obtain ⟨response', hresponse'⟩ := Option.isSome_iff_exists.mp hsecond
  have heq := responses_agree _ _ [] S S hS ⟨rfl, trivial⟩ 0 1 _ _ _ hresponse hresponse'
  exact ⟨S, response, hresponse, heq ▸ hresponse'⟩

theorem Inv.acknowledged (h : Inv start S G) {t : ℕ} {r : ℕ × Command}
    (hacknowledged : Acknowledged G t r) (hle : r.1 ≤ (S.machines i).lastEntryId) :
    (S.applied i)[r.1 - 1]? = some ⟨r.1, some r.2⟩ := by
  have hget := hacknowledged.getEntry h.rel.consistent (h.chosen i)
    (by rw [h.length_applied i]; exact hle)
  obtain ⟨logEntry, hlogEntry, hdata⟩ := Option.map_eq_some_iff.mp hget
  unfold Log.getEntry at hlogEntry
  split_ifs at hlogEntry with hzero
  unfold Servers.applied Log.entries
  rw [List.getElem?_mapIdx, hlogEntry, Option.map_some, hdata, Nat.sub_add_cancel (by omega)]
  rfl

/-- A read waits until the state machine has come as far as `getLastCommittedId` said. It then sees
every command for which `replicate` had returned before the read began, at whatever server. -/
theorem read_sees_replicated (start : Start n Command) (events : List (Event n)) (S : Servers n)
    (hrun : Reaches size (init start) events S) (acknowledged commitIndex : ℕ)
    (hread : (acknowledged, commitIndex) ∈ S.raft.readResults) (i : Fin n)
    (hwait : commitIndex ≤ (S.machines i).lastEntryId) :
    replay (S.applied i) = some (S.machines i) ∧
    ∀ k < acknowledged, ∃ index command, S.raft.results[k]? = some (index, command) ∧
      (S.applied i)[index - 1]? = some ⟨index, some command⟩ := by
  obtain ⟨G, -, h⟩ := (inv_init start).run hrun
  refine ⟨(h.applied i).2, fun k hk => ?_⟩
  obtain ⟨r, hr, hle⟩ := h.accounted.read_covers hread hk
  obtain ⟨t, hacknowledged⟩ := h.accounted.results r (List.mem_of_getElem? hr)
  exact ⟨r.1, r.2, hr, h.acknowledged hacknowledged (hle.trans hwait)⟩

theorem sample_read_sees : ∃ S : Servers 3, (2, 4) ∈ S.raft.readResults ∧
    ∃ index command, S.raft.results[1]? = some (index, command) ∧
      (S.applied 1)[index - 1]? = some ⟨index, some command⟩ := by
  obtain ⟨S, hS, hreads, -, hlast, -⟩ := sample_machines
  have hmem : (2, 4) ∈ S.raft.readResults := by simp [hreads]
  obtain ⟨-, hsees⟩ := read_sees_replicated _ _ S hS 2 4 hmem 1 hlast.ge
  exact ⟨S, hmem, hsees 1 Nat.one_lt_two⟩

end Servers

end RaftMonitor.LogCabin
