import RaftMonitor.RaftSafety

namespace RaftMonitor.LogCabin

open ElectedLogs RaftConsensus

variable {n : ℕ} {Op : Type}

namespace RaftConsensus

def entryBytes (size : Op → ℕ) (entry : Log.Entry n Op) : ℕ :=
  delimited (entrySize size entry)

theorem requestSize_append (size : Op → ℕ) (request : Raft.AppendEntries n Op)
    (entries : Log n Op) :
    requestSize size { request with entries := request.entries ++ entries } =
      requestSize size request + (entries.map (entryBytes size)).sum := by
  unfold requestSize entryBytes
  rw [List.map_append, List.sum_append]
  dsimp only
  omega

theorem packEntries_of_fits {size : Op → ℕ} {request : Raft.AppendEntries n Op} {rest : Log n Op}
    (h : requestSize size { request with entries := request.entries ++ rest } < softRPCSizeLimit) :
    packEntries size request rest = { request with entries := request.entries ++ rest } := by
  induction rest generalizing request with
  | nil => simp [packEntries]
  | cons entry rest ih =>
    have hall : requestSize size { { request with entries := request.entries ++ [entry] } with
        entries := request.entries ++ [entry] ++ rest } < softRPCSizeLimit := by
      simpa using h
    have hfits : requestSize size { request with entries := request.entries ++ [entry] } <
        softRPCSizeLimit := by
      have hsum := requestSize_append size
        { request with entries := request.entries ++ [entry] } rest
      dsimp only at hsum
      rw [hsum] at hall
      omega
    unfold packEntries
    dsimp only
    rw [if_pos (.inl hfits), ih hall]
    simp

theorem requestSize_lt {size : Op → ℕ} {request : Raft.AppendEntries n Op}
    (hnil : request.entries = []) {entries : Log n Op}
    (h : (entries.map (entryBytes size)).sum + 55 < softRPCSizeLimit) :
    requestSize size { request with entries := request.entries ++ entries } < softRPCSizeLimit := by
  have hlength := WireBytes.length_varintBytes_le 10
  rw [requestSize_append]
  unfold requestSize
  rw [hnil, List.map_nil, List.sum_nil]
  have h₁ := hlength (request.serverId + 1)
  have h₂ := hlength (request.recipientId + 1)
  have h₃ := hlength request.term
  have h₄ := hlength request.prevLogIndex
  have h₅ := hlength request.prevLogTerm
  omega

theorem entries_prefix_packEntries (size : Op → ℕ) (request : Raft.AppendEntries n Op)
    (rest : Log n Op) : request.entries <+: (packEntries size request rest).entries := by
  induction rest generalizing request with
  | nil => exact List.prefix_rfl
  | cons entry rest ih =>
    unfold packEntries
    dsimp only
    split_ifs
    · have hlonger := ih { request with entries := request.entries ++ [entry] }
      exact (List.prefix_append _ _).trans hlonger
    · exact ih request

theorem packEntries_gap {size : Op → ℕ} (request : Raft.AppendEntries n Op)
    {a b c : Log.Entry n Op} (rest : Log n Op) (hnil : request.entries = [])
    (hb : softRPCSizeLimit ≤ requestSize size { request with entries := [a, b] })
    (hc : requestSize size { request with entries := [a, c] } < softRPCSizeLimit) :
    [a, c] <+: (packEntries size request (a :: b :: c :: rest)).entries := by
  obtain ⟨serverId, recipientId, term, prevLogTerm, prevLogIndex, entries, commitIndex⟩ := request
  dsimp only at hnil
  subst hnil
  -- the first entry is always sent, the second is left out, the third fits again
  rw [packEntries, if_pos (.inr rfl), packEntries, if_neg, packEntries, if_pos (.inl hc)]
  · exact entries_prefix_packEntries size
      ⟨serverId, recipientId, term, prevLogTerm, prevLogIndex, [a, c], commitIndex⟩ rest
  · rintro (hlt | hne)
    · exact absurd hb (Nat.not_le_of_lt hlt)
    · simp at hne

theorem packEntries_sublist (size : Op → ℕ) (request : Raft.AppendEntries n Op) (rest : Log n Op) :
    (packEntries size request rest).entries.Sublist (request.entries ++ rest) := by
  induction rest generalizing request with
  | nil => simp [packEntries]
  | cons entry rest ih =>
    unfold packEntries
    dsimp only
    split_ifs
    · have hlonger := ih { request with entries := request.entries ++ [entry] }
      simpa using hlonger
    · exact (ih request).trans ((List.sublist_cons_self entry rest).append_left _)

theorem getEntry_length (l : Log n Op) (tail : Log n Op) :
    l.length = 0 ∨ (Log.getEntry (l ++ tail) l.length).map (·.term) = some (lastTerm l) := by
  rcases List.eq_nil_or_concat' l with rfl | ⟨l, e, rfl⟩
  · exact .inl rfl
  · refine .inr ?_
    rw [List.length_append, List.length_singleton, getEntry_succ, lastTerm_append_singleton]
    simp

theorem appendEntries_eq (size : Op → ℕ) {s : RaftConsensus n Op} {j : Fin n} {l tail : Log n Op}
    (hlog : s.log = l ++ tail) (hnext : (s.peers j).nextIndex = l.length + 1)
    (hforce : (s.peers j).forceHeartbeat = false) :
    s.appendEntries size j =
      let request := packEntries size
        ⟨s.serverId, j, s.currentTerm, lastTerm l, l.length, [], 0⟩ tail
      some { request with
        commitIndex := min s.commitIndex (l.length + request.entries.length) } := by
  have hterm : (if l.length = 0 then some 0 else (s.log.getEntry l.length).map (·.term)) =
      some (lastTerm l) := by
    rcases getEntry_length l tail with hzero | hterm
    · rw [if_pos hzero, List.length_eq_zero_iff.mp hzero]
      rfl
    · split_ifs with hzero
      · rw [List.length_eq_zero_iff.mp hzero]
        rfl
      · rw [hlog]
        exact hterm
  have hdrop : s.log.drop l.length = tail := by rw [hlog, List.drop_left]
  unfold appendEntries
  dsimp only
  rw [hnext, Nat.add_sub_cancel, if_neg (by rw [hlog]; simp), hterm, Option.map_some, hforce, hdrop]
  rfl

theorem SimpleConfiguration.quorumMin_le (servers : List (Fin n)) {getValue : Fin n → ℕ}
    {bound : ℕ} (h : ∀ i, getValue i ≤ bound) : quorumMin servers getValue ≤ bound := by
  unfold quorumMin
  rw [List.getD_eq_getElem?_getD]
  cases hget : ((servers.map getValue).insertionSort (· ≤ ·))[(servers.length - 1) / 2]? with
  | none => exact Nat.zero_le _
  | some value =>
    have hmem := (List.mem_insertionSort _).mp (List.mem_of_getElem? hget)
    obtain ⟨i, -, rfl⟩ := List.mem_map.mp hmem
    exact h i

theorem Configuration.quorumMin_le (c : Configuration n) {getValue : Fin n → ℕ} {bound : ℕ}
    (h : ∀ i, getValue i ≤ bound) : c.quorumMin getValue ≤ bound := by
  unfold Configuration.quorumMin
  split_ifs
  · exact SimpleConfiguration.quorumMin_le _ h
  · exact (min_le_left _ _).trans (SimpleConfiguration.quorumMin_le _ h)

theorem committedConfiguration_peers {s : RaftConsensus n Op} (hpos : 0 < s.currentTerm) :
    ∃ s', s.committedConfiguration = some s' ∧ s'.peers = s.peers := by
  unfold committedConfiguration
  split_ifs
  · exact ⟨s, rfl, rfl⟩
  · exact ⟨_, stepDown_eq (Nat.le_succ _), rfl⟩
  · exact ⟨_, append_eq (by simpa using hpos), rfl⟩
  · exact ⟨s, rfl, rfl⟩

theorem advanceCommittedId_peers {s : RaftConsensus n Op}
    (h : ∀ i, s.getLastAgreeIndex i ≤ s.log.length) (hpos : ∀ e ∈ s.log, 0 < e.term) :
    ∃ s', s.advanceCommittedId = some s' ∧ s'.peers = s.peers := by
  have hle := s.configuration.quorumMin_le h
  unfold advanceCommittedId
  dsimp only
  split_ifs with hstate hcommit
  · exact ⟨s, rfl, rfl⟩
  · exact ⟨s, rfl, rfl⟩
  · obtain ⟨k, hk⟩ : ∃ k, s.configuration.quorumMin s.getLastAgreeIndex = k + 1 :=
      Nat.exists_eq_succ_of_ne_zero (by omega)
    rw [hk] at hle ⊢
    rw [getEntry_succ, List.getElem?_eq_getElem hle, Option.bind_some]
    split_ifs with hterm
    · exact ⟨s, rfl, rfl⟩
    · have hcurrent : 0 < s.currentTerm := not_not.mp hterm ▸ hpos _ (List.getElem_mem hle)
      exact committedConfiguration_peers hcurrent

theorem appendEntriesReply_success {s : RaftConsensus n Op} (j : Fin n) (epoch : ℕ)
    {request : Raft.AppendEntries n Op} (hstate : s.state = .leader)
    (hterm : request.term = s.currentTerm) (hpos : ∀ e ∈ s.log, 0 < e.term)
    (hagree : ∀ i, s.getLastAgreeIndex i ≤ s.log.length)
    (hlen : request.prevLogIndex + request.entries.length ≤ s.log.length) :
    ∃ s', s.appendEntriesReply j epoch request s.currentTerm true = some s' ∧
      request.prevLogIndex + request.entries.length ≤ (s'.peers j).lastAgreeIndex := by
  unfold appendEntriesReply
  rw [if_neg (not_not.mpr hterm.symm), if_neg (not_not.mpr hstate), if_neg (lt_irrefl _),
    if_neg (not_not.mpr rfl)]
  dsimp only
  rw [if_pos rfl]
  split_ifs with hback
  · refine ⟨_, rfl, ?_⟩
    simpa using hback.le
  · have hagree' : ∀ i, (s.setPeer j { s.peers j with
        lastAckEpoch := epoch
        lastAgreeIndex := request.prevLogIndex + request.entries.length }).getLastAgreeIndex i ≤
        s.log.length := by
      intro i
      have hi := hagree i
      unfold getLastAgreeIndex setPeer at *
      dsimp only
      by_cases hself : i = s.serverId
      · rwa [if_pos hself] at hi ⊢
      · rw [if_neg hself] at hi ⊢
        by_cases hij : i = j
        · subst hij
          simpa using hlen
        · rwa [Function.update_of_ne hij]
    obtain ⟨s₁, hs₁, hpeers⟩ := advanceCommittedId_peers hagree' hpos
    rw [hs₁]
    refine ⟨_, rfl, ?_⟩
    simp [hpeers]

theorem handleAppendEntries_append {f : RaftConsensus n Op} (request : Raft.AppendEntries n Op)
    (hterm : f.currentTerm = request.term)
    (hleader : f.leaderId = none ∨ f.leaderId = some request.serverId)
    (hlength : request.prevLogIndex = f.log.length) (hprev : request.prevLogTerm = lastTerm f.log)
    (hne : request.entries ≠ []) (hpos : ∀ e ∈ request.entries, 0 < e.term)
    (hcommit : request.commitIndex ≤ f.log.length + request.entries.length) :
    ∃ f', f.handleAppendEntries request = some (f', .appendEntries request.term true) ∧
      f'.log = f.log ++ request.entries := by
  set f₁ : RaftConsensus n Op := { f with
    state := .follower
    leaderId := some request.serverId
    logSyncQueued := false } with hf₁
  have haccept : f.acceptLeader request = some f₁ := by
    unfold acceptLeader
    rw [stepDown_eq hterm.le, Option.bind_some]
    unfold hailLeader
    rcases hleader with hnone | hsome
    · simp [hf₁, hterm, hnone]
    · simp [hf₁, hterm, hsome]
  have hmatch : f₁.matchesPrevious request = true := by
    refine decide_eq_true ⟨hlength.le, ?_⟩
    rw [hlength, hprev]
    have hend := getEntry_length f.log []
    rwa [List.append_nil] at hend
  have hmerge : mergeEntries f₁.commitIndex f₁.log (request.prevLogIndex + 1) request.entries =
      some (f.log, request.entries) := by
    obtain ⟨entry, rest, hcons⟩ := List.exists_cons_of_ne_nil hne
    rw [hcons, mergeEntries, if_neg]
    rw [hlength]
    exact Nat.not_succ_le_self _
  have happend : RaftConsensus.append { f₁ with log := f.log } request.entries = some { f₁ with
      log := f.log ++ request.entries
      logSyncQueued := f₁.logSyncQueued || f₁.state = .leader } := append_eq hpos
  unfold handleAppendEntries
  rw [if_neg hterm.not_gt, haccept]
  dsimp only
  rw [Option.bind_some, hmatch, if_neg hterm.not_lt, if_neg (by decide), hmerge,
    Option.bind_some]
  dsimp only
  rw [if_neg hne, happend, Option.bind_some, ← hterm]
  unfold setCommitIndex
  dsimp only
  split_ifs with hlt hlen
  · exact ⟨_, rfl, rfl⟩
  · rw [List.length_append] at hlen
    exact absurd hcommit hlen
  · exact ⟨_, rfl, rfl⟩

/-- If the second of three entries does not fit into a request and the third does, a follower that
lacks all three stores the third in the place of the second, and the leader counts it as agreeing
with its own log up to there. -/
theorem gap_breaks_agreement (size : Op → ℕ) (s f : RaftConsensus n Op) (j : Fin n)
    (l rest : Log n Op) (a b c : Log.Entry n Op) (hstate : s.state = .leader)
    (hlog : s.log = l ++ a :: b :: c :: rest) (hpos : ∀ e ∈ s.log, 0 < e.term)
    (hagree : ∀ i, s.getLastAgreeIndex i ≤ s.log.length)
    (hnext : (s.peers j).nextIndex = l.length + 1) (hforce : (s.peers j).forceHeartbeat = false)
    (hb : softRPCSizeLimit ≤ requestSize size
      ⟨s.serverId, j, s.currentTerm, lastTerm l, l.length, [a, b], 0⟩)
    (hc : requestSize size ⟨s.serverId, j, s.currentTerm, lastTerm l, l.length, [a, c], 0⟩ <
      softRPCSizeLimit)
    (hf : f.log = l) (hterm : f.currentTerm = s.currentTerm)
    (hleader : f.leaderId = none ∨ f.leaderId = some s.serverId) :
    ∃ request f', s.appendEntries size j = some request ∧
      f.handleAppendEntries request = some (f', .appendEntries s.currentTerm true) ∧
      s.log[l.length + 1]? = some b ∧ f'.log[l.length + 1]? = some c ∧
      ∀ epoch, ∃ s', s.appendEntriesReply j epoch request s.currentTerm true = some s' ∧
        l.length + 2 ≤ (s'.peers j).lastAgreeIndex := by
  obtain ⟨entries, hentries⟩ := packEntries_prevLogIndex size
    (⟨s.serverId, j, s.currentTerm, lastTerm l, l.length, [], 0⟩ : Raft.AppendEntries n Op)
    (a :: b :: c :: rest)
  have hgap : [a, c] <+: entries := by
    have hpack := packEntries_gap
      ⟨s.serverId, j, s.currentTerm, lastTerm l, l.length, [], 0⟩ rest rfl hb hc
    rwa [hentries] at hpack
  have hsub : entries.Sublist (a :: b :: c :: rest) := by
    have hpack := packEntries_sublist size
      (⟨s.serverId, j, s.currentTerm, lastTerm l, l.length, [], 0⟩ : Raft.AppendEntries n Op)
      (a :: b :: c :: rest)
    rwa [hentries] at hpack
  have hlen : 2 ≤ entries.length := hgap.length_le
  have hbound : l.length + entries.length ≤ s.log.length := by
    rw [hlog, List.length_append]
    exact Nat.add_le_add_left hsub.length_le _
  have happend := appendEntries_eq size hlog hnext hforce
  rw [hentries] at happend
  obtain ⟨f', hhandle, hf'⟩ := handleAppendEntries_append
    ⟨s.serverId, j, s.currentTerm, lastTerm l, l.length, entries,
      min s.commitIndex (l.length + entries.length)⟩ hterm hleader (by rw [hf]) (by rw [hf])
    (by rintro rfl; simp at hlen)
    (fun e he => hpos e (by rw [hlog]; exact List.mem_append_right _ (hsub.subset he)))
    (by rw [hf]; exact min_le_right _ _)
  refine ⟨_, f', happend, hhandle, by simp [hlog], ?_, fun epoch => ?_⟩
  · have hsecond : entries[1]? = some c := prefix_getElem? hgap rfl
    rw [hf', hf, List.getElem?_append_right (by omega)]
    simpa using hsecond
  · obtain ⟨s', hreply, hagreed⟩ := appendEntriesReply_success j epoch hstate
      (show (⟨s.serverId, j, s.currentTerm, lastTerm l, l.length, entries,
        min s.commitIndex (l.length + entries.length)⟩ : Raft.AppendEntries n Op).term =
          s.currentTerm from rfl) hpos hagree hbound
    exact ⟨s', hreply, le_trans (Nat.add_le_add_left hlen _) hagreed⟩

def sampleLeader (i : Fin n) : RaftConsensus n ℕ :=
  { init i 1 (some i) (RaftSystem.sampleStart.log ++
      [⟨1, .data 10⟩, ⟨1, .data 1048576⟩, ⟨1, .data 11⟩]) with
    state := .leader
    peers := fun _ => ⟨true, true, false, 2, 0, 0, none⟩ }

theorem sample_gap : ∃ request f', (sampleLeader (0 : Fin 2)).appendEntries id 1 = some request ∧
    (init (1 : Fin 2) 1 (some 0) RaftSystem.sampleStart.log).handleAppendEntries request =
      some (f', .appendEntries 1 true) ∧
    (sampleLeader (0 : Fin 2)).log[2]? = some ⟨1, .data 1048576⟩ ∧
    f'.log[2]? = some ⟨1, .data 11⟩ ∧
    ∃ s', (sampleLeader (0 : Fin 2)).appendEntriesReply 1 0 request 1 true = some s' ∧
      3 ≤ (s'.peers 1).lastAgreeIndex := by
  obtain ⟨request, f', hrequest, hhandle, hs, hf, hreply⟩ := gap_breaks_agreement id
    (sampleLeader (0 : Fin 2)) (init 1 1 (some 0) RaftSystem.sampleStart.log) 1
    RaftSystem.sampleStart.log [] ⟨1, .data 10⟩ ⟨1, .data 1048576⟩ ⟨1, .data 11⟩ rfl rfl
    (by decide) (by decide) rfl rfl (by decide +kernel) (by decide +kernel) rfl rfl (.inl rfl)
  exact ⟨request, f', hrequest, hhandle, hs, hf, hreply 0⟩

/-- As long as the entries that a peer may lack are small together, a request has all of them,
or none if it is a heartbeat. -/
theorem small_backlog_sent_whole (size : Op → ℕ) (s : RaftConsensus n Op) (j : Fin n)
    (hnext : 0 < (s.peers j).nextIndex ∧ (s.peers j).nextIndex ≤ s.log.length + 1)
    (hsmall : ((s.log.drop ((s.peers j).nextIndex - 1)).map (entryBytes size)).sum + 55 <
      softRPCSizeLimit) :
    ∃ request, s.appendEntries size j = some request ∧
      request.prevLogIndex + 1 = (s.peers j).nextIndex ∧
      request.entries = (if (s.peers j).forceHeartbeat then []
        else s.log.drop request.prevLogIndex) ∧ Contiguous size s j := by
  obtain ⟨k, hk⟩ := Nat.exists_eq_succ_of_ne_zero hnext.1.ne'
  rw [hk, Nat.succ_sub_one] at hsmall
  have hlen : k ≤ s.log.length := by omega
  have hprev : ∃ t, (if k = 0 then some 0 else (s.log.getEntry k).map (·.term)) = some t := by
    split_ifs with hzero
    · exact ⟨0, rfl⟩
    · obtain ⟨m, rfl⟩ := Nat.exists_eq_succ_of_ne_zero hzero
      rw [getEntry_succ, List.getElem?_eq_getElem hlen]
      exact ⟨_, rfl⟩
  obtain ⟨prevLogTerm, hprev⟩ := hprev
  have hbound : ¬((s.peers j).nextIndex = 0 ∨ s.log.length < (s.peers j).nextIndex - 1) := by
    omega
  have hentries : ∃ request, s.appendEntries size j = some request ∧ request.prevLogIndex = k ∧
      request.entries = if (s.peers j).forceHeartbeat then [] else s.log.drop k := by
    unfold appendEntries
    dsimp only
    rw [if_neg hbound, hk, Nat.succ_sub_one, hprev, Option.map_some]
    refine ⟨_, rfl, ?_⟩
    cases (s.peers j).forceHeartbeat with
    | true => exact ⟨rfl, rfl⟩
    | false =>
      rw [if_neg Bool.false_ne_true, packEntries_of_fits (requestSize_lt rfl hsmall)]
      exact ⟨rfl, rfl⟩
  obtain ⟨request, heq, rfl, hsent⟩ := hentries
  refine ⟨request, heq, hk.symm, hsent, fun request' heq' => ?_⟩
  obtain rfl := Option.some.inj (heq.symm.trans heq')
  rw [hsent]
  split_ifs
  · exact List.nil_prefix
  · exact List.prefix_rfl

theorem sample_small_backlog :
    ((sampleLeader (0 : Fin 2)).appendEntries (fun _ => 1) 1).map (·.entries) =
      some [⟨1, .data 10⟩, ⟨1, .data 1048576⟩, ⟨1, .data 11⟩] := by
  obtain ⟨request, hrequest, hprev, hentries, -⟩ := small_backlog_sent_whole (fun _ => 1)
    (sampleLeader (0 : Fin 2)) 1 (by decide) (by decide +kernel)
  rw [hrequest, Option.map_some, hentries, Nat.succ.inj hprev]
  rfl

end RaftConsensus

namespace RaftSystem

def sampleGap (i j : Fin n) : List (Event n ℕ) :=
  [.sendAppendEntries i j, .handleRequest 1 false, .handleReply i j 1, .replicate i 1048576,
    .replicate i 11, .sendAppendEntries i j, .handleRequest 2 false, .handleReply i j 2,
    .takeSync i, .syncComplete i, .sendAppendEntries i j, .handleRequest 3 false]

/-- With a gap, two servers hold different entries to be committed at the same place. -/
theorem gap_commits_different_entries : ∃ S : RaftSystem 3 ℕ,
    Runs.run (step id) (init sampleStart) (sampleElection 0 1 ++ sampleGap 0 1) = some S ∧
    ((S.servers 0).log.take (S.servers 0).commitIndex)[2]? = some ⟨2, .data 1048576⟩ ∧
    ((S.servers 1).log.take (S.servers 1).commitIndex)[2]? = some ⟨2, .data 11⟩ := by
  have hrun : ((Runs.run (step id) (init sampleStart)
      (sampleElection (0 : Fin 3) 1 ++ sampleGap 0 1)).map
      fun S => (((S.servers 0).log.take (S.servers 0).commitIndex)[2]?,
        ((S.servers 1).log.take (S.servers 1).commitIndex)[2]?)) =
      some (some ⟨2, .data 1048576⟩, some ⟨2, .data 11⟩) := by
    decide +kernel
  obtain ⟨S, hS, hfacts⟩ := Option.map_eq_some_iff.mp hrun
  simp only [Prod.mk.injEq] at hfacts
  exact ⟨S, hS, hfacts⟩

end RaftSystem

end RaftMonitor.LogCabin
