import RaftMonitor.RaftConsensus

namespace RaftMonitor.LogCabin

open ElectedLogs

variable {n : ℕ} {Op : Type}

/-- Leaders add nothing that would change the configuration. -/
def RaftSystem.Start.setting (start : Start n Op) : Setting (Fin n) (EntryType n Op) where
  toQuorums := Quorums.majority (Fin n)
  root := start.log
  Admits data := ∀ description, data ≠ .configuration description
  pos := start.pos
  sorted := start.sorted

variable {start : RaftSystem.Start n Op}

namespace RaftConsensus

theorem Configuration.ofLog_append (log : Log n Op) {added : Log n Op}
    (h : ∀ e ∈ added, ∀ description, e.data ≠ .configuration description) :
    ofLog (log ++ added) = ofLog log := by
  have hadd : ∀ (k : ℕ) (c : Configuration n), (added.zipIdx k).foldl add c = c := by
    induction added with
    | nil => exact fun _ _ => rfl
    | cons e added ih =>
      intro k c
      have hskip : add c (e, k) = c := by
        have hdata := h e List.mem_cons_self
        unfold add
        split
        · rename_i description heq
          exact absurd heq (hdata description)
        · rfl
      rw [List.zipIdx_cons, List.foldl_cons, hskip]
      exact ih (fun e' he' => h e' (List.mem_cons_of_mem e he')) (k + 1) c
  unfold ofLog
  rw [List.zipIdx_append, List.foldl_append, hadd]

theorem ofLog_of_rooted {log : Log n Op} (h : start.setting.Rooted log) :
    Configuration.ofLog log = .ofLog start.log := by
  obtain ⟨added, rfl, hadded⟩ := h
  exact Configuration.ofLog_append start.log hadded

theorem quorumAll_isQuorum (i : Fin n) {log : Log n Op} (hlog : start.setting.Rooted log)
    {predicate : Fin n → Bool} (h : (Configuration.ofLog log).quorumAll predicate = true) :
    start.setting.IsQuorum {j | predicate j = true} := by
  rw [ofLog_of_rooted hlog, Configuration.quorumAll, Bool.and_eq_true] at h
  have hnames := start.named
  have hne : (Configuration.ofLog start.log).oldServers ≠ [] :=
    List.ne_nil_of_mem (hnames.symm.subset (List.mem_finRange i))
  have hcount := (of_decide_eq_true h.1).resolve_left hne
  rw [hnames.length_eq, List.length_finRange] at hcount
  refine Quorums.majority_of_countP (hnames.symm.nodup (List.nodup_finRange n)) ?_
  rwa [Fintype.card_fin]

theorem quorumMin_isQuorum (i : Fin n) {log : Log n Op} (hlog : start.setting.Rooted log)
    (getValue : Fin n → ℕ) :
    start.setting.IsQuorum {j | (Configuration.ofLog log).quorumMin getValue ≤ getValue j} := by
  rw [ofLog_of_rooted hlog, Configuration.quorumMin, if_pos start.stable]
  have hnames := start.named
  set servers := (Configuration.ofLog start.log).oldServers
  have hlength : servers.length = n := by rw [hnames.length_eq, List.length_finRange]
  have hlen : (servers.map getValue).length = servers.length := List.length_map getValue
  have hget : ((servers.map getValue).insertionSort (· ≤ ·))[
      ((servers.map getValue).length - 1) / 2]? =
        some (SimpleConfiguration.quorumMin servers getValue) := by
    have hlt : (servers.length - 1) / 2 <
        ((servers.map getValue).insertionSort (· ≤ ·)).length := by
      rw [List.length_insertionSort, hlen]
      have := i.isLt
      omega
    rw [hlen, SimpleConfiguration.quorumMin, List.getD_eq_getElem _ _ hlt,
      List.getElem?_eq_getElem hlt]
  have hcount := le_countP_lower_median hget
  rw [hlen, hlength, List.countP_map] at hcount
  have hquorum := Quorums.majority_of_countP (hnames.symm.nodup (List.nodup_finRange n))
    (by rwa [Fintype.card_fin])
  change (Quorums.majority (Fin n)).IsQuorum _
  simpa using hquorum

/-- The log with which a candidate stands is its own, and the votes it has are real. -/
structure Stands (G : World (Fin n) (EntryType n Op)) (s : RaftConsensus n Op) : Prop where
  disk : G.disk s.serverId = s.log
  standing : G.standing s.serverId s.currentTerm = some s.log
  leader : G.leader s.currentTerm ≠ some s.serverId
  votedFor : s.votedFor = some s.serverId
  votes : ∀ {j}, j ≠ s.serverId → (s.peers j).haveVote = true →
    G.vote j s.currentTerm = some s.serverId

/-- The log of a leader is that of its term; what it believes others have stored, they have. -/
structure Leads (G : World (Fin n) (EntryType n Op)) (s : RaftConsensus n Op) : Prop where
  leader : G.leader s.currentTerm = some s.serverId
  log : G.log s.currentTerm = s.log
  disk : G.disk s.serverId = s.log.take s.lastSyncedIndex
  synced : s.lastSyncedIndex ≤ G.stored s.serverId s.currentTerm
  agreed : ∀ {j}, j ≠ s.serverId → (s.peers j).lastAgreeIndex ≤ G.stored j s.currentTerm
  next : ∀ {j}, j ≠ s.serverId →
    0 < (s.peers j).nextIndex ∧ (s.peers j).nextIndex ≤ s.log.length + 1
  commit : G.commit s.currentTerm ≤ s.commitIndex

structure Agrees (start : RaftSystem.Start n Op) (G : World (Fin n) (EntryType n Op))
    (s : RaftConsensus n Op) : Prop where
  term : G.term s.serverId = s.currentTerm
  vote : start.setting.base < s.currentTerm → G.vote s.serverId s.currentTerm = s.votedFor
  leaderId : ∀ {c}, s.leaderId = some c → G.leader s.currentTerm = some c
  committed : s.commitIndex ≤ s.log.length ∧ Chosen G s.currentTerm (s.log.take s.commitIndex)
  sync : ∀ {t m}, s.sync = some (t, m) → G.leader t = some s.serverId ∧
    (s.state = .leader → s.currentTerm = t → s.lastSyncedIndex ≤ m ∧ m ≤ s.log.length)
  /-- A server that has sent entries in its present term is the leader. -/
  rpc : ∀ {j call request}, (s.peers j).rpc = some call → call.request = .appendEntries request →
    request.term ≤ s.currentTerm ∧ (request.term = s.currentTerm → s.state = .leader)
  follower : s.state = .follower → G.disk s.serverId = s.log
  candidate : s.state = .candidate → Stands G s
  leader : s.state = .leader → Leads G s

abbrev Moves (start : RaftSystem.Start n Op) (i : Fin n) :
    World (Fin n) (EntryType n Op) → World (Fin n) (EntryType n Op) → Prop :=
  Steps start.setting i

abbrev Consistent (start : RaftSystem.Start n Op) (G : World (Fin n) (EntryType n Op)) : Prop :=
  Inv start.setting G

variable {G G' : World (Fin n) (EntryType n Op)} {s s' : RaftConsensus n Op}

theorem Agrees.disk (h : Agrees start G s) (hstate : s.state ≠ .leader) :
    G.disk s.serverId = s.log := by
  cases hs : s.state with
  | follower => exact h.follower hs
  | candidate => exact (h.candidate hs).disk
  | leader => exact absurd hs hstate

theorem Leads.synced_le (hinv : Consistent start G) (h : Leads G s) :
    s.lastSyncedIndex ≤ s.log.length :=
  h.synced.trans ((hinv.stored_le _ _).trans (by rw [h.log]))

theorem Leads.leader_ne_none (h : Leads G s) : G.leader s.currentTerm ≠ none := by
  rw [h.leader]
  exact Option.some_ne_none _

theorem Leads.rooted (hinv : Consistent start G) (h : Leads G s) :
    start.setting.Rooted s.log :=
  h.log ▸ hinv.rooted_log h.leader_ne_none

theorem Agrees.frame (h : Agrees start G s) {i : Fin n} (hne : s.serverId ≠ i) (hext : Extends G G')
    (hframe : Frame i G G') : Agrees start G' s where
  term := (hframe.term hne).trans h.term
  vote hbase := (congrFun (hframe.vote hne) _).trans (h.vote hbase)
  leaderId hc := hext.leader (h.leaderId hc)
  committed := ⟨h.committed.1, h.committed.2.mono hext le_rfl⟩
  sync hs := ⟨hext.leader (h.sync hs).1, (h.sync hs).2⟩
  rpc := h.rpc
  follower hs := (hframe.disk hne).trans (h.follower hs)
  candidate hs :=
    have hstands := h.candidate hs
    { disk := (hframe.disk hne).trans hstands.disk
      standing := (congrFun (hframe.standing hne) _).trans hstands.standing
      leader := fun hl => hstands.leader (hframe.leader hne hl)
      votedFor := hstands.votedFor
      votes := fun hj hv => hext.vote (hstands.votes hj hv) }
  leader hs :=
    have hleads := h.leader hs
    have hlog := hframe.log hne hleads.leader
    { leader := hext.leader hleads.leader
      log := hlog.1.trans hleads.log
      disk := (hframe.disk hne).trans hleads.disk
      synced := hleads.synced.trans (hext.stored _ _)
      agreed := fun hj => (hleads.agreed hj).trans (hext.stored _ _)
      next := hleads.next
      commit := hlog.2.le.trans hleads.commit }

theorem stepDown_eq {t : ℕ} (h : s.currentTerm ≤ t) :
    s.stepDown t = some { s with
      currentTerm := t
      leaderId := if s.currentTerm < t then none else s.leaderId
      votedFor := if s.currentTerm < t then none else s.votedFor
      state := .follower
      logSyncQueued := false } := by
  unfold stepDown
  rw [if_neg (Nat.not_lt_of_le h)]
  by_cases hlt : s.currentTerm < t
  · simp [hlt]
  · obtain rfl : s.currentTerm = t := le_antisymm h (Nat.le_of_not_lt hlt)
    simp

/-- What a running server keeps: its term and its commit index do not go back, and as long as a
leader stays in its term it stays leader and only appends to its log. -/
structure Onward (s s' : RaftConsensus n Op) : Prop where
  serverId : s'.serverId = s.serverId
  term : s.currentTerm ≤ s'.currentTerm
  epoch : s'.currentEpoch = s.currentEpoch
  leader : s.state = .leader → s'.currentTerm = s.currentTerm →
    s'.state = .leader ∧ s.log <+: s'.log
  rpc : ∀ {j call}, (s'.peers j).rpc = some call → (s.peers j).rpc = some call
  ack : ∀ j, (s'.peers j).lastAckEpoch = (s.peers j).lastAckEpoch
  commit : s.commitIndex ≤ s'.commitIndex

theorem Onward.refl (s : RaftConsensus n Op) : Onward s s :=
  ⟨rfl, le_rfl, rfl, fun hs _ => ⟨hs, List.prefix_rfl⟩, id, fun _ => rfl, le_rfl⟩

theorem Onward.trans {s'' : RaftConsensus n Op} (h : Onward s s') (h' : Onward s' s'') :
    Onward s s'' where
  serverId := h'.serverId.trans h.serverId
  term := h.term.trans h'.term
  epoch := h'.epoch.trans h.epoch
  leader hs ht := by
    have hterm : s'.currentTerm = s.currentTerm :=
      le_antisymm (h'.term.trans ht.le) h.term
    obtain ⟨hs', hlog⟩ := h.leader hs hterm
    obtain ⟨hs'', hlog'⟩ := h'.leader hs' (ht.trans hterm.symm)
    exact ⟨hs'', hlog.trans hlog'⟩
  rpc hr := h.rpc (h'.rpc hr)
  ack j := (h'.ack j).trans (h.ack j)
  commit := h.commit.trans h'.commit

theorem Agrees.store (h : Agrees start G s) {m : ℕ}
    (hm : (if s.state = .leader then s.lastSyncedIndex else s.log.length) ≤ m)
    (hlen : m ≤ s.log.length) :
    ∃ G', Moves start s.serverId G G' ∧ G'.term = G.term ∧ G'.vote = G.vote ∧ G'.leader = G.leader ∧
      G'.log = G.log ∧ G'.commit = G.commit ∧ G'.disk s.serverId = s.log.take m ∧
      (s.state = .leader → m ≤ G'.stored s.serverId s.currentTerm) := by
  by_cases hs : s.state = .leader
  · rw [if_pos hs] at hm
    have hleads := h.leader hs
    have hstep := Step.store (Q := start.setting) h.term
      (m := m) hleads.leader_ne_none (by rw [hleads.log]; exact hlen)
    refine ⟨_, hstep.steps, rfl, rfl, rfl, rfl, rfl, ?_, fun _ => by simp⟩
    simp only [Function.update_self]
    rw [hleads.log, hleads.disk]
    exact merge_of_prefix_right (List.take_prefix_take_left hm)
  · rw [if_neg hs] at hm
    obtain rfl : m = s.log.length := le_antisymm hlen hm
    refine ⟨G, .refl _ _ _, rfl, rfl, rfl, rfl, rfl, ?_, fun hs' => absurd hs' hs⟩
    rw [List.take_length, h.disk hs]

theorem agrees_advance (hinv : Consistent start G) {i : Fin n} {t : ℕ} (hle : G.term i ≤ t)
    (hserver : s.serverId = i) (hterm : s.currentTerm = t) (hstate : s.state = .follower)
    (hdisk : G.disk i = s.log)
    (hvote : start.setting.base < t → s.votedFor = if G.term i < t then none else G.vote i t)
    (hleaderId : ∀ {c}, s.leaderId = some c → G.leader t = some c)
    (hcommitted : s.commitIndex ≤ s.log.length ∧ Chosen G t (s.log.take s.commitIndex))
    (hsync : ∀ {t m}, s.sync = some (t, m) → G.leader t = some i)
    (hrpc : ∀ {j call request}, (s.peers j).rpc = some call →
      call.request = .appendEntries request → request.term < t) :
    Agrees start { G with term := Function.update G.term i t } s := by
  have hext := hinv.extends_of_step (.advance hle)
  subst hserver hterm
  exact {
    term := by simp
    vote := fun hbase => by
      rw [hvote hbase]
      split_ifs with hlt
      · cases hv : G.vote s.serverId s.currentTerm with
        | none => rfl
        | some c => exact absurd (hinv.vote_term hv) (Nat.not_le_of_lt hlt)
      · rfl
    leaderId := hleaderId
    committed := ⟨hcommitted.1, hcommitted.2.mono hext le_rfl⟩
    sync := fun hs => ⟨hsync hs, fun hl => by simp [hstate] at hl⟩
    rpc := fun hr hq => ⟨(hrpc hr hq).le, fun heq => absurd heq (hrpc hr hq).ne⟩
    follower := fun _ => hdisk
    candidate := fun hc => by simp [hstate] at hc
    leader := fun hl => by simp [hstate] at hl }

theorem Agrees.rpc_lt (h : Agrees start G s) {t : ℕ} (hle : s.currentTerm ≤ t)
    (hleader : s.state = .leader → s.currentTerm < t) {j : Fin n} {call : Peer.Call n Op}
    {request : Raft.AppendEntries n Op} (hr : (s.peers j).rpc = some call)
    (hq : call.request = .appendEntries request) : request.term < t := by
  obtain ⟨hterm, hlead⟩ := h.rpc hr hq
  rcases hterm.lt_or_eq with hlt | heq
  · exact hlt.trans_le hle
  · exact heq ▸ hleader (hlead heq)

theorem Agrees.stepDown (hinv : Consistent start G) (h : Agrees start G s) {t : ℕ}
    (hle : s.currentTerm ≤ t) (hleader : s.state = .leader → s.currentTerm < t) :
    ∃ s' G', s.stepDown t = some s' ∧ Moves start s.serverId G G' ∧ Agrees start G' s' ∧
      Onward s s' ∧ s'.currentTerm = t ∧ s'.state = .follower ∧ s'.log = s.log := by
  obtain ⟨G₁, hmoves, hterm, hvote, hlead, -, -, hdisk, -⟩ := h.store
    (m := s.log.length) (by
      split_ifs with hs
      · exact (h.leader hs).synced_le hinv
      · exact le_rfl) le_rfl
  obtain ⟨hinv₁, hext, -⟩ := hinv.steps hmoves
  have hle₁ : G₁.term s.serverId ≤ t := by rw [hterm, h.term]; exact hle
  refine ⟨_, _, stepDown_eq hle, hmoves.trans (Step.advance hle₁).steps,
    agrees_advance hinv₁ hle₁ rfl rfl rfl (by rw [hdisk, List.take_length]) ?_ ?_ ?_ ?_ ?_, ?_, rfl,
    rfl, rfl⟩
  · intro hbase
    dsimp only
    rw [hterm, h.term, hvote]
    split_ifs with hlt
    · rfl
    · obtain rfl : s.currentTerm = t := le_antisymm hle (Nat.le_of_not_lt hlt)
      exact (h.vote hbase).symm
  · intro c hc
    dsimp only at hc
    split_ifs at hc with hlt
    obtain rfl : s.currentTerm = t := le_antisymm hle (Nat.le_of_not_lt hlt)
    rw [hlead]
    exact h.leaderId hc
  · exact ⟨h.committed.1, h.committed.2.mono hext hle⟩
  · intro t' m hs
    rw [hlead]
    exact (h.sync hs).1
  · exact h.rpc_lt hle hleader
  · exact ⟨rfl, hle, rfl, fun hs ht => absurd ht (hleader hs).ne', id, fun _ => rfl, le_rfl⟩

theorem Agrees.restart (hinv : Consistent start G) (h : Agrees start G s) {t m : ℕ}
    (hle : s.currentTerm ≤ t)
    (hm : (if s.state = .leader then s.lastSyncedIndex else s.log.length) ≤ m)
    (hlen : m ≤ s.log.length) :
    ∃ G', Moves start s.serverId G G' ∧ Agrees start G' (s.restart t m) := by
  obtain ⟨G₁, hmoves, hterm, hvote, -, -, -, hdisk, -⟩ := h.store hm hlen
  obtain ⟨hinv₁, -, -⟩ := hinv.steps hmoves
  have hle₁ : G₁.term s.serverId ≤ t := by rw [hterm, h.term]; exact hle
  refine ⟨_, hmoves.trans (Step.advance hle₁).steps,
    agrees_advance hinv₁ hle₁ rfl rfl rfl hdisk ?_ nofun ⟨Nat.zero_le _, chosen_nil _ _⟩ nofun
      nofun⟩
  intro hbase
  change (if s.currentTerm < t then none else s.votedFor) = _
  rw [hterm, h.term, hvote]
  split_ifs with hlt
  · rfl
  · obtain rfl : s.currentTerm = t := le_antisymm hle (Nat.le_of_not_lt hlt)
    exact (h.vote hbase).symm

theorem append_eq {entries : Log n Op} (h : ∀ entry ∈ entries, 0 < entry.term) :
    s.append entries = some { s with
      log := s.log ++ entries
      logSyncQueued := s.logSyncQueued || s.state = .leader } := by
  unfold append
  refine if_neg ?_
  rintro ⟨entry, hentry, hzero⟩
  exact (h entry hentry).ne' hzero

theorem Agrees.append (hinv : Consistent start G) (h : Agrees start G s) (hs : s.state = .leader)
    (data : EntryType n Op) (hdata : ∀ description, data ≠ .configuration description) :
    ∃ s' G', s.append [⟨s.currentTerm, data⟩] = some s' ∧ Moves start s.serverId G G' ∧
      Agrees start G' s' ∧ Onward s s' ∧ s'.currentTerm = s.currentTerm ∧
      s'.log = s.log ++ [⟨s.currentTerm, data⟩] := by
  have hleads := h.leader hs
  have hstep := Step.extend (Q := start.setting) hdata hleads.leader
  have hext := hinv.extends_of_step hstep
  have hpos : 0 < s.currentTerm := hinv.pos hleads.leader_ne_none
  have hsynced := hleads.synced_le hinv
  refine ⟨_, _, append_eq (by simpa using hpos), hstep.steps, ?_, ?_, rfl, rfl⟩
  · exact {
      term := h.term
      vote := h.vote
      leaderId := h.leaderId
      committed := by
        refine ⟨h.committed.1.trans (by simp), ?_⟩
        rw [List.take_append_of_le_length h.committed.1]
        exact h.committed.2.mono hext le_rfl
      sync := fun hsync => ⟨(h.sync hsync).1, fun hl ht =>
        have hbound := (h.sync hsync).2 hl ht
        ⟨hbound.1, hbound.2.trans (by simp)⟩⟩
      rpc := h.rpc
      follower := fun hf => by simp [hs] at hf
      candidate := fun hc => by simp [hs] at hc
      leader := fun _ => {
        leader := hleads.leader
        log := by simp [hleads.log]
        disk := by
          rw [List.take_append_of_le_length hsynced]
          exact hleads.disk
        synced := hleads.synced
        agreed := hleads.agreed
        next := fun hj => ⟨(hleads.next hj).1, (hleads.next hj).2.trans (by simp)⟩
        commit := hleads.commit } }
  · exact ⟨rfl, le_rfl, rfl, fun _ _ => ⟨hs, List.prefix_append _ _⟩, id, fun _ => rfl, le_rfl⟩

theorem Agrees.elect (hinv : Consistent start G) (h : Agrees start G s) (hs : s.state = .candidate)
    (hquorum : s.configuration.quorumAll s.haveVote = true) :
    ∃ G', Moves start s.serverId G G' ∧ Agrees start G' (beginLeadership { s with
      state := .leader
      leaderId := some s.serverId }) := by
  have hstands := h.candidate hs
  have hP := quorumAll_isQuorum s.serverId (hinv.rooted_standing hstands.standing) hquorum
  have hbase := (hinv.standing_lt hstands.standing).1
  have hvotes : ∀ j ∈ {j | s.haveVote j = true}, G.vote j s.currentTerm = some s.serverId := by
    intro j hj
    change s.haveVote j = true at hj
    unfold haveVote at hj
    by_cases hself : j = s.serverId
    · rw [hself, h.vote hbase]
      exact hstands.votedFor
    · rw [if_neg hself] at hj
      exact hstands.votes hself hj
  have hnone : G.leader s.currentTerm = none := by
    cases hc : G.leader s.currentTerm with
    | none => rfl
    | some c => exact absurd (hinv.leader_unique hP hvotes hc ▸ hc) hstands.leader
  have helect := Step.elect hnone hstands.standing hP hvotes
  have hinv₁ := hinv.step helect
  have hext := hinv.extends_of_step helect
  have hstore := Step.store (Q := start.setting) (G := { G with
      leader := Function.update G.leader s.currentTerm (some s.serverId)
      log := Function.update G.log s.currentTerm s.log }) (s := s.serverId) (t := s.currentTerm)
    (m := s.log.length) h.term (by simp) (by simp)
  have hext₁ := hinv₁.extends_of_step hstore
  have hzero := hinv.commit_eq_zero hnone
  refine ⟨_, helect.steps.trans hstore.steps, ?_⟩
  exact {
    term := h.term
    vote := h.vote
    leaderId := fun hc => by simpa [beginLeadership] using hc
    committed := ⟨h.committed.1, h.committed.2.mono (hext.trans hext₁) le_rfl⟩
    sync := fun {t m} hsync => by
      have hleader := (h.sync hsync).1
      refine ⟨hext.leader hleader, fun _ (ht : s.currentTerm = t) => ?_⟩
      rw [← ht, hnone] at hleader
      cases hleader
    rpc := fun hr hq => ⟨(h.rpc hr hq).1, fun _ => rfl⟩
    follower := nofun
    candidate := nofun
    leader := fun _ => {
      leader := by simp [beginLeadership]
      log := by simp [beginLeadership]
      disk := by
        simp only [beginLeadership, Function.update_self, List.take_length]
        rw [hstands.disk]
        exact merge_of_prefix_right List.prefix_rfl
      synced := by simp [beginLeadership]
      agreed := fun _ => Nat.zero_le _
      next := fun _ => ⟨Nat.succ_pos _, le_rfl⟩
      commit := by simp [beginLeadership, hzero] } }

theorem Agrees.becomeLeader (hinv : Consistent start G) (h : Agrees start G s)
    (hs : s.state = .candidate) (hquorum : s.configuration.quorumAll s.haveVote = true) :
    ∃ s' G', s.becomeLeader = some s' ∧ Moves start s.serverId G G' ∧ Agrees start G' s' ∧
      Onward s s' ∧ s'.currentTerm = s.currentTerm := by
  obtain ⟨G₁, hmoves, hagrees⟩ := h.elect hinv hs hquorum
  obtain ⟨s', G₂, happend, hmoves', hagrees', honward, hterm, -⟩ :=
    hagrees.append (hinv.steps hmoves).1 rfl .noop nofun
  refine ⟨s', G₂, ?_, hmoves.trans hmoves', hagrees', ?_, hterm⟩
  · unfold RaftConsensus.becomeLeader
    rw [if_neg (not_not.mpr hs)]
    exact happend
  · refine Onward.trans ?_ honward
    exact ⟨rfl, le_rfl, rfl, fun hl => (by simp [hs] at hl), id, fun _ => rfl, le_rfl⟩

theorem Agrees.startNewElection (hinv : Consistent start G) (h : Agrees start G s)
    (hs : s.state ≠ .leader) :
    ∃ s' G', s.startNewElection = some s' ∧ Moves start s.serverId G G' ∧ Agrees start G' s' ∧
      Onward s s' := by
  by_cases hid : s.configuration.id = 0
  · exact ⟨s, G, if_pos hid, .refl _ _ _, h, .refl s⟩
  have hlt : G.term s.serverId < s.currentTerm + 1 := by
    rw [h.term]
    exact Nat.lt_succ_self _
  have hdisk := h.disk hs
  have hstand := Step.stand (Q := start.setting) hlt
  have hinv₁ := hinv.step hstand
  have hext := hinv.extends_of_step hstand
  have hvote : G.vote s.serverId (s.currentTerm + 1) = none := by
    cases hv : G.vote s.serverId (s.currentTerm + 1) with
    | none => rfl
    | some c => exact absurd (hinv.vote_term hv) (Nat.not_le_of_lt hlt)
  have hleader : G.leader (s.currentTerm + 1) ≠ some s.serverId := by
    intro hl
    obtain ⟨P, hP, hvotes⟩ := hinv.elected hl
    obtain ⟨j, hj, -⟩ := start.setting.meet hP hP
    obtain ⟨l, hl⟩ := hinv.vote_standing (hvotes j hj)
    exact absurd (hinv.standing_term hl) (Nat.not_le_of_lt hlt)
  have hgrant := Step.grant (Q := start.setting) (G := { G with
      term := Function.update G.term s.serverId (s.currentTerm + 1)
      standing := Function.update G.standing s.serverId
        (Function.update (G.standing s.serverId) (s.currentTerm + 1) (some (G.disk s.serverId))) })
    (s := s.serverId) (c := s.serverId) (t := s.currentTerm + 1) (l := G.disk s.serverId)
    (by simp) hvote (by simp) (.inr ⟨rfl, le_rfl⟩)
  have hext₁ := hinv₁.extends_of_step hgrant
  set s₁ : RaftConsensus n Op := { s with
    currentTerm := s.currentTerm + 1
    state := .candidate
    leaderId := none
    votedFor := some s.serverId
    peers := fun j => { s.peers j with
      requestVoteDone := false
      haveVote := false } } with hs₁
  have honward : Onward s s₁ :=
    ⟨rfl, Nat.le_succ _, rfl, fun hl => absurd hl hs, id, fun _ => rfl, le_rfl⟩
  have hmoves := hstand.steps.trans hgrant.steps
  have hagrees : Agrees start _ s₁ := {
    term := by simp [hs₁]
    vote := by simp [hs₁]
    leaderId := nofun
    committed := ⟨h.committed.1, h.committed.2.mono (hext.trans hext₁) (Nat.le_succ _)⟩
    sync := fun hsync => ⟨(h.sync hsync).1, nofun⟩
    rpc := fun {j call request} hr hq => by
      have hterm : request.term ≤ s.currentTerm := (h.rpc hr hq).1
      exact ⟨hterm.trans (Nat.le_succ _), fun heq => absurd heq (Nat.lt_succ_of_le hterm).ne⟩
    follower := nofun
    candidate := fun _ => {
      disk := hdisk
      standing := by simp [hs₁, hdisk]
      leader := hleader
      votedFor := rfl
      votes := nofun }
    leader := nofun }
  by_cases hquorum : s₁.configuration.quorumAll s₁.haveVote = true
  · obtain ⟨s', G', hbecome, hmoves', hagrees', honward', -⟩ :=
      hagrees.becomeLeader (hinv.steps hmoves).1 rfl hquorum
    refine ⟨s', G', ?_, hmoves.trans hmoves', hagrees', honward.trans honward'⟩
    unfold RaftConsensus.startNewElection
    exact (if_neg hid).trans ((if_pos hquorum).trans hbecome)
  · exact ⟨s₁, _, (if_neg hid).trans (if_neg hquorum), hmoves, hagrees, honward⟩

/-- The sender stands for election with a log that ends as the request says. -/
structure VoteRequested (G : World (Fin n) (EntryType n Op)) (request : Raft.RequestVote n) :
    Prop where
  other : request.serverId ≠ request.recipientId
  standing : ∃ l, G.standing request.serverId request.term = some l ∧
    request.lastLogTerm = lastTerm l ∧ request.lastLogIndex = l.length

theorem Agrees.voteRequested (h : Agrees start G s) (hs : s.state = .candidate) {j : Fin n}
    (hj : j ≠ s.serverId) : VoteRequested G (s.requestVote j) :=
  ⟨hj.symm, s.log, (h.candidate hs).standing, rfl, rfl⟩

theorem Agrees.grant (hinv : Consistent start G) (h : Agrees start G s)
    {request : Raft.RequestVote n} (hrequest : VoteRequested G request) (hs : s.state = .follower)
    (hterm : request.term = s.currentTerm) (hvote : s.votedFor = none)
    (hlog : s.getLastLogTerm < request.lastLogTerm ∨
      (request.lastLogTerm = s.getLastLogTerm ∧ s.log.length ≤ request.lastLogIndex)) :
    ∃ G', Moves start s.serverId G G' ∧
      Agrees start G' { s with votedFor := some request.serverId } := by
  obtain ⟨l, hl, hlast, hlen⟩ := hrequest.standing
  rw [hterm] at hl
  rw [hlast, hlen] at hlog
  have hup : UpToDate l (G.disk s.serverId) := by
    rw [h.follower hs]
    exact hlog.imp_right fun hlog => ⟨hlog.1.symm, hlog.2⟩
  have hfree := (h.vote (hinv.standing_lt hl).1).trans hvote
  have hgrant := Step.grant (Q := start.setting) h.term hfree hl hup
  have hext := hinv.extends_of_step hgrant
  exact ⟨_, hgrant.steps, {
    term := h.term
    vote := by simp
    leaderId := h.leaderId
    committed := ⟨h.committed.1, h.committed.2.mono hext le_rfl⟩
    sync := h.sync
    rpc := h.rpc
    follower := h.follower
    candidate := fun hc => by simp [hs] at hc
    leader := fun hl => by simp [hs] at hl }⟩

theorem Agrees.handleRequestVote (hinv : Consistent start G) (h : Agrees start G s)
    (withheld : Bool) {request : Raft.RequestVote n} (hrequest : VoteRequested G request) :
    ∃ s' term granted G', s.handleRequestVote withheld request =
        some (s', .requestVote term granted) ∧ Moves start s.serverId G G' ∧
      Agrees start G' s' ∧ Onward s s' ∧ term = s'.currentTerm ∧
      (granted = true → G'.vote s.serverId request.term = some request.serverId) := by
  unfold RaftConsensus.handleRequestVote
  by_cases hw : s.state = .leader ∨ withheld = true
  · rw [if_pos hw]
    exact ⟨s, _, false, G, rfl, .refl _ _ _, h, .refl s, rfl, nofun⟩
  rw [if_neg hw]
  have hs : s.state ≠ .leader := fun hl => hw (.inl hl)
  -- first to the term of the request
  obtain ⟨s₁, G₁, heq₁, hmoves₁, hagrees₁, honward₁, hs₁⟩ : ∃ s₁ G₁,
      (if s.currentTerm < request.term then s.stepDown request.term else some s) = some s₁ ∧
      Moves start s.serverId G G₁ ∧ Agrees start G₁ s₁ ∧ Onward s s₁ ∧ s₁.state ≠ .leader := by
    by_cases hlt : s.currentTerm < request.term
    · rw [if_pos hlt]
      obtain ⟨s₁, G₁, heq, hmoves, hagrees, honward, -, hstate, -⟩ :=
        h.stepDown hinv hlt.le fun _ => hlt
      exact ⟨s₁, G₁, heq, hmoves, hagrees, honward, by simp [hstate]⟩
    · rw [if_neg hlt]
      exact ⟨s, G, rfl, .refl _ _ _, h, .refl s, hs⟩
  obtain ⟨hinv₁, hext₁, -⟩ := hinv.steps hmoves₁
  rw [heq₁, Option.bind_some]
  dsimp only
  -- then the vote
  obtain ⟨s₂, G₂, heq₂, hmoves₂, hagrees₂, honward₂⟩ : ∃ s₂ G₂,
      (if request.term = s₁.currentTerm ∧ (s₁.getLastLogTerm < request.lastLogTerm ∨
          request.lastLogTerm = s₁.getLastLogTerm ∧ s₁.log.length ≤ request.lastLogIndex) ∧
          s₁.votedFor = none then
        (s₁.stepDown s₁.currentTerm).map fun s => { s with votedFor := some request.serverId }
      else some s₁) = some s₂ ∧ Moves start s₁.serverId G₁ G₂ ∧ Agrees start G₂ s₂ ∧
      Onward s₁ s₂ := by
    by_cases hgive : request.term = s₁.currentTerm ∧ (s₁.getLastLogTerm < request.lastLogTerm ∨
        request.lastLogTerm = s₁.getLastLogTerm ∧ s₁.log.length ≤ request.lastLogIndex) ∧
        s₁.votedFor = none
    · obtain ⟨hterm, hlog, hvote⟩ := hgive
      rw [if_pos ⟨hterm, hlog, hvote⟩]
      obtain ⟨s₂, G₂, heq, hmoves, hagrees, honward, hterm₂, hstate₂, hlog₂⟩ :=
        hagrees₁.stepDown hinv₁ le_rfl fun hl => absurd hl hs₁
      obtain ⟨hinv₂, hext₂, -⟩ := hinv₁.steps hmoves
      have hvote₂ : s₂.votedFor = none := by
        rw [stepDown_eq le_rfl] at heq
        rw [← Option.some.inj heq]
        simpa using hvote
      have hrequest₂ : VoteRequested G₂ request := by
        obtain ⟨l, hl, hend⟩ := hrequest.standing
        exact ⟨hrequest.other, l, (hext₁.trans hext₂).standing hl, hend⟩
      obtain ⟨G₃, hmoves₃, hagrees₃⟩ := hagrees.grant hinv₂ hrequest₂ hstate₂
        (hterm.trans hterm₂.symm) hvote₂ (by simpa [getLastLogTerm, hlog₂] using hlog)
      rw [honward.serverId] at hmoves₃
      refine ⟨_, G₃, by rw [heq, Option.map_some], hmoves.trans hmoves₃, hagrees₃,
        honward.trans ⟨rfl, le_rfl, rfl, fun hl _ => ⟨hl, List.prefix_rfl⟩, id, fun _ => rfl,
          le_rfl⟩⟩
    · rw [if_neg hgive]
      exact ⟨s₁, G₁, rfl, .refl _ _ _, hagrees₁, .refl s₁⟩
  rw [honward₁.serverId] at hmoves₂
  refine ⟨s₂, _, _, G₂, by rw [heq₂, Option.map_some], hmoves₁.trans hmoves₂, hagrees₂,
    honward₁.trans honward₂, rfl, fun hgranted => ?_⟩
  obtain ⟨hterm, hvote⟩ := of_decide_eq_true hgranted
  obtain ⟨l, hl, -⟩ := hrequest.standing
  have hserver : s₂.serverId = s.serverId := honward₂.serverId.trans honward₁.serverId
  rw [← hserver, hterm, hagrees₂.vote (hterm ▸ (hinv.standing_lt hl).1)]
  exact hvote

theorem Agrees.setPeer (h : Agrees start G s) (j : Fin n) (peer : Peer n Op)
    (hrpc : ∀ {call request}, peer.rpc = some call → call.request = .appendEntries request →
      request.term ≤ s.currentTerm ∧ (request.term = s.currentTerm → s.state = .leader))
    (hvote : s.state = .candidate → j ≠ s.serverId → peer.haveVote = true →
      G.vote j s.currentTerm = some s.serverId)
    (hagreed : s.state = .leader → j ≠ s.serverId →
      peer.lastAgreeIndex ≤ G.stored j s.currentTerm ∧
      0 < peer.nextIndex ∧ peer.nextIndex ≤ s.log.length + 1) :
    Agrees start G (s.setPeer j peer) :=
  { h with
    rpc := fun {k call request} hr hq => by
      rcases eq_or_ne k j with rfl | hne
      · exact hrpc (by simpa [RaftConsensus.setPeer] using hr) hq
      · exact h.rpc (by simpa [RaftConsensus.setPeer, hne] using hr) hq
    candidate := fun hs => { h.candidate hs with
      votes := fun {k} hk hv => by
        rcases eq_or_ne k j with rfl | hne
        · exact hvote hs hk (by simpa [RaftConsensus.setPeer] using hv)
        · exact (h.candidate hs).votes hk (by simpa [RaftConsensus.setPeer, hne] using hv) }
    leader := fun hs => { h.leader hs with
      agreed := fun {k} hk => by
        rcases eq_or_ne k j with rfl | hne
        · simpa [RaftConsensus.setPeer] using (hagreed hs hk).1
        · simpa [RaftConsensus.setPeer, hne] using (h.leader hs).agreed hk
      next := fun {k} hk => by
        rcases eq_or_ne k j with rfl | hne
        · simpa [RaftConsensus.setPeer] using (hagreed hs hk).2
        · simpa [RaftConsensus.setPeer, hne] using (h.leader hs).next hk } }

@[simp] theorem setPeer_setPeer (s : RaftConsensus n Op) (j : Fin n) (peer peer' : Peer n Op) :
    (s.setPeer j peer).setPeer j peer' = s.setPeer j peer' := by
  simp [RaftConsensus.setPeer]

@[simp] theorem peers_setPeer_self (s : RaftConsensus n Op) (j : Fin n) (peer : Peer n Op) :
    (s.setPeer j peer).peers j = peer := by
  simp [RaftConsensus.setPeer]

theorem onward_setPeer {j : Fin n} {peer : Peer n Op} (hrpc : peer.rpc = (s.peers j).rpc)
    (hack : peer.lastAckEpoch = (s.peers j).lastAckEpoch) : Onward s (s.setPeer j peer) := by
  refine ⟨rfl, le_rfl, rfl, fun hl _ => ⟨hl, List.prefix_rfl⟩, fun {k call} hr => ?_, fun k => ?_,
    le_rfl⟩
  · rcases eq_or_ne k j with rfl | hne
    · simpa [hrpc] using hr
    · simpa [RaftConsensus.setPeer, hne] using hr
  · rcases eq_or_ne k j with rfl | hne
    · simpa using hack
    · simp [RaftConsensus.setPeer, hne]

theorem onward_setPeer_setPeer {j : Fin n} {peer peer' : Peer n Op} (hrpc : peer'.rpc = peer.rpc)
    (hack : peer'.lastAckEpoch = peer.lastAckEpoch) :
    Onward (s.setPeer j peer) (s.setPeer j peer') := by
  have h : Onward (s.setPeer j peer) ((s.setPeer j peer).setPeer j peer') :=
    onward_setPeer (by rw [hrpc, peers_setPeer_self]) (by rw [hack, peers_setPeer_self])
  rwa [setPeer_setPeer] at h

theorem Agrees.clearRPC (h : Agrees start G s) (j : Fin n) :
    Agrees start G (s.setPeer j { s.peers j with rpc := none }) :=
  h.setPeer j _ nofun (fun hs hj hv => (h.candidate hs).votes hj hv)
    (fun hs hj => ⟨(h.leader hs).agreed hj, (h.leader hs).next hj⟩)

theorem Agrees.requestVoteReply (hinv : Consistent start G) (h : Agrees start G s) {j : Fin n}
    {epoch : ℕ} {request : Raft.RequestVote n} {term : ℕ} {granted : Bool}
    (hvote : granted = true → G.vote j request.term = some s.serverId) :
    ∃ s' G', s.requestVoteReply j epoch request term granted = some s' ∧
      Moves start s.serverId G G' ∧ Agrees start G' s' ∧ (Onward s s' ∨ term ≤ s.currentTerm ∧
        Onward (s.setPeer j { s.peers j with lastAckEpoch := epoch }) s') := by
  unfold RaftConsensus.requestVoteReply
  by_cases hold : s.currentTerm ≠ request.term ∨ s.state ≠ .candidate
  · rw [if_pos hold]
    exact ⟨s, G, rfl, .refl _ _ _, h, .inl (.refl s)⟩
  rw [if_neg hold]
  obtain ⟨hterm, hs⟩ := not_or.mp hold
  rw [not_not] at hterm hs
  by_cases hlt : s.currentTerm < term
  · rw [if_pos hlt]
    obtain ⟨s', G', heq, hmoves, hagrees, honward, -⟩ := h.stepDown hinv hlt.le fun _ => hlt
    exact ⟨s', G', heq, hmoves, hagrees, .inl honward⟩
  rw [if_neg hlt]
  have hagrees₁ : Agrees start G (s.setPeer j { s.peers j with
      requestVoteDone := true
      lastAckEpoch := epoch
      haveVote := (s.peers j).haveVote || granted }) := by
    refine h.setPeer j _ (fun hr hq => h.rpc hr hq) (fun _ hj hv => ?_)
      (fun hl => by simp [hs] at hl)
    rcases (Bool.or_eq_true _ _).mp hv with hv | hv
    · exact (h.candidate hs).votes hj hv
    · rw [hterm]
      exact hvote hv
  have honward₁ : Onward (s.setPeer j { s.peers j with lastAckEpoch := epoch })
      (s.setPeer j { s.peers j with
        requestVoteDone := true
        lastAckEpoch := epoch
        haveVote := (s.peers j).haveVote || granted }) := onward_setPeer_setPeer rfl rfl
  dsimp only
  split_ifs with hquorum
  · obtain ⟨s', G', heq, hmoves, hagrees, honward, -⟩ := hagrees₁.becomeLeader hinv hs hquorum.2
    exact ⟨s', G', heq, hmoves, hagrees, .inr ⟨Nat.le_of_not_lt hlt, honward₁.trans honward⟩⟩
  · exact ⟨_, G, rfl, .refl _ _ _, hagrees₁, .inr ⟨Nat.le_of_not_lt hlt, honward₁⟩⟩

theorem getEntry_succ (log : Log n Op) (k : ℕ) : log.getEntry (k + 1) = log[k]? := rfl

/-- What a majority has reached in the view of the leader, a majority has stored. -/
theorem Leads.quorum_stored (hinv : Consistent start G) (h : Leads G s) :
    ∃ P, start.setting.IsQuorum P ∧
      ∀ j ∈ P, s.configuration.quorumMin s.getLastAgreeIndex ≤ G.stored j s.currentTerm := by
  refine ⟨_, quorumMin_isQuorum s.serverId (h.rooted hinv) s.getLastAgreeIndex, fun j hj => ?_⟩
  change s.configuration.quorumMin s.getLastAgreeIndex ≤ s.getLastAgreeIndex j at hj
  refine hj.trans ?_
  unfold getLastAgreeIndex
  split_ifs with hself
  · rw [hself]
    exact h.synced
  · exact h.agreed hself

theorem committedConfiguration_eq (h : start.setting.Rooted s.log) :
    s.committedConfiguration = some s := by
  have hconfiguration : s.configuration = .ofLog start.log := ofLog_of_rooted h
  have hvote : s.configuration.hasVote s.serverId = true := by
    rw [hconfiguration]
    exact decide_eq_true (.inl (start.named.symm.subset (List.mem_finRange s.serverId)))
  have hstable : s.configuration.newServers = [] := by
    rw [hconfiguration]
    exact start.stable
  unfold committedConfiguration
  rw [hvote, if_neg (Bool.false_ne_true ∘ Eq.symm), if_neg (not_not.mpr hstable), ite_self]

theorem Agrees.advanceCommittedId (hinv : Consistent start G) (h : Agrees start G s) :
    ∃ c G', s.advanceCommittedId = some { s with commitIndex := c } ∧ s.commitIndex ≤ c ∧
      Moves start s.serverId G G' ∧ Agrees start G' { s with commitIndex := c } := by
  unfold RaftConsensus.advanceCommittedId
  by_cases hs : s.state ≠ .leader
  · rw [if_pos hs]
    exact ⟨s.commitIndex, G, rfl, le_rfl, .refl _ _ _, h⟩
  rw [if_neg hs, not_not] at *
  dsimp only
  split_ifs with hle
  · exact ⟨s.commitIndex, G, rfl, le_rfl, .refl _ _ _, h⟩
  have hleads := h.leader hs
  obtain ⟨P, hP, hstored⟩ := hleads.quorum_stored hinv
  obtain ⟨k, hk⟩ : ∃ k, s.configuration.quorumMin s.getLastAgreeIndex = k + 1 :=
    Nat.exists_eq_succ_of_ne_zero (by omega)
  rw [hk] at hle hstored ⊢
  obtain ⟨j, hj, -⟩ := start.setting.meet hP hP
  have hlen : k + 1 ≤ s.log.length := by
    rw [← hleads.log]
    exact (hstored j hj).trans (hinv.stored_le j _)
  rw [getEntry_succ, List.getElem?_eq_getElem hlen, Option.bind_some]
  split_ifs with hterm
  · exact ⟨s.commitIndex, G, rfl, le_rfl, .refl _ _ _, h⟩
  rw [not_not] at hterm
  have hown : Own G s.currentTerm k :=
    ⟨s.log[k], by rw [hleads.log, List.getElem?_eq_getElem hlen], hterm⟩
  have hcommit := Step.commit (Q := start.setting) (k := k) hleads.leader
    (hleads.commit.trans (by omega)) ⟨hown, P, hP, hstored⟩
  have hext := hinv.extends_of_step hcommit
  have hrooted := hleads.rooted hinv
  refine ⟨k + 1, _, committedConfiguration_eq hrooted, by omega, hcommit.steps, ?_⟩
  exact { h with
    committed := by
      refine ⟨hlen, s.currentTerm, le_rfl, ?_⟩
      simp [hleads.log]
    candidate := fun hc => by simp [hs] at hc
    leader := fun _ => { hleads with
      commit := by simp } }

theorem onward_commit {c : ℕ} (hc : s.commitIndex ≤ c) : Onward s { s with commitIndex := c } :=
  ⟨rfl, le_rfl, rfl, fun hs _ => ⟨hs, List.prefix_rfl⟩, id, fun _ => rfl, hc⟩

theorem Agrees.takeSync (hinv : Consistent start G) (h : Agrees start G s)
    (hsync : s.takeSync = some s') :
    Agrees start G s' ∧ Onward s s' := by
  unfold RaftConsensus.takeSync at hsync
  split_ifs at hsync with hs
  obtain rfl := Option.some.inj hsync
  have hleads := h.leader hs.1
  have hsynced := hleads.synced_le hinv
  refine ⟨{ h with sync := ?_, candidate := ?_, leader := ?_ }, ?_⟩
  · intro t m hm
    obtain ⟨rfl, rfl⟩ := Prod.mk.inj (Option.some.inj hm)
    exact ⟨hleads.leader, fun _ _ => ⟨hsynced, le_rfl⟩⟩
  · exact fun hc => by simp [hs.1] at hc
  · exact fun _ => { hleads with }
  · exact ⟨rfl, le_rfl, rfl, fun hl _ => ⟨hl, List.prefix_rfl⟩, id, fun _ => rfl, le_rfl⟩

theorem Agrees.syncComplete (hinv : Consistent start G) (h : Agrees start G s) {t m : ℕ}
    (hsync : s.sync = some (t, m)) :
    ∃ s' G', s.syncComplete t m = some s' ∧ Moves start s.serverId G G' ∧ Agrees start G' s' ∧
      Onward s s' := by
  unfold RaftConsensus.syncComplete
  dsimp only
  have hnone : Agrees start G { s with sync := none } :=
    { h with
      sync := nofun
      candidate := fun hs => { h.candidate hs with }
      leader := fun hs => { h.leader hs with } }
  split_ifs with hs
  · obtain ⟨hs, ht⟩ := hs
    obtain ⟨hle, hlen⟩ := (h.sync hsync).2 hs ht
    have hleads := h.leader hs
    obtain ⟨G₁, hmoves, hterm, hvote, hleader, hlog, hcommit, hdisk, hstored⟩ :=
      h.store (by rwa [if_pos hs]) hlen
    obtain ⟨hinv₁, hext, -⟩ := hinv.steps hmoves
    have hagrees : Agrees start G₁ { s with sync := none, lastSyncedIndex := m } := {
      term := by rw [hterm]; exact h.term
      vote := by rw [hvote]; exact h.vote
      leaderId := by rw [hleader]; exact h.leaderId
      committed := ⟨h.committed.1, h.committed.2.mono hext le_rfl⟩
      sync := nofun
      rpc := h.rpc
      follower := fun hf => by simp [hs] at hf
      candidate := fun hc => by simp [hs] at hc
      leader := fun _ => {
        leader := by rw [hleader]; exact hleads.leader
        log := by rw [hlog]; exact hleads.log
        disk := hdisk
        synced := hstored hs
        agreed := fun hj => (hleads.agreed hj).trans (hext.stored _ _)
        next := hleads.next
        commit := by rw [hcommit]; exact hleads.commit } }
    obtain ⟨c, G₂, heq, hc, hmoves', hagrees'⟩ := hagrees.advanceCommittedId hinv₁
    exact ⟨_, G₂, heq, hmoves.trans hmoves', hagrees',
      ⟨rfl, le_rfl, rfl, fun hl _ => ⟨hl, List.prefix_rfl⟩, id, fun _ => rfl, hc⟩⟩
  · exact ⟨_, G, rfl, .refl _ _ _, hnone,
      ⟨rfl, le_rfl, rfl, fun hl _ => ⟨hl, List.prefix_rfl⟩, id, fun _ => rfl, le_rfl⟩⟩

/-- The entries are those of the log of the sender behind the one with index `prevLogIndex`, and
what the request says to be committed is. -/
structure EntriesSent (G : World (Fin n) (EntryType n Op)) (request : Raft.AppendEntries n Op) :
    Prop where
  other : request.serverId ≠ request.recipientId
  leader : G.leader request.term = some request.serverId
  previous : request.prevLogIndex ≤ (G.log request.term).length
  prevLogTerm : request.prevLogIndex = 0 ∨
    (Log.getEntry (G.log request.term) request.prevLogIndex).map (·.term) = some request.prevLogTerm
  entries : request.entries <+: (G.log request.term).drop request.prevLogIndex
  commitIndex : request.commitIndex ≤ request.prevLogIndex + request.entries.length
  committed : Chosen G request.term ((G.log request.term).take request.commitIndex)

theorem EntriesSent.leader_ne_none {request : Raft.AppendEntries n Op} (h : EntriesSent G request)
    (hterm : s.currentTerm = request.term) : G.leader s.currentTerm ≠ none := by
  rw [hterm, h.leader]
  exact Option.some_ne_none _

theorem EntriesSent.length_le {request : Raft.AppendEntries n Op} (h : EntriesSent G request) :
    request.prevLogIndex + request.entries.length ≤ (G.log request.term).length := by
  have hlen := h.entries.length_le
  rw [List.length_drop] at hlen
  have := h.previous
  omega

theorem EntriesSent.mono {request : Raft.AppendEntries n Op} (h : EntriesSent G request)
    (hext : Extends G G') : EntriesSent G' request := by
  have hlog := hext.log request.term
  refine { h with
    leader := hext.leader h.leader
    previous := h.previous.trans hlog.length_le
    prevLogTerm := ?_
    entries := ?_
    committed := ?_ }
  · refine h.prevLogTerm.imp_right fun hterm => ?_
    obtain ⟨entry, hentry, hterm⟩ := Option.map_eq_some_iff.mp hterm
    unfold Log.getEntry at hentry ⊢
    split_ifs at hentry ⊢
    rw [prefix_getElem? hlog hentry, ← hterm]
    rfl
  · obtain ⟨r, hr⟩ := hlog
    rw [← hr, List.drop_append_of_le_length h.previous]
    exact h.entries.trans (List.prefix_append _ _)
  · rw [take_eq_of_le_length hlog (h.commitIndex.trans h.length_le)]
    exact h.committed.mono hext le_rfl

/-- What the loop puts into the request are entries of the log without a gap. -/
def Contiguous (size : Op → ℕ) (s : RaftConsensus n Op) (j : Fin n) : Prop :=
  ∀ request, s.appendEntries size j = some request →
    request.entries <+: s.log.drop request.prevLogIndex

theorem packEntries_prevLogIndex (size : Op → ℕ) (request : Raft.AppendEntries n Op)
    (rest : Log n Op) : ∃ entries, packEntries size request rest = { request with entries } := by
  induction rest generalizing request with
  | nil => exact ⟨request.entries, rfl⟩
  | cons entry rest ih =>
    unfold packEntries
    dsimp only
    split_ifs
    · exact ih { request with entries := request.entries ++ [entry] }
    · exact ih request

/-- A leader can always send its log; what it sends is as it says if there is no gap. -/
theorem Agrees.appendEntries (h : Agrees start G s) (hs : s.state = .leader) {j : Fin n}
    (hj : j ≠ s.serverId) {size : Op → ℕ} (hcontiguous : Contiguous size s j) :
    ∃ request, s.appendEntries size j = some request ∧ EntriesSent G request ∧
      request.serverId = s.serverId ∧ request.recipientId = j ∧ request.term = s.currentTerm := by
  have hleads := h.leader hs
  obtain ⟨hpos, hnext⟩ := hleads.next hj
  have hprev : (s.peers j).nextIndex - 1 ≤ s.log.length := by omega
  obtain ⟨prevLogTerm, hterm, hmatch⟩ : ∃ t,
      (if (s.peers j).nextIndex - 1 = 0 then some 0
        else (s.log.getEntry ((s.peers j).nextIndex - 1)).map (·.term)) = some t ∧
      ((s.peers j).nextIndex - 1 = 0 ∨
        (s.log.getEntry ((s.peers j).nextIndex - 1)).map (·.term) = some t) := by
    by_cases hzero : (s.peers j).nextIndex - 1 = 0
    · exact ⟨0, if_pos hzero, .inl hzero⟩
    · obtain ⟨k, hk⟩ := Nat.exists_eq_succ_of_ne_zero hzero
      rw [hk] at hprev ⊢
      rw [if_neg (Nat.succ_ne_zero k), getEntry_succ, List.getElem?_eq_getElem hprev]
      exact ⟨_, rfl, .inr rfl⟩
  obtain ⟨entries, hentries⟩ : ∃ entries,
      (if (s.peers j).forceHeartbeat = true then
        (⟨s.serverId, j, s.currentTerm, prevLogTerm, (s.peers j).nextIndex - 1, [], 0⟩ :
          Raft.AppendEntries n Op)
      else packEntries size
        ⟨s.serverId, j, s.currentTerm, prevLogTerm, (s.peers j).nextIndex - 1, [], 0⟩
        (s.log.drop ((s.peers j).nextIndex - 1))) =
      ⟨s.serverId, j, s.currentTerm, prevLogTerm, (s.peers j).nextIndex - 1, entries, 0⟩ := by
    split_ifs
    · exact ⟨[], rfl⟩
    · exact packEntries_prevLogIndex size _ _
  have heq : s.appendEntries size j = some ⟨s.serverId, j, s.currentTerm, prevLogTerm,
      (s.peers j).nextIndex - 1, entries,
      min s.commitIndex ((s.peers j).nextIndex - 1 + entries.length)⟩ := by
    unfold RaftConsensus.appendEntries
    dsimp only
    rw [if_neg (by omega), hterm, Option.map_some, hentries]
  refine ⟨_, heq, ?_, rfl, rfl, rfl⟩
  have hlist := hcontiguous _ heq
  exact {
    other := hj.symm
    leader := hleads.leader
    previous := by rw [hleads.log]; exact hprev
    prevLogTerm := by rw [hleads.log]; exact hmatch
    entries := by rw [hleads.log]; exact hlist
    commitIndex := min_le_right _ _
    committed := by
      rw [hleads.log]
      exact h.committed.2.anti (List.take_prefix_take_left (min_le_left _ _)) }

theorem Agrees.continueAfter (hinv : Consistent start G) (h : Agrees start G s)
    (hs : s.state = .leader) (j : Fin n) :
    Agrees start G (s.setPeer j { s.peers j with
      nextIndex := (s.peers j).lastAgreeIndex + 1
      forceHeartbeat := false }) := by
  refine h.setPeer j _ h.rpc (fun hc => by simp [hs] at hc) fun _ hj => ?_
  have hleads := h.leader hs
  have hagreed := hleads.agreed hj
  have hstored := hinv.stored_le j s.currentTerm
  rw [hleads.log] at hstored
  exact ⟨hagreed, Nat.succ_pos _, Nat.succ_le_succ (hagreed.trans hstored)⟩

theorem Agrees.appendEntriesReply (hinv : Consistent start G) (h : Agrees start G s) {j : Fin n}
    {epoch : ℕ} {request : Raft.AppendEntries n Op} {term : ℕ} {success : Bool}
    (hleader : request.term = s.currentTerm → s.state = .leader) (hterm : request.term ≤ term)
    (hstored : success = true → term = request.term ∧
      request.prevLogIndex + request.entries.length ≤ G.stored j request.term) :
    ∃ s' G', s.appendEntriesReply j epoch request term success = some s' ∧
      Moves start s.serverId G G' ∧ Agrees start G' s' ∧ (Onward s s' ∨ term ≤ s.currentTerm ∧
        Onward (s.setPeer j { s.peers j with lastAckEpoch := epoch }) s') := by
  unfold RaftConsensus.appendEntriesReply
  by_cases hold : s.currentTerm ≠ request.term
  · rw [if_pos hold]
    exact ⟨s, G, rfl, .refl _ _ _, h, .inl (.refl s)⟩
  rw [if_neg hold]
  rw [not_not] at hold
  have hs := hleader hold.symm
  rw [if_neg (not_not.mpr hs)]
  by_cases hlt : s.currentTerm < term
  · rw [if_pos hlt]
    obtain ⟨s', G', heq, hmoves, hagrees, honward, -⟩ := h.stepDown hinv hlt.le fun _ => hlt
    exact ⟨s', G', heq, hmoves, hagrees, .inl honward⟩
  rw [if_neg hlt, if_neg (not_not.mpr (le_antisymm (Nat.le_of_not_lt hlt) (hold ▸ hterm)))]
  have hleads := h.leader hs
  dsimp only
  cases success with
  | false =>
    refine ⟨_, G, rfl, .refl _ _ _, h.setPeer j _ h.rpc (fun hc => by simp [hs] at hc)
      fun _ hj => ⟨hleads.agreed hj, ?_⟩,
      .inr ⟨Nat.le_of_not_lt hlt, onward_setPeer_setPeer rfl rfl⟩⟩
    have hnext := hleads.next hj
    dsimp only
    split_ifs <;> omega
  | true =>
    rw [if_pos rfl]
    split_ifs with hback
    · have hagrees₁ : Agrees start G (s.setPeer j { s.peers j with lastAckEpoch := epoch }) :=
        h.setPeer j _ h.rpc (fun hc => by simp [hs] at hc)
          fun _ hj => ⟨hleads.agreed hj, hleads.next hj⟩
      exact ⟨_, G, rfl, .refl _ _ _, hagrees₁.continueAfter hinv hs j,
        .inr ⟨Nat.le_of_not_lt hlt, onward_setPeer rfl rfl⟩⟩
    · have hagrees₁ : Agrees start G (s.setPeer j { s.peers j with
          lastAckEpoch := epoch
          lastAgreeIndex := request.prevLogIndex + request.entries.length }) :=
        h.setPeer j _ h.rpc (fun hc => by simp [hs] at hc)
          fun _ hj => ⟨by rw [hold]; exact (hstored rfl).2, hleads.next hj⟩
      obtain ⟨c, G', heq, hc, hmoves, hagrees⟩ := hagrees₁.advanceCommittedId hinv
      refine ⟨_, G', by rw [heq, Option.map_some], hmoves,
        hagrees.continueAfter (hinv.steps hmoves).1 hs j, .inr ⟨Nat.le_of_not_lt hlt, ?_⟩⟩
      have honward : Onward (s.setPeer j { s.peers j with lastAckEpoch := epoch })
          (s.setPeer j { s.peers j with
            lastAckEpoch := epoch
            lastAgreeIndex := request.prevLogIndex + request.entries.length }) :=
        onward_setPeer_setPeer rfl rfl
      exact (honward.trans (onward_commit hc)).trans (onward_setPeer rfl rfl)

/-- The loop keeps the part of the log on which it agrees with the log `L` of the leader, and adds
the rest of the entries: either the log has all of them, or `d` is the first place where it ends or
differs. -/
theorem mergeEntries_spec {L log : Log n Op} {c : ℕ}
    (hmatch : ∀ {k e e'}, log[k]? = some e → L[k]? = some e' → e.term = e'.term →
      log.take (k + 1) = L.take (k + 1))
    (hc : log.take c <+: L) (entries : Log n Op) (k : ℕ) (hentries : entries <+: L.drop k)
    (hk : log.take k = L.take k) (hlen : k ≤ log.length) :
    (mergeEntries c log (k + 1) entries = some (log, []) ∧ L.take (k + entries.length) <+: log) ∨
    ∃ d, d < k + entries.length ∧ log.take d = L.take d ∧
      mergeEntries c log (k + 1) entries =
        some (L.take d, (L.take (k + entries.length)).drop d) ∧
      ¬L.take (d + 1) <+: log ∧ (d = log.length ∨ ¬log.take (d + 1) <+: L) := by
  induction entries generalizing k with
  | nil => exact .inl ⟨rfl, by simpa [← hk] using List.take_prefix k log⟩
  | cons entry entries ih =>
    have hrest : entry :: entries = (L.take (k + (entry :: entries).length)).drop k := by
      rw [List.drop_take, Nat.add_sub_cancel_left]
      exact List.prefix_iff_eq_take.mp hentries
    obtain ⟨r, hr⟩ := hentries
    have hL : L[k]? = some entry := by
      rw [← Nat.add_zero k, ← List.getElem?_drop, ← hr]
      rfl
    have hdrop : entries <+: L.drop (k + 1) := by
      rw [← List.tail_drop, ← hr]
      exact List.prefix_append _ _
    unfold mergeEntries
    by_cases hin : k + 1 ≤ log.length
    · rw [if_pos hin, getEntry_succ, List.getElem?_eq_getElem hin, Option.bind_some]
      have hold : log[k]? = some log[k] := List.getElem?_eq_getElem hin
      by_cases hterm : log[k].term = entry.term
      · rw [if_pos hterm]
        have := ih (k + 1) hdrop (hmatch hold hL hterm) hin
        rwa [show k + 1 + entries.length = k + (entry :: entries).length by
          rw [List.length_cons]; omega] at this
      · have hdiffer : log[k]? ≠ L[k]? := by
          rw [hold, hL]
          exact fun heq => hterm (congrArg ElectedLogs.Entry.term (Option.some.inj heq))
        have hcommit : c < k + 1 := by
          by_contra hge
          refine hdiffer ?_
          rw [hold]
          refine (prefix_getElem? hc ?_).symm
          rw [List.getElem?_take_of_lt (by omega), hold]
        rw [if_neg hterm, if_pos hcommit, Nat.add_sub_cancel]
        refine .inr ⟨k, by simp, hk, ?_, fun hpre => hdiffer ?_, .inr fun hpre => hdiffer ?_⟩
        · rw [← hrest, hk]
        · rw [hL]
          exact prefix_getElem? hpre ((List.getElem?_take_of_lt (Nat.lt_succ_self k)).trans hL)
        · rw [hold]
          exact (prefix_getElem? hpre
            ((List.getElem?_take_of_lt (Nat.lt_succ_self k)).trans hold)).symm
    · rw [if_neg hin]
      obtain rfl : k = log.length := by omega
      rw [List.take_length] at hk
      refine .inr ⟨log.length, by simp, by rwa [List.take_length], ?_, fun hpre => ?_, .inl rfl⟩
      · rw [← hrest, ← hk]
      · have hlt := hpre.length_le
        have hL' := (List.getElem?_eq_some_iff.mp hL).1
        rw [List.length_take, min_eq_left hL'] at hlt
        omega

theorem Agrees.acceptLeader (hinv : Consistent start G) (h : Agrees start G s)
    {request : Raft.AppendEntries n Op} (hrequest : EntriesSent G request)
    (hserver : request.recipientId = s.serverId) (hle : s.currentTerm ≤ request.term) :
    ∃ s' G', s.acceptLeader request = some s' ∧ Moves start s.serverId G G' ∧ Agrees start G' s' ∧
      Onward s s' ∧ s'.currentTerm = request.term ∧ s'.state = .follower := by
  have hnot : s.state = .leader → s.currentTerm < request.term := by
    intro hs
    refine hle.lt_of_ne fun heq => hrequest.other ?_
    have hleader := (h.leader hs).leader
    rw [heq, hrequest.leader] at hleader
    rw [hserver]
    exact Option.some.inj hleader
  obtain ⟨s₁, G₁, heq, hmoves, hagrees, honward, hterm, hstate, -⟩ := h.stepDown hinv hle hnot
  have hleader : G₁.leader s₁.currentTerm = some request.serverId := by
    rw [hterm]
    exact (hinv.steps hmoves).2.1.leader hrequest.leader
  unfold RaftConsensus.acceptLeader
  rw [heq, Option.bind_some]
  unfold hailLeader
  cases hid : s₁.leaderId with
  | none =>
    refine ⟨_, G₁, rfl, hmoves, ?_, honward.trans ?_, hterm, hstate⟩
    · exact { hagrees with
        leaderId := fun hc => Option.some.inj hc ▸ hleader
        candidate := fun hc => by simp [hstate] at hc
        leader := fun hl => by simp [hstate] at hl }
    · exact ⟨rfl, le_rfl, rfl, fun hl _ => ⟨hl, List.prefix_rfl⟩, id, fun _ => rfl, le_rfl⟩
  | some known =>
    have hknown : known = request.serverId :=
      Option.some.inj ((hagrees.leaderId hid).symm.trans hleader)
    refine ⟨s₁, G₁, ?_, hmoves, hagrees, honward, hterm, hstate⟩
    dsimp only
    rw [if_pos hknown]

theorem Agrees.committed_prefix_log (hinv : Consistent start G) (h : Agrees start G s)
    (hleader : G.leader s.currentTerm ≠ none) :
    s.log.take s.commitIndex <+: G.log s.currentTerm :=
  hinv.chosen_prefix_log h.committed.2 le_rfl hleader

theorem Agrees.storeLog (hinv : Consistent start G) (h : Agrees start G s)
    (hs : s.state = .follower)
    (hleader : G.leader s.currentTerm ≠ none) {m : ℕ} (hm : m ≤ (G.log s.currentTerm).length)
    {log : Log n Op} (hlog : log = merge s.log ((G.log s.currentTerm).take m)) (queued : Bool) :
    ∃ G', Moves start s.serverId G G' ∧ G'.log = G.log ∧ m ≤ G'.stored s.serverId s.currentTerm ∧
      G'.disk s.serverId = log ∧
      Agrees start G' { s with log := log, logSyncQueued := queued } := by
  have hstore := Step.store (Q := start.setting) h.term hleader hm
  have hext := hinv.extends_of_step hstore
  have hdisk := h.follower hs
  have hkept : s.log.take s.commitIndex <+: log := by
    rw [hlog]
    exact prefix_merge_trans (List.take_prefix _ _) (h.committed_prefix_log hinv hleader)
      (List.take_prefix _ _)
  have hlen := hkept.length_le
  rw [List.length_take, min_eq_left h.committed.1] at hlen
  refine ⟨_, hstore.steps, rfl, by simp, by simp [hdisk, hlog], { h with
    committed := ⟨hlen, ?_⟩
    sync := fun hsync => ⟨(h.sync hsync).1, fun hl => by simp [hs] at hl⟩
    follower := fun _ => by simp [hdisk, hlog]
    candidate := fun hc => by simp [hs] at hc
    leader := fun hl => by simp [hs] at hl }⟩
  dsimp only
  have htake : log.take s.commitIndex = s.log.take s.commitIndex := by
    have := take_eq_of_le_length hkept (k := s.commitIndex) (by simp [h.committed.1])
    rwa [List.take_take, min_self] at this
  rw [htake]
  exact h.committed.2.mono hext le_rfl

theorem Agrees.take_eq_of_matches (hinv : Consistent start G) (h : Agrees start G s)
    (hs : s.state ≠ .leader) {request : Raft.AppendEntries n Op} (hrequest : EntriesSent G request)
    (hmatch : s.matchesPrevious request = true) :
    request.prevLogIndex ≤ s.log.length ∧
      s.log.take request.prevLogIndex = (G.log request.term).take request.prevLogIndex := by
  obtain ⟨hle, hterm⟩ := of_decide_eq_true hmatch
  refine ⟨hle, ?_⟩
  rcases hk : request.prevLogIndex with - | k
  · simp
  rw [hk] at hterm
  have hsent := hrequest.prevLogTerm
  rw [hk] at hsent
  obtain ⟨e, he, hterm⟩ := Option.map_eq_some_iff.mp (hterm.resolve_left (Nat.succ_ne_zero k))
  obtain ⟨e', he', hterm'⟩ := Option.map_eq_some_iff.mp (hsent.resolve_left (Nat.succ_ne_zero k))
  have hsound := hinv.sound_disk s.serverId
  rw [h.disk hs] at hsound
  exact hsound.take_eq (hinv.sound_log _) he he' (hterm.trans hterm'.symm)

theorem Agrees.mergeEntries (hinv : Consistent start G) (h : Agrees start G s)
    (hs : s.state = .follower)
    {request : Raft.AppendEntries n Op} (hrequest : EntriesSent G request)
    (hterm : s.currentTerm = request.term) (hmatch : s.matchesPrevious request = true) :
    ∃ kept added, RaftConsensus.mergeEntries s.commitIndex s.log (request.prevLogIndex + 1)
        request.entries = some (kept, added) ∧
      (added = [] ∧ kept = s.log ∧ kept = merge s.log ((G.log s.currentTerm).take
          (request.prevLogIndex + request.entries.length)) ∨
        added ≠ [] ∧ ∃ d, kept = (G.log s.currentTerm).take d ∧ kept = s.log.take d ∧
          added = ((G.log s.currentTerm).take
            (request.prevLogIndex + request.entries.length)).drop d ∧
          d < request.prevLogIndex + request.entries.length ∧
          ¬(G.log s.currentTerm).take (d + 1) <+: s.log ∧
          (d = s.log.length ∨ ¬s.log.take (d + 1) <+: G.log s.currentTerm)) := by
  have hne : s.state ≠ .leader := by simp [hs]
  obtain ⟨hle, htake⟩ := h.take_eq_of_matches hinv hne hrequest hmatch
  have hlength := hrequest.length_le
  have hentries := hrequest.entries
  have hleader := hrequest.leader_ne_none hterm
  rw [← hterm] at htake hlength hentries
  have hsound := hinv.sound_disk s.serverId
  rw [h.follower hs] at hsound
  rcases mergeEntries_spec (fun he he' ht => hsound.take_eq (hinv.sound_log _) he he' ht)
      (h.committed_prefix_log hinv hleader) request.entries request.prevLogIndex hentries htake hle
    with ⟨heq, hall⟩ | ⟨d, hd, hkept, heq, hnot, hend⟩
  · refine ⟨_, _, heq, .inl ⟨rfl, rfl, ?_⟩⟩
    rcases merge_cases s.log ((G.log s.currentTerm).take
      (request.prevLogIndex + request.entries.length)) with ⟨-, hmerge⟩ | ⟨habsurd, -⟩
    · exact hmerge.symm
    · exact absurd hall habsurd
  · refine ⟨_, _, heq, .inr ⟨?_, d, rfl, hkept.symm, rfl, hd, hnot, hend⟩⟩
    rw [Ne, List.drop_eq_nil_iff, List.length_take, min_eq_left hlength]
    exact Nat.not_le_of_lt hd

theorem take_append_take_drop (L : Log n Op) {d m : ℕ} (count : ℕ) (hd : d ≤ m) :
    L.take d ++ ((L.take m).drop d).take count = L.take (min (d + count) m) := by
  rw [List.drop_take, List.take_take, ← List.take_add]
  congr 1
  omega

theorem merge_take_of_not {L log : Log n Op} {d m : ℕ} (hd : d < m)
    (hnot : ¬L.take (d + 1) <+: log) : merge log (L.take m) = L.take m := by
  rcases merge_cases log (L.take m) with ⟨habsurd, -⟩ | ⟨-, heq⟩
  · exact absurd ((List.take_prefix_take_left hd).trans habsurd) hnot
  · exact heq

/-- The log of a follower becomes that of the leader up to the last entry of the request, unless
it is so already. -/
theorem Agrees.appendAdded (hinv : Consistent start G) (h : Agrees start G s)
    (hs : s.state = .follower)
    {request : Raft.AppendEntries n Op} (hrequest : EntriesSent G request)
    (hterm : s.currentTerm = request.term) (hmatch : s.matchesPrevious request = true) :
    ∃ kept added, RaftConsensus.mergeEntries s.commitIndex s.log (request.prevLogIndex + 1)
        request.entries = some (kept, added) ∧
      ∃ s', (if added = [] then some s
        else RaftConsensus.append { s with log := kept } added) = some s' ∧
      ∃ queued, s' = { s with
        log := merge s.log ((G.log s.currentTerm).take
          (request.prevLogIndex + request.entries.length))
        logSyncQueued := queued } := by
  obtain ⟨kept, added, hmerge, hcases⟩ := h.mergeEntries hinv hs hrequest hterm hmatch
  have hlength := hrequest.length_le
  rw [← hterm] at hlength
  refine ⟨kept, added, hmerge, ?_⟩
  rcases hcases with ⟨hnil, hkept, heq⟩ | ⟨hne, d, hkept, -, hadded, hd, hnot, -⟩
  · refine ⟨s, if_pos hnil, s.logSyncQueued, ?_⟩
    rw [← heq, hkept]
  · refine ⟨_, (if_neg hne).trans (append_eq fun e he => ?_),
      s.logSyncQueued || s.state = .leader, ?_⟩
    · rw [hadded] at he
      exact hinv.term_pos (List.mem_of_mem_take (List.mem_of_mem_drop he))
    · have hall := take_append_take_drop (G.log s.currentTerm) added.length hd.le
      rw [← hadded, List.take_length, ← hkept] at hall
      rw [merge_take_of_not hd hnot]
      dsimp only
      rw [hall, hadded, List.length_drop, List.length_take, min_eq_left hlength,
        Nat.add_sub_cancel' hd.le, min_self]

theorem Agrees.setCommitIndex (h : Agrees start G s) (hs : s.state = .follower)
    {request : Raft.AppendEntries n Op} (hrequest : EntriesSent G request)
    (hterm : s.currentTerm = request.term)
    (hhas : (G.log request.term).take (request.prevLogIndex + request.entries.length) <+: s.log) :
    ∃ s', s.setCommitIndex request.commitIndex = some s' ∧ Agrees start G s' ∧ Onward s s' ∧
      s'.currentTerm = s.currentTerm := by
  unfold RaftConsensus.setCommitIndex
  split_ifs with hlt hlen
  · refine ⟨_, rfl, { h with
      committed := ⟨hlen, ?_⟩
      candidate := fun hc => by simp [hs] at hc
      leader := fun hl => by simp [hs] at hl }, onward_commit hlt.le, rfl⟩
    dsimp only
    have htake := take_eq_of_le_length hhas (k := request.commitIndex) (by
      rw [List.length_take, min_eq_left hrequest.length_le]
      exact hrequest.commitIndex)
    rw [htake, List.take_take, min_eq_left hrequest.commitIndex, hterm]
    exact hrequest.committed
  · refine absurd ?_ hlen
    have hlength := hhas.length_le
    rw [List.length_take, min_eq_left hrequest.length_le] at hlength
    exact hrequest.commitIndex.trans hlength
  · exact ⟨s, rfl, h, .refl s, rfl⟩

/-- A follower has stored all entries of a request that it has answered with success. -/
theorem Agrees.handleAppendEntries (hinv : Consistent start G) (h : Agrees start G s)
    {request : Raft.AppendEntries n Op} (hrequest : EntriesSent G request)
    (hserver : request.recipientId = s.serverId) :
    ∃ s' term success G', s.handleAppendEntries request = some (s', .appendEntries term success) ∧
      Moves start s.serverId G G' ∧ Agrees start G' s' ∧ Onward s s' ∧ term = s'.currentTerm ∧
      request.term ≤ term ∧ (success = true → term = request.term ∧
        request.prevLogIndex + request.entries.length ≤ G'.stored s.serverId request.term) := by
  unfold RaftConsensus.handleAppendEntries
  by_cases hstale : request.term < s.currentTerm
  · rw [if_pos hstale]
    exact ⟨s, _, false, G, rfl, .refl _ _ _, h, .refl s, rfl, hstale.le, nofun⟩
  rw [if_neg hstale]
  have hle := Nat.le_of_not_lt hstale
  have hanswer : (if s.currentTerm < request.term then request.term else s.currentTerm) =
      request.term := by
    split_ifs with hlt
    · rfl
    · exact le_antisymm hle (Nat.le_of_not_lt hlt)
  dsimp only
  rw [hanswer]
  obtain ⟨s₁, G₁, heq₁, hmoves₁, hagrees₁, honward₁, hterm₁, hstate₁⟩ :=
    h.acceptLeader hinv hrequest hserver hle
  obtain ⟨hinv₁, hext₁, -⟩ := hinv.steps hmoves₁
  have hrequest₁ := hrequest.mono hext₁
  rw [heq₁, Option.bind_some]
  by_cases hmatch : s₁.matchesPrevious request = false
  · rw [if_pos hmatch]
    exact ⟨s₁, _, false, G₁, rfl, hmoves₁, hagrees₁, honward₁, hterm₁.symm, le_rfl, nofun⟩
  rw [if_neg hmatch]
  rw [Bool.not_eq_false] at hmatch
  obtain ⟨kept, added, hmerge, s₂, heq₂, queued, hs₂⟩ :=
    hagrees₁.appendAdded hinv₁ hstate₁ hrequest₁ hterm₁ hmatch
  rw [hmerge, Option.bind_some]
  dsimp only
  rw [heq₂, Option.bind_some]
  have hlength := hrequest₁.length_le
  have hleader := hrequest₁.leader_ne_none hterm₁
  rw [← hterm₁] at hlength
  obtain ⟨G₂, hmoves₂, hlog₂, hstored₂, hdisk₂, hagrees₂⟩ :=
    hagrees₁.storeLog hinv₁ hstate₁ hleader hlength rfl queued
  rw [← hs₂] at hagrees₂
  rw [honward₁.serverId] at hmoves₂ hstored₂
  have honward₂ : Onward s₁ s₂ := by
    rw [hs₂]
    exact ⟨rfl, le_rfl, rfl, fun hl => by simp [hstate₁] at hl, id, fun _ => rfl, le_rfl⟩
  have hterm₂ : s₂.currentTerm = request.term := by rw [hs₂]; exact hterm₁
  have hstate₂ : s₂.state = .follower := by rw [hs₂]; exact hstate₁
  have hhas₂ : (G₂.log request.term).take (request.prevLogIndex + request.entries.length) <+:
      s₂.log := by
    rw [hs₂, hlog₂, hterm₁]
    exact prefix_merge _ _
  obtain ⟨s₃, heq₃, hagrees₃, honward₃, hterm₃⟩ := hagrees₂.setCommitIndex hstate₂
    (hrequest₁.mono (hinv₁.steps hmoves₂).2.1) hterm₂ hhas₂
  refine ⟨s₃, _, true, G₂, by rw [heq₃, Option.map_some], hmoves₁.trans hmoves₂, hagrees₃,
    (honward₁.trans honward₂).trans honward₃, (hterm₃.trans hterm₂).symm, le_rfl,
    fun _ => ⟨rfl, ?_⟩⟩
  rw [← hterm₁]
  exact hstored₂

theorem agrees_init (hinv : Consistent start G) {i : Fin n} {t : ℕ} {votedFor : Option (Fin n)}
    {log : Log n Op} (hterm : G.term i = t)
    (hvote : start.setting.base < t → G.vote i t = votedFor) (hdisk : G.disk i = log) :
    ∃ G', Moves start i G G' ∧ Agrees start G' (init i t votedFor log) :=
  ⟨_, (Step.advance hterm.le).steps, agrees_advance hinv hterm.le rfl rfl rfl hdisk
    (fun hbase => by rw [if_neg hterm.not_lt, hvote hbase]; rfl) nofun
    ⟨Nat.zero_le _, chosen_nil _ _⟩ nofun nofun⟩

theorem Agrees.restart_all (hinv : Consistent start G) (h : Agrees start G s) :
    ∃ G', Moves start s.serverId G G' ∧ Agrees start G' (s.restart s.currentTerm s.log.length) := by
  refine h.restart hinv le_rfl ?_ le_rfl
  split_ifs with hs
  · exact (h.leader hs).synced_le hinv
  · exact le_rfl

/-- However many of the new entries have reached the disk, the log is one that the server may
have. -/
theorem Agrees.stopAppending (hinv : Consistent start G) (h : Agrees start G s)
    {request : Raft.AppendEntries n Op} (hrequest : EntriesSent G request)
    (hserver : request.recipientId = s.serverId) (count : ℕ) :
    ∃ s' G', s.stopAppending request count = some s' ∧ Moves start s.serverId G G' ∧
      Agrees start G' s' ∧ s'.serverId = s.serverId ∧ s.currentTerm ≤ s'.currentTerm ∧
      ∀ j, (s'.peers j).rpc = none ∧ (s'.peers j).lastAckEpoch = 0 := by
  unfold RaftConsensus.stopAppending
  by_cases hstale : request.term < s.currentTerm
  · rw [if_pos hstale]
    obtain ⟨G', hmoves, hagrees⟩ := h.restart_all hinv
    exact ⟨_, G', rfl, hmoves, hagrees, rfl, le_rfl, fun _ => ⟨rfl, rfl⟩⟩
  rw [if_neg hstale]
  obtain ⟨s₁, G₁, heq₁, hmoves₁, hagrees₁, honward₁, hterm₁, hstate₁⟩ :=
    h.acceptLeader hinv hrequest hserver (Nat.le_of_not_lt hstale)
  obtain ⟨hinv₁, hext₁, -⟩ := hinv.steps hmoves₁
  have hrequest₁ := hrequest.mono hext₁
  have hserver₁ := honward₁.serverId
  rw [heq₁, Option.bind_some]
  by_cases hmatch : s₁.matchesPrevious request = false
  · rw [if_pos hmatch]
    obtain ⟨G₂, hmoves₂, hagrees₂⟩ := hagrees₁.restart_all hinv₁
    rw [hserver₁] at hmoves₂
    exact ⟨_, G₂, rfl, hmoves₁.trans hmoves₂, hagrees₂, hserver₁, honward₁.term,
      fun _ => ⟨rfl, rfl⟩⟩
  rw [if_neg hmatch]
  rw [Bool.not_eq_false] at hmatch
  obtain ⟨kept, added, hmerge, hcases⟩ :=
    hagrees₁.mergeEntries hinv₁ hstate₁ hrequest₁ hterm₁ hmatch
  rw [hmerge, Option.map_some]
  suffices hsuffices : ∃ G₂, Moves start s₁.serverId G₁ G₂ ∧ G₂.term s₁.serverId = s₁.currentTerm ∧
      (start.setting.base < s₁.currentTerm →
        G₂.vote s₁.serverId s₁.currentTerm = s₁.votedFor) ∧
      G₂.disk s₁.serverId = kept ++ added.take count by
    obtain ⟨G₂, hmoves₂, hterm₂, hvote₂, hdisk₂⟩ := hsuffices
    obtain ⟨G₃, hmoves₃, hagrees₃⟩ := agrees_init (hinv₁.steps hmoves₂).1 hterm₂ hvote₂ hdisk₂
    have hmoves := hmoves₂.trans hmoves₃
    rw [hserver₁] at hmoves
    exact ⟨_, G₃, rfl, hmoves₁.trans hmoves, hagrees₃, hserver₁, honward₁.term,
      fun _ => ⟨rfl, rfl⟩⟩
  have hleader := hrequest₁.leader_ne_none hterm₁
  have hdisk := hagrees₁.follower hstate₁
  rcases hcases with ⟨rfl, rfl, -⟩ | ⟨-, d, hkept, hsame, rfl, hd, hnot, hend⟩
  · exact ⟨G₁, .refl _ _ _, hagrees₁.term, hagrees₁.vote, by simp [hdisk]⟩
  rcases Nat.eq_zero_or_pos count with rfl | hpos
  · -- the entries that differ are gone, and nothing is written yet
    rw [List.take_zero, List.append_nil, hsame]
    rcases hend with rfl | hcut
    · exact ⟨G₁, .refl _ _ _, hagrees₁.term, hagrees₁.vote, by rw [hdisk, List.take_length]⟩
    · rw [← hdisk] at hcut ⊢
      exact ⟨_, (Step.cut hagrees₁.term hleader hcut).steps, hagrees₁.term, hagrees₁.vote, by simp⟩
  · have hlength := hrequest₁.length_le
    rw [← hterm₁] at hlength
    rw [hkept, take_append_take_drop _ count hd.le]
    have hlt : d < min (d + count) (request.prevLogIndex + request.entries.length) := by omega
    obtain ⟨G₂, hmoves₂, -, -, hdisk₂, hagrees₂⟩ := hagrees₁.storeLog hinv₁ hstate₁ hleader
      ((min_le_right _ _).trans hlength) (merge_take_of_not hlt hnot).symm s₁.logSyncQueued
    exact ⟨G₂, hmoves₂, hagrees₂.term, hagrees₂.vote, hdisk₂⟩

end RaftConsensus

end RaftMonitor.LogCabin
