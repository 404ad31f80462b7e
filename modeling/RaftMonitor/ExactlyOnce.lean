import RaftMonitor.StateMachine

namespace RaftMonitor.LogCabin

def ReadWriteTree.asks (request : ReadWriteTree) : Bool :=
  request.makeDirectory.isSome || request.removeDirectory.isSome || request.write.isSome ||
    request.removeFile.isSome

theorem Tree.readWriteTreeRPC_isSome (t : Tree) {request : ReadWriteTree}
    (h : request.asks = true) : (t.readWriteTreeRPC request).isSome := by
  unfold Tree.readWriteTreeRPC
  dsimp only
  rw [Option.isSome_map]
  split_ifs
  · rfl
  · unfold Tree.readWriteOp
    unfold ReadWriteTree.asks at h
    cases hm : request.makeDirectory with
    | some _ => rfl
    | none =>
      cases hr : request.removeDirectory with
      | some _ => rfl
      | none =>
        cases hw : request.write with
        | some _ => rfl
        | none =>
          cases hf : request.removeFile with
          | some _ => rfl
          | none => simp [hm, hr, hw, hf] at h

namespace StateMachine
variable {sm sm' : StateMachine}

theorem executed_finish (sm : StateMachine) (c : ℕ) (nanos : Option ℕ) :
    (sm.finish c nanos).executed = sm.executed := by
  cases nanos with
  | none => rfl
  | some nanos =>
    unfold finish expireSessions touch
    cases SortedMap.find sm.sessions c <;> rfl

theorem executed_applyTree {info : ExactlyOnceRPCInfo} {request : ReadWriteTree}
    (h : sm.applyTree info request = some sm') : sm.executed <+: sm'.executed := by
  unfold applyTree at h
  cases hs : SortedMap.find sm.sessions info.clientId with
  | none =>
    rw [hs] at h
    cases h
    exact List.prefix_rfl
  | some session =>
    rw [hs] at h
    dsimp only at h
    split_ifs at h
    · cases h
      exact List.prefix_rfl
    · cases hr : SortedMap.find (session.expireResponses info.firstOutstandingRPC).responses
          info.rpcNumber with
      | some r =>
        rw [hr] at h
        cases h
        exact List.prefix_rfl
      | none =>
        rw [hr] at h
        obtain ⟨r, -, rfl⟩ := Option.map_eq_some_iff.mp h
        exact List.prefix_append _ _

theorem executed_applyEntry {entry : Consensus.Entry} (h : sm.applyEntry entry = some sm') :
    sm.executed <+: sm'.executed := by
  obtain ⟨sm₁, hsm₁, rfl⟩ := Option.map_eq_some_iff.mp h
  cases hc : entry.command with
  | none =>
    rw [hc] at hsm₁
    cases hsm₁
    exact List.prefix_rfl
  | some command =>
    rw [hc] at hsm₁
    dsimp only at hsm₁ ⊢
    unfold apply at hsm₁
    cases ht : command.tree with
    | none =>
      rw [ht] at hsm₁
      dsimp only at hsm₁
      split_ifs at hsm₁
      cases hsm₁
      rw [executed_finish]
      unfold openSession
      cases SortedMap.find sm.sessions entry.entryId <;> exact List.prefix_rfl
    | some p =>
      rw [ht] at hsm₁
      obtain ⟨sm₂, hsm₂, rfl⟩ := Option.map_eq_some_iff.mp hsm₁
      rw [executed_finish]
      exact executed_applyTree hsm₂

theorem executed_run {log : List Consensus.Entry} (h : Runs.run applyEntry sm log = some sm') :
    sm.executed <+: sm'.executed := by
  induction log generalizing sm with
  | nil =>
    cases h
    exact List.prefix_rfl
  | cons entry log ih =>
    obtain ⟨sm₁, hsm₁, hrest⟩ := Runs.run_cons.mp h
    exact (executed_applyEntry hsm₁).trans (ih hrest)

theorem executed_replay_take {log : List Consensus.Entry} {m : ℕ}
    (hm : replay (log.take m) = some sm) (h : replay log = some sm') :
    sm.executed <+: sm'.executed := by
  rw [← List.take_append_drop m log] at h
  unfold replay at h hm
  rw [Runs.run_append, hm] at h
  exact executed_run h

theorem applyTree_isSome (sm : StateMachine) (info : ExactlyOnceRPCInfo) {request : ReadWriteTree}
    (h : request.asks = true) : (sm.applyTree info request).isSome := by
  unfold applyTree
  cases SortedMap.find sm.sessions info.clientId with
  | none => rfl
  | some session =>
    dsimp only
    split_ifs
    · rfl
    · split
      · rfl
      · rw [Option.isSome_map]
        exact sm.tree.readWriteTreeRPC_isSome h

end StateMachine

/-- `ClientImpl::ExactlyOnceRPCHelper`; no client makes so many calls that their numbers
overflow. -/
structure ExactlyOnceRPCHelper where
  clientId : ℕ
  nextRPCNumber : ℕ
  outstandingRPCNumbers : Finset ℕ

namespace ExactlyOnceRPCHelper

def new : ExactlyOnceRPCHelper := ⟨0, 1, ∅⟩

def getRPCInfo (h : ExactlyOnceRPCHelper) : ExactlyOnceRPCInfo × ExactlyOnceRPCHelper :=
  let outstandingRPCNumbers := insert h.nextRPCNumber h.outstandingRPCNumbers
  (⟨h.clientId, outstandingRPCNumbers.min' (Finset.insert_nonempty _ _), h.nextRPCNumber⟩,
    ⟨h.clientId, h.nextRPCNumber + 1, outstandingRPCNumbers⟩)

def doneWithRPC (h : ExactlyOnceRPCHelper) (rpcInfo : ExactlyOnceRPCInfo) : ExactlyOnceRPCHelper :=
  { h with outstandingRPCNumbers := h.outstandingRPCNumbers.erase rpcInfo.rpcNumber }

end ExactlyOnceRPCHelper

/-- Clients and the log on which the servers agree. Requests that were sent may arrive any number
of times; `answers` are the responses that calls have returned. -/
structure Cluster (n : ℕ) where
  helpers : Fin n → ExactlyOnceRPCHelper
  sent : List (ExactlyOnceRPCInfo × ReadWriteTree)
  log : List Consensus.Entry
  answers : List (ExactlyOnceRPCInfo × ReadWriteTree.Response)

namespace Cluster
open StateMachine
variable {n : ℕ}

def init : Cluster n := ⟨fun _ => .new, [], [], []⟩

/-- The steps of clients and servers:
* a client opens its session, or a session is opened that no client uses since it was asked for
  twice;
* a thread of a client makes a call;
* a request that was sent gets into the log, perhaps not for the first time;
* the log gets an entry without a command;
* a call returns: some server that has applied the first `applied` entries, among them one with
  the request of the call, still has the response. If it has none, the call does not return. -/
inductive Action (n : ℕ)
  | openSession (k : Fin n) (nanos : ℕ)
  | openUnused (nanos : ℕ)
  | call (k : Fin n) (request : ReadWriteTree)
  | commit (i nanos : ℕ)
  | skip
  | answer (k : Fin n) (i applied : ℕ)

/-- The number of the next entry is its index in the log, which begins with 1. -/
def append (c : Cluster n) (command : Option Command) : Cluster n :=
  { c with log := c.log ++ [⟨c.log.length + 1, command⟩] }

def step (c : Cluster n) : Action n → Option (Cluster n)
  | .openSession k nanos =>
    if (c.helpers k).clientId = 0 then
      some { c.append (some ⟨some nanos, true, none⟩) with
        helpers := Function.update c.helpers k { c.helpers k with
          clientId := c.log.length + 1 } }
    else none
  | .openUnused nanos => some (c.append (some ⟨some nanos, true, none⟩))
  | .call k request =>
    if (c.helpers k).clientId ≠ 0 ∧ request.asks then
      let (rpcInfo, helper) := (c.helpers k).getRPCInfo
      some { c with
        helpers := Function.update c.helpers k helper
        sent := c.sent ++ [(rpcInfo, request)] }
    else none
  | .commit i nanos => c.sent[i]?.map fun p => c.append (some ⟨some nanos, false, some p⟩)
  | .skip => some (c.append none)
  | .answer k i applied =>
    match c.sent[i]?, replay (c.log.take applied) with
    | some p, some sm =>
      if (c.helpers k).clientId = p.1.clientId ∧
          p.1.rpcNumber ∈ (c.helpers k).outstandingRPCNumbers ∧
          p ∈ commands (c.log.take applied) then
        (sm.getResponse p.1).map fun response => { c with
          helpers := Function.update c.helpers k ((c.helpers k).doneWithRPC p.1)
          answers := c.answers ++ [(p.1, response)] }
      else none
    | _, _ => none

/-- The numbers of clients are those of earlier entries; a call has a number of its own, and the
first outstanding call that it names is not behind any call that is still outstanding. -/
structure Numbered (c : Cluster n) : Prop where
  opened : ∀ k, (c.helpers k).clientId ≤ c.log.length
  distinct : ∀ j k, (c.helpers j).clientId = (c.helpers k).clientId →
    (c.helpers j).clientId ≠ 0 → j = k
  below : ∀ k, ∀ m ∈ (c.helpers k).outstandingRPCNumbers, m < (c.helpers k).nextRPCNumber
  asks : ∀ p ∈ c.sent, p.2.asks = true
  sender : ∀ p ∈ c.sent, ∃ k, (c.helpers k).clientId = p.1.clientId ∧ p.1.clientId ≠ 0 ∧
    p.1.rpcNumber < (c.helpers k).nextRPCNumber ∧ p.1.firstOutstandingRPC ≤ p.1.rpcNumber ∧
    ∀ m ∈ (c.helpers k).outstandingRPCNumbers, p.1.firstOutstandingRPC ≤ m
  unique : ∀ p ∈ c.sent, ∀ q ∈ c.sent, p.1.clientId = q.1.clientId →
    p.1.rpcNumber = q.1.rpcNumber → p = q

/-- What is in the log was sent, and the servers can apply it. -/
structure Logged (c : Cluster n) : Prop where
  increasing : Increasing 0 c.log
  last : ∀ entry ∈ c.log, entry.entryId ≤ c.log.length
  sent : commands c.log ⊆ c.sent
  runs : ∃ sm, replay c.log = some sm

def Answered (c : Cluster n) : Prop :=
  ∀ a ∈ c.answers, ∀ sm, replay c.log = some sm → ∃ x ∈ sm.executed,
    x.clientId = a.1.clientId ∧ x.rpcNumber = a.1.rpcNumber ∧ x.response = a.2

structure Inv (c : Cluster n) : Prop where
  numbered : c.Numbered
  logged : c.Logged
  answered : c.Answered

theorem inv_init : Inv (init : Cluster n) where
  numbered :=
    { opened := fun _ => le_rfl
      distinct := fun _ _ _ h => absurd rfl h
      below := fun _ m hm => absurd hm (Finset.notMem_empty m)
      asks := nofun
      sender := nofun
      unique := nofun }
  logged := ⟨List.pairwise_singleton _ _, nofun, List.nil_subset _, ⟨_, rfl⟩⟩
  answered := nofun

variable {c : Cluster n}

theorem Numbered.append (h : c.Numbered) (command : Option Command) :
    (c.append command).Numbered :=
  { h with opened := fun k => (h.opened k).trans (by simp [Cluster.append]) }

theorem Answered.append (h : c.Answered) (command : Option Command) :
    (c.append command).Answered := by
  intro a ha sm hsm
  have hlog : (c.append command).log.take c.log.length = c.log := by simp [Cluster.append]
  have hrun := hsm
  unfold Cluster.append replay at hrun
  rw [Runs.run_append] at hrun
  obtain ⟨sm₀, hsm₀, -⟩ := Option.bind_eq_some_iff.mp hrun
  obtain ⟨x, hx, hrest⟩ := h a ha sm₀ hsm₀
  exact ⟨x, (executed_replay_take (by rw [hlog]; exact hsm₀) hsm).subset hx, hrest⟩

/-- A command that the state machine knows, and that was sent if it is one on the tree. -/
def Acceptable (c : Cluster n) : Option Command → Prop
  | none => True
  | some command => match command.tree with
    | some p => p ∈ c.sent
    | none => command.openSession = true

theorem Acceptable.applies (h : c.Numbered) {command : Option Command}
    (hcommand : c.Acceptable command) (sm : StateMachine) (entryId : ℕ) :
    (sm.applyEntry ⟨entryId, command⟩).isSome := by
  unfold applyEntry
  rw [Option.isSome_map]
  cases command with
  | none => rfl
  | some command =>
    unfold Acceptable at hcommand
    dsimp only at hcommand ⊢
    unfold StateMachine.apply
    cases htree : command.tree with
    | some p =>
      rw [htree] at hcommand
      dsimp only
      rw [Option.isSome_map]
      exact applyTree_isSome sm p.1 (h.asks p hcommand)
    | none =>
      rw [htree] at hcommand
      dsimp only at hcommand ⊢
      rw [if_pos hcommand]
      rfl

theorem Logged.append (h : c.Logged) (hnumbered : c.Numbered) {command : Option Command}
    (hcommand : c.Acceptable command) : (c.append command).Logged := by
  refine ⟨?_, ?_, ?_, ?_⟩
  · unfold Increasing Cluster.append
    rw [List.map_append, ← List.cons_append]
    refine List.pairwise_append.mpr ⟨h.increasing, List.pairwise_singleton _ _, ?_⟩
    intro a ha b hb
    rw [List.mem_singleton.mp hb]
    rcases List.mem_cons.mp ha with rfl | ha
    · exact Nat.succ_pos _
    · obtain ⟨entry, hentry, rfl⟩ := List.mem_map.mp ha
      exact Nat.lt_succ_of_le (h.last entry hentry)
  · intro entry hentry
    rcases List.mem_append.mp hentry with hentry | hentry
    · exact (h.last entry hentry).trans (by simp [Cluster.append])
    · rw [List.mem_singleton.mp hentry]
      simp [Cluster.append]
  · intro p hp
    obtain ⟨entry, hentry, hp⟩ := List.mem_filterMap.mp hp
    rcases List.mem_append.mp hentry with hentry | hentry
    · exact h.sent (List.mem_filterMap.mpr ⟨entry, hentry, hp⟩)
    · obtain ⟨hp, -⟩ := Option.filter_eq_some_iff.mp hp
      rw [List.mem_singleton.mp hentry] at hp
      obtain ⟨d, rfl, hd⟩ := Option.bind_eq_some_iff.mp hp
      unfold Acceptable at hcommand
      dsimp only at hcommand
      rwa [hd] at hcommand
  · obtain ⟨sm, hsm⟩ := h.runs
    obtain ⟨sm', hsm'⟩ := Option.isSome_iff_exists.mp
      (hcommand.applies hnumbered sm (c.log.length + 1))
    refine ⟨sm', ?_⟩
    unfold Cluster.append replay at *
    rw [Runs.run_append, hsm]
    exact Runs.run_cons.mpr ⟨sm', hsm', rfl⟩

theorem Logged.increasing_take (h : c.Logged) (m : ℕ) : Increasing 0 (c.log.take m) :=
  h.increasing.sublist (((List.take_sublist m c.log).map _).cons_cons 0)

theorem Inv.append (h : Inv c) {command : Option Command} (hcommand : c.Acceptable command) :
    Inv (c.append command) :=
  ⟨h.numbered.append command, h.logged.append h.numbered hcommand, h.answered.append command⟩

theorem Numbered.opens (h : c.Numbered) {k : Fin n} (hk : (c.helpers k).clientId = 0)
    (command : Option Command) :
    Numbered { c.append command with
      helpers := Function.update c.helpers k { c.helpers k with
        clientId := c.log.length + 1 } } := by
  have hlength : (c.append command).log.length = c.log.length + 1 := by simp [Cluster.append]
  have hself : (Function.update c.helpers k { c.helpers k with
      clientId := c.log.length + 1 } k).clientId = c.log.length + 1 := by
    rw [Function.update_self]
  have hother : ∀ j, j ≠ k → Function.update c.helpers k { c.helpers k with
      clientId := c.log.length + 1 } j = c.helpers j := fun j hj => Function.update_of_ne hj _ _
  refine ⟨fun j => ?_, fun i j hij hi => ?_, fun j => ?_, h.asks, fun p hp => ?_, h.unique⟩
  · dsimp only
    by_cases hj : j = k
    · rw [hj, hself, hlength]
    · rw [hother j hj, hlength]
      exact (h.opened j).trans (Nat.le_succ _)
  · dsimp only at hij hi
    by_cases hik : i = k
    · by_cases hjk : j = k
      · rw [hik, hjk]
      · rw [hik, hself, hother j hjk] at hij
        exact absurd (h.opened j) (by omega)
    · by_cases hjk : j = k
      · rw [hjk, hself, hother i hik] at hij
        exact absurd (h.opened i) (by omega)
      · rw [hother i hik, hother j hjk] at hij
        rw [hother i hik] at hi
        exact h.distinct i j hij hi
  · dsimp only
    by_cases hj : j = k
    · rw [hj, Function.update_self]
      exact h.below k
    · rw [hother j hj]
      exact h.below j
  · obtain ⟨j, hj, hne, hrest⟩ := h.sender p hp
    have hjk : j ≠ k := by
      rintro rfl
      exact hne (hj ▸ hk)
    exact ⟨j, by dsimp only; rw [hother j hjk]; exact ⟨hj, hne, hrest⟩⟩

theorem Numbered.update (h : c.Numbered) (k : Fin n) (helper : ExactlyOnceRPCHelper)
    (hid : helper.clientId = (c.helpers k).clientId)
    (hnext : (c.helpers k).nextRPCNumber ≤ helper.nextRPCNumber)
    (hbelow : ∀ m ∈ helper.outstandingRPCNumbers, m < helper.nextRPCNumber)
    (hnew : ∀ m ∈ helper.outstandingRPCNumbers, m ∈ (c.helpers k).outstandingRPCNumbers ∨
      (c.helpers k).nextRPCNumber ≤ m) :
    Numbered { c with helpers := Function.update c.helpers k helper } := by
  have hids : ∀ j, (Function.update c.helpers k helper j).clientId = (c.helpers j).clientId := by
    intro j
    by_cases hj : j = k
    · rw [hj, Function.update_self, hid]
    · rw [Function.update_of_ne hj]
  refine ⟨fun j => ?_, fun i j hij hi => ?_, fun j m hm => ?_, h.asks, fun p hp => ?_, h.unique⟩
  · dsimp only
    rw [hids]
    exact h.opened j
  · dsimp only at hij hi
    rw [hids i, hids j] at hij
    rw [hids i] at hi
    exact h.distinct i j hij hi
  · dsimp only at hm ⊢
    by_cases hj : j = k
    · rw [hj, Function.update_self] at hm ⊢
      exact hbelow m hm
    · rw [Function.update_of_ne hj] at hm ⊢
      exact h.below j m hm
  · obtain ⟨j, hj, hne, hlt, hfirst, hle⟩ := h.sender p hp
    refine ⟨j, (hids j).trans hj, hne, ?_⟩
    dsimp only
    by_cases hjk : j = k
    · subst hjk
      rw [Function.update_self]
      refine ⟨hlt.trans_le hnext, hfirst, fun m hm => ?_⟩
      rcases hnew m hm with hm | hm
      · exact hle m hm
      · exact hfirst.trans (hlt.le.trans hm)
    · rw [Function.update_of_ne hjk]
      exact ⟨hlt, hfirst, hle⟩

/-- A call gets the next number, and the first outstanding call that it names is the first of all
that are. -/
theorem Numbered.calls (h : c.Numbered) {k : Fin n} (hk : (c.helpers k).clientId ≠ 0)
    {request : ReadWriteTree} (hasks : request.asks = true) :
    Numbered { c with
      helpers := Function.update c.helpers k (c.helpers k).getRPCInfo.2
      sent := c.sent ++ [((c.helpers k).getRPCInfo.1, request)] } := by
  have hmem : ∀ m ∈ (c.helpers k).getRPCInfo.2.outstandingRPCNumbers,
      m = (c.helpers k).nextRPCNumber ∨ m ∈ (c.helpers k).outstandingRPCNumbers :=
    fun m hm => Finset.mem_insert.mp hm
  have hupdate := h.update k (c.helpers k).getRPCInfo.2 rfl (Nat.le_succ _)
    (fun m hm => (hmem m hm).elim (fun hm => hm ▸ Nat.lt_succ_self _)
      fun hm => Nat.lt_succ_of_lt (h.below k m hm))
    fun m hm => (hmem m hm).elim (fun hm => .inr hm.ge) .inl
  -- no earlier call of this client has the number
  have hfresh : ∀ q ∈ c.sent, q.1.clientId = (c.helpers k).clientId →
      q.1.rpcNumber ≠ (c.helpers k).nextRPCNumber := by
    intro q hq hclient
    obtain ⟨j, hj, hne, hlt, -⟩ := h.sender q hq
    have hjk : j = k := h.distinct j k (hj.trans hclient) (hj ▸ hne)
    exact (hjk ▸ hlt).ne
  refine { hupdate with asks := ?_, sender := ?_, unique := ?_ }
  · intro p hp
    rcases List.mem_append.mp hp with hp | hp
    · exact h.asks p hp
    · rw [List.mem_singleton.mp hp]
      exact hasks
  · intro p hp
    rcases List.mem_append.mp hp with hp | hp
    · exact hupdate.sender p hp
    · rw [List.mem_singleton.mp hp]
      refine ⟨k, ?_⟩
      dsimp only
      rw [Function.update_self]
      exact ⟨rfl, hk, Nat.lt_succ_self _, Finset.min'_le _ _ (Finset.mem_insert_self _ _),
        fun m hm => Finset.min'_le _ m hm⟩
  · intro p hp q hq hclient hnumber
    rcases List.mem_append.mp hp with hp | hp <;> rcases List.mem_append.mp hq with hq | hq
    · exact h.unique p hp q hq hclient hnumber
    · rw [List.mem_singleton.mp hq] at hclient hnumber
      exact absurd hnumber (hfresh p hp hclient)
    · rw [List.mem_singleton.mp hp] at hclient hnumber
      exact absurd hnumber.symm (hfresh q hq hclient.symm)
    · rw [List.mem_singleton.mp hp, List.mem_singleton.mp hq]

theorem inv_step {c' : Cluster n} {action : Action n} (h : Inv c)
    (hstep : c.step action = some c') : Inv c' := by
  cases action with
  | openSession k nanos =>
    unfold step at hstep
    dsimp only at hstep
    split_ifs at hstep with hk
    cases hstep
    have hlog : Inv (c.append (some ⟨some nanos, true, none⟩)) := h.append rfl
    exact ⟨h.numbered.opens hk _, { hlog.logged with }, hlog.answered⟩
  | openUnused nanos =>
    cases hstep
    exact h.append rfl
  | call k request =>
    unfold step at hstep
    dsimp only at hstep
    split_ifs at hstep with hk
    cases hstep
    refine ⟨h.numbered.calls hk.1 hk.2, { h.logged with sent := ?_ }, h.answered⟩
    exact fun p hp => List.mem_append_left _ (h.logged.sent hp)
  | commit i nanos =>
    obtain ⟨p, hp, rfl⟩ := Option.map_eq_some_iff.mp hstep
    exact h.append (List.mem_of_getElem? hp)
  | skip =>
    cases hstep
    exact h.append trivial
  | answer k i applied =>
    unfold step at hstep
    dsimp only at hstep
    split at hstep
    · rename_i p sm hp hsm
      split_ifs at hstep with hk
      obtain ⟨response, hresponse, rfl⟩ := Option.map_eq_some_iff.mp hstep
      have hnumbered := h.numbered.update k ((c.helpers k).doneWithRPC p.1) rfl le_rfl
        (fun m hm => h.numbered.below k m (Finset.mem_of_mem_erase hm))
        fun m hm => .inl (Finset.mem_of_mem_erase hm)
      refine ⟨{ hnumbered with }, { h.logged with }, ?_⟩
      intro a ha sm' hsm'
      rcases List.mem_append.mp ha with ha | ha
      · exact h.answered a ha sm' hsm'
      · rw [List.mem_singleton.mp ha]
        obtain ⟨last, hinv⟩ := inv_replay (h.logged.increasing_take applied) hsm
        obtain ⟨x, hx, hrest⟩ := hinv.getResponse hresponse
        exact ⟨x, (executed_replay_take hsm hsm').subset hx, hrest⟩
    · cases hstep

theorem inv_run {actions : List (Action n)} (hrun : Runs.run step init actions = some c) :
    Inv c :=
  Runs.invariant (fun _ _ _ h hstep => inv_step h hstep) inv_init hrun

/-- A call that has returned was carried out exactly once, with the response that it returned,
however often its request was sent, and whichever server answered it. -/
theorem answered_call_executed_exactly_once (actions : List (Action n)) (c : Cluster n)
    (hrun : Runs.run step init actions = some c) :
    ∃ sm, replay c.log = some sm ∧ ∀ a ∈ c.answers, ∃ x ∈ sm.executed,
      x.clientId = a.1.clientId ∧ x.rpcNumber = a.1.rpcNumber ∧ x.response = a.2 ∧
        (∃ info, info.clientId = x.clientId ∧ info.rpcNumber = x.rpcNumber ∧
          (info, x.request) ∈ c.sent) ∧
        ∀ y ∈ sm.executed, y.clientId = a.1.clientId → y.rpcNumber = a.1.rpcNumber → y = x := by
  have h := inv_run hrun
  obtain ⟨sm, hsm⟩ := h.logged.runs
  obtain ⟨last, hinv⟩ := inv_replay h.logged.increasing hsm
  refine ⟨sm, hsm, fun a ha => ?_⟩
  obtain ⟨x, hx, hclient, hnumber, hresponse⟩ := h.answered a ha sm hsm
  refine ⟨x, hx, hclient, hnumber, hresponse, ?_, fun y hy hyclient hynumber => ?_⟩
  · obtain ⟨p, hp, hpc, hpn, hpr⟩ := hinv.asked x hx
    exact ⟨p.1, hpc, hpn, hpr ▸ h.logged.sent hp⟩
  · exact List.inj_on_of_nodup_map hinv.once hy hx
      (Prod.ext (hyclient.trans hclient.symm) (hynumber.trans hnumber.symm))

def sampleActions (k : Fin n) : List (Action n) :=
  [.openSession k 5, .call k ⟨none, none, none, some ("/f".toList, "1".toList), none⟩,
    .commit 0 6, .commit 0 7, .answer k 0 2]

theorem sample_answered_call :
    ∃ c, Runs.run step init (sampleActions (0 : Fin 1)) = some c ∧
      c.answers = [(⟨1, 1, 1⟩, ⟨.ok, none⟩)] ∧
      ∃ sm, replay c.log = some sm ∧ ∀ a ∈ c.answers, ∃ x ∈ sm.executed, x.response = a.2 := by
  refine ⟨_, rfl, rfl, ?_⟩
  obtain ⟨sm, hsm, h⟩ := answered_call_executed_exactly_once (sampleActions (0 : Fin 1)) _ rfl
  refine ⟨sm, hsm, fun a ha => ?_⟩
  obtain ⟨x, hx, -, -, hresponse, -⟩ := h a ha
  exact ⟨x, hx, hresponse⟩

/-- As long as a call is outstanding and its session lives, every server that has applied its
request has the response: the servers discard no response that a client still waits for. -/
theorem outstanding_call_has_response (actions : List (Action n)) (c : Cluster n)
    (hrun : Runs.run step init actions = some c) (k : Fin n)
    (p : ExactlyOnceRPCInfo × ReadWriteTree) (hclient : (c.helpers k).clientId = p.1.clientId)
    (houtstanding : p.1.rpcNumber ∈ (c.helpers k).outstandingRPCNumbers) (applied : ℕ)
    (hp : p ∈ commands (c.log.take applied)) (sm : StateMachine)
    (hsm : replay (c.log.take applied) = some sm)
    (hsession : (SortedMap.find sm.sessions p.1.clientId).isSome) :
    (sm.getResponse p.1).isSome := by
  have h := inv_run hrun
  obtain ⟨last, hinv⟩ := inv_replay (h.logged.increasing_take applied) hsm
  obtain ⟨session, hfind⟩ := Option.isSome_iff_exists.mp hsession
  have hsent : commands (c.log.take applied) ⊆ c.sent := fun q hq =>
    h.logged.sent (((List.take_sublist applied c.log).filterMap _).subset hq)
  -- the session has the number of a request that was sent, so it is not behind the call
  have hfirst : session.firstOutstandingRPC ≤ p.1.rpcNumber := by
    rcases hinv.first _ session hfind with hzero | ⟨q, hq, hqclient, hqfirst⟩
    · exact hzero ▸ Nat.zero_le _
    · obtain ⟨j, hj, hne, -, -, hle⟩ := h.numbered.sender q (hsent hq)
      have hjk : j = k := h.numbered.distinct j k
        (hj.trans (hqclient.trans hclient.symm)) (hj ▸ hne)
      exact hqfirst ▸ hle _ (hjk ▸ houtstanding)
  rcases hinv.settled p hp session hfind with hlt | ⟨r, hr⟩
  · exact absurd hlt (not_lt.mpr hfirst)
  · unfold StateMachine.getResponse
    rw [hfind, Option.bind_some, hr]
    rfl

/-- The request is in the log twice, and the call has not returned yet. -/
theorem sample_outstanding_call :
    ∃ c, Runs.run step init ((sampleActions (0 : Fin 1)).take 4) = some c ∧
      ∃ sm, replay c.log = some sm ∧ (sm.getResponse ⟨1, 1, 1⟩).isSome :=
  ⟨_, rfl, _, rfl, outstanding_call_has_response ((sampleActions (0 : Fin 1)).take 4) _ rfl 0
    (⟨1, 1, 1⟩, ⟨none, none, none, some ("/f".toList, "1".toList), none⟩) rfl (by decide) 3
    (by decide) _ rfl rfl⟩

end Cluster

end RaftMonitor.LogCabin
