import RaftMonitor.Runs
import RaftMonitor.Tree

namespace RaftMonitor.LogCabin

structure ExactlyOnceRPCInfo where
  clientId : ℕ
  firstOutstandingRPC : ℕ
  rpcNumber : ℕ
  deriving DecidableEq

/-- `Client::Command`; a request to open a session has no fields. -/
structure Command where
  nanosecondsSinceEpoch : Option ℕ
  openSession : Bool
  tree : Option (ExactlyOnceRPCInfo × ReadWriteTree)
  deriving DecidableEq

/-- An entry of the log; one without a command is of type `SKIP`. -/
structure Consensus.Entry where
  entryId : ℕ
  command : Option Command
  deriving DecidableEq

structure Session where
  lastModified : ℕ
  firstOutstandingRPC : ℕ
  responses : List (ℕ × ReadWriteTree.Response)
  deriving DecidableEq

/-- A request that was carried out on the tree. -/
structure Execution where
  clientId : ℕ
  rpcNumber : ℕ
  request : ReadWriteTree
  response : ReadWriteTree.Response
  deriving DecidableEq

/-- `sessions` is a hash map; no function depends on the order of its entries. All requests that
were carried out are kept in `executed`, which is not part of the source. -/
structure StateMachine where
  lastEntryId : ℕ
  sessions : List (ℕ × Session)
  tree : Tree
  executed : List Execution

def Session.new : Session := ⟨0, 0, []⟩

def Session.expireResponses (session : Session) (firstOutstandingRPC : ℕ) : Session :=
  if session.firstOutstandingRPC ≥ firstOutstandingRPC then session
  else { session with
    firstOutstandingRPC := firstOutstandingRPC
    responses := session.responses.filter fun e => ¬e.1 < firstOutstandingRPC }

namespace StateMachine

def new : StateMachine := ⟨0, [], .new, []⟩

def sessionTimeoutNanos : ℕ := 1000 * 1000 * 1000 * 60 * 60

/-- The branch of `apply` for commands on the tree; `none` is a `PANIC` of the tree. -/
def applyTree (sm : StateMachine) (rpcInfo : ExactlyOnceRPCInfo) (request : ReadWriteTree) :
    Option StateMachine :=
  match SortedMap.find sm.sessions rpcInfo.clientId with
  | none => some sm
  | some session =>
    let session := session.expireResponses rpcInfo.firstOutstandingRPC
    if rpcInfo.rpcNumber < session.firstOutstandingRPC then
      some { sm with sessions := SortedMap.insert sm.sessions rpcInfo.clientId session }
    else match SortedMap.find session.responses rpcInfo.rpcNumber with
      | some _ => some { sm with sessions := SortedMap.insert sm.sessions rpcInfo.clientId session }
      | none => (sm.tree.readWriteTreeRPC request).map fun (tree, response) => { sm with
          sessions := SortedMap.insert sm.sessions rpcInfo.clientId { session with
            responses := SortedMap.insert session.responses rpcInfo.rpcNumber response }
          tree := tree
          executed := sm.executed ++
            [⟨rpcInfo.clientId, rpcInfo.rpcNumber, request, response⟩] }

/-- The branch of `apply` that opens a session, unless there is one already. -/
def openSession (sm : StateMachine) (clientId : ℕ) : StateMachine :=
  match SortedMap.find sm.sessions clientId with
  | some _ => sm
  | none => { sm with sessions := SortedMap.insert sm.sessions clientId .new }

/-- The session of the command, if there is one, was used now. -/
def touch (sm : StateMachine) (clientId nanosecondsSinceEpoch : ℕ) : StateMachine :=
  match SortedMap.find sm.sessions clientId with
  | some session => { sm with
      sessions := SortedMap.insert sm.sessions clientId { session with
        lastModified := nanosecondsSinceEpoch } }
  | none => sm

def expireSessions (sm : StateMachine) (nanosecondsSinceEpoch : ℕ) : StateMachine :=
  { sm with sessions := sm.sessions.filter fun e =>
      ¬(e.2.lastModified + sessionTimeoutNanos) % 2 ^ 64 < nanosecondsSinceEpoch }

def finish (sm : StateMachine) (clientId : ℕ) : Option ℕ → StateMachine
  | some nanosecondsSinceEpoch =>
    (sm.touch clientId nanosecondsSinceEpoch).expireSessions nanosecondsSinceEpoch
  | none => sm

def apply (sm : StateMachine) (entryId : ℕ) (command : Command) : Option StateMachine :=
  match command.tree with
  | some (rpcInfo, request) => (sm.applyTree rpcInfo request).map
      (·.finish rpcInfo.clientId command.nanosecondsSinceEpoch)
  | none =>
    if command.openSession then
      some ((sm.openSession entryId).finish entryId command.nanosecondsSinceEpoch)
    else none

/-- One pass of the loop of `applyThreadMain`. -/
def applyEntry (sm : StateMachine) (entry : Consensus.Entry) : Option StateMachine :=
  (match entry.command with
    | none => some sm
    | some command => sm.apply entry.entryId command).map
      fun (sm : StateMachine) => { sm with lastEntryId := entry.entryId }

def getResponse (sm : StateMachine) (rpcInfo : ExactlyOnceRPCInfo) :
    Option ReadWriteTree.Response :=
  (SortedMap.find sm.sessions rpcInfo.clientId).bind fun session =>
    SortedMap.find session.responses rpcInfo.rpcNumber

def replay (log : List Consensus.Entry) : Option StateMachine := Runs.run applyEntry new log

/-- What a session has become: no response was added or changed, and only responses to calls that
are not outstanding any more were discarded. -/
structure Kept (old session : Session) : Prop where
  first : old.firstOutstandingRPC ≤ session.firstOutstandingRPC
  sub : ∀ n r, SortedMap.find session.responses n = some r → SortedMap.find old.responses n = some r
  kept : ∀ n r, SortedMap.find old.responses n = some r → n < session.firstOutstandingRPC ∨
    SortedMap.find session.responses n = some r

theorem kept_expireResponses (session : Session) (first : ℕ) :
    Kept session (session.expireResponses first) := by
  unfold Session.expireResponses
  split_ifs with hle
  · exact ⟨le_rfl, fun _ _ h => h, fun _ _ h => .inr h⟩
  · have hfind : ∀ n, SortedMap.find (session.responses.filter fun e => ¬e.1 < first) n =
        if ¬n < first then SortedMap.find session.responses n else none := by
      intro n
      rw [SortedMap.find_filter_key session.responses (fun k => ¬k < first) n]
      simp
    refine ⟨(not_le.mp hle).le, fun n r h => ?_, fun n r h => ?_⟩
    · dsimp only at h
      rw [hfind] at h
      split_ifs at h
      exact h
    · dsimp only
      rw [hfind]
      by_cases hn : n < first
      · exact .inl hn
      · exact .inr (by rw [if_pos hn, h])

/-- The commands on the tree in a log. A client that has its number from an earlier entry of this
log only uses it afterwards; other commands find no session and do nothing. -/
def commands (log : List Consensus.Entry) : List (ExactlyOnceRPCInfo × ReadWriteTree) :=
  log.filterMap fun entry =>
    (entry.command.bind (·.tree)).filter fun c => c.1.clientId < entry.entryId

/-- What holds when the entries up to `bound` have been applied; `seen` are their commands. -/
structure Inv (seen : List (ExactlyOnceRPCInfo × ReadWriteTree)) (bound : ℕ) (sm : StateMachine) :
    Prop where
  sorted : SortedMap.Sorted sm.sessions
  opened : ∀ c session, SortedMap.find sm.sessions c = some session → c ≤ bound
  known : ∀ p ∈ seen, p.1.clientId ≤ bound
  first : ∀ c session, SortedMap.find sm.sessions c = some session →
    session.firstOutstandingRPC = 0 ∨
      ∃ p ∈ seen, p.1.clientId = c ∧ p.1.firstOutstandingRPC = session.firstOutstandingRPC
  /-- A command is not carried out again as long as its session lives. -/
  settled : ∀ p ∈ seen, ∀ session, SortedMap.find sm.sessions p.1.clientId = some session →
    p.1.rpcNumber < session.firstOutstandingRPC ∨
      ∃ r, SortedMap.find session.responses p.1.rpcNumber = some r
  asked : ∀ x ∈ sm.executed, ∃ p ∈ seen,
    p.1.clientId = x.clientId ∧ p.1.rpcNumber = x.rpcNumber ∧ p.2 = x.request
  recorded : ∀ c session n r, SortedMap.find sm.sessions c = some session →
    SortedMap.find session.responses n = some r →
      ∃ x ∈ sm.executed, x.clientId = c ∧ x.rpcNumber = n ∧ x.response = r
  once : (sm.executed.map fun x => (x.clientId, x.rpcNumber)).Nodup
  sequential : Runs.serve Tree.readWriteTreeRPC Tree.new (sm.executed.map (·.request)) =
    some (sm.tree, sm.executed.map (·.response))

theorem inv_new : Inv [] 0 new where
  sorted := .nil
  opened := nofun
  known := nofun
  first := nofun
  settled := nofun
  asked := nofun
  recorded := nofun
  once := .nil
  sequential := rfl

variable {sm sm' : StateMachine} {seen : List (ExactlyOnceRPCInfo × ReadWriteTree)} {bound : ℕ}

/-- A session is replaced by what it has become; `seen'` may have commands of this session that
will not be carried out any more. -/
theorem Inv.keep (h : Inv seen bound sm) {c : ℕ} {old session : Session}
    {seen' : List (ExactlyOnceRPCInfo × ReadWriteTree)}
    (hold : SortedMap.find sm.sessions c = some old) (hkept : Kept old session)
    (hseen : seen ⊆ seen')
    (hnew : ∀ p ∈ seen', p ∈ seen ∨ p.1.clientId = c ∧
      (p.1.rpcNumber < session.firstOutstandingRPC ∨
        ∃ r, SortedMap.find session.responses p.1.rpcNumber = some r))
    (hfirst : session.firstOutstandingRPC = old.firstOutstandingRPC ∨
      ∃ p ∈ seen', p.1.clientId = c ∧ p.1.firstOutstandingRPC = session.firstOutstandingRPC) :
    Inv seen' bound { sm with sessions := SortedMap.insert sm.sessions c session } := by
  refine { h with
    sorted := h.sorted.insert c session, opened := ?_, known := ?_, first := ?_, settled := ?_
    asked := ?_, recorded := ?_ }
  · intro a s ha
    rcases SortedMap.find_insert_cases ha with ⟨rfl, -⟩ | ha
    · exact h.opened a old hold
    · exact h.opened a s ha
  · intro p hp
    rcases hnew p hp with hp | ⟨rfl, -⟩
    · exact h.known p hp
    · exact h.opened _ old hold
  · intro a s ha
    have hlift : ∀ a s, SortedMap.find sm.sessions a = some s → s.firstOutstandingRPC = 0 ∨
        ∃ p ∈ seen', p.1.clientId = a ∧ p.1.firstOutstandingRPC = s.firstOutstandingRPC :=
      fun a s ha => (h.first a s ha).imp id fun ⟨p, hp, hf⟩ => ⟨p, hseen hp, hf⟩
    rcases SortedMap.find_insert_cases ha with ⟨rfl, rfl⟩ | ha
    · rcases hfirst with hfirst | hfirst
      · rw [hfirst]
        exact hlift a old hold
      · exact .inr hfirst
    · exact hlift a s ha
  · intro p hp s ha
    rcases SortedMap.find_insert_cases ha with ⟨hc, rfl⟩ | hother
    · rcases hnew p hp with hp | ⟨-, hsettled⟩
      · rcases h.settled p hp old (hc ▸ hold) with hlt | ⟨r, hr⟩
        · exact .inl (hlt.trans_le hkept.first)
        · exact (hkept.kept _ r hr).imp id fun hr => ⟨r, hr⟩
      · exact hsettled
    · rcases hnew p hp with hp | ⟨rfl, hsettled⟩
      · exact h.settled p hp s hother
      · rw [SortedMap.find_insert, if_pos rfl] at ha
        exact Option.some.inj ha ▸ hsettled
  · intro x hx
    obtain ⟨p, hp, hasked⟩ := h.asked x hx
    exact ⟨p, hseen hp, hasked⟩
  · intro a s n r ha hr
    rcases SortedMap.find_insert_cases ha with ⟨rfl, rfl⟩ | ha
    · exact h.recorded a old n r hold (hkept.sub n r hr)
    · exact h.recorded a s n r ha hr

theorem Inv.touch (h : Inv seen bound sm) (c nanos : ℕ) : Inv seen bound (sm.touch c nanos) := by
  unfold StateMachine.touch
  cases hc : SortedMap.find sm.sessions c with
  | none => exact h
  | some session =>
    exact h.keep hc ⟨le_rfl, fun _ _ hr => hr, fun _ _ hr => .inr hr⟩ (List.Subset.refl _)
      (fun _ hp => .inl hp) (.inl rfl)

theorem Inv.expireSessions (h : Inv seen bound sm) (nanos : ℕ) :
    Inv seen bound (sm.expireSessions nanos) := by
  have hsub : ∀ c s, SortedMap.find (sm.expireSessions nanos).sessions c = some s →
      SortedMap.find sm.sessions c = some s := fun c s hc => (h.sorted.find_filter.mp hc).1
  exact { h with
    sorted := h.sorted.sublist List.filter_sublist
    opened := fun c s hc => h.opened c s (hsub c s hc)
    first := fun c s hc => h.first c s (hsub c s hc)
    settled := fun p hp s hc => h.settled p hp s (hsub _ s hc)
    recorded := fun c s n r hc => h.recorded c s n r (hsub c s hc) }

theorem Inv.finish (h : Inv seen bound sm) (c : ℕ) (nanos : Option ℕ) :
    Inv seen bound (sm.finish c nanos) := by
  cases nanos with
  | none => exact h
  | some nanos => exact (h.touch c nanos).expireSessions nanos

theorem Inv.mono (h : Inv seen bound sm) {bound' : ℕ} (hle : bound ≤ bound') :
    Inv seen bound' sm :=
  { h with
    opened := fun c s hc => (h.opened c s hc).trans hle
    known := fun p hp => (h.known p hp).trans hle }

theorem Inv.openSession (h : Inv seen bound sm) {c : ℕ} (hc : bound < c) :
    Inv seen c (sm.openSession c) := by
  unfold StateMachine.openSession
  have hnew : SortedMap.find sm.sessions c = none := by
    cases hf : SortedMap.find sm.sessions c with
    | none => rfl
    | some s => exact absurd (h.opened c s hf) (not_le.mpr hc)
  rw [hnew]
  refine { h.mono hc.le with
    sorted := h.sorted.insert c .new, opened := ?_, first := ?_, settled := ?_, recorded := ?_ }
  · intro a s ha
    rcases SortedMap.find_insert_cases ha with ⟨rfl, -⟩ | ha
    · exact le_rfl
    · exact (h.opened a s ha).trans hc.le
  · intro a s ha
    rcases SortedMap.find_insert_cases ha with ⟨-, rfl⟩ | ha
    · exact .inl rfl
    · exact h.first a s ha
  · intro p hp s ha
    rcases SortedMap.find_insert_cases ha with ⟨hpc, -⟩ | ha
    · exact absurd (hpc ▸ h.known p hp) (not_le.mpr hc)
    · exact h.settled p hp s ha
  · intro a s n r ha hr
    rcases SortedMap.find_insert_cases ha with ⟨-, rfl⟩ | ha
    · cases hr
    · exact h.recorded a s n r ha hr

theorem Inv.see (h : Inv seen bound sm) {p : ExactlyOnceRPCInfo × ReadWriteTree}
    (hp : p.1.clientId ≤ bound) (hnone : SortedMap.find sm.sessions p.1.clientId = none) :
    Inv (seen ++ [p]) bound sm := by
  have hmem : ∀ q ∈ seen ++ [p], q ∈ seen ∨ q = p := fun q hq =>
    (List.mem_append.mp hq).imp id List.mem_singleton.mp
  refine { h with known := ?_, first := ?_, settled := ?_, asked := ?_ }
  · intro q hq
    rcases hmem q hq with hq | rfl
    · exact h.known q hq
    · exact hp
  · intro c s hc
    exact (h.first c s hc).imp id fun ⟨q, hq, hf⟩ => ⟨q, List.mem_append_left _ hq, hf⟩
  · intro q hq s hs
    rcases hmem q hq with hq | rfl
    · exact h.settled q hq s hs
    · rw [hnone] at hs
      cases hs
  · intro x hx
    obtain ⟨q, hq, hasked⟩ := h.asked x hx
    exact ⟨q, List.mem_append_left _ hq, hasked⟩

theorem Inv.execute (h : Inv seen bound sm) {info : ExactlyOnceRPCInfo} {request : ReadWriteTree}
    {old : Session} (hold : SortedMap.find sm.sessions info.clientId = some old)
    (houtstanding : ¬info.rpcNumber < old.firstOutstandingRPC)
    (hfresh : SortedMap.find old.responses info.rpcNumber = none) {tree : Tree}
    {response : ReadWriteTree.Response}
    (hrpc : sm.tree.readWriteTreeRPC request = some (tree, response)) :
    Inv (seen ++ [(info, request)]) bound { sm with
      sessions := SortedMap.insert sm.sessions info.clientId { old with
        responses := SortedMap.insert old.responses info.rpcNumber response }
      tree := tree
      executed := sm.executed ++ [⟨info.clientId, info.rpcNumber, request, response⟩] } := by
  have hmem : ∀ q ∈ seen ++ [(info, request)], q ∈ seen ∨ q = (info, request) := fun q hq =>
    (List.mem_append.mp hq).imp id List.mem_singleton.mp
  refine ⟨h.sorted.insert _ _, ?_, ?_, ?_, ?_, ?_, ?_, ?_, ?_⟩
  · intro a s ha
    rcases SortedMap.find_insert_cases ha with ⟨rfl, -⟩ | ha
    · exact h.opened _ old hold
    · exact h.opened a s ha
  · intro q hq
    rcases hmem q hq with hq | rfl
    · exact h.known q hq
    · exact h.opened _ old hold
  · intro a s ha
    have hlift : ∀ a s, SortedMap.find sm.sessions a = some s → s.firstOutstandingRPC = 0 ∨
        ∃ p ∈ seen ++ [(info, request)],
          p.1.clientId = a ∧ p.1.firstOutstandingRPC = s.firstOutstandingRPC :=
      fun a s ha => (h.first a s ha).imp id fun ⟨p, hp, hf⟩ => ⟨p, List.mem_append_left _ hp, hf⟩
    rcases SortedMap.find_insert_cases ha with ⟨rfl, rfl⟩ | ha
    · exact hlift _ old hold
    · exact hlift a s ha
  · intro q hq s ha
    rcases SortedMap.find_insert_cases ha with ⟨hc, rfl⟩ | hother
    · dsimp only
      rw [SortedMap.find_insert]
      rcases hmem q hq with hq | rfl
      · refine (h.settled q hq old (hc ▸ hold)).imp id fun ⟨r, hr⟩ => ?_
        split_ifs
        · exact ⟨response, rfl⟩
        · exact ⟨r, hr⟩
      · exact .inr ⟨response, if_pos rfl⟩
    · rcases hmem q hq with hq | rfl
      · exact h.settled q hq s hother
      · rw [SortedMap.find_insert, if_pos rfl] at ha
        cases ha
        exact .inr ⟨response, by rw [SortedMap.find_insert, if_pos rfl]⟩
  · intro x hx
    rcases List.mem_append.mp hx with hx | hx
    · obtain ⟨q, hq, hasked⟩ := h.asked x hx
      exact ⟨q, List.mem_append_left _ hq, hasked⟩
    · rw [List.mem_singleton.mp hx]
      exact ⟨(info, request), List.mem_append_right _ (List.mem_singleton_self _), rfl, rfl, rfl⟩
  · intro a s n r ha hr
    have hlift : (∃ x ∈ sm.executed, x.clientId = a ∧ x.rpcNumber = n ∧ x.response = r) →
        ∃ x ∈ sm.executed ++ [⟨info.clientId, info.rpcNumber, request, response⟩],
          x.clientId = a ∧ x.rpcNumber = n ∧ x.response = r :=
      fun ⟨x, hx, hrest⟩ => ⟨x, List.mem_append_left _ hx, hrest⟩
    rcases SortedMap.find_insert_cases ha with ⟨rfl, rfl⟩ | ha
    · rcases SortedMap.find_insert_cases hr with ⟨rfl, rfl⟩ | hr
      · exact ⟨_, List.mem_append_right _ (List.mem_singleton_self _), rfl, rfl, rfl⟩
      · exact hlift (h.recorded _ old n r hold hr)
    · exact hlift (h.recorded a s n r ha hr)
  · -- an earlier execution of the same call would have left its response
    have hnew : ∀ x ∈ sm.executed, (x.clientId, x.rpcNumber) ≠ (info.clientId, info.rpcNumber) := by
      intro x hx heq
      obtain ⟨hclient, hrpc⟩ := Prod.mk.inj heq
      obtain ⟨p, hp, hpc, hpr, -⟩ := h.asked x hx
      rcases h.settled p hp old ((hpc.trans hclient) ▸ hold) with hlt | ⟨r, hr⟩
      · exact houtstanding ((hpr.trans hrpc) ▸ hlt)
      · rw [hpr.trans hrpc, hfresh] at hr
        cases hr
    rw [List.map_append]
    refine List.nodup_append.mpr ⟨h.once, List.nodup_singleton _, ?_⟩
    intro key hkey key' hkey' heq
    obtain ⟨x, hx, rfl⟩ := List.mem_map.mp hkey
    exact hnew x hx (heq.trans (List.mem_singleton.mp hkey'))
  · rw [List.map_append, List.map_append]
    exact Runs.serve_append_singleton h.sequential hrpc

/-- The response of a call is there for both, or it was discarded. -/
theorem Kept.insert {old session : Session} (h : Kept old session) (n : ℕ)
    (r : ReadWriteTree.Response) :
    Kept { old with responses := SortedMap.insert old.responses n r }
      { session with responses := SortedMap.insert session.responses n r } := by
  refine ⟨h.first, fun m q hq => ?_, fun m q hq => ?_⟩
  · dsimp only at hq ⊢
    rw [SortedMap.find_insert] at hq ⊢
    split_ifs at hq ⊢
    · exact hq
    · exact h.sub m q hq
  · dsimp only at hq ⊢
    rw [SortedMap.find_insert] at hq ⊢
    split_ifs at hq ⊢
    · exact .inr hq
    · exact h.kept m q hq

theorem first_expireResponses (session : Session) (first : ℕ) :
    (session.expireResponses first).firstOutstandingRPC = session.firstOutstandingRPC ∨
      first = (session.expireResponses first).firstOutstandingRPC := by
  unfold Session.expireResponses
  split_ifs
  · exact .inl rfl
  · exact .inr rfl

theorem Inv.applyTree (h : Inv seen bound sm) {info : ExactlyOnceRPCInfo} {request : ReadWriteTree}
    (hbound : info.clientId ≤ bound) (hstep : sm.applyTree info request = some sm') :
    Inv (seen ++ [(info, request)]) bound sm' := by
  unfold StateMachine.applyTree at hstep
  cases hold : SortedMap.find sm.sessions info.clientId with
  | none =>
    rw [hold] at hstep
    cases hstep
    exact h.see hbound hold
  | some old =>
    rw [hold] at hstep
    dsimp only at hstep
    have hkept := kept_expireResponses old info.firstOutstandingRPC
    have hfirst := first_expireResponses old info.firstOutstandingRPC
    set session := old.expireResponses info.firstOutstandingRPC
    have hmem : (info, request) ∈ seen ++ [(info, request)] :=
      List.mem_append_right _ (List.mem_singleton_self _)
    -- the session after a command that is not carried out
    have hkeep (hsettled : info.rpcNumber < session.firstOutstandingRPC ∨
        ∃ r, SortedMap.find session.responses info.rpcNumber = some r) :
        Inv (seen ++ [(info, request)]) bound
          { sm with sessions := SortedMap.insert sm.sessions info.clientId session } := by
      refine h.keep hold hkept (List.subset_append_left _ _) (fun p hp => ?_)
        (hfirst.imp id fun hf => ⟨(info, request), hmem, rfl, hf⟩)
      rcases List.mem_append.mp hp with hp | hp
      · exact .inl hp
      · rw [List.mem_singleton.mp hp]
        exact .inr ⟨rfl, hsettled⟩
    by_cases hlt : info.rpcNumber < session.firstOutstandingRPC
    · rw [if_pos hlt] at hstep
      cases hstep
      exact hkeep (.inl hlt)
    · rw [if_neg hlt] at hstep
      cases hfind : SortedMap.find session.responses info.rpcNumber with
      | some r =>
        rw [hfind] at hstep
        cases hstep
        exact hkeep (.inr ⟨r, hfind⟩)
      | none =>
        rw [hfind] at hstep
        obtain ⟨⟨tree, response⟩, hrpc, rfl⟩ := Option.map_eq_some_iff.mp hstep
        have hfresh : SortedMap.find old.responses info.rpcNumber = none := by
          cases hf : SortedMap.find old.responses info.rpcNumber with
          | none => rfl
          | some r =>
            rcases hkept.kept _ r hf with hlt' | hr
            · exact absurd hlt' hlt
            · exact nomatch hfind.symm.trans hr
        -- it is carried out on the session as it was, and then responses are discarded
        have hexecute := h.execute hold (fun hf => hlt (hf.trans_le hkept.first)) hfresh hrpc
        have hdone := hexecute.keep (c := info.clientId) (by rw [SortedMap.find_insert, if_pos rfl])
          (hkept.insert info.rpcNumber response) (List.Subset.refl _) (fun _ hp => .inl hp)
          (hfirst.imp id fun hf => ⟨(info, request), hmem, rfl, hf⟩)
        rwa [SortedMap.insert_insert] at hdone

theorem inv_apply (h : Inv seen bound sm) {entryId : ℕ} (hbound : bound < entryId)
    {command : Command} (hstep : sm.apply entryId command = some sm') :
    Inv (seen ++ commands [⟨entryId, some command⟩]) entryId sm' := by
  unfold StateMachine.apply at hstep
  cases htree : command.tree with
  | some c =>
    obtain ⟨info, request⟩ := c
    rw [htree] at hstep
    obtain ⟨sm₁, hsm₁, rfl⟩ := Option.map_eq_some_iff.mp hstep
    apply Inv.finish
    by_cases hknown : info.clientId < entryId
    · have hcommands : commands [⟨entryId, some command⟩] = [(info, request)] := by
        simp [commands, htree, Option.filter, hknown]
      rw [hcommands]
      exact (h.mono hbound.le).applyTree hknown.le hsm₁
    · have hcommands : commands [⟨entryId, some command⟩] = [] := by
        simp [commands, htree, Option.filter, hknown]
      have hnone : SortedMap.find sm.sessions info.clientId = none := by
        cases hf : SortedMap.find sm.sessions info.clientId with
        | none => rfl
        | some s => exact absurd ((h.opened _ s hf).trans_lt hbound) hknown
      unfold StateMachine.applyTree at hsm₁
      rw [hnone] at hsm₁
      cases hsm₁
      rw [hcommands, List.append_nil]
      exact h.mono hbound.le
  | none =>
    have hcommands : commands [⟨entryId, some command⟩] = [] := by simp [commands, htree]
    rw [htree] at hstep
    dsimp only at hstep
    split_ifs at hstep
    cases hstep
    rw [hcommands, List.append_nil]
    exact (h.openSession hbound).finish entryId _

theorem inv_applyEntry (h : Inv seen bound sm) {entry : Consensus.Entry}
    (hbound : bound < entry.entryId) (hstep : sm.applyEntry entry = some sm') :
    Inv (seen ++ commands [entry]) entry.entryId sm' := by
  obtain ⟨sm₁, hsm₁, rfl⟩ := Option.map_eq_some_iff.mp hstep
  obtain ⟨entryId, command⟩ := entry
  have h₁ : Inv (seen ++ commands [⟨entryId, command⟩]) entryId sm₁ := by
    cases command with
    | none =>
      cases hsm₁
      rw [show commands [⟨entryId, none⟩] = [] from rfl, List.append_nil]
      exact h.mono hbound.le
    | some command => exact inv_apply h hbound hsm₁
  exact { h₁ with }

/-- The entries of a log have increasing numbers, and so have those that come after `bound`. -/
def Increasing (bound : ℕ) (log : List Consensus.Entry) : Prop :=
  (bound :: log.map (·.entryId)).Pairwise (· < ·)

theorem inv_run {log : List Consensus.Entry} (h : Inv seen bound sm) (hlog : Increasing bound log)
    (hrun : Runs.run applyEntry sm log = some sm') :
    ∃ last, Inv (seen ++ commands log) last sm' := by
  induction log generalizing sm seen bound with
  | nil =>
    cases hrun
    exact ⟨bound, by simpa [commands] using h⟩
  | cons entry log ih =>
    obtain ⟨sm₁, hsm₁, hrest⟩ := Runs.run_cons.mp hrun
    obtain ⟨hbound, hlog⟩ := List.pairwise_cons.mp hlog
    have hentry := inv_applyEntry h (hbound _ (by simp)) hsm₁
    obtain ⟨last, hlast⟩ := ih hentry hlog hrest
    refine ⟨last, ?_⟩
    rwa [List.append_assoc, show commands [entry] ++ commands log = commands (entry :: log) from
      (List.filterMap_append (l := [entry])).symm] at hlast

theorem inv_replay {log : List Consensus.Entry} (hlog : Increasing 0 log)
    (hrun : replay log = some sm) : ∃ last, Inv (commands log) last sm := by
  simpa using inv_run inv_new hlog hrun

theorem Inv.getResponse (h : Inv seen bound sm) {info : ExactlyOnceRPCInfo}
    {response : ReadWriteTree.Response} (hresponse : sm.getResponse info = some response) :
    ∃ x ∈ sm.executed,
      x.clientId = info.clientId ∧ x.rpcNumber = info.rpcNumber ∧ x.response = response := by
  obtain ⟨session, hsession, hr⟩ := Option.bind_eq_some_iff.mp hresponse
  exact h.recorded _ session _ response hsession hr

/-- Whatever is in the log, with commands repeated, late or out of order, no call is carried out
twice. The tree and the responses are those of the calls that were carried out, one after the
other, and what `getResponse` returns is the response of the one execution of its call. -/
theorem no_call_executed_twice (log : List Consensus.Entry) (hlog : Increasing 0 log)
    (sm : StateMachine) (hrun : replay log = some sm) :
    (sm.executed.map fun x => (x.clientId, x.rpcNumber)).Nodup ∧
      Runs.serve Tree.readWriteTreeRPC Tree.new (sm.executed.map (·.request)) =
        some (sm.tree, sm.executed.map (·.response)) ∧
      ∀ info response, sm.getResponse info = some response →
        ∃ x ∈ sm.executed,
          x.clientId = info.clientId ∧ x.rpcNumber = info.rpcNumber ∧ x.response = response := by
  obtain ⟨last, h⟩ := inv_replay hlog hrun
  exact ⟨h.once, h.sequential, fun info response hresponse => h.getResponse hresponse⟩

def sampleLog : List Consensus.Entry :=
  [⟨1, some ⟨some 5, true, none⟩⟩, ⟨2, none⟩,
    ⟨3, some ⟨some 6, false, some (⟨1, 1, 1⟩, ⟨none, none, none, some ("/f".toList, "1".toList),
      none⟩)⟩⟩,
    ⟨4, some ⟨some 7, false, some (⟨1, 1, 1⟩, ⟨none, none, none, some ("/f".toList, "1".toList),
      none⟩)⟩⟩]

theorem sample_executed_once :
    ∃ sm, replay sampleLog = some sm ∧ sm.executed.length = 1 ∧
      (sm.executed.map fun x => (x.clientId, x.rpcNumber)).Nodup :=
  ⟨_, rfl, rfl, (no_call_executed_twice sampleLog (by simp [Increasing, sampleLog]) _ rfl).1⟩

end StateMachine

end RaftMonitor.LogCabin
