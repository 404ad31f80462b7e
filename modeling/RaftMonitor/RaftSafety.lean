import RaftMonitor.RaftRefinement

namespace RaftMonitor.LogCabin

open ElectedLogs RaftConsensus

variable {n : ℕ} {Op : Type}

namespace Raft

def Request.serverId : Request n Op → Fin n
  | .requestVote request => request.serverId
  | .appendEntries request => request.serverId

def Request.recipientId : Request n Op → Fin n
  | .requestVote request => request.recipientId
  | .appendEntries request => request.recipientId

def Response.term : Response → ℕ
  | .requestVote term _ => term
  | .appendEntries term _ => term

def Request.Sent (G : World (Fin n) (EntryType n Op)) : Request n Op → Prop
  | .requestVote request => VoteRequested G request
  | .appendEntries request => EntriesSent G request

/-- A vote that is granted was given, and entries that are acknowledged are stored. -/
def Request.Answered (G : World (Fin n) (EntryType n Op)) : Request n Op → Response → Prop
  | .requestVote request, .requestVote _ granted =>
    granted = true → G.vote request.recipientId request.term = some request.serverId
  | .appendEntries request, .appendEntries term success =>
    request.term ≤ term ∧ (success = true → term = request.term ∧
      request.prevLogIndex + request.entries.length ≤ G.stored request.recipientId request.term)
  | _, _ => False

variable {G G' : World (Fin n) (EntryType n Op)}

theorem Request.Sent.mono {request : Request n Op} (h : request.Sent G) (hext : Extends G G') :
    request.Sent G' := by
  cases request with
  | requestVote request =>
    obtain ⟨l, hl, hend⟩ := VoteRequested.standing h
    exact ⟨VoteRequested.other h, l, hext.standing hl, hend⟩
  | appendEntries request => exact EntriesSent.mono h hext

theorem Request.Answered.mono {request : Request n Op} {response : Response}
    (h : request.Answered G response) (hext : Extends G G') : request.Answered G' response := by
  cases request with
  | requestVote request =>
    cases response with
    | requestVote term granted => exact fun hgranted => hext.vote (h hgranted)
    | appendEntries term success => exact h
  | appendEntries request =>
    cases response with
    | requestVote term granted => exact h
    | appendEntries term success =>
      refine ⟨h.1, fun hsuccess => ?_⟩
      obtain ⟨hterm, hstored⟩ := h.2 hsuccess
      exact ⟨hterm, hstored.trans (hext.stored _ _)⟩

end Raft

namespace RaftSystem

structure Rel (start : Start n Op) (S : RaftSystem n Op) (G : World (Fin n) (EntryType n Op)) :
    Prop where
  consistent : Consistent start G
  serverId : ∀ i, (S.servers i).serverId = i
  agrees : ∀ i, Agrees start G (S.servers i)
  requests : ∀ request ∈ S.requests, request.Sent G
  replies : ∀ {k response}, (k, response) ∈ S.replies →
    ∃ request, S.requests[k]? = some request ∧ request.Answered G response
  rpc : ∀ {i j call}, ((S.servers i).peers j).rpc = some call →
    S.requests[call.messageId]? = some call.request ∧
      call.request.serverId = i ∧ call.request.recipientId = j
  failed : S.failed = false

theorem rel_init (start : Start n Op) :
    Rel start (init start) (World.init start.setting start.terms start.votes) where
  consistent := inv_init start.lastTerm_le start.votes_le
  serverId _ := rfl
  agrees _ := {
    term := rfl
    vote := fun hbase => if_pos ⟨hbase, rfl⟩
    leaderId := nofun
    committed := ⟨Nat.zero_le _, chosen_nil _ _⟩
    sync := nofun
    rpc := nofun
    follower := fun _ => rfl
    candidate := nofun
    leader := nofun }
  requests := nofun
  replies := nofun
  rpc := nofun
  failed := rfl

/-- A server goes on. It may send one request, and handle one reply or one request. -/
structure Continues (i : Fin n) (S S' : RaftSystem n Op) : Prop where
  other : ∀ {j}, j ≠ i → S'.servers j = S.servers j
  term : (S.servers i).currentTerm ≤ (S'.servers i).currentTerm
  epoch : (S.servers i).currentEpoch ≤ (S'.servers i).currentEpoch
  commit : (S.servers i).commitIndex ≤ (S'.servers i).commitIndex
  leader : (S.servers i).state = .leader →
    (S'.servers i).currentTerm = (S.servers i).currentTerm →
    (S'.servers i).state = .leader ∧ (S.servers i).log <+: (S'.servers i).log
  rpc : ∀ {j call}, ((S'.servers i).peers j).rpc = some call →
    ((S.servers i).peers j).rpc = some call ∨
      call.epoch = (S.servers i).currentEpoch ∧ call.messageId = S.requests.length
  ack : ∀ j, ((S'.servers i).peers j).lastAckEpoch = ((S.servers i).peers j).lastAckEpoch ∨
    ∃ call response, ((S.servers i).peers j).rpc = some call ∧
      (call.messageId, response) ∈ S.replies ∧ response.term ≤ (S'.servers i).currentTerm ∧
      ((S'.servers i).peers j).lastAckEpoch = call.epoch
  requests : S.requests <+: S'.requests
  replies : ∀ {k response}, (k, response) ∈ S'.replies → (k, response) ∈ S.replies ∨
    ∃ request, S.requests[k]? = some request ∧ request.recipientId = i ∧
      response.term = (S'.servers i).currentTerm

def books (S : RaftSystem n Op) :
    List (ReplicateCall n Op) × List (ℕ × Op) × List (ReadCall n) × List (ℕ × ℕ) :=
  (S.calls, S.results, S.reads, S.readResults)

/-- What happens to the calls while a server goes on: nothing, or one of them begins, gives up or
returns. -/
inductive Booked (i : Fin n) (S S' : RaftSystem n Op) : Prop
  | same (h : S'.books = S.books)
  | replicate (operation : Op) (hleader : (S.servers i).state = .leader)
    (hterm : (S'.servers i).currentTerm = (S.servers i).currentTerm)
    (hlog : (S'.servers i).log =
      (S.servers i).log ++ [⟨(S.servers i).currentTerm, .data operation⟩])
    (h : S'.books = (S.calls ++ [⟨i, (S.servers i).currentTerm, (S.servers i).log.length + 1,
      operation⟩], S.results, S.reads, S.readResults))
  | refused (k : ℕ) (h : S'.books = (S.calls.eraseIdx k, S.results, S.reads, S.readResults))
  | replicated (k : ℕ) (call : ReplicateCall n Op) (hcall : S.calls[k]? = some call)
    (hservers : S'.servers = S.servers)
    (hterm : (S.servers call.server).currentTerm = call.term)
    (hindex : call.index ≤ (S.servers call.server).commitIndex)
    (h : S'.books = (S.calls.eraseIdx k, S.results ++ [(call.index, call.operation)], S.reads,
      S.readResults))
  | read (hepoch : (S'.servers i).currentEpoch = (S.servers i).currentEpoch + 1)
    (hpeers : (S'.servers i).peers = (S.servers i).peers)
    (hmessages : S'.requests = S.requests ∧ S'.replies = S.replies)
    (h : S'.books = (S.calls, S.results,
      S.reads ++ [⟨i, (S.servers i).currentEpoch + 1, S.results.length⟩], S.readResults))
  | notLeader (k : ℕ) (h : S'.books = (S.calls, S.results, S.reads.eraseIdx k, S.readResults))
  | upToDate (k : ℕ) (call : ReadCall n) (hcall : S.reads[k]? = some call)
    (hservers : S'.servers = S.servers)
    (hupToDate : (S.servers call.server).upToDate call.epoch = some true)
    (h : S'.books = (S.calls, S.results, S.reads.eraseIdx k,
      S.readResults ++ [(call.acknowledged, (S.servers call.server).commitIndex)]))

/-- A server stops and starts again, without the threads that waited in calls. -/
structure Stops (i : Fin n) (S S' : RaftSystem n Op) : Prop where
  other : ∀ {j}, j ≠ i → S'.servers j = S.servers j
  term : (S.servers i).currentTerm ≤ (S'.servers i).currentTerm
  peers : ∀ j, ((S'.servers i).peers j).rpc = none ∧ ((S'.servers i).peers j).lastAckEpoch = 0
  requests : S'.requests = S.requests
  replies : S'.replies = S.replies
  books : S'.books = (S.calls.filter fun call => call.server ≠ i, S.results,
    S.reads.filter fun call => call.server ≠ i, S.readResults)

variable {start : Start n Op} {S S' : RaftSystem n Op} {G G' : World (Fin n) (EntryType n Op)}
  {i : Fin n}

theorem Continues.refl (i : Fin n) (S : RaftSystem n Op) : Continues i S S where
  other _ := rfl
  term := le_rfl
  epoch := le_rfl
  commit := le_rfl
  leader hs _ := ⟨hs, List.prefix_rfl⟩
  rpc h := .inl h
  ack _ := .inl rfl
  requests := List.prefix_rfl
  replies h := .inl h

theorem Rel.update (h : Rel start S G) {s' : RaftConsensus n Op} (hmoves : Moves start i G G')
    (hagrees : Agrees start G' s') (hserver : s'.serverId = i)
    (hrpc : ∀ {j call}, (s'.peers j).rpc = some call →
      S.requests[call.messageId]? = some call.request ∧
        call.request.serverId = i ∧ call.request.recipientId = j) :
    Rel start (S.act i (some s')) G' := by
  obtain ⟨hinv, hext, hframe⟩ := h.consistent.steps hmoves
  refine {
    consistent := hinv
    serverId := fun k => ?_
    agrees := fun k => ?_
    requests := fun request hr => (h.requests request hr).mono hext
    replies := fun hr => ?_
    rpc := fun {k j call} hr => ?_
    failed := h.failed }
  · rcases eq_or_ne k i with rfl | hne
    · simpa [act] using hserver
    · simpa [act, hne] using h.serverId k
  · rcases eq_or_ne k i with rfl | hne
    · simpa [act] using hagrees
    · simpa [act, hne] using (h.agrees k).frame (by rwa [h.serverId]) hext hframe
  · obtain ⟨request, hrequest, hanswered⟩ := h.replies hr
    exact ⟨request, hrequest, hanswered.mono hext⟩
  · rcases eq_or_ne k i with rfl | hne
    · exact hrpc (by simpa [act] using hr)
    · exact h.rpc (by simpa [act, hne] using hr)

theorem continues_act {s' : RaftConsensus n Op} (honward : Onward (S.servers i) s') :
    Continues i S (S.act i (some s')) where
  other hne := by simp [act, hne]
  term := by simpa [act] using honward.term
  epoch := by simpa [act] using honward.epoch.ge
  commit := by simpa [act] using honward.commit
  leader hs ht := by simpa [act] using honward.leader hs (by simpa [act] using ht)
  rpc hr := .inl (honward.rpc (by simpa [act] using hr))
  ack j := .inl (by simpa [act] using honward.ack j)
  requests := List.prefix_rfl
  replies hr := .inl hr

/-- What an event does: one server goes on, or the server that `halted` names stops and starts
again. -/
def Proceeds (halted : Option (Fin n)) (i : Fin n) (S S' : RaftSystem n Op) : Prop :=
  Continues i S S' ∧ Booked i S S' ∨ halted = some i ∧ Stops i S S'

def Follows (start : Start n Op) (halted : Option (Fin n)) (S S' : RaftSystem n Op)
    (G : World (Fin n) (EntryType n Op)) : Prop :=
  ∃ i G', Moves start i G G' ∧ Rel start S' G' ∧ Proceeds halted i S S'

variable {halted : Option (Fin n)}

theorem Proceeds.commitIndex_le (h : Proceeds halted i S S') {j : Fin n} (hj : halted ≠ some j) :
    (S.servers j).commitIndex ≤ (S'.servers j).commitIndex := by
  rcases h with ⟨hcontinues, -⟩ | ⟨hhalted, hstops⟩
  · rcases eq_or_ne j i with rfl | hne
    · exact hcontinues.commit
    · rw [hcontinues.other hne]
  · have hne : j ≠ i := fun heq => hj (heq ▸ hhalted)
    rw [hstops.other hne]

theorem Rel.act (h : Rel start S G) {s' : RaftConsensus n Op}
    (hspec : ∃ G', Moves start (S.servers i).serverId G G' ∧ Agrees start G' s' ∧
      Onward (S.servers i) s') :
    ∃ G', Moves start i G G' ∧ Rel start (S.act i (some s')) G' ∧
      Continues i S (S.act i (some s')) := by
  obtain ⟨G', hmoves, hagrees, honward⟩ := hspec
  rw [h.serverId] at hmoves
  exact ⟨G', hmoves, h.update hmoves hagrees (honward.serverId.trans (h.serverId i))
    fun hr => h.rpc (honward.rpc hr), continues_act honward⟩

theorem Rel.follows_act (h : Rel start S G) {s' : RaftConsensus n Op}
    (hspec : ∃ G', Moves start (S.servers i).serverId G G' ∧ Agrees start G' s' ∧
      Onward (S.servers i) s') :
    Follows start halted S (S.act i (some s')) G := by
  obtain ⟨G', hmoves, hrel, hcontinues⟩ := h.act hspec
  exact ⟨i, G', hmoves, hrel, .inl ⟨hcontinues, .same rfl⟩⟩

theorem Rel.follows_same (h : Rel start S G) {s' : RaftConsensus n Op} (hagrees : Agrees start G s')
    (honward : Onward (S.servers i) s') : Follows start halted S (S.act i (some s')) G :=
  h.follows_act ⟨G, .refl _ _ _, hagrees, honward⟩

theorem Agrees.countEpoch {s : RaftConsensus n Op} (h : Agrees start G s) (epoch : ℕ) :
    Agrees start G { s with currentEpoch := epoch } :=
  { h with
    candidate := fun hs => { h.candidate hs with }
    leader := fun hs => { h.leader hs with } }

theorem Rel.countEpoch (h : Rel start S G) (i : Fin n) :
    Rel start
        (S.act i (some { S.servers i with currentEpoch := (S.servers i).currentEpoch + 1 })) G ∧
      Continues i S
        (S.act i (some { S.servers i with currentEpoch := (S.servers i).currentEpoch + 1 })) := by
  refine ⟨h.update (.refl _ _ _) (Agrees.countEpoch (h.agrees i) _) (h.serverId i) h.rpc, ?_⟩
  exact {
    other := fun hne => by simp [RaftSystem.act, hne]
    term := by simp [RaftSystem.act]
    epoch := by simp [RaftSystem.act]
    commit := by simp [RaftSystem.act]
    leader := fun hs _ => by simp [RaftSystem.act, hs]
    rpc := fun hr => .inl (by simpa [RaftSystem.act] using hr)
    ack := fun j => .inl (by simp [RaftSystem.act])
    requests := List.prefix_rfl
    replies := fun hr => .inl hr }

theorem Rel.send (h : Rel start S G) {j : Fin n} {request : Raft.Request n Op}
    (hsent : request.Sent G) (hserver : request.serverId = i) (hrecipient : request.recipientId = j)
    (hterm : ∀ append, request = .appendEntries append →
      append.term = (S.servers i).currentTerm ∧ (S.servers i).state = .leader) :
    Follows start halted S (S.send i j request) G := by
  have hrel : Rel start { S with requests := S.requests ++ [request] } G :=
    { h with
      requests := fun r hr => by
        rcases List.mem_append.mp hr with hr | hr
        · exact h.requests r hr
        · rw [List.mem_singleton.mp hr]
          exact hsent
      replies := fun hr => by
        obtain ⟨r, hget, hanswered⟩ := h.replies hr
        exact ⟨r, prefix_getElem? (List.prefix_append _ _) hget, hanswered⟩
      rpc := fun hr => by
        obtain ⟨hget, hfrom⟩ := h.rpc hr
        exact ⟨prefix_getElem? (List.prefix_append _ _) hget, hfrom⟩ }
  let peer : Peer n Op := { (S.servers i).peers j with
    rpc := some ⟨S.requests.length, (S.servers i).currentEpoch, request⟩ }
  have hagrees : Agrees start G ((S.servers i).setPeer j peer) := by
    have hold := h.agrees i
    refine hold.setPeer j peer (fun {call append} hcall happend => ?_)
      (fun hs hj hv => (hold.candidate hs).votes hj hv)
      (fun hs hj => ⟨(hold.leader hs).agreed hj, (hold.leader hs).next hj⟩)
    obtain rfl := Option.some.inj hcall
    obtain ⟨heq, hs⟩ := hterm append happend
    exact ⟨heq.le, fun _ => hs⟩
  have hpeer : ∀ {k call}, (((S.servers i).setPeer j peer).peers k).rpc = some call →
      k = j ∧ call = ⟨S.requests.length, (S.servers i).currentEpoch, request⟩ ∨
        ((S.servers i).peers k).rpc = some call := by
    intro k call hr
    rcases eq_or_ne k j with rfl | hne
    · rw [peers_setPeer_self] at hr
      exact .inl ⟨rfl, (Option.some.inj hr).symm⟩
    · exact .inr (by simpa [setPeer, hne] using hr)
  refine ⟨i, G, .refl _ _ _, hrel.update (.refl _ _ _) hagrees (h.serverId i) ?_,
    .inl ⟨?_, .same rfl⟩⟩
  · intro k call hr
    rcases hpeer hr with ⟨rfl, rfl⟩ | hr
    · exact ⟨by simp, hserver, hrecipient⟩
    · exact hrel.rpc hr
  · exact {
      other := fun hne => by simp [RaftSystem.send, RaftSystem.act, hne]
      term := by simp [RaftSystem.send, RaftSystem.act, setPeer]
      epoch := by simp [RaftSystem.send, RaftSystem.act, setPeer]
      commit := by simp [RaftSystem.send, RaftSystem.act, setPeer]
      leader := fun hs _ => by simp [RaftSystem.send, RaftSystem.act, setPeer, hs]
      rpc := fun {k call} hr => by
        rcases hpeer (by simpa [RaftSystem.send, RaftSystem.act] using hr) with ⟨-, rfl⟩ | hr
        · exact .inr ⟨rfl, rfl⟩
        · exact .inl hr
      ack := fun k => .inl (by
        rcases eq_or_ne k j with rfl | hne
        · simp [RaftSystem.send, RaftSystem.act]
        · simp [RaftSystem.send, RaftSystem.act, setPeer, hne])
      requests := List.prefix_append _ _
      replies := fun hr => .inl hr }

theorem Rel.respond (h : Rel start S G) {k : ℕ} {request : Raft.Request n Op}
    {s' : RaftConsensus n Op} {response : Raft.Response} (hget : S.requests[k]? = some request)
    (hrecipient : request.recipientId = i)
    (hspec : ∃ G', Moves start (S.servers i).serverId G G' ∧ Agrees start G' s' ∧
      Onward (S.servers i) s' ∧ response.term = s'.currentTerm ∧ request.Answered G' response) :
    Follows start halted S (S.respond k i (some (s', response))) G := by
  obtain ⟨G', hmoves, hagrees, honward, hterm, hanswered⟩ := hspec
  rw [h.serverId] at hmoves
  have hrel := h.update hmoves hagrees (honward.serverId.trans (h.serverId i))
    fun hr => h.rpc (honward.rpc hr)
  have hcontinues := continues_act honward
  refine ⟨i, G', hmoves, { hrel with replies := ?_ },
    .inl ⟨{ hcontinues with replies := ?_ }, .same rfl⟩⟩
  · intro m r hr
    rcases List.mem_append.mp hr with hr | hr
    · exact hrel.replies hr
    · obtain ⟨rfl, rfl⟩ := Prod.mk.inj (List.mem_singleton.mp hr)
      exact ⟨request, hget, hanswered⟩
  · intro m r hr
    rcases List.mem_append.mp hr with hr | hr
    · exact .inl hr
    · obtain ⟨rfl, rfl⟩ := Prod.mk.inj (List.mem_singleton.mp hr)
      refine .inr ⟨request, hget, hrecipient, ?_⟩
      simpa [RaftSystem.respond, RaftSystem.act] using hterm

theorem onward_clearRPC (s : RaftConsensus n Op) (j : Fin n) :
    Onward s (s.setPeer j { s.peers j with rpc := none }) := by
  refine ⟨rfl, le_rfl, rfl, fun hs _ => ⟨hs, List.prefix_rfl⟩, fun {k call} hr => ?_, fun k => ?_,
    le_rfl⟩
  · rcases eq_or_ne k j with rfl | hne
    · simp at hr
    · simpa [setPeer, hne] using hr
  · rcases eq_or_ne k j with rfl | hne
    · simp
    · simp [setPeer, hne]

theorem continues_ack {j : Fin n} {call : Peer.Call n Op} {response : Raft.Response}
    {s' : RaftConsensus n Op} (hcall : ((S.servers i).peers j).rpc = some call)
    (hreply : (call.messageId, response) ∈ S.replies)
    (hterm : response.term ≤ (S.servers i).currentTerm)
    (honward : Onward
      (((S.servers i).setPeer j { (S.servers i).peers j with rpc := none }).setPeer j
        { ((S.servers i).setPeer j { (S.servers i).peers j with rpc := none }).peers j with
          lastAckEpoch := call.epoch }) s') :
    Continues i S (S.act i (some s')) where
  other hne := by simp [RaftSystem.act, hne]
  term := by simpa [RaftSystem.act, setPeer] using honward.term
  epoch := by simpa [RaftSystem.act, setPeer] using honward.epoch.ge
  commit := by simpa [RaftSystem.act, setPeer] using honward.commit
  leader hs ht := by
    simpa [RaftSystem.act, setPeer] using
      honward.leader hs (by simpa [RaftSystem.act, setPeer] using ht)
  rpc {k c} hr := by
    have hnew : (s'.peers k).rpc = some c := by simpa [RaftSystem.act] using hr
    have hr' := honward.rpc hnew
    rcases eq_or_ne k j with rfl | hne
    · simp at hr'
    · exact .inl (by simpa [setPeer, hne] using hr')
  ack k := by
    have hack := honward.ack k
    rcases eq_or_ne k j with rfl | hne
    · refine .inr ⟨call, response, hcall, hreply, ?_, ?_⟩
      · simpa [RaftSystem.act] using hterm.trans honward.term
      · simpa [RaftSystem.act] using hack
    · exact .inl (by simpa [RaftSystem.act, setPeer, hne] using hack)
  requests := List.prefix_rfl
  replies hr := .inl hr

theorem Rel.reply (h : Rel start S G) {j : Fin n} {call : Peer.Call n Op} {response : Raft.Response}
    (hcall : ((S.servers i).peers j).rpc = some call)
    (hreply : (call.messageId, response) ∈ S.replies) :
    Follows start halted S (S.act i ((S.servers i).reply j call response)) G := by
  obtain ⟨hget, hserver, hrecipient⟩ := h.rpc hcall
  obtain ⟨request, hget', hanswered⟩ := h.replies hreply
  obtain rfl : call.request = request := Option.some.inj (hget.symm.trans hget')
  have hold := h.agrees i
  have hagrees := hold.clearRPC j
  have honward := onward_clearRPC (S.servers i) j
  have hcases : ∃ s' G', (S.servers i).reply j call response = some s' ∧
      Moves start (S.servers i).serverId G G' ∧ Agrees start G' s' ∧
      (Onward ((S.servers i).setPeer j { (S.servers i).peers j with rpc := none }) s' ∨
        response.term ≤ (S.servers i).currentTerm ∧
        Onward (((S.servers i).setPeer j { (S.servers i).peers j with rpc := none }).setPeer j
          { ((S.servers i).setPeer j { (S.servers i).peers j with rpc := none }).peers j with
            lastAckEpoch := call.epoch }) s') := by
    unfold RaftConsensus.reply
    dsimp only
    cases hrequest : call.request with
    | requestVote request =>
      rw [hrequest] at hanswered hserver hrecipient
      cases response with
      | appendEntries term success => exact hanswered.elim
      | requestVote term granted =>
        refine hagrees.requestVoteReply h.consistent fun hgranted => ?_
        have hvote := hanswered hgranted
        rw [show request.recipientId = j from hrecipient,
          show request.serverId = i from hserver] at hvote
        rw [hvote]
        exact congrArg some (h.serverId i).symm
    | appendEntries request =>
      rw [hrequest] at hanswered hrecipient
      cases response with
      | requestVote term granted => exact hanswered.elim
      | appendEntries term success =>
        refine hagrees.appendEntriesReply h.consistent (hold.rpc hcall hrequest).2 hanswered.1
          fun hsuccess => ?_
        obtain ⟨hterm, hstored⟩ := hanswered.2 hsuccess
        rw [show request.recipientId = j from hrecipient] at hstored
        exact ⟨hterm, hstored⟩
  obtain ⟨s', G', heq, hmoves, hagrees', hack⟩ := hcases
  rw [heq]
  rcases hack with honward' | ⟨hterm, honward'⟩
  · exact h.follows_act ⟨G', hmoves, hagrees', honward.trans honward'⟩
  · rw [h.serverId] at hmoves
    refine ⟨i, G', hmoves, h.update hmoves hagrees' (honward'.serverId.trans (h.serverId i)) ?_,
      .inl ⟨continues_ack hcall hreply hterm honward', .same rfl⟩⟩
    intro k c hr
    refine h.rpc (honward.rpc ?_)
    have hr' := honward'.rpc hr
    rcases eq_or_ne k j with rfl | hne
    · simp at hr'
    · simpa [setPeer, hne] using hr'

theorem Rel.stop (h : Rel start S G) {s' : RaftConsensus n Op}
    (hspec : ∃ G', Moves start (S.servers i).serverId G G' ∧ Agrees start G' s')
    (hserver : s'.serverId = (S.servers i).serverId)
    (hterm : (S.servers i).currentTerm ≤ s'.currentTerm)
    (hpeers : ∀ j, (s'.peers j).rpc = none ∧ (s'.peers j).lastAckEpoch = 0) :
    Follows start (some i) S ((S.act i (some s')).stop i) G := by
  obtain ⟨G', hmoves, hagrees⟩ := hspec
  rw [h.serverId] at hmoves
  have hrel := h.update hmoves hagrees (hserver.trans (h.serverId i))
    fun {j call} hr => by simp [(hpeers j).1] at hr
  refine ⟨i, G', hmoves, { hrel with }, .inr ⟨rfl, ?_⟩⟩
  exact {
    other := fun hne => by simp [RaftSystem.stop, RaftSystem.act, hne]
    term := by simpa [RaftSystem.stop, RaftSystem.act] using hterm
    peers := fun j => by simpa [RaftSystem.stop, RaftSystem.act] using hpeers j
    requests := rfl
    replies := rfl
    books := rfl }

def stopped (S : RaftSystem n Op) : Event n Op → Option (Fin n)
  | .restart i _ _ => some i
  | .stopAppending k _ =>
    match S.requests[k]? with
    | some (.appendEntries request) => some request.recipientId
    | _ => none
  | _ => none

/-- What a leader sends are entries of its log without a gap. -/
def Contiguous (size : Op → ℕ) (S : RaftSystem n Op) : Event n Op → Prop
  | .sendAppendEntries i j => RaftConsensus.Contiguous size (S.servers i) j
  | _ => True

instance [DecidableEq Op] (size : Op → ℕ) (S : RaftSystem n Op) :
    DecidablePred (Contiguous size S)
  | .sendAppendEntries i j => inferInstanceAs (Decidable (∀ request,
      request ∈ (S.servers i).appendEntries size j →
        request.entries <+: (S.servers i).log.drop request.prevLogIndex))
  | .timeout _ | .countEpoch _ | .stepDown _ | .sendRequestVote .. | .rpcFailed .. | .handleReply ..
  | .handleRequest .. | .takeSync _ | .syncComplete _ | .replicate .. | .replicated _
  | .upToDateLeader _ | .upToDate _ | .restart .. | .stopAppending .. => isTrue trivial

theorem Rel.follows_books (h : Rel start S G) (i : Fin n) (hservers : S'.servers = S.servers)
    (hrequests : S'.requests = S.requests) (hreplies : S'.replies = S.replies)
    (hfailed : S'.failed = false) (hbooked : Booked i S S') : Follows start halted S S' G := by
  obtain ⟨servers, requests, replies, calls, results, reads, readResults, failed⟩ := S'
  dsimp only at hservers hrequests hreplies hfailed
  subst hservers hrequests hreplies hfailed
  exact ⟨i, G, .refl _ _ _, { h with failed := rfl }, .inl ⟨{ Continues.refl i S with }, hbooked⟩⟩

theorem Agrees.upToDate_isSome {s : RaftConsensus n Op} (h : Agrees start G s) (epoch : ℕ) :
    ∃ b, s.upToDate epoch = some b := by
  unfold upToDate
  split_ifs with hs hzero
  · exact ⟨_, rfl⟩
  · exact ⟨_, rfl⟩
  · obtain ⟨k, hk⟩ := Nat.exists_eq_succ_of_ne_zero hzero
    have hlt : k < s.log.length := by
      have := h.committed.1
      omega
    rw [hk, getEntry_succ, List.getElem?_eq_getElem hlt]
    exact ⟨_, rfl⟩

theorem Rel.handleRequest (h : Rel start S G) {k : ℕ} {withheld : Bool}
    (hstep : step size S (.handleRequest k withheld) = some S') : Follows start halted S S' G := by
  unfold step at hstep
  dsimp only at hstep
  cases hget : S.requests[k]? with
  | none => simp [hget] at hstep
  | some request =>
    rw [hget] at hstep
    have hsent := h.requests request (List.mem_of_getElem? hget)
    cases request with
    | requestVote request =>
      have hold := h.agrees request.recipientId
      obtain ⟨s', term, granted, G', heq, hmoves, hagrees, honward, hterm, hgranted⟩ :=
        hold.handleRequestVote h.consistent withheld hsent
      obtain rfl := Option.some.inj hstep
      rw [heq]
      rw [h.serverId] at hgranted
      exact h.respond hget rfl ⟨G', hmoves, hagrees, honward, hterm, hgranted⟩
    | appendEntries request =>
      have hold := h.agrees request.recipientId
      obtain ⟨s', term, success, G', heq, hmoves, hagrees, honward, hterm, hle, hstored⟩ :=
        hold.handleAppendEntries h.consistent hsent (h.serverId _).symm
      obtain rfl := Option.some.inj hstep
      rw [heq]
      rw [h.serverId] at hstored
      exact h.respond hget rfl ⟨G', hmoves, hagrees, honward, hterm, hle, hstored⟩

theorem Rel.handleReply (h : Rel start S G) {j : Fin n} {k : ℕ}
    (hstep : step size S (.handleReply i j k) = some S') : Follows start halted S S' G := by
  unfold step at hstep
  dsimp only at hstep
  cases hcall : ((S.servers i).peers j).rpc with
  | none => simp [hcall] at hstep
  | some call =>
    cases hreply : S.replies[k]? with
    | none => simp [hcall, hreply] at hstep
    | some reply =>
      obtain ⟨messageId, response⟩ := reply
      rw [hcall, hreply] at hstep
      dsimp only at hstep
      split_ifs at hstep with hid
      obtain rfl := Option.some.inj hstep
      subst hid
      exact h.reply hcall (List.mem_of_getElem? hreply)

theorem Rel.replicated (h : Rel start S G) {k : ℕ} (hstep : step size S (.replicated k) = some S') :
    Follows start halted S S' G := by
  obtain ⟨call, hcall, hstep⟩ := Option.bind_eq_some_iff.mp hstep
  dsimp only at hstep
  split_ifs at hstep with hterm hindex
  · obtain rfl := Option.some.inj hstep
    exact h.follows_books call.server rfl rfl rfl h.failed (.refused k rfl)
  · obtain rfl := Option.some.inj hstep
    exact h.follows_books call.server rfl rfl rfl h.failed
      (.replicated k call hcall rfl (not_not.mp hterm) hindex rfl)

theorem Rel.upToDate (h : Rel start S G) {k : ℕ} (hstep : step size S (.upToDate k) = some S') :
    Follows start halted S S' G := by
  obtain ⟨call, hcall, hstep⟩ := Option.bind_eq_some_iff.mp hstep
  obtain ⟨b, hb⟩ := Agrees.upToDate_isSome (h.agrees call.server) call.epoch
  dsimp only at hstep
  rw [hb] at hstep
  cases b with
  | true =>
    obtain rfl := Option.some.inj hstep
    exact h.follows_books call.server rfl rfl rfl h.failed (.upToDate k call hcall rfl hb rfl)
  | false =>
    dsimp only at hstep
    split_ifs at hstep
    obtain rfl := Option.some.inj hstep
    exact h.follows_books call.server rfl rfl rfl h.failed (.notLeader k rfl)

theorem Rel.timeout (h : Rel start S G) (hstep : step size S (.timeout i) = some S') :
    Follows start halted S S' G := by
  unfold step at hstep
  dsimp only at hstep
  split_ifs at hstep with hs
  obtain ⟨s', G', heq, hspec⟩ := (h.agrees i).startNewElection h.consistent hs
  obtain rfl := Option.some.inj hstep
  rw [heq]
  exact h.follows_act ⟨G', hspec⟩

theorem Rel.stepDown (h : Rel start S G) (hstep : step size S (.stepDown i) = some S') :
    Follows start halted S S' G := by
  unfold step at hstep
  dsimp only at hstep
  split_ifs at hstep
  obtain ⟨s', G', heq, hmoves, hagrees, honward, -⟩ := (h.agrees i).stepDown h.consistent
    (Nat.le_succ _) fun _ => Nat.lt_succ_self _
  obtain rfl := Option.some.inj hstep
  rw [heq]
  exact h.follows_act ⟨G', hmoves, hagrees, honward⟩

theorem Rel.sendRequestVote (h : Rel start S G) {j : Fin n}
    (hstep : step size S (.sendRequestVote i j) = some S') : Follows start halted S S' G := by
  unfold step at hstep
  dsimp only at hstep
  split_ifs at hstep with hs
  obtain rfl := Option.some.inj hstep
  have hj : j ≠ (S.servers i).serverId := by
    rw [h.serverId]
    exact hs.2.1
  exact h.send ((h.agrees i).voteRequested hs.1 hj) (h.serverId i) rfl nofun

/-- The only place where a gap would matter. -/
theorem Rel.sendAppendEntries (h : Rel start S G) {j : Fin n}
    (hcontiguous : RaftConsensus.Contiguous size (S.servers i) j)
    (hstep : step size S (.sendAppendEntries i j) = some S') : Follows start halted S S' G := by
  unfold step at hstep
  dsimp only at hstep
  split_ifs at hstep with hs
  have hj : j ≠ (S.servers i).serverId := by
    rw [h.serverId]
    exact hs.2.1
  obtain ⟨request, heq, hsent, hserver, hrecipient, hterm⟩ :=
    (h.agrees i).appendEntries hs.1 hj hcontiguous
  rw [heq] at hstep
  obtain rfl := Option.some.inj hstep
  refine h.send hsent (hserver.trans (h.serverId i)) hrecipient fun append happend => ?_
  obtain rfl := Raft.Request.appendEntries.inj happend
  exact ⟨hterm, hs.1⟩

theorem Rel.syncComplete (h : Rel start S G) (hstep : step size S (.syncComplete i) = some S') :
    Follows start halted S S' G := by
  obtain ⟨⟨t, m⟩, hsync, rfl⟩ := Option.map_eq_some_iff.mp hstep
  obtain ⟨s', G', heq, hspec⟩ := (h.agrees i).syncComplete h.consistent hsync
  dsimp only
  rw [heq]
  exact h.follows_act ⟨G', hspec⟩

theorem Rel.replicate (h : Rel start S G) {operation : Op}
    (hstep : step size S (.replicate i operation) = some S') : Follows start halted S S' G := by
  unfold step at hstep
  dsimp only at hstep
  split_ifs at hstep with hs
  obtain ⟨s', G', heq, hmoves, hagrees, honward, hterm, hlog⟩ :=
    (h.agrees i).append h.consistent hs (.data operation) nofun
  obtain rfl := Option.some.inj hstep
  obtain ⟨G₁, hmoves₁, hrel, hcontinues⟩ := h.act ⟨G', hmoves, hagrees, honward⟩
  have hact : (S.servers i).replicate operation = some s' := heq
  rw [hact]
  -- neither relation looks at the calls, so both hold again with the new one
  refine ⟨i, G₁, hmoves₁, { hrel with }, .inl ⟨{ hcontinues with }, ?_⟩⟩
  exact .replicate operation hs (by simpa [RaftSystem.act] using hterm)
    (by simpa [RaftSystem.act] using hlog) rfl

theorem Rel.restart (h : Rel start S G) {newTerm kept : ℕ}
    (hstep : step size S (.restart i newTerm kept) = some S') :
    Follows start (some i) S S' G := by
  unfold step at hstep
  dsimp only at hstep
  by_cases hbound : (S.servers i).currentTerm ≤ newTerm ∧ kept ≤ (S.servers i).log.length ∧
      (if (S.servers i).state = .leader then (S.servers i).lastSyncedIndex
        else (S.servers i).log.length) ≤ kept
  · rw [if_pos hbound] at hstep
    obtain rfl := Option.some.inj hstep
    exact h.stop ((h.agrees i).restart h.consistent hbound.1 hbound.2.2 hbound.2.1) rfl hbound.1
      fun _ => ⟨rfl, rfl⟩
  · rw [if_neg hbound] at hstep
    cases hstep

theorem Rel.stopAppending (h : Rel start S G) {k count : ℕ}
    (hstep : step size S (.stopAppending k count) = some S') :
    Follows start (stopped S (.stopAppending k count)) S S' G := by
  unfold step at hstep
  unfold stopped
  dsimp only at hstep ⊢
  cases hget : S.requests[k]? with
  | none => simp [hget] at hstep
  | some request =>
    rw [hget] at hstep
    have hsent := h.requests request (List.mem_of_getElem? hget)
    cases request with
    | requestVote request => simp at hstep
    | appendEntries request =>
      obtain ⟨s', G', heq, hmoves, hagrees, hserver, hterm, hpeers⟩ :=
        (h.agrees request.recipientId).stopAppending h.consistent hsent (h.serverId _).symm count
      obtain rfl := Option.some.inj hstep
      rw [heq]
      exact h.stop ⟨G', hmoves, hagrees⟩ hserver hterm hpeers

/-- Whatever happens next, no assertion fails and the abstract world can follow, as long as what
leaders send has no gap. -/
theorem Rel.step (h : Rel start S G) {event : Event n Op} (hcontiguous : Contiguous size S event)
    (hstep : step size S event = some S') : Follows start (stopped S event) S S' G := by
  cases event with
  | timeout i => exact h.timeout hstep
  | countEpoch i =>
    unfold RaftSystem.step at hstep
    dsimp only at hstep
    split_ifs at hstep
    obtain rfl := Option.some.inj hstep
    obtain ⟨hrel, hcontinues⟩ := h.countEpoch i
    exact ⟨i, G, .refl _ _ _, hrel, .inl ⟨hcontinues, .same rfl⟩⟩
  | stepDown i => exact h.stepDown hstep
  | sendRequestVote i j => exact h.sendRequestVote hstep
  | sendAppendEntries i j => exact h.sendAppendEntries hcontiguous hstep
  | rpcFailed i j =>
    obtain rfl := Option.some.inj hstep
    exact h.follows_same ((h.agrees i).clearRPC j) (onward_clearRPC _ j)
  | handleReply i j k => exact h.handleReply hstep
  | handleRequest k withheld => exact h.handleRequest hstep
  | takeSync i =>
    obtain ⟨s', heq, rfl⟩ := Option.map_eq_some_iff.mp hstep
    obtain ⟨hagrees, honward⟩ := (h.agrees i).takeSync h.consistent heq
    exact h.follows_same hagrees honward
  | syncComplete i => exact h.syncComplete hstep
  | replicate i operation => exact h.replicate hstep
  | replicated k => exact h.replicated hstep
  | upToDateLeader i =>
    obtain rfl := Option.some.inj hstep
    obtain ⟨hrel, hcontinues⟩ := h.countEpoch i
    refine ⟨i, G, .refl _ _ _, { hrel with }, .inl ⟨{ hcontinues with }, ?_⟩⟩
    exact .read (by simp [RaftSystem.act]) (by simp [RaftSystem.act]) ⟨rfl, rfl⟩ rfl
  | upToDate k => exact h.upToDate hstep
  | restart i newTerm kept => exact h.restart hstep
  | stopAppending k count => exact h.stopAppending hstep

/-- The run goes on from one state to another, and what leaders send has no gap. -/
def Reaches (size : Op → ℕ) (S : RaftSystem n Op) (events : List (Event n Op))
    (S' : RaftSystem n Op) : Prop :=
  Runs.run (step size) S events = some S' ∧ Runs.Meets (step size) (Contiguous size) S events

variable {size : Op → ℕ} {events : List (Event n Op)}

theorem Rel.run (h : Rel start S G) (hrun : Reaches size S events S') :
    ∃ G', Extends G G' ∧ Rel start S' G' := by
  refine Runs.invariant_of_meets (I := fun T => ∃ G', Extends G G' ∧ Rel start T G') ?_
    ⟨G, .refl G, h⟩ hrun.2 hrun.1
  rintro T event T' ⟨G₁, hext, hrel⟩ hcontiguous hstep
  obtain ⟨i, G₂, hmoves, hrel', -⟩ := hrel.step hcontiguous hstep
  exact ⟨G₂, hext.trans (hrel.consistent.steps hmoves).2.1, hrel'⟩

theorem rel_of_runs {before after : List (Event n Op)}
    (hbefore : Reaches size (init start) before S) (hafter : Reaches size S after S') :
    ∃ G G', Rel start S G ∧ Rel start S' G' ∧ Extends G G' := by
  obtain ⟨G, -, hrel⟩ := (rel_init start).run hbefore
  obtain ⟨G', hext, hrel'⟩ := hrel.run hafter
  exact ⟨G, G', hrel, hrel', hext⟩

theorem Rel.committed_isPrefix (h : Rel start S G) (h' : Rel start S' G') (hext : Extends G G')
    (hle : (S.servers i).commitIndex ≤ (S'.servers i).commitIndex) :
    (S.servers i).log.take (S.servers i).commitIndex <+:
      (S'.servers i).log.take (S'.servers i).commitIndex := by
  have hbound := (h'.agrees i).committed.1
  rcases h'.consistent.chosen_comparable ((h.agrees i).committed.2.mono hext le_rfl)
    (h'.agrees i).committed.2 with hpre | hpre
  · exact hpre
  · have hlength := hpre.length_le
    rw [List.length_take, List.length_take] at hlength
    rw [hpre.eq_of_length_le (by rw [List.length_take, List.length_take]; omega)]

theorem Rel.sound (h : Rel start S G) (i : Fin n) : Sound G (S.servers i).log := by
  have hagrees := h.agrees i
  by_cases hs : (S.servers i).state = .leader
  · rw [← (hagrees.leader hs).log]
    exact h.consistent.sound_log _
  · rw [← hagrees.disk hs]
    exact h.consistent.sound_disk _

/-- Whatever happens, and in whatever order, none of the assertions fails. -/
theorem no_assertion_fails (start : Start n Op) (events : List (Event n Op)) (S : RaftSystem n Op)
    (hrun : Reaches size (init start) events S) : S.failed = false := by
  obtain ⟨G, -, hrel⟩ := (rel_init start).run hrun
  exact hrel.failed

def sampleStart : Start n Op := .configuring fun _ => []

def sampleElection (i j : Fin n) : List (Event n ℕ) :=
  [.timeout i, .sendRequestVote i j, .handleRequest 0 false, .handleReply i j 0]

def sampleCommit (i j : Fin n) : List (Event n ℕ) :=
  [.replicate i 7, .sendAppendEntries i j, .handleRequest 1 false, .handleReply i j 1,
    .sendAppendEntries i j, .handleRequest 2 false, .handleReply i j 2, .takeSync i,
    .syncComplete i]

def sampleReelection (i j : Fin n) : List (Event n ℕ) :=
  [.timeout i, .sendRequestVote i j, .handleRequest 3 false, .handleReply i j 3]

theorem sample_reaches : ∃ S₁ S₂ S₃ : RaftSystem 3 ℕ,
    Reaches (fun _ => 1) (init sampleStart) (sampleElection 0 1) S₁ ∧
    Reaches (fun _ => 1) S₁ (sampleCommit 0 1) S₂ ∧
    Reaches (fun _ => 1) (init sampleStart) (sampleElection 0 1 ++ sampleCommit 0 1) S₂ ∧
    Reaches (fun _ => 1) S₂ (sampleReelection 1 2) S₃ ∧
    (S₁.servers 0).state = .leader ∧ (S₁.servers 0).currentTerm = 2 ∧
    (S₁.servers 0).log = sampleStart.log ++ [⟨2, .noop⟩] ∧
    (S₂.servers 0).state = .leader ∧ (S₂.servers 0).currentTerm = 2 ∧
    (S₂.servers 0).log = sampleStart.log ++ [⟨2, .noop⟩, ⟨2, .data 7⟩] ∧
    (S₂.servers 0).commitIndex = 3 ∧
    (S₂.servers 1).log = sampleStart.log ++ [⟨2, .noop⟩, ⟨2, .data 7⟩] ∧
    (S₃.servers 1).state = .leader ∧ (S₃.servers 1).currentTerm = 3 :=
  ⟨_, _, _, ⟨rfl, by decide +kernel⟩, ⟨rfl, by decide +kernel⟩, ⟨rfl, by decide +kernel⟩,
    ⟨rfl, by decide +kernel⟩, rfl, rfl, rfl, rfl, rfl, rfl, rfl, rfl, rfl, rfl⟩

theorem sample_no_assertion_fails : ∃ (events : List (Event 3 ℕ)) (S : RaftSystem 3 ℕ),
    Reaches (fun _ => 1) (init sampleStart) events S ∧ (S.servers 0).commitIndex = 3 ∧
      S.failed = false := by
  obtain ⟨-, S, -, -, -, hS, -, -, -, -, -, -, -, hcommit, -⟩ := sample_reaches
  exact ⟨_, S, hS, hcommit, no_assertion_fails _ _ S hS⟩

/-- A term has one leader, whenever one looks, and it only appends to its log. -/
theorem one_leader_per_term (start : Start n Op) (before after : List (Event n Op))
    (S S' : RaftSystem n Op) (hbefore : Reaches size (init start) before S)
    (hafter : Reaches size S after S') (i j : Fin n)
    (hi : (S.servers i).state = .leader) (hj : (S'.servers j).state = .leader)
    (hterm : (S.servers i).currentTerm = (S'.servers j).currentTerm) :
    i = j ∧ (S.servers i).log <+: (S'.servers j).log := by
  obtain ⟨G, G', hrel, hrel', hext⟩ := rel_of_runs hbefore hafter
  have hleads := (hrel.agrees i).leader hi
  have hleads' := (hrel'.agrees j).leader hj
  have hleader := hext.leader hleads.leader
  rw [hterm, hleads'.leader, hrel.serverId, hrel'.serverId] at hleader
  refine ⟨(Option.some.inj hleader).symm, ?_⟩
  rw [← hleads.log, ← hleads'.log, hterm]
  exact hext.log _

theorem sample_one_leader : ∃ S S' : RaftSystem 3 ℕ, (S.servers 0).state = .leader ∧
    (S'.servers 0).state = .leader ∧ (S.servers 0).log ≠ (S'.servers 0).log ∧
    (S.servers 0).log <+: (S'.servers 0).log := by
  obtain ⟨S, S', -, hS, hS', -, -, hs, ht, hl, hs', ht', hl', -⟩ := sample_reaches
  have h := one_leader_per_term _ _ _ S S' hS hS' 0 0 hs hs' (ht.trans ht'.symm)
  exact ⟨S, S', hs, hs', by simp [hl, hl'], h.2⟩

/-- Logs of two servers, or of two moments, that have an entry of the same term at the same place
agree up to this place. -/
theorem log_matching (start : Start n Op) (before after : List (Event n Op))
    (S S' : RaftSystem n Op) (hbefore : Reaches size (init start) before S)
    (hafter : Reaches size S after S') (i j : Fin n) (k : ℕ)
    (e e' : Log.Entry n Op) (he : (S.servers i).log[k]? = some e)
    (he' : (S'.servers j).log[k]? = some e') (hterm : e.term = e'.term) :
    (S.servers i).log.take (k + 1) = (S'.servers j).log.take (k + 1) := by
  obtain ⟨G, G', hrel, hrel', hext⟩ := rel_of_runs hbefore hafter
  exact (hext.sound (hrel.sound i)).take_eq (hrel'.sound j) he he' hterm

theorem sample_log_matching : ∃ S S' : RaftSystem 3 ℕ,
    (S.servers 0).log[1]? = (S'.servers 1).log[1]? ∧
    (S.servers 0).log.take 2 = (S'.servers 1).log.take 2 := by
  obtain ⟨S, S', -, hS, hS', -, -, -, -, hl, -, -, -, -, hl', -⟩ := sample_reaches
  have he : (S.servers 0).log[1]? = some ⟨2, .noop⟩ := by rw [hl]; rfl
  have he' : (S'.servers 1).log[1]? = some ⟨2, .noop⟩ := by rw [hl']; rfl
  exact ⟨S, S', he.trans he'.symm, log_matching _ _ _ S S' hS hS' 0 1 1 _ _ he he' rfl⟩

/-- What two servers hold to be committed, now or later, does not differ at any place. -/
theorem committed_entries_agree (start : Start n Op) (before after : List (Event n Op))
    (S S' : RaftSystem n Op) (hbefore : Reaches size (init start) before S)
    (hafter : Reaches size S after S') (i j : Fin n) :
    (S.servers i).log.take (S.servers i).commitIndex <+:
        (S'.servers j).log.take (S'.servers j).commitIndex ∨
      (S'.servers j).log.take (S'.servers j).commitIndex <+:
        (S.servers i).log.take (S.servers i).commitIndex := by
  obtain ⟨G, G', hrel, hrel', hext⟩ := rel_of_runs hbefore hafter
  exact hrel'.consistent.chosen_comparable ((hrel.agrees i).committed.2.mono hext le_rfl)
    (hrel'.agrees j).committed.2

theorem sample_committed_agree : ∃ S S' : RaftSystem 3 ℕ, (S.servers 0).commitIndex = 3 ∧
    ((S.servers 0).log.take (S.servers 0).commitIndex <+:
        (S'.servers 1).log.take (S'.servers 1).commitIndex ∨
      (S'.servers 1).log.take (S'.servers 1).commitIndex <+:
        (S.servers 0).log.take (S.servers 0).commitIndex) := by
  obtain ⟨-, S, S', -, -, hS, hS', -, -, -, -, -, -, hcommit, -⟩ := sample_reaches
  exact ⟨S, S', hcommit, committed_entries_agree _ _ _ S S' hS hS' 0 1⟩

/-- A leader has all that any server held to be committed before in a term that is not later. -/
theorem leader_has_committed_entries (start : Start n Op) (before after : List (Event n Op))
    (S S' : RaftSystem n Op) (hbefore : Reaches size (init start) before S)
    (hafter : Reaches size S after S') (i j : Fin n)
    (hj : (S'.servers j).state = .leader)
    (hterm : (S.servers i).currentTerm ≤ (S'.servers j).currentTerm) :
    (S.servers i).log.take (S.servers i).commitIndex <+: (S'.servers j).log := by
  obtain ⟨G, G', hrel, hrel', hext⟩ := rel_of_runs hbefore hafter
  have hleads := (hrel'.agrees j).leader hj
  have hchosen := (hrel.agrees i).committed.2.mono hext le_rfl
  rw [← hleads.log]
  exact hrel'.consistent.chosen_prefix_log hchosen hterm hleads.leader_ne_none

theorem sample_leader_complete : ∃ S S' : RaftSystem 3 ℕ, (S.servers 0).commitIndex = 3 ∧
    (S'.servers 1).state = .leader ∧
    (S.servers 0).log.take (S.servers 0).commitIndex <+: (S'.servers 1).log := by
  obtain ⟨-, S, S', -, -, hS, hS', -, -, -, -, ht, -, hcommit, -, hs', ht'⟩ := sample_reaches
  have hterm : (S.servers 0).currentTerm ≤ (S'.servers 1).currentTerm := by omega
  exact ⟨S, S', hcommit, hs',
    leader_has_committed_entries _ _ _ S S' hS hS' 0 1 hs' hterm⟩

end RaftSystem

end RaftMonitor.LogCabin
