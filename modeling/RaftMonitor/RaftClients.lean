import RaftMonitor.RaftSafety

namespace RaftMonitor.LogCabin

open ElectedLogs RaftConsensus

variable {n : ℕ} {Op : Type}

namespace RaftSystem

/-- As long as its server stays in the term, the entry of the call is in the log of the leader. -/
def Waiting (S : RaftSystem n Op) (call : ReplicateCall n Op) : Prop :=
  call.term ≤ (S.servers call.server).currentTerm ∧
    ((S.servers call.server).currentTerm = call.term →
      (S.servers call.server).state = .leader ∧
      (S.servers call.server).log.getEntry call.index = some ⟨call.term, .data call.operation⟩)

/-- A list with the operation at this index was declared committed in a term up to `t`. -/
def Acknowledged (G : World (Fin n) (EntryType n Op)) (t : ℕ) (result : ℕ × Op) : Prop :=
  ∃ l : Log n Op, Chosen G t l ∧ (l.getEntry result.1).map (·.data) = some (.data result.2)

/-- Epochs of answers and of calls that wait for an answer are past or present. -/
def EpochsPast (s : RaftConsensus n Op) : Prop :=
  ∀ j, (s.peers j).lastAckEpoch ≤ s.currentEpoch ∧
    ∀ call, (s.peers j).rpc = some call → call.epoch ≤ s.currentEpoch

/-- A call that reads began when the servers were in the terms `terms`, `base` requests had been
sent and `results` been returned. What was answered since then shows that the peer was in no later
term than its server is now. -/
structure Begun (S : RaftSystem n Op) (G : World (Fin n) (EntryType n Op)) (terms : Fin n → ℕ)
    (base : ℕ) (results : List (ℕ × Op)) (call : ReadCall n) : Prop where
  base_le : base ≤ S.requests.length
  terms_le : ∀ j, terms j ≤ (S.servers j).currentTerm
  acked : ∀ j, call.epoch ≤ ((S.servers call.server).peers j).lastAckEpoch →
    terms j ≤ (S.servers call.server).currentTerm
  rpc : ∀ {j c}, ((S.servers call.server).peers j).rpc = some c → call.epoch ≤ c.epoch →
    base ≤ c.messageId
  replies : ∀ {k response request}, base ≤ k → (k, response) ∈ S.replies →
    S.requests[k]? = some request → terms request.recipientId ≤ response.term
  acknowledged : ∀ {P : Set (Fin n)} {t : ℕ}, (Quorums.majority (Fin n)).IsQuorum P →
    (∀ j ∈ P, terms j ≤ t) → ∀ r ∈ results, Acknowledged G t r

structure Accounted (S : RaftSystem n Op) (G : World (Fin n) (EntryType n Op)) : Prop where
  epochs : ∀ i, EpochsPast (S.servers i)
  calls : ∀ call ∈ S.calls, Waiting S call
  results : ∀ r ∈ S.results, ∃ t, Acknowledged G t r
  reads : ∀ call ∈ S.reads, call.acknowledged ≤ S.results.length ∧
    ∃ terms base, Begun S G terms base (S.results.take call.acknowledged) call
  readResults : ∀ q ∈ S.readResults, q.1 ≤ S.results.length ∧
    ∀ r ∈ S.results.take q.1, r.1 ≤ q.2

theorem accounted_init (start : Start n Op) (G : World (Fin n) (EntryType n Op)) :
    Accounted (init start) G where
  epochs _ _ := ⟨le_rfl, fun _ h => nomatch h⟩
  calls _ h := absurd h List.not_mem_nil
  results _ h := absurd h List.not_mem_nil
  reads _ h := absurd h List.not_mem_nil
  readResults _ h := absurd h List.not_mem_nil

variable {start : Start n Op} {S S' : RaftSystem n Op} {G G' : World (Fin n) (EntryType n Op)}
  {i : Fin n}

theorem getEntry_of_isPrefix {l l' : Log n Op} (h : l <+: l') {k : ℕ} {e : Log.Entry n Op}
    (he : l.getEntry k = some e) : l'.getEntry k = some e := by
  unfold Log.getEntry at he ⊢
  split_ifs at he ⊢
  exact prefix_getElem? h he

theorem Acknowledged.mono {t : ℕ} {r : ℕ × Op} (h : Acknowledged G t r) (hext : Extends G G') :
    Acknowledged G' t r := by
  obtain ⟨l, hl, hget⟩ := h
  exact ⟨l, hl.mono hext le_rfl, hget⟩

theorem Acknowledged.getEntry (hinv : Consistent start G) {t t' : ℕ} {r : ℕ × Op}
    (h : Acknowledged G t r) {log : Log n Op} (hchosen : Chosen G t' log) (hle : r.1 ≤ log.length) :
    (log.getEntry r.1).map (·.data) = some (.data r.2) := by
  obtain ⟨l, hl, hget⟩ := h
  obtain ⟨e, he, hdata⟩ := Option.map_eq_some_iff.mp hget
  rcases hinv.chosen_comparable hl hchosen with hpre | ⟨rest, rfl⟩
  · rw [getEntry_of_isPrefix hpre he, Option.map_some, hdata]
  · unfold Log.getEntry at hget ⊢
    split_ifs at hget ⊢ with hzero
    · exact hget
    · rwa [List.getElem?_append_left (by omega)] at hget

theorem Continues.servers (h : Continues i S S') (j : Fin n) :
    (S.servers j).currentTerm ≤ (S'.servers j).currentTerm := by
  rcases eq_or_ne j i with rfl | hne
  · exact h.term
  · rw [h.other hne]

theorem Stops.servers (h : Stops i S S') (j : Fin n) :
    (S.servers j).currentTerm ≤ (S'.servers j).currentTerm := by
  rcases eq_or_ne j i with rfl | hne
  · exact h.term
  · rw [h.other hne]

theorem Waiting.continues {call : ReplicateCall n Op} (h : Waiting S call)
    (hcontinues : Continues i S S') : Waiting S' call := by
  refine ⟨h.1.trans (hcontinues.servers _), fun hterm => ?_⟩
  rcases eq_or_ne call.server i with rfl | hne
  · have hsame : (S.servers call.server).currentTerm = call.term :=
      le_antisymm (hcontinues.term.trans hterm.le) h.1
    obtain ⟨hs, hentry⟩ := h.2 hsame
    obtain ⟨hs', hlog⟩ := hcontinues.leader hs (hterm.trans hsame.symm)
    exact ⟨hs', getEntry_of_isPrefix hlog hentry⟩
  · rw [hcontinues.other hne] at hterm ⊢
    exact h.2 hterm

theorem EpochsPast.continues (h : ∀ j, EpochsPast (S.servers j)) (hcontinues : Continues i S S')
    (j : Fin n) : EpochsPast (S'.servers j) := by
  rcases eq_or_ne j i with rfl | hne
  · refine fun k => ⟨?_, fun call hr => ?_⟩
    · rcases hcontinues.ack k with heq | ⟨call, response, hcall, -, -, heq⟩ <;> rw [heq]
      · exact (h j k).1.trans hcontinues.epoch
      · exact ((h j k).2 call hcall).trans hcontinues.epoch
    · rcases hcontinues.rpc hr with hr | ⟨heq, -⟩
      · exact ((h j k).2 call hr).trans hcontinues.epoch
      · exact heq.le.trans hcontinues.epoch
  · rw [hcontinues.other hne]
    exact h j

theorem Begun.continues {terms : Fin n → ℕ} {base : ℕ} {results : List (ℕ × Op)}
    {call : ReadCall n} (hrel : Rel start S G) (h : Begun S G terms base results call)
    (hcontinues : Continues i S S') (hext : Extends G G') :
    Begun S' G' terms base results call where
  base_le := h.base_le.trans hcontinues.requests.length_le
  terms_le j := (h.terms_le j).trans (hcontinues.servers j)
  acked j hj := by
    rcases eq_or_ne call.server i with rfl | hne
    · rcases hcontinues.ack j with heq | ⟨c, response, hc, hreply, hterm, heq⟩ <;> rw [heq] at hj
      · exact (h.acked j hj).trans hcontinues.term
      · -- the answer to a request that was sent after the call began
        obtain ⟨hget, -, hrecipient⟩ := hrel.rpc hc
        have hterms := h.replies (h.rpc hc hj) hreply hget
        rw [hrecipient] at hterms
        exact hterms.trans hterm
    · rw [hcontinues.other hne] at hj ⊢
      exact h.acked j hj
  rpc {j c} hc hepoch := by
    rcases eq_or_ne call.server i with rfl | hne
    · rcases hcontinues.rpc hc with hc | ⟨-, hid⟩
      · exact h.rpc hc hepoch
      · exact h.base_le.trans hid.ge
    · rw [hcontinues.other hne] at hc
      exact h.rpc hc hepoch
  replies {k response request} hk hreply hget := by
    rcases hcontinues.replies hreply with hreply | ⟨request', hget', hrecipient, hterm⟩
    · obtain ⟨request', hget', -⟩ := hrel.replies hreply
      have heq := prefix_getElem? hcontinues.requests hget'
      obtain rfl : request' = request := Option.some.inj (heq.symm.trans hget)
      exact h.replies hk hreply hget'
    · have heq := prefix_getElem? hcontinues.requests hget'
      obtain rfl : request' = request := Option.some.inj (heq.symm.trans hget)
      rw [hrecipient, hterm]
      exact (h.terms_le i).trans hcontinues.term
  acknowledged hP ht r hr := (h.acknowledged hP ht r hr).mono hext

theorem Begun.stops {terms : Fin n → ℕ} {base : ℕ} {results : List (ℕ × Op)} {call : ReadCall n}
    (h : Begun S G terms base results call) (hstops : Stops i S S') (hne : call.server ≠ i)
    (hext : Extends G G') : Begun S' G' terms base results call where
  base_le := by rw [hstops.requests]; exact h.base_le
  terms_le j := (h.terms_le j).trans (hstops.servers j)
  acked j hj := by
    rw [hstops.other hne] at hj ⊢
    exact h.acked j hj
  rpc hc hepoch := by
    rw [hstops.other hne] at hc
    exact h.rpc hc hepoch
  replies hk hreply hget := by
    rw [hstops.replies] at hreply
    rw [hstops.requests] at hget
    exact h.replies hk hreply hget
  acknowledged hP ht r hr := (h.acknowledged hP ht r hr).mono hext

theorem begun_read (hrel : Rel start S G) (h : Accounted S G) (hcontinues : Continues i S S')
    (hext : Extends G G') (hpeers : (S'.servers i).peers = (S.servers i).peers)
    (hmessages : S'.requests = S.requests ∧ S'.replies = S.replies) :
    Begun S' G' (fun j => (S.servers j).currentTerm) S.requests.length S.results
      ⟨i, (S.servers i).currentEpoch + 1, S.results.length⟩ where
  base_le := hcontinues.requests.length_le
  terms_le := hcontinues.servers
  acked j hj := by
    dsimp only at hj
    rw [hpeers] at hj
    exact absurd (h.epochs i j).1 (Nat.not_le_of_lt hj)
  rpc {j c} hc hepoch := by
    dsimp only at hc
    rw [hpeers] at hc
    exact absurd ((h.epochs i j).2 c hc) (Nat.not_le_of_lt hepoch)
  replies {k response request} hk _ hget := by
    rw [hmessages.1] at hget
    exact absurd (List.getElem?_eq_some_iff.mp hget).1 (Nat.not_lt_of_le hk)
  acknowledged {P t} hP ht r hr := by
    obtain ⟨t', l, hl, hget⟩ := h.results r hr
    have hchosen := hrel.consistent.chosen_of_quorum hl hP fun j hj => by
      have hterm := (hrel.agrees j).term
      rw [hrel.serverId] at hterm
      rw [hterm]
      exact ht j hj
    exact ⟨l, hchosen.mono hext le_rfl, hget⟩

theorem Waiting.acknowledged (hrel : Rel start S G) {call : ReplicateCall n Op} (h : Waiting S call)
    (hterm : (S.servers call.server).currentTerm = call.term)
    (hindex : call.index ≤ (S.servers call.server).commitIndex) :
    Acknowledged G call.term (call.index, call.operation) := by
  obtain ⟨-, hentry⟩ := h.2 hterm
  refine ⟨_, hterm ▸ (hrel.agrees call.server).committed.2, ?_⟩
  have htake : Log.getEntry ((S.servers call.server).log.take (S.servers call.server).commitIndex)
      call.index = some ⟨call.term, .data call.operation⟩ := by
    unfold Log.getEntry at hentry ⊢
    split_ifs at hentry ⊢
    rw [List.getElem?_take_of_lt (by omega)]
    exact hentry
  dsimp only
  rw [htake]
  rfl

/-- The commit index that a call returns is not below what had been returned before it began. -/
theorem Begun.le_commitIndex (hrel : Rel start S G) {terms : Fin n → ℕ} {base : ℕ}
    {results : List (ℕ × Op)} {call : ReadCall n} (h : Begun S G terms base results call)
    (hupToDate : (S.servers call.server).upToDate call.epoch = some true) (r : ℕ × Op)
    (hr : r ∈ results) : r.1 ≤ (S.servers call.server).commitIndex := by
  set s := S.servers call.server with hs
  have hserver : s.serverId = call.server := hrel.serverId _
  have hagrees : Agrees start G s := hrel.agrees _
  unfold RaftConsensus.upToDate at hupToDate
  split_ifs at hupToDate with hstale hzero
  · simp at hupToDate
  · -- nothing is committed, and 0 is no term of a leader
    have hstate := not_not.mp (not_or.mp hstale).1
    have hpos := hrel.consistent.pos (hagrees.leader hstate).leader_ne_none
    have heq : 0 = s.currentTerm := by simpa using hupToDate
    omega
  obtain ⟨hstate, hepoch⟩ := not_or.mp hstale
  have hleads := hagrees.leader (not_not.mp hstate)
  obtain ⟨k, hk⟩ : ∃ k, s.commitIndex = k + 1 := ⟨s.commitIndex - 1, by omega⟩
  obtain ⟨t, hentry, hterm⟩ := Option.map_eq_some_iff.mp hupToDate
  obtain ⟨e, he, rfl⟩ := Option.map_eq_some_iff.mp hentry
  rw [hk, getEntry_succ] at he
  have hown : Own G s.currentTerm k := ⟨e, by rw [hleads.log]; exact he, of_decide_eq_true hterm⟩
  have hquorum := quorumMin_isQuorum s.serverId (hleads.rooted hrel.consistent) s.getLastAckEpoch
  obtain ⟨l, hl, hget⟩ := h.acknowledged (t := s.currentTerm) hquorum (fun j hj => by
    change s.configuration.quorumMin s.getLastAckEpoch ≤ s.getLastAckEpoch j at hj
    by_cases hself : j = s.serverId
    · rw [hself, hserver, hs]
      exact h.terms_le _
    · rw [getLastAckEpoch, if_neg hself] at hj
      exact h.acked j ((Nat.le_of_not_lt hepoch).trans hj)) r hr
  have htake := hrel.consistent.chosen_prefix_take hleads.leader_ne_none hown
    (hk ▸ hleads.commit :) hl
  have hlen := htake.length_le
  rw [List.length_take] at hlen
  have hlt : r.1 ≤ l.length := by
    obtain ⟨e', he', -⟩ := Option.map_eq_some_iff.mp hget
    unfold Log.getEntry at he'
    split_ifs at he'
    have := (List.getElem?_eq_some_iff.mp he').1
    omega
  omega

theorem Accounted.continues (hrel : Rel start S G) (h : Accounted S G)
    (hcontinues : Continues i S S')
    (hext : Extends G G') (hbooks : S'.books = S.books) : Accounted S' G' := by
  simp only [books, Prod.mk.injEq] at hbooks
  obtain ⟨hcalls, hresults, hreads, hreadResults⟩ := hbooks
  exact {
    epochs := EpochsPast.continues h.epochs hcontinues
    calls := fun call hc => (h.calls call (hcalls ▸ hc)).continues hcontinues
    results := fun r hr => (h.results r (hresults ▸ hr)).imp fun _ hr => hr.mono hext
    reads := fun call hc => by
      obtain ⟨hle, terms, base, hbegun⟩ := h.reads call (hreads ▸ hc)
      rw [hresults]
      exact ⟨hle, terms, base, hbegun.continues hrel hcontinues hext⟩
    readResults := fun q hq => by
      rw [hresults]
      exact h.readResults q (hreadResults ▸ hq) }

/-- Calls begin, give up or return; what had been returned before a call began is the same. -/
theorem Accounted.update (h : Accounted S G) {calls : List (ReplicateCall n Op)}
    {results : List (ℕ × Op)} {reads : List (ReadCall n)} {readResults : List (ℕ × ℕ)}
    (hcalls : ∀ call ∈ calls, Waiting S call) (hgrow : S.results <+: results)
    (hresults : ∀ r ∈ results, ∃ t, Acknowledged G t r)
    (hreads : ∀ call ∈ reads, call.acknowledged ≤ S.results.length ∧
      ∃ terms base, Begun S G terms base (S.results.take call.acknowledged) call)
    (hreadResults : ∀ q ∈ readResults, q.1 ≤ S.results.length ∧
      ∀ r ∈ S.results.take q.1, r.1 ≤ q.2) :
    Accounted { S with
      calls := calls
      results := results
      reads := reads
      readResults := readResults } G where
  epochs := h.epochs
  calls := hcalls
  results := hresults
  reads call hc := by
    obtain ⟨hle, terms, base, hbegun⟩ := hreads call hc
    refine ⟨hle.trans hgrow.length_le, terms, base, ?_⟩
    dsimp only
    rw [take_eq_of_le_length hgrow hle]
    exact { hbegun with }
  readResults q hq := by
    obtain ⟨hle, hbelow⟩ := hreadResults q hq
    refine ⟨hle.trans hgrow.length_le, ?_⟩
    dsimp only
    rw [take_eq_of_le_length hgrow hle]
    exact hbelow

theorem Accounted.stops (h : Accounted S G) (hstops : Stops i S S') (hext : Extends G G') :
    Accounted S' G' := by
  have hbooks := hstops.books
  simp only [books, Prod.mk.injEq] at hbooks
  obtain ⟨hcalls, hresults, hreads, hreadResults⟩ := hbooks
  refine {
    epochs := fun j => ?_
    calls := fun call hc => ?_
    results := fun r hr => (h.results r (hresults ▸ hr)).imp fun _ hr => hr.mono hext
    reads := fun call hc => ?_
    readResults := fun q hq => ?_ }
  · rcases eq_or_ne j i with rfl | hne
    · refine fun k => ⟨?_, fun call hr => ?_⟩
      · rw [(hstops.peers k).2]
        exact Nat.zero_le _
      · simp [(hstops.peers k).1] at hr
    · rw [hstops.other hne]
      exact h.epochs j
  · rw [hcalls, List.mem_filter, decide_eq_true_eq] at hc
    have hwaiting := h.calls call hc.1
    unfold Waiting at hwaiting ⊢
    rwa [hstops.other hc.2]
  · rw [hreads, List.mem_filter, decide_eq_true_eq] at hc
    obtain ⟨hle, terms, base, hbegun⟩ := h.reads call hc.1
    rw [hresults]
    exact ⟨hle, terms, base, hbegun.stops hstops hc.2 hext⟩
  · rw [hresults]
    exact h.readResults q (hreadResults ▸ hq)

theorem Accounted.booked (hrel : Rel start S G) (h : Accounted S G) (hcontinues : Continues i S S')
    (hbooked : Booked i S S') (hext : Extends G G') : Accounted S' G' := by
  -- first with the calls of before, then what has happened to them
  have hold : Accounted { S' with
      calls := S.calls, results := S.results, reads := S.reads, readResults := S.readResults } G' :=
    h.continues hrel { hcontinues with } hext rfl
  have herase : ∀ {β : Type} {l : List β} {k : ℕ} {x : β}, x ∈ l.eraseIdx k → x ∈ l :=
    fun hx => List.eraseIdx_subset hx
  obtain ⟨servers, requests, replies, calls, results, reads, readResults, failed⟩ := S'
  cases hbooked with
  | same hbooks =>
    simp only [books, Prod.mk.injEq] at hbooks
    obtain ⟨rfl, rfl, rfl, rfl⟩ := hbooks
    exact hold
  | replicate operation hleader hterm hlog hbooks =>
    simp only [books, Prod.mk.injEq] at hbooks
    obtain ⟨rfl, rfl, rfl, rfl⟩ := hbooks
    refine hold.update (fun call hc => ?_) List.prefix_rfl hold.results hold.reads hold.readResults
    rcases List.mem_append.mp hc with hc | hc
    · exact hold.calls call hc
    · obtain rfl := List.mem_singleton.mp hc
      refine ⟨hcontinues.term, fun _ => ⟨(hcontinues.leader hleader hterm).1, ?_⟩⟩
      dsimp only at hlog ⊢
      rw [hlog, getEntry_succ, List.getElem?_append_right le_rfl, Nat.sub_self]
      rfl
  | refused k hbooks =>
    simp only [books, Prod.mk.injEq] at hbooks
    obtain ⟨rfl, rfl, rfl, rfl⟩ := hbooks
    exact hold.update (fun call hc => hold.calls call (herase hc)) List.prefix_rfl hold.results
      hold.reads hold.readResults
  | replicated k call hcall hservers hterm hindex hbooks =>
    simp only [books, Prod.mk.injEq] at hbooks
    obtain ⟨rfl, rfl, rfl, rfl⟩ := hbooks
    refine hold.update (fun call hc => hold.calls call (herase hc)) (List.prefix_append _ _)
      (fun r hr => ?_) hold.reads hold.readResults
    rcases List.mem_append.mp hr with hr | hr
    · exact hold.results r hr
    · obtain rfl := List.mem_singleton.mp hr
      have hwaiting := h.calls call (List.mem_of_getElem? hcall)
      exact ⟨_, (hwaiting.acknowledged hrel hterm hindex).mono hext⟩
  | read hepoch hpeers hmessages hbooks =>
    simp only [books, Prod.mk.injEq] at hbooks
    obtain ⟨rfl, rfl, rfl, rfl⟩ := hbooks
    refine hold.update hold.calls List.prefix_rfl hold.results (fun call hc => ?_) hold.readResults
    rcases List.mem_append.mp hc with hc | hc
    · exact hold.reads call hc
    · obtain rfl := List.mem_singleton.mp hc
      have hbegun := begun_read hrel h hcontinues hext hpeers hmessages
      refine ⟨le_rfl, fun j => (S.servers j).currentTerm, S.requests.length, ?_⟩
      dsimp only
      rw [List.take_length]
      exact { hbegun with }
  | notLeader k hbooks =>
    simp only [books, Prod.mk.injEq] at hbooks
    obtain ⟨rfl, rfl, rfl, rfl⟩ := hbooks
    exact hold.update hold.calls List.prefix_rfl hold.results
      (fun call hc => hold.reads call (herase hc)) hold.readResults
  | upToDate k call hcall hservers hupToDate hbooks =>
    simp only [books, Prod.mk.injEq] at hbooks
    obtain ⟨rfl, rfl, rfl, rfl⟩ := hbooks
    refine hold.update hold.calls List.prefix_rfl hold.results
      (fun call hc => hold.reads call (herase hc)) (fun q hq => ?_)
    rcases List.mem_append.mp hq with hq | hq
    · exact hold.readResults q hq
    · obtain rfl := List.mem_singleton.mp hq
      obtain ⟨hle, terms, base, hbegun⟩ := h.reads call (List.mem_of_getElem? hcall)
      exact ⟨hle, hbegun.le_commitIndex hrel hupToDate⟩

variable {size : Op → ℕ}

theorem Accounted.proceeds (h : Accounted S G) (hrel : Rel start S G) (hext : Extends G G')
    {halted : Option (Fin n)} (hproceeds : Proceeds halted i S S') : Accounted S' G' := by
  rcases hproceeds with ⟨hcontinues, hbooked⟩ | ⟨-, hstops⟩
  · exact h.booked hrel hcontinues hbooked hext
  · exact h.stops hstops hext

theorem accounted_run {events : List (Event n Op)} (hrun : Reaches size (init start) events S) :
    ∃ G, Rel start S G ∧ Accounted S G := by
  refine Runs.invariant_of_meets (I := fun T => ∃ G, Rel start T G ∧ Accounted T G) ?_
    ⟨_, rel_init start, accounted_init start _⟩ hrun.2 hrun.1
  rintro T event T' ⟨G, hrel, h⟩ hcontiguous hstep
  obtain ⟨i, G', hmoves, hrel', hproceeds⟩ := hrel.step hcontiguous hstep
  exact ⟨G', hrel', h.proceeds hrel (hrel.consistent.steps hmoves).2.1 hproceeds⟩

/-- An operation for which `replicate` has returned is never lost: every server that has committed
as much has it at the index that was returned, and so has a leader that no server is ahead of. -/
theorem replicated_operation_stays (start : Start n Op) (events : List (Event n Op))
    (S : RaftSystem n Op) (hrun : Reaches size (init start) events S) (index : ℕ) (operation : Op)
    (hresult : (index, operation) ∈ S.results) (i : Fin n)
    (hi : index ≤ (S.servers i).commitIndex ∨ (S.servers i).state = .leader ∧
      ∀ j, (S.servers j).currentTerm ≤ (S.servers i).currentTerm) :
    ((S.servers i).log.getEntry index).map (·.data) = some (.data operation) := by
  obtain ⟨G, hrel, h⟩ := accounted_run hrun
  obtain ⟨t, hacknowledged⟩ := h.results _ hresult
  have hagrees := hrel.agrees i
  rcases hi with hcommit | ⟨hs, hterm⟩
  · have hget := hacknowledged.getEntry hrel.consistent hagrees.committed.2 (by
      rw [List.length_take, min_eq_left hagrees.committed.1]
      exact hcommit)
    obtain ⟨e, he, hdata⟩ := Option.map_eq_some_iff.mp hget
    rw [getEntry_of_isPrefix (List.take_prefix _ _) he, Option.map_some, hdata]
  · -- the leader was elected by a majority whose terms are now at most its own
    obtain ⟨l, hl, hget⟩ := hacknowledged
    obtain ⟨e, he, hdata⟩ := Option.map_eq_some_iff.mp hget
    have hleads := hagrees.leader hs
    obtain ⟨P, hP, -⟩ := hrel.consistent.elected hleads.leader
    have hchosen := hrel.consistent.chosen_of_quorum hl hP fun j _ => by
      have hj := (hrel.agrees j).term
      rw [hrel.serverId] at hj
      rw [hj]
      exact hterm j
    have hpre := hrel.consistent.chosen_prefix_log hchosen le_rfl hleads.leader_ne_none
    rw [hleads.log] at hpre
    rw [getEntry_of_isPrefix hpre he, Option.map_some, hdata]

def sampleRead (i j : Fin n) : List (Event n ℕ) :=
  [.replicated 0, .upToDateLeader i, .sendAppendEntries i j, .handleRequest 3 false,
    .handleReply i j 3, .upToDate 0]

theorem sample_reads : ∃ S : RaftSystem 3 ℕ,
    Reaches (fun _ => 1) (init sampleStart)
      (sampleElection 0 1 ++ sampleCommit 0 1 ++ sampleRead 0 1) S ∧
    S.results = [(3, 7)] ∧ S.readResults = [(1, 3)] ∧ (S.servers 1).commitIndex = 3 := by
  have hrun : ((Runs.run (step fun _ => 1) (init sampleStart)
      (sampleElection (0 : Fin 3) 1 ++ sampleCommit 0 1 ++ sampleRead 0 1)).map fun S =>
        (S.results, S.readResults, (S.servers 1).commitIndex)) = some ([(3, 7)], [(1, 3)], 3) := by
    decide +kernel
  obtain ⟨S, hS, hfacts⟩ := Option.map_eq_some_iff.mp hrun
  simp only [Prod.mk.injEq] at hfacts
  exact ⟨S, ⟨hS, by decide +kernel⟩, hfacts⟩

theorem sample_replicated_stays : ∃ S : RaftSystem 3 ℕ, (3, 7) ∈ S.results ∧
    (Log.getEntry (S.servers 1).log 3).map (·.data) = some (.data 7) := by
  obtain ⟨S, hS, hresults, -, hcommit⟩ := sample_reads
  have hmem : (3, 7) ∈ S.results := by simp [hresults]
  exact ⟨S, hmem, replicated_operation_stays _ _ S hS 3 7 hmem 1 (.inl hcommit.ge)⟩

theorem Accounted.read_covers (h : Accounted S G) {acknowledged commitIndex : ℕ}
    (hread : (acknowledged, commitIndex) ∈ S.readResults) {k : ℕ} (hk : k < acknowledged) :
    ∃ r, S.results[k]? = some r ∧ r.1 ≤ commitIndex := by
  obtain ⟨hle, hbelow⟩ := h.readResults _ hread
  obtain ⟨r, hr⟩ : ∃ r, S.results[k]? = some r :=
    ⟨_, List.getElem?_eq_getElem (hk.trans_le hle)⟩
  have hmem : r ∈ S.results.take acknowledged :=
    List.mem_of_getElem? ((List.getElem?_take_of_lt hk).trans hr)
  exact ⟨r, hr, hbelow r hmem⟩

/-- What `getLastCommittedId` returns covers every operation for which `replicate` had returned
before it was called, at whatever server. -/
theorem read_covers_replicated (start : Start n Op) (events : List (Event n Op))
    (S : RaftSystem n Op) (hrun : Reaches size (init start) events S) (acknowledged commitIndex : ℕ)
    (hread : (acknowledged, commitIndex) ∈ S.readResults) (k : ℕ) (hk : k < acknowledged) :
    ∃ index operation, S.results[k]? = some (index, operation) ∧ index ≤ commitIndex := by
  obtain ⟨G, -, h⟩ := accounted_run hrun
  obtain ⟨r, hr, hle⟩ := h.read_covers hread hk
  exact ⟨r.1, r.2, hr, hle⟩

theorem sample_read_covers : ∃ S : RaftSystem 3 ℕ, (1, 3) ∈ S.readResults ∧
    ∃ index operation, S.results[0]? = some (index, operation) ∧ index ≤ 3 := by
  obtain ⟨S, hS, -, hreads, -⟩ := sample_reads
  have hmem : (1, 3) ∈ S.readResults := by simp [hreads]
  exact ⟨S, hmem, read_covers_replicated _ _ S hS 1 3 hmem 0 Nat.one_pos⟩

end RaftSystem

end RaftMonitor.LogCabin
