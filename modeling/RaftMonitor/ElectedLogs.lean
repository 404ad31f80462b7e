import RaftMonitor.Quorum

namespace RaftMonitor.ElectedLogs

variable {ι α : Type*}

structure Entry (α : Type*) where
  term : ℕ
  data : α
  deriving DecidableEq

def lastTerm (l : List (Entry α)) : ℕ := (l.getLast?.map Entry.term).getD 0

/-- A server with the log `l` may be voted for by a server with the log `d`. -/
def UpToDate (l d : List (Entry α)) : Prop :=
  lastTerm d < lastTerm l ∨ lastTerm d = lastTerm l ∧ d.length ≤ l.length

open Classical in
/-- What is on disk after `l` was stored: nothing is lost if `l` is a part of it. -/
noncomputable def merge (d l : List (Entry α)) : List (Entry α) := if l <+: d then d else l

/-- The quorums, the log with which all servers begin, and what leaders may add to it. -/
structure Setting (ι α : Type*) extends Quorums ι where
  root : List (Entry α)
  Admits : α → Prop
  pos : ∀ e ∈ root, 0 < e.term
  sorted : root.Pairwise fun e e' => e.term ≤ e'.term

/-- The last term in which a leader is taken for granted. -/
def Setting.base (Q : Setting ι α) : ℕ := lastTerm Q.root

/-- Something was added to the log with which all servers begin. -/
def Setting.Rooted (Q : Setting ι α) (l : List (Entry α)) : Prop :=
  ∃ added, l = Q.root ++ added ∧ ∀ e ∈ added, Q.Admits e.data

/-- The state of all servers, with what has happened in earlier terms: who voted for whom, the log
with which a server stood for election, the leaders, their logs and how much of them they declared
committed, and how much of the log of each leader a server has stored. -/
structure World (ι α : Type*) where
  term : ι → ℕ
  vote : ι → ℕ → Option ι
  standing : ι → ℕ → Option (List (Entry α))
  leader : ℕ → Option ι
  log : ℕ → List (Entry α)
  commit : ℕ → ℕ
  disk : ι → List (Entry α)
  stored : ι → ℕ → ℕ

/-- The leader of the term has written the entry at this place itself. -/
def Own (G : World ι α) (t k : ℕ) : Prop := ∃ e, (G.log t)[k]? = some e ∧ e.term = t

def Committed (Q : Setting ι α) (G : World ι α) (t k : ℕ) : Prop :=
  Own G t k ∧ ∃ P, Q.IsQuorum P ∧ ∀ s ∈ P, k < G.stored s t

section Steps
variable [DecidableEq ι]

/-- What a server may do:
* go to a later term;
* stand for election in a later term;
* vote, once in its term, for a server that stands with a log that is up to date;
* become leader with the votes of a quorum;
* as leader, add an entry to its log, or declare committed what is;
* store a part of the log of its term's leader;
* cut off what differs from the log of its term's leader. -/
inductive Step (Q : Setting ι α) (G : World ι α) : ι → World ι α → Prop
  | advance {s : ι} {t : ℕ} (h : G.term s ≤ t) :
    Step Q G s { G with term := Function.update G.term s t }
  | stand {s : ι} {t : ℕ} (h : G.term s < t) :
    Step Q G s { G with
      term := Function.update G.term s t
      standing := Function.update G.standing s
        (Function.update (G.standing s) t (some (G.disk s))) }
  | grant {s c : ι} {t : ℕ} {l : List (Entry α)} (hterm : G.term s = t)
    (hvote : G.vote s t = none) (hl : G.standing c t = some l) (hup : UpToDate l (G.disk s)) :
    Step Q G s { G with
      vote := Function.update G.vote s (Function.update (G.vote s) t (some c)) }
  | elect {c : ι} {t : ℕ} {l : List (Entry α)} {P : Set ι} (hleader : G.leader t = none)
    (hl : G.standing c t = some l) (hP : Q.IsQuorum P) (hvotes : ∀ s ∈ P, G.vote s t = some c) :
    Step Q G c { G with
      leader := Function.update G.leader t (some c)
      log := Function.update G.log t l }
  | extend {c : ι} {t : ℕ} {d : α} (hd : Q.Admits d) (h : G.leader t = some c) :
    Step Q G c { G with log := Function.update G.log t (G.log t ++ [⟨t, d⟩]) }
  | commit {c : ι} {t k : ℕ} (h : G.leader t = some c) (hk : G.commit t ≤ k)
    (hcommitted : Committed Q G t k) :
    Step Q G c { G with commit := Function.update G.commit t (k + 1) }
  | store {s : ι} {t m : ℕ} (hterm : G.term s = t) (hleader : G.leader t ≠ none)
    (hm : m ≤ (G.log t).length) :
    Step Q G s { G with
      disk := Function.update G.disk s (merge (G.disk s) ((G.log t).take m))
      stored := Function.update G.stored s
        (Function.update (G.stored s) t (max (G.stored s t) m)) }
  | cut {s : ι} {t m : ℕ} (hterm : G.term s = t) (hleader : G.leader t ≠ none)
    (hcut : ¬(G.disk s).take (m + 1) <+: G.log t) :
    Step Q G s { G with disk := Function.update G.disk s ((G.disk s).take m) }

end Steps

/-- Each entry was written by the leader of its term, behind the same entries. -/
def Sound (G : World ι α) (l : List (Entry α)) : Prop :=
  ∀ k e, l[k]? = some e → l.take (k + 1) <+: G.log e.term

/-- The entry will never be stored by a quorum in this term. -/
def Blocked (Q : Setting ι α) (G : World ι α) (t k : ℕ) : Prop :=
  ∃ P, Q.IsQuorum P ∧ ∀ s ∈ P, t < G.term s ∧ G.stored s t ≤ k

/-- The log of the leader up to this place is a part of `l`, unless the entry is blocked. -/
def Safe (Q : Setting ι α) (G : World ι α) (t k : ℕ) (l : List (Entry α)) : Prop :=
  (G.log t).take (k + 1) <+: l ∨ Blocked Q G t k

structure Inv (Q : Setting ι α) (G : World ι α) : Prop where
  base_le : ∀ s, Q.base ≤ G.term s
  vote_term : ∀ {s t c}, G.vote s t = some c → t ≤ G.term s
  vote_standing : ∀ {s t c}, G.vote s t = some c → ∃ l, G.standing c t = some l
  standing_term : ∀ {s t l}, G.standing s t = some l → t ≤ G.term s
  standing_lt : ∀ {s t l}, G.standing s t = some l → Q.base < t ∧ ∀ e ∈ l, e.term < t
  elected : ∀ {t c}, G.leader t = some c → ∃ P, Q.IsQuorum P ∧ ∀ s ∈ P, G.vote s t = some c
  log_nil : ∀ {t}, Q.base < t → G.leader t = none → G.log t = []
  log_root : ∀ {t}, t ≤ Q.base → G.log t <+: Q.root
  log_le : ∀ {t}, ∀ e ∈ G.log t, e.term ≤ t
  disk_le : ∀ s, ∀ e ∈ G.disk s, e.term ≤ G.term s
  sound_disk : ∀ s, Sound G (G.disk s)
  sound_standing : ∀ {s t l}, G.standing s t = some l → Sound G l
  sound_log : ∀ t, Sound G (G.log t)
  rooted_disk : ∀ s, Q.Rooted (G.disk s)
  rooted_standing : ∀ {s t l}, G.standing s t = some l → Q.Rooted l
  rooted_log : ∀ {t}, G.leader t ≠ none → Q.Rooted (G.log t)
  stored_le : ∀ s t, G.stored s t ≤ (G.log t).length
  stored_term : ∀ {s t}, 0 < G.stored s t → Q.base < t ∧ t ≤ G.term s
  committed : ∀ {t k}, G.commit t = k + 1 → Committed Q G t k
  /-- What a server has stored of the log of a leader stays on its disk. -/
  disk_keeps : ∀ {s t k}, Own G t k → k < G.stored s t → Safe Q G t k (G.disk s)
  /-- What a server had stored in earlier terms, those that it votes for have as well. -/
  vote_keeps : ∀ {s c t t' k l}, G.vote s t' = some c → G.standing c t' = some l → t < t' →
    Own G t k → k < G.stored s t → Safe Q G t k l
  /-- Later leaders have it as well. -/
  log_keeps : ∀ {t t' k}, G.leader t' ≠ none → t < t' → Own G t k → Safe Q G t k (G.log t')

/-- All servers have the same log. Votes that were given in terms that nobody has written in may
still count; those who got them stood with this log. -/
def World.init (Q : Setting ι α) (terms : ι → ℕ) (votes : ι → Option ι) : World ι α where
  term := terms
  vote s t := if Q.base < t ∧ t = terms s then votes s else none
  standing c t := if Q.base < t ∧ t ≤ terms c then some Q.root else none
  leader _ := none
  log t := if t ≤ Q.base then Q.root.takeWhile (·.term ≤ t) else []
  commit _ := 0
  disk _ := Q.root
  stored _ _ := 0

variable {Q : Setting ι α} {G G' G'' : World ι α}

theorem take_eq_of_le_length {β : Type*} {l l' : List β} (h : l <+: l') {k : ℕ}
    (hk : k ≤ l.length) : l'.take k = l.take k := by
  obtain ⟨r, rfl⟩ := h
  exact List.take_append_of_le_length hk

theorem prefix_getElem? {β : Type*} {l l' : List β} (h : l <+: l') {k : ℕ} {e : β}
    (hk : l[k]? = some e) : l'[k]? = some e := by
  obtain ⟨r, rfl⟩ := h
  rw [List.getElem?_append_left (List.getElem?_eq_some_iff.mp hk).1, hk]

theorem Own.lt_length {t k : ℕ} (h : Own G t k) : k < (G.log t).length := by
  obtain ⟨e, he, -⟩ := h
  exact (List.getElem?_eq_some_iff.mp he).1

theorem Inv.leader_of_own (hinv : Inv Q G) {t k : ℕ} (hbase : Q.base < t) (h : Own G t k) :
    G.leader t ≠ none := by
  intro hnone
  have := h.lt_length
  rw [hinv.log_nil hbase hnone] at this
  exact Nat.not_lt_zero _ this

theorem Inv.base_lt (hinv : Inv Q G) {t : ℕ} (h : G.leader t ≠ none) : Q.base < t := by
  obtain ⟨c, hc⟩ := Option.ne_none_iff_exists'.mp h
  obtain ⟨P, hP, hvotes⟩ := hinv.elected hc
  obtain ⟨s, hs, -⟩ := Q.meet hP hP
  obtain ⟨l, hl⟩ := hinv.vote_standing (hvotes s hs)
  exact (hinv.standing_lt hl).1

theorem Inv.pos (hinv : Inv Q G) {t : ℕ} (h : G.leader t ≠ none) : 0 < t :=
  Nat.zero_lt_of_lt (hinv.base_lt h)

theorem Inv.base_lt_of_committed (hinv : Inv Q G) {t k : ℕ} (h : Committed Q G t k) :
    Q.base < t := by
  obtain ⟨-, P, hP, hall⟩ := h
  obtain ⟨s, hs, -⟩ := Q.meet hP hP
  exact (hinv.stored_term (Nat.zero_lt_of_lt (hall s hs))).1

theorem Inv.commit_eq_zero (hinv : Inv Q G) {t : ℕ} (h : G.leader t = none) : G.commit t = 0 := by
  rcases hk : G.commit t with - | k
  · rfl
  · have hcommitted := hinv.committed hk
    exact absurd h (hinv.leader_of_own (hinv.base_lt_of_committed hcommitted) hcommitted.1)

theorem Inv.term_pos (hinv : Inv Q G) {t : ℕ} {e : Entry α} (he : e ∈ G.log t) : 0 < e.term := by
  obtain ⟨k, hk⟩ := List.getElem?_of_mem he
  by_cases hbase : Q.base < e.term
  · exact Nat.zero_lt_of_lt hbase
  · -- the entry is one of those with which all servers began
    have htake := (hinv.sound_log t k e hk).trans (hinv.log_root (Nat.le_of_not_lt hbase))
    exact Q.pos e (htake.subset
      (List.mem_of_getElem? ((List.getElem?_take_of_lt (Nat.lt_succ_self k)).trans hk)))

theorem Inv.leader_unique (hinv : Inv Q G) {t : ℕ} {c c' : ι} {P : Set ι} (hP : Q.IsQuorum P)
    (hvotes : ∀ s ∈ P, G.vote s t = some c) (hc' : G.leader t = some c') : c' = c := by
  obtain ⟨P', hP', hvotes'⟩ := hinv.elected hc'
  obtain ⟨s, hs, hs'⟩ := Q.meet hP hP'
  exact Option.some_inj.mp ((hvotes' s hs').symm.trans (hvotes s hs))

/-- All that has happened stays so; and a server that has left a term does not store any more of
what its leader has written. -/
structure Extends (G G' : World ι α) : Prop where
  term : ∀ s, G.term s ≤ G'.term s
  vote : ∀ {s t c}, G.vote s t = some c → G'.vote s t = some c
  standing : ∀ {s t l}, G.standing s t = some l → G'.standing s t = some l
  leader : ∀ {t c}, G.leader t = some c → G'.leader t = some c
  log : ∀ t, G.log t <+: G'.log t
  commit : ∀ t, G.commit t ≤ G'.commit t
  stored : ∀ s t, G.stored s t ≤ G'.stored s t
  frozen : ∀ {s t}, t < G.term s → G'.stored s t = G.stored s t

theorem Extends.refl (G : World ι α) : Extends G G :=
  ⟨fun _ => le_rfl, id, id, id, fun _ => List.prefix_rfl, fun _ => le_rfl, fun _ _ => le_rfl,
    fun _ => rfl⟩

theorem Extends.trans (h : Extends G G') (h' : Extends G' G'') : Extends G G'' where
  term s := (h.term s).trans (h'.term s)
  vote hv := h'.vote (h.vote hv)
  standing hl := h'.standing (h.standing hl)
  leader hc := h'.leader (h.leader hc)
  log t := (h.log t).trans (h'.log t)
  commit t := (h.commit t).trans (h'.commit t)
  stored s t := (h.stored s t).trans (h'.stored s t)
  frozen hlt := (h'.frozen (hlt.trans_le (h.term _))).trans (h.frozen hlt)

theorem Extends.sound (h : Extends G G') {l : List (Entry α)} (hl : Sound G l) : Sound G' l :=
  fun k e he => (hl k e he).trans (h.log e.term)

theorem Extends.own (h : Extends G G') {t k : ℕ} (ho : Own G t k) : Own G' t k := by
  obtain ⟨e, he, hterm⟩ := ho
  exact ⟨e, prefix_getElem? (h.log t) he, hterm⟩

theorem Extends.own_of_lt (h : Extends G G') {t k : ℕ} (ho : Own G' t k)
    (hk : k < (G.log t).length) : Own G t k := by
  obtain ⟨e, he, hterm⟩ := ho
  obtain ⟨r, hr⟩ := h.log t
  rw [← hr, List.getElem?_append_left hk] at he
  exact ⟨e, he, hterm⟩

theorem Extends.isCommitted (h : Extends G G') {t k : ℕ} (hc : Committed Q G t k) :
    Committed Q G' t k := by
  obtain ⟨ho, P, hP, hall⟩ := hc
  exact ⟨h.own ho, P, hP, fun s hs => (hall s hs).trans_le (h.stored s t)⟩

theorem Extends.blocked (h : Extends G G') {t k : ℕ} (hb : Blocked Q G t k) : Blocked Q G' t k := by
  obtain ⟨P, hP, hall⟩ := hb
  refine ⟨P, hP, fun s hs => ?_⟩
  obtain ⟨hterm, hstored⟩ := hall s hs
  exact ⟨hterm.trans_le (h.term s), (h.frozen hterm).le.trans hstored⟩

theorem Extends.safe (h : Extends G G') {t k : ℕ} (ho : Own G t k) {l l' : List (Entry α)}
    (hl : l <+: l') (hs : Safe Q G t k l) : Safe Q G' t k l' := by
  refine hs.imp (fun htake => ?_) h.blocked
  rw [take_eq_of_le_length (h.log t) ho.lt_length]
  exact htake.trans hl

theorem Sound.take (h : Sound G l) (m : ℕ) : Sound G (l.take m) := by
  intro k e he
  have hk : k < m := by
    by_contra hge
    rw [List.getElem?_eq_none (by simp; omega)] at he
    cases he
  rw [List.getElem?_take_of_lt hk] at he
  rw [List.take_take, min_eq_left (Nat.succ_le_of_lt hk)]
  exact h k e he

theorem Sound.take_eq {l l' : List (Entry α)} (h : Sound G l) (h' : Sound G l') {k : ℕ}
    {e e' : Entry α} (he : l[k]? = some e) (he' : l'[k]? = some e') (hterm : e.term = e'.term) :
    l.take (k + 1) = l'.take (k + 1) := by
  have hlen := (List.getElem?_eq_some_iff.mp he).1
  have hlen' := (List.getElem?_eq_some_iff.mp he').1
  have hl := h k e he
  have hl' := h' k e' he'
  rw [← hterm] at hl'
  refine (List.prefix_of_prefix_length_le hl hl' ?_).eq_of_length ?_ <;> simp <;> omega

theorem lastTerm_append_singleton (l : List (Entry α)) (e : Entry α) :
    lastTerm (l ++ [e]) = e.term := by
  simp [lastTerm]

theorem Sound.prefix_log (h : Sound G l) (hne : l ≠ []) : l <+: G.log (lastTerm l) := by
  obtain ⟨l, e, rfl⟩ := List.eq_nil_or_concat' l |>.resolve_left hne
  have := h l.length e (by simp)
  rw [lastTerm_append_singleton]
  rwa [List.take_of_length_le (by simp)] at this

theorem Inv.le_lastTerm (hinv : Inv Q G) {d : List (Entry α)} (hd : Sound G d) {e : Entry α}
    (he : e ∈ d) : e.term ≤ lastTerm d :=
  hinv.log_le e ((hd.prefix_log (List.ne_nil_of_mem he)).subset he)

theorem Inv.safe_of_upToDate (hinv : Inv Q G) {d l : List (Entry α)} (hd : Sound G d)
    (hl : Sound G l) (hup : UpToDate l d) {t k : ℕ} (hbase : Q.base < t) (ho : Own G t k)
    (hkeeps : (G.log t).take (k + 1) <+: d) : Safe Q G t k l := by
  obtain ⟨e, he, rfl⟩ := ho
  have hk := (List.getElem?_eq_some_iff.mp he).1
  have hmem : e ∈ d := hkeeps.subset
    (List.mem_of_getElem? ((List.getElem?_take_of_lt (Nat.lt_succ_self k)).trans he))
  have hle : e.term ≤ lastTerm d := hinv.le_lastTerm hd hmem
  have hpos : 0 < e.term := Nat.zero_lt_of_lt hbase
  have hne : l ≠ [] := by
    rintro rfl
    have : lastTerm ([] : List (Entry α)) = 0 := rfl
    rcases hup with h | h <;> omega
  have hlog := hl.prefix_log hne
  have hterm : e.term ≤ lastTerm l := by rcases hup with h | h <;> omega
  -- the last entry of `l` is of a later term, whose leader has the entry, or of the same term
  rcases hterm.lt_or_eq with hlt | heq
  · have hleader : G.leader (lastTerm l) ≠ none := by
      intro hnone
      rw [hinv.log_nil (hbase.trans hlt) hnone, List.prefix_nil] at hlog
      exact hne hlog
    refine (hinv.log_keeps hleader hlt ⟨e, he, rfl⟩).imp_left fun hsafe => ?_
    refine (List.prefix_or_prefix_of_prefix hsafe hlog).resolve_right fun hback => ?_
    obtain ⟨l, x, rfl⟩ := List.eq_nil_or_concat' l |>.resolve_left hne
    have hx := hinv.log_le x ((hback.trans (List.take_prefix _ _)).subset (by simp))
    rw [lastTerm_append_singleton] at hlt
    omega
  · refine .inl (List.prefix_of_prefix_length_le (List.take_prefix _ _) (heq ▸ hlog) ?_)
    have hlen := hkeeps.length_le
    rw [List.length_take, min_eq_left (Nat.succ_le_of_lt hk)] at hlen ⊢
    rcases hup with h | h <;> omega

theorem Inv.safe_leader (hinv : Inv Q G) {s : ι} (hleader : G.leader (G.term s) ≠ none) {t k : ℕ}
    (ho : Own G t k) (hk : k < G.stored s t) : Safe Q G t k (G.log (G.term s)) := by
  rcases (hinv.stored_term (Nat.zero_lt_of_lt hk)).2.lt_or_eq with hlt | heq
  · exact hinv.log_keeps hleader hlt ho
  · exact .inl (heq ▸ List.take_prefix _ _)

/-- The new leader has all that one of its voters has stored; what none of them has stored can no
longer be stored by a quorum. -/
theorem Inv.safe_of_votes (hinv : Inv Q G) {c : ι} {t t' k : ℕ} {l : List (Entry α)} {P : Set ι}
    (hl : G.standing c t' = some l) (hP : Q.IsQuorum P) (hvotes : ∀ s ∈ P, G.vote s t' = some c)
    (hlt : t < t') (ho : Own G t k) : Safe Q G t k l := by
  by_cases h : ∃ s ∈ P, k < G.stored s t
  · obtain ⟨s, hs, hk⟩ := h
    exact hinv.vote_keeps (hvotes s hs) hl hlt ho hk
  · refine .inr ⟨P, hP, fun s hs => ⟨hlt.trans_le (hinv.vote_term (hvotes s hs)), ?_⟩⟩
    by_contra hk
    exact h ⟨s, hs, Nat.lt_of_not_le hk⟩

theorem Setting.le_base (Q : Setting ι α) {e : Entry α} (he : e ∈ Q.root) : e.term ≤ Q.base := by
  have hsorted := Q.sorted
  unfold Setting.base
  obtain ⟨l, x, hl⟩ := List.eq_nil_or_concat' Q.root |>.resolve_left (List.ne_nil_of_mem he)
  rw [hl] at he hsorted ⊢
  rw [lastTerm_append_singleton]
  rcases List.mem_append.mp he with he | he
  · exact (List.pairwise_append.mp hsorted).2.2 e he x (List.mem_singleton_self x)
  · rw [List.mem_singleton.mp he]

theorem Setting.take_prefix_takeWhile (Q : Setting ι α) {k : ℕ} {e : Entry α}
    (he : Q.root[k]? = some e) :
    Q.root.take (k + 1) <+: Q.root.takeWhile (·.term ≤ e.term) := by
  obtain ⟨hk, rfl⟩ := List.getElem?_eq_some_iff.mp he
  have hle : ∀ x ∈ Q.root.take (k + 1), decide (x.term ≤ Q.root[k].term) = true := by
    intro x hx
    obtain ⟨j, hj, rfl⟩ := List.mem_take_iff_getElem.mp hx
    rw [decide_eq_true_eq]
    rcases Nat.lt_or_ge j k with hlt | hge
    · exact List.pairwise_iff_getElem.mp Q.sorted j k _ hk hlt
    · obtain rfl : j = k := by omega
      exact le_rfl
  refine ⟨(Q.root.drop (k + 1)).takeWhile (·.term ≤ Q.root[k].term), ?_⟩
  rw [← List.takeWhile_append_of_pos hle, List.take_append_drop]

theorem inv_init {terms : ι → ℕ} {votes : ι → Option ι} (hterms : ∀ s, Q.base ≤ terms s)
    (hvotes : ∀ s c, votes s = some c → Q.base < terms s → terms s ≤ terms c) :
    Inv Q (World.init Q terms votes) := by
  have hlog : ∀ t, (World.init Q terms votes).log t <+: Q.root := by
    intro t
    dsimp only [World.init]
    split_ifs
    · exact List.takeWhile_prefix _
    · exact List.nil_prefix
  have hsound : Sound (World.init Q terms votes) Q.root := by
    intro k e he
    have hle := Q.le_base (List.mem_of_getElem? he)
    dsimp only [World.init]
    rw [if_pos hle]
    exact Q.take_prefix_takeWhile he
  have hrooted : Q.Rooted Q.root := ⟨[], (List.append_nil _).symm, nofun⟩
  have hvote : ∀ {s t c}, (World.init Q terms votes).vote s t = some c →
      Q.base < t ∧ t = terms s ∧ votes s = some c := by
    intro s t c hv
    dsimp only [World.init] at hv
    split_ifs at hv with h
    exact ⟨h.1, h.2, hv⟩
  have hstanding : ∀ {s t l}, (World.init Q terms votes).standing s t = some l →
      Q.base < t ∧ t ≤ terms s ∧ l = Q.root := by
    intro s t l hl
    dsimp only [World.init] at hl
    split_ifs at hl with h
    exact ⟨h.1, h.2, (Option.some.inj hl).symm⟩
  exact {
    base_le := hterms
    vote_term := fun hv => (hvote hv).2.1.le
    vote_standing := fun {s t c} hv => by
      obtain ⟨hbase, rfl, hc⟩ := hvote hv
      exact ⟨Q.root, if_pos ⟨hbase, hvotes s c hc hbase⟩⟩
    standing_term := fun hl => (hstanding hl).2.1
    standing_lt := fun hl => by
      obtain ⟨hbase, -, rfl⟩ := hstanding hl
      exact ⟨hbase, fun e he => (Q.le_base he).trans_lt hbase⟩
    elected := nofun
    log_nil := fun hbase _ => if_neg (Nat.not_le_of_lt hbase)
    log_root := fun _ => hlog _
    log_le := fun {t} e he => by
      dsimp only [World.init] at he
      split_ifs at he
      · have hle := List.mem_takeWhile_imp he
        simpa using hle
      · exact absurd he List.not_mem_nil
    disk_le := fun s e he => (Q.le_base he).trans (hterms s)
    sound_disk := fun _ => hsound
    sound_standing := fun hl => (hstanding hl).2.2 ▸ hsound
    sound_log := fun t => by
      rw [List.prefix_iff_eq_take.mp (hlog t)]
      exact hsound.take _
    rooted_disk := fun _ => hrooted
    rooted_standing := fun hl => (hstanding hl).2.2 ▸ hrooted
    rooted_log := fun h => absurd rfl h
    stored_le := fun _ _ => Nat.zero_le _
    stored_term := fun h => absurd h (lt_irrefl 0)
    committed := nofun
    disk_keeps := fun _ h => absurd h (Nat.not_lt_zero _)
    vote_keeps := fun _ _ _ _ h => absurd h (Nat.not_lt_zero _)
    log_keeps := fun h => absurd rfl h }

theorem Inv.commit (hinv : Inv Q G) {t k : ℕ} (hcommitted : Committed Q G t k) :
    Inv Q { G with commit := Function.update G.commit t (k + 1) } :=
  { hinv with
    committed := fun {t' k'} hk => by
      rcases eq_or_ne t' t with rfl | hne
      · obtain rfl : k = k' := by simpa using hk
        exact hcommitted
      · exact hinv.committed (by simpa [hne] using hk) }

theorem merge_cases (d l : List (Entry α)) :
    (l <+: d ∧ merge d l = d) ∨ (¬l <+: d ∧ merge d l = l) := by
  unfold merge
  split_ifs with h
  · exact .inl ⟨h, rfl⟩
  · exact .inr ⟨h, rfl⟩

theorem prefix_merge (d l : List (Entry α)) : l <+: merge d l := by
  rcases merge_cases d l with ⟨h, heq⟩ | ⟨-, heq⟩ <;> rw [heq]
  exact h

theorem merge_of_prefix_right {d l : List (Entry α)} (h : d <+: l) : merge d l = l := by
  rcases merge_cases d l with ⟨hl, heq⟩ | ⟨-, heq⟩ <;> rw [heq]
  exact h.eq_of_length_le hl.length_le

theorem prefix_merge_trans {d l x L : List (Entry α)} (hd : x <+: d) (hx : x <+: L)
    (hl : l <+: L) : x <+: merge d l := by
  rcases merge_cases d l with ⟨-, heq⟩ | ⟨hnot, heq⟩ <;> rw [heq]
  · exact hd
  · exact (List.prefix_or_prefix_of_prefix hx hl).resolve_right fun h => hnot (h.trans hd)

theorem Setting.Rooted.take {l : List (Entry α)} (h : Q.Rooted l) {m : ℕ}
    (hm : Q.root.length ≤ m) : Q.Rooted (l.take m) := by
  obtain ⟨added, rfl, hadmits⟩ := h
  refine ⟨added.take (m - Q.root.length), ?_, fun e he => hadmits e (List.mem_of_mem_take he)⟩
  rw [List.take_append, List.take_of_length_le hm]

theorem Setting.Rooted.merge {d L : List (Entry α)} (hd : Q.Rooted d) (hL : Q.Rooted L) (m : ℕ) :
    Q.Rooted (merge d (L.take m)) := by
  rcases merge_cases d (L.take m) with ⟨-, heq⟩ | ⟨hnot, heq⟩ <;> rw [heq]
  · exact hd
  · refine hL.take (Nat.le_of_not_lt fun hlt => hnot ?_)
    obtain ⟨added, rfl, -⟩ := hd
    obtain ⟨added', rfl, -⟩ := hL
    rw [List.take_append_of_le_length hlt.le]
    exact (List.take_prefix m Q.root).trans (List.prefix_append _ _)

theorem Setting.Rooted.cut {d L : List (Entry α)} (hd : Q.Rooted d) (hL : Q.Rooted L) {m : ℕ}
    (hcut : ¬d.take (m + 1) <+: L) : Q.Rooted (d.take m) := by
  refine hd.take (Nat.le_of_not_lt fun hlt => hcut ?_)
  obtain ⟨added, rfl, -⟩ := hd
  obtain ⟨added', rfl, -⟩ := hL
  rw [List.take_append_of_le_length hlt]
  exact (List.take_prefix (m + 1) Q.root).trans (List.prefix_append _ _)

section Steps
variable [DecidableEq ι] {i : ι}

theorem Inv.extends_of_step (hinv : Inv Q G) (h : Step Q G i G') : Extends G G' := by
  cases h with
  | advance hle =>
    refine { Extends.refl G with term := fun s => ?_, frozen := fun _ => rfl }
    rcases eq_or_ne s i with rfl | hne
    · simpa using hle
    · simp [hne]
  | @stand t hlt =>
    refine { Extends.refl G with
      term := fun s => ?_
      standing := fun {s t' l} hl => ?_
      frozen := fun _ => rfl }
    · rcases eq_or_ne s i with rfl | hne
      · simpa using hlt.le
      · simp [hne]
    · rcases eq_or_ne s i with rfl | hne
      · -- a server stands in a term that it has not reached before
        have := hinv.standing_term hl
        simpa [Function.update_of_ne (show t' ≠ t by omega)] using hl
      · simpa [hne] using hl
  | @grant c t l hterm hvote hl hup =>
    refine { Extends.refl G with vote := fun {s t' c'} hv => ?_, frozen := fun _ => rfl }
    rcases eq_or_ne s i with rfl | hne
    · have : t' ≠ t := by
        rintro rfl
        rw [hvote] at hv
        cases hv
      simpa [this] using hv
    · simpa [hne] using hv
  | @elect t l P hleader hl hP hvotes =>
    refine { Extends.refl G with
      leader := fun {t' c'} hc => ?_
      log := fun t' => ?_
      frozen := fun _ => rfl }
    · have : t' ≠ t := by
        rintro rfl
        rw [hleader] at hc
        cases hc
      simpa [this] using hc
    · rcases eq_or_ne t' t with rfl | hne
      · simp [hinv.log_nil (hinv.standing_lt hl).1 hleader]
      · simp [hne]
  | @extend t d hd hleader =>
    refine { Extends.refl G with log := fun t' => ?_, frozen := fun _ => rfl }
    rcases eq_or_ne t' t with rfl | hne
    · simp
    · simp [hne]
  | @commit t k hleader hk hcommitted =>
    refine { Extends.refl G with commit := fun t' => ?_, frozen := fun _ => rfl }
    rcases eq_or_ne t' t with rfl | hne
    · simpa using hk.trans (Nat.le_succ k)
    · simp [hne]
  | @store t m hterm hleader hm =>
    refine { Extends.refl G with stored := fun s t' => ?_, frozen := fun {s t'} hlt => ?_ }
    · rcases eq_or_ne s i with rfl | hne
      · rcases eq_or_ne t' t with rfl | hne
        · simp
        · simp [hne]
      · simp [hne]
    · rcases eq_or_ne s i with rfl | hne
      · have : t' ≠ t := by
          change t' < G.term s at hlt
          omega
        simp [this]
      · simp [hne]
  | cut => exact { Extends.refl G with frozen := fun _ => rfl }

theorem Inv.advance (hinv : Inv Q G) {s : ι} {t : ℕ} (h : G.term s ≤ t) :
    Inv Q { G with term := Function.update G.term s t } := by
  have hext := hinv.extends_of_step (.advance h)
  exact { hinv with
    base_le := fun s' => (hinv.base_le s').trans (hext.term s')
    vote_term := fun hv => (hinv.vote_term hv).trans (hext.term _)
    standing_term := fun hl => (hinv.standing_term hl).trans (hext.term _)
    disk_le := fun s' e he => (hinv.disk_le s' e he).trans (hext.term _)
    stored_term := fun hs => (hinv.stored_term hs).imp_right fun hle => hle.trans (hext.term _)
    disk_keeps := fun ho hk => hext.safe ho List.prefix_rfl (hinv.disk_keeps ho hk)
    vote_keeps := fun hv hl hlt ho hk =>
      hext.safe ho List.prefix_rfl (hinv.vote_keeps hv hl hlt ho hk)
    log_keeps := fun ht' hlt ho => hext.safe ho List.prefix_rfl (hinv.log_keeps ht' hlt ho) }

theorem Inv.stand (hinv : Inv Q G) {s : ι} {t : ℕ} (h : G.term s < t) :
    Inv Q { G with
      term := Function.update G.term s t
      standing := Function.update G.standing s
        (Function.update (G.standing s) t (some (G.disk s))) } := by
  have hext := hinv.extends_of_step (.stand h)
  have hnew : ∀ {c t' l}, Function.update G.standing s
      (Function.update (G.standing s) t (some (G.disk s))) c t' = some l →
      (c = s ∧ t' = t ∧ l = G.disk s) ∨ G.standing c t' = some l := by
    intro c t' l hl
    rcases eq_or_ne c s with rfl | hne
    · rcases eq_or_ne t' t with rfl | hne
      · simp only [Function.update_self, Option.some.injEq] at hl
        exact .inl ⟨rfl, rfl, hl.symm⟩
      · exact .inr (by simpa [hne] using hl)
    · exact .inr (by simpa [hne] using hl)
  exact { hinv with
    base_le := fun s' => (hinv.base_le s').trans (hext.term s')
    vote_term := fun hv => (hinv.vote_term hv).trans (hext.term _)
    vote_standing := fun hv => (hinv.vote_standing hv).imp fun _ => hext.standing
    standing_term := fun hl => by
      rcases hnew hl with ⟨rfl, rfl, -⟩ | hl
      · simp
      · exact (hinv.standing_term hl).trans (hext.term _)
    standing_lt := fun hl => by
      rcases hnew hl with ⟨rfl, rfl, rfl⟩ | hl
      · exact ⟨(hinv.base_le _).trans_lt h, fun e he => (hinv.disk_le _ e he).trans_lt h⟩
      · exact hinv.standing_lt hl
    sound_standing := fun hl => by
      rcases hnew hl with ⟨rfl, rfl, rfl⟩ | hl
      · exact hinv.sound_disk _
      · exact hinv.sound_standing hl
    rooted_standing := fun hl => by
      rcases hnew hl with ⟨rfl, rfl, rfl⟩ | hl
      · exact hinv.rooted_disk _
      · exact hinv.rooted_standing hl
    disk_le := fun s' e he => (hinv.disk_le s' e he).trans (hext.term _)
    stored_term := fun hs => (hinv.stored_term hs).imp_right fun hle => hle.trans (hext.term _)
    disk_keeps := fun ho hk => hext.safe ho List.prefix_rfl (hinv.disk_keeps ho hk)
    vote_keeps := fun hv hl hlt ho hk => by
      rcases hnew hl with ⟨rfl, rfl, rfl⟩ | hl
      · -- nobody has voted in a term in which the server does not stand yet
        obtain ⟨l, hl⟩ := hinv.vote_standing hv
        exact absurd (hinv.standing_term hl) (Nat.not_le_of_lt h)
      · exact hext.safe ho List.prefix_rfl (hinv.vote_keeps hv hl hlt ho hk)
    log_keeps := fun ht' hlt ho => hext.safe ho List.prefix_rfl (hinv.log_keeps ht' hlt ho) }

theorem Inv.grant (hinv : Inv Q G) {s c : ι} {t : ℕ} {l : List (Entry α)} (hterm : G.term s = t)
    (hvote : G.vote s t = none) (hl : G.standing c t = some l) (hup : UpToDate l (G.disk s)) :
    Inv Q { G with
      vote := Function.update G.vote s (Function.update (G.vote s) t (some c)) } := by
  have hext := hinv.extends_of_step (.grant hterm hvote hl hup)
  have hnew : ∀ {s' t' c'}, Function.update G.vote s
      (Function.update (G.vote s) t (some c)) s' t' = some c' →
      (s' = s ∧ t' = t ∧ c' = c) ∨ G.vote s' t' = some c' := by
    intro s' t' c' hv
    rcases eq_or_ne s' s with rfl | hne
    · rcases eq_or_ne t' t with rfl | hne
      · simp only [Function.update_self, Option.some.injEq] at hv
        exact .inl ⟨rfl, rfl, hv.symm⟩
      · exact .inr (by simpa [hne] using hv)
    · exact .inr (by simpa [hne] using hv)
  exact { hinv with
    vote_term := fun hv => by
      rcases hnew hv with ⟨rfl, rfl, -⟩ | hv
      · exact hterm.ge
      · exact hinv.vote_term hv
    vote_standing := fun hv => by
      rcases hnew hv with ⟨rfl, rfl, rfl⟩ | hv
      · exact ⟨l, hl⟩
      · exact hinv.vote_standing hv
    elected := fun hc => by
      obtain ⟨P, hP, hvotes⟩ := hinv.elected hc
      exact ⟨P, hP, fun s' hs' => hext.vote (hvotes s' hs')⟩
    vote_keeps := fun hv hl' hlt ho hk => by
      rcases hnew hv with ⟨rfl, rfl, rfl⟩ | hv
      · obtain rfl := Option.some_inj.mp (hl.symm.trans hl')
        rcases hinv.disk_keeps ho hk with hkeeps | hblocked
        · have hbase := (hinv.stored_term (Nat.zero_lt_of_lt hk)).1
          exact hinv.safe_of_upToDate (hinv.sound_disk _) (hinv.sound_standing hl) hup hbase ho
            hkeeps
        · exact .inr hblocked
      · exact hinv.vote_keeps hv hl' hlt ho hk }

theorem Inv.elect (hinv : Inv Q G) {c : ι} {t : ℕ} {l : List (Entry α)} {P : Set ι}
    (hleader : G.leader t = none) (hl : G.standing c t = some l) (hP : Q.IsQuorum P)
    (hvotes : ∀ s ∈ P, G.vote s t = some c) :
    Inv Q { G with
      leader := Function.update G.leader t (some c)
      log := Function.update G.log t l } := by
  have hext := hinv.extends_of_step (.elect hleader hl hP hvotes)
  have hbase := (hinv.standing_lt hl).1
  -- a leader starts without an entry of its own
  have hnew : ∀ {t' k}, Own { G with
      leader := Function.update G.leader t (some c)
      log := Function.update G.log t l } t' k → t' ≠ t ∧ Own G t' k := by
    rintro t' k ⟨e, he, rfl⟩
    have hne : e.term ≠ t := by
      intro heq
      simp only [heq, Function.update_self] at he
      exact absurd heq ((hinv.standing_lt hl).2 e (List.mem_of_getElem? he)).ne
    exact ⟨hne, e, by simpa [hne] using he, rfl⟩
  exact { hinv with
    elected := fun {t' c'} hc => by
      rcases eq_or_ne t' t with rfl | hne
      · simp only [Function.update_self, Option.some.injEq] at hc
        subst hc
        exact ⟨P, hP, hvotes⟩
      · exact hinv.elected (by simpa [hne] using hc)
    log_nil := fun {t'} hlt hnone => by
      rcases eq_or_ne t' t with rfl | hne
      · simp at hnone
      · simpa [hne] using hinv.log_nil hlt (by simpa [hne] using hnone)
    log_root := fun {t'} hle => by
      have hne : t' ≠ t := (hle.trans_lt hbase).ne
      simpa [hne] using hinv.log_root hle
    log_le := fun {t'} e he => by
      rcases eq_or_ne t' t with rfl | hne
      · exact ((hinv.standing_lt hl).2 e (by simpa using he)).le
      · exact hinv.log_le e (by simpa [hne] using he)
    sound_disk := fun s => hext.sound (hinv.sound_disk s)
    sound_standing := fun hl' => hext.sound (hinv.sound_standing hl')
    sound_log := fun t' => by
      rcases eq_or_ne t' t with rfl | hne
      · simpa using hext.sound (hinv.sound_standing hl)
      · simpa [hne] using hext.sound (hinv.sound_log t')
    rooted_log := fun {t'} ht' => by
      rcases eq_or_ne t' t with rfl | hne
      · simpa using hinv.rooted_standing hl
      · simpa [hne] using hinv.rooted_log (by simpa [hne] using ht')
    stored_le := fun s t' => (hinv.stored_le s t').trans (hext.log t').length_le
    committed := fun hk => hext.isCommitted (hinv.committed hk)
    disk_keeps := fun ho hk =>
      hext.safe (hnew ho).2 List.prefix_rfl (hinv.disk_keeps (hnew ho).2 hk)
    vote_keeps := fun hv hl' hlt ho hk =>
      hext.safe (hnew ho).2 List.prefix_rfl (hinv.vote_keeps hv hl' hlt (hnew ho).2 hk)
    log_keeps := fun {t₀ t' k} ht' hlt ho => by
      have ho' := (hnew ho).2
      refine hext.safe ho' List.prefix_rfl ?_
      rcases eq_or_ne t' t with rfl | hne
      · simpa using hinv.safe_of_votes hl hP hvotes hlt ho'
      · simpa [hne] using hinv.log_keeps (by simpa [hne] using ht') hlt ho' }

theorem Inv.extend (hinv : Inv Q G) {c : ι} {t : ℕ} {d : α} (hd : Q.Admits d)
    (h : G.leader t = some c) :
    Inv Q { G with log := Function.update G.log t (G.log t ++ [⟨t, d⟩]) } := by
  have hext := hinv.extends_of_step (.extend hd h)
  have hleader : G.leader t ≠ none := h ▸ Option.some_ne_none c
  exact { hinv with
    log_nil := fun {t'} hlt hnone => by
      have hne : t' ≠ t := by
        rintro rfl
        exact hleader hnone
      simpa [hne] using hinv.log_nil hlt hnone
    log_root := fun {t'} hle => by
      have hne : t' ≠ t := (hle.trans_lt (hinv.base_lt hleader)).ne
      simpa [hne] using hinv.log_root hle
    log_le := fun {t'} e he => by
      rcases eq_or_ne t' t with rfl | hne
      · simp only [Function.update_self, List.mem_append, List.mem_singleton] at he
        rcases he with he | rfl
        · exact hinv.log_le e he
        · exact le_rfl
      · exact hinv.log_le e (by simpa [hne] using he)
    sound_disk := fun s => hext.sound (hinv.sound_disk s)
    sound_standing := fun hl => hext.sound (hinv.sound_standing hl)
    sound_log := fun t' => by
      rcases eq_or_ne t' t with rfl | hne
      · intro k e he
        simp only [Function.update_self] at he ⊢
        rcases Nat.lt_or_ge k (G.log t').length with hk | hk
        · rw [List.getElem?_append_left hk] at he
          rw [List.take_append_of_le_length hk]
          exact hext.sound (hinv.sound_log t') k e he
        · rw [List.getElem?_append_right hk, List.getElem?_singleton] at he
          split_ifs at he
          cases he
          simp [List.take_prefix]
      · simpa [hne] using hext.sound (hinv.sound_log t')
    rooted_log := fun {t'} ht' => by
      rcases eq_or_ne t' t with rfl | hne
      · obtain ⟨added, hadded, hadmits⟩ := hinv.rooted_log hleader
        refine ⟨added ++ [⟨t', d⟩], by simp [hadded], fun e he => ?_⟩
        rcases List.mem_append.mp he with he | he
        · exact hadmits e he
        · rw [List.mem_singleton.mp he]
          exact hd
      · simpa [hne] using hinv.rooted_log ht'
    stored_le := fun s t' => (hinv.stored_le s t').trans (hext.log t').length_le
    committed := fun hk => hext.isCommitted (hinv.committed hk)
    disk_keeps := fun {s t' k} ho hk => by
      have ho' := hext.own_of_lt ho (hk.trans_le (hinv.stored_le s t'))
      exact hext.safe ho' List.prefix_rfl (hinv.disk_keeps ho' hk)
    vote_keeps := fun {s c t' t'' k l} hv hl hlt ho hk => by
      have ho' := hext.own_of_lt ho (hk.trans_le (hinv.stored_le s t'))
      exact hext.safe ho' List.prefix_rfl (hinv.vote_keeps hv hl hlt ho' hk)
    log_keeps := fun {t' t'' k} ht'' hlt ho => by
      rcases Nat.lt_or_ge k (G.log t').length with hk | hk
      · have ho' := hext.own_of_lt ho hk
        exact hext.safe ho' (hext.log t'') (hinv.log_keeps ht'' hlt ho')
      · -- the entry is new, and the voters of the later leader have left the term
        obtain ⟨c', hc'⟩ := Option.ne_none_iff_exists'.mp ht''
        obtain ⟨P, hP, hvotes⟩ := hinv.elected hc'
        exact .inr ⟨P, hP, fun s hs =>
          ⟨hlt.trans_le (hinv.vote_term (hvotes s hs)), (hinv.stored_le s t').trans hk⟩⟩ }

theorem Inv.store (hinv : Inv Q G) {s : ι} {t m : ℕ} (hterm : G.term s = t)
    (hleader : G.leader t ≠ none) (hm : m ≤ (G.log t).length) :
    Inv Q { G with
      disk := Function.update G.disk s (merge (G.disk s) ((G.log t).take m))
      stored := Function.update G.stored s
        (Function.update (G.stored s) t (max (G.stored s t) m)) } := by
  have hext := hinv.extends_of_step (.store hterm hleader hm)
  -- all that is new is that `s` has stored the first `m` entries of the leader of `t`
  have hnew : ∀ {s' t' k}, k < Function.update G.stored s
      (Function.update (G.stored s) t (max (G.stored s t) m)) s' t' →
      (s' = s ∧ t' = t ∧ k < m) ∨ k < G.stored s' t' := by
    intro s' t' k hk
    rcases eq_or_ne s' s with rfl | hne
    · rcases eq_or_ne t' t with rfl | hne
      · simp only [Function.update_self, lt_max_iff] at hk
        exact hk.symm.imp_left fun hk => ⟨rfl, rfl, hk⟩
      · exact .inr (by simpa [hne] using hk)
    · exact .inr (by simpa [hne] using hk)
  exact { hinv with
    disk_le := fun s' e he => by
      rcases eq_or_ne s' s with rfl | hne
      · simp only [Function.update_self] at he
        rcases merge_cases (G.disk s') ((G.log t).take m) with ⟨-, heq⟩ | ⟨-, heq⟩
        · exact hinv.disk_le _ e (heq ▸ he)
        · exact (hinv.log_le e (List.mem_of_mem_take (heq ▸ he))).trans hterm.ge
      · exact hinv.disk_le s' e (by simpa [hne] using he)
    sound_disk := fun s' => by
      rcases eq_or_ne s' s with rfl | hne
      · simp only [Function.update_self]
        rcases merge_cases (G.disk s') ((G.log t).take m) with ⟨-, heq⟩ | ⟨-, heq⟩ <;> rw [heq]
        · exact hext.sound (hinv.sound_disk s')
        · exact hext.sound ((hinv.sound_log t).take m)
      · simpa [hne] using hext.sound (hinv.sound_disk s')
    rooted_disk := fun s' => by
      rcases eq_or_ne s' s with rfl | hne
      · simpa using (hinv.rooted_disk s').merge (hinv.rooted_log hleader) m
      · simpa [hne] using hinv.rooted_disk s'
    stored_le := fun s' t' => by
      by_contra h
      rcases hnew (Nat.lt_of_not_le h) with ⟨rfl, rfl, hk⟩ | hk
      · exact absurd hm (Nat.not_le_of_lt hk)
      · exact absurd (hinv.stored_le s' t') (Nat.not_le_of_lt hk)
    stored_term := fun hk => by
      rcases hnew hk with ⟨rfl, rfl, -⟩ | hk
      · exact ⟨hinv.base_lt hleader, hterm.ge⟩
      · exact hinv.stored_term hk
    committed := fun hk => hext.isCommitted (hinv.committed hk)
    disk_keeps := fun {s' t' k} ho hk => by
      rcases eq_or_ne s' s with rfl | hne
      · simp only [Function.update_self]
        rcases hnew hk with ⟨-, rfl, hkm⟩ | hk'
        · have htake : (G.log t').take (k + 1) <+: (G.log t').take m :=
            List.take_prefix_take_left hkm
          exact .inl (htake.trans (prefix_merge _ _))
        · -- what it had stored before is in the log of the leader, and survives the merge
          refine hext.safe ho List.prefix_rfl ?_
          subst hterm
          rcases hinv.disk_keeps ho hk' with hdisk | hblocked
          · exact (hinv.safe_leader hleader ho hk').imp_left fun hlog =>
              prefix_merge_trans hdisk hlog (List.take_prefix _ _)
          · exact .inr hblocked
      · have hk : k < G.stored s' t' := by simpa [hne] using hk
        simpa [hne] using hext.safe ho List.prefix_rfl (hinv.disk_keeps ho hk)
    vote_keeps := fun hv hl hlt ho hk => by
      rcases hnew hk with ⟨rfl, rfl, -⟩ | hk
      · exact absurd (hinv.vote_term hv) (by omega)
      · exact hext.safe ho List.prefix_rfl (hinv.vote_keeps hv hl hlt ho hk)
    log_keeps := fun ht' hlt ho => hext.safe ho List.prefix_rfl (hinv.log_keeps ht' hlt ho) }

theorem Inv.cut (hinv : Inv Q G) {s : ι} {t m : ℕ} (hterm : G.term s = t)
    (hleader : G.leader t ≠ none) (hcut : ¬(G.disk s).take (m + 1) <+: G.log t) :
    Inv Q { G with disk := Function.update G.disk s ((G.disk s).take m) } := by
  have hext := hinv.extends_of_step (.cut hterm hleader hcut)
  exact { hinv with
    disk_le := fun s' e he => by
      rcases eq_or_ne s' s with rfl | hne
      · exact hinv.disk_le s' e (List.mem_of_mem_take (by simpa using he))
      · exact hinv.disk_le s' e (by simpa [hne] using he)
    sound_disk := fun s' => by
      rcases eq_or_ne s' s with rfl | hne
      · simpa using hext.sound ((hinv.sound_disk s').take m)
      · simpa [hne] using hext.sound (hinv.sound_disk s')
    rooted_disk := fun s' => by
      rcases eq_or_ne s' s with rfl | hne
      · simpa using (hinv.rooted_disk s').cut (hinv.rooted_log hleader) hcut
      · simpa [hne] using hinv.rooted_disk s'
    disk_keeps := fun {s' t' k} ho hk => by
      rcases eq_or_ne s' s with rfl | hne
      · subst hterm
        simp only [Function.update_self]
        rcases hinv.disk_keeps ho hk with hdisk | hblocked
        · refine (hinv.safe_leader hleader ho hk).imp_left fun hlog => ?_
          -- what was stored ends before the first difference
          have hlen : ((G.log t').take (k + 1)).length = k + 1 := by simpa using ho.lt_length
          have heq := List.prefix_iff_eq_take.mp hdisk
          rw [hlen] at heq
          change List.take (k + 1) (G.log t') <+: _ at hlog
          change List.take (k + 1) (G.log t') <+: _
          rw [heq] at hlog ⊢
          refine List.take_prefix_take_left (Nat.le_of_not_lt fun hlt => hcut ?_)
          exact (List.take_prefix_take_left hlt).trans hlog
        · exact .inr hblocked
      · simpa [hne] using hext.safe ho List.prefix_rfl (hinv.disk_keeps ho hk) }

theorem Inv.step (hinv : Inv Q G) (h : Step Q G i G') : Inv Q G' := by
  cases h with
  | advance h => exact hinv.advance h
  | stand h => exact hinv.stand h
  | grant hterm hvote hl hup => exact hinv.grant hterm hvote hl hup
  | elect hleader hl hP hvotes => exact hinv.elect hleader hl hP hvotes
  | extend hd h => exact hinv.extend hd h
  | commit _ _ hcommitted => exact hinv.commit hcommitted
  | store hterm hleader hm => exact hinv.store hterm hleader hm
  | cut hterm hleader hcut => exact hinv.cut hterm hleader hcut

end Steps

/-- What a server does leaves everything of the other servers as it is. -/
structure Frame (i : ι) (G G' : World ι α) : Prop where
  term : ∀ {j}, j ≠ i → G'.term j = G.term j
  vote : ∀ {j}, j ≠ i → G'.vote j = G.vote j
  standing : ∀ {j}, j ≠ i → G'.standing j = G.standing j
  disk : ∀ {j}, j ≠ i → G'.disk j = G.disk j
  stored : ∀ {j}, j ≠ i → G'.stored j = G.stored j
  leader : ∀ {t j}, j ≠ i → G'.leader t = some j → G.leader t = some j
  log : ∀ {t j}, j ≠ i → G.leader t = some j → G'.log t = G.log t ∧ G'.commit t = G.commit t

theorem Frame.refl (i : ι) (G : World ι α) : Frame i G G :=
  ⟨fun _ => rfl, fun _ => rfl, fun _ => rfl, fun _ => rfl, fun _ => rfl, fun _ => id,
    fun _ _ => ⟨rfl, rfl⟩⟩

theorem Frame.trans {i : ι} (hext : Extends G G') (h : Frame i G G') (h' : Frame i G' G'') :
    Frame i G G'' where
  term hne := (h'.term hne).trans (h.term hne)
  vote hne := (h'.vote hne).trans (h.vote hne)
  standing hne := (h'.standing hne).trans (h.standing hne)
  disk hne := (h'.disk hne).trans (h.disk hne)
  stored hne := (h'.stored hne).trans (h.stored hne)
  leader hne hj := h.leader hne (h'.leader hne hj)
  log hne hj :=
    have hlog := h.log hne hj
    have hlog' := h'.log hne (hext.leader hj)
    ⟨hlog'.1.trans hlog.1, hlog'.2.trans hlog.2⟩

section Steps
variable [DecidableEq ι] {i : ι}

theorem Step.frame (h : Step Q G i G') : Frame i G G' := by
  cases h with
  | advance => exact { Frame.refl i G with term := fun hne => by simp [hne] }
  | stand => exact { Frame.refl i G with
      term := fun hne => by simp [hne]
      standing := fun hne => by simp [hne] }
  | grant => exact { Frame.refl i G with vote := fun hne => by simp [hne] }
  | @elect t l P hleader =>
    have hold : ∀ {t' j}, G.leader t' = some j → t' ≠ t := by
      rintro t' j hj rfl
      exact absurd (hleader.symm.trans hj) (Option.some_ne_none j).symm
    refine { Frame.refl i G with
      leader := fun {t' j} hne hj => ?_
      log := fun {t' j} _ hj => by simp [hold hj] }
    rcases eq_or_ne t' t with rfl | hne'
    · simp only [Function.update_self, Option.some.injEq] at hj
      exact absurd hj.symm hne
    · simpa [hne'] using hj
  | @extend t d hd hleader =>
    refine { Frame.refl i G with log := fun {t' j} hne hj => ?_ }
    have : t' ≠ t := by
      rintro rfl
      exact hne (Option.some_inj.mp (hj.symm.trans hleader))
    simp [this]
  | @commit t k hleader =>
    refine { Frame.refl i G with log := fun {t' j} hne hj => ?_ }
    have : t' ≠ t := by
      rintro rfl
      exact hne (Option.some_inj.mp (hj.symm.trans hleader))
    simp [this]
  | store => exact { Frame.refl i G with
      disk := fun hne => by simp [hne]
      stored := fun hne => by simp [hne] }
  | cut => exact { Frame.refl i G with disk := fun hne => by simp [hne] }

def Steps (Q : Setting ι α) (i : ι) : World ι α → World ι α → Prop :=
  Relation.ReflTransGen fun G G' => Step Q G i G'

theorem Step.steps (h : Step Q G i G') : Steps Q i G G' := Relation.ReflTransGen.single h

theorem Steps.refl (Q : Setting ι α) (i : ι) (G : World ι α) : Steps Q i G G :=
  Relation.ReflTransGen.refl

theorem Steps.trans (h : Steps Q i G G') (h' : Steps Q i G' G'') : Steps Q i G G'' :=
  Relation.ReflTransGen.trans h h'

theorem Inv.steps (hinv : Inv Q G) (h : Steps Q i G G') :
    Inv Q G' ∧ Extends G G' ∧ Frame i G G' := by
  induction h with
  | refl => exact ⟨hinv, Extends.refl G, Frame.refl i G⟩
  | tail _ hstep ih =>
    obtain ⟨hinv', hext, hframe⟩ := ih
    exact ⟨hinv'.step hstep, hext.trans (hinv'.extends_of_step hstep),
      hframe.trans hext hstep.frame⟩

end Steps

/-- A leader of a term up to `t` has declared all of `l` committed. -/
def Chosen (G : World ι α) (t : ℕ) (l : List (Entry α)) : Prop :=
  ∃ t' ≤ t, l <+: (G.log t').take (G.commit t')

theorem chosen_nil (G : World ι α) (t : ℕ) : Chosen G t [] := ⟨t, le_rfl, List.nil_prefix⟩

theorem Chosen.mono (h : Chosen G t l) (hext : Extends G G') (hle : t ≤ t') : Chosen G' t' l := by
  obtain ⟨t₁, ht₁, hl⟩ := h
  refine ⟨t₁, ht₁.trans hle, hl.trans ?_⟩
  exact (List.take_prefix_take_left (hext.commit t₁)).trans ((hext.log t₁).take _)

theorem Chosen.anti (h : Chosen G t l) (hl : l' <+: l) : Chosen G t l' := by
  obtain ⟨t₁, ht₁, h⟩ := h
  exact ⟨t₁, ht₁, hl.trans h⟩

theorem Committed.not_blocked (h : Committed Q G t k) : ¬Blocked Q G t k := by
  rintro ⟨P, hP, hall⟩
  obtain ⟨-, P', hP', hall'⟩ := h
  obtain ⟨s, hs, hs'⟩ := Q.meet hP hP'
  exact absurd (hall' s hs') (Nat.not_lt_of_le (hall s hs).2)

theorem Inv.committed_prefix_log (hinv : Inv Q G) {t t' k : ℕ} (h : Committed Q G t k)
    (hle : t ≤ t') (hleader : G.leader t' ≠ none) : (G.log t).take (k + 1) <+: G.log t' := by
  rcases hle.lt_or_eq with hlt | rfl
  · exact (hinv.log_keeps hleader hlt h.1).resolve_right h.not_blocked
  · exact List.take_prefix _ _

theorem Inv.take_commit_prefix_log (hinv : Inv Q G) {t t' : ℕ} (hle : t ≤ t')
    (hleader : G.leader t' ≠ none) : (G.log t).take (G.commit t) <+: G.log t' := by
  rcases hk : G.commit t with - | k
  · simp
  · exact hinv.committed_prefix_log (hinv.committed hk) hle hleader

theorem Inv.chosen_prefix_log (hinv : Inv Q G) {t t' : ℕ} {l : List (Entry α)} (h : Chosen G t l)
    (hle : t ≤ t') (hleader : G.leader t' ≠ none) : l <+: G.log t' := by
  obtain ⟨t₁, ht₁, hl⟩ := h
  exact hl.trans (hinv.take_commit_prefix_log (ht₁.trans hle) hleader)

theorem Inv.chosen_comparable (hinv : Inv Q G) {t t' : ℕ} {l l' : List (Entry α)}
    (h : Chosen G t l) (h' : Chosen G t' l') : l <+: l' ∨ l' <+: l := by
  obtain ⟨t₁, -, hl⟩ := h
  obtain ⟨t₂, -, hl'⟩ := h'
  wlog hle : t₁ ≤ t₂ generalizing t₁ t₂ l l'
  · exact (this t₂ hl' t₁ hl (Nat.le_of_not_le hle)).symm
  by_cases hleader : G.leader t₂ = none
  · rw [hinv.commit_eq_zero hleader, List.take_zero, List.prefix_nil] at hl'
    exact .inr (hl' ▸ List.nil_prefix)
  · exact List.prefix_or_prefix_of_prefix (hl.trans (hinv.take_commit_prefix_log hle hleader))
      (hl'.trans (List.take_prefix _ _))

/-- Once a quorum is in no later term than `t`, nothing was declared committed in later terms. -/
theorem Inv.chosen_of_quorum (hinv : Inv Q G) {t t' : ℕ} {l : List (Entry α)} (h : Chosen G t' l)
    {P : Set ι} (hP : Q.IsQuorum P) (hterm : ∀ s ∈ P, G.term s ≤ t) : Chosen G t l := by
  obtain ⟨t₁, -, hl⟩ := h
  rcases hk : G.commit t₁ with - | k
  · rw [hk, List.take_zero, List.prefix_nil] at hl
    exact hl ▸ chosen_nil G t
  · obtain ⟨-, P', hP', hstored⟩ := hinv.committed hk
    obtain ⟨s, hs, hs'⟩ := Q.meet hP hP'
    have := (hinv.stored_term (Nat.zero_lt_of_lt (hstored s hs'))).2
    exact ⟨t₁, this.trans (hterm s hs), hl⟩

/-- A leader that has an entry of its own has before it all that was declared committed in earlier
terms. -/
theorem Inv.chosen_prefix_take (hinv : Inv Q G) {t k : ℕ} (hleader : G.leader t ≠ none)
    (ho : Own G t k) (hcommit : G.commit t ≤ k + 1) {l : List (Entry α)} (h : Chosen G t l) :
    l <+: (G.log t).take (k + 1) := by
  obtain ⟨t₁, ht₁, hl⟩ := h
  rcases ht₁.lt_or_eq with hlt | rfl
  · have hlog := hl.trans (hinv.take_commit_prefix_log ht₁ hleader)
    refine List.prefix_of_prefix_length_le hlog (List.take_prefix _ _) ?_
    rw [List.length_take, min_eq_left (Nat.succ_le_of_lt ho.lt_length)]
    by_contra hlen
    obtain ⟨e, he, hterm⟩ := ho
    obtain ⟨r, hr⟩ := hlog
    rw [← hr, List.getElem?_append_left (by omega)] at he
    have hmem := (hl.trans (List.take_prefix _ _)).subset (List.mem_of_getElem? he)
    exact absurd (hinv.log_le e hmem) (by omega)
  · exact hl.trans (List.take_prefix_take_left hcommit)

end RaftMonitor.ElectedLogs
