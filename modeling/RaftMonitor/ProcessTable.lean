import Mathlib

namespace RaftMonitor.ProcessTable
open Std

/-- A request: a child process for some command, with what `fork` answered, or a `SIGKILL`. -/
inductive Event (γ : Type*)
  | created (command : γ) (pid : ℤ)
  | signalled (pid : ℤ)

variable {γ κ : Type*}

/-- The answers of `fork`, failures included, in order. -/
def created (es : List (Event γ)) : List ℤ :=
  es.filterMap fun e => match e with
    | .created _ pid => some pid
    | .signalled _ => none

def requested (es : List (Event γ)) : List γ :=
  es.filterMap fun e => match e with
    | .created command _ => some command
    | .signalled _ => none

def signalled (es : List (Event γ)) : List ℤ :=
  es.filterMap fun e => match e with
    | .created _ _ => none
    | .signalled pid => some pid

@[simp] theorem created_concat_created (es : List (Event γ)) (c : γ) (pid : ℤ) :
    created (es ++ [.created c pid]) = created es ++ [pid] := by simp [created]

@[simp] theorem created_concat_signalled (es : List (Event γ)) (pid : ℤ) :
    created (es ++ [.signalled pid]) = created es := by simp [created]

@[simp] theorem signalled_concat_created (es : List (Event γ)) (c : γ) (pid : ℤ) :
    signalled (es ++ [.created c pid]) = signalled es := by simp [signalled]

@[simp] theorem signalled_concat_signalled (es : List (Event γ)) (pid : ℤ) :
    signalled (es ++ [.signalled pid]) = signalled es ++ [pid] := by simp [signalled]

def running (es : List (Event γ)) : List ℤ :=
  (created es).filter fun p => 0 < p ∧ p ∉ signalled es

/-- Every pid that is killed is a child's, and was not killed before. -/
def Genuine (es : List (Event γ)) : Prop :=
  ∀ before pid after, es = before ++ .signalled pid :: after →
    pid ∈ created before ∧ pid ∉ signalled before ∧ 0 < pid

theorem Genuine.created {es : List (Event γ)} (h : Genuine es) (c : γ) (pid : ℤ) :
    Genuine (es ++ [.created c pid]) := by
  intro before p after heq
  rcases List.eq_nil_or_concat after with rfl | ⟨after', e, rfl⟩
  · have hlast := congrArg List.getLast? heq
    simp at hlast
  · rw [List.concat_eq_append, ← List.cons_append, ← List.append_assoc] at heq
    exact h before p after' (List.append_inj_left' heq rfl)

theorem Genuine.signalled {es : List (Event γ)} (h : Genuine es) {pid : ℤ}
    (hc : pid ∈ ProcessTable.created es) (hs : pid ∉ ProcessTable.signalled es) (hp : 0 < pid) :
    Genuine (es ++ [.signalled pid]) := by
  intro before p after heq
  rcases List.eq_nil_or_concat after with rfl | ⟨after', e, rfl⟩
  · obtain ⟨rfl, hlast⟩ := List.append_inj' heq rfl
    have hpid : pid = p := by simpa using hlast
    exact hpid ▸ ⟨hc, hs, hp⟩
  · rw [List.concat_eq_append, ← List.cons_append, ← List.append_assoc] at heq
    exact h before p after' (List.append_inj_left' heq rfl)

theorem Genuine.nodup_signalled {es : List (Event γ)} (h : Genuine es) :
    (ProcessTable.signalled es).Nodup := by
  induction es using List.reverseRecOn with
  | nil => simp [ProcessTable.signalled]
  | append_singleton es e ih =>
    have hes : Genuine es := by
      intro before p after heq
      exact h before p (after ++ [e]) (by rw [heq]; simp)
    cases e with
    | created c pid => simpa using ih hes
    | signalled pid =>
      rw [signalled_concat_signalled, List.nodup_append]
      refine ⟨ih hes, List.nodup_singleton _, ?_⟩
      intro a ha b hb hab
      rw [List.mem_singleton.mp hb] at hab
      exact (h es pid [] rfl).2.1 (hab ▸ ha)

/-- The answers of the operating system to the successive calls of `fork` and `kill`. -/
structure Os where
  fork : ℕ → ℤ
  kill : ℕ → Bool

/-- `fork` fails with -1 or returns a positive pid that it never returned before. -/
structure Os.Fresh (os : Os) : Prop where
  answer : ∀ k, os.fork k = -1 ∨ 0 < os.fork k
  fresh : ∀ j k, os.fork j = os.fork k → os.fork j = -1 ∨ j = k

/-- A map from names to the pids of the children started under them, and all that was asked
of the operating system. -/
structure Table (κ γ : Type*) (cmp : κ → κ → Ordering) where
  pids : ExtTreeMap κ ℤ cmp
  events : List (Event γ)

section Operations

variable {cmp : κ → κ → Ordering} [TransCmp cmp]

def createProcess (os : Os) (t : Table κ γ cmp) (command : γ) : Table κ γ cmp × ℤ :=
  let pid := os.fork (created t.events).length
  ({ t with events := t.events ++ [.created command pid] }, pid)

def stopProcess (os : Os) (t : Table κ γ cmp) (pid : ℤ) : Table κ γ cmp × Bool :=
  ({ t with events := t.events ++ [.signalled pid] }, os.kill (signalled t.events).length)

def spawn (os : Os) (t : Table κ γ cmp) (key : κ) (command : γ) : Table κ γ cmp × Bool :=
  let (t, pid) := createProcess os t command
  if pid = -1 then (t, false) else ({ t with pids := t.pids.insert key pid }, true)

/-- Takes the entry out of the table and kills the child; false when there is no entry or
the child cannot be killed. -/
def kill (os : Os) (t : Table κ γ cmp) (key : κ) : Table κ γ cmp × Bool :=
  match t.pids[key]? with
  | none => (t, false)
  | some pid => stopProcess os { t with pids := t.pids.erase key } pid

end Operations

theorem kill_of_mem {cmp : κ → κ → Ordering} [TransCmp cmp] {t : Table κ γ cmp} {key : κ}
    (h : key ∈ t.pids) (os : Os) :
    ∃ pid, t.pids[key]? = some pid ∧ kill os t key =
      (⟨t.pids.erase key, t.events ++ [.signalled pid]⟩, os.kill (signalled t.events).length) := by
  obtain ⟨pid, hpid⟩ := Option.isSome_iff_exists.mp (ExtTreeMap.mem_iff_isSome_getElem?.mp h)
  exact ⟨pid, hpid, by simp [kill, hpid, stopProcess]⟩

@[simp] theorem requested_spawn {cmp : κ → κ → Ordering} [TransCmp cmp] (os : Os)
    (t : Table κ γ cmp) (key : κ) (command : γ) :
    requested (spawn os t key command).1.events = requested t.events ++ [command] := by
  by_cases hfail : os.fork (created t.events).length = -1 <;>
    simp [spawn, createProcess, hfail, requested]

@[simp] theorem requested_kill {cmp : κ → κ → Ordering} [TransCmp cmp] (os : Os)
    (t : Table κ γ cmp) (key : κ) : requested (kill os t key).1.events = requested t.events := by
  unfold kill
  split
  · rfl
  · simp [stopProcess, requested]

theorem mem_signalled_kill {cmp : κ → κ → Ordering} [TransCmp cmp] {t : Table κ γ cmp} {p : ℤ}
    (h : p ∈ signalled t.events) (os : Os) (key : κ) : p ∈ signalled (kill os t key).1.events := by
  unfold kill
  split
  · exact h
  · dsimp only [stopProcess]
    rw [signalled_concat_signalled]
    exact List.mem_append_left _ h

theorem mem_signalled_kill_self {cmp : κ → κ → Ordering} [TransCmp cmp] {t : Table κ γ cmp}
    {key : κ} {pid : ℤ} (h : t.pids[key]? = some pid) (os : Os) :
    pid ∈ signalled (kill os t key).1.events := by
  simp [kill, h, stopProcess]

theorem Genuine.mem_created {es : List (Event γ)} (h : Genuine es) {pid : ℤ}
    (hp : pid ∈ ProcessTable.signalled es) : pid ∈ ProcessTable.created es := by
  obtain ⟨e, he, hpid⟩ := List.mem_filterMap.mp hp
  cases e with
  | created c q => simp at hpid
  | signalled q =>
    have hq : q = pid := by simpa using hpid
    obtain ⟨before, after, rfl⟩ := List.append_of_mem he
    have hc := (h before q after rfl).1
    rw [hq] at hc
    unfold ProcessTable.created
    rw [List.filterMap_append]
    exact List.mem_append_left _ hc

section Soundness

variable {cmp : κ → κ → Ordering} [TransCmp cmp] {os : Os} {t : Table κ γ cmp}

/-- The table holds pids of children that were not killed, each under one name only. -/
structure Sound (os : Os) (t : Table κ γ cmp) : Prop where
  genuine : Genuine t.events
  answers : created t.events = (List.range (created t.events).length).map os.fork
  entry : ∀ (k : κ) (p : ℤ), t.pids[k]? = some p →
    p ∈ created t.events ∧ p ∉ signalled t.events ∧ 0 < p
  inj : ∀ (j k : κ) (p : ℤ), t.pids[j]? = some p → t.pids[k]? = some p → j = k

theorem sound_empty (os : Os) : Sound os (⟨∅, []⟩ : Table κ γ cmp) where
  genuine := by intro before p after h; simp at h
  answers := rfl
  entry k p h := by simp at h
  inj j k p h := by simp at h

theorem Sound.fork_fresh (h : Sound os t) (hos : os.Fresh)
    (hp : os.fork (created t.events).length ≠ -1) :
    os.fork (created t.events).length ∉ created t.events := by
  intro hmem
  have hmap : os.fork (created t.events).length ∈
      (List.range (created t.events).length).map os.fork := by
    rw [← h.answers]
    exact hmem
  obtain ⟨k, hk, heq⟩ := List.mem_map.mp hmap
  have hlt := List.mem_range.mp hk
  rcases hos.fresh _ _ heq with hfail | rfl
  · exact hp (heq ▸ hfail)
  · omega

theorem Sound.createProcess (h : Sound os t) (command : γ) :
    Sound os (createProcess os t command).1 where
  genuine := h.genuine.created command _
  answers := by
    dsimp only [ProcessTable.createProcess]
    rw [created_concat_created, List.length_append, List.length_singleton, List.range_succ,
      List.map_append, ← h.answers, List.map_singleton]
  entry k p hk := by
    have he := h.entry k p hk
    dsimp only [ProcessTable.createProcess]
    rw [created_concat_created, signalled_concat_created]
    exact ⟨List.mem_append_left _ he.1, he.2⟩
  inj := h.inj

theorem Sound.clear (h : Sound os t) : Sound os ({ t with pids := ∅ } : Table κ γ cmp) where
  genuine := h.genuine
  answers := h.answers
  entry k p hk := by simp at hk
  inj j k p hj := by simp at hj

variable [LawfulEqCmp cmp] [DecidableEq κ]

theorem getElem?_insert_eq (m : ExtTreeMap κ ℤ cmp) (k a : κ) (p : ℤ) :
    (m.insert k p)[a]? = if k = a then some p else m[a]? := by
  simp [ExtTreeMap.getElem?_insert]

theorem getElem?_erase_eq (m : ExtTreeMap κ ℤ cmp) (k a : κ) :
    (m.erase k)[a]? = if k = a then none else m[a]? := by
  simp [ExtTreeMap.getElem?_erase]

theorem getElem?_kill_of_ne (os : Os) (t : Table κ γ cmp) {j key : κ} (h : j ≠ key) :
    (kill os t key).1.pids[j]? = t.pids[j]? := by
  unfold kill
  split
  · rfl
  · dsimp only [stopProcess]
    rw [getElem?_erase_eq, if_neg h.symm]

theorem Sound.spawn (h : Sound os t) (hos : os.Fresh) (key : κ) (command : γ) :
    Sound os (spawn os t key command).1 := by
  have hc := h.createProcess command
  dsimp only [ProcessTable.spawn]
  split_ifs with hp
  · exact hc
  have hfresh := h.fork_fresh hos hp
  have hpos : 0 < os.fork (created t.events).length := (hos.answer _).resolve_left hp
  have hold : ∀ (k : κ) (p : ℤ), t.pids[k]? = some p → p ≠ os.fork (created t.events).length :=
    fun k p hk he => hfresh (he ▸ (h.entry k p hk).1)
  refine ⟨hc.genuine, hc.answers, ?_, ?_⟩
  · intro k p hk
    rw [getElem?_insert_eq] at hk
    split_ifs at hk with hkey
    · rw [← Option.some.inj hk]
      refine ⟨by simp [ProcessTable.createProcess], ?_, hpos⟩
      dsimp only [ProcessTable.createProcess]
      rw [signalled_concat_created]
      exact fun hs => hfresh (h.genuine.mem_created hs)
    · exact hc.entry k p hk
  · -- of two names for one pid, neither or both are the new one, since the pid is new
    intro j k p hj hk
    rw [getElem?_insert_eq] at hj hk
    split_ifs at hj hk with hkj hkk hkk
    · exact hkj.symm.trans hkk
    · exact absurd (Option.some.inj hj).symm (hold k p hk)
    · exact absurd (Option.some.inj hk).symm (hold j p hj)
    · exact h.inj j k p hj hk

theorem Sound.kill (h : Sound os t) (key : κ) : Sound os (kill os t key).1 := by
  unfold ProcessTable.kill
  split
  · exact h
  · rename_i pid hpid
    obtain ⟨hc, hs, hp⟩ := h.entry key pid hpid
    refine ⟨h.genuine.signalled hc hs hp, ?_, ?_, ?_⟩
    · dsimp only [stopProcess]
      rw [created_concat_signalled]
      exact h.answers
    · intro k p hk
      dsimp only [stopProcess] at hk ⊢
      rw [getElem?_erase_eq] at hk
      split_ifs at hk with hkey
      have he := h.entry k p hk
      rw [created_concat_signalled, signalled_concat_signalled]
      refine ⟨he.1, ?_, he.2.2⟩
      intro hmem
      rcases List.mem_append.mp hmem with hmem | hmem
      · exact he.2.1 hmem
      · rw [List.mem_singleton.mp hmem] at hk
        exact hkey (h.inj _ _ _ hpid hk)
    · intro j k p hj hk
      dsimp only [stopProcess] at hj hk
      rw [getElem?_erase_eq] at hj hk
      split_ifs at hj with h1
      split_ifs at hk with h2
      exact h.inj j k p hj hk

end Soundness

/-- `fork` always succeeds with a new pid, and every child can be killed. -/
structure Os.Reliable (os : Os) : Prop where
  positive : ∀ k, 0 < os.fork k
  injective : Function.Injective os.fork
  kills : ∀ k, os.kill k = true

theorem Os.Reliable.fresh {os : Os} (h : os.Reliable) : os.Fresh where
  answer k := Or.inr (h.positive k)
  fresh _ _ heq := Or.inr (h.injective heq)

section Tracking

variable {cmp : κ → κ → Ordering} [TransCmp cmp] {os : Os} {t : Table κ γ cmp} {K : Finset κ}

/-- The children that run are those in the table, under exactly the names in `K`. -/
structure Tracks (os : Os) (t : Table κ γ cmp) (K : Finset κ) : Prop extends Sound os t where
  names : ∀ k, k ∈ t.pids ↔ k ∈ K
  noLeak : ∀ p ∈ running t.events, ∃ k : κ, t.pids[k]? = some p

theorem tracks_empty (os : Os) : Tracks os (⟨∅, []⟩ : Table κ γ cmp) ∅ where
  toSound := sound_empty os
  names k := by simp
  noLeak p hp := by simp [running, created] at hp

theorem mem_running_iff {es : List (Event γ)} {p : ℤ} :
    p ∈ running es ↔ p ∈ created es ∧ 0 < p ∧ p ∉ signalled es := by
  simp [running]

theorem Tracks.mem_running_iff (h : Tracks os t K) {p : ℤ} :
    p ∈ running t.events ↔ ∃ k : κ, t.pids[k]? = some p := by
  constructor
  · exact h.noLeak p
  · rintro ⟨k, hk⟩
    obtain ⟨hc, hs, hp⟩ := h.entry k p hk
    exact ProcessTable.mem_running_iff.mpr ⟨hc, hp, hs⟩

theorem Tracks.nodup_created (h : Tracks os t K) (hos : os.Reliable) :
    (created t.events).Nodup := by
  rw [h.answers]
  exact List.nodup_range.map hos.injective

theorem Tracks.nodup_running (h : Tracks os t K) (hos : os.Reliable) :
    (running t.events).Nodup := (h.nodup_created hos).filter _

theorem Tracks.length_running (h : Tracks os t K) (hos : os.Reliable) :
    (running t.events).length = K.card := by
  -- the map takes the names one to one to the children that run
  have himage : (running t.events).toFinset = K.image fun k => t.pids.getD k 0 := by
    ext p
    rw [List.mem_toFinset, h.mem_running_iff, Finset.mem_image]
    constructor
    · rintro ⟨k, hk⟩
      refine ⟨k, (h.names k).mp ?_, ?_⟩
      · rw [ExtTreeMap.mem_iff_isSome_getElem?, hk]
        rfl
      · rw [ExtTreeMap.getD_eq_getD_getElem?, hk, Option.getD_some]
    · rintro ⟨k, hk, rfl⟩
      exact ⟨k, ExtTreeMap.getElem?_eq_some_getD ((h.names k).mpr hk)⟩
  rw [← List.toFinset_card_of_nodup (h.nodup_running hos), himage]
  apply Finset.card_image_of_injOn
  intro j hj k hk heq
  have hj' : t.pids[j]? = some (t.pids.getD j 0) :=
    ExtTreeMap.getElem?_eq_some_getD ((h.names j).mpr hj)
  have hk' : t.pids[k]? = some (t.pids.getD k 0) :=
    ExtTreeMap.getElem?_eq_some_getD ((h.names k).mpr hk)
  exact h.inj j k _ hj' (hk'.trans (congrArg some heq.symm))

theorem Tracks.all_killed (h : Tracks os t ∅) (hos : os.Reliable) :
    t.pids = ∅ ∧ running t.events = [] ∧
      ∀ p ∈ created t.events, (signalled t.events).count p = 1 := by
  have hempty : t.pids = ∅ := by
    apply ExtTreeMap.eq_empty_iff_forall_not_mem.mpr
    intro k hk
    simpa using (h.names k).mp hk
  have hrun : running t.events = [] := by
    apply List.eq_nil_iff_forall_not_mem.mpr
    intro p hp
    obtain ⟨k, hk⟩ := h.noLeak p hp
    simp [hempty] at hk
  refine ⟨hempty, hrun, ?_⟩
  intro p hp
  apply List.count_eq_one_of_mem h.genuine.nodup_signalled
  by_contra hs
  have hpos : 0 < p := by
    rw [h.answers] at hp
    obtain ⟨k, -, rfl⟩ := List.mem_map.mp hp
    exact hos.positive k
  have hmem : p ∈ running t.events := ProcessTable.mem_running_iff.mpr ⟨hp, hpos, hs⟩
  simp [hrun] at hmem

theorem spawn_eq (hos : os.Reliable) (key : κ) (command : γ) :
    spawn os t key command =
      (⟨t.pids.insert key (os.fork (created t.events).length),
        t.events ++ [.created command (os.fork (created t.events).length)]⟩, true) := by
  have hpos := hos.positive (created t.events).length
  have hne : os.fork (created t.events).length ≠ -1 := by omega
  simp [ProcessTable.spawn, createProcess, hne]

variable [LawfulEqCmp cmp] [DecidableEq κ]

theorem Tracks.spawn (h : Tracks os t K) (hos : os.Reliable) {key : κ} (hkey : key ∉ K)
    (command : γ) :
    Tracks os (spawn os t key command).1 (insert key K) ∧
      (ProcessTable.spawn os t key command).2 = true := by
  refine ⟨⟨h.toSound.spawn hos.fresh key command, ?_, ?_⟩, by rw [spawn_eq hos]⟩
  · intro k
    rw [spawn_eq hos, Finset.mem_insert, ← h.names k, ExtTreeMap.mem_insert,
      LawfulEqCmp.compare_eq_iff_eq, eq_comm]
  · intro p hp
    rw [spawn_eq hos] at hp ⊢
    simp only [ProcessTable.mem_running_iff, created_concat_created,
      signalled_concat_created] at hp
    rcases List.mem_append.mp hp.1 with hc | hc
    · obtain ⟨k, hk⟩ := h.noLeak p (ProcessTable.mem_running_iff.mpr ⟨hc, hp.2⟩)
      refine ⟨k, ?_⟩
      rw [getElem?_insert_eq, if_neg, hk]
      rintro rfl
      have hmem : key ∈ t.pids := by rw [ExtTreeMap.mem_iff_isSome_getElem?, hk]; rfl
      exact hkey ((h.names key).mp hmem)
    · refine ⟨key, ?_⟩
      rw [getElem?_insert_eq, if_pos rfl, List.mem_singleton.mp hc]

theorem Tracks.kill (h : Tracks os t K) (hos : os.Reliable) {key : κ} (hkey : key ∈ K) :
    Tracks os (kill os t key).1 (K.erase key) ∧ (ProcessTable.kill os t key).2 = true := by
  obtain ⟨pid, hpid, heq⟩ := kill_of_mem ((h.names key).mpr hkey) os
  rw [hos.kills] at heq
  refine ⟨⟨h.toSound.kill key, ?_, ?_⟩, by rw [heq]⟩
  · intro k
    rw [heq, Finset.mem_erase, ← h.names k, ExtTreeMap.mem_erase, ne_eq,
      LawfulEqCmp.compare_eq_iff_eq, eq_comm]
  · intro p hp
    rw [heq] at hp ⊢
    simp only [ProcessTable.mem_running_iff, created_concat_signalled,
      signalled_concat_signalled, List.mem_append, List.mem_singleton, not_or] at hp
    obtain ⟨hc, hpos, hs, hne⟩ := hp
    obtain ⟨k, hk⟩ := h.noLeak p (ProcessTable.mem_running_iff.mpr ⟨hc, hpos, hs⟩)
    refine ⟨k, ?_⟩
    rw [getElem?_erase_eq, if_neg, hk]
    rintro rfl
    exact hne (Option.some.inj (hk.symm.trans hpid))

end Tracking

end RaftMonitor.ProcessTable
