import Mathlib

namespace RaftMonitor.SortedMap

variable {κ β : Type*} [LinearOrder κ]

def find : List (κ × β) → κ → Option β
  | [], _ => none
  | (a, v) :: m, k => if k = a then some v else find m k

def insert : List (κ × β) → κ → β → List (κ × β)
  | [], k, v => [(k, v)]
  | (a, w) :: m, k, v =>
    if k < a then (k, v) :: (a, w) :: m
    else if k = a then (k, v) :: m
    else (a, w) :: insert m k v

def erase (m : List (κ × β)) (k : κ) : List (κ × β) := m.filter fun e => e.1 ≠ k

def Sorted (m : List (κ × β)) : Prop := m.Pairwise fun e f => e.1 < f.1

theorem find_insert (m : List (κ × β)) (k : κ) (v : β) (a : κ) [Decidable (a = k)] :
    find (insert m k v) a = if a = k then some v else find m a := by
  induction m with
  | nil =>
    simp only [insert, find]
    congr
  | cons e m ih =>
    obtain ⟨b, w⟩ := e
    unfold insert
    by_cases hlt : k < b
    · rw [if_pos hlt]
      simp only [find]
      congr
    · by_cases hkb : k = b
      · subst hkb
        rw [if_neg hlt, if_pos rfl]
        by_cases hak : a = k <;> simp [find, hak]
      · rw [if_neg hlt, if_neg hkb]
        simp only [find, ih]
        by_cases hab : a = b
        · have hak : a ≠ k := fun hak => hkb (hak.symm.trans hab)
          rw [if_pos hab, if_neg hak, if_pos hab]
        · rw [if_neg hab, if_neg hab]

theorem find_insert_cases {m : List (κ × β)} {k a : κ} {v w : β}
    (h : find (insert m k v) a = some w) : (a = k ∧ w = v) ∨ find m a = some w := by
  rw [find_insert] at h
  split_ifs at h with hak
  · exact .inl ⟨hak, (Option.some.inj h).symm⟩
  · exact .inr h

theorem find_filter_key (m : List (κ × β)) (p : κ → Bool) (k : κ) :
    find (m.filter fun e => p e.1) k = if p k then find m k else none := by
  induction m with
  | nil => simp [find]
  | cons e m ih =>
    obtain ⟨b, w⟩ := e
    rw [List.filter_cons]
    by_cases hb : p b = true
    · rw [if_pos hb]
      simp only [find, ih]
      by_cases hk : k = b
      · rw [if_pos hk, hk, if_pos hb, if_pos rfl]
      · rw [if_neg hk, if_neg hk]
    · rw [if_neg hb, ih]
      simp only [find]
      by_cases hk : k = b
      · rw [hk, if_neg hb, if_neg hb]
      · rw [if_neg hk]

theorem find_erase (m : List (κ × β)) (k a : κ) [Decidable (a = k)] :
    find (erase m k) a = if a = k then none else find m a := by
  unfold erase
  rw [find_filter_key m (fun b => b ≠ k) a]
  by_cases hak : a = k <;> simp [hak]

theorem mem_insert {m : List (κ × β)} {k : κ} {v : β} {e : κ × β} (h : e ∈ insert m k v) :
    e = (k, v) ∨ e ∈ m := by
  induction m with
  | nil => exact .inl (List.mem_singleton.mp h)
  | cons f m ih =>
    obtain ⟨b, w⟩ := f
    unfold insert at h
    split_ifs at h
    · exact List.mem_cons.mp h
    · exact (List.mem_cons.mp h).imp id (List.mem_cons_of_mem _)
    · rcases List.mem_cons.mp h with h | h
      · exact .inr (h ▸ List.mem_cons_self)
      · exact (ih h).imp id (List.mem_cons_of_mem _)

theorem Sorted.insert {m : List (κ × β)} (h : Sorted m) (k : κ) (v : β) :
    Sorted (insert m k v) := by
  induction m with
  | nil => exact List.pairwise_singleton _ _
  | cons f m ih =>
    obtain ⟨b, w⟩ := f
    obtain ⟨hb, hm⟩ := List.pairwise_cons.mp h
    unfold SortedMap.insert
    split_ifs with hlt heq
    · refine List.pairwise_cons.mpr ⟨fun e he => ?_, h⟩
      rcases List.mem_cons.mp he with rfl | he
      · exact hlt
      · exact hlt.trans (hb e he)
    · exact List.pairwise_cons.mpr ⟨fun e he => heq ▸ hb e he, hm⟩
    · refine List.pairwise_cons.mpr ⟨fun e he => ?_, ih hm⟩
      rcases mem_insert he with rfl | he
      · exact lt_of_le_of_ne (not_lt.mp hlt) (Ne.symm heq)
      · exact hb e he

theorem Sorted.erase {m : List (κ × β)} (h : Sorted m) (k : κ) : Sorted (erase m k) :=
  h.sublist List.filter_sublist

theorem Sorted.nodup_keys {m : List (κ × β)} (h : Sorted m) : (m.map Prod.fst).Nodup :=
  List.pairwise_map.mpr (h.imp fun hlt => hlt.ne)

theorem mem_of_find {m : List (κ × β)} {k : κ} {v : β} (h : find m k = some v) : (k, v) ∈ m := by
  induction m with
  | nil => cases h
  | cons e m ih =>
    obtain ⟨b, w⟩ := e
    unfold find at h
    split_ifs at h with hk
    · rw [hk, Option.some.inj h]
      exact List.mem_cons_self
    · exact List.mem_cons_of_mem _ (ih h)

theorem Sorted.find_of_mem {m : List (κ × β)} (h : Sorted m) {k : κ} {v : β} (hm : (k, v) ∈ m) :
    find m k = some v := by
  induction m with
  | nil => cases hm
  | cons e m ih =>
    obtain ⟨b, w⟩ := e
    obtain ⟨hb, hs⟩ := List.pairwise_cons.mp h
    unfold find
    rcases List.mem_cons.mp hm with hm | hm
    · cases hm
      exact if_pos rfl
    · rw [if_neg (hb _ hm).ne']
      exact ih hs hm

theorem Sorted.mem_keys {m : List (κ × β)} (h : Sorted m) {k : κ} :
    k ∈ m.map Prod.fst ↔ ∃ v, find m k = some v := by
  constructor
  · intro hk
    obtain ⟨e, he, rfl⟩ := List.mem_map.mp hk
    exact ⟨e.2, h.find_of_mem he⟩
  · rintro ⟨v, hv⟩
    exact List.mem_map.mpr ⟨(k, v), mem_of_find hv, rfl⟩

theorem Sorted.insert_of_find {m : List (κ × β)} (h : Sorted m) {k : κ} {v : β}
    (hf : find m k = some v) : SortedMap.insert m k v = m := by
  induction m with
  | nil => cases hf
  | cons e m ih =>
    obtain ⟨b, w⟩ := e
    obtain ⟨hb, hs⟩ := List.pairwise_cons.mp h
    unfold find at hf
    unfold SortedMap.insert
    split_ifs at hf with hk
    · subst hk
      rw [if_neg (lt_irrefl k), if_pos rfl, Option.some.inj hf]
    · have hlt : b < k := hb _ (mem_of_find hf)
      rw [if_neg hlt.not_gt, if_neg hk, ih hs hf]

theorem insert_insert (m : List (κ × β)) (k : κ) (v w : β) :
    insert (insert m k v) k w = insert m k w := by
  induction m with
  | nil => simp [insert]
  | cons e m ih =>
    obtain ⟨b, u⟩ := e
    by_cases hlt : k < b
    · simp [insert, hlt]
    · by_cases hkb : k = b
      · simp [insert, hkb]
      · simp [insert, hlt, hkb, ih]

theorem Sorted.find_filter {m : List (κ × β)} (h : Sorted m) {p : κ × β → Bool} {k : κ} {v : β} :
    find (m.filter p) k = some v ↔ find m k = some v ∧ p (k, v) = true := by
  have hsub : Sorted (m.filter p) := h.sublist List.filter_sublist
  constructor
  · intro hf
    obtain ⟨hm, hp⟩ := List.mem_filter.mp (mem_of_find hf)
    exact ⟨h.find_of_mem hm, hp⟩
  · rintro ⟨hf, hp⟩
    exact hsub.find_of_mem (List.mem_filter.mpr ⟨mem_of_find hf, hp⟩)

end RaftMonitor.SortedMap
