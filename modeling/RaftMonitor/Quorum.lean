import Mathlib

namespace RaftMonitor

/-- Sets of servers any two of which have a server in common. -/
structure Quorums (ι : Type*) where
  IsQuorum : Set ι → Prop
  meet : ∀ {P P'}, IsQuorum P → IsQuorum P' → ∃ s, s ∈ P ∧ s ∈ P'

def Quorums.majority (ι : Type*) [Fintype ι] : Quorums ι where
  IsQuorum P := ∃ F : Finset ι, (∀ s ∈ F, s ∈ P) ∧ Fintype.card ι / 2 + 1 ≤ F.card
  meet := by
    classical
    rintro P P' ⟨F, hF, hcard⟩ ⟨F', hF', hcard'⟩
    have hlt : (Finset.univ : Finset ι).card < F.card + F'.card := by
      rw [Finset.card_univ]
      omega
    obtain ⟨s, hs⟩ := Finset.inter_nonempty_of_card_lt_card_add_card
      (Finset.subset_univ F) (Finset.subset_univ F') hlt
    rw [Finset.mem_inter] at hs
    exact ⟨s, hF s hs.1, hF' s hs.2⟩

theorem Quorums.majority_of_countP {ι : Type*} [Fintype ι] {l : List ι} (hl : l.Nodup)
    {p : ι → Bool} (h : Fintype.card ι / 2 + 1 ≤ l.countP p) :
    (majority ι).IsQuorum {s | p s = true} := by
  classical
  refine ⟨(l.filter p).toFinset, fun s hs => ?_, ?_⟩
  · rw [List.mem_toFinset, List.mem_filter] at hs
    exact hs.2
  · rwa [List.toFinset_card_of_nodup (hl.filter p), ← List.countP_eq_length_filter]

theorem le_countP_of_sorted {l : List ℕ} (hl : l.Pairwise (· ≤ ·)) {k m : ℕ}
    (hk : l[k]? = some m) : l.length - k ≤ l.countP (m ≤ ·) := by
  obtain ⟨hlt, rfl⟩ := List.getElem?_eq_some_iff.mp hk
  have hall : ∀ x ∈ l.drop k, decide (l[k] ≤ x) = true := by
    intro x hx
    obtain ⟨j, hj, rfl⟩ := List.mem_iff_getElem.mp hx
    rw [List.getElem_drop, decide_eq_true_eq]
    rcases Nat.eq_zero_or_pos j with rfl | hpos
    · exact le_rfl
    · have hj' : j < l.length - k := by simpa using hj
      exact List.pairwise_iff_getElem.mp hl k (k + j) hlt (by omega) (by omega)
  calc l.length - k = (l.drop k).length := by rw [List.length_drop]
    _ = (l.drop k).countP (l[k] ≤ ·) := (List.countP_eq_length.mpr hall).symm
    _ ≤ l.countP (l[k] ≤ ·) := (List.drop_sublist k l).countP_le

theorem le_countP_lower_median {l : List ℕ} {m : ℕ}
    (h : (l.insertionSort (· ≤ ·))[(l.length - 1) / 2]? = some m) :
    l.length / 2 + 1 ≤ l.countP (m ≤ ·) := by
  have hcount := le_countP_of_sorted (List.pairwise_insertionSort (· ≤ ·) l) h
  have hlt := (List.getElem?_eq_some_iff.mp h).1
  rw [List.length_insertionSort] at hcount hlt
  rw [(List.perm_insertionSort (· ≤ ·) l).countP_eq] at hcount
  omega

end RaftMonitor
