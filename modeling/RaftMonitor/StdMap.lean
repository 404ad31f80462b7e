import Mathlib

namespace RaftMonitor.StdMap
open Std

/-- `operator<` of `std::pair`: the first components decide, then the second ones. -/
def pairCmp : ℕ × ℕ → ℕ × ℕ → Ordering := (lexOrd (α := ℕ) (β := ℕ)).compare

instance : TransCmp pairCmp :=
  letI : Ord (ℕ × ℕ) := lexOrd
  inferInstanceAs (TransOrd (ℕ × ℕ))

instance : LawfulEqCmp pairCmp :=
  letI : Ord (ℕ × ℕ) := lexOrd
  inferInstanceAs (LawfulEqOrd (ℕ × ℕ))

section Counters

variable {κ : Type*} {cmp : κ → κ → Ordering} [TransCmp cmp] [LawfulEqCmp cmp]

/-- `m[k] += 1` on values of type `int`: `operator[]` creates a missing entry with value 0 first. -/
def increment (m : ExtTreeMap κ Int32 cmp) (k : κ) : ExtTreeMap κ Int32 cmp :=
  m.insert k (m.getD k 0 + 1)

variable [BEq κ] [LawfulBEq κ]

theorem getElem?_increment (m : ExtTreeMap κ Int32 cmp) (k a : κ) :
    (increment m k)[a]? = if k == a then some (m.getD k 0 + 1) else m[a]? := by
  have hiff : cmp k a = .eq ↔ (k == a) = true := by
    rw [LawfulEqCmp.compare_eq_iff_eq, beq_iff_eq]
  simp only [increment, ExtTreeMap.getElem?_insert, hiff]

theorem getD_increment (m : ExtTreeMap κ Int32 cmp) (k a : κ) :
    (increment m k).getD a 0 = m.getD a 0 + if k == a then 1 else 0 := by
  rw [ExtTreeMap.getD_eq_getD_getElem?, getElem?_increment]
  split_ifs with h
  · rw [eq_of_beq h, Option.getD_some]
  · rw [ExtTreeMap.getD_eq_getD_getElem?, Int32.add_zero]

theorem getElem?_foldl_increment (m : ExtTreeMap κ Int32 cmp) (ks : List κ) (a : κ) :
    (ks.foldl increment m)[a]? =
      if ks.count a = 0 then m[a]? else some (m.getD a 0 + Int32.ofNat (ks.count a)) := by
  induction ks generalizing m with
  | nil => simp
  | cons k ks ih =>
    rw [List.foldl_cons, ih, getElem?_increment, getD_increment, List.count_cons]
    by_cases hk : k == a
    · have hka : k = a := eq_of_beq hk
      subst hka
      by_cases hc : ks.count k = 0
      · simp [hc]
      · simp [hc, Int32.add_assoc, Int32.add_comm 1]
    · simp [hk]

end Counters

end RaftMonitor.StdMap
