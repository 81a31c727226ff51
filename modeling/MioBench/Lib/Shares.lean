import Mathlib.Algebra.Order.BigOperators.Group.Finset
import Mathlib.Algebra.Order.Field.Basic
import Mathlib.MeasureTheory.Measure.Lebesgue.Basic

/-!
# The unit interval shared out by weights

`n` positive weights cut the interval from 0 to 1 into `n` consecutive pieces,
each as long as its weight is of the total.
-/

namespace MioBench.Lib

open Finset MeasureTheory

section Field

variable {K : Type*} [Field K]

/-- Where the first `k` of `n` pieces end. -/
def share (weight : ℕ → K) (n k : ℕ) : K :=
  (∑ i ∈ range k, weight i) / ∑ i ∈ range n, weight i

@[simp] theorem share_zero (weight : ℕ → K) (n : ℕ) : share weight n 0 = 0 := by
  rw [share, sum_range_zero, zero_div]

/-- A piece is as long as its weight is of the total. -/
theorem share_succ_sub (weight : ℕ → K) (n k : ℕ) :
    share weight n (k + 1) - share weight n k =
      weight k / ∑ i ∈ range n, weight i := by
  rw [share, share, ← sub_div, sum_range_succ, add_sub_cancel_left]

variable [LinearOrder K] [IsStrictOrderedRing K] {weight : ℕ → K} {n : ℕ}

theorem total_pos (hWeight : ∀ i, i < n → 0 < weight i) (hn : 0 < n) :
    0 < ∑ i ∈ range n, weight i :=
  sum_pos (fun i hi => hWeight i (mem_range.mp hi)) ⟨0, mem_range.mpr hn⟩

theorem share_self (hWeight : ∀ i, i < n → 0 < weight i) (hn : 0 < n) :
    share weight n n = 1 :=
  div_self (total_pos hWeight hn).ne'

theorem share_lt_share (hWeight : ∀ i, i < n → 0 < weight i) {k m : ℕ}
    (hkm : k < m) (hm : m ≤ n) : share weight n k < share weight n m := by
  have hTotal : 0 < ∑ i ∈ range n, weight i := total_pos hWeight (by omega)
  have hSum : ∑ i ∈ range k, weight i < ∑ i ∈ range m, weight i := by
    rw [← sum_range_add_sum_Ico weight hkm.le]
    refine lt_add_of_pos_right _ (sum_pos (fun i hi => ?_) ?_)
    · exact hWeight i (by have := mem_Ico.mp hi; omega)
    · exact ⟨k, mem_Ico.mpr ⟨le_refl k, hkm⟩⟩
  exact div_lt_div_of_pos_right hSum hTotal

theorem share_le_share (hWeight : ∀ i, i < n → 0 < weight i) {k m : ℕ}
    (hkm : k ≤ m) (hm : m ≤ n) : share weight n k ≤ share weight n m := by
  rcases Nat.eq_or_lt_of_le hkm with hEq | hLt
  · rw [hEq]
  · exact (share_lt_share hWeight hLt hm).le

theorem share_nonneg (hWeight : ∀ i, i < n → 0 < weight i) {k : ℕ} (hk : k ≤ n) :
    0 ≤ share weight n k := by
  have hLe := share_le_share hWeight (Nat.zero_le k) hk
  rwa [share_zero] at hLe

theorem share_le_one (hWeight : ∀ i, i < n → 0 < weight i) (hn : 0 < n) {k : ℕ}
    (hk : k ≤ n) : share weight n k ≤ 1 := by
  have hLe := share_le_share hWeight hk (le_refl n)
  rwa [share_self hWeight hn] at hLe

end Field

/-- Whether the ends of an interval belong to a set does not change its
length. -/
theorem volume_of_between {s : Set ℝ} {a b : ℝ} (hInner : Set.Ioo a b ⊆ s)
    (hOuter : s ⊆ Set.Icc a b) : volume s = ENNReal.ofReal (b - a) := by
  apply le_antisymm
  · rw [← Real.volume_Icc]
    exact measure_mono hOuter
  · rw [← Real.volume_Ioo]
    exact measure_mono hInner

end MioBench.Lib
