import Mathlib.Algebra.BigOperators.Group.Finset.Basic
import Mathlib.Algebra.Module.NatInt
import Mathlib.Algebra.Order.Group.MinMax
import Mathlib.Data.Set.Lattice
import Mathlib.Order.Bounds.Basic
import Mathlib.Order.CompletePartialOrder
import Mathlib.Order.Interval.Set.Basic
import Mathlib.Tactic.Abel

/-!
# A serialized link

Jobs arrive at a link that serves them in order, one at a time, each for the
same service time `s`.  A job starts when it has arrived and the job before it
has left; nothing else delays it.  The times live in any linearly ordered
commutative group.
-/

namespace MioBench.Lib.SerialLink

open Finset

variable {K : Type*} [AddCommGroup K] [LinearOrder K]
variable (s : K) (now : ℕ → K)

/-- When job `k` leaves the link. -/
def finish : ℕ → K
  | 0 => now 0 + s
  | k + 1 => max (now (k + 1)) (finish k) + s

/-- When job `k` enters the link. -/
def start : ℕ → K
  | 0 => now 0
  | k + 1 => max (now (k + 1)) (finish s now k)

/-- How long the link has stood idle when job `k` enters it. -/
def idle : ℕ → K
  | 0 => 0
  | k + 1 => max (now (k + 1) - finish s now k) 0

@[simp] theorem finish_zero : finish s now 0 = now 0 + s := rfl

theorem finish_succ (k : ℕ) :
    finish s now (k + 1) = max (now (k + 1)) (finish s now k) + s := rfl

@[simp] theorem start_zero : start s now 0 = now 0 := rfl

theorem finish_eq_start_add (k : ℕ) :
    finish s now k = start s now k + s := by
  cases k with
  | zero => rfl
  | succ k => rfl

variable [IsOrderedAddMonoid K]

theorem start_succ_eq_finish_add_idle (k : ℕ) :
    start s now (k + 1) = finish s now k + idle s now (k + 1) := by
  show max (now (k + 1)) (finish s now k) =
    finish s now k + max (now (k + 1) - finish s now k) 0
  rw [← max_add_add_left]
  simp

/-! ## The closed form -/

/-- A job leaves at the latest of the times forced by the jobs up to it: job
`j` and everything behind it must be served after `j` has arrived. -/
theorem finish_isGreatest (k : ℕ) :
    IsGreatest {t | ∃ j ≤ k, t = now j + (k - j + 1) • s} (finish s now k) := by
  induction k with
  | zero =>
      refine ⟨⟨0, le_rfl, by simp⟩, ?_⟩
      rintro t ⟨j, hj, rfl⟩
      obtain rfl : j = 0 := by omega
      simp
  | succ k ih =>
      obtain ⟨⟨j₀, hj₀, hFinish⟩, hUpper⟩ := ih
      constructor
      · rcases max_cases (now (k + 1)) (finish s now k) with
          ⟨hMax, _⟩ | ⟨hMax, _⟩
        · refine ⟨k + 1, le_rfl, ?_⟩
          rw [finish_succ, hMax]
          simp
        · refine ⟨j₀, by omega, ?_⟩
          rw [finish_succ, hMax, hFinish, add_assoc, ← succ_nsmul,
            show k + 1 - j₀ + 1 = k - j₀ + 1 + 1 by omega]
      · rintro t ⟨j, hj, rfl⟩
        rw [finish_succ]
        rcases Nat.lt_or_ge k j with hLast | hEarlier
        · obtain rfl : j = k + 1 := by omega
          simp
        · have hOld : now j + (k - j + 1) • s ≤ finish s now k :=
            hUpper ⟨j, hEarlier, rfl⟩
          calc
            now j + (k + 1 - j + 1) • s = now j + (k - j + 1) • s + s := by
              rw [show k + 1 - j + 1 = k - j + 1 + 1 by omega, succ_nsmul,
                add_assoc]
            _ ≤ max (now (k + 1)) (finish s now k) + s := by
              gcongr
              exact hOld.trans (le_max_right _ _)

/-! ## Slots -/

section Slots

variable {s} (hs : 0 ≤ s)
include hs

theorem finish_le_start {j k : ℕ} (hjk : j < k) :
    finish s now j ≤ start s now k := by
  induction k with
  | zero => omega
  | succ k ih =>
      rcases Nat.lt_succ_iff_lt_or_eq.mp hjk with hEarlier | rfl
      · calc
          finish s now j ≤ start s now k := ih hEarlier
          _ ≤ finish s now k := by
            rw [finish_eq_start_add]
            exact le_add_of_nonneg_right hs
          _ ≤ start s now (k + 1) := le_max_right _ _
      · exact le_max_right _ _

/-- No two jobs are on the link at one time. -/
theorem disjoint_slots {j k : ℕ} (hjk : j ≠ k) :
    Disjoint (Set.Ico (start s now j) (finish s now j))
      (Set.Ico (start s now k) (finish s now k)) := by
  rw [Set.disjoint_left]
  rintro t ⟨hStartJ, hFinishJ⟩ ⟨hStartK, hFinishK⟩
  rcases Nat.lt_or_gt_of_ne hjk with hLt | hGt
  · have hOrder := finish_le_start now hs hLt
    exact absurd (hOrder.trans hStartK) (not_le.mpr hFinishJ)
  · have hOrder := finish_le_start now hs hGt
    exact absurd (hOrder.trans hStartJ) (not_le.mpr hFinishK)

end Slots

/-- Up to the departure of job `k` the link has been serving or idle since the
first arrival. -/
theorem sum_idle (k : ℕ) :
    ∑ i ∈ range (k + 1), idle s now i =
      finish s now k - now 0 - (k + 1) • s := by
  induction k with
  | zero => simp [idle]
  | succ k ih =>
      rw [sum_range_succ, ih, finish_eq_start_add s now (k + 1),
        start_succ_eq_finish_add_idle, succ_nsmul s (k + 1)]
      abel

end MioBench.Lib.SerialLink
