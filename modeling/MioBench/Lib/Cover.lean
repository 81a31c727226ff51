import Mathlib.Algebra.BigOperators.Group.Finset.Piecewise
import Mathlib.Algebra.Order.BigOperators.Group.Finset
import Mathlib.Algebra.Ring.Nat
import Mathlib.Data.Nat.Cast.Basic
import Mathlib.Order.Interval.Finset.Nat

/-!
# Windows of equal width

How often the windows `[start, start + width)` of a list of starts cover a
point.  Windows that cover everything and are only just long enough cover
everything once.
-/

namespace MioBench.Lib

open Finset

/-- How many of the windows cover `x`. -/
def covering (width : Nat) (starts : List Nat) (x : Nat) : Nat :=
  starts.countP fun start => decide (start ≤ x ∧ x < start + width)

theorem covering_flatMap {α : Type*} (width : Nat) (l : List α)
    (f : α → List Nat) (x : Nat) :
    covering width (l.flatMap f) x =
      (l.map fun a => covering width (f a) x).sum :=
  List.countP_flatMap

theorem covering_pos {width start x : Nat} {starts : List Nat}
    (hMem : start ∈ starts) (hLow : start ≤ x) (hHigh : x < start + width) :
    0 < covering width starts x :=
  List.countP_pos_iff.mpr ⟨start, hMem, by simp [hLow, hHigh]⟩

/-- Windows inside `[0, n)` cover as many points as they are long. -/
theorem sum_covering {width n : Nat} {starts : List Nat}
    (hInside : ∀ start ∈ starts, start + width ≤ n) :
    ∑ x ∈ range n, covering width starts x = starts.length * width := by
  induction starts with
  | nil => simp [covering]
  | cons start starts ih =>
      have hTail := ih fun s hs => hInside s (by simp [hs])
      have hRoom := hInside start (by simp)
      have hWindow : ∑ x ∈ range n,
          (if start ≤ x ∧ x < start + width then 1 else 0) = width := by
        rw [← card_filter]
        have hFilter : (range n).filter (fun x => start ≤ x ∧ x < start + width) =
            Ico start (start + width) := by
          ext x
          simp only [mem_filter, mem_range, mem_Ico]
          omega
        rw [hFilter, Nat.card_Ico]
        omega
      have hCons : ∀ x, covering width (start :: starts) x =
          covering width starts x +
            (if start ≤ x ∧ x < start + width then 1 else 0) := by
        intro x
        simp [covering, List.countP_cons]
      simp only [hCons]
      rw [sum_add_distrib, hTail, hWindow, List.length_cons, Nat.succ_mul]

/-- Windows inside `[0, n)` that cover every point of it and are `n` long in
all cover every point once. -/
theorem covering_eq_one {width n : Nat} {starts : List Nat}
    (hInside : ∀ start ∈ starts, start + width ≤ n)
    (hLength : starts.length * width = n)
    (hAll : ∀ x, x < n → 0 < covering width starts x) {x : Nat} (hx : x < n) :
    covering width starts x = 1 := by
  have hSum : ∑ x ∈ range n, 1 = ∑ x ∈ range n, covering width starts x := by
    rw [sum_covering hInside, hLength]
    simp
  have hEach := (sum_eq_sum_iff_of_le
    (fun y hy => hAll y (mem_range.mp hy))).mp hSum
  exact (hEach x (mem_range.mpr hx)).symm

end MioBench.Lib
