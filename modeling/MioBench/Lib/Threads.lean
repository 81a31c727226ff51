import Mathlib.Algebra.BigOperators.Group.Finset.Basic
import Mathlib.Algebra.Order.BigOperators.Group.Finset

/-!
# Sums over a family of threads

A quantity of a concurrent program is often a sum over threads `0 .. n-1` of
something each thread contributes, and one step moves one thread.  This module
gives the step rule for such a sum and the counting facts derived from it.
-/

namespace MioBench.Lib

open Finset

/-- When only the contribution of thread `i` changes, the sum changes by that
one term. -/
theorem sum_range_change {f g : Nat → Nat} {n i : Nat} (hi : i < n)
    (hOther : ∀ j, j ≠ i → g j = f j) :
    ∑ j ∈ range n, g j + f i = ∑ j ∈ range n, f j + g i := by
  have hMem : i ∈ range n := mem_range.mpr hi
  have hRest : ∑ j ∈ (range n).erase i, g j =
      ∑ j ∈ (range n).erase i, f j :=
    sum_congr rfl fun j hj => hOther j (ne_of_mem_erase hj)
  have hf := add_sum_erase (range n) f hMem
  have hg := add_sum_erase (range n) g hMem
  omega

/-- A thread outside the family does not move the sum. -/
theorem sum_range_same {f g : Nat → Nat} {n : Nat}
    (h : ∀ j, j < n → g j = f j) :
    ∑ j ∈ range n, g j = ∑ j ∈ range n, f j :=
  sum_congr rfl fun j hj => h j (mem_range.mp hj)

/-- How many of the threads below `n` satisfy `p`. -/
def tally (n : Nat) (p : Nat → Bool) : Nat := ∑ i ∈ range n, (p i).toNat

theorem tally_le (n : Nat) (p : Nat → Bool) : tally n p ≤ n := by
  have hEach : ∀ i ∈ range n, (p i).toNat ≤ 1 := fun i _ => Bool.toNat_le (p i)
  simpa [tally] using sum_le_card_nsmul (range n) _ 1 hEach

/-- The step rule for a tally: thread `i` alone changes. -/
theorem tally_change {n i : Nat} {p q : Nat → Bool} (hi : i < n)
    (hOther : ∀ j, j ≠ i → q j = p j) :
    tally n q + (p i).toNat = tally n p + (q i).toNat :=
  sum_range_change (f := fun j => (p j).toNat) (g := fun j => (q j).toNat) hi
    fun j hj => by rw [hOther j hj]

theorem tally_congr {n : Nat} {p q : Nat → Bool}
    (h : ∀ j, j < n → q j = p j) : tally n q = tally n p :=
  sum_range_same fun j hj => by rw [h j hj]

/-- A tally below `n` misses some thread. -/
theorem exists_of_tally_lt {n : Nat} {p : Nat → Bool} (h : tally n p < n) :
    ∃ i, i < n ∧ p i = false := by
  by_contra hNone
  push Not at hNone
  have hAll : ∀ i ∈ range n, (p i).toNat = 1 := by
    intro i hi
    have hp : p i = true := by simpa using hNone i (mem_range.mp hi)
    simp [hp]
  have hSum : tally n p = n := by
    unfold tally
    rw [sum_congr rfl hAll]
    simp
  omega

/-- A full tally has everyone. -/
theorem all_of_tally_eq {n : Nat} {p : Nat → Bool} (h : tally n p = n) :
    ∀ i, i < n → p i = true := by
  intro i hi
  by_contra hp
  have hOff : p i = false := by simpa using hp
  let q : Nat → Bool := fun j => if j = i then true else p j
  have hq : q i = true := by simp [q]
  have hChange := tally_change (p := p) (q := q) hi
    (fun j hj => by simp [q, hj])
  have hLe := tally_le n q
  rw [hq, hOff, Bool.toNat_true, Bool.toNat_false] at hChange
  omega

theorem tally_eq_of_all {n : Nat} {p : Nat → Bool}
    (h : ∀ i, i < n → p i = true) : tally n p = n := by
  have hSame : tally n p = tally n fun _ => true := tally_congr h
  rw [hSame]
  simp [tally]

end MioBench.Lib
