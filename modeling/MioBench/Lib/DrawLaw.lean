import Mathlib.Algebra.BigOperators.Fin
import Mathlib.Data.List.Rotate
import Mathlib.Probability.Distributions.Uniform
import MioBench.Lib.Shuffle

/-!
# The law of the draws

The draws of a shuffle are independent, and each is uniform on its range.  All
sequences of draws are then equally likely, and how likely a result is depends
only on how many sequences lead to it.
-/

namespace MioBench.Lib

open scoped Nat ENNReal

noncomputable section

/-- Independent draws, each uniform on its range: the probability of a sequence
is the product of those of its draws. -/
def drawLaw (last : ℕ) : PMF (Draws last) :=
  PMF.ofFintype
    (fun d => ∏ i : Fin last, PMF.uniformOfFintype (Fin (i.val + 2)) (d i)) <| by
    have hEach : ∀ i : Fin last,
        ∑ j, PMF.uniformOfFintype (Fin (i.val + 2)) j = 1 := fun i => by
      have hTotal := PMF.tsum_coe (PMF.uniformOfFintype (Fin (i.val + 2)))
      rwa [tsum_fintype] at hTotal
    have hProd := Finset.prod_univ_sum (fun i : Fin last => Finset.univ)
      fun i j => PMF.uniformOfFintype (Fin (i.val + 2)) j
    rw [Fintype.piFinset_univ] at hProd
    rw [← hProd, Finset.prod_congr rfl fun i _ => hEach i, Finset.prod_const_one]

/-- All sequences of draws are equally likely. -/
theorem drawLaw_apply (last : ℕ) (d : Draws last) :
    drawLaw last d = ((last + 1)! : ℝ≥0∞)⁻¹ := by
  show ∏ i : Fin last, PMF.uniformOfFintype (Fin (i.val + 2)) (d i) = _
  simp only [PMF.uniformOfFintype_apply, Fintype.card_fin]
  rw [Fin.prod_univ_eq_prod_range (fun i => ((i + 2 : ℕ) : ℝ≥0∞)⁻¹) last]
  induction last with
  | zero => simp
  | succ last ih =>
      rw [Finset.prod_range_succ, ih fun i => d i.castSucc,
        Nat.factorial_succ (last + 1), Nat.cast_mul, mul_comm,
        ENNReal.mul_inv (Or.inr (ENNReal.natCast_ne_top _))
          (Or.inl (ENNReal.natCast_ne_top _))]

/-- A result is as likely as there are sequences of draws that lead to it. -/
theorem map_drawLaw_apply {β : Type*} [DecidableEq β] {last : ℕ}
    (f : Draws last → β) (b : β) :
    (drawLaw last).map f b =
      Fintype.card {d // f d = b} * ((last + 1)! : ℝ≥0∞)⁻¹ := by
  rw [PMF.map_apply, tsum_fintype, Fintype.card_subtype, ← nsmul_eq_mul,
    ← Finset.sum_const, Finset.sum_filter]
  refine Finset.sum_congr rfl fun d _ => ?_
  simp only [drawLaw_apply, eq_comm]

/-- Each permutation of a list without duplicates is the result of the shuffle
with the same probability. -/
theorem map_shuffle_apply {α : Type*} [DecidableEq α] {last : ℕ} {l p : List α}
    (hl : l.Nodup) (hLength : l.length = last + 1) (hPerm : p.Perm l) :
    (drawLaw last).map (fun d => shuffle d.draw last l) p =
      ((last + 1)! : ℝ≥0∞)⁻¹ := by
  have hOne : Fintype.card {d : Draws last // shuffle d.draw last l = p} = 1 := by
    obtain ⟨d, hd, hUnique⟩ :=
      (shuffle_bijective hl hLength).existsUnique ⟨p, hPerm⟩
    refine Fintype.card_eq_one_iff.mpr
      ⟨⟨d, congrArg Subtype.val hd⟩, fun d' => Subtype.ext ?_⟩
    exact hUnique d'.val (Subtype.ext d'.property)
  rw [map_drawLaw_apply, hOne, Nat.cast_one, one_mul]

end

/-! ## Rotations -/

/-- The first entry tells the rotations of a list without duplicates apart. -/
theorem eq_of_isRotated_of_head? {α : Type*} {l l' : List α} (hl : l.Nodup)
    (hRotated : l.IsRotated l') (hHead : l'.head? = l.head?) : l' = l := by
  obtain ⟨k, rfl⟩ := hRotated
  cases hLength : l.length with
  | zero => simp [List.length_eq_zero_iff.mp hLength]
  | succ n =>
      have hPos : 0 < l.length := by omega
      have hLt : k % l.length < l.length := Nat.mod_lt k hPos
      rw [← List.rotate_mod] at hHead ⊢
      rw [List.head?_rotate hLt, List.head?_eq_getElem?] at hHead
      have hZero := eq_of_getElem?_eq hl hLt hHead
      rw [hZero, List.rotate_zero]

/-- A rotation of a list without duplicates has as many rotations as entries. -/
theorem card_isRotated {α : Type*} [DecidableEq α] {l : List α} (hl : l.Nodup)
    (hNil : l ≠ []) :
    Fintype.card {p // p ∈ l.cyclicPermutations.toFinset} = l.length := by
  rw [Fintype.card_coe, List.toFinset_card_of_nodup hl.cyclicPermutations,
    List.length_cyclicPermutations_of_ne_nil l hNil]

end MioBench.Lib
