import MioBench.Bench.PointerChase
import MioBench.Lib.DrawLaw

/-!
# All chase orders are equally likely

The order of a chase is the shuffled order, entered at node 0.  Rotations of
the shuffled order give the same chase, so that each chase has as many shuffles
behind it as there are nodes.
-/

namespace MioBench.Bench

open MioBench.Lib
open scoped Nat ENNReal

/-- The addresses that a round of the chase loads from, in order. -/
def chaseOrder (chase_data num_nodes : Nat) (indices : List Nat)
    (before : Nat → Nat) : List Nat :=
  (List.range num_nodes).map
    (chase (buildLinks chase_data num_nodes indices before) chase_data)

section Order

variable {num_nodes : Nat} {indices c : List Nat}

/-- The chase reads the shuffled order from the position of node 0 on. -/
theorem chaseOrder_eq_rotate (chase_data : Nat) (before : Nat → Nat)
    (hPerm : indices.Perm (List.range num_nodes)) (hNodes : 0 < num_nodes) :
    ∃ s, (indices.rotate s).head? = some 0 ∧
      chaseOrder chase_data num_nodes indices before =
        (indices.rotate s).map (nodeAddr chase_data) := by
  have hLength : indices.length = num_nodes := by simpa using hPerm.length_eq
  have hCircuit := circuit_nextNode chase_data before hPerm
  obtain ⟨s, hs, hStart⟩ := exists_getD_of_perm_range hPerm hNodes
  rw [List.getD_eq_getElem _ _ (by omega)] at hStart
  refine ⟨s, ?_, List.ext_getElem (by simp [chaseOrder, hLength]) ?_⟩
  · rw [List.head?_rotate (by omega), List.getElem?_eq_getElem (by omega), hStart]
  · intro k hk hk'
    have hLt : (s + k) % num_nodes < num_nodes := Nat.mod_lt _ hNodes
    have hIterate := hCircuit.iterate hs k
    rw [List.getD_eq_getElem _ _ (by omega), hStart] at hIterate
    simp only [chaseOrder, List.getElem_map, List.getElem_rotate,
      List.getElem_range]
    rw [(chase_eq chase_data before hPerm hNodes k).2, hIterate,
      List.getD_eq_getElem _ _ (by omega)]
    congr 2
    rw [hLength, Nat.add_comm]

/-- A chase order comes from the rotations of it, and from nothing else. -/
theorem chaseOrder_eq_iff (chase_data : Nat) (before : Nat → Nat)
    (hPerm : indices.Perm (List.range num_nodes)) (hNodes : 0 < num_nodes)
    (hc : c.Perm (List.range num_nodes)) (hHead : c.head? = some 0) :
    chaseOrder chase_data num_nodes indices before =
        c.map (nodeAddr chase_data) ↔ indices.IsRotated c := by
  obtain ⟨s, hStart, hOrder⟩ :=
    chaseOrder_eq_rotate chase_data before hPerm hNodes
  rw [hOrder]
  constructor
  · intro hEq
    exact ⟨s, List.map_injective_iff.mpr (nodeAddr_injective chase_data) hEq⟩
  · intro hRotated
    have hSame : indices.rotate s = c := by
      have hNodup : c.Nodup := hc.nodup_iff.mpr List.nodup_range
      refine eq_of_isRotated_of_head? hNodup ?_ (hStart.trans hHead.symm)
      exact hRotated.symm.trans ⟨s, rfl⟩
    rw [hSame]

end Order

/-- The shuffle is a bijection between the draws and the orders of the nodes. -/
theorem shuffledIndices_bijective (last : Nat) :
    Function.Bijective fun d : Draws last =>
      (⟨shuffledIndices (last + 1) d.draw, shuffledIndices_perm _ _⟩ :
        {p : List Nat // p.Perm (List.range (last + 1))}) :=
  shuffle_bijective List.nodup_range List.length_range

/-- The draws that give one chase order: one for each rotation of it. -/
theorem card_chaseOrder_eq (chase_data : Nat) (before : Nat → Nat) {last : Nat}
    {c : List Nat} (hc : c.Perm (List.range (last + 1)))
    (hHead : c.head? = some 0) :
    Fintype.card {d : Draws last //
        chaseOrder chase_data (last + 1) (shuffledIndices (last + 1) d.draw) before =
          c.map (nodeAddr chase_data)} = last + 1 := by
  have hNodup : c.Nodup := hc.nodup_iff.mpr List.nodup_range
  have hLength : c.length = last + 1 := by simpa using hc.length_eq
  have hRotated : ∀ d : Draws last,
      chaseOrder chase_data (last + 1) (shuffledIndices (last + 1) d.draw) before =
        c.map (nodeAddr chase_data) ↔
      shuffledIndices (last + 1) d.draw ∈ c.cyclicPermutations.toFinset := by
    intro d
    rw [chaseOrder_eq_iff chase_data before (shuffledIndices_perm _ _)
      last.succ_pos hc hHead, List.mem_toFinset, List.mem_cyclicPermutations_iff]
  have hRotations := card_isRotated hNodup (by rintro rfl; simp at hHead)
  refine Eq.trans (Fintype.card_of_bijective
    (f := fun d => ⟨shuffledIndices (last + 1) d.val.draw,
      (hRotated d.val).mp d.property⟩) ⟨?_, ?_⟩) (hRotations.trans hLength)
  · intro d d' hEq
    have hShuffle := congrArg Subtype.val hEq
    exact Subtype.ext
      ((shuffledIndices_bijective last).injective (Subtype.ext hShuffle))
  · rintro ⟨p, hp⟩
    have hCyclic := List.mem_cyclicPermutations_iff.mp (List.mem_toFinset.mp hp)
    obtain ⟨d, hd⟩ :=
      (shuffledIndices_bijective last).surjective ⟨p, hCyclic.perm.trans hc⟩
    have hShuffle : shuffledIndices (last + 1) d.draw = p :=
      congrArg Subtype.val hd
    refine ⟨⟨d, (hRotated d).mpr (by rwa [hShuffle])⟩, Subtype.ext hShuffle⟩

/-- The shuffle is a bijection between the draws and the orders of the nodes.
When the draws are uniform and independent, all shuffled orders have the same
probability, and so have all orders of the chase, which begin with node 0 and
go through all nodes. -/
theorem shuffle_unbiased (chase_data last : Nat) (before : Nat → Nat) :
    (Function.Bijective fun d : Draws last =>
      (⟨shuffledIndices (last + 1) d.draw, shuffledIndices_perm _ _⟩ :
        {p : List Nat // p.Perm (List.range (last + 1))})) ∧
    (∀ p : List Nat, p.Perm (List.range (last + 1)) →
      (drawLaw last).map (fun d => shuffledIndices (last + 1) d.draw) p =
        ((last + 1)! : ℝ≥0∞)⁻¹) ∧
    let order := fun d : Draws last => chaseOrder chase_data (last + 1)
      (shuffledIndices (last + 1) d.draw) before
    (∀ d, ∃ c : List Nat, c.Perm (List.range (last + 1)) ∧ c.head? = some 0 ∧
      order d = c.map (nodeAddr chase_data)) ∧
    (∀ c : List Nat, c.Perm (List.range (last + 1)) → c.head? = some 0 →
      (drawLaw last).map order (c.map (nodeAddr chase_data)) =
        (last ! : ℝ≥0∞)⁻¹) := by
  refine ⟨shuffledIndices_bijective last,
    fun p hp => map_shuffle_apply List.nodup_range List.length_range hp,
    fun d => ?_, fun c hc hHead => ?_⟩
  · have hPerm := shuffledIndices_perm (last + 1) d.draw
    obtain ⟨s, hStart, hOrder⟩ :=
      chaseOrder_eq_rotate chase_data before hPerm last.succ_pos
    exact ⟨_, (List.rotate_perm _ s).trans hPerm, hStart, hOrder⟩
  · rw [map_drawLaw_apply, card_chaseOrder_eq chase_data before hc hHead,
      Nat.factorial_succ, Nat.cast_mul, ENNReal.mul_inv
        (Or.inr (ENNReal.natCast_ne_top _)) (Or.inl (ENNReal.natCast_ne_top _)),
      ← mul_assoc, ENNReal.mul_inv_cancel (by simp) (ENNReal.natCast_ne_top _),
      one_mul]

end MioBench.Bench
