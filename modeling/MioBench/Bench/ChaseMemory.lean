import MioBench.Bench.PointerChase
import MioBench.Lib.Memory

/-!
# The links of the pointer chase in memory

`PointerChase` keeps one pointer an address.  Here the links are what they are
in the program, eight bytes at the start of each node, in the memory that the
load threads write to as well.  Read back, they are the links of
`PointerChase`, and they stay so as long as nobody writes to the chase region.
-/

namespace MioBench.Bench

open MioBench.Lib

/-- `*(void **)p`. -/
def loadPointer (m : Memory) (p : Nat) : Nat := leValue (m.read p 8)

/-- `*(void **)p = v`. -/
def storePointer (m : Memory) (p v : Nat) : Memory := m.write p (leBytes 8 v)

/-- The loop that builds the circular linked list. -/
def linkNodes (chase_data num_nodes : Nat) (indices : List Nat) (m : Memory) :
    Memory :=
  (List.range num_nodes).foldl (fun m i =>
    storePointer m (nodeAddr chase_data (indices.getD i 0))
      (nodeAddr chase_data (indices.getD ((i + 1) % num_nodes) 0))) m

theorem loadPointer_congr {m m' : Memory} {p : Nat}
    (hSame : ∀ a, p ≤ a → a < p + 8 → m' a = m a) :
    loadPointer m' p = loadPointer m p := by
  have hRead : m'.read p 8 = m.read p 8 := by
    refine List.map_congr_left fun i hi => ?_
    have hLt := List.mem_range.mp hi
    exact hSame (p + i) (by omega) (by omega)
  rw [loadPointer, hRead, loadPointer]

theorem loadPointer_store_apart (m : Memory) {p q : Nat} (v : Nat)
    (hApart : p + 8 ≤ q ∨ q + 8 ≤ p) :
    loadPointer (storePointer m p v) q = loadPointer m q := by
  refine loadPointer_congr fun a hLow hHigh => ?_
  refine Memory.write_outside m p (leBytes 8 v) ?_
  rw [length_leBytes]
  omega

theorem loadPointer_store_self (m : Memory) (p : Nat) {v : Nat}
    (hv : v < 2 ^ 64) : loadPointer (storePointer m p v) p = v := by
  have hRead : (storePointer m p v).read p 8 = leBytes 8 v := by
    refine List.ext_getElem (by simp) fun i hi hi' => ?_
    rw [Memory.length_read] at hi
    have hByte := Memory.write_inside m p (leBytes 8 v) (i := i)
      (by rw [length_leBytes]; omega)
    simp only [Memory.read, List.getElem_map, List.getElem_range]
    rw [storePointer, hByte, List.getD_eq_getElem _ _ hi']
  rw [loadPointer, hRead, leValue_leBytes]
  exact Nat.mod_eq_of_lt (by omega)

/-- Read back, the links in memory are those of `buildLinks`. -/
theorem loadPointer_linkNodes {chase_data num_nodes : Nat} {indices : List Nat}
    (m : Memory) (before : Nat → Nat)
    (hPerm : indices.Perm (List.range num_nodes))
    (hFits : chase_data + num_nodes * nodeSize ≤ 2 ^ 64) {node : Nat}
    (hNode : node < num_nodes) :
    loadPointer (linkNodes chase_data num_nodes indices m)
        (nodeAddr chase_data node) =
      buildLinks chase_data num_nodes indices before
        (nodeAddr chase_data node) := by
  have hAddr : ∀ i, i < num_nodes →
      nodeAddr chase_data (indices.getD i 0) < 2 ^ 64 := by
    intro i hi
    have hLt := getD_lt_of_perm_range hPerm hi
    unfold nodeAddr nodeSize at *
    omega
  -- After `k` rounds the nodes at the first `k` positions are linked.
  have hLoop : ∀ i, i < num_nodes →
      loadPointer (linkNodes chase_data num_nodes indices m)
          (nodeAddr chase_data (indices.getD i 0)) =
        nodeAddr chase_data (indices.getD ((i + 1) % num_nodes) 0) := by
    refine foldl_range_invariant (fun k (m : Memory) =>
      ∀ i, i < k → loadPointer m (nodeAddr chase_data (indices.getD i 0)) =
        nodeAddr chase_data (indices.getD ((i + 1) % num_nodes) 0)) ?_ ?_
    · intro i hNone
      omega
    · intro k m hk ih i hi
      by_cases hLast : i = k
      · rw [hLast]
        exact loadPointer_store_self m _ (hAddr _ (Nat.mod_lt _ (by omega)))
      · have hOther : indices.getD i 0 ≠ indices.getD k 0 := fun hEq =>
          hLast (getD_inj_of_perm_range hPerm (by omega) hk hEq)
        rw [loadPointer_store_apart m _ (by unfold nodeAddr nodeSize; omega)]
        exact ih i (by omega)
  obtain ⟨i, hi, rfl⟩ := exists_getD_of_perm_range hPerm hNode
  rw [hLoop i hi, buildLinks_node chase_data before hPerm hi]

end MioBench.Bench
