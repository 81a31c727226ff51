import MioBench.Lib.Circuit
import MioBench.Lib.ForLoop
import MioBench.Lib.Shuffle

/-!
# The pointer chase

`measurePointerChaseWithLoad` shuffles the numbers of its nodes, links each
node to the one after it in the shuffled order and the last to the first, and
lets one thread follow the links from node 0.  A link is the one pointer at the
start of a node; memory is modelled as far as these pointers go, by address.
-/

namespace MioBench.Bench

open MioBench.Lib

/-- `NODE_SIZE`. -/
def nodeSize : Nat := 64

/-- `(char *)chase_data + index * NODE_SIZE`. -/
def nodeAddr (chase_data index : Nat) : Nat := chase_data + index * nodeSize

/-- `indices` after the shuffle; `draw i` is what `dis(gen)` returned in round
`i`. -/
def shuffledIndices (num_nodes : Nat) (draw : Nat → Nat) : List Nat :=
  shuffle draw (num_nodes - 1) (List.range num_nodes)

/-- The loop that builds the circular linked list, on the pointers in
memory. -/
def buildLinks (chase_data num_nodes : Nat) (indices : List Nat)
    (pointers : Nat → Nat) : Nat → Nat :=
  (List.range num_nodes).foldl (fun pointers i =>
    Function.update pointers (nodeAddr chase_data (indices.getD i 0))
      (nodeAddr chase_data (indices.getD ((i + 1) % num_nodes) 0))) pointers

/-- `current` after so many iterations of the chase. -/
def chase (pointers : Nat → Nat) (chase_data iterations : Nat) : Nat :=
  pointers^[iterations] chase_data

/-- The links as a map on the numbers of the nodes. -/
def nextNode (chase_data : Nat) (pointers : Nat → Nat) (node : Nat) : Nat :=
  (pointers (nodeAddr chase_data node) - chase_data) / nodeSize

theorem nodeAddr_injective (chase_data : Nat) :
    Function.Injective (nodeAddr chase_data) := by
  intro a b hEq
  unfold nodeAddr nodeSize at hEq
  omega

theorem nextNode_eq {chase_data node next : Nat} {pointers : Nat → Nat}
    (h : pointers (nodeAddr chase_data node) = nodeAddr chase_data next) :
    nextNode chase_data pointers node = next := by
  rw [nextNode, h, nodeAddr, nodeSize]
  omega

section Links

variable {num_nodes : Nat} {indices : List Nat}

/-- Every node links to the one after it in the shuffled order. -/
theorem buildLinks_node (chase_data : Nat) (before : Nat → Nat)
    (hPerm : indices.Perm (List.range num_nodes)) {i : Nat}
    (hi : i < num_nodes) :
    buildLinks chase_data num_nodes indices before
        (nodeAddr chase_data (indices.getD i 0)) =
      nodeAddr chase_data (indices.getD ((i + 1) % num_nodes) 0) := by
  -- After `k` rounds the nodes at the first `k` positions are linked.
  have hLoop : ∀ i, i < num_nodes →
      buildLinks chase_data num_nodes indices before
          (nodeAddr chase_data (indices.getD i 0)) =
        nodeAddr chase_data (indices.getD ((i + 1) % num_nodes) 0) := by
    refine foldl_range_invariant (fun k (pointers : Nat → Nat) =>
      ∀ i, i < k → pointers (nodeAddr chase_data (indices.getD i 0)) =
        nodeAddr chase_data (indices.getD ((i + 1) % num_nodes) 0)) ?_ ?_
    · intro i hNone
      omega
    · intro k pointers hk ih i hi
      by_cases hLast : i = k
      · rw [hLast, Function.update_self]
      · have hOther : nodeAddr chase_data (indices.getD i 0) ≠
            nodeAddr chase_data (indices.getD k 0) := by
          intro hEq
          exact hLast (getD_inj_of_perm_range hPerm (by omega) hk
            (nodeAddr_injective chase_data hEq))
        rw [Function.update_of_ne hOther]
        exact ih i (by omega)
  exact hLoop i hi

/-- The links lead once round the nodes, in the shuffled order. -/
theorem circuit_nextNode (chase_data : Nat) (before : Nat → Nat)
    (hPerm : indices.Perm (List.range num_nodes)) :
    Circuit (nextNode chase_data
        (buildLinks chase_data num_nodes indices before)) num_nodes
      fun i => indices.getD i 0 where
  next _ hi := nextNode_eq (buildLinks_node chase_data before hPerm hi)
  distinct _ _ hi hj hEq := getD_inj_of_perm_range hPerm hi hj hEq

/-- The pointer of a node is the address of the next node. -/
theorem buildLinks_eq_nextNode (chase_data : Nat) (before : Nat → Nat)
    (hPerm : indices.Perm (List.range num_nodes)) {node : Nat}
    (hNode : node < num_nodes) :
    nextNode chase_data (buildLinks chase_data num_nodes indices before) node <
        num_nodes ∧
      buildLinks chase_data num_nodes indices before (nodeAddr chase_data node) =
        nodeAddr chase_data (nextNode chase_data
          (buildLinks chase_data num_nodes indices before) node) := by
  obtain ⟨i, hi, rfl⟩ := exists_getD_of_perm_range hPerm hNode
  have hLink := buildLinks_node chase_data before hPerm hi
  rw [nextNode_eq hLink]
  exact ⟨getD_lt_of_perm_range hPerm (Nat.mod_lt _ (by omega)), hLink⟩

/-- The chase goes from node to node. -/
theorem chase_eq (chase_data : Nat) (before : Nat → Nat)
    (hPerm : indices.Perm (List.range num_nodes)) (hNodes : 0 < num_nodes)
    (k : Nat) :
    (nextNode chase_data
        (buildLinks chase_data num_nodes indices before))^[k] 0 < num_nodes ∧
      chase (buildLinks chase_data num_nodes indices before) chase_data k =
        nodeAddr chase_data ((nextNode chase_data
          (buildLinks chase_data num_nodes indices before))^[k] 0) := by
  induction k with
  | zero => exact ⟨hNodes, by simp [chase, nodeAddr]⟩
  | succ k ih =>
      obtain ⟨hLt, hCurrent⟩ := ih
      obtain ⟨hNext, hLink⟩ :=
        buildLinks_eq_nextNode chase_data before hPerm hLt
      rw [chase] at hCurrent
      rw [Function.iterate_succ_apply', chase, Function.iterate_succ_apply',
        hCurrent]
      exact ⟨hNext, hLink⟩

end Links

theorem shuffledIndices_perm (num_nodes : Nat) (draw : Nat → Nat) :
    (shuffledIndices num_nodes draw).Perm (List.range num_nodes) :=
  shuffle_perm draw _ _

/-- For every number of nodes and all draws, the links make a map on the nodes
that goes through all of them before it is back at node 0, and the chase
follows it. -/
theorem pointerChase_one_cycle (chase_data num_nodes : Nat) (draw : Nat → Nat)
    (before : Nat → Nat) (hNodes : 0 < num_nodes) :
    let pointers := buildLinks chase_data num_nodes
      (shuffledIndices num_nodes draw) before
    let next := nextNode chase_data pointers
    (∀ node, node < num_nodes → next node < num_nodes ∧
      pointers (nodeAddr chase_data node) = nodeAddr chase_data (next node)) ∧
    (∀ k, chase pointers chase_data k = nodeAddr chase_data (next^[k] 0)) ∧
    (∀ j k, j < k → k < num_nodes → next^[j] 0 ≠ next^[k] 0) ∧
    next^[num_nodes] 0 = 0 ∧
    Function.minimalPeriod next 0 = num_nodes := by
  intro pointers next
  have hPerm := shuffledIndices_perm num_nodes draw
  have hCircuit := circuit_nextNode chase_data before hPerm
  obtain ⟨s, hs, hStart⟩ := exists_getD_of_perm_range hPerm hNodes
  refine ⟨fun node hNode => buildLinks_eq_nextNode chase_data before hPerm hNode,
    fun k => (chase_eq chase_data before hPerm hNodes k).2, ?_, ?_, ?_⟩
  · intro j k hjk hk
    have hNe := hCircuit.iterate_ne hs hjk hk
    rw [hStart] at hNe
    exact hNe
  · have hBack := hCircuit.iterate_self hs
    rw [hStart] at hBack
    exact hBack
  · have hPeriod := hCircuit.minimalPeriod_eq hs
    rw [hStart] at hPeriod
    exact hPeriod

/-- Four nodes, shuffled to 3, 2, 0, 1. -/
theorem pointerChase_one_cycle_four :
    let pointers := buildLinks 4096 4 (shuffledIndices 4 fun i => i / 3) fun _ => 0
    shuffledIndices 4 (fun i => i / 3) = [3, 2, 0, 1] ∧
      Function.minimalPeriod (nextNode 4096 pointers) 0 = 4 :=
  ⟨by decide, (pointerChase_one_cycle 4096 4 (fun i => i / 3) (fun _ => 0)
    (by decide)).2.2.2.2⟩

end MioBench.Bench
