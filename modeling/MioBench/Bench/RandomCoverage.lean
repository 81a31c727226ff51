import MioBench.Bench.RandomBlocks
import MioBench.Lib.Shuffle

/-!
# What the random block tests touch

A block starts at `index * BLOCK_SIZE` rounded down to a whole `int32_t`, and
its lanes end before `BLOCK_SIZE` rounded down: whatever the block size, two
roundings never make neighbours overlap.  So the blocks can be gone through in
any order, by any number of threads, and the memory at the end says for each
block at which place of the permutation it stood.
-/

namespace MioBench.Bench

open MioBench.Lib

/-- Where lane `j` of block `index` is. -/
def laneAddr (thread_data BLOCK_SIZE index j : Nat) : Nat :=
  thread_data + 4 * (index * BLOCK_SIZE / 4 + 8 * j)

section Lanes

variable {P B index index' j j' : Nat}

theorem index_mul_le (hIndex : index < P / B) : index * B + B ≤ P := by
  rw [← Nat.succ_mul]
  exact (Nat.mul_le_mul_right B hIndex).trans (Nat.div_mul_le_self P B)

/-- A lane lies in the whole `int32_t` of the slice. -/
theorem laneAddr_inside (thread_data : Nat) (hIndex : index < P / B)
    (hj : j < B / 4 / 8) :
    thread_data ≤ laneAddr thread_data B index j ∧
      laneAddr thread_data B index j + 32 ≤ thread_data + 4 * (P / 4) := by
  have hBlock := index_mul_le hIndex
  unfold laneAddr
  omega

/-- The lanes of a block end before the next block starts. -/
theorem laneAddr_lt (thread_data : Nat) (hIndex : index < index')
    (hj : j < B / 4 / 8) :
    laneAddr thread_data B index j + 32 ≤ laneAddr thread_data B index' j' := by
  have hNext : (index + 1) * B ≤ index' * B := Nat.mul_le_mul_right B hIndex
  rw [Nat.succ_mul] at hNext
  unfold laneAddr
  omega

end Lanes

/-- The accesses of a loop are lanes of 32 bytes, pairwise disjoint, inside the
whole `int32_t` of the slice, and as many as the lanes of its blocks. -/
structure SliceLanes (thread_data per_thread_size BLOCK_SIZE : Nat)
    (loop : ThreadLoop) : Prop where
  apart : loop.accesses.Pairwise Access.Apart
  inside : ∀ a ∈ loop.accesses, a.bytes = 32 ∧ thread_data ≤ a.addr ∧
    a.addr + 32 ≤ thread_data + 4 * (per_thread_size / 4)
  count : loop.accesses.length =
    per_thread_size / BLOCK_SIZE * (BLOCK_SIZE / 4 / 8)

section Loop

variable {thread_data P B : Nat} {bypass_cache : Bool}
  {stored : Nat → Option (List (BitVec 32))} {order : List Nat}

theorem blockAccesses_eq {index : Nat} (hIndex : index < P / B)
    (hSize : P < 2 ^ 64) (lanes : Option (List (BitVec 32))) :
    blockAccesses thread_data B bypass_cache lanes index =
      (List.range (B / 4 / 8)).map fun j =>
        { addr := laneAddr thread_data B index j
          bytes := 32
          nonTemporal := bypass_cache
          stored := lanes } := by
  have hBlock := index_mul_le hIndex
  have hNoWrap : index * B % 2 ^ 64 = index * B := Nat.mod_eq_of_lt (by omega)
  rw [blockAccesses, hNoWrap, laneStarts_eq, List.map_map]
  simp [Function.comp_def, laneAddr]

theorem blockLoop_accesses :
    (blockLoop thread_data (P / B) B bypass_cache stored order).accesses =
      (List.range (P / B)).flatMap fun i =>
        blockAccesses thread_data B bypass_cache (stored i)
          (order.getD i 0) := by
  rw [blockLoop, timedLoop_accesses, List.flatMap_def]

/-- The accesses of the loop, one by one. -/
theorem mem_blockLoop (hOrder : order.Perm (List.range (P / B)))
    (hSize : P < 2 ^ 64) {a : Access} :
    a ∈ (blockLoop thread_data (P / B) B bypass_cache stored order).accesses ↔
      ∃ i j, i < P / B ∧ j < B / 4 / 8 ∧
        a = { addr := laneAddr thread_data B (order.getD i 0) j
              bytes := 32
              nonTemporal := bypass_cache
              stored := stored i } := by
  rw [blockLoop_accesses, List.mem_flatMap]
  constructor
  · rintro ⟨i, hi, ha⟩
    have hi' := List.mem_range.mp hi
    rw [blockAccesses_eq (getD_lt_of_perm_range hOrder hi') hSize] at ha
    obtain ⟨j, hj, rfl⟩ := List.mem_map.mp ha
    exact ⟨i, j, hi', List.mem_range.mp hj, rfl⟩
  · rintro ⟨i, j, hi, hj, rfl⟩
    refine ⟨i, List.mem_range.mpr hi, ?_⟩
    rw [blockAccesses_eq (getD_lt_of_perm_range hOrder hi) hSize]
    exact List.mem_map.mpr ⟨j, List.mem_range.mpr hj, rfl⟩

theorem sliceLanes_blockLoop (hOrder : order.Perm (List.range (P / B)))
    (hSize : P < 2 ^ 64) :
    SliceLanes thread_data P B
      (blockLoop thread_data (P / B) B bypass_cache stored order) where
  apart := by
    rw [blockLoop_accesses, List.pairwise_flatMap]
    constructor
    · intro i hi
      rw [blockAccesses_eq (getD_lt_of_perm_range hOrder (List.mem_range.mp hi)) hSize,
        List.pairwise_map]
      refine List.pairwise_lt_range.imp fun {j j'} hLt => Or.inl ?_
      show laneAddr _ _ _ j + 32 ≤ laneAddr _ _ _ j'
      unfold laneAddr
      omega
    · refine List.pairwise_lt_range.imp_of_mem
        fun {i i'} hi hi' hLt a ha b hb => ?_
      have hi := List.mem_range.mp hi
      have hi' := List.mem_range.mp hi'
      rw [blockAccesses_eq (getD_lt_of_perm_range hOrder hi) hSize] at ha
      rw [blockAccesses_eq (getD_lt_of_perm_range hOrder hi') hSize] at hb
      obtain ⟨j, hj, rfl⟩ := List.mem_map.mp ha
      obtain ⟨j', hj', rfl⟩ := List.mem_map.mp hb
      have hBlock : order.getD i 0 ≠ order.getD i' 0 := fun hEq =>
        Nat.ne_of_lt hLt (getD_inj_of_perm_range hOrder hi hi' hEq)
      rcases Nat.lt_or_gt_of_ne hBlock with hBelow | hAbove
      · exact Or.inl (laneAddr_lt thread_data hBelow (List.mem_range.mp hj))
      · exact Or.inr (laneAddr_lt thread_data hAbove (List.mem_range.mp hj'))
  inside := by
    intro a ha
    obtain ⟨i, j, hi, hj, rfl⟩ := (mem_blockLoop hOrder hSize).mp ha
    exact ⟨rfl, laneAddr_inside thread_data (getD_lt_of_perm_range hOrder hi) hj⟩
  count := by
    simp [blockLoop_accesses, List.length_flatMap, blockAccesses,
      length_laneStarts]

end Loop

theorem getD_set1 (value : Nat) {l : Nat} (hl : l < 8) :
    ((set1 value).getD l 0).toNat = value % 2 ^ 32 := by
  rw [set1, List.getD_replicate _ hl, BitVec.toNat_ofNat]

section Test

variable {size num_threads B : Nat} {shuffled : Nat → List Nat}

/-- The accesses of all threads, one by one. -/
theorem mem_blockTest {data : Nat} {bypass_cache : Bool}
    {stored : Nat → Option (List (BitVec 32))}
    (hSize : size / num_threads < 2 ^ 64)
    (hShuffled : ∀ t, t < num_threads →
      (shuffled t).Perm (List.range (size / num_threads / B))) {a : Access} :
    a ∈ (blockTest data size num_threads B bypass_cache stored
        shuffled).accesses ↔
      ∃ t i j, t < num_threads ∧ i < size / num_threads / B ∧ j < B / 4 / 8 ∧
        a = { addr := laneAddr (data + t * (size / num_threads)) B
                ((shuffled t).getD i 0) j
              bytes := 32
              nonTemporal := bypass_cache
              stored := stored i } := by
  rw [blockTest, mem_accesses_onSlices]
  constructor
  · rintro ⟨t, ht, hLoop⟩
    obtain ⟨i, j, hi, hj, rfl⟩ := (mem_blockLoop (hShuffled t ht) hSize).mp hLoop
    exact ⟨t, i, j, ht, hi, hj, rfl⟩
  · rintro ⟨t, i, j, ht, hi, hj, rfl⟩
    exact ⟨t, ht, (mem_blockLoop (hShuffled t ht) hSize).mpr
      ⟨i, j, hi, hj, rfl⟩⟩

theorem pairwise_blockTest (data : Nat) (bypass_cache : Bool)
    (stored : Nat → Option (List (BitVec 32)))
    (hSize : size / num_threads < 2 ^ 64)
    (hShuffled : ∀ t, t < num_threads →
      (shuffled t).Perm (List.range (size / num_threads / B))) :
    (blockTest data size num_threads B bypass_cache stored
      shuffled).accesses.Pairwise Access.Apart := by
  refine pairwise_onSlices data size num_threads (fun t ht => ?_)
    fun t ht a ha => ?_
  · exact (sliceLanes_blockLoop (hShuffled t ht) hSize).apart
  · obtain ⟨hBytes, hLow, hHigh⟩ :=
      (sliceLanes_blockLoop (hShuffled t ht) hSize).inside a ha
    rw [hBytes, Nat.succ_mul]
    omega

theorem filled_blockTest (data : Nat) (bypass_cache : Bool)
    (hSize : size / num_threads < 2 ^ 64)
    (hShuffled : ∀ t, t < num_threads →
      (shuffled t).Perm (List.range (size / num_threads / B))) :
    ∀ a ∈ (measureRandomWrite data size num_threads B bypass_cache
      shuffled).accesses, a.Filled := by
  intro a ha
  obtain ⟨t, i, j, _, _, _, rfl⟩ := (mem_blockTest hSize hShuffled).mp ha
  intro lanes hStored
  obtain rfl : set1 i = lanes := Option.some.inj hStored
  simp [set1]

/-- The writing test leaves in each lane of the block at position `i` of the
permutation eight copies of `i` modulo `2 ^ 32`, and all else as it was. -/
theorem randomWrite_memory (data : Nat) (bypass_cache : Bool)
    (hSize : size / num_threads < 2 ^ 64)
    (hShuffled : ∀ t, t < num_threads →
      (shuffled t).Perm (List.range (size / num_threads / B)))
    {before after : Memory}
    (hFinal : (measureRandomWrite data size num_threads B bypass_cache
      shuffled).FinalMemory before after) :
    (∀ t i j l, t < num_threads → i < size / num_threads / B →
      j < B / 4 / 8 → l < 8 →
      leValue (after.read (laneAddr (data + t * (size / num_threads)) B
        ((shuffled t).getD i 0) j + 4 * l) 4) = i % 2 ^ 32) ∧
    ∀ x, (∀ t i j, t < num_threads → i < size / num_threads / B →
        j < B / 4 / 8 →
        x < laneAddr (data + t * (size / num_threads)) B
            ((shuffled t).getD i 0) j ∨
          laneAddr (data + t * (size / num_threads)) B
            ((shuffled t).getD i 0) j + 32 ≤ x) →
      after x = before x := by
  have hFilled := filled_blockTest data bypass_cache hSize hShuffled
  constructor
  · intro t i j l ht hi hj hl
    have hLane := (@mem_blockTest _ _ _ _ data bypass_cache
      (fun i => some (set1 i)) hSize hShuffled _).mpr
        ⟨t, i, j, ht, hi, hj, rfl⟩
    have hRead := hFinal.stored
      (pairwise_blockTest data bypass_cache _ hSize hShuffled) hFilled hLane rfl
      (show l < (set1 i).length by simpa [set1] using hl)
    rw [getD_set1 i hl] at hRead
    exact hRead
  · intro x hOut
    refine hFinal.unstored hFilled fun a ha => ?_
    obtain ⟨t, i, j, ht, hi, hj, rfl⟩ := (mem_blockTest hSize hShuffled).mp ha
    exact hOut t i j ht hi hj

/-- In every thread of both tests the lanes are disjoint, in range and counted,
and the memory after the writing test tells the permutations. -/
theorem randomTests_lanes (data size num_threads B : Nat) (bypass_cache : Bool)
    (shuffled : Nat → List Nat) (hSize : size / num_threads < 2 ^ 64)
    (hShuffled : ∀ t, t < num_threads →
      (shuffled t).Perm (List.range (size / num_threads / B))) :
    (∀ t, t < num_threads →
      ∃ read write,
        (measureRandomRead data size num_threads B bypass_cache
          shuffled).threads[t]? = some read ∧
        (measureRandomWrite data size num_threads B bypass_cache
          shuffled).threads[t]? = some write ∧
        SliceLanes (data + t * (size / num_threads)) (size / num_threads) B
          read ∧
        SliceLanes (data + t * (size / num_threads)) (size / num_threads) B
          write) ∧
    ∀ before after, (measureRandomWrite data size num_threads B bypass_cache
        shuffled).FinalMemory before after →
      (∀ t i j l, t < num_threads → i < size / num_threads / B →
        j < B / 4 / 8 → l < 8 →
        leValue (after.read (laneAddr (data + t * (size / num_threads)) B
          ((shuffled t).getD i 0) j + 4 * l) 4) = i % 2 ^ 32) ∧
      ∀ x, (∀ t i j, t < num_threads → i < size / num_threads / B →
          j < B / 4 / 8 →
          x < laneAddr (data + t * (size / num_threads)) B
              ((shuffled t).getD i 0) j ∨
            laneAddr (data + t * (size / num_threads)) B
              ((shuffled t).getD i 0) j + 32 ≤ x) →
        after x = before x := by
  refine ⟨fun t ht => ?_, fun before after hFinal =>
    randomWrite_memory data bypass_cache hSize hShuffled hFinal⟩
  exact ⟨_, _, threads_onSlices _ _ _ ht, threads_onSlices _ _ _ ht,
    sliceLanes_blockLoop (hShuffled t ht) hSize,
    sliceLanes_blockLoop (hShuffled t ht) hSize⟩

end Test

/-- Two threads, 100 bytes each, in three blocks of 33 bytes; the block at
position 1 of the second thread is its first. -/
theorem randomTests_lanes_unaligned :
    let write := measureRandomWrite 0 200 2 33 false fun _ => [2, 0, 1]
    let after := Memory.run (fun _ => 0)
      ((write.accesses.flatMap Access.stores).flatMap Store.cells)
    leValue (after.read (laneAddr 100 33 0 0 + 4 * 7) 4) = 1 := by
  intro write after
  have hMemory := (randomTests_lanes 0 200 2 33 false (fun _ => [2, 0, 1])
    (by decide) (fun t _ => by decide)).2 (fun _ => 0) after
    ⟨_, List.Perm.refl _, rfl⟩
  exact hMemory.1 1 1 0 7 (by decide) (by decide) (by decide) (by decide)

end MioBench.Bench
