import MioBench.Bench.Access

/-!
# Random and zipfian block tests

`measureRandomRead`, `measureRandomWrite` and `measureZipfianRead` go through
the slice block by block, in an order fixed before the clock starts, and read
or write each block in lanes of eight `int32_t`.
-/

namespace MioBench.Bench

/-- `for (; j + 8 <= block_ints; j += 8)`, with `left = block_ints - j`. -/
def laneStarts : (left : Nat) → (j : Nat) → List Nat
  | left + 8, j => j :: laneStarts left (j + 8)
  | _, _ => []

theorem laneStarts_eq (left j : Nat) :
    laneStarts left j = (List.range (left / 8)).map fun k => j + 8 * k := by
  induction left, j using laneStarts.induct with
  | case1 left j ih =>
      rw [laneStarts, ih, show (left + 8) / 8 = left / 8 + 1 by omega,
        List.range_succ_eq_map, List.map_cons, List.map_map]
      congr 1
      apply List.map_congr_left
      intro k _
      show j + 8 + 8 * k = j + 8 * (k + 1)
      omega
  | case2 left j hShort =>
      have hLt : left < 8 := by
        by_contra hLe
        exact hShort (left - 8) (by omega)
      rw [laneStarts, Nat.div_eq_of_lt hLt]
      · rfl
      · exact hShort

theorem length_laneStarts (left j : Nat) :
    (laneStarts left j).length = left / 8 := by
  simp [laneStarts_eq]

/-- The accesses to block `index` of the slice at `thread_data`. -/
def blockAccesses (thread_data BLOCK_SIZE : Nat) (bypass_cache : Bool)
    (stored : Option (List (BitVec 32))) (index : Nat) : List Access :=
  let offset_ints := index * BLOCK_SIZE % 2 ^ 64 / 4
  let block_ints := BLOCK_SIZE / 4
  (laneStarts block_ints 0).map fun j =>
    { addr := thread_data + 4 * (offset_ints + j)
      bytes := 32
      nonTemporal := bypass_cache
      stored := stored }

/-- The loop over the blocks: iteration `i` goes to block `order[i]` and counts
a whole `BLOCK_SIZE`. -/
def blockLoop (thread_data num_blocks BLOCK_SIZE : Nat) (bypass_cache : Bool)
    (stored : Nat → Option (List (BitVec 32))) (order : List Nat) :
    ThreadLoop :=
  timedLoop BLOCK_SIZE ((List.range num_blocks).map fun i =>
    blockAccesses thread_data BLOCK_SIZE bypass_cache (stored i)
      (order.getD i 0))

/-- The common part of the three tests: thread `t` goes through the blocks of
its slice in the order `order t`. -/
def blockTest (data size num_threads BLOCK_SIZE : Nat) (bypass_cache : Bool)
    (stored : Nat → Option (List (BitVec 32))) (order : Nat → List Nat) :
    Measurement :=
  onSlices data size num_threads fun t thread_data per_thread_size =>
    blockLoop thread_data (per_thread_size / BLOCK_SIZE) BLOCK_SIZE bypass_cache
      stored (order t)

/-- `shuffled t` is the content of `indices` after the shuffle of thread `t`. -/
def measureRandomRead (data size num_threads BLOCK_SIZE : Nat)
    (bypass_cache : Bool) (shuffled : Nat → List Nat) : Measurement :=
  blockTest data size num_threads BLOCK_SIZE bypass_cache (fun _ => none)
    shuffled

/-- As the read, storing `_mm256_set1_epi32(static_cast<int32_t>(i))`. -/
def measureRandomWrite (data size num_threads BLOCK_SIZE : Nat)
    (bypass_cache : Bool) (shuffled : Nat → List Nat) : Measurement :=
  blockTest data size num_threads BLOCK_SIZE bypass_cache
    (fun i => some (set1 i)) shuffled

/-- `access_sequence[i] = indices[rank]` for the rank sampled for `i`. -/
def accessSequence (indices ranks : List Nat) : List Nat :=
  ranks.map fun rank => indices.getD rank 0

/-- `ranks t` lists what `sampleZipfian` returned to thread `t`. -/
def measureZipfianRead (data size num_threads BLOCK_SIZE : Nat)
    (bypass_cache : Bool) (shuffled ranks : Nat → List Nat) : Measurement :=
  blockTest data size num_threads BLOCK_SIZE bypass_cache (fun _ => none)
    fun t => accessSequence (shuffled t) (ranks t)

/-! ## Bytes moved and bytes counted -/

theorem blockAccesses_bytes (thread_data B : Nat) (bypass_cache : Bool)
    (stored : Option (List (BitVec 32))) (index : Nat) :
    ((blockAccesses thread_data B bypass_cache stored index).map
      Access.bytes).sum = 32 * (B / 32) := by
  have hLanes : B / 4 / 8 = B / 32 := by omega
  simp [blockAccesses, Function.comp_def, length_laneStarts, hLanes,
    Nat.mul_comm]

/-- A slice of `num_blocks` blocks moves its whole lanes, whatever the order
of the blocks. -/
theorem blockLoop_bytes (thread_data num_blocks B : Nat) (bypass_cache : Bool)
    (stored : Nat → Option (List (BitVec 32))) (order : List Nat) :
    ((blockLoop thread_data num_blocks B bypass_cache stored order).accesses.map
      Access.bytes).sum = num_blocks * (32 * (B / 32)) := by
  rw [blockLoop, timedLoop_accesses, List.map_flatten, List.sum_flatten,
    List.map_map, List.map_map]
  simp [Function.comp_def, blockAccesses_bytes]

theorem blockLoop_added (thread_data num_blocks B : Nat) (bypass_cache : Bool)
    (stored : Nat → Option (List (BitVec 32))) (order : List Nat) :
    (blockLoop thread_data num_blocks B bypass_cache stored
      order).added.sum % 2 ^ 64 = num_blocks * B % 2 ^ 64 := by
  rw [blockLoop, timedLoop_added, List.length_map, List.length_range]

/-- The bandwidth is computed from the bytes really moved, and the progress
counter ends at them. -/
def Measurement.Exact (m : Measurement) : Prop :=
  m.bytesMoved = m.size ∧
    ∀ counter, m.FinalCounter counter → m.bytesMoved = counter

/-- The blocks fill the slice and the lanes fill the block. -/
def WholeBlocks (per_thread_size BLOCK_SIZE : Nat) : Prop :=
  per_thread_size = 0 ∨ (BLOCK_SIZE ∣ per_thread_size ∧ 32 ∣ BLOCK_SIZE)

/-- Two floors that multiply to the whole are both exact. -/
theorem floors_eq_iff (P B : Nat) :
    P / B * (32 * (B / 32)) = P ↔ WholeBlocks P B := by
  have hBlock : P / B * B ≤ P := Nat.div_mul_le_self P B
  have hLane : 32 * (B / 32) ≤ B := Nat.mul_div_le B 32
  have hBoth : P / B * (32 * (B / 32)) ≤ P / B * B :=
    Nat.mul_le_mul_left _ hLane
  constructor
  · intro h
    by_cases hP : P = 0
    · exact Or.inl hP
    · right
      have hExact : P / B * B = P := by omega
      have hSome : 0 < P / B := by
        apply Nat.pos_of_ne_zero
        intro hZero
        rw [hZero, Nat.zero_mul] at hExact
        exact hP hExact.symm
      have hLanes : 32 * (B / 32) = B :=
        Nat.eq_of_mul_eq_mul_left hSome (h.trans hExact.symm)
      exact ⟨⟨P / B, by rw [Nat.mul_comm, hExact]⟩, ⟨B / 32, hLanes.symm⟩⟩
  · intro h
    rcases h with hP | ⟨hDvd, hDvd'⟩
    · rw [hP, Nat.zero_div, Nat.zero_mul]
    · rw [Nat.mul_div_cancel' hDvd', Nat.div_mul_cancel hDvd]

theorem blockTest_bytesMoved (data B : Nat) {num_threads P : Nat}
    (hThreads : 0 < num_threads) (bypass_cache : Bool)
    (stored : Nat → Option (List (BitVec 32))) (order : Nat → List Nat) :
    (blockTest data (num_threads * P) num_threads B bypass_cache stored
      order).bytesMoved = num_threads * (P / B * (32 * (B / 32))) := by
  apply bytesMoved_onSlices
  intro t thread_data
  rw [Nat.mul_div_cancel_left P hThreads, blockLoop_bytes]

theorem blockTest_finalCounter (data B : Nat) {num_threads P : Nat}
    (hThreads : 0 < num_threads) (bypass_cache : Bool)
    (stored : Nat → Option (List (BitVec 32))) (order : Nat → List Nat)
    (counter : Nat) :
    (blockTest data (num_threads * P) num_threads B bypass_cache stored
      order).FinalCounter counter ↔
        counter = num_threads * (P / B * B) % 2 ^ 64 := by
  apply finalCounter_onSlices
  intro t thread_data
  rw [Nat.mul_div_cancel_left P hThreads, blockLoop_added]

theorem blockTest_exact_iff (data B : Nat) {num_threads P : Nat}
    (hThreads : 0 < num_threads) (hSize : num_threads * P < 2 ^ 64)
    (bypass_cache : Bool) (stored : Nat → Option (List (BitVec 32)))
    (order : Nat → List Nat) :
    (blockTest data (num_threads * P) num_threads B bypass_cache stored
      order).Exact ↔ WholeBlocks P B := by
  rw [← floors_eq_iff]
  unfold Measurement.Exact
  simp only [blockTest_bytesMoved data B hThreads,
    blockTest_finalCounter data B hThreads]
  constructor
  · intro h
    exact Nat.eq_of_mul_eq_mul_left hThreads h.1
  · intro h
    have hCounted : P / B * B = P := by
      have hLane : P / B * (32 * (B / 32)) ≤ P / B * B :=
        Nat.mul_le_mul_left _ (Nat.mul_div_le B 32)
      have hBlock : P / B * B ≤ P := Nat.div_mul_le_self P B
      omega
    rw [h, hCounted]
    refine ⟨rfl, ?_⟩
    intro counter hCounter
    rw [hCounter, Nat.mod_eq_of_lt hSize]

/-- For every thread count, slice size, order of the blocks and sampled rank
sequence, each of the three tests moves the bytes its bandwidth is computed
from, and ends its progress counter there, exactly when the slice is a whole
number of blocks and a block a whole number of lanes. -/
theorem randomTests_exact_iff (data num_threads mib BLOCK_SIZE : Nat)
    (hThreads : 0 < num_threads) (hSize : num_threads * (mib * 2 ^ 20) < 2 ^ 64)
    (bypass_cache : Bool) (shuffled ranks : Nat → List Nat) :
    ((measureRandomRead data (num_threads * (mib * 2 ^ 20)) num_threads
        BLOCK_SIZE bypass_cache shuffled).Exact ↔
      WholeBlocks (mib * 2 ^ 20) BLOCK_SIZE) ∧
    ((measureRandomWrite data (num_threads * (mib * 2 ^ 20)) num_threads
        BLOCK_SIZE bypass_cache shuffled).Exact ↔
      WholeBlocks (mib * 2 ^ 20) BLOCK_SIZE) ∧
    ((measureZipfianRead data (num_threads * (mib * 2 ^ 20)) num_threads
        BLOCK_SIZE bypass_cache shuffled ranks).Exact ↔
      WholeBlocks (mib * 2 ^ 20) BLOCK_SIZE) :=
  ⟨blockTest_exact_iff data BLOCK_SIZE hThreads hSize bypass_cache _ _,
    blockTest_exact_iff data BLOCK_SIZE hThreads hSize bypass_cache _ _,
    blockTest_exact_iff data BLOCK_SIZE hThreads hSize bypass_cache _ _⟩

/-- Two threads, 1 MiB each, in blocks of 64 bytes. -/
theorem randomTests_exact_iff_two :
    (measureRandomRead 4096 (2 * (1 * 2 ^ 20)) 2 64 false
      fun _ => List.range 16384).Exact :=
  (randomTests_exact_iff 4096 2 1 64 (by decide) (by decide) false
    (fun _ => List.range 16384) (fun _ => List.range 16384)).1.mpr
    (Or.inr ⟨by decide, by decide⟩)

/-- One thread, 1 MiB, `--block-size 48`: 21845 blocks of one 32-byte lane each
move 699040 bytes, the counter ends at 1048560, and the bandwidth is computed
from 1048576. -/
theorem randomTests_not_exact :
    ¬ ∀ (data num_threads mib BLOCK_SIZE : Nat) (bypass_cache : Bool)
        (shuffled ranks : Nat → List Nat),
      0 < num_threads → num_threads * (mib * 2 ^ 20) < 2 ^ 64 →
      0 < BLOCK_SIZE → BLOCK_SIZE < 2 ^ 31 →
      (∀ t, (shuffled t).Perm (List.range (mib * 2 ^ 20 / BLOCK_SIZE))) →
      (∀ t, (ranks t).length = mib * 2 ^ 20 / BLOCK_SIZE ∧
        ∀ rank, rank ∈ ranks t → rank < mib * 2 ^ 20 / BLOCK_SIZE) →
      (measureRandomRead data (num_threads * (mib * 2 ^ 20)) num_threads
          BLOCK_SIZE bypass_cache shuffled).Exact ∧
        (measureRandomWrite data (num_threads * (mib * 2 ^ 20)) num_threads
          BLOCK_SIZE bypass_cache shuffled).Exact ∧
        (measureZipfianRead data (num_threads * (mib * 2 ^ 20)) num_threads
          BLOCK_SIZE bypass_cache shuffled ranks).Exact := by
  intro h
  have hExact := (h 4096 1 1 48 false
    (fun _ => List.range (1 * 2 ^ 20 / 48))
    (fun _ => List.range (1 * 2 ^ 20 / 48))
    (by decide) (by decide) (by decide) (by decide)
    (fun _ => List.Perm.refl _)
    (fun _ => ⟨List.length_range, fun rank hRank =>
      List.mem_range.mp hRank⟩)).1.1
  have hMoved := blockTest_bytesMoved 4096 48 (P := 1 * 2 ^ 20)
    (show 0 < 1 by decide) false (fun _ => none)
    (fun _ => List.range (1 * 2 ^ 20 / 48))
  rw [measureRandomRead, hMoved] at hExact
  exact absurd hExact (by decide)

end MioBench.Bench
