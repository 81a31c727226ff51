import MioBench.Bench.Instrumented
import MioBench.Bench.RandomCoverage
import MioBench.Bench.SequentialWrite
import MioBench.Bench.StrideCoverage
import MioBench.Lib.Wrapping

/-!
# Alignment of the streaming accesses

With `--bypass-cache` the seven tests use `_mm256_stream_load_si256` and
`_mm256_stream_si256`, which fault on an address that is not a multiple of 32;
otherwise they use `loadu` and `storeu`, which take any.  The sequential tests
go on in steps of 32 bytes.  The others go to `index * BLOCK_SIZE` or to sums of
block sizes and strides, and neither size is checked, so what is aligned is
decided by their remainders and by how much of the slice is gone through.
-/

namespace MioBench.Bench

open MioBench.Lib

/-- A streaming access is at a multiple of 32. -/
def Access.Aligned (a : Access) : Prop := a.nonTemporal = true → 32 ∣ a.addr

def Measurement.Aligned (m : Measurement) : Prop := ∀ a ∈ m.accesses, a.Aligned

theorem aligned_onSlices {data size num_threads : Nat}
    {loop : Nat → Nat → Nat → ThreadLoop} :
    (onSlices data size num_threads loop).Aligned ↔
      ∀ t, t < num_threads →
        ∀ a ∈ (loop t (data + t * (size / num_threads))
          (size / num_threads)).accesses, a.Aligned := by
  constructor
  · intro hAligned t ht a ha
    exact hAligned a (mem_accesses_onSlices.mpr ⟨t, ht, ha⟩)
  · intro hLoops a ha
    obtain ⟨t, ht, hLoop⟩ := mem_accesses_onSlices.mp ha
    exact hLoops t ht a hLoop

/-- Slices of whole lanes keep the alignment of the region. -/
theorem slice_aligned {data P : Nat} (hData : 32 ∣ data) (hSlice : 32 ∣ P)
    (t : Nat) : 32 ∣ data + t * P :=
  Nat.dvd_add hData (hSlice.mul_left t)

/-! ## The sequential tests -/

/-- The load of eight `int32_t` at index `i`. -/
def vectorLoad (thread_data : Nat) (bypass_cache : Bool) (i : Nat) : Access where
  addr := thread_data + 4 * i
  bytes := 32
  nonTemporal := bypass_cache
  stored := none

/-- `sum += thread_data[i]`. -/
def scalarLoad (thread_data i : Nat) : Access where
  addr := thread_data + 4 * i
  bytes := 4
  nonTemporal := false
  stored := none

/-- One round of the loop over the remaining elements. -/
def scalarLoadRound (thread_data : Nat) (s : ThreadLoop) (i : Nat) : ThreadLoop :=
  { s with
    accesses := s.accesses ++ [scalarLoad thread_data i]
    local_bytes := (s.local_bytes + 4) % 2 ^ 64 }

/-- The loop of one thread. -/
def sequentialLoadLoop (thread_data per_thread_size : Nat) (bypass_cache : Bool) :
    ThreadLoop :=
  let per_thread_ints := per_thread_size / 4
  let starts := laneStarts per_thread_ints 0
  let s := starts.foldl
    (fun s i => s.round 32 [vectorLoad thread_data bypass_cache i] (i / 8))
    ThreadLoop.start
  -- The index with which the first loop ends.
  let i := 8 * starts.length
  ((List.range' i (per_thread_ints - i)).foldl (scalarLoadRound thread_data)
    s).flush

def measureSequentialRead (data size num_threads : Nat) (bypass_cache : Bool) :
    Measurement :=
  onSlices data size num_threads fun _ thread_data per_thread_size =>
    sequentialLoadLoop thread_data per_thread_size bypass_cache

/-- A loop that makes one access a round. -/
theorem foldl_accesses {step : ThreadLoop → Nat → ThreadLoop}
    {access : Nat → Access}
    (hStep : ∀ s i, (step s i).accesses = s.accesses ++ [access i])
    (is : List Nat) (s : ThreadLoop) :
    (is.foldl step s).accesses = s.accesses ++ is.map access := by
  induction is generalizing s with
  | nil => simp
  | cons i is ih =>
      rw [List.foldl_cons, ih, hStep, List.append_assoc]
      rfl

section Sequential

variable {thread_data P : Nat} {bypass_cache : Bool}

theorem sequentialLoadLoop_accesses :
    (sequentialLoadLoop thread_data P bypass_cache).accesses =
      ((List.range (P / 4 / 8)).map fun k =>
        vectorLoad thread_data bypass_cache (8 * k)) ++
      (List.range' (8 * (P / 4 / 8)) (P / 4 - 8 * (P / 4 / 8))).map
        (scalarLoad thread_data) := by
  have hVector := @foldl_accesses
    (fun s i => s.round 32 [vectorLoad thread_data bypass_cache i] (i / 8)) _
    (fun s i => s.round_accesses 32 _ (i / 8)) (laneStarts (P / 4) 0)
    ThreadLoop.start
  have hScalar := @foldl_accesses (scalarLoadRound thread_data) _ fun _ _ => rfl
  simp only [sequentialLoadLoop, ThreadLoop.flush_accesses, hScalar, hVector,
    length_laneStarts]
  rw [laneStarts_eq, List.map_map]
  simp [ThreadLoop.start, Function.comp_def]

/-- These are the loads of the instrumented builds. -/
theorem sequentialLoadLoop_reads :
    (sequentialLoadLoop thread_data P bypass_cache).accesses.map
        (fun a => (a.addr, a.bytes)) = sequentialReads thread_data P := by
  have hRest : P / 4 - 8 * (P / 4 / 8) = P / 4 % 8 := by omega
  rw [sequentialLoadLoop_accesses, sequentialReads, laneStarts_eq, hRest,
    List.range'_eq_map_range]
  simp [Function.comp_def, vectorLoad, scalarLoad, Nat.mul_comm]

theorem sequentialLoadLoop_aligned (hData : 32 ∣ thread_data) :
    ∀ a ∈ (sequentialLoadLoop thread_data P bypass_cache).accesses,
      a.Aligned := by
  intro a ha hStream
  rw [sequentialLoadLoop_accesses, List.mem_append, List.mem_map,
    List.mem_map] at ha
  rcases ha with ⟨k, -, rfl⟩ | ⟨i, -, rfl⟩
  · show 32 ∣ thread_data + 4 * (8 * k)
    omega
  · cases hStream

theorem sequentialWriteLoop_aligned (hData : 32 ∣ thread_data) :
    ∀ a ∈ (sequentialWriteLoop thread_data P bypass_cache).accesses,
      a.Aligned := by
  intro a ha hStream
  rcases mem_sequentialWriteLoop.mp ha with ⟨k, -, rfl⟩ | ⟨i, -, -, rfl⟩
  · show 32 ∣ thread_data + 4 * (8 * k)
    omega
  · cases hStream

end Sequential

/-- Both sequential tests keep to multiples of 32, whatever the options are. -/
theorem sequentialTests_aligned {data size num_threads : Nat}
    (hData : 32 ∣ data) (hSlice : 32 ∣ size / num_threads)
    (bypass_cache : Bool) :
    (measureSequentialRead data size num_threads bypass_cache).Aligned ∧
      (measureSequentialWrite data size num_threads bypass_cache).Aligned :=
  ⟨aligned_onSlices.mpr fun t _ =>
      sequentialLoadLoop_aligned (slice_aligned hData hSlice t),
    aligned_onSlices.mpr fun t _ =>
      sequentialWriteLoop_aligned (slice_aligned hData hSlice t)⟩

/-! ## The block tests -/

/-- No block starts four bytes or more behind a multiple of 32, or the blocks
have no lane. -/
def BlocksAligned (per_thread_size BLOCK_SIZE : Nat) : Prop :=
  BLOCK_SIZE < 32 ∨
    (per_thread_size / BLOCK_SIZE - 1) * (BLOCK_SIZE % 32) < 4

instance (per_thread_size BLOCK_SIZE : Nat) :
    Decidable (BlocksAligned per_thread_size BLOCK_SIZE) :=
  inferInstanceAs (Decidable (_ ∨ _))

section Blocks

variable {thread_data P B : Nat} {stored : Nat → Option (List (BitVec 32))}
  {order : List Nat}

/-- The multiples of `B` drift away from those of 32 until one is four bytes
off, or the blocks end before. -/
theorem blocksAligned_iff :
    BlocksAligned P B ↔
      ∀ index, index < P / B → 32 ≤ B → index * B % 32 < 4 := by
  unfold BlocksAligned
  generalize P / B = num_blocks
  constructor
  · intro hSizes index hIndex hLane
    rcases hSizes with hSmall | hDrift
    · omega
    · have hLe : index * (B % 32) ≤ (num_blocks - 1) * (B % 32) :=
        Nat.mul_le_mul_right _ (by omega)
      rw [← Nat.mul_mod_mod]
      omega
  · intro hAll
    by_contra hNot
    push Not at hNot
    obtain ⟨hLane, hDrift⟩ := hNot
    -- A drift of one, two, three or more bytes a block.
    have hCases : B % 32 = 0 ∨ B % 32 = 1 ∨ B % 32 = 2 ∨ B % 32 = 3 ∨
        4 ≤ B % 32 := by omega
    rcases hCases with hZero | hOne | hTwo | hThree | hMore
    · rw [hZero] at hDrift
      omega
    · have hFour := hAll 4 (by rw [hOne] at hDrift; omega) hLane
      omega
    · have hTwice := hAll 2 (by rw [hTwo] at hDrift; omega) hLane
      omega
    · have hTwice := hAll 2 (by rw [hThree] at hDrift; omega) hLane
      omega
    · have hBlocks : num_blocks - 1 ≠ 0 := by
        intro hNone
        rw [hNone] at hDrift
        omega
      have hOnce := hAll 1 (by omega) hLane
      omega

theorem laneAddr_aligned_iff (hData : 32 ∣ thread_data) (index j : Nat) :
    32 ∣ laneAddr thread_data B index j ↔ index * B % 32 < 4 := by
  unfold laneAddr
  generalize index * B = start
  omega

/-- Which lanes are aligned depends on the blocks the order really names. -/
theorem blockLoop_aligned (hData : 32 ∣ thread_data) (hSize : P < 2 ^ 64)
    (hOrder : ∀ i, i < P / B → order.getD i 0 < P / B)
    (hBlocks : BlocksAligned P B) (bypass_cache : Bool) :
    ∀ a ∈ (blockLoop thread_data (P / B) B bypass_cache stored
      order).accesses, a.Aligned := by
  intro a ha _
  rw [blockLoop_accesses, List.mem_flatMap] at ha
  obtain ⟨i, hi, hBlock⟩ := ha
  have hIndex := hOrder i (List.mem_range.mp hi)
  rw [blockAccesses_eq hIndex hSize, List.mem_map] at hBlock
  obtain ⟨j, hj, rfl⟩ := hBlock
  have hLane := List.mem_range.mp hj
  exact (laneAddr_aligned_iff hData _ j).mpr
    (blocksAligned_iff.mp hBlocks _ hIndex (by omega))

/-- In ascending order all blocks are named. -/
theorem blocksAligned_of_blockLoop (hData : 32 ∣ thread_data)
    (hSize : P < 2 ^ 64)
    (hLoop : ∀ a ∈ (blockLoop thread_data (P / B) B true stored
      (List.range (P / B))).accesses, a.Aligned) : BlocksAligned P B := by
  refine blocksAligned_iff.mpr fun index hIndex hLane => ?_
  have hNamed : (List.range (P / B)).getD index 0 = index := by
    simp [List.getD_eq_getElem?_getD, hIndex]
  have hFirst := hLoop _ ((mem_blockLoop (List.Perm.refl _) hSize).mpr
    ⟨index, 0, hIndex, by omega, rfl⟩) rfl
  rw [hNamed] at hFirst
  exact (laneAddr_aligned_iff hData index 0).mp hFirst

end Blocks

/-- The orders a block test can be given: what `shuffle` leaves of the indices,
or the blocks of ranks that are in range. -/
def BlockOrder (per_thread_size BLOCK_SIZE : Nat) (order : List Nat) : Prop :=
  ∀ i, i < per_thread_size / BLOCK_SIZE →
    order.getD i 0 < per_thread_size / BLOCK_SIZE

theorem blockOrder_of_perm {P B : Nat} {shuffled : List Nat}
    (h : shuffled.Perm (List.range (P / B))) : BlockOrder P B shuffled :=
  fun _ hi => getD_lt_of_perm_range h hi

theorem blockOrder_accessSequence {P B : Nat} {indices ranks : List Nat}
    (hPerm : indices.Perm (List.range (P / B)))
    (hRanks : ∀ rank ∈ ranks, rank < P / B) :
    BlockOrder P B (accessSequence indices ranks) := by
  intro i hi
  rw [List.getD_eq_getElem?_getD, accessSequence, List.getElem?_map]
  cases hRank : ranks[i]? with
  | none => exact Nat.zero_lt_of_lt hi
  | some rank =>
      exact getD_lt_of_perm_range hPerm (hRanks rank (List.mem_of_getElem? hRank))

theorem blockTest_aligned {data size num_threads B : Nat}
    {stored : Nat → Option (List (BitVec 32))} {order : Nat → List Nat}
    (hData : 32 ∣ data) (hSlice : 32 ∣ size / num_threads)
    (hSize : size < 2 ^ 64)
    (hOrder : ∀ t, BlockOrder (size / num_threads) B (order t))
    (hBlocks : BlocksAligned (size / num_threads) B) (bypass_cache : Bool) :
    (blockTest data size num_threads B bypass_cache stored order).Aligned :=
  aligned_onSlices.mpr fun t _ =>
    blockLoop_aligned (slice_aligned hData hSlice t)
      (Nat.lt_of_le_of_lt (Nat.div_le_self _ _) hSize) (hOrder t) hBlocks
      bypass_cache

/-- The blocks in ascending order tell. -/
theorem blocksAligned_of_blockTest {data size num_threads B : Nat}
    (hData : 32 ∣ data) (hThreads : 0 < num_threads)
    (hSlice : 32 ∣ size / num_threads) (hSize : size < 2 ^ 64)
    {stored : Nat → Option (List (BitVec 32))}
    (hTest : (blockTest data size num_threads B true stored fun _ =>
      List.range (size / num_threads / B)).Aligned) :
    BlocksAligned (size / num_threads) B :=
  blocksAligned_of_blockLoop (slice_aligned hData hSlice 0)
    (Nat.lt_of_le_of_lt (Nat.div_le_self _ _) hSize)
    (aligned_onSlices.mp hTest 0 hThreads)

/-- The block tests by themselves are aligned in some more cases. -/
theorem randomTests_aligned_iff {data size num_threads B : Nat}
    (hData : 32 ∣ data) (hThreads : 0 < num_threads)
    (hSlice : 32 ∣ size / num_threads) (hSize : size < 2 ^ 64)
    (stored : Nat → Option (List (BitVec 32))) :
    (∀ order, (∀ t, BlockOrder (size / num_threads) B (order t)) →
      (blockTest data size num_threads B true stored order).Aligned) ↔
      BlocksAligned (size / num_threads) B := by
  constructor
  · intro hAll
    exact blocksAligned_of_blockTest hData hThreads hSlice hSize
      (hAll _ fun _ => blockOrder_of_perm (List.Perm.refl _))
  · intro hBlocks order hOrder
    exact blockTest_aligned hData hSlice hSize hOrder hBlocks true

/-! ## The stride tests -/

/-- The blocks and the jumps are whole lanes, as far as the slice lets the nest
see a second one of them. -/
def StridesAligned (per_thread_size stride BLOCK_SIZE : Nat) : Prop :=
  (32 ∣ BLOCK_SIZE ∨ per_thread_size < BLOCK_SIZE + 32) ∧
    (32 ∣ stride ∨ per_thread_size < stride + BLOCK_SIZE + 32)

instance (per_thread_size stride BLOCK_SIZE : Nat) :
    Decidable (StridesAligned per_thread_size stride BLOCK_SIZE) :=
  inferInstanceAs (Decidable (_ ∧ _))

section Strides

variable {n S B : Nat}

theorem stridesAligned_iff (hB : 0 < B) (hS : 0 < S) :
    StridesAligned n S B ↔ ∀ lane ∈ traversal n S B, 32 ∣ lane := by
  constructor
  · rintro ⟨hBlock, hStride⟩ lane hLane
    obtain ⟨k, hk, hPhase⟩ := mem_traversal.mp hLane
    obtain ⟨i, j, -, -, hFits, rfl⟩ := (mem_phaseLaneOffsets hB).mp hPhase
    have hPhases : 32 ∣ B * k := by
      rcases hBlock with hDvd | hShort
      · exact hDvd.mul_right k
      · cases k with
        | zero => exact Nat.dvd_zero 32
        | succ k =>
            rw [Nat.mul_succ] at hFits
            omega
    have hJumps : 32 ∣ (S + B) * i := by
      cases i with
      | zero => exact Nat.dvd_zero 32
      | succ i =>
          rw [Nat.mul_succ] at hFits
          have hWhole : 32 ∣ S + B := by omega
          exact hWhole.mul_right (i + 1)
    exact Nat.dvd_add (Nat.dvd_add hPhases hJumps) (Nat.dvd_mul_right 32 j)
  · intro hAll
    have hLanes := (lanesPerBlock_bounds B).1
    obtain ⟨-, hEnd, hPos⟩ := phases_bounds (S := S) hB
    -- The second phase starts one block further on.
    have hBlock : 32 ∣ B ∨ n < B + 32 := by
      by_contra hNot
      push Not at hNot
      have hSecond : 1 < phases S B := by
        by_contra hOne
        rw [show phases S B = 1 by omega] at hEnd
        omega
      refine hNot.1 (hAll B (mem_traversal.mpr ⟨1, hSecond, ?_⟩))
      exact (mem_phaseLaneOffsets hB).mpr ⟨0, 0, by omega, by omega, by omega,
        by omega⟩
    -- The first phase goes on one jump further on.
    have hStride : 32 ∣ S ∨ n < S + B + 32 := by
      by_contra hNot
      push Not at hNot
      have hJump : 32 ∣ S + B := by
        refine hAll (S + B) (mem_traversal.mpr ⟨0, hPos, ?_⟩)
        exact (mem_phaseLaneOffsets hB).mpr ⟨1, 0, by omega, by omega, by omega,
          by omega⟩
      omega
    exact ⟨hBlock, hStride⟩

/-- Where the strides are aligned the blocks are. -/
theorem blocksAligned_of_stridesAligned (h : StridesAligned n S B) :
    BlocksAligned n B := by
  unfold BlocksAligned
  rcases h.1 with hDvd | hShort
  · rw [Nat.mod_eq_zero_of_dvd hDvd]
    omega
  · rcases Nat.lt_or_ge B 32 with hSmall | hLane
    · exact Or.inl hSmall
    · have hOne : n / B < 2 := (Nat.div_lt_iff_lt_mul (by omega)).mpr (by omega)
      rw [show n / B - 1 = 0 by omega]
      omega

/-- The nest ends, and comes by at the lanes of the traversal. -/
theorem strideTest_settles (data : Nat) {size num_threads : Nat}
    (hB : 0 < B) (hB' : B < 2 ^ 31) (hS : S < 2 ^ 31) (hSize : size < 2 ^ 63)
    (bypass_cache : Bool) (stored : Nat → Option (List (BitVec 32))) :
    Settles (fun fuel =>
        strideTest fuel data size num_threads S B bypass_cache stored)
      (onSlices data size num_threads fun t thread_data _ =>
        strideLoop thread_data bypass_cache (stored t)
          (traversal (size / num_threads) S B)) := by
  have hSlice : size / num_threads ≤ size := Nat.div_le_self _ _
  refine ⟨size / num_threads + S + B, fun fuel hFuel => ?_⟩
  show strideTest fuel data size num_threads S B bypass_cache stored = _
  rw [strideTest, strideLanes_eq hB (by omega) hFuel]
  rfl

theorem strideLoop_aligned_iff {thread_data : Nat} (hData : 32 ∣ thread_data)
    (stored : Option (List (BitVec 32))) (lanes : List Nat) :
    (∀ a ∈ (strideLoop thread_data true stored lanes).accesses, a.Aligned) ↔
      ∀ lane ∈ lanes, 32 ∣ lane := by
  have hAccesses : (strideLoop thread_data true stored lanes).accesses =
      lanes.map fun lane =>
        { addr := thread_data + lane
          bytes := 32
          nonTemporal := true
          stored := stored } := by
    rw [strideLoop, timedLoop_accesses, ← List.flatMap_def]
    exact (List.map_eq_flatMap).symm
  rw [hAccesses, List.forall_mem_map]
  constructor
  · intro hAll lane hLane
    exact (Nat.dvd_add_right hData).mp (hAll lane hLane rfl)
  · intro hAll lane hLane _
    exact Nat.dvd_add hData (hAll lane hLane)

end Strides

/-- The run of a stride test ends, with all its accesses aligned. -/
def EndsAligned (run : Nat → Option Measurement) : Prop :=
  ∃ m, Settles run m ∧ m.Aligned

/-- Both stride tests are aligned exactly when the blocks and the jumps are. -/
theorem strideTest_aligned_iff {data size num_threads S B : Nat}
    (hData : 32 ∣ data) (hThreads : 0 < num_threads)
    (hSlice : 32 ∣ size / num_threads) (hSize : size < 2 ^ 63) (hB : 0 < B)
    (hB' : B < 2 ^ 31) (hS : 0 < S) (hS' : S < 2 ^ 31)
    (stored : Nat → Option (List (BitVec 32))) :
    (EndsAligned fun fuel =>
        strideTest fuel data size num_threads S B true stored) ↔
      StridesAligned (size / num_threads) S B := by
  have hEnd := @strideTest_settles S B data size num_threads hB hB' hS' hSize
    true stored
  rw [stridesAligned_iff hB hS]
  constructor
  · rintro ⟨m, hRun, hAligned⟩
    obtain rfl := hRun.unique hEnd
    exact (strideLoop_aligned_iff (slice_aligned hData hSlice 0) (stored 0) _).mp
      (aligned_onSlices.mp hAligned 0 hThreads)
  · intro hLanes
    refine ⟨_, hEnd, aligned_onSlices.mpr fun t _ => ?_⟩
    exact (strideLoop_aligned_iff (slice_aligned hData hSlice t) (stored t)
      _).mpr hLanes

/-! ## All seven tests -/

/-- With `--bypass-cache` all accesses of the seven tests are aligned, whatever
the shuffles and the sampled ranks are. -/
structure BypassAligned (data size num_threads STRIDE_SIZE BLOCK_SIZE : Nat) :
    Prop where
  sequentialRead : (measureSequentialRead data size num_threads true).Aligned
  sequentialWrite : (measureSequentialWrite data size num_threads true).Aligned
  randomRead : ∀ shuffled, (∀ t, (shuffled t).Perm
      (List.range (size / num_threads / BLOCK_SIZE))) →
    (measureRandomRead data size num_threads BLOCK_SIZE true shuffled).Aligned
  randomWrite : ∀ shuffled, (∀ t, (shuffled t).Perm
      (List.range (size / num_threads / BLOCK_SIZE))) →
    (measureRandomWrite data size num_threads BLOCK_SIZE true shuffled).Aligned
  zipfianRead : ∀ shuffled ranks, (∀ t, (shuffled t).Perm
      (List.range (size / num_threads / BLOCK_SIZE))) →
    (∀ t, (ranks t).length = size / num_threads / BLOCK_SIZE ∧
      ∀ rank ∈ ranks t, rank < size / num_threads / BLOCK_SIZE) →
    (measureZipfianRead data size num_threads BLOCK_SIZE true shuffled
      ranks).Aligned
  strideRead : EndsAligned fun fuel =>
    measureStrideRead fuel data size num_threads STRIDE_SIZE BLOCK_SIZE true
  strideWrite : EndsAligned fun fuel =>
    measureStrideWrite fuel data size num_threads STRIDE_SIZE BLOCK_SIZE true

/-- Exactly when the streaming instructions of all tests get the alignment they
need: the sizes have to be whole lanes, unless the slice is too short for a
second block or a second jump. -/
theorem bypassAligned_iff (data size num_threads mib S B : Nat)
    (hData : 4096 ∣ data) (hThreads : 0 < num_threads) (hSize : size < 2 ^ 63)
    (hMib : size / num_threads = mib * 2 ^ 20) (hB : 0 < B) (hB' : B < 2 ^ 31)
    (hS : 0 < S) (hS' : S < 2 ^ 31) :
    BypassAligned data size num_threads S B ↔
      StridesAligned (size / num_threads) S B := by
  have hRegion : 32 ∣ data := Nat.dvd_trans (by decide) hData
  have hSlice : 32 ∣ size / num_threads := by
    rw [hMib]
    exact Dvd.dvd.mul_left (by decide) mib
  have hStrides := @strideTest_aligned_iff data size num_threads S B hRegion
    hThreads hSlice hSize hB hB' hS hS'
  constructor
  · intro hTests
    exact (hStrides fun _ => none).mp hTests.strideRead
  · intro hAligned
    have hBlocks := @randomTests_aligned_iff data size num_threads B hRegion
      hThreads hSlice (by omega)
    have hSequential := @sequentialTests_aligned data size num_threads hRegion
      hSlice true
    have hAll := blocksAligned_of_stridesAligned hAligned
    exact
      { sequentialRead := hSequential.1
        sequentialWrite := hSequential.2
        randomRead := fun shuffled hShuffled => (hBlocks _).mpr hAll shuffled
          fun t => blockOrder_of_perm (hShuffled t)
        randomWrite := fun shuffled hShuffled => (hBlocks _).mpr hAll shuffled
          fun t => blockOrder_of_perm (hShuffled t)
        zipfianRead := fun shuffled ranks hShuffled hRanks =>
          (hBlocks _).mpr hAll (fun t => accessSequence (shuffled t) (ranks t))
            fun t => blockOrder_accessSequence (hShuffled t) (hRanks t).2
        strideRead := (hStrides _).mpr hAligned
        strideWrite := (hStrides _).mpr hAligned }

/-- Eight threads with the default block size and stride. -/
theorem bypassAligned_iff_default :
    BypassAligned 4096 (8 * (500 * 2 ^ 20)) 8 64 64 :=
  (bypassAligned_iff 4096 (8 * (500 * 2 ^ 20)) 8 500 64 64 (by decide)
    (by decide) (by decide) (by decide) (by decide) (by decide) (by decide)
    (by decide)).mpr (by decide)

/-- One thread, 1 MiB, `--block-size 100 --bypass-cache`: block 1 starts at byte
100. -/
theorem bypassAligned_not_always :
    ¬ ∀ (data size num_threads mib S B : Nat), 4096 ∣ data →
      0 < num_threads → size < 2 ^ 63 → size / num_threads = mib * 2 ^ 20 →
      0 < B → B < 2 ^ 31 → 0 < S → S < 2 ^ 31 →
      BypassAligned data size num_threads S B := by
  intro h
  have hTests := h 4096 (2 ^ 20) 1 1 64 100 (by decide) (by decide) (by decide)
    (by decide) (by decide) (by decide) (by decide) (by decide)
  have hBlocks := blocksAligned_of_blockTest (by decide) (by decide) (by decide)
    (by decide) (hTests.randomRead _ fun _ => List.Perm.refl _)
  exact absurd hBlocks (by decide)

end MioBench.Bench
