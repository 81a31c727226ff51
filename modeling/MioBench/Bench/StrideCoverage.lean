import Mathlib.Algebra.Order.BigOperators.Group.Finset
import MioBench.Bench.Stride
import MioBench.Lib.Cover

/-!
# What the stride traversal covers

A byte lies in one period of `stride + BLOCK_SIZE` bytes, in one block of that
period and in one lane of that block, and the loop nest comes by there unless
the lane would leave the slice.  Whether it comes by twice is decided by the
last block of a period, which reaches into the next period unless the block
size divides the stride.

The phase counter alone may wrap before it reaches `stride + BLOCK_SIZE`; the
nest then goes on from a small phase again, perhaps for ever.  What is touched
in that case is stated for the nest cut after a number of phases.
-/

namespace MioBench.Bench

open MioBench.Lib

/-- The lanes of the first `rounds` phases of the nest. -/
def strideLanesUpTo (fuel rounds per_thread_size stride BLOCK_SIZE : Nat) :
    Option (List Nat) :=
  let jump := (stride + BLOCK_SIZE) % 2 ^ 64
  gather (phaseLanes fuel per_thread_size stride BLOCK_SIZE) <|
    visitsUpTo (fun phase => decide (phase < jump))
      (fun phase => (phase + BLOCK_SIZE) % 2 ^ 64) rounds 0

/-- A nest that ends is the nest cut late enough. -/
theorem strideLanesUpTo_eq {fuel rounds n S B : Nat} {lanes : List Nat}
    (h : strideLanes fuel n S B = some lanes) (hRounds : fuel ≤ rounds) :
    strideLanesUpTo fuel rounds n S B = some lanes := by
  rw [strideLanes_phases, Option.bind_eq_some_iff] at h
  obtain ⟨phases, hPhases, hLanes⟩ := h
  rw [strideLanesUpTo, visitsUpTo_eq hPhases hRounds]
  exact hLanes

section Coverage

variable {n S B : Nat}

theorem mem_blockLaneOffsets {offset lane : Nat} :
    lane ∈ blockLaneOffsets n B offset ↔
      ∃ j, j < lanesPerBlock B ∧ offset + 32 * j + 32 ≤ n ∧
        lane = offset + 32 * j := by
  simp only [blockLaneOffsets, List.mem_map, List.mem_filter, List.mem_range,
    decide_eq_true_eq]
  constructor
  · rintro ⟨b, ⟨⟨j, hj, rfl⟩, hFits⟩, rfl⟩
    exact ⟨j, hj, hFits, rfl⟩
  · rintro ⟨j, hj, hFits, rfl⟩
    exact ⟨32 * j, ⟨⟨j, hj, rfl⟩, hFits⟩, rfl⟩

theorem mem_phaseLaneOffsets {phase lane : Nat} (hB : 0 < B) :
    lane ∈ phaseLaneOffsets n S B phase ↔
      ∃ i j, phase + (S + B) * i < n ∧ j < lanesPerBlock B ∧
        phase + (S + B) * i + 32 * j + 32 ≤ n ∧
        lane = phase + (S + B) * i + 32 * j := by
  simp only [phaseLaneOffsets, List.mem_flatMap, List.mem_map, List.mem_range,
    mem_blockLaneOffsets]
  constructor
  · rintro ⟨offset, ⟨i, hi, rfl⟩, j, hj, hFits, rfl⟩
    exact ⟨i, j, (lt_trips_iff (by omega) i).mp hi, hj, hFits, rfl⟩
  · rintro ⟨i, j, hi, hj, hFits, rfl⟩
    exact ⟨_, ⟨i, (lt_trips_iff (by omega) i).mpr hi, rfl⟩, j, hj, hFits, rfl⟩

/-- No lane of a phase leaves the slice. -/
theorem phaseLaneOffsets_inside {phase lane : Nat} (hB : 0 < B)
    (hLane : lane ∈ phaseLaneOffsets n S B phase) : lane + 32 ≤ n := by
  obtain ⟨i, j, _, _, hFits, rfl⟩ := (mem_phaseLaneOffsets hB).mp hLane
  exact hFits

/-- The phase that comes by at byte `x`. -/
theorem exists_lane {x : Nat} (hB : 0 < B) (hx : x + 32 ≤ n) :
    ∃ k, k < phases S B ∧ ∃ lane ∈ phaseLaneOffsets n S B (B * k),
      lane ≤ x ∧ x < lane + 32 := by
  have hPeriod := Nat.div_add_mod x (S + B)
  have hBlock := Nat.div_add_mod (x % (S + B)) B
  have hLane := Nat.div_add_mod (x % (S + B) % B) 32
  have hRest := Nat.mod_lt x (show 0 < S + B by omega)
  have hRest' := Nat.mod_lt (x % (S + B)) hB
  have hRest'' := Nat.mod_lt (x % (S + B) % B) (show 0 < 32 by decide)
  have hLanes := (lanesPerBlock_bounds B).1
  refine ⟨x % (S + B) / B, ?_, _, (mem_phaseLaneOffsets hB).mpr
    ⟨x / (S + B), x % (S + B) % B / 32, ?_, ?_, ?_, rfl⟩, ?_, ?_⟩
  · have hEnd := (phases_bounds (S := S) hB).2.1
    exact (Nat.div_lt_iff_lt_mul hB).mpr (by omega)
  · omega
  · omega
  · omega
  · omega
  · omega

/-- Where the slice and the blocks consist of whole lanes, every phase starts
with one. -/
theorem exists_lane_of_aligned {x : Nat} (hB : 0 < B) (hn : 32 ∣ n)
    (hLane : 32 ∣ B) (hStride : 32 ∣ S) (hx : x < n) :
    ∃ k, k < phases S B ∧ ∃ lane ∈ phaseLaneOffsets n S B (B * k),
      lane ≤ x ∧ x < lane + 32 := by
  -- The lane of `x` is that of the first byte of its 32 bytes.
  obtain ⟨k, hk, lane, hMem, hLow, hHigh⟩ :=
    @exists_lane n S B (x - x % 32) hB (by omega)
  obtain ⟨i, j, _, _, _, hEq⟩ := (mem_phaseLaneOffsets hB).mp hMem
  have hWhole : 32 ∣ lane := by
    rw [hEq]
    exact Nat.dvd_add (Nat.dvd_add (hLane.mul_right k)
      ((Nat.dvd_add hStride hLane).mul_right i)) (Nat.dvd_mul_right 32 j)
  exact ⟨k, hk, lane, hMem, by omega, by omega⟩

/-- The lanes of the whole traversal. -/
def traversal (per_thread_size stride BLOCK_SIZE : Nat) : List Nat :=
  ((List.range (phases stride BLOCK_SIZE)).map fun k =>
    BLOCK_SIZE * k).flatMap (phaseLaneOffsets per_thread_size stride BLOCK_SIZE)

theorem mem_traversal {lane : Nat} :
    lane ∈ traversal n S B ↔
      ∃ k, k < phases S B ∧ lane ∈ phaseLaneOffsets n S B (B * k) := by
  simp [traversal]

theorem covering_traversal (x : Nat) :
    covering 32 (traversal n S B) x =
      ∑ k ∈ Finset.range (phases S B),
        covering 32 (phaseLaneOffsets n S B (B * k)) x := by
  rw [traversal, covering_flatMap, List.map_map, sum_map_range]
  rfl

/-- Blocks of whole lanes that divide the stride come by at each byte once. -/
theorem covering_traversal_eq_one {x : Nat} (hB : 0 < B) (hn : 32 ∣ n)
    (hLane : 32 ∣ B) (hStride : B ∣ S) (hx : x < n) :
    covering 32 (traversal n S B) x = 1 := by
  refine covering_eq_one (n := n) ?_ ?_ ?_ hx
  · intro lane hMem
    obtain ⟨k, _, hPhase⟩ := mem_traversal.mp hMem
    exact phaseLaneOffsets_inside hB hPhase
  · exact (lanes_bytes_eq_iff hB hn).mpr (strideExact_of_dvd n hB hLane hStride)
  · intro y hy
    obtain ⟨k, hk, lane, hMem, hLow, hHigh⟩ :=
      exists_lane_of_aligned hB hn hLane (hLane.trans hStride) hy
    exact covering_pos (mem_traversal.mpr ⟨k, hk, hMem⟩) hLow hHigh

/-- Otherwise the last block of a period reaches the first byte of the next,
where the first phase has come by. -/
theorem two_le_covering_traversal (hB : 0 < B) (hS : 0 < S) (hStride : ¬ B ∣ S)
    (hRoom : S + B + 32 ≤ n) : 2 ≤ covering 32 (traversal n S B) (S + B) := by
  obtain ⟨hLast, hEnd, hPos⟩ := phases_bounds (S := S) hB
  have hNotDvd : phases S B * B ≠ S + B := by
    intro hEq
    exact hStride ((Nat.dvd_add_left (Nat.dvd_refl B)).mp
      (hEq ▸ Nat.dvd_mul_left B (phases S B)))
  rw [Nat.mul_comm] at hLast hEnd hNotDvd
  have hSplit : B * phases S B = B * (phases S B - 1) + B := by
    rw [← Nat.mul_succ, Nat.succ_eq_add_one, Nat.sub_add_cancel hPos]
  have hMany : phases S B - 1 ≠ 0 := by
    intro hOne
    rw [hOne, Nat.mul_zero] at hSplit
    omega
  have hLanes := (lanesPerBlock_bounds B).1
  have hFirst : 0 < covering 32 (phaseLaneOffsets n S B (B * 0)) (S + B) := by
    refine covering_pos ((mem_phaseLaneOffsets hB).mpr
      ⟨1, 0, by omega, by omega, by omega, rfl⟩) ?_ ?_
    · omega
    · omega
  have hSecond : 0 <
      covering 32 (phaseLaneOffsets n S B (B * (phases S B - 1))) (S + B) := by
    have hLane := Nat.div_add_mod (S + B - B * (phases S B - 1)) 32
    have hRest := Nat.mod_lt (S + B - B * (phases S B - 1))
      (show 0 < 32 by decide)
    refine covering_pos ((mem_phaseLaneOffsets hB).mpr
      ⟨0, (S + B - B * (phases S B - 1)) / 32, ?_, ?_, ?_, rfl⟩) ?_ ?_
    · omega
    · omega
    · omega
    · omega
    · omega
  have hPair : ({0, phases S B - 1} : Finset Nat) ⊆
      Finset.range (phases S B) := by
    intro k hk
    simp only [Finset.mem_insert, Finset.mem_singleton] at hk
    rw [Finset.mem_range]
    omega
  have hSum := Finset.sum_le_sum_of_subset (f := fun k =>
    covering 32 (phaseLaneOffsets n S B (B * k)) (S + B)) hPair
  rw [Finset.sum_pair hMany.symm] at hSum
  rw [covering_traversal]
  omega

/-! ## The nest in 64-bit arithmetic -/

/-- The phases the nest starts with, before any counter can wrap. -/
theorem mem_visitsUpTo_phases {rounds k : Nat} (hB : 0 < B)
    (hWrap : S + B < 2 ^ 64) (hRounds : phases S B ≤ rounds)
    (hk : k < phases S B) :
    B * k ∈ visitsUpTo (fun phase => decide (phase < (S + B) % 2 ^ 64))
      (fun phase => (phase + B) % 2 ^ 64) rounds 0 := by
  have hJump : (S + B) % 2 ^ 64 = S + B := Nat.mod_eq_of_lt hWrap
  have hBelow : ∀ i, i < phases S B → B * i < S + B := by
    intro i hi
    have hLt := (@lt_trips_iff 0 _ _ hB i).mp hi
    omega
  refine mem_visitsUpTo (fun i => B * i) (fun i hi => ?_) (fun i hi => ?_)
    hRounds hk
  · rw [hJump]
    simpa using hBelow i hi
  · have hNext := hBelow (i + 1) hi
    rw [Nat.mul_succ] at hNext
    show (B * i + B) % 2 ^ 64 = B * (i + 1)
    rw [Nat.mod_eq_of_lt (by omega), Nat.mul_succ]

/-- The lanes of the nest, cut after any number of phases. -/
theorem strideLanesUpTo_some {fuel : Nat} (hB : 0 < B) (hLane : 32 ∣ B)
    (hWrap : n + S + B < 2 ^ 64) (hFuel : n + S + B ≤ fuel) (rounds : Nat) :
    strideLanesUpTo fuel rounds n S B = some
      ((visitsUpTo (fun phase => decide (phase < (S + B) % 2 ^ 64))
        (fun phase => (phase + B) % 2 ^ 64) rounds 0).flatMap
          (phaseLaneOffsets n S B)) := by
  have hLanes := lanesPerBlock_bounds B
  exact gather_eq fun phase _ =>
    phaseLanes_eq hB (by omega) (by omega) (by omega) hFuel phase

/-- Exact coverage of the stride traversal.  However many phases the nest has
gone through, it stays inside the slice, and the first `phases` of them come by
at every byte whose 32 bytes fit.  When the block size divides the stride, the
nest ends and comes by at each byte once; when it does not, the nest ends and
comes by at the first byte of the second period twice. -/
theorem stride_coverage (n S B fuel : Nat) (hn : 32 ∣ n) (hLane : 32 ∣ B)
    (hB : 0 < B) (hS : 0 < S) (hWrap : n + S + B < 2 ^ 64)
    (hFuel : n + S + B ≤ fuel) :
    (∀ rounds, ∃ lanes, strideLanesUpTo fuel rounds n S B = some lanes ∧
      ∀ lane ∈ lanes, lane + 32 ≤ n) ∧
    (∀ rounds, phases S B ≤ rounds →
      ∃ lanes, strideLanesUpTo fuel rounds n S B = some lanes ∧
        ∀ x, x + 32 ≤ n → 1 ≤ covering 32 lanes x) ∧
    (B ∣ S → ∃ lanes, strideLanes fuel n S B = some lanes ∧
      ∀ x, x < n → covering 32 lanes x = 1) ∧
    (¬ B ∣ S → S + B + 32 ≤ n →
      ∃ lanes, strideLanes fuel n S B = some lanes ∧
        2 ≤ covering 32 lanes (S + B)) := by
  have hCut := strideLanesUpTo_some (n := n) (S := S) hB hLane hWrap hFuel
  have hLanes := lanesPerBlock_bounds B
  refine ⟨fun rounds => ⟨_, hCut rounds, fun lane hMem => ?_⟩,
    fun rounds hRounds => ⟨_, hCut rounds, fun x hx => ?_⟩, fun hStride => ?_,
    fun hStride hRoom => ?_⟩
  · obtain ⟨phase, _, hPhase⟩ := List.mem_flatMap.mp hMem
    exact phaseLaneOffsets_inside hB hPhase
  · obtain ⟨k, hk, lane, hMem, hLow, hHigh⟩ := exists_lane (S := S) hB hx
    have hVisit := mem_visitsUpTo_phases hB (by omega) hRounds hk
    exact covering_pos (List.mem_flatMap.mpr ⟨_, hVisit, hMem⟩) hLow hHigh
  · have hEnd := mul_phases_of_dvd hB hStride
    refine ⟨traversal n S B, strideLanes_eq_of_lt hB (by omega) (by omega)
      (by omega) hFuel, fun x hx => ?_⟩
    exact covering_traversal_eq_one hB hn hLane hStride hx
  · have hEnd := mul_phases_lt (S := S) hB
    refine ⟨traversal n S B, strideLanes_eq_of_lt hB (by omega) (by omega)
      (by omega) hFuel, ?_⟩
    exact two_le_covering_traversal hB hS hStride hRoom

end Coverage

/-- A slice of 1 MiB with the default block size and stride, and with a block
size that does not divide the stride. -/
theorem stride_coverage_default :
    (∃ lanes, strideLanes (2 ^ 21) (2 ^ 20) 64 64 = some lanes ∧
      ∀ x, x < 2 ^ 20 → covering 32 lanes x = 1) ∧
    (∃ lanes, strideLanes (2 ^ 21) (2 ^ 20) 64 96 = some lanes ∧
      2 ≤ covering 32 lanes 160) :=
  ⟨(stride_coverage (2 ^ 20) 64 64 (2 ^ 21) (by decide) (by decide) (by decide)
      (by decide) (by decide) (by decide)).2.2.1 (by decide),
    (stride_coverage (2 ^ 20) 64 96 (2 ^ 21) (by decide) (by decide) (by decide)
      (by decide) (by decide) (by decide)).2.2.2 (by decide) (by decide)⟩

end MioBench.Bench
