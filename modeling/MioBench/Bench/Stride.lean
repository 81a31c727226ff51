import MioBench.Bench.Access
import MioBench.Lib.ForLoop
import Mathlib.Algebra.BigOperators.Group.Finset.Sigma
import Mathlib.Order.WellFounded

/-!
# Stride tests

`measureStrideRead` and `measureStrideWrite` share one nest of loops: phases
one block apart, offsets `stride + BLOCK_SIZE` apart, and 32-byte lanes inside
the block.  Taken in address order instead of loop order, the nest visits the
block starts `0, B, 2B, ..` of one jump, then those of the next; how far these
starts tile the slice decides how many bytes the tests move.
-/

namespace MioBench.Bench

open Lib

/-- The lane offsets the loop nest touches, in its order; `fuel` bounds the
iterations of each loop. -/
def strideLanes (fuel per_thread_size stride BLOCK_SIZE : Nat) :
    Option (List Nat) :=
  let jump := (stride + BLOCK_SIZE) % 2 ^ 64
  (countUp (2 ^ 64) fuel 0 jump BLOCK_SIZE).bind <| gather fun phase =>
    (countUp (2 ^ 64) fuel phase per_thread_size jump).bind <|
      gather fun offset =>
        (countUp (2 ^ 64) fuel 0 BLOCK_SIZE 32).map fun bs =>
          (bs.filter fun b =>
            decide ((offset + b + 32) % 2 ^ 64 ≤ per_thread_size)).map
              fun b => offset + b

/-- One round of the timed loop is one lane. -/
def strideLoop (thread_data : Nat) (bypass_cache : Bool)
    (stored : Option (List (BitVec 32))) (lanes : List Nat) : ThreadLoop :=
  timedLoop 32 (lanes.map fun lane =>
    [{ addr := thread_data + lane
       bytes := 32
       nonTemporal := bypass_cache
       stored := stored }])

/-- The common part of the two tests. -/
def strideTest (fuel data size num_threads stride BLOCK_SIZE : Nat)
    (bypass_cache : Bool) (stored : Nat → Option (List (BitVec 32))) :
    Option Measurement :=
  (strideLanes fuel (size / num_threads) stride BLOCK_SIZE).map fun lanes =>
    onSlices data size num_threads fun t thread_data _ =>
      strideLoop thread_data bypass_cache (stored t) lanes

def measureStrideRead (fuel data size num_threads stride BLOCK_SIZE : Nat)
    (bypass_cache : Bool) : Option Measurement :=
  strideTest fuel data size num_threads stride BLOCK_SIZE bypass_cache
    fun _ => none

/-- As the read, storing `_mm256_set1_epi32(t)`. -/
def measureStrideWrite (fuel data size num_threads stride BLOCK_SIZE : Nat)
    (bypass_cache : Bool) : Option Measurement :=
  strideTest fuel data size num_threads stride BLOCK_SIZE bypass_cache
    fun t => some (set1 t)

/-! ## The traversal in address order -/

section AddressOrder

variable (stride BLOCK_SIZE : Nat)

/-- Number of phases. -/
def phases : Nat := trips 0 (stride + BLOCK_SIZE) BLOCK_SIZE

/-- Lanes in one block, the last of which may reach beyond it. -/
def lanesPerBlock : Nat := trips 0 BLOCK_SIZE 32

/-- Offset of the `q`-th block of the traversal in address order. -/
def blockStart (q : Nat) : Nat :=
  q / phases stride BLOCK_SIZE * (stride + BLOCK_SIZE) +
    q % phases stride BLOCK_SIZE * BLOCK_SIZE

/-- How many of these blocks have all their lanes inside a slice. -/
def wholeBlocks (per_thread_size : Nat) : Nat :=
  let room := per_thread_size - 32 * lanesPerBlock BLOCK_SIZE
  if 32 * lanesPerBlock BLOCK_SIZE ≤ per_thread_size then
    room / (stride + BLOCK_SIZE) * phases stride BLOCK_SIZE +
      room % (stride + BLOCK_SIZE) / BLOCK_SIZE + 1
  else 0

/-- The lanes of the whole blocks reach less than one lane beyond where the
next block starts, and the block after that one has no lane in the slice. -/
def StrideExact (per_thread_size : Nat) : Prop :=
  let whole := wholeBlocks stride BLOCK_SIZE per_thread_size
  32 * (whole * lanesPerBlock BLOCK_SIZE) <
      blockStart stride BLOCK_SIZE whole + 32 ∧
    per_thread_size < blockStart stride BLOCK_SIZE (whole + 1) + 32

instance (per_thread_size : Nat) :
    Decidable (StrideExact stride BLOCK_SIZE per_thread_size) :=
  inferInstanceAs (Decidable (_ ∧ _))

end AddressOrder

section Nest

variable {n S B : Nat}

theorem lanesPerBlock_bounds (B : Nat) :
    B ≤ 32 * lanesPerBlock B ∧ 32 * lanesPerBlock B < B + 32 := by
  unfold lanesPerBlock trips
  omega

/-- The last phase starts inside the jump and the next would not. -/
theorem phases_bounds (hB : 0 < B) :
    (phases S B - 1) * B < S + B ∧ S + B ≤ phases S B * B ∧
      0 < phases S B := by
  have hPos : 0 < phases S B :=
    (lt_trips_iff hB 0).mpr (by omega)
  have hLast := (@lt_trips_iff 0 (S + B) B hB (phases S B - 1)).mp
    (by unfold phases at hPos ⊢; omega)
  have hNext := (@lt_trips_iff 0 (S + B) B hB (phases S B)).not.mp
    (Nat.lt_irrefl _)
  rw [Nat.zero_add, Nat.mul_comm] at hLast hNext
  exact ⟨hLast, by omega, hPos⟩

theorem mul_phases_lt (hB : 0 < B) : B * phases S B < S + B + B := by
  obtain ⟨hLast, _, hPos⟩ := phases_bounds (S := S) hB
  have hSplit : B * phases S B = (phases S B - 1) * B + B := by
    rw [← Nat.succ_mul, Nat.succ_eq_add_one, Nat.sub_add_cancel hPos,
      Nat.mul_comm]
  omega

/-- A block size that divides the stride divides the jump into phases. -/
theorem mul_phases_of_dvd (hB : 0 < B) (hStride : B ∣ S) :
    B * phases S B = S + B := by
  obtain ⟨k, rfl⟩ := hStride
  obtain ⟨hLast, hEnd, _⟩ := phases_bounds (S := B * k) hB
  have hJump : B * k + B = (k + 1) * B := by
    rw [Nat.succ_mul, Nat.mul_comm]
  rw [hJump] at hLast hEnd
  have hLow := Nat.lt_of_mul_lt_mul_right hLast
  have hHigh := Nat.le_of_mul_le_mul_right hEnd hB
  rw [hJump, Nat.mul_comm, show phases (B * k) B = k + 1 by omega]

theorem blockStart_nested {k : Nat} (hk : k < phases S B) (i : Nat) :
    blockStart S B (i * phases S B + k) = i * (S + B) + k * B := by
  have hPos : 0 < phases S B := by omega
  unfold blockStart
  rw [Nat.mul_comm i, Nat.mul_add_div hPos, Nat.mul_add_mod,
    Nat.div_eq_of_lt hk, Nat.mod_eq_of_lt hk, Nat.add_zero]

/-- The index of a block as its jump and its phase. -/
theorem block_cases (hB : 0 < B) (q : Nat) :
    ∃ i k, k < phases S B ∧ q = i * phases S B + k := by
  have hPos := (phases_bounds (S := S) hB).2.2
  refine ⟨q / phases S B, q % phases S B, Nat.mod_lt _ hPos, ?_⟩
  rw [Nat.mul_comm]
  exact (Nat.div_add_mod q _).symm

/-- Neighbouring block starts are between 1 and `B` bytes apart. -/
theorem blockStart_succ (hB : 0 < B) (q : Nat) :
    blockStart S B q < blockStart S B (q + 1) ∧
      blockStart S B (q + 1) ≤ blockStart S B q + B := by
  rcases phases_bounds (S := S) hB with ⟨hLast, hNext, hPos⟩
  rcases block_cases (S := S) hB q with ⟨i, k, hk, hq⟩
  rw [hq, blockStart_nested hk]
  by_cases hk' : k + 1 < phases S B
  · rw [Nat.add_assoc, blockStart_nested hk', Nat.succ_mul]
    omega
  · have hWrap : i * phases S B + k + 1 = (i + 1) * phases S B + 0 := by
      rw [Nat.succ_mul]
      omega
    have hk'' : phases S B = k + 1 := by omega
    rw [hWrap, blockStart_nested hPos, Nat.succ_mul, Nat.zero_mul]
    rw [hk'', Nat.add_sub_cancel] at hLast
    rw [hk'', Nat.succ_mul] at hNext
    omega

theorem blockStart_strictMono (hB : 0 < B) : StrictMono (blockStart S B) :=
  strictMono_nat_of_lt_succ fun q => (blockStart_succ hB q).1

/-- The last block that starts at or before `x`. -/
theorem blockStart_le_iff (hB : 0 < B) (x q : Nat) :
    blockStart S B q ≤ x ↔
      q ≤ x / (S + B) * phases S B + x % (S + B) / B := by
  have hJump : 0 < S + B := by omega
  have hSplit := Nat.div_add_mod x (S + B)
  have hRest := Nat.mod_lt x hJump
  have hSplit' := Nat.div_add_mod (x % (S + B)) B
  have hRest' := Nat.mod_lt (x % (S + B)) hB
  rw [Nat.mul_comm] at hSplit hSplit'
  rcases phases_bounds (S := S) hB with ⟨_, hNext, hPos⟩
  have hPhase : x % (S + B) / B < phases S B := by
    apply (Nat.div_lt_iff_lt_mul hB).mpr
    omega
  have hLast := blockStart_nested hPhase (x / (S + B))
  have hAfter : x < blockStart S B
      (x / (S + B) * phases S B + x % (S + B) / B + 1) := by
    by_cases hPhase' : x % (S + B) / B + 1 < phases S B
    · rw [Nat.add_assoc, blockStart_nested hPhase', Nat.succ_mul]
      omega
    · have hWrap : x / (S + B) * phases S B + x % (S + B) / B + 1 =
          (x / (S + B) + 1) * phases S B + 0 := by
        rw [Nat.succ_mul]
        omega
      rw [hWrap, blockStart_nested hPos, Nat.succ_mul]
      omega
  constructor
  · intro hLe
    by_contra hGt
    have hMono := (blockStart_strictMono (S := S) hB).monotone
      (show x / (S + B) * phases S B + x % (S + B) / B + 1 ≤ q by omega)
    omega
  · intro hLe
    have hMono := (blockStart_strictMono (S := S) hB).monotone hLe
    omega

/-- The count of whole blocks is right. -/
theorem lt_wholeBlocks_iff (hB : 0 < B) (q : Nat) :
    q < wholeBlocks S B n ↔
      blockStart S B q + 32 * lanesPerBlock B ≤ n := by
  unfold wholeBlocks
  by_cases hRoom : 32 * lanesPerBlock B ≤ n
  · have hLe := blockStart_le_iff (S := S) hB (n - 32 * lanesPerBlock B) q
    simp only [hRoom, ↓reduceIte]
    omega
  · simp only [hRoom, ↓reduceIte]
    omega

end Nest

/-! ## Lanes of blocks that overlap or are cut off -/

/-- Blocks of `c` lanes at the offsets `start 0 < start 1 < ..`, less than a
block's lanes apart, put exactly `n` bytes of lanes into a slice of `n` bytes
if and only if the whole blocks overrun the next start by less than a lane and
only one block is cut off. -/
theorem sum_lanes_eq_iff {start : Nat → Nat} {n c whole count : Nat}
    (hZero : start 0 = 0) (hMono : StrictMono start)
    (hGap : ∀ q, start (q + 1) ≤ start q + 32 * c) (hc : 0 < c)
    (hn : 32 ∣ n) (hWhole : ∀ q, q < whole ↔ start q + 32 * c ≤ n)
    (hCount : whole + 2 ≤ count) :
    32 * ∑ q ∈ Finset.range count, min c ((n - start q) / 32) = n ↔
      32 * (whole * c) < start whole + 32 ∧ n < start (whole + 1) + 32 := by
  rcases Nat.exists_eq_add_of_le hCount with ⟨rest, hRest⟩
  have hFull : ∑ q ∈ Finset.range whole, min c ((n - start q) / 32) =
      whole * c := by
    have hEach : ∀ q ∈ Finset.range whole,
        min c ((n - start q) / 32) = c := by
      intro q hq
      have hRoom := (hWhole q).mp (Finset.mem_range.mp hq)
      omega
    rw [Finset.sum_congr rfl hEach]
    simp
  have hCut : min c ((n - start whole) / 32) = (n - start whole) / 32 := by
    have hNone := (hWhole whole).not.mp (Nat.lt_irrefl _)
    omega
  -- Gaps never exceed the lanes of a block, so the whole blocks reach at
  -- least as far as the next start, which is still inside the slice.
  have hReach : start whole ≤ 32 * (whole * c) := by
    have hAll : ∀ q, start q ≤ 32 * (q * c) := by
      intro q
      induction q with
      | zero => omega
      | succ q ih =>
          have hStep := hGap q
          rw [Nat.succ_mul q c]
          omega
    exact hAll whole
  have hInside : start whole ≤ n := by
    cases whole with
    | zero => omega
    | succ q =>
        have hRoom := (hWhole q).mp (by omega)
        have hStep := hGap q
        omega
  -- What the blocks after the cut one contribute.
  have hTail : (∑ q ∈ Finset.range (rest + 1),
      min c ((n - start (whole + 1 + q)) / 32) = 0) ↔
        n < start (whole + 1) + 32 := by
    rw [Finset.sum_eq_zero_iff]
    constructor
    · intro hZeros
      have hFirst := hZeros 0 (Finset.mem_range.mpr (by omega))
      rw [Nat.add_zero] at hFirst
      omega
    · intro hLt q _
      have hLe := hMono.monotone (show whole + 1 ≤ whole + 1 + q by omega)
      omega
  have hSplit : ∑ q ∈ Finset.range count, min c ((n - start q) / 32) =
      whole * c + (n - start whole) / 32 +
        ∑ q ∈ Finset.range (rest + 1),
          min c ((n - start (whole + 1 + q)) / 32) := by
    rw [hRest, show whole + 2 + rest = whole + 1 + (rest + 1) by omega,
      Finset.sum_range_add, Finset.sum_range_succ, hFull, hCut]
  rw [hSplit, ← hTail]
  generalize (∑ q ∈ Finset.range (rest + 1),
    min c ((n - start (whole + 1 + q)) / 32)) = tail
  generalize whole * c = filled at hReach ⊢
  omega

/-! ## The loop nest -/

section Loops

variable {n S B : Nat}

/-- The lanes of the block at `offset` that fit in the slice. -/
def blockLaneOffsets (per_thread_size BLOCK_SIZE offset : Nat) : List Nat :=
  (((List.range (lanesPerBlock BLOCK_SIZE)).map fun j => 32 * j).filter fun b =>
    decide (offset + b + 32 ≤ per_thread_size)).map fun b => offset + b

theorem length_filter_range_lt (c m : Nat) :
    ((List.range c).filter fun j => decide (j < m)).length = min c m := by
  induction c with
  | zero => simp
  | succ c ih =>
      rw [List.range_succ, List.filter_append, List.length_append, ih]
      by_cases hc : c < m
      · simp only [List.filter_cons, hc, decide_true, ↓reduceIte,
          List.filter_nil, List.length_singleton]
        omega
      · simp only [List.filter_cons, hc, decide_false, Bool.false_eq_true,
          ↓reduceIte, List.filter_nil, List.length_nil]
        omega

theorem length_blockLaneOffsets (n B offset : Nat) :
    (blockLaneOffsets n B offset).length =
      min (lanesPerBlock B) ((n - offset) / 32) := by
  have hFits : (fun j => decide (offset + 32 * j + 32 ≤ n)) =
      fun j => decide (j < (n - offset) / 32) := by
    funext j
    rw [decide_eq_decide]
    omega
  rw [blockLaneOffsets, List.length_map, List.filter_map, List.length_map,
    ← length_filter_range_lt]
  exact congrArg (fun p => ((List.range (lanesPerBlock B)).filter p).length)
    hFits

/-- The blocks of one phase, with their lanes. -/
def phaseLaneOffsets (per_thread_size stride BLOCK_SIZE phase : Nat) :
    List Nat :=
  ((List.range (trips phase per_thread_size (stride + BLOCK_SIZE))).map fun i =>
    phase + (stride + BLOCK_SIZE) * i).flatMap
      (blockLaneOffsets per_thread_size BLOCK_SIZE)

/-- The body of the outer loop. -/
def phaseLanes (fuel per_thread_size stride BLOCK_SIZE phase : Nat) :
    Option (List Nat) :=
  (countUp (2 ^ 64) fuel phase per_thread_size
      ((stride + BLOCK_SIZE) % 2 ^ 64)).bind <|
    gather fun offset =>
      (countUp (2 ^ 64) fuel 0 BLOCK_SIZE 32).map fun bs =>
        (bs.filter fun b =>
          decide ((offset + b + 32) % 2 ^ 64 ≤ per_thread_size)).map
            fun b => offset + b

theorem strideLanes_phases (fuel n S B : Nat) :
    strideLanes fuel n S B =
      (countUp (2 ^ 64) fuel 0 ((S + B) % 2 ^ 64) B).bind
        (gather (phaseLanes fuel n S B)) := rfl

/-- Inside a phase no counter wraps as long as the slice, the jump and the
lanes of a block leave room. -/
theorem phaseLanes_eq {fuel : Nat} (hB : 0 < B) (hJump : n + S + B ≤ 2 ^ 64)
    (hJump' : S + B < 2 ^ 64) (hLanes : n + 32 * lanesPerBlock B < 2 ^ 64)
    (hFuel : n + S + B ≤ fuel) (phase : Nat) :
    phaseLanes fuel n S B phase = some (phaseLaneOffsets n S B phase) := by
  have hOffsets : countUp (2 ^ 64) fuel phase n (S + B) =
      some ((List.range (trips phase n (S + B))).map fun i =>
        phase + (S + B) * i) := by
    have hTrips := @trips_le phase n (S + B) (by omega)
    exact countUp_eq (by omega) (by omega) (by omega)
  have hBlock : countUp (2 ^ 64) fuel 0 B 32 =
      some ((List.range (lanesPerBlock B)).map fun j => 0 + 32 * j) := by
    have hTrips := @trips_le 0 B 32 (by omega)
    refine countUp_eq_of_lt (by omega) (fun j hj => ?_) (by omega)
    have hLast : 32 * (j + 1) ≤ 32 * lanesPerBlock B :=
      Nat.mul_le_mul_left _ hj
    omega
  simp only [Nat.zero_add] at hBlock
  rw [phaseLanes, Nat.mod_eq_of_lt hJump', hOffsets, Option.bind_some]
  apply gather_eq
  intro offset hOffset
  have hBelow : offset < n := by
    rcases List.mem_map.mp hOffset with ⟨i, hi, rfl⟩
    exact (lt_trips_iff (by omega) i).mp (List.mem_range.mp hi)
  rw [hBlock, Option.map_some, blockLaneOffsets]
  congr 2
  apply List.filter_congr
  intro b hb
  have hLane : b + 32 ≤ 32 * lanesPerBlock B := by
    rcases List.mem_map.mp hb with ⟨j, hj, rfl⟩
    have hLast : 32 * (j + 1) ≤ 32 * lanesPerBlock B :=
      Nat.mul_le_mul_left _ (List.mem_range.mp hj)
    omega
  rw [Nat.mod_eq_of_lt (by omega)]

/-- When moreover the phases end below the wrap, all three loops end and visit
their arithmetic progressions. -/
theorem strideLanes_eq_of_lt {fuel : Nat} (hB : 0 < B)
    (hJump : n + S + B ≤ 2 ^ 64) (hLanes : n + 32 * lanesPerBlock B < 2 ^ 64)
    (hPhases : B * phases S B < 2 ^ 64) (hFuel : n + S + B ≤ fuel) :
    strideLanes fuel n S B = some
      (((List.range (phases S B)).map fun k => B * k).flatMap
        (phaseLaneOffsets n S B)) := by
  have hBounds := (phases_bounds (S := S) hB).2.1
  rw [Nat.mul_comm] at hBounds
  have hOuter : countUp (2 ^ 64) fuel 0 (S + B) B =
      some ((List.range (phases S B)).map fun k => 0 + B * k) := by
    have hTrips := @trips_le 0 (S + B) B hB
    refine countUp_eq_of_lt hB (fun k hk => ?_) (by omega)
    have hLast : B * (k + 1) ≤ B * phases S B := Nat.mul_le_mul_left _ hk
    omega
  simp only [Nat.zero_add] at hOuter
  rw [strideLanes_phases, Nat.mod_eq_of_lt (by omega), hOuter,
    Option.bind_some]
  exact gather_eq fun phase _ =>
    phaseLanes_eq hB hJump (by omega) hLanes hFuel phase

/-- Where no counter can wrap, all three loops end and visit their arithmetic
progressions. -/
theorem strideLanes_eq {fuel : Nat} (hB : 0 < B)
    (hRoom : n + S + 2 * B + 32 ≤ 2 ^ 64) (hFuel : n + S + B ≤ fuel) :
    strideLanes fuel n S B = some
      (((List.range (phases S B)).map fun k => B * k).flatMap
        (phaseLaneOffsets n S B)) := by
  have hLanes := lanesPerBlock_bounds B
  have hPhases := mul_phases_lt (S := S) hB
  exact strideLanes_eq_of_lt hB (by omega) (by omega) (by omega) hFuel

/-- The number of lanes, summed in address order over any number of blocks
that covers the slice. -/
theorem length_phaseLaneOffsets (hB : 0 < B) :
    (((List.range (phases S B)).map fun k => B * k).flatMap
      (phaseLaneOffsets n S B)).length =
    ∑ q ∈ Finset.range ((n + 2) * phases S B),
      min (lanesPerBlock B) ((n - blockStart S B q) / 32) := by
  have hPhase : ∀ k, k < phases S B →
      (phaseLaneOffsets n S B (B * k)).length =
        ∑ i ∈ Finset.range (n + 2), min (lanesPerBlock B)
          ((n - blockStart S B (i * phases S B + k)) / 32) := by
    intro k hk
    -- Offsets at or beyond the end of the slice have no lane, so all phases
    -- may be summed over the same range.
    have hRange : Finset.range (trips (B * k) n (S + B)) ⊆
        Finset.range (n + 2) := by
      have hLe := @trips_le (B * k) n (S + B) (by omega)
      exact Finset.range_mono (by omega)
    rw [phaseLaneOffsets, List.length_flatMap, List.map_map, sum_map_range]
    simp only [Function.comp_apply, length_blockLaneOffsets]
    refine (Finset.sum_subset hRange ?_).trans (Finset.sum_congr rfl ?_)
    · intro i _ hOut
      have hPast := (@lt_trips_iff (B * k) n (S + B) (by omega) i).not.mp
          (fun hi => hOut (Finset.mem_range.mpr hi))
      omega
    · intro i _
      rw [blockStart_nested hk, Nat.mul_comm B k, Nat.mul_comm (S + B) i,
        Nat.add_comm (k * B)]
  rw [List.length_flatMap, List.map_map, sum_map_range]
  simp only [Function.comp_apply]
  rw [Finset.sum_congr rfl fun k hk => hPhase k (Finset.mem_range.mp hk),
    Finset.sum_comm]
  exact sum_range_nested (fun q => min (lanesPerBlock B)
    ((n - blockStart S B q) / 32)) (n + 2) (phases S B)

theorem strideLoop_bytes (thread_data : Nat) (bypass_cache : Bool)
    (stored : Option (List (BitVec 32))) (lanes : List Nat) :
    ((strideLoop thread_data bypass_cache stored lanes).accesses.map
      Access.bytes).sum = lanes.length * 32 := by
  rw [strideLoop, timedLoop_accesses, List.map_flatten, List.sum_flatten,
    List.map_map, List.map_map]
  simp [Function.comp_def]

/-- The lanes of the nest are worth exactly the slice if and only if the
traversal is exact. -/
theorem lanes_bytes_eq_iff (hB : 0 < B) (hn : 32 ∣ n) :
    (((List.range (phases S B)).map fun k => B * k).flatMap
      (phaseLaneOffsets n S B)).length * 32 = n ↔ StrideExact S B n := by
  have hLanes := lanesPerBlock_bounds B
  have hPos := (phases_bounds (S := S) hB).2.2
  have hCount : wholeBlocks S B n + 2 ≤ (n + 2) * phases S B := by
    have hWhole : wholeBlocks S B n ≤ n := by
      by_contra hLt
      have hFits := (lt_wholeBlocks_iff (S := S) (n := n) hB n).mp (by omega)
      have hGrow : n ≤ blockStart S B n := (blockStart_strictMono hB).le_apply
      omega
    have hMul := Nat.le_mul_of_pos_right (n + 2) hPos
    omega
  rw [length_phaseLaneOffsets hB, Nat.mul_comm]
  have hZero : blockStart S B 0 = 0 := by simp [blockStart]
  apply sum_lanes_eq_iff hZero (blockStart_strictMono hB) ?_ (by omega) hn
    (lt_wholeBlocks_iff hB) hCount
  intro q
  have hGap := (blockStart_succ (S := S) hB q).2
  omega

end Loops

/-- The common part of the two tests: the nest ends within `n + S + B`
iterations of each loop, and the bytes moved are `size` exactly when the
traversal is exact. -/
theorem strideTest_bytesMoved_iff (data num_threads n S B : Nat)
    (hThreads : 0 < num_threads) (hB : 0 < B) (hn : 32 ∣ n)
    (hRoom : n + S + 2 * B + 32 ≤ 2 ^ 64) (bypass_cache : Bool)
    (stored : Nat → Option (List (BitVec 32))) :
    ∃ m, (∀ fuel, n + S + B ≤ fuel →
        strideTest fuel data (num_threads * n) num_threads S B bypass_cache
          stored = some m) ∧
      (m.bytesMoved = num_threads * n ↔ StrideExact S B n) := by
  refine ⟨onSlices data (num_threads * n) num_threads
    fun t thread_data _ => strideLoop thread_data bypass_cache (stored t)
      (((List.range (phases S B)).map fun k => B * k).flatMap
        (phaseLaneOffsets n S B)), ?_, ?_⟩
  · intro fuel hFuel
    rw [strideTest, Nat.mul_div_cancel_left n hThreads,
      strideLanes_eq hB hRoom hFuel, Option.map_some]
  · rw [bytesMoved_onSlices data (num_threads * n) num_threads
      fun t thread_data => strideLoop_bytes ..,
      ← lanes_bytes_eq_iff hB hn]
    constructor
    · intro hTotal
      exact Nat.eq_of_mul_eq_mul_left hThreads hTotal
    · intro hSlice
      rw [hSlice]

/-- For every thread count, slice size in MiB, block size and stride, both tests
end, and the bytes they load or store are the `size` of the bandwidth exactly
when the traversal is exact.  (`memory_per_thread_mib` is an `int`, so the
bound on `mib` always holds.) -/
theorem strideTests_bytesMoved_iff (data num_threads mib S B : Nat)
    (hThreads : 0 < num_threads) (hMib : mib < 2 ^ 43) (hB : 0 < B)
    (hB' : B < 2 ^ 31) (hS : S < 2 ^ 31) (bypass_cache : Bool) :
    ∃ read write, (∀ fuel, mib * 2 ^ 20 + S + B ≤ fuel →
        measureStrideRead fuel data (num_threads * (mib * 2 ^ 20)) num_threads
            S B bypass_cache = some read ∧
          measureStrideWrite fuel data (num_threads * (mib * 2 ^ 20))
            num_threads S B bypass_cache = some write) ∧
      (read.bytesMoved = num_threads * (mib * 2 ^ 20) ↔
        StrideExact S B (mib * 2 ^ 20)) ∧
      (write.bytesMoved = num_threads * (mib * 2 ^ 20) ↔
        StrideExact S B (mib * 2 ^ 20)) := by
  have hLane : 32 ∣ mib * 2 ^ 20 :=
    Dvd.dvd.mul_left (by decide) mib
  have hTest := strideTest_bytesMoved_iff data num_threads (mib * 2 ^ 20) S B
    hThreads hB hLane (by omega) bypass_cache
  rcases hTest fun _ => none with ⟨read, hRead, hRead'⟩
  rcases hTest fun t => some (set1 t) with ⟨write, hWrite, hWrite'⟩
  exact ⟨read, write, fun fuel hFuel => ⟨hRead fuel hFuel, hWrite fuel hFuel⟩,
    hRead', hWrite'⟩

/-- Eight threads with the default block size and stride. -/
theorem strideTests_bytesMoved_iff_default :
    ∃ read write, (∀ fuel, 500 * 2 ^ 20 + 64 + 64 ≤ fuel →
        measureStrideRead fuel 4096 (8 * (500 * 2 ^ 20)) 8 64 64 false =
            some read ∧
          measureStrideWrite fuel 4096 (8 * (500 * 2 ^ 20)) 8 64 64 false =
            some write) ∧
      (read.bytesMoved = 8 * (500 * 2 ^ 20) ↔
        StrideExact 64 64 (500 * 2 ^ 20)) ∧
      (write.bytesMoved = 8 * (500 * 2 ^ 20) ↔
        StrideExact 64 64 (500 * 2 ^ 20)) :=
  strideTests_bytesMoved_iff 4096 8 500 64 64 (by decide) (by decide)
    (by decide) (by decide) (by decide) false

/-- Blocks of whole lanes that divide the stride tile every slice. -/
theorem strideExact_of_dvd {S B : Nat} (n : Nat) (hB : 0 < B) (hLane : 32 ∣ B)
    (hStride : B ∣ S) : StrideExact S B n := by
  have hLanes : 32 * lanesPerBlock B = B := by
    have hBounds := lanesPerBlock_bounds B
    omega
  have hStart : ∀ q, blockStart S B q = q * B := by
    intro q
    have hSplit := Nat.div_add_mod q (phases S B)
    rw [blockStart, ← mul_phases_of_dvd hB hStride, Nat.mul_comm B,
      ← Nat.mul_assoc, ← Nat.add_mul, Nat.mul_comm (q / phases S B), hSplit]
  have hNext := (lt_wholeBlocks_iff (S := S) (n := n) hB
    (wholeBlocks S B n)).not.mp (Nat.lt_irrefl _)
  simp only [StrideExact]
  rw [hStart] at hNext
  rw [hStart, hStart, Nat.mul_left_comm, hLanes, Nat.succ_mul]
  omega

/-- One thread, 1 MiB, `--block-size 4096` and the default stride: the second
phase reads nearly everything the first has read. -/
theorem strideTests_not_exact :
    ¬ ∀ (data num_threads mib S B : Nat) (bypass_cache : Bool),
      0 < num_threads → mib < 2 ^ 43 → 0 < B → B < 2 ^ 31 → 0 < S →
      S < 2 ^ 31 → ∃ read write,
        (∀ fuel, mib * 2 ^ 20 + S + B ≤ fuel →
          measureStrideRead fuel data (num_threads * (mib * 2 ^ 20))
              num_threads S B bypass_cache = some read ∧
            measureStrideWrite fuel data (num_threads * (mib * 2 ^ 20))
              num_threads S B bypass_cache = some write) ∧
        read.bytesMoved = num_threads * (mib * 2 ^ 20) ∧
        write.bytesMoved = num_threads * (mib * 2 ^ 20) := by
  intro h
  rcases h 4096 1 1 64 4096 false (by decide) (by decide) (by decide)
    (by decide) (by decide) (by decide) with ⟨read, write, hRuns, hBytes, _⟩
  rcases strideTest_bytesMoved_iff 4096 1 (1 * 2 ^ 20) 64 4096 (by decide)
    (by decide) (by decide) (by decide) false fun _ => none with
    ⟨m, hRun, hExact⟩
  have hSame : read = m := by
    have hRead := (hRuns (1 * 2 ^ 20 + 64 + 4096) (Nat.le_refl _)).1
    rw [measureStrideRead, hRun _ (Nat.le_refl _)] at hRead
    exact (Option.some.inj hRead).symm
  rw [hSame] at hBytes
  exact absurd (hExact.mp hBytes) (by decide)

end MioBench.Bench
