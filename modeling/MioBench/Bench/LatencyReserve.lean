import MioBench.Bench.Instrumented

/-!
# Room for the samples

Before its timed loop a thread of the latency build reserves room in
`latency_buffer`: twice the number of lanes, over the sampling interval.  The
loops sample a cache line or a block out of `LATENCY_SAMPLE_INTERVAL`, rounded
up, which is less as soon as there are as many lanes as that.
-/

namespace MioBench.Bench

/-- `expected_samples` of `measureSequentialRead`. -/
def sequentialExpectedSamples (per_thread_size : Nat) : Nat :=
  per_thread_size / 4 / 8 / latencySampleInterval * 2

/-- `expected_samples` of `measureRandomRead` and `measureZipfianRead`. -/
def blockExpectedSamples (per_thread_size BLOCK_SIZE : Nat) : Nat :=
  per_thread_size / BLOCK_SIZE * (BLOCK_SIZE / 32) % 2 ^ 64 /
    latencySampleInterval * 2

/-! ## The sequential loop -/

section Samples

variable (tracing : Bool) (rdtsc : Nat → UInt64)

theorem record_counters (b : Build) (s : Instrumented) (addr bytes : Nat) :
    (s.record b rdtsc addr bytes).latencies = s.latencies ∧
      (s.record b rdtsc addr bytes).count = s.count := by
  unfold Instrumented.record
  split
  · exact ⟨rfl, rfl⟩
  · exact ⟨rfl, rfl⟩

/-- Recorded loads are not timed, and are no rounds. -/
theorem loadRecord_counters (b : Build) (l : List (Nat × Nat))
    (s : Instrumented) :
    (l.foldl (Instrumented.loadRecord b rdtsc) s).latencies = s.latencies ∧
      (l.foldl (Instrumented.loadRecord b rdtsc) s).count = s.count := by
  induction l generalizing s with
  | nil => exact ⟨rfl, rfl⟩
  | cons r l ih =>
      have hRest := ih (s.loadRecord b rdtsc r)
      have hHead := record_counters rdtsc b (s.load r.1 r.2) r.1 r.2
      exact ⟨hRest.1.trans hHead.1, hRest.2.trans hHead.2⟩

/-- A round of the sequential loop on lane `k`. -/
theorem sequentialRound_counters (thread_data : Nat) (s : Instrumented)
    (k : Nat) :
    (sequentialRound ⟨tracing, true⟩ rdtsc thread_data s (8 * k)).latencies =
        s.latencies + (if s.count % 100 = 0 ∧ k % 2 = 0 then 1 else 0) ∧
      (sequentialRound ⟨tracing, true⟩ rdtsc thread_data s (8 * k)).count =
        if k % 2 = 1 then (s.count + 1) % 2 ^ 64 else s.count := by
  have hLane : 8 * k / 8 = k := Nat.mul_div_cancel_left k (by decide)
  unfold sequentialRound
  dsimp only
  rw [(record_counters rdtsc _ _ _ _).1, (record_counters rdtsc _ _ _ _).2,
    hLane, if_pos rfl]
  unfold latencySampleInterval
  by_cases hSampled : s.count % 100 = 0 ∧ k % 2 = 0
  · rw [if_pos hSampled, if_pos hSampled, if_neg (by omega), if_neg (by omega)]
    exact ⟨rfl, rfl⟩
  · rw [if_neg hSampled, if_neg hSampled]
    split
    · exact ⟨rfl, rfl⟩
    · exact ⟨rfl, rfl⟩

/-- After `lanes` lanes every other one has closed a cache line, and of the
cache lines begun every hundredth has been sampled. -/
theorem sequentialRounds_counters (thread_data : Nat) {lanes : Nat}
    (hLanes : lanes < 2 ^ 64) :
    let s := ((List.range lanes).map fun k => 8 * k).foldl
      (sequentialRound ⟨tracing, true⟩ rdtsc thread_data) Instrumented.start
    s.latencies = (lanes + 199) / 200 ∧ s.count = lanes / 2 := by
  induction lanes with
  | zero => exact ⟨rfl, rfl⟩
  | succ lanes ih =>
      have hBefore := ih (by omega)
      rw [List.range_succ, List.map_append, List.foldl_append]
      dsimp only at hBefore ⊢
      generalize ((List.range lanes).map fun k => 8 * k).foldl
        (sequentialRound ⟨tracing, true⟩ rdtsc thread_data) Instrumented.start = s
        at hBefore
      have hRound := sequentialRound_counters tracing rdtsc thread_data s lanes
      rw [hBefore.1, hBefore.2] at hRound
      rw [List.map_singleton, List.foldl_cons, List.foldl_nil, hRound.1, hRound.2]
      constructor
      · split
        · omega
        · omega
      · split
        · omega
        · omega

theorem sequentialReadLoop_latencies (thread_data : Nat) {per_thread_size : Nat}
    (hSize : per_thread_size < 2 ^ 64) :
    (sequentialReadLoop ⟨tracing, true⟩ rdtsc thread_data
      per_thread_size).latencies = (per_thread_size / 4 / 8 + 199) / 200 := by
  have hLanes := sequentialRounds_counters tracing rdtsc thread_data
    (show per_thread_size / 4 / 8 < 2 ^ 64 by omega)
  unfold sequentialReadLoop
  dsimp only
  rw [(loadRecord_counters rdtsc _ _ _).1, laneStarts_eq]
  simpa using hLanes.1

/-! ## The block loops -/

/-- A round of the block loops. -/
theorem blockRound_counters (thread_data B : Nat) (s : Instrumented)
    (index : Nat) :
    (blockRound ⟨tracing, true⟩ rdtsc thread_data B s index).latencies =
        s.latencies + (if s.count % 100 = 0 ∧ 32 ≤ B then 1 else 0) ∧
      (blockRound ⟨tracing, true⟩ rdtsc thread_data B s index).count =
        (s.count + 1) % 2 ^ 64 := by
  have hLane : 8 ≤ B / 4 ↔ 32 ≤ B := by omega
  unfold blockRound latencySampleInterval
  dsimp only
  simp only [hLane]
  by_cases hSampled : s.count % 100 = 0 ∧ 32 ≤ B
  · rw [if_pos hSampled, if_pos hSampled]
    exact loadRecord_counters rdtsc _ _ _
  · rw [if_neg hSampled, if_neg hSampled]
    exact loadRecord_counters rdtsc _ _ _

/-- Blocks without a lane are never sampled; of the others every hundredth
is. -/
theorem blockRounds_counters (thread_data B : Nat) (blocks : List Nat)
    (hBlocks : blocks.length < 2 ^ 64) :
    let s := blocks.foldl (blockRound ⟨tracing, true⟩ rdtsc thread_data B)
      Instrumented.start
    s.latencies = (if 32 ≤ B then (blocks.length + 99) / 100 else 0) ∧
      s.count = blocks.length := by
  induction blocks using List.reverseRecOn with
  | nil => simp [Instrumented.start]
  | append_singleton blocks index ih =>
      rw [List.length_append, List.length_singleton] at hBlocks ⊢
      have hBefore := ih (by omega)
      rw [List.foldl_append]
      dsimp only at hBefore ⊢
      generalize blocks.foldl (blockRound ⟨tracing, true⟩ rdtsc thread_data B)
        Instrumented.start = s at hBefore
      have hRound := blockRound_counters tracing rdtsc thread_data B s index
      rw [hBefore.1, hBefore.2] at hRound
      rw [List.foldl_cons, List.foldl_nil, hRound.1, hRound.2]
      constructor
      · by_cases hLane : 32 ≤ B
        · simp only [hLane, and_true, ↓reduceIte]
          split
          · omega
          · omega
        · simp only [hLane, and_false, ↓reduceIte]
      · exact Nat.mod_eq_of_lt hBlocks

theorem blockReadLoop_latencies (thread_data B : Nat) {num_blocks : Nat}
    (hBlocks : num_blocks < 2 ^ 64) (order : List Nat) :
    (blockReadLoop ⟨tracing, true⟩ rdtsc thread_data num_blocks B
      order).latencies = if 32 ≤ B then (num_blocks + 99) / 100 else 0 := by
  have hRounds := (blockRounds_counters tracing rdtsc thread_data B
    ((List.range num_blocks).map fun i => order.getD i 0) (by simpa)).1
  simpa [blockReadLoop] using hRounds

end Samples

/-! ## The reservation -/

/-- From a hundred lanes on, twice the floor is at least the ceiling. -/
theorem ceil_le_two_floor {lanes : Nat} (h : 100 ≤ lanes) :
    (lanes + 99) / 100 ≤ lanes / 100 * 2 := by omega

/-- Of a slice of 1 MiB or more the blocks that fit have many lanes together,
if they have one at all: together they fill at least half of the slice, and no
block loses more than half of itself to the lanes being whole. -/
theorem lanes_of_blocks {per_thread_size B : Nat} (hSize : 2 ^ 20 ≤ per_thread_size)
    (hLane : 32 ≤ B) (hSome : 0 < per_thread_size / B) :
    100 ≤ per_thread_size / B * (B / 32) := by
  have hSlice := Nat.div_add_mod per_thread_size B
  have hRest := Nat.mod_lt per_thread_size (show 0 < B by omega)
  generalize per_thread_size / B = num_blocks at hSome hSlice
  have hHalf : per_thread_size ≤ 2 * (num_blocks * B) := by
    have hOne : B ≤ B * num_blocks := Nat.le_mul_of_pos_right B hSome
    rw [Nat.mul_comm num_blocks B]
    omega
  have hWhole : num_blocks * B ≤ num_blocks * (64 * (B / 32)) :=
    Nat.mul_le_mul_left num_blocks (by omega)
  rw [Nat.mul_left_comm] at hWhole
  omega

theorem blockSamples_le {per_thread_size B : Nat}
    (hSize : 2 ^ 20 ≤ per_thread_size) (hSize' : per_thread_size < 2 ^ 64) :
    (if 32 ≤ B then (per_thread_size / B + 99) / 100 else 0) ≤
      blockExpectedSamples per_thread_size B := by
  unfold blockExpectedSamples latencySampleInterval
  split
  · rename_i hLane
    have hNoWrap : per_thread_size / B * (B / 32) < 2 ^ 64 := by
      calc per_thread_size / B * (B / 32)
          ≤ per_thread_size / B * B :=
            Nat.mul_le_mul_left _ (Nat.div_le_self B 32)
        _ ≤ per_thread_size := Nat.div_mul_le_self per_thread_size B
        _ < 2 ^ 64 := hSize'
    rw [Nat.mod_eq_of_lt hNoWrap]
    rcases Nat.eq_zero_or_pos (per_thread_size / B) with hNone | hSome
    · rw [hNone]
      exact Nat.zero_le _
    · have hLanes := lanes_of_blocks hSize hLane hSome
      have hBlocks : per_thread_size / B ≤ per_thread_size / B * (B / 32) :=
        Nat.le_mul_of_pos_right _ (by omega)
      calc (per_thread_size / B + 99) / 100
          ≤ (per_thread_size / B * (B / 32) + 99) / 100 :=
            Nat.div_le_div_right (Nat.add_le_add_right hBlocks 99)
        _ ≤ per_thread_size / B * (B / 32) / 100 * 2 := ceil_le_two_floor hLanes
  · exact Nat.zero_le _

/-- **Room for the samples**, for every slice of 1 MiB or more that a `size_t`
holds, every block size and every order of the blocks: no thread of the latency
build, tracing or not, pushes more samples than it has reserved. -/
theorem latencySamples_le_expected (tracing : Bool) (rdtsc : Nat → UInt64)
    (thread_data : Nat) {per_thread_size BLOCK_SIZE : Nat}
    (hSize : 2 ^ 20 ≤ per_thread_size) (hSize' : per_thread_size < 2 ^ 64)
    (indices access_sequence : List Nat) :
    (sequentialReadLoop ⟨tracing, true⟩ rdtsc thread_data
        per_thread_size).latencies ≤
      sequentialExpectedSamples per_thread_size ∧
    (randomReadLoop ⟨tracing, true⟩ rdtsc thread_data per_thread_size BLOCK_SIZE
        indices).latencies ≤
      blockExpectedSamples per_thread_size BLOCK_SIZE ∧
    (zipfianReadLoop ⟨tracing, true⟩ rdtsc thread_data per_thread_size BLOCK_SIZE
        access_sequence).latencies ≤
      blockExpectedSamples per_thread_size BLOCK_SIZE := by
  have hBlocks : per_thread_size / BLOCK_SIZE < 2 ^ 64 :=
    Nat.lt_of_le_of_lt (Nat.div_le_self _ _) hSize'
  refine ⟨?_, ?_, ?_⟩
  · rw [sequentialReadLoop_latencies tracing rdtsc thread_data hSize',
      sequentialExpectedSamples, latencySampleInterval]
    omega
  · rw [randomReadLoop,
      blockReadLoop_latencies tracing rdtsc thread_data BLOCK_SIZE hBlocks]
    exact blockSamples_le hSize hSize'
  · rw [zipfianReadLoop,
      blockReadLoop_latencies tracing rdtsc thread_data BLOCK_SIZE hBlocks]
    exact blockSamples_le hSize hSize'

/-- The largest blocks that fit a slice of 1 MiB twice are sampled once. -/
theorem latencySamples_le_expected_two :
    (randomReadLoop ⟨false, true⟩ (fun _ => 0) 4096 (2 ^ 20) (2 ^ 19)
      [1, 0]).latencies ≤ 654 :=
  (latencySamples_le_expected false (fun _ => 0) 4096 (le_refl (2 ^ 20))
    (by decide) [1, 0] []).2.1

end MioBench.Bench
