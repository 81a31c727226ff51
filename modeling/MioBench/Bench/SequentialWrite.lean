import Mathlib.Data.List.Nodup
import MioBench.Bench.RandomBlocks

/-!
# The sequential write test

`measureSequentialWrite` fills each slice with the indices of its `int32_t`:
eight at a time as long as eight are left, then one at a time.  Whatever the
size, the number of threads and the order in which their stores take effect,
the memory is that of the plain loop `thread_data[i] = i`.
-/

namespace MioBench.Bench

open MioBench.Lib

/-- `_mm256_set_epi32`: the last argument goes to the lowest address. -/
def setEpi32 (e7 e6 e5 e4 e3 e2 e1 e0 : Nat) : List (BitVec 32) :=
  [e0, e1, e2, e3, e4, e5, e6, e7].map (BitVec.ofNat 32)

/-- The store of eight `int32_t` at index `i`. -/
def vectorStore (thread_data : Nat) (bypass_cache : Bool) (i : Nat) : Access where
  addr := thread_data + 4 * i
  bytes := 32
  nonTemporal := bypass_cache
  stored := some (setEpi32 (i + 7) (i + 6) (i + 5) (i + 4) (i + 3) (i + 2)
    (i + 1) i)

/-- `thread_data[i] = static_cast<int32_t>(i)`. -/
def scalarStore (thread_data i : Nat) : Access where
  addr := thread_data + 4 * i
  bytes := 4
  nonTemporal := false
  stored := some [BitVec.ofNat 32 i]

/-- One round of the loop over the remaining elements, which never updates the
progress. -/
def scalarRound (thread_data : Nat) (s : ThreadLoop) (i : Nat) : ThreadLoop :=
  { s with
    accesses := s.accesses ++ [scalarStore thread_data i]
    local_bytes := (s.local_bytes + 4) % 2 ^ 64 }

/-- The loop of one thread. -/
def sequentialWriteLoop (thread_data per_thread_size : Nat)
    (bypass_cache : Bool) : ThreadLoop :=
  let per_thread_ints := per_thread_size / 4
  let starts := laneStarts per_thread_ints 0
  let s := starts.foldl
    (fun s i => s.round 32 [vectorStore thread_data bypass_cache i] (i / 8))
    ThreadLoop.start
  -- The index with which the first loop ends.
  let i := 8 * starts.length
  ((List.range' i (per_thread_ints - i)).foldl (scalarRound thread_data) s).flush

def measureSequentialWrite (data size num_threads : Nat) (bypass_cache : Bool) :
    Measurement :=
  onSlices data size num_threads fun _ thread_data per_thread_size =>
    sequentialWriteLoop thread_data per_thread_size bypass_cache

/-! ## What one thread stores and counts -/

theorem foldl_vectorStore (thread_data : Nat) (bypass_cache : Bool)
    (starts : List Nat) (s : ThreadLoop) :
    (starts.foldl (fun s i =>
        s.round 32 [vectorStore thread_data bypass_cache i] (i / 8))
        s).accesses =
      s.accesses ++ starts.map (vectorStore thread_data bypass_cache) ∧
    (starts.foldl (fun s i =>
        s.round 32 [vectorStore thread_data bypass_cache i] (i / 8))
        s).counted % 2 ^ 64 = (s.counted + 32 * starts.length) % 2 ^ 64 := by
  induction starts generalizing s with
  | nil => simp
  | cons i starts ih =>
      obtain ⟨hAccesses, hCounted⟩ :=
        ih (s.round 32 [vectorStore thread_data bypass_cache i] (i / 8))
      have hHead :=
        s.round_counted 32 [vectorStore thread_data bypass_cache i] (i / 8)
      rw [List.foldl_cons, List.map_cons, List.length_cons]
      constructor
      · rw [hAccesses, ThreadLoop.round_accesses, List.append_assoc]
        rfl
      · rw [hCounted]
        omega

theorem foldl_scalarRound (thread_data : Nat) (rest : List Nat)
    (s : ThreadLoop) :
    (rest.foldl (scalarRound thread_data) s).accesses =
      s.accesses ++ rest.map (scalarStore thread_data) ∧
    (rest.foldl (scalarRound thread_data) s).counted % 2 ^ 64 =
      (s.counted + 4 * rest.length) % 2 ^ 64 := by
  induction rest generalizing s with
  | nil => simp
  | cons i rest ih =>
      obtain ⟨hAccesses, hCounted⟩ := ih (scalarRound thread_data s i)
      rw [List.foldl_cons, List.map_cons, List.length_cons]
      constructor
      · rw [hAccesses, scalarRound, List.append_assoc]
        rfl
      · rw [hCounted]
        unfold ThreadLoop.counted scalarRound
        dsimp only
        omega

section Loop

variable {thread_data P : Nat} {bypass_cache : Bool}

theorem sequentialWriteLoop_accesses :
    (sequentialWriteLoop thread_data P bypass_cache).accesses =
      ((List.range (P / 4 / 8)).map fun k =>
        vectorStore thread_data bypass_cache (8 * k)) ++
      (List.range' (8 * (P / 4 / 8)) (P / 4 - 8 * (P / 4 / 8))).map
        (scalarStore thread_data) := by
  simp only [sequentialWriteLoop, ThreadLoop.flush_accesses,
    (foldl_scalarRound _ _ _).1, (foldl_vectorStore _ _ _ _).1,
    length_laneStarts]
  rw [laneStarts_eq, List.map_map]
  simp [ThreadLoop.start, Function.comp_def]

/-- All bytes of the whole `int32_t` of the slice are counted. -/
theorem sequentialWriteLoop_added :
    (sequentialWriteLoop thread_data P bypass_cache).added.sum % 2 ^ 64 =
      4 * (P / 4) % 2 ^ 64 := by
  have hCounted : (sequentialWriteLoop thread_data P bypass_cache).counted %
      2 ^ 64 = 4 * (P / 4) % 2 ^ 64 := by
    have hVector := (foldl_vectorStore thread_data bypass_cache
      (laneStarts (P / 4) 0) ThreadLoop.start).2
    rw [sequentialWriteLoop, ThreadLoop.flush_counted,
      (foldl_scalarRound _ _ _).2, length_laneStarts, List.length_range']
    rw [length_laneStarts] at hVector
    have hStart : ThreadLoop.start.counted = 0 := rfl
    omega
  simpa [sequentialWriteLoop, ThreadLoop.flush, ThreadLoop.counted]
    using hCounted

theorem mem_sequentialWriteLoop {a : Access} :
    a ∈ (sequentialWriteLoop thread_data P bypass_cache).accesses ↔
      (∃ k, k < P / 4 / 8 ∧ a = vectorStore thread_data bypass_cache (8 * k)) ∨
      ∃ i, 8 * (P / 4 / 8) ≤ i ∧ i < P / 4 ∧ a = scalarStore thread_data i := by
  rw [sequentialWriteLoop_accesses, List.mem_append, List.mem_map, List.mem_map]
  constructor
  · rintro (⟨k, hk, rfl⟩ | ⟨i, hi, rfl⟩)
    · exact Or.inl ⟨k, List.mem_range.mp hk, rfl⟩
    · have hBounds := List.mem_range'_1.mp hi
      exact Or.inr ⟨i, hBounds.1, by omega, rfl⟩
  · rintro (⟨k, hk, rfl⟩ | ⟨i, hLow, hHigh, rfl⟩)
    · exact Or.inl ⟨k, List.mem_range.mpr hk, rfl⟩
    · exact Or.inr ⟨i, List.mem_range'_1.mpr ⟨hLow, by omega⟩, rfl⟩

theorem sequentialWriteLoop_apart :
    (sequentialWriteLoop thread_data P bypass_cache).accesses.Pairwise
      Access.Apart := by
  rw [sequentialWriteLoop_accesses, List.pairwise_append, List.pairwise_map,
    List.pairwise_map]
  refine ⟨?_, ?_, ?_⟩
  · refine List.pairwise_lt_range.imp fun {k k'} hLt => Or.inl ?_
    show thread_data + 4 * (8 * k) + 32 ≤ thread_data + 4 * (8 * k')
    omega
  · refine (List.pairwise_lt_range' 1 (by decide)).imp fun {i i'} hLt => Or.inl ?_
    show thread_data + 4 * i + 4 ≤ thread_data + 4 * i'
    omega
  · intro a ha b hb
    obtain ⟨k, hk, rfl⟩ := List.mem_map.mp ha
    obtain ⟨i, hi, rfl⟩ := List.mem_map.mp hb
    have hVector := List.mem_range.mp hk
    have hScalar := (List.mem_range'_1.mp hi).1
    left
    show thread_data + 4 * (8 * k) + 32 ≤ thread_data + 4 * i
    omega

/-- The stores stay inside the whole `int32_t` of the slice and fill their
lanes. -/
theorem sequentialWriteLoop_inside {a : Access}
    (ha : a ∈ (sequentialWriteLoop thread_data P bypass_cache).accesses) :
    thread_data ≤ a.addr ∧ a.addr + a.bytes ≤ thread_data + 4 * (P / 4) ∧
      a.Filled := by
  rcases mem_sequentialWriteLoop.mp ha with ⟨k, hk, rfl⟩ | ⟨i, hLow, hHigh, rfl⟩
  · refine ⟨?_, ?_, ?_⟩
    · exact Nat.le_add_right _ _
    · show thread_data + 4 * (8 * k) + 32 ≤ _
      omega
    · rintro lanes ⟨⟩
      rfl
  · refine ⟨?_, ?_, ?_⟩
    · exact Nat.le_add_right _ _
    · show thread_data + 4 * i + 4 ≤ _
      omega
    · rintro lanes ⟨⟩
      rfl

theorem getD_setEpi32 (i : Nat) {l : Nat} (hl : l < 8) :
    ((setEpi32 (i + 7) (i + 6) (i + 5) (i + 4) (i + 3) (i + 2) (i + 1) i).getD
      l 0).toNat = (i + l) % 2 ^ 32 := by
  have hLanes : setEpi32 (i + 7) (i + 6) (i + 5) (i + 4) (i + 3) (i + 2)
      (i + 1) i = (List.range 8).map fun l => BitVec.ofNat 32 (i + l) := rfl
  rw [hLanes, List.getD_eq_getElem _ _ (by simpa using hl)]
  simp

/-- Some store writes `i` at index `i`. -/
theorem exists_store {i : Nat} (hi : i < P / 4) :
    ∃ a ∈ (sequentialWriteLoop thread_data P bypass_cache).accesses,
      ∃ lanes l, a.stored = some lanes ∧ l < lanes.length ∧
        a.addr + 4 * l = thread_data + 4 * i ∧
        (lanes.getD l 0).toNat = i % 2 ^ 32 := by
  rcases Nat.lt_or_ge i (8 * (P / 4 / 8)) with hVector | hScalar
  · have hSplit := Nat.div_add_mod i 8
    have hLane := Nat.mod_lt i (show 0 < 8 by decide)
    refine ⟨vectorStore thread_data bypass_cache (8 * (i / 8)),
      mem_sequentialWriteLoop.mpr (Or.inl ⟨i / 8, by omega, rfl⟩), _, i % 8, rfl,
      hLane, ?_, ?_⟩
    · show thread_data + 4 * (8 * (i / 8)) + 4 * (i % 8) = _
      omega
    · rw [getD_setEpi32 _ hLane, hSplit]
  · exact ⟨scalarStore thread_data i,
      mem_sequentialWriteLoop.mpr (Or.inr ⟨i, hScalar, hi, rfl⟩), _, 0, rfl,
      by simp, rfl, BitVec.toNat_ofNat i 32⟩

end Loop

/-- For every size, every number of threads and every order of their stores,
the test leaves in each slice what the plain loop would, touches nothing else,
and counts what it has stored. -/
theorem sequentialWrite_eq_scalar (data size num_threads : Nat)
    (bypass_cache : Bool) (hSize : size < 2 ^ 64) :
    (∀ before after,
      (measureSequentialWrite data size num_threads bypass_cache).FinalMemory
        before after →
      (∀ t i, t < num_threads → i < size / num_threads / 4 →
        leValue (after.read (data + t * (size / num_threads) + 4 * i) 4) =
          i % 2 ^ 32) ∧
      ∀ x, (∀ t, t < num_threads → x < data + t * (size / num_threads) ∨
          data + t * (size / num_threads) + 4 * (size / num_threads / 4) ≤ x) →
        after x = before x) ∧
    ∀ counter,
      (measureSequentialWrite data size num_threads bypass_cache).FinalCounter
        counter ↔ counter = num_threads * 4 * (size / num_threads / 4) := by
  constructor
  · intro before after hFinal
    have hFilled : ∀ a ∈ (measureSequentialWrite data size num_threads
        bypass_cache).accesses, a.Filled := by
      intro a ha
      obtain ⟨t, _, hLoop⟩ := mem_accesses_onSlices.mp ha
      exact (sequentialWriteLoop_inside hLoop).2.2
    have hApart : (measureSequentialWrite data size num_threads
        bypass_cache).accesses.Pairwise Access.Apart := by
      refine pairwise_onSlices data size num_threads
        (fun t _ => sequentialWriteLoop_apart) fun t _ a ha => ?_
      obtain ⟨hLow, hHigh, _⟩ := sequentialWriteLoop_inside ha
      rw [Nat.succ_mul]
      omega
    constructor
    · intro t i ht hi
      obtain ⟨a, ha, lanes, l, hStored, hl, hAddr, hValue⟩ :=
        @exists_store (data + t * (size / num_threads)) (size / num_threads)
          bypass_cache i hi
      rw [← hAddr, ← hValue]
      exact hFinal.stored hApart hFilled
        (mem_accesses_onSlices.mpr ⟨t, ht, ha⟩) hStored hl
    · intro x hOut
      refine hFinal.unstored hFilled fun a ha => ?_
      obtain ⟨t, ht, hLoop⟩ := mem_accesses_onSlices.mp ha
      obtain ⟨hLow, hHigh, _⟩ := sequentialWriteLoop_inside hLoop
      have hAway := hOut t ht
      omega
  · intro counter
    have hTotal : num_threads * (4 * (size / num_threads / 4)) ≤ size :=
      (Nat.mul_le_mul_left _ (Nat.mul_div_le _ 4)).trans
        (Nat.mul_div_le size num_threads)
    have hCounter := @finalCounter_onSlices data size num_threads
      (4 * (size / num_threads / 4))
      (fun _ thread_data P => sequentialWriteLoop thread_data P bypass_cache)
      (fun _ _ => sequentialWriteLoop_added) counter
    rw [Nat.mod_eq_of_lt (by omega), ← Nat.mul_assoc] at hCounter
    exact hCounter

/-- Two threads, 94 bytes, ordinary stores: the second slice is at an odd
address, and each gets one vector and three single elements. -/
theorem sequentialWrite_eq_scalar_two :
    let m := measureSequentialWrite 0 94 2 false
    let after := Memory.run (fun _ => 0)
      ((m.accesses.flatMap Access.stores).flatMap Store.cells)
    leValue (after.read (47 + 4 * 9) 4) = 9 ∧ after 45 = 0 ∧
      m.FinalCounter 88 := by
  intro m after
  have hTest := sequentialWrite_eq_scalar 0 94 2 false (by decide)
  have hMemory := hTest.1 (fun _ => 0) after ⟨_, List.Perm.refl _, rfl⟩
  refine ⟨hMemory.1 1 9 (by decide) (by decide), hMemory.2 45 ?_,
    (hTest.2 88).mpr rfl⟩
  intro t ht
  omega

end MioBench.Bench
