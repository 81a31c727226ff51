import MioBench.Bench.BandwidthOutcome
import MioBench.Bench.BypassAlignment
import MioBench.Bench.LatencyReserve

/-!
# The trace file of a test

From the accesses of a thread to the rows of the file: the loops of a tracing
build fill the buffers of the threads, a run of the test puts them together in
some order, and `saveTrace` merges, sorts and writes them.
-/

namespace MioBench.Bench

open MioBench.Lib

/-- What a test finds: the clock of each thread, the times of its samples, and
what earlier tests have left in the logs. -/
structure Surroundings where
  rdtsc : Nat → Nat → UInt64
  latency : Nat → Nat → Nat
  old_traces : List (List TraceEntry)
  old_latencies : List Nat

/-- A read test whose thread `t` runs `loop t`. -/
def readTest (b : Build) (r : Surroundings) (m : Measurement)
    (loop : Nat → Instrumented) : BandwidthTest where
  measurement := m
  build := b
  timesLoads := true
  trace_buffer := fun t => (loop t).trace_buffer
  latency_buffer := fun t => (List.range (loop t).latencies).map (r.latency t)
  old_traces := r.old_traces
  old_latencies := r.old_latencies

/-- What an access says about memory. -/
def Access.traced (a : Access) : UInt64 × UInt32 × UInt8 :=
  (UInt64.ofNat a.addr, UInt32.ofNat a.bytes, if a.stored.isSome then 1 else 0)

/-- In the write and stride loops each access is followed by its `push_back`. -/
def recordAccess (b : Build) (rdtsc : Nat → UInt64)
    (trace_buffer : List TraceEntry) (a : Access) : List TraceEntry :=
  if b.ENABLE_TRACING then
    trace_buffer ++
      [{ timestamp := rdtsc trace_buffer.length
         address := UInt64.ofNat a.addr
         size := UInt32.ofNat a.bytes
         access_type := if a.stored.isSome then 1 else 0 }]
  else trace_buffer

/-- A write or stride test, which times no loads. -/
def untimedTest (b : Build) (r : Surroundings) (m : Measurement) :
    BandwidthTest where
  measurement := m
  build := b
  timesLoads := false
  trace_buffer := fun t =>
    (m.threads.getD t ThreadLoop.start).accesses.foldl
      (recordAccess b (r.rdtsc t)) []
  latency_buffer := fun _ => []
  old_traces := r.old_traces
  old_latencies := r.old_latencies

section Tests

variable (b : Build) (r : Surroundings) (data size num_threads : Nat)

def sequentialReadTest (bypass_cache : Bool) : BandwidthTest :=
  readTest b r (measureSequentialRead data size num_threads bypass_cache)
    fun t => sequentialReadLoop b (r.rdtsc t) (data + t * (size / num_threads))
      (size / num_threads)

def randomReadTest (BLOCK_SIZE : Nat) (bypass_cache : Bool)
    (shuffled : Nat → List Nat) : BandwidthTest :=
  readTest b r
    (measureRandomRead data size num_threads BLOCK_SIZE bypass_cache shuffled)
    fun t => randomReadLoop b (r.rdtsc t) (data + t * (size / num_threads))
      (size / num_threads) BLOCK_SIZE (shuffled t)

def zipfianReadTest (BLOCK_SIZE : Nat) (bypass_cache : Bool)
    (shuffled ranks : Nat → List Nat) : BandwidthTest :=
  readTest b r
    (measureZipfianRead data size num_threads BLOCK_SIZE bypass_cache shuffled
      ranks)
    fun t => zipfianReadLoop b (r.rdtsc t) (data + t * (size / num_threads))
      (size / num_threads) BLOCK_SIZE (accessSequence (shuffled t) (ranks t))

end Tests

/-! ## The accesses of a test -/

namespace BandwidthTest

/-- The accesses of thread `t`. -/
def accesses (p : BandwidthTest) (t : Nat) : List Access :=
  (p.measurement.threads.getD t ThreadLoop.start).accesses

theorem flatMap_accesses (p : BandwidthTest) :
    (List.range p.num_threads).flatMap p.accesses = p.measurement.accesses := by
  rw [List.flatMap_def, Measurement.accesses, List.flatMap_def,
    ← p.map_threads ThreadLoop.accesses]
  rfl

theorem mem_accesses {p : BandwidthTest} {t : Nat} (ht : t < p.num_threads)
    {a : Access} (ha : a ∈ p.accesses t) : a ∈ p.measurement.accesses := by
  rw [← p.flatMap_accesses]
  exact List.mem_flatMap.mpr ⟨t, List.mem_range.mpr ht, ha⟩

/-- The trace of each thread is its accesses, in order. -/
def TracesAccesses (p : BandwidthTest) : Prop :=
  ∀ t, t < p.num_threads → (p.trace_buffer t).map TraceEntry.access =
    (p.accesses t).map Access.traced

end BandwidthTest

/-- Accesses are of a lane or of a single element. -/
def Measurement.Lanes (m : Measurement) : Prop :=
  ∀ a ∈ m.accesses, a.bytes = 32 ∨ a.bytes = 4

/-- The trace file of a test at its end: `saveTrace` has been called with the
buffers of this test and has written the first rows, in order of time, of the
accesses of all threads, a row of 64 bytes standing for two halves. -/
def TraceFile (sort : List TraceEntry → List TraceEntry) (data : Nat)
    (p : BandwidthTest) (s : BandwidthState) : Prop :=
  ∃ bufs sorted : List _, s.saved_traces = some bufs ∧
    sorted.Pairwise (fun a b => a.timestamp ≤ b.timestamp) ∧
    (sorted.flatMap TraceEntry.expand).Perm
      (p.measurement.accesses.map Access.traced) ∧
    saveTrace sort true (UInt64.ofNat data) bufs = some
      ("address,size,access_type\n" ::
        (sorted.take traceLimit).map (TraceEntry.row (UInt64.ofNat data)))

/-- Every load of the test is in the trace, or it has been timed and is a
sample. -/
def TracedOrTimed (p : BandwidthTest) (s : BandwidthState) : Prop :=
  ∃ bufs latencies, s.saved_traces = some bufs ∧
    s.saved_latencies = some latencies ∧
    (bufs.map List.length).sum + latencies.length =
      p.measurement.accesses.length

section File

variable {p : BandwidthTest} {s : BandwidthState}

theorem BandwidthTest.TracesAccesses.sizes (hTraces : p.TracesAccesses)
    (hLanes : p.measurement.Lanes) {t : Nat} (ht : t < p.num_threads) :
    ∀ e ∈ p.trace_buffer t, e.size = 32 ∨ e.size = 4 := by
  intro e he
  have hMem : e.access ∈ (p.accesses t).map Access.traced := by
    rw [← hTraces t ht]
    exact List.mem_map_of_mem he
  obtain ⟨a, ha, hEq⟩ := List.mem_map.mp hMem
  have hSize : e.size = UInt32.ofNat a.bytes :=
    (congrArg (fun entry => entry.2.1) hEq).symm
  rw [hSize]
  rcases hLanes a (BandwidthTest.mem_accesses ht ha) with h32 | h4
  · exact Or.inl (by rw [h32]; rfl)
  · exact Or.inr (by rw [h4]; rfl)

/-- From the buffers to the file. -/
theorem traceFile_of_tracesAccesses {sort : List TraceEntry → List TraceEntry}
    (hSort : SortsByTime sort) (data : Nat)
    (hCollects : p.collectsTrace = true) (hTraces : p.TracesAccesses)
    (hLanes : p.measurement.Lanes) (hs : (bandwidthMachine p).Reachable s)
    (hpc : s.main = .returned) : TraceFile sort data p s := by
  obtain ⟨order, hOrder, hSaved⟩ :=
    bandwidth_savedTraces hs hpc hCollects
  obtain ⟨sorted, hPerm, hTime, hFile⟩ := saveTrace_rows hSort
    (UInt64.ofNat data) (order.map p.trace_buffer)
  have hKept : sorted.take (min ((order.map p.trace_buffer).map
      processBuffer).flatten.length traceLimit) = sorted.take traceLimit := by
    rw [← hPerm.length_eq, Nat.min_comm, ← List.take_eq_take_min]
  rw [hKept] at hFile
  refine ⟨_, sorted, hSaved, hTime, ?_, hFile⟩
  -- Thread by thread the merged entries stand for the accesses.
  have hThread : ∀ t ∈ order, (processBuffer (p.trace_buffer t)).flatMap
      TraceEntry.expand = (p.accesses t).map Access.traced := by
    intro t ht
    have hMine := List.mem_range.mp (hOrder.mem_iff.mp ht)
    rw [expand_processBuffer (hTraces.sizes hLanes hMine), hTraces t hMine]
  have hAll : ((order.map p.trace_buffer).map processBuffer).flatten.flatMap
      TraceEntry.expand = (order.flatMap p.accesses).map Access.traced := by
    rw [List.map_map, ← List.flatMap_def, List.flatMap_assoc, List.map_flatMap]
    exact List.flatMap_congr hThread
  refine (hPerm.flatMap_right TraceEntry.expand).trans ?_
  rw [hAll, ← p.flatMap_accesses]
  exact (hOrder.flatMap_right p.accesses).map Access.traced

/-- From the buffers to both logs. -/
theorem tracedOrTimed_of_lengths (hCollects : p.collectsTrace = true)
    (hTimes : p.collectsLatency = true)
    (hLengths : ∀ t, t < p.num_threads → (p.trace_buffer t).length +
      (p.latency_buffer t).length = (p.accesses t).length)
    (hs : (bandwidthMachine p).Reachable s) (hpc : s.main = .returned) :
    TracedOrTimed p s := by
  obtain ⟨order, hOrder, hTraces⟩ := bandwidth_savedTraces hs hpc hCollects
  obtain ⟨order', hOrder', hLatencies⟩ :=
    bandwidth_savedLatencies hs hpc hTimes
  refine ⟨_, _, hTraces, hLatencies, ?_⟩
  have hEach : (List.range p.num_threads).map (fun t =>
      (p.trace_buffer t).length + (p.latency_buffer t).length) =
      (List.range p.num_threads).map fun t => (p.accesses t).length :=
    List.map_congr_left fun t ht => hLengths t (List.mem_range.mp ht)
  rw [List.map_map, (hOrder.map _).sum_eq, List.length_flatMap,
    (hOrder'.map _).sum_eq, ← p.flatMap_accesses, List.length_flatMap, ← hEach,
    List.sum_map_add]
  rfl

end File

/-! ## The loops trace their accesses -/

/-- Lanes and single elements that are loaded. -/
def Access.IsLoad (a : Access) : Prop :=
  (a.bytes = 32 ∨ a.bytes = 4) ∧ a.stored = none

theorem sequentialLoadLoop_loads {thread_data P : Nat} {bypass_cache : Bool} :
    ∀ a ∈ (sequentialLoadLoop thread_data P bypass_cache).accesses,
      a.IsLoad := by
  intro a ha
  rw [sequentialLoadLoop_accesses, List.mem_append, List.mem_map,
    List.mem_map] at ha
  rcases ha with ⟨k, -, rfl⟩ | ⟨i, -, rfl⟩
  · exact ⟨Or.inl rfl, rfl⟩
  · exact ⟨Or.inr rfl, rfl⟩

theorem blockLoop_lanes {thread_data num_blocks B : Nat} {bypass_cache : Bool}
    {stored : Nat → Option (List (BitVec 32))} {order : List Nat} {a : Access}
    (ha : a ∈ (blockLoop thread_data num_blocks B bypass_cache stored
      order).accesses) : a.bytes = 32 ∧ ∃ i, a.stored = stored i := by
  rw [blockLoop, timedLoop_accesses] at ha
  obtain ⟨accs, hAccs, hMem⟩ := List.mem_flatten.mp ha
  obtain ⟨i, -, rfl⟩ := List.mem_map.mp hAccs
  obtain ⟨j, -, rfl⟩ := List.mem_map.mp hMem
  exact ⟨rfl, i, rfl⟩

section Tests

variable (b : Build) (r : Surroundings) (data size num_threads : Nat)

theorem num_threads_readTest (loop : Nat → Instrumented)
    (bare : Nat → Nat → Nat → ThreadLoop) :
    (readTest b r (onSlices data size num_threads bare) loop).num_threads =
      num_threads := by
  simp [BandwidthTest.num_threads, readTest, onSlices]

theorem accesses_readTest (loop : Nat → Instrumented)
    (bare : Nat → Nat → Nat → ThreadLoop) {t : Nat} (ht : t < num_threads) :
    (readTest b r (onSlices data size num_threads bare) loop).accesses t =
      (bare t (data + t * (size / num_threads)) (size / num_threads)).accesses := by
  have hThread : (onSlices data size num_threads bare).threads.getD t
      ThreadLoop.start = bare t (data + t * (size / num_threads))
        (size / num_threads) := by
    rw [List.getD_eq_getElem?_getD, threads_onSlices data size bare ht]
    rfl
  exact congrArg ThreadLoop.accesses hThread

/-- A read test traces its loads when each of its loops does. -/
theorem tracesAccesses_readTest {loop : Nat → Instrumented}
    {bare : Nat → Nat → Nat → ThreadLoop}
    (hReads : ∀ t, (loop t).reads = (bare t (data + t * (size / num_threads))
      (size / num_threads)).accesses.map fun a => (a.addr, a.bytes))
    (hLoads : ∀ t thread_data, ∀ a ∈
      (bare t thread_data (size / num_threads)).accesses, a.IsLoad)
    (hTraces : ∀ t, TracesAll (loop t)) :
    (readTest b r (onSlices data size num_threads bare) loop).TracesAccesses := by
  intro t ht
  rw [num_threads_readTest] at ht
  have hTrace := hTraces t
  rw [TracesAll, hReads, List.map_map] at hTrace
  rw [accesses_readTest b r data size num_threads loop bare ht]
  refine hTrace.trans (List.map_congr_left fun a ha => ?_)
  rw [Access.traced, (hLoads t _ a ha).2]
  rfl

theorem lanes_onSlices {loop : Nat → Nat → Nat → ThreadLoop}
    (hLanes : ∀ t thread_data, ∀ a ∈
      (loop t thread_data (size / num_threads)).accesses,
      a.bytes = 32 ∨ a.bytes = 4) :
    (onSlices data size num_threads loop).Lanes := by
  intro a ha
  obtain ⟨t, -, hMem⟩ := mem_accesses_onSlices.mp ha
  exact hLanes t _ a hMem

theorem map_access_foldl_recordAccess (hTracing : b.ENABLE_TRACING = true)
    (rdtsc : Nat → UInt64) (accesses : List Access) (trace : List TraceEntry) :
    (accesses.foldl (recordAccess b rdtsc) trace).map TraceEntry.access =
      trace.map TraceEntry.access ++ accesses.map Access.traced := by
  induction accesses generalizing trace with
  | nil => simp
  | cons a accesses ih =>
      rw [List.foldl_cons, ih, recordAccess, if_pos hTracing, List.map_append,
        List.append_assoc]
      rfl

/-- The write and stride loops trace everything. -/
theorem tracesAccesses_untimedTest (hTracing : b.ENABLE_TRACING = true)
    (m : Measurement) : (untimedTest b r m).TracesAccesses :=
  fun t _ => map_access_foldl_recordAccess b hTracing (r.rdtsc t) _ []

/-! ## The tests -/

variable {s : BandwidthState} {sort : List TraceEntry → List TraceEntry}

theorem sequential_traceFile (hSort : SortsByTime sort)
    (hTracing : b.ENABLE_TRACING = true) (bypass_cache : Bool)
    (hs : (bandwidthMachine (sequentialReadTest b r data size num_threads
      bypass_cache)).Reachable s) (hpc : s.main = .returned) :
    TraceFile sort data
      (sequentialReadTest b r data size num_threads bypass_cache) s := by
  refine traceFile_of_tracesAccesses hSort data hTracing ?_ ?_ hs hpc
  · refine tracesAccesses_readTest b r data size num_threads (fun t => ?_)
      (fun _ _ => sequentialLoadLoop_loads)
      fun t => (instrumentedAlike (r.rdtsc t) _ _ 0 [] []).sequentialTrace b
        hTracing
    obtain ⟨_, hLoads⟩ := loads_sequentialReadLoop b (r.rdtsc t)
      (data + t * (size / num_threads)) (size / num_threads)
    rw [hLoads.reads, sequentialLoadLoop_reads]
    rfl
  · exact lanes_onSlices data size num_threads fun _ _ a ha =>
      (sequentialLoadLoop_loads a ha).1

/-- The random and the Zipfian test, by the order of the blocks. -/
def blockReadTest (BLOCK_SIZE : Nat) (bypass_cache : Bool)
    (order : Nat → List Nat) : BandwidthTest :=
  readTest b r (blockTest data size num_threads BLOCK_SIZE bypass_cache
    (fun _ => none) order) fun t =>
      blockReadLoop b (r.rdtsc t) (data + t * (size / num_threads))
        (size / num_threads / BLOCK_SIZE) BLOCK_SIZE (order t)

theorem blockRead_traceFile (hSort : SortsByTime sort)
    (hTracing : b.ENABLE_TRACING = true)
    (hUntimed : b.ENABLE_LATENCY_MEASURE = false) (BLOCK_SIZE : Nat)
    (bypass_cache : Bool) (order : Nat → List Nat)
    (hs : (bandwidthMachine (blockReadTest b r data size num_threads BLOCK_SIZE
      bypass_cache order)).Reachable s) (hpc : s.main = .returned) :
    TraceFile sort data (blockReadTest b r data size num_threads BLOCK_SIZE
      bypass_cache order) s := by
  have hLoads : ∀ t thread_data, ∀ a ∈ (blockLoop thread_data
      (size / num_threads / BLOCK_SIZE) BLOCK_SIZE bypass_cache (fun _ => none)
      (order t)).accesses, a.IsLoad := by
    intro t thread_data a ha
    obtain ⟨hLane, _, hNone⟩ := blockLoop_lanes ha
    exact ⟨Or.inl hLane, hNone⟩
  refine traceFile_of_tracesAccesses hSort data hTracing ?_ ?_ hs hpc
  · exact tracesAccesses_readTest b r data size num_threads
      (fun t => blockReadLoop_accesses b (r.rdtsc t) _ _ _ bypass_cache _) hLoads
      fun t => (blockReadLoop_tracesAll_iff b (r.rdtsc t) hTracing _ _ _ _).mpr
        (Or.inl hUntimed)
  · exact lanes_onSlices data size num_threads fun t thread_data a ha =>
      (hLoads t thread_data a ha).1

/-- A thread of a block test has traced a load or timed it. -/
theorem blockReadLoop_lengths (hTracing : b.ENABLE_TRACING = true)
    (rdtsc : Nat → UInt64) (thread_data num_blocks B : Nat) (order : List Nat) :
    (blockReadLoop b rdtsc thread_data num_blocks B order).trace_buffer.length +
      (blockReadLoop b rdtsc thread_data num_blocks B order).latencies =
      (blockReadLoop b rdtsc thread_data num_blocks B order).reads.length := by
  obtain ⟨recorded, timed, hLoads, hLength, -⟩ := loads_foldl_blockRound b rdtsc
    thread_data B ((List.range num_blocks).map fun i => order.getD i 0)
    Instrumented.start
  have hTrace := congrArg List.length (hLoads.trace hTracing)
  have hReads := congrArg List.length hLoads.reads
  have hLatencies := hLoads.latencies
  simp only [List.length_map, List.length_append] at hTrace hReads
  have hNoTrace : Instrumented.start.trace_buffer.length = 0 := rfl
  have hNoReads : Instrumented.start.reads.length = 0 := rfl
  have hNoSamples : Instrumented.start.latencies = 0 := rfl
  unfold blockReadLoop
  omega

theorem blockRead_tracedOrTimed (hTracing : b.ENABLE_TRACING = true)
    (hTimed : b.ENABLE_LATENCY_MEASURE = true) (BLOCK_SIZE : Nat)
    (bypass_cache : Bool) (order : Nat → List Nat)
    (hs : (bandwidthMachine (blockReadTest b r data size num_threads BLOCK_SIZE
      bypass_cache order)).Reachable s) (hpc : s.main = .returned) :
    TracedOrTimed (blockReadTest b r data size num_threads BLOCK_SIZE
      bypass_cache order) s := by
  refine tracedOrTimed_of_lengths hTracing ?_ ?_ hs hpc
  · simp [BandwidthTest.collectsLatency, blockReadTest, readTest, hTimed]
  · intro t ht
    have hMine : t < num_threads := by
      rw [blockReadTest, blockTest, num_threads_readTest] at ht
      exact ht
    have hLengths := blockReadLoop_lengths b hTracing (r.rdtsc t)
      (data + t * (size / num_threads)) (size / num_threads / BLOCK_SIZE)
      BLOCK_SIZE (order t)
    rw [blockReadLoop_accesses b (r.rdtsc t) _ _ _ bypass_cache,
      List.length_map] at hLengths
    rw [blockReadTest, blockTest,
      accesses_readTest b r data size num_threads _ _ hMine]
    simpa [readTest] using hLengths

/-- The measurements of the write and stride tests. -/
def Untimed (fuel STRIDE_SIZE BLOCK_SIZE : Nat) (bypass_cache : Bool)
    (shuffled : Nat → List Nat) (m : Measurement) : Prop :=
  m = measureSequentialWrite data size num_threads bypass_cache ∨
  m = measureRandomWrite data size num_threads BLOCK_SIZE bypass_cache shuffled ∨
  some m = measureStrideRead fuel data size num_threads STRIDE_SIZE BLOCK_SIZE
    bypass_cache ∨
  some m = measureStrideWrite fuel data size num_threads STRIDE_SIZE BLOCK_SIZE
    bypass_cache

variable {data size num_threads}

theorem lanes_strideTest {fuel stride BLOCK_SIZE : Nat} {bypass_cache : Bool}
    {stored : Nat → Option (List (BitVec 32))} {m : Measurement}
    (hm : some m = strideTest fuel data size num_threads stride BLOCK_SIZE
      bypass_cache stored) : m.Lanes := by
  obtain ⟨lanes, -, rfl⟩ := Option.map_eq_some_iff.mp hm.symm
  refine lanes_onSlices data size num_threads fun t thread_data a ha => ?_
  rw [strideLoop, timedLoop_accesses] at ha
  obtain ⟨accs, hAccs, hMem⟩ := List.mem_flatten.mp ha
  obtain ⟨lane, -, rfl⟩ := List.mem_map.mp hAccs
  rw [List.mem_singleton.mp hMem]
  exact Or.inl rfl

theorem Untimed.lanes {fuel STRIDE_SIZE BLOCK_SIZE : Nat} {bypass_cache : Bool}
    {shuffled : Nat → List Nat} {m : Measurement}
    (h : Untimed data size num_threads fuel STRIDE_SIZE BLOCK_SIZE bypass_cache
      shuffled m) : m.Lanes := by
  rcases h with rfl | rfl | hStride | hStride
  · refine lanes_onSlices data size num_threads fun t thread_data a ha => ?_
    rcases mem_sequentialWriteLoop.mp ha with ⟨k, -, rfl⟩ | ⟨i, -, -, rfl⟩
    · exact Or.inl rfl
    · exact Or.inr rfl
  · exact lanes_onSlices data size num_threads fun t thread_data a ha =>
      Or.inl (blockLoop_lanes ha).1
  · exact lanes_strideTest hStride
  · exact lanes_strideTest hStride

end Tests

/-- **The trace file of a bandwidth test.**  However the threads of a tracing
build interleave, the file of a sequential read test or of a write or stride test
holds the first million rows, in order of time, of all accesses of all threads,
merged halves standing for both; so does that of the random and the Zipfian read
test when loads are not timed, and when they are every load is in the trace or
among the samples. -/
theorem bandwidthTests_traceFile {sort : List TraceEntry → List TraceEntry}
    (hSort : SortsByTime sort) (b : Build) (hTracing : b.ENABLE_TRACING = true)
    (r : Surroundings)
    (data size num_threads fuel STRIDE_SIZE BLOCK_SIZE : Nat)
    (bypass_cache : Bool) (shuffled ranks : Nat → List Nat) :
    (∀ s, (bandwidthMachine (sequentialReadTest b r data size num_threads
        bypass_cache)).Reachable s → s.main = .returned →
      TraceFile sort data
        (sequentialReadTest b r data size num_threads bypass_cache) s) ∧
    (∀ p, p = randomReadTest b r data size num_threads BLOCK_SIZE bypass_cache
          shuffled ∨
        p = zipfianReadTest b r data size num_threads BLOCK_SIZE bypass_cache
          shuffled ranks →
      ∀ s, (bandwidthMachine p).Reachable s → s.main = .returned →
        (b.ENABLE_LATENCY_MEASURE = false → TraceFile sort data p s) ∧
        (b.ENABLE_LATENCY_MEASURE = true → TracedOrTimed p s)) ∧
    ∀ m, Untimed data size num_threads fuel STRIDE_SIZE BLOCK_SIZE bypass_cache
        shuffled m →
      ∀ s, (bandwidthMachine (untimedTest b r m)).Reachable s →
        s.main = .returned → TraceFile sort data (untimedTest b r m) s := by
  refine ⟨fun s hs hpc => sequential_traceFile b r data size num_threads hSort
    hTracing bypass_cache hs hpc, ?_, ?_⟩
  · intro p hp s hs hpc
    -- Both tests are the block test, in an order of their own.
    obtain ⟨order, rfl⟩ : ∃ order : Nat → List Nat, p = blockReadTest b r data
        size num_threads BLOCK_SIZE bypass_cache order := by
      rcases hp with rfl | rfl
      · exact ⟨shuffled, rfl⟩
      · exact ⟨fun t => accessSequence (shuffled t) (ranks t), rfl⟩
    exact ⟨fun hUntimed => blockRead_traceFile b r data size num_threads hSort
        hTracing hUntimed BLOCK_SIZE bypass_cache order hs hpc,
      fun hTimed => blockRead_tracedOrTimed b r data size num_threads hTracing
        hTimed BLOCK_SIZE bypass_cache order hs hpc⟩
  · intro m hm s hs hpc
    exact traceFile_of_tracesAccesses hSort data hTracing
      (tracesAccesses_untimedTest b r hTracing m) hm.lanes hs hpc

/-- Two threads with two lanes each. -/
theorem bandwidthTests_traceFile_two :
    let p := sequentialReadTest ⟨true, true⟩
      { rdtsc := fun _ k => UInt64.ofNat k, latency := fun _ _ => 200
        old_traces := [], old_latencies := [] } 4096 128 2 false
    ∃ s, (bandwidthMachine p).Reachable s ∧ s.main = .returned ∧
      TraceFile stableSort 4096 p s := by
  intro p
  have hs := Machine.reachable_of_exec (m := bandwidthMachine p)
    (Option.some_get (x := (bandwidthMachine p).exec
      (bandwidthMachine p).start twoReadersRun) (by decide)).symm
  exact ⟨_, hs, by decide, (bandwidthTests_traceFile stableSort_sortsByTime
    ⟨true, true⟩ rfl _ 4096 128 2 0 64 64 false (fun _ => [0])
    (fun _ => [0])).1 _ hs (by decide)⟩

end MioBench.Bench
