import MioBench.Bench.RandomBlocks
import MioBench.Bench.SaveTrace

/-!
# The instrumented builds

`ENABLE_TRACING` and `ENABLE_LATENCY_MEASURE` change the timed loops of
`benchmark.cpp` by conditional compilation.  Tracing records each load, and the
latency build times one load in a while.  The sequential loop records the load
behind either branch; the two block loops take the timed load out of the inner
loop, which is where the recording stands.
-/

namespace MioBench.Bench

/-- The two options of `CMakeLists.txt`. -/
structure Build where
  ENABLE_TRACING : Bool
  ENABLE_LATENCY_MEASURE : Bool
  deriving DecidableEq, Repr

/-- `LATENCY_SAMPLE_INTERVAL`. -/
def latencySampleInterval : Nat := 100

/-- What a timed loop has done: the loads by address and size, and what its
instrumentation has kept.  `count` is `cache_line_count` or `block_count`. -/
structure Instrumented where
  reads : List (Nat × Nat)
  trace_buffer : List TraceEntry
  /-- The length of `latency_buffer`. -/
  latencies : Nat
  count : Nat

namespace Instrumented

def start : Instrumented where
  reads := []
  trace_buffer := []
  latencies := 0
  count := 0

def load (s : Instrumented) (addr bytes : Nat) : Instrumented :=
  { s with reads := s.reads ++ [(addr, bytes)] }

/-- A load between two readings of the clock. -/
def timedLoad (s : Instrumented) (addr bytes : Nat) : Instrumented :=
  { s.load addr bytes with latencies := s.latencies + 1 }

/-- `trace_buffer.push_back({ts, addr, bytes, 0})`, in a tracing build. -/
def record (b : Build) (rdtsc : Nat → UInt64) (s : Instrumented)
    (addr bytes : Nat) : Instrumented :=
  if b.ENABLE_TRACING then
    { s with
      trace_buffer := s.trace_buffer ++
        [{ timestamp := rdtsc s.trace_buffer.length
           address := UInt64.ofNat addr
           size := UInt32.ofNat bytes
           access_type := 0 }] }
  else s

/-- A load that is recorded. -/
def loadRecord (b : Build) (rdtsc : Nat → UInt64) (s : Instrumented)
    (r : Nat × Nat) : Instrumented :=
  (s.load r.1 r.2).record b rdtsc r.1 r.2

def countUp (s : Instrumented) : Instrumented :=
  { s with count := (s.count + 1) % 2 ^ 64 }

end Instrumented

/-! ## The loops -/

/-- One round of the sequential loop, at `thread_data[i]`. -/
def sequentialRound (b : Build) (rdtsc : Nat → UInt64) (thread_data : Nat)
    (s : Instrumented) (i : Nat) : Instrumented :=
  let addr := thread_data + 4 * i
  let s :=
    if b.ENABLE_LATENCY_MEASURE then
      let s :=
        if s.count % latencySampleInterval = 0 ∧ i / 8 % 2 = 0 then
          s.timedLoad addr 32
        else s.load addr 32
      if i / 8 % 2 = 1 then s.countUp else s
    else s.load addr 32
  s.record b rdtsc addr 32

/-- The timed loop of `measureSequentialRead`, remaining elements included. -/
def sequentialReadLoop (b : Build) (rdtsc : Nat → UInt64)
    (thread_data per_thread_size : Nat) : Instrumented :=
  let per_thread_ints := per_thread_size / 4
  let s := (laneStarts per_thread_ints 0).foldl
    (sequentialRound b rdtsc thread_data) Instrumented.start
  let rest := (List.range (per_thread_ints % 8)).map fun k =>
    (thread_data + 4 * (per_thread_ints / 8 * 8 + k), 4)
  rest.foldl (Instrumented.loadRecord b rdtsc) s

/-- The lanes of a block from element `j` on. -/
def laneReads (thread_data offset_ints left j : Nat) : List (Nat × Nat) :=
  (laneStarts left j).map fun j => (thread_data + 4 * (offset_ints + j), 32)

/-- One round of the block loops, on block `index`. -/
def blockRound (b : Build) (rdtsc : Nat → UInt64) (thread_data BLOCK_SIZE : Nat)
    (s : Instrumented) (index : Nat) : Instrumented :=
  let offset_ints := index * BLOCK_SIZE % 2 ^ 64 / 4
  let block_ints := BLOCK_SIZE / 4
  if b.ENABLE_LATENCY_MEASURE then
    if s.count % latencySampleInterval = 0 ∧ 8 ≤ block_ints then
      (laneReads thread_data offset_ints (block_ints - 8) 8).foldl
        (Instrumented.loadRecord b rdtsc)
        (s.timedLoad (thread_data + 4 * offset_ints) 32).countUp
    else
      (laneReads thread_data offset_ints block_ints 0).foldl
        (Instrumented.loadRecord b rdtsc) s.countUp
  else
    (laneReads thread_data offset_ints block_ints 0).foldl
      (Instrumented.loadRecord b rdtsc) s

/-- The timed loop over the blocks, `order[i]` in iteration `i`. -/
def blockReadLoop (b : Build) (rdtsc : Nat → UInt64)
    (thread_data num_blocks BLOCK_SIZE : Nat) (order : List Nat) :
    Instrumented :=
  ((List.range num_blocks).map fun i => order.getD i 0).foldl
    (blockRound b rdtsc thread_data BLOCK_SIZE) Instrumented.start

/-- The timed loop of `measureRandomRead`. -/
def randomReadLoop (b : Build) (rdtsc : Nat → UInt64)
    (thread_data per_thread_size BLOCK_SIZE : Nat) (indices : List Nat) :
    Instrumented :=
  blockReadLoop b rdtsc thread_data (per_thread_size / BLOCK_SIZE) BLOCK_SIZE
    indices

/-- The timed loop of `measureZipfianRead`. -/
def zipfianReadLoop (b : Build) (rdtsc : Nat → UInt64)
    (thread_data per_thread_size BLOCK_SIZE : Nat)
    (access_sequence : List Nat) : Instrumented :=
  blockReadLoop b rdtsc thread_data (per_thread_size / BLOCK_SIZE) BLOCK_SIZE
    access_sequence

/-! ## What a loop adds -/

/-- The entry of a read, less its timestamp. -/
def readAccess (r : Nat × Nat) : UInt64 × UInt32 × UInt8 :=
  (UInt64.ofNat r.1, UInt32.ofNat r.2, 0)

/-- The trace is the reads, in order. -/
def TracesAll (s : Instrumented) : Prop :=
  s.trace_buffer.map TraceEntry.access = s.reads.map readAccess

/-- `s'` has loaded `l` after `s`, has recorded `recorded` of it in a tracing
build, and has timed `timed` loads. -/
structure Loads (b : Build) (s s' : Instrumented) (l recorded : List (Nat × Nat))
    (timed : Nat) : Prop where
  reads : s'.reads = s.reads ++ l
  trace : b.ENABLE_TRACING = true → s'.trace_buffer.map TraceEntry.access =
    s.trace_buffer.map TraceEntry.access ++ recorded.map readAccess
  latencies : s'.latencies = s.latencies + timed

section Loads

variable {b : Build} {rdtsc : Nat → UInt64} {s s' s'' : Instrumented}
  {l l' recorded recorded' : List (Nat × Nat)} {timed timed' : Nat}

theorem Loads.refl (s : Instrumented) : Loads b s s [] [] 0 where
  reads := (List.append_nil _).symm
  trace := fun _ => (List.append_nil _).symm
  latencies := rfl

theorem Loads.trans (h : Loads b s s' l recorded timed)
    (h' : Loads b s' s'' l' recorded' timed') :
    Loads b s s'' (l ++ l') (recorded ++ recorded') (timed + timed') where
  reads := by rw [h'.reads, h.reads, List.append_assoc]
  trace := fun hTracing => by
    rw [h'.trace hTracing, h.trace hTracing, List.map_append, List.append_assoc]
  latencies := by rw [h'.latencies, h.latencies, Nat.add_assoc]

theorem Loads.countUp (h : Loads b s s' l recorded timed) :
    Loads b s s'.countUp l recorded timed :=
  ⟨h.reads, h.trace, h.latencies⟩

theorem loads_load (addr bytes : Nat) :
    Loads b s (s.load addr bytes) [(addr, bytes)] [] 0 where
  reads := rfl
  trace := fun _ => (List.append_nil _).symm
  latencies := rfl

theorem loads_timedLoad (addr bytes : Nat) :
    Loads b s (s.timedLoad addr bytes) [(addr, bytes)] [] 1 where
  reads := rfl
  trace := fun _ => (List.append_nil _).symm
  latencies := rfl

theorem loads_record (addr bytes : Nat) :
    Loads b s (s.record b rdtsc addr bytes) [] [(addr, bytes)] 0 := by
  unfold Instrumented.record
  split
  · exact
      { reads := (List.append_nil _).symm
        trace := fun _ => by simp [TraceEntry.access, readAccess]
        latencies := rfl }
  · rename_i hOff
    exact
      { reads := (List.append_nil _).symm
        trace := fun hOn => absurd hOn hOff
        latencies := rfl }

/-- A list of recorded loads. -/
theorem loads_foldl (l : List (Nat × Nat)) (s : Instrumented) :
    Loads b s (l.foldl (Instrumented.loadRecord b rdtsc) s) l l 0 := by
  induction l generalizing s with
  | nil => exact Loads.refl s
  | cons r l ih =>
      exact ((loads_load r.1 r.2).trans (loads_record r.1 r.2)).trans (ih _)

/-- Whether the round is timed or not, the sequential loop loads one lane and
records it. -/
theorem loads_sequentialRound (thread_data : Nat) (s : Instrumented) (i : Nat) :
    ∃ timed, Loads b s (sequentialRound b rdtsc thread_data s i)
      [(thread_data + 4 * i, 32)] [(thread_data + 4 * i, 32)] timed := by
  have hRecord : ∀ {s'} timed,
      Loads b s s' [(thread_data + 4 * i, 32)] [] timed →
      Loads b s (s'.record b rdtsc (thread_data + 4 * i) 32)
        [(thread_data + 4 * i, 32)] [(thread_data + 4 * i, 32)] timed :=
    fun timed h => h.trans (loads_record _ _)
  unfold sequentialRound
  dsimp only
  split
  · split
    · split
      · exact ⟨1, hRecord 1 (loads_timedLoad _ _).countUp⟩
      · exact ⟨0, hRecord 0 (loads_load _ _).countUp⟩
    · split
      · exact ⟨1, hRecord 1 (loads_timedLoad _ _)⟩
      · exact ⟨0, hRecord 0 (loads_load _ _)⟩
  · exact ⟨0, hRecord 0 (loads_load _ _)⟩

/-- The lanes of a block that has one are the first and the others. -/
theorem laneReads_split (thread_data offset_ints : Nat) {left : Nat}
    (h : 8 ≤ left) :
    laneReads thread_data offset_ints left 0 =
      (thread_data + 4 * offset_ints, 32) ::
        laneReads thread_data offset_ints (left - 8) 8 := by
  obtain ⟨rest, rfl⟩ := Nat.exists_eq_add_of_le' h
  rw [Nat.add_sub_cancel]
  rfl

/-- A block round loads all lanes of its block, and leaves out of the trace the
lane it times. -/
theorem loads_blockRound (thread_data B : Nat) (s : Instrumented) (index : Nat) :
    ∃ recorded timed, Loads b s (blockRound b rdtsc thread_data B s index)
        (laneReads thread_data (index * B % 2 ^ 64 / 4) (B / 4) 0) recorded
        timed ∧
      recorded.length + timed =
        (laneReads thread_data (index * B % 2 ^ 64 / 4) (B / 4) 0).length ∧
      (b.ENABLE_LATENCY_MEASURE = false →
        recorded = laneReads thread_data (index * B % 2 ^ 64 / 4) (B / 4) 0) ∧
      (b.ENABLE_LATENCY_MEASURE = true → s.count = 0 → 32 ≤ B → 0 < timed) := by
  unfold blockRound
  dsimp only
  split
  · rename_i hLatency
    split
    · rename_i hSampled
      rw [laneReads_split _ _ hSampled.2]
      refine ⟨_, _, (loads_timedLoad _ _).countUp.trans (loads_foldl _ _), ?_,
        fun hOff => ?_, fun _ _ _ => Nat.one_pos⟩
      · simp
      · rw [hLatency] at hOff
        cases hOff
    · rename_i hPlain
      refine ⟨_, _, (Loads.refl s).countUp.trans (loads_foldl _ _), rfl,
        fun _ => rfl, fun _ hFirst hB => ?_⟩
      exact absurd ⟨by rw [hFirst]; rfl, by omega⟩ hPlain
  · rename_i hOff
    exact ⟨_, _, loads_foldl _ s, rfl, fun _ => rfl,
      fun hOn => absurd hOn hOff⟩

end Loads

/-! ## Whole loops -/

section Loops

variable (b : Build) (rdtsc : Nat → UInt64)

/-- What `measureSequentialRead` reads: whole lanes, then single elements. -/
def sequentialReads (thread_data per_thread_size : Nat) : List (Nat × Nat) :=
  (laneStarts (per_thread_size / 4) 0).map (fun i => (thread_data + 4 * i, 32)) ++
    (List.range (per_thread_size / 4 % 8)).map fun k =>
      (thread_data + 4 * (per_thread_size / 4 / 8 * 8 + k), 4)

theorem loads_sequentialReadLoop (thread_data per_thread_size : Nat) :
    ∃ timed, Loads b Instrumented.start
      (sequentialReadLoop b rdtsc thread_data per_thread_size)
      (sequentialReads thread_data per_thread_size)
      (sequentialReads thread_data per_thread_size) timed := by
  have hLanes : ∀ (l : List Nat) s, ∃ timed, Loads b s
      (l.foldl (sequentialRound b rdtsc thread_data) s)
      (l.map fun i => (thread_data + 4 * i, 32))
      (l.map fun i => (thread_data + 4 * i, 32)) timed := by
    intro l
    induction l with
    | nil => exact fun s => ⟨0, Loads.refl s⟩
    | cons i l ih =>
        intro s
        obtain ⟨timed, hRound⟩ :=
          @loads_sequentialRound b rdtsc thread_data s i
        obtain ⟨timed', hRest⟩ := ih (sequentialRound b rdtsc thread_data s i)
        exact ⟨timed + timed', hRound.trans hRest⟩
  obtain ⟨timed, hBody⟩ := hLanes (laneStarts (per_thread_size / 4) 0)
    Instrumented.start
  exact ⟨timed + 0, hBody.trans (loads_foldl _ _)⟩

/-- What the block loops read. -/
def blockReads (thread_data B : Nat) (blocks : List Nat) : List (Nat × Nat) :=
  blocks.flatMap fun index =>
    laneReads thread_data (index * B % 2 ^ 64 / 4) (B / 4) 0

/-- A run of block rounds: all lanes are loaded, and each is recorded or
timed. -/
theorem loads_foldl_blockRound (thread_data B : Nat) (blocks : List Nat)
    (s : Instrumented) :
    ∃ recorded timed, Loads b s
        (blocks.foldl (blockRound b rdtsc thread_data B) s)
        (blockReads thread_data B blocks) recorded timed ∧
      recorded.length + timed = (blockReads thread_data B blocks).length ∧
      (b.ENABLE_LATENCY_MEASURE = false →
        recorded = blockReads thread_data B blocks) ∧
      (b.ENABLE_LATENCY_MEASURE = true → s.count = 0 → 32 ≤ B →
        blocks ≠ [] → 0 < timed) := by
  induction blocks generalizing s with
  | nil =>
      exact ⟨[], 0, Loads.refl s, rfl, fun _ => rfl,
        fun _ _ _ hSome => absurd rfl hSome⟩
  | cons index blocks ih =>
      obtain ⟨recorded, timed, hRound, hLength, hAll, hFirst⟩ :=
        @loads_blockRound b rdtsc thread_data B s index
      obtain ⟨recorded', timed', hRest, hLength', hAll', -⟩ :=
        ih (blockRound b rdtsc thread_data B s index)
      refine ⟨recorded ++ recorded', timed + timed', hRound.trans hRest, ?_,
        fun hOff => ?_, fun hOn hCount hB _ => ?_⟩
      · rw [blockReads, List.flatMap_cons, List.length_append,
          List.length_append, ← hLength, ← blockReads, ← hLength']
        omega
      · rw [hAll hOff, hAll' hOff]
        rfl
      · have hTimed := hFirst hOn hCount hB
        omega

/-- The blocks of the first `num_blocks` entries of an order. -/
theorem blockReadLoop_reads (thread_data num_blocks B : Nat)
    (order : List Nat) :
    (blockReadLoop b rdtsc thread_data num_blocks B order).reads =
      blockReads thread_data B
        ((List.range num_blocks).map fun i => order.getD i 0) := by
  obtain ⟨recorded, timed, hLoads, -⟩ := loads_foldl_blockRound b rdtsc
    thread_data B ((List.range num_blocks).map fun i => order.getD i 0)
    Instrumented.start
  exact hLoads.reads

/-- These are the accesses of the uninstrumented loop. -/
theorem blockReadLoop_accesses (thread_data num_blocks B : Nat)
    (bypass_cache : Bool) (order : List Nat) :
    (blockReadLoop b rdtsc thread_data num_blocks B order).reads =
      (blockLoop thread_data num_blocks B bypass_cache (fun _ => none)
        order).accesses.map fun a => (a.addr, a.bytes) := by
  rw [blockReadLoop_reads, blockLoop, timedLoop_accesses, List.map_flatten,
    List.map_map, blockReads, List.flatMap_map, List.flatMap_def]
  congr 1
  apply List.map_congr_left
  intro i _
  simp [blockAccesses, laneReads, Function.comp_def]

/-- The trace of a block loop is complete unless a load is timed in it. -/
theorem blockReadLoop_tracesAll_iff (hTracing : b.ENABLE_TRACING = true)
    (thread_data num_blocks B : Nat) (order : List Nat) :
    TracesAll (blockReadLoop b rdtsc thread_data num_blocks B order) ↔
      b.ENABLE_LATENCY_MEASURE = false ∨ num_blocks = 0 ∨ B < 32 := by
  obtain ⟨recorded, timed, hLoads, hLength, hAll, hFirst⟩ :=
    loads_foldl_blockRound b rdtsc thread_data B
      ((List.range num_blocks).map fun i => order.getD i 0) Instrumented.start
  have hTrace := hLoads.trace hTracing
  have hReads := hLoads.reads
  unfold TracesAll blockReadLoop
  rw [hTrace, hReads]
  constructor
  · intro hSame
    by_contra hNot
    push Not at hNot
    obtain ⟨hOn, hSome, hB⟩ := hNot
    have hTimed := hFirst (by simpa using hOn) rfl hB (by simpa using hSome)
    have hEqual := congrArg List.length hSame
    have hNoTrace : Instrumented.start.trace_buffer.length = 0 := rfl
    have hNoReads : Instrumented.start.reads.length = 0 := rfl
    simp only [List.length_append, List.length_map] at hEqual
    omega
  · intro hWhen
    by_cases hOn : b.ENABLE_LATENCY_MEASURE = true
    · -- Nothing is read at all.
      have hNone : blockReads thread_data B
          ((List.range num_blocks).map fun i => order.getD i 0) = [] := by
        rcases hWhen with hOff | hZero | hSmall
        · rw [hOff] at hOn
          cases hOn
        · rw [hZero]
          rfl
        · rw [blockReads, List.flatMap_eq_nil_iff]
          intro index _
          rw [laneReads, laneStarts_eq, show B / 4 / 8 = 0 by omega]
          rfl
      rw [hNone, List.length_nil] at hLength
      have hEmpty : recorded = [] := List.eq_nil_of_length_eq_zero (by omega)
      rw [hNone, hEmpty]
      rfl
    · rw [hAll (by simpa using hOn)]
      rfl

end Loops

/-- The four builds of the three tests. -/
structure InstrumentedAlike (rdtsc : Nat → UInt64)
    (thread_data per_thread_size BLOCK_SIZE : Nat)
    (indices access_sequence : List Nat) : Prop where
  /-- All builds read the same. -/
  sequential : ∀ b b' : Build,
    (sequentialReadLoop b rdtsc thread_data per_thread_size).reads =
      (sequentialReadLoop b' rdtsc thread_data per_thread_size).reads
  random : ∀ b b' : Build,
    (randomReadLoop b rdtsc thread_data per_thread_size BLOCK_SIZE
        indices).reads =
      (randomReadLoop b' rdtsc thread_data per_thread_size BLOCK_SIZE
        indices).reads
  zipfian : ∀ b b' : Build,
    (zipfianReadLoop b rdtsc thread_data per_thread_size BLOCK_SIZE
        access_sequence).reads =
      (zipfianReadLoop b' rdtsc thread_data per_thread_size BLOCK_SIZE
        access_sequence).reads
  /-- The sequential test traces them all. -/
  sequentialTrace : ∀ b : Build, b.ENABLE_TRACING = true →
    TracesAll (sequentialReadLoop b rdtsc thread_data per_thread_size)

theorem instrumentedAlike (rdtsc : Nat → UInt64)
    (thread_data per_thread_size BLOCK_SIZE : Nat)
    (indices access_sequence : List Nat) :
    InstrumentedAlike rdtsc thread_data per_thread_size BLOCK_SIZE indices
      access_sequence where
  sequential b b' := by
    obtain ⟨_, h⟩ :=
      loads_sequentialReadLoop b rdtsc thread_data per_thread_size
    obtain ⟨_, h'⟩ :=
      loads_sequentialReadLoop b' rdtsc thread_data per_thread_size
    rw [h.reads, h'.reads]
  random b b' := by
    rw [randomReadLoop, randomReadLoop, blockReadLoop_reads,
      blockReadLoop_reads]
  zipfian b b' := by
    rw [zipfianReadLoop, zipfianReadLoop, blockReadLoop_reads,
      blockReadLoop_reads]
  sequentialTrace b hTracing := by
    obtain ⟨_, h⟩ :=
      loads_sequentialReadLoop b rdtsc thread_data per_thread_size
    rw [TracesAll, h.trace hTracing, h.reads]
    rfl

/-- The builds read alike; a build traces all reads of the block tests unless
it both traces and times, and some block has a lane. -/
theorem instrumented_traces_iff (rdtsc : Nat → UInt64)
    (thread_data per_thread_size BLOCK_SIZE : Nat)
    (indices access_sequence : List Nat) :
    InstrumentedAlike rdtsc thread_data per_thread_size BLOCK_SIZE indices
      access_sequence ∧
    ∀ b : Build,
      ((b.ENABLE_TRACING = true → TracesAll (randomReadLoop b rdtsc thread_data
          per_thread_size BLOCK_SIZE indices)) ↔
        ¬ (b.ENABLE_TRACING = true ∧ b.ENABLE_LATENCY_MEASURE = true ∧
          0 < per_thread_size / BLOCK_SIZE ∧ 32 ≤ BLOCK_SIZE)) ∧
      ((b.ENABLE_TRACING = true → TracesAll (zipfianReadLoop b rdtsc thread_data
          per_thread_size BLOCK_SIZE access_sequence)) ↔
        ¬ (b.ENABLE_TRACING = true ∧ b.ENABLE_LATENCY_MEASURE = true ∧
          0 < per_thread_size / BLOCK_SIZE ∧ 32 ≤ BLOCK_SIZE)) := by
  have hBlocks : ∀ (b : Build) order,
      (b.ENABLE_TRACING = true → TracesAll (blockReadLoop b rdtsc thread_data
          (per_thread_size / BLOCK_SIZE) BLOCK_SIZE order)) ↔
        ¬ (b.ENABLE_TRACING = true ∧ b.ENABLE_LATENCY_MEASURE = true ∧
          0 < per_thread_size / BLOCK_SIZE ∧ 32 ≤ BLOCK_SIZE) := by
    intro b order
    by_cases hTracing : b.ENABLE_TRACING = true
    · rw [blockReadLoop_tracesAll_iff b rdtsc hTracing, ← Bool.not_eq_true]
      simp only [hTracing, true_and, true_implies]
      rw [not_and_or, not_and_or, not_lt, not_le, Nat.le_zero]
    · simp [hTracing]
  exact ⟨instrumentedAlike rdtsc thread_data per_thread_size BLOCK_SIZE indices
    access_sequence, fun b => ⟨hBlocks b indices, hBlocks b access_sequence⟩⟩

/-- Both options on, one block of 64 bytes: of its two lanes only the second
is in the trace. -/
theorem instrumented_not_traced :
    ¬ ∀ (b : Build) (rdtsc : Nat → UInt64)
        (thread_data per_thread_size BLOCK_SIZE : Nat) (indices : List Nat),
      b.ENABLE_TRACING = true → TracesAll (randomReadLoop b rdtsc thread_data
        per_thread_size BLOCK_SIZE indices) := by
  intro h
  have hTrace := h ⟨true, true⟩ (fun _ => 0) 4096 64 64 [0] rfl
  exact absurd hTrace (by unfold TracesAll; decide)

end MioBench.Bench
