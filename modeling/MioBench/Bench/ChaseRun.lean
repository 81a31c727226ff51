import MioBench.Bench.ChaseMemory
import MioBench.Bench.PointerLoad
import MioBench.Lib.ForkJoin
import MioBench.Lib.Transition

/-!
# The pointer chase under load

`measurePointerChaseWithLoad` from the built list on: main creates one thread
that follows the links and times each step, and `num_load_threads` threads that
read or write the rest of the region; it starts them together and joins them.
All of them share one memory and one time stamp counter, and their steps come in
any order.  Behind each access a load thread spins for `inject_delay_cycles` of
the counter.  This is the build with `ENABLE_LATENCY_MEASURE`; the default build
makes the same steps and keeps no samples.  Every thread can be created here;
where one cannot, `main` ends with the exception.
-/

namespace MioBench.Bench

open MioBench.Lib

/-- `WARMUP_SAMPLES`. -/
def warmupSamples : Nat := 100000

/-- `NUM_SAMPLES`. -/
def numSamples : Nat := 200000

/-- `total_iterations`. -/
def totalIterations : Nat := warmupSamples + numSamples

/-- `num_nodes`, for the fixed chase region. -/
def chaseNodes : Nat := chaseSizeBytes / nodeSize

/-- A call that gets past its test of the size. -/
structure ChaseTest where
  data : Nat
  size : Nat
  num_load_threads : Nat
  inject_delay_cycles : UInt64
  /-- What `dis(gen)` returns in each round of the shuffle. -/
  draw : Nat → Nat
  /-- What the memory holds before. -/
  before : Memory
  large : chaseSizeBytes ≤ size
  fits : data + size ≤ 2 ^ 64

namespace ChaseTest

def load_data (p : ChaseTest) : Nat := p.data + chaseSizeBytes

def per_thread_size (p : ChaseTest) : Nat :=
  (p.size - chaseSizeBytes) / p.num_load_threads

def thread_data (p : ChaseTest) (t : Nat) : Nat :=
  p.load_data + t * p.per_thread_size

def total_ints (p : ChaseTest) : Nat := p.per_thread_size / 4

def is_read (p : ChaseTest) (t : Nat) : Bool :=
  decide (t < p.num_load_threads / 2)

def indices (p : ChaseTest) : List Nat := shuffledIndices chaseNodes p.draw

/-- The memory with the list built in it; its 33 million stores are not for
the kernel to go through. -/
@[irreducible] def linked (p : ChaseTest) : Memory :=
  linkNodes p.data chaseNodes p.indices p.before

/-- The node after a node, in the shuffled order. -/
def next (p : ChaseTest) : Nat → Nat :=
  nextNode p.data (buildLinks p.data chaseNodes p.indices fun _ => 0)

/-- The access thread `t` makes next. -/
def loadAccess (p : ChaseTest) (t : Nat) (loop : LoadLoop) : Access where
  addr := p.thread_data t + loop.offset * 4
  bytes := 32
  nonTemporal := false
  stored := if p.is_read t then none else some (set1 t)

def loadRound (p : ChaseTest) (t : Nat) : LoadLoop → LoadLoop :=
  LoadLoop.round (p.is_read t) t (p.thread_data t) p.total_ints

/-- The access is inside the region. -/
def Maps (p : ChaseTest) (a : Access) : Prop :=
  p.data ≤ a.addr ∧ a.addr + a.bytes ≤ p.data + p.size

instance (p : ChaseTest) (a : Access) : Decidable (p.Maps a) :=
  inferInstanceAs (Decidable (_ ∧ _))

end ChaseTest

/-- Where the main thread stands. -/
inductive ChaseMainPc
  | createMeasure
  | createLoad (t : Nat)
  | waitReady
  | startAll
  | joinMeasure
  | joinLoad (t : Nat)
  | returned
  deriving DecidableEq, Repr

/-- Where the measuring thread stands. -/
inductive MeasurePc
  | unborn
  | begin
  | waitStart
  | chase (i : Nat)
  | stop
  | collect
  | finished
  deriving DecidableEq, Repr

/-- Where a load thread stands. -/
inductive LoadPc
  | unborn
  | begin
  | waitStart
  | test
  | access
  | delayStart
  | delay (delay_start : UInt64)
  | result
  | finished
  deriving DecidableEq, Repr

structure ChaseState where
  memory : Memory
  /-- The cycles that have gone by. -/
  clock : Nat
  ready_count : Nat
  start_flag : Bool
  stop_flag : Bool
  main : ChaseMainPc
  measure : MeasurePc
  current : Nat
  latency_buffer : List Nat
  global_latencies : List Nat
  load : Nat → LoadPc
  loop : Nat → LoadLoop
  load_thread_bytes : Nat → Nat
  total_bytes : Option Nat

namespace ChaseState

/-- The list is built, and nothing is started. -/
def init (p : ChaseTest) : ChaseState where
  memory := p.linked
  clock := 0
  ready_count := 0
  start_flag := false
  stop_flag := false
  main := .createMeasure
  measure := .unborn
  current := p.data
  latency_buffer := []
  global_latencies := []
  load := fun _ => .unborn
  loop := fun _ => LoadLoop.start
  load_thread_bytes := fun _ => 0
  total_bytes := none

/-! ## The measuring thread -/

/-- One iteration of the chase; its two readings of the counter are `cycles`
apart, however many that is. -/
def chaseStep (s : ChaseState) (i cycles : Nat) : ChaseState :=
  { s with
    current := loadPointer s.memory s.current
    latency_buffer :=
      if warmupSamples ≤ i then s.latency_buffer ++ [cycles % 2 ^ 64]
      else s.latency_buffer
    measure := .chase (i + 1) }

/-- The next step of the measuring thread. -/
def measureStep (s : ChaseState) (cycles : Nat) : Option ChaseState :=
  match s.measure with
  | .unborn => none
  | .begin =>
      some { s with ready_count := s.ready_count + 1, measure := .waitStart }
  | .waitStart =>
      some { s with measure := if s.start_flag then .chase 0 else .waitStart }
  | .chase i =>
      if i < totalIterations then some (s.chaseStep i cycles)
      else some { s with measure := .stop }
  | .stop => some { s with stop_flag := true, measure := .collect }
  | .collect =>
      some { s with
        global_latencies := s.global_latencies ++ s.latency_buffer
        latency_buffer := []
        measure := .finished }
  | .finished => none

/-! ## The load threads -/

def setLoad (s : ChaseState) (t : Nat) (pc : LoadPc) : ChaseState :=
  { s with load := Function.update s.load t pc }

@[simp] theorem setLoad_self (s : ChaseState) (t : Nat) (pc : LoadPc) :
    (s.setLoad t pc).load t = pc :=
  Function.update_self ..

theorem setLoad_other (s : ChaseState) {t u : Nat} {pc : LoadPc} (hu : u ≠ t) :
    (s.setLoad t pc).load u = s.load u :=
  Function.update_of_ne hu ..

/-- `rdtscp()` -/
def rdtscp (s : ChaseState) : UInt64 := UInt64.ofNat s.clock

/-- Where a load thread goes from its access. -/
def afterAccess (p : ChaseTest) : LoadPc :=
  if 0 < p.inject_delay_cycles then .delayStart else .test

/-- The delay goes on. -/
def delays (p : ChaseTest) (s : ChaseState) (delay_start : UInt64) : Bool :=
  decide (s.rdtscp - delay_start < p.inject_delay_cycles)

/-- One round of the loop of thread `t`, up to the injected delay. -/
def accessStep (p : ChaseTest) (s : ChaseState) (t : Nat) : ChaseState :=
  { s.setLoad t (afterAccess p) with
    memory := s.memory.run
      ((p.loadAccess t (s.loop t)).stores.flatMap Store.cells)
    loop := Function.update s.loop t (p.loadRound t (s.loop t)) }

/-- The next step of load thread `t`.  An access outside the region is a fault,
behind which there is no step. -/
def loadStep (p : ChaseTest) (s : ChaseState) (t : Nat) : Option ChaseState :=
  match s.load t with
  | .unborn => none
  | .begin =>
      some { s.setLoad t .waitStart with ready_count := s.ready_count + 1 }
  | .waitStart =>
      some (s.setLoad t (if s.start_flag then .test else .waitStart))
  | .test => some (s.setLoad t (if s.stop_flag then .result else .access))
  | .access =>
      if p.Maps (p.loadAccess t (s.loop t)) then some (s.accessStep p t)
      else none
  | .delayStart => some (s.setLoad t (.delay s.rdtscp))
  | .delay delay_start =>
      some (s.setLoad t (if s.delays p delay_start then .delay delay_start
        else .test))
  | .result =>
      some { s.setLoad t .finished with
        load_thread_bytes := Function.update s.load_thread_bytes t
          (s.loop t).bytes_accessed }
  | .finished => none

/-! ## The main thread -/

/-- The sum of `load_thread_bytes`. -/
def sumBytes (p : ChaseTest) (s : ChaseState) : Nat :=
  (List.range p.num_load_threads).foldl
    (fun total t => (total + s.load_thread_bytes t) % 2 ^ 64) 0

/-- The next step of the main thread. -/
def mainStep (p : ChaseTest) (s : ChaseState) : Option ChaseState :=
  match s.main with
  | .createMeasure => some { s with measure := .begin, main := .createLoad 0 }
  | .createLoad t =>
      if t < p.num_load_threads then
        some { s.setLoad t .begin with main := .createLoad (t + 1) }
      else some { s with main := .waitReady }
  | .waitReady =>
      some { s with
        main := if s.ready_count < p.num_load_threads + 1 then .waitReady
          else .startAll }
  | .startAll => some { s with start_flag := true, main := .joinMeasure }
  | .joinMeasure =>
      if s.measure = .finished then some { s with main := .joinLoad 0 } else none
  | .joinLoad t =>
      if t < p.num_load_threads then
        if s.load t = .finished then some { s with main := .joinLoad (t + 1) }
        else none
      else
        some { s with total_bytes := some (s.sumBytes p), main := .returned }
  | .returned => none

end ChaseState

inductive ChaseEvent
  | main
  | measure (cycles : Nat)
  | load (t : Nat)
  /-- Time goes by. -/
  | tick (cycles : Nat)
  deriving DecidableEq, Repr

def chaseMachine (p : ChaseTest) : Machine ChaseState ChaseEvent where
  start := ChaseState.init p
  next s
    | .main => s.mainStep p
    | .measure cycles => s.measureStep cycles
    | .load t => s.loadStep p t
    | .tick cycles => some { s with clock := s.clock + cycles }

/-! ## What a step can do -/

inductive ChaseMainMove (p : ChaseTest) (s s' : ChaseState) : Prop
  | createMeasure (hpc : s.main = .createMeasure)
      (h : s' = { s with measure := .begin, main := .createLoad 0 })
  | createLoad (t : Nat) (hpc : s.main = .createLoad t)
      (ht : t < p.num_load_threads)
      (h : s' = { s.setLoad t .begin with main := .createLoad (t + 1) })
  | allCreated (t : Nat) (hpc : s.main = .createLoad t)
      (ht : p.num_load_threads ≤ t) (h : s' = { s with main := .waitReady })
  | waitReady (hpc : s.main = .waitReady)
      (hFew : s.ready_count < p.num_load_threads + 1) (h : s' = s)
  | allReady (hpc : s.main = .waitReady)
      (hAll : p.num_load_threads + 1 ≤ s.ready_count)
      (h : s' = { s with main := .startAll })
  | startAll (hpc : s.main = .startAll)
      (h : s' = { s with start_flag := true, main := .joinMeasure })
  | joinMeasure (hpc : s.main = .joinMeasure) (hDone : s.measure = .finished)
      (h : s' = { s with main := .joinLoad 0 })
  | joinLoad (t : Nat) (hpc : s.main = .joinLoad t)
      (ht : t < p.num_load_threads) (hDone : s.load t = .finished)
      (h : s' = { s with main := .joinLoad (t + 1) })
  | sum (t : Nat) (hpc : s.main = .joinLoad t) (ht : p.num_load_threads ≤ t)
      (h : s' = { s with
        total_bytes := some (s.sumBytes p), main := .returned })

inductive MeasureMove (s s' : ChaseState) (cycles : Nat) : Prop
  | begin (hpc : s.measure = .begin)
      (h : s' = { s with
        ready_count := s.ready_count + 1, measure := .waitStart })
  | wait (hpc : s.measure = .waitStart) (hFlag : s.start_flag = false)
      (h : s' = s)
  | go (hpc : s.measure = .waitStart) (hFlag : s.start_flag = true)
      (h : s' = { s with measure := .chase 0 })
  | chase (i : Nat) (hpc : s.measure = .chase i) (hi : i < totalIterations)
      (h : s' = s.chaseStep i cycles)
  | chased (i : Nat) (hpc : s.measure = .chase i) (hi : totalIterations ≤ i)
      (h : s' = { s with measure := .stop })
  | stop (hpc : s.measure = .stop)
      (h : s' = { s with stop_flag := true, measure := .collect })
  | collect (hpc : s.measure = .collect)
      (h : s' = { s with
        global_latencies := s.global_latencies ++ s.latency_buffer
        latency_buffer := []
        measure := .finished })

inductive LoadMove (p : ChaseTest) (s s' : ChaseState) (t : Nat) : Prop
  | begin (hpc : s.load t = .begin)
      (h : s' = { s.setLoad t .waitStart with
        ready_count := s.ready_count + 1 })
  | wait (hpc : s.load t = .waitStart) (hFlag : s.start_flag = false)
      (h : s' = s)
  | go (hpc : s.load t = .waitStart) (hFlag : s.start_flag = true)
      (h : s' = s.setLoad t .test)
  | again (hpc : s.load t = .test) (hFlag : s.stop_flag = false)
      (h : s' = s.setLoad t .access)
  | leave (hpc : s.load t = .test) (hFlag : s.stop_flag = true)
      (h : s' = s.setLoad t .result)
  | access (hpc : s.load t = .access)
      (hMaps : p.Maps (p.loadAccess t (s.loop t))) (h : s' = s.accessStep p t)
  | delayStart (hpc : s.load t = .delayStart)
      (h : s' = s.setLoad t (.delay s.rdtscp))
  | spin (delay_start : UInt64) (hpc : s.load t = .delay delay_start)
      (hShort : s.delays p delay_start = true) (h : s' = s)
  | delayed (delay_start : UInt64) (hpc : s.load t = .delay delay_start)
      (hLong : s.delays p delay_start = false) (h : s' = s.setLoad t .test)
  | result (hpc : s.load t = .result)
      (h : s' = { s.setLoad t .finished with
        load_thread_bytes := Function.update s.load_thread_bytes t
          (s.loop t).bytes_accessed })

section Moves

variable {p : ChaseTest} {s s' : ChaseState}

theorem measure_cases {cycles : Nat} (hStep : s.measureStep cycles = some s') :
    MeasureMove s s' cycles := by
  unfold ChaseState.measureStep at hStep
  cases hpc : s.measure with
  | unborn => simp [hpc] at hStep
  | begin =>
      simp only [hpc] at hStep
      exact .begin hpc (Option.some.inj hStep).symm
  | waitStart =>
      simp only [hpc] at hStep
      have hEq := (Option.some.inj hStep).symm
      split at hEq
      · exact .go hpc ‹_› hEq
      · rename_i hDown
        exact .wait hpc (by simpa using hDown) (by rw [hEq, ← hpc])
  | chase i =>
      simp only [hpc] at hStep
      split at hStep
      · exact .chase i hpc ‹_› (Option.some.inj hStep).symm
      · rename_i hi
        exact .chased i hpc (Nat.le_of_not_lt hi) (Option.some.inj hStep).symm
  | stop =>
      simp only [hpc] at hStep
      exact .stop hpc (Option.some.inj hStep).symm
  | collect =>
      simp only [hpc] at hStep
      exact .collect hpc (Option.some.inj hStep).symm
  | finished => simp [hpc] at hStep

theorem load_cases {t : Nat} (hStep : s.loadStep p t = some s') :
    LoadMove p s s' t := by
  unfold ChaseState.loadStep at hStep
  cases hpc : s.load t with
  | unborn => simp [hpc] at hStep
  | begin =>
      simp only [hpc] at hStep
      exact .begin hpc (Option.some.inj hStep).symm
  | waitStart =>
      simp only [hpc] at hStep
      have hEq := (Option.some.inj hStep).symm
      split at hEq
      · exact .go hpc ‹_› hEq
      · rename_i hDown
        refine .wait hpc (by simpa using hDown) ?_
        rw [hEq, ChaseState.setLoad, ← hpc, Function.update_eq_self]
  | test =>
      simp only [hpc] at hStep
      have hEq := (Option.some.inj hStep).symm
      split at hEq
      · exact .leave hpc ‹_› hEq
      · rename_i hDown
        exact .again hpc (by simpa using hDown) hEq
  | access =>
      simp only [hpc] at hStep
      split at hStep
      · exact .access hpc ‹_› (Option.some.inj hStep).symm
      · cases hStep
  | delayStart =>
      simp only [hpc] at hStep
      exact .delayStart hpc (Option.some.inj hStep).symm
  | delay delay_start =>
      simp only [hpc] at hStep
      have hEq := (Option.some.inj hStep).symm
      split at hEq
      · refine .spin delay_start hpc ‹_› ?_
        rw [hEq, ChaseState.setLoad, ← hpc, Function.update_eq_self]
      · rename_i hLong
        exact .delayed delay_start hpc (by simpa using hLong) hEq
  | result =>
      simp only [hpc] at hStep
      exact .result hpc (Option.some.inj hStep).symm
  | finished => simp [hpc] at hStep

theorem chaseMain_cases (hStep : s.mainStep p = some s') :
    ChaseMainMove p s s' := by
  unfold ChaseState.mainStep at hStep
  cases hpc : s.main with
  | createMeasure =>
      simp only [hpc] at hStep
      exact .createMeasure hpc (Option.some.inj hStep).symm
  | createLoad t =>
      simp only [hpc] at hStep
      split at hStep
      · exact .createLoad t hpc ‹_› (Option.some.inj hStep).symm
      · rename_i ht
        exact .allCreated t hpc (Nat.le_of_not_lt ht) (Option.some.inj hStep).symm
  | waitReady =>
      simp only [hpc] at hStep
      have hEq := (Option.some.inj hStep).symm
      split at hEq
      · rename_i hFew
        exact .waitReady hpc hFew (by rw [hEq, ← hpc])
      · rename_i hAll
        exact .allReady hpc (Nat.le_of_not_lt hAll) hEq
  | startAll =>
      simp only [hpc] at hStep
      exact .startAll hpc (Option.some.inj hStep).symm
  | joinMeasure =>
      simp only [hpc] at hStep
      split at hStep
      · exact .joinMeasure hpc ‹_› (Option.some.inj hStep).symm
      · cases hStep
  | joinLoad t =>
      simp only [hpc] at hStep
      split at hStep
      · split at hStep
        · exact .joinLoad t hpc ‹_› ‹_› (Option.some.inj hStep).symm
        · cases hStep
      · rename_i ht
        exact .sum t hpc (Nat.le_of_not_lt ht) (Option.some.inj hStep).symm
  | returned =>
      simp only [hpc] at hStep
      cases hStep

end Moves

end MioBench.Bench
