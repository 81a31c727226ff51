import MioBench.Bench.Instrumented
import MioBench.Lib.ForkJoin
import MioBench.Lib.LockedLog

/-!
# A bandwidth test

What the bandwidth tests of `benchmark.cpp` have in common, and what `main`
does before and after each of them: the threads are started together, pass the
bytes they have moved on to a `ProgressMonitor`, whose thread reads the count
from time to time, and hand over what they have traced and timed to the logs of
`tracing.cpp` and `latency_measure.cpp`, each under its mutex.  What a thread
does between two calls that others can notice is in `Access` and
`Instrumented`, and is a parameter here: the loop of each thread is taken as it
is when it has ended, so this is about tests whose threads can be created and
whose loops end.  Those of the stride tests need not (`StrideTermination`).
-/

namespace MioBench.Bench

open MioBench.Lib

/-- A test each loop of which ends, with what the loops have done by then. -/
structure BandwidthTest where
  measurement : Measurement
  build : Build
  /-- The read tests time loads; the write and stride tests have no latency
  build. -/
  timesLoads : Bool
  /-- `trace_buffer` of each thread at the end of its loop. -/
  trace_buffer : Nat → List TraceEntry
  /-- `latency_buffer` of each thread at the end of its loop. -/
  latency_buffer : Nat → List Nat
  /-- What earlier tests have left in the logs. -/
  old_traces : List (List TraceEntry)
  old_latencies : List Nat

namespace BandwidthTest

def num_threads (p : BandwidthTest) : Nat := p.measurement.threads.length

/-- The arguments of the `add_bytes` calls of thread `t`. -/
def added (p : BandwidthTest) (t : Nat) : List Nat :=
  (p.measurement.threads.getD t ThreadLoop.start).added

/-- The loops of the threads by number. -/
theorem map_threads {α : Type} (p : BandwidthTest) (f : ThreadLoop → α) :
    (List.range p.num_threads).map
        (fun t => f (p.measurement.threads.getD t ThreadLoop.start)) =
      p.measurement.threads.map f := by
  apply List.ext_getElem
  · rw [List.length_map, List.length_range, List.length_map]
    rfl
  · intro t ht ht'
    have hLt : t < p.measurement.threads.length := by simpa using ht'
    simp [hLt]

def collectsTrace (p : BandwidthTest) : Bool := p.build.ENABLE_TRACING

def collectsLatency (p : BandwidthTest) : Bool :=
  p.build.ENABLE_LATENCY_MEASURE && p.timesLoads

end BandwidthTest

/-- Where the main thread stands. -/
inductive BandwidthPc
  | create (t : Nat)
  | waitReady
  | startMonitor
  | startAll
  | join (t : Nat)
  | stopMonitor
  | joinMonitor
  | save
  | returned
  deriving DecidableEq, Repr

/-- Where the thread of the `ProgressMonitor` stands. -/
inductive MonitorPc
  | unborn
  | test
  | print
  | last
  | finished
  deriving DecidableEq, Repr

/-- Where a thread of the test stands. -/
inductive WorkerPc
  | unborn
  | begin
  | waitStart
  | work (calls : Nat)
  | traceLock
  | tracePush
  | latencyLock
  | latencyInsert
  | finished
  deriving DecidableEq, Repr

structure BandwidthState where
  ready_count : Nat
  start_flag : Bool
  main : BandwidthPc
  worker : Nat → WorkerPc
  monitor : MonitorPc
  /-- `stop_flag_` of the monitor. -/
  stop_flag : Bool
  bytes_processed : Nat
  /-- The values of `processed` in `print_progress`, call by call: what it reads
  from the counter and prints a percentage and a number of GiB of. -/
  processed : List Nat
  /-- `global_trace_buffers` with `trace_mutex`. -/
  trace_log : LockedLog (List TraceEntry)
  /-- `global_latencies` with `global_latencies_mutex`. -/
  latency_log : LockedLog Nat
  /-- What `saveTrace` and `saveLatencyLog` are called with. -/
  saved_traces : Option (List (List TraceEntry))
  saved_latencies : Option (List Nat)

namespace BandwidthState

/-- `main` has cleared the logs that this test fills. -/
def init (p : BandwidthTest) : BandwidthState where
  ready_count := 0
  start_flag := false
  main := .create 0
  worker := fun _ => .unborn
  monitor := .unborn
  stop_flag := false
  bytes_processed := 0
  processed := []
  trace_log := LockedLog.free (if p.collectsTrace then [] else p.old_traces)
  latency_log :=
    LockedLog.free (if p.collectsLatency then [] else p.old_latencies)
  saved_traces := none
  saved_latencies := none

def setWorker (s : BandwidthState) (t : Nat) (pc : WorkerPc) : BandwidthState :=
  { s with worker := Function.update s.worker t pc }

@[simp] theorem setWorker_self (s : BandwidthState) (t : Nat) (pc : WorkerPc) :
    (s.setWorker t pc).worker t = pc :=
  Function.update_self ..

theorem setWorker_other (s : BandwidthState) {t u : Nat} (pc : WorkerPc)
    (hu : u ≠ t) : (s.setWorker t pc).worker u = s.worker u :=
  Function.update_of_ne hu ..

/-! ## The threads of the test -/

/-- Where a thread goes from the trace log. -/
def afterTrace (p : BandwidthTest) : WorkerPc :=
  if p.collectsLatency then .latencyLock else .finished

/-- Where a thread goes from its loop. -/
def afterWork (p : BandwidthTest) : WorkerPc :=
  if p.collectsTrace then .traceLock else afterTrace p

/-- Up to the next `add_bytes` call, or to the end of the loop. -/
def workStep (p : BandwidthTest) (s : BandwidthState) (t calls : Nat) :
    BandwidthState :=
  match (p.added t)[calls]? with
  | some bytes =>
      { s.setWorker t (.work (calls + 1)) with
        bytes_processed := (s.bytes_processed + bytes) % 2 ^ 64 }
  | none => s.setWorker t (afterWork p)

/-- `collectTraceBuffer` with the lock held: `push_back` of the whole buffer,
then the lock is given back. -/
def tracePush (p : BandwidthTest) (s : BandwidthState) (t : Nat) :
    BandwidthState :=
  match s.trace_log.append [p.trace_buffer t] with
  | some log => { s with trace_log := log }
  | none =>
      { s.setWorker t (afterTrace p) with trace_log := s.trace_log.unlock t }

/-- `collectLatencyBuffers` with the lock held: `insert` one by one, then the
lock is given back. -/
def latencyInsert (p : BandwidthTest) (s : BandwidthState) (t : Nat) :
    BandwidthState :=
  match s.latency_log.append (p.latency_buffer t) with
  | some log => { s with latency_log := log }
  | none =>
      { s.setWorker t .finished with latency_log := s.latency_log.unlock t }

/-- The next step of thread `t`. -/
def workerStep (p : BandwidthTest) (s : BandwidthState) (t : Nat) :
    Option BandwidthState :=
  match s.worker t with
  | .unborn => none
  | .begin =>
      some { s.setWorker t .waitStart with ready_count := s.ready_count + 1 }
  | .waitStart =>
      some (s.setWorker t (if s.start_flag then .work 0 else .waitStart))
  | .work calls => some (s.workStep p t calls)
  | .traceLock =>
      (s.trace_log.lock t).map fun log =>
        { s.setWorker t .tracePush with trace_log := log }
  | .tracePush => some (s.tracePush p t)
  | .latencyLock =>
      (s.latency_log.lock t).map fun log =>
        { s.setWorker t .latencyInsert with latency_log := log }
  | .latencyInsert => some (s.latencyInsert p t)
  | .finished => none

/-! ## The monitor -/

/-- The next step of the monitor; its sleep is left to the scheduler. -/
def monitorStep (s : BandwidthState) : Option BandwidthState :=
  match s.monitor with
  | .unborn => none
  | .test => some { s with monitor := if s.stop_flag then .last else .print }
  | .print =>
      some { s with
        processed := s.processed ++ [s.bytes_processed], monitor := .test }
  | .last =>
      some { s with
        processed := s.processed ++ [s.bytes_processed], monitor := .finished }
  | .finished => none

/-! ## The main thread -/

/-- The next step of the main thread. -/
def mainStep (p : BandwidthTest) (s : BandwidthState) : Option BandwidthState :=
  match s.main with
  | .create t =>
      if t < p.num_threads then
        some { s.setWorker t .begin with main := .create (t + 1) }
      else some { s with main := .waitReady }
  | .waitReady =>
      some { s with
        main := if s.ready_count < p.num_threads then .waitReady
          else .startMonitor }
  | .startMonitor => some { s with monitor := .test, main := .startAll }
  | .startAll => some { s with start_flag := true, main := .join 0 }
  | .join t =>
      if t < p.num_threads then
        if s.worker t = .finished then some { s with main := .join (t + 1) }
        else none
      else some { s with main := .stopMonitor }
  | .stopMonitor => some { s with stop_flag := true, main := .joinMonitor }
  | .joinMonitor =>
      if s.monitor = .finished then some { s with main := .save } else none
  | .save =>
      some { s with
        saved_traces := if p.collectsTrace then some s.trace_log.log else none
        saved_latencies :=
          if p.collectsLatency then some s.latency_log.log else none
        main := .returned }
  | .returned => none

end BandwidthState

inductive BandwidthEvent
  | main
  | monitor
  | worker (t : Nat)
  deriving DecidableEq, Repr

def bandwidthMachine (p : BandwidthTest) :
    Machine BandwidthState BandwidthEvent where
  start := BandwidthState.init p
  next s
    | .main => s.mainStep p
    | .monitor => s.monitorStep
    | .worker t => s.workerStep p t

/-! ## What a step can do -/

inductive BandwidthMainMove (p : BandwidthTest) (s s' : BandwidthState) : Prop
  | create (t : Nat) (hpc : s.main = .create t) (ht : t < p.num_threads)
      (h : s' = { s.setWorker t .begin with main := .create (t + 1) })
  | allCreated (t : Nat) (hpc : s.main = .create t) (ht : p.num_threads ≤ t)
      (h : s' = { s with main := .waitReady })
  | waitReady (hpc : s.main = .waitReady) (hFew : s.ready_count < p.num_threads)
      (h : s' = s)
  | allReady (hpc : s.main = .waitReady) (hAll : p.num_threads ≤ s.ready_count)
      (h : s' = { s with main := .startMonitor })
  | startMonitor (hpc : s.main = .startMonitor)
      (h : s' = { s with monitor := .test, main := .startAll })
  | startAll (hpc : s.main = .startAll)
      (h : s' = { s with start_flag := true, main := .join 0 })
  | join (t : Nat) (hpc : s.main = .join t) (ht : t < p.num_threads)
      (hDone : s.worker t = .finished)
      (h : s' = { s with main := .join (t + 1) })
  | allJoined (t : Nat) (hpc : s.main = .join t) (ht : p.num_threads ≤ t)
      (h : s' = { s with main := .stopMonitor })
  | stopMonitor (hpc : s.main = .stopMonitor)
      (h : s' = { s with stop_flag := true, main := .joinMonitor })
  | joinMonitor (hpc : s.main = .joinMonitor) (hDone : s.monitor = .finished)
      (h : s' = { s with main := .save })
  | save (hpc : s.main = .save)
      (h : s' = { s with
        saved_traces := if p.collectsTrace then some s.trace_log.log else none
        saved_latencies :=
          if p.collectsLatency then some s.latency_log.log else none
        main := .returned })

inductive MonitorMove (s s' : BandwidthState) : Prop
  | test (hpc : s.monitor = .test)
      (h : s' = { s with monitor := if s.stop_flag then .last else .print })
  | print (hpc : s.monitor = .print)
      (h : s' = { s with
        processed := s.processed ++ [s.bytes_processed], monitor := .test })
  | last (hpc : s.monitor = .last)
      (h : s' = { s with
        processed := s.processed ++ [s.bytes_processed], monitor := .finished })

inductive WorkerMove (p : BandwidthTest) (s s' : BandwidthState) (t : Nat) :
    Prop
  | begin (hpc : s.worker t = .begin)
      (h : s' = { s.setWorker t .waitStart with
        ready_count := s.ready_count + 1 })
  | wait (hpc : s.worker t = .waitStart) (hFlag : s.start_flag = false)
      (h : s' = s)
  | go (hpc : s.worker t = .waitStart) (hFlag : s.start_flag = true)
      (h : s' = s.setWorker t (.work 0))
  | add (calls bytes : Nat) (hpc : s.worker t = .work calls)
      (hCall : (p.added t)[calls]? = some bytes)
      (h : s' = { s.setWorker t (.work (calls + 1)) with
        bytes_processed := (s.bytes_processed + bytes) % 2 ^ 64 })
  | worked (calls : Nat) (hpc : s.worker t = .work calls)
      (hEnd : (p.added t)[calls]? = none)
      (h : s' = s.setWorker t (BandwidthState.afterWork p))
  | lockTrace (log : LockedLog (List TraceEntry)) (hpc : s.worker t = .traceLock)
      (hLock : s.trace_log.lock t = some log)
      (h : s' = { s.setWorker t .tracePush with trace_log := log })
  | pushTrace (log : LockedLog (List TraceEntry)) (hpc : s.worker t = .tracePush)
      (hAppend : s.trace_log.append [p.trace_buffer t] = some log)
      (h : s' = { s with trace_log := log })
  | unlockTrace (hpc : s.worker t = .tracePush)
      (hEnd : s.trace_log.append [p.trace_buffer t] = none)
      (h : s' = { s.setWorker t (BandwidthState.afterTrace p) with
        trace_log := s.trace_log.unlock t })
  | lockLatency (log : LockedLog Nat) (hpc : s.worker t = .latencyLock)
      (hLock : s.latency_log.lock t = some log)
      (h : s' = { s.setWorker t .latencyInsert with latency_log := log })
  | insertLatency (log : LockedLog Nat) (hpc : s.worker t = .latencyInsert)
      (hAppend : s.latency_log.append (p.latency_buffer t) = some log)
      (h : s' = { s with latency_log := log })
  | unlockLatency (hpc : s.worker t = .latencyInsert)
      (hEnd : s.latency_log.append (p.latency_buffer t) = none)
      (h : s' = { s.setWorker t .finished with
        latency_log := s.latency_log.unlock t })

section Moves

variable {p : BandwidthTest} {s s' : BandwidthState}

theorem bandwidthMain_cases (hStep : s.mainStep p = some s') :
    BandwidthMainMove p s s' := by
  unfold BandwidthState.mainStep at hStep
  cases hpc : s.main with
  | create t =>
      simp only [hpc] at hStep
      split at hStep
      · exact .create t hpc ‹_› (Option.some.inj hStep).symm
      · rename_i ht
        exact .allCreated t hpc (Nat.le_of_not_lt ht) (Option.some.inj hStep).symm
  | waitReady =>
      simp only [hpc] at hStep
      have hEq := (Option.some.inj hStep).symm
      split at hEq
      · rename_i hFew
        exact .waitReady hpc hFew (by rw [hEq, ← hpc])
      · rename_i hAll
        exact .allReady hpc (Nat.le_of_not_lt hAll) hEq
  | startMonitor =>
      simp only [hpc] at hStep
      exact .startMonitor hpc (Option.some.inj hStep).symm
  | startAll =>
      simp only [hpc] at hStep
      exact .startAll hpc (Option.some.inj hStep).symm
  | join t =>
      simp only [hpc] at hStep
      split at hStep
      · split at hStep
        · exact .join t hpc ‹_› ‹_› (Option.some.inj hStep).symm
        · cases hStep
      · rename_i ht
        exact .allJoined t hpc (Nat.le_of_not_lt ht) (Option.some.inj hStep).symm
  | stopMonitor =>
      simp only [hpc] at hStep
      exact .stopMonitor hpc (Option.some.inj hStep).symm
  | joinMonitor =>
      simp only [hpc] at hStep
      split at hStep
      · exact .joinMonitor hpc ‹_› (Option.some.inj hStep).symm
      · cases hStep
  | save =>
      simp only [hpc] at hStep
      exact .save hpc (Option.some.inj hStep).symm
  | returned =>
      simp only [hpc] at hStep
      cases hStep

theorem monitor_cases (hStep : s.monitorStep = some s') : MonitorMove s s' := by
  unfold BandwidthState.monitorStep at hStep
  cases hpc : s.monitor with
  | unborn => simp [hpc] at hStep
  | test =>
      simp only [hpc] at hStep
      exact .test hpc (Option.some.inj hStep).symm
  | print =>
      simp only [hpc] at hStep
      exact .print hpc (Option.some.inj hStep).symm
  | last =>
      simp only [hpc] at hStep
      exact .last hpc (Option.some.inj hStep).symm
  | finished => simp [hpc] at hStep

theorem worker_cases {t : Nat} (hStep : s.workerStep p t = some s') :
    WorkerMove p s s' t := by
  unfold BandwidthState.workerStep at hStep
  cases hpc : s.worker t with
  | unborn => simp [hpc] at hStep
  | begin =>
      simp only [hpc] at hStep
      exact .begin hpc (Option.some.inj hStep).symm
  | waitStart =>
      simp only [hpc] at hStep
      have hEq := (Option.some.inj hStep).symm
      split at hEq
      · exact .go hpc ‹_› hEq
      · rename_i hDown
        refine .wait hpc (by simpa using hDown) ?_
        rw [hEq, BandwidthState.setWorker, ← hpc, Function.update_eq_self]
  | work calls =>
      simp only [hpc] at hStep
      have hEq := (Option.some.inj hStep).symm
      unfold BandwidthState.workStep at hEq
      split at hEq
      · exact .add calls _ hpc ‹_› hEq
      · exact .worked calls hpc ‹_› hEq
  | traceLock =>
      simp only [hpc] at hStep
      obtain ⟨log, hLock, hEq⟩ := Option.map_eq_some_iff.mp hStep
      exact .lockTrace log hpc hLock hEq.symm
  | tracePush =>
      simp only [hpc] at hStep
      have hEq := (Option.some.inj hStep).symm
      unfold BandwidthState.tracePush at hEq
      split at hEq
      · exact .pushTrace _ hpc ‹_› hEq
      · exact .unlockTrace hpc ‹_› hEq
  | latencyLock =>
      simp only [hpc] at hStep
      obtain ⟨log, hLock, hEq⟩ := Option.map_eq_some_iff.mp hStep
      exact .lockLatency log hpc hLock hEq.symm
  | latencyInsert =>
      simp only [hpc] at hStep
      have hEq := (Option.some.inj hStep).symm
      unfold BandwidthState.latencyInsert at hEq
      split at hEq
      · exact .insertLatency _ hpc ‹_› hEq
      · exact .unlockLatency hpc ‹_› hEq
  | finished => simp [hpc] at hStep

end Moves

end MioBench.Bench
