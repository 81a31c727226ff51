import MioBench.Bench.BandwidthRun

/-!
# The parts of a bandwidth test

A run of a bandwidth test, seen from three sides: its threads fork and join,
they hand over their traces, and they hand over their latencies.  Each side is
a machine of the library.
-/

namespace MioBench.Bench

open MioBench.Lib

/-! ## Start and end -/

/-- A thread as a worker. -/
def WorkerPc.stage : WorkerPc → WorkerStage
  | unborn => .unborn
  | begin => .begin
  | waitStart => .waitStart
  | finished => .finished
  | _ => .running

@[simp] theorem WorkerPc.stage_eq_unborn {pc : WorkerPc} :
    pc.stage = .unborn ↔ pc = .unborn := by
  cases pc <;> simp [stage]

@[simp] theorem WorkerPc.stage_eq_begin {pc : WorkerPc} :
    pc.stage = .begin ↔ pc = .begin := by
  cases pc <;> simp [stage]

@[simp] theorem WorkerPc.stage_eq_finished {pc : WorkerPc} :
    pc.stage = .finished ↔ pc = .finished := by
  cases pc <;> simp [stage]

/-- Main as the thread that creates and joins. -/
def BandwidthPc.fork (n : Nat) : BandwidthPc → ForkPc
  | create t => .create t
  | waitReady => .waitReady
  | startMonitor | startAll => .startAll
  | join t => .join t
  | _ => .join n

/-- A thread and the trace log. -/
def WorkerPc.tracePhase (p : BandwidthTest) : WorkerPc → HandPhase
  | tracePush => .holding
  | latencyLock | latencyInsert | finished =>
      if p.collectsTrace then .handed else .ahead
  | _ => .ahead

/-- A thread and the latency log. -/
def WorkerPc.latencyPhase (p : BandwidthTest) : WorkerPc → HandPhase
  | latencyInsert => .holding
  | finished => if p.collectsLatency then .handed else .ahead
  | _ => .ahead

namespace BandwidthState

variable (p : BandwidthTest)

def fork (s : BandwidthState) : ForkState where
  ready_count := s.ready_count
  start_flag := s.start_flag
  main := s.main.fork p.num_threads
  worker := WorkerPc.stage ∘ s.worker

def traces (s : BandwidthState) : HandState (List TraceEntry) where
  shared := s.trace_log
  phase := WorkerPc.tracePhase p ∘ s.worker

def latencies (s : BandwidthState) : HandState Nat where
  shared := s.latency_log
  phase := WorkerPc.latencyPhase p ∘ s.worker

variable {p} {s s' : BandwidthState} {t : Nat} {pc : WorkerPc}

theorem fork_worker (hWorker : s'.worker = Function.update s.worker t pc) :
    s'.fork p = { (s.fork p).setWorker t pc.stage with
      ready_count := s'.ready_count
      start_flag := s'.start_flag
      main := s'.main.fork p.num_threads } := by
  refine ForkState.ext rfl rfl rfl ?_
  show WorkerPc.stage ∘ s'.worker = _
  rw [hWorker, Function.comp_update]
  rfl

theorem traces_worker (hWorker : s'.worker = Function.update s.worker t pc) :
    s'.traces p = { (s.traces p).setPhase t (pc.tracePhase p) with
      shared := s'.trace_log } := by
  refine HandState.ext rfl ?_
  show WorkerPc.tracePhase p ∘ s'.worker = _
  rw [hWorker, Function.comp_update]
  rfl

theorem latencies_worker (hWorker : s'.worker = Function.update s.worker t pc) :
    s'.latencies p = { (s.latencies p).setPhase t (pc.latencyPhase p) with
      shared := s'.latency_log } := by
  refine HandState.ext rfl ?_
  show WorkerPc.latencyPhase p ∘ s'.worker = _
  rw [hWorker, Function.comp_update]
  rfl

/-- As long as the phase and the log stay, so does the projection. -/
theorem traces_stays (hWorker : s'.worker = Function.update s.worker t pc)
    (hPhase : (s.worker t).tracePhase p = pc.tracePhase p)
    (hLog : s'.trace_log = s.trace_log) : s'.traces p = s.traces p := by
  rw [traces_worker hWorker, hLog]
  refine HandState.ext rfl ?_
  exact Function.update_eq_self_iff.mpr hPhase.symm

theorem latencies_stays (hWorker : s'.worker = Function.update s.worker t pc)
    (hPhase : (s.worker t).latencyPhase p = pc.latencyPhase p)
    (hLog : s'.latency_log = s.latency_log) :
    s'.latencies p = s.latencies p := by
  rw [latencies_worker hWorker, hLog]
  refine HandState.ext rfl ?_
  exact Function.update_eq_self_iff.mpr hPhase.symm

theorem fork_stays (hWorker : s'.worker = Function.update s.worker t pc)
    (hStage : (s.worker t).stage = pc.stage)
    (hReady : s'.ready_count = s.ready_count)
    (hStart : s'.start_flag = s.start_flag) (hMain : s'.main = s.main) :
    s'.fork p = s.fork p := by
  have hSame : (s.fork p).worker t = pc.stage := hStage
  rw [fork_worker hWorker, hReady, hStart, hMain]
  exact ForkState.setWorker_eq_self hSame

/-- A running worker is done. -/
theorem fork_finishes (hWorker : s'.worker = Function.update s.worker t .finished)
    (hStage : (s.worker t).stage = .running)
    (hReady : s'.ready_count = s.ready_count)
    (hStart : s'.start_flag = s.start_flag) (hMain : s'.main = s.main) :
    (s.fork p).workerStep t = some (s'.fork p) := by
  rw [fork_worker hWorker, hReady, hStart, hMain]
  have hRunning : (s.fork p).worker t = .running := hStage
  simp only [ForkState.workerStep, hRunning]
  rfl

theorem afterTrace_cases (p : BandwidthTest) :
    afterTrace p = .latencyLock ∧ p.collectsLatency = true ∨
      afterTrace p = .finished ∧ p.collectsLatency = false := by
  unfold afterTrace
  cases p.collectsLatency with
  | true => exact Or.inl ⟨rfl, rfl⟩
  | false => exact Or.inr ⟨rfl, rfl⟩

theorem afterWork_cases (p : BandwidthTest) :
    afterWork p = .traceLock ∧ p.collectsTrace = true ∨
      afterWork p = afterTrace p ∧ p.collectsTrace = false := by
  unfold afterWork
  cases p.collectsTrace with
  | true => exact Or.inl ⟨rfl, rfl⟩
  | false => exact Or.inr ⟨rfl, rfl⟩

end BandwidthState

section Workers

variable {p : BandwidthTest} {s s' : BandwidthState} {t : Nat}

/-- What a thread of the test leaves alone. -/
structure WorkerFrame (s s' : BandwidthState) (t : Nat) : Prop where
  main : s'.main = s.main
  start : s'.start_flag = s.start_flag
  monitor : s'.monitor = s.monitor
  stop : s'.stop_flag = s.stop_flag
  processed : s'.processed = s.processed
  saved_traces : s'.saved_traces = s.saved_traces
  saved_latencies : s'.saved_latencies = s.saved_latencies
  other : ∀ u, u ≠ t → s'.worker u = s.worker u

theorem WorkerMove.frame (h : WorkerMove p s s' t) : WorkerFrame s s' t := by
  have hSet : ∀ pc, WorkerFrame s (s.setWorker t pc) t := fun pc =>
    ⟨rfl, rfl, rfl, rfl, rfl, rfl, rfl,
      fun u hu => BandwidthState.setWorker_other s pc hu⟩
  have hSame : WorkerFrame s s t :=
    ⟨rfl, rfl, rfl, rfl, rfl, rfl, rfl, fun _ _ => rfl⟩
  cases h with
  | begin _ hEq => exact hEq ▸ { hSet .waitStart with }
  | wait _ _ hEq => exact hEq.symm ▸ hSame
  | go _ _ hEq => exact hEq ▸ hSet (.work 0)
  | add calls _ _ _ hEq => exact hEq ▸ { hSet (.work (calls + 1)) with }
  | worked _ _ _ hEq => exact hEq ▸ hSet _
  | lockTrace _ _ _ hEq => exact hEq ▸ { hSet .tracePush with }
  | pushTrace _ _ _ hEq => exact hEq ▸ { hSame with }
  | unlockTrace _ _ hEq => exact hEq ▸ { hSet (BandwidthState.afterTrace p) with }
  | lockLatency _ _ _ hEq => exact hEq ▸ { hSet .latencyInsert with }
  | insertLatency _ _ _ hEq => exact hEq ▸ { hSame with }
  | unlockLatency _ _ hEq => exact hEq ▸ { hSet .finished with }

theorem WorkerMove.active (h : WorkerMove p s s' t) :
    s.worker t ≠ .unborn ∧ s.worker t ≠ .finished := by
  cases h
  all_goals simp [*]

/-- A thread moves: the worker does, or nobody. -/
theorem WorkerMove.fork (h : WorkerMove p s s' t) :
    s'.fork p = s.fork p ∨ (s.fork p).workerStep t = some (s'.fork p) := by
  have hAfter : ∀ {pc : WorkerPc}, s.worker t = pc → pc.stage = .running →
      s'.worker = Function.update s.worker t (BandwidthState.afterTrace p) →
      s'.ready_count = s.ready_count → s'.start_flag = s.start_flag →
      s'.main = s.main →
      s'.fork p = s.fork p ∨
        (s.fork p).workerStep t = some (s'.fork p) := by
    intro pc hpc hRunning hWorker hReady hStart hMain
    rcases BandwidthState.afterTrace_cases p with ⟨hNext, _⟩ | ⟨hNext, _⟩
    · left
      rw [hNext] at hWorker
      exact BandwidthState.fork_stays hWorker (by rw [hpc, hRunning]; rfl) hReady
        hStart hMain
    · right
      rw [hNext] at hWorker
      exact BandwidthState.fork_finishes hWorker (by rw [hpc, hRunning]) hReady
        hStart hMain
  cases h with
  | begin hpc hEq =>
      right
      have hBegin : (s.fork p).worker t = .begin := by
        show (s.worker t).stage = .begin
        rw [hpc]
        rfl
      have hWorker : s'.worker = Function.update s.worker t .waitStart := by
        rw [hEq]
        rfl
      simp only [ForkState.workerStep, hBegin]
      rw [BandwidthState.fork_worker hWorker, hEq]
      rfl
  | wait _ _ hEq => exact Or.inl (by rw [hEq])
  | go hpc hFlag hEq =>
      right
      have hWait : (s.fork p).worker t = .waitStart := by
        show (s.worker t).stage = .waitStart
        rw [hpc]
        rfl
      have hWorker : s'.worker = Function.update s.worker t (.work 0) := by
        rw [hEq]
        rfl
      simp only [ForkState.workerStep, hWait]
      rw [if_pos (show (s.fork p).start_flag = true from hFlag),
        BandwidthState.fork_worker hWorker, hEq]
      rfl
  | add calls bytes hpc _ hEq =>
      subst hEq
      exact Or.inl (BandwidthState.fork_stays rfl (by rw [hpc]; rfl) rfl rfl rfl)
  | worked calls hpc _ hEq =>
      subst hEq
      rcases BandwidthState.afterWork_cases p with ⟨hNext, _⟩ | ⟨hNext, _⟩
      · rw [hNext]
        exact Or.inl
          (BandwidthState.fork_stays rfl (by rw [hpc]; rfl) rfl rfl rfl)
      · refine hAfter hpc rfl ?_ rfl rfl rfl
        rw [hNext]
        rfl
  | lockTrace log hpc _ hEq =>
      subst hEq
      exact Or.inl (BandwidthState.fork_stays rfl (by rw [hpc]; rfl) rfl rfl rfl)
  | pushTrace log hpc _ hEq =>
      subst hEq
      exact Or.inl rfl
  | unlockTrace hpc _ hEq =>
      subst hEq
      exact hAfter hpc rfl rfl rfl rfl rfl
  | lockLatency log hpc _ hEq =>
      subst hEq
      exact Or.inl (BandwidthState.fork_stays rfl (by rw [hpc]; rfl) rfl rfl rfl)
  | insertLatency log hpc _ hEq =>
      subst hEq
      exact Or.inl rfl
  | unlockLatency hpc _ hEq =>
      subst hEq
      exact Or.inr
        (BandwidthState.fork_finishes rfl (by rw [hpc]; rfl) rfl rfl rfl)

/-- A thread is at the logs that the build collects. -/
structure AtItsLogs (p : BandwidthTest) (pc : WorkerPc) : Prop where
  trace : pc = .traceLock ∨ pc = .tracePush → p.collectsTrace = true
  latency : pc = .latencyLock ∨ pc = .latencyInsert → p.collectsLatency = true

theorem atItsLogs_afterTrace (p : BandwidthTest) :
    AtItsLogs p (BandwidthState.afterTrace p) := by
  rcases BandwidthState.afterTrace_cases p with ⟨hNext, hCollects⟩ | ⟨hNext, _⟩
  · rw [hNext]
    exact ⟨by simp, fun _ => hCollects⟩
  · rw [hNext]
    exact ⟨by simp, by simp⟩

theorem atItsLogs_afterWork (p : BandwidthTest) :
    AtItsLogs p (BandwidthState.afterWork p) := by
  rcases BandwidthState.afterWork_cases p with ⟨hNext, hCollects⟩ | ⟨hNext, _⟩
  · rw [hNext]
    exact ⟨fun _ => hCollects, by simp⟩
  · rw [hNext]
    exact atItsLogs_afterTrace p

theorem WorkerMove.atItsLogs (h : WorkerMove p s s' t)
    (hOld : AtItsLogs p (s.worker t)) : AtItsLogs p (s'.worker t) := by
  cases h with
  | worked _ _ _ hEq =>
      rw [hEq, BandwidthState.setWorker_self]
      exact atItsLogs_afterWork p
  | unlockTrace _ _ hEq =>
      have hNew : s'.worker t = BandwidthState.afterTrace p := by
        rw [hEq]
        exact BandwidthState.setWorker_self s t _
      rw [hNew]
      exact atItsLogs_afterTrace p
  | lockTrace _ hpc _ hEq =>
      have hCollects := hOld.trace (Or.inl hpc)
      subst hEq
      exact ⟨fun _ => hCollects, by simp [BandwidthState.setWorker]⟩
  | lockLatency _ hpc _ hEq =>
      have hCollects := hOld.latency (Or.inl hpc)
      subst hEq
      exact ⟨by simp [BandwidthState.setWorker], fun _ => hCollects⟩
  | wait _ _ hEq => exact hEq.symm ▸ hOld
  | pushTrace _ _ _ hEq =>
      subst hEq
      exact hOld
  | insertLatency _ _ _ hEq =>
      subst hEq
      exact hOld
  | begin _ hEq =>
      subst hEq
      exact ⟨by simp [BandwidthState.setWorker], by simp [BandwidthState.setWorker]⟩
  | go _ _ hEq =>
      subst hEq
      exact ⟨by simp, by simp⟩
  | add _ _ _ _ hEq =>
      subst hEq
      exact ⟨by simp [BandwidthState.setWorker], by simp [BandwidthState.setWorker]⟩
  | unlockLatency _ _ hEq =>
      subst hEq
      exact ⟨by simp [BandwidthState.setWorker], by simp [BandwidthState.setWorker]⟩

/-- A thread moves: it hands its trace over, or the trace log stays. -/
theorem WorkerMove.traces (h : WorkerMove p s s' t)
    (hLogs : AtItsLogs p (s.worker t)) :
    s'.traces p = s.traces p ∨
      (s.traces p).step (fun t => [p.trace_buffer t]) t =
        some (s'.traces p) := by
  have hPhase : ∀ pc, s.worker t = pc →
      (s.traces p).phase t = pc.tracePhase p :=
    fun pc hpc => congrArg (WorkerPc.tracePhase p) hpc
  cases h with
  | begin hpc hEq =>
      subst hEq
      exact Or.inl (BandwidthState.traces_stays rfl (by rw [hpc]; rfl) rfl)
  | wait _ _ hEq => exact Or.inl (by rw [hEq])
  | go hpc _ hEq =>
      subst hEq
      exact Or.inl (BandwidthState.traces_stays rfl (by rw [hpc]; rfl) rfl)
  | add calls bytes hpc _ hEq =>
      subst hEq
      exact Or.inl (BandwidthState.traces_stays rfl (by rw [hpc]; rfl) rfl)
  | worked calls hpc _ hEq =>
      subst hEq
      refine Or.inl (BandwidthState.traces_stays rfl ?_ rfl)
      rw [hpc]
      rcases BandwidthState.afterWork_cases p with ⟨hNext, _⟩ | ⟨hNext, hNot⟩
      · rw [hNext]
        rfl
      · rw [hNext]
        rcases BandwidthState.afterTrace_cases p with ⟨hLast, _⟩ | ⟨hLast, _⟩
        all_goals simp [hLast, WorkerPc.tracePhase, hNot]
  | lockTrace log hpc hLock hEq =>
      right
      have hWorker : s'.worker = Function.update s.worker t .tracePush := by
        rw [hEq]
        rfl
      have hShared : (s.traces p).shared.lock t = some log := hLock
      simp only [HandState.step, hPhase _ hpc, WorkerPc.tracePhase, hShared,
        Option.map_some]
      rw [BandwidthState.traces_worker hWorker, hEq]
      rfl
  | pushTrace log hpc hAppend hEq =>
      right
      have hShared : (s.traces p).shared.append [p.trace_buffer t] = some log :=
        hAppend
      simp only [HandState.step, hPhase _ hpc, WorkerPc.tracePhase, hShared]
      rw [hEq]
      rfl
  | unlockTrace hpc hEnd hEq =>
      right
      have hCollects := hLogs.trace (Or.inr hpc)
      have hShared : (s.traces p).shared.append [p.trace_buffer t] = none := hEnd
      have hWorker : s'.worker =
          Function.update s.worker t (BandwidthState.afterTrace p) := by
        rw [hEq]
        rfl
      have hHanded : (BandwidthState.afterTrace p).tracePhase p = .handed := by
        rcases BandwidthState.afterTrace_cases p with ⟨hNext, _⟩ | ⟨hNext, _⟩
        all_goals simp [hNext, WorkerPc.tracePhase, hCollects]
      simp only [HandState.step, hPhase _ hpc, WorkerPc.tracePhase, hShared]
      rw [BandwidthState.traces_worker hWorker, hHanded, hEq]
      rfl
  | lockLatency log hpc _ hEq =>
      subst hEq
      exact Or.inl (BandwidthState.traces_stays rfl (by rw [hpc]; rfl) rfl)
  | insertLatency log hpc _ hEq =>
      subst hEq
      exact Or.inl rfl
  | unlockLatency hpc _ hEq =>
      subst hEq
      exact Or.inl (BandwidthState.traces_stays rfl (by rw [hpc]; rfl) rfl)

/-- A thread moves: it hands its latencies over, or the latency log stays. -/
theorem WorkerMove.latencies (h : WorkerMove p s s' t)
    (hLogs : AtItsLogs p (s.worker t)) :
    s'.latencies p = s.latencies p ∨
      (s.latencies p).step p.latency_buffer t = some (s'.latencies p) := by
  have hPhase : ∀ pc, s.worker t = pc →
      (s.latencies p).phase t = pc.latencyPhase p :=
    fun pc hpc => congrArg (WorkerPc.latencyPhase p) hpc
  have hAhead : (BandwidthState.afterTrace p).latencyPhase p = .ahead := by
    rcases BandwidthState.afterTrace_cases p with ⟨hNext, _⟩ | ⟨hNext, hNot⟩
    · rw [hNext]
      rfl
    · simp [hNext, WorkerPc.latencyPhase, hNot]
  cases h with
  | begin hpc hEq =>
      subst hEq
      exact Or.inl (BandwidthState.latencies_stays rfl (by rw [hpc]; rfl) rfl)
  | wait _ _ hEq => exact Or.inl (by rw [hEq])
  | go hpc _ hEq =>
      subst hEq
      exact Or.inl (BandwidthState.latencies_stays rfl (by rw [hpc]; rfl) rfl)
  | add calls bytes hpc _ hEq =>
      subst hEq
      exact Or.inl (BandwidthState.latencies_stays rfl (by rw [hpc]; rfl) rfl)
  | worked calls hpc _ hEq =>
      subst hEq
      refine Or.inl (BandwidthState.latencies_stays rfl ?_ rfl)
      rw [hpc]
      rcases BandwidthState.afterWork_cases p with ⟨hNext, _⟩ | ⟨hNext, _⟩
      · rw [hNext]
        rfl
      · rw [hNext, hAhead]
        rfl
  | lockTrace log hpc _ hEq =>
      subst hEq
      exact Or.inl (BandwidthState.latencies_stays rfl (by rw [hpc]; rfl) rfl)
  | pushTrace log hpc _ hEq =>
      subst hEq
      exact Or.inl rfl
  | unlockTrace hpc _ hEq =>
      subst hEq
      refine Or.inl (BandwidthState.latencies_stays rfl ?_ rfl)
      rw [hpc, hAhead]
      rfl
  | lockLatency log hpc hLock hEq =>
      right
      have hWorker : s'.worker = Function.update s.worker t .latencyInsert := by
        rw [hEq]
        rfl
      have hShared : (s.latencies p).shared.lock t = some log := hLock
      simp only [HandState.step, hPhase _ hpc, WorkerPc.latencyPhase, hShared,
        Option.map_some]
      rw [BandwidthState.latencies_worker hWorker, hEq]
      rfl
  | insertLatency log hpc hAppend hEq =>
      right
      have hShared : (s.latencies p).shared.append (p.latency_buffer t) =
          some log := hAppend
      simp only [HandState.step, hPhase _ hpc, WorkerPc.latencyPhase, hShared]
      rw [hEq]
      rfl
  | unlockLatency hpc hEnd hEq =>
      right
      have hCollects := hLogs.latency (Or.inr hpc)
      have hShared : (s.latencies p).shared.append (p.latency_buffer t) = none :=
        hEnd
      have hWorker : s'.worker = Function.update s.worker t .finished := by
        rw [hEq]
        rfl
      have hHanded : WorkerPc.latencyPhase p .finished = .handed := by
        simp [WorkerPc.latencyPhase, hCollects]
      simp only [HandState.step, hPhase _ hpc, WorkerPc.latencyPhase, hShared]
      rw [BandwidthState.latencies_worker hWorker, hHanded, hEq]
      rfl

end Workers

end MioBench.Bench
