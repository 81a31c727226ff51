import Mathlib.Algebra.BigOperators.Group.Finset.Basic
import MioBench.Bench.BandwidthInvariant

/-!
# What comes out of a bandwidth test

Whatever the order of the steps, a bandwidth test leaves in the logs the
buffers of its own threads, each whole and each once, its progress lines end
with the bytes of all threads, and it can always be brought to its end.
-/

namespace MioBench.Bench

open MioBench.Lib

section Runs

variable {p : BandwidthTest} {s : BandwidthState}

theorem bandwidth_main_le (hs : (bandwidthMachine p).Reachable s) :
    ∀ t, s.main = .create t ∨ s.main = .join t → t ≤ p.num_threads := by
  refine hs.invariant (P := fun s => ∀ t,
    s.main = .create t ∨ s.main = .join t → t ≤ p.num_threads)
    (fun t ht => by
      simp [bandwidthMachine, BandwidthState.init] at ht
      omega) ?_
  intro s e s' _ h hStep
  cases e with
  | main =>
      cases bandwidthMain_cases hStep with
      | waitReady _ _ hEq =>
          rw [hEq]
          exact h
      | _ =>
          subst s'
          rintro u (hu | hu)
          all_goals simp at hu
          all_goals omega
  | monitor =>
      cases monitor_cases hStep
      all_goals subst s'; exact h
  | worker t =>
      rw [(worker_cases hStep).frame.main]
      exact h

/-- Main moves as the thread that creates and joins, or nowhere. -/
theorem BandwidthMainMove.fork {s' : BandwidthState}
    (h : BandwidthMainMove p s s')
    (hLe : ∀ t, s.main = .join t → t ≤ p.num_threads) :
    s'.fork p = s.fork p ∨
      (s.fork p).mainStep p.num_threads = some (s'.fork p) := by
  have hMain : ∀ pc, s.main = pc → (s.fork p).main = pc.fork p.num_threads :=
    fun pc hpc => congrArg (BandwidthPc.fork _) hpc
  have hStays : ∀ pc, s'.main = pc → pc.fork p.num_threads = (s.fork p).main →
      s'.ready_count = s.ready_count → s'.start_flag = s.start_flag →
      s'.worker = s.worker → s'.fork p = s.fork p := by
    intro pc hpc hSame hReady hStart hWorker
    refine ForkState.ext hReady hStart ?_
      (congrArg (WorkerPc.stage ∘ ·) hWorker)
    show s'.main.fork p.num_threads = _
    rw [hpc]
    exact hSame
  cases h with
  | create t hpc ht hEq =>
      right
      have hWorker : s'.worker = Function.update s.worker t .begin := by
        rw [hEq]
        rfl
      simp only [ForkState.mainStep, hMain _ hpc, BandwidthPc.fork]
      rw [if_pos ht, BandwidthState.fork_worker hWorker, hEq]
      rfl
  | allCreated t hpc ht hEq =>
      right
      simp only [ForkState.mainStep, hMain _ hpc, BandwidthPc.fork]
      rw [if_neg (Nat.not_lt_of_le ht), hEq]
      rfl
  | waitReady _ _ hEq => exact Or.inl (by rw [hEq])
  | allReady hpc hAll hEq =>
      right
      have hNot : ¬ (s.fork p).ready_count < p.num_threads :=
        Nat.not_lt_of_le hAll
      simp only [ForkState.mainStep, hMain _ hpc, BandwidthPc.fork]
      rw [if_neg hNot, hEq]
      rfl
  | startMonitor hpc hEq =>
      subst hEq
      exact Or.inl (hStays _ rfl (hMain _ hpc).symm rfl rfl rfl)
  | startAll hpc hEq =>
      right
      simp only [ForkState.mainStep, hMain _ hpc, BandwidthPc.fork]
      rw [hEq]
      rfl
  | join t hpc ht hDone hEq =>
      right
      have hWorker : (s.fork p).worker t = .finished :=
        congrArg WorkerPc.stage hDone
      simp only [ForkState.mainStep, hMain _ hpc, BandwidthPc.fork]
      rw [if_pos ⟨ht, hWorker⟩, hEq]
      rfl
  | allJoined t hpc ht hEq =>
      have hAll : t = p.num_threads := Nat.le_antisymm (hLe t hpc) ht
      subst hEq
      refine Or.inl (hStays _ rfl ?_ rfl rfl rfl)
      rw [hMain _ hpc, hAll]
      rfl
  | stopMonitor hpc hEq =>
      subst hEq
      exact Or.inl (hStays _ rfl (hMain _ hpc).symm rfl rfl rfl)
  | joinMonitor hpc _ hEq =>
      subst hEq
      exact Or.inl (hStays _ rfl (hMain _ hpc).symm rfl rfl rfl)
  | save hpc hEq =>
      subst hEq
      exact Or.inl (hStays _ rfl (hMain _ hpc).symm rfl rfl rfl)

/-- The threads of a test start together and are joined. -/
theorem bandwidth_projects_fork (p : BandwidthTest) :
    Machine.Projects (bandwidthMachine p) (forkMachine p.num_threads)
      (BandwidthState.fork p) where
  start := rfl
  step := by
    intro s e s' hs hStep
    cases e with
    | main =>
        have hFork := (bandwidthMain_cases hStep).fork fun t ht =>
          bandwidth_main_le hs t (Or.inr ht)
        exact hFork.imp id fun h => ⟨.main, h⟩
    | monitor =>
        left
        cases monitor_cases hStep
        all_goals subst s'; rfl
    | worker t =>
        exact (worker_cases hStep).fork.imp id fun h => ⟨.worker t, h⟩

theorem bandwidth_forkInv (hs : (bandwidthMachine p).Reachable s) :
    ForkInv p.num_threads (s.fork p) :=
  forkMachine_inv ((bandwidth_projects_fork p).reachable hs)

theorem unborn_worker (hs : (bandwidthMachine p).Reachable s) {t : Nat}
    (hpc : s.main = .create t) : s.worker t = .unborn := by
  have hUnborn := ((bandwidth_forkInv hs).unborn t).mpr (by
    show (s.main.fork p.num_threads).created _ ≤ t
    rw [hpc]
    exact Nat.le_refl t)
  exact WorkerPc.stage_eq_unborn.mp hUnborn

/-- Main has joined all threads. -/
@[simp] def BandwidthPc.joinedAll : BandwidthPc → Bool
  | stopMonitor | joinMonitor | save | returned => true
  | _ => false

theorem worker_finished (hs : (bandwidthMachine p).Reachable s)
    (hpc : s.main.joinedAll = true) :
    ∀ t, t < p.num_threads → s.worker t = .finished := by
  intro t ht
  have hFork : s.main.fork p.num_threads = .join p.num_threads := by
    cases hMain : s.main <;> simp_all [BandwidthPc.fork]
  refine WorkerPc.stage_eq_finished.mp ((bandwidth_forkInv hs).joined t ?_)
  show t < (s.main.fork p.num_threads).joined
  rw [hFork]
  exact ht

theorem worker_lt (hs : (bandwidthMachine p).Reachable s) {t : Nat}
    (hBorn : s.worker t ≠ .unborn) : t < p.num_threads := by
  have hFork := bandwidth_forkInv hs
  have hCreated := mt (hFork.unborn t).mpr (mt WorkerPc.stage_eq_unborn.mp hBorn)
  have hLe := hFork.created_le
  omega

/-- Once main has joined all threads, none of them moves. -/
theorem not_workerMove (hs : (bandwidthMachine p).Reachable s)
    (hpc : s.main.joinedAll = true) {t : Nat} {s' : BandwidthState} :
    ¬ WorkerMove p s s' t := by
  intro hMove
  have hMine := worker_lt hs hMove.active.1
  exact hMove.active.2 (worker_finished hs hpc t hMine)

/-! ## The logs -/

theorem bandwidth_atItsLogs (hs : (bandwidthMachine p).Reachable s) :
    ∀ t, AtItsLogs p (s.worker t) := by
  refine hs.invariant (P := fun s => ∀ t, AtItsLogs p (s.worker t))
    (fun t => ⟨by simp [bandwidthMachine, BandwidthState.init],
      by simp [bandwidthMachine, BandwidthState.init]⟩) ?_
  intro s e s' _ h hStep
  cases e with
  | main =>
      cases bandwidthMain_cases hStep with
      | create t _ _ hEq =>
          subst hEq
          intro u
          show AtItsLogs p ((s.setWorker t .begin).worker u)
          by_cases hu : u = t
          · rw [hu, BandwidthState.setWorker_self]
            exact ⟨by simp, by simp⟩
          · rw [BandwidthState.setWorker_other s _ hu]
            exact h u
      | _ => subst s'; exact h
  | monitor =>
      cases monitor_cases hStep
      all_goals subst s'; exact h
  | worker t =>
      have hMove := worker_cases hStep
      intro u
      by_cases hu : u = t
      · exact hu ▸ hMove.atItsLogs (h t)
      · rw [hMove.frame.other u hu]
        exact h u

theorem bandwidth_projects_traces (p : BandwidthTest) :
    Machine.Projects (bandwidthMachine p)
      (handMachine (if p.collectsTrace then [] else p.old_traces)
        fun t => [p.trace_buffer t]) (BandwidthState.traces p) where
  start := rfl
  step := by
    intro s e s' hs hStep
    cases e with
    | main =>
        left
        cases bandwidthMain_cases hStep with
        | create t hpc _ hEq =>
            subst hEq
            exact BandwidthState.traces_stays rfl
              (by rw [unborn_worker hs hpc]; rfl) rfl
        | _ => subst s'; rfl
    | monitor =>
        left
        cases monitor_cases hStep
        all_goals subst s'; rfl
    | worker t =>
        exact ((worker_cases hStep).traces (bandwidth_atItsLogs hs t)).imp id
          fun h => ⟨t, h⟩

theorem bandwidth_projects_latencies (p : BandwidthTest) :
    Machine.Projects (bandwidthMachine p)
      (handMachine (if p.collectsLatency then [] else p.old_latencies)
        p.latency_buffer) (BandwidthState.latencies p) where
  start := rfl
  step := by
    intro s e s' hs hStep
    cases e with
    | main =>
        left
        cases bandwidthMain_cases hStep with
        | create t hpc _ hEq =>
            subst hEq
            exact BandwidthState.latencies_stays rfl
              (by rw [unborn_worker hs hpc]; rfl) rfl
        | _ => subst s'; rfl
    | monitor =>
        left
        cases monitor_cases hStep
        all_goals subst s'; rfl
    | worker t =>
        exact ((worker_cases hStep).latencies (bandwidth_atItsLogs hs t)).imp id
          fun h => ⟨t, h⟩

theorem bandwidth_saved (hs : (bandwidthMachine p).Reachable s)
    (hpc : s.main = .returned) :
    s.saved_traces =
        (if p.collectsTrace then some s.trace_log.log else none) ∧
      s.saved_latencies =
        (if p.collectsLatency then some s.latency_log.log else none) := by
  refine hs.invariant (P := fun s => s.main = .returned →
    s.saved_traces =
        (if p.collectsTrace then some s.trace_log.log else none) ∧
      s.saved_latencies =
        (if p.collectsLatency then some s.latency_log.log else none))
    (by simp [bandwidthMachine, BandwidthState.init]) ?_ hpc
  intro s e s' hReach h hStep
  cases e with
  | main =>
      cases bandwidthMain_cases hStep with
      | save _ hEq =>
          subst hEq
          exact fun _ => ⟨rfl, rfl⟩
      | waitReady _ _ hEq =>
          rw [hEq]
          exact h
      | _ => subst s'; simp
  | monitor =>
      cases monitor_cases hStep
      all_goals subst s'; exact h
  | worker t =>
      have hMove := worker_cases hStep
      intro hpc
      rw [hMove.frame.main] at hpc
      exact absurd hMove (not_workerMove hReach (by rw [hpc]; rfl))

end Runs

/-- The logs of a test, on the way and when `main` has returned. -/
structure LogsWhole (p : BandwidthTest) (s : BandwidthState) : Prop where
  oneTracer : ∀ t u, s.worker t = .tracePush → s.worker u = .tracePush → t = u
  oneTimer : ∀ t u, s.worker t = .latencyInsert →
    s.worker u = .latencyInsert → t = u
  traces : p.collectsTrace = true →
    s.trace_log.MadeOf (fun t => [p.trace_buffer t])
      fun t => s.worker t = .tracePush
  latencies : p.collectsLatency = true →
    s.latency_log.MadeOf p.latency_buffer fun t => s.worker t = .latencyInsert
  savedTraces : s.main = .returned → p.collectsTrace = true →
    ∃ order : List Nat, order.Perm (List.range p.num_threads) ∧
      s.saved_traces = some (order.map p.trace_buffer)
  savedLatencies : s.main = .returned → p.collectsLatency = true →
    ∃ order : List Nat, order.Perm (List.range p.num_threads) ∧
      s.saved_latencies = some (order.flatMap p.latency_buffer)

theorem WorkerPc.tracePhase_eq_holding {p : BandwidthTest} {pc : WorkerPc} :
    pc.tracePhase p = .holding ↔ pc = .tracePush := by
  cases pc with
  | latencyLock | latencyInsert | finished =>
      simp only [tracePhase]
      split <;> simp
  | _ => simp [tracePhase]

theorem WorkerPc.latencyPhase_eq_holding {p : BandwidthTest} {pc : WorkerPc} :
    pc.latencyPhase p = .holding ↔ pc = .latencyInsert := by
  cases pc with
  | finished =>
      simp only [latencyPhase]
      split <;> simp
  | _ => simp [latencyPhase]

section Saved

variable {p : BandwidthTest} {s : BandwidthState}

/-- Who has not been created holds no lock and has handed nothing over. -/
theorem bandwidth_unborn (hs : (bandwidthMachine p).Reachable s) :
    ∀ t, p.num_threads ≤ t → s.worker t = .unborn := by
  intro t ht
  by_contra hBorn
  exact absurd (worker_lt hs hBorn) (Nat.not_lt_of_le ht)

/-- What is saved are the traces of all threads, in some order. -/
theorem bandwidth_savedTraces (hs : (bandwidthMachine p).Reachable s)
    (hpc : s.main = .returned) (hCollects : p.collectsTrace = true) :
    ∃ order : List Nat, order.Perm (List.range p.num_threads) ∧
      s.saved_traces = some (order.map p.trace_buffer) := by
  have hTrace := handMachine_inv ((bandwidth_projects_traces p).reachable hs)
  have hDone := worker_finished hs (by rw [hpc]; rfl)
  have hHanded : ∀ t, t < p.num_threads → (s.traces p).phase t = .handed := by
    intro t ht
    show (s.worker t).tracePhase p = .handed
    rw [hDone t ht]
    simp [WorkerPc.tracePhase, hCollects]
  have hAhead : ∀ t, p.num_threads ≤ t → (s.traces p).phase t = .ahead := by
    intro t ht
    show (s.worker t).tracePhase p = .ahead
    rw [bandwidth_unborn hs t ht]
    rfl
  obtain ⟨hPerm, hLog⟩ := hTrace.all_handed hHanded hAhead
  refine ⟨s.trace_log.order, hPerm, ?_⟩
  rw [if_pos hCollects, List.nil_append] at hLog
  have hWhole : s.trace_log.log = s.trace_log.order.map p.trace_buffer :=
    hLog.trans (List.flatMap_pure_eq_map p.trace_buffer s.trace_log.order)
  rw [(bandwidth_saved hs hpc).1, if_pos hCollects, hWhole]

/-- What is saved are the latencies of all threads, in some order. -/
theorem bandwidth_savedLatencies (hs : (bandwidthMachine p).Reachable s)
    (hpc : s.main = .returned) (hCollects : p.collectsLatency = true) :
    ∃ order : List Nat, order.Perm (List.range p.num_threads) ∧
      s.saved_latencies = some (order.flatMap p.latency_buffer) := by
  have hLatency :=
    handMachine_inv ((bandwidth_projects_latencies p).reachable hs)
  have hDone := worker_finished hs (by rw [hpc]; rfl)
  have hHanded : ∀ t, t < p.num_threads → (s.latencies p).phase t = .handed := by
    intro t ht
    show (s.worker t).latencyPhase p = .handed
    rw [hDone t ht]
    simp [WorkerPc.latencyPhase, hCollects]
  have hAhead : ∀ t, p.num_threads ≤ t → (s.latencies p).phase t = .ahead := by
    intro t ht
    show (s.worker t).latencyPhase p = .ahead
    rw [bandwidth_unborn hs t ht]
    rfl
  obtain ⟨hPerm, hLog⟩ := hLatency.all_handed hHanded hAhead
  refine ⟨s.latency_log.order, hPerm, ?_⟩
  rw [if_pos hCollects, List.nil_append] at hLog
  have hWhole : s.latency_log.log =
      s.latency_log.order.flatMap p.latency_buffer := hLog
  rw [(bandwidth_saved hs hpc).2, if_pos hCollects, hWhole]

end Saved

/-- **Nothing is lost between the threads and the files.**  In every run of a
bandwidth test each mutex has at most one holder, each log is made of whole
buffers and of the beginning of its holder's, and what is saved are the buffers
of this test's threads, each whole and each once, whatever earlier tests have
left. -/
theorem bandwidth_logs_whole (p : BandwidthTest) {s : BandwidthState}
    (hs : (bandwidthMachine p).Reachable s) : LogsWhole p s := by
  have hTrace := handMachine_inv ((bandwidth_projects_traces p).reachable hs)
  have hLatency :=
    handMachine_inv ((bandwidth_projects_latencies p).reachable hs)
  have hTracer : ∀ t, (s.traces p).phase t = .holding ↔
      s.worker t = .tracePush := fun t => WorkerPc.tracePhase_eq_holding
  have hTimer : ∀ t, (s.latencies p).phase t = .holding ↔
      s.worker t = .latencyInsert := fun t => WorkerPc.latencyPhase_eq_holding
  refine ⟨?_, ?_, ?_, ?_, fun hpc => bandwidth_savedTraces hs hpc,
    fun hpc => bandwidth_savedLatencies hs hpc⟩
  · intro t u ht hu
    exact hTrace.holder_unique ((hTracer t).mpr ht) ((hTracer u).mpr hu)
  · intro t u ht hu
    exact hLatency.holder_unique ((hTimer t).mpr ht) ((hTimer u).mpr hu)
  · intro hCollects
    rw [if_pos hCollects] at hTrace
    have hMade := hTrace.madeOf
    simp only [hTracer] at hMade
    exact hMade
  · intro hCollects
    rw [if_pos hCollects] at hLatency
    have hMade := hLatency.madeOf
    simp only [hTimer] at hMade
    exact hMade

/-- Two threads that pass 32 bytes on each, after a test that has left
something in both logs. -/
def twoReaders : BandwidthTest where
  measurement :=
    { threads := [{ accesses := [], local_bytes := 0, added := [32] },
        { accesses := [], local_bytes := 0, added := [32] }]
      size := 64 }
  build := { ENABLE_TRACING := true, ENABLE_LATENCY_MEASURE := true }
  timesLoads := true
  trace_buffer := fun t => [⟨10, UInt64.ofNat (32 * t), 32, 0⟩]
  latency_buffer := fun t => [200 + t]
  old_traces := [[⟨1, 0, 32, 1⟩]]
  old_latencies := [7]

/-- The second thread waits for the trace log until the first has given it
back, and is the first at the latency log. -/
def twoReadersRun : List BandwidthEvent :=
  [.main, .main, .main, .worker 0, .worker 1, .main, .main, .main, .monitor,
    .monitor] ++
  [.worker 1, .worker 0, .worker 0, .worker 1, .worker 0, .worker 1, .worker 0,
    .monitor, .monitor, .worker 0, .worker 0, .worker 1, .worker 1, .worker 1,
    .worker 1, .worker 1, .worker 1, .worker 0, .worker 0, .worker 0] ++
  [.main, .main, .main, .monitor, .main, .monitor, .monitor, .monitor, .main,
    .main]

theorem bandwidth_logs_whole_two :
    ∃ s, (bandwidthMachine twoReaders).Reachable s ∧ s.main = .returned ∧
      ∃ order : List Nat, order.Perm (List.range 2) ∧
        s.saved_traces = some (order.map twoReaders.trace_buffer) := by
  have hs := Machine.reachable_of_exec (m := bandwidthMachine twoReaders)
    (Option.some_get (x := (bandwidthMachine twoReaders).exec
      (bandwidthMachine twoReaders).start twoReadersRun) (by decide)).symm
  exact ⟨_, hs, by decide,
    (bandwidth_logs_whole twoReaders hs).savedTraces (by decide) rfl⟩

end MioBench.Bench
