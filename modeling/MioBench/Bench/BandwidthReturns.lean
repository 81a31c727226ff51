import MioBench.Bench.ProgressMonitor

/-!
# A bandwidth test comes to its end

From every state of every run a bandwidth test whose loops end can be brought to
its end itself: a thread that waits for a mutex waits for one that gets on, and
the rank of the test falls with every step that is taken for it.
-/

namespace MioBench.Bench

open MioBench.Lib

/-- Steps of main ahead of its return. -/
def BandwidthPc.rank (n : Nat) : BandwidthPc → Nat
  | create t => (n - t) + n + 10
  | waitReady => n + 9
  | startMonitor => n + 8
  | startAll => n + 5
  | join t => (n - t) + 4
  | stopMonitor => 3
  | joinMonitor => 2
  | save => 1
  | returned => 0

/-- Steps of the monitor ahead of its end, once it is started and told to
stop. -/
def MonitorPc.rank : MonitorPc → Nat
  | unborn => 0
  | print => 3
  | test => 2
  | last => 1
  | finished => 0

/-- Steps of a thread ahead of its end, less those with a lock held; it makes
`calls` calls of `add_bytes` and hands `buffered` latencies over. -/
def WorkerPc.rank (calls buffered : Nat) : WorkerPc → Nat
  | unborn => calls + buffered + 10
  | begin => calls + buffered + 9
  | waitStart => calls + buffered + 8
  | work k => (calls - k) + buffered + 7
  | traceLock => buffered + 6
  | tracePush => buffered + 4
  | latencyLock => buffered + 2
  | latencyInsert => 1
  | finished => 0

/-- The rank of thread `t`. -/
def BandwidthState.workerRank (p : BandwidthTest) (s : BandwidthState) (t : Nat) :
    Nat :=
  (s.worker t).rank (p.added t).length (p.latency_buffer t).length

/-- What the holders of the two locks have yet to append. -/
def BandwidthState.locksRank (p : BandwidthTest) (s : BandwidthState) : Nat :=
  s.trace_log.left (fun t => [p.trace_buffer t]) +
    s.latency_log.left p.latency_buffer

def bandwidthRank (p : BandwidthTest) (s : BandwidthState) : Nat :=
  s.main.rank p.num_threads + s.monitor.rank +
    ∑ t ∈ Finset.range p.num_threads, s.workerRank p t + s.locksRank p

section Progress

variable {p : BandwidthTest} {s s' : BandwidthState} {t : Nat}

theorem trace_owner (hs : (bandwidthMachine p).Reachable s) :
    s.trace_log.owner = some t ↔ s.worker t = .tracePush :=
  ((handMachine_inv ((bandwidth_projects_traces p).reachable hs)).owner t).trans
    WorkerPc.tracePhase_eq_holding

theorem latency_owner (hs : (bandwidthMachine p).Reachable s) :
    s.latency_log.owner = some t ↔ s.worker t = .latencyInsert :=
  ((handMachine_inv ((bandwidth_projects_latencies p).reachable hs)).owner
    t).trans WorkerPc.latencyPhase_eq_holding

theorem rank_afterTrace (p : BandwidthTest) (calls buffered : Nat) :
    (BandwidthState.afterTrace p).rank calls buffered ≤ buffered + 2 := by
  rcases BandwidthState.afterTrace_cases p with ⟨hNext, _⟩ | ⟨hNext, _⟩
  · rw [hNext]
    exact Nat.le_refl _
  · rw [hNext]
    exact Nat.zero_le _

theorem rank_afterWork (p : BandwidthTest) (calls buffered : Nat) :
    (BandwidthState.afterWork p).rank calls buffered ≤ buffered + 6 := by
  rcases BandwidthState.afterWork_cases p with ⟨hNext, _⟩ | ⟨hNext, _⟩
  · rw [hNext]
    exact Nat.le_refl _
  · rw [hNext]
    have hLe := rank_afterTrace p calls buffered
    omega

/-- A step of a thread that does not wait lowers its rank or that of a lock,
and never by less than it raises the other. -/
theorem WorkerMove.rank_lt (h : WorkerMove p s s' t)
    (hTrace : s.worker t = .tracePush → s.trace_log.owner = some t)
    (hLatency : s.worker t = .latencyInsert → s.latency_log.owner = some t)
    (hGo : s.worker t = .waitStart → s.start_flag = true) :
    s'.workerRank p t + s'.locksRank p < s.workerRank p t + s.locksRank p := by
  -- The two ranks of a thread by where it stands.
  have hOld : ∀ pc, s.worker t = pc → s.workerRank p t =
      pc.rank (p.added t).length (p.latency_buffer t).length :=
    fun pc hpc => by rw [BandwidthState.workerRank, hpc]
  have hNew : ∀ pc, s'.worker = (s.setWorker t pc).worker → s'.workerRank p t =
      pc.rank (p.added t).length (p.latency_buffer t).length := by
    intro pc hWorker
    rw [BandwidthState.workerRank, hWorker, BandwidthState.setWorker_self]
  cases h with
  | begin hpc hEq =>
      have hLocks : s'.locksRank p = s.locksRank p := by rw [hEq]; rfl
      rw [hOld _ hpc, hNew .waitStart (by rw [hEq]), hLocks]
      simp only [WorkerPc.rank]
      omega
  | wait hpc hFlag _ =>
      exact absurd (hFlag.symm.trans (hGo hpc)) Bool.false_ne_true
  | go hpc _ hEq =>
      have hLocks : s'.locksRank p = s.locksRank p := by rw [hEq]; rfl
      rw [hOld _ hpc, hNew (.work 0) (by rw [hEq]), hLocks]
      simp only [WorkerPc.rank]
      omega
  | add calls bytes hpc hCall hEq =>
      have hLt := (List.getElem?_eq_some_iff.mp hCall).1
      have hLocks : s'.locksRank p = s.locksRank p := by rw [hEq]; rfl
      rw [hOld _ hpc, hNew (.work (calls + 1)) (by rw [hEq]), hLocks]
      simp only [WorkerPc.rank]
      omega
  | worked calls hpc _ hEq =>
      have hLe := rank_afterWork p (p.added t).length (p.latency_buffer t).length
      have hLocks : s'.locksRank p = s.locksRank p := by rw [hEq]; rfl
      have hMine := hOld _ hpc
      simp only [WorkerPc.rank] at hMine
      rw [hNew (BandwidthState.afterWork p) (by rw [hEq]), hLocks]
      omega
  | lockTrace log hpc hLock hEq =>
      have hLeft := LockedLog.left_lock (fun t => [p.trace_buffer t]) hLock
      have hLocks : s'.locksRank p = 1 + s.latency_log.left p.latency_buffer := by
        rw [hEq, BandwidthState.locksRank, hLeft]
        rfl
      rw [hOld _ hpc, hNew .tracePush (by rw [hEq]), hLocks]
      simp only [WorkerPc.rank, BandwidthState.locksRank]
      omega
  | pushTrace log hpc hAppend hEq =>
      have hLeft := LockedLog.left_append (fun t => [p.trace_buffer t]) (hTrace hpc)
        hAppend
      have hLocks : s'.locksRank p =
          log.left (fun t => [p.trace_buffer t]) +
            s.latency_log.left p.latency_buffer := by
        rw [hEq]
        rfl
      have hSame : s'.workerRank p t = s.workerRank p t := by rw [hEq]; rfl
      rw [hSame, hLocks, BandwidthState.locksRank]
      omega
  | unlockTrace hpc _ hEq =>
      have hLe := rank_afterTrace p (p.added t).length (p.latency_buffer t).length
      have hLocks : s'.locksRank p = s.latency_log.left p.latency_buffer := by
        rw [hEq, BandwidthState.locksRank, LockedLog.left_unlock, Nat.zero_add]
        rfl
      have hMine := hOld _ hpc
      simp only [WorkerPc.rank] at hMine
      rw [hNew (BandwidthState.afterTrace p) (by rw [hEq]), hLocks,
        BandwidthState.locksRank]
      omega
  | lockLatency log hpc hLock hEq =>
      have hLeft := LockedLog.left_lock p.latency_buffer hLock
      have hLocks : s'.locksRank p =
          s.trace_log.left (fun t => [p.trace_buffer t]) +
            (p.latency_buffer t).length := by
        rw [hEq, BandwidthState.locksRank, hLeft]
        rfl
      rw [hOld _ hpc, hNew .latencyInsert (by rw [hEq]), hLocks]
      simp only [WorkerPc.rank, BandwidthState.locksRank]
      omega
  | insertLatency log hpc hAppend hEq =>
      have hLeft := LockedLog.left_append p.latency_buffer (hLatency hpc) hAppend
      have hLocks : s'.locksRank p =
          s.trace_log.left (fun t => [p.trace_buffer t]) +
            log.left p.latency_buffer := by
        rw [hEq]
        rfl
      have hSame : s'.workerRank p t = s.workerRank p t := by rw [hEq]; rfl
      rw [hSame, hLocks, BandwidthState.locksRank]
      omega
  | unlockLatency hpc _ hEq =>
      have hLocks : s'.locksRank p =
          s.trace_log.left (fun t => [p.trace_buffer t]) := by
        rw [hEq, BandwidthState.locksRank, LockedLog.left_unlock, Nat.add_zero]
        rfl
      rw [hOld _ hpc, hNew .finished (by rw [hEq]), hLocks]
      simp only [WorkerPc.rank, BandwidthState.locksRank]
      omega

/-- A thread that is under way and not at a lock somebody else holds has a
step. -/
theorem worker_moves (p : BandwidthTest) (hBorn : s.worker t ≠ .unborn)
    (hOpen : s.worker t ≠ .finished)
    (hTrace : s.worker t = .traceLock → s.trace_log.owner = none)
    (hLatency : s.worker t = .latencyLock → s.latency_log.owner = none) :
    ∃ s', s.workerStep p t = some s' := by
  cases hpc : s.worker t with
  | unborn => exact absurd hpc hBorn
  | finished => exact absurd hpc hOpen
  | traceLock =>
      obtain ⟨log, hLock⟩ := LockedLog.exists_lock (hTrace hpc) t
      exact ⟨{ s.setWorker t .tracePush with trace_log := log },
        by simp [BandwidthState.workerStep, hpc, hLock]⟩
  | latencyLock =>
      obtain ⟨log, hLock⟩ := LockedLog.exists_lock (hLatency hpc) t
      exact ⟨{ s.setWorker t .latencyInsert with latency_log := log },
        by simp [BandwidthState.workerStep, hpc, hLock]⟩
  | begin => exact ⟨_, by simp only [BandwidthState.workerStep, hpc]; rfl⟩
  | waitStart => exact ⟨_, by simp only [BandwidthState.workerStep, hpc]; rfl⟩
  | work calls => exact ⟨_, by simp only [BandwidthState.workerStep, hpc]; rfl⟩
  | tracePush => exact ⟨_, by simp only [BandwidthState.workerStep, hpc]; rfl⟩
  | latencyInsert => exact ⟨_, by simp only [BandwidthState.workerStep, hpc]; rfl⟩

/-- A step of a thread that does not wait lowers the rank of the test. -/
theorem worker_lowers (hs : (bandwidthMachine p).Reachable s)
    (hGo : s.worker t = .waitStart → s.start_flag = true)
    (hStep : s.workerStep p t = some s') :
    bandwidthRank p s' < bandwidthRank p s := by
  have hMove := worker_cases hStep
  have hFrame := hMove.frame
  have hLt := hMove.rank_lt (trace_owner hs).mpr (latency_owner hs).mpr hGo
  have hSum := sum_range_change (f := s.workerRank p) (g := s'.workerRank p)
    (worker_lt hs hMove.active.1) fun u hu => by
      rw [BandwidthState.workerRank, BandwidthState.workerRank, hFrame.other u hu]
  unfold bandwidthRank
  rw [hFrame.main, hFrame.monitor]
  omega

/-- As long as a started thread is not finished, some thread gets on: this one,
or the holder of the lock it waits for. -/
theorem thread_gets_on (hs : (bandwidthMachine p).Reachable s)
    (hBorn : s.worker t ≠ .unborn) (hOpen : s.worker t ≠ .finished)
    (hGo : s.worker t = .waitStart → s.start_flag = true) :
    ∃ e s', (bandwidthMachine p).next s e = some s' ∧
      bandwidthRank p s' < bandwidthRank p s := by
  -- A holder waits for nobody.
  have hHolder : ∀ {u : Nat}, s.worker u = .tracePush ∨
      s.worker u = .latencyInsert → ∃ e s', (bandwidthMachine p).next s e =
        some s' ∧ bandwidthRank p s' < bandwidthRank p s := by
    intro u hHolds
    obtain ⟨s', hStep⟩ := worker_moves (s := s) (t := u) p
      (by rcases hHolds with h | h <;> simp [h])
      (by rcases hHolds with h | h <;> simp [h])
      (by rcases hHolds with h | h <;> simp [h])
      (by rcases hHolds with h | h <;> simp [h])
    exact ⟨.worker u, s', hStep,
      worker_lowers hs (by rcases hHolds with h | h <;> simp [h]) hStep⟩
  cases hTrace : s.trace_log.owner with
  | some u => exact hHolder (Or.inl ((trace_owner hs).mp hTrace))
  | none =>
      cases hLatency : s.latency_log.owner with
      | some u => exact hHolder (Or.inr ((latency_owner hs).mp hLatency))
      | none =>
          obtain ⟨s', hStep⟩ := worker_moves p hBorn hOpen (fun _ => hTrace)
            fun _ => hLatency
          exact ⟨.worker t, s', hStep, worker_lowers hs hGo hStep⟩

/-- The monitor gets on when it is told to stop. -/
theorem monitor_gets_on (hBorn : s.monitor ≠ .unborn)
    (hOpen : s.monitor ≠ .finished) (hStop : s.stop_flag = true) :
    ∃ e s', (bandwidthMachine p).next s e = some s' ∧
      bandwidthRank p s' < bandwidthRank p s := by
  have hLower : ∀ s', s.monitorStep = some s' → s'.main = s.main →
      s'.worker = s.worker → s'.trace_log = s.trace_log →
      s'.latency_log = s.latency_log → s'.monitor.rank < s.monitor.rank →
      ∃ e s', (bandwidthMachine p).next s e = some s' ∧
        bandwidthRank p s' < bandwidthRank p s := by
    intro s' hStep hMain hWorker hTraces hLatencies hRank
    refine ⟨.monitor, s', hStep, ?_⟩
    simp only [bandwidthRank, BandwidthState.workerRank, BandwidthState.locksRank,
      hMain, hWorker, hTraces, hLatencies]
    omega
  cases hpc : s.monitor with
  | unborn => exact absurd hpc hBorn
  | finished => exact absurd hpc hOpen
  | test =>
      exact hLower { s with monitor := .last }
        (by simp [BandwidthState.monitorStep, hpc, hStop]) rfl rfl rfl rfl
        (by rw [hpc]; exact Nat.lt_succ_self _)
  | print =>
      exact hLower { s with
          processed := s.processed ++ [s.bytes_processed], monitor := .test }
        (by simp [BandwidthState.monitorStep, hpc]) rfl rfl rfl rfl
        (by rw [hpc]; exact Nat.lt_succ_self _)
  | last =>
      exact hLower { s with
          processed := s.processed ++ [s.bytes_processed], monitor := .finished }
        (by simp [BandwidthState.monitorStep, hpc]) rfl rfl rfl rfl
        (by rw [hpc]; exact Nat.lt_succ_self _)

/-- Main creates a thread. -/
theorem create_lowers (hpc : s.main = .create t) (ht : t < p.num_threads)
    (hUnborn : s.worker t = .unborn) :
    bandwidthRank p { s.setWorker t .begin with main := .create (t + 1) } <
      bandwidthRank p s := by
  have hSum := sum_range_change (f := s.workerRank p)
    (g := (s.setWorker t .begin).workerRank p) ht fun u hu => by
      rw [BandwidthState.workerRank, BandwidthState.workerRank,
        BandwidthState.setWorker_other s _ hu]
  have hOld : s.workerRank p t =
      (p.added t).length + (p.latency_buffer t).length + 10 := by
    rw [BandwidthState.workerRank, hUnborn]
    rfl
  have hNew : (s.setWorker t .begin).workerRank p t =
      (p.added t).length + (p.latency_buffer t).length + 9 := by
    rw [BandwidthState.workerRank, BandwidthState.setWorker_self]
    rfl
  have hSame : ∑ u ∈ Finset.range p.num_threads, BandwidthState.workerRank p
      { s.setWorker t .begin with main := .create (t + 1) } u =
      ∑ u ∈ Finset.range p.num_threads, (s.setWorker t .begin).workerRank p u :=
    rfl
  have hLocks : BandwidthState.locksRank p
      { s.setWorker t .begin with main := .create (t + 1) } = s.locksRank p := rfl
  have hMonitor : (s.setWorker t .begin).monitor = s.monitor := rfl
  rw [bandwidthRank, bandwidthRank, hSame, hLocks]
  simp only [hpc, hMonitor, BandwidthPc.rank]
  omega

/-- As long as main has not returned, somebody gets on. -/
theorem bandwidth_gets_on (hs : (bandwidthMachine p).Reachable s)
    (hMore : s.main ≠ .returned) :
    ∃ e s', (bandwidthMachine p).next s e = some s' ∧
      bandwidthRank p s' < bandwidthRank p s := by
  have hFork := bandwidth_forkInv hs
  have hMonitor := bandwidth_monitorInv hs
  -- A step of main that leaves the threads alone.
  have hMain : ∀ s', s.mainStep p = some s' → s'.worker = s.worker →
      s'.trace_log = s.trace_log → s'.latency_log = s.latency_log →
      s'.main.rank p.num_threads + s'.monitor.rank <
        s.main.rank p.num_threads + s.monitor.rank →
      ∃ e s', (bandwidthMachine p).next s e = some s' ∧
        bandwidthRank p s' < bandwidthRank p s := by
    intro s' hStep hWorker hTraces hLatencies hRank
    refine ⟨.main, s', hStep, ?_⟩
    simp only [bandwidthRank, BandwidthState.workerRank, BandwidthState.locksRank,
      hWorker, hTraces, hLatencies]
    omega
  cases hpc : s.main with
  | create t =>
      by_cases ht : t < p.num_threads
      · exact ⟨.main, { s.setWorker t .begin with main := .create (t + 1) },
          by simp [bandwidthMachine, BandwidthState.mainStep, hpc, ht],
          create_lowers hpc ht (unborn_worker hs hpc)⟩
      · refine hMain { s with main := .waitReady } ?_ rfl rfl rfl ?_
        · simp [BandwidthState.mainStep, hpc, ht]
        · simp only [hpc, BandwidthPc.rank]
          omega
  | waitReady =>
      by_cases hFew : s.ready_count < p.num_threads
      · -- Somebody who has been created has not counted itself in.
        obtain ⟨t, ht, hBegin⟩ := hFork.exists_begin
          (congrArg (BandwidthPc.fork _) hpc) hFew
        have hBegin : s.worker t = .begin := WorkerPc.stage_eq_begin.mp hBegin
        exact thread_gets_on hs (t := t) (by simp [hBegin]) (by simp [hBegin])
          (by simp [hBegin])
      · refine hMain { s with main := .startMonitor } ?_ rfl rfl rfl ?_
        · simp only [BandwidthState.mainStep, hpc, if_neg hFew]
        · simp only [hpc, BandwidthPc.rank]
          omega
  | startMonitor =>
      refine hMain { s with monitor := .test, main := .startAll } ?_ rfl rfl rfl ?_
      · simp [BandwidthState.mainStep, hpc]
      · simp only [hpc, BandwidthPc.rank, MonitorPc.rank]
        omega
  | startAll =>
      refine hMain { s with start_flag := true, main := .join 0 } ?_ rfl rfl rfl ?_
      · simp [BandwidthState.mainStep, hpc]
      · simp only [hpc, BandwidthPc.rank]
        omega
  | join t =>
      have hStart : s.start_flag = true := by
        have hStarted : s.start_flag = (s.main.fork p.num_threads).started :=
          hFork.start
        rw [hStarted, hpc]
        rfl
      by_cases ht : t < p.num_threads
      · by_cases hDone : s.worker t = .finished
        · refine hMain { s with main := .join (t + 1) } ?_ rfl rfl rfl ?_
          · simp [BandwidthState.mainStep, hpc, ht, hDone]
          · simp only [hpc, BandwidthPc.rank]
            omega
        · have hBorn : s.worker t ≠ .unborn := by
            intro hUnborn
            have hLate := (hFork.unborn t).mp (WorkerPc.stage_eq_unborn.mpr hUnborn)
            change (s.main.fork p.num_threads).created _ ≤ t at hLate
            rw [hpc] at hLate
            exact absurd ht (Nat.not_lt_of_le hLate)
          exact thread_gets_on hs hBorn hDone fun _ => hStart
      · refine hMain { s with main := .stopMonitor } ?_ rfl rfl rfl ?_
        · simp only [BandwidthState.mainStep, hpc, if_neg ht]
        · simp only [hpc, BandwidthPc.rank]
          omega
  | stopMonitor =>
      refine hMain { s with stop_flag := true, main := .joinMonitor } ?_ rfl rfl
        rfl ?_
      · simp [BandwidthState.mainStep, hpc]
      · simp only [hpc, BandwidthPc.rank]
        omega
  | joinMonitor =>
      by_cases hDone : s.monitor = .finished
      · refine hMain { s with main := .save } ?_ rfl rfl rfl ?_
        · simp [BandwidthState.mainStep, hpc, hDone]
        · simp only [hpc, BandwidthPc.rank]
          omega
      · exact monitor_gets_on (hMonitor.born (by rw [hpc]; rfl)) hDone
          (hMonitor.stopped hpc)
  | save =>
      refine hMain { s with
          saved_traces := if p.collectsTrace then some s.trace_log.log else none
          saved_latencies :=
            if p.collectsLatency then some s.latency_log.log else none
          main := .returned } ?_ rfl rfl rfl ?_
      · simp [BandwidthState.mainStep, hpc]
      · simp only [hpc, BandwidthPc.rank]
        omega
  | returned => exact absurd hpc hMore

end Progress

/-- **No test whose loops end hangs.**  From every state of every run of such a
bandwidth test main can return, however the threads meet at the two mutexes. -/
theorem bandwidth_returns (p : BandwidthTest) {s : BandwidthState}
    (hs : (bandwidthMachine p).Reachable s) :
    ∃ s', (bandwidthMachine p).Reaches s s' ∧ s'.main = .returned :=
  Machine.finishes_of_rank (bandwidthRank p)
    (fun _ hs hMore => bandwidth_gets_on hs hMore) hs

/-- The first thread is at the trace log, which the second holds. -/
theorem bandwidth_returns_two :
    ∃ s, (bandwidthMachine twoReaders).Reachable s ∧
      s.worker 0 = .traceLock ∧ s.worker 1 = .tracePush ∧
      ∃ s', (bandwidthMachine twoReaders).Reaches s s' ∧ s'.main = .returned := by
  have hs := Machine.reachable_of_exec (m := bandwidthMachine twoReaders)
    (Option.some_get (x := (bandwidthMachine twoReaders).exec
      (bandwidthMachine twoReaders).start
      [.main, .main, .main, .worker 0, .worker 1, .main, .main, .main,
        .worker 0, .worker 0, .worker 0, .worker 1, .worker 1, .worker 1,
        .worker 1]) (by decide)).symm
  exact ⟨_, hs, by decide, by decide, bandwidth_returns twoReaders hs⟩

end MioBench.Bench
