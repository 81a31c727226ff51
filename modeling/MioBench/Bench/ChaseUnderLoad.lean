import Mathlib.Algebra.BigOperators.Group.Finset.Basic
import MioBench.Bench.ChaseInvariant

/-!
# Runs of the chase under load

What a run of `measurePointerChaseWithLoad` measures, whom it waits for, and how
long the injected delays can hold it up.
-/

namespace MioBench.Bench

open MioBench.Lib

section Runs

variable {p : ChaseTest} {s : ChaseState}

theorem chase_main_le (hs : (chaseMachine p).Reachable s) :
    ∀ t, s.main = .createLoad t ∨ s.main = .joinLoad t →
      t ≤ p.num_load_threads := by
  refine hs.invariant (P := fun s => ∀ t,
    s.main = .createLoad t ∨ s.main = .joinLoad t → t ≤ p.num_load_threads)
    (fun t ht => by simp [chaseMachine, ChaseState.init] at ht) ?_
  intro s e s' _ h hStep
  cases e with
  | main =>
      cases chaseMain_cases hStep with
      | waitReady _ _ hEq =>
          rw [hEq]
          exact h
      | _ =>
          subst s'
          rintro u (hu | hu)
          all_goals simp at hu
          all_goals omega
  | measure cycles =>
      rw [(measure_cases hStep).main]
      exact h
  | load t =>
      rw [(load_cases hStep).frame.main]
      exact h
  | tick cycles =>
      cases hStep
      exact h

/-- The measuring thread and the load threads are `num_load_threads + 1`
workers that start together. -/
theorem chase_projects_fork (p : ChaseTest) :
    Machine.Projects (chaseMachine p) (forkMachine (p.num_load_threads + 1))
      (ChaseState.fork p) where
  start := ForkState.ext rfl rfl rfl (funext fun u => by cases u <;> rfl)
  step := by
    intro s e s' hs hStep
    cases e with
    | main =>
        have hFork := (chaseMain_cases hStep).fork fun t ht =>
          chase_main_le hs t (Or.inr ht)
        exact hFork.imp id fun h => ⟨.main, h⟩
    | measure cycles =>
        exact (measure_cases hStep).fork.imp id fun h => ⟨.worker 0, h⟩
    | load t =>
        exact (load_cases hStep).fork.imp id fun h => ⟨.worker (t + 1), h⟩
    | tick cycles =>
        cases hStep
        exact Or.inl rfl

theorem chase_forkInv (hs : (chaseMachine p).Reachable s) :
    ForkInv (p.num_load_threads + 1) (s.fork p) :=
  forkMachine_inv ((chase_projects_fork p).reachable hs)

section Fork

variable (h : ForkInv (p.num_load_threads + 1) (s.fork p))
include h

theorem unborn_measure (hpc : s.main = .createMeasure) : s.measure = .unborn := by
  refine MeasurePc.stage_eq_unborn.mp ((h.unborn 0).mpr ?_)
  show (s.main.fork p.num_load_threads).created _ ≤ 0
  rw [hpc]
  exact Nat.le_refl 0

theorem unborn_load {t : Nat} (hpc : s.main = .createLoad t) :
    s.load t = .unborn := by
  refine LoadPc.stage_eq_unborn.mp ((h.unborn (t + 1)).mpr ?_)
  show (s.main.fork p.num_load_threads).created _ ≤ t + 1
  rw [hpc]
  exact Nat.le_refl _

theorem born_measure (hpc : s.main ≠ .createMeasure) : s.measure ≠ .unborn := by
  intro hUnborn
  have hCreated := (h.unborn 0).mp (MeasurePc.stage_eq_unborn.mpr hUnborn)
  change (s.main.fork p.num_load_threads).created _ ≤ 0 at hCreated
  cases hMain : s.main with
  | createMeasure => exact hpc hMain
  | _ => simp [hMain, ChaseMainPc.fork] at hCreated

theorem load_lt {t : Nat} (hBorn : s.load t ≠ .unborn) :
    t < p.num_load_threads := by
  have hCreated := mt (h.unborn (t + 1)).mpr (mt LoadPc.stage_eq_unborn.mp hBorn)
  have hLe := h.created_le
  omega

theorem finished_of_returned (hpc : s.main = .returned) :
    s.measure = .finished ∧
      ∀ t, t < p.num_load_threads → s.load t = .finished := by
  have hJoined : ∀ t, t < p.num_load_threads + 1 → s.stage t = .finished := by
    intro t ht
    refine h.joined t ?_
    show t < (s.main.fork p.num_load_threads).joined
    rw [hpc]
    exact ht
  exact ⟨MeasurePc.stage_eq_finished.mp (hJoined 0 (Nat.succ_pos _)),
    fun t ht => LoadPc.stage_eq_finished.mp (hJoined (t + 1) (Nat.succ_lt_succ ht))⟩

end Fork

theorem chase_dataInv (hs : (chaseMachine p).Reachable s) :
    ChaseDataInv p s := by
  refine hs.invariant (init_chaseDataInv p) ?_
  intro s e s' hReach h hStep
  cases e with
  | main =>
      cases chaseMain_cases hStep with
      | createMeasure hpc hEq =>
          have hUnborn := unborn_measure (chase_forkInv hReach) hpc
          subst hEq
          exact h.congr rfl rfl rfl rfl rfl (by rw [hUnborn]; rfl)
            (by simp [hUnborn])
      | _ => subst s'; exact h.congr rfl rfl rfl rfl rfl rfl Iff.rfl
  | measure cycles => exact h.measureStep hStep
  | load t => exact h.loadStep hStep
  | tick cycles =>
      cases hStep
      exact h.congr rfl rfl rfl rfl rfl rfl Iff.rfl

theorem chase_stopInv (hs : (chaseMachine p).Reachable s) : ChaseStopInv s := by
  refine hs.invariant ⟨rfl, by simp [chaseMachine, ChaseState.init],
    by simp [chaseMachine, ChaseState.init]⟩ ?_
  intro s e s' hReach h hStep
  cases e with
  | main =>
      cases chaseMain_cases hStep with
      | createMeasure hpc hEq =>
          have hStop := h.stop
          rw [unborn_measure (chase_forkInv hReach) hpc] at hStop
          subst hEq
          exact ⟨hStop, h.load_stops, h.bytes⟩
      | createLoad t hpc _ hEq =>
          have hFrame : LoadFrame s (s.setLoad t .begin) t :=
            ⟨rfl, rfl, rfl, rfl, rfl, fun u hu => ChaseState.setLoad_other s hu,
              fun _ _ => rfl, fun _ _ => rfl⟩
          have hMove := h.move hFrame (by simp) (by simp)
          subst hEq
          exact ⟨hMove.stop, hMove.load_stops, hMove.bytes⟩
      | _ => subst s'; exact ⟨h.stop, h.load_stops, h.bytes⟩
  | measure cycles => exact h.measureStep hStep
  | load t => exact h.loadStep hStep
  | tick cycles =>
      cases hStep
      exact ⟨h.stop, h.load_stops, h.bytes⟩

/-- Main has returned the sum of what the threads have left. -/
theorem chase_total (hs : (chaseMachine p).Reachable s)
    (hpc : s.main = .returned) : s.total_bytes = some (s.sumBytes p) := by
  refine hs.invariant (P := fun s => s.main = .returned →
    s.total_bytes = some (s.sumBytes p)) (by simp [chaseMachine, ChaseState.init]) ?_ hpc
  intro s e s' hReach h hStep
  cases e with
  | main =>
      cases chaseMain_cases hStep with
      | sum t _ _ hEq =>
          subst hEq
          exact fun _ => rfl
      | waitReady _ _ hEq =>
          rw [hEq]
          exact h
      | _ => subst s'; simp
  | measure cycles =>
      cases measure_cases hStep
      all_goals subst s'; exact h
  | load t =>
      have hMove := load_cases hStep
      have hFork := chase_forkInv hReach
      intro hpc
      rw [hMove.frame.main] at hpc
      have hMine := load_lt hFork hMove.active.1
      exact absurd ((finished_of_returned hFork hpc).2 t hMine) hMove.active.2
  | tick cycles =>
      cases hStep
      exact h

end Runs

/-! ## What is measured -/

/-- Two load threads, one of each kind, on 1 MiB behind the chase region. -/
def twoLoads : ChaseTest where
  data := 0
  size := chaseSizeBytes + 2 ^ 20
  num_load_threads := 2
  inject_delay_cycles := 100
  draw := fun _ => 0
  before := fun _ => 0
  large := by decide
  fits := by decide

/-- Everybody is created and ready, and main starts them. -/
def twoLoadsStarted : List ChaseEvent :=
  [.main, .main, .main, .main, .measure 0, .load 0, .load 1, .main, .main]

/-- **The chase under load.**  Whatever the load threads do and in whatever
order the steps come, every link is the one that was built, the measuring
thread has followed exactly one link an iteration along the single cycle
through all nodes, so that it never reads a node twice, and it has kept a
sample of every iteration after the warm-up. -/
theorem chaseUnderLoad_follows_cycle (p : ChaseTest) {s : ChaseState}
    (hs : (chaseMachine p).Reachable s) :
    (∀ node, node < chaseNodes → p.next node < chaseNodes ∧
      loadPointer s.memory (nodeAddr p.data node) =
        nodeAddr p.data (p.next node)) ∧
    Function.minimalPeriod p.next 0 = chaseNodes ∧
    s.current = nodeAddr p.data (p.next^[s.measure.iterations] 0) ∧
    (∀ j k, j < k → k ≤ s.measure.iterations →
      p.next^[j] 0 ≠ p.next^[k] 0) ∧
    s.global_latencies.length + s.latency_buffer.length =
      s.measure.iterations - warmupSamples ∧
    (s.measure = .finished →
      s.latency_buffer = [] ∧ s.global_latencies.length = numSamples) := by
  have h := chase_dataInv hs
  have hBounded := h.bounded
  have hShort : totalIterations < chaseNodes := by decide
  refine ⟨fun node hNode => ⟨p.next_lt hNode, h.links hNode⟩,
    p.minimalPeriod_next, h.current, ?_, h.samples, ?_⟩
  · intro j k hjk hk
    exact p.iterate_next_ne hjk (by omega)
  · intro hDone
    have hSamples := h.samples
    have hEmpty := h.collected hDone
    rw [hDone, hEmpty] at hSamples
    exact ⟨hEmpty, by simpa [MeasurePc.iterations, totalIterations] using hSamples⟩

/-- The writing thread stores once between two steps of the chase. -/
theorem chaseUnderLoad_follows_cycle_two :
    ∃ s, (chaseMachine twoLoads).Reachable s ∧ s.measure = .chase 2 ∧
      s.current = nodeAddr 0 (twoLoads.next^[2] 0) := by
  have hs := Machine.reachable_of_exec (m := chaseMachine twoLoads)
    (Option.some_get (x := (chaseMachine twoLoads).exec
      (chaseMachine twoLoads).start (twoLoadsStarted ++
        [.measure 0, .measure 70, .load 1, .load 1, .load 1, .measure 80]))
      (by decide)).symm
  exact ⟨_, hs, by decide, (chaseUnderLoad_follows_cycle twoLoads hs).2.2.1⟩

/-! ## Who waits for whom -/

/-- The sum of main's last loop. -/
theorem sumBytes_eq (p : ChaseTest) (s : ChaseState) :
    s.sumBytes p = (∑ t ∈ Finset.range p.num_load_threads,
      s.load_thread_bytes t) % 2 ^ 64 := by
  unfold ChaseState.sumBytes
  refine foldl_range_invariant (fun k (total : Nat) =>
    total = (∑ t ∈ Finset.range k, s.load_thread_bytes t) % 2 ^ 64) rfl ?_
  intro k total _ ih
  rw [ih, Finset.sum_range_succ, Nat.mod_add_mod]

theorem ChaseTest.bytes_accessed_eq (p : ChaseTest) {t k : Nat}
    {loop : LoadLoop} (h : loop = (p.loadRound t)^[k] LoadLoop.start) :
    loop.bytes_accessed = 32 * k % 2 ^ 64 := by
  rw [h, loadRound, LoadLoop.iterate_round]

/-- **Start, stop and totals.**  Nobody runs before everybody is ready, a load
thread is done only after the last iteration of the chase, and when main
returns, every thread is done and the total is what the threads have read and
written. -/
theorem chaseUnderLoad_start_stop (p : ChaseTest) {s : ChaseState}
    (hs : (chaseMachine p).Reachable s) :
    (s.measure.stage.started = true ∨ (∃ t, (s.load t).stage.started = true) →
      s.measure.stage.ready = true ∧
        ∀ t, t < p.num_load_threads → (s.load t).stage.ready = true) ∧
    ((∃ t, (s.load t).stopped = true) →
      s.measure.iterations = totalIterations) ∧
    (s.main = .returned → s.measure = .finished ∧
      (∀ t, t < p.num_load_threads → s.load t = .finished ∧
        loadThread p.data p.size p.num_load_threads t
          (s.loop t).accesses.length = some (s.loop t)) ∧
      s.total_bytes = some ((∑ t ∈ Finset.range p.num_load_threads,
        32 * (s.loop t).accesses.length) % 2 ^ 64)) := by
  have hFork := chase_forkInv hs
  have hStop := chase_stopInv hs
  have hLoops := (chase_dataInv hs).loops
  refine ⟨?_, ?_, ?_⟩
  · intro hRuns
    have hStart : s.start_flag = true :=
      hRuns.elim (hFork.runs 0) fun hLoad => hLoad.elim fun t => hFork.runs (t + 1)
    have hReady := hFork.all_ready hStart
    exact ⟨hReady 0 (Nat.succ_pos _),
      fun t ht => hReady (t + 1) (Nat.succ_lt_succ ht)⟩
  · rintro ⟨t, ht⟩
    exact MeasurePc.iterations_of_stopped
      (hStop.stop.symm.trans (hStop.load_stops t ht))
  · intro hpc
    obtain ⟨hMeasure, hDone⟩ := finished_of_returned hFork hpc
    refine ⟨hMeasure, fun t ht => ⟨hDone t ht, ?_⟩, ?_⟩
    · rw [loadThread_eq p.large]
      exact congrArg some (hLoops t).symm
    · rw [chase_total hs hpc, sumBytes_eq, Finset.sum_nat_mod]
      conv_rhs => rw [Finset.sum_nat_mod]
      refine congrArg (fun total => some (total % 2 ^ 64))
        (Finset.sum_congr rfl fun t ht => ?_)
      rw [hStop.bytes t (hDone t (Finset.mem_range.mp ht)),
        p.bytes_accessed_eq (hLoops t), Nat.mod_mod]

/-- The measuring thread has made an iteration, so both load threads are
ready. -/
theorem chaseUnderLoad_start_stop_two :
    ∃ s, (chaseMachine twoLoads).Reachable s ∧ s.measure = .chase 1 ∧
      ∀ t, t < 2 → (s.load t).stage.ready = true := by
  have hs := Machine.reachable_of_exec (m := chaseMachine twoLoads)
    (Option.some_get (x := (chaseMachine twoLoads).exec
      (chaseMachine twoLoads).start
      (twoLoadsStarted ++ [.measure 0, .measure 70])) (by decide)).symm
  exact ⟨_, hs, by decide,
    ((chaseUnderLoad_start_stop twoLoads hs).1 (Or.inl (by decide))).2⟩

/-! ## How a run is finished -/

/-- A load thread has room for the last vector of its slice. -/
def ChaseTest.LoadsFit (p : ChaseTest) : Prop :=
  ∀ t, t < p.num_load_threads →
    p.thread_data t + 32 * wrapPeriod p.total_ints 8 ≤ p.data + p.size

/-- Steps of main ahead of its return. -/
def ChaseMainPc.rank (n : Nat) : ChaseMainPc → Nat
  | createMeasure => 2 * n + 6
  | createLoad t => (n - t) + n + 5
  | waitReady => n + 4
  | startAll => n + 3
  | joinMeasure => n + 2
  | joinLoad t => (n - t) + 1
  | returned => 0

/-- Steps of the measuring thread ahead of its end. -/
def MeasurePc.rank : MeasurePc → Nat
  | unborn => totalIterations + 6
  | begin => totalIterations + 5
  | waitStart => totalIterations + 4
  | chase i => (totalIterations - i) + 3
  | stop => 2
  | collect => 1
  | finished => 0

/-- Steps of a load thread ahead of its end, once it is told to stop and its
delay is over. -/
def LoadPc.rank : LoadPc → Nat
  | unborn => 8
  | begin => 7
  | waitStart => 6
  | access => 5
  | delayStart => 4
  | delay _ => 3
  | test => 2
  | result => 1
  | finished => 0

/-- The delays ahead of a load thread, once it is told to stop. -/
def LoadPc.delays : LoadPc → Nat
  | access | delayStart | delay _ => 1
  | _ => 0

def chaseRank (p : ChaseTest) (s : ChaseState) : Nat :=
  s.main.rank p.num_load_threads + s.measure.rank +
    ∑ t ∈ Finset.range p.num_load_threads, (s.load t).rank

/-- The time when all delays are over, one after another. -/
def chaseBudget (p : ChaseTest) (s : ChaseState) : Nat :=
  s.clock + ∑ t ∈ Finset.range p.num_load_threads,
    (s.load t).delays * p.inject_delay_cycles.toNat

/-- The run gets on within its budget. -/
def ChaseAdvances (p : ChaseTest) (s : ChaseState) : Prop :=
  ∃ s', (chaseMachine p).Reaches s s' ∧ chaseRank p s' < chaseRank p s ∧
    chaseBudget p s' ≤ chaseBudget p s

section Progress

variable {p : ChaseTest} {s : ChaseState}

/-- With room for the vectors no access is a fault. -/
theorem ChaseTest.LoadsFit.maps (h : p.LoadsFit) {t : Nat}
    (ht : t < p.num_load_threads) {loop : LoadLoop} {k : Nat}
    (hLoop : loop = (p.loadRound t)^[k] LoadLoop.start) :
    p.Maps (p.loadAccess t loop) := by
  have hOffset : loop.offset = 8 * (k % wrapPeriod p.total_ints 8) := by
    rw [hLoop, ChaseTest.loadRound, LoadLoop.iterate_round,
      iterate_wrapNext (by decide)]
  have hPos : 0 < wrapPeriod p.total_ints 8 :=
    Nat.lt_of_lt_of_le Nat.one_pos (Nat.le_max_left _ _)
  have hLt := Nat.mod_lt k hPos
  have hRoom := h t ht
  have hData : p.data ≤ p.thread_data t := by
    unfold ChaseTest.thread_data ChaseTest.load_data
    omega
  unfold ChaseTest.Maps ChaseTest.loadAccess
  dsimp only
  omega

/-- A delay is over `inject_delay_cycles` after it has begun, or before. -/
theorem exists_delayed (p : ChaseTest) (s : ChaseState) (delay_start : UInt64) :
    ∃ cycles, cycles ≤ p.inject_delay_cycles.toNat ∧
      ({ s with clock := s.clock + cycles } : ChaseState).delays p delay_start =
        false := by
  by_cases hShort : s.rdtscp - delay_start < p.inject_delay_cycles
  · refine ⟨(p.inject_delay_cycles - (s.rdtscp - delay_start)).toNat, ?_, ?_⟩
    · rw [UInt64.toNat_sub_of_le _ _ (UInt64.le_of_lt hShort)]
      exact Nat.sub_le _ _
    · have hEnd : UInt64.ofNat (s.clock +
          (p.inject_delay_cycles - (s.rdtscp - delay_start)).toNat) - delay_start =
          p.inject_delay_cycles := by
        rw [UInt64.ofNat_add, UInt64.ofNat_toNat]
        unfold ChaseState.rdtscp
        grind
      refine decide_eq_false ?_
      show ¬ UInt64.ofNat (s.clock +
        (p.inject_delay_cycles - (s.rdtscp - delay_start)).toNat) - delay_start <
          p.inject_delay_cycles
      rw [hEnd]
      exact UInt64.lt_irrefl _
  · exact ⟨0, Nat.zero_le _, decide_eq_false hShort⟩

/-- The measuring thread gets on when it is started. -/
theorem measure_advances (hBorn : s.measure ≠ .unborn)
    (hOpen : s.measure ≠ .finished)
    (hStart : s.measure = .waitStart → s.start_flag = true) :
    ChaseAdvances p s := by
  -- One step of the measuring thread, which lowers its own rank.
  have hOne : ∀ s', s.measureStep 0 = some s' →
      s'.measure.rank < s.measure.rank → s'.main = s.main →
      s'.load = s.load → s'.clock = s.clock → ChaseAdvances p s := by
    intro s' hStep hRank hMain hLoad hClock
    refine ⟨s', Machine.reaches_of_next (m := chaseMachine p) (e := .measure 0)
      hStep, ?_, ?_⟩
    · unfold chaseRank
      rw [hMain, hLoad]
      omega
    · unfold chaseBudget
      rw [hLoad, hClock]
  cases hpc : s.measure with
  | unborn => exact absurd hpc hBorn
  | begin =>
      exact hOne { s with ready_count := s.ready_count + 1, measure := .waitStart }
        (by simp [ChaseState.measureStep, hpc]) (by simp [hpc, MeasurePc.rank])
        rfl rfl rfl
  | waitStart =>
      exact hOne { s with measure := .chase 0 }
        (by simp [ChaseState.measureStep, hpc, hStart hpc])
        (by simp [hpc, MeasurePc.rank]) rfl rfl rfl
  | chase i =>
      by_cases hi : i < totalIterations
      · refine hOne (s.chaseStep i 0) (by simp [ChaseState.measureStep, hpc, hi])
          ?_ rfl rfl rfl
        simp only [ChaseState.chaseStep, hpc, MeasurePc.rank]
        omega
      · exact hOne { s with measure := .stop }
          (by simp [ChaseState.measureStep, hpc, hi])
          (by simp [hpc, MeasurePc.rank]) rfl rfl rfl
  | stop =>
      exact hOne { s with stop_flag := true, measure := .collect }
        (by simp [ChaseState.measureStep, hpc]) (by simp [hpc, MeasurePc.rank])
        rfl rfl rfl
  | collect =>
      exact hOne { s with
          global_latencies := s.global_latencies ++ s.latency_buffer
          latency_buffer := []
          measure := .finished }
        (by simp [ChaseState.measureStep, hpc]) (by simp [hpc, MeasurePc.rank])
        rfl rfl rfl
  | finished => exact absurd hpc hOpen

/-- Load thread `t` alone has moved, and time has gone by for its delay. -/
theorem chaseAdvances_of_load {s' : ChaseState} {t : Nat}
    (ht : t < p.num_load_threads)
    (hReach : (chaseMachine p).Reaches s s')
    (hRank : (s'.load t).rank < (s.load t).rank) (hMain : s'.main = s.main)
    (hMeasure : s'.measure = s.measure)
    (hOther : ∀ u, u ≠ t → s'.load u = s.load u)
    (hTime : s'.clock + (s'.load t).delays * p.inject_delay_cycles.toNat ≤
      s.clock + (s.load t).delays * p.inject_delay_cycles.toNat) :
    ChaseAdvances p s := by
  refine ⟨s', hReach, ?_, ?_⟩
  · have hSum := sum_range_change (f := fun u => (s.load u).rank)
      (g := fun u => (s'.load u).rank) ht fun u hu => by rw [hOther u hu]
    unfold chaseRank
    rw [hMain, hMeasure]
    omega
  · have hSum := sum_range_change
      (f := fun u => (s.load u).delays * p.inject_delay_cycles.toNat)
      (g := fun u => (s'.load u).delays * p.inject_delay_cycles.toNat) ht
      fun u hu => by rw [hOther u hu]
    unfold chaseBudget
    omega

/-- A load thread gets on when it is started and told to stop. -/
theorem load_advances {t : Nat} (ht : t < p.num_load_threads)
    (hBorn : s.load t ≠ .unborn) (hOpen : s.load t ≠ .finished)
    (hStart : s.load t = .waitStart → s.start_flag = true)
    (hStop : s.load t = .test → s.stop_flag = true)
    (hMaps : p.Maps (p.loadAccess t (s.loop t))) : ChaseAdvances p s := by
  -- One step of the thread.
  have hOne : ∀ (s' : ChaseState) (pc : LoadPc), s.loadStep p t = some s' →
      s'.load = (s.setLoad t pc).load → pc.rank < (s.load t).rank →
      pc.delays ≤ (s.load t).delays → s'.main = s.main →
      s'.measure = s.measure → s'.clock = s.clock → ChaseAdvances p s := by
    intro s' pc hStep hLoad hRank hDelays hMain hMeasure hClock
    have hNew : s'.load t = pc :=
      (congrFun hLoad t).trans (ChaseState.setLoad_self s t pc)
    refine chaseAdvances_of_load ht
      (Machine.reaches_of_next (m := chaseMachine p) (e := .load t) hStep)
      (hNew.symm ▸ hRank) hMain hMeasure
      (fun u hu => (congrFun hLoad u).trans (ChaseState.setLoad_other s hu)) ?_
    rw [hNew, hClock]
    exact Nat.add_le_add_left (Nat.mul_le_mul_right _ hDelays) _
  cases hpc : s.load t with
  | unborn => exact absurd hpc hBorn
  | begin =>
      exact hOne { s.setLoad t .waitStart with ready_count := s.ready_count + 1 }
        .waitStart (by simp [ChaseState.loadStep, hpc]) rfl
        (by simp [hpc, LoadPc.rank]) (by simp [LoadPc.delays]) rfl rfl rfl
  | waitStart =>
      exact hOne (s.setLoad t .test) .test
        (by simp [ChaseState.loadStep, hpc, hStart hpc]) rfl
        (by simp [hpc, LoadPc.rank]) (by simp [LoadPc.delays]) rfl rfl rfl
  | test =>
      exact hOne (s.setLoad t .result) .result
        (by simp [ChaseState.loadStep, hpc, hStop hpc]) rfl
        (by simp [hpc, LoadPc.rank]) (by simp [LoadPc.delays]) rfl rfl rfl
  | access =>
      have hAfter : (ChaseState.afterAccess p).rank < LoadPc.access.rank ∧
          (ChaseState.afterAccess p).delays ≤ LoadPc.access.delays := by
        unfold ChaseState.afterAccess
        split
        · exact ⟨by decide, by decide⟩
        · exact ⟨by decide, by decide⟩
      exact hOne (s.accessStep p t) (ChaseState.afterAccess p)
        (by simp [ChaseState.loadStep, hpc, hMaps]) rfl (hpc ▸ hAfter.1)
        (hpc ▸ hAfter.2) rfl rfl rfl
  | delayStart =>
      exact hOne (s.setLoad t (.delay s.rdtscp)) (.delay s.rdtscp)
        (by simp [ChaseState.loadStep, hpc]) rfl (by simp [hpc, LoadPc.rank])
        (by simp [hpc, LoadPc.delays]) rfl rfl rfl
  | delay delay_start =>
      obtain ⟨cycles, hCycles, hOver⟩ := exists_delayed p s delay_start
      let later : ChaseState := { s with clock := s.clock + cycles }
      have hTick : (chaseMachine p).next s (.tick cycles) = some later := rfl
      have hStep : (chaseMachine p).next later (.load t) =
          some (later.setLoad t .test) := by
        show later.loadStep p t = _
        have hpc' : later.load t = .delay delay_start := hpc
        have hOver : later.delays p delay_start = false := hOver
        simp only [ChaseState.loadStep, hpc', hOver, Bool.false_eq_true, if_false]
      have hReach : (chaseMachine p).Reaches s (later.setLoad t .test) :=
        Relation.ReflTransGen.trans (Machine.reaches_of_next hTick)
          (Machine.reaches_of_next hStep)
      refine chaseAdvances_of_load ht hReach ?_ rfl rfl
        (fun u hu => ChaseState.setLoad_other later hu) ?_
      · rw [ChaseState.setLoad_self, hpc]
        exact Nat.lt_succ_self 2
      · rw [ChaseState.setLoad_self, hpc]
        show s.clock + cycles + 0 * p.inject_delay_cycles.toNat ≤
          s.clock + 1 * p.inject_delay_cycles.toNat
        omega
  | result =>
      exact hOne { s.setLoad t .finished with
          load_thread_bytes := Function.update s.load_thread_bytes t
            (s.loop t).bytes_accessed } .finished
        (by simp [ChaseState.loadStep, hpc]) rfl (by simp [hpc, LoadPc.rank])
        (by simp [LoadPc.delays]) rfl rfl rfl
  | finished => exact absurd hpc hOpen

/-- A step of main that moves nobody else. -/
theorem main_advances (s' : ChaseState) {pc : ChaseMainPc}
    (hStep : s.mainStep p = some s') (hMain : s'.main = pc)
    (hRank : pc.rank p.num_load_threads < s.main.rank p.num_load_threads)
    (hMeasure : s'.measure = s.measure) (hLoad : s'.load = s.load)
    (hClock : s'.clock = s.clock) : ChaseAdvances p s := by
  refine ⟨s', Machine.reaches_of_next (m := chaseMachine p) (e := .main) hStep,
    ?_, ?_⟩
  · unfold chaseRank
    rw [hMain, hMeasure, hLoad]
    omega
  · unfold chaseBudget
    rw [hLoad, hClock]

/-- Main creates a load thread. -/
theorem createLoad_advances {t : Nat} (hpc : s.main = .createLoad t)
    (ht : t < p.num_load_threads) (hUnborn : s.load t = .unborn) :
    ChaseAdvances p s := by
  let born : ChaseState := { s.setLoad t .begin with main := .createLoad (t + 1) }
  have hOther : ∀ u, u ≠ t → born.load u = s.load u :=
    fun u hu => ChaseState.setLoad_other s hu
  have hNew : born.load t = .begin := ChaseState.setLoad_self s t .begin
  have hRanks : (s.load t).rank = 8 ∧ (born.load t).rank = 7 :=
    ⟨congrArg LoadPc.rank hUnborn, congrArg LoadPc.rank hNew⟩
  have hDelays : (s.load t).delays = 0 ∧ (born.load t).delays = 0 :=
    ⟨congrArg LoadPc.delays hUnborn, congrArg LoadPc.delays hNew⟩
  have hStep : (chaseMachine p).next s .main = some born := by
    simp [chaseMachine, ChaseState.mainStep, hpc, ht, born]
  refine ⟨born, Machine.reaches_of_next hStep, ?_, ?_⟩
  · have hSum := sum_range_change (f := fun u => (s.load u).rank)
      (g := fun u => (born.load u).rank) ht fun u hu => by rw [hOther u hu]
    have hMeasure : born.measure = s.measure := rfl
    have hMain : born.main = .createLoad (t + 1) := rfl
    simp only [chaseRank, hpc, hMain, hMeasure, ChaseMainPc.rank]
    omega
  · have hSum := sum_range_change
      (f := fun u => (s.load u).delays * p.inject_delay_cycles.toNat)
      (g := fun u => (born.load u).delays * p.inject_delay_cycles.toNat) ht
      fun u hu => by rw [hOther u hu]
    have hClock : born.clock = s.clock := rfl
    rw [hDelays.1, hDelays.2] at hSum
    unfold chaseBudget
    omega

/-- As long as main has not returned, somebody gets on. -/
theorem chase_advances (hFit : p.LoadsFit) (hs : (chaseMachine p).Reachable s)
    (hMore : s.main ≠ .returned) : ChaseAdvances p s := by
  have hFork := chase_forkInv hs
  have hStart : s.start_flag = (s.main.fork p.num_load_threads).started :=
    hFork.start
  have hMaps : ∀ t, t < p.num_load_threads →
      p.Maps (p.loadAccess t (s.loop t)) :=
    fun t ht => hFit.maps ht ((chase_dataInv hs).loops t)
  cases hpc : s.main with
  | createMeasure =>
      let born : ChaseState := { s with measure := .begin, main := .createLoad 0 }
      have hStep : (chaseMachine p).next s .main = some born := by
        simp [chaseMachine, ChaseState.mainStep, hpc, born]
      refine ⟨born, Machine.reaches_of_next hStep, ?_, Nat.le_refl _⟩
      simp only [born, chaseRank, hpc, unborn_measure hFork hpc, ChaseMainPc.rank,
        MeasurePc.rank]
      omega
  | createLoad t =>
      by_cases ht : t < p.num_load_threads
      · exact createLoad_advances hpc ht (unborn_load hFork hpc)
      · refine main_advances { s with main := .waitReady }
          (by simp [ChaseState.mainStep, hpc, ht]) rfl ?_ rfl rfl rfl
        simp only [hpc, ChaseMainPc.rank]
        omega
  | waitReady =>
      by_cases hFew : s.ready_count < p.num_load_threads + 1
      · -- Somebody who has been created has not counted itself in.
        obtain ⟨t, ht, hBegin⟩ := hFork.exists_begin
          (congrArg (ChaseMainPc.fork _) hpc) hFew
        cases t with
        | zero =>
            have hBegin := MeasurePc.stage_eq_begin.mp hBegin
            exact measure_advances (by simp [hBegin]) (by simp [hBegin])
              (by simp [hBegin])
        | succ t =>
            have hBegin := LoadPc.stage_eq_begin.mp hBegin
            have ht := Nat.lt_of_succ_lt_succ ht
            exact load_advances ht (by simp [hBegin]) (by simp [hBegin])
              (by simp [hBegin]) (by simp [hBegin]) (hMaps t ht)
      · refine main_advances { s with main := .startAll }
          (by simp only [ChaseState.mainStep, hpc, if_neg hFew]) rfl ?_ rfl rfl rfl
        simp only [hpc, ChaseMainPc.rank]
        omega
  | startAll =>
      refine main_advances { s with start_flag := true, main := .joinMeasure }
        (by simp [ChaseState.mainStep, hpc]) rfl ?_ rfl rfl rfl
      simp only [hpc, ChaseMainPc.rank]
      omega
  | joinMeasure =>
      rw [hpc] at hStart
      by_cases hDone : s.measure = .finished
      · refine main_advances { s with main := .joinLoad 0 }
          (by simp [ChaseState.mainStep, hpc, hDone]) rfl ?_ rfl rfl rfl
        simp only [hpc, ChaseMainPc.rank]
        omega
      · exact measure_advances (born_measure hFork (by simp [hpc])) hDone
          fun _ => hStart
  | joinLoad t =>
      rw [hpc] at hStart
      by_cases ht : t < p.num_load_threads
      · by_cases hDone : s.load t = .finished
        · refine main_advances { s with main := .joinLoad (t + 1) }
            (by simp [ChaseState.mainStep, hpc, ht, hDone]) rfl ?_ rfl rfl rfl
          simp only [hpc, ChaseMainPc.rank]
          omega
        · have hMeasure : s.measure = .finished := by
            refine MeasurePc.stage_eq_finished.mp (hFork.joined 0 ?_)
            show 0 < (s.main.fork p.num_load_threads).joined
            rw [hpc]
            exact Nat.succ_pos t
          have hStop := (chase_stopInv hs).stop
          rw [hMeasure] at hStop
          have hBorn : s.load t ≠ .unborn := by
            intro hUnborn
            have hLate := (hFork.unborn (t + 1)).mp
              (LoadPc.stage_eq_unborn.mpr hUnborn)
            change (s.main.fork p.num_load_threads).created _ ≤ t + 1 at hLate
            rw [hpc] at hLate
            exact absurd ht (Nat.not_lt_of_le (Nat.le_of_succ_le_succ hLate))
          exact load_advances ht hBorn hDone (fun _ => hStart) (fun _ => hStop)
            (hMaps t ht)
      · refine main_advances { s with
          total_bytes := some (s.sumBytes p), main := .returned }
          (by simp only [ChaseState.mainStep, hpc, if_neg ht]) rfl ?_ rfl rfl rfl
        simp only [hpc, ChaseMainPc.rank]
        omega
  | returned => exact absurd hpc hMore

/-- At most one delay is ahead of each load thread. -/
theorem chaseBudget_le (p : ChaseTest) (s : ChaseState) :
    chaseBudget p s ≤
      s.clock + p.num_load_threads * p.inject_delay_cycles.toNat := by
  have hOne : ∀ t ∈ Finset.range p.num_load_threads,
      (s.load t).delays * p.inject_delay_cycles.toNat ≤
        p.inject_delay_cycles.toNat := by
    intro t _
    cases s.load t <;> simp [LoadPc.delays]
  have hSum := Finset.sum_le_card_nsmul _ _ _ hOne
  rw [Finset.card_range, smul_eq_mul] at hSum
  exact Nat.add_le_add_left hSum _

end Progress

/-- **How a run is finished.**  When the vectors of the load threads fit in the
region, the call can return from every state of every run, within one
`inject_delay_cycles` for each load thread. -/
theorem chaseUnderLoad_returns (p : ChaseTest) (hFit : p.LoadsFit)
    {s : ChaseState} (hs : (chaseMachine p).Reachable s) :
    ∃ s', (chaseMachine p).Reaches s s' ∧ s'.main = .returned ∧
      s'.clock ≤ s.clock + p.num_load_threads * p.inject_delay_cycles.toNat := by
  obtain ⟨s', hReach, hDone, hWithin⟩ := Machine.finishes_within (chaseRank p)
    (chaseBudget p) (fun _ hs hMore => chase_advances hFit hs hMore) hs
  have hNow : s'.clock ≤ chaseBudget p s' := Nat.le_add_right _ _
  exact ⟨s', hReach, hDone, (hNow.trans hWithin).trans (chaseBudget_le p s)⟩

/-- The writing thread is in its delay. -/
theorem chaseUnderLoad_returns_two :
    ∃ s, (chaseMachine twoLoads).Reachable s ∧ s.load 1 = .delay 7 ∧
      ∃ s', (chaseMachine twoLoads).Reaches s s' ∧ s'.main = .returned ∧
        s'.clock ≤ s.clock + 2 * 100 := by
  have hs := Machine.reachable_of_exec (m := chaseMachine twoLoads)
    (Option.some_get (x := (chaseMachine twoLoads).exec
      (chaseMachine twoLoads).start (twoLoadsStarted ++
        [.measure 0, .load 1, .load 1, .load 1, .tick 7, .load 1]))
      (by decide)).symm
  have hFit : twoLoads.LoadsFit := by
    unfold ChaseTest.LoadsFit
    decide
  exact ⟨_, hs, by decide, chaseUnderLoad_returns twoLoads hFit hs⟩

end MioBench.Bench
