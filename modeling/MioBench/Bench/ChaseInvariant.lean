import MioBench.Bench.ChaseRun

/-!
# What the load threads leave alone

The load threads store behind the chase region only, so the links stay as they
were built whatever the order of the steps, and the measuring thread follows
the one cycle through all nodes.  The second half is about the order of the
steps: nobody runs before everybody is ready, and the load threads run until
the measurement is over.
-/

namespace MioBench.Bench

open MioBench.Lib

/-! ## The links as they were built -/

namespace ChaseTest

variable (p : ChaseTest)

theorem indices_perm : p.indices.Perm (List.range chaseNodes) :=
  shuffledIndices_perm chaseNodes p.draw

theorem nodeAddr_room {node : Nat} (hNode : node < chaseNodes) :
    p.data ≤ nodeAddr p.data node ∧
      nodeAddr p.data node + 64 ≤ p.load_data := by
  have hNodes : chaseNodes * nodeSize = chaseSizeBytes := by decide
  have hRoom : (node + 1) * nodeSize ≤ chaseNodes * nodeSize :=
    Nat.mul_le_mul_right _ hNode
  rw [Nat.succ_mul] at hRoom
  unfold nodeAddr load_data
  unfold nodeSize at *
  omega

theorem next_lt {node : Nat} (hNode : node < chaseNodes) :
    p.next node < chaseNodes :=
  (buildLinks_eq_nextNode p.data _ p.indices_perm hNode).1

theorem iterate_next_lt (k : Nat) : p.next^[k] 0 < chaseNodes :=
  (chase_eq p.data _ p.indices_perm (by decide) k).1

theorem loadPointer_linked {node : Nat} (hNode : node < chaseNodes) :
    loadPointer p.linked (nodeAddr p.data node) =
      nodeAddr p.data (p.next node) := by
  have hNodes : chaseNodes * nodeSize = chaseSizeBytes := by decide
  have hLarge := p.large
  have hFits := p.fits
  have hRoom : p.data + chaseNodes * nodeSize ≤ 2 ^ 64 := by omega
  have hRead := loadPointer_linkNodes p.before (fun _ => 0) p.indices_perm
    hRoom hNode
  unfold linked
  exact hRead.trans (buildLinks_eq_nextNode p.data _ p.indices_perm hNode).2

/-- Less than a round apart, the nodes of the chase are distinct. -/
theorem iterate_next_ne {j k : Nat} (hjk : j < k) (hk : k < chaseNodes) :
    p.next^[j] 0 ≠ p.next^[k] 0 := by
  obtain ⟨i, hi, hStart⟩ :=
    exists_getD_of_perm_range p.indices_perm (show 0 < chaseNodes by decide)
  have hNe := (circuit_nextNode p.data (fun _ => 0) p.indices_perm).iterate_ne
    hi hjk hk
  rw [hStart] at hNe
  exact hNe

theorem minimalPeriod_next : Function.minimalPeriod p.next 0 = chaseNodes := by
  obtain ⟨i, hi, hStart⟩ :=
    exists_getD_of_perm_range p.indices_perm (show 0 < chaseNodes by decide)
  have hPeriod := (circuit_nextNode p.data (fun _ => 0)
    p.indices_perm).minimalPeriod_eq hi
  rw [hStart] at hPeriod
  exact hPeriod

/-- A load thread stores behind the chase region. -/
theorem stores_behind {t : Nat} {loop : LoadLoop} {c : Nat × UInt8}
    (hc : c ∈ (p.loadAccess t loop).stores.flatMap Store.cells) :
    p.load_data ≤ c.1 := by
  obtain ⟨store, hStore, hCell⟩ := List.mem_flatMap.mp hc
  obtain ⟨lanes, _, rfl⟩ := Access.mem_stores.mp hStore
  obtain ⟨i, _, hAddr, _⟩ := Store.mem_cells.mp hCell
  rw [hAddr]
  unfold loadAccess thread_data
  dsimp only
  omega

end ChaseTest

/-! ## Memory, chase and samples -/

/-- How many links the measuring thread has followed. -/
def MeasurePc.iterations : MeasurePc → Nat
  | unborn | begin | waitStart => 0
  | chase i => i
  | stop | collect | finished => totalIterations

structure ChaseDataInv (p : ChaseTest) (s : ChaseState) : Prop where
  region : ∀ a, p.data ≤ a → a < p.load_data → s.memory a = p.linked a
  bounded : s.measure.iterations ≤ totalIterations
  current : s.current = nodeAddr p.data (p.next^[s.measure.iterations] 0)
  samples : s.global_latencies.length + s.latency_buffer.length =
    s.measure.iterations - warmupSamples
  collected : s.measure = .finished → s.latency_buffer = []
  pending : s.measure ≠ .finished → s.global_latencies = []
  loops : ∀ t, s.loop t =
    (p.loadRound t)^[(s.loop t).accesses.length] LoadLoop.start

section Data

variable {p : ChaseTest} {s s' : ChaseState}

/-- The links in memory are those that were built. -/
theorem ChaseDataInv.links (h : ChaseDataInv p s) {node : Nat}
    (hNode : node < chaseNodes) :
    loadPointer s.memory (nodeAddr p.data node) =
      nodeAddr p.data (p.next node) := by
  have hRoom := p.nodeAddr_room hNode
  rw [← p.loadPointer_linked hNode]
  exact loadPointer_congr fun a hLow hHigh =>
    h.region a (by omega) (by omega)

theorem init_chaseDataInv (p : ChaseTest) :
    ChaseDataInv p (ChaseState.init p) where
  region := fun _ _ _ => rfl
  bounded := Nat.zero_le _
  current := by simp [ChaseState.init, MeasurePc.iterations, nodeAddr]
  samples := (Nat.zero_sub _).symm
  collected := fun _ => rfl
  pending := fun _ => rfl
  loops := fun _ => rfl

/-- What is not about the measuring thread's work. -/
theorem ChaseDataInv.congr (h : ChaseDataInv p s)
    (hMemory : s'.memory = s.memory) (hLoop : s'.loop = s.loop)
    (hCurrent : s'.current = s.current)
    (hBuffer : s'.latency_buffer = s.latency_buffer)
    (hGlobal : s'.global_latencies = s.global_latencies)
    (hIterations : s'.measure.iterations = s.measure.iterations)
    (hFinished : s'.measure = .finished ↔ s.measure = .finished) :
    ChaseDataInv p s' where
  region := by rw [hMemory]; exact h.region
  bounded := by rw [hIterations]; exact h.bounded
  current := by rw [hCurrent, hIterations]; exact h.current
  samples := by rw [hGlobal, hBuffer, hIterations]; exact h.samples
  collected := fun hDone => hBuffer.trans (h.collected (hFinished.mp hDone))
  pending := fun hOpen => hGlobal.trans (h.pending (mt hFinished.mpr hOpen))
  loops := by rw [hLoop]; exact h.loops

/-- One iteration: the link is the one that was built, and the sample is kept
from the end of the warm-up on. -/
theorem ChaseDataInv.chaseStep (h : ChaseDataInv p s) {i cycles : Nat}
    (hpc : s.measure = .chase i) (hi : i < totalIterations) :
    ChaseDataInv p (s.chaseStep i cycles) where
  region := h.region
  bounded := hi
  current := by
    have hCurrent := h.current
    rw [hpc] at hCurrent
    show loadPointer s.memory s.current = nodeAddr p.data (p.next^[i + 1] 0)
    rw [hCurrent, Function.iterate_succ_apply']
    exact h.links (p.iterate_next_lt i)
  samples := by
    have hSamples := h.samples
    rw [hpc] at hSamples
    simp only [MeasurePc.iterations] at hSamples
    simp only [ChaseState.chaseStep, MeasurePc.iterations]
    split
    · rw [List.length_append, List.length_singleton]
      omega
    · omega
  collected := nofun
  pending := fun _ => h.pending (by simp [hpc])
  loops := h.loops

theorem ChaseDataInv.measureStep (h : ChaseDataInv p s) {cycles : Nat}
    (hStep : s.measureStep cycles = some s') : ChaseDataInv p s' := by
  cases measure_cases hStep with
  | begin hpc hEq =>
      subst hEq
      exact h.congr rfl rfl rfl rfl rfl (by rw [hpc]; rfl) (by simp [hpc])
  | wait _ _ hEq =>
      rw [hEq]
      exact h
  | go hpc _ hEq =>
      subst hEq
      exact h.congr rfl rfl rfl rfl rfl (by rw [hpc]; rfl) (by simp [hpc])
  | chase i hpc hi hEq =>
      rw [hEq]
      exact h.chaseStep hpc hi
  | chased i hpc hi hEq =>
      have hBounded := h.bounded
      rw [hpc] at hBounded
      subst hEq
      refine h.congr rfl rfl rfl rfl rfl ?_ (by simp [hpc])
      rw [hpc]
      exact Nat.le_antisymm hi hBounded
  | stop hpc hEq =>
      subst hEq
      exact h.congr rfl rfl rfl rfl rfl (by rw [hpc]; rfl) (by simp [hpc])
  | collect hpc hEq =>
      have hSamples := h.samples
      have hCurrent := h.current
      rw [hpc] at hSamples hCurrent
      subst hEq
      refine ⟨h.region, Nat.le_refl _, hCurrent, ?_, fun _ => rfl,
        fun hOpen => absurd rfl hOpen, h.loops⟩
      simpa [MeasurePc.iterations] using hSamples

/-- One round of a load thread: its store is behind the chase region. -/
theorem ChaseDataInv.accessStep (h : ChaseDataInv p s) (t : Nat) :
    ChaseDataInv p (s.accessStep p t) where
  region := by
    intro a hLow hHigh
    rw [← h.region a hLow hHigh]
    refine Memory.run_of_not_stored _ fun c hc => ?_
    have hBehind := p.stores_behind hc
    omega
  bounded := h.bounded
  current := h.current
  samples := h.samples
  collected := h.collected
  pending := h.pending
  loops := by
    intro u
    simp only [ChaseState.accessStep]
    by_cases hu : u = t
    · rw [hu, Function.update_self]
      have hLength : (p.loadRound t (s.loop t)).accesses.length =
          (s.loop t).accesses.length + 1 := by
        simp [ChaseTest.loadRound, LoadLoop.round]
      rw [hLength, Function.iterate_succ_apply', ← h.loops t]
    · rw [Function.update_of_ne hu]
      exact h.loops u

theorem ChaseDataInv.loadStep (h : ChaseDataInv p s) {t : Nat}
    (hStep : s.loadStep p t = some s') : ChaseDataInv p s' := by
  cases load_cases hStep with
  | access _ _ hEq =>
      rw [hEq]
      exact h.accessStep t
  | spin _ _ _ hEq =>
      rw [hEq]
      exact h
  | _ => subst s'; exact h.congr rfl rfl rfl rfl rfl rfl Iff.rfl

end Data

/-! ## Start and end -/

/-- The measuring thread as a worker. -/
def MeasurePc.stage : MeasurePc → WorkerStage
  | unborn => .unborn
  | begin => .begin
  | waitStart => .waitStart
  | chase _ | stop | collect => .running
  | finished => .finished

/-- A load thread as a worker. -/
def LoadPc.stage : LoadPc → WorkerStage
  | unborn => .unborn
  | begin => .begin
  | waitStart => .waitStart
  | test | access | delayStart | delay _ | result => .running
  | finished => .finished

@[simp] theorem MeasurePc.stage_eq_unborn {pc : MeasurePc} :
    pc.stage = .unborn ↔ pc = .unborn := by
  cases pc <;> simp [stage]

@[simp] theorem MeasurePc.stage_eq_finished {pc : MeasurePc} :
    pc.stage = .finished ↔ pc = .finished := by
  cases pc <;> simp [stage]

@[simp] theorem MeasurePc.stage_eq_begin {pc : MeasurePc} :
    pc.stage = .begin ↔ pc = .begin := by
  cases pc <;> simp [stage]

theorem afterAccess_stage (p : ChaseTest) :
    (ChaseState.afterAccess p).stage = .running := by
  unfold ChaseState.afterAccess
  split <;> rfl

@[simp] theorem LoadPc.stage_eq_unborn {pc : LoadPc} :
    pc.stage = .unborn ↔ pc = .unborn := by
  cases pc <;> simp [stage]

@[simp] theorem LoadPc.stage_eq_begin {pc : LoadPc} :
    pc.stage = .begin ↔ pc = .begin := by
  cases pc <;> simp [stage]

@[simp] theorem LoadPc.stage_eq_finished {pc : LoadPc} :
    pc.stage = .finished ↔ pc = .finished := by
  cases pc <;> simp [stage]

/-- Main as the thread that creates and joins, the measuring thread first. -/
def ChaseMainPc.fork (n : Nat) : ChaseMainPc → ForkPc
  | createMeasure => .create 0
  | createLoad t => .create (t + 1)
  | waitReady => .waitReady
  | startAll => .startAll
  | joinMeasure => .join 0
  | joinLoad t => .join (t + 1)
  | returned => .join (n + 1)

namespace ChaseState

/-- Worker 0 measures, the others make the load. -/
def stage (s : ChaseState) : Nat → WorkerStage
  | 0 => s.measure.stage
  | t + 1 => (s.load t).stage

def fork (p : ChaseTest) (s : ChaseState) : ForkState where
  ready_count := s.ready_count
  start_flag := s.start_flag
  main := s.main.fork p.num_load_threads
  worker := s.stage

/-- Of the workers, the measuring thread alone has changed. -/
theorem fork_measure {p : ChaseTest} {s s' : ChaseState}
    (hLoad : s'.load = s.load) :
    s'.fork p = { (s.fork p).setWorker 0 s'.measure.stage with
      ready_count := s'.ready_count
      start_flag := s'.start_flag
      main := s'.main.fork p.num_load_threads } := by
  refine ForkState.ext rfl rfl rfl ?_
  funext u
  cases u with
  | zero => exact (ForkState.setWorker_self (s.fork p) 0 _).symm
  | succ u =>
      have hRest := ForkState.setWorker_other (s.fork p) s'.measure.stage
        (Nat.succ_ne_zero u)
      exact (congrArg LoadPc.stage (congrFun hLoad u)).trans hRest.symm

/-- Of the workers, load thread `t` alone has changed. -/
theorem fork_load {p : ChaseTest} {s s' : ChaseState} {t : Nat}
    (hMeasure : s'.measure = s.measure)
    (hOther : ∀ u, u ≠ t → s'.load u = s.load u) :
    s'.fork p = { (s.fork p).setWorker (t + 1) (s'.load t).stage with
      ready_count := s'.ready_count
      start_flag := s'.start_flag
      main := s'.main.fork p.num_load_threads } := by
  refine ForkState.ext rfl rfl rfl ?_
  funext u
  cases u with
  | zero =>
      have hRest := ForkState.setWorker_other (s.fork p) (s'.load t).stage
        (Nat.succ_ne_zero t).symm
      exact (congrArg MeasurePc.stage hMeasure).trans hRest.symm
  | succ u =>
      by_cases hu : u = t
      · rw [hu]
        exact (ForkState.setWorker_self (s.fork p) (t + 1) _).symm
      · have hRest := ForkState.setWorker_other (s.fork p) (s'.load t).stage
          (mt Nat.succ.inj hu)
        exact (congrArg LoadPc.stage (hOther u hu)).trans hRest.symm

end ChaseState

section Fork

variable {p : ChaseTest} {s s' : ChaseState}

theorem MeasureMove.fork_eq {cycles : Nat} (h : MeasureMove s s' cycles) :
    s'.fork p = { (s.fork p).setWorker 0 s'.measure.stage with
      ready_count := s'.ready_count } := by
  cases h
  all_goals
    subst s'
    exact ChaseState.fork_measure rfl

theorem MeasureMove.main {cycles : Nat} (h : MeasureMove s s' cycles) :
    s'.main = s.main := by
  cases h
  all_goals subst s'; rfl

/-- The measuring thread moves: worker 0 does, or nobody. -/
theorem MeasureMove.fork {cycles : Nat} (h : MeasureMove s s' cycles) :
    s'.fork p = s.fork p ∨ (s.fork p).workerStep 0 = some (s'.fork p) := by
  have hFork := h.fork_eq (p := p)
  have hStage : ∀ pc, s.measure = pc → (s.fork p).worker 0 = pc.stage :=
    fun pc hpc => congrArg MeasurePc.stage hpc
  rw [hFork]
  cases h with
  | begin hpc hEq =>
      right
      simp only [ForkState.workerStep, hStage _ hpc, MeasurePc.stage]
      rw [hEq]
      rfl
  | wait _ _ hEq =>
      left
      rw [hEq]
      exact ForkState.setWorker_eq_self (hStage _ rfl)
  | go hpc hFlag hEq =>
      right
      simp only [ForkState.workerStep, hStage _ hpc, MeasurePc.stage]
      rw [if_pos (show (s.fork p).start_flag = true from hFlag), hEq]
      rfl
  | chase i hpc _ hEq =>
      left
      rw [hEq]
      exact ForkState.setWorker_eq_self (hStage _ hpc)
  | chased i hpc _ hEq =>
      left
      rw [hEq]
      exact ForkState.setWorker_eq_self (hStage _ hpc)
  | stop hpc hEq =>
      left
      rw [hEq]
      exact ForkState.setWorker_eq_self (hStage _ hpc)
  | collect hpc hEq =>
      right
      simp only [ForkState.workerStep, hStage _ hpc, MeasurePc.stage]
      rw [hEq]
      rfl

/-- What load thread `t` leaves alone. -/
structure LoadFrame (s s' : ChaseState) (t : Nat) : Prop where
  main : s'.main = s.main
  measure : s'.measure = s.measure
  start : s'.start_flag = s.start_flag
  stop : s'.stop_flag = s.stop_flag
  total : s'.total_bytes = s.total_bytes
  load : ∀ u, u ≠ t → s'.load u = s.load u
  loop : ∀ u, u ≠ t → s'.loop u = s.loop u
  bytes : ∀ u, u ≠ t → s'.load_thread_bytes u = s.load_thread_bytes u

theorem LoadMove.frame {t : Nat} (h : LoadMove p s s' t) : LoadFrame s s' t := by
  have hSet : ∀ pc, LoadFrame s (s.setLoad t pc) t := fun pc =>
    ⟨rfl, rfl, rfl, rfl, rfl, fun u hu => ChaseState.setLoad_other s hu,
      fun _ _ => rfl, fun _ _ => rfl⟩
  cases h with
  | begin _ hEq => exact hEq ▸ { hSet .waitStart with }
  | wait _ _ hEq =>
      rw [hEq]
      exact ⟨rfl, rfl, rfl, rfl, rfl, fun _ _ => rfl, fun _ _ => rfl, fun _ _ => rfl⟩
  | go _ _ hEq => exact hEq ▸ hSet .test
  | again _ _ hEq => exact hEq ▸ hSet .access
  | leave _ _ hEq => exact hEq ▸ hSet .result
  | access _ _ hEq =>
      exact hEq ▸ { hSet (ChaseState.afterAccess p) with
        loop := fun u hu => Function.update_of_ne hu _ _ }
  | delayStart _ hEq => exact hEq ▸ hSet (.delay s.rdtscp)
  | spin _ _ _ hEq =>
      rw [hEq]
      exact ⟨rfl, rfl, rfl, rfl, rfl, fun _ _ => rfl, fun _ _ => rfl, fun _ _ => rfl⟩
  | delayed _ _ _ hEq => exact hEq ▸ hSet .test
  | result _ hEq =>
      exact hEq ▸ { hSet .finished with
        bytes := fun u hu => Function.update_of_ne hu _ _ }

theorem LoadMove.active {t : Nat} (h : LoadMove p s s' t) :
    s.load t ≠ .unborn ∧ s.load t ≠ .finished := by
  cases h
  all_goals simp [*]

/-- Load thread `t` moves: worker `t + 1` does, or nobody. -/
theorem LoadMove.fork {t : Nat} (h : LoadMove p s s' t) :
    s'.fork p = s.fork p ∨
      (s.fork p).workerStep (t + 1) = some (s'.fork p) := by
  have hFrame := h.frame
  have hStage : ∀ pc, s.load t = pc → (s.fork p).worker (t + 1) = pc.stage :=
    fun pc hpc => congrArg LoadPc.stage hpc
  rw [ChaseState.fork_load hFrame.measure hFrame.load, hFrame.main, hFrame.start]
  cases h with
  | begin hpc hEq =>
      right
      have hNew : s'.load t = .waitStart := by
        rw [hEq]
        exact ChaseState.setLoad_self s t .waitStart
      simp only [ForkState.workerStep, hStage _ hpc, LoadPc.stage]
      rw [hNew, hEq]
      rfl
  | wait _ _ hEq =>
      left
      rw [hEq]
      exact ForkState.setWorker_eq_self (hStage _ rfl)
  | go hpc hFlag hEq =>
      right
      simp only [ForkState.workerStep, hStage _ hpc, LoadPc.stage]
      rw [if_pos (show (s.fork p).start_flag = true from hFlag), hEq,
        ChaseState.setLoad_self]
      rfl
  | again hpc _ hEq =>
      left
      rw [hEq, ChaseState.setLoad_self]
      exact ForkState.setWorker_eq_self (hStage _ hpc)
  | leave hpc _ hEq =>
      left
      rw [hEq, ChaseState.setLoad_self]
      exact ForkState.setWorker_eq_self (hStage _ hpc)
  | access hpc _ hEq =>
      left
      have hNew : s'.load t = ChaseState.afterAccess p := by
        rw [hEq]
        exact ChaseState.setLoad_self s t (ChaseState.afterAccess p)
      rw [hNew, afterAccess_stage, hEq]
      exact ForkState.setWorker_eq_self (hStage _ hpc)
  | delayStart hpc hEq =>
      left
      rw [hEq, ChaseState.setLoad_self]
      exact ForkState.setWorker_eq_self (hStage _ hpc)
  | spin _ _ _ hEq =>
      left
      rw [hEq]
      exact ForkState.setWorker_eq_self (hStage _ rfl)
  | delayed _ hpc _ hEq =>
      left
      rw [hEq, ChaseState.setLoad_self]
      exact ForkState.setWorker_eq_self (hStage _ hpc)
  | result hpc hEq =>
      right
      simp only [ForkState.workerStep, hStage _ hpc, LoadPc.stage]
      have hDone : s'.load t = .finished := by
        rw [hEq]
        exact ChaseState.setLoad_self s t .finished
      rw [hDone, hEq]
      rfl

/-- Main moves as the thread that creates and joins, or nowhere. -/
theorem ChaseMainMove.fork (h : ChaseMainMove p s s')
    (hLe : ∀ t, s.main = .joinLoad t → t ≤ p.num_load_threads) :
    s'.fork p = s.fork p ∨
      (s.fork p).mainStep (p.num_load_threads + 1) = some (s'.fork p) := by
  have hMain : ∀ pc, s.main = pc →
      (s.fork p).main = pc.fork p.num_load_threads :=
    fun pc hpc => congrArg (ChaseMainPc.fork _) hpc
  cases h with
  | createMeasure hpc hEq =>
      right
      simp only [ForkState.mainStep, hMain _ hpc, ChaseMainPc.fork]
      have hLoad : s'.load = s.load := by rw [hEq]
      rw [if_pos (Nat.succ_pos _), ChaseState.fork_measure hLoad, hEq]
      rfl
  | createLoad t hpc ht hEq =>
      right
      simp only [ForkState.mainStep, hMain _ hpc, ChaseMainPc.fork]
      have hMeasure : s'.measure = s.measure := by rw [hEq]; rfl
      have hNew : s'.load t = .begin := by
        rw [hEq]
        exact ChaseState.setLoad_self s t .begin
      have hOther : ∀ u, u ≠ t → s'.load u = s.load u := by
        rw [hEq]
        exact fun u hu => ChaseState.setLoad_other s hu
      rw [if_pos (Nat.succ_lt_succ ht), ChaseState.fork_load hMeasure hOther,
        hNew, hEq]
      rfl
  | allCreated t hpc ht hEq =>
      right
      simp only [ForkState.mainStep, hMain _ hpc, ChaseMainPc.fork]
      rw [if_neg (by omega), hEq]
      rfl
  | waitReady _ _ hEq => exact Or.inl (by rw [hEq])
  | allReady hpc hAll hEq =>
      right
      simp only [ForkState.mainStep, hMain _ hpc, ChaseMainPc.fork]
      have hNot : ¬ (s.fork p).ready_count < p.num_load_threads + 1 :=
        Nat.not_lt_of_le hAll
      rw [if_neg hNot, hEq]
      rfl
  | startAll hpc hEq =>
      right
      simp only [ForkState.mainStep, hMain _ hpc, ChaseMainPc.fork]
      rw [hEq]
      rfl
  | joinMeasure hpc hDone hEq =>
      right
      have hWorker : (s.fork p).worker 0 = .finished :=
        congrArg MeasurePc.stage hDone
      simp only [ForkState.mainStep, hMain _ hpc, ChaseMainPc.fork]
      rw [if_pos ⟨Nat.succ_pos _, hWorker⟩, hEq]
      rfl
  | joinLoad t hpc ht hDone hEq =>
      right
      have hWorker : (s.fork p).worker (t + 1) = .finished :=
        congrArg LoadPc.stage hDone
      simp only [ForkState.mainStep, hMain _ hpc, ChaseMainPc.fork]
      rw [if_pos ⟨Nat.succ_lt_succ ht, hWorker⟩, hEq]
      rfl
  | sum t hpc ht hEq =>
      left
      have hAll : t = p.num_load_threads := Nat.le_antisymm (hLe t hpc) ht
      rw [hEq]
      refine ForkState.ext rfl rfl ?_ rfl
      rw [hMain _ hpc, hAll]
      rfl

end Fork

/-! ## How the load threads are stopped -/

/-- The measuring thread has set `stop_flag`. -/
@[simp] def MeasurePc.stopped : MeasurePc → Bool
  | collect | finished => true
  | _ => false

theorem MeasurePc.iterations_of_stopped {pc : MeasurePc}
    (hpc : pc.stopped = true) : pc.iterations = totalIterations := by
  cases pc with
  | collect | finished => rfl
  | _ => simp at hpc

/-- The thread has seen `stop_flag`. -/
@[simp] def LoadPc.stopped : LoadPc → Bool
  | result | finished => true
  | _ => false

theorem afterAccess_stopped (p : ChaseTest) :
    (ChaseState.afterAccess p).stopped = false := by
  unfold ChaseState.afterAccess
  split <;> rfl

structure ChaseStopInv (s : ChaseState) : Prop where
  stop : s.stop_flag = s.measure.stopped
  load_stops : ∀ t, (s.load t).stopped = true → s.stop_flag = true
  bytes : ∀ t, s.load t = .finished →
    s.load_thread_bytes t = (s.loop t).bytes_accessed

section Stop

variable {p : ChaseTest} {s s' : ChaseState}

theorem ChaseStopInv.measureStep (h : ChaseStopInv s) {cycles : Nat}
    (hStep : s.measureStep cycles = some s') : ChaseStopInv s' := by
  have hStop := h.stop
  cases measure_cases hStep with
  | wait _ _ hEq =>
      rw [hEq]
      exact h
  | stop _ hEq =>
      subst hEq
      exact ⟨rfl, fun _ _ => rfl, h.bytes⟩
  | begin hpc hEq =>
      rw [hpc] at hStop
      subst hEq
      exact ⟨hStop, h.load_stops, h.bytes⟩
  | go hpc _ hEq =>
      rw [hpc] at hStop
      subst hEq
      exact ⟨hStop, h.load_stops, h.bytes⟩
  | chase i hpc _ hEq =>
      rw [hpc] at hStop
      subst hEq
      exact ⟨hStop, h.load_stops, h.bytes⟩
  | chased i hpc _ hEq =>
      rw [hpc] at hStop
      subst hEq
      exact ⟨hStop, h.load_stops, h.bytes⟩
  | collect hpc hEq =>
      rw [hpc] at hStop
      subst hEq
      exact ⟨hStop, h.load_stops, h.bytes⟩

/-- Thread `t` re-establishes its own clauses. -/
theorem ChaseStopInv.move (h : ChaseStopInv s) {t : Nat}
    (hFrame : LoadFrame s s' t)
    (hStops : (s'.load t).stopped = true → s.stop_flag = true)
    (hDone : s'.load t = .finished →
      s'.load_thread_bytes t = (s'.loop t).bytes_accessed) :
    ChaseStopInv s' where
  stop := by rw [hFrame.stop, hFrame.measure]; exact h.stop
  load_stops := by
    intro u hu
    rw [hFrame.stop]
    by_cases hut : u = t
    · exact hStops (hut ▸ hu)
    · rw [hFrame.load u hut] at hu
      exact h.load_stops u hu
  bytes := by
    intro u hu
    by_cases hut : u = t
    · exact hut ▸ hDone (hut ▸ hu)
    · rw [hFrame.load u hut] at hu
      rw [hFrame.bytes u hut, hFrame.loop u hut]
      exact h.bytes u hu

theorem ChaseStopInv.loadStep (h : ChaseStopInv s) {t : Nat}
    (hStep : s.loadStep p t = some s') : ChaseStopInv s' := by
  have hMove := load_cases hStep
  have hFrame := hMove.frame
  cases hMove with
  | begin _ hEq =>
      subst hEq
      refine h.move hFrame ?_ ?_
      all_goals simp [ChaseState.setLoad]
  | wait _ _ hEq =>
      rw [hEq]
      exact h
  | go _ _ hEq =>
      subst hEq
      refine h.move hFrame ?_ ?_
      all_goals simp
  | again _ _ hEq =>
      subst hEq
      refine h.move hFrame ?_ ?_
      all_goals simp
  | leave _ hFlag hEq =>
      subst hEq
      refine h.move hFrame ?_ ?_
      all_goals simp [hFlag]
  | access _ _ hEq =>
      have hNew : s'.load t = ChaseState.afterAccess p := by
        rw [hEq]
        exact ChaseState.setLoad_self s t (ChaseState.afterAccess p)
      have hOpen := afterAccess_stopped p
      rw [← hNew] at hOpen
      refine h.move hFrame ?_ ?_
      · exact fun hStopped => absurd (hOpen.symm.trans hStopped) Bool.false_ne_true
      · intro hDone
        rw [hDone] at hOpen
        cases hOpen
  | delayStart _ hEq =>
      subst hEq
      refine h.move hFrame ?_ ?_
      all_goals simp
  | spin _ _ _ hEq =>
      rw [hEq]
      exact h
  | delayed _ _ _ hEq =>
      subst hEq
      refine h.move hFrame ?_ ?_
      all_goals simp
  | result hpc hEq =>
      have hFlag := h.load_stops t (by simp [hpc])
      subst hEq
      refine h.move hFrame ?_ ?_
      all_goals simp [hFlag, ChaseState.setLoad]

end Stop

end MioBench.Bench
