import MioBench.Sync.Sweep

/-!
# The clean-up of a failed sweep

When the creation of reader `k` fails, `run_one_sweep` of `test2.c` and
`read_cumulative` of `test3-mt.c` lower the gate to the `k` readers there are
and join and free in two loops.  The threads come out of this as they should,
in both programs.  The buffers do where `free` is given what `malloc` has made:
`test3-mt.c` maps its buffers.
-/

namespace MioBench.Sync

open MioBench.Lib

/-! ## What a complete clean-up is -/

/-- The clean-up of a sweep is complete, whatever the schedule. -/
structure CleansUp (p : Sweep) : Prop where
  /-- Until the return some thread has a step to take. -/
  notStuck : ∀ s, (sweepMachine p).Reachable s → s.main ≠ .returned →
    ∃ e, e.OfThread ∧ ((sweepMachine p).next s e).isSome
  /-- And some schedule leads there. -/
  finishes : ∀ s, (sweepMachine p).Reachable s →
    ∃ s', (sweepMachine p).Reaches s s' ∧ s'.main = .returned
  fails : ∀ s, (sweepMachine p).Reachable s → s.main = .returned → s.ret = -1
  /-- Every started reader passes the gate and is joined once, and nobody
  else. -/
  passed : ∀ s, (sweepMachine p).Reachable s → s.main = .returned →
    ∀ i, i < s.started → s.gate.waiter i = .returned
  joined : ∀ s, (sweepMachine p).Reachable s → s.main = .returned →
    ∀ i, s.joined i = if i < s.started then 1 else 0
  joinedOnce : ∀ s, (sweepMachine p).Reachable s → ∀ i, s.joined i ≤ 1
  /-- A reader's buffer is there until it is joined. -/
  freedLater : ∀ s, (sweepMachine p).Reachable s → ∀ i, i < s.started →
    s.joined i = 0 → s.scratch i = p.newBuffer
  /-- Every buffer is freed by the return, and no `free` is undefined. -/
  freed : ∀ s s', (sweepMachine p).Reachable s → (sweepMachine p).Reaches s s' →
    s'.main = .returned → ∀ i, s.scratch i ≠ .null → s'.scratch i = .freed
  freedOnce : ∀ s, (sweepMachine p).Reachable s → ∀ i, s.scratch i ≠ .corrupted
  /-- Nobody can use the gate any more when it is destroyed. -/
  destroyed : ∀ s, (sweepMachine p).Reachable s → s.destroyed = true →
    ∀ i, i < s.started → s.readers.pc i = .finished

/-! ## The invariant -/

namespace MainPc

/-- How many readers have been joined, of `k`. -/
def joinedTo (k : Nat) : MainPc → Nat
  | joinFree i => i
  | freeRest _ | destroy | returned => k
  | create _ | opening _ | join _ | report => 0

/-- How many entries of `args` have been freed, of `n`. -/
def freedTo (n : Nat) : MainPc → Nat
  | joinFree i | freeRest i => i
  | destroy | returned => n
  | create _ | opening _ | join _ | report => 0

end MainPc

namespace Sweep

/-- How many buffers are allocated when creation `k` is the one to fail. -/
def buffers (p : Sweep) (k : Nat) : Nat :=
  if p.createFails k = some .pthreadCreate then k + 1 else k

/-- And how many of them so far. -/
def allocatedTo (p : Sweep) (k : Nat) : MainPc → Nat
  | .create i => i
  | _ => p.buffers k

/-- The buffer of reader `i` before it is freed. -/
def allocated (p : Sweep) (k : Nat) (pc : MainPc) (i : Nat) : Buffer :=
  if i < p.allocatedTo k pc then p.newBuffer else .null

theorem le_buffers (p : Sweep) (k : Nat) :
    k ≤ p.buffers k ∧ p.buffers k ≤ k + 1 := by
  unfold buffers
  split <;> omega

end Sweep

/-- Where main can be in a sweep whose creation `k` fails, and what it knows
there of the number of readers. -/
def CleanPlace (p : Sweep) (k : Nat) (s : SweepState) : Prop :=
  match s.main with
  | .create i => i ≤ k ∧ s.started = i ∧ s.created = i
  | .opening failed => failed = true ∧ s.started = k ∧ s.created = k
  | .joinFree i => i ≤ k ∧ s.started = k ∧ s.created = k
  | .freeRest i => k ≤ i ∧ i ≤ p.active_requests ∧ s.started = k
  | .destroy | .returned => s.started = k
  | .join _ | .report => False

/-- Joins and frees are where main's position says. -/
structure CleanInv (p : Sweep) (k : Nat) (s : SweepState) : Prop where
  place : CleanPlace p k s
  joined : ∀ j, s.joined j = if j < s.main.joinedTo k then 1 else 0
  scratch : ∀ j, s.scratch j =
    if j < s.main.freedTo p.active_requests then
      (p.allocated k s.main j).free
    else p.allocated k s.main j
  finished : ∀ j, j < s.main.joinedTo k → s.readers.pc j = .finished
  destroyed : s.destroyed = true → s.main = .returned
  ret : (∃ i, s.main = .create i) ∨ s.ret = -1

section Step

variable {p : Sweep} {k : Nat} {s s' : SweepState}

/-- The invariant where main's position is known. -/
theorem CleanInv.marks (h : CleanInv p k s) {pc : MainPc} (hpc : s.main = pc) :
    (∀ j, s.joined j = if j < pc.joinedTo k then 1 else 0) ∧
    (∀ j, s.scratch j = if j < pc.freedTo p.active_requests then
      (p.allocated k pc j).free else p.allocated k pc j) ∧
    (∀ j, j < pc.joinedTo k → s.readers.pc j = .finished) ∧
    ((∀ i, pc ≠ .create i) → s.ret = -1) := by
  subst hpc
  refine ⟨h.joined, h.scratch, h.finished, fun hNot => ?_⟩
  rcases h.ret with ⟨i, hAt⟩ | hRet
  · exact absurd hAt (hNot i)
  · exact hRet

/-- The gate and the readers can do nothing about it. -/
theorem CleanInv.congr (h : CleanInv p k s) {gate : GateState}
    {readers : ReadersState}
    (hFinished : ∀ j, s.readers.pc j = .finished → readers.pc j = .finished) :
    CleanInv p k { s with gate := gate, readers := readers } where
  place := h.place
  joined := h.joined
  scratch := h.scratch
  finished := fun j hj => hFinished j (h.finished j hj)
  destroyed := h.destroyed
  ret := h.ret

theorem CleanInv.createReader {i : Nat} (h : CleanInv p k s)
    (hFails : p.createFails k ≠ none) (hpc : s.main = .create i) :
    CleanInv p k (s.createReader p i) := by
  obtain ⟨hPlace, hJoined, hScratch, _, hDestroyed, _⟩ := h
  have hLive : ∀ j, s.scratch j = if j < i then p.newBuffer else .null := by
    intro j
    rw [hScratch j, hpc]
    rfl
  have hNone : ∀ j, s.joined j = 0 := by
    intro j
    rw [hJoined j, hpc]
    rfl
  simp only [CleanPlace, hpc] at hPlace
  obtain ⟨hLe, hStarted, hCreated⟩ := hPlace
  have hKept : s.destroyed ≠ true := by
    intro hOn
    have hMain := hDestroyed hOn
    rw [hpc] at hMain
    cases hMain
  unfold SweepState.createReader
  split
  · rename_i hCreates
    have hLt : i < k := by
      have hNe : i ≠ k := fun hEq => hFails (hEq ▸ hCreates)
      omega
    exact
      { place := ⟨hLt, congrArg (· + 1) hStarted, congrArg (· + 1) hCreated⟩
        joined := hNone
        scratch := by
          intro j
          show Function.update s.scratch i p.newBuffer j =
            if j < i + 1 then p.newBuffer else .null
          by_cases hj : j = i
          · simp [hj]
          · rw [Function.update_of_ne hj, hLive j]
            exact if_congr (by omega) rfl rfl
        finished := fun j hj => absurd hj (Nat.not_lt_zero j)
        destroyed := fun hOn => absurd hOn hKept
        ret := Or.inl ⟨i + 1, rfl⟩ }
  · rename_i hScratchFails
    obtain rfl : i = k :=
      Sweep.createFails_unique (by simp [hScratchFails]) hFails
    exact
      { place := ⟨rfl, hStarted, hCreated⟩
        joined := hNone
        scratch := by
          intro j
          have hBuffers : p.buffers i = i := if_neg (by simp [hScratchFails])
          rw [hLive j]
          simp [Sweep.allocated, Sweep.allocatedTo, MainPc.freedTo, hBuffers]
        finished := fun j hj => absurd hj (Nat.not_lt_zero j)
        destroyed := fun hOn => absurd hOn hKept
        ret := Or.inr rfl }
  · rename_i hThreadFails
    obtain rfl : i = k :=
      Sweep.createFails_unique (by simp [hThreadFails]) hFails
    exact
      { place := ⟨rfl, hStarted, hCreated⟩
        joined := hNone
        scratch := by
          intro j
          have hBuffers : p.buffers i = i + 1 := if_pos hThreadFails
          show Function.update s.scratch i p.newBuffer j =
            if j < p.buffers i then p.newBuffer else .null
          rw [hBuffers]
          by_cases hj : j = i
          · simp [hj]
          · rw [Function.update_of_ne hj, hLive j]
            exact if_congr (by omega) rfl rfl
        finished := fun j hj => absurd hj (Nat.not_lt_zero j)
        destroyed := fun hOn => absurd hOn hKept
        ret := Or.inr rfl }

/-- The next entry of `args` is freed. -/
theorem free_update {p : Sweep} {k i : Nat} {pc : MainPc}
    {scratch : Nat → Buffer}
    (h : ∀ j, scratch j = if j < i then (p.allocated k pc j).free
      else p.allocated k pc j) (j : Nat) :
    Function.update scratch i (scratch i).free j =
      if j < i + 1 then (p.allocated k pc j).free else p.allocated k pc j := by
  by_cases hj : j = i
  · subst hj
    rw [Function.update_self, h j, if_neg (Nat.lt_irrefl j),
      if_pos (Nat.lt_succ_self j)]
  · rw [Function.update_of_ne hj, h j]
    exact if_congr (by omega) rfl rfl

/-- Main goes on without a join, a `free` or an allocation. -/
theorem CleanInv.goTo {pc : MainPc} (h : CleanInv p k s) (pc' : MainPc)
    (hpc : s.main = pc)
    (hLate : ∀ i, pc ≠ .create i) (hRuns : pc ≠ .returned)
    (hPlace : CleanPlace p k { s with main := pc' })
    (hJoined : pc'.joinedTo k = pc.joinedTo k)
    (hFreed : pc'.freedTo p.active_requests = pc.freedTo p.active_requests)
    (hAllocated : p.allocatedTo k pc' = p.allocatedTo k pc) :
    CleanInv p k { s with main := pc' } := by
  obtain ⟨hJoins, hScratch, hDone, hRet⟩ := h.marks hpc
  exact
    { place := hPlace
      joined := by
        intro j
        show s.joined j = if j < pc'.joinedTo k then 1 else 0
        rw [hJoined]
        exact hJoins j
      scratch := by
        intro j
        show s.scratch j = if j < pc'.freedTo p.active_requests then
          (p.allocated k pc' j).free else p.allocated k pc' j
        unfold Sweep.allocated
        rw [hFreed, hAllocated]
        exact hScratch j
      finished := fun j hj => hDone j (hJoined ▸ hj)
      destroyed := fun hOn => by
        have hReturned := h.destroyed hOn
        rw [hpc] at hReturned
        exact absurd hReturned hRuns
      ret := Or.inr (hRet hLate) }

theorem CleanInv.mainStep (h : CleanInv p k s) (hk : k < p.active_requests)
    (hFails : p.createFails k ≠ none) (hStep : s.mainStep p = some s') :
    CleanInv p k s' := by
  have hPlace := h.place
  unfold CleanPlace at hPlace
  have hKept : s.main ≠ .returned → ∀ {pc : MainPc}, s.destroyed = true →
      pc = .returned := fun hNe _ hOn => absurd (h.destroyed hOn) hNe
  cases sweepMain_cases hStep with
  | createReader i hpc hi hEq => exact hEq ▸ h.createReader hFails hpc
  | allCreated i hpc hi hEq =>
      simp only [hpc] at hPlace
      omega
  | openGate failed gate hpc _ _ hEq =>
      subst hEq
      exact h.congr fun _ hj => hj
  | opened failed hpc _ hEq =>
      simp only [hpc] at hPlace
      obtain ⟨rfl, hStarted, hCreated⟩ := hPlace
      subst hEq
      exact h.goTo (.joinFree 0) hpc (by simp) (by simp)
        ⟨Nat.zero_le _, hStarted, hCreated⟩ rfl rfl rfl
  | join i hpc _ _ _ =>
      simp only [hpc] at hPlace
  | allJoined i hpc _ _ =>
      simp only [hpc] at hPlace
  | report hpc _ =>
      simp only [hpc] at hPlace
  | joinFree i hpc hi hFinished hEq =>
      simp only [hpc] at hPlace
      obtain ⟨hLe, hStarted, hCreated⟩ := hPlace
      obtain ⟨hJoined, hScratch, hDone, hRet⟩ := h.marks hpc
      subst hEq
      exact
        { place := ⟨by omega, hStarted, hCreated⟩
          joined := by
            intro j
            show Function.update s.joined i (s.joined i + 1) j =
              if j < i + 1 then 1 else 0
            by_cases hj : j = i
            · subst hj
              rw [Function.update_self, hJoined j]
              simp [MainPc.joinedTo]
            · rw [Function.update_of_ne hj, hJoined j]
              exact if_congr (by show j < i ↔ j < i + 1; omega) rfl rfl
          scratch := free_update hScratch
          finished := by
            intro j hj
            by_cases hLast : j = i
            · rw [hLast]
              exact hFinished
            · have hBefore : j < i + 1 := hj
              exact hDone j (show j < i by omega)
          destroyed := hKept (by simp [hpc])
          ret := Or.inr (hRet fun _ => by simp) }
  | createdFreed i hpc hi hEq =>
      simp only [hpc] at hPlace
      obtain ⟨hLe, hStarted, hCreated⟩ := hPlace
      obtain rfl : i = k := by omega
      subst hEq
      exact h.goTo (.freeRest s.created) hpc (by simp) (by simp)
        ⟨Nat.le_of_eq hCreated.symm, by omega, hStarted⟩ rfl hCreated rfl
  | freeRest i hpc hi hEq =>
      simp only [hpc] at hPlace
      obtain ⟨hFrom, _, hStarted⟩ := hPlace
      obtain ⟨hJoined, hScratch, hDone, hRet⟩ := h.marks hpc
      subst hEq
      exact
        { place := ⟨by omega, hi, hStarted⟩
          joined := hJoined
          scratch := free_update hScratch
          finished := hDone
          destroyed := hKept (by simp [hpc])
          ret := Or.inr (hRet fun _ => by simp) }
  | allFreed i hpc hi hEq =>
      simp only [hpc] at hPlace
      obtain ⟨_, hTo, hStarted⟩ := hPlace
      obtain rfl : i = p.active_requests := by omega
      subst hEq
      exact h.goTo .destroy hpc (by simp) (by simp) hStarted rfl rfl rfl
  | destroy hpc hEq =>
      simp only [hpc] at hPlace
      obtain ⟨hJoined, hScratch, hDone, hRet⟩ := h.marks hpc
      subst hEq
      exact
        { place := hPlace
          joined := hJoined
          scratch := hScratch
          finished := hDone
          destroyed := fun _ => rfl
          ret := Or.inr (hRet fun _ => by simp) }

end Step

/-! ## Runs -/

section Run

variable {p : Sweep} {k : Nat} {s : SweepState}

theorem sweep_cleanInv (hk : k < p.active_requests)
    (hFails : p.createFails k ≠ none) (hs : (sweepMachine p).Reachable s) :
    CleanInv p k s := by
  refine hs.invariant (P := CleanInv p k) ?_ ?_
  · exact
      { place := ⟨Nat.zero_le _, rfl, rfl⟩
        joined := fun _ => rfl
        scratch := fun _ => rfl
        finished := fun j hj => absurd hj (Nat.not_lt_zero j)
        destroyed := fun hOn => by cases hOn
        ret := Or.inl ⟨0, rfl⟩ }
  · intro s e s' _ h hStep
    rcases sweep_cases hStep with hMain | ⟨gate, _, rfl⟩ |
      ⟨i, readers, _, _, hReader, rfl⟩
    · exact h.mainStep hk hFails hMain
    · exact @CleanInv.congr p k s h gate s.readers fun _ hj => hj
    · exact @CleanInv.congr p k s h s.gate readers fun _ hj =>
        readerStep_finished hReader hj

theorem CleanInv.started_le (h : CleanInv p k s) : s.started ≤ k := by
  have hPlace := h.place
  unfold CleanPlace at hPlace
  split at hPlace
  · omega
  · omega
  · omega
  · omega
  · omega
  · omega
  · cases hPlace
  · cases hPlace

/-- The gate of a failed sweep is that of `k` waiters. -/
theorem failedSweep_gateInv (hk : k < p.active_requests)
    (hFails : p.createFails k ≠ none) (hRequests : p.active_requests < 2 ^ 32)
    (hs : (sweepMachine p).Reachable s) :
    GateInv p.active_requests (.gateOpenAfterCreated k) s.gate := by
  have hWaiters : k < 2 ^ 32 := Nat.lt_trans hk hRequests
  refine @gateMachine_inv p.active_requests (.gateOpenAfterCreated k) hWaiters _
    ((sweep_projects_call ?_ ?_).reachable hs)
  · exact fun s hs => (sweep_cleanInv hk hFails hs).started_le
  · intro s failed hs hpc
    have hPlace := (sweep_cleanInv hk hFails hs).place
    simp only [CleanPlace, hpc] at hPlace
    simp [hPlace.1, hPlace.2.2]

/-- Nobody finishes without having passed the gate. -/
theorem sweep_finished_passed (hs : (sweepMachine p).Reachable s) :
    ∀ i, s.readers.pc i = .finished → s.gate.waiter i = .returned := by
  refine hs.invariant (P := fun s => ∀ i, s.readers.pc i = .finished →
    s.gate.waiter i = .returned) ?_ ?_
  · intro i hi
    cases hi
  · intro s e s' _ h hStep j hj
    rcases sweep_cases hStep with hMain | ⟨gate, hGate, rfl⟩ |
      ⟨i, readers, _, hPassed, hReader, rfl⟩
    · have hFrame := mainStep_frame hMain
      rw [hFrame.readers] at hj
      rcases hFrame.gate with hSame | ⟨failed, _, hOpen⟩
      · rw [hSame]
        exact h j hj
      · have hPassed := h j hj
        rw [CvPc.stays (openStep_waiter hOpen j) (by rw [hPassed]; rfl), hPassed]
    · rw [hGate.waiter (Or.inl (h j hj)), h j hj]
    · by_cases hji : j = i
      · rw [hji]
        exact hPassed
      · have hSame := readerStep_other hReader hji
        exact h j (by rw [← hSame.1]; exact hj)

/-! ## Progress -/

/-- Steps main still has to take before its return from a failed sweep. -/
def MainPc.cleanupRank (n k : Nat) : MainPc → Nat
  | create i => (k - i) + 2 * n + 6
  | opening _ => 2 * n + 5
  | joinFree i => (n - i) + n + 4
  | freeRest i => (n - i) + 2
  | destroy => 1
  | returned | join _ | report => 0

/-- Until main returns, some thread has a step that brings it closer. -/
theorem failedSweep_advances (hk : k < p.active_requests)
    (hFails : p.createFails k ≠ none) (hRequests : p.active_requests < 2 ^ 32)
    (hBlocks : p.body.blocks < 2 ^ 64) (hs : (sweepMachine p).Reachable s)
    (hNot : s.main ≠ .returned) :
    Advances p (MainPc.cleanupRank p.active_requests k) s := by
  have hClean := sweep_cleanInv hk hFails hs
  have hGate := failedSweep_gateInv hk hFails hRequests hs
  have hMainInv := sweep_mainInv hs
  have hPlace := hClean.place
  unfold CleanPlace at hPlace
  cases hpc : s.main with
  | create i =>
      simp only [hpc] at hPlace
      have hi : i < p.active_requests := by omega
      have hMove := MainMove.createReader i hpc hi rfl
      apply sweep_main_advances hMove.mainStep_eq
      · unfold SweepState.createReader
        split <;> rfl
      · unfold SweepState.createReader
        split <;> rfl
      · rw [hpc]
        have hOpening : MainPc.cleanupRank p.active_requests k (.opening true) <
            MainPc.cleanupRank p.active_requests k (.create i) := by
          simp only [MainPc.cleanupRank]
          omega
        unfold SweepState.createReader
        split
        · rename_i hCreates
          have hNe : i ≠ k := fun hEq => hFails (hEq ▸ hCreates)
          simp only [MainPc.cleanupRank]
          omega
        · exact hOpening
        · exact hOpening
  | opening failed =>
      simp only [hpc] at hPlace
      obtain ⟨rfl, hStarted, hCreated⟩ := hPlace
      refine sweep_opening_advances hGate hpc (by simp [hCreated]) hStarted
        (by omega) ?_
      rw [hpc]
      show p.active_requests - 0 + p.active_requests + 4 <
        2 * p.active_requests + 5
      omega
  | join i => simp only [hpc] at hPlace
  | report => simp only [hpc] at hPlace
  | joinFree i =>
      simp only [hpc] at hPlace
      obtain ⟨hLe, hStarted, hCreated⟩ := hPlace
      simp only [MainInv, hpc] at hMainInv
      by_cases hi : i < s.created
      · by_cases hFinished : s.readers.pc i = .finished
        · have hMove := @MainMove.joinFree p _ _ i hpc hi hFinished rfl
          apply sweep_main_advances hMove.mainStep_eq rfl rfl
          rw [hpc]
          simp only [MainPc.cleanupRank]
          omega
        · have hWaiter : i < (OpenCall.gateOpenAfterCreated k).waiters
              p.active_requests := by
            show i < k
            omega
          exact sweep_reader_advances hGate hMainInv.2.1 (by omega) hWaiter
            (by omega) hBlocks hFinished
      · have hMove := @MainMove.createdFreed p _ _ i hpc (Nat.le_of_not_lt hi) rfl
        apply sweep_main_advances hMove.mainStep_eq rfl rfl
        rw [hpc]
        simp only [MainPc.cleanupRank]
        omega
  | freeRest i =>
      by_cases hi : i < p.active_requests
      · have hMove := MainMove.freeRest i hpc hi rfl
        apply sweep_main_advances hMove.mainStep_eq rfl rfl
        rw [hpc]
        simp only [MainPc.cleanupRank]
        omega
      · have hMove := MainMove.allFreed i hpc (Nat.le_of_not_lt hi) rfl
        apply sweep_main_advances hMove.mainStep_eq rfl rfl
        rw [hpc]
        simp only [MainPc.cleanupRank]
        omega
  | destroy =>
      have hMove := @MainMove.destroy p _ _ hpc rfl
      apply sweep_main_advances hMove.mainStep_eq rfl rfl
      rw [hpc]
      exact Nat.one_pos
  | returned => exact absurd hpc hNot

theorem failedSweep_returns (hk : k < p.active_requests)
    (hFails : p.createFails k ≠ none) (hRequests : p.active_requests < 2 ^ 32)
    (hBlocks : p.body.blocks < 2 ^ 64) (hs : (sweepMachine p).Reachable s) :
    ∃ s', (sweepMachine p).Reaches s s' ∧ s'.main = .returned := by
  refine Machine.finishes_of_rank (fun s =>
    s.main.cleanupRank p.active_requests k + threadsRank p s) ?_ hs
  intro s hs hNot
  obtain ⟨e, s', _, hStep, hLt⟩ :=
    failedSweep_advances hk hFails hRequests hBlocks hs hNot
  exact ⟨e, s', hStep, hLt⟩

/-! ## The buffers -/

/-- `free` is given heap memory only: either the buffers are from the heap or
none has been allocated before the failure. -/
def FreesHeap (p : Sweep) (k : Nat) : Prop :=
  p.maps_scratch = false ∨ p.copy_to_dst = false ∨
    (k = 0 ∧ p.createFails k = some .scratchAlloc)

theorem Sweep.allocatedTo_le {pc : MainPc} (hPlace : ∀ i, pc = .create i → i ≤ k) :
    p.allocatedTo k pc ≤ p.buffers k := by
  cases pc with
  | create i => exact Nat.le_trans (hPlace i rfl) (p.le_buffers k).1
  | _ => exact Nat.le_refl _

/-- Without a mapped buffer, what is allocated is from the heap. -/
theorem FreesHeap.allocated (h : FreesHeap p k) {pc : MainPc}
    (hPlace : ∀ i, pc = .create i → i ≤ k) (i : Nat) :
    p.allocated k pc i = .null ∨ p.allocated k pc i = .live := by
  have hNew : p.maps_scratch = false ∨ p.copy_to_dst = false →
      p.newBuffer = .null ∨ p.newBuffer = .live := by
    rintro (hHeap | hPlain)
    · unfold Sweep.newBuffer
      split
      · exact Or.inr (by simp [hHeap])
      · exact Or.inl rfl
    · exact Or.inl (by simp [Sweep.newBuffer, hPlain])
  unfold Sweep.allocated
  split
  · rename_i hi
    rcases h with hHeap | hPlain | ⟨rfl, hFirst⟩
    · exact hNew (Or.inl hHeap)
    · exact hNew (Or.inr hPlain)
    · -- The first creation fails before there is a buffer.
      have hNone : p.buffers 0 = 0 := if_neg (by simp [hFirst])
      have hBound := Sweep.allocatedTo_le (p := p) hPlace
      omega
  · exact Or.inl rfl

theorem CleanInv.create_le (h : CleanInv p k s) (i : Nat)
    (hpc : s.main = .create i) : i ≤ k := by
  have hPlace := h.place
  simp only [CleanPlace, hpc] at hPlace
  exact hPlace.1

/-- A started reader has its buffer. -/
theorem CleanInv.started_allocated (h : CleanInv p k s) {i : Nat}
    (hi : i < s.started) : i < p.allocatedTo k s.main := by
  have hPlace := h.place
  have hLe := h.started_le
  have hBuffers := p.le_buffers k
  unfold CleanPlace at hPlace
  cases hpc : s.main with
  | create n =>
      simp only [hpc] at hPlace
      show i < n
      omega
  | _ =>
      show i < p.buffers k
      omega

/-- The buffer of a started reader is freed after its join. -/
theorem CleanInv.freed_joined (h : CleanInv p k s) {i : Nat}
    (hi : i < s.started) (hFreed : i < s.main.freedTo p.active_requests) :
    i < s.main.joinedTo k := by
  have hLe := h.started_le
  have hAll : i < k := by omega
  cases hpc : s.main with
  | joinFree n =>
      rw [hpc] at hFreed
      exact hFreed
  | freeRest n => exact hAll
  | destroy => exact hAll
  | returned => exact hAll
  | create n => rw [hpc] at hFreed; exact absurd hFreed (Nat.not_lt_zero i)
  | opening n => rw [hpc] at hFreed; exact absurd hFreed (Nat.not_lt_zero i)
  | join n => rw [hpc] at hFreed; exact absurd hFreed (Nat.not_lt_zero i)
  | report => rw [hpc] at hFreed; exact absurd hFreed (Nat.not_lt_zero i)

/-- What has been allocated at some time is free at the return. -/
theorem CleanInv.freed_at_return {s' : SweepState} (h : CleanInv p k s)
    (hk : k < p.active_requests) (hHeap : FreesHeap p k)
    (h' : CleanInv p k s') (hpc : s'.main = .returned) {i : Nat}
    (hSome : s.scratch i ≠ .null) : s'.scratch i = .freed := by
  have hAllocated : p.allocated k s.main i ≠ .null := by
    intro hNull
    apply hSome
    rw [h.scratch i, hNull]
    split <;> rfl
  have hMine : i < p.allocatedTo k s.main := by
    by_contra hNone
    exact hAllocated (if_neg hNone)
  have hLe := @Sweep.allocatedTo_le p k s.main h.create_le
  have hBuffers := p.le_buffers k
  have hLast : i < p.allocatedTo k .returned := Nat.lt_of_lt_of_le hMine hLe
  have hSame : p.allocated k .returned i = p.allocated k s.main i := by
    unfold Sweep.allocated
    rw [if_pos hMine, if_pos hLast]
  have hLive : p.allocated k .returned i = .live := by
    rcases @FreesHeap.allocated p k hHeap .returned (by simp) i with
      hNull | hLive
    · exact absurd (hSame ▸ hNull) hAllocated
    · exact hLive
  have hAt := (h'.marks hpc).2.1 i
  rw [hLive] at hAt
  exact hAt.trans (if_pos (show i < p.active_requests by omega))

/-- A failed sweep cleans up completely, where `free` is given heap memory. -/
theorem failedSweep_cleansUp (hk : k < p.active_requests)
    (hFails : p.createFails k ≠ none) (hRequests : p.active_requests < 2 ^ 32)
    (hBlocks : p.body.blocks < 2 ^ 64) (hHeap : FreesHeap p k) :
    CleansUp p where
  notStuck := by
    intro s hs hNot
    obtain ⟨e, s', he, hStep, _⟩ :=
      failedSweep_advances hk hFails hRequests hBlocks hs hNot
    exact ⟨e, he, by rw [hStep]; rfl⟩
  finishes := fun s hs => failedSweep_returns hk hFails hRequests hBlocks hs
  fails := fun s hs hpc =>
    ((sweep_cleanInv hk hFails hs).marks hpc).2.2.2 fun _ => by simp
  passed := by
    intro s hs hpc i hi
    have hClean := sweep_cleanInv hk hFails hs
    have hLe := hClean.started_le
    exact sweep_finished_passed hs i
      ((hClean.marks hpc).2.2.1 i (show i < k by omega))
  joined := by
    intro s hs hpc i
    have hClean := sweep_cleanInv hk hFails hs
    have hPlace := hClean.place
    simp only [CleanPlace, hpc] at hPlace
    rw [(hClean.marks hpc).1 i, hPlace]
    rfl
  joinedOnce := by
    intro s hs i
    rw [(sweep_cleanInv hk hFails hs).joined i]
    split <;> omega
  freedLater := by
    intro s hs i hi hNot
    have hClean := sweep_cleanInv hk hFails hs
    have hKept : ¬ i < s.main.freedTo p.active_requests := by
      intro hFreed
      have hJoined := hClean.joined i
      rw [if_pos (hClean.freed_joined hi hFreed)] at hJoined
      omega
    rw [hClean.scratch i, if_neg hKept, Sweep.allocated,
      if_pos (hClean.started_allocated hi)]
  freed := by
    intro s s' hs hRun hpc i hSome
    exact (sweep_cleanInv hk hFails hs).freed_at_return hk hHeap
      (sweep_cleanInv hk hFails (hs.trans hRun)) hpc hSome
  freedOnce := by
    intro s hs i
    have hClean := sweep_cleanInv hk hFails hs
    rw [hClean.scratch i]
    rcases hHeap.allocated hClean.create_le i with hNull | hLive
    · rw [hNull]
      split <;> simp [Buffer.free]
    · rw [hLive]
      split <;> simp [Buffer.free]
  destroyed := by
    intro s hs hOn i hi
    have hClean := sweep_cleanInv hk hFails hs
    have hLe := hClean.started_le
    exact (hClean.marks (hClean.destroyed hOn)).2.2.1 i (show i < k by omega)

/-- The clean-up of a failed sweep is complete exactly where `free` is given
heap memory. -/
theorem failedSweep_cleansUp_iff (hk : k < p.active_requests)
    (hFails : p.createFails k ≠ none) (hRequests : p.active_requests < 2 ^ 32)
    (hBlocks : p.body.blocks < 2 ^ 64) : CleansUp p ↔ FreesHeap p k := by
  refine ⟨fun h => ?_, failedSweep_cleansUp hk hFails hRequests hBlocks⟩
  by_contra hNot
  unfold FreesHeap at hNot
  push Not at hNot
  obtain ⟨hMaps, hCopies, hLate⟩ := hNot
  -- Buffer 0 has been mapped, and every schedule ends with freeing it.
  obtain ⟨s, hRun, hpc⟩ := h.finishes _ Machine.Reachable.initial
  have hs : (sweepMachine p).Reachable s := hRun
  have hMapped : p.allocated k .returned 0 = .mapped := by
    have hFirst : 0 < p.allocatedTo k .returned := by
      show 0 < p.buffers k
      unfold Sweep.buffers
      split
      · omega
      · rename_i hKind
        apply Nat.pos_of_ne_zero
        intro hZero
        cases hCase : p.createFails k with
        | none => exact hFails hCase
        | some kind =>
            cases kind with
            | scratchAlloc => exact hLate hZero hCase
            | pthreadCreate => exact hKind hCase
    rw [Sweep.allocated, if_pos hFirst]
    simp [Sweep.newBuffer, hMaps, hCopies]
  have hAt := ((sweep_cleanInv hk hFails hs).marks hpc).2.1 0
  rw [hMapped] at hAt
  exact h.freedOnce s hs 0
    (hAt.trans (if_pos (show 0 < p.active_requests by omega)))

end Run

end MioBench.Sync
