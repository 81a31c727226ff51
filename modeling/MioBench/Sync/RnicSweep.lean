import MioBench.Sync.RnicProgress

/-!
# What the sweep through the RNIC thread guarantees, and where it hangs

Without a failing creation the request/response protocol is sound and every run
can be finished.  With one, the RNIC thread waits for readers that will never
exist, and the clean-up, which joins it, never returns.
-/

namespace MioBench.Sync

open MioBench.Lib MioBench.Store

namespace RnicSweep

/-- No creation fails. -/
def AllCreated (p : RnicSweep) : Prop :=
  p.rnicFails = false ∧ ∀ i, i < p.active_requests → p.createFails i = none

theorem AllCreated.crew_eq {p : RnicSweep} (h : p.AllCreated) :
    p.crew = p.active_requests := by
  have hCrew := p.crew_le
  by_contra hNe
  have hLt : p.crew < p.active_requests := by omega
  exact createFails_crew h.1 hLt (h.2 p.crew hLt)

end RnicSweep

/-- RNIC, readers and main are all done. -/
def RnicState.Finished (p : RnicSweep) (s : RnicState) : Prop :=
  s.rnic = .exited ∧
    (∀ i, i < p.active_requests → s.readers.pc i = .finished) ∧
    s.main = .returned

section Sweep

variable {p : RnicSweep} {s s' : RnicState} {i : Nat}

/-! ## The protocol -/

/-- A raised flag stands for one dequeued and stamped request. -/
theorem flag_served (hLimit : p.active_requests < 2 ^ 32)
    (hs : (rnicMachine p).Reachable s) (hUp : s.response_ready i = true) :
    s.mpsc.returned.count (.node i) = 1 ∧ s.stamped.count i = 1 ∧
      (s.rdma_req i).req_id = i ∧
      (s.rdma_req i).stime + 1000 ≤ (s.rdma_req i).expire_time := by
  have h := rnic_inv hLimit hs
  have hRequest := rnic_requestInv hs
  rcases (h.flag i).mp hUp with ⟨hReturned, hHand⟩
  have hOnce := returnedOnce ((rnic_projects_mpsc p).reachable hs) hRequest.nodup
  have hStamped : i ∈ s.stamped := by
    apply (h.stamped i).mpr
    refine ⟨hReturned, ?_⟩
    intro hpc
    rw [hpc] at hHand
    exact hHand rfl
  have hOrder := hRequest.order_of_returned hs hReturned
  exact ⟨List.count_eq_one_of_mem hOnce.nodup hReturned,
    List.count_eq_one_of_mem h.stampedOnce hStamped,
    (hRequest.record i (hRequest.begun hOrder)).2, h.expires i hStamped⟩

/-- A reader that is through the gate has seen everybody arrive, and everybody
arrives with the flag up. -/
theorem flags_of_passed (hLimit : p.active_requests < 2 ^ 32)
    (hs : (rnicMachine p).Reachable s)
    (hPassed : s.gate.waiter i = .returned) :
    ∀ j, j < p.crew → s.response_ready j = true := by
  intro j hj
  have hRequest := rnic_requestInv hs
  have hArrived := (rnic_gateInv hLimit hs).all_arrived hPassed j
    (by rw [RnicSweep.openCall_waiters]; exact hj)
  have hPhase := hRequest.gate j hArrived
  have hAt := hRequest.reader j
  simp only [ReaderAt, hPhase] at hAt
  exact hAt.2.2

/-- Only a step of a reader behind the gate moves the copy loops. -/
theorem copy_of_readers_moved {e : RnicEvent}
    (hStep : (rnicMachine p).next s e = some s')
    (hMoved : s'.readers ≠ s.readers) :
    ∃ i, s.gate.waiter i = .returned := by
  cases rnic_cases hStep with
  | main hMain => exact absurd (rnicMain_frame hMain).readers hMoved
  | rnic now hRnic => exact absurd (rnicStep_frame hRnic).readers hMoved
  | request i _ hMove =>
      exact absurd (requestMove_frame hMove).readers hMoved
  | gate gate _ _ hEq =>
      subst hEq
      exact absurd rfl hMoved
  | copy i readers _ _ hPassed _ _ => exact ⟨i, hPassed⟩

/-- Where main has returned from a sweep without a failure, everybody is
done. -/
theorem finished_of_returned (hCreated : p.AllCreated)
    (hs : (rnicMachine p).Reachable s) (hMain : s.main = .returned) :
    s.Finished p := by
  have hMainInv := rnic_mainInv hs
  have hCrew := hCreated.crew_eq
  simp only [RnicMainInv, hMain] at hMainInv
  cases hMainInv.1 with
  | complete _ _ _ _ hRnic hFinished _ => exact ⟨hRnic, hFinished, hMain⟩
  | failed _ hLt _ _ _ _ _ _ _ => omega
  | noRnic hFails _ _ _ _ _ => simp [hCreated.1] at hFails

theorem not_hanging (hCreated : p.AllCreated) : ¬ Hanging p s := by
  intro h
  have hLt := h.crew
  have hCrew := hCreated.crew_eq
  omega

/-- **The request/response protocol of one sweep**, for any number of readers
and any schedule.  A flag is up only if its request was dequeued exactly once
and stamped, and `done` counts the flags, but for the one between its store and
the increment; the copy loops move only when all flags are up; and until
everybody is done some thread that is not polling has a step, and the sweep can
be run to its end. -/
theorem rnicSweep_protocol (hCreated : p.AllCreated)
    (hRequests : 1 ≤ p.active_requests ∧ p.active_requests < 2 ^ 32)
    (hBlocks : p.body.blocks < 2 ^ 64) (hs : (rnicMachine p).Reachable s) :
    ((∀ i, s.response_ready i = true →
        s.mpsc.returned.count (.node i) = 1 ∧ s.stamped.count i = 1 ∧
        (s.rdma_req i).req_id = i ∧
        (s.rdma_req i).stime + 1000 ≤ (s.rdma_req i).expire_time) ∧
      s.flags p.active_requests = s.done + if s.rnic = .count then 1 else 0) ∧
    (∀ e s', (rnicMachine p).next s e = some s' → s'.readers ≠ s.readers →
      ∀ i, i < p.active_requests → s.response_ready i = true) ∧
    (¬ s.Finished p →
      (∃ th : RnicThread, ¬ (rnicMachine p).Polls th.Takes s ∧
        ∃ e s', th.Takes e ∧ (rnicMachine p).next s e = some s') ∧
      ∃ s', (rnicMachine p).Reaches s s' ∧ s'.Finished p) := by
  have hLimit := hRequests.2
  refine ⟨⟨fun i => flag_served hLimit hs, (rnic_inv hLimit hs).flags⟩, ?_, ?_⟩
  · intro e s' hStep hMoved i hi
    rcases copy_of_readers_moved hStep hMoved with ⟨j, hPassed⟩
    exact flags_of_passed hLimit hs hPassed i (by rw [hCreated.crew_eq]; exact hi)
  · intro hNot
    constructor
    · have hReturned : s.main ≠ .returned :=
        fun hMain => hNot (finished_of_returned hCreated hs hMain)
      rcases rnicSweep_advances hLimit hBlocks hs hReturned with hBad | hHelp
      · exact absurd hBad (not_hanging hCreated)
      · rcases hHelp with ⟨th, hPolls, e, s', hTakes, hNext, _⟩
        exact ⟨th, hPolls, e, s', hTakes, hNext⟩
    · rcases rnicSweep_ends hLimit hBlocks hs with ⟨s', hReach, hEnd⟩
      refine ⟨s', hReach, ?_⟩
      rcases hEnd with hMain | hBad
      · exact finished_of_returned hCreated (hs.trans hReach) hMain
      · exact absurd hBad (not_hanging hCreated)

/-- Two readers of one block each: the sweep can be run to its end, and there
both requests are counted. -/
theorem rnicSweep_protocol_two :
    let p : RnicSweep :=
      { active_requests := 2, copy_to_dst := true
        body :=
          { blocks := 1
            round := fun _ _ m => (m, { sum := 1, fail := false }) }
        req_bytes := 4096, lag := 0, rnicFails := false, failure := none
        scratch := fun _ _ => 0 }
    ∃ s, (rnicMachine p).Reachable s ∧ s.Finished p ∧
      s.flags 2 = s.done := by
  intro p
  have hCreated : p.AllCreated := ⟨rfl, fun _ _ => rfl⟩
  have h := fun s hs => @rnicSweep_protocol p s hCreated (by decide) (by decide) hs
  have hStart : ¬ (rnicMachine p).start.Finished p := by
    intro hBad
    cases hBad.1
  rcases ((h _ Machine.Reachable.initial).2.2 hStart).2 with ⟨s, hs, hFinished⟩
  refine ⟨s, hs, hFinished, ?_⟩
  have hFlags := (h s hs).1.2
  rw [hFinished.1] at hFlags
  exact hFlags

/-! ## What is reported -/

/-- Whatever main reports is the totals of all the readers' rounds. -/
theorem rnic_report_eq {result : Nat → Nat → BlockRead}
    (hYields : p.body.Yields p.active_requests result)
    (hBlocks : p.body.blocks < 2 ^ 64) (hs : (rnicMachine p).Reachable s)
    {t : Totals} (hReport : s.report = some t) :
    t = crewTotals p.active_requests p.body.blocks result := by
  refine hs.invariant (P := fun s => ∀ t, s.report = some t →
    t = crewTotals p.active_requests p.body.blocks result) ?_ ?_ t hReport
  · intro t ht
    cases ht
  · intro s e s' hs h hStep t ht
    have hMoves := rnic_cases hStep
    by_cases hMain : s.mainStep p = some s'
    · rcases (rnicMain_frame hMain).report with hSame | ⟨hpc, hTotals⟩
      · exact h t (hSame ▸ ht)
      · have hMainInv := rnic_mainInv hs
        simp only [RnicMainInv, hpc] at hMainInv
        have hReaders := readersMachine_inv hYields hBlocks
          ((rnic_projects_readers p).reachable hs)
        rw [hTotals] at ht
        rw [← Option.some.inj ht]
        exact hReaders.totals_eq hMainInv.2.2.2.2.2
    · exact h t ((hMoves.frame hMain).report ▸ ht)

/-- A sweep that creates everybody can be run to its report. -/
theorem rnic_reports (hCreated : p.AllCreated)
    (hLimit : p.active_requests < 2 ^ 32) (hBlocks : p.body.blocks < 2 ^ 64)
    (hs : (rnicMachine p).Reachable s) :
    ∃ s', (rnicMachine p).Reaches s s' ∧ s'.report.isSome := by
  rcases rnicSweep_ends hLimit hBlocks hs with ⟨s', hReach, hMain | hBad⟩
  · refine ⟨s', hReach, ?_⟩
    have hMainInv := rnic_mainInv (hs.trans hReach)
    have hCrew := hCreated.crew_eq
    simp only [RnicMainInv, hMain] at hMainInv
    cases hMainInv.1 with
    | complete _ _ _ _ _ _ hReport => exact hReport
    | failed _ hLt _ _ _ _ _ _ _ => omega
    | noRnic hFails _ _ _ _ _ => simp [hCreated.1] at hFails
  · exact absurd hBad (not_hanging hCreated)

/-! ## A failed creation -/

/-- Reader `k` could not be created: the `k` readers there are have finished,
nothing will be enqueued any more, and the RNIC still waits for requests. -/
def Stranded (p : RnicSweep) (k : Nat) (s : RnicState) : Prop :=
  (∀ i, i < k → s.readers.pc i = .finished) ∧
    (∀ s', (rnicMachine p).Reaches s s' → s'.mpsc.order = s.mpsc.order) ∧
    (s.rnic = .loop ∨ s.rnic = .dequeue) ∧ s.done < p.active_requests

/-- The RNIC counts at most the readers there are. -/
theorem done_le_crew (hLimit : p.active_requests < 2 ^ 32)
    (hs : (rnicMachine p).Reachable s) : s.done ≤ p.crew := by
  have hDone := (rnic_inv hLimit hs).done_le hs
  have hStarted := (rnic_mainInv hs).started_le
  omega

/-- So with a reader missing it never exits. -/
theorem rnic_ne_exited (hLimit : p.active_requests < 2 ^ 32)
    (hCrew : p.crew < p.active_requests) (hs : (rnicMachine p).Reachable s) :
    s.rnic ≠ .exited := by
  intro hpc
  have hOver := (rnic_inv hLimit hs).exited hpc
  have hDone := done_le_crew hLimit hs
  omega

/-- And main never returns. -/
theorem main_ne_returned (hLimit : p.active_requests < 2 ^ 32)
    (hFails : p.rnicFails = false) (hCrew : p.crew < p.active_requests)
    (hs : (rnicMachine p).Reachable s) : s.main ≠ .returned := by
  intro hMain
  have hMainInv := rnic_mainInv hs
  simp only [RnicMainInv, hMain] at hMainInv
  cases hMainInv.1 with
  | complete hAll _ _ _ _ _ _ => omega
  | failed _ _ _ _ _ hRunning _ _ _ =>
      exact rnic_ne_exited hLimit hCrew hs (hMainInv.2 hRunning)
  | noRnic hBad _ _ _ _ _ => simp [hFails] at hBad

/-- Main waits for the RNIC, and the readers there are have finished. -/
structure Deserted (p : RnicSweep) (s : RnicState) : Prop where
  main : s.main = .joinStarted
  crew : p.crew < p.active_requests
  started : s.started = p.crew
  finished : ∀ i, i < p.crew → s.readers.pc i = .finished

/-- Main is stuck there. -/
theorem Deserted.main_stuck (h : Deserted p s)
    (hLimit : p.active_requests < 2 ^ 32) (hFails : p.rnicFails = false)
    (hs : (rnicMachine p).Reachable s) : s.mainStep p ≠ some s' := by
  intro hBad
  have hMainInv := rnic_mainInv hs
  have hLive := rnic_ne_exited hLimit h.crew hs
  have hCrew := h.crew
  simp only [RnicMainInv, h.main] at hMainInv
  have hRunning : s.rnic_started = true := by
    cases hMainInv with
    | complete hAll _ _ _ _ _ _ => omega
    | failed _ _ _ _ _ hRunning _ _ _ => exact hRunning
    | noRnic hBad _ _ _ _ _ => simp [hFails] at hBad
  simp [RnicState.mainStep, h.main, hRunning, hLive] at hBad

/-- No step leads out, and none brings a new request. -/
theorem Deserted.next (h : Deserted p s)
    (hLimit : p.active_requests < 2 ^ 32) (hFails : p.rnicFails = false)
    (hs : (rnicMachine p).Reachable s) {e : RnicEvent}
    (hStep : (rnicMachine p).next s e = some s') :
    Deserted p s' ∧ s'.mpsc.order = s.mpsc.order := by
  have hMoves := rnic_cases hStep
  have hFrame := hMoves.frame (h.main_stuck hLimit hFails hs)
  refine ⟨⟨hFrame.main.trans h.main, h.crew, hFrame.started.trans h.started,
    fun i hi => hFrame.finished i (h.finished i hi)⟩, ?_⟩
  cases hMoves with
  | main hBad => exact absurd hBad (h.main_stuck hLimit hFails hs)
  | rnic now hRnic => exact (rnicStep_effect hRnic).order
  | request i hi hMove =>
      -- The readers there are have left their requests behind.
      have hFinished := h.finished i (by rw [← h.started]; exact hi)
      have hPhase := (flags_of_finished hs hFinished).1
      cases hMove with
      | prepare now hBad _ => simp [hPhase] at hBad
      | reset mpsc hBad _ _ => simp [hPhase] at hBad
      | exchange mpsc hBad _ _ => simp [hPhase] at hBad
      | link mpsc hBad _ _ => simp [hPhase] at hBad
      | poll hBad _ _ => simp [hPhase] at hBad
      | leave hBad _ _ => simp [hPhase] at hBad
  | gate gate _ _ hEq =>
      subst hEq
      rfl
  | copy i readers _ _ _ _ hEq =>
      subst hEq
      rfl

theorem stranded_of_hanging (hLimit : p.active_requests < 2 ^ 32)
    (hFails : p.rnicFails = false) (hs : (rnicMachine p).Reachable s)
    (hHang : Hanging p s) : Stranded p p.crew s := by
  have hDone := done_le_crew hLimit hs
  have hCrew := hHang.crew
  refine ⟨hHang.finished, ?_, hHang.rnic, by omega⟩
  intro s' hReach
  have hRun : (rnicMachine p).Reachable s' ∧ Deserted p s' ∧
      s'.mpsc.order = s.mpsc.order := by
    refine Machine.Reaches.invariant (P := fun t =>
      (rnicMachine p).Reachable t ∧ Deserted p t ∧
      t.mpsc.order = s.mpsc.order) ?_ hReach
      ⟨hs, ⟨hHang.main, hCrew, hHang.started, hHang.finished⟩, rfl⟩
    intro t e t' ht hNext
    have hClosed := ht.2.1.next hLimit hFails ht.1 hNext
    exact ⟨ht.1.next hNext, hClosed.1, hClosed.2.trans ht.2.2⟩
  exact hRun.2.2

/-- Every reachable state runs into the hang. -/
theorem reaches_stranded {k : Nat} (hFails : p.rnicFails = false)
    (hk : k < p.active_requests) (hFailure : p.createFails k ≠ none)
    (hLimit : p.active_requests < 2 ^ 32) (hBlocks : p.body.blocks < 2 ^ 64)
    (hs : (rnicMachine p).Reachable s) :
    ∃ s', (rnicMachine p).Reaches s s' ∧ Stranded p k s' := by
  have hCrew : p.crew = k := by
    rw [RnicSweep.crew_of_fails hFails hFailure, Nat.min_eq_left (Nat.le_of_lt hk)]
  rcases rnicSweep_ends hLimit hBlocks hs with ⟨s', hReach, hEnd⟩
  refine ⟨s', hReach, ?_⟩
  rcases hEnd with hBad | hHang
  · exact absurd hBad
      (main_ne_returned hLimit hFails (by omega) (hs.trans hReach))
  · rw [← hCrew]
    exact stranded_of_hanging hLimit hFails (hs.trans hReach) hHang

/-- **A failed creation hangs the clean-up**: whichever reader cannot be
created, for whatever reason and under whatever schedule, every reachable state
runs into one where the readers there are have finished, nothing more is
enqueued and the RNIC still waits; and `run_one_sweep` never returns. -/
theorem rnicSweep_failure_hangs (k : Nat) (hFails : p.rnicFails = false)
    (hk : k < p.active_requests) (hFailure : p.createFails k ≠ none)
    (hLimit : p.active_requests < 2 ^ 32) (hBlocks : p.body.blocks < 2 ^ 64) :
    (∀ s, (rnicMachine p).Reachable s →
      ∃ s', (rnicMachine p).Reaches s s' ∧ Stranded p k s') ∧
    ∀ s, (rnicMachine p).Reachable s → s.main ≠ .returned := by
  have hCrew : p.crew = k := by
    rw [RnicSweep.crew_of_fails hFails hFailure, Nat.min_eq_left (Nat.le_of_lt hk)]
  exact ⟨fun s hs => reaches_stranded hFails hk hFailure hLimit hBlocks hs,
    fun s hs => main_ne_returned hLimit hFails (by omega) hs⟩

end Sweep

/-- Two readers, the second of which has no thread. -/
def secondReaderFails : RnicSweep where
  active_requests := 2
  copy_to_dst := true
  body :=
    { blocks := 1
      round := fun _ _ m => (m, { sum := 1, fail := false }) }
  req_bytes := 4096
  lag := 0
  rnicFails := false
  failure := some (1, .pthreadCreate)
  scratch := fun _ _ => 0

theorem rnicSweep_failure_hangs_second :
    ∃ s, (rnicMachine secondReaderFails).Reachable s ∧
      Stranded secondReaderFails 1 s ∧ s.main ≠ .returned := by
  have h := @rnicSweep_failure_hangs secondReaderFails 1 rfl (by decide)
    (by decide) (by decide) (by decide)
  rcases h.1 _ Machine.Reachable.initial with ⟨s, hs, hStranded⟩
  exact ⟨s, hs, hStranded, h.2 s hs⟩

/-- The clean-up does not always complete. -/
theorem rnicSweep_failure_not_safe :
    ¬ ∀ s, (rnicMachine secondReaderFails).Reachable s →
      ¬ Stranded secondReaderFails 1 s := by
  intro hSafe
  rcases @reaches_stranded secondReaderFails _ 1 rfl (by decide) (by decide)
    (by decide) (by decide) Machine.Reachable.initial with ⟨s, hs, hStranded⟩
  exact hSafe s hs hStranded

end MioBench.Sync
