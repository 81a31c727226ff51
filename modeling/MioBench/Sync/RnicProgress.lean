import MioBench.Sync.RnicProtocol

/-!
# Progress of the sweep through the RNIC thread

As long as the sweep is neither over nor hanging in its clean-up, some thread
has a step that brings the whole closer to its end, and that thread is not
polling: running alone from here it never comes back here.  The RNIC thread
polls an empty queue, so for it the number of requests dequeued and counted
stands in for a rank.
-/

namespace MioBench.Sync

open MioBench.Lib MioBench.Store

/-- The threads of a sweep. -/
inductive RnicThread
  | main
  | reader (i : Nat)
  | rnic
  deriving DecidableEq, Repr

/-- The steps a thread takes by itself; spurious wake-ups are nobody's. -/
def RnicThread.Takes : RnicThread → RnicEvent → Prop
  | main, .main => True
  | reader i, .reader j _ => j = i
  | rnic, .rnic _ => True
  | _, _ => False

/-! ## Ranks -/

/-- Steps main still has to take. -/
def RnicMainPc.rank (n : Nat) : RnicMainPc → Nat
  | createRnic => 4 * n + 10
  | create i => (n - i) + 3 * n + 9
  | opening _ => 3 * n + 8
  | join i => (n - i) + 2 * n + 7
  | joinRnic => 2 * n + 6
  | report => 2 * n + 5
  | joinCreated i => (n - i) + n + 4
  | joinStarted => n + 3
  | freeArgs i => (n - i) + 2
  | destroy => 1
  | returned => 0

/-- Steps a thread at the gate takes before it sleeps or leaves. -/
def CvPc.ownSteps : CvPc → Nat
  | entry => 2
  | woken => 1
  | asleep => 0
  | returned => 0

namespace RnicState

/-- Steps of reader `i` on its way to the gate. -/
def requestRank (s : RnicState) (i : Nat) : Nat :=
  match s.phase i with
  | .begin => 5
  | .reset => 4
  | .enqueue =>
      match s.mpsc.producer i with
      | .exchange _ => 3
      | _ => 2
  | .spin => 1
  | .through => 0

/-- Steps of the RNIC thread before it counts the request it is after. -/
def pcRank (s : RnicState) : Nat :=
  match s.rnic with
  | .unborn => 21
  | .loop => 11
  | .dequeue => s.mpsc.dequeueRank
  | .calculate _ => 20
  | .hold _ => 19
  | .signal _ => 18
  | .count => 17
  | .exited => 0
  | .fault => 0

/-- What the RNIC thread has done: a count that only grows. -/
def served (s : RnicState) : Nat := s.mpsc.returned.length + s.done

/-- Everything left to do.  A step of a reader on its way to the gate may set
the RNIC back by a failed call, and a request served sets it back to the start
of the next one, so both weigh more than any `pcRank`. -/
def rank (p : RnicSweep) (s : RnicState) : Nat :=
  s.main.rank p.active_requests + s.gate.rank p.active_requests +
    21 * ∑ i ∈ Finset.range p.active_requests, s.requestRank i +
    ∑ i ∈ Finset.range p.active_requests, readerRank p.body s.readers i +
    21 * (2 * p.active_requests - s.served) + s.pcRank

end RnicState

/-- A thread has a step that lowers the rank, and it is not polling. -/
def Helpful (p : RnicSweep) (s : RnicState) : Prop :=
  ∃ th : RnicThread, ¬ (rnicMachine p).Polls th.Takes s ∧
    ∃ e s', th.Takes e ∧ (rnicMachine p).next s e = some s' ∧
      s'.rank p < s.rank p

section Rank

variable {p : RnicSweep} {s s' : RnicState} {i : Nat}

/-! ## Main -/

/-- What main still has to do by itself before it waits. -/
def mainOwnRank (p : RnicSweep) (s : RnicState) : Nat :=
  s.main.rank p.active_requests + s.gate.opener.ownSteps

theorem gateOpenLoop_ownSteps (g : GateState) :
    g.gateOpenLoop.opener.ownSteps = 0 := by
  unfold GateState.gateOpenLoop
  split <;> rfl

theorem openStep_ownSteps {call : OpenCall} {g g' : GateState}
    (hStep : g.openStep call = some g') :
    g'.opener.ownSteps < g.opener.ownSteps := by
  unfold GateState.openStep at hStep
  split at hStep
  · rename_i hpc
    obtain rfl := Option.some.inj hStep
    rw [gateOpenLoop_ownSteps, hpc]
    decide
  · rename_i hpc
    obtain rfl := Option.some.inj hStep
    rw [gateOpenLoop_ownSteps, hpc]
    decide
  · cases hStep
  · cases hStep

/-- Apart from opening the gate, every step of main takes it further. -/
theorem mainStep_rank (hMainInv : RnicMainInv p s)
    (hStep : s.mainStep p = some s') :
    (s'.gate = s.gate ∧
      s'.main.rank p.active_requests < s.main.rank p.active_requests) ∨
    (s'.main = s.main ∧ s'.gate.opener.ownSteps < s.gate.opener.ownSteps) := by
  have hCrew := p.crew_le
  have hMoves := rnicMain_cases hStep
  cases hMoves with
  | openGate failed gate _ _ hGate hEq =>
      exact hEq ▸ Or.inr ⟨rfl, openStep_ownSteps hGate⟩
  | noRnic hpc _ hEq =>
      left
      subst hEq
      simp only [hpc, RnicMainPc.rank, true_and]
      omega
  | createRnic hpc _ hEq =>
      left
      subst hEq
      simp only [hpc, RnicMainPc.rank, true_and]
      omega
  | createReader i hpc hi hEq =>
      left
      subst hEq
      -- The next reader or, for every failure, the opening.
      have hNext : (s.createReader p i).gate = s.gate ∧
          ((s.createReader p i).main = .create (i + 1) ∨
            (s.createReader p i).main = .opening true) := by
        simp only [RnicState.createReader]
        split <;> simp
      refine ⟨hNext.1, ?_⟩
      rcases hNext.2 with hMain | hMain
      · simp only [hMain, hpc, RnicMainPc.rank]
        omega
      · simp only [hMain, hpc, RnicMainPc.rank]
        omega
  | allCreated i hpc _ hEq =>
      left
      subst hEq
      simp only [hpc, RnicMainPc.rank, true_and]
      omega
  | opened failed hpc _ hEq =>
      left
      subst hEq
      refine ⟨rfl, ?_⟩
      cases failed with
      | false =>
          simp only [hpc, RnicMainPc.rank, Bool.false_eq_true, if_false]
          omega
      | true =>
          simp only [hpc, RnicMainPc.rank, if_true]
          omega
  | join i hpc hi _ hEq =>
      left
      subst hEq
      simp only [RnicMainInv, hpc] at hMainInv
      simp only [hpc, RnicMainPc.rank, true_and]
      omega
  | allJoined i hpc _ hEq =>
      left
      subst hEq
      simp only [hpc, RnicMainPc.rank, true_and]
      omega
  | joinRnic hpc _ hEq =>
      left
      subst hEq
      simp only [hpc, RnicMainPc.rank, true_and]
      omega
  | report hpc hEq =>
      left
      subst hEq
      simp only [hpc, RnicMainPc.rank, true_and]
      omega
  | joinCreated i hpc hi _ hEq =>
      left
      subst hEq
      simp only [RnicMainInv, hpc] at hMainInv
      have hCreated := hMainInv.created_le
      simp only [hpc, RnicMainPc.rank, true_and]
      omega
  | createdJoined i hpc _ hEq =>
      left
      subst hEq
      simp only [hpc, RnicMainPc.rank, true_and]
      omega
  | joinStarted hpc _ hEq =>
      left
      subst hEq
      simp only [hpc, RnicMainPc.rank, true_and]
      omega
  | freeArgs i hpc hi hEq =>
      left
      subst hEq
      simp only [hpc, RnicMainPc.rank, true_and]
      omega
  | allFreed i hpc _ hEq =>
      left
      subst hEq
      simp only [hpc, RnicMainPc.rank, true_and]
      omega
  | destroy hpc hEq =>
      left
      subst hEq
      simp only [hpc, RnicMainPc.rank, true_and]
      omega

/-- Main never polls. -/
theorem main_not_polls (hs : (rnicMachine p).Reachable s) :
    ¬ (rnicMachine p).Polls RnicThread.main.Takes s := by
  have hStep : ∀ t t', (rnicMachine p).Reachable t →
      (rnicMachine p).Solo RnicThread.main.Takes t t' →
      mainOwnRank p t' < mainOwnRank p t := by
    intro t t' ht hSolo
    rcases hSolo with ⟨e, hTakes, hNext⟩
    cases e with
    | main =>
        unfold mainOwnRank
        rcases mainStep_rank (rnic_mainInv ht) hNext with
          ⟨hGate, hLt⟩ | ⟨hMain, hLt⟩
        · rw [hGate]
          omega
        · rw [hMain]
          omega
    | reader i now => exact hTakes.elim
    | rnic now => exact hTakes.elim
    | wakeReader i => exact hTakes.elim
    | wakeMain => exact hTakes.elim
  exact Machine.not_polls_of_rank (mainOwnRank p) hs
    (fun t t' ht hSolo => Nat.le_of_lt (hStep t t' ht hSolo))
    (fun t hSolo => hStep s t hs hSolo)

/-- A step of main that reaches neither the gate nor the readers is helpful. -/
theorem main_helpful (hs : (rnicMachine p).Reachable s)
    (hStep : s.mainStep p = some s')
    (hNotOpening : ∀ failed, s.main = .opening failed →
      s.gate.opener = .returned) : Helpful p s := by
  refine ⟨.main, main_not_polls hs, .main, s', trivial, hStep, ?_⟩
  have hFrame := rnicMain_frame hStep
  have hRank : s'.gate = s.gate ∧
      s'.main.rank p.active_requests < s.main.rank p.active_requests := by
    rcases mainStep_rank (rnic_mainInv hs) hStep with hFar | ⟨_, hLt⟩
    · exact hFar
    · rcases hFrame.gate with hSame | ⟨failed, hpc, hOpen⟩
      · rw [hSame] at hLt
        exact absurd hLt (Nat.lt_irrefl _)
      · simp [GateState.openStep, hNotOpening failed hpc] at hOpen
  have hPc : s'.pcRank ≤ s.pcRank := by
    unfold RnicState.pcRank
    rw [hFrame.mpsc]
    rcases hFrame.rnic with hSame | ⟨hpc, hLoop⟩
    · rw [hSame]
    · have hMainInv := rnic_mainInv hs
      simp only [RnicMainInv, hpc] at hMainInv
      rw [hLoop, hMainInv.2.2.2.1]
      show 11 ≤ 21
      decide
  have hRequest : ∀ i, s'.requestRank i = s.requestRank i := by
    intro i
    simp only [RnicState.requestRank, hFrame.phase, hFrame.mpsc]
  unfold RnicState.rank RnicState.served
  rw [hRank.1, hFrame.readers, hFrame.mpsc, hFrame.done]
  simp only [hRequest]
  omega

/-! ## Readers -/

/-- What reader `i` still has to do by itself before it waits. -/
def readerOwnRank (p : RnicSweep) (s : RnicState) (i : Nat) : Nat :=
  s.requestRank i + (s.gate.waiter i).ownSteps + readerRank p.body s.readers i

/-- A step that leaves the RNIC thread and its call where they are. -/
theorem pcRank_consumer (hRnic : s'.rnic = s.rnic)
    (hConsumer : s'.mpsc.consumer = s.mpsc.consumer) :
    s'.pcRank ≤ s.pcRank + 6 := by
  have hRank := MpscState.dequeueRank_consumer hConsumer
  unfold RnicState.pcRank
  rw [hRnic]
  cases s.rnic with
  | dequeue => exact hRank
  | _ => exact Nat.le_add_right _ _

/-- Reader `i` has come closer to the gate: nobody else has moved, and the RNIC
is at most one failed call further from its next request. -/
structure Nearer (s s' : RnicState) (i : Nat) : Prop where
  other : ∀ j, j ≠ i → s'.requestRank j = s.requestRank j
  own : s'.requestRank i < s.requestRank i
  returned : s'.mpsc.returned = s.mpsc.returned
  rnic : s'.pcRank ≤ s.pcRank + 6

/-- A step of reader `i` on its way to the gate brings it closer, apart from the
poll of a flag that is down. -/
theorem request_ranks (hAt : ReaderAt s i) (hMove : RequestMove s s' i) :
    (s' = s ∧ s.phase i = .spin ∧ s.response_ready i = false) ∨
      Nearer s s' i := by
  have hStep := hMove.step hAt
  have hOthers := hStep.others
  have hOther : ∀ j, j ≠ i → s'.requestRank j = s.requestRank j := by
    intro j hj
    simp only [RnicState.requestRank, hOthers.phase j hj, hOthers.producer j hj]
  cases hStep with
  | prepare now hPhase _ _ _ hEq =>
      right
      subst hEq
      refine ⟨hOther, ?_, rfl, Nat.le_add_right _ _⟩
      simp [RnicState.requestRank, RnicState.prepare, RnicState.setPhase, hPhase]
  | reset hPhase _ hEq =>
      right
      subst hEq
      refine ⟨hOther, ?_, rfl, Nat.le_add_right _ _⟩
      simp [RnicState.requestRank, RnicState.setPhase, hPhase]
  | exchange hPhase hProducer _ hEq =>
      right
      subst hEq
      refine ⟨hOther, ?_, rfl, pcRank_consumer rfl rfl⟩
      simp [RnicState.requestRank, hPhase, hProducer]
  | link prev hPhase hProducer _ hEq =>
      right
      subst hEq
      refine ⟨hOther, ?_, rfl, Nat.le_add_right _ _⟩
      simp [RnicState.requestRank, RnicState.setPhase, hPhase, hProducer]
  | poll hPhase hFlag hEq => exact Or.inl ⟨hEq, hPhase, hFlag⟩
  | leave hPhase _ _ _ hEq =>
      right
      subst hEq
      refine ⟨hOther, ?_, rfl, Nat.le_add_right _ _⟩
      simp [RnicState.requestRank, RnicState.setPhase, hPhase]

/-- A waiter's own section at the gate brings it to sleep or out. -/
theorem gateWait_ownSteps {g g' : GateState} (hStep : g.gateWait i = some g') :
    (g'.waiter i).ownSteps < (g.waiter i).ownSteps := by
  have hLoop : ∀ t : GateState, ((t.gateWaitLoop i).waiter i).ownSteps = 0 := by
    intro t
    unfold GateState.gateWaitLoop
    split <;> simp [GateState.setWaiter, CvPc.ownSteps]
  unfold GateState.gateWait at hStep
  split at hStep
  · rename_i hpc
    obtain rfl := Option.some.inj hStep
    rw [hLoop, hpc]
    decide
  · rename_i hpc
    obtain rfl := Option.some.inj hStep
    rw [hLoop, hpc]
    decide
  · cases hStep
  · cases hStep

/-- Every step of a reader takes it further, apart from the poll of a flag that
is down. -/
theorem readerStep_ownRank {now : ℚ} (hBlocks : p.body.blocks < 2 ^ 64)
    (hAt : ReaderAt s i) (hStep : s.readerStep p i now = some s') :
    (s' = s ∧ s.phase i = .spin ∧ s.response_ready i = false) ∨
      readerOwnRank p s' i < readerOwnRank p s i := by
  cases readerStep_cases hStep with
  | request hMove =>
      rcases request_ranks hAt hMove with hPoll | hNearer
      · exact Or.inl hPoll
      · right
        have hFrame := requestMove_frame hMove
        have hOwn := hNearer.own
        unfold readerOwnRank
        rw [hFrame.gate, hFrame.readers]
        omega
  | wait gate _ hGate hEq =>
      right
      subst hEq
      have hRank := gateWait_ownSteps hGate
      show s.requestRank i + (gate.waiter i).ownSteps +
          readerRank p.body s.readers i <
        s.requestRank i + (s.gate.waiter i).ownSteps +
          readerRank p.body s.readers i
      omega
  | copy readers _ _ hReader hEq =>
      right
      subst hEq
      have hRank := readerStep_rank hBlocks hReader
      show s.requestRank i + (s.gate.waiter i).ownSteps +
          readerRank p.body readers i <
        s.requestRank i + (s.gate.waiter i).ownSteps +
          readerRank p.body s.readers i
      omega

/-- A reader polls at most its own flag, while that is down. -/
theorem reader_not_polls (hs : (rnicMachine p).Reachable s)
    (hBlocks : p.body.blocks < 2 ^ 64)
    (hActive : s.phase i = .spin → s.response_ready i = true) :
    ¬ (rnicMachine p).Polls (RnicThread.reader i).Takes s := by
  have hStep : ∀ t t', (rnicMachine p).Reachable t →
      (rnicMachine p).Solo (RnicThread.reader i).Takes t t' →
      (t' = t ∧ t.phase i = .spin ∧ t.response_ready i = false) ∨
        readerOwnRank p t' i < readerOwnRank p t i := by
    intro t t' ht hSolo
    rcases hSolo with ⟨e, hTakes, hNext⟩
    cases e with
    | main => exact hTakes.elim
    | reader j now =>
        obtain rfl : j = i := hTakes
        simp only [rnicMachine] at hNext
        split at hNext
        · exact readerStep_ownRank hBlocks ((rnic_requestInv ht).reader j) hNext
        · cases hNext
    | rnic now => exact hTakes.elim
    | wakeReader j => exact hTakes.elim
    | wakeMain => exact hTakes.elim
  refine Machine.not_polls_of_rank (fun t => readerOwnRank p t i) hs ?_ ?_
  · intro t t' ht hSolo
    rcases hStep t t' ht hSolo with ⟨hSame, _⟩ | hLt
    · rw [hSame]
    · exact Nat.le_of_lt hLt
  · intro t hSolo
    rcases hStep s t hs hSolo with ⟨_, hSpin, hDown⟩ | hLt
    · rw [hActive hSpin] at hDown
      cases hDown
    · exact hLt

/-- A reader on its way to the gate that is not kept waiting is helpful. -/
theorem request_helpful (hs : (rnicMachine p).Reachable s)
    (hBlocks : p.body.blocks < 2 ^ 64) (hi : i < s.started)
    (hActive : s.phase i = .spin → s.response_ready i = true)
    (hNot : s.phase i ≠ .through) : Helpful p s := by
  have hAt := (rnic_requestInv hs).reader i
  have hStarted := (rnic_mainInv hs).started_le
  have hCrew := p.crew_le
  -- Wherever the reader stands, its next step is enabled and moves it on.
  have hStep : ∃ s', s.readerStep p i 0 = some s' := by
    unfold RnicState.readerStep
    cases hPhase : s.phase i with
    | begin => exact ⟨_, rfl⟩
    | reset =>
        simp only [ReaderAt, hPhase] at hAt
        simp [MpscState.enqueueReset, hAt.1]
    | enqueue =>
        simp only [ReaderAt, hPhase] at hAt
        rcases hAt with ⟨hProducer, _⟩ | ⟨prev, hProducer, _⟩
        · simp [hProducer, MpscState.enqueueExchange]
        · simp [hProducer, MpscState.enqueueLink]
    | spin => exact ⟨_, rfl⟩
    | through => exact absurd hPhase hNot
  rcases hStep with ⟨s', hStep⟩
  refine ⟨.reader i, reader_not_polls hs hBlocks hActive, .reader i 0, s', rfl,
    (if_pos hi).trans hStep, ?_⟩
  cases readerStep_cases hStep with
  | request hMove =>
      rcases request_ranks hAt hMove with ⟨_, hSpin, hDown⟩ | hNearer
      · rw [hActive hSpin] at hDown
        cases hDown
      · have hFrame := requestMove_frame hMove
        have hOwn := hNearer.own
        have hPc := hNearer.rnic
        have hSum := sum_range_change (n := p.active_requests) (i := i)
          (f := s.requestRank) (g := s'.requestRank) (by omega) hNearer.other
        unfold RnicState.rank RnicState.served
        rw [hFrame.main, hFrame.gate, hFrame.readers, hFrame.done,
          hNearer.returned]
        omega
  | wait gate hPhase _ _ => exact absurd hPhase hNot
  | copy readers hPhase _ _ _ => exact absurd hPhase hNot

/-- A reader at the gate that arrives, or leaves an open gate, is helpful. -/
theorem wait_helpful (hs : (rnicMachine p).Reachable s)
    (hBlocks : p.body.blocks < 2 ^ 64) (hi : i < s.started)
    (hPhase : s.phase i = .through)
    (hUseful : s.gate.waiter i = .entry ∨
      (s.gate.waiter i = .woken ∧ s.gate.gate.isOpen = true)) :
    Helpful p s := by
  have hStarted := (rnic_mainInv hs).started_le
  have hCrew := p.crew_le
  rcases gateWait_rank (n := p.active_requests) (by omega) hUseful with
    ⟨gate, hGate, hLt⟩
  have hNot : s.gate.waiter i ≠ .returned := by
    rcases hUseful with hEntry | ⟨hWoken, _⟩
    · simp [hEntry]
    · simp [hWoken]
  have hStep : s.readerStep p i 0 = some { s with gate := gate } := by
    simp [RnicState.readerStep, hPhase, hNot, hGate]
  refine ⟨.reader i, reader_not_polls hs hBlocks (by simp [hPhase]),
    .reader i 0, { s with gate := gate }, rfl, (if_pos hi).trans hStep, ?_⟩
  unfold RnicState.rank
  show _ + gate.rank p.active_requests + _ + _ + _ + _ < _
  have hRequest : ∀ j, RnicState.requestRank { s with gate := gate } j =
      s.requestRank j := fun _ => rfl
  simp only [hRequest, RnicState.served, RnicState.pcRank]
  omega

/-- A reader behind the gate that has not finished is helpful. -/
theorem copy_helpful (hs : (rnicMachine p).Reachable s)
    (hBlocks : p.body.blocks < 2 ^ 64) (hi : i < s.started)
    (hPhase : s.phase i = .through) (hPassed : s.gate.waiter i = .returned)
    (hReader : s.readers.pc i ≠ .finished) : Helpful p s := by
  have hStarted := (rnic_mainInv hs).started_le
  have hCrew := p.crew_le
  rcases @readerStep_isSome p.body _ _ hReader with ⟨readers, hCopy⟩
  have hStep : s.readerStep p i 0 = some { s with readers := readers } := by
    simp [RnicState.readerStep, hPhase, hPassed, hCopy]
  refine ⟨.reader i, reader_not_polls hs hBlocks (by simp [hPhase]),
    .reader i 0, { s with readers := readers }, rfl,
    (if_pos hi).trans hStep, ?_⟩
  have hOwn := readerStep_rank hBlocks hCopy
  have hSum := sum_range_change (n := p.active_requests) (i := i)
    (f := fun j => readerRank p.body s.readers j)
    (g := fun j => readerRank p.body readers j) (by omega)
    (by
      intro j hj
      have hSame := readerStep_other hCopy hj
      simp only [readerRank, hSame.1, hSame.2])
  have hRequest : ∀ j, RnicState.requestRank { s with readers := readers } j =
      s.requestRank j := fun _ => rfl
  unfold RnicState.rank
  simp only [hRequest, RnicState.served, RnicState.pcRank]
  omega

/-! ## The RNIC thread -/

/-- The RNIC thread is not polling in vain: it has a request, or there is one
it will find, or it is done. -/
def Serving (p : RnicSweep) (s : RnicState) : Prop :=
  0 < s.rnic.pending ∨ ¬ s.mpsc.Excused ∨ p.active_requests ≤ s.done

/-- One operation of `mpsc_dequeue` with something to find serves a request or
brings the RNIC closer to it. -/
theorem rnicDequeue_advances (hs : (rnicMachine p).Reachable s)
    (hpc : s.rnic = .dequeue)
    (hNot : ¬ s.mpsc.Excused) :
    s.served < s.rnicDequeue.served ∨
    (s.rnicDequeue.served = s.served ∧ ¬ s.rnicDequeue.mpsc.Excused ∧
      s.rnicDequeue.pcRank < s.pcRank) := by
  rcases mpscMachine_chainInv ((rnic_projects_mpsc p).reachable hs) with
    ⟨chain, hChain⟩
  have hRank : s.pcRank = s.mpsc.dequeueRank := by
    simp [RnicState.pcRank, hpc]
  rw [rnicDequeue_eq hpc, hRank]
  rcases s.mpsc.dequeueStep_cases with ⟨head, next, _, hStep⟩ |
    ⟨hPop, hReturned, _, _⟩
  · left
    show s.mpsc.returned.length + s.done <
      s.mpsc.dequeueStep.returned.length + s.done
    rw [hStep]
    simp only [MpscState.returnHead, List.length_append, List.length_singleton]
    omega
  · right
    have hSame : s.mpsc.dequeueStep.Excused ↔ s.mpsc.Excused := by
      unfold MpscState.Excused MpscState.undelivered MpscState.MidInsert
      rw [hReturned, dequeueStep_order, MpscState.dequeueStep_producer]
    refine ⟨?_, fun hEx => hNot (hSame.mp hEx), ?_⟩
    · show s.mpsc.dequeueStep.returned.length + s.done = s.served
      rw [hReturned]
      rfl
    · rcases hChain.dequeue_advances hNot with ⟨head, next, hBad⟩ |
        ⟨hBusy, hLt⟩ | ⟨hStale, hNull⟩
      · exact absurd hBad (hPop head next)
      · rw [if_neg hBusy]
        exact hLt
      · have hReceived : RnicState.received
            { s with mpsc := s.mpsc.returnNull } = .loop := by
          simp [RnicState.received, MpscState.returnNull]
        have hIdle : s.mpsc.returnNull.consumer = .idle := rfl
        rw [hNull, if_pos hIdle, hReceived, hStale]
        show 11 < 12
        decide

theorem rnicDequeue_served (hpc : s.rnic = .dequeue) :
    s.served ≤ s.rnicDequeue.served := by
  rw [rnicDequeue_eq hpc]
  show s.mpsc.returned.length + s.done ≤
    s.mpsc.dequeueStep.returned.length + s.done
  rcases s.mpsc.dequeueStep_cases with ⟨head, next, _, hPop⟩ |
    ⟨_, hSame, _, _⟩
  · rw [hPop]
    simp [MpscState.returnHead]
  · rw [hSame]

/-- The number of requests served never falls, and a step that leaves it alone
while the RNIC is serving brings it closer to the next one. -/
theorem rnicStep_served {now : ℚ} (hLimit : p.active_requests < 2 ^ 32)
    (hs : (rnicMachine p).Reachable s) (hStep : s.rnicStep p now = some s') :
    s.served ≤ s'.served ∧
    (Serving p s → s'.served = s.served →
      Serving p s' ∧ s'.pcRank < s.pcRank) := by
  have h := rnic_inv hLimit hs
  cases rnicThread_cases hStep with
  | again hpc hMore hEq =>
      subst hEq
      refine ⟨Nat.le_refl _, ?_⟩
      intro hServing _
      simp only [Serving, hpc, RnicPc.pending, Nat.lt_irrefl, false_or]
        at hServing
      have hIdle := h.call (by simp [hpc])
      have hFind : ¬ s.mpsc.Excused := by
        rcases hServing with hFind | hEnough
        · exact hFind
        · omega
      refine ⟨Or.inr (Or.inl hFind), ?_⟩
      simp only [RnicState.pcRank, hpc, MpscState.dequeueRank, hIdle]
      decide
  | exit hpc hEnough hEq =>
      subst hEq
      refine ⟨Nat.le_refl _, fun _ _ => ⟨Or.inr (Or.inr hEnough), ?_⟩⟩
      simp [RnicState.pcRank, hpc]
  | dequeue rnic hpc hRnic hEq =>
      rw [hEq, hRnic, ← rnicDequeue_eq hpc]
      refine ⟨rnicDequeue_served hpc, ?_⟩
      intro hServing hSame
      have hBusy := h.busy hpc
      have hFind : ¬ s.mpsc.Excused := by
        rcases hServing with hPending | hFind | hEnough
        · simp [hpc, RnicPc.pending] at hPending
        · exact hFind
        · omega
      rcases rnicDequeue_advances hs hpc hFind with hLt | ⟨_, hKeep, hLt⟩
      · omega
      · exact ⟨Or.inr (Or.inl hKeep), hLt⟩
  | calculate req hpc hEq =>
      subst hEq
      refine ⟨Nat.le_refl _, fun _ _ => ⟨Or.inl Nat.zero_lt_one, ?_⟩⟩
      simp [RnicState.pcRank, RnicState.rnicCalculate, hpc]
  | hold req hpc hEq =>
      subst hEq
      refine ⟨Nat.le_refl _, fun _ _ => ⟨Or.inl Nat.zero_lt_one, ?_⟩⟩
      simp [RnicState.pcRank, hpc]
  | signal req hpc hEq =>
      subst hEq
      refine ⟨Nat.le_refl _, fun _ _ => ⟨Or.inl Nat.zero_lt_one, ?_⟩⟩
      simp [RnicState.pcRank, hpc]
  | count hpc hEq =>
      have hDone := h.done_le hs
      have hStarted := (rnic_mainInv hs).started_le
      have hCrew := p.crew_le
      simp only [hpc, RnicPc.pending] at hDone
      have hServed : s'.served = s.served + 1 := by
        rw [hEq]
        show s.mpsc.returned.length + (s.done + 1) % 2 ^ 32 = s.served + 1
        rw [Nat.mod_eq_of_lt (by omega), RnicState.served]
        omega
      exact ⟨by omega, fun _ hSame => by omega⟩

/-- A serving RNIC thread is not polling. -/
theorem rnic_not_polls (hLimit : p.active_requests < 2 ^ 32)
    (hs : (rnicMachine p).Reachable s) (hServing : Serving p s) :
    ¬ (rnicMachine p).Polls RnicThread.rnic.Takes s := by
  have hStep : ∀ t t', (rnicMachine p).Solo RnicThread.rnic.Takes t t' →
      ∃ now, t.rnicStep p now = some t' := by
    intro t t' hSolo
    rcases hSolo with ⟨e, hTakes, hNext⟩
    cases e with
    | main => exact hTakes.elim
    | reader j now => exact hTakes.elim
    | rnic now => exact ⟨now, hNext⟩
    | wakeReader j => exact hTakes.elim
    | wakeMain => exact hTakes.elim
  refine Machine.not_polls_of_counter RnicState.served RnicState.pcRank hs
    hServing ?_ ?_
  · intro t t' ht hSolo
    rcases hStep t t' hSolo with ⟨now, hNext⟩
    exact (rnicStep_served hLimit ht hNext).1
  · intro t t' ht hGood hSolo hSame
    rcases hStep t t' hSolo with ⟨now, hNext⟩
    exact (rnicStep_served hLimit ht hNext).2 hGood hSame

theorem pcRank_le (hBorn : s.rnic ≠ .unborn) : s.pcRank ≤ 20 := by
  have hRank := s.mpsc.dequeueRank_le
  unfold RnicState.pcRank
  cases hpc : s.rnic with
  | unborn => exact absurd hpc hBorn
  | dequeue => exact Nat.le_trans hRank (by decide)
  | _ => simp

/-- A serving RNIC thread that has not exited is helpful. -/
theorem rnic_helpful (hLimit : p.active_requests < 2 ^ 32)
    (hs : (rnicMachine p).Reachable s) (hServing : Serving p s)
    (hBorn : s.rnic ≠ .unborn) (hLive : s.rnic ≠ .exited) : Helpful p s := by
  have h := rnic_inv hLimit hs
  have hStep : ∃ now s', s.rnicStep p now = some s' := by
    unfold RnicState.rnicStep
    cases hpc : s.rnic with
    | unborn => exact absurd hpc hBorn
    | loop => exact ⟨0, _, rfl⟩
    | dequeue => exact ⟨0, _, rfl⟩
    | calculate req => exact ⟨0, _, rfl⟩
    | hold req => exact ⟨(s.rdma_req req).expire_time, by simp⟩
    | signal req => exact ⟨0, _, rfl⟩
    | count => exact ⟨0, _, rfl⟩
    | exited => exact absurd hpc hLive
    | fault => exact absurd hpc h.fault
  rcases hStep with ⟨now, s', hStep⟩
  refine ⟨.rnic, rnic_not_polls hLimit hs hServing, .rnic now, s', trivial,
    hStep, ?_⟩
  have hs' : (rnicMachine p).Reachable s' := hs.next (e := RnicEvent.rnic now) hStep
  have hFrame := rnicStep_frame hStep
  have hServed := rnicStep_served hLimit hs hStep
  have hRequest : ∀ i, s'.requestRank i = s.requestRank i := by
    intro i
    simp only [RnicState.requestRank, hFrame.phase,
      (rnicStep_effect hStep).producer i]
  -- No more than all requests are ever served.
  have hBound : s'.served ≤ 2 * p.active_requests := by
    have hInv := rnic_inv hLimit hs'
    have hCounted := hInv.counted
    have hDone := hInv.done_le hs'
    have hStarted := (rnic_mainInv hs').started_le
    have hCrew := p.crew_le
    unfold RnicState.served
    omega
  have hPc' := pcRank_le hFrame.born
  unfold RnicState.rank
  rw [hFrame.main, hFrame.gate, hFrame.readers]
  simp only [hRequest]
  by_cases hSame : s'.served = s.served
  · have hLt := (hServed.2 hServing hSame).2
    omega
  · have hGrow := hServed.1
    omega

/-! ## Somebody is always helpful -/

/-- While the flag of a reader is down, somebody is bringing it up. -/
theorem flag_helpful (hLimit : p.active_requests < 2 ^ 32)
    (hBlocks : p.body.blocks < 2 ^ 64) (hs : (rnicMachine p).Reachable s)
    (hi : i < s.started) (hBorn : s.rnic ≠ .unborn)
    (hDown : s.response_ready i = false) : Helpful p s := by
  have h := rnic_inv hLimit hs
  have hRequest := rnic_requestInv hs
  have hAt := hRequest.reader i
  have hStarted := (rnic_mainInv hs).started_le
  have hCrew := p.crew_le
  by_cases hSpin : s.phase i = .spin
  · simp only [ReaderAt, hSpin] at hAt
    -- The request is in the queue or in the RNIC's hands.
    by_cases hPending : 0 < s.rnic.pending
    · exact rnic_helpful hLimit hs (Or.inl hPending) hBorn
        (fun hpc => by simp [hpc, RnicPc.pending] at hPending)
    · have hHand : s.rnic.hand = none := by
        cases hpc : s.rnic <;> simp_all [RnicPc.pending, RnicPc.hand]
      have hNotCount : s.rnic ≠ .count := by
        intro hpc
        simp [hpc, RnicPc.pending] at hPending
      have hIn : .node i ∉ s.mpsc.returned := by
        intro hBad
        have hUp := (h.flag i).mpr ⟨hBad, by simp [hHand]⟩
        rw [hDown] at hUp
        cases hUp
      have hLive : s.rnic ≠ .exited := by
        intro hpc
        have hAll : tally p.active_requests s.response_ready =
            p.active_requests := by
          have hFlags := h.flags
          have hOver := h.exited hpc
          have hLe := tally_le p.active_requests s.response_ready
          rw [if_neg hNotCount] at hFlags
          unfold RnicState.flags at hFlags
          omega
        have hUp := all_of_tally_eq hAll i (by omega)
        rw [hDown] at hUp
        cases hUp
      by_cases hMid : s.mpsc.MidInsert
      · rcases hMid with ⟨j, node, prev, hLink⟩
        have hAtJ := hRequest.reader j
        have hPhase : s.phase j = .enqueue := by
          cases hPhase : s.phase j <;> simp_all [ReaderAt]
        have hj : j < s.started := by
          by_contra hBig
          have hBegin := hRequest.unborn j (by omega)
          rw [hPhase] at hBegin
          cases hBegin
        exact request_helpful hs hBlocks hj (by simp [hPhase]) (by simp [hPhase])
      · apply rnic_helpful hLimit hs (Or.inr (Or.inl ?_)) hBorn hLive
        rintro (hEmpty | hBad)
        · -- An empty queue has returned every node that was exchanged in.
          have hPrefix : s.mpsc.returned <+: s.mpsc.order.map .node :=
            Fifo.left_prefix ((mpscMachine_projects _).reachable
              ((rnic_projects_mpsc p).reachable hs))
          have hLength : s.mpsc.order.length ≤ s.mpsc.returned.length :=
            List.drop_eq_nil_iff.mp hEmpty
          have hAll : s.mpsc.returned = s.mpsc.order.map .node :=
            hPrefix.eq_of_length_le (by simpa using hLength)
          apply hIn
          rw [hAll]
          exact List.mem_map_of_mem hAt.2
        · exact hMid hBad
  · apply request_helpful hs hBlocks hi (fun hBad => absurd hBad hSpin)
    intro hThrough
    simp only [ReaderAt, hThrough] at hAt
    rw [hDown] at hAt
    cases hAt.2.2

/-- While a reader has not come to the gate, somebody is bringing it there. -/
theorem arrival_helpful (hLimit : p.active_requests < 2 ^ 32)
    (hBlocks : p.body.blocks < 2 ^ 64) (hs : (rnicMachine p).Reachable s)
    (hi : i < s.started) (hBorn : s.rnic ≠ .unborn)
    (hEntry : s.gate.waiter i = .entry) : Helpful p s := by
  by_cases hThrough : s.phase i = .through
  · exact wait_helpful hs hBlocks hi hThrough (Or.inl hEntry)
  · cases hFlag : s.response_ready i with
    | true => exact request_helpful hs hBlocks hi (fun _ => hFlag) hThrough
    | false => exact flag_helpful hLimit hBlocks hs hi hBorn hFlag

theorem rnic_gateInv (hLimit : p.active_requests < 2 ^ 32)
    (hs : (rnicMachine p).Reachable s) :
    GateInv p.active_requests p.openCall s.gate := by
  have hCrew := p.crew_le
  apply gateMachine_inv _ ((rnic_projects_gate p).reachable hs)
  rw [RnicSweep.openCall_waiters]
  omega

/-- Behind the open gate, a reader that has not finished is helpful. -/
theorem finish_helpful (hLimit : p.active_requests < 2 ^ 32)
    (hBlocks : p.body.blocks < 2 ^ 64) (hs : (rnicMachine p).Reachable s)
    (hOpener : s.gate.opener = .returned) (hi : i < s.started)
    (hReader : s.readers.pc i ≠ .finished) : Helpful p s := by
  have hGate := rnic_gateInv hLimit hs
  have hStarted := (rnic_mainInv hs).started_le
  have hIsOpen := hGate.isOpen.mpr hOpener
  have hi' : i < p.openCall.waiters p.active_requests := by
    rw [RnicSweep.openCall_waiters]
    omega
  have hPhase := (rnic_requestInv hs).gate i (hGate.arrived_of_open hIsOpen i hi')
  by_cases hPassed : s.gate.waiter i = .returned
  · exact copy_helpful hs hBlocks hi hPhase hPassed hReader
  · exact wait_helpful hs hBlocks hi hPhase
      (Or.inr ⟨hGate.woken_of_open hIsOpen hi' hPassed, hIsOpen⟩)

/-- Before the gate is open, somebody comes to it or main opens it. -/
theorem opening_helpful (hLimit : p.active_requests < 2 ^ 32)
    (hBlocks : p.body.blocks < 2 ^ 64) (hs : (rnicMachine p).Reachable s)
    {failed : Bool} (hMain : s.main = .opening failed)
    (hOpener : s.gate.opener ≠ .returned) : Helpful p s := by
  have hMainInv := rnic_mainInv hs
  have hCrew := p.crew_le
  simp only [RnicMainInv, hMain] at hMainInv
  rcases hMainInv with ⟨_, hFailed, hStarted, hCreated, _, hBorn, _⟩
  by_cases hAll : ∀ i, i < p.crew → s.gate.waiter i ≠ .entry
  · rcases openStep_rank (n := p.active_requests) (rnic_gateInv hLimit hs)
      (by rw [RnicSweep.openCall_waiters]; exact hAll) hOpener with
      ⟨gate, hStep, _, hLt⟩
    have hCall : p.openCall =
        if failed then .gateOpenAfterCreated s.created else .gateOpen :=
      RnicSweep.openCall_eq hFailed hCreated
    rw [hCall] at hStep
    have hNext : s.mainStep p = some { s with gate := gate } := by
      simp [RnicState.mainStep, hMain, hOpener, hStep]
    refine ⟨.main, main_not_polls hs, .main, { s with gate := gate }, trivial,
      hNext, ?_⟩
    have hRequest : ∀ j, RnicState.requestRank { s with gate := gate } j =
        s.requestRank j := fun _ => rfl
    unfold RnicState.rank
    simp only [hRequest, RnicState.served, RnicState.pcRank]
    omega
  · push Not at hAll
    rcases hAll with ⟨i, hi, hEntry⟩
    exact arrival_helpful hLimit hBlocks hs (by omega) hBorn hEntry

/-- Once every reader has finished, no flag is down and the RNIC is not
waiting for anybody. -/
theorem flags_of_finished (hs : (rnicMachine p).Reachable s)
    (hReader : s.readers.pc i = .finished) :
    s.phase i = .through ∧ s.response_ready i = true := by
  have hRequest := rnic_requestInv hs
  have hPhase := hRequest.copying i (by simp [hReader])
  have hAt := hRequest.reader i
  simp only [ReaderAt, hPhase] at hAt
  exact ⟨hPhase, hAt.2.2⟩

/-- Main waits for an RNIC that will never exit: a creation has failed, the
readers there are have finished, and the queue is empty for good. -/
structure Hanging (p : RnicSweep) (s : RnicState) : Prop where
  main : s.main = .joinStarted
  crew : p.crew < p.active_requests
  started : s.started = p.crew
  finished : ∀ i, i < p.crew → s.readers.pc i = .finished
  empty : s.mpsc.undelivered = []
  rnic : s.rnic = .loop ∨ s.rnic = .dequeue

/-- The RNIC is joined last: it exits, or it hangs. -/
theorem joinStarted_helpful (hLimit : p.active_requests < 2 ^ 32)
    (hs : (rnicMachine p).Reachable s) (hMain : s.main = .joinStarted)
    (hRunning : s.rnic_started = true) (hLive : s.rnic ≠ .exited) :
    Hanging p s ∨ Helpful p s := by
  have hMainInv := rnic_mainInv hs
  have h := rnic_inv hLimit hs
  simp only [RnicMainInv, hMain] at hMainInv
  cases hMainInv with
  | complete _ _ _ hBad _ _ _ => simp [hBad] at hRunning
  | noRnic _ _ _ hBad _ _ => simp [hBad] at hRunning
  | failed hFails hCrew hStarted hCreated hOpener _ hBorn hReport hFinished =>
      by_cases hPending : 0 < s.rnic.pending
      · exact Or.inr (rnic_helpful hLimit hs (Or.inl hPending) hBorn hLive)
      · by_cases hEx : s.mpsc.Excused
        · left
          have hEmpty : s.mpsc.undelivered = [] := by
            rcases hEx with hEmpty | ⟨j, node, prev, hLink⟩
            · exact hEmpty
            · -- A producer between its operations is no finished reader.
              have hRequest := rnic_requestInv hs
              have hAt := hRequest.reader j
              by_cases hj : j < p.crew
              · have hPhase := (flags_of_finished hs (hFinished j hj)).1
                simp only [ReaderAt, hPhase, hLink] at hAt
                cases hAt.1
              · have hPhase := hRequest.unborn j (by omega)
                simp only [ReaderAt, hPhase, hLink] at hAt
                cases hAt.1
          have hRnic : s.rnic = .loop ∨ s.rnic = .dequeue := by
            have hFault := h.fault
            cases hpc : s.rnic <;> simp_all [RnicPc.pending]
          exact
            { main := hMain, crew := hCrew, started := hStarted
              finished := hFinished, empty := hEmpty, rnic := hRnic }
        · exact Or.inr
            (rnic_helpful hLimit hs (Or.inr (Or.inl hEx)) hBorn hLive)

/-- The RNIC of a sweep whose readers have all finished is done. -/
theorem joinRnic_helpful (hLimit : p.active_requests < 2 ^ 32)
    (hs : (rnicMachine p).Reachable s) (hMain : s.main = .joinRnic)
    (hLive : s.rnic ≠ .exited) : Helpful p s := by
  have hMainInv := rnic_mainInv hs
  have h := rnic_inv hLimit hs
  simp only [RnicMainInv, hMain] at hMainInv
  rcases hMainInv with ⟨_, _, _, _, hBorn, _, hFinished⟩
  by_cases hPending : 0 < s.rnic.pending
  · exact rnic_helpful hLimit hs (Or.inl hPending) hBorn hLive
  · have hNotCount : s.rnic ≠ .count := by
      intro hpc
      simp [hpc, RnicPc.pending] at hPending
    have hAll : tally p.active_requests s.response_ready =
        p.active_requests :=
      tally_eq_of_all fun i hi => (flags_of_finished hs (hFinished i hi)).2
    have hFlags := h.flags
    rw [if_neg hNotCount] at hFlags
    unfold RnicState.flags at hFlags
    exact rnic_helpful hLimit hs (Or.inr (Or.inr (by omega))) hBorn hLive

/-- **Somebody is always helpful**, until main has returned or waits for an
RNIC that will never exit. -/
theorem rnicSweep_advances (hLimit : p.active_requests < 2 ^ 32)
    (hBlocks : p.body.blocks < 2 ^ 64) (hs : (rnicMachine p).Reachable s)
    (hReturned : s.main ≠ .returned) : Hanging p s ∨ Helpful p s := by
  have hMainInv := rnic_mainInv hs
  -- Where main does not wait, its own step is the helpful one.
  have hOwn : s.mainStep p ≠ none → (∀ failed, s.main = .opening failed →
      s.gate.opener = .returned) → Hanging p s ∨ Helpful p s := by
    intro hSome hNot
    rcases Option.ne_none_iff_exists'.mp hSome with ⟨s', hStep⟩
    exact Or.inr (main_helpful hs hStep hNot)
  cases hpc : s.main with
  | createRnic =>
      apply hOwn _ (by simp [hpc])
      simp only [RnicState.mainStep, hpc]
      split <;> simp
  | create i =>
      apply hOwn _ (by simp [hpc])
      simp only [RnicState.mainStep, hpc]
      split <;> simp
  | opening failed =>
      by_cases hOpener : s.gate.opener = .returned
      · apply hOwn _ (fun _ _ => hOpener)
        simp [RnicState.mainStep, hpc, hOpener]
      · exact Or.inr (opening_helpful hLimit hBlocks hs hpc hOpener)
  | join i =>
      simp only [RnicMainInv, hpc] at hMainInv
      rcases hMainInv with ⟨_, hStarted, hCreated, hOpener, _⟩
      by_cases hWaits : i < s.created ∧ s.readers.pc i ≠ .finished
      · exact Or.inr (finish_helpful hLimit hBlocks hs hOpener (by omega) hWaits.2)
      · apply hOwn _ (by simp [hpc])
        simp only [RnicState.mainStep, hpc, RnicState.pthreadJoin]
        split <;> simp_all
  | joinRnic =>
      by_cases hLive : s.rnic = .exited
      · apply hOwn _ (by simp [hpc])
        simp [RnicState.mainStep, hpc, hLive]
      · exact Or.inr (joinRnic_helpful hLimit hs hpc hLive)
  | report =>
      apply hOwn _ (by simp [hpc])
      simp [RnicState.mainStep, hpc]
  | joinCreated i =>
      simp only [RnicMainInv, hpc] at hMainInv
      by_cases hWaits : i < s.created ∧ s.readers.pc i ≠ .finished
      · right
        cases hMainInv with
        | complete _ _ hCreated _ _ _ _ => omega
        | failed _ _ hStarted hCreated hOpener _ _ _ _ =>
            exact finish_helpful hLimit hBlocks hs hOpener (by omega) hWaits.2
        | noRnic _ _ hCreated _ _ _ => omega
      · apply hOwn _ (by simp [hpc])
        simp only [RnicState.mainStep, hpc, RnicState.pthreadJoin]
        split <;> simp_all
  | joinStarted =>
      by_cases hWaits : s.rnic_started = true ∧ s.rnic ≠ .exited
      · exact joinStarted_helpful hLimit hs hpc hWaits.1 hWaits.2
      · apply hOwn _ (by simp [hpc])
        simp only [RnicState.mainStep, hpc, if_neg hWaits]
        simp
  | freeArgs i =>
      apply hOwn _ (by simp [hpc])
      simp only [RnicState.mainStep, hpc]
      split <;> simp
  | destroy =>
      apply hOwn _ (by simp [hpc])
      simp [RnicState.mainStep, hpc]
  | returned => exact absurd hpc hReturned

/-- Every reachable state can be run to the return of main, or to where main
hangs. -/
theorem rnicSweep_ends (hLimit : p.active_requests < 2 ^ 32)
    (hBlocks : p.body.blocks < 2 ^ 64) (hs : (rnicMachine p).Reachable s) :
    ∃ s', (rnicMachine p).Reaches s s' ∧
      (s'.main = .returned ∨ Hanging p s') := by
  refine Machine.finishes_of_rank (RnicState.rank p) ?_ hs
  intro s hs hNot
  push Not at hNot
  rcases rnicSweep_advances hLimit hBlocks hs hNot.1 with hBad | hHelp
  · exact absurd hBad hNot.2
  · rcases hHelp with ⟨_, _, e, s', _, hNext, hLt⟩
    exact ⟨e, s', hNext, hLt⟩

end Rank

end MioBench.Sync
