import Mathlib.Data.List.Nodup
import Mathlib.Data.Finset.Card
import MioBench.Sync.Rnic

/-!
# Invariants of the sweep through the RNIC thread

Main's position says which threads exist; a reader's position says where its
node is; the RNIC thread's position says what has become of the requests it
took out of the queue.  Queue, gate and copy loop are projections of the sweep,
so the invariants of their own machines hold here too.
-/

namespace MioBench.Sync

open MioBench.Lib MioBench.Store

/-! ## The readers there will be -/

namespace RnicSweep

/-- How many readers get created. -/
def crew (p : RnicSweep) : Nat :=
  if p.rnicFails then 0
  else
    match p.failure with
    | none => p.active_requests
    | some (k, _) =>
        if p.createFails k = none then p.active_requests
        else min k p.active_requests

/-- How main opens the gate. -/
def openCall (p : RnicSweep) : OpenCall :=
  if p.crew = p.active_requests then .gateOpen else .gateOpenAfterCreated p.crew

theorem crew_le (p : RnicSweep) : p.crew ≤ p.active_requests := by
  unfold crew
  split
  · exact Nat.zero_le _
  · split
    · exact Nat.le_refl _
    · split
      · exact Nat.le_refl _
      · exact Nat.min_le_right _ _

@[simp] theorem openCall_waiters (p : RnicSweep) :
    p.openCall.waiters p.active_requests = p.crew := by
  unfold openCall
  split
  · rename_i h
    exact h.symm
  · rfl

/-- Main opens the gate for the readers that were created. -/
theorem openCall_eq {p : RnicSweep} {failed : Bool} {created : Nat}
    (hFailed : failed = true ↔ p.crew < p.active_requests)
    (hCreated : created = p.crew) :
    p.openCall =
      if failed then .gateOpenAfterCreated created else .gateOpen := by
  have hCrew := p.crew_le
  unfold openCall
  cases failed with
  | false =>
      have hAll : p.crew = p.active_requests := by
        by_contra hNe
        have hBad := hFailed.mpr (by omega)
        cases hBad
      rw [if_pos hAll]
      rfl
  | true =>
      have hLt := hFailed.mp rfl
      rw [if_neg (by omega), hCreated]
      rfl

/-- Only the index of the failure can fail. -/
theorem eq_of_createFails {p : RnicSweep} {i : Nat}
    (h : p.createFails i ≠ none) : ∃ kind, p.failure = some (i, kind) := by
  unfold createFails at h
  split at h
  · exact absurd rfl h
  · rename_i k hFailure
    split at h
    · rename_i hi
      exact ⟨_, hi.1 ▸ hFailure⟩
    · exact absurd rfl h
  · rename_i k kind _ hFailure
    split at h
    · rename_i hi
      exact ⟨kind, hi ▸ hFailure⟩
    · exact absurd rfl h

theorem crew_of_fails {p : RnicSweep} {i : Nat} (hRnic : p.rnicFails = false)
    (h : p.createFails i ≠ none) : p.crew = min i p.active_requests := by
  rcases eq_of_createFails h with ⟨kind, hFailure⟩
  simp [crew, hRnic, hFailure, h]

/-- The creation after the last one that succeeds is the one that fails. -/
theorem createFails_crew {p : RnicSweep} (hRnic : p.rnicFails = false)
    (hLt : p.crew < p.active_requests) : p.createFails p.crew ≠ none := by
  unfold crew at hLt ⊢
  simp only [hRnic, Bool.false_eq_true, ↓reduceIte] at hLt ⊢
  cases hFailure : p.failure with
  | none => simp [hFailure] at hLt
  | some fail =>
      rcases fail with ⟨k, kind⟩
      simp only [hFailure] at hLt ⊢
      by_cases hFails : p.createFails k = none
      · simp [hFails] at hLt
      · simp only [hFails, ↓reduceIte] at hLt ⊢
        rw [Nat.min_eq_left (by omega)]
        exact hFails

end RnicSweep

/-! ## What the steps leave alone -/

/-- Main's steps reach the other threads only by creating them, by opening the
gate and by reporting. -/
structure MainFrame (p : RnicSweep) (s s' : RnicState) : Prop where
  mpsc : s'.mpsc = s.mpsc
  readers : s'.readers = s.readers
  phase : s'.phase = s.phase
  payload : s'.payload = s.payload
  rdma_req : s'.rdma_req = s.rdma_req
  response_ready : s'.response_ready = s.response_ready
  done : s'.done = s.done
  stamped : s'.stamped = s.stamped
  started : s.started ≤ s'.started
  rnic : s'.rnic = s.rnic ∨ (s.main = .createRnic ∧ s'.rnic = .loop)
  report : s'.report = s.report ∨
    (s.main = .report ∧ s'.report = some s.readers.totals)
  gate : s'.gate = s.gate ∨ ∃ failed, s.main = .opening failed ∧
    s.gate.openStep (if failed then .gateOpenAfterCreated s.created
      else .gateOpen) = some s'.gate

/-- A step of main that moves neither of the fields named in `MainFrame`. -/
theorem MainFrame.same {p : RnicSweep} {s : RnicState} (main : RnicMainPc)
    (created : Nat) (rnic_started : Bool) (ret : Int) (args : Nat → ArgBuffers) :
    MainFrame p s { s with
      main := main, created := created, rnic_started := rnic_started
      ret := ret, args := args } where
  mpsc := rfl
  readers := rfl
  phase := rfl
  payload := rfl
  rdma_req := rfl
  response_ready := rfl
  done := rfl
  stamped := rfl
  started := Nat.le_refl _
  rnic := Or.inl rfl
  report := Or.inl rfl
  gate := Or.inl rfl

theorem createReader_frame (p : RnicSweep) (s : RnicState) (i : Nat) :
    MainFrame p s (s.createReader p i) := by
  simp only [RnicState.createReader]
  split
  · exact
      { MainFrame.same (p := p) (s := s) s.main s.created s.rnic_started s.ret
          s.args with
        started := Nat.le_succ _ }
  · exact MainFrame.same _ _ _ _ _
  · exact MainFrame.same _ _ _ _ _
  · exact MainFrame.same _ _ _ _ _
  · exact MainFrame.same _ _ _ _ _
  · exact MainFrame.same _ _ _ _ _

theorem rnicMain_frame {p : RnicSweep} {s s' : RnicState}
    (hStep : s.mainStep p = some s') : MainFrame p s s' := by
  have hSame := @MainFrame.same p s s.main s.created s.rnic_started s.ret s.args
  cases rnicMain_cases hStep with
  | noRnic _ _ hEq => exact hEq ▸ MainFrame.same _ _ _ _ _
  | createRnic hpc _ hEq => exact hEq ▸ { hSame with rnic := Or.inr ⟨hpc, rfl⟩ }
  | createReader i _ _ hEq => exact hEq ▸ createReader_frame p s i
  | allCreated i _ _ hEq => exact hEq ▸ MainFrame.same _ _ _ _ _
  | openGate failed gate hpc _ hGate hEq =>
      exact hEq ▸ { hSame with gate := Or.inr ⟨failed, hpc, hGate⟩ }
  | opened failed _ _ hEq => exact hEq ▸ MainFrame.same _ _ _ _ _
  | join i _ _ _ hEq => exact hEq ▸ MainFrame.same _ _ _ _ _
  | allJoined i _ _ hEq => exact hEq ▸ MainFrame.same _ _ _ _ _
  | joinRnic _ _ hEq => exact hEq ▸ MainFrame.same _ _ _ _ _
  | report hpc hEq => exact hEq ▸ { hSame with report := Or.inr ⟨hpc, rfl⟩ }
  | joinCreated i _ _ _ hEq => exact hEq ▸ MainFrame.same _ _ _ _ _
  | createdJoined i _ _ hEq => exact hEq ▸ MainFrame.same _ _ _ _ _
  | joinStarted _ _ hEq => exact hEq ▸ MainFrame.same _ _ _ _ _
  | freeArgs i _ _ hEq => exact hEq ▸ MainFrame.same _ _ _ _ _
  | allFreed i _ _ hEq => exact hEq ▸ MainFrame.same _ _ _ _ _
  | destroy _ hEq => exact hEq ▸ MainFrame.same _ _ _ _ _

/-- The other threads' steps leave main's variables alone, and take nothing
back that main may rely on. -/
structure ThreadFrame (s s' : RnicState) : Prop where
  main : s'.main = s.main
  started : s'.started = s.started
  created : s'.created = s.created
  rnic_started : s'.rnic_started = s.rnic_started
  report : s'.report = s.report
  opener : s.gate.opener = .returned → s'.gate.opener = .returned
  finished : ∀ j, s.readers.pc j = .finished → s'.readers.pc j = .finished
  unborn : s'.rnic = .unborn ↔ s.rnic = .unborn
  exited : s.rnic = .exited → s'.rnic = .exited

/-- A step outside the gate and the copy loops leaves these and everything of
main's alone. -/
structure SideFrame (s s' : RnicState) : Prop where
  main : s'.main = s.main
  started : s'.started = s.started
  created : s'.created = s.created
  rnic_started : s'.rnic_started = s.rnic_started
  report : s'.report = s.report
  gate : s'.gate = s.gate
  readers : s'.readers = s.readers

theorem SideFrame.thread {s s' : RnicState} (h : SideFrame s s')
    (hUnborn : s'.rnic = .unborn ↔ s.rnic = .unborn)
    (hExited : s.rnic = .exited → s'.rnic = .exited) : ThreadFrame s s' where
  main := h.main
  started := h.started
  created := h.created
  rnic_started := h.rnic_started
  report := h.report
  opener := by
    rw [h.gate]
    exact id
  finished := by
    rw [h.readers]
    exact fun _ => id
  unborn := hUnborn
  exited := hExited

/-- The RNIC thread reaches the queue by operations of `mpsc_dequeue` only. -/
structure RnicThreadFrame (s s' : RnicState) : Prop extends SideFrame s s' where
  phase : s'.phase = s.phase
  payload : s'.payload = s.payload
  mpsc : s'.mpsc = s.mpsc ∨ s'.mpsc = s.mpsc.dequeueStep
  unborn : s.rnic ≠ .unborn
  exited : s.rnic ≠ .exited
  born : s'.rnic ≠ .unborn

theorem received_ne_unborn (s : RnicState) : s.received ≠ .unborn := by
  unfold RnicState.received
  split
  · simp
  · split <;> simp

theorem rnicStep_frame {p : RnicSweep} {s s' : RnicState} {now : ℚ}
    (hStep : s.rnicStep p now = some s') : RnicThreadFrame s s' := by
  have hSide : SideFrame s s := ⟨rfl, rfl, rfl, rfl, rfl, rfl, rfl⟩
  cases rnicThread_cases hStep with
  | again hpc _ hEq =>
      exact hEq ▸
        { hSide with
          phase := rfl, payload := rfl, mpsc := Or.inl rfl
          unborn := by simp [hpc], exited := by simp [hpc], born := by simp }
  | exit hpc _ hEq =>
      exact hEq ▸
        { hSide with
          phase := rfl, payload := rfl, mpsc := Or.inl rfl
          unborn := by simp [hpc], exited := by simp [hpc], born := by simp }
  | dequeue rnic hpc hRnic hEq =>
      have hBorn : rnic ≠ .unborn := by
        rw [hRnic]
        split
        · exact received_ne_unborn _
        · simp
      exact hEq ▸
        { hSide with
          phase := rfl, payload := rfl, mpsc := Or.inr rfl
          unborn := by simp [hpc], exited := by simp [hpc], born := hBorn }
  | calculate req hpc hEq =>
      exact hEq ▸
        { hSide with
          phase := rfl, payload := rfl, mpsc := Or.inl rfl
          unborn := by simp [hpc], exited := by simp [hpc]
          born := by simp [RnicState.rnicCalculate] }
  | hold req hpc hEq =>
      exact hEq ▸
        { hSide with
          phase := rfl, payload := rfl, mpsc := Or.inl rfl
          unborn := by simp [hpc], exited := by simp [hpc], born := by simp }
  | signal req hpc hEq =>
      exact hEq ▸
        { hSide with
          phase := rfl, payload := rfl, mpsc := Or.inl rfl
          unborn := by simp [hpc], exited := by simp [hpc], born := by simp }
  | count hpc hEq =>
      exact hEq ▸
        { hSide with
          phase := rfl, payload := rfl, mpsc := Or.inl rfl
          unborn := by simp [hpc], exited := by simp [hpc], born := by simp }

/-- A reader on its way to the gate leaves the RNIC thread's variables alone. -/
structure RequestFrame (s s' : RnicState) : Prop extends SideFrame s s' where
  rnic : s'.rnic = s.rnic
  response_ready : s'.response_ready = s.response_ready
  done : s'.done = s.done
  stamped : s'.stamped = s.stamped

theorem requestMove_frame {s s' : RnicState} {i : Nat}
    (h : RequestMove s s' i) : RequestFrame s s' := by
  have hSide : SideFrame s s := ⟨rfl, rfl, rfl, rfl, rfl, rfl, rfl⟩
  have hSame : ∀ mpsc phase payload rdma_req, RequestFrame s { s with
      mpsc := mpsc, phase := phase, payload := payload, rdma_req := rdma_req } :=
    fun _ _ _ _ =>
      { hSide with
        rnic := rfl, response_ready := rfl, done := rfl, stamped := rfl }
  cases h with
  | prepare now _ hEq => exact hEq ▸ hSame _ _ _ _
  | reset mpsc _ _ hEq => exact hEq ▸ hSame _ _ _ _
  | exchange mpsc _ _ hEq => exact hEq ▸ hSame _ _ _ _
  | link mpsc _ _ hEq => exact hEq ▸ hSame _ _ _ _
  | poll _ _ hEq => exact hEq ▸ hSame _ _ _ _
  | leave _ _ hEq => exact hEq ▸ hSame _ _ _ _

/-- A step that is not main's keeps what main may rely on. -/
theorem RnicMove.frame {p : RnicSweep} {s s' : RnicState}
    (h : RnicMove p s s') (hMain : s.mainStep p ≠ some s') :
    ThreadFrame s s' := by
  have hSame : ThreadFrame s s := SideFrame.thread
    ⟨rfl, rfl, rfl, rfl, rfl, rfl, rfl⟩ Iff.rfl id
  cases h with
  | main h => exact absurd h hMain
  | rnic now h =>
      have hFrame := rnicStep_frame h
      exact hFrame.toSideFrame.thread
        ⟨fun h => absurd h hFrame.born, fun h => absurd h hFrame.unborn⟩
        fun h => absurd h hFrame.exited
  | request i _ h =>
      have hFrame := requestMove_frame h
      refine hFrame.toSideFrame.thread ?_ ?_
      · rw [hFrame.rnic]
      · rw [hFrame.rnic]
        exact id
  | gate gate hMove _ h => exact h ▸ { hSame with opener := hMove.opener }
  | copy i readers _ _ _ hReader h =>
      exact h ▸
        { hSame with finished := fun j hj => readerStep_finished hReader hj }

/-! ## Where main stands -/

/-- What holds once a clean-up is under way: the sweep is over, or a reader
could not be created, or the RNIC thread could not. -/
inductive Closing (p : RnicSweep) (s : RnicState) (upTo : Nat) : Prop
  | complete (hCrew : p.crew = p.active_requests)
      (hStarted : s.started = p.active_requests) (hCreated : s.created = 0)
      (hRunning : s.rnic_started = false) (hRnic : s.rnic = .exited)
      (hFinished : ∀ j, j < p.active_requests → s.readers.pc j = .finished)
      (hReport : s.report.isSome)
  | failed (hFails : p.rnicFails = false) (hCrew : p.crew < p.active_requests)
      (hStarted : s.started = p.crew) (hCreated : s.created = p.crew)
      (hOpener : s.gate.opener = .returned) (hRunning : s.rnic_started = true)
      (hRnic : s.rnic ≠ .unborn) (hReport : s.report = none)
      (hFinished : ∀ j, j < upTo → s.readers.pc j = .finished)
  | noRnic (hFails : p.rnicFails = true) (hStarted : s.started = 0)
      (hCreated : s.created = 0) (hRunning : s.rnic_started = false)
      (hRnic : s.rnic = .unborn) (hReport : s.report = none)

/-- What main's position says about the threads. -/
def RnicMainInv (p : RnicSweep) (s : RnicState) : Prop :=
  match s.main with
  | .createRnic =>
      s.started = 0 ∧ s.created = 0 ∧ s.rnic_started = false ∧
        s.rnic = .unborn ∧ s.report = none
  | .create i =>
      p.rnicFails = false ∧ i ≤ p.crew ∧ s.started = i ∧ s.created = i ∧
        s.rnic_started = true ∧ s.rnic ≠ .unborn ∧ s.report = none
  | .opening failed =>
      p.rnicFails = false ∧ (failed = true ↔ p.crew < p.active_requests) ∧
        s.started = p.crew ∧ s.created = p.crew ∧ s.rnic_started = true ∧
        s.rnic ≠ .unborn ∧ s.report = none
  | .join i =>
      p.crew = p.active_requests ∧ s.started = p.active_requests ∧
        s.created = p.active_requests ∧ s.gate.opener = .returned ∧
        s.rnic_started = true ∧ s.rnic ≠ .unborn ∧ s.report = none ∧
        ∀ j, j < i → s.readers.pc j = .finished
  | .joinRnic =>
      p.crew = p.active_requests ∧ s.started = p.active_requests ∧
        s.created = 0 ∧ s.gate.opener = .returned ∧ s.rnic ≠ .unborn ∧
        s.report = none ∧
        ∀ j, j < p.active_requests → s.readers.pc j = .finished
  | .report =>
      p.crew = p.active_requests ∧ s.started = p.active_requests ∧
        s.created = 0 ∧ s.rnic_started = false ∧ s.rnic = .exited ∧
        ∀ j, j < p.active_requests → s.readers.pc j = .finished
  | .joinCreated i => Closing p s i
  | .joinStarted => Closing p s p.crew
  | .freeArgs _ | .destroy | .returned =>
      Closing p s p.crew ∧ (s.rnic_started = true → s.rnic = .exited)

section Main

variable {p : RnicSweep} {s s' : RnicState}

theorem Closing.congr {upTo : Nat} (h : Closing p s upTo)
    (hFrame : ThreadFrame s s') : Closing p s' upTo := by
  cases h with
  | complete hCrew hStarted hCreated hRunning hRnic hFinished hReport =>
      exact .complete hCrew (hFrame.started.trans hStarted)
        (hFrame.created.trans hCreated) (hFrame.rnic_started.trans hRunning)
        (hFrame.exited hRnic) (fun j hj => hFrame.finished j (hFinished j hj))
        (hFrame.report ▸ hReport)
  | failed hFails hCrew hStarted hCreated hOpener hRunning hRnic hReport
      hFinished =>
      exact .failed hFails hCrew (hFrame.started.trans hStarted)
        (hFrame.created.trans hCreated) (hFrame.opener hOpener)
        (hFrame.rnic_started.trans hRunning)
        (fun h => hRnic (hFrame.unborn.mp h)) (hFrame.report.trans hReport)
        (fun j hj => hFrame.finished j (hFinished j hj))
  | noRnic hFails hStarted hCreated hRunning hRnic hReport =>
      exact .noRnic hFails (hFrame.started.trans hStarted)
        (hFrame.created.trans hCreated) (hFrame.rnic_started.trans hRunning)
        (hFrame.unborn.mpr hRnic) (hFrame.report.trans hReport)

/-- A clean-up looks at nothing main itself still changes. -/
theorem Closing.main {upTo : Nat} (h : Closing p s upTo) (main : RnicMainPc)
    (args : Nat → ArgBuffers) :
    Closing p { s with main := main, args := args } upTo := by
  cases h with
  | complete hCrew hStarted hCreated hRunning hRnic hFinished hReport =>
      exact .complete hCrew hStarted hCreated hRunning hRnic hFinished hReport
  | failed hFails hCrew hStarted hCreated hOpener hRunning hRnic hReport
      hFinished =>
      exact .failed hFails hCrew hStarted hCreated hOpener hRunning hRnic hReport
        hFinished
  | noRnic hFails hStarted hCreated hRunning hRnic hReport =>
      exact .noRnic hFails hStarted hCreated hRunning hRnic hReport

/-- One more reader joined in the clean-up; all of them, once the counter has
reached `created`. -/
theorem Closing.extend {upTo upTo' : Nat} (h : Closing p s upTo)
    (hFinished : ∀ j, upTo ≤ j → j < upTo' → j < s.created →
      s.readers.pc j = .finished) (hTo : upTo' ≤ p.crew) : Closing p s upTo' := by
  cases h with
  | complete hCrew hStarted hCreated hRunning hRnic hFinished hReport =>
      exact .complete hCrew hStarted hCreated hRunning hRnic hFinished hReport
  | failed hFails hCrew hStarted hCreated hOpener hRunning hRnic hReport hUpTo =>
      refine .failed hFails hCrew hStarted hCreated hOpener hRunning hRnic
        hReport ?_
      intro j hj
      by_cases hOld : j < upTo
      · exact hUpTo j hOld
      · exact hFinished j (by omega) hj (by omega)
  | noRnic hFails hStarted hCreated hRunning hRnic hReport =>
      exact .noRnic hFails hStarted hCreated hRunning hRnic hReport

theorem Closing.created_le {upTo : Nat} (h : Closing p s upTo) :
    s.created ≤ p.crew := by
  cases h with
  | complete _ _ hCreated _ _ _ _ => omega
  | failed _ _ _ hCreated _ _ _ _ _ => omega
  | noRnic _ _ hCreated _ _ _ => omega

theorem RnicMainInv.congr (h : RnicMainInv p s) (hFrame : ThreadFrame s s') :
    RnicMainInv p s' := by
  have hBorn : s.rnic ≠ .unborn → s'.rnic ≠ .unborn :=
    fun hRnic h => hRnic (hFrame.unborn.mp h)
  have hFinished : ∀ n, (∀ j, j < n → s.readers.pc j = .finished) →
      ∀ j, j < n → s'.readers.pc j = .finished :=
    fun n hAll j hj => hFrame.finished j (hAll j hj)
  unfold RnicMainInv at h ⊢
  rw [hFrame.main]
  cases hpc : s.main with
  | createRnic =>
      simp only [hpc] at h ⊢
      rw [hFrame.started, hFrame.created, hFrame.rnic_started, hFrame.report]
      exact ⟨h.1, h.2.1, h.2.2.1, hFrame.unborn.mpr h.2.2.2.1, h.2.2.2.2⟩
  | create i =>
      simp only [hpc] at h ⊢
      rw [hFrame.started, hFrame.created, hFrame.rnic_started, hFrame.report]
      rcases h with ⟨h1, h2, h3, h4, h5, h6, h7⟩
      exact ⟨h1, h2, h3, h4, h5, hBorn h6, h7⟩
  | opening failed =>
      simp only [hpc] at h ⊢
      rw [hFrame.started, hFrame.created, hFrame.rnic_started, hFrame.report]
      rcases h with ⟨h1, h2, h3, h4, h5, h6, h7⟩
      exact ⟨h1, h2, h3, h4, h5, hBorn h6, h7⟩
  | join i =>
      simp only [hpc] at h ⊢
      rw [hFrame.started, hFrame.created, hFrame.rnic_started, hFrame.report]
      rcases h with ⟨h1, h2, h3, h4, h5, h6, h7, h8⟩
      exact ⟨h1, h2, h3, hFrame.opener h4, h5, hBorn h6, h7, hFinished _ h8⟩
  | joinRnic =>
      simp only [hpc] at h ⊢
      rw [hFrame.started, hFrame.created, hFrame.report]
      rcases h with ⟨h1, h2, h3, h4, h5, h6, h7⟩
      exact ⟨h1, h2, h3, hFrame.opener h4, hBorn h5, h6, hFinished _ h7⟩
  | report =>
      simp only [hpc] at h ⊢
      rw [hFrame.started, hFrame.created, hFrame.rnic_started]
      rcases h with ⟨h1, h2, h3, h4, h5, h6⟩
      exact ⟨h1, h2, h3, h4, hFrame.exited h5, hFinished _ h6⟩
  | joinCreated i =>
      simp only [hpc] at h ⊢
      exact h.congr hFrame
  | joinStarted =>
      simp only [hpc] at h ⊢
      exact h.congr hFrame
  | freeArgs i =>
      simp only [hpc] at h ⊢
      rw [hFrame.rnic_started]
      exact ⟨h.1.congr hFrame, fun hRun => hFrame.exited (h.2 hRun)⟩
  | destroy =>
      simp only [hpc] at h ⊢
      rw [hFrame.rnic_started]
      exact ⟨h.1.congr hFrame, fun hRun => hFrame.exited (h.2 hRun)⟩
  | returned =>
      simp only [hpc] at h ⊢
      rw [hFrame.rnic_started]
      exact ⟨h.1.congr hFrame, fun hRun => hFrame.exited (h.2 hRun)⟩

/-- The creation of reader `i`: main goes on to the next one, or to the opening
for the readers there are. -/
theorem RnicMainInv.createReader {i : Nat} (h : RnicMainInv p s)
    (hpc : s.main = .create i) (hi : i < p.active_requests) :
    RnicMainInv p (s.createReader p i) := by
  simp only [RnicMainInv, hpc] at h
  rcases h with ⟨hFails, hTo, hStarted, hCreated, hRunning, hBorn, hReport⟩
  have hCrew := p.crew_le
  cases hCreate : p.createFails i with
  | none =>
      have hNext : i + 1 ≤ p.crew := by
        by_contra hLast
        have hEq : i = p.crew := by omega
        exact RnicSweep.createFails_crew hFails (by omega) (hEq ▸ hCreate)
      simp only [RnicState.createReader, hCreate]
      exact ⟨hFails, hNext, by rw [hStarted], by rw [hCreated], hRunning, hBorn,
        hReport⟩
  | some kind =>
      have hLast : i = p.crew := by
        rw [RnicSweep.crew_of_fails hFails (i := i) (by simp [hCreate]),
          Nat.min_eq_left (Nat.le_of_lt hi)]
      have hOpening : p.rnicFails = false ∧
          (true = true ↔ p.crew < p.active_requests) ∧ s.started = p.crew ∧
          s.created = p.crew ∧ s.rnic_started = true ∧ s.rnic ≠ .unborn ∧
          s.report = none :=
        ⟨hFails, ⟨fun _ => hLast ▸ hi, fun _ => rfl⟩, hStarted.trans hLast,
          hCreated.trans hLast, hRunning, hBorn, hReport⟩
      simp only [RnicState.createReader, hCreate]
      cases kind with
      | scratchAlloc => exact hOpening
      | reqAlloc => exact hOpening
      | nodeAlloc => exact hOpening
      | reqNodeAlloc => exact hOpening
      | pthreadCreate => exact hOpening

theorem RnicMainInv.mainStep (h : RnicMainInv p s)
    (hStep : s.mainStep p = some s') : RnicMainInv p s' := by
  have hCrew := p.crew_le
  cases rnicMain_cases hStep with
  | noRnic hpc hFails hEq =>
      subst hEq
      simp only [RnicMainInv, hpc] at h
      rcases h with ⟨hStarted, hCreated, hRunning, hBorn, hReport⟩
      exact .noRnic hFails hStarted hCreated hRunning hBorn hReport
  | createRnic hpc hFails hEq =>
      subst hEq
      simp only [RnicMainInv, hpc] at h
      rcases h with ⟨hStarted, hCreated, _, _, hReport⟩
      exact ⟨hFails, Nat.zero_le _, hStarted, hCreated, rfl, by simp, hReport⟩
  | createReader i hpc hi hEq => exact hEq ▸ h.createReader hpc hi
  | allCreated i hpc hi hEq =>
      subst hEq
      simp only [RnicMainInv, hpc] at h
      rcases h with ⟨hFails, hTo, hStarted, hCreated, hRunning, hBorn, hReport⟩
      have hAll : i = p.crew := by omega
      exact ⟨hFails, ⟨fun hBad => (by cases hBad), fun _ => by omega⟩,
        hStarted.trans hAll, hCreated.trans hAll, hRunning, hBorn, hReport⟩
  | openGate failed gate hpc hOpener _ hEq =>
      subst hEq
      apply h.congr
      exact
        { main := rfl, started := rfl, created := rfl, rnic_started := rfl
          report := rfl
          opener := fun hRet => absurd hRet hOpener
          finished := fun _ => id
          unborn := Iff.rfl
          exited := id }
  | opened failed hpc hOpener hEq =>
      subst hEq
      simp only [RnicMainInv, hpc] at h
      rcases h with ⟨hFails, hFailed, hStarted, hCreated, hRunning, hBorn,
        hReport⟩
      cases failed with
      | false =>
          have hAll : p.crew = p.active_requests := by
            by_contra hNe
            have hBad := hFailed.mpr (by omega)
            cases hBad
          exact ⟨hAll, hStarted.trans hAll, hCreated.trans hAll, hOpener,
            hRunning, hBorn, hReport, fun j hj => by omega⟩
      | true =>
          exact .failed hFails (hFailed.mp rfl) hStarted hCreated hOpener
            hRunning hBorn hReport fun j hj => by omega
  | join i hpc hi hFinished hEq =>
      subst hEq
      simp only [RnicMainInv, hpc] at h
      rcases h with ⟨hAll, hStarted, hCreated, hOpener, hRunning, hBorn, hReport,
        hTo⟩
      refine ⟨hAll, hStarted, hCreated, hOpener, hRunning, hBorn, hReport, ?_⟩
      intro j hj
      by_cases hLast : j = i
      · rw [hLast]
        exact hFinished
      · exact hTo j (by omega)
  | allJoined i hpc hi hEq =>
      subst hEq
      simp only [RnicMainInv, hpc] at h
      rcases h with ⟨hAll, hStarted, hCreated, hOpener, _, hBorn, hReport, hTo⟩
      exact ⟨hAll, hStarted, rfl, hOpener, hBorn, hReport,
        fun j hj => hTo j (by omega)⟩
  | joinRnic hpc hRnic hEq =>
      subst hEq
      simp only [RnicMainInv, hpc] at h
      rcases h with ⟨hAll, hStarted, hCreated, _, _, _, hFinished⟩
      exact ⟨hAll, hStarted, hCreated, rfl, hRnic, hFinished⟩
  | report hpc hEq =>
      subst hEq
      simp only [RnicMainInv, hpc] at h
      rcases h with ⟨hAll, hStarted, hCreated, hRunning, hRnic, hFinished⟩
      exact .complete hAll hStarted hCreated hRunning hRnic hFinished rfl
  | joinCreated i hpc hi hFinished hEq =>
      subst hEq
      simp only [RnicMainInv, hpc] at h
      have hTo := h.created_le
      refine (Closing.extend h ?_ (show i + 1 ≤ p.crew by omega)).main _ s.args
      intro j hLow hHigh _
      rw [show j = i by omega]
      exact hFinished
  | createdJoined i hpc hi hEq =>
      subst hEq
      simp only [RnicMainInv, hpc] at h
      refine (h.extend ?_ (Nat.le_refl _)).main _ s.args
      intro j hLow _ hj
      omega
  | joinStarted hpc hRnic hEq =>
      subst hEq
      simp only [RnicMainInv, hpc] at h
      exact ⟨h.main _ s.args, hRnic⟩
  | freeArgs i hpc _ hEq =>
      subst hEq
      simp only [RnicMainInv, hpc] at h
      exact ⟨h.1.main _ _, h.2⟩
  | allFreed i hpc _ hEq =>
      subst hEq
      simp only [RnicMainInv, hpc] at h
      exact ⟨h.1.main _ s.args, h.2⟩
  | destroy hpc hEq =>
      subst hEq
      simp only [RnicMainInv, hpc] at h
      exact ⟨h.1.main _ s.args, h.2⟩

theorem rnic_mainInv (hs : (rnicMachine p).Reachable s) : RnicMainInv p s := by
  refine hs.invariant (P := RnicMainInv p) ?_ ?_
  · exact ⟨rfl, rfl, rfl, rfl, rfl⟩
  intro s e s' _ h hStep
  by_cases hMain : s.mainStep p = some s'
  · exact h.mainStep hMain
  · exact h.congr ((rnic_cases hStep).frame hMain)

theorem RnicMainInv.started_le (h : RnicMainInv p s) : s.started ≤ p.crew := by
  have hClosing : ∀ upTo, Closing p s upTo → s.started ≤ p.crew := by
    intro upTo h
    cases h with
    | complete hCrew hStarted _ _ _ _ _ => omega
    | failed _ _ hStarted _ _ _ _ _ _ => omega
    | noRnic _ hStarted _ _ _ _ => omega
  unfold RnicMainInv at h
  cases hpc : s.main with
  | createRnic =>
      simp only [hpc] at h
      omega
  | create i =>
      simp only [hpc] at h
      omega
  | opening failed =>
      simp only [hpc] at h
      omega
  | join i =>
      simp only [hpc] at h
      omega
  | joinRnic =>
      simp only [hpc] at h
      omega
  | report =>
      simp only [hpc] at h
      omega
  | joinCreated i =>
      simp only [hpc] at h
      exact hClosing _ h
  | joinStarted =>
      simp only [hpc] at h
      exact hClosing _ h
  | freeArgs i =>
      simp only [hpc] at h
      exact hClosing _ h.1
  | destroy =>
      simp only [hpc] at h
      exact hClosing _ h.1
  | returned =>
      simp only [hpc] at h
      exact hClosing _ h.1

end Main

end MioBench.Sync
