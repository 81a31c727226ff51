import MioBench.Sync.PlainRequests

/-!
# The sweep that cannot finish

`run_one_sweep` of `test2-rdma.c`: the readers are created first, each with a
request for the RNIC thread, which is created last; main then opens the gate,
and every reader goes there once it has its answer.  The newest request is
never answered, so the gate never has all its readers, and main, the readers
at the gate and the RNIC thread wait for one another for ever.
-/

namespace MioBench.Sync

open MioBench.Lib MioBench.Store

/-- What one sweep depends on; its scratch buffers are from `posix_memalign`. -/
structure PlainSweep extends Sweep where
  heap : maps_scratch = false
  /-- Whether creating the RNIC thread fails. -/
  rnicFails : Bool

/-- Where the main thread stands in the sweep. -/
inductive PlainMainPc
  | create (i : Nat)
  | createRnic
  | opening (failed : Bool)
  | join (i : Nat)
  | joinRnic
  | report
  | joinCreated (i : Nat)
  | freeRest (i : Nat)
  | returned
  deriving DecidableEq, Repr

structure PlainState where
  requests : RequestState
  gate : GateState
  readers : ReadersState
  main : PlainMainPc
  /-- How many reader threads exist. -/
  started : Nat
  created : Nat
  ret : Int
  scratch : Nat → Buffer
  report : Option Totals

namespace PlainState

def init (p : PlainSweep) : PlainState where
  requests := RequestState.init
  gate := GateState.gateInit p.active_requests
  readers := ReadersState.init p.scratch
  main := .create 0
  started := 0
  created := 0
  ret := 0
  scratch := fun _ => .null
  report := none

/-- The creation of reader `i`. -/
def createReader (p : PlainSweep) (s : PlainState) (i : Nat) : PlainState :=
  match p.createFails i with
  | none =>
      { s with
        scratch := Function.update s.scratch i p.newBuffer
        started := s.started + 1
        created := s.created + 1
        main := .create (i + 1) }
  | some .scratchAlloc => { s with ret := -1, main := .opening true }
  | some .pthreadCreate =>
      { s with
        scratch := Function.update s.scratch i p.newBuffer
        ret := -1
        main := .opening true }

/-- `free(args[i].scratch)`. -/
def freeScratch (s : PlainState) (i : Nat) : PlainState :=
  { s with scratch := Function.update s.scratch i (s.scratch i).free }

/-- The next step of the main thread.  Without an RNIC thread it goes to the
clean-up and leaves the gate shut. -/
def mainStep (p : PlainSweep) (s : PlainState) : Option PlainState :=
  match s.main with
  | .create i =>
      if i < p.active_requests then some (s.createReader p i)
      else some { s with main := .createRnic }
  | .createRnic =>
      let s₁ := { s with requests := s.requests.startRnic p.rnicFails }
      if p.rnicFails then some { s₁ with ret := -1, main := .joinCreated 0 }
      else some { s₁ with main := .opening false }
  | .opening failed =>
      if s.gate.opener = .returned then
        some { s with main := if failed then .joinCreated 0 else .join 0 }
      else
        (s.gate.openStep
          (if failed then .gateOpenAfterCreated s.created else .gateOpen)).map
            fun gate => { s with gate := gate }
  | .join i =>
      if i < p.active_requests then
        if s.readers.pc i = .finished then some { s with main := .join (i + 1) }
        else none
      else some { s with created := 0, main := .joinRnic }
  | .joinRnic =>
      if s.requests.rnic = .dead then some { s with main := .report } else none
  | .report =>
      some { s with report := some s.readers.totals, main := .joinCreated 0 }
  | .joinCreated i =>
      if i < s.created then
        if s.readers.pc i = .finished then
          some { s.freeScratch i with main := .joinCreated (i + 1) }
        else none
      else some { s with main := .freeRest s.created }
  | .freeRest i =>
      if i < p.active_requests then
        some { s.freeScratch i with main := .freeRest (i + 1) }
      else some { s with main := .returned }
  | .returned => none

/-- The next step of reader `i`: to its answer, through the gate, and through
its loop. -/
def readerStep (p : PlainSweep) (s : PlainState) (i : Nat) (now : ℚ) :
    Option PlainState :=
  if s.requests.phase i = .through then
    if s.gate.waiter i = .returned then
      (s.readers.readerStep p.body i).map fun readers =>
        { s with readers := readers }
    else (s.gate.gateWait i).map fun gate => { s with gate := gate }
  else
    (s.requests.readerStep i now).map fun requests =>
      { s with requests := requests }

end PlainState

/-- The steps of a sweep; `now` is what the clock shows.  The last two are
spurious wake-ups. -/
inductive PlainEvent
  | main
  | reader (i : Nat) (now : ℚ)
  | rnic
  | wakeReader (i : Nat)
  | wakeMain
  deriving DecidableEq, Repr

def plainMachine (p : PlainSweep) : Machine PlainState PlainEvent where
  start := PlainState.init p
  next s
    | .main => s.mainStep p
    | .reader i now => if i < s.started then s.readerStep p i now else none
    | .rnic =>
        s.requests.rnicStep.map fun requests => { s with requests := requests }
    | .wakeReader i =>
        if i < s.started then
          (s.gate.spuriousWaiter i).map fun gate => { s with gate := gate }
        else none
    | .wakeMain =>
        s.gate.spuriousOpener.map fun gate => { s with gate := gate }

/-! ## What a step can do -/

/-- A step is main's, one on the way to the gate, one that only the gate sees,
or a reader's behind the gate. -/
inductive PlainMove (p : PlainSweep) (s s' : PlainState) : Prop
  | main (h : s.mainStep p = some s')
  | request (e : RequestEvent) (requests : RequestState)
      (hReader : ∀ i now, e = .reader i now → i < s.started)
      (hStart : ∀ fails, e ≠ .start fails)
      (hStep : requestMachine.next s.requests e = some requests)
      (h : s' = { s with requests := requests })
  | gate (gate : GateState) (hMove : GateMove s.started s.gate gate)
      (hPhase : ∀ i, gate.waiter i ≠ .entry →
        s.gate.waiter i ≠ .entry ∨ s.requests.phase i = .through)
      (h : s' = { s with gate := gate })
  | copy (i : Nat) (readers : ReadersState)
      (hPassed : s.gate.waiter i = .returned)
      (hReader : s.readers.readerStep p.body i = some readers)
      (h : s' = { s with readers := readers })

theorem plain_cases {p : PlainSweep} {s s' : PlainState} {e : PlainEvent}
    (hStep : (plainMachine p).next s e = some s') : PlainMove p s s' := by
  cases e with
  | main => exact .main hStep
  | reader i now =>
      simp only [plainMachine, PlainState.readerStep] at hStep
      split at hStep
      · rename_i hi
        split at hStep
        · rename_i hThrough
          split at hStep
          · rename_i hPassed
            obtain ⟨readers, hReader, rfl⟩ := Option.map_eq_some_iff.mp hStep
            exact .copy i readers hPassed hReader rfl
          · obtain ⟨gate, hGate, rfl⟩ := Option.map_eq_some_iff.mp hStep
            refine .gate gate (.wait i hi hGate) ?_ rfl
            intro j hj
            rcases gateWait_entry hGate hj with hOld | rfl
            · exact Or.inl hOld
            · exact Or.inr hThrough
        · obtain ⟨requests, hRequest, rfl⟩ := Option.map_eq_some_iff.mp hStep
          refine .request (.reader i now) requests ?_ (by simp) hRequest rfl
          rintro _ _ ⟨⟩
          exact hi
      · cases hStep
  | rnic =>
      obtain ⟨requests, hRequest, rfl⟩ := Option.map_eq_some_iff.mp hStep
      exact .request .rnic requests (by simp) (by simp) hRequest rfl
  | wakeReader i =>
      simp only [plainMachine] at hStep
      split at hStep
      · rename_i hi
        obtain ⟨gate, hGate, rfl⟩ := Option.map_eq_some_iff.mp hStep
        exact .gate gate (.wakeWaiter i hi hGate)
          (fun j hj => Or.inl (spuriousWaiter_entry hGate hj)) rfl
      · cases hStep
  | wakeMain =>
      obtain ⟨gate, hGate, rfl⟩ := Option.map_eq_some_iff.mp hStep
      refine .gate gate (.wakeOpener hGate) ?_ rfl
      intro j hj
      rw [spuriousOpener_waiter hGate] at hj
      exact Or.inl hj

/-- A step of main. -/
inductive PlainMainMove (p : PlainSweep) (s s' : PlainState) : Prop
  | createReader (i : Nat) (hpc : s.main = .create i)
      (hi : i < p.active_requests) (h : s' = s.createReader p i)
  | allCreated (i : Nat) (hpc : s.main = .create i)
      (hi : p.active_requests ≤ i) (h : s' = { s with main := .createRnic })
  | noRnic (hpc : s.main = .createRnic) (hFails : p.rnicFails = true)
      (h : s' = { s with
        requests := s.requests.startRnic true
        ret := -1
        main := .joinCreated 0 })
  | createRnic (hpc : s.main = .createRnic) (hFails : p.rnicFails = false)
      (h : s' = { s with
        requests := s.requests.startRnic false
        main := .opening false })
  | openGate (failed : Bool) (gate : GateState) (hpc : s.main = .opening failed)
      (hGate : s.gate.openStep (if failed then .gateOpenAfterCreated s.created
        else .gateOpen) = some gate)
      (h : s' = { s with gate := gate })
  | opened (failed : Bool) (hpc : s.main = .opening failed)
      (hOpener : s.gate.opener = .returned)
      (h : s' = { s with main := if failed then .joinCreated 0 else .join 0 })
  | join (i : Nat) (hpc : s.main = .join i) (hi : i < p.active_requests)
      (hFinished : s.readers.pc i = .finished)
      (h : s' = { s with main := .join (i + 1) })
  | allJoined (i : Nat) (hpc : s.main = .join i) (hi : p.active_requests ≤ i)
      (h : s' = { s with created := 0, main := .joinRnic })
  | joinRnic (hpc : s.main = .joinRnic) (hDead : s.requests.rnic = .dead)
      (h : s' = { s with main := .report })
  | report (hpc : s.main = .report)
      (h : s' = { s with
        report := some s.readers.totals, main := .joinCreated 0 })
  | joinCreated (i : Nat) (hpc : s.main = .joinCreated i) (hi : i < s.created)
      (hFinished : s.readers.pc i = .finished)
      (h : s' = { s.freeScratch i with main := .joinCreated (i + 1) })
  | createdJoined (i : Nat) (hpc : s.main = .joinCreated i)
      (hi : s.created ≤ i) (h : s' = { s with main := .freeRest s.created })
  | freeRest (i : Nat) (hpc : s.main = .freeRest i)
      (hi : i < p.active_requests)
      (h : s' = { s.freeScratch i with main := .freeRest (i + 1) })
  | allFreed (i : Nat) (hpc : s.main = .freeRest i)
      (hi : p.active_requests ≤ i) (h : s' = { s with main := .returned })

theorem plainMain_cases {p : PlainSweep} {s s' : PlainState}
    (hStep : s.mainStep p = some s') : PlainMainMove p s s' := by
  unfold PlainState.mainStep at hStep
  split at hStep
  · rename_i i hpc
    split at hStep
    · exact .createReader i hpc ‹_› (Option.some.inj hStep).symm
    · rename_i hi
      exact .allCreated i hpc (Nat.le_of_not_lt hi) (Option.some.inj hStep).symm
  · rename_i hpc
    dsimp only at hStep
    split at hStep
    · rename_i hFails
      rw [hFails] at hStep
      exact .noRnic hpc hFails (Option.some.inj hStep).symm
    · rename_i hFails
      have hFalse : p.rnicFails = false := by simpa using hFails
      rw [hFalse] at hStep
      exact .createRnic hpc hFalse (Option.some.inj hStep).symm
  · rename_i failed hpc
    split at hStep
    · exact .opened failed hpc ‹_› (Option.some.inj hStep).symm
    · obtain ⟨gate, hGate, hEq⟩ := Option.map_eq_some_iff.mp hStep
      exact .openGate failed gate hpc hGate hEq.symm
  · rename_i i hpc
    split at hStep
    · split at hStep
      · exact .join i hpc ‹_› ‹_› (Option.some.inj hStep).symm
      · cases hStep
    · rename_i hi
      exact .allJoined i hpc (Nat.le_of_not_lt hi) (Option.some.inj hStep).symm
  · rename_i hpc
    split at hStep
    · exact .joinRnic hpc ‹_› (Option.some.inj hStep).symm
    · cases hStep
  · exact .report ‹_› (Option.some.inj hStep).symm
  · rename_i i hpc
    split at hStep
    · split at hStep
      · exact .joinCreated i hpc ‹_› ‹_› (Option.some.inj hStep).symm
      · cases hStep
    · rename_i hi
      exact .createdJoined i hpc (Nat.le_of_not_lt hi)
        (Option.some.inj hStep).symm
  · rename_i i hpc
    split at hStep
    · exact .freeRest i hpc ‹_› (Option.some.inj hStep).symm
    · rename_i hi
      exact .allFreed i hpc (Nat.le_of_not_lt hi) (Option.some.inj hStep).symm
  · cases hStep

/-! ## Main -/

/-- The readers that get created: the ones in front of the first failure. -/
structure PlainSweep.Crew (p : PlainSweep) (n : Nat) : Prop where
  le : n ≤ p.active_requests
  created : ∀ i, i < n → p.createFails i = none
  stops : n < p.active_requests → p.createFails n ≠ none

theorem PlainSweep.exists_crew (p : PlainSweep) : ∃ n, p.Crew n := by
  by_cases hAll : ∀ i, i < p.active_requests → p.createFails i = none
  · exact ⟨p.active_requests, Nat.le_refl _, hAll,
      fun hLt => absurd hLt (Nat.lt_irrefl _)⟩
  · push Not at hAll
    obtain ⟨k, hk, hFails⟩ := hAll
    refine ⟨k, Nat.le_of_lt hk, ?_, fun _ => hFails⟩
    intro i hi
    by_contra hBad
    have hEq := Sweep.createFails_unique hBad hFails
    omega

/-- How the gate of a crew of `n` is opened. -/
def PlainSweep.openCall (p : PlainSweep) (n : Nat) : OpenCall :=
  if n = p.active_requests then .gateOpen else .gateOpenAfterCreated n

@[simp] theorem PlainSweep.openCall_waiters (p : PlainSweep) (n : Nat) :
    (p.openCall n).waiters p.active_requests = n := by
  unfold openCall
  split
  · rename_i h
    exact h.symm
  · rfl

/-- What main has done, by its position.  Past the gate the opener has
returned; without an RNIC thread main is in the clean-up without it. -/
def PlainPlace (p : PlainSweep) (n : Nat) (s : PlainState) : Prop :=
  match s.main with
  | .create i => i = s.started ∧ s.created = i ∧ s.requests.rnic = .unborn
  | .createRnic =>
      n = p.active_requests ∧ s.started = n ∧ s.created = n ∧
        s.requests.rnic = .unborn
  | .opening failed =>
      s.created = n ∧ (failed = true ↔ n < p.active_requests)
  | .join _ | .joinRnic | .report => s.gate.opener = .returned
  | .joinCreated i =>
      s.gate.opener = .returned ∨
        (s.created = s.started ∧ ∀ j, j < i → s.readers.pc j = .finished)
  | .freeRest _ | .returned =>
      s.gate.opener = .returned ∨
        ∀ j, j < s.started → s.readers.pc j = .finished

structure PlainMainInv (p : PlainSweep) (n : Nat) (s : PlainState) : Prop where
  place : PlainPlace p n s
  started_le : s.started ≤ n
  report : s.report = none ∨ s.gate.opener = .returned

section Main

variable {p : PlainSweep} {s s' : PlainState} {n : Nat}

/-- Steps of the other threads that leave the opener and the finished readers
where they are, and create no RNIC thread. -/
theorem PlainMainInv.congr (h : PlainMainInv p n s) (hMain : s'.main = s.main)
    (hStarted : s'.started = s.started) (hCreated : s'.created = s.created)
    (hReport : s'.report = s.report)
    (hUnborn : s.requests.rnic = .unborn → s'.requests.rnic = .unborn)
    (hOpener : s.gate.opener = .returned → s'.gate.opener = .returned)
    (hFinished : ∀ j, s.readers.pc j = .finished → s'.readers.pc j = .finished) :
    PlainMainInv p n s' where
  place := by
    have hPlace := h.place
    unfold PlainPlace at hPlace ⊢
    rw [hMain]
    cases hpc : s.main with
    | create i =>
        simp only [hpc] at hPlace ⊢
        rw [hStarted, hCreated]
        exact ⟨hPlace.1, hPlace.2.1, hUnborn hPlace.2.2⟩
    | createRnic =>
        simp only [hpc] at hPlace ⊢
        rw [hStarted, hCreated]
        exact ⟨hPlace.1, hPlace.2.1, hPlace.2.2.1, hUnborn hPlace.2.2.2⟩
    | opening failed =>
        simp only [hpc] at hPlace ⊢
        rw [hCreated]
        exact hPlace
    | join i =>
        simp only [hpc] at hPlace ⊢
        exact hOpener hPlace
    | joinRnic =>
        simp only [hpc] at hPlace ⊢
        exact hOpener hPlace
    | report =>
        simp only [hpc] at hPlace ⊢
        exact hOpener hPlace
    | joinCreated i =>
        simp only [hpc] at hPlace ⊢
        rw [hStarted, hCreated]
        exact hPlace.imp hOpener fun hClean =>
          ⟨hClean.1, fun j hj => hFinished j (hClean.2 j hj)⟩
    | freeRest i =>
        simp only [hpc] at hPlace ⊢
        rw [hStarted]
        exact hPlace.imp hOpener fun hDone j hj => hFinished j (hDone j hj)
    | returned =>
        simp only [hpc] at hPlace ⊢
        rw [hStarted]
        exact hPlace.imp hOpener fun hDone j hj => hFinished j (hDone j hj)
  started_le := by
    rw [hStarted]
    exact h.started_le
  report := by
    rw [hReport]
    exact h.report.imp id hOpener

theorem PlainMainInv.createReader {i : Nat} (h : PlainMainInv p n s)
    (hCrew : p.Crew n) (hpc : s.main = .create i) (hi : i < p.active_requests) :
    PlainMainInv p n (s.createReader p i) := by
  have hPlace := h.place
  have hLe := h.started_le
  have hn := hCrew.le
  simp only [PlainPlace, hpc] at hPlace
  obtain ⟨rfl, hCreated, hUnborn⟩ := hPlace
  -- A failure is at the end of the crew, a success in front of it.
  have hFails : p.createFails s.started ≠ none → s.started = n := by
    intro hBad
    by_contra hNe
    exact hBad (hCrew.created s.started (by omega))
  have hMore : p.createFails s.started = none → s.started < n := by
    intro hNone
    by_contra hNot
    have hEq : s.started = n := by omega
    exact hCrew.stops (by omega) (hEq ▸ hNone)
  unfold PlainState.createReader
  split
  · rename_i hNone
    have hLt := hMore hNone
    exact
      { place := ⟨rfl, by rw [hCreated], hUnborn⟩
        started_le := by
          show s.started + 1 ≤ n
          omega
        report := h.report }
  · rename_i hSome
    have hEq := hFails (by simp [hSome])
    exact
      { place := ⟨hCreated.trans hEq, by simp; omega⟩
        started_le := hLe
        report := h.report }
  · rename_i hSome
    have hEq := hFails (by simp [hSome])
    exact
      { place := ⟨hCreated.trans hEq, by simp; omega⟩
        started_le := hLe
        report := h.report }

theorem PlainMainInv.mainStep (h : PlainMainInv p n s) (hCrew : p.Crew n)
    (hStep : s.mainStep p = some s') : PlainMainInv p n s' := by
  have hPlace := h.place
  unfold PlainPlace at hPlace
  have hn := hCrew.le
  have hLe := h.started_le
  cases plainMain_cases hStep with
  | createReader i hpc hi hEq =>
      rw [hEq]
      exact h.createReader hCrew hpc hi
  | allCreated i hpc hi hEq =>
      simp only [hpc] at hPlace
      subst hEq
      exact ⟨⟨by omega, by show s.started = n; omega,
        by show s.created = n; omega, hPlace.2.2⟩, hLe, h.report⟩
  | noRnic hpc _ hEq =>
      simp only [hpc] at hPlace
      subst hEq
      exact ⟨Or.inr ⟨by show s.created = s.started; omega, by simp⟩, hLe,
        h.report⟩
  | createRnic hpc _ hEq =>
      simp only [hpc] at hPlace
      subst hEq
      exact ⟨⟨hPlace.2.2.1, by simp; omega⟩, hLe, h.report⟩
  | openGate failed gate hpc hGate hEq =>
      have hNot : s.gate.opener ≠ .returned := by
        intro hOpener
        simp [GateState.openStep, hOpener] at hGate
      refine hEq ▸ h.congr rfl rfl rfl rfl id (fun hBad => absurd hBad hNot)
        fun _ => id
  | opened failed hpc hOpener hEq =>
      subst hEq
      refine ⟨?_, hLe, Or.inr hOpener⟩
      unfold PlainPlace
      cases failed with
      | false => exact hOpener
      | true => exact Or.inl hOpener
  | join i hpc _ _ hEq =>
      simp only [hpc] at hPlace
      subst hEq
      exact ⟨hPlace, hLe, h.report⟩
  | allJoined i hpc _ hEq =>
      simp only [hpc] at hPlace
      subst hEq
      exact ⟨hPlace, hLe, h.report⟩
  | joinRnic hpc _ hEq =>
      simp only [hpc] at hPlace
      subst hEq
      exact ⟨hPlace, hLe, h.report⟩
  | report hpc hEq =>
      simp only [hpc] at hPlace
      subst hEq
      exact ⟨Or.inl hPlace, hLe, Or.inr hPlace⟩
  | joinCreated i hpc _ hFinished hEq =>
      simp only [hpc] at hPlace
      subst hEq
      refine ⟨hPlace.imp id fun hClean => ⟨hClean.1, ?_⟩, hLe, h.report⟩
      intro j hj
      rcases Nat.lt_succ_iff_lt_or_eq.mp hj with hOld | rfl
      · exact hClean.2 j hOld
      · exact hFinished
  | createdJoined i hpc hi hEq =>
      simp only [hpc] at hPlace
      subst hEq
      refine ⟨hPlace.imp id fun hClean j hj => hClean.2 j ?_, hLe, h.report⟩
      have hAll := hClean.1
      change j < s.started at hj
      omega
  | freeRest i hpc _ hEq =>
      simp only [hpc] at hPlace
      subst hEq
      exact ⟨hPlace, hLe, h.report⟩
  | allFreed i hpc _ hEq =>
      simp only [hpc] at hPlace
      subst hEq
      exact ⟨hPlace, hLe, h.report⟩

/-- Main reaches requests and gate only by creating the RNIC thread and by
opening the gate; the readers it leaves alone. -/
structure PlainMainFrame (p : PlainSweep) (s s' : PlainState) : Prop where
  readers : s'.readers = s.readers
  started : s.started ≤ s'.started
  requests : s'.requests = s.requests ∨
    s.main = .createRnic ∧ ∃ fails, s'.requests = s.requests.startRnic fails
  gate : s'.gate = s.gate ∨ ∃ failed, s.main = .opening failed ∧
    s.gate.openStep (if failed then .gateOpenAfterCreated s.created
      else .gateOpen) = some s'.gate

theorem plainMain_frame (hStep : s.mainStep p = some s') :
    PlainMainFrame p s s' := by
  have hSame : PlainMainFrame p s s := ⟨rfl, Nat.le_refl _, Or.inl rfl, Or.inl rfl⟩
  cases plainMain_cases hStep with
  | createReader i _ _ hEq =>
      subst hEq
      unfold PlainState.createReader
      split
      · exact { hSame with started := Nat.le_succ _ }
      · exact { hSame with }
      · exact { hSame with }
  | allCreated i _ _ hEq => exact hEq ▸ { hSame with }
  | noRnic hpc _ hEq =>
      exact hEq ▸ { hSame with requests := Or.inr ⟨hpc, true, rfl⟩ }
  | createRnic hpc _ hEq =>
      exact hEq ▸ { hSame with requests := Or.inr ⟨hpc, false, rfl⟩ }
  | openGate failed gate hpc hGate hEq =>
      exact hEq ▸ { hSame with gate := Or.inr ⟨failed, hpc, hGate⟩ }
  | opened failed _ _ hEq => exact hEq ▸ { hSame with }
  | join i _ _ _ hEq => exact hEq ▸ { hSame with }
  | allJoined i _ _ hEq => exact hEq ▸ { hSame with }
  | joinRnic _ _ hEq => exact hEq ▸ { hSame with }
  | report _ hEq => exact hEq ▸ { hSame with }
  | joinCreated i _ _ _ hEq => exact hEq ▸ { hSame with }
  | createdJoined i _ _ hEq => exact hEq ▸ { hSame with }
  | freeRest i _ _ hEq => exact hEq ▸ { hSame with }
  | allFreed i _ _ hEq => exact hEq ▸ { hSame with }

end Main

/-- Only main creates the RNIC thread. -/
theorem request_unborn {s s' : RequestState} {e : RequestEvent}
    (hStart : ∀ fails, e ≠ .start fails)
    (hStep : requestMachine.next s e = some s') (hUnborn : s.rnic = .unborn) :
    s'.rnic = .unborn := by
  cases e with
  | reader i now => rw [(plainReader_cases hStep).rnic, hUnborn]
  | rnic => simp [requestMachine, RequestState.rnicStep, hUnborn] at hStep
  | start fails => exact absurd rfl (hStart fails)

/-- A reader that has its answer keeps it. -/
theorem request_through {s s' : RequestState} {e : RequestEvent} {i : Nat}
    (hStep : requestMachine.next s e = some s') (hi : s.phase i = .through) :
    s'.phase i = .through := by
  cases e with
  | reader j now =>
      have hMove := plainReader_cases hStep
      by_cases hij : i = j
      · subst hij
        simp [requestMachine, RequestState.readerStep, hi] at hStep
      · rw [hMove.phase_other hij, hi]
  | rnic => rw [(plainRnic_cases hStep).phase, hi]
  | start fails =>
      simp only [requestMachine] at hStep
      split at hStep
      · obtain rfl := Option.some.inj hStep
        exact hi
      · cases hStep

section Reachable

variable {p : PlainSweep} {s s' : PlainState} {n : Nat}

theorem plain_mainInv (hCrew : p.Crew n) (hs : (plainMachine p).Reachable s) :
    PlainMainInv p n s := by
  refine hs.invariant ⟨⟨rfl, rfl, rfl⟩, Nat.zero_le _, Or.inl rfl⟩ ?_
  intro s e s' _ h hStep
  cases plain_cases hStep with
  | main hMain => exact h.mainStep hCrew hMain
  | request e requests _ hStart hRequest hEq =>
      exact hEq ▸ h.congr rfl rfl rfl rfl (request_unborn hStart hRequest) id
        fun _ => id
  | gate gate hMove _ hEq =>
      exact hEq ▸ h.congr rfl rfl rfl rfl id hMove.opener fun _ => id
  | copy i readers _ hReader hEq =>
      refine hEq ▸ h.congr rfl rfl rfl rfl id id fun j hj => ?_
      by_cases hji : j = i
      · subst hji
        simp [ReadersState.readerStep, hj] at hReader
      · exact (readerStep_other hReader hji).1 ▸ hj

theorem plain_projects_requests (hCrew : p.Crew n) :
    Machine.Projects (plainMachine p) requestMachine PlainState.requests where
  start := rfl
  step := by
    intro s e s' hs hStep
    cases plain_cases hStep with
    | main hMain =>
        rcases (plainMain_frame hMain).requests with hSame | ⟨hpc, fails, hEq⟩
        · exact Or.inl hSame
        · right
          have hPlace := (plain_mainInv hCrew hs).place
          simp only [PlainPlace, hpc] at hPlace
          refine ⟨.start fails, ?_⟩
          simp only [requestMachine]
          rw [if_pos hPlace.2.2.2, hEq]
    | request e requests _ _ hRequest hEq =>
        subst hEq
        exact Or.inr ⟨e, hRequest⟩
    | gate gate _ _ hEq =>
        subst hEq
        exact Or.inl rfl
    | copy i readers _ _ hEq =>
        subst hEq
        exact Or.inl rfl

theorem plain_projects_gate (hCrew : p.Crew n) :
    Machine.Projects (plainMachine p)
      (gateMachine p.active_requests (p.openCall n)) PlainState.gate where
  start := rfl
  step := by
    intro s e s' hs hStep
    have hMainInv := plain_mainInv hCrew hs
    have hLe := hMainInv.started_le
    have hn := hCrew.le
    cases plain_cases hStep with
    | main hMain =>
        rcases (plainMain_frame hMain).gate with hSame | ⟨failed, hpc, hOpen⟩
        · exact Or.inl hSame
        · right
          have hPlace := hMainInv.place
          simp only [PlainPlace, hpc] at hPlace
          refine ⟨.opens, ?_⟩
          have hCall : p.openCall n = if failed then
              .gateOpenAfterCreated s.created else .gateOpen := by
            unfold PlainSweep.openCall
            cases failed with
            | false =>
                have hNot : ¬ n < p.active_requests := by
                  simpa using hPlace.2
                rw [if_pos (by omega)]
                rfl
            | true =>
                have hLt := hPlace.2.mp rfl
                rw [if_neg (by omega), hPlace.1]
                rfl
          simp only [gateMachine]
          rw [hCall]
          exact hOpen
    | request e requests _ _ _ hEq =>
        subst hEq
        exact Or.inl rfl
    | gate gate hMove _ hEq =>
        subst hEq
        right
        cases hMove with
        | wait i hi h =>
            exact ⟨.wait i, (gateMachine_wait (by simp; omega)).trans h⟩
        | wakeWaiter i hi h =>
            exact ⟨.wakeWaiter i,
              (gateMachine_wakeWaiter (by simp; omega)).trans h⟩
        | wakeOpener h => exact ⟨.wakeOpener, h⟩
    | copy i readers _ _ hEq =>
        subst hEq
        exact Or.inl rfl

/-- Whoever has been counted in at the gate has its answer. -/
theorem plain_answered (hs : (plainMachine p).Reachable s) :
    ∀ i, s.gate.waiter i ≠ .entry → s.requests.phase i = .through := by
  refine hs.invariant (P := fun s => ∀ i, s.gate.waiter i ≠ .entry →
    s.requests.phase i = .through) (fun i hi => absurd rfl hi) ?_
  intro s e s' hReach h hStep i hi
  cases plain_cases hStep with
  | main hMain =>
      have hFrame := plainMain_frame hMain
      have hOld : s.gate.waiter i ≠ .entry := by
        rcases hFrame.gate with hSame | ⟨_, _, hOpen⟩
        · rwa [hSame] at hi
        · exact openStep_entry hOpen hi
      rcases hFrame.requests with hSame | ⟨_, fails, hEq⟩
      · rw [hSame]
        exact h i hOld
      · rw [hEq]
        exact h i hOld
  | request e requests _ _ hRequest hEq =>
      subst hEq
      exact request_through hRequest (h i hi)
  | gate gate _ hPhase hEq =>
      subst hEq
      rcases hPhase i hi with hOld | hThrough
      · exact h i hOld
      · exact hThrough
  | copy j readers _ _ hEq =>
      subst hEq
      exact h i hi

/-- A reader without a thread has not begun. -/
theorem plain_unborn (hs : (plainMachine p).Reachable s) :
    ∀ i, s.started ≤ i → s.requests.phase i = .begin := by
  refine hs.invariant (P := fun s => ∀ i, s.started ≤ i →
    s.requests.phase i = .begin) (fun _ _ => rfl) ?_
  intro s e s' _ h hStep i hi
  cases plain_cases hStep with
  | main hMain =>
      have hFrame := plainMain_frame hMain
      have hOld := h i (Nat.le_trans hFrame.started hi)
      rcases hFrame.requests with hSame | ⟨_, fails, hEq⟩
      · rw [hSame, hOld]
      · rw [hEq]
        exact hOld
  | request e requests hReader hStart hRequest hEq =>
      subst hEq
      have hOld := h i hi
      change s.started ≤ i at hi
      cases e with
      | reader j now =>
          have hj := hReader j now rfl
          exact ((plainReader_cases hRequest).phase_other (by omega)).trans hOld
      | rnic =>
          show requests.phase i = .begin
          rw [(plainRnic_cases hRequest).phase, hOld]
      | start fails => exact absurd rfl (hStart fails)
  | gate gate _ _ hEq =>
      subst hEq
      exact h i hi
  | copy j readers _ _ hEq =>
      subst hEq
      exact h i hi

theorem plain_gateInv (hCrew : p.Crew n) (hLimit : p.active_requests < 2 ^ 32)
    (hs : (plainMachine p).Reachable s) :
    GateInv p.active_requests (p.openCall n) s.gate := by
  have hn := hCrew.le
  exact gateMachine_inv (by simp; omega)
    ((plain_projects_gate hCrew).reachable hs)

/-- Some reader is without an answer, once there is a reader. -/
theorem plain_unanswered (hCrew : p.Crew n)
    (hs : (plainMachine p).Reachable s) (hStarted : 0 < s.started) :
    ∃ i, i < s.started ∧ s.requests.response_ready i = false ∧
      s.requests.phase i ≠ .through := by
  have hRequests := (plain_projects_requests hCrew).reachable hs
  obtain ⟨h, hQueue⟩ := requestMachine_inv hRequests
  cases hLast : s.requests.mpsc.order.getLast? with
  | some i =>
      obtain ⟨hDown, hWaits⟩ := requests_newest_unanswered hRequests hLast
      refine ⟨i, ?_, hDown, hWaits⟩
      by_contra hBig
      exact h.begun (List.mem_of_getLast? hLast)
        (plain_unborn hs i (Nat.le_of_not_lt hBig))
  | none =>
      -- Nothing has been enqueued, so nothing has been answered.
      have hNone := List.getLast?_eq_none_iff.mp hLast
      have hDown : s.requests.response_ready 0 = false := by
        by_contra hUp
        have hIn := (plainMpscMachine_returned hQueue).subset
          (h.flag 0 (by simpa using hUp))
        simp [hNone] at hIn
      refine ⟨0, hStarted, hDown, ?_⟩
      intro hThrough
      have hAt := h.reader 0
      simp [PlainReaderAt, hThrough, hNone] at hAt

/-- So the gate stays shut. -/
theorem plain_shut (hCrew : p.Crew n) (hLimit : p.active_requests < 2 ^ 32)
    (hs : (plainMachine p).Reachable s) (hStarted : 0 < s.started) :
    s.gate.opener ≠ .returned := by
  intro hOpener
  have hGate := plain_gateInv hCrew hLimit hs
  obtain ⟨i, hi, _, hWaits⟩ := plain_unanswered hCrew hs hStarted
  have hLe := (plain_mainInv hCrew hs).started_le
  have hArrived := hGate.arrived_of_open (hGate.isOpen.mpr hOpener) i
    (by simp; omega)
  exact hWaits (plain_answered hs i hArrived)

/-- Nobody copies before the gate is open. -/
theorem plain_readers (hCrew : p.Crew n) (hLimit : p.active_requests < 2 ^ 32)
    (hs : (plainMachine p).Reachable s) :
    s.readers = ReadersState.init p.scratch ∨ s.gate.opener = .returned := by
  refine hs.invariant (P := fun s => s.readers = ReadersState.init p.scratch ∨
    s.gate.opener = .returned) (Or.inl rfl) ?_
  intro s e s' hReach h hStep
  cases plain_cases hStep with
  | main hMain =>
      have hFrame := plainMain_frame hMain
      rw [hFrame.readers]
      refine h.imp id fun hOpener => ?_
      rcases hFrame.gate with hSame | ⟨failed, _, hOpen⟩
      · rw [hSame, hOpener]
      · simp [GateState.openStep, hOpener] at hOpen
  | request e requests _ _ _ hEq =>
      subst hEq
      exact h
  | gate gate hMove _ hEq =>
      subst hEq
      exact h.imp id hMove.opener
  | copy i readers hPassed _ hEq =>
      subst hEq
      have hGate := plain_gateInv hCrew hLimit hReach
      exact Or.inr (hGate.isOpen.mp (hGate.passed i hPassed))

end Reachable

/-- **The sweep of `test2-rdma.c` never finishes.**  As soon as one reader
exists, in every state of every run and whichever creation fails, the gate is
not open, some reader has no answer, no reader has copied anything, nothing is
reported and `run_one_sweep` has not returned. -/
theorem plainSweep_never_finishes (p : PlainSweep)
    (hLimit : p.active_requests < 2 ^ 32) {s : PlainState}
    (hs : (plainMachine p).Reachable s) (hStarted : 0 < s.started) :
    s.gate.opener ≠ .returned ∧
      (∃ i, i < s.started ∧ s.requests.response_ready i = false) ∧
      s.readers = ReadersState.init p.scratch ∧ s.report = none ∧
      s.main ≠ .returned := by
  obtain ⟨n, hCrew⟩ := p.exists_crew
  have hShut := plain_shut hCrew hLimit hs hStarted
  have hMainInv := plain_mainInv hCrew hs
  obtain ⟨i, hi, hDown, _⟩ := plain_unanswered hCrew hs hStarted
  have hReaders := (plain_readers hCrew hLimit hs).resolve_right hShut
  refine ⟨hShut, ⟨i, hi, hDown⟩, hReaders, hMainInv.report.resolve_right hShut, ?_⟩
  intro hMain
  have hPlace := hMainInv.place
  simp only [PlainPlace, hMain] at hPlace
  have hDone := hPlace.resolve_left hShut 0 hStarted
  rw [hReaders] at hDone
  cases hDone

/-- A sweep of two readers in which everything can be created. -/
def twoPlainReaders : PlainSweep where
  active_requests := 2
  copy_to_dst := true
  maps_scratch := false
  body :=
    { blocks := 1
      round := fun _ _ m => (m, { sum := 1, fail := false }) }
  failure := none
  scratch := fun _ _ => 0
  heap := rfl
  rnicFails := false

/-- Main creates everything and goes to sleep in `gate_open`, both readers
enqueue, the first one is answered and goes to sleep at the gate, and the RNIC
asks for more in vain. -/
def twoPlainSchedule : List PlainEvent :=
  List.replicate 5 .main ++ List.replicate 4 (.reader 0 0) ++
    List.replicate 4 (.reader 1 0) ++ List.replicate 9 .rnic ++
    [.reader 0 0, .reader 0 0] ++ List.replicate 10 .rnic ++ [.reader 1 0]

theorem plainSweep_never_finishes_two :
    let m := plainMachine twoPlainReaders
    let s := (m.exec m.start twoPlainSchedule).get (by decide)
    s.requests.response_ready 0 = true ∧ s.gate.waiter 0 = .asleep ∧
      s.gate.opener ≠ .returned ∧
      (∃ i, i < s.started ∧ s.requests.response_ready i = false) ∧
      s.readers = ReadersState.init twoPlainReaders.scratch ∧
      s.report = none ∧ s.main ≠ .returned := by
  intro m s
  have hs : m.Reachable s :=
    Machine.reachable_of_exec (Option.some_get _).symm
  exact ⟨by decide, by decide,
    plainSweep_never_finishes twoPlainReaders (by decide) hs (by decide)⟩

end MioBench.Sync
