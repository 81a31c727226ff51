import MioBench.Sync.Gate
import MioBench.Sync.Readers

/-!
# One sweep of reader threads

`run_one_sweep` of `test2.c` and `read_cumulative` of `test3-mt.c` are one
program: allocate a scratch buffer and create a thread for each reader, open
the gate, join everybody, report the totals, and clean up.  A failed allocation
or thread creation goes to the clean-up with the gate opened for the readers
there are.  The machine below runs main and the readers step by step; which
creation fails, if any, is a parameter.  `test3-mt.c` maps its scratch buffers
and frees them all the same, which is undefined; that comes after the report.
-/

namespace MioBench.Sync

open MioBench.Lib MioBench.Store

/-- The two ways creating a reader can fail. -/
inductive CreateFail
  | scratchAlloc
  | pthreadCreate
  deriving DecidableEq, Repr

/-- A buffer of `args`: `live` is from the heap and `mapped` from `mmap`. -/
inductive Buffer
  | null
  | live
  | mapped
  | freed
  | corrupted
  deriving DecidableEq, Repr

/-- `free`, undefined on what is not on the heap or not any more. -/
def Buffer.free : Buffer → Buffer
  | null => null
  | live => freed
  | mapped => corrupted
  | freed => corrupted
  | corrupted => corrupted

/-- What one sweep depends on. -/
structure Sweep where
  active_requests : Nat
  copy_to_dst : Bool
  /-- Whether `xaligned_alloc` calls `mmap`, not `posix_memalign`. -/
  maps_scratch : Bool
  body : ReaderLoop
  failure : Option (Nat × CreateFail)
  /-- What fresh scratch buffers hold. -/
  scratch : Nat → Memory

namespace Sweep

/-- What happens to the creation of reader `i`.  Without copying no buffer is
allocated, so none can be missing. -/
def createFails (p : Sweep) (i : Nat) : Option CreateFail :=
  match p.failure with
  | none => none
  | some (k, .scratchAlloc) =>
      if i = k ∧ p.copy_to_dst then some .scratchAlloc else none
  | some (k, .pthreadCreate) => if i = k then some .pthreadCreate else none

/-- One creation fails. -/
theorem createFails_unique {p : Sweep} {i k : Nat} (hi : p.createFails i ≠ none)
    (hk : p.createFails k ≠ none) : i = k := by
  unfold createFails at hi hk
  split at hi
  · exact absurd rfl hi
  · rename_i n hFailure
    simp only [hFailure] at hk
    split at hi
    · rename_i hAt
      split at hk
      · rename_i hAt'
        rw [hAt.1, hAt'.1]
      · exact absurd rfl hk
    · exact absurd rfl hi
  · rename_i n hFailure
    simp only [hFailure] at hk
    split at hi
    · rename_i hAt
      split at hk
      · rename_i hAt'
        rw [hAt, hAt']
      · exact absurd rfl hk
    · exact absurd rfl hi

/-- `copy_to_dst ? xaligned_alloc(block_bytes) : NULL`. -/
def newBuffer (p : Sweep) : Buffer :=
  if p.copy_to_dst then (if p.maps_scratch then .mapped else .live) else .null

end Sweep

/-- Where the main thread stands in the sweep. -/
inductive MainPc
  | create (i : Nat)
  | opening (failed : Bool)
  | join (i : Nat)
  | report
  | joinFree (i : Nat)
  | freeRest (i : Nat)
  | destroy
  | returned
  deriving DecidableEq, Repr

structure SweepState where
  gate : GateState
  readers : ReadersState
  main : MainPc
  /-- How many reader threads exist. -/
  started : Nat
  created : Nat
  ret : Int
  scratch : Nat → Buffer
  joined : Nat → Nat
  destroyed : Bool
  report : Option Totals

namespace SweepState

def init (p : Sweep) : SweepState where
  gate := GateState.gateInit p.active_requests
  readers := ReadersState.init p.scratch
  main := .create 0
  started := 0
  created := 0
  ret := 0
  scratch := fun _ => .null
  joined := fun _ => 0
  destroyed := false
  report := none

/-- `pthread_join(threads[i], NULL)`: it returns when reader `i` is done. -/
def pthreadJoin (s : SweepState) (i : Nat) : Option SweepState :=
  if s.readers.pc i = .finished then
    some { s with joined := Function.update s.joined i (s.joined i + 1) }
  else none

/-- `free(args[i].scratch)`. -/
def freeScratch (s : SweepState) (i : Nat) : SweepState :=
  { s with scratch := Function.update s.scratch i (s.scratch i).free }

/-- The creation of reader `i`. -/
def createReader (p : Sweep) (s : SweepState) (i : Nat) : SweepState :=
  match p.createFails i with
  | none =>
      { s with
        scratch := Function.update s.scratch i p.newBuffer
        started := s.started + 1
        created := s.created + 1
        main := .create (i + 1) }
  | some .scratchAlloc => { s with ret := -1, main := .opening true }
  | some .pthreadCreate =>
      { s with
        scratch := Function.update s.scratch i p.newBuffer
        ret := -1
        main := .opening true }

/-- The next step of the main thread. -/
def mainStep (p : Sweep) (s : SweepState) : Option SweepState :=
  match s.main with
  | .create i =>
      if i < p.active_requests then some (createReader p s i)
      else some { s with main := .opening false }
  | .opening failed =>
      if s.gate.opener = .returned then
        some { s with main := if failed then .joinFree 0 else .join 0 }
      else
        (s.gate.openStep
          (if failed then .gateOpenAfterCreated s.created else .gateOpen)).map
            fun gate => { s with gate := gate }
  | .join i =>
      if i < p.active_requests then
        (s.pthreadJoin i).map fun s => { s with main := .join (i + 1) }
      else some { s with created := 0, main := .report }
  | .report =>
      some { s with report := some s.readers.totals, main := .joinFree 0 }
  | .joinFree i =>
      if i < s.created then
        (s.pthreadJoin i).map fun s =>
          { s.freeScratch i with main := .joinFree (i + 1) }
      else some { s with main := .freeRest s.created }
  | .freeRest i =>
      if i < p.active_requests then
        some { s.freeScratch i with main := .freeRest (i + 1) }
      else some { s with main := .destroy }
  | .destroy => some { s with destroyed := true, main := .returned }
  | .returned => none

/-- The next step of reader `i`: through the gate, then through its loop. -/
def readerStep (p : Sweep) (s : SweepState) (i : Nat) : Option SweepState :=
  if s.gate.waiter i = .returned then
    (s.readers.readerStep p.body i).map fun readers =>
      { s with readers := readers }
  else (s.gate.gateWait i).map fun gate => { s with gate := gate }

end SweepState

/-- The steps of a sweep; the last two are spurious wake-ups. -/
inductive SweepEvent
  | main
  | reader (i : Nat)
  | wakeReader (i : Nat)
  | wakeMain
  deriving DecidableEq, Repr

def sweepMachine (p : Sweep) : Machine SweepState SweepEvent where
  start := SweepState.init p
  next s
    | .main => s.mainStep p
    | .reader i => if i < s.started then s.readerStep p i else none
    | .wakeReader i =>
        if i < s.started then
          (s.gate.spuriousWaiter i).map fun gate => { s with gate := gate }
        else none
    | .wakeMain =>
        s.gate.spuriousOpener.map fun gate => { s with gate := gate }

/-! ## What a step can do -/

/-- A step that only the gate sees, by one of the first `started` readers or by
a spurious wake-up. -/
inductive GateMove (started : Nat) (g g' : GateState) : Prop
  | wait (i : Nat) (hi : i < started) (h : g.gateWait i = some g')
  | wakeWaiter (i : Nat) (hi : i < started)
      (h : g.spuriousWaiter i = some g')
  | wakeOpener (h : g.spuriousOpener = some g')

/-- A step of a sweep is main's, or it is at the gate, or it is a reader's
behind the gate; the last two leave everything of main's alone. -/
theorem sweep_cases {p : Sweep} {s s' : SweepState} {e : SweepEvent}
    (hStep : (sweepMachine p).next s e = some s') :
    s.mainStep p = some s' ∨
    (∃ gate, GateMove s.started s.gate gate ∧ s' = { s with gate := gate }) ∨
    (∃ i readers, i < s.started ∧ s.gate.waiter i = .returned ∧
      s.readers.readerStep p.body i = some readers ∧
      s' = { s with readers := readers }) := by
  cases e with
  | main => exact Or.inl hStep
  | reader i =>
      simp only [sweepMachine, SweepState.readerStep] at hStep
      split at hStep
      · rename_i hi
        split at hStep
        · rename_i hPassed
          rcases Option.map_eq_some_iff.mp hStep with ⟨readers, hReader, rfl⟩
          exact Or.inr (Or.inr ⟨i, readers, hi, hPassed, hReader, rfl⟩)
        · rcases Option.map_eq_some_iff.mp hStep with ⟨gate, hGate, rfl⟩
          exact Or.inr (Or.inl ⟨gate, .wait i hi hGate, rfl⟩)
      · cases hStep
  | wakeReader i =>
      simp only [sweepMachine] at hStep
      split at hStep
      · rename_i hi
        rcases Option.map_eq_some_iff.mp hStep with ⟨gate, hGate, rfl⟩
        exact Or.inr (Or.inl ⟨gate, .wakeWaiter i hi hGate, rfl⟩)
      · cases hStep
  | wakeMain =>
      rcases Option.map_eq_some_iff.mp hStep with ⟨gate, hGate, rfl⟩
      exact Or.inr (Or.inl ⟨gate, .wakeOpener hGate, rfl⟩)

/-- A step of main. -/
inductive MainMove (p : Sweep) (s s' : SweepState) : Prop
  | createReader (i : Nat) (hpc : s.main = .create i)
      (hi : i < p.active_requests) (h : s' = s.createReader p i)
  | allCreated (i : Nat) (hpc : s.main = .create i)
      (hi : p.active_requests ≤ i) (h : s' = { s with main := .opening false })
  | openGate (failed : Bool) (gate : GateState) (hpc : s.main = .opening failed)
      (hOpener : s.gate.opener ≠ .returned)
      (hGate : s.gate.openStep (if failed then .gateOpenAfterCreated s.created
        else .gateOpen) = some gate)
      (h : s' = { s with gate := gate })
  | opened (failed : Bool) (hpc : s.main = .opening failed)
      (hOpener : s.gate.opener = .returned)
      (h : s' = { s with main := if failed then .joinFree 0 else .join 0 })
  | join (i : Nat) (hpc : s.main = .join i) (hi : i < p.active_requests)
      (hFinished : s.readers.pc i = .finished)
      (h : s' = { s with
        joined := Function.update s.joined i (s.joined i + 1)
        main := .join (i + 1) })
  | allJoined (i : Nat) (hpc : s.main = .join i) (hi : p.active_requests ≤ i)
      (h : s' = { s with created := 0, main := .report })
  | report (hpc : s.main = .report)
      (h : s' = { s with
        report := some s.readers.totals, main := .joinFree 0 })
  | joinFree (i : Nat) (hpc : s.main = .joinFree i) (hi : i < s.created)
      (hFinished : s.readers.pc i = .finished)
      (h : s' = { s with
        joined := Function.update s.joined i (s.joined i + 1)
        scratch := Function.update s.scratch i (s.scratch i).free
        main := .joinFree (i + 1) })
  | createdFreed (i : Nat) (hpc : s.main = .joinFree i) (hi : s.created ≤ i)
      (h : s' = { s with main := .freeRest s.created })
  | freeRest (i : Nat) (hpc : s.main = .freeRest i)
      (hi : i < p.active_requests)
      (h : s' = { s.freeScratch i with main := .freeRest (i + 1) })
  | allFreed (i : Nat) (hpc : s.main = .freeRest i)
      (hi : p.active_requests ≤ i) (h : s' = { s with main := .destroy })
  | destroy (hpc : s.main = .destroy)
      (h : s' = { s with destroyed := true, main := .returned })

theorem pthreadJoin_eq {s s' : SweepState} {i : Nat}
    (h : s.pthreadJoin i = some s') : s.readers.pc i = .finished ∧
      s' = { s with joined := Function.update s.joined i (s.joined i + 1) } := by
  unfold SweepState.pthreadJoin at h
  split at h
  · exact ⟨‹_›, (Option.some.inj h).symm⟩
  · cases h

theorem sweepMain_cases {p : Sweep} {s s' : SweepState}
    (hStep : s.mainStep p = some s') : MainMove p s s' := by
  unfold SweepState.mainStep at hStep
  split at hStep
  · rename_i i hpc
    split at hStep
    · exact .createReader i hpc ‹_› (Option.some.inj hStep).symm
    · rename_i hi
      exact .allCreated i hpc (Nat.le_of_not_lt hi) (Option.some.inj hStep).symm
  · rename_i failed hpc
    split at hStep
    · exact .opened failed hpc ‹_› (Option.some.inj hStep).symm
    · rcases Option.map_eq_some_iff.mp hStep with ⟨gate, hGate, hEq⟩
      exact .openGate failed gate hpc ‹_› hGate hEq.symm
  · rename_i i hpc
    split at hStep
    · rcases Option.map_eq_some_iff.mp hStep with ⟨s₁, hJoin, rfl⟩
      rcases pthreadJoin_eq hJoin with ⟨hFinished, rfl⟩
      exact .join i hpc ‹_› hFinished rfl
    · rename_i hi
      exact .allJoined i hpc (Nat.le_of_not_lt hi) (Option.some.inj hStep).symm
  · exact .report ‹_› (Option.some.inj hStep).symm
  · rename_i i hpc
    split at hStep
    · rcases Option.map_eq_some_iff.mp hStep with ⟨s₁, hJoin, rfl⟩
      rcases pthreadJoin_eq hJoin with ⟨hFinished, rfl⟩
      exact .joinFree i hpc ‹_› hFinished rfl
    · rename_i hi
      exact .createdFreed i hpc (Nat.le_of_not_lt hi)
        (Option.some.inj hStep).symm
  · rename_i i hpc
    split at hStep
    · exact .freeRest i hpc ‹_› (Option.some.inj hStep).symm
    · rename_i hi
      exact .allFreed i hpc (Nat.le_of_not_lt hi) (Option.some.inj hStep).symm
  · exact .destroy ‹_› (Option.some.inj hStep).symm
  · cases hStep

/-- And main takes each of these steps. -/
theorem MainMove.mainStep_eq {p : Sweep} {s s' : SweepState}
    (h : MainMove p s s') : s.mainStep p = some s' := by
  unfold SweepState.mainStep
  cases h with
  | createReader i hpc hi h => simp [hpc, hi, h]
  | allCreated i hpc hi h => simp [hpc, Nat.not_lt.mpr hi, h]
  | openGate failed gate hpc hOpener hGate h => simp [hpc, hOpener, hGate, h]
  | opened failed hpc hOpener h => simp [hpc, hOpener, h]
  | join i hpc hi hFinished h =>
      simp [hpc, hi, SweepState.pthreadJoin, hFinished, h]
  | allJoined i hpc hi h => simp [hpc, Nat.not_lt.mpr hi, h]
  | report hpc h => simp [hpc, h]
  | joinFree i hpc hi hFinished h =>
      simp [hpc, hi, SweepState.pthreadJoin, hFinished, SweepState.freeScratch, h]
  | createdFreed i hpc hi h => simp [hpc, Nat.not_lt.mpr hi, h]
  | freeRest i hpc hi h => simp [hpc, hi, h]
  | allFreed i hpc hi h => simp [hpc, Nat.not_lt.mpr hi, h]
  | destroy hpc h => simp [hpc, h]

/-! ## Where main stands -/

/-- No creation before reader `i` fails. -/
def Sweep.CreatesTo (p : Sweep) (i : Nat) : Prop :=
  ∀ j, j < i → p.createFails j = none

/-- What main's position says about the threads: which of them exist, who has
finished, and whether the gate is open. -/
def MainInv (p : Sweep) (s : SweepState) : Prop :=
  match s.main with
  | .create i =>
      i ≤ p.active_requests ∧ s.started = i ∧ s.created = i ∧
        p.CreatesTo i ∧ s.report = none
  | .opening false =>
      s.started = p.active_requests ∧ p.CreatesTo p.active_requests ∧
        s.report = none
  | .opening true =>
      s.started < p.active_requests ∧ s.created = s.started ∧
        p.CreatesTo s.started ∧ p.createFails s.started ≠ none ∧
        s.report = none
  | .join i =>
      s.started = p.active_requests ∧ p.CreatesTo p.active_requests ∧
        s.gate.opener = .returned ∧ s.report = none ∧
        ∀ j, j < i → s.readers.pc j = .finished
  | .report =>
      s.started = p.active_requests ∧ p.CreatesTo p.active_requests ∧
        s.gate.opener = .returned ∧
        ∀ j, j < p.active_requests → s.readers.pc j = .finished
  | .joinFree _ | .freeRest _ | .destroy | .returned =>
      s.started ≤ p.active_requests ∧ s.gate.opener = .returned ∧
        (s.report = none → s.started < p.active_requests ∧
          p.CreatesTo s.started ∧ p.createFails s.started ≠ none)

/-- Steps of the others keep what main knows: an open gate stays open and a
finished reader stays finished. -/
theorem MainInv.congr {p : Sweep} {s s' : SweepState} (h : MainInv p s)
    (hMain : s'.main = s.main) (hStarted : s'.started = s.started)
    (hCreated : s'.created = s.created) (hReport : s'.report = s.report)
    (hOpener : s.gate.opener = .returned → s'.gate.opener = .returned)
    (hFinished : ∀ j, s.readers.pc j = .finished →
      s'.readers.pc j = .finished) : MainInv p s' := by
  unfold MainInv at h ⊢
  rw [hMain, hStarted, hCreated, hReport]
  cases hpc : s.main with
  | create i => simpa only [hpc] using h
  | opening failed => cases failed <;> simpa only [hpc] using h
  | join i =>
      simp only [hpc] at h ⊢
      exact ⟨h.1, h.2.1, hOpener h.2.2.1, h.2.2.2.1,
        fun j hj => hFinished j (h.2.2.2.2 j hj)⟩
  | report =>
      simp only [hpc] at h ⊢
      exact ⟨h.1, h.2.1, hOpener h.2.2.1, fun j hj => hFinished j (h.2.2.2 j hj)⟩
  | joinFree i =>
      simp only [hpc] at h ⊢
      exact ⟨h.1, hOpener h.2.1, h.2.2⟩
  | freeRest i =>
      simp only [hpc] at h ⊢
      exact ⟨h.1, hOpener h.2.1, h.2.2⟩
  | destroy =>
      simp only [hpc] at h ⊢
      exact ⟨h.1, hOpener h.2.1, h.2.2⟩
  | returned =>
      simp only [hpc] at h ⊢
      exact ⟨h.1, hOpener h.2.1, h.2.2⟩

/-- Nothing but the opener's own steps moves an opener that has returned. -/
theorem GateMove.opener {started : Nat} {g g' : GateState}
    (h : GateMove started g g') (hOpener : g.opener = .returned) :
    g'.opener = .returned := by
  cases h with
  | wait i _ h =>
      rcases gateWait_opener h with hSame | hWake
      · rw [hSame, hOpener]
      · rw [hWake, hOpener]
        rfl
  | wakeWaiter i _ h =>
      unfold GateState.spuriousWaiter at h
      split at h
      · obtain rfl := Option.some.inj h
        exact hOpener
      · cases h
  | wakeOpener h => simp [GateState.spuriousOpener, hOpener] at h

/-- Whoever has passed the gate stays behind it, and nobody moves at the gate
who has not been started. -/
theorem GateMove.waiter {started : Nat} {g g' : GateState}
    (h : GateMove started g g') {j : Nat}
    (hj : g.waiter j = .returned ∨ (g.waiter j = .entry ∧ started ≤ j)) :
    g'.waiter j = g.waiter j := by
  have hFixed : (g.waiter j).wake = g.waiter j := by
    rcases hj with hPassed | hAway
    · rw [hPassed]
      rfl
    · rw [hAway.1]
      rfl
  cases h with
  | wait i hi h =>
      have hji : j ≠ i := by
        rintro rfl
        rcases hj with hPassed | hAway
        · simp [GateState.gateWait, hPassed] at h
        · omega
      exact CvPc.stays (gateWait_waiter h hji) hFixed
  | wakeWaiter i hi h =>
      have hji : j ≠ i := by
        rintro rfl
        rcases hj with hPassed | hAway
        · simp [GateState.spuriousWaiter, hPassed] at h
        · omega
      exact spuriousWaiter_waiter h hji
  | wakeOpener h => rw [spuriousOpener_waiter h]

/-- The creation of reader `i`: main goes on to the next one, or to the opening
for the readers there are. -/
theorem MainInv.createReader {p : Sweep} {s : SweepState} {i : Nat}
    (h : MainInv p s) (hpc : s.main = .create i)
    (hi : i < p.active_requests) : MainInv p (s.createReader p i) := by
  simp only [MainInv, hpc] at h
  rcases h with ⟨_, hStarted, hCreated, hTo, hReport⟩
  unfold SweepState.createReader
  cases hFail : p.createFails i with
  | none =>
      refine ⟨hi, by rw [hStarted], by rw [hCreated], ?_, hReport⟩
      intro j hj
      by_cases hLast : j = i
      · rw [hLast, hFail]
      · exact hTo j (by omega)
  | some kind =>
      have hOpening : s.started < p.active_requests ∧ s.created = s.started ∧
          p.CreatesTo s.started ∧ p.createFails s.started ≠ none ∧
          s.report = none := by
        rw [hStarted, hCreated]
        exact ⟨hi, rfl, hTo, by simp [hFail], hReport⟩
      cases kind with
      | scratchAlloc => exact hOpening
      | pthreadCreate => exact hOpening

theorem MainInv.mainStep {p : Sweep} {s s' : SweepState} (h : MainInv p s)
    (hStep : s.mainStep p = some s') : MainInv p s' := by
  cases sweepMain_cases hStep with
  | createReader i hpc hi hEq => exact hEq ▸ h.createReader hpc hi
  | allCreated i hpc hi hEq =>
      subst hEq
      simp only [MainInv, hpc] at h
      rcases h with ⟨hLe, hStarted, _, hTo, hReport⟩
      have hAll : i = p.active_requests := by omega
      rw [hAll] at hStarted hTo
      exact ⟨hStarted, hTo, hReport⟩
  | openGate failed gate hpc hOpener _ hEq =>
      subst hEq
      exact h.congr rfl rfl rfl rfl (fun hRet => absurd hRet hOpener)
        fun _ hj => hj
  | opened failed hpc hOpener hEq =>
      subst hEq
      cases failed with
      | false =>
          simp only [MainInv, hpc] at h
          exact ⟨h.1, h.2.1, hOpener, h.2.2, fun j hj => by omega⟩
      | true =>
          simp only [MainInv, hpc] at h
          exact ⟨Nat.le_of_lt h.1, hOpener, fun _ => ⟨h.1, h.2.2.1, h.2.2.2.1⟩⟩
  | join i hpc hi hFinished hEq =>
      subst hEq
      simp only [MainInv, hpc] at h
      refine ⟨h.1, h.2.1, h.2.2.1, h.2.2.2.1, ?_⟩
      intro j hj
      by_cases hLast : j = i
      · rw [hLast]
        exact hFinished
      · exact h.2.2.2.2 j (by omega)
  | allJoined i hpc hi hEq =>
      subst hEq
      simp only [MainInv, hpc] at h
      exact ⟨h.1, h.2.1, h.2.2.1, fun j hj => h.2.2.2.2 j (by omega)⟩
  | report hpc hEq =>
      subst hEq
      simp only [MainInv, hpc] at h
      exact ⟨Nat.le_of_eq h.1, h.2.2.1, fun hNone => by cases hNone⟩
  | joinFree i hpc hi hFinished hEq =>
      subst hEq
      simp only [MainInv, hpc] at h
      exact h
  | createdFreed i hpc hi hEq =>
      subst hEq
      simp only [MainInv, hpc] at h
      exact h
  | freeRest i hpc hi hEq =>
      subst hEq
      simp only [MainInv, hpc] at h
      exact h
  | allFreed i hpc hi hEq =>
      subst hEq
      simp only [MainInv, hpc] at h
      exact h
  | destroy hpc hEq =>
      subst hEq
      simp only [MainInv, hpc] at h
      exact h

theorem sweep_mainInv {p : Sweep} {s : SweepState}
    (hs : (sweepMachine p).Reachable s) : MainInv p s := by
  refine hs.invariant (P := MainInv p) ?_ ?_
  · exact ⟨Nat.zero_le _, rfl, rfl, fun j hj => absurd hj (Nat.not_lt_zero j),
      rfl⟩
  · intro s e s' _ h hStep
    rcases sweep_cases hStep with hMain | ⟨gate, hGate, rfl⟩ |
      ⟨i, readers, _, _, hReader, rfl⟩
    · exact h.mainStep hMain
    · exact h.congr rfl rfl rfl rfl hGate.opener fun _ hj => hj
    · exact h.congr rfl rfl rfl rfl id fun _ hj => readerStep_finished hReader hj

theorem MainInv.started_le {p : Sweep} {s : SweepState} (h : MainInv p s) :
    s.started ≤ p.active_requests := by
  unfold MainInv at h
  cases hpc : s.main with
  | create i =>
      simp only [hpc] at h
      omega
  | opening failed => cases failed <;> simp only [hpc] at h <;> omega
  | join i =>
      simp only [hpc] at h
      exact Nat.le_of_eq h.1
  | report =>
      simp only [hpc] at h
      exact Nat.le_of_eq h.1
  | joinFree i =>
      simp only [hpc] at h
      exact h.1
  | freeRest i =>
      simp only [hpc] at h
      exact h.1
  | destroy =>
      simp only [hpc] at h
      exact h.1
  | returned =>
      simp only [hpc] at h
      exact h.1

/-! ## The reported totals -/

/-- What main's steps do to the readers, the report and the gate: its report is
the readers' totals, and only its opening call reaches the gate. -/
structure MainStepFrame (s s' : SweepState) : Prop where
  readers : s'.readers = s.readers
  report : s'.report = s.report ∨
    (s.main = .report ∧ s'.report = some s.readers.totals)
  gate : s'.gate = s.gate ∨ ∃ failed, s.main = .opening failed ∧
    s.gate.openStep (if failed then .gateOpenAfterCreated s.created
      else .gateOpen) = some s'.gate

/-- A step that leaves all three alone. -/
theorem MainStepFrame.same {s s' : SweepState} (hReaders : s'.readers = s.readers)
    (hReport : s'.report = s.report) (hGate : s'.gate = s.gate) :
    MainStepFrame s s' where
  readers := hReaders
  report := Or.inl hReport
  gate := Or.inl hGate

theorem mainStep_frame {p : Sweep} {s s' : SweepState}
    (hStep : s.mainStep p = some s') : MainStepFrame s s' := by
  cases sweepMain_cases hStep with
  | createReader i _ _ hEq =>
      subst hEq
      unfold SweepState.createReader
      split <;> exact .same rfl rfl rfl
  | allCreated i _ _ hEq => exact hEq ▸ .same rfl rfl rfl
  | openGate failed gate hpc _ hGate hEq =>
      subst hEq
      exact
        { readers := rfl
          report := Or.inl rfl
          gate := Or.inr ⟨failed, hpc, hGate⟩ }
  | opened failed _ _ hEq => exact hEq ▸ .same rfl rfl rfl
  | join i _ _ _ hEq => exact hEq ▸ .same rfl rfl rfl
  | allJoined i _ _ hEq => exact hEq ▸ .same rfl rfl rfl
  | report hpc hEq =>
      subst hEq
      exact
        { readers := rfl
          report := Or.inr ⟨hpc, rfl⟩
          gate := Or.inl rfl }
  | joinFree i _ _ _ hEq => exact hEq ▸ .same rfl rfl rfl
  | createdFreed i _ _ hEq => exact hEq ▸ .same rfl rfl rfl
  | freeRest i _ _ hEq => exact hEq ▸ .same rfl rfl rfl
  | allFreed i _ _ hEq => exact hEq ▸ .same rfl rfl rfl
  | destroy _ hEq => exact hEq ▸ .same rfl rfl rfl

theorem sweep_projects_readers (p : Sweep) :
    Machine.Projects (sweepMachine p)
      (readersMachine p.active_requests p.body p.scratch)
      SweepState.readers where
  start := rfl
  step := by
    intro s e s' hs hStep
    have hStarted := (sweep_mainInv hs).started_le
    rcases sweep_cases hStep with hMain | ⟨gate, _, rfl⟩ |
      ⟨i, readers, hi, _, hReader, rfl⟩
    · exact Or.inl (mainStep_frame hMain).readers
    · exact Or.inl rfl
    · refine Or.inr ⟨i, ?_⟩
      simp only [readersMachine]
      rw [if_pos (by omega)]
      exact hReader

/-- Whatever a sweep reports, under whatever schedule, is the totals of all
the rounds of all its readers. -/
theorem sweep_report_eq {p : Sweep} {result : Nat → Nat → BlockRead}
    (hYields : p.body.Yields p.active_requests result)
    (hBlocks : p.body.blocks < 2 ^ 64) {s : SweepState}
    (hs : (sweepMachine p).Reachable s) {t : Totals}
    (hReport : s.report = some t) :
    t = crewTotals p.active_requests p.body.blocks result := by
  refine hs.invariant (P := fun s => ∀ t, s.report = some t →
    t = crewTotals p.active_requests p.body.blocks result) ?_ ?_ t hReport
  · intro t ht
    cases ht
  · intro s e s' hs h hStep t ht
    rcases sweep_cases hStep with hMain | ⟨gate, _, rfl⟩ |
      ⟨i, readers, _, _, _, rfl⟩
    · rcases (mainStep_frame hMain).report with hSame | ⟨hpc, hTotals⟩
      · exact h t (hSame ▸ ht)
      · have hMainInv := sweep_mainInv hs
        simp only [MainInv, hpc] at hMainInv
        have hReaders := readersMachine_inv hYields hBlocks
          ((sweep_projects_readers p).reachable hs)
        rw [hTotals] at ht
        rw [← Option.some.inj ht]
        exact hReaders.totals_eq hMainInv.2.2.2
    · exact h t ht
    · exact h t ht

/-! ## Progress -/

/-- No creation fails. -/
def Sweep.AllCreated (p : Sweep) : Prop := ∀ i, p.createFails i = none

/-- The gate of a sweep, where every opening is `call` and no more threads than
it waits for are started. -/
theorem sweep_projects_call {p : Sweep} {call : OpenCall}
    (hStarted : ∀ s, (sweepMachine p).Reachable s →
      s.started ≤ call.waiters p.active_requests)
    (hOpening : ∀ s failed, (sweepMachine p).Reachable s →
      s.main = .opening failed →
      (if failed then .gateOpenAfterCreated s.created else .gateOpen) = call) :
    Machine.Projects (sweepMachine p) (gateMachine p.active_requests call)
      SweepState.gate where
  start := rfl
  step := by
    intro s e s' hs hStep
    rcases sweep_cases hStep with hMain | ⟨gate, hGate, rfl⟩ |
      ⟨i, readers, _, _, _, rfl⟩
    · rcases (mainStep_frame hMain).gate with hSame | ⟨failed, hpc, hOpen⟩
      · exact Or.inl hSame
      · rw [hOpening s failed hs hpc] at hOpen
        exact Or.inr ⟨.opens, hOpen⟩
    · right
      cases hGate with
      | wait i hi h =>
          exact ⟨.wait i,
            (gateMachine_wait (Nat.lt_of_lt_of_le hi (hStarted s hs))).trans h⟩
      | wakeWaiter i hi h =>
          exact ⟨.wakeWaiter i, (gateMachine_wakeWaiter
            (Nat.lt_of_lt_of_le hi (hStarted s hs))).trans h⟩
      | wakeOpener h => exact ⟨.wakeOpener, h⟩
    · exact Or.inl rfl

/-- Without a failing creation the gate of a sweep is opened by `gate_open`. -/
theorem sweep_projects_gate {p : Sweep} (hNone : p.AllCreated) :
    Machine.Projects (sweepMachine p)
      (gateMachine p.active_requests .gateOpen) SweepState.gate := by
  refine sweep_projects_call (fun s hs => (sweep_mainInv hs).started_le) ?_
  intro s failed hs hpc
  have hMainInv := sweep_mainInv hs
  cases failed with
  | false => rfl
  | true =>
      simp only [MainInv, hpc] at hMainInv
      exact absurd (hNone s.started) hMainInv.2.2.2.1

/-- The events a thread brings about by itself. -/
def SweepEvent.OfThread : SweepEvent → Prop
  | main => True
  | reader _ => True
  | wakeReader _ => False
  | wakeMain => False

/-- Steps main still has to take before its report. -/
def MainPc.rank (n : Nat) : MainPc → Nat
  | create i => (n - i) + n + 5
  | opening _ => n + 4
  | join i => (n - i) + 2
  | report => 1
  | joinFree _ | freeRest _ | destroy | returned => 0

/-- Everything left to do before the report. -/
def sweepRank (p : Sweep) (s : SweepState) : Nat :=
  s.main.rank p.active_requests + s.gate.rank p.active_requests +
    ∑ i ∈ Finset.range p.active_requests, readerRank p.body s.readers i

/-- What is left to do at the gate and behind it. -/
def threadsRank (p : Sweep) (s : SweepState) : Nat :=
  s.gate.rank p.active_requests +
    ∑ i ∈ Finset.range p.active_requests, readerRank p.body s.readers i

theorem sweepRank_eq (p : Sweep) (s : SweepState) :
    sweepRank p s = s.main.rank p.active_requests + threadsRank p s :=
  Nat.add_assoc _ _ _

/-- Some thread has a step that brings the sweep closer to the end, where
`rank` says how far main is from it. -/
def Advances (p : Sweep) (rank : MainPc → Nat) (s : SweepState) : Prop :=
  ∃ e s', e.OfThread ∧ (sweepMachine p).next s e = some s' ∧
    rank s'.main + threadsRank p s' < rank s.main + threadsRank p s

section Rank

variable {p : Sweep} {s s' : SweepState} {rank : MainPc → Nat}

/-- A step of main that reaches neither the gate nor the readers. -/
theorem sweep_main_advances (hStep : s.mainStep p = some s')
    (hGate : s'.gate = s.gate) (hReaders : s'.readers = s.readers)
    (hLt : rank s'.main < rank s.main) : Advances p rank s := by
  refine ⟨.main, s', trivial, hStep, ?_⟩
  unfold threadsRank
  rw [hGate, hReaders]
  omega

/-- A step that main does not take. -/
theorem sweep_thread_advances {e : SweepEvent}
    (hStep : (sweepMachine p).next s e = some s') (he : e.OfThread)
    (hMain : s'.main = s.main)
    (hLt : threadsRank p s' < threadsRank p s) : Advances p rank s :=
  ⟨e, s', he, hStep, by rw [hMain]; omega⟩

theorem threadsRank_gate {gate : GateState}
    (hLt : gate.rank p.active_requests < s.gate.rank p.active_requests) :
    threadsRank p { s with gate := gate } < threadsRank p s :=
  Nat.add_lt_add_right hLt _

theorem threadsRank_readers {readers : ReadersState} {i : Nat}
    (hi : i < p.active_requests) (hBlocks : p.body.blocks < 2 ^ 64)
    (hStep : s.readers.readerStep p.body i = some readers) :
    threadsRank p { s with readers := readers } < threadsRank p s := by
  have hOwn := readerStep_rank hBlocks hStep
  have hSum := sum_range_change (f := fun j => readerRank p.body s.readers j)
    (g := fun j => readerRank p.body readers j) hi
    (by
      intro j hj
      have hSame := readerStep_other hStep hj
      simp only [readerRank, hSame.1, hSame.2])
  show _ + ∑ j ∈ Finset.range p.active_requests, readerRank p.body readers j <
    _ + ∑ j ∈ Finset.range p.active_requests, readerRank p.body s.readers j
  exact Nat.add_lt_add_left (by omega) _

variable {call : OpenCall}

/-- At an open gate a reader that has not finished has a useful step. -/
theorem sweep_reader_advances {i : Nat}
    (hGate : GateInv p.active_requests call s.gate)
    (hOpen : s.gate.opener = .returned) (hi : i < p.active_requests)
    (hWaiter : i < call.waiters p.active_requests)
    (hStarted : i < s.started) (hBlocks : p.body.blocks < 2 ^ 64)
    (hReader : s.readers.pc i ≠ .finished) : Advances p rank s := by
  have hNext : (sweepMachine p).next s (.reader i) = s.readerStep p i :=
    if_pos hStarted
  by_cases hPassed : s.gate.waiter i = .returned
  · rcases @readerStep_isSome p.body _ _ hReader with ⟨readers, hStep⟩
    have hTake : (sweepMachine p).next s (.reader i) =
        some { s with readers := readers } := by
      rw [hNext]
      simp [SweepState.readerStep, hPassed, hStep]
    exact sweep_thread_advances hTake trivial rfl
      (threadsRank_readers hi hBlocks hStep)
  · have hIsOpen := hGate.isOpen.mpr hOpen
    have hWoken := hGate.woken_of_open hIsOpen hWaiter hPassed
    rcases gateWait_rank hi (Or.inr ⟨hWoken, hIsOpen⟩) with
      ⟨gate, hStep, hLt⟩
    have hTake : (sweepMachine p).next s (.reader i) =
        some { s with gate := gate } := by
      rw [hNext]
      simp [SweepState.readerStep, hPassed, hStep]
    exact sweep_thread_advances hTake trivial rfl (threadsRank_gate hLt)

/-- Before the gate is open, an arrival or the opening is a useful step. -/
theorem sweep_gate_advances {failed : Bool}
    (hGate : GateInv p.active_requests call s.gate)
    (hMain : s.main = .opening failed)
    (hCall : (if failed then .gateOpenAfterCreated s.created
      else .gateOpen) = call)
    (hStarted : s.started = call.waiters p.active_requests)
    (hLe : s.started ≤ p.active_requests)
    (hOpener : s.gate.opener ≠ .returned) : Advances p rank s := by
  by_cases hAll : ∀ i, i < call.waiters p.active_requests →
      s.gate.waiter i ≠ .entry
  · rcases openStep_rank (n := p.active_requests) hGate hAll hOpener with
      ⟨gate, hStep, _, hLt⟩
    have hMove : MainMove p s { s with gate := gate } :=
      .openGate failed gate hMain hOpener (by rw [hCall, hStep]) rfl
    exact @sweep_thread_advances _ _ _ _ .main hMove.mainStep_eq trivial rfl
      (threadsRank_gate hLt)
  · push Not at hAll
    rcases hAll with ⟨i, hi, hEntry⟩
    rcases gateWait_rank (show i < p.active_requests by omega)
      (Or.inl hEntry) with ⟨gate, hStep, hLt⟩
    have hTake : (sweepMachine p).next s (.reader i) =
        some { s with gate := gate } := by
      show (if i < s.started then s.readerStep p i else none) = _
      rw [if_pos (by omega)]
      simp [SweepState.readerStep, hEntry, hStep]
    exact sweep_thread_advances hTake trivial rfl (threadsRank_gate hLt)

/-- While the gate is being opened, or some reader of an open gate has not
finished, main may have to wait but the sweep advances. -/
theorem sweep_opening_advances {failed : Bool}
    (hGate : GateInv p.active_requests call s.gate)
    (hMain : s.main = .opening failed)
    (hCall : (if failed then .gateOpenAfterCreated s.created
      else .gateOpen) = call)
    (hStarted : s.started = call.waiters p.active_requests)
    (hLe : s.started ≤ p.active_requests)
    (hLt : rank (if failed then .joinFree 0 else .join 0) < rank s.main) :
    Advances p rank s := by
  by_cases hOpener : s.gate.opener = .returned
  · have hMove := @MainMove.opened p _ _ failed hMain hOpener rfl
    exact sweep_main_advances hMove.mainStep_eq rfl rfl hLt
  · exact sweep_gate_advances hGate hMain hCall hStarted hLe hOpener

end Rank

/-- Without a failing creation some thread can always take a step that brings
the sweep closer to its report. -/
theorem sweep_advances {p : Sweep} (hNone : p.AllCreated)
    (hRequests : p.active_requests < 2 ^ 32) (hBlocks : p.body.blocks < 2 ^ 64)
    {s : SweepState} (hs : (sweepMachine p).Reachable s)
    (hReport : s.report = none) :
    Advances p (MainPc.rank p.active_requests) s := by
  have hMainInv := sweep_mainInv hs
  have hGate := @gateMachine_inv p.active_requests .gateOpen hRequests _
    ((sweep_projects_gate hNone).reachable hs)
  unfold MainInv at hMainInv
  cases hpc : s.main with
  | create i =>
      by_cases hi : i < p.active_requests
      · have hMove := MainMove.createReader i hpc hi rfl
        have hMain : (s.createReader p i).main = .create (i + 1) := by
          simp [SweepState.createReader, hNone i]
        apply sweep_main_advances hMove.mainStep_eq
        · simp [SweepState.createReader, hNone i]
        · simp [SweepState.createReader, hNone i]
        · rw [hpc, hMain]
          show p.active_requests - (i + 1) + p.active_requests + 5 <
            p.active_requests - i + p.active_requests + 5
          omega
      · have hMove := MainMove.allCreated i hpc (Nat.le_of_not_lt hi) rfl
        apply sweep_main_advances hMove.mainStep_eq rfl rfl
        rw [hpc]
        show p.active_requests + 4 < p.active_requests - i + p.active_requests + 5
        omega
  | opening failed =>
      cases failed with
      | false =>
          simp only [hpc] at hMainInv
          refine sweep_opening_advances hGate hpc rfl hMainInv.1
            (Nat.le_of_eq hMainInv.1) ?_
          rw [hpc]
          show p.active_requests - 0 + 2 < p.active_requests + 4
          omega
      | true =>
          simp only [hpc] at hMainInv
          exact absurd (hNone s.started) hMainInv.2.2.2.1
  | join i =>
      simp only [hpc] at hMainInv
      by_cases hi : i < p.active_requests
      · by_cases hFinished : s.readers.pc i = .finished
        · have hMove := MainMove.join i hpc hi hFinished rfl
          apply sweep_main_advances hMove.mainStep_eq rfl rfl
          rw [hpc]
          show p.active_requests - (i + 1) + 2 < p.active_requests - i + 2
          omega
        · exact sweep_reader_advances hGate hMainInv.2.2.1 hi hi (by omega)
            hBlocks hFinished
      · have hMove := MainMove.allJoined i hpc (Nat.le_of_not_lt hi) rfl
        apply sweep_main_advances hMove.mainStep_eq rfl rfl
        rw [hpc]
        show 1 < p.active_requests - i + 2
        omega
  | report =>
      have hMove := @MainMove.report p _ _ hpc rfl
      apply sweep_main_advances hMove.mainStep_eq rfl rfl
      rw [hpc]
      exact Nat.zero_lt_one
  | joinFree i =>
      simp only [hpc] at hMainInv
      exact absurd (hNone s.started) (hMainInv.2.2 hReport).2.2
  | freeRest i =>
      simp only [hpc] at hMainInv
      exact absurd (hNone s.started) (hMainInv.2.2 hReport).2.2
  | destroy =>
      simp only [hpc] at hMainInv
      exact absurd (hNone s.started) (hMainInv.2.2 hReport).2.2
  | returned =>
      simp only [hpc] at hMainInv
      exact absurd (hNone s.started) (hMainInv.2.2 hReport).2.2

/-- So every reachable sweep can be run to its report. -/
theorem sweep_reports {p : Sweep} (hNone : p.AllCreated)
    (hRequests : p.active_requests < 2 ^ 32) (hBlocks : p.body.blocks < 2 ^ 64)
    {s : SweepState} (hs : (sweepMachine p).Reachable s) :
    ∃ s', (sweepMachine p).Reaches s s' ∧ s'.report.isSome := by
  refine Machine.finishes_of_rank (sweepRank p) ?_ hs
  intro s hs hNotYet
  obtain ⟨e, s', _, hStep, hLt⟩ :=
    sweep_advances hNone hRequests hBlocks hs (by simpa using hNotYet)
  exact ⟨e, s', hStep, by simpa only [sweepRank_eq] using hLt⟩

end MioBench.Sync
