import MioBench.Lib.Transition
import MioBench.Lib.Threads

/-!
# The start gate

`struct start_gate` and its four functions, which `test2.c`, `test3-mt.c` and
the RDMA variants share word for word.  A mutex-protected section runs without
interruption up to the unlock or to the wait inside `pthread_cond_wait`, so a
section is one step.  `asleep` is a thread inside `pthread_cond_wait`, `woken`
one that has to take the mutex again and re-test its loop condition.
-/

namespace MioBench.Sync

open MioBench.Lib

/-- Where a thread stands in `gate_wait` or in `gate_open`. -/
inductive CvPc
  | entry
  | asleep
  | woken
  | returned
  deriving DecidableEq, Repr

namespace CvPc

/-- What a broadcast does to one thread. -/
def wake : CvPc → CvPc
  | asleep => woken
  | pc => pc

/-- The thread has something to run: it is not inside `pthread_cond_wait` and
has not returned. -/
def Runnable (pc : CvPc) : Prop := pc = entry ∨ pc = woken

@[simp] theorem wake_ne_asleep (pc : CvPc) : pc.wake ≠ asleep := by
  cases pc <;> simp [wake]

@[simp] theorem wake_eq_entry (pc : CvPc) : pc.wake = entry ↔ pc = entry := by
  cases pc <;> simp [wake]

@[simp] theorem wake_eq_returned (pc : CvPc) :
    pc.wake = returned ↔ pc = returned := by
  cases pc <;> simp [wake]

end CvPc

/-- `struct start_gate`, less the mutex and the condition variable. -/
structure StartGate where
  total : Nat
  ready : Nat
  isOpen : Bool
  deriving DecidableEq, Repr

/-- The gate with the position of every thread that uses it. -/
structure GateState where
  gate : StartGate
  waiter : Nat → CvPc
  opener : CvPc

namespace GateState

/-- `gate_init`, with nobody inside the gate yet. -/
def gateInit (total : Nat) : GateState where
  gate := { total := total, ready := 0, isOpen := false }
  waiter := fun _ => .entry
  opener := .entry

def setWaiter (s : GateState) (i : Nat) (pc : CvPc) : GateState :=
  { s with waiter := Function.update s.waiter i pc }

def setOpener (s : GateState) (pc : CvPc) : GateState :=
  { s with opener := pc }

/-- `pthread_cond_broadcast(&g->cv)`. -/
def broadcast (s : GateState) : GateState :=
  { s with waiter := fun i => (s.waiter i).wake, opener := s.opener.wake }

/-- `while (!g->open) pthread_cond_wait(..)` up to its next wait. -/
def gateWaitLoop (s : GateState) (i : Nat) : GateState :=
  if s.gate.isOpen then s.setWaiter i .returned else s.setWaiter i .asleep

/-- The count at the head of `gate_wait`: `ready` is a `uint32_t`. -/
def gateArrive (s : GateState) : GateState :=
  let s₁ : GateState :=
    { s with gate := { s.gate with ready := (s.gate.ready + 1) % 2 ^ 32 } }
  if s₁.gate.ready = s₁.gate.total then s₁.broadcast else s₁

/-- The next section of thread `i` in `gate_wait`. -/
def gateWait (s : GateState) (i : Nat) : Option GateState :=
  match s.waiter i with
  | .entry => some (s.gateArrive.gateWaitLoop i)
  | .woken => some (s.gateWaitLoop i)
  | .asleep => none
  | .returned => none

/-- `while (g->ready < g->total) pthread_cond_wait(..)` up to its next wait,
or through the opening broadcast to the unlock. -/
def gateOpenLoop (s : GateState) : GateState :=
  if s.gate.ready < s.gate.total then s.setOpener .asleep
  else
    ({ s with gate := { s.gate with isOpen := true } }.broadcast).setOpener
      .returned

end GateState

/-- The two ways of opening the gate. -/
inductive OpenCall
  | gateOpen
  | gateOpenAfterCreated (created : Nat)
  deriving DecidableEq, Repr

namespace OpenCall

/-- The first assignment of `gate_open_after_created`. -/
def enter (call : OpenCall) (g : StartGate) : StartGate :=
  match call with
  | gateOpen => g
  | gateOpenAfterCreated created => { g with total := created }

/-- How many threads come to a gate of `total` under this call. -/
def waiters (call : OpenCall) (total : Nat) : Nat :=
  match call with
  | gateOpen => total
  | gateOpenAfterCreated created => created

end OpenCall

namespace GateState

/-- The next section of the opener. -/
def openStep (call : OpenCall) (s : GateState) : Option GateState :=
  match s.opener with
  | .entry => some ({ s with gate := call.enter s.gate }.gateOpenLoop)
  | .woken => some s.gateOpenLoop
  | .asleep => none
  | .returned => none

/-- `pthread_cond_wait` of a waiter may return without a broadcast. -/
def spuriousWaiter (s : GateState) (i : Nat) : Option GateState :=
  if s.waiter i = .asleep then some (s.setWaiter i .woken) else none

/-- `pthread_cond_wait` of the opener may return without a broadcast. -/
def spuriousOpener (s : GateState) : Option GateState :=
  if s.opener = .asleep then some (s.setOpener .woken) else none

end GateState

/-- The steps at a gate. -/
inductive GateEvent
  | wait (i : Nat)
  | opens
  | wakeWaiter (i : Nat)
  | wakeOpener
  deriving DecidableEq, Repr

/-- The gate of `total`, opened by `call`, with `call.waiters total` threads
each calling `gate_wait` once. -/
def gateMachine (total : Nat) (call : OpenCall) :
    Machine GateState GateEvent where
  start := GateState.gateInit total
  next s
    | .wait i => if i < call.waiters total then s.gateWait i else none
    | .opens => s.openStep call
    | .wakeWaiter i => if i < call.waiters total then s.spuriousWaiter i else none
    | .wakeOpener => s.spuriousOpener

section Machine

variable {total : Nat} {call : OpenCall} {s : GateState} {i : Nat}

theorem gateMachine_wait (hi : i < call.waiters total) :
    (gateMachine total call).next s (.wait i) = s.gateWait i :=
  if_pos hi

theorem gateMachine_wakeWaiter (hi : i < call.waiters total) :
    (gateMachine total call).next s (.wakeWaiter i) = s.spuriousWaiter i :=
  if_pos hi

end Machine

/-! ## The invariant -/

/-- The waiters that have incremented `ready`. -/
def arrived (s : GateState) (i : Nat) : Bool := decide (s.waiter i ≠ .entry)

/-- What holds between any two sections.  `missing` is the clause that rules a
lost wake-up out: an opener asleep is still waiting for somebody. -/
structure GateInv (total : Nat) (call : OpenCall) (s : GateState) : Prop where
  ready : s.gate.ready = tally (call.waiters total) (arrived s)
  totalEntry : s.opener = .entry → s.gate.total = total
  totalLater : s.opener ≠ .entry → s.gate.total = call.waiters total
  isOpen : s.gate.isOpen = true ↔ s.opener = .returned
  full : s.gate.isOpen = true → s.gate.ready = call.waiters total
  awake : s.gate.isOpen = true → ∀ i, s.waiter i ≠ .asleep
  passed : ∀ i, s.waiter i = .returned → s.gate.isOpen = true
  missing : s.opener = .asleep → s.gate.ready < call.waiters total

namespace GateState

@[simp] theorem arrived_setWaiter (s : GateState) (i : Nat) (pc : CvPc) :
    arrived (s.setWaiter i pc) i = decide (pc ≠ .entry) := by
  simp [arrived, setWaiter]

theorem arrived_setWaiter_ne (s : GateState) {i j : Nat} (pc : CvPc)
    (h : j ≠ i) : arrived (s.setWaiter i pc) j = arrived s j := by
  simp [arrived, setWaiter, h]

@[simp] theorem arrived_broadcast (s : GateState) :
    arrived s.broadcast = arrived s := by
  funext i
  simp [arrived, broadcast]

@[simp] theorem arrived_setOpener (s : GateState) (pc : CvPc) :
    arrived (s.setOpener pc) = arrived s := rfl

end GateState

open GateState

theorem gateInit_inv (total : Nat) (call : OpenCall) :
    GateInv total call (gateInit total) where
  ready := by simp [gateInit, arrived, tally]
  totalEntry := fun _ => rfl
  totalLater := by simp [gateInit]
  isOpen := by simp [gateInit]
  full := by simp [gateInit]
  awake := by simp [gateInit]
  passed := by simp [gateInit]
  missing := by simp [gateInit]

/-- A waiter that moves between two positions inside the gate keeps the
invariant, as long as it neither sleeps at an open gate nor leaves a closed
one. -/
theorem GateInv.setWaiter {total : Nat} {call : OpenCall} {s : GateState}
    (h : GateInv total call s) {i : Nat} {pc : CvPc}
    (hHere : s.waiter i ≠ .entry) (hpc : pc ≠ .entry)
    (hSleep : s.gate.isOpen = true → pc ≠ .asleep)
    (hPass : pc = .returned → s.gate.isOpen = true) :
    GateInv total call (s.setWaiter i pc) where
  ready := by
    have hSame : arrived (s.setWaiter i pc) = arrived s := by
      funext j
      by_cases hj : j = i
      · subst j
        simp [arrived, GateState.setWaiter, hHere, hpc]
      · exact arrived_setWaiter_ne s pc hj
    rw [hSame]
    exact h.ready
  totalEntry := h.totalEntry
  totalLater := h.totalLater
  isOpen := h.isOpen
  full := h.full
  awake := by
    intro hOpen j
    by_cases hj : j = i
    · subst j
      simpa [GateState.setWaiter] using hSleep hOpen
    · simpa [GateState.setWaiter, hj] using h.awake hOpen j
  passed := by
    intro j hj
    by_cases hji : j = i
    · subst j
      exact hPass (by simpa [GateState.setWaiter] using hj)
    · exact h.passed j (by simpa [GateState.setWaiter, hji] using hj)
  missing := h.missing

/-- The loop of `gate_wait`, from a thread that has already counted itself. -/
theorem GateInv.gateWaitLoop {total : Nat} {call : OpenCall} {s : GateState}
    (h : GateInv total call s) {i : Nat} (hHere : s.waiter i ≠ .entry) :
    GateInv total call (s.gateWaitLoop i) := by
  unfold GateState.gateWaitLoop
  split
  · rename_i hOpen
    exact h.setWaiter hHere (by simp) (by simp) (fun _ => hOpen)
  · rename_i hClosed
    exact h.setWaiter hHere (by simp) (fun hOpen => absurd hOpen hClosed)
      (by simp)

/-- The state in which thread `i` has counted itself and stands before the
loop: `woken`, since that is where a thread re-tests the loop condition. -/
private theorem gateWait_entry_eq (s : GateState) (i : Nat) :
    s.gateArrive.gateWaitLoop i =
      ((s.gateArrive).setWaiter i .woken).gateWaitLoop i := by
  unfold GateState.gateWaitLoop
  simp only [GateState.setWaiter, Function.update_idem]

/-- Counting oneself in: the last arrival of the current `total` wakes the
opener, so an opener that stays asleep still misses somebody. -/
theorem GateInv.gateArrive {total : Nat} {call : OpenCall} {s : GateState}
    (hTotal : call.waiters total < 2 ^ 32) (h : GateInv total call s) {i : Nat}
    (hi : i < call.waiters total) (hEntry : s.waiter i = .entry) :
    GateInv total call (s.gateArrive.setWaiter i .woken) := by
  have hAbsent : arrived s i = false := by simp [arrived, hEntry]
  have hChange := tally_change (p := arrived s)
    (q := arrived (s.setWaiter i .woken)) hi
    (fun j hj => arrived_setWaiter_ne s .woken hj)
  have hCount : tally (call.waiters total) (arrived (s.setWaiter i .woken)) =
      s.gate.ready + 1 := by
    rw [hAbsent, arrived_setWaiter] at hChange
    rw [h.ready]
    simpa using hChange
  have hBound := tally_le (call.waiters total)
    (arrived (s.setWaiter i .woken))
  have hMod : (s.gate.ready + 1) % 2 ^ 32 = s.gate.ready + 1 :=
    Nat.mod_eq_of_lt (by omega)
  have hClosed : s.gate.isOpen = false := by
    cases hOpen : s.gate.isOpen with
    | false => rfl
    | true =>
        have hFull := h.full hOpen
        omega
  have hOpener : s.opener ≠ .returned := fun hRet => by
    have hOpen := h.isOpen.mpr hRet
    simp [hClosed] at hOpen
  have hNotPassed : ∀ j, s.waiter j ≠ .returned := fun j hj => by
    have hOpen := h.passed j hj
    simp [hClosed] at hOpen
  unfold GateState.gateArrive
  dsimp only
  rw [hMod]
  split
  · rename_i hLast
    exact
      { ready := by
          rw [← hCount]
          apply tally_congr
          intro j _
          by_cases hj : j = i
          · subst j
            simp
          · rw [arrived_setWaiter_ne _ _ hj, arrived_setWaiter_ne _ _ hj,
              arrived_broadcast]
            rfl
        totalEntry := by
          simpa [GateState.setWaiter, GateState.broadcast] using h.totalEntry
        totalLater := by
          simpa [GateState.setWaiter, GateState.broadcast] using h.totalLater
        isOpen := by
          simp [GateState.setWaiter, GateState.broadcast, hClosed, hOpener]
        full := by simp [GateState.setWaiter, GateState.broadcast, hClosed]
        awake := by simp [GateState.setWaiter, GateState.broadcast, hClosed]
        passed := by
          intro j hj
          by_cases hji : j = i
          · subst j
            simp [GateState.setWaiter] at hj
          · simp [GateState.setWaiter, GateState.broadcast, hji] at hj
            exact absurd hj (hNotPassed j)
        missing := by simp [GateState.setWaiter, GateState.broadcast] }
  · rename_i hMore
    exact
      { ready := by
          rw [← hCount]
          rfl
        totalEntry := h.totalEntry
        totalLater := h.totalLater
        isOpen := h.isOpen
        full := by simp [GateState.setWaiter, hClosed]
        awake := by simp [GateState.setWaiter, hClosed]
        passed := by
          intro j hj
          by_cases hji : j = i
          · subst j
            simp [GateState.setWaiter] at hj
          · simp [GateState.setWaiter, hji] at hj
            exact absurd hj (hNotPassed j)
        missing := by
          intro hAsleep
          have hNow : s.gate.total = call.waiters total :=
            h.totalLater (by
              intro hBad
              simp [GateState.setWaiter] at hAsleep
              simp [hBad] at hAsleep)
          show s.gate.ready + 1 < call.waiters total
          have hNe : s.gate.ready + 1 ≠ s.gate.total := hMore
          omega }

theorem GateInv.gateWait {total : Nat} {call : OpenCall} {s s' : GateState}
    (hTotal : call.waiters total < 2 ^ 32) (h : GateInv total call s) {i : Nat}
    (hi : i < call.waiters total) (hStep : s.gateWait i = some s') :
    GateInv total call s' := by
  unfold GateState.gateWait at hStep
  split at hStep
  · rename_i hEntry
    obtain rfl := Option.some.inj hStep
    rw [gateWait_entry_eq]
    exact (h.gateArrive hTotal hi hEntry).gateWaitLoop
      (by simp [GateState.setWaiter])
  · rename_i hWoken
    obtain rfl := Option.some.inj hStep
    exact h.gateWaitLoop (by simp [hWoken])
  · cases hStep
  · cases hStep

/-- The loop of the opener, once `total` is the number of waiters. -/
theorem GateInv.gateOpenLoop {total : Nat} {call : OpenCall} {s : GateState}
    (h : GateInv total call s) (hNow : s.opener ≠ .entry)
    (hNotBack : s.opener ≠ .returned) :
    GateInv total call s.gateOpenLoop := by
  have hTotal := h.totalLater hNow
  have hBound := tally_le (call.waiters total) (arrived s)
  have hReady := h.ready
  have hClosed : s.gate.isOpen = false := by
    cases hOpen : s.gate.isOpen with
    | false => rfl
    | true => exact absurd (h.isOpen.mp hOpen) hNotBack
  unfold GateState.gateOpenLoop
  split
  · rename_i hMiss
    exact
      { ready := h.ready
        totalEntry := by simp [GateState.setOpener]
        totalLater := fun _ => hTotal
        isOpen := by simp [GateState.setOpener, hClosed]
        full := h.full
        awake := h.awake
        passed := h.passed
        missing := fun _ => by
          rw [hTotal] at hMiss
          exact hMiss }
  · rename_i hAll
    exact
      { ready := by
          rw [arrived_setOpener, arrived_broadcast]
          exact h.ready
        totalEntry := by simp [GateState.setOpener]
        totalLater := fun _ => hTotal
        isOpen := by simp [GateState.setOpener, GateState.broadcast]
        full := fun _ => by
          show s.gate.ready = call.waiters total
          omega
        awake := by simp [GateState.setOpener, GateState.broadcast]
        passed := by simp [GateState.setOpener, GateState.broadcast]
        missing := by simp [GateState.setOpener] }

theorem GateInv.openStep {total : Nat} {call : OpenCall} {s s' : GateState}
    (h : GateInv total call s) (hStep : s.openStep call = some s') :
    GateInv total call s' := by
  unfold GateState.openStep at hStep
  split at hStep
  · rename_i hEntry
    obtain rfl := Option.some.inj hStep
    -- The loop is entered from a state that differs by the new `total` only.
    let s₁ : GateState :=
      { s with gate := call.enter s.gate, opener := .woken }
    have hEnter : (call.enter s.gate).total = call.waiters total := by
      cases call with
      | gateOpen => exact h.totalEntry hEntry
      | gateOpenAfterCreated created => rfl
    have hGate : (call.enter s.gate).ready = s.gate.ready ∧
        (call.enter s.gate).isOpen = s.gate.isOpen := by
      cases call <;> exact ⟨rfl, rfl⟩
    have hClosed : s.gate.isOpen = false := by
      cases hOpen : s.gate.isOpen with
      | false => rfl
      | true => simp [h.isOpen.mp hOpen] at hEntry
    have hInv : GateInv total call s₁ :=
      { ready := hGate.1.trans h.ready
        totalEntry := by simp [s₁]
        totalLater := fun _ => hEnter
        isOpen := by simp [s₁, hGate.2, hClosed]
        full := by simp [s₁, hGate.2, hClosed]
        awake := by simp [s₁, hGate.2, hClosed]
        passed := by
          intro i hi
          simp [h.passed i hi] at hClosed
        missing := by simp [s₁] }
    have hLoop := hInv.gateOpenLoop (by simp [s₁]) (by simp [s₁])
    have hSame : s₁.gateOpenLoop =
        { s with gate := call.enter s.gate }.gateOpenLoop := by
      simp [s₁, GateState.gateOpenLoop, GateState.setOpener,
        GateState.broadcast]
    rw [← hSame]
    exact hLoop
  · rename_i hWoken
    obtain rfl := Option.some.inj hStep
    exact h.gateOpenLoop (by simp [hWoken]) (by simp [hWoken])
  · cases hStep
  · cases hStep

theorem GateInv.spuriousWaiter {total : Nat} {call : OpenCall}
    {s s' : GateState} (h : GateInv total call s) {i : Nat}
    (hStep : s.spuriousWaiter i = some s') : GateInv total call s' := by
  unfold GateState.spuriousWaiter at hStep
  split at hStep
  · rename_i hAsleep
    obtain rfl := Option.some.inj hStep
    exact h.setWaiter (by simp [hAsleep]) (by simp) (by simp) (by simp)
  · cases hStep

theorem GateInv.spuriousOpener {total : Nat} {call : OpenCall}
    {s s' : GateState} (h : GateInv total call s)
    (hStep : s.spuriousOpener = some s') : GateInv total call s' := by
  unfold GateState.spuriousOpener at hStep
  split at hStep
  · rename_i hAsleep
    obtain rfl := Option.some.inj hStep
    have hTotal := h.totalLater (by simp [hAsleep])
    exact
      { ready := h.ready
        totalEntry := by simp [GateState.setOpener]
        totalLater := fun _ => hTotal
        isOpen := by
          have hClosed := h.isOpen
          simpa [GateState.setOpener, hAsleep] using hClosed
        full := h.full
        awake := h.awake
        passed := h.passed
        missing := by simp [GateState.setOpener] }
  · cases hStep

theorem gateMachine_inv {total : Nat} {call : OpenCall}
    (hTotal : call.waiters total < 2 ^ 32) {s : GateState}
    (hs : (gateMachine total call).Reachable s) : GateInv total call s := by
  refine hs.invariant (gateInit_inv total call) ?_
  intro s e s' _ h hStep
  cases e with
  | wait i =>
      simp only [gateMachine] at hStep
      split at hStep
      · rename_i hi
        exact h.gateWait hTotal hi hStep
      · cases hStep
  | opens => exact h.openStep hStep
  | wakeWaiter i =>
      simp only [gateMachine] at hStep
      split at hStep
      · exact h.spuriousWaiter hStep
      · cases hStep
  | wakeOpener => exact h.spuriousOpener hStep

/-! ## The barrier, and no lost wake-up -/

/-- The gate opens only after everybody is counted in. -/
theorem GateInv.arrived_of_open {total : Nat} {call : OpenCall}
    {s : GateState} (h : GateInv total call s) (hOpen : s.gate.isOpen = true) :
    ∀ j, j < call.waiters total → s.waiter j ≠ .entry := by
  have hFull := h.full hOpen
  rw [h.ready] at hFull
  intro j hj
  simpa [arrived] using all_of_tally_eq hFull j hj

/-- A waiter that has passed found everybody counted in. -/
theorem GateInv.all_arrived {total : Nat} {call : OpenCall} {s : GateState}
    (h : GateInv total call s) {i : Nat} (hi : s.waiter i = .returned) :
    ∀ j, j < call.waiters total → s.waiter j ≠ .entry :=
  h.arrived_of_open (h.passed i hi)

/-- At an open gate, a waiter that has not passed is awake inside the loop. -/
theorem GateInv.woken_of_open {total : Nat} {call : OpenCall} {s : GateState}
    (h : GateInv total call s) (hOpen : s.gate.isOpen = true) {i : Nat}
    (hi : i < call.waiters total) (hNot : s.waiter i ≠ .returned) :
    s.waiter i = .woken := by
  have hArrived := h.arrived_of_open hOpen i hi
  have hAwake := h.awake hOpen i
  cases hpc : s.waiter i with
  | entry => exact absurd hpc hArrived
  | asleep => exact absurd hpc hAwake
  | woken => rfl
  | returned => exact absurd hpc hNot

/-- While somebody is still at the gate, somebody there can run. -/
theorem GateInv.exists_runnable {total : Nat} {call : OpenCall}
    {s : GateState} (h : GateInv total call s)
    (hUndone : s.opener ≠ .returned ∨
      ∃ i, i < call.waiters total ∧ s.waiter i ≠ .returned) :
    s.opener.Runnable ∨
      ∃ i, i < call.waiters total ∧ (s.waiter i).Runnable := by
  cases hOpener : s.opener with
  | entry => exact Or.inl (Or.inl rfl)
  | woken => exact Or.inl (Or.inr rfl)
  | asleep =>
      have hMiss := h.missing hOpener
      rw [h.ready] at hMiss
      obtain ⟨i, hi, hAbsent⟩ := exists_of_tally_lt hMiss
      exact Or.inr ⟨i, hi, Or.inl (by simpa [arrived] using hAbsent)⟩
  | returned =>
      have hOpen := h.isOpen.mpr hOpener
      obtain hBad | ⟨i, hi, hNot⟩ := hUndone
      · exact absurd hOpener hBad
      · have hAwake := h.awake hOpen i
        refine Or.inr ⟨i, hi, ?_⟩
        cases hPc : s.waiter i with
        | entry => exact Or.inl rfl
        | woken => exact Or.inr rfl
        | asleep => exact absurd hPc hAwake
        | returned => exact absurd hPc hNot

theorem gateWait_isSome {s : GateState} {i : Nat}
    (h : (s.waiter i).Runnable) : (s.gateWait i).isSome := by
  rcases h with h | h <;> simp [GateState.gateWait, h]

theorem openStep_isSome {call : OpenCall} {s : GateState}
    (h : s.opener.Runnable) : (s.openStep call).isSome := by
  rcases h with h | h <;> simp [GateState.openStep, h]

/-! ## Frames -/

@[simp] theorem gateWaitLoop_opener (s : GateState) (i : Nat) :
    (s.gateWaitLoop i).opener = s.opener := by
  unfold gateWaitLoop
  split <;> rfl

/-- Only the broadcast of the last arrival reaches the opener. -/
theorem gateWait_opener {s s' : GateState} {i : Nat}
    (hStep : s.gateWait i = some s') :
    s'.opener = s.opener ∨ s'.opener = s.opener.wake := by
  unfold GateState.gateWait at hStep
  split at hStep
  · obtain rfl := Option.some.inj hStep
    rw [gateWaitLoop_opener]
    simp only [GateState.gateArrive]
    split
    · exact Or.inr rfl
    · exact Or.inl rfl
  · obtain rfl := Option.some.inj hStep
    exact Or.inl (gateWaitLoop_opener s i)
  · cases hStep
  · cases hStep

/-- A section reaches the other waiters through a broadcast only. -/
theorem gateWait_waiter {s s' : GateState} {i j : Nat}
    (hStep : s.gateWait i = some s') (hji : j ≠ i) :
    s'.waiter j = s.waiter j ∨ s'.waiter j = (s.waiter j).wake := by
  have hLoop : ∀ g : GateState, (g.gateWaitLoop i).waiter j = g.waiter j := by
    intro g
    unfold GateState.gateWaitLoop
    split <;> simp [GateState.setWaiter, hji]
  unfold GateState.gateWait at hStep
  split at hStep
  · obtain rfl := Option.some.inj hStep
    rw [hLoop]
    simp only [GateState.gateArrive]
    split
    · exact Or.inr rfl
    · exact Or.inl rfl
  · obtain rfl := Option.some.inj hStep
    exact Or.inl (hLoop s)
  · cases hStep
  · cases hStep

theorem openStep_waiter {call : OpenCall} {s s' : GateState}
    (hStep : s.openStep call = some s') (j : Nat) :
    s'.waiter j = s.waiter j ∨ s'.waiter j = (s.waiter j).wake := by
  have hLoop : ∀ g : GateState, g.gateOpenLoop.waiter j = g.waiter j ∨
      g.gateOpenLoop.waiter j = (g.waiter j).wake := by
    intro g
    unfold GateState.gateOpenLoop
    split
    · exact Or.inl rfl
    · exact Or.inr rfl
  unfold GateState.openStep at hStep
  split at hStep
  · obtain rfl := Option.some.inj hStep
    exact hLoop _
  · obtain rfl := Option.some.inj hStep
    exact hLoop s
  · cases hStep
  · cases hStep

theorem spuriousWaiter_waiter {s s' : GateState} {i j : Nat}
    (hStep : s.spuriousWaiter i = some s') (hji : j ≠ i) :
    s'.waiter j = s.waiter j := by
  unfold GateState.spuriousWaiter at hStep
  split at hStep
  · rw [← Option.some.inj hStep]
    simp [GateState.setWaiter, hji]
  · cases hStep

theorem spuriousOpener_waiter {s s' : GateState}
    (hStep : s.spuriousOpener = some s') : s'.waiter = s.waiter := by
  unfold GateState.spuriousOpener at hStep
  split at hStep
  · rw [← Option.some.inj hStep]
    rfl
  · cases hStep

/-- A position that a broadcast does not change. -/
theorem CvPc.stays {pc pc' : CvPc} (h : pc' = pc ∨ pc' = pc.wake)
    (hFixed : pc.wake = pc) : pc' = pc := by
  rcases h with hSame | hWake
  · exact hSame
  · rw [hWake, hFixed]

/-! ## Progress at the gate -/

/-- How far a thread is from the end of its call. -/
def CvPc.rank : CvPc → Nat
  | entry => 3
  | asleep => 2
  | woken => 1
  | returned => 0

theorem CvPc.rank_wake_le (pc : CvPc) : pc.wake.rank ≤ pc.rank := by
  cases pc <;> decide

/-- How far the first `n` waiters and the opener are from the end of their
calls, all together. -/
def GateState.rank (n : Nat) (s : GateState) : Nat :=
  ∑ i ∈ Finset.range n, (s.waiter i).rank + s.opener.rank

theorem rank_broadcast_le (n : Nat) (s : GateState) :
    s.broadcast.rank n ≤ s.rank n :=
  Nat.add_le_add
    (Finset.sum_le_sum fun i _ => CvPc.rank_wake_le (s.waiter i))
    (CvPc.rank_wake_le s.opener)

theorem rank_gateArrive_le (n : Nat) (s : GateState) :
    s.gateArrive.rank n ≤ s.rank n := by
  simp only [GateState.gateArrive]
  split
  · exact rank_broadcast_le n _
  · exact Nat.le_refl _

theorem rank_setWaiter_lt {n i : Nat} {s : GateState} {pc : CvPc} (hi : i < n)
    (hpc : pc.rank < (s.waiter i).rank) : (s.setWaiter i pc).rank n < s.rank n := by
  have hSum := sum_range_change (n := n) (f := fun j => (s.waiter j).rank)
    (g := fun j => ((s.setWaiter i pc).waiter j).rank) hi
    (by
      intro j hj
      simp [GateState.setWaiter, hj])
  have hSelf : (s.setWaiter i pc).waiter i = pc := by simp [GateState.setWaiter]
  simp only [hSelf] at hSum
  show ∑ j ∈ Finset.range n, ((s.setWaiter i pc).waiter j).rank + s.opener.rank <
    ∑ j ∈ Finset.range n, (s.waiter j).rank + s.opener.rank
  omega

/-- A waiter that arrives, or that leaves an open gate, gets closer to the end
of its call and takes nobody away from theirs. -/
theorem gateWait_rank {n i : Nat} {s : GateState} (hi : i < n)
    (hUseful : s.waiter i = .entry ∨
      (s.waiter i = .woken ∧ s.gate.isOpen = true)) :
    ∃ s', s.gateWait i = some s' ∧ s'.rank n < s.rank n := by
  rcases hUseful with hEntry | ⟨hWoken, hOpen⟩
  · refine ⟨s.gateArrive.gateWaitLoop i, by simp [gateWait, hEntry], ?_⟩
    have hArrive := rank_gateArrive_le n s
    have hHere : s.gateArrive.waiter i = .entry := by
      simp only [GateState.gateArrive]
      split <;> simp [broadcast, hEntry]
    have hLoop : (s.gateArrive.gateWaitLoop i).rank n < s.gateArrive.rank n := by
      unfold GateState.gateWaitLoop
      split
      · exact rank_setWaiter_lt hi (by rw [hHere]; decide)
      · exact rank_setWaiter_lt hi (by rw [hHere]; decide)
    omega
  · refine ⟨s.setWaiter i .returned, by
      simp [gateWait, hWoken, gateWaitLoop, hOpen], ?_⟩
    exact rank_setWaiter_lt hi (by rw [hWoken]; decide)

/-- Once everybody is counted in, the opener opens the gate in one go. -/
theorem openStep_rank {n total : Nat} {call : OpenCall} {s : GateState}
    (h : GateInv total call s)
    (hAll : ∀ i, i < call.waiters total → s.waiter i ≠ .entry)
    (hOpener : s.opener ≠ .returned) :
    ∃ s', s.openStep call = some s' ∧ s'.opener = .returned ∧
      s'.rank n < s.rank n := by
  have hReady : s.gate.ready = call.waiters total := by
    rw [h.ready]
    apply tally_eq_of_all
    intro i hi
    simpa [arrived] using hAll i hi
  have hEnter : (call.enter s.gate).ready = s.gate.ready := by
    cases call <;> rfl
  -- Opening is the broadcast and the opener's own return.
  have hOpens : ∀ g : StartGate,
      (({ s with gate := g }.broadcast).setOpener .returned).rank n <
        s.rank n := by
    intro g
    have hWaiters : ∑ i ∈ Finset.range n, (s.waiter i).wake.rank ≤
        ∑ i ∈ Finset.range n, (s.waiter i).rank :=
      Finset.sum_le_sum fun i _ => CvPc.rank_wake_le (s.waiter i)
    have hSelf : 0 < s.opener.rank := by
      cases hpc : s.opener <;> simp_all [CvPc.rank]
    show ∑ i ∈ Finset.range n, (s.waiter i).wake.rank + 0 <
      ∑ i ∈ Finset.range n, (s.waiter i).rank + s.opener.rank
    omega
  cases hpc : s.opener with
  | entry =>
      have hTotal : ¬ (call.enter s.gate).ready < (call.enter s.gate).total := by
        have hEntry := h.totalEntry hpc
        rw [hEnter, hReady]
        cases call <;> simp [OpenCall.enter, OpenCall.waiters, hEntry]
      have hStep : s.openStep call = some (({ s with
          gate := { call.enter s.gate with isOpen := true } }.broadcast).setOpener
            .returned) := by
        simp [openStep, hpc, gateOpenLoop, hTotal, setOpener, broadcast]
      exact ⟨_, hStep, rfl, hOpens _⟩
  | woken =>
      have hTotal : ¬ s.gate.ready < s.gate.total := by
        rw [h.totalLater (by simp [hpc]), hReady]
        exact Nat.lt_irrefl _
      have hStep : s.openStep call = some (({ s with
          gate := { s.gate with isOpen := true } }.broadcast).setOpener
            .returned) := by
        simp [openStep, hpc, gateOpenLoop, hTotal, setOpener, broadcast]
      exact ⟨_, hStep, rfl, hOpens _⟩
  | asleep =>
      have hMiss := h.missing hpc
      omega
  | returned => exact absurd hpc hOpener

/-- The events a thread brings about by itself. -/
def GateEvent.OfThread : GateEvent → Prop
  | wait _ => True
  | opens => True
  | wakeWaiter _ => False
  | wakeOpener => False

/-- **The start gate is a barrier and loses no wake-up**, for both ways of
opening it, any number of waiters and any schedule: nobody has passed before
everybody is counted in, and until everybody has returned some thread is
runnable and has a section of its own to execute. -/
theorem startGate_barrier (total : Nat) (call : OpenCall)
    (hTotal : total < 2 ^ 32) (hCall : call.waiters total ≤ total)
    {s : GateState} (hs : (gateMachine total call).Reachable s) :
    (∀ i j, i < call.waiters total → j < call.waiters total →
      s.waiter i = .returned → arrived s j = true) ∧
    ((s.opener ≠ .returned ∨
        ∃ i, i < call.waiters total ∧ s.waiter i ≠ .returned) →
      (s.opener.Runnable ∨
        ∃ i, i < call.waiters total ∧ (s.waiter i).Runnable) ∧
      ∃ e : GateEvent, e.OfThread ∧
        ((gateMachine total call).next s e).isSome) := by
  have h := gateMachine_inv (by omega) hs
  constructor
  · intro i j _ hj hPassed
    simpa [arrived] using h.all_arrived hPassed j hj
  · intro hUndone
    have hRun := h.exists_runnable hUndone
    refine ⟨hRun, ?_⟩
    rcases hRun with hOpener | ⟨i, hi, hWaiter⟩
    · exact ⟨.opens, trivial, openStep_isSome hOpener⟩
    · refine ⟨.wait i, trivial, ?_⟩
      simp only [gateMachine, hi, ↓reduceIte]
      exact gateWait_isSome hWaiter

/-- Two waiters: the second arrival wakes the opener that slept through the
first, and the first waiter leaves after the opening broadcast. -/
theorem startGate_barrier_two :
    let m := gateMachine 2 .gateOpen
    let s := (m.exec m.start
      [.wait 0, .opens, .wait 1, .opens, .wait 0]).get (by decide)
    arrived s 1 = true ∧
      ∃ e : GateEvent, e.OfThread ∧ (m.next s e).isSome := by
  intro m s
  have hs : m.Reachable s :=
    Machine.reachable_of_exec (Option.some_get _).symm
  have h := startGate_barrier 2 .gateOpen (by decide) (by decide) hs
  exact ⟨h.1 0 1 (by decide) (by decide) (by decide),
    (h.2 (Or.inr ⟨1, by decide, by decide⟩)).2⟩

end MioBench.Sync
