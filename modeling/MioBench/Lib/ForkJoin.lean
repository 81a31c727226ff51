import MioBench.Lib.Threads
import MioBench.Lib.Transition

/-!
# Fork, start together, join

One thread creates `n` workers, waits until all of them have counted themselves
in, raises a flag that all of them poll, and joins them one after the other.
What the workers do in between is left open: a program with this skeleton
projects to the machine below, and its start and its end are then those of the
skeleton.
-/

namespace MioBench.Lib

/-- Where the thread that creates and joins the workers stands. -/
inductive ForkPc
  | create (t : Nat)
  | waitReady
  | startAll
  | join (t : Nat)
  deriving DecidableEq, Repr

/-- How far a worker is, as far as the others can tell. -/
inductive WorkerStage
  | unborn
  | begin
  | waitStart
  | running
  | finished
  deriving DecidableEq, Repr

/-- The worker has counted itself in. -/
@[simp] def WorkerStage.ready : WorkerStage → Bool
  | unborn | begin => false
  | _ => true

/-- The worker has seen the flag. -/
@[simp] def WorkerStage.started : WorkerStage → Bool
  | running | finished => true
  | _ => false

/-- How many of `n` workers are created. -/
@[simp] def ForkPc.created (n : Nat) : ForkPc → Nat
  | create t => t
  | _ => n

/-- The flag is raised. -/
@[simp] def ForkPc.started : ForkPc → Bool
  | join _ => true
  | _ => false

/-- How many workers are joined. -/
@[simp] def ForkPc.joined : ForkPc → Nat
  | join t => t
  | _ => 0

@[ext] structure ForkState where
  ready_count : Nat
  start_flag : Bool
  main : ForkPc
  worker : Nat → WorkerStage

namespace ForkState

def init : ForkState where
  ready_count := 0
  start_flag := false
  main := .create 0
  worker := fun _ => .unborn

def setWorker (s : ForkState) (t : Nat) (stage : WorkerStage) : ForkState :=
  { s with worker := Function.update s.worker t stage }

@[simp] theorem setWorker_self (s : ForkState) (t : Nat) (stage : WorkerStage) :
    (s.setWorker t stage).worker t = stage :=
  Function.update_self ..

theorem setWorker_other (s : ForkState) {t u : Nat} (stage : WorkerStage)
    (hu : u ≠ t) : (s.setWorker t stage).worker u = s.worker u :=
  Function.update_of_ne hu ..

theorem setWorker_eq_self {s : ForkState} {t : Nat} {stage : WorkerStage}
    (h : s.worker t = stage) : s.setWorker t stage = s := by
  rw [setWorker, ← h, Function.update_eq_self]

def mainStep (n : Nat) (s : ForkState) : Option ForkState :=
  match s.main with
  | .create t =>
      if t < n then some { s.setWorker t .begin with main := .create (t + 1) }
      else some { s with main := .waitReady }
  | .waitReady =>
      if s.ready_count < n then none else some { s with main := .startAll }
  | .startAll => some { s with start_flag := true, main := .join 0 }
  | .join t =>
      if t < n ∧ s.worker t = .finished then
        some { s with main := .join (t + 1) }
      else none

def workerStep (s : ForkState) (t : Nat) : Option ForkState :=
  match s.worker t with
  | .begin =>
      some { s.setWorker t .waitStart with ready_count := s.ready_count + 1 }
  | .waitStart =>
      if s.start_flag then some (s.setWorker t .running) else none
  | .running => some (s.setWorker t .finished)
  | _ => none

end ForkState

/-- The thread that creates and joins moves, or a worker does. -/
inductive ForkEvent
  | main
  | worker (t : Nat)
  deriving DecidableEq, Repr

def forkMachine (n : Nat) : Machine ForkState ForkEvent where
  start := ForkState.init
  next s
    | .main => s.mainStep n
    | .worker t => s.workerStep t

/-! ## The invariant -/

structure ForkInv (n : Nat) (s : ForkState) : Prop where
  created_le : s.main.created n ≤ n
  unborn : ∀ t, s.worker t = .unborn ↔ s.main.created n ≤ t
  count : s.ready_count = tally n fun t => (s.worker t).ready
  full : s.main = .startAll ∨ s.main.started = true → s.ready_count = n
  start : s.start_flag = s.main.started
  runs : ∀ t, (s.worker t).started = true → s.start_flag = true
  joined : ∀ t, t < s.main.joined → s.worker t = .finished
  joined_le : s.main.joined ≤ n

section Invariant

variable {n : Nat} {s s' : ForkState}

theorem init_forkInv (n : Nat) : ForkInv n ForkState.init where
  created_le := Nat.zero_le n
  unborn := by simp [ForkState.init]
  count := by simp [ForkState.init, tally]
  full := by simp [ForkState.init]
  start := rfl
  runs := by simp [ForkState.init]
  joined := by simp [ForkState.init]
  joined_le := Nat.zero_le n

/-- A new worker has done nothing yet. -/
theorem ForkInv.create (h : ForkInv n s) {t : Nat} (hpc : s.main = .create t)
    (ht : t < n) :
    ForkInv n { s.setWorker t .begin with main := .create (t + 1) } := by
  have hUnborn := h.unborn
  have hStart := h.start
  simp only [hpc, ForkPc.created] at hUnborn hStart
  have hNone : s.worker t = .unborn := (hUnborn t).mpr (Nat.le_refl t)
  refine ⟨ht, ?_, ?_, by simp, hStart, ?_, by simp, Nat.zero_le n⟩
  · intro u
    show (s.setWorker t .begin).worker u = .unborn ↔ t + 1 ≤ u
    by_cases hu : u = t
    · rw [hu, ForkState.setWorker_self]
      simp
    · rw [ForkState.setWorker_other s _ hu, hUnborn u]
      omega
  · refine h.count.trans (tally_congr fun u _ => ?_).symm
    show ((s.setWorker t .begin).worker u).ready = (s.worker u).ready
    by_cases hu : u = t
    · rw [hu, ForkState.setWorker_self, hNone]
      rfl
    · rw [ForkState.setWorker_other s _ hu]
  · intro u hRuns
    change ((s.setWorker t .begin).worker u).started = true at hRuns
    by_cases hu : u = t
    · rw [hu, ForkState.setWorker_self] at hRuns
      cases hRuns
    · rw [ForkState.setWorker_other s _ hu] at hRuns
      exact h.runs u hRuns

theorem ForkInv.mainStep (h : ForkInv n s) (hStep : s.mainStep n = some s') :
    ForkInv n s' := by
  unfold ForkState.mainStep at hStep
  cases hpc : s.main with
  | create t =>
      simp only [hpc] at hStep
      split at hStep
      · rw [← Option.some.inj hStep]
        exact h.create hpc ‹_›
      · rename_i hNot
        have hLe := h.created_le
        have hUnborn := h.unborn
        have hStart := h.start
        simp only [hpc, ForkPc.created] at hLe hUnborn hStart
        obtain rfl : t = n := by omega
        rw [← Option.some.inj hStep]
        exact ⟨Nat.le_refl t, hUnborn, h.count, by simp, hStart, h.runs, by simp,
          Nat.zero_le t⟩
  | waitReady =>
      simp only [hpc] at hStep
      split at hStep
      · cases hStep
      · rename_i hNot
        have hUnborn := h.unborn
        have hStart := h.start
        have hTally := tally_le n fun t => (s.worker t).ready
        have hCount := h.count
        simp only [hpc] at hUnborn hStart
        have hFull : s.ready_count = n := by omega
        rw [← Option.some.inj hStep]
        exact ⟨Nat.le_refl n, hUnborn, h.count, fun _ => hFull, hStart, h.runs,
          by simp, Nat.zero_le n⟩
  | startAll =>
      simp only [hpc] at hStep
      have hUnborn := h.unborn
      have hFull := h.full (Or.inl hpc)
      simp only [hpc] at hUnborn
      rw [← Option.some.inj hStep]
      exact ⟨Nat.le_refl n, hUnborn, h.count, fun _ => hFull, rfl,
        fun _ _ => rfl, by simp, Nat.zero_le n⟩
  | join t =>
      simp only [hpc] at hStep
      split at hStep
      · rename_i hDone
        have hUnborn := h.unborn
        have hStart := h.start
        have hJoined := h.joined
        have hFull := h.full (Or.inr (by rw [hpc]; rfl))
        simp only [hpc] at hUnborn hStart hJoined
        rw [← Option.some.inj hStep]
        refine ⟨Nat.le_refl n, hUnborn, h.count, fun _ => hFull, hStart, h.runs,
          ?_, hDone.1⟩
        intro u hu
        rcases Nat.lt_succ_iff_lt_or_eq.mp hu with hOld | rfl
        · exact hJoined u hOld
        · exact hDone.2
      · cases hStep

/-- Worker `t` moves to a later stage and counts itself in on the way, if it
has not before. -/
theorem ForkInv.move (h : ForkInv n s) {t : Nat} (ready_count : Nat)
    {stage : WorkerStage} (hBorn : s.worker t ≠ .unborn)
    (hOpen : s.worker t ≠ .finished) (hStage : stage ≠ .unborn)
    (hUp : s.ready_count ≤ ready_count)
    (hCount : ready_count + (s.worker t).ready.toNat =
      s.ready_count + stage.ready.toNat)
    (hRuns : stage.started = true → s.start_flag = true) :
    ForkInv n { s.setWorker t stage with ready_count := ready_count } := by
  have hMine := mt (h.unborn t).mpr hBorn
  have hLe := h.created_le
  have hOld := h.count
  have hChange := tally_change (n := n) (i := t)
    (p := fun u => (s.worker u).ready)
    (q := fun u => ((s.setWorker t stage).worker u).ready) (by omega)
    fun u hu => by rw [ForkState.setWorker_other s _ hu]
  rw [ForkState.setWorker_self] at hChange
  have hTally := tally_le n fun u => ((s.setWorker t stage).worker u).ready
  refine ⟨hLe, ?_, ?_, ?_, h.start, ?_, ?_, h.joined_le⟩
  · intro u
    show (s.setWorker t stage).worker u = .unborn ↔ s.main.created n ≤ u
    by_cases hu : u = t
    · rw [hu, ForkState.setWorker_self]
      exact iff_of_false hStage hMine
    · rw [ForkState.setWorker_other s _ hu]
      exact h.unborn u
  · show ready_count = tally n fun u => ((s.setWorker t stage).worker u).ready
    omega
  · intro hpc
    have hFull := h.full hpc
    show ready_count = n
    omega
  · intro u hStarted
    change ((s.setWorker t stage).worker u).started = true at hStarted
    by_cases hu : u = t
    · rw [hu, ForkState.setWorker_self] at hStarted
      exact hRuns hStarted
    · rw [ForkState.setWorker_other s _ hu] at hStarted
      exact h.runs u hStarted
  · intro u hJoined
    show (s.setWorker t stage).worker u = .finished
    have hDone := h.joined u hJoined
    by_cases hu : u = t
    · exact absurd (hu ▸ hDone) hOpen
    · rw [ForkState.setWorker_other s _ hu]
      exact hDone

theorem ForkInv.workerStep (h : ForkInv n s) {t : Nat}
    (hStep : s.workerStep t = some s') : ForkInv n s' := by
  unfold ForkState.workerStep at hStep
  cases hpc : s.worker t with
  | unborn => simp [hpc] at hStep
  | begin =>
      simp only [hpc] at hStep
      rw [← Option.some.inj hStep]
      refine h.move (s.ready_count + 1) ?_ ?_ ?_ ?_ ?_ ?_
      all_goals simp [hpc]
  | waitStart =>
      simp only [hpc] at hStep
      split at hStep
      · rename_i hFlag
        rw [← Option.some.inj hStep]
        refine h.move s.ready_count ?_ ?_ ?_ ?_ ?_ ?_
        all_goals simp [hpc, hFlag]
      · cases hStep
  | running =>
      simp only [hpc] at hStep
      have hFlag := h.runs t (by rw [hpc]; rfl)
      rw [← Option.some.inj hStep]
      refine h.move s.ready_count ?_ ?_ ?_ ?_ ?_ ?_
      all_goals simp [hpc, hFlag]
  | finished => simp [hpc] at hStep

end Invariant

/-! ## What holds in every run -/

section Runs

variable {n : Nat} {s : ForkState}

theorem forkMachine_inv (hs : (forkMachine n).Reachable s) : ForkInv n s := by
  refine hs.invariant (init_forkInv n) ?_
  intro s e s' _ h hStep
  cases e with
  | main => exact h.mainStep hStep
  | worker t => exact h.workerStep hStep

/-- Once the flag is raised, all workers have counted themselves in. -/
theorem ForkInv.all_ready (h : ForkInv n s) (hStart : s.start_flag = true) :
    ∀ t, t < n → (s.worker t).ready = true := by
  have hFull := h.full (Or.inr (h.start.symm.trans hStart))
  exact all_of_tally_eq (h.count.symm.trans hFull)

/-- As long as the count is not full, some worker that is created has still to
count itself in. -/
theorem ForkInv.exists_begin (h : ForkInv n s) (hpc : s.main = .waitReady)
    (hFew : s.ready_count < n) : ∃ t, t < n ∧ s.worker t = .begin := by
  have hCount := h.count
  obtain ⟨t, ht, hReady⟩ := exists_of_tally_lt
    (p := fun t => (s.worker t).ready) (n := n) (by omega)
  refine ⟨t, ht, ?_⟩
  have hBorn : s.worker t ≠ .unborn := by
    intro hUnborn
    have hLate := (h.unborn t).mp hUnborn
    rw [hpc] at hLate
    exact absurd ht (Nat.not_lt_of_le hLate)
  cases hStage : s.worker t with
  | unborn => exact absurd hStage hBorn
  | begin => rfl
  | waitStart => simp [hStage] at hReady
  | running => simp [hStage] at hReady
  | finished => simp [hStage] at hReady

end Runs

end MioBench.Lib
