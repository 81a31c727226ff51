import MioBench.Sync.NoWait

/-!
# What a sweep that counts its readers twice reports

When all readers of `read_rdma` have been started and joined, main also joins
the handle of a NIC thread that is never created.  The machine below goes on
from there as if that call returned an error code, and keeps which blocks the
readers have gone through.  Behind its first loop it runs in lockstep with the
sweep of `Sync.Sweep`, whose results carry over.
-/

namespace MioBench.Sync

open MioBench.Lib MioBench.Store

structure RdmaState where
  run : NoWaitState
  /-- What has been stored through the out-parameters. -/
  report : Option Totals
  /-- The rounds the readers have made, each by its request and its block. -/
  reads : List (Nat × Nat)

namespace RdmaState

def init (p : Sweep) : RdmaState where
  run := NoWaitState.init p
  report := none
  reads := []

/-- The next step of the main thread, to which `pthread_join` gives an error
code for the NIC thread there is not. -/
def mainStep (p : Sweep) (t : RdmaState) : Option RdmaState :=
  if t.run.main = .joinNic then
    some { t with
      run := { t.run with main := .joinFree 0 }
      report := some t.run.readers.totals }
  else (t.run.mainStep p).map fun run => { t with run := run }

/-- The block that the next step of reader `i` reads, if it is a round of its
loop. -/
def nextRead (body : ReaderLoop) (s : NoWaitState) (i : Nat) :
    List (Nat × Nat) :=
  if s.gate.waiter i = .returned ∧ s.readers.pc i = .copying ∧
      (s.readers.loc i).blk < body.blocks then
    [(i, (s.readers.loc i).blk)]
  else []

def readerStep (p : Sweep) (t : RdmaState) (i : Nat) : Option RdmaState :=
  (t.run.readerStep p i).map fun run =>
    { t with run := run, reads := t.reads ++ nextRead p.body t.run i }

/-- A step of the gate alone. -/
def setGate (t : RdmaState) (gate : GateState) : RdmaState :=
  { t with run := { t.run with gate := gate } }

end RdmaState

/-- `read_rdma` with its readers, up to its return. -/
def rdmaMachine (p : Sweep) : Machine RdmaState SweepEvent where
  start := RdmaState.init p
  next t
    | .main => t.mainStep p
    | .reader i => if i < t.run.started then t.readerStep p i else none
    | .wakeReader i =>
        if i < t.run.started then (t.run.gate.spuriousWaiter i).map t.setGate
        else none
    | .wakeMain => t.run.gate.spuriousOpener.map t.setGate

/-! ## In lockstep with a sweep -/

/-- The position of the sweep's main that goes with it. -/
def NoWaitPc.place : NoWaitPc → MainPc
  | setup _ => .create 0
  | create i => .create i
  | opening failed => .opening failed
  | join i => .join i
  | joinNic => .report
  | joinFree i => .joinFree i
  | freeRest i => .freeRest i
  | destroy => .destroy
  | returned => .returned

/-- Main has joined its readers. -/
def MainPc.Joined : MainPc → Prop
  | create _ | opening _ | join _ => False
  | report | joinFree _ | freeRest _ | destroy | returned => True

/-- The two programs are at the same place, and a block has been read exactly
when the reader of its request is behind it. -/
structure Matches (p : Sweep) (t : RdmaState) (s : SweepState) : Prop where
  gate : t.run.gate = s.gate
  readers : t.run.readers = s.readers
  started : t.run.started = s.started
  report : t.report = s.report
  main : t.run.main.place = s.main
  created : s.main.Joined → t.run.created = 0 ∧ s.created = 0
  opening : s.main ≠ .opening true
  within : s.started ≤ p.active_requests
  reads : ∀ req blk, (req, blk) ∈ t.reads ↔
    req < p.active_requests ∧ blk < (s.readers.loc req).blk

section Lockstep

variable {p : Sweep} {t : RdmaState} {s : SweepState}

/-- Main is behind the loop that prepares the arguments. -/
def RdmaState.Prepared (t : RdmaState) : Prop := ∀ i, t.run.main ≠ .setup i

/-- Both can take the step, and match behind it, or neither can. -/
def Lockstep (p : Sweep) : Option RdmaState → Option SweepState → Prop :=
  Option.Rel fun t s => Matches p t s ∧ t.Prepared

/-- A step of both mains that leaves the gate, the readers and the report
alone. -/
theorem Matches.moveMain (h : Matches p t s) {run : NoWaitState} {s' : SweepState}
    (hGate : run.gate = t.run.gate) (hGate' : s'.gate = s.gate)
    (hReaders : run.readers = t.run.readers) (hReaders' : s'.readers = s.readers)
    (hReport : s'.report = s.report) (hStarted : run.started = s'.started)
    (hMain : run.main.place = s'.main)
    (hCreated : s'.main.Joined → run.created = 0 ∧ s'.created = 0)
    (hOpening : s'.main ≠ .opening true)
    (hWithin : s'.started ≤ p.active_requests)
    (hPrepared : ∀ i, run.main ≠ .setup i) :
    Lockstep p (some { t with run := run }) (some s') :=
  .some
    ⟨{ gate := by rw [hGate, hGate', h.gate]
       readers := by rw [hReaders, hReaders', h.readers]
       started := hStarted
       report := by rw [hReport, ← h.report]
       main := hMain
       created := hCreated
       opening := hOpening
       within := hWithin
       reads := by rw [hReaders']; exact h.reads }, hPrepared⟩

/-- A step at the gate. -/
theorem Matches.moveGate (h : Matches p t s) (gate : GateState) :
    Matches p (t.setGate gate) { s with gate := gate } where
  gate := rfl
  readers := h.readers
  started := h.started
  report := h.report
  main := h.main
  created := h.created
  opening := h.opening
  within := h.within
  reads := h.reads

/-- Both mains are at the same place. -/
theorem Matches.main_eq (h : Matches p t s) {pc : NoWaitPc}
    (hpc : t.run.main = pc) : s.main = pc.place := by
  rw [← h.main, hpc]

/-- The loop that creates the readers. -/
theorem Matches.createStep (hNone : p.AllCreated) (h : Matches p t s)
    (hs : (sweepMachine p).Reachable s) {i : Nat} (hpc : t.run.main = .create i) :
    Lockstep p (t.mainStep p) (s.mainStep p) := by
  have hMainInv := sweep_mainInv hs
  unfold MainInv at hMainInv
  have hMain : s.main = .create i := h.main_eq hpc
  simp only [hMain] at hMainInv
  by_cases hi : i < p.active_requests
  · have hStep : t.mainStep p = some { t with run :=
        { t.run.count with
          started := t.run.started + 1, main := .create (i + 1) } } := by
      simp [RdmaState.mainStep, hpc, NoWaitState.mainStep, hi,
        NoWaitState.createReader, hNone i]
    have hStep' := (MainMove.createReader i hMain hi rfl).mainStep_eq
    rw [hStep, hStep', SweepState.createReader, hNone i]
    refine h.moveMain rfl rfl rfl rfl rfl ?_ rfl (fun hJoined =>
      absurd hJoined id) (by simp) ?_ (by simp)
    · exact congrArg (· + 1) h.started
    · show s.started + 1 ≤ p.active_requests
      omega
  · have hStep : t.mainStep p = some { t with run :=
        { t.run with main := .opening false } } := by
      simp [RdmaState.mainStep, hpc, NoWaitState.mainStep, hi]
    have hStep' :=
      (MainMove.allCreated i hMain (Nat.le_of_not_lt hi) rfl).mainStep_eq
    rw [hStep, hStep']
    exact h.moveMain rfl rfl rfl rfl rfl h.started rfl (fun hJoined =>
      absurd hJoined id) (by simp) h.within (by simp)

/-- `gate_open`. -/
theorem Matches.openingStep (h : Matches p t s) (hPrepared : t.Prepared)
    {failed : Bool} (hpc : t.run.main = .opening failed) :
    Lockstep p (t.mainStep p) (s.mainStep p) := by
  have hMain : s.main = .opening failed := h.main_eq hpc
  cases failed with
  | true => exact absurd hMain h.opening
  | false =>
      by_cases hOpener : s.gate.opener = .returned
      · have hStep : t.mainStep p = some { t with run :=
            { t.run with main := .join 0 } } := by
          simp [RdmaState.mainStep, hpc, NoWaitState.mainStep, h.gate, hOpener]
        have hStep' :=
          (@MainMove.opened p _ _ false hMain hOpener rfl).mainStep_eq
        rw [hStep, hStep']
        exact h.moveMain rfl rfl rfl rfl rfl h.started rfl
          (fun hJoined => absurd hJoined id) (by simp) h.within (by simp)
      · have hStep : t.mainStep p =
            (s.gate.openStep .gateOpen).map fun gate =>
              { t with run := { t.run with gate := gate } } := by
          simp [RdmaState.mainStep, hpc, NoWaitState.mainStep, h.gate, hOpener,
            Function.comp_def]
        have hStep' : s.mainStep p = (s.gate.openStep .gateOpen).map
            fun gate => { s with gate := gate } := by
          simp [SweepState.mainStep, hMain, hOpener]
        rw [hStep, hStep']
        cases s.gate.openStep .gateOpen with
        | none => exact .none
        | some gate => exact .some ⟨h.moveGate gate, hPrepared⟩

/-- The loop that joins the readers. -/
theorem Matches.joinStep (h : Matches p t s) {i : Nat}
    (hpc : t.run.main = .join i) :
    Lockstep p (t.mainStep p) (s.mainStep p) := by
  have hMain : s.main = .join i := h.main_eq hpc
  by_cases hi : i < p.active_requests
  · by_cases hFinished : s.readers.pc i = .finished
    · have hStep : t.mainStep p = some { t with run :=
          { t.run with
            joined := Function.update t.run.joined i (t.run.joined i + 1)
            main := .join (i + 1) } } := by
        simp [RdmaState.mainStep, hpc, NoWaitState.mainStep, hi,
          NoWaitState.pthreadJoin, h.readers, hFinished]
      have hStep' := (MainMove.join i hMain hi hFinished rfl).mainStep_eq
      rw [hStep, hStep']
      exact h.moveMain rfl rfl rfl rfl rfl h.started rfl
        (fun hJoined => absurd hJoined id) (by simp) h.within (by simp)
    · have hStep : t.mainStep p = none := by
        simp [RdmaState.mainStep, hpc, NoWaitState.mainStep, hi,
          NoWaitState.pthreadJoin, h.readers, hFinished]
      have hStep' : s.mainStep p = none := by
        simp [SweepState.mainStep, hMain, hi, SweepState.pthreadJoin, hFinished]
      rw [hStep, hStep']
      exact .none
  · have hStep : t.mainStep p = some { t with run :=
        { t.run with created := 0, main := .joinNic } } := by
      simp [RdmaState.mainStep, hpc, NoWaitState.mainStep, hi]
    have hStep' :=
      (MainMove.allJoined i hMain (Nat.le_of_not_lt hi) rfl).mainStep_eq
    rw [hStep, hStep']
    exact h.moveMain rfl rfl rfl rfl rfl h.started rfl
      (fun _ => ⟨rfl, rfl⟩) (by simp) h.within (by simp)

/-- The loop that frees the buffers. -/
theorem Matches.freeStep (h : Matches p t s) {i : Nat}
    (hpc : t.run.main = .freeRest i) :
    Lockstep p (t.mainStep p) (s.mainStep p) := by
  have hMain : s.main = .freeRest i := h.main_eq hpc
  have hCreated := h.created
  rw [hMain] at hCreated
  by_cases hi : i < p.active_requests
  · have hStep : t.mainStep p = some { t with run :=
        { t.run.freeScratch i with main := .freeRest (i + 1) } } := by
      simp [RdmaState.mainStep, hpc, NoWaitState.mainStep, hi]
    have hStep' := (MainMove.freeRest i hMain hi rfl).mainStep_eq
    rw [hStep, hStep']
    exact h.moveMain rfl rfl rfl rfl rfl h.started rfl
      (fun _ => hCreated trivial) (by simp) h.within (by simp)
  · have hStep : t.mainStep p =
        some { t with run := { t.run with main := .destroy } } := by
      simp [RdmaState.mainStep, hpc, NoWaitState.mainStep, hi]
    have hStep' :=
      (MainMove.allFreed i hMain (Nat.le_of_not_lt hi) rfl).mainStep_eq
    rw [hStep, hStep']
    exact h.moveMain rfl rfl rfl rfl rfl h.started rfl
      (fun _ => hCreated trivial) (by simp) h.within (by simp)

theorem Matches.mainStep (hNone : p.AllCreated) (h : Matches p t s)
    (hs : (sweepMachine p).Reachable s) (hPrepared : t.Prepared) :
    Lockstep p (t.mainStep p) (s.mainStep p) := by
  have hCreated := h.created
  cases hpc : t.run.main with
  | setup i => exact absurd hpc (hPrepared i)
  | create i => exact h.createStep hNone hs hpc
  | opening failed => exact h.openingStep hPrepared hpc
  | join i => exact h.joinStep hpc
  | joinNic =>
      have hMain : s.main = .report := h.main_eq hpc
      rw [hMain] at hCreated
      have hStep : t.mainStep p = some { t with
          run := { t.run with main := .joinFree 0 }
          report := some s.readers.totals } := by
        simp [RdmaState.mainStep, hpc, h.readers]
      have hStep' := (@MainMove.report p _ _ hMain rfl).mainStep_eq
      rw [hStep, hStep']
      exact .some ⟨{ h with
        report := rfl
        main := rfl
        created := fun _ => hCreated trivial
        opening := by simp }, by simp [RdmaState.Prepared]⟩
  | joinFree i =>
      have hMain : s.main = .joinFree i := h.main_eq hpc
      rw [hMain] at hCreated
      obtain ⟨hZero, hZero'⟩ := hCreated trivial
      have hStep : t.mainStep p =
          some { t with run := { t.run with main := .freeRest 0 } } := by
        simp [RdmaState.mainStep, hpc, NoWaitState.mainStep, hZero]
      have hStep' :=
        (@MainMove.createdFreed p _ _ i hMain (by omega) rfl).mainStep_eq
      rw [hStep, hStep']
      exact h.moveMain rfl rfl rfl rfl rfl h.started
        (congrArg MainPc.freeRest hZero').symm (fun _ => ⟨hZero, hZero'⟩)
        (by simp) h.within (by simp)
  | freeRest i => exact h.freeStep hpc
  | destroy =>
      have hMain : s.main = .destroy := h.main_eq hpc
      rw [hMain] at hCreated
      have hStep : t.mainStep p = some { t with run :=
          { t.run with destroyed := true, main := .returned } } := by
        simp [RdmaState.mainStep, hpc, NoWaitState.mainStep]
      have hStep' := (@MainMove.destroy p _ _ hMain rfl).mainStep_eq
      rw [hStep, hStep']
      exact h.moveMain rfl rfl rfl rfl rfl h.started rfl
        (fun _ => hCreated trivial) (by simp) h.within (by simp)
  | returned =>
      have hMain : s.main = .returned := h.main_eq hpc
      have hStep : t.mainStep p = none := by
        simp [RdmaState.mainStep, hpc, NoWaitState.mainStep]
      have hStep' : s.mainStep p = none := by
        simp [SweepState.mainStep, hMain]
      rw [hStep, hStep']
      exact .none

/-- The blocks behind the readers after a step of reader `i` behind the gate:
its block is one more exactly when the step is a round. -/
theorem mem_nextRead {body : ReaderLoop} {run : NoWaitState} {i : Nat}
    {readers : ReadersState} (hBlocks : body.blocks < 2 ^ 64)
    (hPassed : run.gate.waiter i = .returned)
    (hStep : run.readers.readerStep body i = some readers) (req blk : Nat) :
    blk < (readers.loc req).blk ↔ blk < (run.readers.loc req).blk ∨
      (req, blk) ∈ RdmaState.nextRead body run i := by
  unfold RdmaState.nextRead
  unfold ReadersState.readerStep at hStep
  split at hStep
  · rename_i hpc
    split at hStep
    · rename_i hMore
      obtain rfl := Option.some.inj hStep
      rw [if_pos ⟨hPassed, hpc, hMore⟩, List.mem_singleton, Prod.mk.injEq]
      by_cases hReq : req = i
      · subst hReq
        have hNext : ((run.readers.loc req).blk + 1) % 2 ^ 64 =
            (run.readers.loc req).blk + 1 := Nat.mod_eq_of_lt (by omega)
        simp only [Function.update_self, ReadersState.copyRound, hNext, true_and]
        omega
      · simp [hReq]
    · rename_i hEnd
      obtain rfl := Option.some.inj hStep
      rw [if_neg fun hRound => hEnd hRound.2.2]
      simp [ReadersState.setPc]
  · rename_i hpc
    obtain rfl := Option.some.inj hStep
    simp [hpc, ReadersState.setPc]
  · rename_i hpc
    obtain rfl := Option.some.inj hStep
    simp [hpc, ReadersState.setPc]
  · rename_i hpc
    obtain rfl := Option.some.inj hStep
    simp [hpc, ReadersState.setPc]
  · cases hStep

theorem Matches.readerStep (h : Matches p t s) (hBlocks : p.body.blocks < 2 ^ 64)
    (hPrepared : t.Prepared) {i : Nat} (hi : i < s.started) :
    Lockstep p (t.readerStep p i) (s.readerStep p i) := by
  have hWithin := h.within
  unfold RdmaState.readerStep NoWaitState.readerStep SweepState.readerStep
  by_cases hPassed : s.gate.waiter i = .returned
  · have hPassed' : t.run.gate.waiter i = .returned := by rw [h.gate, hPassed]
    rw [if_pos hPassed, if_pos hPassed', h.readers]
    cases hStep : s.readers.readerStep p.body i with
    | none => exact .none
    | some readers =>
        refine .some ⟨{ h with readers := rfl, reads := fun req blk => ?_ },
          hPrepared⟩
        have hRead := mem_nextRead hBlocks hPassed' (by rw [h.readers, hStep])
          req blk
        rw [List.mem_append, h.reads req blk]
        rw [h.readers] at hRead
        rw [hRead]
        -- What is read is a block of reader `i`.
        have hOwn : (req, blk) ∈ RdmaState.nextRead p.body t.run i → req = i := by
          unfold RdmaState.nextRead
          split
          · intro hMem
            exact (Prod.mk.inj (List.mem_singleton.mp hMem)).1
          · intro hMem
            cases hMem
        constructor
        · rintro (⟨hReq, hBlk⟩ | hMem)
          · exact ⟨hReq, Or.inl hBlk⟩
          · exact ⟨by rw [hOwn hMem]; omega, Or.inr hMem⟩
        · rintro ⟨hReq, hBlk | hMem⟩
          · exact Or.inl ⟨hReq, hBlk⟩
          · exact Or.inr hMem
  · have hNone : RdmaState.nextRead p.body t.run i = [] := by
      rw [RdmaState.nextRead, h.gate]
      exact if_neg fun hRound => hPassed hRound.1
    rw [if_neg hPassed, h.gate, if_neg hPassed, hNone, List.append_nil]
    cases s.gate.gateWait i with
    | none => exact .none
    | some gate => exact .some ⟨h.moveGate gate, hPrepared⟩

/-- Every event is a step of both or of neither. -/
theorem Matches.lockstep (hNone : p.AllCreated) (hBlocks : p.body.blocks < 2 ^ 64)
    (h : Matches p t s) (hs : (sweepMachine p).Reachable s)
    (hPrepared : t.Prepared) (e : SweepEvent) :
    Lockstep p ((rdmaMachine p).next t e) ((sweepMachine p).next s e) := by
  have hGate : ∀ gate : Option GateState, Lockstep p (gate.map t.setGate)
      (gate.map fun gate => { s with gate := gate }) := by
    intro gate
    cases gate with
    | none => exact .none
    | some gate => exact .some ⟨h.moveGate gate, hPrepared⟩
  cases e with
  | main => exact h.mainStep hNone hs hPrepared
  | reader i =>
      simp only [rdmaMachine, sweepMachine, h.started]
      split
      · exact h.readerStep hBlocks hPrepared ‹_›
      · exact .none
  | wakeReader i =>
      simp only [rdmaMachine, sweepMachine, h.started, h.gate]
      split
      · exact hGate _
      · exact .none
  | wakeMain =>
      simp only [rdmaMachine, sweepMachine, h.gate]
      exact hGate _

end Lockstep

/-! ## Runs -/

section Run

variable {p : Sweep} {t t' : RdmaState} {s : SweepState}

theorem matches_init (p : Sweep) : Matches p (RdmaState.init p) (SweepState.init p)
    where
  gate := rfl
  readers := rfl
  started := rfl
  report := rfl
  main := rfl
  created := fun hJoined => absurd hJoined id
  opening := by simp [SweepState.init]
  within := Nat.zero_le _
  reads := by simp [RdmaState.init, SweepState.init, ReadersState.init]

/-- The loop that prepares the arguments is nothing to the sweep. -/
theorem Matches.setupMain (hNone : p.AllCreated) (h : Matches p t (SweepState.init p))
    {i : Nat} (hpc : t.run.main = .setup i) :
    ∃ run, t.mainStep p = some { t with run := run } ∧
      run.main = (if i < p.active_requests then .setup (i + 1) else .create 0) ∧
      Matches p { t with run := run } (SweepState.init p) := by
  by_cases hi : i < p.active_requests
  · refine ⟨{ t.run.count with
      scratch := Function.update t.run.scratch i p.newBuffer
      main := .setup (i + 1) }, ?_, (if_pos hi).symm, { h with main := rfl
                                                               created := ?_ }⟩
    · simp [RdmaState.mainStep, hpc, NoWaitState.mainStep, hi,
        NoWaitState.setupReader, hNone i]
    · exact fun hJoined => absurd hJoined id
  · refine ⟨{ t.run with main := .create 0 }, ?_, (if_neg hi).symm,
      { h with main := rfl }⟩
    simp [RdmaState.mainStep, hpc, NoWaitState.mainStep, hi]

/-- Nobody else has a step before there are readers. -/
theorem Matches.setup_others (h : Matches p t (SweepState.init p)) {e : SweepEvent}
    (he : e ≠ .main) : (rdmaMachine p).next t e = none := by
  have hStarted : t.run.started = 0 := h.started
  have hGate : t.run.gate = GateState.gateInit p.active_requests := h.gate
  cases e with
  | main => exact absurd rfl he
  | reader i => simp [rdmaMachine, hStarted]
  | wakeReader i => simp [rdmaMachine, hStarted]
  | wakeMain =>
      simp [rdmaMachine, hGate, GateState.spuriousOpener, GateState.gateInit]

/-- Every run of the machine goes along with a run of the sweep. -/
theorem rdma_matches (hNone : p.AllCreated) (hBlocks : p.body.blocks < 2 ^ 64)
    (ht : (rdmaMachine p).Reachable t) :
    ∃ s, (sweepMachine p).Reachable s ∧ Matches p t s := by
  have hRun : (t.Prepared ∨ Matches p t (SweepState.init p)) ∧
      ∃ s, (sweepMachine p).Reachable s ∧ Matches p t s := by
    refine ht.invariant (P := fun t =>
      (t.Prepared ∨ Matches p t (SweepState.init p)) ∧
        ∃ s, (sweepMachine p).Reachable s ∧ Matches p t s) ?_ ?_
    · exact ⟨Or.inr (matches_init p), _, Machine.Reachable.initial, matches_init p⟩
    · intro t e t' _ h hStep
      by_cases hPrepared : t.Prepared
      · obtain ⟨-, s, hs, hMatches⟩ := h
        have hLock := hMatches.lockstep hNone hBlocks hs hPrepared e
        rw [hStep] at hLock
        cases hNext : (sweepMachine p).next s e with
        | none =>
            rw [hNext] at hLock
            cases hLock
        | some s' =>
            rw [hNext] at hLock
            cases hLock with
            | some hBoth => exact ⟨Or.inl hBoth.2, s', hs.next hNext, hBoth.1⟩
      · have hSetup : ∃ i, t.run.main = .setup i := by
          unfold RdmaState.Prepared at hPrepared
          push Not at hPrepared
          exact hPrepared
        obtain ⟨i, hpc⟩ := hSetup
        have hMatches : Matches p t (SweepState.init p) :=
          h.1.resolve_left hPrepared
        by_cases he : e = .main
        · subst he
          obtain ⟨run, hMain, -, hMatches'⟩ := hMatches.setupMain hNone hpc
          obtain rfl := Option.some.inj (hMain.symm.trans hStep)
          exact ⟨Or.inr hMatches', _, Machine.Reachable.initial, hMatches'⟩
        · rw [hMatches.setup_others he] at hStep
          cases hStep
  exact hRun.2

/-- And every run of the sweep with a run of the machine. -/
theorem sweep_matches (hNone : p.AllCreated) (hBlocks : p.body.blocks < 2 ^ 64)
    (hs : (sweepMachine p).Reachable s) :
    ∃ t, (rdmaMachine p).Reachable t ∧ t.Prepared ∧ Matches p t s := by
  refine hs.invariant (P := fun s =>
    ∃ t, (rdmaMachine p).Reachable t ∧ t.Prepared ∧ Matches p t s) ?_ ?_
  · -- All arguments are prepared, then main comes to its second loop.
    have hPrepare : ∃ t, (rdmaMachine p).Reachable t ∧
        t.run.main = .setup p.active_requests ∧
          Matches p t (SweepState.init p) := by
      refine Machine.exists_reachable_stage (m := rdmaMachine p) (P := fun i t =>
        t.run.main = .setup i ∧ Matches p t (SweepState.init p))
        ⟨_, Machine.Reachable.initial, rfl, matches_init p⟩ ?_
      intro i t hi h
      obtain ⟨run, hMain, hpc, hMatches⟩ := h.2.setupMain hNone h.1
      exact ⟨.main, _, hMain, hpc.trans (if_pos hi), hMatches⟩
    obtain ⟨t, ht, hpc, hMatches⟩ := hPrepare
    obtain ⟨run, hMain, hpc', hMatches'⟩ := hMatches.setupMain hNone hpc
    rw [if_neg (Nat.lt_irrefl _)] at hpc'
    have hNext : (rdmaMachine p).next t .main = some { t with run := run } := hMain
    refine ⟨_, ht.next hNext, fun i hSetup => ?_, hMatches'⟩
    rw [hpc'] at hSetup
    cases hSetup
  · intro s e s' hs h hStep
    obtain ⟨t, ht, hPrepared, hMatches⟩ := h
    have hLock := hMatches.lockstep hNone hBlocks hs hPrepared e
    rw [hStep] at hLock
    cases hNext : (rdmaMachine p).next t e with
    | none =>
        rw [hNext] at hLock
        cases hLock
    | some t' =>
        rw [hNext] at hLock
        cases hLock with
        | some hBoth => exact ⟨t', ht.next hNext, hBoth.2, hBoth.1⟩

/-- Behind the report all readers have finished. -/
theorem sweep_report_finished (hs : (sweepMachine p).Reachable s)
    (hReport : s.report.isSome) :
    ∀ i, i < p.active_requests → s.readers.pc i = .finished := by
  refine hs.invariant (P := fun s => s.report.isSome →
    ∀ i, i < p.active_requests → s.readers.pc i = .finished) ?_ ?_ hReport
  · intro hInit
    cases hInit
  · intro s e s' hs h hStep hSome i hi
    rcases sweep_cases hStep with hMain | ⟨gate, _, rfl⟩ |
      ⟨j, readers, _, _, hReader, rfl⟩
    · have hFrame := mainStep_frame hMain
      rw [hFrame.readers]
      rcases hFrame.report with hSame | ⟨hpc, -⟩
      · exact h (hSame ▸ hSome) i hi
      · have hMainInv := sweep_mainInv hs
        simp only [MainInv, hpc] at hMainInv
        exact hMainInv.2.2.2 i hi
    · exact h hSome i hi
    · exact readerStep_finished hReader (h hSome i hi)

/-- What `read_rdma` reports, under whatever schedule, is the totals of all the
rounds of all its readers, and the blocks read are all of its body. -/
theorem rdma_report_eq {result : Nat → Nat → BlockRead} (hNone : p.AllCreated)
    (hYields : p.body.Yields p.active_requests result)
    (hBlocks : p.body.blocks < 2 ^ 64) (ht : (rdmaMachine p).Reachable t)
    {totals : Totals} (hReport : t.report = some totals) :
    totals = crewTotals p.active_requests p.body.blocks result ∧
      ∀ req blk, (req, blk) ∈ t.reads ↔
        req < p.active_requests ∧ blk < p.body.blocks := by
  obtain ⟨s, hs, hMatches⟩ := rdma_matches hNone hBlocks ht
  have hReport' : s.report = some totals := hMatches.report ▸ hReport
  refine ⟨sweep_report_eq hYields hBlocks hs hReport', fun req blk => ?_⟩
  have hFinished := sweep_report_finished hs (Option.isSome_of_eq_some hReport')
  have hReaders := readersMachine_inv hYields hBlocks
    ((sweep_projects_readers p).reachable hs)
  rw [hMatches.reads req blk]
  constructor
  · rintro ⟨hReq, hBlk⟩
    have hDone := (hReaders.locals req hReq).done (by rw [hFinished req hReq]; simp)
    exact ⟨hReq, hDone ▸ hBlk⟩
  · rintro ⟨hReq, hBlk⟩
    have hDone := (hReaders.locals req hReq).done (by rw [hFinished req hReq]; simp)
    exact ⟨hReq, hDone ▸ hBlk⟩

/-- Some schedule comes to the report. -/
theorem rdma_reports (hNone : p.AllCreated)
    (hRequests : p.active_requests < 2 ^ 32)
    (hBlocks : p.body.blocks < 2 ^ 64) :
    ∃ t, (rdmaMachine p).Reachable t ∧ t.report.isSome := by
  obtain ⟨s, hs, hReport⟩ := sweep_reports hNone hRequests hBlocks
    (Machine.Reachable.initial (m := sweepMachine p))
  obtain ⟨t, ht, -, hMatches⟩ := sweep_matches hNone hBlocks hs
  exact ⟨t, ht, hMatches.report ▸ hReport⟩

end Run

end MioBench.Sync
