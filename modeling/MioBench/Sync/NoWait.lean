import MioBench.Sync.Sweep

/-!
# A sweep that counts its readers twice

`read_rdma` of `test4-nowait.c` prepares the arguments of its readers in one
loop and starts them in a second one, and both count in `created`.  A failure
opens the gate for `created` readers, which is how many have been started only
when none has been prepared either.
-/

namespace MioBench.Sync

open MioBench.Lib MioBench.Store

/-- Where the main thread stands in `read_rdma`. -/
inductive NoWaitPc
  | setup (i : Nat)
  | create (i : Nat)
  | opening (failed : Bool)
  | join (i : Nat)
  | joinNic
  | joinFree (i : Nat)
  | freeRest (i : Nat)
  | destroy
  | returned
  deriving DecidableEq, Repr

structure NoWaitState where
  gate : GateState
  readers : ReadersState
  main : NoWaitPc
  /-- How many reader threads exist. -/
  started : Nat
  created : Nat
  ret : Int
  scratch : Nat → Buffer
  joined : Nat → Nat
  destroyed : Bool

namespace NoWaitState

def init (p : Sweep) : NoWaitState where
  gate := GateState.gateInit p.active_requests
  readers := ReadersState.init p.scratch
  main := .setup 0
  started := 0
  created := 0
  ret := 0
  scratch := fun _ => .null
  joined := fun _ => 0
  destroyed := false

/-- `created++`, on a `uint32_t`. -/
def count (s : NoWaitState) : NoWaitState :=
  { s with created := (s.created + 1) % 2 ^ 32 }

/-- `pthread_join(threads[i], NULL)`: it returns when reader `i` is done. -/
def pthreadJoin (s : NoWaitState) (i : Nat) : Option NoWaitState :=
  if s.readers.pc i = .finished then
    some { s with joined := Function.update s.joined i (s.joined i + 1) }
  else none

/-- `free(args[i].scratch)`. -/
def freeScratch (s : NoWaitState) (i : Nat) : NoWaitState :=
  { s with scratch := Function.update s.scratch i (s.scratch i).free }

/-- Round `i` of the first loop. -/
def setupReader (p : Sweep) (s : NoWaitState) (i : Nat) : NoWaitState :=
  match p.createFails i with
  | some .scratchAlloc => { s with ret := -1, main := .opening true }
  | _ =>
      { s.count with
        scratch := Function.update s.scratch i p.newBuffer
        main := .setup (i + 1) }

/-- Round `i` of the second loop. -/
def createReader (p : Sweep) (s : NoWaitState) (i : Nat) : NoWaitState :=
  match p.createFails i with
  | some .pthreadCreate => { s with ret := -1, main := .opening true }
  | _ => { s.count with started := s.started + 1, main := .create (i + 1) }

/-- The next step of the main thread. -/
def mainStep (p : Sweep) (s : NoWaitState) : Option NoWaitState :=
  match s.main with
  | .setup i =>
      if i < p.active_requests then some (setupReader p s i)
      else some { s with main := .create 0 }
  | .create i =>
      if i < p.active_requests then some (createReader p s i)
      else some { s with main := .opening false }
  | .opening failed =>
      if s.gate.opener = .returned then
        some { s with main := if failed then .joinFree 0 else .join 0 }
      else
        (s.gate.openStep
          (if failed then .gateOpenAfterCreated s.created else .gateOpen)).map
            fun gate => { s with gate := gate }
  | .join i =>
      if i < p.active_requests then
        (s.pthreadJoin i).map fun s => { s with main := .join (i + 1) }
      else some { s with created := 0, main := .joinNic }
  -- `threads[cfg->requests]` is the NIC thread, which is never created here.
  | .joinNic => none
  | .joinFree i =>
      if i < s.created then
        -- `threads[i]` is zero where no thread has been started.
        (if i < s.started then s.pthreadJoin i else some s).map fun s =>
          { s.freeScratch i with main := .joinFree (i + 1) }
      else some { s with main := .freeRest s.created }
  | .freeRest i =>
      if i < p.active_requests then
        some { s.freeScratch i with main := .freeRest (i + 1) }
      else some { s with main := .destroy }
  | .destroy => some { s with destroyed := true, main := .returned }
  | .returned => none

/-- The next step of reader `i`, `rdma_reader_thread`: through the gate, then
through its loop. -/
def readerStep (p : Sweep) (s : NoWaitState) (i : Nat) : Option NoWaitState :=
  if s.gate.waiter i = .returned then
    (s.readers.readerStep p.body i).map fun readers =>
      { s with readers := readers }
  else (s.gate.gateWait i).map fun gate => { s with gate := gate }

end NoWaitState

/-- `read_rdma` with its readers. -/
def noWaitMachine (p : Sweep) : Machine NoWaitState SweepEvent where
  start := NoWaitState.init p
  next s
    | .main => s.mainStep p
    | .reader i => if i < s.started then s.readerStep p i else none
    | .wakeReader i =>
        if i < s.started then
          (s.gate.spuriousWaiter i).map fun gate => { s with gate := gate }
        else none
    | .wakeMain =>
        s.gate.spuriousOpener.map fun gate => { s with gate := gate }

/-- The clean-up of `read_rdma` completes, whatever the schedule. -/
structure CleanupCompletes (p : Sweep) : Prop where
  /-- The gate is opened for the readers there are. -/
  counts : ∀ s, (noWaitMachine p).Reachable s → s.main = .opening true →
    s.created = s.started
  /-- Until the return some thread has a step to take. -/
  notStuck : ∀ s, (noWaitMachine p).Reachable s → s.main ≠ .returned →
    ∃ e, e.OfThread ∧ ((noWaitMachine p).next s e).isSome

/-- Some schedule ends with main and every reader waiting for each other. -/
def Hangs (p : Sweep) : Prop :=
  ∃ s, (noWaitMachine p).Reachable s ∧ s.main = .opening true ∧
    ∀ e, e.OfThread → (noWaitMachine p).next s e = none

/-- The first scratch buffer is the one that cannot be allocated. -/
def Sweep.FailsFirst (p : Sweep) : Prop := p.createFails 0 = some .scratchAlloc

/-! ## A failure with nothing prepared -/

/-- Where main can be when the first allocation fails. -/
def NoWaitPc.Early : NoWaitPc → Prop
  | setup i => i = 0
  | opening failed => failed = true
  | create _ | join _ | joinNic => False
  | joinFree _ | freeRest _ | destroy | returned => True

/-- There are no readers, and the opener does not wait for any. -/
structure EarlyInv (s : NoWaitState) : Prop where
  main : s.main.Early
  started : s.started = 0
  created : s.created = 0
  ready : s.gate.gate.ready = 0
  opener : s.gate.opener = .entry ∨ s.gate.opener = .returned

section Early

variable {p : Sweep} {s s' : NoWaitState}

/-- The opener of a gate of nobody goes straight through. -/
theorem openStep_nobody {g : GateState} (hReady : g.gate.ready = 0)
    (hEntry : g.opener = .entry) :
    ∃ g', g.openStep (.gateOpenAfterCreated 0) = some g' ∧
      g'.opener = .returned ∧ g'.gate.ready = 0 := by
  refine ⟨({ g with gate := { g.gate with total := 0 } }).gateOpenLoop, ?_, ?_,
    ?_⟩
  · simp [GateState.openStep, hEntry, OpenCall.enter]
  · simp [GateState.gateOpenLoop, GateState.setOpener]
  · simpa [GateState.gateOpenLoop, GateState.setOpener, GateState.broadcast]
      using hReady

/-- Main always has a step, and it keeps the invariant. -/
theorem EarlyInv.mainStep (h : EarlyInv s) (hFirst : p.FailsFirst)
    (hRequests : 0 < p.active_requests) (hMain : s.main ≠ .returned) :
    ∃ s', s.mainStep p = some s' ∧ EarlyInv s' := by
  obtain ⟨hEarly, hStarted, hCreated, hReady, hOpener⟩ := h
  unfold Sweep.FailsFirst at hFirst
  cases hpc : s.main with
  | setup i =>
      rw [hpc] at hEarly
      obtain rfl : i = 0 := hEarly
      refine ⟨{ s with ret := -1, main := .opening true }, ?_, ?_⟩
      · simp [NoWaitState.mainStep, hpc, hRequests, NoWaitState.setupReader,
          hFirst]
      · exact ⟨rfl, hStarted, hCreated, hReady, hOpener⟩
  | create i => rw [hpc] at hEarly; cases hEarly
  | opening failed =>
      rw [hpc] at hEarly
      obtain rfl : failed = true := hEarly
      rcases hOpener with hEntry | hReturned
      · obtain ⟨gate, hGate, hDone, hZero⟩ := openStep_nobody hReady hEntry
        refine ⟨{ s with gate := gate }, ?_, ?_⟩
        · simp [NoWaitState.mainStep, hpc, hEntry, hCreated, hGate]
        · exact ⟨by rw [hpc]; rfl, hStarted, hCreated, hZero, Or.inr hDone⟩
      · refine ⟨{ s with main := .joinFree 0 }, ?_, ?_⟩
        · simp [NoWaitState.mainStep, hpc, hReturned]
        · exact ⟨trivial, hStarted, hCreated, hReady, Or.inr hReturned⟩
  | join i => rw [hpc] at hEarly; cases hEarly
  | joinNic => rw [hpc] at hEarly; cases hEarly
  | joinFree i =>
      refine ⟨{ s with main := .freeRest s.created }, ?_, ?_⟩
      · simp [NoWaitState.mainStep, hpc, hCreated]
      · exact ⟨trivial, hStarted, hCreated, hReady, hOpener⟩
  | freeRest i =>
      by_cases hi : i < p.active_requests
      · refine ⟨{ s.freeScratch i with main := .freeRest (i + 1) }, ?_, ?_⟩
        · simp [NoWaitState.mainStep, hpc, hi]
        · exact ⟨trivial, hStarted, hCreated, hReady, hOpener⟩
      · refine ⟨{ s with main := .destroy }, ?_, ?_⟩
        · simp [NoWaitState.mainStep, hpc, hi]
        · exact ⟨trivial, hStarted, hCreated, hReady, hOpener⟩
  | destroy =>
      refine ⟨{ s with destroyed := true, main := .returned }, ?_, ?_⟩
      · simp [NoWaitState.mainStep, hpc]
      · exact ⟨trivial, hStarted, hCreated, hReady, hOpener⟩
  | returned => exact absurd hpc hMain

theorem noWait_earlyInv (hFirst : p.FailsFirst)
    (hRequests : 0 < p.active_requests) (hs : (noWaitMachine p).Reachable s) :
    EarlyInv s := by
  have hInit : EarlyInv (NoWaitState.init p) :=
    { main := rfl
      started := rfl
      created := rfl
      ready := rfl
      opener := Or.inl rfl }
  refine hs.invariant (P := EarlyInv) hInit ?_
  intro s e s' _ h hStep
  cases e with
  | main =>
      have hTakes : s.mainStep p = some s' := hStep
      have hMain : s.main ≠ .returned := by
        intro hpc
        simp [NoWaitState.mainStep, hpc] at hTakes
      obtain ⟨t, hNext, ht⟩ := h.mainStep hFirst hRequests hMain
      rw [hNext] at hTakes
      exact Option.some.inj hTakes ▸ ht
  | reader i => simp [noWaitMachine, h.started] at hStep
  | wakeReader i => simp [noWaitMachine, h.started] at hStep
  | wakeMain =>
      rcases h.opener with hOpener | hOpener
      · simp [noWaitMachine, GateState.spuriousOpener, hOpener] at hStep
      · simp [noWaitMachine, GateState.spuriousOpener, hOpener] at hStep

theorem cleanupCompletes_of_failsFirst (hFirst : p.FailsFirst)
    (hRequests : 0 < p.active_requests) : CleanupCompletes p where
  counts := fun s hs _ => by
    have h := noWait_earlyInv hFirst hRequests hs
    rw [h.created, h.started]
  notStuck := fun s hs hMain => by
    obtain ⟨s', hStep, _⟩ :=
      (noWait_earlyInv hFirst hRequests hs).mainStep hFirst hRequests hMain
    exact ⟨.main, trivial, Option.isSome_iff_exists.mpr ⟨s', hStep⟩⟩

end Early

/-! ## A later failure -/

/-- How many readers are started when creation `k` fails. -/
def Sweep.startedAt (p : Sweep) (k : Nat) : Nat :=
  if p.createFails k = some .pthreadCreate then k else 0

/-- And what `created` is by then. -/
def Sweep.createdAt (p : Sweep) (k : Nat) : Nat :=
  if p.createFails k = some .pthreadCreate then
    (p.active_requests + k) % 2 ^ 32
  else k

/-- Main has come to `pc` with nobody at the gate yet. -/
structure NoWaitAt (p : Sweep) (pc : NoWaitPc) (started created : Nat)
    (s : NoWaitState) : Prop where
  main : s.main = pc
  started : s.started = started
  created : s.created = created
  gate : s.gate = GateState.gateInit p.active_requests

section Late

variable {p : Sweep} {k : Nat}

theorem noWait_main {s s' : NoWaitState} (hs : (noWaitMachine p).Reachable s)
    (hStep : s.mainStep p = some s') : (noWaitMachine p).Reachable s' :=
  @Machine.Reachable.next _ _ _ s s' .main hs hStep

theorem noWait_setup {i : Nat} (hi : i ≤ p.active_requests)
    (hRequests : p.active_requests < 2 ^ 32)
    (hCreates : ∀ j, j < i → p.createFails j ≠ some .scratchAlloc) :
    ∃ s, (noWaitMachine p).Reachable s ∧ NoWaitAt p (.setup i) 0 i s := by
  refine Machine.exists_reachable_stage (P := fun i => NoWaitAt p (.setup i) 0 i)
    ⟨_, Machine.Reachable.initial, rfl, rfl, rfl, rfl⟩ ?_
  intro j s hj h
  have hCount : (s.created + 1) % 2 ^ 32 = j + 1 := by
    rw [h.created]
    exact Nat.mod_eq_of_lt (by omega)
  refine ⟨.main, { s.count with
    scratch := Function.update s.scratch j p.newBuffer
    main := .setup (j + 1) }, ?_, rfl, h.started, hCount, h.gate⟩
  have hLess : j < p.active_requests := by omega
  show s.mainStep p = _
  simp only [NoWaitState.mainStep, h.main, hLess, ↓reduceIte,
    NoWaitState.setupReader]
  split
  · rename_i hScratch
    exact absurd hScratch (hCreates j hj)
  · rfl

theorem noWait_create {i : Nat} (hi : i ≤ p.active_requests)
    (hRequests : p.active_requests < 2 ^ 32)
    (hSetup : ∀ j, p.createFails j ≠ some .scratchAlloc)
    (hCreates : ∀ j, j < i → p.createFails j ≠ some .pthreadCreate) :
    ∃ s, (noWaitMachine p).Reachable s ∧
      NoWaitAt p (.create i) i ((p.active_requests + i) % 2 ^ 32) s := by
  refine Machine.exists_reachable_stage (P := fun i =>
    NoWaitAt p (.create i) i ((p.active_requests + i) % 2 ^ 32)) ?_ ?_
  · obtain ⟨s, hs, h⟩ := noWait_setup (Nat.le_refl _) hRequests
      fun j _ => hSetup j
    refine ⟨{ s with main := .create 0 }, noWait_main hs ?_, rfl, h.started, ?_,
      h.gate⟩
    · simp [NoWaitState.mainStep, h.main]
    · exact h.created.trans (Nat.mod_eq_of_lt hRequests).symm
  · intro j s hj h
    have hCount : (s.created + 1) % 2 ^ 32 =
        (p.active_requests + (j + 1)) % 2 ^ 32 := by
      rw [h.created]
      omega
    refine ⟨.main, { s.count with
      started := s.started + 1, main := .create (j + 1) }, ?_, rfl,
      congrArg (· + 1) h.started, hCount, h.gate⟩
    have hLess : j < p.active_requests := by omega
    show s.mainStep p = _
    simp only [NoWaitState.mainStep, h.main, hLess, ↓reduceIte,
      NoWaitState.createReader]
    split
    · rename_i hThread
      exact absurd hThread (hCreates j hj)
    · rfl

/-- The failure is met. -/
theorem noWait_fails (hk : k < p.active_requests)
    (hRequests : p.active_requests < 2 ^ 32) (hFails : p.createFails k ≠ none) :
    ∃ s, (noWaitMachine p).Reachable s ∧
      NoWaitAt p (.opening true) (p.startedAt k) (p.createdAt k) s := by
  have hOnly : ∀ {j kind}, p.createFails j = some kind → j = k := fun hj =>
    Sweep.createFails_unique (by simp [hj]) hFails
  unfold Sweep.startedAt Sweep.createdAt
  cases hKind : p.createFails k with
  | none => exact absurd hKind hFails
  | some kind =>
      cases kind with
      | scratchAlloc =>
          obtain ⟨s, hs, h⟩ := noWait_setup (Nat.le_of_lt hk) hRequests
            fun j hj hScratch => by
              have hEq := hOnly hScratch
              omega
          refine ⟨{ s with ret := -1, main := .opening true },
            noWait_main hs ?_, rfl, h.started, h.created, h.gate⟩
          simp [NoWaitState.mainStep, h.main, hk, NoWaitState.setupReader, hKind]
      | pthreadCreate =>
          have hSetup : ∀ j, p.createFails j ≠ some .scratchAlloc := by
            intro j hScratch
            rw [hOnly hScratch, hKind] at hScratch
            cases hScratch
          obtain ⟨s, hs, h⟩ := noWait_create (Nat.le_of_lt hk) hRequests hSetup
            fun j hj hThread => by
              have hEq := hOnly hThread
              omega
          refine ⟨{ s with ret := -1, main := .opening true },
            noWait_main hs ?_, rfl, h.started, h.created, h.gate⟩
          simp [NoWaitState.mainStep, h.main, hk, NoWaitState.createReader, hKind]

/-- An arrival that does not complete the count wakes nobody. -/
theorem gateArrive_quiet {g : GateState} {n : Nat}
    (hReady : (g.gate.ready + 1) % 2 ^ 32 = n) (hLater : n ≠ g.gate.total) :
    g.gateArrive = { g with gate := { g.gate with ready := n } } := by
  simp only [GateState.gateArrive, hReady]
  exact if_neg hLater

/-- The first `n` readers sleep at the gate and main has not come to it. -/
structure Sleeping (p : Sweep) (k n : Nat) (s : NoWaitState) : Prop where
  main : s.main = .opening true
  started : s.started = p.startedAt k
  created : s.created = p.createdAt k
  gate : s.gate.gate =
    { total := p.active_requests, ready := n, isOpen := false }
  waiter : ∀ i, s.gate.waiter i = if i < n then .asleep else .entry
  opener : s.gate.opener = .entry

/-- All readers go to sleep at the gate before main comes to it: their number
is not yet the total. -/
theorem noWait_sleeping (hk : k < p.active_requests)
    (hRequests : p.active_requests < 2 ^ 32) (hFails : p.createFails k ≠ none) :
    ∃ s, (noWaitMachine p).Reachable s ∧ Sleeping p k (p.startedAt k) s := by
  have hStarted : p.startedAt k ≤ k := by
    unfold Sweep.startedAt
    split <;> omega
  refine Machine.exists_reachable_stage (P := Sleeping p k) ?_ ?_
  · obtain ⟨s, hs, h⟩ := noWait_fails hk hRequests hFails
    have hGate := h.gate
    exact ⟨s, hs, h.main, h.started, h.created, by rw [hGate]; rfl,
      fun i => by rw [hGate]; rfl, by rw [hGate]; rfl⟩
  · intro j s hj h
    have hEntry : s.gate.waiter j = .entry := by
      rw [h.waiter j, if_neg (Nat.lt_irrefl j)]
    have hReady : (j + 1) % 2 ^ 32 = j + 1 := Nat.mod_eq_of_lt (by omega)
    have hLater : j + 1 ≠ p.active_requests := by omega
    have hArrive := @gateArrive_quiet s.gate (j + 1) (by rw [h.gate]; exact hReady)
      (by rw [h.gate]; exact hLater)
    have hStep : s.gate.gateWait j = some
        { s.gate with
          gate := { s.gate.gate with ready := j + 1 }
          waiter := Function.update s.gate.waiter j .asleep } := by
      simp [GateState.gateWait, hEntry, hArrive, h.gate,
        GateState.gateWaitLoop, GateState.setWaiter]
    have hMine : j < s.started := by rw [h.started]; exact hj
    refine ⟨.reader j, { s with gate := { s.gate with
      gate := { s.gate.gate with ready := j + 1 }
      waiter := Function.update s.gate.waiter j .asleep } }, ?_, h.main,
      h.started, h.created, ?_, ?_, h.opener⟩
    · show (if j < s.started then s.readerStep p j else none) = _
      rw [if_pos hMine]
      simp [NoWaitState.readerStep, hEntry, hStep]
    · simp [h.gate]
    · intro i
      show Function.update s.gate.waiter j .asleep i = _
      by_cases hij : i = j
      · subst hij
        rw [Function.update_self, if_pos (Nat.lt_succ_self i)]
      · rw [Function.update_of_ne hij, h.waiter i]
        exact if_congr (by omega) rfl rfl

/-- A gate opened for more readers than have been started stays closed. -/
theorem noWait_stuck (hk : k < p.active_requests)
    (hRequests : p.active_requests < 2 ^ 32) (hFails : p.createFails k ≠ none)
    (hLess : p.startedAt k < p.createdAt k) : Hangs p := by
  obtain ⟨s, hs, h⟩ := noWait_sleeping hk hRequests hFails
  have hStep : s.gate.openStep (.gateOpenAfterCreated s.created) = some
      { s.gate with
        gate := { s.gate.gate with total := p.createdAt k }
        opener := .asleep } := by
    simp [GateState.openStep, h.opener, OpenCall.enter, GateState.gateOpenLoop,
      GateState.setOpener, h.gate, h.created, hLess]
  refine ⟨{ s with gate := { s.gate with
    gate := { s.gate.gate with total := p.createdAt k }
    opener := .asleep } }, noWait_main hs ?_, h.main, ?_⟩
  · simp [NoWaitState.mainStep, h.main, h.opener, hStep]
  · intro e he
    cases e with
    | main =>
        show NoWaitState.mainStep p _ = none
        simp [NoWaitState.mainStep, h.main, GateState.openStep]
    | reader i =>
        show (if i < s.started then NoWaitState.readerStep p _ i else none) = none
        split
        · rename_i hi
          rw [h.started] at hi
          have hAsleep : s.gate.waiter i = .asleep := by
            rw [h.waiter i, if_pos hi]
          simp [NoWaitState.readerStep, hAsleep, GateState.gateWait]
        · rfl
    | wakeReader i => cases he
    | wakeMain => cases he

end Late

section Failure

variable {p : Sweep} {k : Nat}

theorem Sweep.failsFirst_iff {kind : CreateFail}
    (hKind : p.createFails k = some kind) :
    p.FailsFirst ↔ k = 0 ∧ kind = .scratchAlloc := by
  constructor
  · intro hScratch
    unfold FailsFirst at hScratch
    obtain rfl : 0 = k :=
      @createFails_unique p 0 k (by simp [hScratch]) (by simp [hKind])
    rw [hScratch] at hKind
    exact ⟨rfl, (Option.some.inj hKind).symm⟩
  · rintro ⟨rfl, rfl⟩
    exact hKind

/-- The count is right when nothing has been counted. -/
theorem noWait_completes (hRequests : p.active_requests < 2 ^ 32)
    (hk : k < p.active_requests) (hFails : p.createFails k ≠ none) :
    CleanupCompletes p ↔ p.FailsFirst := by
  refine ⟨fun h => ?_,
    fun hFirst => cleanupCompletes_of_failsFirst hFirst (by omega)⟩
  obtain ⟨s, hs, hAt⟩ := noWait_fails hk hRequests hFails
  have hCount := h.counts s hs hAt.main
  rw [hAt.created, hAt.started] at hCount
  obtain ⟨kind, hKind⟩ := Option.ne_none_iff_exists'.mp hFails
  rw [Sweep.failsFirst_iff hKind]
  cases kind with
  | scratchAlloc =>
      simp only [Sweep.createdAt, Sweep.startedAt, hKind] at hCount
      exact ⟨by simpa using hCount, rfl⟩
  | pthreadCreate =>
      simp only [Sweep.createdAt, Sweep.startedAt, hKind, ↓reduceIte] at hCount
      omega

/-- Otherwise main waits for readers that do not exist, and those that do wait
for main. -/
theorem noWait_hangs (hk : k < p.active_requests)
    (hHalf : p.active_requests ≤ 2 ^ 31) (hFails : p.createFails k ≠ none)
    (hLate : ¬ p.FailsFirst) : Hangs p := by
  refine noWait_stuck hk (by omega) hFails ?_
  obtain ⟨kind, hKind⟩ := Option.ne_none_iff_exists'.mp hFails
  rw [Sweep.failsFirst_iff hKind] at hLate
  cases kind with
  | scratchAlloc =>
      have hPos : k ≠ 0 := fun hZero => hLate ⟨hZero, rfl⟩
      simp only [Sweep.createdAt, Sweep.startedAt, hKind]
      simpa using Nat.pos_of_ne_zero hPos
  | pthreadCreate =>
      simp only [Sweep.createdAt, Sweep.startedAt, hKind, ↓reduceIte]
      omega

end Failure

end MioBench.Sync
