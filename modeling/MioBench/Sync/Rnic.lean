import MioBench.Sync.MpscProgress
import MioBench.Sync.Nic
import MioBench.Sync.Sweep

/-!
# The sweep through the RNIC thread

`run_one_sweep` of `test2-rdma-fin.c`: every reader first puts a request into
the MPSC queue and spins on its flag, the RNIC thread dequeues the requests,
stamps them and raises the flags, and only then do the readers go through the
gate and copy.  Queue, gate and copy loop are the machines of the other
modules; the machine here runs them together with the RNIC thread and with
main, for every creation that can fail.

A wait for the clock is one step, taken at a reading of the clock that ends it.
-/

namespace MioBench.Sync

open MioBench.Lib MioBench.Store

/-- The ways creating a reader can fail. -/
inductive RnicCreateFail
  | scratchAlloc
  | reqAlloc
  | nodeAlloc
  | reqNodeAlloc
  | pthreadCreate
  deriving DecidableEq, Repr

/-- What `args[i]` owns. -/
structure ArgBuffers where
  scratch : Buffer
  rdma_req : Buffer
  node_pool : Buffer
  deriving DecidableEq, Repr

namespace ArgBuffers

/-- `calloc(active_requests, sizeof(*args))`. -/
def empty : ArgBuffers where
  scratch := .null
  rdma_req := .null
  node_pool := .null

/-- The three calls of `free`. -/
def free (b : ArgBuffers) : ArgBuffers where
  scratch := b.scratch.free
  rdma_req := b.rdma_req.free
  node_pool := b.node_pool.free

end ArgBuffers

/-- What one sweep depends on. -/
structure RnicSweep where
  active_requests : Nat
  copy_to_dst : Bool
  body : ReaderLoop
  /-- What the NIC moves for one request. -/
  req_bytes : Nat
  /-- The global `lag` as the last sweep left it. -/
  lag : ℚ
  /-- Whether creating the RNIC thread fails. -/
  rnicFails : Bool
  failure : Option (Nat × RnicCreateFail)
  /-- What fresh scratch buffers hold. -/
  scratch : Nat → Memory

namespace RnicSweep

/-- What happens to the creation of reader `i`. -/
def createFails (p : RnicSweep) (i : Nat) : Option RnicCreateFail :=
  match p.failure with
  | none => none
  | some (k, .scratchAlloc) =>
      if i = k ∧ p.copy_to_dst then some .scratchAlloc else none
  | some (k, kind) => if i = k then some kind else none

/-- `copy_to_dst ? xaligned_alloc(block_bytes) : NULL`. -/
def newBuffer (p : RnicSweep) : Buffer := if p.copy_to_dst then .live else .null

end RnicSweep

/-- Where a reader stands in `rdma_reader_thread`. -/
inductive ReaderPhase
  | begin
  | reset
  | enqueue
  | spin
  | through
  deriving DecidableEq, Repr

/-- Where the RNIC thread stands.  A request is named by the reader it belongs
to; `fault` is the use of a node that carries none. -/
inductive RnicPc
  | unborn
  | loop
  | dequeue
  | calculate (req : Nat)
  | hold (req : Nat)
  | signal (req : Nat)
  | count
  | exited
  | fault
  deriving DecidableEq, Repr

/-- Where the main thread stands in the sweep. -/
inductive RnicMainPc
  | createRnic
  | create (i : Nat)
  | opening (failed : Bool)
  | join (i : Nat)
  | joinRnic
  | report
  | joinCreated (i : Nat)
  | joinStarted
  | freeArgs (i : Nat)
  | destroy
  | returned
  deriving DecidableEq, Repr

structure RnicState where
  mpsc : MpscState
  gate : GateState
  readers : ReadersState
  phase : Nat → ReaderPhase
  /-- `node->req` of every node. -/
  payload : NodePtr → Option Nat
  rdma_req : Nat → RdmaReq
  response_ready : Nat → Bool
  rnic : RnicPc
  nic : Nic
  lag : ℚ
  done : Nat
  main : RnicMainPc
  /-- How many reader threads exist. -/
  started : Nat
  created : Nat
  rnic_started : Bool
  ret : Int
  args : Nat → ArgBuffers
  report : Option Totals
  /-- History: the requests in the order the RNIC stamped them. -/
  stamped : List Nat

namespace RnicState

/-- The sweep before the RNIC thread is created, with the queue, the flags and
the gate initialised. -/
def init (p : RnicSweep) : RnicState where
  mpsc := MpscState.init fun _ => none
  gate := GateState.gateInit p.active_requests
  readers := ReadersState.init p.scratch
  phase := fun _ => .begin
  payload := fun _ => none
  rdma_req := fun _ => { req_id := 0, stime := 0, expire_time := 0 }
  response_ready := fun _ => false
  rnic := .unborn
  nic := Nic.init
  lag := p.lag
  done := 0
  main := .createRnic
  started := 0
  created := 0
  rnic_started := false
  ret := 0
  args := fun _ => ArgBuffers.empty
  report := none
  stamped := []

/-! ## `rdma_reader_thread` -/

def setPhase (s : RnicState) (i : Nat) (phase : ReaderPhase) : RnicState :=
  { s with phase := Function.update s.phase i phase }

/-- Reader `i` fills in its request and its node, at time `now`. -/
def prepare (s : RnicState) (i : Nat) (now : ℚ) : RnicState :=
  { s.setPhase i .reset with
    rdma_req := Function.update s.rdma_req i
      { req_id := i, stime := now, expire_time := now }
    payload := Function.update s.payload (.node i) (some i) }

/-- The next step of reader `i`. -/
def readerStep (p : RnicSweep) (s : RnicState) (i : Nat) (now : ℚ) :
    Option RnicState :=
  match s.phase i with
  | .begin => some (s.prepare i now)
  | .reset =>
      (s.mpsc.enqueueReset i i).map fun mpsc =>
        { s.setPhase i .enqueue with mpsc := mpsc }
  | .enqueue =>
      match s.mpsc.producer i with
      | .idle => none
      | .exchange _ =>
          (s.mpsc.enqueueExchange i).map fun mpsc => { s with mpsc := mpsc }
      | .link _ _ =>
          (s.mpsc.enqueueLink i).map fun mpsc =>
            { s.setPhase i .spin with mpsc := mpsc }
  | .spin => some (if s.response_ready i then s.setPhase i .through else s)
  | .through =>
      if s.gate.waiter i = .returned then
        (s.readers.readerStep p.body i).map fun readers =>
          { s with readers := readers }
      else (s.gate.gateWait i).map fun gate => { s with gate := gate }

/-! ## `rnic_thread` -/

/-- What `rnic_thread` does with the result of `mpsc_dequeue`. -/
def received (s : RnicState) : RnicPc :=
  match s.mpsc.result with
  | none => .loop
  | some node =>
      match s.payload node with
      | none => .fault
      | some req => .calculate req

/-- The next operation of `mpsc_dequeue`, up to its return. -/
def rnicDequeue (s : RnicState) : RnicState :=
  let s₁ := { s with mpsc := s.mpsc.dequeueStep }
  if s₁.mpsc.consumer = .idle then { s₁ with rnic := s₁.received } else s₁

/-- The `calculate` section on request `req`. -/
def rnicCalculate (p : RnicSweep) (s : RnicState) (req : Nat) : RnicState :=
  let r := s.nic.calculate s.lag (s.rdma_req req) (s.nic.serviceNs p.req_bytes)
  { s with
    nic := r.1
    lag := r.2.1
    rdma_req := Function.update s.rdma_req req r.2.2
    stamped := s.stamped ++ [req]
    rnic := .hold req }

/-- The next step of the RNIC thread. -/
def rnicStep (p : RnicSweep) (s : RnicState) (now : ℚ) : Option RnicState :=
  match s.rnic with
  | .unborn => none
  | .loop =>
      some { s with
        rnic := if s.done < p.active_requests then .dequeue else .exited }
  | .dequeue => some s.rnicDequeue
  | .calculate req => some (s.rnicCalculate p req)
  | .hold req =>
      if now < (s.rdma_req req).expire_time then none
      else some { s with nic := { s.nic with busy := false }, rnic := .signal req }
  | .signal req =>
      some { s with
        response_ready :=
          Function.update s.response_ready (s.rdma_req req).req_id true
        rnic := .count }
  | .count => some { s with done := (s.done + 1) % 2 ^ 32, rnic := .loop }
  | .exited => none
  | .fault => none

/-! ## `run_one_sweep` -/

/-- `pthread_join(threads[i], NULL)`. -/
def pthreadJoin (s : RnicState) (i : Nat) (pc : RnicMainPc) : Option RnicState :=
  if s.readers.pc i = .finished then some { s with main := pc } else none

/-- The creation of reader `i`. -/
def createReader (p : RnicSweep) (s : RnicState) (i : Nat) : RnicState :=
  let setArgs (b : ArgBuffers) := Function.update s.args i b
  match p.createFails i with
  | none =>
      { s with
        args := setArgs ⟨p.newBuffer, .live, .live⟩
        started := s.started + 1
        created := s.created + 1
        main := .create (i + 1) }
  | some .scratchAlloc => { s with ret := -1, main := .opening true }
  | some .reqAlloc =>
      { s with
        args := setArgs ⟨p.newBuffer, .null, .live⟩
        ret := -1, main := .opening true }
  | some .nodeAlloc =>
      { s with
        args := setArgs ⟨p.newBuffer, .live, .null⟩
        ret := -1, main := .opening true }
  | some .reqNodeAlloc =>
      { s with
        args := setArgs ⟨p.newBuffer, .null, .null⟩
        ret := -1, main := .opening true }
  | some .pthreadCreate =>
      { s with
        args := setArgs ⟨p.newBuffer, .live, .live⟩
        ret := -1, main := .opening true }

/-- The next step of the main thread. -/
def mainStep (p : RnicSweep) (s : RnicState) : Option RnicState :=
  match s.main with
  | .createRnic =>
      if p.rnicFails then some { s with ret := -1, main := .joinCreated 0 }
      else
        some { s with rnic := .loop, rnic_started := true, main := .create 0 }
  | .create i =>
      if i < p.active_requests then some (s.createReader p i)
      else some { s with main := .opening false }
  | .opening failed =>
      if s.gate.opener = .returned then
        some { s with main := if failed then .joinCreated 0 else .join 0 }
      else
        (s.gate.openStep
          (if failed then .gateOpenAfterCreated s.created else .gateOpen)).map
            fun gate => { s with gate := gate }
  | .join i =>
      if i < s.created then s.pthreadJoin i (.join (i + 1))
      else some { s with created := 0, main := .joinRnic }
  | .joinRnic =>
      if s.rnic = .exited then
        some { s with rnic_started := false, main := .report }
      else none
  | .report =>
      some { s with report := some s.readers.totals, main := .joinCreated 0 }
  | .joinCreated i =>
      if i < s.created then s.pthreadJoin i (.joinCreated (i + 1))
      else some { s with main := .joinStarted }
  | .joinStarted =>
      if s.rnic_started ∧ s.rnic ≠ .exited then none
      else some { s with main := .freeArgs 0 }
  | .freeArgs i =>
      if i < p.active_requests then
        some { s with
          args := Function.update s.args i (s.args i).free
          main := .freeArgs (i + 1) }
      else some { s with main := .destroy }
  | .destroy => some { s with main := .returned }
  | .returned => none

end RnicState

/-- The steps of a sweep; `now` is what the clock shows.  The last two are
spurious wake-ups. -/
inductive RnicEvent
  | main
  | reader (i : Nat) (now : ℚ)
  | rnic (now : ℚ)
  | wakeReader (i : Nat)
  | wakeMain
  deriving DecidableEq, Repr

def rnicMachine (p : RnicSweep) : Machine RnicState RnicEvent where
  start := RnicState.init p
  next s
    | .main => s.mainStep p
    | .reader i now => if i < s.started then s.readerStep p i now else none
    | .rnic now => s.rnicStep p now
    | .wakeReader i =>
        if i < s.started then
          (s.gate.spuriousWaiter i).map fun gate => { s with gate := gate }
        else none
    | .wakeMain =>
        s.gate.spuriousOpener.map fun gate => { s with gate := gate }

/-! ## What a step can do -/

/-- A step of main. -/
inductive RnicMainMove (p : RnicSweep) (s s' : RnicState) : Prop
  | noRnic (hpc : s.main = .createRnic) (hFails : p.rnicFails = true)
      (h : s' = { s with ret := -1, main := .joinCreated 0 })
  | createRnic (hpc : s.main = .createRnic) (hFails : p.rnicFails = false)
      (h : s' = { s with rnic := .loop, rnic_started := true, main := .create 0 })
  | createReader (i : Nat) (hpc : s.main = .create i)
      (hi : i < p.active_requests) (h : s' = s.createReader p i)
  | allCreated (i : Nat) (hpc : s.main = .create i)
      (hi : p.active_requests ≤ i) (h : s' = { s with main := .opening false })
  | openGate (failed : Bool) (gate : GateState) (hpc : s.main = .opening failed)
      (hOpener : s.gate.opener ≠ .returned)
      (hGate : s.gate.openStep (if failed then .gateOpenAfterCreated s.created
        else .gateOpen) = some gate)
      (h : s' = { s with gate := gate })
  | opened (failed : Bool) (hpc : s.main = .opening failed)
      (hOpener : s.gate.opener = .returned)
      (h : s' = { s with main := if failed then .joinCreated 0 else .join 0 })
  | join (i : Nat) (hpc : s.main = .join i) (hi : i < s.created)
      (hFinished : s.readers.pc i = .finished)
      (h : s' = { s with main := .join (i + 1) })
  | allJoined (i : Nat) (hpc : s.main = .join i) (hi : s.created ≤ i)
      (h : s' = { s with created := 0, main := .joinRnic })
  | joinRnic (hpc : s.main = .joinRnic) (hRnic : s.rnic = .exited)
      (h : s' = { s with rnic_started := false, main := .report })
  | report (hpc : s.main = .report)
      (h : s' = { s with
        report := some s.readers.totals, main := .joinCreated 0 })
  | joinCreated (i : Nat) (hpc : s.main = .joinCreated i) (hi : i < s.created)
      (hFinished : s.readers.pc i = .finished)
      (h : s' = { s with main := .joinCreated (i + 1) })
  | createdJoined (i : Nat) (hpc : s.main = .joinCreated i)
      (hi : s.created ≤ i) (h : s' = { s with main := .joinStarted })
  | joinStarted (hpc : s.main = .joinStarted)
      (hRnic : s.rnic_started = true → s.rnic = .exited)
      (h : s' = { s with main := .freeArgs 0 })
  | freeArgs (i : Nat) (hpc : s.main = .freeArgs i)
      (hi : i < p.active_requests)
      (h : s' = { s with
        args := Function.update s.args i (s.args i).free
        main := .freeArgs (i + 1) })
  | allFreed (i : Nat) (hpc : s.main = .freeArgs i)
      (hi : p.active_requests ≤ i) (h : s' = { s with main := .destroy })
  | destroy (hpc : s.main = .destroy) (h : s' = { s with main := .returned })

/-- A step of the RNIC thread. -/
inductive RnicThreadMove (p : RnicSweep) (s s' : RnicState) : Prop
  | again (hpc : s.rnic = .loop) (hMore : s.done < p.active_requests)
      (h : s' = { s with rnic := .dequeue })
  | exit (hpc : s.rnic = .loop) (hEnough : p.active_requests ≤ s.done)
      (h : s' = { s with rnic := .exited })
  | dequeue (rnic : RnicPc) (hpc : s.rnic = .dequeue)
      (hRnic : rnic = if s.mpsc.dequeueStep.consumer = .idle then
        { s with mpsc := s.mpsc.dequeueStep }.received else .dequeue)
      (h : s' = { s with mpsc := s.mpsc.dequeueStep, rnic := rnic })
  | calculate (req : Nat) (hpc : s.rnic = .calculate req)
      (h : s' = s.rnicCalculate p req)
  | hold (req : Nat) (hpc : s.rnic = .hold req)
      (h : s' = { s with
        nic := { s.nic with busy := false }, rnic := .signal req })
  | signal (req : Nat) (hpc : s.rnic = .signal req)
      (h : s' = { s with
        response_ready :=
          Function.update s.response_ready (s.rdma_req req).req_id true
        rnic := .count })
  | count (hpc : s.rnic = .count)
      (h : s' = { s with done := (s.done + 1) % 2 ^ 32, rnic := .loop })

/-- A step of reader `i` on its way to the gate. -/
inductive RequestMove (s s' : RnicState) (i : Nat) : Prop
  | prepare (now : ℚ) (hPhase : s.phase i = .begin) (h : s' = s.prepare i now)
  | reset (mpsc : MpscState) (hPhase : s.phase i = .reset)
      (hMpsc : s.mpsc.enqueueReset i i = some mpsc)
      (h : s' = { s.setPhase i .enqueue with mpsc := mpsc })
  | exchange (mpsc : MpscState) (hPhase : s.phase i = .enqueue)
      (hMpsc : s.mpsc.enqueueExchange i = some mpsc)
      (h : s' = { s with mpsc := mpsc })
  | link (mpsc : MpscState) (hPhase : s.phase i = .enqueue)
      (hMpsc : s.mpsc.enqueueLink i = some mpsc)
      (h : s' = { s.setPhase i .spin with mpsc := mpsc })
  | poll (hPhase : s.phase i = .spin) (hFlag : s.response_ready i = false)
      (h : s' = s)
  | leave (hPhase : s.phase i = .spin) (hFlag : s.response_ready i = true)
      (h : s' = s.setPhase i .through)

/-- A step of reader `i`: on its way to the gate, at the gate or behind it. -/
inductive ReaderMove (p : RnicSweep) (s s' : RnicState) (i : Nat) : Prop
  | request (h : RequestMove s s' i)
  | wait (gate : GateState) (hPhase : s.phase i = .through)
      (hGate : s.gate.gateWait i = some gate) (h : s' = { s with gate := gate })
  | copy (readers : ReadersState) (hPhase : s.phase i = .through)
      (hPassed : s.gate.waiter i = .returned)
      (hReader : s.readers.readerStep p.body i = some readers)
      (h : s' = { s with readers := readers })

/-- A step of the sweep is main's, the RNIC's, a reader's on its way to the
gate, one that only the gate sees, or a reader's behind the gate. -/
inductive RnicMove (p : RnicSweep) (s s' : RnicState) : Prop
  | main (h : s.mainStep p = some s')
  | rnic (now : ℚ) (h : s.rnicStep p now = some s')
  | request (i : Nat) (hi : i < s.started) (h : RequestMove s s' i)
  | gate (gate : GateState) (hMove : GateMove s.started s.gate gate)
      (hPhase : ∀ i, gate.waiter i ≠ .entry →
        s.gate.waiter i ≠ .entry ∨ s.phase i = .through)
      (h : s' = { s with gate := gate })
  | copy (i : Nat) (readers : ReadersState) (hi : i < s.started)
      (hPhase : s.phase i = .through) (hPassed : s.gate.waiter i = .returned)
      (hReader : s.readers.readerStep p.body i = some readers)
      (h : s' = { s with readers := readers })

/-- Only waiter `i` itself leaves its entry. -/
theorem gateWait_entry {g g' : GateState} {i j : Nat}
    (hStep : g.gateWait i = some g') (hj : g'.waiter j ≠ .entry) :
    g.waiter j ≠ .entry ∨ j = i := by
  by_cases hij : j = i
  · exact Or.inr hij
  · left
    intro hEntry
    apply hj
    have hLoop : ∀ t : GateState, (t.gateWaitLoop i).waiter j = t.waiter j := by
      intro t
      unfold GateState.gateWaitLoop
      split <;> simp [GateState.setWaiter, hij]
    unfold GateState.gateWait at hStep
    split at hStep
    · obtain rfl := Option.some.inj hStep
      rw [hLoop]
      simp only [GateState.gateArrive]
      split
      · simp [GateState.broadcast, hEntry]
      · exact hEntry
    · obtain rfl := Option.some.inj hStep
      rw [hLoop, hEntry]
    · cases hStep
    · cases hStep

theorem spuriousWaiter_entry {g g' : GateState} {i j : Nat}
    (hStep : g.spuriousWaiter i = some g') (hj : g'.waiter j ≠ .entry) :
    g.waiter j ≠ .entry := by
  unfold GateState.spuriousWaiter at hStep
  split at hStep
  · rename_i hAsleep
    obtain rfl := Option.some.inj hStep
    by_cases hij : j = i
    · rw [hij, hAsleep]
      simp
    · simpa [GateState.setWaiter, hij] using hj
  · cases hStep

theorem pthreadJoin_rnic {s s' : RnicState} {i : Nat} {pc : RnicMainPc}
    (h : s.pthreadJoin i pc = some s') :
    s.readers.pc i = .finished ∧ s' = { s with main := pc } := by
  unfold RnicState.pthreadJoin at h
  split at h
  · exact ⟨‹_›, (Option.some.inj h).symm⟩
  · cases h

theorem rnicMain_cases {p : RnicSweep} {s s' : RnicState}
    (hStep : s.mainStep p = some s') : RnicMainMove p s s' := by
  unfold RnicState.mainStep at hStep
  split at hStep
  · rename_i hpc
    split at hStep
    · exact .noRnic hpc ‹_› (Option.some.inj hStep).symm
    · rename_i hFails
      exact .createRnic hpc (by simpa using hFails) (Option.some.inj hStep).symm
  · rename_i i hpc
    split at hStep
    · exact .createReader i hpc ‹_› (Option.some.inj hStep).symm
    · rename_i hi
      exact .allCreated i hpc (Nat.le_of_not_lt hi) (Option.some.inj hStep).symm
  · rename_i failed hpc
    split at hStep
    · exact .opened failed hpc ‹_› (Option.some.inj hStep).symm
    · rcases Option.map_eq_some_iff.mp hStep with ⟨gate, hGate, hEq⟩
      exact .openGate failed gate hpc ‹_› hGate hEq.symm
  · rename_i i hpc
    split at hStep
    · rcases pthreadJoin_rnic hStep with ⟨hFinished, hEq⟩
      exact .join i hpc ‹_› hFinished hEq
    · rename_i hi
      exact .allJoined i hpc (Nat.le_of_not_lt hi) (Option.some.inj hStep).symm
  · rename_i hpc
    split at hStep
    · exact .joinRnic hpc ‹_› (Option.some.inj hStep).symm
    · cases hStep
  · exact .report ‹_› (Option.some.inj hStep).symm
  · rename_i i hpc
    split at hStep
    · rcases pthreadJoin_rnic hStep with ⟨hFinished, hEq⟩
      exact .joinCreated i hpc ‹_› hFinished hEq
    · rename_i hi
      exact .createdJoined i hpc (Nat.le_of_not_lt hi)
        (Option.some.inj hStep).symm
  · rename_i hpc
    split at hStep
    · cases hStep
    · rename_i hJoined
      refine .joinStarted hpc ?_ (Option.some.inj hStep).symm
      intro hRunning
      by_contra hLive
      exact hJoined ⟨hRunning, hLive⟩
  · rename_i i hpc
    split at hStep
    · exact .freeArgs i hpc ‹_› (Option.some.inj hStep).symm
    · rename_i hi
      exact .allFreed i hpc (Nat.le_of_not_lt hi) (Option.some.inj hStep).symm
  · exact .destroy ‹_› (Option.some.inj hStep).symm
  · cases hStep

/-- What the RNIC thread makes of one operation of `mpsc_dequeue`. -/
theorem rnicDequeue_eq {s : RnicState} (hpc : s.rnic = .dequeue) :
    s.rnicDequeue = { s with
      mpsc := s.mpsc.dequeueStep
      rnic := if s.mpsc.dequeueStep.consumer = .idle then
        { s with mpsc := s.mpsc.dequeueStep }.received else .dequeue } := by
  simp only [RnicState.rnicDequeue]
  split
  · rfl
  · rw [hpc]

theorem rnicThread_cases {p : RnicSweep} {s s' : RnicState} {now : ℚ}
    (hStep : s.rnicStep p now = some s') : RnicThreadMove p s s' := by
  unfold RnicState.rnicStep at hStep
  split at hStep
  · cases hStep
  · rename_i hpc
    have hEq := (Option.some.inj hStep).symm
    split at hEq
    · exact .again hpc ‹_› hEq
    · exact .exit hpc (by omega) hEq
  · rename_i hpc
    have hEq := (Option.some.inj hStep).symm
    rw [rnicDequeue_eq hpc] at hEq
    exact .dequeue _ hpc rfl hEq
  · exact .calculate _ ‹_› (Option.some.inj hStep).symm
  · split at hStep
    · cases hStep
    · exact .hold _ ‹_› (Option.some.inj hStep).symm
  · exact .signal _ ‹_› (Option.some.inj hStep).symm
  · exact .count ‹_› (Option.some.inj hStep).symm
  · cases hStep
  · cases hStep

theorem readerStep_cases {p : RnicSweep} {s s' : RnicState} {i : Nat} {now : ℚ}
    (hStep : s.readerStep p i now = some s') : ReaderMove p s s' i := by
  unfold RnicState.readerStep at hStep
  cases hPhase : s.phase i with
  | begin =>
      simp only [hPhase] at hStep
      exact .request (.prepare now hPhase (Option.some.inj hStep).symm)
  | reset =>
      simp only [hPhase] at hStep
      rcases Option.map_eq_some_iff.mp hStep with ⟨mpsc, hMpsc, rfl⟩
      exact .request (.reset mpsc hPhase hMpsc rfl)
  | enqueue =>
      simp only [hPhase] at hStep
      split at hStep
      · cases hStep
      · rcases Option.map_eq_some_iff.mp hStep with ⟨mpsc, hMpsc, rfl⟩
        exact .request (.exchange mpsc hPhase hMpsc rfl)
      · rcases Option.map_eq_some_iff.mp hStep with ⟨mpsc, hMpsc, rfl⟩
        exact .request (.link mpsc hPhase hMpsc rfl)
  | spin =>
      simp only [hPhase] at hStep
      have hSame := (Option.some.inj hStep).symm
      split at hSame
      · exact .request (.leave hPhase ‹_› hSame)
      · rename_i hDown
        exact .request (.poll hPhase (by simpa using hDown) hSame)
  | through =>
      simp only [hPhase] at hStep
      split at hStep
      · rename_i hPassed
        rcases Option.map_eq_some_iff.mp hStep with ⟨readers, hReader, rfl⟩
        exact .copy readers hPhase hPassed hReader rfl
      · rcases Option.map_eq_some_iff.mp hStep with ⟨gate, hGate, rfl⟩
        exact .wait gate hPhase hGate rfl

theorem rnic_cases {p : RnicSweep} {s s' : RnicState} {e : RnicEvent}
    (hStep : (rnicMachine p).next s e = some s') : RnicMove p s s' := by
  cases e with
  | main => exact .main hStep
  | reader i now =>
      simp only [rnicMachine] at hStep
      split at hStep
      · rename_i hi
        cases readerStep_cases hStep with
        | request h => exact .request i hi h
        | wait gate hPhase hGate h =>
            refine .gate gate (.wait i hi hGate) ?_ h
            intro j hj
            rcases gateWait_entry hGate hj with hOld | rfl
            · exact Or.inl hOld
            · exact Or.inr hPhase
        | copy readers hPhase hPassed hReader h =>
            exact .copy i readers hi hPhase hPassed hReader h
      · cases hStep
  | rnic now => exact .rnic now hStep
  | wakeReader i =>
      simp only [rnicMachine] at hStep
      split at hStep
      · rename_i hi
        rcases Option.map_eq_some_iff.mp hStep with ⟨gate, hGate, rfl⟩
        exact .gate gate (.wakeWaiter i hi hGate)
          (fun j hj => Or.inl (spuriousWaiter_entry hGate hj)) rfl
      · cases hStep
  | wakeMain =>
      rcases Option.map_eq_some_iff.mp hStep with ⟨gate, hGate, rfl⟩
      refine .gate gate (.wakeOpener hGate) ?_ rfl
      intro j hj
      unfold GateState.spuriousOpener at hGate
      split at hGate
      · obtain rfl := Option.some.inj hGate
        exact Or.inl hj
      · cases hGate

end MioBench.Sync
