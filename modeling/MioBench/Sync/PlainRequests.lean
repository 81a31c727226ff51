import MioBench.Sync.MpscNoRearm
import MioBench.Sync.RnicProtocol

/-!
# Requests over the queue that does not re-arm

`rdma_reader_thread` of `test2-rdma.c` up to the gate, and its `rnic_thread`:
each reader enqueues one request and spins on its flag, the RNIC thread takes
requests out of the queue for ever and raises the flags.  The last request in
the queue stays there, so its reader never gets an answer.
-/

namespace MioBench.Sync

open MioBench.Lib

/-- Where the RNIC thread stands; `fault` is the use of a node without a
request, and `dead` lies behind its `while(true)`. -/
inductive PlainRnicPc
  | unborn
  | begin
  | dequeue
  | read (req : Nat)
  | signal (req : Nat)
  | fault
  | dead
  deriving DecidableEq, Repr

/-- The request in the RNIC's hands. -/
def PlainRnicPc.hand : PlainRnicPc → Option Nat
  | read req => some req
  | signal req => some req
  | _ => none

/-- What readers and RNIC share on the way to the gate, and their positions. -/
structure RequestState where
  mpsc : MpscState
  phase : Nat → ReaderPhase
  /-- `node->req` of every node. -/
  payload : NodePtr → Option Nat
  rdma_req : Nat → RdmaReq
  response_ready : Nat → Bool
  dataplane_started : Bool
  nic : Nic
  rnic : PlainRnicPc

namespace RequestState

/-- The queue and the flags initialised, everything else from `calloc`. -/
def init : RequestState where
  mpsc := MpscState.init fun _ => none
  phase := fun _ => .begin
  payload := fun _ => none
  rdma_req := fun _ => { req_id := 0, stime := 0, expire_time := 0 }
  response_ready := fun _ => false
  dataplane_started := false
  nic := { bw := 0, stime := 0, ntime := 0, busy := false }
  rnic := .unborn

/-! ## `rdma_reader_thread` -/

def setPhase (s : RequestState) (i : Nat) (phase : ReaderPhase) : RequestState :=
  { s with phase := Function.update s.phase i phase }

/-- Reader `i` fills in its request and its node, at time `now`. -/
def prepare (s : RequestState) (i : Nat) (now : ℚ) : RequestState :=
  { s.setPhase i .reset with
    rdma_req := Function.update s.rdma_req i
      { req_id := i, stime := now, expire_time := now }
    payload := Function.update s.payload (.node i) (some i) }

/-- The next step of reader `i` before the gate. -/
def readerStep (s : RequestState) (i : Nat) (now : ℚ) : Option RequestState :=
  match s.phase i with
  | .begin => some (s.prepare i now)
  | .reset =>
      (s.mpsc.enqueueReset i i).map fun mpsc =>
        { s.setPhase i .enqueue with mpsc := mpsc }
  | .enqueue =>
      match s.mpsc.producer i with
      | .idle => none
      | .exchange _ =>
          (s.mpsc.enqueueExchange i).map fun mpsc => { s with mpsc := mpsc }
      | .link _ _ =>
          (s.mpsc.enqueueLink i).map fun mpsc =>
            { s.setPhase i .spin with mpsc := mpsc }
  | .spin => some (if s.response_ready i then s.setPhase i .through else s)
  | .through => none

/-! ## `rnic_thread` -/

/-- `delta_time_ns` of `rdma_read`, for 4 * 4096 KiB. -/
def deltaTimeNs : ℚ := 4 * 4096 * 10 ^ 9 / 2 ^ 10 / interfaceRnicBw

/-- `rdma_read`, without what is behind its `if (false)`. -/
def rdmaRead (nic : Nic) (req : RdmaReq) : Nic × RdmaReq :=
  ({ nic with stime := nic.stime + deltaTimeNs },
    { req with expire_time := req.expire_time + 78.125 * (4 * 4096) })

/-- What `rnic_thread` does with the result of `mpsc_dequeue`. -/
def received (s : RequestState) : PlainRnicPc :=
  match s.mpsc.result with
  | none => .dequeue
  | some node =>
      match s.payload node with
      | none => .fault
      | some req => .read req

/-- The next operation of `mpsc_dequeue`, up to its return. -/
def rnicDequeue (s : RequestState) : RequestState :=
  let s₁ := { s with mpsc := s.mpsc.plainDequeueStep }
  if s₁.mpsc.consumer = .idle then { s₁ with rnic := s₁.received } else s₁

/-- The next step of the RNIC thread. -/
def rnicStep (s : RequestState) : Option RequestState :=
  match s.rnic with
  | .unborn => none
  | .begin =>
      some { s with rnic := if s.dataplane_started then .dequeue else .begin }
  | .dequeue => some s.rnicDequeue
  | .read req =>
      let r := rdmaRead s.nic (s.rdma_req req)
      some { s with
        nic := r.1
        rdma_req := Function.update s.rdma_req req r.2
        rnic := .signal req }
  | .signal req =>
      some { s with
        response_ready :=
          Function.update s.response_ready (s.rdma_req req).req_id true
        rnic := .dequeue }
  | .fault => none
  | .dead => none

/-- Main sets `dataplane_started` and creates the RNIC thread, if it can. -/
def startRnic (s : RequestState) (fails : Bool) : RequestState :=
  { s with
    dataplane_started := true
    rnic := if fails then s.rnic else .begin }

end RequestState

inductive RequestEvent
  | reader (i : Nat) (now : ℚ)
  | rnic
  | start (fails : Bool)
  deriving DecidableEq, Repr

/-- Any number of readers, and an RNIC thread that main may create. -/
def requestMachine : Machine RequestState RequestEvent where
  start := RequestState.init
  next s
    | .reader i now => s.readerStep i now
    | .rnic => s.rnicStep
    | .start fails => if s.rnic = .unborn then some (s.startRnic fails) else none

/-! ## What a step can do -/

/-- A step of reader `i`. -/
inductive PlainReaderMove (s s' : RequestState) (i : Nat) : Prop
  | prepare (now : ℚ) (hPhase : s.phase i = .begin) (h : s' = s.prepare i now)
  | reset (mpsc : MpscState) (hPhase : s.phase i = .reset)
      (hMpsc : s.mpsc.enqueueReset i i = some mpsc)
      (h : s' = { s.setPhase i .enqueue with mpsc := mpsc })
  | exchange (mpsc : MpscState) (hPhase : s.phase i = .enqueue)
      (hMpsc : s.mpsc.enqueueExchange i = some mpsc)
      (h : s' = { s with mpsc := mpsc })
  | link (mpsc : MpscState) (hPhase : s.phase i = .enqueue)
      (hMpsc : s.mpsc.enqueueLink i = some mpsc)
      (h : s' = { s.setPhase i .spin with mpsc := mpsc })
  | poll (hPhase : s.phase i = .spin) (hFlag : s.response_ready i = false)
      (h : s' = s)
  | leave (hPhase : s.phase i = .spin) (hFlag : s.response_ready i = true)
      (h : s' = s.setPhase i .through)

/-- A step of the RNIC thread. -/
inductive PlainRnicMove (s s' : RequestState) : Prop
  | begin (hpc : s.rnic = .begin)
      (h : s' = { s with
        rnic := if s.dataplane_started then .dequeue else .begin })
  | dequeue (rnic : PlainRnicPc) (hpc : s.rnic = .dequeue)
      (hRnic : rnic = if s.mpsc.plainDequeueStep.consumer = .idle then
        { s with mpsc := s.mpsc.plainDequeueStep }.received else .dequeue)
      (h : s' = { s with mpsc := s.mpsc.plainDequeueStep, rnic := rnic })
  | read (req : Nat) (hpc : s.rnic = .read req)
      (h : s' = { s with
        nic := (RequestState.rdmaRead s.nic (s.rdma_req req)).1
        rdma_req := Function.update s.rdma_req req
          (RequestState.rdmaRead s.nic (s.rdma_req req)).2
        rnic := .signal req })
  | signal (req : Nat) (hpc : s.rnic = .signal req)
      (h : s' = { s with
        response_ready :=
          Function.update s.response_ready (s.rdma_req req).req_id true
        rnic := .dequeue })

section Moves

variable {s s' : RequestState}

theorem plainReader_cases {i : Nat} {now : ℚ}
    (hStep : s.readerStep i now = some s') : PlainReaderMove s s' i := by
  unfold RequestState.readerStep at hStep
  cases hPhase : s.phase i with
  | begin =>
      simp only [hPhase] at hStep
      exact .prepare now hPhase (Option.some.inj hStep).symm
  | reset =>
      simp only [hPhase] at hStep
      obtain ⟨mpsc, hMpsc, rfl⟩ := Option.map_eq_some_iff.mp hStep
      exact .reset mpsc hPhase hMpsc rfl
  | enqueue =>
      simp only [hPhase] at hStep
      split at hStep
      · cases hStep
      · obtain ⟨mpsc, hMpsc, rfl⟩ := Option.map_eq_some_iff.mp hStep
        exact .exchange mpsc hPhase hMpsc rfl
      · obtain ⟨mpsc, hMpsc, rfl⟩ := Option.map_eq_some_iff.mp hStep
        exact .link mpsc hPhase hMpsc rfl
  | spin =>
      simp only [hPhase] at hStep
      have hSame := (Option.some.inj hStep).symm
      split at hSame
      · exact .leave hPhase ‹_› hSame
      · rename_i hDown
        exact .poll hPhase (by simpa using hDown) hSame
  | through =>
      simp only [hPhase] at hStep
      cases hStep

theorem plainRnic_cases (hStep : s.rnicStep = some s') : PlainRnicMove s s' := by
  unfold RequestState.rnicStep at hStep
  cases hpc : s.rnic with
  | unborn => simp [hpc] at hStep
  | begin =>
      simp only [hpc] at hStep
      exact .begin hpc (Option.some.inj hStep).symm
  | dequeue =>
      simp only [hpc] at hStep
      refine .dequeue _ hpc rfl ?_
      rw [← Option.some.inj hStep]
      simp only [RequestState.rnicDequeue]
      split
      · rfl
      · rw [← hpc]
  | read req =>
      simp only [hpc] at hStep
      exact .read req hpc (Option.some.inj hStep).symm
  | signal req =>
      simp only [hpc] at hStep
      exact .signal req hpc (Option.some.inj hStep).symm
  | fault => simp [hpc] at hStep
  | dead => simp [hpc] at hStep

theorem PlainReaderMove.rnic {i : Nat} (h : PlainReaderMove s s' i) :
    s'.rnic = s.rnic := by
  cases h with
  | prepare now _ hEq => rw [hEq]; rfl
  | reset mpsc _ _ hEq => rw [hEq]; rfl
  | exchange mpsc _ _ hEq => rw [hEq]
  | link mpsc _ _ hEq => rw [hEq]; rfl
  | poll _ _ hEq => rw [hEq]
  | leave _ _ hEq => rw [hEq]; rfl

theorem PlainReaderMove.phase_other {i j : Nat} (h : PlainReaderMove s s' i)
    (hj : j ≠ i) : s'.phase j = s.phase j := by
  have hSet : ∀ phase, (s.setPhase i phase).phase j = s.phase j := by
    intro phase
    simp [RequestState.setPhase, hj]
  cases h with
  | prepare now _ hEq => rw [hEq]; exact hSet .reset
  | reset mpsc _ _ hEq => rw [hEq]; exact hSet .enqueue
  | exchange mpsc _ _ hEq => rw [hEq]
  | link mpsc _ _ hEq => rw [hEq]; exact hSet .spin
  | poll _ _ hEq => rw [hEq]
  | leave _ _ hEq => rw [hEq]; exact hSet .through

theorem PlainRnicMove.phase (h : PlainRnicMove s s') : s'.phase = s.phase := by
  cases h with
  | begin _ hEq => rw [hEq]
  | dequeue rnic _ _ hEq => rw [hEq]
  | read req _ hEq => rw [hEq]
  | signal req _ hEq => rw [hEq]

end Moves

/-! ## Where a reader's request is -/

/-- What the queue holds of reader `i`, by the reader's position. -/
def PlainReaderAt (s : RequestState) (i : Nat) : Prop :=
  match s.phase i with
  | .begin | .reset =>
      s.mpsc.producer i = .idle ∧ s.mpsc.held i = false ∧ i ∉ s.mpsc.order
  | .enqueue =>
      (s.mpsc.producer i = .exchange i ∧ i ∉ s.mpsc.order) ∨
        ∃ prev, s.mpsc.producer i = .link i prev ∧ i ∈ s.mpsc.order
  | .spin => s.mpsc.producer i = .idle ∧ i ∈ s.mpsc.order
  | .through =>
      s.mpsc.producer i = .idle ∧ i ∈ s.mpsc.order ∧
        s.response_ready i = true

structure PlainRequestInv (s : RequestState) : Prop where
  reader : ∀ i, PlainReaderAt s i
  record : ∀ i, s.phase i ≠ .begin →
    s.payload (.node i) = some i ∧ (s.rdma_req i).req_id = i
  nodup : s.mpsc.order.Nodup
  hand : ∀ i, s.rnic.hand = some i → .node i ∈ s.mpsc.returned
  flag : ∀ i, s.response_ready i = true → .node i ∈ s.mpsc.returned
  answered : ∀ i, .node i ∈ s.mpsc.returned →
    s.response_ready i = true ∨ s.rnic.hand = some i
  fault : s.rnic ≠ .fault
  dead : s.rnic ≠ .dead
  dataplane : s.rnic = .unborn ∨ s.dataplane_started = true

section Invariant

variable {s s' : RequestState} {i : Nat}

/-- A reader's clause survives whatever leaves its position and its node alone
and lowers no flag. -/
theorem PlainReaderAt.congr (h : PlainReaderAt s i)
    (hPhase : s'.phase i = s.phase i)
    (hProducer : s'.mpsc.producer i = s.mpsc.producer i)
    (hHeld : s.mpsc.held i = false → s'.mpsc.held i = false)
    (hOrder : i ∈ s'.mpsc.order ↔ i ∈ s.mpsc.order)
    (hFlag : s.response_ready i = true → s'.response_ready i = true) :
    PlainReaderAt s' i := by
  unfold PlainReaderAt at h ⊢
  rw [hPhase, hProducer]
  cases hpc : s.phase i with
  | begin =>
      simp only [hpc] at h ⊢
      exact ⟨h.1, hHeld h.2.1, fun hMem => h.2.2 (hOrder.mp hMem)⟩
  | reset =>
      simp only [hpc] at h ⊢
      exact ⟨h.1, hHeld h.2.1, fun hMem => h.2.2 (hOrder.mp hMem)⟩
  | enqueue =>
      simp only [hpc] at h ⊢
      rcases h with ⟨hProd, hNot⟩ | ⟨prev, hProd, hMem⟩
      · exact Or.inl ⟨hProd, fun hMem => hNot (hOrder.mp hMem)⟩
      · exact Or.inr ⟨prev, hProd, hOrder.mpr hMem⟩
  | spin =>
      simp only [hpc] at h ⊢
      exact ⟨h.1, hOrder.mpr h.2⟩
  | through =>
      simp only [hpc] at h ⊢
      exact ⟨h.1, hOrder.mpr h.2.1, hFlag h.2.2⟩

/-- A reader with a node in the queue has prepared it. -/
theorem PlainRequestInv.begun (h : PlainRequestInv s)
    (hMem : i ∈ s.mpsc.order) : s.phase i ≠ .begin := by
  intro hPhase
  have hAt := h.reader i
  simp only [PlainReaderAt, hPhase] at hAt
  exact hAt.2.2 hMem

theorem init_plainRequestInv : PlainRequestInv RequestState.init where
  reader := by
    intro i
    simp [PlainReaderAt, RequestState.init, MpscState.init]
  record := fun i hPhase => absurd rfl hPhase
  nodup := List.nodup_nil
  hand := by simp [RequestState.init, PlainRnicPc.hand]
  flag := by simp [RequestState.init]
  answered := by simp [RequestState.init, MpscState.init]
  fault := by simp [RequestState.init]
  dead := by simp [RequestState.init]
  dataplane := Or.inl rfl

/-- The others' share of a step of reader `i`: none. -/
structure PlainOthers (s s' : RequestState) (i : Nat) : Prop where
  phase : ∀ j, j ≠ i → s'.phase j = s.phase j
  producer : ∀ j, j ≠ i → s'.mpsc.producer j = s.mpsc.producer j
  held : ∀ j, j ≠ i → s'.mpsc.held j = s.mpsc.held j
  order : ∀ j, j ≠ i → (j ∈ s'.mpsc.order ↔ j ∈ s.mpsc.order)
  payload : ∀ j, j ≠ i → s'.payload (.node j) = s.payload (.node j)
  rdma_req : ∀ j, j ≠ i → s'.rdma_req j = s.rdma_req j
  returned : s'.mpsc.returned = s.mpsc.returned
  response_ready : s'.response_ready = s.response_ready
  rnic : s'.rnic = s.rnic
  dataplane : s'.dataplane_started = s.dataplane_started

/-- Reader `i` re-establishes its own clause, and everything else stays. -/
theorem PlainRequestInv.move (h : PlainRequestInv s)
    (hOthers : PlainOthers s s' i) (hReader : PlainReaderAt s' i)
    (hRecord : s'.payload (.node i) = some i ∧ (s'.rdma_req i).req_id = i)
    (hNodup : s'.mpsc.order.Nodup) : PlainRequestInv s' where
  reader := by
    intro j
    by_cases hj : j = i
    · rw [hj]
      exact hReader
    · exact (h.reader j).congr (hOthers.phase j hj) (hOthers.producer j hj)
        (fun hFree => (hOthers.held j hj).trans hFree) (hOthers.order j hj)
        (by rw [hOthers.response_ready]; exact id)
  record := by
    intro j hj
    by_cases hji : j = i
    · rw [hji]
      exact hRecord
    · rw [hOthers.payload j hji, hOthers.rdma_req j hji]
      rw [hOthers.phase j hji] at hj
      exact h.record j hj
  nodup := hNodup
  hand := by
    rw [hOthers.rnic, hOthers.returned]
    exact h.hand
  flag := by
    rw [hOthers.response_ready, hOthers.returned]
    exact h.flag
  answered := by
    rw [hOthers.rnic, hOthers.response_ready, hOthers.returned]
    exact h.answered
  fault := by
    rw [hOthers.rnic]
    exact h.fault
  dead := by
    rw [hOthers.rnic]
    exact h.dead
  dataplane := by
    rw [hOthers.rnic, hOthers.dataplane]
    exact h.dataplane

/-- A step of reader `i` moves its own clause on. -/
theorem PlainRequestInv.reader_step (h : PlainRequestInv s)
    (hMove : PlainReaderMove s s' i) : PlainRequestInv s' := by
  have hAt := h.reader i
  have hRecord := h.record i
  have hSame : PlainOthers s s i :=
    ⟨fun _ _ => rfl, fun _ _ => rfl, fun _ _ => rfl, fun _ _ => Iff.rfl,
      fun _ _ => rfl, fun _ _ => rfl, rfl, rfl, rfl, rfl⟩
  have hPhaseOf : ∀ phase j, j ≠ i →
      (s.setPhase i phase).phase j = s.phase j := by
    intro phase j hj
    simp [RequestState.setPhase, hj]
  cases hMove with
  | prepare now hPhase hEq =>
      subst hEq
      simp only [PlainReaderAt, hPhase] at hAt
      refine h.move (i := i) { hSame with
        phase := hPhaseOf .reset
        payload := fun j hj => by simp [RequestState.prepare, hj]
        rdma_req := fun j hj => by simp [RequestState.prepare, hj] } ?_ ?_
        h.nodup
      · simpa [PlainReaderAt, RequestState.prepare, RequestState.setPhase]
          using hAt
      · simp [RequestState.prepare]
  | reset mpsc hPhase hMpsc hEq =>
      subst hEq
      simp only [PlainReaderAt, hPhase] at hAt
      obtain ⟨-, rfl⟩ := MpscState.enqueueReset_some hMpsc
      refine h.move (i := i) { hSame with
        phase := hPhaseOf .enqueue
        producer := fun j hj => by simp [hj]
        held := fun j hj => by simp [hj] } ?_ (hRecord (by simp [hPhase]))
        h.nodup
      simp [PlainReaderAt, RequestState.setPhase, hAt.2.2]
  | exchange mpsc hPhase hMpsc hEq =>
      subst hEq
      simp only [PlainReaderAt, hPhase] at hAt
      obtain ⟨node, hpc, rfl⟩ := MpscState.enqueueExchange_some hMpsc
      rcases hAt with ⟨hProducer, hNew⟩ | ⟨prev, hProducer, _⟩
      · obtain rfl : i = node := by simpa [hProducer] using hpc
        refine h.move (i := i) { hSame with
          producer := fun j hj => by simp [hj]
          order := fun j hj => by simp [hj] } ?_ (hRecord (by simp [hPhase])) ?_
        · simp [PlainReaderAt, hPhase]
        · exact List.nodup_append.mpr ⟨h.nodup, by simp, by
            intro a ha b hb hab
            rw [List.mem_singleton.mp hb] at hab
            exact hNew (hab ▸ ha)⟩
      · rw [hProducer] at hpc
        cases hpc
  | link mpsc hPhase hMpsc hEq =>
      subst hEq
      simp only [PlainReaderAt, hPhase] at hAt
      obtain ⟨node, prev, hpc, rfl⟩ := MpscState.enqueueLink_some hMpsc
      rcases hAt with ⟨hProducer, _⟩ | ⟨prev', hProducer, hMem⟩
      · rw [hProducer] at hpc
        cases hpc
      · refine h.move (i := i) { hSame with
          phase := hPhaseOf .spin
          producer := fun j hj => by simp [hj] } ?_ (hRecord (by simp [hPhase]))
          h.nodup
        simp [PlainReaderAt, RequestState.setPhase, hMem]
  | poll _ _ hEq =>
      subst hEq
      exact h
  | leave hPhase hFlag hEq =>
      subst hEq
      simp only [PlainReaderAt, hPhase] at hAt
      refine h.move (i := i) { hSame with phase := hPhaseOf .through } ?_
        (hRecord (by simp [hPhase])) h.nodup
      simp [PlainReaderAt, RequestState.setPhase, hAt.1, hAt.2, hFlag]

/-- The queue a reader's step leaves behind is one the queue's own machine
reaches: the reader's node is free when it is reset. -/
theorem PlainRequestInv.mpsc_reader (h : PlainRequestInv s)
    (hQueue : (plainMpscMachine fun _ => none).Reachable s.mpsc)
    (hMove : PlainReaderMove s s' i) :
    (plainMpscMachine fun _ => none).Reachable s'.mpsc := by
  cases hMove with
  | prepare now _ hEq =>
      subst hEq
      exact hQueue
  | reset mpsc hPhase hMpsc hEq =>
      subst hEq
      have hAt := h.reader i
      simp only [PlainReaderAt, hPhase] at hAt
      refine hQueue.next (e := .reset i i) ?_
      simp only [plainMpscMachine]
      rw [hAt.2.1]
      exact hMpsc
  | exchange mpsc _ hMpsc hEq =>
      subst hEq
      exact hQueue.next (e := .exchange i) hMpsc
  | link mpsc _ hMpsc hEq =>
      subst hEq
      exact hQueue.next (e := .link i) hMpsc
  | poll _ _ hEq =>
      subst hEq
      exact hQueue
  | leave _ _ hEq =>
      subst hEq
      exact hQueue

theorem release_held {held : Nat → Bool} {j : Nat} (head : NodePtr)
    (hFree : held j = false) : MpscState.release held head j = false := by
  cases head with
  | stub => exact hFree
  | node id =>
      by_cases hid : j = id
      · simp [MpscState.release, hid]
      · simpa [MpscState.release, hid] using hFree

/-- A call of `mpsc_dequeue` that ends has returned a request, unless it has
returned `NULL`. -/
theorem PlainRequestInv.received (h : PlainRequestInv s)
    (hQueue : (plainMpscMachine fun _ => none).Reachable s.mpsc.plainDequeueStep)
    {rnic : PlainRnicPc}
    (hRnic : rnic = if s.mpsc.plainDequeueStep.consumer = .idle then
      { s with mpsc := s.mpsc.plainDequeueStep }.received else .dequeue)
    (hOrder : s.mpsc.plainDequeueStep.order = s.mpsc.order) :
    (rnic = .dequeue ∧ s.mpsc.plainDequeueStep.returned = s.mpsc.returned) ∨
      ∃ req, rnic = .read req ∧
        s.mpsc.plainDequeueStep.returned = s.mpsc.returned ++ [.node req] := by
  rcases s.mpsc.plainDequeueStep_cases with ⟨head, next, _, hPop⟩ |
    ⟨_, hSame, _, hNull⟩
  · right
    have hIdle : s.mpsc.plainDequeueStep.consumer = .idle := by
      rw [hPop]
      rfl
    have hResult : s.mpsc.plainDequeueStep.result = some head := by
      rw [hPop]
      rfl
    have hReturned : s.mpsc.plainDequeueStep.returned =
        s.mpsc.returned ++ [head] := by
      rw [hPop]
      rfl
    have hIn : head ∈ s.mpsc.plainDequeueStep.returned := by simp [hReturned]
    obtain ⟨req, hReq, rfl⟩ := List.mem_map.mp
      ((plainMpscMachine_returned hQueue).subset hIn)
    rw [hOrder] at hReq
    have hPayload := (h.record req (h.begun hReq)).1
    refine ⟨req, ?_, hReturned⟩
    rw [hRnic, if_pos hIdle]
    simp [RequestState.received, hResult, hPayload]
  · left
    refine ⟨?_, hSame⟩
    rw [hRnic]
    split
    · rename_i hIdle
      simp [RequestState.received, hNull hIdle]
    · rfl

/-- What a step changes that only moves an RNIC thread with empty hands. -/
theorem PlainRequestInv.setRnic (h : PlainRequestInv s) {rnic : PlainRnicPc}
    {started : Bool} (hEmpty : s.rnic.hand = none)
    (hNew : rnic = .dequeue ∨ rnic = .begin ∨ rnic = .unborn)
    (hStarted : rnic = .unborn ∨ started = true) :
    PlainRequestInv { s with rnic := rnic, dataplane_started := started } := by
  have hHand : rnic.hand = none := by
    rcases hNew with rfl | rfl | rfl <;> rfl
  exact
    { reader := h.reader
      record := h.record
      nodup := h.nodup
      hand := by
        intro i hi
        rw [hHand] at hi
        cases hi
      flag := h.flag
      answered := by
        intro i hi
        rcases h.answered i hi with hUp | hBad
        · exact Or.inl hUp
        · rw [hEmpty] at hBad
          cases hBad
      fault := by rcases hNew with rfl | rfl | rfl <;> simp
      dead := by rcases hNew with rfl | rfl | rfl <;> simp
      dataplane := hStarted }

theorem PlainRequestInv.rnic_step (h : PlainRequestInv s)
    (hQueue : (plainMpscMachine fun _ => none).Reachable s.mpsc)
    (hMove : PlainRnicMove s s') :
    PlainRequestInv s' ∧
      (plainMpscMachine fun _ => none).Reachable s'.mpsc := by
  cases hMove with
  | begin hpc hEq =>
      subst hEq
      have hStarted := h.dataplane.resolve_left (by simp [hpc])
      refine ⟨h.setRnic (by rw [hpc]; rfl) ?_ (Or.inr hStarted), hQueue⟩
      rw [if_pos hStarted]
      exact Or.inl rfl
  | dequeue rnic hpc hRnic hEq =>
      subst hEq
      have hNext : (plainMpscMachine fun _ => none).Reachable
          s.mpsc.plainDequeueStep := hQueue.next (e := .dequeue) rfl
      obtain ⟨chain, hInv⟩ := plainMpscMachine_inv hQueue
      have hFrame := MpscState.plainDequeueStep_frame hInv.noRearm
      have hHeld : ∀ j, s.mpsc.held j = false →
          s.mpsc.plainDequeueStep.held j = false := by
        intro j hj
        rcases s.mpsc.plainDequeueStep_cases with ⟨head, next, _, hPop⟩ |
          ⟨_, _, hSame, _⟩
        · rw [hPop]
          exact release_held head hj
        · rw [hSame, hj]
      have hUp : ∀ j, .node j ∈ s.mpsc.returned →
          s.response_ready j = true := by
        intro j hj
        refine (h.answered j hj).resolve_right ?_
        rw [hpc]
        simp [PlainRnicPc.hand]
      have hReaders : ∀ j, PlainReaderAt
          { s with mpsc := s.mpsc.plainDequeueStep, rnic := rnic } j :=
        fun j => (h.reader j).congr rfl (by rw [hFrame.producer]) (hHeld j)
          (by rw [hFrame.order]) id
      have hNodup : s.mpsc.plainDequeueStep.order.Nodup := by
        rw [hFrame.order]
        exact h.nodup
      have hStarted := h.dataplane.resolve_left (by simp [hpc])
      refine ⟨?_, hNext⟩
      rcases h.received hNext hRnic hFrame.order with ⟨rfl, hReturned⟩ |
        ⟨req, rfl, hReturned⟩
      · exact
          { reader := hReaders
            record := h.record
            nodup := hNodup
            hand := by simp [PlainRnicPc.hand]
            flag := by
              show ∀ j, _ → NodePtr.node j ∈ s.mpsc.plainDequeueStep.returned
              rw [hReturned]
              exact h.flag
            answered := by
              show ∀ j, NodePtr.node j ∈ s.mpsc.plainDequeueStep.returned → _
              rw [hReturned]
              exact fun j hj => Or.inl (hUp j hj)
            fault := by simp
            dead := by simp
            dataplane := Or.inr hStarted }
      · exact
          { reader := hReaders
            record := h.record
            nodup := hNodup
            hand := by
              intro j hj
              obtain rfl : req = j := by simpa [PlainRnicPc.hand] using hj
              show NodePtr.node req ∈ s.mpsc.plainDequeueStep.returned
              rw [hReturned]
              simp
            flag := by
              intro j hj
              show NodePtr.node j ∈ s.mpsc.plainDequeueStep.returned
              rw [hReturned]
              exact List.mem_append_left _ (h.flag j hj)
            answered := by
              show ∀ j, NodePtr.node j ∈ s.mpsc.plainDequeueStep.returned → _
              rw [hReturned]
              intro j hj
              rcases List.mem_append.mp hj with hOld | hNew
              · exact Or.inl (hUp j hOld)
              · obtain rfl : j = req := by simpa using hNew
                exact Or.inr rfl
            fault := by simp
            dead := by simp
            dataplane := Or.inr hStarted }
  | read req hpc hEq =>
      subst hEq
      refine ⟨?_, hQueue⟩
      exact
        { reader := h.reader
          record := by
            intro j hj
            refine ⟨(h.record j hj).1, ?_⟩
            by_cases hjr : j = req
            · subst hjr
              simpa [RequestState.rdmaRead] using (h.record j hj).2
            · simpa [hjr] using (h.record j hj).2
          nodup := h.nodup
          hand := by
            intro j hj
            exact h.hand j (by rw [hpc]; exact hj)
          flag := h.flag
          answered := by
            intro j hj
            have hOld := h.answered j hj
            rw [hpc] at hOld
            exact hOld
          fault := by simp
          dead := by simp
          dataplane := Or.inr (h.dataplane.resolve_left (by simp [hpc])) }
  | signal req hpc hEq =>
      subst hEq
      refine ⟨?_, hQueue⟩
      have hIn := h.hand req (by rw [hpc]; rfl)
      obtain ⟨j, hj, hEq⟩ := List.mem_map.mp
        ((plainMpscMachine_returned hQueue).subset hIn)
      obtain rfl : j = req := NodePtr.node.inj hEq
      -- The flag raised is the one of the request just served.
      have hId := (h.record j (h.begun hj)).2
      exact
        { reader := fun k => (h.reader k).congr rfl rfl id Iff.rfl
            (by intro hk; simp [Function.update_apply, hk])
          record := h.record
          nodup := h.nodup
          hand := by simp [PlainRnicPc.hand]
          flag := by
            intro k hk
            by_cases hkj : k = j
            · rw [hkj]
              exact hIn
            · exact h.flag k (by simpa [hId, hkj] using hk)
          answered := by
            intro k hk
            left
            by_cases hkj : k = j
            · simp [hkj, hId]
            · have hOld := h.answered k hk
              rw [hpc] at hOld
              have hUp := hOld.resolve_right fun hHand =>
                hkj (by simpa [PlainRnicPc.hand] using hHand.symm)
              simp [hId, hkj, hUp]
          fault := by simp
          dead := by simp
          dataplane := Or.inr (h.dataplane.resolve_left (by simp [hpc])) }

end Invariant

/-- Requests and queue, in every reachable state. -/
theorem requestMachine_inv {s : RequestState} (hs : requestMachine.Reachable s) :
    PlainRequestInv s ∧
      (plainMpscMachine fun _ => none).Reachable s.mpsc := by
  refine hs.invariant (P := fun s => PlainRequestInv s ∧
    (plainMpscMachine fun _ => none).Reachable s.mpsc)
    ⟨init_plainRequestInv, Machine.Reachable.initial⟩ ?_
  rintro s e s' _ ⟨h, hQueue⟩ hStep
  cases e with
  | reader i now =>
      have hMove := plainReader_cases hStep
      exact ⟨h.reader_step hMove, h.mpsc_reader hQueue hMove⟩
  | rnic => exact h.rnic_step hQueue (plainRnic_cases hStep)
  | start fails =>
      simp only [requestMachine] at hStep
      split at hStep
      · rename_i hUnborn
        obtain rfl := Option.some.inj hStep
        refine ⟨h.setRnic (by rw [hUnborn]; rfl) ?_ (Or.inr rfl), hQueue⟩
        split
        · exact Or.inr (Or.inr hUnborn)
        · exact Or.inr (Or.inl rfl)
      · cases hStep

/-- Readers that have got their answers leave a request unanswered, whenever
there is a request at all: the one enqueued last. -/
theorem requests_newest_unanswered {s : RequestState}
    (hs : requestMachine.Reachable s) {i : Nat}
    (hLast : s.mpsc.order.getLast? = some i) :
    s.response_ready i = false ∧ s.phase i ≠ .through := by
  obtain ⟨h, hQueue⟩ := requestMachine_inv hs
  have hFlag : s.response_ready i = false := by
    by_contra hUp
    have hIn := h.flag i (by simpa using hUp)
    exact plainMpscMachine_newest hQueue h.nodup hLast hIn
  refine ⟨hFlag, ?_⟩
  intro hThrough
  have hAt := h.reader i
  simp only [PlainReaderAt, hThrough] at hAt
  rw [hAt.2.2] at hFlag
  cases hFlag

end MioBench.Sync
