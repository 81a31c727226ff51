import MioBench.Lib.Fifo
import MioBench.Sync.MpscInvariant

/-!
# The MPSC queue is a FIFO, and strands nothing

The queue refines the abstract FIFO of `Lib.Fifo`: a tail exchange of a
producer is the moment a node enters, the store of `head` in a successful
`mpsc_dequeue` the moment it leaves, and every other atomic operation is
invisible.  The second half is about `NULL`: a call that runs undisturbed finds
the oldest node whenever there is one, and a disturbed call that returns `NULL`
has an excuse, at some instant of the call.
-/

namespace MioBench.Sync

open MioBench.Lib

/-! ## Refinement of the abstract FIFO -/

/-- What the queue stands for. -/
def MpscState.toFifo (s : MpscState) : Fifo NodePtr where
  entered := s.order.map .node
  left := s.returned

/-- The operations that change no history are invisible. -/
private theorem toFifo_eq {s s' : MpscState} (hOrder : s'.order = s.order)
    (hReturned : s'.returned = s.returned) : s'.toFifo = s.toFifo := by
  simp [MpscState.toFifo, hOrder, hReturned]

/-- Outside `pop`, a step of the consumer returns nothing. -/
theorem dequeueStep_returned {s : MpscState}
    (hpc : ∀ head next, s.consumer ≠ .pop head next) :
    s.dequeueStep.returned = s.returned := by
  unfold MpscState.dequeueStep
  split <;> simp_all [MpscState.testNext, MpscState.returnNull]
  · split
    · split <;> rfl
    · split <;> rfl
  · split <;> rfl
  · split <;> rfl
  · split <;> rfl

theorem dequeueStep_order (s : MpscState) :
    s.dequeueStep.order = s.order := by
  unfold MpscState.dequeueStep
  split <;> simp_all [MpscState.testNext, MpscState.returnNull,
    MpscState.returnHead]
  · split
    · split <;> rfl
    · split <;> rfl
  · split <;> rfl
  · split <;> rfl
  · split <;> rfl

/-- The refinement. -/
theorem mpscMachine_projects (next : NodePtr → Option NodePtr) :
    Machine.Projects (mpscMachine next) (Fifo.machine NodePtr)
      MpscState.toFifo where
  start := rfl
  step := by
    intro s e s' hs hNext
    obtain ⟨hStep, -⟩ := mpscMachine_next hNext
    cases e with
    | reset p node =>
        left
        obtain ⟨-, rfl⟩ := MpscState.enqueueReset_some hStep
        rfl
    | exchange p =>
        right
        obtain ⟨node, -, rfl⟩ := MpscState.enqueueExchange_some hStep
        exact ⟨.enter (.node node), by
          simp [Fifo.machine, MpscState.toFifo]⟩
    | link p =>
        left
        obtain ⟨_, _, -, rfl⟩ := MpscState.enqueueLink_some hStep
        rfl
    | dequeue =>
        obtain rfl : s.dequeueStep = s' := Option.some.inj hStep
        by_cases hPop : ∃ head next, s.consumer = .pop head next
        · right
          obtain ⟨head, next', hpc⟩ := hPop
          obtain ⟨chain, h⟩ := mpscMachine_chainInv hs
          have hC := h.consumer
          unfold ConsumerInv at hC
          rw [hpc] at hC
          obtain ⟨rfl, hNe, hStored⟩ := hC
          obtain ⟨rest, hChain⟩ := h.cons_of_next hStored
          have hSplit : s.toFifo.entered = s.toFifo.left ++
              s.q.head :: (next' :: rest).filter (· ≠ .stub) := by
            have hFifo := h.fifo
            rw [hChain, List.filter_cons_of_pos (by simpa using hNe)] at hFifo
            exact hFifo
          refine ⟨.leave, (Fifo.leave_of_split hSplit).trans ?_⟩
          simp [MpscState.toFifo, MpscState.dequeueStep, hpc,
            MpscState.returnHead]
        · left
          refine toFifo_eq (dequeueStep_order s) (dequeueStep_returned ?_)
          intro head next' hpc
          exact hPop ⟨head, next', hpc⟩

/-- **Linearizable FIFO, without loss or duplication**: in every reachable
state what `mpsc_dequeue` has returned is a prefix of the producer nodes in the
order of their tail exchanges, and never the stub. -/
theorem mpscQueue_fifo (next : NodePtr → Option NodePtr) {s : MpscState}
    (hs : (mpscMachine next).Reachable s) :
    s.returned <+: s.order.map .node ∧ .stub ∉ s.returned := by
  have hPrefix := Fifo.left_prefix ((mpscMachine_projects next).reachable hs)
  refine ⟨hPrefix, ?_⟩
  intro hStub
  have hMem := hPrefix.subset hStub
  simp [MpscState.toFifo] at hMem

/-- Two producers overtake one another between exchange and link; the consumer
still returns the nodes in the order of the exchanges, re-arming the stub to
pop the second. -/
theorem mpscQueue_fifo_two :
    let m := mpscMachine fun _ => none
    let s := (m.exec m.start
      ([.reset 0 7, .reset 1 8, .exchange 1, .exchange 0, .link 0, .link 1] ++
        List.replicate 14 .dequeue)).get (by decide)
    s.returned = [.node 8, .node 7] ∧
      s.returned <+: s.order.map .node ∧ .stub ∉ s.returned := by
  intro m s
  have hs : m.Reachable s :=
    Machine.reachable_of_exec (Option.some_get _).symm
  exact ⟨by decide, mpscQueue_fifo _ hs⟩

/-! ## A call that runs undisturbed -/

namespace MpscState

/-- The producer nodes exchanged in and not returned yet, oldest first. -/
def undelivered (s : MpscState) : List Nat := s.order.drop s.returned.length

/-- Some producer is between its exchange and its link. -/
def MidInsert (s : MpscState) : Prop :=
  ∃ p node prevTail, s.producer p = .link node prevTail

/-- Run the consumer alone until its call returns. -/
def finishDequeue : Nat → MpscState → Option MpscState
  | 0, s => if s.consumer = .idle then some s else none
  | fuel + 1, s =>
      if s.consumer = .idle then some s else finishDequeue fuel s.dequeueStep

/-- A whole call of `mpsc_dequeue` with nobody else running. -/
def callDequeue (fuel : Nat) (s : MpscState) : Option MpscState :=
  finishDequeue fuel s.dequeueStep

end MpscState

namespace ChainInv

variable {s : MpscState} {chain : List NodePtr}

/-- The chain without the stub is what is still undelivered. -/
theorem undelivered_eq (h : ChainInv s chain) :
    s.undelivered.map .node = chain.filter (· ≠ .stub) := by
  unfold MpscState.undelivered
  rw [List.map_drop, h.fifo, List.drop_left]

theorem head?_undelivered (h : ChainInv s chain) :
    s.undelivered.head?.map .node = (chain.filter (· ≠ .stub)).head? := by
  rw [← h.undelivered_eq, List.head?_map]

/-- With no link outstanding every neighbour in the chain is linked. -/
theorem next_of_adjacent (h : ChainInv s chain) (hMid : ¬ s.MidInsert)
    (hArm : ∀ head prev, s.consumer ≠ .rearmLink head prev) {a b : NodePtr}
    (hAdj : Adjacent chain a b) : s.q.next a = some b := by
  rcases h.linked a b hAdj with hStored | ⟨p, node, hpc, -⟩ | ⟨head, hpc, -⟩
  · exact hStored
  · exact absurd ⟨p, node, a, hpc⟩ hMid
  · exact absurd hpc (hArm head a)

end ChainInv

/-- Re-arming the stub behind a lone node, with nobody else running, pops the
node: the last six operations of a call. -/
private theorem finish_loadTail {s : MpscState} {x : NodePtr}
    (hpc : s.consumer = .loadTail x) (hTail : s.q.tail = x) :
    (MpscState.finishDequeue 6 s).map MpscState.result = some (some x) := by
  simp [MpscState.finishDequeue, MpscState.dequeueStep, hpc, hTail,
    MpscQueue.resetNext, MpscQueue.exchangeTail, MpscQueue.linkNext,
    MpscState.returnHead]

private theorem finish_pop {s : MpscState} {x y : NodePtr} (fuel : Nat)
    (hpc : s.consumer = .pop x y) :
    (MpscState.finishDequeue (fuel + 1) s).map MpscState.result =
      some (some x) := by
  cases fuel <;>
    simp [MpscState.finishDequeue, MpscState.dequeueStep, hpc,
      MpscState.returnHead]

/-- From a load of `head->next` at the head `x`: it is popped, by way of the
stub when it is alone. -/
private theorem finish_testNext {s : MpscState} {x : NodePtr}
    (hOnly : s.q.next x = none → s.q.tail = x) :
    (MpscState.finishDequeue 6 (s.testNext x (s.q.next x))).map
      MpscState.result = some (some x) := by
  cases hNext : s.q.next x with
  | none => exact finish_loadTail rfl (hOnly hNext)
  | some y => exact finish_pop 5 rfl

/-- More fuel than a call needs changes nothing. -/
theorem finishDequeue_more {fuel : Nat} {s s' : MpscState}
    (h : MpscState.finishDequeue fuel s = some s') (extra : Nat) :
    MpscState.finishDequeue (fuel + extra) s = some s' := by
  induction fuel generalizing s with
  | zero =>
      simp only [MpscState.finishDequeue] at h
      split at h
      · rename_i hIdle
        cases extra <;> simpa [MpscState.finishDequeue, hIdle] using h
      · cases h
  | succ fuel ih =>
      rw [Nat.succ_add]
      simp only [MpscState.finishDequeue] at h ⊢
      split at h
      · rename_i hIdle
        simpa [hIdle] using h
      · rename_i hBusy
        simpa [hBusy] using ih h

private theorem finish_more {fuel : Nat} {s : MpscState}
    {r : Option NodePtr} (extra : Nat)
    (h : (MpscState.finishDequeue fuel s).map MpscState.result = some r) :
    (MpscState.finishDequeue (fuel + extra) s).map MpscState.result =
      some r := by
  obtain ⟨s', hRun, hResult⟩ := Option.map_eq_some_iff.mp h
  rw [finishDequeue_more hRun extra]
  simp [hResult]

/-- One more operation in front of a call under way. -/
private theorem finish_step {fuel : Nat} {s : MpscState}
    {r : Option NodePtr} (hBusy : s.consumer ≠ .idle)
    (h : (MpscState.finishDequeue fuel s.dequeueStep).map MpscState.result =
      some r) :
    (MpscState.finishDequeue (fuel + 1) s).map MpscState.result = some r := by
  simpa [MpscState.finishDequeue, hBusy] using h

/-- The undisturbed call, from any chain: nine operations after the load of
`head` at most. -/
theorem callDequeue_result {s : MpscState} {chain : List NodePtr}
    (h : ChainInv s chain) (hIdle : s.consumer = .idle)
    (hMid : ¬ s.MidInsert) :
    (s.callDequeue 9).map MpscState.result =
      some (s.undelivered.head?.map .node) := by
  have hArm : ∀ head prev, s.consumer ≠ .rearmLink head prev := by
    simp [hIdle]
  have hNull : ∀ a, a ∈ chain → s.q.next a = none → s.q.tail = a := by
    intro a ha hNone
    by_contra hTail
    have hNotLast : chain.getLast? ≠ some a := by
      rw [h.ends]
      simpa using hTail
    obtain ⟨b, hAdj⟩ := Adjacent.exists_of_mem ha hNotLast
    rw [h.next_of_adjacent hMid hArm hAdj] at hNone
    cases hNone
  rw [h.head?_undelivered]
  have hFirst : s.dequeueStep = { s with consumer := .loadNext s.q.head } := by
    simp [MpscState.dequeueStep, hIdle]
  unfold MpscState.callDequeue
  rw [hFirst]
  have hHead := h.starts
  have hNodup := h.nodup
  cases hChain : chain with
  | nil => exact absurd hChain h.ne_nil
  | cons x rest =>
      rw [hChain] at hHead hNodup
      obtain rfl : x = s.q.head := by simpa using hHead
      by_cases hStub : s.q.head = .stub
      · cases rest with
        | nil =>
            -- Only the stub: its `next` is the tail's, hence `NULL`.
            have hEmpty : s.q.next s.q.head = none := by
              have hTail := h.ends
              rw [hChain] at hTail
              obtain hEq : s.q.head = s.q.tail := by simpa using hTail
              rw [hEq]
              exact h.terminated
            rw [hStub] at hEmpty
            simp [MpscState.finishDequeue, MpscState.dequeueStep, hStub,
              hEmpty, MpscState.returnNull]
        | cons y rest =>
            have hNext : s.q.next .stub = some y := by
              rw [← hStub]
              exact h.next_of_adjacent hMid hArm (hChain ▸ Or.inl ⟨rfl, rfl⟩)
            have hy : y ≠ .stub := by
              rintro rfl
              rw [hStub] at hNodup
              simp at hNodup
            have hOnly : s.q.next y = none → s.q.tail = y :=
              hNull y (by simp [hChain])
            -- `loadNext`, `skipStub` and `reloadNext`, then the tail.
            refine finish_step (by simp) ?_
            simp only [MpscState.dequeueStep, hStub, hNext, ↓reduceIte]
            refine finish_step (by simp) ?_
            simp only [MpscState.dequeueStep]
            refine finish_step (by simp) ?_
            simp only [MpscState.dequeueStep]
            refine Eq.trans (finish_testNext
              (s := { s with
                q := s.q.storeHead y, consumer := .reloadNext y }) hOnly) ?_
            simp [hy]
      · have hOnly : s.q.next s.q.head = none → s.q.tail = s.q.head :=
          hNull _ h.head_mem
        refine @finish_step 8 _ _ (by simp) (finish_more 2 ?_)
        simp only [MpscState.dequeueStep, hStub, ↓reduceIte]
        refine (finish_testNext hOnly).trans ?_
        simp [hStub]

/-! ## The instants of a disturbed call -/

/-- A call of `mpsc_dequeue` begun in `s₀` has passed through the states of the
list, in order, whoever moved, and is now in the last argument. -/
inductive InCall (m : Machine MpscState MpscEvent) (s₀ : MpscState) :
    List MpscState → MpscState → Prop
  | begin {s : MpscState} : s₀.consumer = .idle →
      m.next s₀ .dequeue = some s → InCall m s₀ [s₀, s] s
  | step {seen : List MpscState} {s s' : MpscState} {e : MpscEvent} :
      InCall m s₀ seen s → s.consumer ≠ .idle → m.next s e = some s' →
      InCall m s₀ (seen ++ [s']) s'

namespace MpscState

/-- What excuses a `NULL` at one instant. -/
def Excused (s : MpscState) : Prop := s.undelivered = [] ∨ s.MidInsert

/-- What is known during a call no instant of which is excused so far: a
consumer about to compare with `tail` still finds `tail` at its head, and a
call that is over has returned a node. -/
def Unexcused (s : MpscState) : Prop :=
  match s.consumer with
  | .loadTail head => s.q.tail = head
  | .idle => s.result ≠ none
  | _ => True

end MpscState

theorem InCall.mem {m : Machine MpscState MpscEvent} {s₀ s : MpscState}
    {seen : List MpscState} (h : InCall m s₀ seen s) : s ∈ seen := by
  cases h with
  | begin _ _ => simp
  | step _ _ _ => simp

theorem InCall.reachable {m : Machine MpscState MpscEvent}
    {s₀ s : MpscState} {seen : List MpscState} (h : InCall m s₀ seen s)
    (hs : m.Reachable s₀) : m.Reachable s := by
  induction h with
  | begin _ hNext => exact hs.next hNext
  | step _ _ hNext ih => exact ih.next hNext

namespace ChainInv

variable {s : MpscState} {chain : List NodePtr}

/-- A `NULL` read from the head: the head is also the tail, or a producer is
between its exchange and its link. -/
theorem tail_or_midInsert (h : ChainInv s chain)
    (hArm : ∀ head prev, s.consumer ≠ .rearmLink head prev)
    (hNull : s.q.next s.q.head = none) :
    s.q.tail = s.q.head ∨ s.MidInsert := by
  by_cases hTail : s.q.tail = s.q.head
  · exact Or.inl hTail
  · right
    have hNotLast : chain.getLast? ≠ some s.q.head := by
      rw [h.ends]
      simpa using hTail
    obtain ⟨b, hAdj⟩ := Adjacent.exists_of_mem h.head_mem hNotLast
    by_contra hMid
    rw [h.next_of_adjacent hMid hArm hAdj] at hNull
    cases hNull

/-- A `NULL` read from the stub at the head excuses the call. -/
theorem excused_of_stub (h : ChainInv s chain)
    (hArm : ∀ head prev, s.consumer ≠ .rearmLink head prev)
    (hStub : s.q.head = .stub) (hNull : s.q.next s.q.head = none) :
    s.Excused := by
  rcases h.tail_or_midInsert hArm hNull with hTail | hMid
  · left
    have hEmpty := h.undelivered_eq
    rw [h.eq_singleton hTail.symm, hStub] at hEmpty
    simpa using hEmpty
  · exact Or.inr hMid

/-- One operation of the consumer, from an instant that excuses nothing. -/
theorem unexcused_dequeueStep (h : ChainInv s chain)
    (hNot : ¬ s.Excused) (hU : s.consumer ≠ .idle → s.Unexcused) :
    s.dequeueStep.Unexcused := by
  have hMid : ¬ s.MidInsert := fun hMid => hNot (Or.inr hMid)
  have hC := h.consumer
  unfold ConsumerInv at hC
  have hTest : ∀ head, s.q.head = head →
      (∀ head prev, s.consumer ≠ .rearmLink head prev) →
      (s.testNext head (s.q.next head)).Unexcused := by
    rintro head rfl hArm
    cases hNext : s.q.next s.q.head with
    | some next => trivial
    | none =>
        rcases h.tail_or_midInsert hArm hNext with hTail | hBad
        · exact hTail
        · exact absurd hBad hMid
  cases hpc : s.consumer with
  | idle => simp [MpscState.dequeueStep, hpc, MpscState.Unexcused]
  | loadNext head =>
      rw [hpc] at hC
      have hArm : ∀ head prev, s.consumer ≠ .rearmLink head prev := by
        simp [hpc]
      simp only [MpscState.dequeueStep, hpc]
      split
      · rename_i hStub
        subst hStub
        cases hNext : s.q.next .stub with
        | some next => trivial
        | none =>
            have hHead : s.q.head = .stub := hC
            exact absurd (h.excused_of_stub hArm hHead (by rw [hHead, hNext]))
              hNot
      · exact hTest head hC hArm
  | skipStub next => simp [MpscState.dequeueStep, hpc, MpscState.Unexcused]
  | reloadNext head =>
      rw [hpc] at hC
      simp only [MpscState.dequeueStep, hpc]
      exact hTest head hC.1 (by simp [hpc])
  | pop head next =>
      simp [MpscState.dequeueStep, hpc, MpscState.Unexcused,
        MpscState.returnHead]
  | loadTail head =>
      have hTail : s.q.tail = head := by
        simpa [MpscState.Unexcused, hpc] using hU (by simp [hpc])
      simp [MpscState.dequeueStep, hpc, hTail, MpscState.Unexcused]
  | rearmReset head =>
      simp [MpscState.dequeueStep, hpc, MpscState.Unexcused]
  | rearmExchange head =>
      simp [MpscState.dequeueStep, hpc, MpscState.Unexcused]
  | rearmLink head prev =>
      simp [MpscState.dequeueStep, hpc, MpscState.Unexcused]
  | rearmReload head =>
      rw [hpc] at hC
      obtain ⟨rfl, hNe, hStub⟩ := hC
      simp only [MpscState.dequeueStep, hpc]
      cases hNext : s.q.next s.q.head with
      | some next => trivial
      | none =>
          -- The stub is behind the head, so the head is not the tail.
          rcases h.tail_or_midInsert (by simp [hpc]) hNext with hTail | hBad
          · rw [h.eq_singleton hTail.symm] at hStub
            exact absurd (List.mem_singleton.mp hStub).symm hNe
          · exact absurd hBad hMid

end ChainInv

/-- A producer's step leaves what is known of the call alone, unless it is the
exchange, after which the producer itself is the excuse. -/
private theorem unexcused_producer {s s' : MpscState} {e : MpscEvent}
    (he : e ≠ .dequeue) (hStep : mpscStep s e = some s')
    (hU : s.Unexcused) : s'.Unexcused ∨ s'.MidInsert := by
  cases e with
  | dequeue => exact absurd rfl he
  | reset p node =>
      left
      obtain ⟨-, rfl⟩ := MpscState.enqueueReset_some hStep
      exact hU
  | exchange p =>
      right
      obtain ⟨node, -, rfl⟩ := MpscState.enqueueExchange_some hStep
      exact ⟨p, node, s.q.tail, by simp⟩
  | link p =>
      left
      obtain ⟨_, _, -, rfl⟩ := MpscState.enqueueLink_some hStep
      exact hU

/-- The run lemma for a call: an excused instant so far, or the knowledge of
`Unexcused` now. -/
theorem InCall.excused_or {next : NodePtr → Option NodePtr}
    {s₀ s : MpscState} {seen : List MpscState}
    (h : InCall (mpscMachine next) s₀ seen s)
    (hs : (mpscMachine next).Reachable s₀) :
    (∃ t ∈ seen, t.Excused) ∨ s.Unexcused := by
  induction h with
  | @begin s hIdle hNext =>
      obtain ⟨chain, hChain⟩ := mpscMachine_chainInv hs
      obtain rfl : s₀.dequeueStep = s := Option.some.inj hNext
      by_cases hEx : s₀.Excused
      · exact Or.inl ⟨s₀, by simp, hEx⟩
      · exact Or.inr (hChain.unexcused_dequeueStep hEx
          (fun hBusy => absurd hIdle hBusy))
  | @step seen s s' e hCall hBusy hNext ih =>
      obtain ⟨hStep, -⟩ := mpscMachine_next hNext
      rcases ih with ⟨t, ht, hEx⟩ | hU
      · exact Or.inl ⟨t, List.mem_append_left _ ht, hEx⟩
      · by_cases he : e = .dequeue
        · subst he
          obtain ⟨chain, hChain⟩ :=
            mpscMachine_chainInv (hCall.reachable hs)
          obtain rfl : s.dequeueStep = s' := Option.some.inj hStep
          by_cases hEx : s.Excused
          · exact Or.inl ⟨s, List.mem_append_left _ hCall.mem, hEx⟩
          · exact Or.inr (hChain.unexcused_dequeueStep hEx fun _ => hU)
        · rcases unexcused_producer he hStep hU with hKept | hMid
          · exact Or.inr hKept
          · exact Or.inl ⟨s', by simp, Or.inr hMid⟩

/-- **`mpsc_dequeue` strands no node.**  A call that starts with no producer
between exchange and link and runs alone returns the oldest undelivered node,
and `NULL` only when there is none.  Whatever the interleaving, a call that
returns `NULL` had an instant with nothing undelivered or with a producer
between its exchange and its link. -/
theorem mpscDequeue_strands_nothing (next : NodePtr → Option NodePtr)
    {s : MpscState} (hs : (mpscMachine next).Reachable s) :
    (s.consumer = .idle → ¬ s.MidInsert →
      (s.callDequeue 9).map MpscState.result =
        some (s.undelivered.head?.map .node)) ∧
    ∀ seen s', InCall (mpscMachine next) s seen s' →
      s'.consumer = .idle → s'.result = none →
      ∃ t ∈ seen, t.undelivered = [] ∨ t.MidInsert := by
  constructor
  · intro hIdle hMid
    obtain ⟨chain, h⟩ := mpscMachine_chainInv hs
    exact callDequeue_result h hIdle hMid
  · intro seen s' hCall hIdle hNull
    rcases hCall.excused_or hs with hEx | hU
    · exact hEx
    · simp [MpscState.Unexcused, hIdle, hNull] at hU

/-- One linked node is found by the undisturbed call; the same node exchanged
in but not linked yet makes a call return `NULL`, and is its excuse. -/
theorem mpscDequeue_strands_nothing_one :
    let m := mpscMachine fun _ => none
    let s := (m.exec m.start
      [.reset 0 7, .exchange 0, .link 0]).get (by decide)
    let t := (m.exec m.start [.reset 0 7, .exchange 0]).get (by decide)
    (s.callDequeue 9).map MpscState.result = some (some (.node 7)) ∧
      ∃ u ∈ [t, t.dequeueStep, t.dequeueStep.dequeueStep],
        u.undelivered = [] ∨ u.MidInsert := by
  intro m s t
  have hs : m.Reachable s :=
    Machine.reachable_of_exec (Option.some_get _).symm
  have ht : m.Reachable t :=
    Machine.reachable_of_exec (Option.some_get _).symm
  have hIdle : ∀ p, s.producer p = .idle := by
    intro p
    cases p <;> rfl
  have hMid : ¬ s.MidInsert := by
    rintro ⟨p, node, prevTail, hpc⟩
    rw [hIdle p] at hpc
    cases hpc
  have hCall : InCall m t [t, t.dequeueStep, t.dequeueStep.dequeueStep]
      t.dequeueStep.dequeueStep :=
    .step (.begin rfl rfl) (by decide) (e := .dequeue) rfl
  exact ⟨(mpscDequeue_strands_nothing _ hs).1 rfl hMid,
    (mpscDequeue_strands_nothing _ ht).2 _ _ hCall rfl rfl⟩

end MioBench.Sync
