import Mathlib.Data.List.Nodup
import MioBench.Sync.MpscProgress

/-!
# The queue that does not re-arm its stub

`mpsc_dequeue` of `test2-rdma.c` is the one of the later programs up to the
comparison of `head` with `tail`; then it returns `NULL` either way.  The node
at `tail` has no successor, so it stays where it is until another node is
enqueued behind it: the queue refines the abstract FIFO that keeps its newest
element back.
-/

namespace MioBench.Sync

open MioBench.Lib

/-- The operations of the re-arming enqueue. -/
def DequeuePc.Rearms : DequeuePc → Prop
  | .rearmReset _ | .rearmExchange _ | .rearmLink _ _ | .rearmReload _ => True
  | _ => False

namespace MpscState

/-- The next atomic operation of `mpsc_dequeue` in `test2-rdma.c`. -/
def plainDequeueStep (s : MpscState) : MpscState :=
  match s.consumer with
  | .loadTail head => if head = s.q.tail then s.returnNull else s.returnNull
  | _ => s.dequeueStep

variable {s : MpscState}

theorem plainDequeueStep_loadTail {head : NodePtr}
    (hpc : s.consumer = .loadTail head) : s.plainDequeueStep = s.returnNull := by
  simp [plainDequeueStep, hpc]

theorem plainDequeueStep_eq (hpc : ∀ head, s.consumer ≠ .loadTail head) :
    s.plainDequeueStep = s.dequeueStep := by
  unfold plainDequeueStep
  split
  · exact absurd ‹_› (hpc _)
  · rfl

/-- What an operation of the consumer leaves alone. -/
structure PlainFrame (s s' : MpscState) : Prop where
  tail : s'.q.tail = s.q.tail
  order : s'.order = s.order
  producer : s'.producer = s.producer
  noRearm : ¬ s'.consumer.Rearms

theorem testNext_frame (s : MpscState) (head : NodePtr)
    (next : Option NodePtr) : PlainFrame s (s.testNext head next) := by
  cases next with
  | none => exact ⟨rfl, rfl, rfl, id⟩
  | some next => exact ⟨rfl, rfl, rfl, id⟩

theorem plainDequeueStep_frame (hArm : ¬ s.consumer.Rearms) :
    PlainFrame s s.plainDequeueStep := by
  have hSame : ∀ head next, PlainFrame s (s.testNext head next) :=
    s.testNext_frame
  cases hpc : s.consumer with
  | loadTail head =>
      rw [plainDequeueStep_loadTail hpc]
      exact ⟨rfl, rfl, rfl, id⟩
  | loadNext head =>
      simp only [plainDequeueStep, dequeueStep, hpc]
      split
      · split
        · exact ⟨rfl, rfl, rfl, id⟩
        · exact ⟨rfl, rfl, rfl, id⟩
      · exact hSame head _
  | reloadNext head =>
      simp only [plainDequeueStep, dequeueStep, hpc]
      exact hSame head _
  | idle =>
      simp only [plainDequeueStep, dequeueStep, hpc]
      exact ⟨rfl, rfl, rfl, id⟩
  | skipStub next =>
      simp only [plainDequeueStep, dequeueStep, hpc]
      exact ⟨rfl, rfl, rfl, id⟩
  | pop head next =>
      simp only [plainDequeueStep, dequeueStep, hpc]
      exact ⟨rfl, rfl, rfl, id⟩
  | rearmReset head => exact absurd (hpc ▸ trivial) hArm
  | rearmExchange head => exact absurd (hpc ▸ trivial) hArm
  | rearmLink head prev => exact absurd (hpc ▸ trivial) hArm
  | rearmReload head => exact absurd (hpc ▸ trivial) hArm

/-- One operation either pops the head or returns and releases nothing; a call
that ends there returns `NULL`. -/
theorem plainDequeueStep_cases (s : MpscState) :
    (∃ head next, s.consumer = .pop head next ∧
      s.plainDequeueStep = s.returnHead head next) ∨
    ((∀ head next, s.consumer ≠ .pop head next) ∧
      s.plainDequeueStep.returned = s.returned ∧
      s.plainDequeueStep.held = s.held ∧
      (s.plainDequeueStep.consumer = .idle →
        s.plainDequeueStep.result = none)) := by
  by_cases hTail : ∃ head, s.consumer = .loadTail head
  · obtain ⟨head, hpc⟩ := hTail
    rw [plainDequeueStep_loadTail hpc]
    exact Or.inr ⟨by simp [hpc], rfl, rfl, fun _ => rfl⟩
  · push Not at hTail
    rw [plainDequeueStep_eq hTail]
    exact s.dequeueStep_cases

end MpscState

/-- The code alone. -/
def plainMpscStep (s : MpscState) : MpscEvent → Option MpscState
  | .reset p node => s.enqueueReset p node
  | .exchange p => s.enqueueExchange p
  | .link p => s.enqueueLink p
  | .dequeue => some s.plainDequeueStep

/-- The queue used as intended. -/
def plainMpscMachine (next : NodePtr → Option NodePtr) :
    Machine MpscState MpscEvent where
  start := MpscState.init next
  next s e :=
    match e with
    | .reset p node => if s.held node then none else s.enqueueReset p node
    | e => plainMpscStep s e

/-! ## The chain -/

/-- The memory of the queue represents `chain`, the stub is not coming back,
and `tail` is at the node exchanged in last. -/
structure PlainInv (s : MpscState) (chain : List NodePtr) : Prop
    extends ChainInv s chain where
  noRearm : ¬ s.consumer.Rearms
  newest : s.q.tail = (s.order.getLast?.map NodePtr.node).getD .stub

section Preservation

variable {s s' : MpscState} {chain : List NodePtr}

theorem ChainInv.plainDequeueStep (h : ChainInv s chain) :
    ∃ chain', ChainInv s.plainDequeueStep chain' := by
  by_cases hTail : ∃ head, s.consumer = .loadTail head
  · obtain ⟨head, hpc⟩ := hTail
    rw [MpscState.plainDequeueStep_loadTail hpc]
    exact ⟨chain, h.setConsumer .idle none (by simp [hpc]) (by simp) trivial⟩
  · push Not at hTail
    rw [MpscState.plainDequeueStep_eq hTail]
    rcases h.dequeueStep with hNew | hNew | hNew
    · exact ⟨_, hNew⟩
    · exact ⟨_, hNew⟩
    · exact ⟨_, hNew⟩

theorem init_plainInv (next : NodePtr → Option NodePtr) :
    PlainInv (MpscState.init next) [.stub] where
  toChainInv := init_chainInv next
  noRearm := id
  newest := rfl

/-- Every operation keeps the invariant; the usage rule is a hypothesis about
the reset. -/
theorem plainMpscStep_inv {e : MpscEvent} (h : PlainInv s chain)
    (hUse : ∀ p node, e = .reset p node → s.held node = false)
    (hStep : plainMpscStep s e = some s') :
    ∃ chain', PlainInv s' chain' := by
  cases e with
  | reset p node =>
      have hNew := h.enqueueReset (hUse p node rfl) hStep
      obtain ⟨-, rfl⟩ := MpscState.enqueueReset_some hStep
      exact ⟨chain, hNew, h.noRearm, h.newest⟩
  | exchange p =>
      obtain ⟨node, hpc, hNew⟩ := h.enqueueExchange hStep
      obtain ⟨node', hpc', rfl⟩ := MpscState.enqueueExchange_some hStep
      exact ⟨_, hNew, h.noRearm, by simp [MpscQueue.exchangeTail]⟩
  | link p =>
      have hNew := h.enqueueLink hStep
      obtain ⟨_, _, -, rfl⟩ := MpscState.enqueueLink_some hStep
      exact ⟨chain, hNew, h.noRearm, h.newest⟩
  | dequeue =>
      obtain rfl : s.plainDequeueStep = s' := Option.some.inj hStep
      obtain ⟨chain', hNew⟩ := h.plainDequeueStep
      have hFrame := MpscState.plainDequeueStep_frame h.noRearm
      exact ⟨chain', hNew, hFrame.noRearm, by
        rw [hFrame.tail, hFrame.order]
        exact h.newest⟩

end Preservation

variable {next : NodePtr → Option NodePtr}

theorem plainMpscMachine_next {s s' : MpscState} {e : MpscEvent}
    (hStep : (plainMpscMachine next).next s e = some s') :
    plainMpscStep s e = some s' ∧
      ∀ p node, e = .reset p node → s.held node = false := by
  cases e with
  | reset p node =>
      simp only [plainMpscMachine] at hStep
      split at hStep
      · cases hStep
      · rename_i hFree
        refine ⟨hStep, ?_⟩
        rintro _ _ ⟨⟩
        simpa using hFree
  | exchange p => exact ⟨hStep, by simp⟩
  | link p => exact ⟨hStep, by simp⟩
  | dequeue => exact ⟨hStep, by simp⟩

theorem plainMpscMachine_inv {s : MpscState}
    (hs : (plainMpscMachine next).Reachable s) :
    ∃ chain, PlainInv s chain := by
  refine hs.invariant (P := fun s => ∃ chain, PlainInv s chain)
    ⟨[.stub], init_plainInv next⟩ ?_
  rintro s e s' _ ⟨chain, h⟩ hNext
  obtain ⟨hStep, hUse⟩ := plainMpscMachine_next hNext
  exact plainMpscStep_inv h hUse hStep

/-! ## Refinement of the FIFO that keeps its newest element back -/

section Chain

variable {s : MpscState} {chain : List NodePtr}

/-- With a producer node in the chain, the tail is one. -/
theorem PlainInv.tail_ne_stub (h : PlainInv s chain) {x : NodePtr}
    (hMem : x ∈ chain) (hNe : x ≠ .stub) : s.q.tail ≠ .stub := by
  have hIn : x ∈ s.order.map NodePtr.node := by
    rw [h.fifo]
    exact List.mem_append_right _ (List.mem_filter.mpr ⟨hMem, by simpa using hNe⟩)
  cases hLast : s.order.getLast? with
  | none =>
      rw [List.getLast?_eq_none_iff.mp hLast] at hIn
      cases hIn
  | some node =>
      rw [h.newest, hLast]
      simp

/-- Behind a producer node that is not the last of the chain, another one is
waiting. -/
theorem PlainInv.waiting_behind (h : PlainInv s chain) (front : List NodePtr)
    {x y : NodePtr} {rest : List NodePtr}
    (hChain : chain = front ++ x :: y :: rest)
    (hNe : x ≠ .stub) : ∃ z l, (y :: rest).filter (· ≠ .stub) = z :: l := by
  have hTail : s.q.tail ≠ .stub := h.tail_ne_stub (by simp [hChain]) hNe
  have hLast : (y :: rest).getLast? = some s.q.tail := by
    rw [← h.ends, hChain, List.getLast?_append_of_ne_nil _ (by simp),
      List.getLast?_cons_cons]
  have hMem : s.q.tail ∈ (y :: rest).filter (· ≠ .stub) :=
    List.mem_filter.mpr ⟨List.mem_of_getLast? hLast, by simpa using hTail⟩
  exact List.exists_cons_of_ne_nil (List.ne_nil_of_mem hMem)

end Chain

/-- The refinement: a pop takes the oldest node, and another one is waiting. -/
theorem plainMpscMachine_projects (next : NodePtr → Option NodePtr) :
    Machine.Projects (plainMpscMachine next) (Fifo.laggingMachine NodePtr)
      MpscState.toFifo where
  start := rfl
  step := by
    intro s e s' hs hNext
    obtain ⟨hStep, -⟩ := plainMpscMachine_next hNext
    obtain ⟨chain, h⟩ := plainMpscMachine_inv hs
    cases e with
    | reset p node =>
        left
        obtain ⟨-, rfl⟩ := MpscState.enqueueReset_some hStep
        rfl
    | exchange p =>
        right
        obtain ⟨node, -, rfl⟩ := MpscState.enqueueExchange_some hStep
        exact ⟨.enter (.node node), by
          simp [Fifo.laggingMachine, MpscState.toFifo]⟩
    | link p =>
        left
        obtain ⟨_, _, -, rfl⟩ := MpscState.enqueueLink_some hStep
        rfl
    | dequeue =>
        obtain rfl : s.plainDequeueStep = s' := Option.some.inj hStep
        have hFrame := MpscState.plainDequeueStep_frame h.noRearm
        rcases s.plainDequeueStep_cases with ⟨head, next', hpc, hPop⟩ |
          ⟨_, hReturned, _⟩
        · right
          have hC := h.consumer
          simp only [ConsumerInv, hpc] at hC
          obtain ⟨rfl, hNe, hStored⟩ := hC
          obtain ⟨rest, hChain⟩ := h.cons_of_next hStored
          obtain ⟨z, l, hBehind⟩ := h.waiting_behind [] hChain hNe
          have hSplit : s.toFifo.entered =
              s.toFifo.left ++ s.q.head :: z :: l := by
            have hFifo := h.fifo
            rw [hChain, List.filter_cons_of_pos (by simpa using hNe),
              hBehind] at hFifo
            exact hFifo
          refine ⟨.leave, (Fifo.leaveBehind_of_split hSplit).trans ?_⟩
          rw [hPop]
          rfl
        · left
          simp [MpscState.toFifo, hFrame.order, hReturned]

theorem plainMpscMachine_returned {next : NodePtr → Option NodePtr}
    {s : MpscState} (hs : (plainMpscMachine next).Reachable s) :
    s.returned <+: s.order.map .node :=
  Fifo.left_prefix (Fifo.laggingMachine_projects.reachable
    ((plainMpscMachine_projects next).reachable hs))

/-- Where no node is enqueued twice, the newest one has not been returned. -/
theorem plainMpscMachine_newest {next : NodePtr → Option NodePtr}
    {s : MpscState} (hs : (plainMpscMachine next).Reachable s)
    (hNodup : s.order.Nodup) {node : Nat}
    (hLast : s.order.getLast? = some node) : .node node ∉ s.returned := by
  intro hIn
  obtain ⟨chain, h⟩ := plainMpscMachine_inv hs
  have hTail : s.q.tail = .node node := by rw [h.newest, hLast]; rfl
  have hWaiting : NodePtr.node node ∈ chain.filter (· ≠ .stub) :=
    List.mem_filter.mpr ⟨hTail ▸ h.tail_mem, by simp⟩
  have hNodes : (s.order.map NodePtr.node).Nodup :=
    hNodup.map fun a b hab => NodePtr.node.inj hab
  rw [h.fifo] at hNodes
  exact (List.nodup_append.mp hNodes).2.2 _ hIn _ hWaiting rfl

/-- **FIFO, and the newest node stays**: in every reachable state what
`mpsc_dequeue` has returned is a prefix of the nodes in the order of their
tail exchanges, without the last of them. -/
theorem plainMpsc_keeps_newest (next : NodePtr → Option NodePtr)
    {s : MpscState} (hs : (plainMpscMachine next).Reachable s) :
    s.returned <+: s.order.map .node ∧
      (s.order ≠ [] → s.returned.length < s.order.length) := by
  refine ⟨plainMpscMachine_returned hs, ?_⟩
  intro hSome
  have hLt := Fifo.left_length_lt
    ((plainMpscMachine_projects next).reachable hs)
    (by simpa [MpscState.toFifo])
  simpa [MpscState.toFifo] using hLt

/-- Two nodes in the queue: however often the consumer asks, it gets the older
one only. -/
theorem plainMpsc_keeps_newest_two :
    let m := plainMpscMachine fun _ => none
    let s := (m.exec m.start
      ([.reset 0 7, .reset 1 8, .exchange 1, .exchange 0, .link 0, .link 1] ++
        List.replicate 14 .dequeue)).get (by decide)
    s.returned = [.node 8] ∧ s.returned <+: s.order.map .node ∧
      (s.order ≠ [] → s.returned.length < s.order.length) := by
  intro m s
  have hs : m.Reachable s :=
    Machine.reachable_of_exec (Option.some_get _).symm
  exact ⟨by decide, plainMpsc_keeps_newest _ hs⟩

/-! ## What a call returns -/

namespace MpscState

/-- The node a call can return: the oldest one, with another behind it. -/
def poppable (s : MpscState) : Option Nat :=
  if 2 ≤ s.undelivered.length then s.undelivered.head? else none

/-- Run the consumer alone until its call returns. -/
def plainFinish : Nat → MpscState → Option MpscState
  | 0, s => if s.consumer = .idle then some s else none
  | fuel + 1, s =>
      if s.consumer = .idle then some s else plainFinish fuel s.plainDequeueStep

/-- A whole call with nobody else running. -/
def plainCall (fuel : Nat) (s : MpscState) : Option MpscState :=
  plainFinish fuel s.plainDequeueStep

/-- What excuses a `NULL` at one instant. -/
def PlainExcused (s : MpscState) : Prop :=
  s.undelivered.length ≤ 1 ∨ s.MidInsert

end MpscState

section Call

variable {s : MpscState} {chain : List NodePtr}

theorem ChainInv.undelivered_length (h : ChainInv s chain) :
    s.undelivered.length = (chain.filter (· ≠ .stub)).length := by
  rw [← h.undelivered_eq, List.length_map]

/-- The oldest producer node can be popped when it has a successor. -/
theorem PlainInv.poppable_eq (h : PlainInv s chain) (front : List NodePtr)
    {x : NodePtr} {rest : List NodePtr} (hChain : chain = front ++ x :: rest)
    (hFront : front.filter (· ≠ .stub) = []) (hNe : x ≠ .stub) :
    s.poppable.map .node = rest.head?.map fun _ => x := by
  have hFilter : chain.filter (· ≠ .stub) =
      x :: rest.filter (· ≠ .stub) := by
    rw [hChain, List.filter_append, hFront, List.nil_append,
      List.filter_cons_of_pos (by simpa using hNe)]
  have hLength := h.undelivered_length
  have hHead := h.head?_undelivered
  rw [hFilter] at hLength hHead
  unfold MpscState.poppable
  cases rest with
  | nil => simp [hLength]
  | cons y rest =>
      obtain ⟨z, l, hRest⟩ := h.waiting_behind front hChain hNe
      rw [hRest] at hLength
      rw [if_pos (by simp [hLength]), hHead]
      rfl

private theorem plainFinish_step {fuel : Nat} {s : MpscState}
    {r : Option NodePtr} (hBusy : s.consumer ≠ .idle)
    (h : (MpscState.plainFinish fuel s.plainDequeueStep).map
      MpscState.result = some r) :
    (MpscState.plainFinish (fuel + 1) s).map MpscState.result = some r := by
  simpa [MpscState.plainFinish, hBusy] using h

/-- From the test of `next` at a head that is not the stub, in two operations
at most. -/
private theorem plainFinish_testNext (s : MpscState) (x : NodePtr) (fuel : Nat)
    (next : Option NodePtr) :
    (MpscState.plainFinish (fuel + 1) (s.testNext x next)).map
      MpscState.result = some (next.map fun _ => x) := by
  cases next with
  | none =>
      have hStep : (s.testNext x none).plainDequeueStep = s.returnNull :=
        MpscState.plainDequeueStep_loadTail rfl
      have hBusy : (s.testNext x none).consumer ≠ .idle := by
        simp [MpscState.testNext]
      rw [MpscState.plainFinish, if_neg hBusy, hStep]
      cases fuel <;> simp [MpscState.plainFinish, MpscState.returnNull]
  | some y =>
      have hStep : (s.testNext x (some y)).plainDequeueStep =
          s.returnHead x y := rfl
      have hBusy : (s.testNext x (some y)).consumer ≠ .idle := by
        simp [MpscState.testNext]
      rw [MpscState.plainFinish, if_neg hBusy, hStep]
      cases fuel <;> simp [MpscState.plainFinish, MpscState.returnHead]

/-- With no link outstanding, the last node of the chain is the only one
without a successor. -/
theorem ChainInv.next_cases (h : ChainInv s chain) (hMid : ¬ s.MidInsert)
    (hArm : ∀ head prev, s.consumer ≠ .rearmLink head prev)
    (front : List NodePtr) {rest : List NodePtr} {x : NodePtr}
    (hChain : chain = front ++ x :: rest) : s.q.next x = rest.head? := by
  cases rest with
  | nil =>
      have hTail := h.ends
      rw [hChain, List.getLast?_append_of_ne_nil _ (by simp)] at hTail
      obtain rfl : x = s.q.tail := by simpa using hTail
      exact h.terminated
  | cons y rest =>
      refine h.next_of_adjacent hMid hArm ?_
      rw [hChain]
      exact Adjacent.append_cons front x y rest

/-- The undisturbed call, from any chain. -/
theorem plainCall_result (h : PlainInv s chain) (hIdle : s.consumer = .idle)
    (hMid : ¬ s.MidInsert) :
    (s.plainCall 5).map MpscState.result = some (s.poppable.map .node) := by
  have hArm : ∀ head prev, s.consumer ≠ .rearmLink head prev := by
    simp [hIdle]
  have hFirst : s.plainDequeueStep =
      { s with consumer := .loadNext s.q.head } := by
    simp [MpscState.plainDequeueStep, MpscState.dequeueStep, hIdle]
  have hHead := h.starts
  have hNodup := h.nodup
  unfold MpscState.plainCall
  rw [hFirst]
  cases hChain : chain with
  | nil => exact absurd hChain h.ne_nil
  | cons x rest =>
      rw [hChain] at hHead hNodup
      obtain rfl : x = s.q.head := by simpa using hHead
      have hNext : s.q.next s.q.head = rest.head? :=
        h.next_cases hMid hArm [] hChain
      by_cases hStub : s.q.head = .stub
      · rw [hStub] at hChain hNext
        cases rest with
        | nil =>
            have hNone : s.poppable = none := by
              unfold MpscState.poppable
              exact if_neg (by simp [h.undelivered_length, hChain])
            simp [MpscState.plainFinish, MpscState.plainDequeueStep,
              MpscState.dequeueStep, hStub, hNext, MpscState.returnNull, hNone]
        | cons y rest =>
            have hy : y ≠ .stub := by
              rintro rfl
              rw [hStub] at hNodup
              simp at hNodup
            have hNextY : s.q.next y = rest.head? :=
              h.next_cases hMid hArm [.stub] hChain
            -- `loadNext`, `skipStub` and `reloadNext`, then the test of `next`.
            refine plainFinish_step (by simp) ?_
            simp only [MpscState.plainDequeueStep, MpscState.dequeueStep, hStub,
              hNext, List.head?_cons, ↓reduceIte]
            refine plainFinish_step (by simp) ?_
            simp only [MpscState.plainDequeueStep, MpscState.dequeueStep]
            refine plainFinish_step (by simp) ?_
            simp only [MpscState.plainDequeueStep, MpscState.dequeueStep]
            refine (plainFinish_testNext _ y 1 _).trans ?_
            rw [h.poppable_eq [.stub] hChain (by simp) hy, ← hNextY]
            rfl
      · -- The head itself is the oldest node.
        refine plainFinish_step (by simp) ?_
        simp only [MpscState.plainDequeueStep, MpscState.dequeueStep, hStub,
          ↓reduceIte]
        refine (plainFinish_testNext _ s.q.head 3 _).trans ?_
        rw [h.poppable_eq [] hChain (by simp) hStub, ← hNext]

/-- A `NULL` read from the head excuses the call. -/
theorem ChainInv.plainExcused_of_next (h : ChainInv s chain)
    (hArm : ∀ head prev, s.consumer ≠ .rearmLink head prev)
    (hNull : s.q.next s.q.head = none) : s.PlainExcused := by
  rcases h.tail_or_midInsert hArm hNull with hTail | hMid
  · left
    rw [h.undelivered_length, h.eq_singleton hTail.symm]
    exact List.length_filter_le _ _
  · exact Or.inr hMid

/-- What is known during a call no instant of which is excused so far. -/
def MpscState.PlainUnexcused (s : MpscState) : Prop :=
  (∀ head, s.consumer ≠ .loadTail head) ∧
    (s.consumer = .idle → s.result ≠ none)

/-- One operation of the consumer, from an instant that excuses nothing. -/
theorem PlainInv.unexcused_step (h : PlainInv s chain)
    (hNot : ¬ s.PlainExcused) (hU : s.consumer ≠ .idle → s.PlainUnexcused) :
    s.plainDequeueStep.PlainUnexcused := by
  have hC := h.consumer
  have hArm : ∀ head prev, s.consumer ≠ .rearmLink head prev := by
    intro head prev hpc
    exact h.noRearm (hpc ▸ trivial)
  have hLinked : ∃ next, s.q.next s.q.head = some next := by
    cases hNext : s.q.next s.q.head with
    | none => exact absurd (h.plainExcused_of_next hArm hNext) hNot
    | some next => exact ⟨next, rfl⟩
  obtain ⟨next, hNext⟩ := hLinked
  have hTest : ∀ head, s.q.head = head →
      (s.testNext head (s.q.next head)).PlainUnexcused := by
    rintro head rfl
    rw [hNext]
    exact ⟨by simp [MpscState.testNext], by simp [MpscState.testNext]⟩
  cases hpc : s.consumer with
  | idle =>
      simp [MpscState.plainDequeueStep, MpscState.dequeueStep, hpc,
        MpscState.PlainUnexcused]
  | loadNext head =>
      have hHead : s.q.head = head := by simpa [ConsumerInv, hpc] using hC
      simp only [MpscState.plainDequeueStep, MpscState.dequeueStep, hpc]
      split
      · rw [← hHead, hNext]
        exact ⟨by simp, by simp⟩
      · exact hTest head hHead
  | skipStub next =>
      simp [MpscState.plainDequeueStep, MpscState.dequeueStep, hpc,
        MpscState.PlainUnexcused]
  | reloadNext head =>
      have hHead : s.q.head = head ∧ head ≠ .stub := by
        simpa [ConsumerInv, hpc] using hC
      simp only [MpscState.plainDequeueStep, MpscState.dequeueStep, hpc]
      exact hTest head hHead.1
  | pop head next =>
      simp [MpscState.plainDequeueStep, MpscState.dequeueStep, hpc,
        MpscState.PlainUnexcused, MpscState.returnHead]
  | loadTail head =>
      exact absurd hpc ((hU (by simp [hpc])).1 head)
  | rearmReset head => exact absurd (hpc ▸ trivial) h.noRearm
  | rearmExchange head => exact absurd (hpc ▸ trivial) h.noRearm
  | rearmLink head prev => exact absurd (hpc ▸ trivial) h.noRearm
  | rearmReload head => exact absurd (hpc ▸ trivial) h.noRearm

/-- The run lemma for a call. -/
theorem InCall.plainExcused_or {next : NodePtr → Option NodePtr}
    {s₀ s : MpscState} {seen : List MpscState}
    (h : InCall (plainMpscMachine next) s₀ seen s)
    (hs : (plainMpscMachine next).Reachable s₀) :
    (∃ t ∈ seen, t.PlainExcused) ∨ s.PlainUnexcused := by
  induction h with
  | @begin s hIdle hNext =>
      obtain ⟨chain, hInv⟩ := plainMpscMachine_inv hs
      obtain rfl : s₀.plainDequeueStep = s := Option.some.inj hNext
      by_cases hEx : s₀.PlainExcused
      · exact Or.inl ⟨s₀, by simp, hEx⟩
      · exact Or.inr (hInv.unexcused_step hEx fun hBusy => absurd hIdle hBusy)
  | @step seen s s' e hCall hBusy hNext ih =>
      obtain ⟨hStep, -⟩ := plainMpscMachine_next hNext
      rcases ih with ⟨t, ht, hEx⟩ | hU
      · exact Or.inl ⟨t, List.mem_append_left _ ht, hEx⟩
      · cases e with
        | dequeue =>
            obtain ⟨chain, hInv⟩ := plainMpscMachine_inv (hCall.reachable hs)
            obtain rfl : s.plainDequeueStep = s' := Option.some.inj hStep
            by_cases hEx : s.PlainExcused
            · exact Or.inl ⟨s, List.mem_append_left _ hCall.mem, hEx⟩
            · exact Or.inr (hInv.unexcused_step hEx fun _ => hU)
        -- A producer changes nothing the consumer has read.
        | reset p node =>
            obtain ⟨-, rfl⟩ := MpscState.enqueueReset_some hStep
            exact Or.inr hU
        | exchange p =>
            obtain ⟨node, -, rfl⟩ := MpscState.enqueueExchange_some hStep
            exact Or.inr hU
        | link p =>
            obtain ⟨_, _, -, rfl⟩ := MpscState.enqueueLink_some hStep
            exact Or.inr hU

end Call

/-- **When a call returns a node.**  A call that starts with no producer
between exchange and link and runs alone returns the oldest undelivered node
if at least two are undelivered, and `NULL` otherwise.  Whatever the
interleaving, a call that returns `NULL` had an instant with at most one node
undelivered or with a producer between its exchange and its link. -/
theorem plainDequeue_holds_back (next : NodePtr → Option NodePtr)
    {s : MpscState} (hs : (plainMpscMachine next).Reachable s) :
    (s.consumer = .idle → ¬ s.MidInsert →
      (s.plainCall 5).map MpscState.result = some (s.poppable.map .node)) ∧
    ∀ seen s', InCall (plainMpscMachine next) s seen s' →
      s'.consumer = .idle → s'.result = none →
      ∃ t ∈ seen, t.undelivered.length ≤ 1 ∨ t.MidInsert := by
  constructor
  · intro hIdle hMid
    obtain ⟨chain, h⟩ := plainMpscMachine_inv hs
    exact plainCall_result h hIdle hMid
  · intro seen s' hCall hIdle hNull
    rcases hCall.plainExcused_or hs with hEx | hU
    · exact hEx
    · exact absurd hNull (hU.2 hIdle)

/-- One linked node is not found; with a second one behind it, it is.  The call
that starts on the new queue returns `NULL` with nothing undelivered. -/
theorem plainDequeue_holds_back_one :
    let m := plainMpscMachine fun _ => none
    let s := (m.exec m.start
      [.reset 0 7, .exchange 0, .link 0]).get (by decide)
    let t := (m.exec s [.reset 0 8, .exchange 0, .link 0]).get (by decide)
    let u := m.start.plainDequeueStep
    (s.plainCall 5).map MpscState.result = some none ∧
      (t.plainCall 5).map MpscState.result = some (some (.node 7)) ∧
      ∃ v ∈ [m.start, u, u.plainDequeueStep],
        v.undelivered.length ≤ 1 ∨ v.MidInsert := by
  intro m s t u
  have hs : m.Reachable s :=
    Machine.reachable_of_exec (Option.some_get _).symm
  have ht : m.Reachable t :=
    hs.trans (Machine.reaches_of_exec (Option.some_get _).symm)
  have hMid : ∀ u : MpscState, (∀ p, u.producer p = .idle) → ¬ u.MidInsert := by
    rintro u hIdle ⟨p, node, prevTail, hpc⟩
    rw [hIdle p] at hpc
    cases hpc
  have hIdle : (∀ p, s.producer p = .idle) ∧ ∀ p, t.producer p = .idle :=
    ⟨fun p => by cases p <;> rfl, fun p => by cases p <;> rfl⟩
  have hCall : InCall m m.start [m.start, u, u.plainDequeueStep]
      u.plainDequeueStep :=
    .step (.begin rfl rfl) (by decide) (e := .dequeue) rfl
  exact ⟨(plainDequeue_holds_back _ hs).1 rfl (hMid s hIdle.1),
    (plainDequeue_holds_back _ ht).1 rfl (hMid t hIdle.2),
    (plainDequeue_holds_back _ Machine.Reachable.initial).2 _ _ hCall rfl rfl⟩

/-! ## Progress -/

/-- Operations left in a call that will succeed.  A consumer about to find
that `tail` has moved on ranks above a fresh call. -/
def MpscState.plainRank (s : MpscState) : Nat :=
  match s.consumer with
  | .loadTail _ => 7
  | .idle => 6
  | .loadNext _ => 5
  | .skipStub _ => 4
  | .reloadNext _ => 3
  | .pop _ _ => 2
  | _ => 0

/-- With two nodes to deliver and no link outstanding, each operation of the
consumer brings the next pop nearer, or is it. -/
theorem PlainInv.step_rank {s : MpscState} {chain : List NodePtr}
    (h : PlainInv s chain) (hMid : ¬ s.MidInsert)
    (hTwo : 2 ≤ s.undelivered.length) :
    (s.plainDequeueStep.returned = s.returned ∧
      s.plainDequeueStep.plainRank < s.plainRank) ∨
    ∃ head, s.plainDequeueStep.returned = s.returned ++ [head] := by
  rcases s.plainDequeueStep_cases with ⟨head, next, _, hPop⟩ | ⟨hNot, hSame, _⟩
  · right
    exact ⟨head, by rw [hPop]; rfl⟩
  · left
    refine ⟨hSame, ?_⟩
    have hArm : ∀ head prev, s.consumer ≠ .rearmLink head prev := by
      intro head prev hpc
      exact h.noRearm (hpc ▸ trivial)
    have hLinked : ∃ next, s.q.next s.q.head = some next := by
      cases hNext : s.q.next s.q.head with
      | none =>
          rcases h.plainExcused_of_next hArm hNext with hShort | hBad
          · omega
          · exact absurd hBad hMid
      | some next => exact ⟨next, rfl⟩
    obtain ⟨next, hNext⟩ := hLinked
    have hC := h.consumer
    cases hpc : s.consumer with
    | idle =>
        simp [MpscState.plainDequeueStep, MpscState.dequeueStep,
          MpscState.plainRank, hpc]
    | loadNext head =>
        obtain rfl : s.q.head = head := by simpa [ConsumerInv, hpc] using hC
        by_cases hStub : s.q.head = .stub
        · rw [hStub] at hpc hNext
          simp [MpscState.plainDequeueStep, MpscState.dequeueStep,
            MpscState.plainRank, hpc, hNext]
        · simp [MpscState.plainDequeueStep, MpscState.dequeueStep,
            MpscState.plainRank, hpc, hNext, hStub, MpscState.testNext]
    | skipStub next =>
        simp [MpscState.plainDequeueStep, MpscState.dequeueStep,
          MpscState.plainRank, hpc]
    | reloadNext head =>
        have hHead : s.q.head = head ∧ head ≠ .stub := by
          simpa [ConsumerInv, hpc] using hC
        obtain ⟨rfl, -⟩ := hHead
        simp [MpscState.plainDequeueStep, MpscState.dequeueStep,
          MpscState.plainRank, hpc, hNext, MpscState.testNext]
    | pop head next => exact absurd hpc (hNot head next)
    | loadTail head =>
        rw [MpscState.plainDequeueStep_loadTail hpc]
        simp [MpscState.plainRank, MpscState.returnNull, hpc]
    | rearmReset head => exact absurd (hpc ▸ trivial) h.noRearm
    | rearmExchange head => exact absurd (hpc ▸ trivial) h.noRearm
    | rearmLink head prev => exact absurd (hpc ▸ trivial) h.noRearm
    | rearmReload head => exact absurd (hpc ▸ trivial) h.noRearm

end MioBench.Sync
