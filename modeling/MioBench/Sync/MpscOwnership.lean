import MioBench.Sync.MpscInvariant
import MioBench.Sync.MpscProgress

/-!
# Who owns a dequeued node

A node returned by `mpsc_dequeue` is the caller's until it is enqueued again:
the queue has no way to it, and no operation of the queue reads or writes its
`next` field.  The second half is stated as a frame: whatever the caller, or
whoever it frees the node to, stores in that field can be stored before or
after the other operations.
-/

namespace MioBench.Sync

open MioBench.Lib

namespace MpscState

/-- The node whose `next` field an operation reads or writes. -/
def touched (s : MpscState) : MpscEvent → Option NodePtr
  | .reset _ node => some (.node node)
  | .exchange _ => none
  | .link p =>
      match s.producer p with
      | .link _ prevTail => some prevTail
      | _ => none
  | .dequeue =>
      match s.consumer with
      | .loadNext head => some head
      | .reloadNext head => some head
      | .rearmReset _ => some .stub
      | .rearmLink _ prevTail => some prevTail
      | .rearmReload head => some head
      | _ => none

/-- Something else is stored in `x->next`. -/
def scribble (s : MpscState) (x : NodePtr) (v : Option NodePtr) : MpscState :=
  { s with q := { s.q with next := Function.update s.q.next x v } }

@[simp] theorem scribble_producer (s : MpscState) (x : NodePtr)
    (v : Option NodePtr) : (s.scribble x v).producer = s.producer := rfl

theorem scribble_self (s : MpscState) (x : NodePtr) :
    s.scribble x (s.q.next x) = s := by
  simp [scribble]

end MpscState

/-- `x` is out of reach of the queue. -/
structure Detached (s : MpscState) (x : NodePtr) : Prop where
  notHead : s.q.head ≠ x
  notTail : s.q.tail ≠ x
  notPrevTail : ∀ p node, s.producer p ≠ .link node x
  notRearmed : ∀ head, s.consumer ≠ .rearmLink head x
  unreachable :
    ¬ Relation.ReflTransGen (fun a b => s.q.next a = some b) s.q.head x

/-! ## Frame -/

theorem enqueueReset_scribble {s : MpscState} {p node : Nat} {x : NodePtr}
    (hNe : x ≠ .node node) (v : Option NodePtr) :
    (s.scribble x v).enqueueReset p node =
      (s.enqueueReset p node).map (·.scribble x v) := by
  unfold MpscState.enqueueReset
  rw [MpscState.scribble_producer]
  cases s.producer p with
  | idle =>
      simp [MpscState.scribble, MpscQueue.resetNext, Function.update_comm hNe]
  | exchange node' => rfl
  | link node' prevTail => rfl

theorem enqueueExchange_scribble (s : MpscState) (p : Nat) (x : NodePtr)
    (v : Option NodePtr) :
    (s.scribble x v).enqueueExchange p =
      (s.enqueueExchange p).map (·.scribble x v) := by
  unfold MpscState.enqueueExchange
  rw [MpscState.scribble_producer]
  cases s.producer p <;> rfl

theorem enqueueLink_scribble {s : MpscState} {p : Nat} {x : NodePtr}
    (hOther : s.touched (.link p) ≠ some x) (v : Option NodePtr) :
    (s.scribble x v).enqueueLink p =
      (s.enqueueLink p).map (·.scribble x v) := by
  unfold MpscState.enqueueLink
  unfold MpscState.touched at hOther
  rw [MpscState.scribble_producer]
  cases hpc : s.producer p with
  | idle => rfl
  | exchange node => rfl
  | link node prevTail =>
      have hNe : x ≠ prevTail := by
        rintro rfl
        simp [hpc] at hOther
      simp [MpscState.scribble, MpscQueue.linkNext, Function.update_comm hNe]

/-- A field other than `x->next` holds what it held. -/
theorem scribble_next {s : MpscState} {x y : NodePtr} (hNe : y ≠ x)
    (v : Option NodePtr) : (s.scribble x v).q.next y = s.q.next y :=
  Function.update_of_ne hNe _ _

theorem testNext_scribble (s : MpscState) (x head : NodePtr)
    (v next : Option NodePtr) :
    (s.scribble x v).testNext head next =
      (s.testNext head next).scribble x v := by
  cases next <;> rfl

theorem dequeueStep_scribble {s : MpscState} {x : NodePtr}
    (hOther : s.touched .dequeue ≠ some x) (v : Option NodePtr) :
    (s.scribble x v).dequeueStep = s.dequeueStep.scribble x v := by
  have hpc' : (s.scribble x v).consumer = s.consumer := rfl
  unfold MpscState.touched at hOther
  unfold MpscState.dequeueStep
  rw [hpc']
  cases hpc : s.consumer with
  | idle => rfl
  | loadNext head =>
      have hNe : head ≠ x := by
        rintro rfl
        simp [hpc] at hOther
      dsimp only
      rw [scribble_next hNe]
      by_cases hStub : head = .stub
      · rw [if_pos hStub, if_pos hStub]
        cases s.q.next head <;> rfl
      · rw [if_neg hStub, if_neg hStub, testNext_scribble]
  | skipStub next => rfl
  | reloadNext head =>
      have hNe : head ≠ x := by
        rintro rfl
        simp [hpc] at hOther
      dsimp only
      rw [scribble_next hNe, testNext_scribble]
  | pop head next => rfl
  | loadTail head =>
      dsimp only
      by_cases hTail : head = s.q.tail
      · rw [if_pos hTail]
        exact if_pos hTail
      · rw [if_neg hTail]
        exact if_neg hTail
  | rearmReset head =>
      have hNe : x ≠ .stub := by
        rintro rfl
        simp [hpc] at hOther
      simp [MpscState.scribble, MpscQueue.resetNext, Function.update_comm hNe]
  | rearmExchange head => rfl
  | rearmLink head prevTail =>
      have hNe : x ≠ prevTail := by
        rintro rfl
        simp [hpc] at hOther
      simp [MpscState.scribble, MpscQueue.linkNext, Function.update_comm hNe]
  | rearmReload head =>
      have hNe : head ≠ x := by
        rintro rfl
        simp [hpc] at hOther
      dsimp only
      rw [scribble_next hNe]
      cases s.q.next head <;> rfl

/-- An operation that does not touch `x` neither notices nor undoes what is
stored in `x->next`. -/
theorem mpscStep_scribble {s : MpscState} {e : MpscEvent} {x : NodePtr}
    (hOther : s.touched e ≠ some x) (v : Option NodePtr) :
    mpscStep (s.scribble x v) e = (mpscStep s e).map (·.scribble x v) := by
  cases e with
  | reset p node =>
      refine enqueueReset_scribble ?_ v
      rintro rfl
      exact hOther rfl
  | exchange p => exact enqueueExchange_scribble s p x v
  | link p => exact enqueueLink_scribble hOther v
  | dequeue => exact congrArg some (dequeueStep_scribble hOther v)

/-- In particular it leaves `x->next` alone. -/
theorem mpscStep_next {s s' : MpscState} {e : MpscEvent} {x : NodePtr}
    (hOther : s.touched e ≠ some x) (hStep : mpscStep s e = some s') :
    s'.q.next x = s.q.next x := by
  have hFrame := mpscStep_scribble hOther (s.q.next x)
  rw [MpscState.scribble_self, hStep] at hFrame
  have hSame : s' = s'.scribble x (s.q.next x) := by simpa using hFrame
  rw [hSame]
  exact Function.update_self _ _ _

/-! ## The invariant says what is out of reach -/

namespace ChainInv

variable {s : MpscState} {chain : List NodePtr}

/-- What is not in the chain is out of reach. -/
theorem detached_of_notMem (h : ChainInv s chain) {x : NodePtr}
    (hOut : x ∉ chain) : Detached s x := by
  refine ⟨?_, ?_, ?_, ?_, ?_⟩
  · intro hHead
    exact hOut (hHead ▸ h.head_mem)
  · intro hTail
    exact hOut (hTail ▸ h.tail_mem)
  · intro p node' hpc
    exact hOut (h.owed _ _ (Or.inl ⟨p, node', hpc, rfl⟩)).1.mem_left
  · intro head hpc
    exact hOut (h.owed _ _ (Or.inr ⟨head, hpc, rfl⟩)).1.mem_left
  · intro hReach
    exact hOut (h.mem_of_reaches hReach)

/-- A node that is not held is out of reach. -/
theorem detached (h : ChainInv s chain) {node : Nat}
    (hFree : s.held node = false) : Detached s (.node node) :=
  h.detached_of_notMem (h.not_mem_of_free hFree)

/-- What the consumer loads from is its head. -/
theorem touched_dequeue (h : ChainInv s chain) {x : NodePtr}
    (hTouched : s.touched .dequeue = some x) : x ∈ chain ∨ x = .stub := by
  have hConsumer := h.consumer
  unfold ConsumerInv at hConsumer
  unfold MpscState.touched at hTouched
  cases hpc : s.consumer with
  | loadNext head =>
      rw [hpc] at hConsumer
      obtain rfl : head = x := by simpa [hpc] using hTouched
      exact Or.inl (hConsumer ▸ h.head_mem)
  | reloadNext head =>
      rw [hpc] at hConsumer
      obtain rfl : head = x := by simpa [hpc] using hTouched
      exact Or.inl (hConsumer.1 ▸ h.head_mem)
  | rearmReset head =>
      right
      simpa [hpc, eq_comm] using hTouched
  | rearmLink head prevTail =>
      obtain rfl : prevTail = x := by simpa [hpc] using hTouched
      exact Or.inl (h.owed _ _ (Or.inr ⟨head, hpc, rfl⟩)).1.mem_left
  | rearmReload head =>
      rw [hpc] at hConsumer
      obtain rfl : head = x := by simpa [hpc] using hTouched
      exact Or.inl (hConsumer.1 ▸ h.head_mem)
  | idle => simp [hpc] at hTouched
  | skipStub next => simp [hpc] at hTouched
  | pop head next => simp [hpc] at hTouched
  | loadTail head => simp [hpc] at hTouched
  | rearmExchange head => simp [hpc] at hTouched

/-- Nobody but its own next enqueue touches a node that is not held. -/
theorem untouched (h : ChainInv s chain) {node : Nat}
    (hFree : s.held node = false) {e : MpscEvent}
    (hOthers : ∀ p, e ≠ .reset p node) :
    s.touched e ≠ some (.node node) := by
  have hOut := h.not_mem_of_free hFree
  intro hTouched
  cases e with
  | reset p node' =>
      obtain rfl : node' = node := by simpa [MpscState.touched] using hTouched
      exact hOthers p rfl
  | exchange p => cases hTouched
  | link p =>
      unfold MpscState.touched at hTouched
      cases hpc : s.producer p with
      | idle => simp [hpc] at hTouched
      | exchange node' => simp [hpc] at hTouched
      | link node' prevTail =>
          obtain rfl : prevTail = .node node := by simpa [hpc] using hTouched
          exact hOut (h.owed _ _ (Or.inl ⟨p, node', hpc, rfl⟩)).1.mem_left
  | dequeue =>
      rcases h.touched_dequeue hTouched with hIn | hStub
      · exact hOut hIn
      · cases hStub

end ChainInv

/-! ## From the return to the next enqueue -/

/-- Only its own enqueue makes a node held again. -/
theorem mpscStep_held {s s' : MpscState} {e : MpscEvent} {node : Nat}
    (hFree : s.held node = false) (hOthers : ∀ p, e ≠ .reset p node)
    (hStep : mpscStep s e = some s') : s'.held node = false := by
  cases e with
  | reset p node' =>
      have hNe : node ≠ node' := by
        rintro rfl
        exact hOthers p rfl
      obtain ⟨-, rfl⟩ := MpscState.enqueueReset_some hStep
      exact (Function.update_of_ne hNe _ _).trans hFree
  | exchange p =>
      obtain ⟨_, -, rfl⟩ := MpscState.enqueueExchange_some hStep
      exact hFree
  | link p =>
      obtain ⟨_, _, -, rfl⟩ := MpscState.enqueueLink_some hStep
      exact hFree
  | dequeue =>
      obtain rfl := Option.some.inj hStep
      rcases s.dequeueStep_cases with ⟨head, next, _, hPop⟩ | ⟨_, _, hHeld, _⟩
      · rw [hPop]
        cases head with
        | stub => exact hFree
        | node id =>
            show Function.update s.held id false node = false
            by_cases hId : node = id
            · rw [hId, Function.update_self]
            · rw [Function.update_of_ne hId, hFree]
      · rw [hHeld]
        exact hFree

/-- A call that returns a node releases it. -/
theorem dequeueStep_releases {s : MpscState} {node : Nat}
    (hReturned : s.dequeueStep.returned = s.returned ++ [.node node]) :
    s.dequeueStep.held node = false := by
  rcases s.dequeueStep_cases with ⟨head, next, _, hPop⟩ | ⟨_, hSame, _⟩
  · rw [hPop] at hReturned ⊢
    obtain rfl : head = .node node := by
      simpa [MpscState.returnHead] using hReturned
    exact Function.update_self _ _ _
  · rw [hSame] at hReturned
    simp at hReturned

/-- A node in the hands of the caller: nothing in the queue leads to it. -/
structure WithCaller (next : NodePtr → Option NodePtr) (node : Nat)
    (s : MpscState) : Prop where
  reachable : (mpscMachine next).Reachable s
  free : s.held node = false

namespace WithCaller

variable {next : NodePtr → Option NodePtr} {node : Nat} {s s' : MpscState}
  {e : MpscEvent}

theorem step (h : WithCaller next node s) (hOthers : ∀ p, e ≠ .reset p node)
    (hStep : (mpscMachine next).next s e = some s') :
    WithCaller next node s' :=
  ⟨h.reachable.next hStep,
    mpscStep_held h.free hOthers (mpscMachine_next hStep).1⟩

theorem untouched (h : WithCaller next node s)
    (hOthers : ∀ p, e ≠ .reset p node) : s.touched e ≠ some (.node node) := by
  obtain ⟨chain, hChain⟩ := mpscMachine_chainInv h.reachable
  exact hChain.untouched h.free hOthers

/-- The other operations on a queue whose caller has written into the node. -/
theorem next_scribble (h : WithCaller next node s)
    (hOthers : ∀ p, e ≠ .reset p node) (v : Option NodePtr) :
    (mpscMachine next).next (s.scribble (.node node) v) e =
      ((mpscMachine next).next s e).map (·.scribble (.node node) v) := by
  have hFrame := mpscStep_scribble (h.untouched hOthers) v
  cases e with
  | reset p node' =>
      show (if s.held node' then none else
          (s.scribble (.node node) v).enqueueReset p node') =
        (if s.held node' then none else s.enqueueReset p node').map _
      by_cases hHeld : s.held node' = true
      · rw [if_pos hHeld, if_pos hHeld]
        rfl
      · rw [if_neg hHeld, if_neg hHeld]
        exact hFrame
  | exchange p => exact hFrame
  | link p => exact hFrame
  | dequeue => exact hFrame

/-- The next enqueue of the node forgets what the caller has written. -/
theorem reset_scribble (h : WithCaller next node s) {p : Nat}
    (hIdle : s.producer p = .idle) (v : Option NodePtr) :
    ∃ s', (mpscMachine next).next s (.reset p node) = some s' ∧
      (mpscMachine next).next (s.scribble (.node node) v) (.reset p node) =
        some s' := by
  refine ⟨{ s with
      q := s.q.resetNext (.node node)
      producer := Function.update s.producer p (.exchange node)
      held := Function.update s.held node true }, ?_, ?_⟩
  · show (if s.held node then none else s.enqueueReset p node) = _
    rw [if_neg (by simp [h.free]), MpscState.enqueueReset, hIdle]
  · show (if s.held node then none else
      (s.scribble (.node node) v).enqueueReset p node) = _
    rw [if_neg (by simp [h.free]), MpscState.enqueueReset,
      MpscState.scribble_producer, hIdle]
    simp [MpscState.scribble, MpscQueue.resetNext]

end WithCaller

/-- From the moment `mpsc_dequeue` returns a node until the node is enqueued
again, whatever the producers and the consumer do meanwhile: it is out of
reach, no operation reads or writes it, and its own field is as it was.  What
the caller stores in that field, or whoever gets the memory after a `free`,
makes no difference to any later run; and the next enqueue of the node starts
from a well-formed queue, whatever the field holds by then. -/
theorem dequeued_belongs_to_caller (next : NodePtr → Option NodePtr)
    {s₀ s₁ s : MpscState} {node : Nat} {es : List MpscEvent}
    (hReach : (mpscMachine next).Reachable s₀)
    (hCall : (mpscMachine next).next s₀ .dequeue = some s₁)
    (hReturned : s₁.returned = s₀.returned ++ [.node node])
    (hOthers : ∀ e ∈ es, ∀ p, e ≠ .reset p node)
    (hRun : (mpscMachine next).exec s₁ es = some s) :
    Detached s (.node node) ∧
    (∀ e, (∀ p, e ≠ .reset p node) → s.touched e ≠ some (.node node)) ∧
    s.q.next (.node node) = s₁.q.next (.node node) ∧
    (∀ v es', (∀ e ∈ es', ∀ p, e ≠ .reset p node) →
      (mpscMachine next).exec (s.scribble (.node node) v) es' =
        ((mpscMachine next).exec s es').map (·.scribble (.node node) v)) ∧
    (∀ v p, s.producer p = .idle →
      ∃ s' chain, (mpscMachine next).next (s.scribble (.node node) v)
          (.reset p node) = some s' ∧
        (mpscMachine next).Reachable s' ∧ ChainInv s' chain) := by
  obtain rfl : s₀.dequeueStep = s₁ := Option.some.inj hCall
  have hStart : WithCaller next node s₀.dequeueStep :=
    ⟨hReach.next hCall, dequeueStep_releases hReturned⟩
  have hKeep : ∀ s e s',
      (WithCaller next node s ∧ s.q.next (.node node) =
        s₀.dequeueStep.q.next (.node node)) →
      (∀ p, e ≠ .reset p node) → (mpscMachine next).next s e = some s' →
      (WithCaller next node s' ∧ s'.q.next (.node node) =
        s₀.dequeueStep.q.next (.node node)) := by
    rintro s e s' ⟨h, hField⟩ hOther hStep
    exact ⟨h.step hOther hStep,
      (mpscStep_next (h.untouched hOther) (mpscMachine_next hStep).1).trans
        hField⟩
  obtain ⟨h, hField⟩ :=
    Machine.exec_invariant hKeep ⟨hStart, rfl⟩ hOthers hRun
  obtain ⟨chain, hChain⟩ := mpscMachine_chainInv h.reachable
  refine ⟨hChain.detached h.free, fun e hOther => h.untouched hOther, hField,
    fun v es' hOthers' => ?_, fun v p hIdle => ?_⟩
  · exact Machine.exec_frame (P := WithCaller next node)
      (fun s e s' h hOther hStep => h.step hOther hStep)
      (fun s e h hOther => h.next_scribble hOther v) h hOthers'
  · obtain ⟨s', hStep, hScribbled⟩ := h.reset_scribble hIdle v
    have hReach' := h.reachable.next hStep
    obtain ⟨chain', hChain'⟩ := mpscMachine_chainInv hReach'
    exact ⟨s', chain', hScribbled, hReach', hChain'⟩

/-- Node 7 is popped behind a re-armed stub whose producer is already at work
on the next node. -/
theorem dequeued_belongs_to_caller_one :
    let m := mpscMachine fun _ => none
    let s := (m.exec m.start ([.reset 0 7, .exchange 0, .link 0] ++
      List.replicate 10 .dequeue ++ [.reset 1 8, .exchange 1])).get (by decide)
    Detached s (.node 7) ∧ s.touched (.link 1) ≠ some (.node 7) := by
  intro m s
  let s₀ := (m.exec m.start ([.reset 0 7, .exchange 0, .link 0] ++
    List.replicate 9 .dequeue)).get (by decide)
  have hReach : m.Reachable s₀ :=
    Machine.reachable_of_exec (Option.some_get _).symm
  have hOwned := @dequeued_belongs_to_caller (fun _ => none) s₀
    s₀.dequeueStep s 7 [.reset 1 8, .exchange 1] hReach rfl (by decide)
    (by simp) rfl
  exact ⟨hOwned.1, hOwned.2.1 (.link 1) (by simp)⟩

end MioBench.Sync
