import MioBench.Lib.Transition
import MioBench.Lib.Adjacent
import Mathlib.Logic.Function.Basic

/-!
# The intrusive MPSC queue

`mpsc_init`, `mpsc_enqueue` and `mpsc_dequeue` of the RDMA variants, with every
C11 atomic operation one step of a sequentially consistent interleaving.  A
step performs one atomic operation and the thread-local branching up to the
next one; a `return` therefore belongs to the operation before it.

The consumer itself calls `mpsc_enqueue(q, &q->stub)`, so the three operations
of an enqueue are stated once, on the memory, and used by both sides.
-/

namespace MioBench.Sync

open MioBench.Lib

/-- `struct mpsc_node *`, less `NULL`: the embedded stub or a producer node. -/
inductive NodePtr
  | stub
  | node (id : Nat)
  deriving DecidableEq, Repr

/-- `struct mpsc_queue`, with the `next` field of every node.  `NULL` is
`none`. -/
structure MpscQueue where
  head : NodePtr
  tail : NodePtr
  next : NodePtr → Option NodePtr

namespace MpscQueue

/-- `mpsc_init`: the nodes' own memory is whatever it was. -/
def mpscInit (next : NodePtr → Option NodePtr) : MpscQueue where
  head := .stub
  tail := .stub
  next := Function.update next .stub none

/-- `atomic_store(&node->next, NULL)`. -/
def resetNext (q : MpscQueue) (node : NodePtr) : MpscQueue :=
  { q with next := Function.update q.next node none }

/-- `atomic_exchange(&q->tail, node)`; the old tail is `q.tail`. -/
def exchangeTail (q : MpscQueue) (node : NodePtr) : MpscQueue :=
  { q with tail := node }

/-- `atomic_store(&prev_tail->next, node)`. -/
def linkNext (q : MpscQueue) (prevTail node : NodePtr) : MpscQueue :=
  { q with next := Function.update q.next prevTail (some node) }

/-- `atomic_store(&q->head, next)`. -/
def storeHead (q : MpscQueue) (next : NodePtr) : MpscQueue :=
  { q with head := next }

end MpscQueue

/-- Where a producer stands in `mpsc_enqueue`: the operation it does next. -/
inductive EnqueuePc
  | idle
  | exchange (node : Nat)
  | link (node : Nat) (prevTail : NodePtr)
  deriving DecidableEq, Repr

/-- The node of the enqueue under way. -/
def EnqueuePc.node? : EnqueuePc → Option Nat
  | idle => none
  | exchange node => some node
  | link node _ => some node

/-- Where the consumer stands in `mpsc_dequeue`: the operation it does next,
with the locals it still needs. -/
inductive DequeuePc
  | idle
  | loadNext (head : NodePtr)
  | skipStub (next : NodePtr)
  | reloadNext (head : NodePtr)
  | pop (head next : NodePtr)
  | loadTail (head : NodePtr)
  | rearmReset (head : NodePtr)
  | rearmExchange (head : NodePtr)
  | rearmLink (head prevTail : NodePtr)
  | rearmReload (head : NodePtr)
  deriving DecidableEq, Repr

/-- The queue with its producers and its consumer.  The last three fields are
history: the producer nodes in the order of their tail exchanges, what the
calls of `mpsc_dequeue` have returned so far, and which nodes are between the
start of their enqueue and their return. -/
structure MpscState where
  q : MpscQueue
  producer : Nat → EnqueuePc
  consumer : DequeuePc
  result : Option NodePtr
  order : List Nat
  returned : List NodePtr
  held : Nat → Bool

namespace MpscState

def init (next : NodePtr → Option NodePtr) : MpscState where
  q := MpscQueue.mpscInit next
  producer := fun _ => .idle
  consumer := .idle
  result := none
  order := []
  returned := []
  held := fun _ => false

/-! ## `mpsc_enqueue` by producer `p` -/

def enqueueReset (s : MpscState) (p node : Nat) : Option MpscState :=
  match s.producer p with
  | .idle => some
      { s with
        q := s.q.resetNext (.node node)
        producer := Function.update s.producer p (.exchange node)
        held := Function.update s.held node true }
  | _ => none

def enqueueExchange (s : MpscState) (p : Nat) : Option MpscState :=
  match s.producer p with
  | .exchange node => some
      { s with
        q := s.q.exchangeTail (.node node)
        producer := Function.update s.producer p (.link node s.q.tail)
        order := s.order ++ [node] }
  | _ => none

def enqueueLink (s : MpscState) (p : Nat) : Option MpscState :=
  match s.producer p with
  | .link node prevTail => some
      { s with
        q := s.q.linkNext prevTail (.node node)
        producer := Function.update s.producer p .idle }
  | _ => none

variable {s s' : MpscState} {p node : Nat}

theorem enqueueReset_some (h : s.enqueueReset p node = some s') :
    s.producer p = .idle ∧
      s' = { s with
        q := s.q.resetNext (.node node)
        producer := Function.update s.producer p (.exchange node)
        held := Function.update s.held node true } := by
  unfold enqueueReset at h
  split at h
  case h_1 hIdle => exact ⟨hIdle, (Option.some.inj h).symm⟩
  case h_2 => cases h

theorem enqueueExchange_some (h : s.enqueueExchange p = some s') :
    ∃ node, s.producer p = .exchange node ∧
      s' = { s with
        q := s.q.exchangeTail (.node node)
        producer := Function.update s.producer p (.link node s.q.tail)
        order := s.order ++ [node] } := by
  unfold enqueueExchange at h
  split at h
  case h_1 node hpc => exact ⟨node, hpc, (Option.some.inj h).symm⟩
  case h_2 => cases h

theorem enqueueLink_some (h : s.enqueueLink p = some s') :
    ∃ node prevTail, s.producer p = .link node prevTail ∧
      s' = { s with
        q := s.q.linkNext prevTail (.node node)
        producer := Function.update s.producer p .idle } := by
  unfold enqueueLink at h
  split at h
  case h_1 node prevTail hpc =>
    exact ⟨node, prevTail, hpc, (Option.some.inj h).symm⟩
  case h_2 => cases h

/-! ## `mpsc_dequeue` -/

/-- `return NULL`. -/
def returnNull (s : MpscState) : MpscState :=
  { s with consumer := .idle, result := none }

/-- `if (next != NULL)` and the load of `tail` it guards, after either load of
`head->next`. -/
def testNext (s : MpscState) (head : NodePtr) : Option NodePtr → MpscState
  | some next => { s with consumer := .pop head next }
  | none => { s with consumer := .loadTail head }

/-- A popped producer node may be enqueued again. -/
def release (held : Nat → Bool) : NodePtr → Nat → Bool
  | .stub => held
  | .node id => Function.update held id false

/-- The store of `head` and `return head`. -/
def returnHead (s : MpscState) (head next : NodePtr) : MpscState :=
  { s with
    q := s.q.storeHead next
    consumer := .idle
    result := some head
    returned := s.returned ++ [head]
    held := release s.held head }

/-- The next atomic operation of the consumer; from `idle` the first one of a
new call. -/
def dequeueStep (s : MpscState) : MpscState :=
  match s.consumer with
  | .idle => { s with consumer := .loadNext s.q.head }
  | .loadNext head =>
      if head = .stub then
        match s.q.next head with
        | none => s.returnNull
        | some next => { s with consumer := .skipStub next }
      else s.testNext head (s.q.next head)
  | .skipStub next =>
      { s with q := s.q.storeHead next, consumer := .reloadNext next }
  | .reloadNext head => s.testNext head (s.q.next head)
  | .pop head next => s.returnHead head next
  | .loadTail head =>
      if head = s.q.tail then { s with consumer := .rearmReset head }
      else s.returnNull
  | .rearmReset head =>
      { s with q := s.q.resetNext .stub, consumer := .rearmExchange head }
  | .rearmExchange head =>
      { s with
        q := s.q.exchangeTail .stub
        consumer := .rearmLink head s.q.tail }
  | .rearmLink head prevTail =>
      { s with
        q := s.q.linkNext prevTail .stub
        consumer := .rearmReload head }
  | .rearmReload head =>
      match s.q.next head with
      | some next => { s with consumer := .pop head next }
      | none => s.returnNull

end MpscState

/-- The atomic operations, each naming who performs it. -/
inductive MpscEvent
  | reset (p node : Nat)
  | exchange (p : Nat)
  | link (p : Nat)
  | dequeue
  deriving DecidableEq, Repr

/-- The code alone: nothing keeps a producer from enqueuing a node twice. -/
def mpscStep (s : MpscState) : MpscEvent → Option MpscState
  | .reset p node => s.enqueueReset p node
  | .exchange p => s.enqueueExchange p
  | .link p => s.enqueueLink p
  | .dequeue => some s.dequeueStep

/-- The queue used as intended: a node is not enqueued again before it has
been returned. -/
def mpscMachine (next : NodePtr → Option NodePtr) :
    Machine MpscState MpscEvent where
  start := MpscState.init next
  next s e :=
    match e with
    | .reset p node => if s.held node then none else s.enqueueReset p node
    | e => mpscStep s e

end MioBench.Sync
