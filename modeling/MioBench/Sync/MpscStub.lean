import Mathlib.Data.List.Nodup
import MioBench.Sync.MpscOwnership

/-!
# The stub is in the queue once

When the head looks like the last node, `mpsc_dequeue` enqueues the stub behind
it.  By then the tail it has compared the head with may be out of date, and the
stub may have been in the middle of the list for a while before.  The chain
invariant says why the stub is never in the list when it is enqueued: on the
way to the comparison the consumer has passed every node in front of the head.
-/

namespace MioBench.Sync

open MioBench.Lib

/-- The nodes on a way from the head, along the links that are stored and those
that some enqueue is about to store. -/
def MpscState.Walk (s : MpscState) (l : List NodePtr) : Prop :=
  Lib.Walk s.q.next s.Pending s.q.head l

/-- Nothing of the queue is at the stub, and the head is the only node up to
the tail that `mpsc_dequeue` has seen, which was `head`. -/
structure StubOut (s : MpscState) (head : NodePtr) : Prop where
  detached : Detached s .stub
  absent : ∀ l, s.Walk l → .stub ∉ l
  only : ∀ l, s.Walk l → l.getLast? = some head → l = [head]

namespace ChainInv

variable {s : MpscState} {chain : List NodePtr}

theorem nodup_of_walk (h : ChainInv s chain) {l : List NodePtr}
    (hWalk : s.Walk l) : l.Nodup :=
  h.nodup.sublist (h.isPrefix_of_walk hWalk).sublist

/-- No way from the head comes back to it. -/
theorem walk_to_head (h : ChainInv s chain) {l : List NodePtr}
    (hWalk : s.Walk l) (hLast : l.getLast? = some s.q.head) :
    l = [s.q.head] := by
  have hNodup := h.nodup_of_walk hWalk
  have hStart := hWalk.starts
  cases l with
  | nil => cases hStart
  | cons x l =>
      obtain rfl : x = s.q.head := by simpa using hStart
      cases l with
      | nil => rfl
      | cons y l =>
          rw [List.getLast?_cons_cons] at hLast
          exact absurd (List.mem_of_getLast? hLast) (List.nodup_cons.mp hNodup).1

theorem stubOut (h : ChainInv s chain) (hOut : NodePtr.stub ∉ chain) :
    StubOut s s.q.head where
  detached := h.detached_of_notMem hOut
  absent := fun _ hWalk hMem => hOut ((h.isPrefix_of_walk hWalk).subset hMem)
  only := fun _ hWalk hLast => h.walk_to_head hWalk hLast

/-- When the head is the tail as well, there is no way past it. -/
theorem walk_eq_singleton (h : ChainInv s chain) (hOnly : s.q.head = s.q.tail)
    {l : List NodePtr} (hWalk : s.Walk l) : l = [s.q.head] := by
  have hStart := h.isPrefix_of_walk hWalk
  rw [h.eq_singleton hOnly] at hStart
  rcases List.prefix_cons_iff.mp hStart with rfl | ⟨rest, rfl, hRest⟩
  · cases hWalk.starts
  · rw [List.prefix_nil.mp hRest]

/-- Clearing the stub's field leaves every way as it is. -/
theorem walk_rearmReset (h : ChainInv s chain) {head : NodePtr}
    (hpc : s.consumer = .rearmReset head) (l : List NodePtr) :
    s.dequeueStep.Walk l ↔ s.Walk l :=
  (h.rearmReset hpc).walk_iff.trans h.walk_iff.symm

/-- What the consumer knows at the call of `mpsc_enqueue(q, &q->stub)`, and
still at its exchange. -/
theorem stubOut_of_rearm (h : ChainInv s chain) {head : NodePtr}
    (hpc : s.consumer = .rearmReset head ∨ s.consumer = .rearmExchange head) :
    StubOut s head := by
  have hC := h.consumer
  unfold ConsumerInv at hC
  rcases hpc with hpc | hpc
  · rw [hpc] at hC
    obtain ⟨rfl, -, hOut⟩ := hC
    exact h.stubOut hOut
  · rw [hpc] at hC
    obtain ⟨rfl, -, hOut, -⟩ := hC
    exact h.stubOut hOut

/-- The comparison that leads to the call finds the head alone. -/
theorem walk_loadTail (h : ChainInv s chain) {head : NodePtr}
    (hpc : s.consumer = .loadTail head)
    (hCall : s.dequeueStep.consumer = .rearmReset head) :
    s.q.tail = head ∧ ∀ l, s.Walk l → l = [head] := by
  have hC := h.consumer
  unfold ConsumerInv at hC
  rw [hpc] at hC
  obtain ⟨rfl, -⟩ := hC
  simp only [MpscState.dequeueStep, hpc] at hCall
  split at hCall
  · rename_i hOnly
    exact ⟨hOnly.symm, fun _ hWalk => h.walk_eq_singleton hOnly hWalk⟩
  · cases hCall

end ChainInv

/-- **The stub is never inserted twice**: in every reachable state the ways
from the head pass the stub at most once, and one of them ends at the tail.
When `mpsc_dequeue` finds that the tail is the head, there is nothing but the
head on any way; from its call of `mpsc_enqueue(q, &q->stub)` up to the exchange
the stub is out of reach and the head is alone up to the tail that was seen; and
the reset of `stub.next` leaves every way as it is. -/
theorem mpscStub_insertedOnce (next : NodePtr → Option NodePtr) {s : MpscState}
    (hs : (mpscMachine next).Reachable s) :
    (∀ l, s.Walk l → l.count .stub ≤ 1) ∧
    (∃ l, s.Walk l ∧ l.getLast? = some s.q.tail) ∧
    ∀ head,
      (s.consumer = .loadTail head →
        s.dequeueStep.consumer = .rearmReset head →
        s.q.tail = head ∧ ∀ l, s.Walk l → l = [head]) ∧
      (s.consumer = .rearmReset head → StubOut s head ∧
        ∀ l, s.dequeueStep.Walk l ↔ s.Walk l) ∧
      (s.consumer = .rearmExchange head → StubOut s head) := by
  obtain ⟨chain, h⟩ := mpscMachine_chainInv hs
  refine ⟨?_, ?_, ?_⟩
  · intro l hWalk
    exact List.nodup_iff_count_le_one.mp (h.nodup_of_walk hWalk) .stub
  · exact ⟨chain, h.walk_iff.mpr ⟨h.ne_nil, List.prefix_refl chain⟩, h.ends⟩
  · intro head
    refine ⟨h.walk_loadTail, fun hpc => ?_, fun hpc => ?_⟩
    · exact ⟨h.stubOut_of_rearm (Or.inl hpc), h.walk_rearmReset hpc⟩
    · exact h.stubOut_of_rearm (Or.inr hpc)

/-- The consumer is about to enqueue the stub behind node 7, while a producer
has already put node 8 there. -/
theorem mpscStub_insertedOnce_late :
    let m := mpscMachine fun _ => none
    let s := (m.exec m.start ([.reset 0 7, .exchange 0, .link 0] ++
      List.replicate 5 .dequeue ++ [.reset 1 8, .exchange 1])).get (by decide)
    s.consumer = .rearmReset (.node 7) ∧ s.q.tail = .node 8 ∧
      StubOut s (.node 7) := by
  intro m s
  have hReach : m.Reachable s :=
    Machine.reachable_of_exec (Option.some_get _).symm
  have hpc : s.consumer = .rearmReset (.node 7) := by decide
  have hStub := ((mpscStub_insertedOnce (fun _ => none) hReach).2.2 (.node 7)).2.1
  exact ⟨hpc, by decide, (hStub hpc).1⟩

end MioBench.Sync
