import MioBench.Sync.MpscFifo

/-!
# How a call of `mpsc_dequeue` advances

What one operation of the consumer leaves alone, what it returns, and a rank
that falls with every operation as long as there is something to deliver and
no producer is between its exchange and its link.
-/

namespace MioBench.Sync

open MioBench.Lib

namespace MpscState

@[simp] theorem dequeueStep_producer (s : MpscState) :
    s.dequeueStep.producer = s.producer := by
  unfold dequeueStep
  split <;> simp_all [testNext, returnNull, returnHead]
  · split
    · split <;> rfl
    · split <;> rfl
  · split <;> rfl
  · split <;> rfl
  · split <;> rfl

/-- One operation of the consumer either pops its head, or returns nothing and
releases nothing; a call that ends there returns `NULL`. -/
theorem dequeueStep_cases (s : MpscState) :
    (∃ head next, s.consumer = .pop head next ∧
      s.dequeueStep = s.returnHead head next) ∨
    ((∀ head next, s.consumer ≠ .pop head next) ∧
      s.dequeueStep.returned = s.returned ∧ s.dequeueStep.held = s.held ∧
      (s.dequeueStep.consumer = .idle → s.dequeueStep.result = none)) := by
  by_cases hPop : ∃ head next, s.consumer = .pop head next
  · left
    rcases hPop with ⟨head, next, hpc⟩
    exact ⟨head, next, hpc, by simp [dequeueStep, hpc]⟩
  · right
    push Not at hPop
    refine ⟨hPop, dequeueStep_returned hPop, ?_⟩
    unfold dequeueStep
    split <;> simp_all [testNext, returnNull]
    · split
      · split <;> simp_all
      · split <;> simp_all
    · split <;> simp_all
    · split <;> simp_all
    · split <;> simp_all

/-- Operations left in a call that will succeed.  A consumer about to find
that `tail` has moved on ranks above a fresh call: it returns `NULL` first. -/
def dequeueRank (s : MpscState) : Nat :=
  match s.consumer with
  | .pop _ _ => 1
  | .rearmReload _ => 2
  | .rearmLink _ _ => 3
  | .rearmExchange _ => 4
  | .rearmReset _ => 5
  | .loadTail head => if s.q.tail = head then 6 else 12
  | .reloadNext _ => 7
  | .skipStub _ => 8
  | .loadNext _ => 9
  | .idle => 10

theorem dequeueRank_le (s : MpscState) : s.dequeueRank ≤ 12 := by
  unfold dequeueRank
  cases s.consumer with
  | loadTail head =>
      simp only
      split <;> decide
  | _ => simp

/-- Whatever the producers do costs the consumer one failed call at most. -/
theorem dequeueRank_consumer {s s' : MpscState}
    (h : s'.consumer = s.consumer) : s'.dequeueRank ≤ s.dequeueRank + 6 := by
  unfold dequeueRank
  rw [h]
  cases s.consumer with
  | loadTail head =>
      simp only
      split <;> split <;> decide
  | _ => exact Nat.le_add_right _ _

/-- Every operation that ends in a state of `Unexcused` lowers the rank, the
pop apart. -/
theorem dequeueRank_lt {s : MpscState} (hU : s.dequeueStep.Unexcused)
    (hPop : ∀ head next, s.consumer ≠ .pop head next)
    (hTail : ∀ head, s.consumer = .loadTail head → s.q.tail = head) :
    s.dequeueStep.consumer ≠ .idle ∧ s.dequeueStep.dequeueRank < s.dequeueRank := by
  have hTest : ∀ head next, (s.testNext head next).Unexcused →
      (s.testNext head next).consumer ≠ .idle ∧
        (s.testNext head next).dequeueRank < 7 := by
    intro head next hU
    cases next with
    | some next => simp [testNext, dequeueRank]
    | none =>
        have hSame : s.q.tail = head := hU
        simp [testNext, dequeueRank, hSame]
  cases hpc : s.consumer with
  | idle => simp [dequeueStep, hpc, dequeueRank]
  | loadNext head =>
      have hRank : s.dequeueRank = 9 := by simp [dequeueRank, hpc]
      simp only [dequeueStep, hpc] at hU ⊢
      split at hU
      · rename_i hStub
        rw [if_pos hStub, hRank]
        cases hNext : s.q.next head with
        | some next => simp [dequeueRank]
        | none => simp [hNext, Unexcused, returnNull] at hU
      · rename_i hNe
        rw [if_neg hNe, hRank]
        have hTested := hTest head _ hU
        exact ⟨hTested.1, by omega⟩
  | skipStub next => simp [dequeueStep, hpc, dequeueRank]
  | reloadNext head =>
      have hRank : s.dequeueRank = 7 := by simp [dequeueRank, hpc]
      simp only [dequeueStep, hpc] at hU ⊢
      rw [hRank]
      exact hTest head _ hU
  | pop head next => exact absurd hpc (hPop head next)
  | loadTail head =>
      have hSame := hTail head hpc
      simp [dequeueStep, hpc, hSame, dequeueRank]
  | rearmReset head => simp [dequeueStep, hpc, dequeueRank]
  | rearmExchange head => simp [dequeueStep, hpc, dequeueRank]
  | rearmLink head prev => simp [dequeueStep, hpc, dequeueRank]
  | rearmReload head =>
      have hRank : s.dequeueRank = 2 := by simp [dequeueRank, hpc]
      simp only [dequeueStep, hpc] at hU ⊢
      rw [hRank]
      cases hNext : s.q.next head with
      | some next => simp [dequeueRank]
      | none => simp [hNext, Unexcused, returnNull] at hU

end MpscState

/-- With something to deliver and nobody between exchange and link, the next
operation of the consumer returns a node, or lowers the rank, or it is the
comparison with a `tail` that has moved on since `head->next` was read. -/
theorem ChainInv.dequeue_advances {s : MpscState} {chain : List NodePtr}
    (h : ChainInv s chain) (hNot : ¬ s.Excused) :
    (∃ head next, s.consumer = .pop head next) ∨
    (s.dequeueStep.consumer ≠ .idle ∧
      s.dequeueStep.dequeueRank < s.dequeueRank) ∨
    (s.dequeueRank = 12 ∧ s.dequeueStep = s.returnNull) := by
  by_cases hPop : ∃ head next, s.consumer = .pop head next
  · exact Or.inl hPop
  · right
    push Not at hPop
    by_cases hStale : ∃ head, s.consumer = .loadTail head ∧ s.q.tail ≠ head
    · right
      rcases hStale with ⟨head, hpc, hTail⟩
      have hMoved : ¬ head = s.q.tail := fun hEq => hTail hEq.symm
      simp [MpscState.dequeueRank, MpscState.dequeueStep, hpc, hTail, hMoved]
    · left
      push Not at hStale
      have hU : s.consumer ≠ .idle → s.Unexcused := by
        intro hBusy
        unfold MpscState.Unexcused
        cases hpc : s.consumer with
        | loadTail head => exact hStale head hpc
        | idle => exact absurd hpc hBusy
        | loadNext head => trivial
        | skipStub next => trivial
        | reloadNext head => trivial
        | pop head next => trivial
        | rearmReset head => trivial
        | rearmExchange head => trivial
        | rearmLink head prev => trivial
        | rearmReload head => trivial
      exact MpscState.dequeueRank_lt (h.unexcused_dequeueStep hNot hU) hPop hStale

end MioBench.Sync
