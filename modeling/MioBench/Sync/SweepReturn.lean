import MioBench.Sync.Sweep

/-!
# The return of a sweep

A sweep all of whose readers are created can be run on from its report to its
return.  On the way it passes every scratch buffer to `free`, whatever they are
made of: without copying there are none, and mapped ones come out corrupted.
-/

namespace MioBench.Sync

open MioBench.Lib

section Buffers

variable {p : Sweep} {s s' : SweepState}

/-- Without copying no buffer is ever there. -/
theorem sweep_scratch_null (hCopy : p.copy_to_dst = false)
    (hs : (sweepMachine p).Reachable s) (j : Nat) : s.scratch j = .null := by
  have hNew : p.newBuffer = .null := by
    unfold Sweep.newBuffer
    rw [hCopy]
    rfl
  refine hs.invariant (P := fun s => ∀ j, s.scratch j = .null) (fun _ => rfl) ?_ j
  intro s e s' _ h hStep
  have hUpdate : ∀ i (b : Buffer), b = .null → ∀ j,
      Function.update s.scratch i b j = .null := by
    rintro i b rfl j
    by_cases hj : j = i
    · rw [hj, Function.update_self]
    · rw [Function.update_of_ne hj, h j]
  have hFree : ∀ i, (s.scratch i).free = .null := fun i => by rw [h i]; rfl
  rcases sweep_cases hStep with hMain | ⟨gate, _, rfl⟩ | ⟨i, readers, _, _, _, rfl⟩
  · cases sweepMain_cases hMain with
    | createReader i _ _ hEq =>
        subst hEq
        unfold SweepState.createReader
        split
        · exact hUpdate i _ hNew
        · exact h
        · exact hUpdate i _ hNew
    | allCreated i _ _ hEq => exact hEq ▸ h
    | openGate failed gate _ _ _ hEq => exact hEq ▸ h
    | opened failed _ _ hEq => exact hEq ▸ h
    | join i _ _ _ hEq => exact hEq ▸ h
    | allJoined i _ _ hEq => exact hEq ▸ h
    | report _ hEq => exact hEq ▸ h
    | joinFree i _ _ _ hEq => exact hEq ▸ hUpdate i _ (hFree i)
    | createdFreed i _ _ hEq => exact hEq ▸ h
    | freeRest i _ _ hEq => exact hEq ▸ hUpdate i _ (hFree i)
    | allFreed i _ _ hEq => exact hEq ▸ h
    | destroy _ hEq => exact hEq ▸ h
  · exact h
  · exact h

/-- What main's position says about buffer `j` and the result, when every
reader is created. -/
def SuccessInv (p : Sweep) (j : Nat) (s : SweepState) : Prop :=
  s.ret = 0 ∧
  match s.main with
  | .create i => j < i → s.scratch j = p.newBuffer
  | .opening failed =>
      failed = false ∧ (j < p.active_requests → s.scratch j = p.newBuffer)
  | .join _ => j < p.active_requests → s.scratch j = p.newBuffer
  | .report | .joinFree _ =>
      s.created = 0 ∧ (j < p.active_requests → s.scratch j = p.newBuffer)
  | .freeRest i =>
      j < p.active_requests →
        s.scratch j = if j < i then p.newBuffer.free else p.newBuffer
  | .destroy | .returned =>
      j < p.active_requests → s.scratch j = p.newBuffer.free

theorem SuccessInv.mainStep {j : Nat} (h : SuccessInv p j s)
    (hNone : p.AllCreated) (hStep : s.mainStep p = some s') :
    SuccessInv p j s' := by
  obtain ⟨hRet, h⟩ := h
  cases sweepMain_cases hStep with
  | createReader i hpc hi hEq =>
      simp only [hpc] at h
      subst hEq
      unfold SweepState.createReader
      rw [hNone i]
      refine ⟨hRet, fun hji => ?_⟩
      show Function.update s.scratch i p.newBuffer j = p.newBuffer
      by_cases hLast : j = i
      · rw [hLast, Function.update_self]
      · rw [Function.update_of_ne hLast, h (by omega)]
  | allCreated i hpc hi hEq =>
      simp only [hpc] at h
      exact hEq ▸ ⟨hRet, rfl, fun hj => h (by omega)⟩
  | openGate failed gate hpc _ _ hEq =>
      subst hEq
      refine ⟨hRet, ?_⟩
      simp only [hpc] at h ⊢
      exact h
  | opened failed hpc _ hEq =>
      simp only [hpc] at h
      obtain ⟨rfl, hNew⟩ := h
      exact hEq ▸ ⟨hRet, hNew⟩
  | join i hpc _ _ hEq =>
      simp only [hpc] at h
      exact hEq ▸ ⟨hRet, h⟩
  | allJoined i hpc _ hEq =>
      simp only [hpc] at h
      exact hEq ▸ ⟨hRet, rfl, h⟩
  | report hpc hEq =>
      simp only [hpc] at h
      exact hEq ▸ ⟨hRet, h⟩
  | joinFree i hpc hi _ hEq =>
      simp only [hpc] at h
      omega
  | createdFreed i hpc _ hEq =>
      simp only [hpc] at h
      subst hEq
      refine ⟨hRet, fun hj => ?_⟩
      show s.scratch j = if j < s.created then p.newBuffer.free else p.newBuffer
      rw [h.1, if_neg (Nat.not_lt_zero j), h.2 hj]
  | freeRest i hpc hi hEq =>
      simp only [hpc] at h
      subst hEq
      refine ⟨hRet, fun hj => ?_⟩
      show Function.update s.scratch i (s.scratch i).free j =
        if j < i + 1 then p.newBuffer.free else p.newBuffer
      by_cases hLast : j = i
      · subst hLast
        rw [Function.update_self, h hj, if_neg (Nat.lt_irrefl j),
          if_pos (Nat.lt_succ_self j)]
      · rw [Function.update_of_ne hLast, h hj]
        exact if_congr (by omega) rfl rfl
  | allFreed i hpc hi hEq =>
      simp only [hpc] at h
      refine hEq ▸ ⟨hRet, fun hj => ?_⟩
      show s.scratch j = p.newBuffer.free
      rw [h hj, if_pos (Nat.lt_of_lt_of_le hj hi)]
  | destroy hpc hEq =>
      simp only [hpc] at h
      exact hEq ▸ ⟨hRet, h⟩

theorem sweep_successInv (hNone : p.AllCreated)
    (hs : (sweepMachine p).Reachable s) (j : Nat) : SuccessInv p j s := by
  refine hs.invariant (P := SuccessInv p j)
    ⟨rfl, fun hji => absurd hji (Nat.not_lt_zero j)⟩ ?_
  intro s e s' _ h hStep
  rcases sweep_cases hStep with hMain | ⟨gate, _, rfl⟩ | ⟨i, readers, _, _, _, rfl⟩
  · exact h.mainStep hNone hMain
  · exact h
  · exact h

/-- A sweep that has returned 0 has passed every buffer to `free`. -/
theorem sweep_returned (hNone : p.AllCreated)
    (hs : (sweepMachine p).Reachable s) (hpc : s.main = .returned) {j : Nat}
    (hj : j < p.active_requests) :
    s.ret = 0 ∧ s.scratch j = p.newBuffer.free := by
  obtain ⟨hRet, hFreed⟩ := sweep_successInv hNone hs j
  simp only [hpc] at hFreed
  exact ⟨hRet, hFreed hj⟩

end Buffers

/-! ## Progress -/

/-- Steps main still has to take behind its report, with `n` readers. -/
def MainPc.returnRank (n : Nat) : MainPc → Nat
  | create _ | opening _ | join _ | report => n + 4
  | joinFree _ => n + 3
  | freeRest i => (n - i) + 2
  | destroy => 1
  | returned => 0

section Progress

variable {p : Sweep} {s : SweepState}

/-- A step of main behind the report. -/
theorem return_advances {s' : SweepState} (hMove : MainMove p s s')
    (hRank : s'.main.rank p.active_requests +
        s'.main.returnRank p.active_requests <
      s.main.rank p.active_requests + s.main.returnRank p.active_requests)
    (hGate : s'.gate = s.gate) (hReaders : s'.readers = s.readers) :
    ∃ e s', (sweepMachine p).next s e = some s' ∧
      sweepRank p s' + s'.main.returnRank p.active_requests <
        sweepRank p s + s.main.returnRank p.active_requests := by
  refine ⟨.main, s', hMove.mainStep_eq, ?_⟩
  unfold sweepRank
  rw [hGate, hReaders]
  omega

/-- Up to the report the way to it is part of the way to the return. -/
theorem report_advances (hNone : p.AllCreated)
    (hRequests : p.active_requests < 2 ^ 32) (hBlocks : p.body.blocks < 2 ^ 64)
    (hs : (sweepMachine p).Reachable s) (hReport : s.report = none)
    (hBefore : s.main.returnRank p.active_requests = p.active_requests + 4) :
    ∃ e s', (sweepMachine p).next s e = some s' ∧
      sweepRank p s' + s'.main.returnRank p.active_requests <
        sweepRank p s + s.main.returnRank p.active_requests := by
  obtain ⟨e, s', _, hStep, hLt⟩ := sweep_advances hNone hRequests hBlocks hs hReport
  refine ⟨e, s', hStep, ?_⟩
  have hMost : s'.main.returnRank p.active_requests ≤ p.active_requests + 4 := by
    unfold MainPc.returnRank
    split <;> omega
  rw [← sweepRank_eq, ← sweepRank_eq] at hLt
  omega

theorem sweep_return_advances (hNone : p.AllCreated)
    (hRequests : p.active_requests < 2 ^ 32) (hBlocks : p.body.blocks < 2 ^ 64)
    (hs : (sweepMachine p).Reachable s) (hNot : s.main ≠ .returned) :
    ∃ e s', (sweepMachine p).next s e = some s' ∧
      sweepRank p s' + s'.main.returnRank p.active_requests <
        sweepRank p s + s.main.returnRank p.active_requests := by
  have hMainInv := sweep_mainInv hs
  unfold MainInv at hMainInv
  cases hpc : s.main with
  | create i =>
      simp only [hpc] at hMainInv
      exact hpc ▸ report_advances hNone hRequests hBlocks hs
        hMainInv.2.2.2.2 (by rw [hpc]; rfl)
  | opening failed =>
      cases failed with
      | false =>
          simp only [hpc] at hMainInv
          exact hpc ▸ report_advances hNone hRequests hBlocks hs hMainInv.2.2
            (by rw [hpc]; rfl)
      | true =>
          simp only [hpc] at hMainInv
          exact absurd (hNone s.started) hMainInv.2.2.2.1
  | join i =>
      simp only [hpc] at hMainInv
      exact hpc ▸ report_advances hNone hRequests hBlocks hs hMainInv.2.2.2.1
        (by rw [hpc]; rfl)
  | report =>
      refine hpc ▸ return_advances (.report hpc rfl) ?_ rfl rfl
      rw [hpc]
      show 0 + (p.active_requests + 3) < 1 + (p.active_requests + 4)
      omega
  | joinFree i =>
      -- Nobody is left to join.
      obtain ⟨_, hSuccess⟩ := sweep_successInv hNone hs 0
      simp only [hpc] at hSuccess
      refine hpc ▸ return_advances
        (.createdFreed i hpc (by omega) rfl) ?_ rfl rfl
      rw [hpc]
      show 0 + (p.active_requests - s.created + 2) <
        0 + (p.active_requests + 3)
      omega
  | freeRest i =>
      by_cases hi : i < p.active_requests
      · refine hpc ▸ return_advances (.freeRest i hpc hi rfl) ?_ rfl rfl
        rw [hpc]
        show 0 + (p.active_requests - (i + 1) + 2) <
          0 + (p.active_requests - i + 2)
        omega
      · refine hpc ▸ return_advances
          (.allFreed i hpc (Nat.le_of_not_lt hi) rfl) ?_ rfl rfl
        rw [hpc]
        show 0 + 1 < 0 + (p.active_requests - i + 2)
        omega
  | destroy =>
      refine hpc ▸ return_advances (.destroy hpc rfl) ?_ rfl rfl
      rw [hpc]
      exact Nat.one_pos
  | returned => exact absurd hpc hNot

/-- Every reachable sweep can be run to its return. -/
theorem sweep_returns (hNone : p.AllCreated)
    (hRequests : p.active_requests < 2 ^ 32) (hBlocks : p.body.blocks < 2 ^ 64)
    (hs : (sweepMachine p).Reachable s) :
    ∃ s', (sweepMachine p).Reaches s s' ∧ s'.main = .returned :=
  Machine.finishes_of_rank
    (fun s => sweepRank p s + s.main.returnRank p.active_requests)
    (fun _ hs hNot => sweep_return_advances hNone hRequests hBlocks hs hNot) hs

end Progress

end MioBench.Sync
