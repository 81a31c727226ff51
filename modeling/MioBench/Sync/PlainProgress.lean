import Mathlib.Algebra.BigOperators.Group.Finset.Piecewise
import MioBench.Sync.PlainSweep

/-!
# All readers but one are answered

How far the sweep of `test2-rdma.c` gets: from wherever it is, it can go on
until a single reader is without an answer.
-/

namespace MioBench.Sync

open MioBench.Lib MioBench.Store

/-! ## Ranks -/

/-- Steps of reader `i` ahead of its spin. -/
def askRank (s : RequestState) (i : Nat) : Nat :=
  match s.phase i with
  | .begin => 4
  | .reset => 3
  | .enqueue =>
      match s.mpsc.producer i with
      | .idle => 0
      | .exchange _ => 2
      | .link _ _ => 1
  | .spin => 0
  | .through => 0

/-- How far the RNIC thread is from its next pop. -/
def rnicRank (s : RequestState) : Nat :=
  match s.rnic with
  | .unborn => 12
  | .begin => 11
  | .read _ => 9
  | .signal _ => 8
  | .dequeue => s.mpsc.plainRank
  | .fault => 0
  | .dead => 0

/-- Steps ahead of `n` readers and the RNIC thread. -/
def requestRank (n : Nat) (s : RequestState) : Nat :=
  ∑ i ∈ Finset.range n, askRank s i +
    10 * (n - s.mpsc.returned.length) + rnicRank s

theorem plainRank_le (s : MpscState) : s.plainRank ≤ 7 := by
  unfold MpscState.plainRank
  split <;> omega

/-- A step of a reader ahead of its spin. -/
structure ReaderAdvance (s s' : RequestState) (i : Nat) : Prop where
  step : s.readerStep i 0 = some s'
  lower : askRank s' i < askRank s i
  other : ∀ j, j ≠ i → askRank s' j = askRank s j
  returned : s'.mpsc.returned = s.mpsc.returned
  rnic : rnicRank s' = rnicRank s

section Requests

variable {s : RequestState} {i n : Nat}

theorem reader_advances (h : PlainRequestInv s) (hAhead : askRank s i ≠ 0) :
    ∃ s', ReaderAdvance s s' i := by
  have hAt := h.reader i
  unfold askRank at hAhead
  cases hPhase : s.phase i with
  | begin =>
      refine ⟨s.prepare i 0, by simp [RequestState.readerStep, hPhase], ?_, ?_,
        rfl, rfl⟩
      · simp [askRank, RequestState.prepare, RequestState.setPhase, hPhase]
      · intro j hj
        simp [askRank, RequestState.prepare, RequestState.setPhase, hj]
  | reset =>
      simp only [PlainReaderAt, hPhase] at hAt
      have hStep : s.readerStep i 0 = some { s.setPhase i .enqueue with
          mpsc := { s.mpsc with
            q := s.mpsc.q.resetNext (.node i)
            producer := Function.update s.mpsc.producer i (.exchange i)
            held := Function.update s.mpsc.held i true } } := by
        simp [RequestState.readerStep, MpscState.enqueueReset, hPhase, hAt.1]
      refine ⟨_, hStep, ?_, ?_, rfl, rfl⟩
      · simp [askRank, RequestState.setPhase, hPhase]
      · intro j hj
        simp [askRank, RequestState.setPhase, hj]
  | enqueue =>
      simp only [PlainReaderAt, hPhase] at hAt
      rcases hAt with ⟨hProducer, _⟩ | ⟨prev, hProducer, _⟩
      · have hStep : s.readerStep i 0 = some { s with
            mpsc := { s.mpsc with
              q := s.mpsc.q.exchangeTail (.node i)
              producer :=
                Function.update s.mpsc.producer i (.link i s.mpsc.q.tail)
              order := s.mpsc.order ++ [i] } } := by
          simp [RequestState.readerStep, MpscState.enqueueExchange, hPhase,
            hProducer]
        refine ⟨_, hStep, ?_, ?_, rfl, rfl⟩
        · simp [askRank, hPhase, hProducer]
        · intro j hj
          simp [askRank, hj]
      · have hStep : s.readerStep i 0 = some { s.setPhase i .spin with
            mpsc := { s.mpsc with
              q := s.mpsc.q.linkNext prev (.node i)
              producer := Function.update s.mpsc.producer i .idle } } := by
          simp [RequestState.readerStep, MpscState.enqueueLink, hPhase,
            hProducer]
        refine ⟨_, hStep, ?_, ?_, rfl, rfl⟩
        · simp [askRank, RequestState.setPhase, hPhase, hProducer]
        · intro j hj
          simp [askRank, RequestState.setPhase, hj]
  | spin => simp [hPhase] at hAhead
  | through => simp [hPhase] at hAhead

theorem ReaderAdvance.requestRank_lt {s' : RequestState}
    (h : ReaderAdvance s s' i) (hi : i < n) :
    requestRank n s' < requestRank n s := by
  have hSum := sum_range_change (n := n) (f := askRank s)
    (g := askRank s') hi h.other
  have hLower := h.lower
  unfold requestRank
  rw [h.returned, h.rnic]
  omega

/-- A reader with nothing ahead is linked in the queue, and owes no link. -/
theorem reader_linked (h : PlainRequestInv s) (hDone : askRank s i = 0) :
    s.mpsc.producer i = .idle ∧ i ∈ s.mpsc.order := by
  have hAt := h.reader i
  unfold askRank at hDone
  cases hPhase : s.phase i with
  | begin => simp [hPhase] at hDone
  | reset => simp [hPhase] at hDone
  | enqueue =>
      simp only [PlainReaderAt, hPhase] at hAt
      rcases hAt with ⟨hProducer, _⟩ | ⟨prev, hProducer, _⟩
      · simp [hPhase, hProducer] at hDone
      · simp [hPhase, hProducer] at hDone
  | spin =>
      simp only [PlainReaderAt, hPhase] at hAt
      exact hAt
  | through =>
      simp only [PlainReaderAt, hPhase] at hAt
      exact ⟨hAt.1, hAt.2.1⟩

/-- With all `n` requests in the queue, all links stored, and two requests still
to be taken out, or one in its hands, the RNIC thread gets on. -/
theorem rnic_advances (h : PlainRequestInv s)
    (hQueue : (plainMpscMachine fun _ => none).Reachable s.mpsc)
    (hBorn : s.rnic ≠ .unborn) (hMid : ¬ s.mpsc.MidInsert)
    (hLength : s.mpsc.order.length = n)
    (hMore : s.rnic.hand = none → s.mpsc.returned.length + 2 ≤ n) :
    ∃ s', s.rnicStep = some s' ∧ requestRank n s' < requestRank n s := by
  have hReaders : ∀ s' : RequestState, s'.phase = s.phase →
      s'.mpsc.producer = s.mpsc.producer →
      ∑ j ∈ Finset.range n, askRank s' j = ∑ j ∈ Finset.range n, askRank s j := by
    intro s' hPhase hProducer
    refine Finset.sum_congr rfl fun j _ => ?_
    unfold askRank
    rw [hPhase, hProducer]
  have hOwn : ∀ s' : RequestState, s'.phase = s.phase → s'.mpsc = s.mpsc →
      rnicRank s' < rnicRank s → requestRank n s' < requestRank n s := by
    intro s' hPhase hMpsc hLower
    unfold requestRank
    rw [hReaders s' hPhase (by rw [hMpsc]), hMpsc]
    omega
  have hLe := plainRank_le s.mpsc
  cases hpc : s.rnic with
  | unborn => exact absurd hpc hBorn
  | begin =>
      have hStarted := h.dataplane.resolve_left hBorn
      refine ⟨{ s with rnic := .dequeue },
        by simp [RequestState.rnicStep, hpc, hStarted], hOwn _ rfl rfl ?_⟩
      simp only [rnicRank, hpc]
      omega
  | dequeue =>
      obtain ⟨chain, hInv⟩ := plainMpscMachine_inv hQueue
      have hFrame := MpscState.plainDequeueStep_frame hInv.noRearm
      have hTwo : 2 ≤ s.mpsc.undelivered.length := by
        have hPlenty := hMore (by rw [hpc]; rfl)
        unfold MpscState.undelivered
        rw [List.length_drop]
        omega
      have hSame := hReaders s.rnicDequeue
        (by simp only [RequestState.rnicDequeue]; split <;> rfl)
        (by simp only [RequestState.rnicDequeue]; split <;> exact hFrame.producer)
      refine ⟨s.rnicDequeue, by simp [RequestState.rnicStep, hpc], ?_⟩
      have hPlenty := hMore (by rw [hpc]; rfl)
      have hMpsc : s.rnicDequeue.mpsc = s.mpsc.plainDequeueStep := by
        simp only [RequestState.rnicDequeue]
        split <;> rfl
      unfold requestRank
      rw [hSame, hMpsc]
      have hRank : rnicRank s = s.mpsc.plainRank := by
        unfold rnicRank
        rw [hpc]
      have hNext : (plainMpscMachine fun _ => none).Reachable
          s.mpsc.plainDequeueStep := hQueue.next (e := .dequeue) rfl
      have hRnic : s.rnicDequeue.rnic =
          if s.mpsc.plainDequeueStep.consumer = .idle then
            { s with mpsc := s.mpsc.plainDequeueStep }.received
          else .dequeue := by
        simp only [RequestState.rnicDequeue]
        split
        · rfl
        · exact hpc
      rcases h.received hNext hRnic hFrame.order with ⟨hLoop, hReturned⟩ |
        ⟨req, hRead, hReturned⟩
      · rcases hInv.step_rank hMid hTwo with ⟨_, hLower⟩ | ⟨head, hBad⟩
        · have hNew : rnicRank s.rnicDequeue =
              s.mpsc.plainDequeueStep.plainRank := by
            unfold rnicRank
            rw [hLoop, hMpsc]
          rw [hNew, hReturned, hRank]
          omega
        · rw [hReturned] at hBad
          have hBadLength := congrArg List.length hBad
          simp at hBadLength
      · have hNew : rnicRank s.rnicDequeue = 9 := by
          unfold rnicRank
          rw [hRead]
        have hReturnedLength := congrArg List.length hReturned
        rw [List.length_append, List.length_singleton] at hReturnedLength
        rw [hNew, hReturnedLength]
        omega
  | read req =>
      refine ⟨{ s with
        nic := (RequestState.rdmaRead s.nic (s.rdma_req req)).1
        rdma_req := Function.update s.rdma_req req
          (RequestState.rdmaRead s.nic (s.rdma_req req)).2
        rnic := .signal req },
        by simp [RequestState.rnicStep, hpc], hOwn _ rfl rfl ?_⟩
      simp [rnicRank, hpc]
  | signal req =>
      refine ⟨{ s with
        response_ready :=
          Function.update s.response_ready (s.rdma_req req).req_id true
        rnic := .dequeue },
        by simp [RequestState.rnicStep, hpc], hOwn _ rfl rfl ?_⟩
      simp only [rnicRank, hpc]
      omega
  | fault => exact absurd hpc h.fault
  | dead => exact absurd hpc h.dead

end Requests

/-- With empty hands the RNIC thread has raised a flag for every request it has
taken out of the queue. -/
theorem returned_le_flags {s : RequestState} (h : PlainRequestInv s)
    (hQueue : (plainMpscMachine fun _ => none).Reachable s.mpsc)
    (hEmpty : s.rnic.hand = none) {n : Nat}
    (hBound : ∀ i ∈ s.mpsc.order, i < n) :
    s.mpsc.returned.length ≤ tally n s.response_ready := by
  have hPrefix := plainMpscMachine_returned hQueue
  have hNodup : s.mpsc.returned.Nodup :=
    hPrefix.sublist.nodup (h.nodup.map fun a b hab => NodePtr.node.inj hab)
  have hSub : s.mpsc.returned.toFinset ⊆
      ((Finset.range n).filter fun i => s.response_ready i = true).image
        NodePtr.node := by
    intro x hx
    have hIn := List.mem_toFinset.mp hx
    obtain ⟨i, hi, rfl⟩ := List.mem_map.mp (hPrefix.subset hIn)
    have hUp := (h.answered i hIn).resolve_right (by simp [hEmpty])
    exact Finset.mem_image_of_mem _
      (Finset.mem_filter.mpr ⟨Finset.mem_range.mpr (hBound i hi), hUp⟩)
  have hTally : ((Finset.range n).filter fun i =>
      s.response_ready i = true).card = tally n s.response_ready := by
    rw [Finset.card_filter]
    exact Finset.sum_congr rfl fun i _ => by cases s.response_ready i <;> rfl
  calc s.mpsc.returned.length
      = s.mpsc.returned.toFinset.card :=
        (List.toFinset_card_of_nodup hNodup).symm
    _ ≤ _ := Finset.card_le_card hSub
    _ ≤ _ := Finset.card_image_le
    _ = tally n s.response_ready := hTally

/-! ## The sweep -/

/-- Main's steps up to the gate. -/
def PlainMainPc.rank (n : Nat) : PlainMainPc → Nat
  | create i => (n - i) + 2
  | createRnic => 1
  | _ => 0

/-- Steps ahead of the whole sweep. -/
def plainSweepRank (p : PlainSweep) (s : PlainState) : Nat :=
  s.main.rank p.active_requests + requestRank p.active_requests s.requests

/-- Every reader but one has its answer. -/
def AllButOne (p : PlainSweep) (s : PlainState) : Prop :=
  s.started = p.active_requests ∧
    tally p.active_requests s.requests.response_ready + 1 = p.active_requests

theorem PlainRnicMove.ne_unborn {s s' : RequestState} (h : PlainRnicMove s s') :
    s'.rnic ≠ .unborn := by
  cases h with
  | begin _ hEq =>
      subst hEq
      show (if s.dataplane_started = true then PlainRnicPc.dequeue
        else .begin) ≠ .unborn
      split <;> simp
  | dequeue rnic _ hRnic hEq =>
      subst hEq
      show rnic ≠ .unborn
      rw [hRnic]
      split
      · unfold RequestState.received
        split
        · simp
        · split <;> simp
      · simp
  | read req _ hEq => simp [hEq]
  | signal req _ hEq => simp [hEq]

section Sweep

variable {p : PlainSweep} {s : PlainState}

theorem crew_all (hCreated : p.AllCreated) : p.Crew p.active_requests where
  le := Nat.le_refl _
  created := fun i _ => hCreated i
  stops := fun hLt => absurd hLt (Nat.lt_irrefl _)

/-- Past its creations, main has created everybody. -/
theorem plain_created (hCreated : p.AllCreated) (hRnic : p.rnicFails = false)
    (hs : (plainMachine p).Reachable s) :
    (∃ i, s.main = .create i) ∨ s.main = .createRnic ∨
      (s.started = p.active_requests ∧ s.requests.rnic ≠ .unborn) := by
  refine hs.invariant (P := fun s => (∃ i, s.main = .create i) ∨
    s.main = .createRnic ∨
      (s.started = p.active_requests ∧ s.requests.rnic ≠ .unborn))
    (Or.inl ⟨0, rfl⟩) ?_
  intro s e s' hReach h hStep
  have hMainInv := plain_mainInv (crew_all hCreated) hReach
  have hMainInv' := plain_mainInv (crew_all hCreated) (hReach.next hStep)
  cases plain_cases hStep with
  | main hMain =>
      rcases h with ⟨i, hpc⟩ | hpc | ⟨hStarted, hBorn⟩
      · cases plainMain_cases hMain with
        | createReader j hpc' _ hEq =>
            left
            rw [hEq]
            unfold PlainState.createReader
            rw [hCreated j]
            exact ⟨j + 1, rfl⟩
        | allCreated j _ _ hEq => exact Or.inr (Or.inl (by rw [hEq]))
        | _ => simp_all
      · cases plainMain_cases hMain with
        | noRnic _ hFails _ => simp [hRnic] at hFails
        | createRnic _ _ hEq =>
            have hPlace := hMainInv.place
            simp only [PlainPlace, hpc] at hPlace
            subst hEq
            exact Or.inr (Or.inr ⟨hPlace.2.1, by simp [RequestState.startRnic]⟩)
        | _ => simp_all
      · -- Nobody is created any more, and the RNIC thread stays.
        have hFrame := plainMain_frame hMain
        have hUp := hFrame.started
        have hDown := hMainInv'.started_le
        right; right
        refine ⟨by omega, ?_⟩
        rcases hFrame.requests with hSame | ⟨hpc, fails, hEq⟩
        · rw [hSame]
          exact hBorn
        · have hPlace := hMainInv.place
          simp only [PlainPlace, hpc] at hPlace
          exact absurd hPlace.2.2.2 hBorn
  | request e requests _ hStart hRequest hEq =>
      subst hEq
      refine h.imp id (Or.imp id fun hAll => ⟨hAll.1, ?_⟩)
      cases e with
      | reader i now =>
          show requests.rnic ≠ .unborn
          rw [(plainReader_cases hRequest).rnic]
          exact hAll.2
      | rnic => exact (plainRnic_cases hRequest).ne_unborn
      | start fails => exact absurd rfl (hStart fails)
  | gate gate _ _ hEq =>
      subst hEq
      exact h
  | copy i readers _ _ hEq =>
      subst hEq
      exact h

/-- As long as two readers are without an answer, somebody gets on. -/
theorem plain_advances (hCreated : p.AllCreated) (hRnic : p.rnicFails = false)
    (hs : (plainMachine p).Reachable s)
    (hMore : ¬ (s.started = p.active_requests ∧ p.active_requests ≤
      tally p.active_requests s.requests.response_ready + 1)) :
    ∃ e s', (plainMachine p).next s e = some s' ∧
      plainSweepRank p s' < plainSweepRank p s := by
  have hMainInv := plain_mainInv (crew_all hCreated) hs
  have hPlace := hMainInv.place
  have hLe := hMainInv.started_le
  obtain ⟨h, hQueue⟩ := requestMachine_inv
    ((plain_projects_requests (crew_all hCreated)).reachable hs)
  rcases plain_created hCreated hRnic hs with ⟨i, hpc⟩ | hpc |
    ⟨hStarted, hBorn⟩
  · simp only [PlainPlace, hpc] at hPlace
    by_cases hi : i < p.active_requests
    · refine ⟨.main, s.createReader p i, ?_, ?_⟩
      · simp [plainMachine, PlainState.mainStep, hpc, hi]
      · simp only [plainSweepRank, PlainState.createReader, hCreated i, hpc,
          PlainMainPc.rank]
        omega
    · refine ⟨.main, { s with main := .createRnic }, ?_, ?_⟩
      · simp [plainMachine, PlainState.mainStep, hpc, hi]
      · simp only [plainSweepRank, hpc, PlainMainPc.rank]
        omega
  · simp only [PlainPlace, hpc] at hPlace
    refine ⟨.main, { s with
      requests := s.requests.startRnic false, main := .opening false }, ?_, ?_⟩
    · simp [plainMachine, PlainState.mainStep, hpc, hRnic]
    · have hAsk : ∀ i, askRank (s.requests.startRnic false) i =
          askRank s.requests i := fun _ => rfl
      simp only [plainSweepRank, requestRank, hAsk, hpc, PlainMainPc.rank]
      simp only [RequestState.startRnic, rnicRank, hPlace.2.2.2,
        Bool.false_eq_true, ↓reduceIte]
      omega
  · by_cases hAhead : ∃ i, i < p.active_requests ∧ askRank s.requests i ≠ 0
    · obtain ⟨i, hi, hAsk⟩ := hAhead
      obtain ⟨requests, hAdvance⟩ := reader_advances h hAsk
      have hNot : s.requests.phase i ≠ .through := by
        intro hThrough
        simp [askRank, hThrough] at hAsk
      refine ⟨.reader i 0, { s with requests := requests }, ?_, ?_⟩
      · simp [plainMachine, PlainState.readerStep, hStarted, hi, hNot,
          hAdvance.step]
      · have hLt := hAdvance.requestRank_lt hi
        simp only [plainSweepRank]
        omega
    · push Not at hAhead
      have hUnborn := plain_unborn hs
      have hBound : ∀ i ∈ s.requests.mpsc.order, i < p.active_requests := by
        intro i hi
        by_contra hBig
        exact h.begun hi (hUnborn i (by omega))
      have hLength : s.requests.mpsc.order.length = p.active_requests := by
        have hSet : s.requests.mpsc.order.toFinset =
            Finset.range p.active_requests := by
          ext i
          rw [List.mem_toFinset, Finset.mem_range]
          exact ⟨hBound i, fun hi => (reader_linked h (hAhead i hi)).2⟩
        rw [← List.toFinset_card_of_nodup h.nodup, hSet, Finset.card_range]
      have hMid : ¬ s.requests.mpsc.MidInsert := by
        rintro ⟨i, node, prev, hLink⟩
        by_cases hi : i < p.active_requests
        · rw [(reader_linked h (hAhead i hi)).1] at hLink
          cases hLink
        · have hAt := h.reader i
          simp only [PlainReaderAt, hUnborn i (by omega)] at hAt
          rw [hAt.1] at hLink
          cases hLink
      obtain ⟨requests, hStep, hLt⟩ := rnic_advances h hQueue hBorn hMid hLength
        (by
          intro hEmpty
          have hFlags := returned_le_flags h hQueue hEmpty hBound
          omega)
      refine ⟨.rnic, { s with requests := requests }, ?_, ?_⟩
      · simp [plainMachine, hStep]
      · simp only [plainSweepRank]
        omega

end Sweep

/-- **All readers but one are answered.**  When everything can be created, any
state of any run leads on to one where exactly one reader has no answer. -/
theorem plainSweep_serves_all_but_one (p : PlainSweep)
    (hCreated : p.AllCreated) (hRnic : p.rnicFails = false)
    (hSome : 0 < p.active_requests) {s : PlainState}
    (hs : (plainMachine p).Reachable s) :
    ∃ s', (plainMachine p).Reaches s s' ∧ AllButOne p s' := by
  have hEnds : ∃ s', (plainMachine p).Reaches s s' ∧
      s'.started = p.active_requests ∧ p.active_requests ≤
        tally p.active_requests s'.requests.response_ready + 1 :=
    Machine.finishes_of_rank (plainSweepRank p)
      (fun s hs hMore => plain_advances hCreated hRnic hs hMore) hs
  obtain ⟨s', hReach, hStarted, hDone⟩ := hEnds
  refine ⟨s', hReach, hStarted, ?_⟩
  obtain ⟨i, hi, hDown, _⟩ := plain_unanswered (crew_all hCreated)
    (hs.trans hReach) (by omega)
  have hNotAll : tally p.active_requests s'.requests.response_ready ≠
      p.active_requests := by
    intro hAll
    have hUp := all_of_tally_eq hAll i (by omega)
    rw [hDown] at hUp
    cases hUp
  have hLe := tally_le p.active_requests s'.requests.response_ready
  omega

theorem plainSweep_serves_all_but_one_two :
    ∃ s, (plainMachine twoPlainReaders).Reachable s ∧
      AllButOne twoPlainReaders s := by
  obtain ⟨s, hs, hServed⟩ := plainSweep_serves_all_but_one twoPlainReaders
    (fun _ => rfl) rfl (by decide) Machine.Reachable.initial
  exact ⟨s, hs, hServed⟩

end MioBench.Sync
