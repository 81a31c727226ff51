import MioBench.Sync.RnicInvariant

/-!
# Requests and responses

Where the node of each reader is, and what the RNIC thread has done with the
requests it took out of the queue.  A flag is up exactly when its request has
been dequeued and is no longer in the RNIC's hands.
-/

namespace MioBench.Sync

open MioBench.Lib MioBench.Store

/-! ## Where a reader's request is -/

/-- What the queue holds of reader `i`, by the reader's position. -/
def ReaderAt (s : RnicState) (i : Nat) : Prop :=
  match s.phase i with
  | .begin | .reset =>
      s.mpsc.producer i = .idle ∧ s.mpsc.held i = false ∧ i ∉ s.mpsc.order
  | .enqueue =>
      (s.mpsc.producer i = .exchange i ∧ i ∉ s.mpsc.order) ∨
        ∃ prev, s.mpsc.producer i = .link i prev ∧ i ∈ s.mpsc.order
  | .spin => s.mpsc.producer i = .idle ∧ i ∈ s.mpsc.order
  | .through =>
      s.mpsc.producer i = .idle ∧ i ∈ s.mpsc.order ∧
        s.response_ready i = true

structure RequestInv (s : RnicState) : Prop where
  reader : ∀ i, ReaderAt s i
  unborn : ∀ i, s.started ≤ i → s.phase i = .begin
  record : ∀ i, s.phase i ≠ .begin →
    s.payload (.node i) = some i ∧ (s.rdma_req i).req_id = i
  gate : ∀ i, s.gate.waiter i ≠ .entry → s.phase i = .through
  copying : ∀ i, s.readers.pc i ≠ .copying → s.phase i = .through
  nodup : s.mpsc.order.Nodup

section Request

variable {p : RnicSweep} {s s' : RnicState} {i : Nat}

/-- A reader's clause survives whatever leaves its position and its node alone
and lowers no flag. -/
theorem ReaderAt.congr (h : ReaderAt s i) (hPhase : s'.phase i = s.phase i)
    (hProducer : s'.mpsc.producer i = s.mpsc.producer i)
    (hHeld : s.mpsc.held i = false → s'.mpsc.held i = false)
    (hOrder : i ∈ s'.mpsc.order ↔ i ∈ s.mpsc.order)
    (hFlag : s.response_ready i = true → s'.response_ready i = true) :
    ReaderAt s' i := by
  unfold ReaderAt at h ⊢
  rw [hPhase, hProducer]
  cases hpc : s.phase i with
  | begin =>
      simp only [hpc] at h ⊢
      exact ⟨h.1, hHeld h.2.1, fun hMem => h.2.2 (hOrder.mp hMem)⟩
  | reset =>
      simp only [hpc] at h ⊢
      exact ⟨h.1, hHeld h.2.1, fun hMem => h.2.2 (hOrder.mp hMem)⟩
  | enqueue =>
      simp only [hpc] at h ⊢
      rcases h with ⟨hProd, hNot⟩ | ⟨prev, hProd, hMem⟩
      · exact Or.inl ⟨hProd, fun hMem => hNot (hOrder.mp hMem)⟩
      · exact Or.inr ⟨prev, hProd, hOrder.mpr hMem⟩
  | spin =>
      simp only [hpc] at h ⊢
      exact ⟨h.1, hOrder.mpr h.2⟩
  | through =>
      simp only [hpc] at h ⊢
      exact ⟨h.1, hOrder.mpr h.2.1, hFlag h.2.2⟩

/-- A reader that has exchanged its node into the queue has prepared it. -/
theorem RequestInv.begun (h : RequestInv s) (hMem : i ∈ s.mpsc.order) :
    s.phase i ≠ .begin := by
  intro hPhase
  have hAt := h.reader i
  simp only [ReaderAt, hPhase] at hAt
  exact hAt.2.2 hMem

theorem RequestInv.order_lt (h : RequestInv s) (hMem : i ∈ s.mpsc.order) :
    i < s.started := by
  by_contra hBig
  exact h.begun hMem (h.unborn i (by omega))

theorem RequestInv.order_length (h : RequestInv s) :
    s.mpsc.order.length ≤ s.started := by
  have hSub : s.mpsc.order.toFinset ⊆ Finset.range s.started := by
    intro i hi
    exact Finset.mem_range.mpr (h.order_lt (List.mem_toFinset.mp hi))
  have hCard := Finset.card_le_card hSub
  rwa [List.toFinset_card_of_nodup h.nodup, Finset.card_range] at hCard

theorem init_requestInv (p : RnicSweep) : RequestInv (RnicState.init p) where
  reader := by
    intro i
    simp [ReaderAt, RnicState.init, MpscState.init]
  unborn := fun _ _ => rfl
  record := fun i hPhase => absurd rfl hPhase
  gate := fun i hEntry => absurd rfl hEntry
  copying := fun i hpc => absurd rfl hpc
  nodup := List.nodup_nil

/-- Opening the gate wakes sleepers only. -/
theorem openStep_entry {call : OpenCall} {g g' : GateState}
    (hStep : g.openStep call = some g') (hi : g'.waiter i ≠ .entry) :
    g.waiter i ≠ .entry := by
  have hLoop : ∀ t : GateState, t.waiter i = .entry →
      t.gateOpenLoop.waiter i = .entry := by
    intro t ht
    unfold GateState.gateOpenLoop
    split <;> simp [GateState.setOpener, GateState.broadcast, ht]
  intro hEntry
  apply hi
  unfold GateState.openStep at hStep
  split at hStep
  · obtain rfl := Option.some.inj hStep
    exact hLoop _ hEntry
  · obtain rfl := Option.some.inj hStep
    exact hLoop _ hEntry
  · cases hStep
  · cases hStep

theorem RequestInv.mainStep (h : RequestInv s) (hFrame : MainFrame p s s') :
    RequestInv s' where
  reader := by
    intro i
    apply (h.reader i).congr
    · rw [hFrame.phase]
    · rw [hFrame.mpsc]
    · rw [hFrame.mpsc]
      exact id
    · rw [hFrame.mpsc]
    · rw [hFrame.response_ready]
      exact id
  unborn := by
    intro i hi
    have hStarted := hFrame.started
    rw [hFrame.phase]
    exact h.unborn i (by omega)
  record := by
    rw [hFrame.phase, hFrame.payload, hFrame.rdma_req]
    exact h.record
  gate := by
    intro i hi
    rw [hFrame.phase]
    apply h.gate
    rcases hFrame.gate with hSame | ⟨_, _, hOpen⟩
    · rwa [hSame] at hi
    · exact openStep_entry hOpen hi
  copying := by
    rw [hFrame.phase, hFrame.readers]
    exact h.copying
  nodup := by
    rw [hFrame.mpsc]
    exact h.nodup

/-- The consumer of the queue releases nodes and takes nothing else from the
producers. -/
theorem dequeueStep_held (q : MpscState) (hHeld : q.held i = false) :
    q.dequeueStep.held i = false := by
  rcases q.dequeueStep_cases with ⟨head, next, _, hStep⟩ | ⟨_, _, hSame, _⟩
  · rw [hStep]
    show MpscState.release q.held head i = false
    cases head with
    | stub => exact hHeld
    | node id =>
        by_cases hid : i = id
        · simp [MpscState.release, hid]
        · simpa [MpscState.release, hid] using hHeld
  · rw [hSame, hHeld]

/-- What the RNIC does to the queue, the records and the flags. -/
structure RnicEffect (s s' : RnicState) : Prop where
  producer : ∀ j, s'.mpsc.producer j = s.mpsc.producer j
  held : ∀ j, s.mpsc.held j = false → s'.mpsc.held j = false
  order : s'.mpsc.order = s.mpsc.order
  req_id : ∀ j, (s'.rdma_req j).req_id = (s.rdma_req j).req_id
  flag : ∀ j, s.response_ready j = true → s'.response_ready j = true

theorem rnicStep_effect {now : ℚ} (hStep : s.rnicStep p now = some s') :
    RnicEffect s s' := by
  have hSame : RnicEffect s s :=
    ⟨fun _ => rfl, fun _ => id, rfl, fun _ => rfl, fun _ => id⟩
  cases rnicThread_cases hStep with
  | again _ _ hEq => exact hEq ▸ { hSame with }
  | exit _ _ hEq => exact hEq ▸ { hSame with }
  | dequeue rnic _ _ hEq =>
      exact hEq ▸
        { hSame with
          producer := fun j => by rw [MpscState.dequeueStep_producer]
          held := fun j => dequeueStep_held s.mpsc
          order := dequeueStep_order s.mpsc }
  | calculate req _ hEq =>
      refine hEq ▸ { hSame with req_id := ?_ }
      intro j
      by_cases hj : j = req
      · simp [RnicState.rnicCalculate, hj, (Nic.calculate_req _ _ _ _).1]
      · simp [RnicState.rnicCalculate, hj]
  | hold req _ hEq => exact hEq ▸ { hSame with }
  | signal req _ hEq =>
      refine hEq ▸ { hSame with flag := ?_ }
      intro j hj
      simp [Function.update_apply, hj]
  | count _ hEq => exact hEq ▸ { hSame with }

theorem RequestInv.rnicStep {now : ℚ} (h : RequestInv s)
    (hStep : s.rnicStep p now = some s') : RequestInv s' := by
  have hFrame := rnicStep_frame hStep
  have hEffect := rnicStep_effect hStep
  exact
    { reader := fun j => (h.reader j).congr (by rw [hFrame.phase])
        (hEffect.producer j) (hEffect.held j) (by rw [hEffect.order])
        (hEffect.flag j)
      unborn := by
        rw [hFrame.started, hFrame.phase]
        exact h.unborn
      record := by
        intro j hj
        rw [hFrame.phase] at hj
        rw [hFrame.payload, hEffect.req_id]
        exact h.record j hj
      gate := by
        rw [hFrame.gate, hFrame.phase]
        exact h.gate
      copying := by
        rw [hFrame.readers, hFrame.phase]
        exact h.copying
      nodup := by
        rw [hEffect.order]
        exact h.nodup }

/-- The others' share of a step of reader `i`: none. -/
structure OthersSame (s s' : RnicState) (i : Nat) : Prop where
  phase : ∀ j, j ≠ i → s'.phase j = s.phase j
  producer : ∀ j, j ≠ i → s'.mpsc.producer j = s.mpsc.producer j
  held : ∀ j, j ≠ i → s'.mpsc.held j = s.mpsc.held j
  order : ∀ j, j ≠ i → (j ∈ s'.mpsc.order ↔ j ∈ s.mpsc.order)
  payload : ∀ j, j ≠ i → s'.payload (.node j) = s.payload (.node j)
  rdma_req : ∀ j, j ≠ i → s'.rdma_req j = s.rdma_req j

/-- A step of reader `i` on its way to the gate, with its operation on the
queue carried out. -/
inductive RequestStep (s s' : RnicState) (i : Nat) : Prop
  | prepare (now : ℚ) (hPhase : s.phase i = .begin)
      (hIdle : s.mpsc.producer i = .idle) (hFree : s.mpsc.held i = false)
      (hNew : i ∉ s.mpsc.order) (h : s' = s.prepare i now)
  | reset (hPhase : s.phase i = .reset) (hNew : i ∉ s.mpsc.order)
      (h : s' = { s.setPhase i .enqueue with
        mpsc := { s.mpsc with
          q := s.mpsc.q.resetNext (.node i)
          producer := Function.update s.mpsc.producer i (.exchange i)
          held := Function.update s.mpsc.held i true } })
  | exchange (hPhase : s.phase i = .enqueue)
      (hProducer : s.mpsc.producer i = .exchange i) (hNew : i ∉ s.mpsc.order)
      (h : s' = { s with
        mpsc := { s.mpsc with
          q := s.mpsc.q.exchangeTail (.node i)
          producer := Function.update s.mpsc.producer i (.link i s.mpsc.q.tail)
          order := s.mpsc.order ++ [i] } })
  | link (prev : NodePtr) (hPhase : s.phase i = .enqueue)
      (hProducer : s.mpsc.producer i = .link i prev) (hMem : i ∈ s.mpsc.order)
      (h : s' = { s.setPhase i .spin with
        mpsc := { s.mpsc with
          q := s.mpsc.q.linkNext prev (.node i)
          producer := Function.update s.mpsc.producer i .idle } })
  | poll (hPhase : s.phase i = .spin) (hFlag : s.response_ready i = false)
      (h : s' = s)
  | leave (hPhase : s.phase i = .spin) (hFlag : s.response_ready i = true)
      (hIdle : s.mpsc.producer i = .idle) (hMem : i ∈ s.mpsc.order)
      (h : s' = s.setPhase i .through)

theorem RequestMove.step (h : RequestMove s s' i) (hAt : ReaderAt s i) :
    RequestStep s s' i := by
  cases h with
  | prepare now hPhase hEq =>
      simp only [ReaderAt, hPhase] at hAt
      exact .prepare now hPhase hAt.1 hAt.2.1 hAt.2.2 hEq
  | reset mpsc hPhase hMpsc hEq =>
      simp only [ReaderAt, hPhase] at hAt
      obtain ⟨-, rfl⟩ := MpscState.enqueueReset_some hMpsc
      exact .reset hPhase hAt.2.2 hEq
  | exchange mpsc hPhase hMpsc hEq =>
      simp only [ReaderAt, hPhase] at hAt
      rcases hAt with ⟨hProducer, hNew⟩ | ⟨prev, hProducer, _⟩
      · simp only [MpscState.enqueueExchange, hProducer] at hMpsc
        obtain rfl := Option.some.inj hMpsc
        exact .exchange hPhase hProducer hNew hEq
      · simp [MpscState.enqueueExchange, hProducer] at hMpsc
  | link mpsc hPhase hMpsc hEq =>
      simp only [ReaderAt, hPhase] at hAt
      rcases hAt with ⟨hProducer, _⟩ | ⟨prev, hProducer, hMem⟩
      · simp [MpscState.enqueueLink, hProducer] at hMpsc
      · simp only [MpscState.enqueueLink, hProducer] at hMpsc
        obtain rfl := Option.some.inj hMpsc
        exact .link prev hPhase hProducer hMem hEq
  | poll hPhase hFlag hEq => exact .poll hPhase hFlag hEq
  | leave hPhase hFlag hEq =>
      simp only [ReaderAt, hPhase] at hAt
      exact .leave hPhase hFlag hAt.1 hAt.2 hEq

theorem RequestStep.others (h : RequestStep s s' i) : OthersSame s s' i := by
  have hSame : OthersSame s s i :=
    ⟨fun _ _ => rfl, fun _ _ => rfl, fun _ _ => rfl, fun _ _ => Iff.rfl,
      fun _ _ => rfl, fun _ _ => rfl⟩
  have hPhase : ∀ phase j, j ≠ i →
      (s.setPhase i phase).phase j = s.phase j := by
    intro phase j hj
    simp [RnicState.setPhase, hj]
  cases h with
  | prepare now _ _ _ _ hEq =>
      exact hEq ▸
        { hSame with
          phase := hPhase .reset
          payload := fun j hj => by simp [RnicState.prepare, hj]
          rdma_req := fun j hj => by simp [RnicState.prepare, hj] }
  | reset _ _ hEq =>
      exact hEq ▸
        { hSame with
          phase := hPhase .enqueue
          producer := fun j hj => by simp [hj]
          held := fun j hj => by simp [hj] }
  | exchange _ _ _ hEq =>
      exact hEq ▸
        { hSame with
          producer := fun j hj => by simp [hj]
          order := fun j hj => by simp [hj] }
  | link prev _ _ _ hEq =>
      exact hEq ▸
        { hSame with
          phase := hPhase .spin
          producer := fun j hj => by simp [hj] }
  | poll _ _ hEq => exact hEq ▸ hSame
  | leave _ _ _ _ hEq => exact hEq ▸ { hSame with phase := hPhase .through }

/-- Reader `i` re-establishes its own clause, and the others keep theirs. -/
theorem RequestInv.move (h : RequestInv s) (hi : i < s.started)
    (hFrame : RequestFrame s s') (hOthers : OthersSame s s' i)
    (hReader : ReaderAt s' i) (hBegun : s'.phase i ≠ .begin)
    (hRecord : s'.payload (.node i) = some i ∧ (s'.rdma_req i).req_id = i)
    (hStay : s.phase i ≠ .through) (hNodup : s'.mpsc.order.Nodup) :
    RequestInv s' := by
  have hThrough : ∀ j, s.phase j = .through → s'.phase j = .through := by
    intro j hj
    have hNe : j ≠ i := by
      rintro rfl
      exact hStay hj
    rw [hOthers.phase j hNe, hj]
  refine { reader := ?_, unborn := ?_, record := ?_, gate := ?_, copying := ?_,
           nodup := hNodup }
  · intro j
    by_cases hj : j = i
    · rw [hj]
      exact hReader
    · exact (h.reader j).congr (hOthers.phase j hj) (hOthers.producer j hj)
        (fun hFree => (hOthers.held j hj).trans hFree) (hOthers.order j hj)
        (by rw [hFrame.response_ready]; exact id)
  · intro j hj
    rw [hFrame.started] at hj
    rw [hOthers.phase j (by omega)]
    exact h.unborn j hj
  · intro j hj
    by_cases hji : j = i
    · rw [hji]
      exact hRecord
    · rw [hOthers.payload j hji, hOthers.rdma_req j hji]
      rw [hOthers.phase j hji] at hj
      exact h.record j hj
  · intro j hj
    rw [hFrame.gate] at hj
    exact hThrough j (h.gate j hj)
  · intro j hj
    rw [hFrame.readers] at hj
    exact hThrough j (h.copying j hj)

/-- A step of reader `i` on its way to the gate moves its own clause on and
leaves those of the others alone. -/
theorem RequestInv.request (h : RequestInv s) (hi : i < s.started)
    (hMove : RequestMove s s' i) : RequestInv s' := by
  have hStep := hMove.step (h.reader i)
  have hFrame := requestMove_frame hMove
  have hOthers := hStep.others
  have hRecord := h.record i
  cases hStep with
  | prepare now hPhase hIdle hFree hNew hEq =>
      subst hEq
      apply h.move hi hFrame hOthers
      · simp [ReaderAt, RnicState.prepare, RnicState.setPhase, hIdle, hFree,
          hNew]
      · simp [RnicState.prepare, RnicState.setPhase]
      · simp [RnicState.prepare]
      · simp [hPhase]
      · exact h.nodup
  | reset hPhase hNew hEq =>
      subst hEq
      apply h.move hi hFrame hOthers
      · simp [ReaderAt, RnicState.setPhase, hNew]
      · simp [RnicState.setPhase]
      · exact hRecord (by simp [hPhase])
      · simp [hPhase]
      · exact h.nodup
  | exchange hPhase hProducer hNew hEq =>
      subst hEq
      apply h.move hi hFrame hOthers
      · simp [ReaderAt, hPhase]
      · simp [hPhase]
      · exact hRecord (by simp [hPhase])
      · simp [hPhase]
      · refine List.nodup_append.mpr ⟨h.nodup, by simp, ?_⟩
        intro a ha b hb hab
        rw [List.mem_singleton.mp hb] at hab
        exact hNew (hab ▸ ha)
  | link prev hPhase hProducer hMem hEq =>
      subst hEq
      apply h.move hi hFrame hOthers
      · simp [ReaderAt, RnicState.setPhase, hMem]
      · simp [RnicState.setPhase]
      · exact hRecord (by simp [hPhase])
      · simp [hPhase]
      · exact h.nodup
  | poll _ _ hEq =>
      subst hEq
      exact h
  | leave hPhase hFlag hIdle hMem hEq =>
      subst hEq
      apply h.move hi hFrame hOthers
      · simp [ReaderAt, RnicState.setPhase, hIdle, hMem, hFlag]
      · simp [RnicState.setPhase]
      · exact hRecord (by simp [hPhase])
      · simp [hPhase]
      · exact h.nodup

theorem rnic_requestInv (hs : (rnicMachine p).Reachable s) : RequestInv s := by
  refine hs.invariant (init_requestInv p) ?_
  intro s e s' _ h hStep
  cases rnic_cases hStep with
  | main hMain => exact h.mainStep (rnicMain_frame hMain)
  | rnic now hRnic => exact h.rnicStep hRnic
  | request i hi hMove => exact h.request hi hMove
  | gate gate _ hPhase hEq =>
      subst hEq
      refine { h with gate := ?_, reader := h.reader }
      intro i hi
      rcases hPhase i hi with hOld | hThrough
      · exact h.gate i hOld
      · exact hThrough
  | copy i readers _ hPhase _ hReader hEq =>
      subst hEq
      refine { h with copying := ?_, reader := h.reader }
      intro j hj
      by_cases hji : j = i
      · rw [hji]
        exact hPhase
      · exact h.copying j ((readerStep_other hReader hji).1 ▸ hj)

end Request

/-! ## The machines inside -/

/-- The readers use the queue as intended: a node is enqueued once. -/
theorem rnic_projects_mpsc (p : RnicSweep) :
    Machine.Projects (rnicMachine p) (mpscMachine fun _ => none)
      RnicState.mpsc where
  start := rfl
  step := by
    intro s e s' hs hStep
    have hRequest := rnic_requestInv hs
    cases rnic_cases hStep with
    | main hMain => exact Or.inl (rnicMain_frame hMain).mpsc
    | rnic now hRnic =>
        rcases (rnicStep_frame hRnic).mpsc with hSame | hDequeue
        · exact Or.inl hSame
        · exact Or.inr ⟨.dequeue, by rw [hDequeue]; rfl⟩
    | request i _ hMove =>
        cases hMove with
        | prepare now _ hEq =>
            subst hEq
            exact Or.inl rfl
        | reset mpsc hPhase hMpsc hEq =>
            subst hEq
            have hAt := hRequest.reader i
            simp only [ReaderAt, hPhase] at hAt
            refine Or.inr ⟨.reset i i, ?_⟩
            simp only [mpscMachine]
            rw [hAt.2.1]
            exact hMpsc
        | exchange mpsc _ hMpsc hEq =>
            subst hEq
            exact Or.inr ⟨.exchange i, hMpsc⟩
        | link mpsc _ hMpsc hEq =>
            subst hEq
            exact Or.inr ⟨.link i, hMpsc⟩
        | poll _ _ hEq =>
            subst hEq
            exact Or.inl rfl
        | leave _ _ hEq =>
            subst hEq
            exact Or.inl rfl
    | gate gate _ _ hEq =>
        subst hEq
        exact Or.inl rfl
    | copy i readers _ _ _ _ hEq =>
        subst hEq
        exact Or.inl rfl

theorem rnic_projects_readers (p : RnicSweep) :
    Machine.Projects (rnicMachine p)
      (readersMachine p.active_requests p.body p.scratch)
      RnicState.readers where
  start := rfl
  step := by
    intro s e s' hs hStep
    cases rnic_cases hStep with
    | main hMain => exact Or.inl (rnicMain_frame hMain).readers
    | rnic now hRnic => exact Or.inl (rnicStep_frame hRnic).readers
    | request i _ hMove => exact Or.inl (requestMove_frame hMove).readers
    | gate gate _ _ hEq =>
        subst hEq
        exact Or.inl rfl
    | copy i readers hi _ _ hReader hEq =>
        subst hEq
        refine Or.inr ⟨i, ?_⟩
        have hStarted := (rnic_mainInv hs).started_le
        have hCrew := p.crew_le
        simp only [readersMachine]
        rw [if_pos (by omega)]
        exact hReader

theorem rnic_projects_gate (p : RnicSweep) :
    Machine.Projects (rnicMachine p)
      (gateMachine p.active_requests p.openCall) RnicState.gate where
  start := rfl
  step := by
    intro s e s' hs hStep
    have hMainInv := rnic_mainInv hs
    have hStarted := hMainInv.started_le
    cases rnic_cases hStep with
    | main hMain =>
        rcases (rnicMain_frame hMain).gate with hSame | ⟨failed, hpc, hOpen⟩
        · exact Or.inl hSame
        · right
          simp only [RnicMainInv, hpc] at hMainInv
          rcases hMainInv with ⟨_, hFailed, _, hCreated, _⟩
          refine ⟨.opens, ?_⟩
          rw [RnicSweep.openCall_eq hFailed hCreated]
          exact hOpen
    | rnic now hRnic => exact Or.inl (rnicStep_frame hRnic).gate
    | request i _ hMove => exact Or.inl (requestMove_frame hMove).gate
    | gate gate hMove _ hEq =>
        subst hEq
        right
        cases hMove with
        | wait i hi h =>
            have hi' : i < p.openCall.waiters p.active_requests := by
              rw [RnicSweep.openCall_waiters]
              omega
            exact ⟨.wait i, (gateMachine_wait hi').trans h⟩
        | wakeWaiter i hi h =>
            have hi' : i < p.openCall.waiters p.active_requests := by
              rw [RnicSweep.openCall_waiters]
              omega
            exact ⟨.wakeWaiter i, (gateMachine_wakeWaiter hi').trans h⟩
        | wakeOpener h => exact ⟨.wakeOpener, h⟩
    | copy i readers _ _ _ _ hEq =>
        subst hEq
        exact Or.inl rfl

/-! ## What the RNIC has done -/

namespace RnicPc

/-- The request in the RNIC's hands. -/
def hand : RnicPc → Option Nat
  | calculate req => some req
  | hold req => some req
  | signal req => some req
  | _ => none

/-- The RNIC has no request to see to. -/
def Idle (pc : RnicPc) : Prop :=
  pc = unborn ∨ pc = loop ∨ pc = dequeue ∨ pc = exited

/-- Requests dequeued and not counted yet. -/
def pending : RnicPc → Nat
  | calculate _ => 1
  | hold _ => 1
  | signal _ => 1
  | count => 1
  | _ => 0

end RnicPc

/-- The flags that are up. -/
def RnicState.flags (s : RnicState) (n : Nat) : Nat := tally n s.response_ready

structure RnicInv (p : RnicSweep) (s : RnicState) : Prop where
  counted : s.done + s.rnic.pending = s.mpsc.returned.length
  hand : ∀ i, s.rnic.hand = some i → .node i ∈ s.mpsc.returned
  flag : ∀ i, s.response_ready i = true ↔
    .node i ∈ s.mpsc.returned ∧ s.rnic.hand ≠ some i
  flags : s.flags p.active_requests =
    s.done + if s.rnic = .count then 1 else 0
  stamped : ∀ i, i ∈ s.stamped ↔
    .node i ∈ s.mpsc.returned ∧ s.rnic ≠ .calculate i
  stampedOnce : s.stamped.Nodup
  unstamped : ∀ i, i ∉ s.stamped →
    (s.rdma_req i).expire_time = (s.rdma_req i).stime
  expires : ∀ i, i ∈ s.stamped →
    (s.rdma_req i).stime + 1000 ≤ (s.rdma_req i).expire_time
  call : s.rnic ≠ .dequeue → s.mpsc.consumer = .idle
  busy : s.rnic = .dequeue → s.done < p.active_requests
  exited : s.rnic = .exited → p.active_requests ≤ s.done
  fault : s.rnic ≠ .fault

section Rnic

variable {p : RnicSweep} {s s' : RnicState} {i : Nat}

/-- What the queue has returned, where every node is enqueued once. -/
structure ReturnedOnce (q : MpscState) : Prop where
  node : ∀ x, x ∈ q.returned → ∃ i, x = .node i ∧ i ∈ q.order
  nodup : q.returned.Nodup
  length : q.returned.length ≤ q.order.length

theorem returnedOnce {next : NodePtr → Option NodePtr} {q : MpscState}
    (hq : (mpscMachine next).Reachable q) (hNodup : q.order.Nodup) :
    ReturnedOnce q := by
  have hPrefix : q.returned <+: q.order.map .node :=
    Fifo.left_prefix ((mpscMachine_projects next).reachable hq)
  refine { node := ?_, nodup := ?_, length := ?_ }
  · intro x hx
    rcases List.mem_map.mp (hPrefix.subset hx) with ⟨i, hi, rfl⟩
    exact ⟨i, rfl, hi⟩
  · apply hPrefix.sublist.nodup
    exact hNodup.map fun a b hab => NodePtr.node.inj hab
  · simpa using hPrefix.length_le

/-- A node that has been returned is no longer its reader's. -/
theorem RequestInv.order_of_returned (h : RequestInv s)
    (hs : (rnicMachine p).Reachable s) (hi : .node i ∈ s.mpsc.returned) :
    i ∈ s.mpsc.order := by
  rcases (returnedOnce ((rnic_projects_mpsc p).reachable hs) h.nodup).node _ hi
    with ⟨j, hj, hMem⟩
  rw [NodePtr.node.inj hj]
  exact hMem

theorem init_rnicInv (p : RnicSweep) : RnicInv p (RnicState.init p) where
  counted := rfl
  hand := by simp [RnicState.init, RnicPc.hand]
  flag := by simp [RnicState.init, MpscState.init]
  flags := by simp [RnicState.init, RnicState.flags, tally]
  stamped := by simp [RnicState.init, MpscState.init]
  stampedOnce := List.nodup_nil
  unstamped := fun _ _ => rfl
  expires := by simp [RnicState.init]
  call := fun _ => rfl
  busy := by simp [RnicState.init]
  exited := by simp [RnicState.init]
  fault := by simp [RnicState.init]

/-- What the clauses say of an RNIC that has no request. -/
theorem RnicPc.Idle.spec {pc : RnicPc} (h : pc.Idle) :
    pc.hand = none ∧ pc.pending = 0 ∧ pc ≠ .count ∧ pc ≠ .fault ∧
      ∀ i, pc ≠ .calculate i := by
  rcases h with rfl | rfl | rfl | rfl <;> simp [RnicPc.hand, RnicPc.pending]

/-- The RNIC's clauses survive steps that touch nothing of the RNIC's. -/
theorem RnicInv.congr (h : RnicInv p s)
    (hReturned : s'.mpsc.returned = s.mpsc.returned)
    (hConsumer : s'.mpsc.consumer = s.mpsc.consumer) (hRnic : s'.rnic = s.rnic)
    (hFlags : s'.response_ready = s.response_ready) (hDone : s'.done = s.done)
    (hStamped : s'.stamped = s.stamped)
    (hReq : ∀ j, s'.rdma_req j = s.rdma_req j ∨ (j ∉ s.stamped ∧
      (s'.rdma_req j).expire_time = (s'.rdma_req j).stime)) :
    RnicInv p s' where
  counted := by rw [hDone, hRnic, hReturned]; exact h.counted
  hand := by rw [hRnic, hReturned]; exact h.hand
  flag := by rw [hFlags, hRnic, hReturned]; exact h.flag
  flags := by rw [RnicState.flags, hFlags, hDone, hRnic]; exact h.flags
  stamped := by rw [hStamped, hRnic, hReturned]; exact h.stamped
  stampedOnce := by rw [hStamped]; exact h.stampedOnce
  unstamped := by
    intro j hj
    rw [hStamped] at hj
    rcases hReq j with hSame | ⟨_, hFresh⟩
    · rw [hSame]
      exact h.unstamped j hj
    · exact hFresh
  expires := by
    intro j hj
    rw [hStamped] at hj
    rcases hReq j with hSame | ⟨hNot, _⟩
    · rw [hSame]
      exact h.expires j hj
    · exact absurd hj hNot
  call := by rw [hRnic, hConsumer]; exact h.call
  busy := by rw [hRnic, hDone]; exact h.busy
  exited := by rw [hRnic, hDone]; exact h.exited
  fault := by rw [hRnic]; exact h.fault

/-- While the RNIC has no request, its books stay as they are. -/
theorem RnicInv.idle (h : RnicInv p s) (hFrom : s.rnic.Idle) {rnic : RnicPc}
    (hTo : rnic.Idle) {mpsc : MpscState}
    (hReturned : mpsc.returned = s.mpsc.returned)
    (hCall : rnic ≠ .dequeue → mpsc.consumer = .idle)
    (hBusy : rnic = .dequeue → s.done < p.active_requests)
    (hExited : rnic = .exited → p.active_requests ≤ s.done) :
    RnicInv p { s with mpsc := mpsc, rnic := rnic } := by
  rcases hFrom.spec with ⟨hHand, hPending, hCount, _, hCalculate⟩
  rcases hTo.spec with ⟨hHand', hPending', hCount', hFault', hCalculate'⟩
  have hFlags := h.flags
  rw [if_neg hCount] at hFlags
  exact
    { counted := by
        show s.done + rnic.pending = mpsc.returned.length
        rw [hPending', hReturned, ← h.counted, hPending]
      hand := by simp [hHand']
      flag := by
        intro i
        show s.response_ready i = true ↔
          .node i ∈ mpsc.returned ∧ rnic.hand ≠ some i
        rw [h.flag i, hHand, hHand', hReturned]
      flags := by
        rw [if_neg hCount']
        exact hFlags
      stamped := by
        intro i
        show i ∈ s.stamped ↔ .node i ∈ mpsc.returned ∧ rnic ≠ .calculate i
        rw [h.stamped i, hReturned]
        simp [hCalculate i, hCalculate' i]
      stampedOnce := h.stampedOnce
      unstamped := h.unstamped
      expires := h.expires
      call := hCall
      busy := hBusy
      exited := hExited
      fault := hFault' }

/-- The queue returns a node: it is one reader's, and new. -/
theorem RnicInv.take (h : RnicInv p s) (hpc : s.rnic = .dequeue) {req : Nat}
    (next : NodePtr) (hNew : .node req ∉ s.mpsc.returned) :
    RnicInv p { s with
      mpsc := s.mpsc.returnHead (.node req) next
      rnic := .calculate req } := by
  have hCounted := h.counted
  have hFlag := h.flag
  have hTally := h.flags
  have hStamped := h.stamped
  simp only [hpc, RnicPc.pending] at hCounted
  simp only [hpc, RnicPc.hand] at hFlag
  simp only [hpc, reduceCtorEq, if_false] at hTally
  simp only [hpc] at hStamped
  have hIn : ∀ j, NodePtr.node j ∈
      (s.mpsc.returnHead (.node req) next).returned ↔
        .node j ∈ s.mpsc.returned ∨ j = req := by
    intro j
    simp [MpscState.returnHead]
  have hDown : s.response_ready req = false := by
    cases hUp : s.response_ready req with
    | false => rfl
    | true => exact absurd ((hFlag req).mp hUp).1 hNew
  refine
    { counted := ?_, hand := ?_, flag := ?_, flags := hTally, stamped := ?_
      stampedOnce := h.stampedOnce, unstamped := h.unstamped
      expires := h.expires, call := fun _ => rfl, busy := ?_, exited := ?_
      fault := ?_ }
  · simp only [RnicPc.pending, MpscState.returnHead, List.length_append,
      List.length_singleton]
    omega
  · intro j hj
    exact (hIn j).mpr (Or.inr (Option.some.inj hj).symm)
  · intro j
    rw [hIn]
    simp only [RnicPc.hand, ne_eq, Option.some.injEq]
    constructor
    · intro hUp
      refine ⟨Or.inl ((hFlag j).mp hUp).1, ?_⟩
      rintro rfl
      rw [hDown] at hUp
      cases hUp
    · rintro ⟨hOld | hj, hNe⟩
      · exact (hFlag j).mpr ⟨hOld, by simp⟩
      · exact absurd hj.symm hNe
  · intro j
    rw [hIn]
    simp only [hStamped, RnicPc.calculate.injEq, ne_eq, reduceCtorEq,
      not_false_eq_true, and_true]
    constructor
    · intro hOld
      exact ⟨Or.inl hOld, fun hj => hNew (hj ▸ hOld)⟩
    · rintro ⟨hOld | hj, hNe⟩
      · exact hOld
      · exact absurd hj.symm hNe
  · simp
  · simp
  · simp

/-- One operation of `mpsc_dequeue` inside `rnic_thread`: what it returns goes
to the calculation, and everything else leaves the books as they are. -/
theorem RnicInv.dequeue (h : RnicInv p s) (hs : (rnicMachine p).Reachable s)
    (hRequest : RequestInv s) (hpc : s.rnic = .dequeue) :
    RnicInv p s.rnicDequeue := by
  have hMpsc := (rnic_projects_mpsc p).reachable hs
  rw [rnicDequeue_eq hpc]
  rcases s.mpsc.dequeueStep_cases with ⟨head, next, _, hStep⟩ |
    ⟨_, hReturned, _, hNull⟩
  · have hNext : (mpscMachine fun _ => none).Reachable
        (s.mpsc.returnHead head next) := by
      apply hMpsc.next (e := MpscEvent.dequeue)
      show some s.mpsc.dequeueStep = _
      rw [hStep]
    have hOnce := returnedOnce hNext hRequest.nodup
    rcases hOnce.node head (by simp [MpscState.returnHead]) with
      ⟨req, rfl, hMem⟩
    have hNew : .node req ∉ s.mpsc.returned := by
      have hNodup : (s.mpsc.returned ++ [NodePtr.node req]).Nodup := hOnce.nodup
      intro hOld
      exact (List.nodup_append.mp hNodup).2.2 _ hOld _ (by simp) rfl
    have hRecord := hRequest.record req (hRequest.begun hMem)
    have hReceived : RnicState.received
        { s with mpsc := s.mpsc.returnHead (.node req) next } =
          .calculate req := by
      simp [RnicState.received, MpscState.returnHead, hRecord.1]
    have hIdle : (s.mpsc.returnHead (.node req) next).consumer = .idle := rfl
    rw [hStep, if_pos hIdle, hReceived]
    exact h.take hpc next hNew
  · -- Nothing is returned: the call goes on, or the loop polls again.
    have hFrom : s.rnic.Idle := by simp [RnicPc.Idle, hpc]
    by_cases hIdle : s.mpsc.dequeueStep.consumer = .idle
    · have hReceived : RnicState.received
          { s with mpsc := s.mpsc.dequeueStep } = .loop := by
        have hNone : s.mpsc.dequeueStep.result = none := hNull hIdle
        simp [RnicState.received, hNone]
      rw [if_pos hIdle, hReceived]
      exact h.idle hFrom (by simp [RnicPc.Idle]) hReturned (fun _ => hIdle)
        (by simp) (by simp)
    · rw [if_neg hIdle]
      exact h.idle hFrom (by simp [RnicPc.Idle]) hReturned (by simp)
        (fun _ => h.busy hpc) (by simp)

/-- The calculation: the request is stamped, once. -/
theorem RnicInv.calculate (h : RnicInv p s) {req : Nat}
    (hpc : s.rnic = .calculate req) : RnicInv p (s.rnicCalculate p req) := by
  have hIn := h.hand req (by rw [hpc]; rfl)
  have hNew : req ∉ s.stamped := by
    intro hOld
    exact ((h.stamped req).mp hOld).2 hpc
  have hCalc := Nic.calculate_req s.nic s.lag (s.rdma_req req)
    (s.nic.serviceNs p.req_bytes)
  refine
    { counted := ?_, hand := ?_, flag := ?_, flags := ?_, stamped := ?_
      stampedOnce := ?_, unstamped := ?_, expires := ?_, call := ?_
      busy := ?_, exited := ?_, fault := ?_ }
  · have hCounted := h.counted
    rw [hpc] at hCounted
    exact hCounted
  · intro j hj
    exact h.hand j (by rw [hpc]; exact hj)
  · have hFlag := h.flag
    rw [hpc] at hFlag
    exact hFlag
  · have hTally := h.flags
    rw [hpc] at hTally
    exact hTally
  · intro j
    have hStamped := h.stamped j
    rw [hpc] at hStamped
    simp only [RnicState.rnicCalculate, List.mem_append, List.mem_singleton,
      hStamped, RnicPc.calculate.injEq, ne_eq, reduceCtorEq, not_false_eq_true,
      and_true]
    constructor
    · rintro (hOld | hj)
      · exact hOld.1
      · rw [hj]
        exact hIn
    · intro hj
      by_cases hEq : j = req
      · exact Or.inr hEq
      · exact Or.inl ⟨hj, fun hBad => hEq hBad.symm⟩
  · show (s.stamped ++ [req]).Nodup
    refine List.nodup_append.mpr ⟨h.stampedOnce, by simp, ?_⟩
    intro a ha b hb hab
    rw [List.mem_singleton.mp hb] at hab
    exact hNew (hab ▸ ha)
  · intro j hj
    have hj' : j ∉ s.stamped ∧ j ≠ req := by
      simpa [RnicState.rnicCalculate] using hj
    simpa [RnicState.rnicCalculate, hj'.2] using h.unstamped j hj'.1
  · intro j hj
    by_cases hEq : j = req
    · have hFresh := h.unstamped req hNew
      simp only [RnicState.rnicCalculate, hEq, Function.update_self]
      rw [hCalc.2.1, ← hFresh]
      exact hCalc.2.2
    · have hOld : j ∈ s.stamped := by
        simpa [RnicState.rnicCalculate, hEq] using hj
      simpa [RnicState.rnicCalculate, hEq] using h.expires j hOld
  · intro _
    exact h.call (by simp [hpc])
  · simp [RnicState.rnicCalculate]
  · simp [RnicState.rnicCalculate]
  · simp [RnicState.rnicCalculate]

/-- Only `Function.update` at `req` separates the flags before and after. -/
theorem flags_signal {n req : Nat} {ready : Nat → Bool} (hReq : req < n)
    (hDown : ready req = false) :
    tally n (Function.update ready req true) = tally n ready + 1 := by
  have hChange := tally_change (p := ready)
    (q := Function.update ready req true) hReq
    (by
      intro j hj
      simp [hj])
  simp only [Function.update_self, hDown, Bool.toNat_true,
    Bool.toNat_false] at hChange
  omega

/-- The flag of the request in hand goes up, and the request is out of hand. -/
theorem RnicInv.signal (h : RnicInv p s) {req : Nat} (hpc : s.rnic = .signal req)
    (hId : (s.rdma_req req).req_id = req) (hReq : req < p.active_requests) :
    RnicInv p { s with
      response_ready :=
        Function.update s.response_ready (s.rdma_req req).req_id true
      rnic := .count } := by
  have hIn := h.hand req (by rw [hpc]; rfl)
  have hDown : s.response_ready req = false := by
    cases hUp : s.response_ready req with
    | false => rfl
    | true => exact absurd (by rw [hpc]; rfl) ((h.flag req).mp hUp).2
  rw [hId]
  refine
    { counted := ?_, hand := ?_, flag := ?_, flags := ?_, stamped := ?_
      stampedOnce := h.stampedOnce, unstamped := h.unstamped
      expires := h.expires, call := ?_, busy := ?_, exited := ?_, fault := ?_ }
  · have hCounted := h.counted
    rw [hpc] at hCounted
    exact hCounted
  · intro j hj
    cases hj
  · intro j
    have hFlag := h.flag j
    simp only [hpc, RnicPc.hand, ne_eq, Option.some.injEq] at hFlag
    simp only [RnicPc.hand, Function.update_apply]
    by_cases hEq : j = req
    · simp [hEq, hIn]
    · have hNe : ¬ req = j := fun hBad => hEq hBad.symm
      simpa [hEq, hNe] using hFlag
  · have hTally := h.flags
    simp only [hpc, reduceCtorEq, if_false, RnicState.flags] at hTally
    have hUp := flags_signal hReq hDown
    simp only [RnicState.flags, if_true]
    omega
  · have hStamped := h.stamped
    simpa [hpc] using hStamped
  · intro _
    exact h.call (by simp [hpc])
  · simp
  · simp
  · simp

/-- The request is counted, and the RNIC has none. -/
theorem RnicInv.count (h : RnicInv p s) (hpc : s.rnic = .count)
    (hNext : (s.done + 1) % 2 ^ 32 = s.done + 1) :
    RnicInv p { s with done := (s.done + 1) % 2 ^ 32, rnic := .loop } := by
  have hCounted := h.counted
  have hFlag := h.flag
  have hTally := h.flags
  have hStamped := h.stamped
  simp only [hpc, RnicPc.pending] at hCounted
  simp only [hpc, RnicPc.hand] at hFlag
  simp only [hpc, if_true] at hTally
  simp only [hpc] at hStamped
  rw [hNext]
  exact
    { counted := hCounted, hand := by simp [RnicPc.hand], flag := hFlag
      flags := by simpa [RnicState.flags] using hTally
      stamped := by simpa using hStamped
      stampedOnce := h.stampedOnce, unstamped := h.unstamped
      expires := h.expires, call := fun _ => h.call (by simp [hpc])
      busy := by simp, exited := by simp, fault := by simp }

/-- The clock has run out: the request is still in hand. -/
theorem RnicInv.release (h : RnicInv p s) {req : Nat} (hpc : s.rnic = .hold req)
    (nic : Nic) : RnicInv p { s with nic := nic, rnic := .signal req } := by
  have hCounted := h.counted
  have hHand := h.hand
  have hFlag := h.flag
  have hTally := h.flags
  have hStamped := h.stamped
  rw [hpc] at hCounted hHand hFlag hTally
  simp only [hpc] at hStamped
  exact
    { counted := hCounted, hand := hHand, flag := hFlag, flags := hTally
      stamped := by simpa using hStamped
      stampedOnce := h.stampedOnce, unstamped := h.unstamped
      expires := h.expires, call := fun _ => h.call (by simp [hpc])
      busy := by simp, exited := by simp, fault := by simp }

/-- No more requests are counted than there are readers. -/
theorem RnicInv.done_le (h : RnicInv p s) (hs : (rnicMachine p).Reachable s) :
    s.done + s.rnic.pending ≤ s.started := by
  have hRequest := rnic_requestInv hs
  have hReturned := (returnedOnce ((rnic_projects_mpsc p).reachable hs)
    hRequest.nodup).length
  have hOrder := hRequest.order_length
  have hCounted := h.counted
  omega

theorem RnicInv.rnicStep {now : ℚ} (h : RnicInv p s)
    (hs : (rnicMachine p).Reachable s) (hLimit : p.active_requests < 2 ^ 32)
    (hStep : s.rnicStep p now = some s') : RnicInv p s' := by
  have hRequest := rnic_requestInv hs
  have hStarted := (rnic_mainInv hs).started_le
  have hCrew := p.crew_le
  cases rnicThread_cases hStep with
  | again hpc hMore hEq =>
      subst hEq
      exact h.idle (by simp [RnicPc.Idle, hpc]) (by simp [RnicPc.Idle]) rfl
        (by simp) (fun _ => hMore) (by simp)
  | exit hpc hEnough hEq =>
      subst hEq
      exact h.idle (by simp [RnicPc.Idle, hpc]) (by simp [RnicPc.Idle]) rfl
        (fun _ => h.call (by simp [hpc])) (by simp) (fun _ => hEnough)
  | dequeue rnic hpc hRnic hEq =>
      rw [hEq, hRnic, ← rnicDequeue_eq hpc]
      exact h.dequeue hs hRequest hpc
  | calculate req hpc hEq => exact hEq ▸ h.calculate hpc
  | hold req hpc hEq => exact hEq ▸ h.release hpc _
  | signal req hpc hEq =>
      have hMem := hRequest.order_of_returned hs
        (h.hand req (by rw [hpc]; rfl))
      have hReq := hRequest.order_lt hMem
      exact hEq ▸ h.signal hpc (hRequest.record req (hRequest.begun hMem)).2
        (by omega)
  | count hpc hEq =>
      have hDone := h.done_le hs
      simp only [hpc, RnicPc.pending] at hDone
      exact hEq ▸ h.count hpc (Nat.mod_eq_of_lt (by omega))

/-- A reader on its way to the gate touches the RNIC's books only where it
prepares its own record, which has not been stamped then. -/
theorem RnicInv.request (h : RnicInv p s) (hs : (rnicMachine p).Reachable s)
    (hMove : RequestMove s s' i) : RnicInv p s' := by
  have hRequest := rnic_requestInv hs
  have hFrame := requestMove_frame hMove
  have hMpsc : s'.mpsc.returned = s.mpsc.returned ∧
      s'.mpsc.consumer = s.mpsc.consumer ∧
      ∀ j, s'.rdma_req j = s.rdma_req j ∨ (j ∉ s.stamped ∧
        (s'.rdma_req j).expire_time = (s'.rdma_req j).stime) := by
    cases hMove.step (hRequest.reader i) with
    | prepare now _ _ _ hNew hEq =>
        subst hEq
        refine ⟨rfl, rfl, ?_⟩
        intro j
        by_cases hj : j = i
        · right
          rw [hj]
          refine ⟨?_, by simp [RnicState.prepare]⟩
          intro hOld
          exact hNew (hRequest.order_of_returned hs ((h.stamped i).mp hOld).1)
        · left
          simp [RnicState.prepare, hj]
    | reset _ _ hEq => exact hEq ▸ ⟨rfl, rfl, fun _ => Or.inl rfl⟩
    | exchange _ _ _ hEq => exact hEq ▸ ⟨rfl, rfl, fun _ => Or.inl rfl⟩
    | link prev _ _ _ hEq => exact hEq ▸ ⟨rfl, rfl, fun _ => Or.inl rfl⟩
    | poll _ _ hEq => exact hEq ▸ ⟨rfl, rfl, fun _ => Or.inl rfl⟩
    | leave _ _ _ _ hEq => exact hEq ▸ ⟨rfl, rfl, fun _ => Or.inl rfl⟩
  exact h.congr hMpsc.1 hMpsc.2.1 hFrame.rnic hFrame.response_ready hFrame.done
    hFrame.stamped hMpsc.2.2

theorem rnic_inv (hLimit : p.active_requests < 2 ^ 32)
    (hs : (rnicMachine p).Reachable s) : RnicInv p s := by
  refine hs.invariant (init_rnicInv p) ?_
  intro s e s' hs h hStep
  cases rnic_cases hStep with
  | main hMain =>
      have hFrame := rnicMain_frame hMain
      have hSame : s'.rnic = s.rnic → RnicInv p s' := fun hRnic =>
        h.congr (by rw [hFrame.mpsc]) (by rw [hFrame.mpsc]) hRnic
          hFrame.response_ready hFrame.done hFrame.stamped
          (fun j => Or.inl (by rw [hFrame.rdma_req]))
      rcases hFrame.rnic with hRnic | ⟨hpc, hLoop⟩
      · exact hSame hRnic
      · -- The RNIC thread is born.
        have hMainInv := rnic_mainInv hs
        simp only [RnicMainInv, hpc] at hMainInv
        have hBorn : RnicInv p { s with rnic := .loop } :=
          h.idle (by simp [RnicPc.Idle, hMainInv.2.2.2.1])
            (by simp [RnicPc.Idle]) rfl
            (fun _ => h.call (by simp [hMainInv.2.2.2.1])) (by simp) (by simp)
        exact hBorn.congr (by rw [hFrame.mpsc]) (by rw [hFrame.mpsc]) hLoop
          hFrame.response_ready hFrame.done hFrame.stamped
          (fun j => Or.inl (by rw [hFrame.rdma_req]))
  | rnic now hRnic => exact h.rnicStep hs hLimit hRnic
  | request i _ hMove => exact h.request hs hMove
  | gate gate _ _ hEq =>
      subst hEq
      exact h.congr rfl rfl rfl rfl rfl rfl fun _ => Or.inl rfl
  | copy i readers _ _ _ _ hEq =>
      subst hEq
      exact h.congr rfl rfl rfl rfl rfl rfl fun _ => Or.inl rfl

end Rnic

end MioBench.Sync
