import MioBench.Lib.IntrusiveList
import MioBench.Sync.Mpsc

/-!
# The chain behind the queue

At every instant the queue stands for one list of nodes, the *chain*: the
nodes exchanged into `tail` and not yet passed by `head`.  It is an intrusive
list whose pending links are those of the enqueues between exchange and link,
the consumer's own re-arming of the stub among them.  `ChainInv` states this,
with what the producers own and what the consumer remembers at each of its
operations; every atomic operation keeps it.
-/

namespace MioBench.Sync

open MioBench.Lib

/-- The link from `a` to `b` is still to be stored: a producer, or the
consumer re-arming the stub, is between its exchange and its link. -/
def MpscState.Pending (s : MpscState) (a b : NodePtr) : Prop :=
  (∃ p node, s.producer p = .link node a ∧ b = .node node) ∨
    ∃ head, s.consumer = .rearmLink head a ∧ b = .stub

/-- What the consumer knows at each of its operations. -/
def ConsumerInv (s : MpscState) (chain : List NodePtr) : Prop :=
  match s.consumer with
  | .idle => True
  | .loadNext head => s.q.head = head
  | .skipStub next => s.q.head = .stub ∧ s.q.next .stub = some next
  | .reloadNext head => s.q.head = head ∧ head ≠ .stub
  | .pop head next =>
      s.q.head = head ∧ head ≠ .stub ∧ s.q.next head = some next
  | .loadTail head => s.q.head = head ∧ head ≠ .stub
  | .rearmReset head => s.q.head = head ∧ head ≠ .stub ∧ .stub ∉ chain
  | .rearmExchange head =>
      s.q.head = head ∧ head ≠ .stub ∧ .stub ∉ chain ∧
        s.q.next .stub = none
  | .rearmLink head _ => s.q.head = head ∧ head ≠ .stub
  | .rearmReload head => s.q.head = head ∧ head ≠ .stub ∧ .stub ∈ chain

/-- The memory of the queue represents `chain`. -/
structure ChainInv (s : MpscState) (chain : List NodePtr) : Prop
    extends IntrusiveList s.q.next s.Pending s.q.head s.q.tail chain where
  fifo : s.order.map .node = s.returned ++ chain.filter (· ≠ .stub)
  fresh : ∀ p node, s.producer p = .exchange node →
    .node node ∉ chain ∧ s.q.next (.node node) = none
  owner : ∀ p p' node, (s.producer p).node? = some node →
    (s.producer p').node? = some node → p = p'
  heldBusy : ∀ p node, (s.producer p).node? = some node →
    s.held node = true
  heldChain : ∀ node, NodePtr.node node ∈ chain → s.held node = true
  consumer : ConsumerInv s chain

/-- Others' operations touch nothing the consumer remembers. -/
theorem ConsumerInv.congr {s s' : MpscState} {chain chain' : List NodePtr}
    (h : ConsumerInv s chain) (hConsumer : s'.consumer = s.consumer)
    (hHead : s'.q.head = s.q.head)
    (hNext : ∀ b, s.q.next s.q.head = some b → s'.q.next s.q.head = some b)
    (hStub : NodePtr.stub ∉ chain → s'.q.next .stub = s.q.next .stub)
    (hMem : NodePtr.stub ∈ chain' ↔ NodePtr.stub ∈ chain) :
    ConsumerInv s' chain' := by
  unfold ConsumerInv at h ⊢
  rw [hConsumer, hHead]
  cases hpc : s.consumer with
  | idle => trivial
  | loadNext head =>
      rw [hpc] at h
      exact h
  | skipStub next =>
      rw [hpc] at h
      have hKeep := hNext next
      rw [h.1] at hKeep
      exact ⟨h.1, hKeep h.2⟩
  | reloadNext head =>
      rw [hpc] at h
      exact h
  | pop head next =>
      rw [hpc] at h
      obtain ⟨rfl, hNe, hStored⟩ := h
      exact ⟨rfl, hNe, hNext next hStored⟩
  | loadTail head =>
      rw [hpc] at h
      exact h
  | rearmReset head =>
      rw [hpc] at h
      exact ⟨h.1, h.2.1, fun hIn => h.2.2 (hMem.mp hIn)⟩
  | rearmExchange head =>
      rw [hpc] at h
      exact ⟨h.1, h.2.1, fun hIn => h.2.2.1 (hMem.mp hIn),
        (hStub h.2.2.1).trans h.2.2.2⟩
  | rearmLink head prev =>
      rw [hpc] at h
      exact h
  | rearmReload head =>
      rw [hpc] at h
      exact ⟨h.1, h.2.1, hMem.mpr h.2.2⟩

/-! ## The producers' operations -/

/-- Who has a link to store after producer `p` has moved to `pc`. -/
private theorem pending_update_iff (s s' : MpscState) (p : Nat)
    (pc : EnqueuePc) (hProducer : s'.producer = Function.update s.producer p pc)
    (hConsumer : s'.consumer = s.consumer) (a b : NodePtr) :
    s'.Pending a b ↔
      (∃ node, pc = .link node a ∧ b = .node node) ∨
      (∃ p' node, p' ≠ p ∧ s.producer p' = .link node a ∧ b = .node node) ∨
      ∃ head, s.consumer = .rearmLink head a ∧ b = .stub := by
  unfold MpscState.Pending
  rw [hProducer, hConsumer]
  constructor
  · rintro (⟨p', node, hpc, hb⟩ | hStub)
    · by_cases hp : p' = p
      · subst p'
        exact Or.inl ⟨node, by simpa using hpc, hb⟩
      · exact Or.inr (Or.inl ⟨p', node, hp, by simpa [hp] using hpc, hb⟩)
    · exact Or.inr (Or.inr hStub)
  · rintro (⟨node, hpc, hb⟩ | ⟨p', node, hp, hpc, hb⟩ | hStub)
    · exact Or.inl ⟨p, node, by simpa using hpc, hb⟩
    · exact Or.inl ⟨p', node, by simpa [hp] using hpc, hb⟩
    · exact Or.inr hStub

/-- Resetting a node's field owes no link. -/
private theorem pending_reset_iff {s s' : MpscState} {p node : Nat}
    (hIdle : s.producer p = .idle)
    (hProducer : s'.producer = Function.update s.producer p (.exchange node))
    (hConsumer : s'.consumer = s.consumer) (a b : NodePtr) :
    s'.Pending a b ↔ s.Pending a b := by
  rw [pending_update_iff s s' p _ hProducer hConsumer]
  unfold MpscState.Pending
  constructor
  · rintro (⟨_, hpc, _⟩ | ⟨p', node', _, hpc, hb⟩ | hStub)
    · cases hpc
    · exact Or.inl ⟨p', node', hpc, hb⟩
    · exact Or.inr hStub
  · rintro (⟨p', node', hpc, hb⟩ | hStub)
    · have hp : p' ≠ p := by
        rintro rfl
        rw [hIdle] at hpc
        cases hpc
      exact Or.inr (Or.inl ⟨p', node', hp, hpc, hb⟩)
    · exact Or.inr (Or.inr hStub)

/-- The exchange owes the link from the old tail. -/
private theorem pending_exchange_iff {s s' : MpscState} {p node : Nat}
    (hpc : s.producer p = .exchange node)
    (hProducer : s'.producer = Function.update s.producer p (.link node s.q.tail))
    (hConsumer : s'.consumer = s.consumer) (a b : NodePtr) :
    s'.Pending a b ↔ (a = s.q.tail ∧ b = .node node) ∨ s.Pending a b := by
  rw [pending_update_iff s s' p _ hProducer hConsumer]
  unfold MpscState.Pending
  constructor
  · rintro (⟨_, hLink, hb⟩ | ⟨p', node', _, hOld, hb⟩ | hStub)
    · cases hLink
      exact Or.inl ⟨rfl, hb⟩
    · exact Or.inr (Or.inl ⟨p', node', hOld, hb⟩)
    · exact Or.inr (Or.inr hStub)
  · rintro (⟨rfl, hb⟩ | ⟨p', node', hOld, hb⟩ | hStub)
    · exact Or.inl ⟨node, rfl, hb⟩
    · have hp : p' ≠ p := by
        rintro rfl
        rw [hpc] at hOld
        cases hOld
      exact Or.inr (Or.inl ⟨p', node', hp, hOld, hb⟩)
    · exact Or.inr (Or.inr hStub)

namespace ChainInv

variable {s s' : MpscState} {chain : List NodePtr}

/-- A node that is not held is known to nobody. -/
theorem not_mem_of_free (h : ChainInv s chain) {node : Nat}
    (hFree : s.held node = false) : NodePtr.node node ∉ chain := by
  intro hMem
  have hHeld := h.heldChain node hMem
  simp [hFree] at hHeld

theorem node?_ne_of_free (h : ChainInv s chain) {node : Nat}
    (hFree : s.held node = false) (p : Nat) :
    (s.producer p).node? ≠ some node := by
  intro hBusy
  have hHeld := h.heldBusy p node hBusy
  simp [hFree] at hHeld

/-- `node->next = NULL` on a node nobody else knows. -/
theorem enqueueReset (h : ChainInv s chain) {p node : Nat}
    (hFree : s.held node = false)
    (hStep : s.enqueueReset p node = some s') : ChainInv s' chain := by
  obtain ⟨hIdle, hs'⟩ := MpscState.enqueueReset_some hStep
  have hProducer : s'.producer =
      Function.update s.producer p (.exchange node) := by rw [hs']
  have hConsumer : s'.consumer = s.consumer := by rw [hs']
  have hHeld : s'.held = Function.update s.held node true := by rw [hs']
  have hHead : s'.q.head = s.q.head := by rw [hs']; rfl
  have hTail : s'.q.tail = s.q.tail := by rw [hs']; rfl
  have hNext : s'.q.next =
      Function.update s.q.next (.node node) none := by rw [hs']; rfl
  have hOut := h.not_mem_of_free hFree
  have hPend := pending_reset_iff hIdle hProducer hConsumer
  have hList : IntrusiveList s'.q.next s'.Pending s'.q.head s'.q.tail
      chain := by
    rw [hNext, hHead, hTail]
    exact (h.reset hOut).congr hPend
  have hBusy : ∀ p' node', (s'.producer p').node? = some node' →
      (p' = p ∧ node' = node) ∨ (s.producer p').node? = some node' := by
    intro p' node' hNode
    rw [hProducer] at hNode
    by_cases hp : p' = p
    · subst p'
      simp [EnqueuePc.node?] at hNode
      exact Or.inl ⟨rfl, hNode.symm⟩
    · exact Or.inr (by simpa [hp] using hNode)
  exact
    { hList with
      fifo := by
        rw [hs']
        exact h.fifo
      fresh := by
        intro p' node' hpc
        rw [hProducer] at hpc
        rw [hNext]
        by_cases hp : p' = p
        · subst p'
          obtain rfl : node = node' := by simpa using hpc
          exact ⟨hOut, by simp⟩
        · obtain ⟨hNot, hNone⟩ := h.fresh p' node' (by simpa [hp] using hpc)
          refine ⟨hNot, ?_⟩
          by_cases hn : node' = node
          · simp [hn]
          · simpa [hn] using hNone
      owner := by
        intro p₁ p₂ node' h₁ h₂
        rcases hBusy p₁ node' h₁ with ⟨hp₁, hn⟩ | hOld₁ <;>
          rcases hBusy p₂ node' h₂ with ⟨hp₂, hn'⟩ | hOld₂
        · exact hp₁.trans hp₂.symm
        · exact absurd hOld₂ (hn ▸ h.node?_ne_of_free hFree p₂)
        · exact absurd hOld₁ (hn' ▸ h.node?_ne_of_free hFree p₁)
        · exact h.owner p₁ p₂ node' hOld₁ hOld₂
      heldBusy := by
        intro p' node' hNode
        rw [hHeld]
        by_cases hn : node' = node
        · simp [hn]
        · rcases hBusy p' node' hNode with ⟨_, hEq⟩ | hOld
          · exact absurd hEq hn
          · simpa [hn] using h.heldBusy p' node' hOld
      heldChain := by
        intro node' hMem
        rw [hHeld]
        by_cases hn : node' = node
        · simp [hn]
        · simpa [hn] using h.heldChain node' hMem
      consumer := by
        have hNe : s.q.head ≠ .node node := fun hEq => hOut (hEq ▸ h.head_mem)
        apply h.consumer.congr hConsumer hHead _ _ Iff.rfl
        · simp [hNext, hNe]
        · simp [hNext] }

/-- The exchange appends the node to the chain, and its link is pending. -/
theorem enqueueExchange (h : ChainInv s chain) {p : Nat}
    (hStep : s.enqueueExchange p = some s') :
    ∃ node, s.producer p = .exchange node ∧
      ChainInv s' (chain ++ [.node node]) := by
  obtain ⟨node, hpc, hs'⟩ := MpscState.enqueueExchange_some hStep
  refine ⟨node, hpc, ?_⟩
  have hProducer : s'.producer =
      Function.update s.producer p (.link node s.q.tail) := by rw [hs']
  have hConsumer : s'.consumer = s.consumer := by rw [hs']
  have hHeld : s'.held = s.held := by rw [hs']
  have hHead : s'.q.head = s.q.head := by rw [hs']; rfl
  have hTail : s'.q.tail = .node node := by rw [hs']; rfl
  have hNext : s'.q.next = s.q.next := by rw [hs']; rfl
  obtain ⟨hOut, hNull⟩ := h.fresh p node hpc
  have hPend := pending_exchange_iff hpc hProducer hConsumer
  have hList : IntrusiveList s'.q.next s'.Pending s'.q.head s'.q.tail
      (chain ++ [.node node]) := by
    rw [hNext, hHead, hTail]
    exact h.append hOut hNull hPend
  have hBusy : ∀ p', (s'.producer p').node? = (s.producer p').node? := by
    intro p'
    rw [hProducer]
    by_cases hp : p' = p
    · subst p'
      simp [hpc, EnqueuePc.node?]
    · simp [hp]
  exact
    { hList with
      fifo := by
        rw [hs']
        simp [h.fifo]
      fresh := by
        intro p' node' hpc'
        rw [hProducer] at hpc'
        have hp : p' ≠ p := by
          rintro rfl
          simp at hpc'
        have hOld : s.producer p' = .exchange node' := by
          simpa [hp] using hpc'
        obtain ⟨hNot, hNone⟩ := h.fresh p' node' hOld
        refine ⟨?_, hNext ▸ hNone⟩
        -- Two producers holding one node would be one producer.
        have hNe : node' ≠ node := by
          rintro rfl
          exact hp (h.owner p' p node' (by simp [hOld, EnqueuePc.node?])
            (by simp [hpc, EnqueuePc.node?]))
        simp [hNot, hNe]
      owner := by
        intro p₁ p₂ node' h₁ h₂
        rw [hBusy] at h₁ h₂
        exact h.owner p₁ p₂ node' h₁ h₂
      heldBusy := by
        intro p' node' hNode
        rw [hBusy] at hNode
        rw [hHeld]
        exact h.heldBusy p' node' hNode
      heldChain := by
        intro node' hMem
        rw [hHeld]
        rcases List.mem_append.mp hMem with hOld | hNew
        · exact h.heldChain node' hOld
        · obtain rfl : node' = node := by simpa using hNew
          exact h.heldBusy p node' (by simp [hpc, EnqueuePc.node?])
      consumer := by
        apply h.consumer.congr hConsumer hHead
        · simp [hNext]
        · simp [hNext]
        · simp }

/-- The link store pays what was owed from `prev`: nobody else has a link out of
`prev` to store. -/
theorem pending_link_iff (h : ChainInv s chain) {p node : Nat} {prev : NodePtr}
    (hpc : s.producer p = .link node prev)
    (hProducer : s'.producer = Function.update s.producer p .idle)
    (hConsumer : s'.consumer = s.consumer) (a b : NodePtr) :
    s'.Pending a b ↔ a ≠ prev ∧ s.Pending a b := by
  have hMine : s.Pending prev (.node node) := Or.inl ⟨p, node, hpc, rfl⟩
  rw [pending_update_iff s s' p _ hProducer hConsumer]
  constructor
  · rintro (⟨_, hLink, _⟩ | ⟨p', node', hp, hOld, rfl⟩ | ⟨head, hStub, rfl⟩)
    · cases hLink
    · have hTheirs : s.Pending a (.node node') :=
        Or.inl ⟨p', node', hOld, rfl⟩
      refine ⟨?_, hTheirs⟩
      rintro rfl
      obtain rfl : node = node' := by
        simpa using h.pending_unique hMine hTheirs
      exact hp (h.owner p' p node (by simp [hOld, EnqueuePc.node?])
        (by simp [hpc, EnqueuePc.node?]))
    · have hTheirs : s.Pending a .stub := Or.inr ⟨head, hStub, rfl⟩
      refine ⟨?_, hTheirs⟩
      rintro rfl
      cases h.pending_unique hMine hTheirs
  · rintro ⟨ha, ⟨p', node', hOld, hb⟩ | hStub⟩
    · have hp : p' ≠ p := by
        rintro rfl
        rw [hpc] at hOld
        exact ha (by cases hOld; rfl)
      exact Or.inr (Or.inl ⟨p', node', hp, hOld, hb⟩)
    · exact Or.inr (Or.inr hStub)

/-- The link store makes a pending link of the chain a stored one. -/
theorem enqueueLink (h : ChainInv s chain) {p : Nat}
    (hStep : s.enqueueLink p = some s') : ChainInv s' chain := by
  obtain ⟨node, prev, hpc, hs'⟩ := MpscState.enqueueLink_some hStep
  have hProducer : s'.producer = Function.update s.producer p .idle := by
    rw [hs']
  have hConsumer : s'.consumer = s.consumer := by rw [hs']
  have hHeld : s'.held = s.held := by rw [hs']
  have hHead : s'.q.head = s.q.head := by rw [hs']; rfl
  have hTail : s'.q.tail = s.q.tail := by rw [hs']; rfl
  have hNext : s'.q.next =
      Function.update s.q.next prev (some (.node node)) := by rw [hs']; rfl
  have hMine : s.Pending prev (.node node) := Or.inl ⟨p, node, hpc, rfl⟩
  obtain ⟨hAdj, hNull⟩ := h.owed _ _ hMine
  have hPend := h.pending_link_iff hpc hProducer hConsumer
  have hList : IntrusiveList s'.q.next s'.Pending s'.q.head s'.q.tail
      chain := by
    rw [hNext, hHead, hTail]
    exact h.store hMine hPend
  have hBusy : ∀ p' node', (s'.producer p').node? = some node' →
      (s.producer p').node? = some node' := by
    intro p' node' hNode
    rw [hProducer] at hNode
    by_cases hp : p' = p
    · subst p'
      simp [EnqueuePc.node?] at hNode
    · simpa [hp] using hNode
  exact
    { hList with
      fifo := by
        rw [hs']
        exact h.fifo
      fresh := by
        intro p' node' hpc'
        rw [hProducer] at hpc'
        have hp : p' ≠ p := by
          rintro rfl
          simp at hpc'
        obtain ⟨hNot, hNone⟩ := h.fresh p' node' (by simpa [hp] using hpc')
        have hNe : NodePtr.node node' ≠ prev := by
          rintro rfl
          exact hNot hAdj.mem_left
        refine ⟨hNot, ?_⟩
        rw [hNext, Function.update_of_ne hNe]
        exact hNone
      owner := by
        intro p₁ p₂ node' h₁ h₂
        exact h.owner p₁ p₂ node' (hBusy _ _ h₁) (hBusy _ _ h₂)
      heldBusy := by
        intro p' node' hNode
        rw [hHeld]
        exact h.heldBusy p' node' (hBusy _ _ hNode)
      heldChain := by
        rw [hHeld]
        exact h.heldChain
      consumer := by
        apply h.consumer.congr hConsumer hHead _ _ Iff.rfl
        · intro b hStored
          have hNe : s.q.head ≠ prev := by
            intro hEq
            rw [hEq, hNull] at hStored
            cases hStored
          rw [hNext, Function.update_of_ne hNe]
          exact hStored
        · intro hOut
          have hNe : NodePtr.stub ≠ prev := by
            rintro rfl
            exact hOut hAdj.mem_left
          rw [hNext, Function.update_of_ne hNe] }

end ChainInv

/-! ## The consumer's operations -/

namespace ChainInv

variable {s : MpscState} {chain : List NodePtr}

/-- Outside the re-arming enqueue the consumer owes no link. -/
theorem pending_consumer {s' : MpscState} (hProducer : s'.producer = s.producer)
    (hOld : ∀ head prev, s.consumer ≠ .rearmLink head prev)
    (hNew : ∀ head prev, s'.consumer ≠ .rearmLink head prev) (a b : NodePtr) :
    s'.Pending a b ↔ s.Pending a b := by
  unfold MpscState.Pending
  rw [hProducer]
  constructor
  · rintro (hMine | ⟨head, hpc, _⟩)
    · exact Or.inl hMine
    · exact absurd hpc (hNew head a)
  · rintro (hMine | ⟨head, hpc, _⟩)
    · exact Or.inl hMine
    · exact absurd hpc (hOld head a)

/-- A load, or a branch, of the consumer outside the re-arming enqueue. -/
theorem setConsumer (h : ChainInv s chain) (pc : DequeuePc)
    (result : Option NodePtr)
    (hOld : ∀ head prev, s.consumer ≠ .rearmLink head prev)
    (hNew : ∀ head prev, pc ≠ .rearmLink head prev)
    (hC : ConsumerInv { s with consumer := pc, result := result } chain) :
    ChainInv { s with consumer := pc, result := result } chain :=
  { h.congr (@pending_consumer s { s with consumer := pc, result := result }
      rfl hOld hNew) with
    fifo := h.fifo
    fresh := h.fresh
    owner := h.owner
    heldBusy := h.heldBusy
    heldChain := h.heldChain
    consumer := hC }

/-- The head is no producer's to append. -/
theorem node?_ne_of_head (h : ChainInv s chain) {p node : Nat}
    (hNode : (s.producer p).node? = some node) :
    NodePtr.node node ≠ s.q.head := by
  intro hEq
  cases hpc : s.producer p with
  | idle => simp [hpc, EnqueuePc.node?] at hNode
  | exchange node' =>
      obtain rfl : node' = node := by simpa [hpc, EnqueuePc.node?] using hNode
      exact (h.fresh p node' hpc).1 (hEq ▸ h.head_mem)
  | link node' prev =>
      obtain rfl : node' = node := by simpa [hpc, EnqueuePc.node?] using hNode
      have hAdj := (h.owed prev _ (Or.inl ⟨p, node', hpc, rfl⟩)).1
      exact Adjacent.not_head h.nodup (hEq ▸ h.starts) hAdj

/-- `head` moves along a stored link: the first node leaves the chain. -/
theorem advanceHead (h : ChainInv s chain) {next : NodePtr}
    (hNext : s.q.next s.q.head = some next) (pc : DequeuePc)
    (result : Option NodePtr) (returned : List NodePtr) (held : Nat → Bool)
    (hOld : ∀ head prev, s.consumer ≠ .rearmLink head prev)
    (hNew : ∀ head prev, pc ≠ .rearmLink head prev)
    (hFifo : s.returned ++ [s.q.head].filter (· ≠ .stub) = returned)
    (hHeld : ∀ node, NodePtr.node node ≠ s.q.head → held node = s.held node)
    (hC : ConsumerInv
      { s with
        q := s.q.storeHead next, consumer := pc, result := result
        returned := returned, held := held } chain.tail) :
    ChainInv
      { s with
        q := s.q.storeHead next, consumer := pc, result := result
        returned := returned, held := held } chain.tail := by
  obtain ⟨rest, hChain⟩ := h.cons_of_next hNext
  have hOut : s.q.head ∉ chain.tail := by
    have hNodup := h.nodup
    rw [hChain] at hNodup ⊢
    exact (List.nodup_cons.mp hNodup).1
  have hList := (h.advance hNext).congr (@pending_consumer s
    { s with
      q := s.q.storeHead next, consumer := pc, result := result
      returned := returned, held := held } rfl hOld hNew)
  exact
    { hList with
      fifo := by
        show s.order.map NodePtr.node = _
        rw [h.fifo, ← hFifo, hChain, List.append_assoc, ← List.filter_append]
        rfl
      fresh := by
        intro p node hpc
        obtain ⟨hNot, hNone⟩ := h.fresh p node hpc
        exact ⟨fun hMem => hNot (List.mem_of_mem_tail hMem), hNone⟩
      owner := h.owner
      heldBusy := by
        intro p node hNode
        exact (hHeld node (h.node?_ne_of_head hNode)).trans
          (h.heldBusy p node hNode)
      heldChain := by
        intro node hMem
        have hNe : NodePtr.node node ≠ s.q.head := fun hEq => hOut (hEq ▸ hMem)
        exact (hHeld node hNe).trans
          (h.heldChain node (List.mem_of_mem_tail hMem))
      consumer := hC }

/-- The stub is reset only while it is outside the chain. -/
theorem rearmReset (h : ChainInv s chain) {head : NodePtr}
    (hpc : s.consumer = .rearmReset head) :
    ChainInv s.dequeueStep chain := by
  have hC := h.consumer
  unfold ConsumerInv at hC
  rw [hpc] at hC
  obtain ⟨hHead, hNe, hOut⟩ := hC
  have hs' : s.dequeueStep =
      { s with
        q := s.q.resetNext .stub, consumer := .rearmExchange head } := by
    simp [MpscState.dequeueStep, hpc]
  rw [hs']
  have hList := (h.reset hOut).congr (@pending_consumer s
    { s with q := s.q.resetNext .stub, consumer := .rearmExchange head } rfl
    (by simp [hpc]) (by simp))
  exact
    { hList with
      fifo := h.fifo
      fresh := by
        intro p node hpc'
        obtain ⟨hNot, hNone⟩ := h.fresh p node hpc'
        exact ⟨hNot, by simpa [MpscQueue.resetNext] using hNone⟩
      owner := h.owner
      heldBusy := h.heldBusy
      heldChain := h.heldChain
      consumer := ⟨hHead, hNe, hOut, by simp [MpscQueue.resetNext]⟩ }

/-- The consumer's own exchange appends the stub. -/
theorem rearmExchange (h : ChainInv s chain) {head : NodePtr}
    (hpc : s.consumer = .rearmExchange head) :
    ChainInv s.dequeueStep (chain ++ [.stub]) := by
  have hC := h.consumer
  unfold ConsumerInv at hC
  rw [hpc] at hC
  obtain ⟨hHead, hNe, hOut, hNull⟩ := hC
  have hs' : s.dequeueStep =
      { s with
        q := s.q.exchangeTail .stub
        consumer := .rearmLink head s.q.tail } := by
    simp [MpscState.dequeueStep, hpc]
  rw [hs']
  have hPend : ∀ a b, MpscState.Pending
      { s with
        q := s.q.exchangeTail .stub
        consumer := .rearmLink head s.q.tail } a b ↔
        (a = s.q.tail ∧ b = .stub) ∨ s.Pending a b := by
    intro a b
    unfold MpscState.Pending
    simp only [hpc]
    constructor
    · rintro (hMine | ⟨_, hLink, hb⟩)
      · exact Or.inr (Or.inl hMine)
      · cases hLink
        exact Or.inl ⟨rfl, hb⟩
    · rintro (⟨rfl, hb⟩ | hMine | ⟨_, hLink, _⟩)
      · exact Or.inr ⟨head, rfl, hb⟩
      · exact Or.inl hMine
      · cases hLink
  exact
    { h.append hOut hNull hPend with
      fifo := by simpa using h.fifo
      fresh := by
        intro p node hpc'
        obtain ⟨hNot, hNone⟩ := h.fresh p node hpc'
        exact ⟨by simp [hNot], hNone⟩
      owner := h.owner
      heldBusy := h.heldBusy
      heldChain := by
        intro node hMem
        exact h.heldChain node (by simpa using hMem)
      consumer := ⟨hHead, hNe⟩ }

/-- The consumer's own link store. -/
theorem rearmLink (h : ChainInv s chain) {head prev : NodePtr}
    (hpc : s.consumer = .rearmLink head prev) :
    ChainInv s.dequeueStep chain := by
  have hC := h.consumer
  unfold ConsumerInv at hC
  rw [hpc] at hC
  obtain ⟨hHead, hNe⟩ := hC
  have hs' : s.dequeueStep =
      { s with
        q := s.q.linkNext prev .stub, consumer := .rearmReload head } := by
    simp [MpscState.dequeueStep, hpc]
  rw [hs']
  have hMine : s.Pending prev .stub := Or.inr ⟨head, hpc, rfl⟩
  have hAdj := (h.owed prev .stub hMine).1
  have hPend : ∀ a b, MpscState.Pending
      { s with
        q := s.q.linkNext prev .stub
        consumer := .rearmReload head } a b ↔
        a ≠ prev ∧ s.Pending a b := by
    intro a b
    unfold MpscState.Pending
    simp only [hpc]
    constructor
    · rintro (⟨p, node, hLink, rfl⟩ | ⟨_, hLink, _⟩)
      · refine ⟨?_, Or.inl ⟨p, node, hLink, rfl⟩⟩
        rintro rfl
        cases h.pending_unique hMine (Or.inl ⟨p, node, hLink, rfl⟩)
      · cases hLink
    · rintro ⟨ha, hMine | ⟨_, hLink, _⟩⟩
      · exact Or.inl hMine
      · exact absurd (by cases hLink; rfl) ha
  exact
    { h.store hMine hPend with
      fifo := h.fifo
      fresh := by
        intro p node hpc'
        obtain ⟨hNot, hNone⟩ := h.fresh p node hpc'
        have hNotPrev : NodePtr.node node ≠ prev := by
          rintro rfl
          exact hNot hAdj.mem_left
        exact ⟨hNot, (Function.update_of_ne hNotPrev _ _).trans hNone⟩
      owner := h.owner
      heldBusy := h.heldBusy
      heldChain := h.heldChain
      consumer := ⟨hHead, hNe, hAdj.mem_right⟩ }

/-- Testing `next` after loading it from the head, which is not the stub. -/
theorem testNext (h : ChainInv s chain) {head : NodePtr}
    (hHead : s.q.head = head) (hNe : head ≠ .stub)
    (hOld : ∀ head prev, s.consumer ≠ .rearmLink head prev) :
    ChainInv (s.testNext head (s.q.next head)) chain := by
  cases hNext : s.q.next head with
  | none =>
      exact h.setConsumer (.loadTail head) s.result hOld (by simp)
        ⟨hHead, hNe⟩
  | some next =>
      exact h.setConsumer (.pop head next) s.result hOld (by simp)
        ⟨hHead, hNe, hNext⟩

/-- Every operation of the consumer keeps the invariant, for the same chain,
for its tail, or for the chain with the stub appended. -/
theorem dequeueStep (h : ChainInv s chain) :
    ChainInv s.dequeueStep chain ∨ ChainInv s.dequeueStep chain.tail ∨
      ChainInv s.dequeueStep (chain ++ [.stub]) := by
  have hC := h.consumer
  unfold ConsumerInv at hC
  cases hpc : s.consumer with
  | idle =>
      left
      simp only [MpscState.dequeueStep, hpc]
      exact h.setConsumer (.loadNext s.q.head) s.result (by simp [hpc])
        (by simp) rfl
  | loadNext head =>
      rw [hpc] at hC
      have hHead : s.q.head = head := hC
      left
      simp only [MpscState.dequeueStep, hpc]
      split
      · rename_i hStub
        cases hNext : s.q.next head with
        | none =>
            exact h.setConsumer .idle none (by simp [hpc]) (by simp) trivial
        | some next =>
            exact h.setConsumer (.skipStub next) s.result (by simp [hpc])
              (by simp) ⟨hHead.trans hStub, hStub ▸ hNext⟩
      · rename_i hNe
        exact h.testNext hHead hNe (by simp [hpc])
  | skipStub next =>
      rw [hpc] at hC
      obtain ⟨hHead, hNext⟩ := hC
      right; left
      have hNext' : s.q.next s.q.head = some next := hHead ▸ hNext
      obtain ⟨rest, hChain⟩ := h.cons_of_next hNext'
      have hNotStub : next ≠ .stub := by
        intro hEq
        have hNodup := h.nodup
        rw [hChain, hHead, hEq] at hNodup
        simp at hNodup
      simp only [MpscState.dequeueStep, hpc]
      exact h.advanceHead hNext' (.reloadNext next) s.result s.returned s.held
        (by simp [hpc]) (by simp) (by simp [hHead]) (fun _ _ => rfl)
        ⟨rfl, hNotStub⟩
  | reloadNext head =>
      rw [hpc] at hC
      left
      simp only [MpscState.dequeueStep, hpc]
      exact h.testNext hC.1 hC.2 (by simp [hpc])
  | pop head next =>
      rw [hpc] at hC
      obtain ⟨rfl, hNe, hNext⟩ := hC
      right; left
      simp only [MpscState.dequeueStep, hpc]
      refine h.advanceHead hNext .idle (some s.q.head)
        (s.returned ++ [s.q.head]) (MpscState.release s.held s.q.head)
        (by simp [hpc]) (by simp) (by simp [hNe]) ?_ trivial
      intro node hNode
      cases hHead : s.q.head with
      | stub => exact absurd hHead hNe
      | node id =>
          have hId : node ≠ id := fun hEq => hNode (by rw [hHead, hEq])
          simp [MpscState.release, hId]
  | loadTail head =>
      rw [hpc] at hC
      obtain ⟨rfl, hNe⟩ := hC
      left
      simp only [MpscState.dequeueStep, hpc]
      split
      · rename_i hOnly
        refine h.setConsumer (.rearmReset s.q.head) s.result (by simp [hpc])
          (by simp) ⟨rfl, hNe, ?_⟩
        rw [h.eq_singleton hOnly]
        simpa using hNe.symm
      · exact h.setConsumer .idle none (by simp [hpc]) (by simp) trivial
  | rearmReset head => exact Or.inl (h.rearmReset hpc)
  | rearmExchange head => exact Or.inr (Or.inr (h.rearmExchange hpc))
  | rearmLink head prev => exact Or.inl (h.rearmLink hpc)
  | rearmReload head =>
      rw [hpc] at hC
      obtain ⟨rfl, hNe, _⟩ := hC
      left
      simp only [MpscState.dequeueStep, hpc]
      cases hNext : s.q.next s.q.head with
      | none =>
          exact h.setConsumer .idle none (by simp [hpc]) (by simp) trivial
      | some next =>
          exact h.setConsumer (.pop s.q.head next) s.result (by simp [hpc])
            (by simp) ⟨rfl, hNe, hNext⟩

end ChainInv

/-! ## Every reachable state has a chain -/

theorem init_chainInv (next : NodePtr → Option NodePtr) :
    ChainInv (MpscState.init next) [.stub] where
  nodup := by simp
  starts := rfl
  ends := rfl
  linked := by simp
  owed := by simp [MpscState.Pending, MpscState.init]
  terminated := by simp [MpscState.init, MpscQueue.mpscInit]
  fifo := by simp [MpscState.init]
  fresh := by simp [MpscState.init]
  owner := by simp [MpscState.init, EnqueuePc.node?]
  heldBusy := by simp [MpscState.init, EnqueuePc.node?]
  heldChain := by simp
  consumer := trivial

/-- The step lemma over the events of the code, with the usage rule as a
hypothesis about the reset. -/
theorem mpscStep_chainInv {s s' : MpscState} {e : MpscEvent}
    {chain : List NodePtr} (h : ChainInv s chain)
    (hUse : ∀ p node, e = .reset p node → s.held node = false)
    (hStep : mpscStep s e = some s') : ∃ chain', ChainInv s' chain' := by
  cases e with
  | reset p node => exact ⟨chain, h.enqueueReset (hUse p node rfl) hStep⟩
  | exchange p =>
      obtain ⟨node, _, hNew⟩ := h.enqueueExchange hStep
      exact ⟨_, hNew⟩
  | link p => exact ⟨chain, h.enqueueLink hStep⟩
  | dequeue =>
      obtain rfl : s.dequeueStep = s' := Option.some.inj hStep
      rcases h.dequeueStep with hNew | hNew | hNew
      · exact ⟨_, hNew⟩
      · exact ⟨_, hNew⟩
      · exact ⟨_, hNew⟩

/-- An event of the intended use is an event of the code. -/
theorem mpscMachine_next {next : NodePtr → Option NodePtr}
    {s s' : MpscState} {e : MpscEvent}
    (hStep : (mpscMachine next).next s e = some s') :
    mpscStep s e = some s' ∧
      ∀ p node, e = .reset p node → s.held node = false := by
  cases e with
  | reset p node =>
      simp only [mpscMachine] at hStep
      split at hStep
      · cases hStep
      · rename_i hFree
        refine ⟨hStep, ?_⟩
        rintro _ _ ⟨⟩
        simpa using hFree
  | exchange p => exact ⟨hStep, by simp⟩
  | link p => exact ⟨hStep, by simp⟩
  | dequeue => exact ⟨hStep, by simp⟩

theorem mpscMachine_chainInv {next : NodePtr → Option NodePtr}
    {s : MpscState} (hs : (mpscMachine next).Reachable s) :
    ∃ chain, ChainInv s chain := by
  refine hs.invariant (P := fun s => ∃ chain, ChainInv s chain)
    ⟨[.stub], init_chainInv next⟩ ?_
  rintro s e s' _ ⟨chain, h⟩ hNext
  obtain ⟨hStep, hUse⟩ := mpscMachine_next hNext
  exact mpscStep_chainInv h hUse hStep

end MioBench.Sync
