import MioBench.Lib.Transition
import MioBench.Lib.Threads
import MioBench.Store.Block

/-!
# The reader threads behind the gate

Every reader of the sweep programs runs the same code once it is through the
gate: a private loop over its blocks, then three relaxed `atomic_fetch_add`
calls into the shared totals.  The programs differ in the number of rounds and
in what one round does, and both are parameters here.  A round touches only
the reader's own variables and the constant store, so it is one step.
-/

namespace MioBench.Sync

open MioBench.Lib MioBench.Store

/-- The part of a reader that differs between the programs: the bound of its
loop, and round `blk` of reader `req` on a scratch buffer. -/
structure ReaderLoop where
  blocks : Nat
  round : (req blk : Nat) → Memory → Memory × BlockRead

/-- Where a reader stands behind the gate. -/
inductive ReaderPc
  | copying
  | addBlocks
  | addFail
  | addSum
  | finished
  deriving DecidableEq, Repr

/-- The variables of one reader. -/
structure ReaderLocal where
  blk : Nat
  local_blocks : Nat
  local_fail : Nat
  local_sum : Nat
  scratch : Memory

/-- The shared counters of the sweep context. -/
structure Totals where
  blocks_read : Nat
  verify_fail : Nat
  checksum : Nat
  deriving DecidableEq, Repr

structure ReadersState where
  pc : Nat → ReaderPc
  loc : Nat → ReaderLocal
  totals : Totals

namespace ReadersState

/-- All readers before their first block, with whatever their scratch buffers
hold. -/
def init (scratch : Nat → Memory) : ReadersState where
  pc := fun _ => .copying
  loc := fun i =>
    { blk := 0, local_blocks := 0, local_fail := 0, local_sum := 0
      scratch := scratch i }
  totals := { blocks_read := 0, verify_fail := 0, checksum := 0 }

def setPc (s : ReadersState) (i : Nat) (pc : ReaderPc) : ReadersState :=
  { s with pc := Function.update s.pc i pc }

/-- One round of the copy loop. -/
def copyRound (body : ReaderLoop) (i : Nat) (l : ReaderLocal) : ReaderLocal :=
  let r := body.round i l.blk l.scratch
  { blk := (l.blk + 1) % 2 ^ 64
    local_blocks := (l.local_blocks + 1) % 2 ^ 64
    local_fail := if r.2.fail then (l.local_fail + 1) % 2 ^ 64 else l.local_fail
    local_sum := (l.local_sum + r.2.sum) % 2 ^ 64
    scratch := r.1 }

/-- The next step of reader `i`. -/
def readerStep (body : ReaderLoop) (s : ReadersState) (i : Nat) :
    Option ReadersState :=
  match s.pc i with
  | .copying =>
      if (s.loc i).blk < body.blocks then
        some { s with loc := Function.update s.loc i (copyRound body i (s.loc i)) }
      else some (s.setPc i .addBlocks)
  | .addBlocks =>
      some { s.setPc i .addFail with totals := { s.totals with
        blocks_read :=
          (s.totals.blocks_read + (s.loc i).local_blocks) % 2 ^ 64 } }
  | .addFail =>
      some { s.setPc i .addSum with totals := { s.totals with
        verify_fail := (s.totals.verify_fail + (s.loc i).local_fail) % 2 ^ 64 } }
  | .addSum =>
      some { s.setPc i .finished with totals := { s.totals with
        checksum := (s.totals.checksum + (s.loc i).local_sum) % 2 ^ 64 } }
  | .finished => none

end ReadersState

/-- `n` readers. -/
def readersMachine (n : Nat) (body : ReaderLoop) (scratch : Nat → Memory) :
    Machine ReadersState Nat where
  start := ReadersState.init scratch
  next s i := if i < n then s.readerStep body i else none

/-! ## The invariant -/

/-- What reader `req` reads in its first `n` rounds, where the rounds do not
depend on the scratch buffer. -/
def readSum (result : Nat → Nat → BlockRead) (req n : Nat) : Nat :=
  ∑ blk ∈ Finset.range n, (result req blk).sum

def readFails (result : Nat → Nat → BlockRead) (req n : Nat) : Nat :=
  ∑ blk ∈ Finset.range n, (result req blk).fail.toNat

/-- `result` is what the rounds of `n` readers yield, whatever the scratch
buffers held. -/
def ReaderLoop.Yields (body : ReaderLoop) (n : Nat)
    (result : Nat → Nat → BlockRead) : Prop :=
  ∀ req blk scratch, req < n → blk < body.blocks →
    (body.round req blk scratch).2 = result req blk

/-- What a reader has already added to the totals. -/
def added (pc : ReaderPc) (l : ReaderLocal) : Totals :=
  match pc with
  | .copying | .addBlocks =>
      { blocks_read := 0, verify_fail := 0, checksum := 0 }
  | .addFail =>
      { blocks_read := l.local_blocks, verify_fail := 0, checksum := 0 }
  | .addSum =>
      { blocks_read := l.local_blocks, verify_fail := l.local_fail
        checksum := 0 }
  | .finished =>
      { blocks_read := l.local_blocks, verify_fail := l.local_fail
        checksum := l.local_sum }

/-- The local totals of reader `req` are those of its first `blk` rounds. -/
structure LocalInv (body : ReaderLoop) (result : Nat → Nat → BlockRead)
    (req : Nat) (pc : ReaderPc) (l : ReaderLocal) : Prop where
  bound : l.blk ≤ body.blocks
  done : pc ≠ .copying → l.blk = body.blocks
  blocks : l.local_blocks = l.blk
  fail : l.local_fail = readFails result req l.blk % 2 ^ 64
  sum : l.local_sum = readSum result req l.blk % 2 ^ 64

/-- The totals are the sum of what the readers have added. -/
structure ReadersInv (n : Nat) (body : ReaderLoop)
    (result : Nat → Nat → BlockRead) (s : ReadersState) : Prop where
  locals : ∀ i, i < n → LocalInv body result i (s.pc i) (s.loc i)
  blocks_read : s.totals.blocks_read =
    (∑ i ∈ Finset.range n, (added (s.pc i) (s.loc i)).blocks_read) % 2 ^ 64
  verify_fail : s.totals.verify_fail =
    (∑ i ∈ Finset.range n, (added (s.pc i) (s.loc i)).verify_fail) % 2 ^ 64
  checksum : s.totals.checksum =
    (∑ i ∈ Finset.range n, (added (s.pc i) (s.loc i)).checksum) % 2 ^ 64

section Preservation

variable {n : Nat} {body : ReaderLoop} {result : Nat → Nat → BlockRead}
  {s s' : ReadersState} {i : Nat}

theorem ReadersState.init_inv (n : Nat) (body : ReaderLoop)
    (result : Nat → Nat → BlockRead) (scratch : Nat → Memory) :
    ReadersInv n body result (ReadersState.init scratch) where
  locals := fun i _ =>
    { bound := Nat.zero_le _
      done := fun hpc => absurd rfl hpc
      blocks := rfl
      fail := by simp [init, readFails]
      sum := by simp [init, readSum] }
  blocks_read := by simp [init, added]
  verify_fail := by simp [init, added]
  checksum := by simp [init, added]

/-- One more round keeps the local totals right. -/
theorem LocalInv.copyRound {req : Nat} {pc pc' : ReaderPc} {l : ReaderLocal}
    (h : LocalInv body result req pc l) (hYields : body.Yields n result)
    (hReq : req < n) (hBlocks : body.blocks < 2 ^ 64)
    (hMore : l.blk < body.blocks) (hpc : pc' = .copying) :
    LocalInv body result req pc' (ReadersState.copyRound body req l) := by
  have hRead := hYields req l.blk l.scratch hReq hMore
  have hNext : (l.blk + 1) % 2 ^ 64 = l.blk + 1 := Nat.mod_eq_of_lt (by omega)
  refine { bound := ?_, done := ?_, blocks := ?_, fail := ?_, sum := ?_ }
  · show (l.blk + 1) % 2 ^ 64 ≤ body.blocks
    omega
  · intro hBad
    exact absurd hpc hBad
  · show (l.local_blocks + 1) % 2 ^ 64 = (l.blk + 1) % 2 ^ 64
    rw [h.blocks]
  · show (if (body.round req l.blk l.scratch).2.fail then
      (l.local_fail + 1) % 2 ^ 64 else l.local_fail) =
        readFails result req ((l.blk + 1) % 2 ^ 64) % 2 ^ 64
    rw [hRead, hNext, readFails, Finset.sum_range_succ, ← readFails, h.fail]
    cases (result req l.blk).fail <;> simp
  · show (l.local_sum + (body.round req l.blk l.scratch).2.sum) % 2 ^ 64 =
      readSum result req ((l.blk + 1) % 2 ^ 64) % 2 ^ 64
    rw [hRead, hNext, readSum, Finset.sum_range_succ, ← readSum, h.sum,
      Nat.mod_add_mod]

/-- A reader that leaves its loop, or goes on from one addition to the next,
keeps its local totals. -/
theorem LocalInv.leave {req : Nat} {pc pc' : ReaderPc} {l : ReaderLocal}
    (h : LocalInv body result req pc l) (hDone : l.blk = body.blocks) :
    LocalInv body result req pc' l :=
  { h with done := fun _ => hDone }

/-- A fetch-and-add by one reader moves the sum of what the readers have added
by the same amount. -/
theorem total_step {f g : Nat → Nat} {c d v : Nat} (hi : i < n)
    (hOther : ∀ j, j ≠ i → g j = f j) (hSelf : g i = f i + v)
    (hc : c = (∑ j ∈ Finset.range n, f j) % 2 ^ 64)
    (hd : d = (c + v) % 2 ^ 64) :
    d = (∑ j ∈ Finset.range n, g j) % 2 ^ 64 := by
  have hSum := sum_range_change hi hOther
  omega

/-- Reader `i`, out of its loop, goes on to `pc` and adds `v` to the totals. -/
theorem ReadersInv.addTotals (h : ReadersInv n body result s) (hi : i < n)
    {pc : ReaderPc} {t v : Totals} (hDone : (s.loc i).blk = body.blocks)
    (hAdded : added pc (s.loc i) =
      { blocks_read := (added (s.pc i) (s.loc i)).blocks_read + v.blocks_read
        verify_fail := (added (s.pc i) (s.loc i)).verify_fail + v.verify_fail
        checksum := (added (s.pc i) (s.loc i)).checksum + v.checksum })
    (hBlocks : t.blocks_read = (s.totals.blocks_read + v.blocks_read) % 2 ^ 64)
    (hFail : t.verify_fail = (s.totals.verify_fail + v.verify_fail) % 2 ^ 64)
    (hSum : t.checksum = (s.totals.checksum + v.checksum) % 2 ^ 64) :
    ReadersInv n body result { s.setPc i pc with totals := t } := by
  have hOther : ∀ j, j ≠ i →
      added ((s.setPc i pc).pc j) (s.loc j) = added (s.pc j) (s.loc j) := by
    intro j hj
    simp [ReadersState.setPc, hj]
  have hSelf := hAdded
  rw [show pc = (s.setPc i pc).pc i by simp [ReadersState.setPc]] at hSelf
  refine { locals := ?_, blocks_read := ?_, verify_fail := ?_, checksum := ?_ }
  · intro j hjn
    show LocalInv body result j ((s.setPc i pc).pc j) (s.loc j)
    by_cases hj : j = i
    · subst j
      exact (h.locals i hi).leave hDone
    · simpa [ReadersState.setPc, hj] using h.locals j hjn
  · exact total_step hi (fun j hj => congrArg Totals.blocks_read (hOther j hj))
      (congrArg Totals.blocks_read hSelf) h.blocks_read hBlocks
  · exact total_step hi (fun j hj => congrArg Totals.verify_fail (hOther j hj))
      (congrArg Totals.verify_fail hSelf) h.verify_fail hFail
  · exact total_step hi (fun j hj => congrArg Totals.checksum (hOther j hj))
      (congrArg Totals.checksum hSelf) h.checksum hSum

/-- The step lemma: whichever step reader `i` takes, its own clause is
re-established, the others' clauses are untouched, and one counter at most has
moved, by what the reader has added to it. -/
theorem ReadersInv.readerStep (h : ReadersInv n body result s)
    (hYields : body.Yields n result) (hBlocks : body.blocks < 2 ^ 64)
    (hi : i < n) (hStep : s.readerStep body i = some s') :
    ReadersInv n body result s' := by
  have hLocal := h.locals i hi
  -- A counter nobody adds to is still reduced modulo the word size.
  have hStay : s.totals.blocks_read = (s.totals.blocks_read + 0) % 2 ^ 64 ∧
      s.totals.verify_fail = (s.totals.verify_fail + 0) % 2 ^ 64 ∧
      s.totals.checksum = (s.totals.checksum + 0) % 2 ^ 64 := by
    have hOne := h.blocks_read
    have hTwo := h.verify_fail
    have hThree := h.checksum
    omega
  unfold ReadersState.readerStep at hStep
  split at hStep
  · rename_i hpc
    split at hStep
    · rename_i hMore
      obtain rfl := Option.some.inj hStep
      have hSame : ∀ j, added (s.pc j) (Function.update s.loc i
          (ReadersState.copyRound body i (s.loc i)) j) =
            added (s.pc j) (s.loc j) := by
        intro j
        by_cases hj : j = i
        · subst j
          simp [hpc, added]
        · rw [Function.update_of_ne hj]
      refine
        { locals := ?_
          blocks_read := by simpa only [hSame] using h.blocks_read
          verify_fail := by simpa only [hSame] using h.verify_fail
          checksum := by simpa only [hSame] using h.checksum }
      intro j hjn
      by_cases hj : j = i
      · subst j
        simpa using hLocal.copyRound hYields hi hBlocks hMore hpc
      · simpa [hj] using h.locals j hjn
    · rename_i hEnd
      obtain rfl := Option.some.inj hStep
      have hBound := hLocal.bound
      exact h.addTotals hi (t := s.totals) (v := ⟨0, 0, 0⟩) (by omega)
        (by simp [added, hpc]) hStay.1 hStay.2.1 hStay.2.2
  · rename_i hpc
    obtain rfl := Option.some.inj hStep
    exact h.addTotals hi (v := ⟨(s.loc i).local_blocks, 0, 0⟩)
      (hLocal.done (by simp [hpc])) (by simp [added, hpc]) rfl hStay.2.1
      hStay.2.2
  · rename_i hpc
    obtain rfl := Option.some.inj hStep
    exact h.addTotals hi (v := ⟨0, (s.loc i).local_fail, 0⟩)
      (hLocal.done (by simp [hpc])) (by simp [added, hpc]) hStay.1 rfl
      hStay.2.2
  · rename_i hpc
    obtain rfl := Option.some.inj hStep
    exact h.addTotals hi (v := ⟨0, 0, (s.loc i).local_sum⟩)
      (hLocal.done (by simp [hpc])) (by simp [added, hpc]) hStay.1 hStay.2.1 rfl
  · cases hStep

end Preservation

theorem readersMachine_inv {n : Nat} {body : ReaderLoop}
    {result : Nat → Nat → BlockRead} {scratch : Nat → Memory}
    (hYields : body.Yields n result) (hBlocks : body.blocks < 2 ^ 64)
    {s : ReadersState} (hs : (readersMachine n body scratch).Reachable s) :
    ReadersInv n body result s := by
  refine hs.invariant (ReadersState.init_inv n body result scratch) ?_
  intro s i s' _ h hStep
  simp only [readersMachine] at hStep
  split at hStep
  · exact h.readerStep hYields hBlocks ‹_› hStep
  · cases hStep

/-! ## The totals of a finished crew, and progress -/

/-- The totals of `n` readers of `blocks` blocks each. -/
def crewTotals (n blocks : Nat) (result : Nat → Nat → BlockRead) : Totals where
  blocks_read := n * blocks % 2 ^ 64
  verify_fail := (∑ i ∈ Finset.range n, readFails result i blocks) % 2 ^ 64
  checksum := (∑ i ∈ Finset.range n, readSum result i blocks) % 2 ^ 64

/-- Once all readers have finished, the totals are those of all their rounds,
in whatever order they were added up. -/
theorem ReadersInv.totals_eq {n : Nat} {body : ReaderLoop}
    {result : Nat → Nat → BlockRead} {s : ReadersState}
    (h : ReadersInv n body result s)
    (hAll : ∀ i, i < n → s.pc i = .finished) :
    s.totals = crewTotals n body.blocks result := by
  have hBlk : ∀ i ∈ Finset.range n, (s.loc i).blk = body.blocks := by
    intro i hi
    have hi' := Finset.mem_range.mp hi
    exact (h.locals i hi').done (by simp [hAll i hi'])
  have hAdded : ∀ i ∈ Finset.range n, added (s.pc i) (s.loc i) =
      { blocks_read := body.blocks
        verify_fail := readFails result i body.blocks % 2 ^ 64
        checksum := readSum result i body.blocks % 2 ^ 64 } := by
    intro i hi
    have hLocal := h.locals i (Finset.mem_range.mp hi)
    rw [hAll i (Finset.mem_range.mp hi), added, hLocal.blocks, hLocal.fail,
      hLocal.sum, hBlk i hi]
  have hTotals : s.totals = ⟨s.totals.blocks_read, s.totals.verify_fail,
      s.totals.checksum⟩ := rfl
  rw [hTotals, h.blocks_read, h.verify_fail, h.checksum, crewTotals,
    Finset.sum_congr rfl fun i hi => congrArg Totals.blocks_read (hAdded i hi),
    Finset.sum_congr rfl fun i hi => congrArg Totals.verify_fail (hAdded i hi),
    Finset.sum_congr rfl fun i hi => congrArg Totals.checksum (hAdded i hi)]
  rw [← Finset.sum_nat_mod, ← Finset.sum_nat_mod]
  simp

/-- What one round adds when it reads a stamped block that verifies. -/
def stampedRead (magic req blk : Nat) : BlockRead where
  sum := magic % 256 + (fillFor req blk).toNat
  fail := false

/-- The totals of a crew that reads stamped blocks only. -/
theorem crewTotals_stamped {n blocks : Nat} (magic : Nat)
    (hFits : n * blocks < 2 ^ 64) :
    crewTotals n blocks (stampedRead magic) =
      { blocks_read := n * blocks
        verify_fail := 0
        checksum := (∑ req ∈ Finset.range n, ∑ blk ∈ Finset.range blocks,
          (magic % 256 + (fillFor req blk).toNat)) % 2 ^ 64 } := by
  have hFails : ∀ req, readFails (stampedRead magic) req blocks = 0 := by
    intro req
    simp [readFails, stampedRead]
  rw [crewTotals, Nat.mod_eq_of_lt hFits, Finset.sum_congr rfl fun i _ => hFails i]
  simp [readSum, stampedRead]

/-- Steps reader `i` still has to take. -/
def readerRank (body : ReaderLoop) (s : ReadersState) (i : Nat) : Nat :=
  match s.pc i with
  | .copying => body.blocks - (s.loc i).blk + 4
  | .addBlocks => 3
  | .addFail => 2
  | .addSum => 1
  | .finished => 0

/-- A step of reader `i` leaves the others where they are. -/
theorem readerStep_other {body : ReaderLoop} {s s' : ReadersState} {i j : Nat}
    (hStep : s.readerStep body i = some s') (hj : j ≠ i) :
    s'.pc j = s.pc j ∧ s'.loc j = s.loc j := by
  unfold ReadersState.readerStep at hStep
  split at hStep
  · split at hStep
    · obtain rfl := Option.some.inj hStep
      simp [hj]
    · obtain rfl := Option.some.inj hStep
      simp [ReadersState.setPc, hj]
  · obtain rfl := Option.some.inj hStep
    simp [ReadersState.setPc, hj]
  · obtain rfl := Option.some.inj hStep
    simp [ReadersState.setPc, hj]
  · obtain rfl := Option.some.inj hStep
    simp [ReadersState.setPc, hj]
  · cases hStep

/-- Whatever reader takes a step, a finished one stays finished. -/
theorem readerStep_finished {body : ReaderLoop} {s s' : ReadersState}
    {i j : Nat} (hStep : s.readerStep body i = some s')
    (hj : s.pc j = .finished) : s'.pc j = .finished := by
  by_cases hij : j = i
  · subst j
    simp [ReadersState.readerStep, hj] at hStep
  · rw [(readerStep_other hStep hij).1, hj]

theorem readerStep_isSome {body : ReaderLoop} {s : ReadersState} {i : Nat}
    (hpc : s.pc i ≠ .finished) : ∃ s', s.readerStep body i = some s' := by
  unfold ReadersState.readerStep
  split
  · split
    · exact ⟨_, rfl⟩
    · exact ⟨_, rfl⟩
  · exact ⟨_, rfl⟩
  · exact ⟨_, rfl⟩
  · exact ⟨_, rfl⟩
  · exact absurd ‹_› hpc

/-- Every step brings the reader closer to its end. -/
theorem readerStep_rank {body : ReaderLoop} {s s' : ReadersState} {i : Nat}
    (hBlocks : body.blocks < 2 ^ 64) (hStep : s.readerStep body i = some s') :
    readerRank body s' i < readerRank body s i := by
  unfold ReadersState.readerStep at hStep
  split at hStep
  · rename_i hpc
    split at hStep
    · rename_i hMore
      obtain rfl := Option.some.inj hStep
      have hNext : ((s.loc i).blk + 1) % 2 ^ 64 = (s.loc i).blk + 1 :=
        Nat.mod_eq_of_lt (by omega)
      simp only [readerRank, hpc, Function.update_self,
        ReadersState.copyRound, hNext]
      omega
    · obtain rfl := Option.some.inj hStep
      simp only [readerRank, hpc, ReadersState.setPc, Function.update_self]
      omega
  · rename_i hpc
    obtain rfl := Option.some.inj hStep
    simp [readerRank, hpc, ReadersState.setPc]
  · rename_i hpc
    obtain rfl := Option.some.inj hStep
    simp [readerRank, hpc, ReadersState.setPc]
  · rename_i hpc
    obtain rfl := Option.some.inj hStep
    simp [readerRank, hpc, ReadersState.setPc]
  · cases hStep

end MioBench.Sync
