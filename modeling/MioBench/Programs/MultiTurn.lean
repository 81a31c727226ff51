import MioBench.Store.MultiTurn
import MioBench.Sync.Sweep

/-!
# The multi-turn program

`read_cumulative` of `test3-mt.c` is a sweep over all requests whose readers
walk the prefix written so far.  Its totals are settled here for every turn.
-/

namespace MioBench.Store.MultiTurn

open MioBench.Lib MioBench.Sync

/-- `read_cumulative` on turn `turn`. -/
def readCumulative (cfg : Cfg) (store : Memory) (chunk_bytes turn : Nat)
    (failure : Option (Nat × CreateFail)) (scratch : Nat → Memory) : Sweep where
  active_requests := cfg.requests
  copy_to_dst := cfg.copy_to_dst
  maps_scratch := true
  body :=
    { blocks := turn * cfg.req_per_blocks % 2 ^ 64
      round := fun req blk =>
        readBlock store (constBlockPtr cfg chunk_bytes req blk) cfg.block_bytes
          cfg.copy_to_dst cfg.verify (verifyBlock cfg req blk) }
  failure := failure
  scratch := scratch

section Turn

variable {cfg : Cfg} {z : Sizes} {turn : Nat}

theorem Layout.prefix_le (hz : Layout cfg z) (hTurn : turn ≤ cfg.rounds) :
    turn * cfg.req_per_blocks ≤ z.total_chunks := by
  rw [hz.total_chunks]
  exact Nat.mul_le_mul_right _ hTurn

/-- The blocks of a prefix are fewer than its bytes, so they can be counted in
64 bits. -/
theorem Layout.reads_lt (hz : Layout cfg z) (hTurn : turn ≤ cfg.rounds) :
    cfg.requests * (turn * cfg.req_per_blocks) < 2 ^ 64 := by
  have hFits := hz.fits
  have hRequests : cfg.requests ≤ z.chunk_bytes := by
    rw [hz.chunk_bytes]
    exact Nat.le_mul_of_pos_right _ hz.block_bytes.1
  have hMul := Nat.mul_le_mul (hz.prefix_le hTurn) hRequests
  rw [hz.store_bytes] at hFits
  rw [Nat.mul_comm]
  omega

theorem Layout.prefix_lt (hz : Layout cfg z) (hTurn : turn ≤ cfg.rounds) :
    turn * cfg.req_per_blocks < 2 ^ 64 := by
  have hReads := hz.reads_lt hTurn
  have hLe := Nat.le_mul_of_pos_left (turn * cfg.req_per_blocks) hz.requests.1
  omega

/-- A reader of turn `turn` finds every block of the prefix, as it was stamped
on the turn that wrote it. -/
theorem readCumulative_yields (hz : Layout cfg z) (store : Memory)
    (hTurn : turn ≤ cfg.rounds) (failure : Option (Nat × CreateFail))
    (scratch : Nat → Memory) :
    (readCumulative cfg (storeAfter cfg store z.chunk_bytes turn) z.chunk_bytes
      turn failure scratch).body.Yields cfg.requests (stampedRead blockMagic) := by
  intro req blk scratch' hReq hBlk
  have hPrefix := hz.prefix_lt hTurn
  have hTotal := hz.prefix_le hTurn
  have hRequests := hz.requests
  have hRounds := hz.rounds
  have hBlk' : blk < turn * cfg.req_per_blocks := by
    rwa [← Nat.mod_eq_of_lt hPrefix]
  have hDiv : blk / cfg.req_per_blocks < turn :=
    Nat.div_lt_of_lt_mul (by rwa [Nat.mul_comm])
  have hHolds := storeAfter_chunkHolds hz store hTurn hBlk' req hReq
  rw [← hz.constBlockPtr_eq hReq (by omega)] at hHolds
  refine readBlock_of_stamped hHolds hz.tag ?_ cfg.copy_to_dst cfg.verify scratch'
  intro m check hm
  exact verifyBlock_of_holds hm hz.tag (by omega) (by omega) rfl (by omega)

end Turn

/-- **The multi-turn run**, for every accepted command line and every turn: the
turn leaves the blocks of the turns before it alone; whatever its readers
report, under whatever schedule, is the totals of the whole prefix; and every
reachable state of the reading can be run to its report. -/
theorem multiTurn_totals {opts : List Opt} {cfg : Cfg} {z : Sizes}
    (hArgs : parseArgs opts = .ok cfg) (hSizes : sizes cfg = some z)
    (store : Memory) (turn : Nat) (hTurn : 1 ≤ turn ∧ turn ≤ cfg.rounds)
    (scratch : Nat → Memory) :
    let before := storeAfter cfg store z.chunk_bytes (turn - 1)
    let after := writeTurn cfg before z.chunk_bytes turn
    let m := sweepMachine
      (readCumulative cfg after z.chunk_bytes turn none scratch)
    (∀ req blk i, req < cfg.requests →
      blk < (turn - 1) * cfg.req_per_blocks → i < cfg.block_bytes →
      after (constBlockPtr cfg z.chunk_bytes req blk + i) =
        before (constBlockPtr cfg z.chunk_bytes req blk + i)) ∧
    (∀ s, m.Reachable s → ∀ totals, s.report = some totals → totals =
      { blocks_read := cfg.requests * turn * cfg.req_per_blocks
        verify_fail := 0
        checksum := (∑ req ∈ Finset.range cfg.requests,
          ∑ blk ∈ Finset.range (turn * cfg.req_per_blocks),
            (blockMagic % 256 + (fillFor req blk).toNat)) % 2 ^ 64 }) ∧
    ∀ s, m.Reachable s → ∃ s', m.Reaches s s' ∧ s'.report.isSome := by
  intro before after m
  have hz := sizes_layout (parseArgs_wellFormed hArgs) hSizes
  have hPrefix := hz.prefix_lt hTurn.2
  have hBlocks : turn * cfg.req_per_blocks % 2 ^ 64 =
      turn * cfg.req_per_blocks := Nat.mod_eq_of_lt hPrefix
  have hAfter : after = storeAfter cfg store z.chunk_bytes turn := by
    cases turn with
    | zero => omega
    | succ turns => rfl
  refine ⟨?_, ?_, ?_⟩
  · intro req blk i hReq hBlk hi
    have hTotal := hz.prefix_le (show turn - 1 ≤ cfg.rounds by omega)
    rw [hz.constBlockPtr_eq hReq (by omega)]
    have hWrite := (writeTurn_spec hz before
      (show turn - 1 < cfg.rounds by omega)).2
    rw [Nat.sub_add_cancel hTurn.1] at hWrite
    apply hWrite
    have hChunk := Nat.mul_le_mul_right z.chunk_bytes
      (show blk + 1 ≤ (turn - 1) * cfg.req_per_blocks by omega)
    have hBlock := hz.block_le hReq
    rw [Nat.succ_mul] at hChunk hBlock
    omega
  · intro s hs totals hReport
    have hYields := readCumulative_yields hz store hTurn.2 none scratch
    rw [← hAfter] at hYields
    have hTotals := sweep_report_eq hYields (Nat.mod_lt _ (by decide)) hs hReport
    rw [hTotals, show (readCumulative cfg after z.chunk_bytes turn none
      scratch).body.blocks = turn * cfg.req_per_blocks from hBlocks]
    rw [Nat.mul_assoc cfg.requests]
    exact crewTotals_stamped blockMagic (hz.reads_lt hTurn.2)
  · intro s hs
    exact sweep_reports (fun _ => rfl) hz.requests.2 (Nat.mod_lt _ (by decide)) hs

/-- Two requests of 41 bytes, one block a turn, on the second of two turns. -/
theorem multiTurn_totals_two :
    let cfg : Cfg :=
      { requests := 2, req_per_blocks := 1, block_bytes := 41, rounds := 2
        verify := true, copy_to_dst := true, csv_path := [] }
    let m := sweepMachine (readCumulative cfg
      (writeTurn cfg (storeAfter cfg (fun _ => 0) 82 1) 82 2) 82 2 none
      fun _ _ => 0)
    ∃ s, m.Reachable s ∧ s.report =
      some { blocks_read := 4, verify_fail := 0, checksum := 1002 } := by
  intro cfg m
  have h := @multiTurn_totals
    [.requests "2".toList, .blocks "1".toList, .blockBytes "41".toList,
      .rounds "2".toList]
    cfg ⟨82, 2, 164⟩ (by decide) (by decide) (fun _ => 0) 2 (by decide)
    fun _ _ => 0
  rcases h.2.2 m.start Machine.Reachable.initial with ⟨s, hs, hSome⟩
  rcases Option.isSome_iff_exists.mp hSome with ⟨totals, hReport⟩
  refine ⟨s, hs, ?_⟩
  rw [hReport, h.2.1 s hs totals hReport]
  decide

end MioBench.Store.MultiTurn
