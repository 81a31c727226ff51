import MioBench.Store.ChunkStripe
import MioBench.Sync.RnicSweep

/-!
# The chunk-stripe programs

`run_one_sweep` of `test2.c` and of `test2-rdma-fin.c` read the populated store
with the same loop, the second behind the RNIC thread.  They report the same
totals, which depend on the command line and the number of readers only.
-/

namespace MioBench.Store

open MioBench.Lib MioBench.Sync

/-- The loop of `reader_thread` and of `rdma_reader_thread`. -/
def chunkStripeLoop (cfg : Cfg) (store : Memory) (chunks_per_block : Nat) :
    ReaderLoop where
  blocks := cfg.req_per_blocks
  round := fun req blk =>
    readBlock store (blockPtr cfg chunks_per_block req blk) cfg.block_bytes
      cfg.copy_to_dst cfg.verify (verifyBlock cfg.block_bytes req blk)

/-- `run_one_sweep` of `test2.c`. -/
def runOneSweep (cfg : Cfg) (store : Memory)
    (chunks_per_block active_requests : Nat)
    (failure : Option (Nat × CreateFail)) (scratch : Nat → Memory) : Sweep where
  active_requests := active_requests
  copy_to_dst := cfg.copy_to_dst
  maps_scratch := false
  body := chunkStripeLoop cfg store chunks_per_block
  failure := failure
  scratch := scratch

/-- `run_one_sweep` of `test2-rdma-fin.c`. -/
def runOneRdmaSweep (cfg : Cfg) (store : Memory)
    (chunks_per_block active_requests : Nat) (lag : ℚ) (rnicFails : Bool)
    (failure : Option (Nat × RnicCreateFail)) (scratch : Nat → Memory) :
    RnicSweep where
  active_requests := active_requests
  copy_to_dst := cfg.copy_to_dst
  body := chunkStripeLoop cfg store chunks_per_block
  req_bytes := cfg.req_per_blocks * cfg.block_bytes % 2 ^ 64
  lag := lag
  rnicFails := rnicFails
  failure := failure
  scratch := scratch

section Totals

variable {cfg : Cfg} {z : Sizes} {active_requests : Nat}

/-- A reader of the populated store finds every one of its blocks as it was
stamped. -/
theorem chunkStripeLoop_yields (hz : Layout cfg z) (store : Memory)
    (hActive : active_requests ≤ cfg.requests) :
    (chunkStripeLoop cfg
      (populateChunkStripe cfg store z.chunks_per_block z.chunk_bytes)
      z.chunks_per_block).Yields active_requests (stampedRead blockMagic) := by
  intro req blk scratch hReq hBlk
  have hRequests := hz.requests
  have hBlocks := hz.req_per_blocks
  have hBlk' : blk < cfg.req_per_blocks := hBlk
  have hHolds := populate_holdsBlock hz store
    (show req < cfg.requests by omega) hBlk'
  refine readBlock_of_stamped hHolds hz.tag ?_ cfg.copy_to_dst cfg.verify scratch
  intro m check hm
  exact verifyBlock_of_holds hm hz.tag (by omega) (by omega)

/-- No counter of the totals wraps but the checksum. -/
theorem chunkStripe_crewTotals (hz : Layout cfg z)
    (hActive : active_requests ≤ cfg.requests) :
    crewTotals active_requests cfg.req_per_blocks (stampedRead blockMagic) =
      { blocks_read := active_requests * cfg.req_per_blocks
        verify_fail := 0
        checksum := (∑ req ∈ Finset.range active_requests,
          ∑ blk ∈ Finset.range cfg.req_per_blocks,
            (blockMagic % 256 + (fillFor req blk).toNat)) % 2 ^ 64 } := by
  have hRequests := hz.requests
  have hReads := Nat.mul_lt_mul''
    (show active_requests < 2 ^ 32 by omega) hz.req_per_blocks.2
  exact crewTotals_stamped blockMagic (by omega)

end Totals

/-- **The totals of a chunk-stripe sweep**, for every accepted command line and
every number of readers: whatever either program reports, under whatever
schedule, is the same totals; and where no creation fails, every reachable
state can be run to that report. -/
theorem chunkStripe_totals {opts : List Opt} {cfg : Cfg} {z : Sizes}
    (hArgs : parseArgs opts = .ok cfg) (hSizes : sizes cfg = some z)
    (store : Memory) (active_requests : Nat)
    (hActive : 1 ≤ active_requests ∧ active_requests ≤ cfg.requests)
    (scratch : Nat → Memory) :
    let filled := populateChunkStripe cfg store z.chunks_per_block z.chunk_bytes
    let sweep := fun failure => sweepMachine
      (runOneSweep cfg filled z.chunks_per_block active_requests failure scratch)
    let rdmaSweep := fun lag rnicFails failure => rnicMachine
      (runOneRdmaSweep cfg filled z.chunks_per_block active_requests lag
        rnicFails failure scratch)
    let totals : Totals :=
      { blocks_read := active_requests * cfg.req_per_blocks
        verify_fail := 0
        checksum := (∑ req ∈ Finset.range active_requests,
          ∑ blk ∈ Finset.range cfg.req_per_blocks,
            (blockMagic % 256 + (fillFor req blk).toNat)) % 2 ^ 64 }
    (∀ failure s, (sweep failure).Reachable s →
      ∀ t, s.report = some t → t = totals) ∧
    (∀ lag rnicFails failure s, (rdmaSweep lag rnicFails failure).Reachable s →
      ∀ t, s.report = some t → t = totals) ∧
    (∀ s, (sweep none).Reachable s →
      ∃ s', (sweep none).Reaches s s' ∧ s'.report = some totals) ∧
    ∀ lag s, (rdmaSweep lag false none).Reachable s →
      ∃ s', (rdmaSweep lag false none).Reaches s s' ∧
        s'.report = some totals := by
  intro filled sweep rdmaSweep totals
  have hz := sizes_layout (parseArgs_wellFormed hArgs) hSizes
  have hYields := chunkStripeLoop_yields hz store hActive.2
  have hTotals := chunkStripe_crewTotals hz hActive.2
  have hLimit : active_requests < 2 ^ 32 := by
    have hRequests := hz.requests
    omega
  have hBlocks : cfg.req_per_blocks < 2 ^ 64 := by
    have hLt := hz.req_per_blocks.2
    omega
  have hSweep : ∀ failure s, (sweep failure).Reachable s →
      ∀ t, s.report = some t → t = totals := by
    intro failure s hs t hReport
    exact (sweep_report_eq hYields hBlocks hs hReport).trans hTotals
  have hRdma : ∀ lag rnicFails failure s,
      (rdmaSweep lag rnicFails failure).Reachable s →
      ∀ t, s.report = some t → t = totals := by
    intro lag rnicFails failure s hs t hReport
    exact (rnic_report_eq hYields hBlocks hs hReport).trans hTotals
  refine ⟨hSweep, hRdma, ?_, ?_⟩
  · intro s hs
    rcases sweep_reports (fun _ => rfl) hLimit hBlocks hs with ⟨s', hReach, hSome⟩
    rcases Option.isSome_iff_exists.mp hSome with ⟨t, hReport⟩
    refine ⟨s', hReach, ?_⟩
    rw [hReport, hSweep none s' (hs.trans hReach) t hReport]
  · intro lag s hs
    rcases rnic_reports ⟨rfl, fun _ _ => rfl⟩ hLimit hBlocks hs with
      ⟨s', hReach, hSome⟩
    rcases Option.isSome_iff_exists.mp hSome with ⟨t, hReport⟩
    refine ⟨s', hReach, ?_⟩
    rw [hReport, hRdma lag false none s' (hs.trans hReach) t hReport]

/-- Three requests in chunks of two slots, the last of which stays empty: both
programs can be run to the same report. -/
theorem chunkStripe_totals_three :
    let cfg : Cfg :=
      { requests := 3, req_per_blocks := 1, chunk_slots := 2, block_bytes := 41
        rounds := 1, sweep_min := 1, sweep_max := 3, verify := true
        copy_to_dst := true, csv_path := [] }
    let filled := populateChunkStripe cfg (fun _ => 0) 2 82
    let totals : Totals := { blocks_read := 3, verify_fail := 0, checksum := 653 }
    (∃ s, (sweepMachine (runOneSweep cfg filled 2 3 none
      fun _ _ => 0)).Reachable s ∧ s.report = some totals) ∧
    ∃ s, (rnicMachine (runOneRdmaSweep cfg filled 2 3 0 false none
      fun _ _ => 0)).Reachable s ∧ s.report = some totals := by
  intro cfg filled totals
  have h := @chunkStripe_totals
    [.requests "3".toList, .blocks "1".toList, .blockBytes "41".toList,
      .chunkSlots "2".toList]
    cfg ⟨2, 2, 82, 164⟩ (by decide) (by decide) (fun _ => 0) 3 (by decide)
    fun _ _ => 0
  rcases h.2.2.1 _ Machine.Reachable.initial with ⟨s, hs, hReport⟩
  rcases h.2.2.2 0 _ Machine.Reachable.initial with ⟨t, ht, hRdma⟩
  refine ⟨⟨s, hs, ?_⟩, ⟨t, ht, ?_⟩⟩
  · rw [hReport]
    decide
  · rw [hRdma]
    decide

end MioBench.Store
