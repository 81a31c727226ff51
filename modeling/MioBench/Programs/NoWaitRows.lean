import MioBench.Programs.FailureCleanup
import MioBench.Sync.NoWaitReport

/-!
# The rows of the no-wait program

`main` of `test4-nowait.c` works out the column `read_blocks_per_req` of a row
as `turn * req_per_blocks`, which is how far its header says a turn reads and
how far `read_cumulative` does.  `read_rdma`, which it calls instead, has that
product in a comment and reads `req_per_blocks` blocks on every turn.
-/

namespace MioBench.Store.MultiTurn

open MioBench.Lib MioBench.Sync

/-- The integers of a row of `main`. -/
structure Row where
  turn : Nat
  write_blocks : Nat
  read_blocks_per_req : Nat
  read_blocks : Nat
  fails : Nat
  checksum : Nat
  deriving DecidableEq, Repr

/-- The row of a turn on which `read_rdma` has stored `totals` through its
out-parameters. -/
def turnRow (cfg : Cfg) (turn : Nat) (totals : Totals) : Row where
  turn := turn
  write_blocks := cfg.requests * cfg.req_per_blocks % 2 ^ 64
  read_blocks_per_req := turn * cfg.req_per_blocks % 2 ^ 64
  read_blocks := totals.blocks_read
  fails := totals.verify_fail
  checksum := totals.checksum

/-- What the row of turn `turn` says is what has been read: the total is that of
all requests, and the blocks are those of the prefix the turn is to read. -/
structure RowConsistent (cfg : Cfg) (store : Memory) (chunk_bytes turn : Nat)
    (scratch : Nat → Memory) : Prop where
  total : ∀ t,
    (rdmaMachine (readRdma cfg store chunk_bytes none scratch)).Reachable t →
    ∀ totals, t.report = some totals →
      (turnRow cfg turn totals).read_blocks =
        cfg.requests * (turnRow cfg turn totals).read_blocks_per_req
  blocks : ∀ t,
    (rdmaMachine (readRdma cfg store chunk_bytes none scratch)).Reachable t →
    t.report.isSome → ∀ req blk, (req, blk) ∈ t.reads ↔
      req < cfg.requests ∧ blk < turn * cfg.req_per_blocks

section Turn

variable {cfg : Cfg} {z : Sizes} {turn : Nat}

/-- A reader finds the blocks of the first turn as they were stamped. -/
theorem readRdma_yields (hz : Layout cfg z) (store : Memory)
    (hTurn : 1 ≤ turn ∧ turn ≤ cfg.rounds) (failure : Option (Nat × CreateFail))
    (scratch : Nat → Memory) :
    (readRdma cfg (storeAfter cfg store z.chunk_bytes turn) z.chunk_bytes failure
      scratch).body.Yields cfg.requests (stampedRead blockMagic) := by
  intro req blk scratch' hReq hBlk
  have hPrefix := hz.prefix_lt hTurn.2
  have hFirst : cfg.req_per_blocks ≤ turn * cfg.req_per_blocks :=
    Nat.le_mul_of_pos_left _ hTurn.1
  refine readCumulative_yields hz store hTurn.2 failure scratch req blk scratch'
    hReq ?_
  show blk < turn * cfg.req_per_blocks % 2 ^ 64
  rw [Nat.mod_eq_of_lt hPrefix]
  exact Nat.lt_of_lt_of_le hBlk hFirst

/-- On every turn, and under every schedule, `read_rdma` reports the first
`req_per_blocks` blocks of every request, and has read no others. -/
theorem readRdma_totals (hz : Layout cfg z) (store : Memory)
    (hTurn : 1 ≤ turn ∧ turn ≤ cfg.rounds) (scratch : Nat → Memory)
    {t : RdmaState} (ht : (rdmaMachine (readRdma cfg
      (storeAfter cfg store z.chunk_bytes turn) z.chunk_bytes none
        scratch)).Reachable t)
    {totals : Totals} (hReport : t.report = some totals) :
    totals =
      { blocks_read := cfg.requests * cfg.req_per_blocks
        verify_fail := 0
        checksum := (∑ req ∈ Finset.range cfg.requests,
          ∑ blk ∈ Finset.range cfg.req_per_blocks,
            (blockMagic % 256 + (fillFor req blk).toNat)) % 2 ^ 64 } ∧
    ∀ req blk, (req, blk) ∈ t.reads ↔
      req < cfg.requests ∧ blk < cfg.req_per_blocks := by
  have hLess : cfg.req_per_blocks < 2 ^ 64 :=
    Nat.lt_trans hz.req_per_blocks.2 (by decide)
  have hReads := hz.reads_lt (show 1 ≤ cfg.rounds by omega)
  rw [Nat.one_mul] at hReads
  obtain ⟨hTotals, hBlocks⟩ := rdma_report_eq (fun _ => rfl)
    (readRdma_yields hz store hTurn none scratch) hLess ht hReport
  rw [hTotals]
  exact ⟨crewTotals_stamped blockMagic hReads, hBlocks⟩

end Turn

/-- **The rows of the no-wait program**, for every accepted command line, every
turn, every content of the memory and under every schedule: what the row says
is what has been read on the first turn, and on no other. -/
theorem rowConsistent_iff {opts : List Opt} {cfg : Cfg} {z : Sizes}
    (hArgs : parseArgs opts = .ok cfg) (hSizes : sizes cfg = some z)
    (store : Memory) (turn : Nat) (hTurn : 1 ≤ turn ∧ turn ≤ cfg.rounds)
    (scratch : Nat → Memory) :
    RowConsistent cfg (storeAfter cfg store z.chunk_bytes turn) z.chunk_bytes turn
      scratch ↔ turn = 1 := by
  have hz := sizes_layout (parseArgs_wellFormed hArgs) hSizes
  have hLess : cfg.req_per_blocks < 2 ^ 64 :=
    Nat.lt_trans hz.req_per_blocks.2 (by decide)
  constructor
  · intro h
    obtain ⟨t, ht, hSome⟩ := @rdma_reports (readRdma cfg
      (storeAfter cfg store z.chunk_bytes turn) z.chunk_bytes none scratch)
      (fun _ => rfl) hz.requests.2 hLess
    obtain ⟨totals, hReport⟩ := Option.isSome_iff_exists.mp hSome
    have hTotal := h.total t ht totals hReport
    rw [(readRdma_totals hz store hTurn scratch ht hReport).1] at hTotal
    simp only [turnRow, Nat.mod_eq_of_lt (hz.prefix_lt hTurn.2)] at hTotal
    have hBlocks := Nat.eq_of_mul_eq_mul_left hz.requests.1 hTotal
    exact (Nat.eq_of_mul_eq_mul_right hz.req_per_blocks.1
      ((Nat.one_mul _).trans hBlocks)).symm
  · rintro rfl
    constructor
    · intro t ht totals hReport
      rw [(readRdma_totals hz store hTurn scratch ht hReport).1]
      simp only [turnRow, Nat.one_mul, Nat.mod_eq_of_lt hLess]
    · intro t ht hSome
      obtain ⟨totals, hReport⟩ := Option.isSome_iff_exists.mp hSome
      rw [Nat.one_mul]
      exact (readRdma_totals hz store hTurn scratch ht hReport).2

/-- The one turn of the default command line. -/
theorem rowConsistent_iff_default :
    RowConsistent defaultCfg (storeAfter defaultCfg (fun _ => 0) 536870912 1)
      536870912 1 fun _ _ => 0 :=
  (@rowConsistent_iff [] defaultCfg ⟨536870912, 64, 34359738368⟩ (by decide)
    (by decide) (fun _ => 0) 1 (by decide) fun _ _ => 0).mpr rfl

/-- `--rounds 2`: the row of turn 2 says 128 blocks for each of the 32 requests
and 2048 blocks in all. -/
theorem rowConsistent_not_always :
    ¬ ∀ (opts : List Opt) (cfg : Cfg) (z : Sizes) (store : Memory) (turn : Nat)
        (scratch : Nat → Memory),
      parseArgs opts = .ok cfg → sizes cfg = some z →
      1 ≤ turn ∧ turn ≤ cfg.rounds →
      RowConsistent cfg (storeAfter cfg store z.chunk_bytes turn) z.chunk_bytes
        turn scratch := by
  intro h
  let cfg : Cfg := { defaultCfg with rounds := 2 }
  let z : Sizes := ⟨536870912, 128, 68719476736⟩
  have hArgs : parseArgs [.rounds "2".toList] = .ok cfg := by decide
  have hSizes : sizes cfg = some z := by decide
  have hz := sizes_layout (parseArgs_wellFormed hArgs) hSizes
  have hRow := h _ cfg z (fun _ => 0) 2 (fun _ _ => 0) hArgs hSizes (by decide)
  obtain ⟨t, ht, hSome⟩ := @rdma_reports (readRdma cfg
    (storeAfter cfg (fun _ => 0) z.chunk_bytes 2) z.chunk_bytes none
    fun _ _ => 0) (fun _ => rfl) (by decide) (by decide)
  obtain ⟨totals, hReport⟩ := Option.isSome_iff_exists.mp hSome
  have hTotal := hRow.total t ht totals hReport
  rw [(readRdma_totals hz (fun _ => 0) (by decide) (fun _ _ => 0) ht hReport).1]
    at hTotal
  exact absurd hTotal (by decide)

end MioBench.Store.MultiTurn
