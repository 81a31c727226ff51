import MioBench.Lib.ForLoop
import MioBench.Store.Args
import MioBench.Store.Block

/-!
# The multi-turn store

`test3-mt.c` appends `req_per_blocks` blocks to every request on each turn and
then reads the whole prefix.  The writer addresses a block from the start of
its chunk, the reader from the start of the store, and `verify_block` recovers
the turn of a block by division.  A pointer into the store is its offset from
the start of the store.
-/

namespace MioBench.Store.MultiTurn

open MioBench.Lib

/-! ## Command line -/

/-- What `getopt_long` delivers, with `optarg` where the option has one. -/
inductive Opt
  | requests (optarg : List Char)
  | reqPerBlocks (optarg : List Char)
  | blocks (optarg : List Char)
  | blockMb (optarg : List Char)
  | blockBytes (optarg : List Char)
  | rounds (optarg : List Char)
  | noVerify
  | noCopy
  | csv (optarg : List Char)
  | help
  | unknown
  deriving DecidableEq, Repr

/-- `struct cfg`. -/
structure Cfg where
  requests : Nat
  req_per_blocks : Nat
  block_bytes : Nat
  rounds : Nat
  verify : Bool
  copy_to_dst : Bool
  csv_path : List Char
  deriving DecidableEq, Repr

/-- The assignments at the head of `parse_args`. -/
def defaultCfg : Cfg where
  requests := 32
  req_per_blocks := 64
  block_bytes := 16 * 1024 * 1024
  rounds := 1
  verify := true
  copy_to_dst := true
  csv_path := []

/-- One round of the `switch`. -/
def applyOpt (cfg : Cfg) : Opt → Except ArgError Cfg
  | .requests v =>
      (parseU32Arg "--requests" v).map fun n => { cfg with requests := n }
  | .reqPerBlocks v =>
      (parseU32Arg "--req_per_blocks" v).map fun n =>
        { cfg with req_per_blocks := n }
  | .blocks v =>
      (parseU32Arg "--blocks" v).map fun n => { cfg with req_per_blocks := n }
  | .blockMb v => (parseBlockMb v).map fun n => { cfg with block_bytes := n }
  | .blockBytes v =>
      (parseU32Arg "--block-bytes" v).map fun n => { cfg with block_bytes := n }
  | .rounds v => (parseU32Arg "--rounds" v).map fun n => { cfg with rounds := n }
  | .noVerify => .ok { cfg with verify := false }
  | .noCopy => .ok { cfg with copy_to_dst := false }
  | .csv v => .ok { cfg with csv_path := v.take 255 }
  | .help => .error .help
  | .unknown => .error .usage

/-- `sizeof(struct block_tag)`: five 64-bit fields. -/
def tagBytes : Nat := 40

/-- The check after the loop. -/
def checkCfg (cfg : Cfg) : Except ArgError Cfg :=
  if cfg.block_bytes < tagBytes + 1 then
    .error (.blockBytesAtLeast (tagBytes + 1))
  else .ok cfg

/-- `parse_args`. -/
def parseArgs (opts : List Opt) : Except ArgError Cfg :=
  (applyOpts applyOpt defaultCfg opts).bind checkCfg

/-- The 32-bit fields that every option keeps positive. -/
structure Cfg.InRange (cfg : Cfg) : Prop where
  requests : 1 ≤ cfg.requests ∧ cfg.requests < 2 ^ 32
  req_per_blocks : 1 ≤ cfg.req_per_blocks ∧ cfg.req_per_blocks < 2 ^ 32
  block_bytes : 1 ≤ cfg.block_bytes ∧ cfg.block_bytes < 2 ^ 32
  rounds : 1 ≤ cfg.rounds ∧ cfg.rounds < 2 ^ 32

/-- A configuration the turns can run on. -/
structure Cfg.WellFormed (cfg : Cfg) : Prop extends Cfg.InRange cfg where
  tag : tagBytes + 1 ≤ cfg.block_bytes

theorem defaultCfg_inRange : defaultCfg.InRange where
  requests := by decide
  req_per_blocks := by decide
  block_bytes := by decide
  rounds := by decide

theorem applyOpt_inRange (cfg : Cfg) (opt : Opt) (cfg' : Cfg) (h : cfg.InRange)
    (hOpt : applyOpt cfg opt = .ok cfg') : cfg'.InRange := by
  cases opt with
  | requests v =>
      rcases exists_of_map_ok hOpt with ⟨n, hn, rfl⟩
      exact { h with requests := parseU32Arg_range hn }
  | reqPerBlocks v =>
      rcases exists_of_map_ok hOpt with ⟨n, hn, rfl⟩
      exact { h with req_per_blocks := parseU32Arg_range hn }
  | blocks v =>
      rcases exists_of_map_ok hOpt with ⟨n, hn, rfl⟩
      exact { h with req_per_blocks := parseU32Arg_range hn }
  | blockMb v =>
      rcases exists_of_map_ok hOpt with ⟨n, hn, rfl⟩
      exact { h with block_bytes := parseBlockMb_range hn }
  | blockBytes v =>
      rcases exists_of_map_ok hOpt with ⟨n, hn, rfl⟩
      exact { h with block_bytes := parseU32Arg_range hn }
  | rounds v =>
      rcases exists_of_map_ok hOpt with ⟨n, hn, rfl⟩
      exact { h with rounds := parseU32Arg_range hn }
  | noVerify =>
      obtain rfl := Except.ok.inj hOpt
      exact { h with }
  | noCopy =>
      obtain rfl := Except.ok.inj hOpt
      exact { h with }
  | csv v =>
      obtain rfl := Except.ok.inj hOpt
      exact { h with }
  | help => cases hOpt
  | unknown => cases hOpt

/-- Every accepted command line gives a well-formed configuration. -/
theorem parseArgs_wellFormed {opts : List Opt} {cfg : Cfg}
    (h : parseArgs opts = .ok cfg) : cfg.WellFormed := by
  cases hOpts : applyOpts applyOpt defaultCfg opts with
  | error e => simp [parseArgs, hOpts, Except.bind] at h
  | ok cfg₁ =>
      have hCheck : checkCfg cfg₁ = .ok cfg := by
        simpa [parseArgs, hOpts, Except.bind] using h
      have hRange := applyOpts_invariant applyOpt_inRange defaultCfg_inRange hOpts
      unfold checkCfg at hCheck
      split at hCheck
      · cases hCheck
      · obtain rfl := Except.ok.inj hCheck
        exact { hRange with tag := by omega }

/-! ## Sizes -/

/-- The sizes at the head of `main`. -/
structure Sizes where
  chunk_bytes : Nat
  total_chunks : Nat
  store_bytes : Nat
  deriving DecidableEq, Repr

/-- `none` is "configured memory size overflows". -/
def sizes (cfg : Cfg) : Option Sizes :=
  (checkedMulU64 cfg.requests cfg.block_bytes).bind fun chunk_bytes =>
    (checkedMulU64 cfg.rounds cfg.req_per_blocks).bind fun total_chunks =>
      (checkedMulU64 total_chunks chunk_bytes).bind fun store_bytes =>
        if 2 ^ 64 - 1 < store_bytes then none
        else some
          { chunk_bytes := chunk_bytes
            total_chunks := total_chunks
            store_bytes := store_bytes }

/-- A configuration and its sizes, as `main` goes on with them: no product has
wrapped. -/
structure Layout (cfg : Cfg) (z : Sizes) : Prop extends Cfg.WellFormed cfg where
  chunk_bytes : z.chunk_bytes = cfg.requests * cfg.block_bytes
  total_chunks : z.total_chunks = cfg.rounds * cfg.req_per_blocks
  store_bytes : z.store_bytes = z.total_chunks * z.chunk_bytes
  fits : z.store_bytes < 2 ^ 64

theorem sizes_layout {cfg : Cfg} {z : Sizes} (hCfg : cfg.WellFormed)
    (h : sizes cfg = some z) : Layout cfg z := by
  rcases Option.bind_eq_some_iff.mp h with ⟨chunk_bytes, hChunk, h⟩
  rcases Option.bind_eq_some_iff.mp h with ⟨total_chunks, hTotal, h⟩
  rcases Option.bind_eq_some_iff.mp h with ⟨store_bytes, hStore, h⟩
  have hChunk := checkedMulU64_eq hChunk
  have hTotal := checkedMulU64_eq hTotal
  have hStore := checkedMulU64_eq hStore
  rw [if_neg (by omega)] at h
  obtain rfl := Option.some.inj h
  exact
    { hCfg with
      chunk_bytes := hChunk.1
      total_chunks := hTotal.1
      store_bytes := hStore.1
      fits := hStore.2 }

/-! ## Tags -/

/-- `BLOCK_MAGIC`, the bytes of "MTURNBLK". -/
def blockMagic : Nat := 0x4d5455524e424c4b

/-- `struct block_tag`. -/
structure BlockTag where
  magic : Nat
  request_id : Nat
  block_id : Nat
  turn_id : Nat
  fill_byte : Nat
  deriving DecidableEq, Repr

namespace BlockTag

def fields (tag : BlockTag) : List Nat :=
  [tag.magic, tag.request_id, tag.block_id, tag.turn_id, tag.fill_byte]

/-- The tag of block `blk` of request `req`, written on turn `turn`. -/
def of (req blk turn : Nat) : BlockTag where
  magic := blockMagic
  request_id := req
  block_id := blk
  turn_id := turn
  fill_byte := (fillFor req blk).toNat

/-- `memcpy(&tag, src, sizeof(tag))`. -/
def load (m : Memory) (src : Nat) : BlockTag where
  magic := m.word src 0
  request_id := m.word src 1
  block_id := m.word src 2
  turn_id := m.word src 3
  fill_byte := m.word src 4

end BlockTag

/-- `fill_block`. -/
def fillBlock (m : Memory) (dst block_bytes req blk turn : Nat) : Memory :=
  stampBlock m dst block_bytes (fillFor req blk) (BlockTag.of req blk turn).fields

/-- `verify_block`. -/
def verifyBlock (cfg : Cfg) (req blk : Nat) (m : Memory) (src : Nat) : Bool :=
  let tag := BlockTag.load m src
  let fill := fillFor req blk
  let turn := (blk / cfg.req_per_blocks + 1) % 2 ^ 64
  tag.magic == blockMagic && tag.request_id == req && tag.block_id == blk &&
    tag.turn_id == turn && tag.fill_byte == fill.toNat &&
    m (src + cfg.block_bytes - 1) == fill

/-- The block at `src` is block `blk` of request `req`, written on `turn`. -/
def HoldsBlock (m : Memory) (src block_bytes req blk turn : Nat) : Prop :=
  Stamped m src block_bytes (fillFor req blk) (BlockTag.of req blk turn).fields

theorem verifyBlock_of_holds {cfg : Cfg} {m : Memory} {src req blk turn : Nat}
    (h : HoldsBlock m src cfg.block_bytes req blk turn)
    (hTag : tagBytes < cfg.block_bytes) (hReq : req < 2 ^ 64)
    (hBlk : blk < 2 ^ 64) (hTurn : turn = blk / cfg.req_per_blocks + 1)
    (hTurnLt : turn < 2 ^ 64) : verifyBlock cfg req blk m src = true := by
  have hLen : 8 * (BlockTag.of req blk turn).fields.length < cfg.block_bytes :=
    hTag
  have hFill := (fillFor req blk).toNat_lt
  have hMagic := h.word (k := 0) (by omega) (by simp [BlockTag.fields])
    (by show blockMagic < 2 ^ 64; decide)
  have hRequest := h.word (k := 1) (by omega) (by simp [BlockTag.fields])
    (by show req < 2 ^ 64; exact hReq)
  have hBlock := h.word (k := 2) (by omega) (by simp [BlockTag.fields])
    (by show blk < 2 ^ 64; exact hBlk)
  have hTurnId := h.word (k := 3) (by omega) (by simp [BlockTag.fields])
    (by show turn < 2 ^ 64; exact hTurnLt)
  have hByte := h.word (k := 4) (by omega) (by simp [BlockTag.fields])
    (by show (fillFor req blk).toNat < 2 ^ 64; omega)
  have hLast := h.last hLen
  have hSame : (blk / cfg.req_per_blocks + 1) % 2 ^ 64 = turn := by
    rw [← hTurn, Nat.mod_eq_of_lt hTurnLt]
  simp only [verifyBlock, BlockTag.load, hMagic, hRequest, hBlock, hTurnId,
    hByte, hLast, hSame]
  simp [BlockTag.fields, BlockTag.of]

/-! ## Addresses -/

/-- `block_ptr`, from any base. -/
def blockPtr (cfg : Cfg) (store chunk_bytes req blk : Nat) : Nat :=
  store + blk * chunk_bytes % 2 ^ 64 + req * cfg.block_bytes % 2 ^ 64

/-- `const_block_ptr`, from the start of the store. -/
def constBlockPtr (cfg : Cfg) (chunk_bytes req blk : Nat) : Nat :=
  blk * chunk_bytes % 2 ^ 64 + req * cfg.block_bytes % 2 ^ 64

section Layout

variable {cfg : Cfg} {z : Sizes}

/-- A chunk ends inside the store, and a block inside its chunk. -/
theorem Layout.chunk_le (h : Layout cfg z) {blk : Nat}
    (hBlk : blk < z.total_chunks) :
    (blk + 1) * z.chunk_bytes ≤ z.store_bytes := by
  rw [h.store_bytes]
  exact Nat.mul_le_mul_right _ hBlk

theorem Layout.block_le (h : Layout cfg z) {req : Nat}
    (hReq : req < cfg.requests) :
    (req + 1) * cfg.block_bytes ≤ z.chunk_bytes := by
  rw [h.chunk_bytes]
  exact Nat.mul_le_mul_right _ hReq

/-- No product in the reader's address wraps. -/
theorem Layout.constBlockPtr_eq (h : Layout cfg z) {req blk : Nat}
    (hReq : req < cfg.requests) (hBlk : blk < z.total_chunks) :
    constBlockPtr cfg z.chunk_bytes req blk =
      blk * z.chunk_bytes + req * cfg.block_bytes := by
  have hFits := h.fits
  have hChunk := h.chunk_le hBlk
  have hBlock := h.block_le hReq
  rw [Nat.succ_mul] at hChunk hBlock
  rw [constBlockPtr, Nat.mod_eq_of_lt (show blk * z.chunk_bytes < 2 ^ 64 by
      omega), Nat.mod_eq_of_lt (show req * cfg.block_bytes < 2 ^ 64 by omega)]

end Layout

/-! ## Writing a turn -/

/-- The request loop of `write_turn`: block `blk` of every request. -/
def writeChunk (cfg : Cfg) (chunk_bytes turn : Nat) (m : Memory) (blk : Nat) :
    Memory :=
  let chunk := blk * chunk_bytes % 2 ^ 64
  (List.range cfg.requests).foldl (fun m req =>
    fillBlock m (blockPtr cfg chunk chunk_bytes req 0) cfg.block_bytes req blk
      turn) m

/-- `write_turn`; `turn - 1` is taken in 32 bits. -/
def writeTurn (cfg : Cfg) (store : Memory) (chunk_bytes turn : Nat) : Memory :=
  let first_blk := (turn + 2 ^ 32 - 1) % 2 ^ 32 * cfg.req_per_blocks % 2 ^ 64
  (List.range cfg.req_per_blocks).foldl (fun m i =>
    writeChunk cfg chunk_bytes turn m ((first_blk + i) % 2 ^ 64)) store

/-- The store after turns `1 .. turns` of the loop in `main`; the reading in
between leaves it alone. -/
def storeAfter (cfg : Cfg) (store : Memory) (chunk_bytes : Nat) : Nat → Memory
  | 0 => store
  | turns + 1 =>
      writeTurn cfg (storeAfter cfg store chunk_bytes turns) chunk_bytes
        (turns + 1)

/-- Block `blk` of every request is in its place. -/
def ChunkHolds (cfg : Cfg) (z : Sizes) (m : Memory) (blk turn : Nat) : Prop :=
  ∀ req, req < cfg.requests →
    HoldsBlock m (blk * z.chunk_bytes + req * cfg.block_bytes) cfg.block_bytes
      req blk turn

section Write

variable {cfg : Cfg} {z : Sizes}

/-- A chunk keeps its blocks under stores behind it. -/
theorem ChunkHolds.congr {m m' : Memory} {blk turn : Nat} (hz : Layout cfg z)
    (h : ChunkHolds cfg z m blk turn)
    (hSame : ∀ a, a < (blk + 1) * z.chunk_bytes → m' a = m a) :
    ChunkHolds cfg z m' blk turn := by
  intro req hReq
  apply (h req hReq).congr
  intro i hi
  have hBlock := hz.block_le hReq
  rw [Nat.succ_mul] at hBlock
  apply hSame
  rw [Nat.succ_mul]
  omega

/-- The request loop fills its chunk and touches nothing outside it. -/
theorem writeChunk_spec (hz : Layout cfg z) (m : Memory) {blk : Nat}
    (turn : Nat) (hBlk : blk < z.total_chunks) :
    ChunkHolds cfg z (writeChunk cfg z.chunk_bytes turn m blk) blk turn ∧
    ∀ a, a < blk * z.chunk_bytes ∨ (blk + 1) * z.chunk_bytes ≤ a →
      writeChunk cfg z.chunk_bytes turn m blk a = m a := by
  have hFits := hz.fits
  have hChunk := hz.chunk_le hBlk
  let image : Nat → Option (UInt8 × List Nat) := fun req =>
    some (fillFor req blk, (BlockTag.of req blk turn).fields)
  have hRow : writeChunk cfg z.chunk_bytes turn m blk =
      stampRow m (blk * z.chunk_bytes) cfg.block_bytes cfg.requests image := by
    apply List.foldl_ext
    intro m' req hMem
    have hBlock := hz.block_le (List.mem_range.mp hMem)
    rw [Nat.succ_mul] at hBlock hChunk
    have hPtr : blockPtr cfg (blk * z.chunk_bytes % 2 ^ 64) z.chunk_bytes req 0 =
        blk * z.chunk_bytes + req * cfg.block_bytes := by
      rw [blockPtr, Nat.zero_mul, Nat.zero_mod, Nat.add_zero,
        Nat.mod_eq_of_lt (show blk * z.chunk_bytes < 2 ^ 64 by omega),
        Nat.mod_eq_of_lt (show req * cfg.block_bytes < 2 ^ 64 by omega)]
    rw [hPtr]
    rfl
  have hTag : ∀ req fill tag, image req = some (fill, tag) →
      8 * tag.length ≤ cfg.block_bytes := by
    intro req fill tag hSome
    rw [← (Prod.mk.inj (Option.some.inj hSome)).2]
    exact Nat.le_of_succ_le hz.tag
  have hSpec := stampRow_spec m (blk * z.chunk_bytes) cfg.requests hTag
  rw [hRow]
  refine ⟨fun req hReq => hSpec.1 req _ _ hReq rfl, ?_⟩
  intro a ha
  rw [Nat.succ_mul, hz.chunk_bytes] at ha
  exact hSpec.2 a (by rw [hz.chunk_bytes]; exact ha)

/-- One turn fills its chunks and leaves everything in front of them alone. -/
theorem writeTurn_spec (hz : Layout cfg z) (m : Memory) {turns : Nat}
    (hTurns : turns < cfg.rounds) :
    (∀ blk, turns * cfg.req_per_blocks ≤ blk →
      blk < (turns + 1) * cfg.req_per_blocks →
      ChunkHolds cfg z (writeTurn cfg m z.chunk_bytes (turns + 1)) blk
        (turns + 1)) ∧
    ∀ a, a < turns * cfg.req_per_blocks * z.chunk_bytes →
      writeTurn cfg m z.chunk_bytes (turns + 1) a = m a := by
  have hRounds := hz.rounds
  have hBlocks := hz.req_per_blocks
  have hEnd : (turns + 1) * cfg.req_per_blocks ≤ z.total_chunks := by
    rw [hz.total_chunks]
    exact Nat.mul_le_mul_right _ hTurns
  have hTotal : z.total_chunks < 2 ^ 64 := by
    rw [hz.total_chunks]
    have hMul := Nat.mul_lt_mul'' hRounds.2 hBlocks.2
    omega
  rw [Nat.succ_mul] at hEnd ⊢
  have hTurn : (turns + 1 + 2 ^ 32 - 1) % 2 ^ 32 = turns := by omega
  simp only [writeTurn, hTurn]
  rw [Nat.mod_eq_of_lt (show turns * cfg.req_per_blocks < 2 ^ 64 by omega)]
  refine foldl_range_invariant (fun n m' =>
    (∀ blk, turns * cfg.req_per_blocks ≤ blk →
      blk < turns * cfg.req_per_blocks + n →
      ChunkHolds cfg z m' blk (turns + 1)) ∧
    ∀ a, a < turns * cfg.req_per_blocks * z.chunk_bytes → m' a = m a)
    ⟨fun blk _ hBlk => by omega, fun a _ => rfl⟩ ?_
  intro i m' hi hInv
  rw [Nat.mod_eq_of_lt (show turns * cfg.req_per_blocks + i < 2 ^ 64 by omega)]
  have hChunk := writeChunk_spec hz m' (turns + 1)
    (show turns * cfg.req_per_blocks + i < z.total_chunks by omega)
  have hFirst := Nat.mul_le_mul_right z.chunk_bytes
    (show turns * cfg.req_per_blocks ≤ turns * cfg.req_per_blocks + i by omega)
  refine ⟨?_, fun a ha => (hChunk.2 a (by omega)).trans (hInv.2 a ha)⟩
  intro blk hLow hHigh
  by_cases hLast : blk = turns * cfg.req_per_blocks + i
  · rw [hLast]
    exact hChunk.1
  · apply (hInv.1 blk hLow (by omega)).congr hz
    intro a ha
    have hBefore := Nat.mul_le_mul_right z.chunk_bytes
      (show blk + 1 ≤ turns * cfg.req_per_blocks + i by omega)
    exact hChunk.2 a (by omega)

/-- **Every turn extends the prefix of the turns before it**: after `turns`
turns, block `blk` of every request is in its place, with the turn that
`verify_block` recovers by division. -/
theorem storeAfter_chunkHolds (hz : Layout cfg z) (store : Memory)
    {turns : Nat} (hTurns : turns ≤ cfg.rounds) {blk : Nat}
    (hBlk : blk < turns * cfg.req_per_blocks) :
    ChunkHolds cfg z (storeAfter cfg store z.chunk_bytes turns) blk
      (blk / cfg.req_per_blocks + 1) := by
  induction turns generalizing blk with
  | zero => simp at hBlk
  | succ turns ih =>
      have hTurn := writeTurn_spec hz (storeAfter cfg store z.chunk_bytes turns)
        (show turns < cfg.rounds by omega)
      by_cases hOld : blk < turns * cfg.req_per_blocks
      · apply (ih (by omega) hOld).congr hz
        intro a ha
        have hBefore := Nat.mul_le_mul_right z.chunk_bytes
          (show blk + 1 ≤ turns * cfg.req_per_blocks by omega)
        exact hTurn.2 a (by omega)
      · have hDiv : blk / cfg.req_per_blocks = turns :=
          Nat.div_eq_of_lt_le (by omega) hBlk
        rw [hDiv]
        exact hTurn.1 blk (by omega) hBlk

end Write

end MioBench.Store.MultiTurn
