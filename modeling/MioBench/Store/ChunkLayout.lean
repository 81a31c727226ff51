import MioBench.Lib.Checked
import MioBench.Store.ChunkStripe

/-!
# The layout of the chunk-stripe store

The sizes of `main`, `block_ptr` and `populate_chunk_stripe` once more, with
operations that stop where the 64-bit ones would wrap.  They never stop, so the
blocks lie where exact arithmetic puts them: apart from one another and inside
the store.  What is left of the store is padding, and stays zero.
-/

namespace MioBench.Store

open MioBench.Lib

/-! ## The operations, checked -/

namespace Exact

/-- The sizes of `main`. -/
def sizes (cfg : Cfg) : Option Sizes :=
  (Checked.add 64 cfg.requests cfg.chunk_slots).bind fun n =>
  (Checked.sub n 1).bind fun n =>
  (Checked.mul 64 cfg.req_per_blocks (n / cfg.chunk_slots)).bind
    fun chunk_count =>
  (Checked.mul 64 cfg.chunk_slots cfg.block_bytes).bind fun chunk_bytes =>
  (Checked.mul 64 chunk_count chunk_bytes).map fun store_bytes =>
    { chunks_per_block := n / cfg.chunk_slots
      chunk_count := chunk_count
      chunk_bytes := chunk_bytes
      store_bytes := store_bytes }

/-- `block_ptr`. -/
def blockPtr (cfg : Cfg) (chunks_per_block req blk : Nat) : Option Nat :=
  (Checked.mul 64 blk chunks_per_block).bind fun first =>
  (Checked.add 64 first (req / cfg.chunk_slots)).bind fun chunk =>
  (Checked.mul 64 chunk cfg.chunk_slots).bind fun slots =>
  (Checked.mul 64 slots cfg.block_bytes).bind fun start =>
  (Checked.mul 64 (req % cfg.chunk_slots) cfg.block_bytes).bind fun off =>
  Checked.add 64 start off

/-- The body of the slot loop, with the products of `fill_for`. -/
def fillSlot (cfg : Cfg) (chunk group blk : Nat) (m : Memory) (slot : Nat) :
    Option Memory :=
  (Checked.mul 64 group cfg.chunk_slots).bind fun first =>
  (Checked.add 64 first slot).bind fun req =>
  if cfg.requests ≤ req then some m
  else
    (Checked.mul 64 slot cfg.block_bytes).bind fun off =>
    (Checked.add 64 chunk off).bind fun dst =>
    (Checked.mul 64 req 31).bind fun _ =>
    (Checked.mul 64 blk 17).map fun _ =>
      fillBlock m dst cfg.block_bytes req blk

/-- The body of the group loop. -/
def fillChunk (cfg : Cfg) (chunk_bytes blk : Nat) (s : Memory × Nat)
    (group : Nat) : Option (Memory × Nat) :=
  (Checked.mul 64 s.2 chunk_bytes).bind fun chunk =>
  (Checked.loop 64 cfg.chunk_slots (fillSlot cfg chunk group blk)
    (s.1.fill chunk 0 chunk_bytes)).bind fun m =>
  (Checked.add 64 s.2 1).map fun chunk_id => (m, chunk_id)

/-- `populate_chunk_stripe`. -/
def populateChunkStripe (cfg : Cfg) (store : Memory)
    (chunks_per_block chunk_bytes : Nat) : Option Memory :=
  (Checked.loop 64 cfg.req_per_blocks (fun s blk =>
    Checked.loop 64 chunks_per_block (fillChunk cfg chunk_bytes blk) s)
    (store, 0)).map Prod.fst

end Exact

section NoWrap

variable {cfg : Cfg} {z : Sizes}

theorem exact_sizes (hCfg : cfg.WellFormed) (h : sizes cfg = some z) :
    Exact.sizes cfg = some z ∧ z.chunks_per_block =
      (cfg.requests + cfg.chunk_slots - 1) / cfg.chunk_slots := by
  have hz := sizes_layout hCfg h
  have hReq := hCfg.requests
  have hSlots := hCfg.chunk_slots
  have hCeil : (cfg.requests + cfg.chunk_slots - 1) % 2 ^ 64 =
      cfg.requests + cfg.chunk_slots - 1 := Nat.mod_eq_of_lt (by omega)
  rcases Option.bind_eq_some_iff.mp h with ⟨chunk_bytes, hChunk, hRest⟩
  rcases Option.bind_eq_some_iff.mp hRest with ⟨store_bytes, hStore, hRest⟩
  split at hRest
  · cases hRest
  have hEq := Option.some.inj hRest
  have hPerBlock : z.chunks_per_block =
      (cfg.requests + cfg.chunk_slots - 1) / cfg.chunk_slots := by
    rw [← hEq, ← hCeil]
    rfl
  have hCount : cfg.req_per_blocks * z.chunks_per_block < 2 ^ 64 := by
    have hMul := Nat.mul_lt_mul'' hCfg.req_per_blocks.2 hz.chunks
    omega
  have hChunkLt := (checkedMulU64_eq hChunk).2
  have hFits := hz.fits
  have hChunkBytes : z.chunk_bytes = chunk_bytes := by rw [← hEq]
  have hChunkCount : z.chunk_count = cfg.req_per_blocks * z.chunks_per_block := by
    rw [← Nat.mod_eq_of_lt hCount, ← hEq]
  have hProduct := hz.store_bytes
  have hRow := hz.chunk_bytes
  refine ⟨?_, hPerBlock⟩
  rw [Exact.sizes, Checked.add_eq (by omega), Option.bind_some,
    Checked.sub_eq (by omega), Option.bind_some, ← hPerBlock,
    Checked.mul_eq hCount, Option.bind_some,
    Checked.mul_eq (by rw [← hRow, hChunkBytes]; exact hChunkLt),
    Option.bind_some, ← hRow, Checked.mul_eq (by rw [← hProduct]; exact hFits),
    Option.map_some, ← hProduct, ← hChunkCount]

theorem exact_blockPtr (hz : Layout cfg z) {req blk : Nat}
    (hReq : req < cfg.requests) (hBlk : blk < cfg.req_per_blocks) :
    Exact.blockPtr cfg z.chunks_per_block req blk =
      some (blockPtr cfg z.chunks_per_block req blk) := by
  have hFits := hz.fits
  have hSlot : req % cfg.chunk_slots < cfg.chunk_slots :=
    Nat.mod_lt _ hz.chunk_slots.1
  have hId := chunk_lt hBlk (hz.groups req hReq)
  have hChunk := hz.chunk_le hId
  have hInner := hz.slot_le hSlot
  have hChunkPos : 1 ≤ z.chunk_bytes := by
    rw [hz.chunk_bytes]
    exact Nat.mul_pos hz.chunk_slots.1 hz.block_bytes.1
  rw [hz.blockPtr_eq hReq hBlk]
  rw [Nat.succ_mul] at hChunk hInner
  generalize hc : blk * z.chunks_per_block + req / cfg.chunk_slots = chunk
    at hChunk hId
  have hFirst : blk * z.chunks_per_block ≤ chunk := hc ▸ Nat.le_add_right _ _
  have hChunkLe : chunk ≤ chunk * z.chunk_bytes :=
    Nat.le_mul_of_pos_right _ hChunkPos
  have hAssoc : chunk * cfg.chunk_slots * cfg.block_bytes =
      chunk * z.chunk_bytes := by
    rw [hz.chunk_bytes, Nat.mul_assoc]
  have hSlotsLe : chunk * cfg.chunk_slots ≤ chunk * z.chunk_bytes := by
    rw [← hAssoc]
    exact Nat.le_mul_of_pos_right _ hz.block_bytes.1
  rw [Exact.blockPtr, Checked.mul_eq (by omega), Option.bind_some,
    Checked.add_eq (by omega), Option.bind_some, hc,
    Checked.mul_eq (by omega), Option.bind_some,
    Checked.mul_eq (by rw [hAssoc]; omega), Option.bind_some,
    Checked.mul_eq (by omega), Option.bind_some, hAssoc,
    Checked.add_eq (by omega)]

variable {blk group : Nat}

theorem exact_fillSlot (hz : Layout cfg z) (hBlk : blk < cfg.req_per_blocks)
    (hGroup : group < z.chunks_per_block) {slot : Nat}
    (hSlot : slot < cfg.chunk_slots) (m : Memory) :
    Exact.fillSlot cfg ((blk * z.chunks_per_block + group) * z.chunk_bytes)
      group blk m slot =
    some (fillSlot cfg ((blk * z.chunks_per_block + group) * z.chunk_bytes)
      group blk m slot) := by
  have hFits := hz.fits
  have hBlocks := hz.req_per_blocks
  have hRequests := hz.requests
  have hChunk := hz.chunk_le (chunk_lt hBlk hGroup)
  have hInner := hz.slot_le hSlot
  have hRoom := hz.slot_request hGroup hSlot
  rw [Nat.succ_mul] at hChunk hInner
  rw [Exact.fillSlot, fillSlot, Checked.mul_eq (by omega), Option.bind_some,
    Checked.add_eq hRoom, Option.bind_some,
    Nat.mod_eq_of_lt (show group * cfg.chunk_slots < 2 ^ 64 by omega),
    Nat.mod_eq_of_lt hRoom]
  split
  · rfl
  · rw [Checked.mul_eq (by omega), Option.bind_some, Checked.add_eq (by omega),
      Option.bind_some, Checked.mul_eq (by omega), Option.bind_some,
      Checked.mul_eq (by omega), Option.map_some, Nat.mod_eq_of_lt (by omega)]

theorem exact_fillChunk (hz : Layout cfg z) (hBlk : blk < cfg.req_per_blocks)
    (hGroup : group < z.chunks_per_block) (m : Memory) :
    Exact.fillChunk cfg z.chunk_bytes blk (m, blk * z.chunks_per_block + group)
      group =
    some (fillChunk cfg z.chunk_bytes blk
      (m, blk * z.chunks_per_block + group) group) ∧
    (fillChunk cfg z.chunk_bytes blk (m, blk * z.chunks_per_block + group)
      group).2 = blk * z.chunks_per_block + (group + 1) := by
  have hFits := hz.fits
  have hId := chunk_lt hBlk hGroup
  have hChunk := hz.chunk_le hId
  have hNext : blk * z.chunks_per_block + group + 1 < 2 ^ 64 := by
    have hPos : 1 ≤ z.chunk_bytes := by
      rw [hz.chunk_bytes]
      exact Nat.mul_pos hz.chunk_slots.1 hz.block_bytes.1
    have hLe := Nat.le_mul_of_pos_right
      (blk * z.chunks_per_block + group + 1) hPos
    omega
  have hStart := hz.chunk_start hId
  have hSlotsLt := hz.chunk_slots.2
  obtain ⟨hLoop, -⟩ := @Checked.loop_eq Memory 64 cfg.chunk_slots
    (Exact.fillSlot cfg ((blk * z.chunks_per_block + group) * z.chunk_bytes)
      group blk)
    (fillSlot cfg ((blk * z.chunks_per_block + group) * z.chunk_bytes) group blk)
    (fun _ _ => True)
    (m.fill ((blk * z.chunks_per_block + group) * z.chunk_bytes) 0 z.chunk_bytes)
    trivial (by omega)
    fun slot m' hSlot _ => ⟨exact_fillSlot hz hBlk hGroup hSlot m', trivial⟩
  refine ⟨?_, ?_⟩
  · rw [Nat.succ_mul] at hChunk
    rw [Exact.fillChunk, fillChunk, hStart]
    dsimp only
    rw [Checked.mul_eq (by omega), Option.bind_some, hLoop, Option.bind_some, Checked.add_eq hNext,
      Option.map_some, Nat.mod_eq_of_lt hNext]
  · show (blk * z.chunks_per_block + group + 1) % 2 ^ 64 = _
    rw [Nat.mod_eq_of_lt hNext, Nat.add_assoc]

/-- The two nested loops: before each round the counter is the number of
chunks done. -/
theorem exact_populate (hz : Layout cfg z) (store : Memory) :
    Exact.populateChunkStripe cfg store z.chunks_per_block z.chunk_bytes =
      some (populateChunkStripe cfg store z.chunks_per_block z.chunk_bytes) := by
  have hBlocks := hz.req_per_blocks.2
  have hGroups := hz.chunks
  have hInner : ∀ blk (s : Memory × Nat), blk < cfg.req_per_blocks →
      s.2 = blk * z.chunks_per_block →
      Checked.loop 64 z.chunks_per_block (Exact.fillChunk cfg z.chunk_bytes blk)
        s = some ((List.range z.chunks_per_block).foldl
          (fillChunk cfg z.chunk_bytes blk) s) ∧
      ((List.range z.chunks_per_block).foldl
        (fillChunk cfg z.chunk_bytes blk) s).2 =
          blk * z.chunks_per_block + z.chunks_per_block := by
    intro blk s hBlk hs
    refine Checked.loop_eq
      (fun group (s : Memory × Nat) =>
        s.2 = blk * z.chunks_per_block + group) hs (by omega) ?_
    rintro group ⟨m, counter⟩ hGroup rfl
    exact exact_fillChunk hz hBlk hGroup m
  obtain ⟨hLoop, -⟩ := Checked.loop_eq
    (fun blk (s : Memory × Nat) => s.2 = blk * z.chunks_per_block)
    (a := (store, 0)) (by simp) (show cfg.req_per_blocks < 2 ^ 64 by omega)
    fun blk s hBlk hs => by
      rw [Nat.succ_mul]
      exact hInner blk s hBlk hs
  rw [Exact.populateChunkStripe, hLoop]
  rfl

end NoWrap

/-! ## Where the blocks lie -/

section Blocks

variable {cfg : Cfg} {z : Sizes} {req blk req' blk' : Nat}

/-- A block lies inside its slot, and the slot inside its chunk. -/
theorem Layout.blockPtr_bounds (hz : Layout cfg z) (hReq : req < cfg.requests)
    (hBlk : blk < cfg.req_per_blocks) :
    let id := blk * z.chunks_per_block + req / cfg.chunk_slots
    id * z.chunk_bytes ≤ blockPtr cfg z.chunks_per_block req blk ∧
      blockPtr cfg z.chunks_per_block req blk + cfg.block_bytes ≤
        (id + 1) * z.chunk_bytes := by
  have hInner := hz.slot_le (Nat.mod_lt req hz.chunk_slots.1)
  dsimp only
  rw [Nat.succ_mul] at hInner ⊢
  rw [hz.blockPtr_eq hReq hBlk]
  omega

theorem Layout.blockPtr_le (hz : Layout cfg z) (hReq : req < cfg.requests)
    (hBlk : blk < cfg.req_per_blocks) :
    blockPtr cfg z.chunks_per_block req blk + cfg.block_bytes ≤
      z.store_bytes :=
  Nat.le_trans (hz.blockPtr_bounds hReq hBlk).2
    (hz.chunk_le (chunk_lt hBlk (hz.groups req hReq)))

/-- Blocks of an earlier chunk come before blocks of a later one. -/
theorem Layout.blockPtr_before (hz : Layout cfg z) (hReq : req < cfg.requests)
    (hBlk : blk < cfg.req_per_blocks) (hReq' : req' < cfg.requests)
    (hBlk' : blk' < cfg.req_per_blocks)
    (hLt : blk * z.chunks_per_block + req / cfg.chunk_slots <
      blk' * z.chunks_per_block + req' / cfg.chunk_slots) :
    blockPtr cfg z.chunks_per_block req blk + cfg.block_bytes ≤
      blockPtr cfg z.chunks_per_block req' blk' :=
  Nat.le_trans (hz.blockPtr_bounds hReq hBlk).2
    (Nat.le_trans (Nat.mul_le_mul_right _ hLt)
      (hz.blockPtr_bounds hReq' hBlk').1)

/-- Two blocks of one chunk are in different slots of it. -/
theorem Layout.blockPtr_apart (hz : Layout cfg z) (hReq : req < cfg.requests)
    (hBlk : blk < cfg.req_per_blocks) (hReq' : req' < cfg.requests)
    (hBlk' : blk' < cfg.req_per_blocks) (hNe : (req, blk) ≠ (req', blk')) :
    blockPtr cfg z.chunks_per_block req blk + cfg.block_bytes ≤
        blockPtr cfg z.chunks_per_block req' blk' ∨
      blockPtr cfg z.chunks_per_block req' blk' + cfg.block_bytes ≤
        blockPtr cfg z.chunks_per_block req blk := by
  rcases Nat.lt_trichotomy (blk * z.chunks_per_block + req / cfg.chunk_slots)
    (blk' * z.chunks_per_block + req' / cfg.chunk_slots) with hLt | hEq | hGt
  · exact Or.inl (hz.blockPtr_before hReq hBlk hReq' hBlk' hLt)
  · obtain ⟨hDiv, hMod⟩ := chunk_div_mod blk (hz.groups req hReq)
    obtain ⟨hDiv', hMod'⟩ := chunk_div_mod blk' (hz.groups req' hReq')
    rw [hEq] at hDiv hMod
    have hBlkEq : blk = blk' := hDiv.symm.trans hDiv'
    have hGroup : req / cfg.chunk_slots = req' / cfg.chunk_slots :=
      hMod.symm.trans hMod'
    have hSlot : req % cfg.chunk_slots ≠ req' % cfg.chunk_slots := by
      intro hSame
      apply hNe
      rw [← Nat.div_add_mod req cfg.chunk_slots,
        ← Nat.div_add_mod req' cfg.chunk_slots, hGroup, hSame, hBlkEq]
    rw [hz.blockPtr_eq hReq hBlk, hz.blockPtr_eq hReq' hBlk', hEq]
    rcases Nat.lt_or_gt_of_ne hSlot with hLt | hGt
    · have hLe := Nat.mul_le_mul_right cfg.block_bytes
        (Nat.succ_le_of_lt hLt)
      rw [Nat.succ_mul] at hLe
      omega
    · have hLe := Nat.mul_le_mul_right cfg.block_bytes
        (Nat.succ_le_of_lt hGt)
      rw [Nat.succ_mul] at hLe
      omega
  · exact Or.inr (hz.blockPtr_before hReq' hBlk' hReq hBlk hGt)

end Blocks

/-! ## What the store holds -/

/-- A block holds what `fill_block` writes, whatever was there before. -/
theorem HoldsBlock.eq_fillBlock {m : Memory} {src block_bytes req blk : Nat}
    (h : HoldsBlock m src block_bytes req blk) (before : Memory) {i : Nat}
    (hi : i < block_bytes) :
    m (src + i) = fillBlock before src block_bytes req blk (src + i) :=
  (h i hi).trans (stampBlock_stamped before src block_bytes (fillFor req blk)
    (BlockTag.of req blk).fields i hi).symm

/-- The padding of the first `id` chunks is zero. -/
def PaddedTo (cfg : Cfg) (z : Sizes) (id : Nat) (m : Memory) : Prop :=
  ∀ c a, c < id → c * z.chunk_bytes ≤ a → a < (c + 1) * z.chunk_bytes →
    (∀ slot, slot < cfg.chunk_slots →
      c % z.chunks_per_block * cfg.chunk_slots + slot < cfg.requests →
      a < c * z.chunk_bytes + slot * cfg.block_bytes ∨
        c * z.chunk_bytes + slot * cfg.block_bytes + cfg.block_bytes ≤ a) →
    m a = 0

section Padding

variable {cfg : Cfg} {z : Sizes} {store : Memory} {id : Nat}

theorem PaddedTo.fillChunk {m : Memory} (h : PaddedTo cfg z id m)
    (hz : Layout cfg z) (hId : id < cfg.req_per_blocks * z.chunks_per_block) :
    PaddedTo cfg z (id + 1)
      (fillChunk cfg z.chunk_bytes (id / z.chunks_per_block) (m, id)
        (id % z.chunks_per_block)).1 := by
  intro c a hc hLow hHigh hPad
  by_cases hLast : c = id
  · subst hLast
    rw [Store.fillChunk, hz.chunk_start hId]
    dsimp only
    rw [fillSlots_eq hz _ hId, stampRow_unstamped _ _ (@slotImage_tag cfg z c hz)]
    · obtain ⟨i, rfl⟩ := Nat.exists_eq_add_of_le hLow
      rw [Nat.succ_mul] at hHigh
      exact Memory.fill_inside _ _ _ (by omega)
    · intro slot hSlot hSome
      apply hPad slot hSlot
      by_contra hPast
      simp [slotImage, not_lt.mp hPast] at hSome
  · have hBefore := Nat.mul_le_mul_right z.chunk_bytes
      (show c + 1 ≤ id by omega)
    rw [fillChunk_outside hz m hId (by omega)]
    exact h c a (by omega) hLow hHigh hPad

theorem populate_paddedTo (hz : Layout cfg z) (store : Memory) :
    PaddedTo cfg z (cfg.req_per_blocks * z.chunks_per_block)
      (populateChunkStripe cfg store z.chunks_per_block z.chunk_bytes) := by
  have hStart : FilledTo cfg z store 0 (store, 0) ∧ PaddedTo cfg z 0 store :=
    ⟨{ counter := rfl
       chunks := fun c hc => absurd hc (Nat.not_lt_zero c)
       beyond := fun _ _ => rfl },
      fun c _ hc => absurd hc (Nat.not_lt_zero c)⟩
  obtain ⟨s, ⟨-, hPadded⟩, hPopulate⟩ := populate_invariant
    (fun id s => FilledTo cfg z store id s ∧ PaddedTo cfg z id s.1) hStart
    (by
      rintro id ⟨m, counter⟩ hId ⟨hFilled, hPadded⟩
      obtain rfl : counter = id := hFilled.counter
      exact ⟨hFilled.fillChunk hz hId, hPadded.fillChunk hz hId⟩)
  rw [hPopulate]
  exact hPadded

/-- A byte of the store in nobody's block is zero. -/
theorem populate_padding (hz : Layout cfg z) (store : Memory) {a : Nat}
    (ha : a < z.store_bytes)
    (hNone : ∀ req blk, req < cfg.requests → blk < cfg.req_per_blocks →
      a < blockPtr cfg z.chunks_per_block req blk ∨
        blockPtr cfg z.chunks_per_block req blk + cfg.block_bytes ≤ a) :
    populateChunkStripe cfg store z.chunks_per_block z.chunk_bytes a = 0 := by
  have hPos : 0 < z.chunk_bytes := by
    rw [hz.chunk_bytes]
    exact Nat.mul_pos hz.chunk_slots.1 hz.block_bytes.1
  have hId : a / z.chunk_bytes < cfg.req_per_blocks * z.chunks_per_block := by
    rw [hz.store_bytes] at ha
    exact (Nat.div_lt_iff_lt_mul hPos).mpr ha
  have hPerBlock : 0 < z.chunks_per_block :=
    Nat.pos_of_ne_zero fun hZero => by simp [hZero] at hId
  have hHigh := Nat.lt_mul_div_succ a hPos
  rw [Nat.mul_comm] at hHigh
  refine populate_paddedTo hz store _ a hId (Nat.div_mul_le_self _ _) hHigh ?_
  intro slot hSlot hReq
  -- The slot is the block of the request it would be filled for.
  have hBlk : a / z.chunk_bytes / z.chunks_per_block < cfg.req_per_blocks :=
    (Nat.div_lt_iff_lt_mul hPerBlock).mpr hId
  have hAway := hNone _ _ hReq hBlk
  obtain ⟨hDiv, hMod⟩ := chunk_div_mod
    (a / z.chunk_bytes % z.chunks_per_block) hSlot
  rw [hz.blockPtr_eq hReq hBlk, hDiv, hMod, Nat.mul_comm _ z.chunks_per_block,
    Nat.div_add_mod] at hAway
  exact hAway

end Padding

/-! ## The layout -/

/-- The chunk-stripe layout of a configuration with its sizes. -/
structure StripeLayout (cfg : Cfg) (z : Sizes) : Prop where
  /-- Requests are grouped by `chunk_slots`, the last group possibly short. -/
  ceiling : z.chunks_per_block =
    (cfg.requests + cfg.chunk_slots - 1) / cfg.chunk_slots
  /-- No 64-bit operation wraps. -/
  sizes : Exact.sizes cfg = some z
  populate : ∀ store,
    Exact.populateChunkStripe cfg store z.chunks_per_block z.chunk_bytes =
      some (populateChunkStripe cfg store z.chunks_per_block z.chunk_bytes)
  blockPtr : ∀ req blk, req < cfg.requests → blk < cfg.req_per_blocks →
    Exact.blockPtr cfg z.chunks_per_block req blk =
      some (blockPtr cfg z.chunks_per_block req blk)
  /-- The blocks lie in the store, apart from one another. -/
  inside : ∀ req blk, req < cfg.requests → blk < cfg.req_per_blocks →
    Store.blockPtr cfg z.chunks_per_block req blk + cfg.block_bytes ≤
      z.store_bytes
  apart : ∀ req blk req' blk', req < cfg.requests → blk < cfg.req_per_blocks →
    req' < cfg.requests → blk' < cfg.req_per_blocks →
    (req, blk) ≠ (req', blk') →
    Store.blockPtr cfg z.chunks_per_block req blk + cfg.block_bytes ≤
        Store.blockPtr cfg z.chunks_per_block req' blk' ∨
      Store.blockPtr cfg z.chunks_per_block req' blk' + cfg.block_bytes ≤
        Store.blockPtr cfg z.chunks_per_block req blk
  /-- Each holds what `fill_block` writes, and the rest of the store is zero. -/
  holds : ∀ store before req blk i, req < cfg.requests →
    blk < cfg.req_per_blocks → i < cfg.block_bytes →
    let ptr := Store.blockPtr cfg z.chunks_per_block req blk
    populateChunkStripe cfg store z.chunks_per_block z.chunk_bytes (ptr + i) =
      fillBlock before ptr cfg.block_bytes req blk (ptr + i)
  padding : ∀ store a, a < z.store_bytes →
    (∀ req blk, req < cfg.requests → blk < cfg.req_per_blocks →
      a < Store.blockPtr cfg z.chunks_per_block req blk ∨
        Store.blockPtr cfg z.chunks_per_block req blk + cfg.block_bytes ≤ a) →
    populateChunkStripe cfg store z.chunks_per_block z.chunk_bytes a = 0

/-- What `main` accepts has this layout. -/
theorem chunkStripe_layout (opts : List Opt) {cfg : Cfg} {z : Sizes}
    (hArgs : parseArgs opts = .ok cfg) (hSizes : sizes cfg = some z) :
    StripeLayout cfg z := by
  have hCfg := parseArgs_wellFormed hArgs
  have hz := sizes_layout hCfg hSizes
  obtain ⟨hExact, hCeiling⟩ := exact_sizes hCfg hSizes
  exact
    { ceiling := hCeiling
      sizes := hExact
      populate := exact_populate hz
      blockPtr := fun _ _ hReq hBlk => exact_blockPtr hz hReq hBlk
      inside := fun _ _ hReq hBlk => hz.blockPtr_le hReq hBlk
      apart := fun _ _ _ _ hReq hBlk hReq' hBlk' hNe =>
        hz.blockPtr_apart hReq hBlk hReq' hBlk' hNe
      holds := fun store before _ _ _ hReq hBlk hi =>
        (populate_holdsBlock hz store hReq hBlk).eq_fillBlock before hi
      padding := fun store _ ha hNone => populate_padding hz store ha hNone }

/-- Three requests in chunks of two: the second chunk of each block has a slot
of padding. -/
theorem chunkStripe_layout_three :
    StripeLayout
      { defaultCfg with
        requests := 3, req_per_blocks := 2, chunk_slots := 2, block_bytes := 40
        sweep_max := 3 }
      { chunks_per_block := 2, chunk_count := 4, chunk_bytes := 80
        store_bytes := 320 } :=
  chunkStripe_layout
    [.requests ['3'], .reqPerBlocks ['2'], .chunkSlots ['2'],
      .blockBytes ['4', '0']] rfl rfl

end MioBench.Store
