import MioBench.Lib.ForLoop
import MioBench.Store.Args
import MioBench.Store.Block

/-!
# The chunk-stripe store

`populate_chunk_stripe` walks the store with a running chunk counter, while
the readers find a block through the closed form of `block_ptr`.  Both are
modelled in 64-bit arithmetic, and under the overflow checks of `main` they
agree: every block a reader asks for is the one that was stamped for it.
A pointer into the store is its offset from the start of the store.
-/

namespace MioBench.Store

open MioBench.Lib

/-! ## Tags -/

/-- `BLOCK_MAGIC`, the bytes of "MEM_CHK1". -/
def blockMagic : Nat := 0x4d454d5f43484b31

/-- `struct block_tag`. -/
structure BlockTag where
  magic : Nat
  request_id : Nat
  block_id : Nat
  fill_byte : Nat
  deriving DecidableEq, Repr

namespace BlockTag

def fields (tag : BlockTag) : List Nat :=
  [tag.magic, tag.request_id, tag.block_id, tag.fill_byte]

/-- The tag of block `blk` of request `req`. -/
def of (req blk : Nat) : BlockTag where
  magic := blockMagic
  request_id := req
  block_id := blk
  fill_byte := (fillFor req blk).toNat

/-- `memcpy(&tag, src, sizeof(tag))`. -/
def load (m : Memory) (src : Nat) : BlockTag where
  magic := m.word src 0
  request_id := m.word src 1
  block_id := m.word src 2
  fill_byte := m.word src 3

end BlockTag

/-- `fill_block`. -/
def fillBlock (m : Memory) (dst block_bytes req blk : Nat) : Memory :=
  stampBlock m dst block_bytes (fillFor req blk) (BlockTag.of req blk).fields

/-- `verify_block`. -/
def verifyBlock (block_bytes req blk : Nat) (m : Memory) (src : Nat) : Bool :=
  let tag := BlockTag.load m src
  let fill := fillFor req blk
  tag.magic == blockMagic && tag.request_id == req && tag.block_id == blk &&
    tag.fill_byte == fill.toNat && m (src + block_bytes - 1) == fill

/-- The block at `src` is block `blk` of request `req`. -/
def HoldsBlock (m : Memory) (src block_bytes req blk : Nat) : Prop :=
  Stamped m src block_bytes (fillFor req blk) (BlockTag.of req blk).fields

theorem verifyBlock_of_holds {m : Memory} {src block_bytes req blk : Nat}
    (h : HoldsBlock m src block_bytes req blk)
    (hTag : tagBytes < block_bytes) (hReq : req < 2 ^ 64)
    (hBlk : blk < 2 ^ 64) : verifyBlock block_bytes req blk m src = true := by
  have hLen : 8 * (BlockTag.of req blk).fields.length < block_bytes := hTag
  have hFill := (fillFor req blk).toNat_lt
  have hMagic := h.word (k := 0) (by omega) (by simp [BlockTag.fields])
    (by show blockMagic < 2 ^ 64; decide)
  have hRequest := h.word (k := 1) (by omega) (by simp [BlockTag.fields])
    (by show req < 2 ^ 64; exact hReq)
  have hBlock := h.word (k := 2) (by omega) (by simp [BlockTag.fields])
    (by show blk < 2 ^ 64; exact hBlk)
  have hByte := h.word (k := 3) (by omega) (by simp [BlockTag.fields])
    (by show (fillFor req blk).toNat < 2 ^ 64; omega)
  have hLast := h.last hLen
  simp [verifyBlock, BlockTag.load, hMagic, hRequest, hBlock, hByte, hLast,
    BlockTag.fields, BlockTag.of]

/-! ## Sizes -/

/-- The sizes at the head of `main`. -/
structure Sizes where
  chunks_per_block : Nat
  chunk_count : Nat
  chunk_bytes : Nat
  store_bytes : Nat
  deriving DecidableEq, Repr

/-- `((uint64_t)requests + chunk_slots - 1) / chunk_slots`. -/
def chunksPerBlock (cfg : Cfg) : Nat :=
  (cfg.requests + cfg.chunk_slots - 1) % 2 ^ 64 / cfg.chunk_slots

/-- `none` is "configured memory size overflows". -/
def sizes (cfg : Cfg) : Option Sizes :=
  let chunk_count := cfg.req_per_blocks * chunksPerBlock cfg % 2 ^ 64
  (checkedMulU64 cfg.chunk_slots cfg.block_bytes).bind fun chunk_bytes =>
    (checkedMulU64 chunk_count chunk_bytes).bind fun store_bytes =>
      if 2 ^ 64 - 1 < store_bytes then none
      else some
        { chunks_per_block := chunksPerBlock cfg
          chunk_count := chunk_count
          chunk_bytes := chunk_bytes
          store_bytes := store_bytes }

/-- A configuration and its sizes, as `main` goes on with them: no product has
wrapped, and every request has its slot. -/
structure Layout (cfg : Cfg) (z : Sizes) : Prop extends Cfg.WellFormed cfg where
  chunk_bytes : z.chunk_bytes = cfg.chunk_slots * cfg.block_bytes
  store_bytes : z.store_bytes =
    cfg.req_per_blocks * z.chunks_per_block * z.chunk_bytes
  fits : z.store_bytes < 2 ^ 64
  groups : ∀ req, req < cfg.requests →
    req / cfg.chunk_slots < z.chunks_per_block
  chunks : z.chunks_per_block < 2 ^ 32

theorem chunksPerBlock_lt {cfg : Cfg} (hCfg : cfg.WellFormed) :
    chunksPerBlock cfg < 2 ^ 32 := by
  have hReq := hCfg.requests
  have hSlots := hCfg.chunk_slots
  rw [chunksPerBlock, Nat.mod_eq_of_lt (by omega)]
  apply (Nat.div_lt_iff_lt_mul hSlots.1).mpr
  have hMul := Nat.mul_le_mul_right cfg.chunk_slots
    (show cfg.requests + 1 ≤ 2 ^ 32 by omega)
  have hReq' := Nat.mul_le_mul_left cfg.requests hSlots.1
  rw [Nat.succ_mul] at hMul
  omega

/-- Every request is in one of the groups. -/
theorem div_lt_chunksPerBlock {cfg : Cfg} (hCfg : cfg.WellFormed) {req : Nat}
    (hr : req < cfg.requests) :
    req / cfg.chunk_slots < chunksPerBlock cfg := by
  have hReq := hCfg.requests
  have hSlots := hCfg.chunk_slots
  rw [chunksPerBlock, Nat.mod_eq_of_lt (by omega)]
  apply (Nat.div_lt_iff_lt_mul hSlots.1).mpr
  have hCeil := Nat.div_add_mod (cfg.requests + cfg.chunk_slots - 1)
    cfg.chunk_slots
  have hRest := Nat.mod_lt (cfg.requests + cfg.chunk_slots - 1) hSlots.1
  rw [Nat.mul_comm]
  omega

theorem sizes_layout {cfg : Cfg} {z : Sizes} (hCfg : cfg.WellFormed)
    (h : sizes cfg = some z) : Layout cfg z := by
  have hChunks := chunksPerBlock_lt hCfg
  have hCount : cfg.req_per_blocks * chunksPerBlock cfg < 2 ^ 64 := by
    have hMul := Nat.mul_lt_mul'' hCfg.req_per_blocks.2 hChunks
    omega
  rcases Option.bind_eq_some_iff.mp h with ⟨chunk_bytes, hChunk, h⟩
  rcases Option.bind_eq_some_iff.mp h with ⟨store_bytes, hStore, h⟩
  have hChunk := checkedMulU64_eq hChunk
  have hStore := checkedMulU64_eq hStore
  rw [Nat.mod_eq_of_lt hCount] at hStore
  rw [if_neg (by omega)] at h
  obtain rfl := Option.some.inj h
  exact
    { hCfg with
      chunk_bytes := hChunk.1
      store_bytes := hStore.1
      fits := hStore.2
      groups := fun req hr => div_lt_chunksPerBlock hCfg hr
      chunks := hChunks }

/-! ## Addresses -/

/-- `block_ptr`. -/
def blockPtr (cfg : Cfg) (chunks_per_block req blk : Nat) : Nat :=
  let chunk := (blk * chunks_per_block % 2 ^ 64 + req / cfg.chunk_slots) % 2 ^ 64
  let slot := req % cfg.chunk_slots
  (chunk * cfg.chunk_slots % 2 ^ 64 * cfg.block_bytes % 2 ^ 64 +
    slot * cfg.block_bytes % 2 ^ 64) % 2 ^ 64

section Layout

variable {cfg : Cfg} {z : Sizes}

/-- A chunk of the store, and a slot of a chunk, end inside what they are
part of. -/
theorem Layout.chunk_le (h : Layout cfg z) {id : Nat}
    (hId : id < cfg.req_per_blocks * z.chunks_per_block) :
    (id + 1) * z.chunk_bytes ≤ z.store_bytes := by
  rw [h.store_bytes]
  exact Nat.mul_le_mul_right _ hId

theorem Layout.slot_le (h : Layout cfg z) {slot : Nat}
    (hSlot : slot < cfg.chunk_slots) :
    (slot + 1) * cfg.block_bytes ≤ z.chunk_bytes := by
  rw [h.chunk_bytes]
  exact Nat.mul_le_mul_right _ hSlot

/-- Groups of blocks are numbered through. -/
theorem chunk_lt {blocks groups blk group : Nat} (hBlk : blk < blocks)
    (hGroup : group < groups) : blk * groups + group < blocks * groups := by
  have hLe := Nat.mul_le_mul_right groups (show blk + 1 ≤ blocks from hBlk)
  rw [Nat.succ_mul] at hLe
  omega

/-- The number of a group says which block it is of and which group of it. -/
theorem chunk_div_mod {groups group : Nat} (blk : Nat) (hGroup : group < groups) :
    (blk * groups + group) / groups = blk ∧
      (blk * groups + group) % groups = group := by
  have hPos : 0 < groups := Nat.lt_of_le_of_lt (Nat.zero_le _) hGroup
  rw [Nat.mul_comm blk, Nat.mul_add_div hPos, Nat.mul_add_mod,
    Nat.div_eq_of_lt hGroup, Nat.mod_eq_of_lt hGroup]
  exact ⟨rfl, rfl⟩

/-- The request a slot is for is far from the end of the 64-bit range. -/
theorem Layout.slot_request (h : Layout cfg z) {group slot : Nat}
    (hGroup : group < z.chunks_per_block) (hSlot : slot < cfg.chunk_slots) :
    group * cfg.chunk_slots + slot < 2 ^ 64 := by
  have hSlots := h.chunk_slots
  have hGroups := h.chunks
  have hMul := Nat.mul_le_mul_right cfg.chunk_slots
    (show group + 1 ≤ 2 ^ 32 by omega)
  rw [Nat.succ_mul] at hMul
  omega

/-- The closed form a reader uses, with no wrap left in it. -/
theorem Layout.blockPtr_eq (h : Layout cfg z) {req blk : Nat}
    (hReq : req < cfg.requests) (hBlk : blk < cfg.req_per_blocks) :
    blockPtr cfg z.chunks_per_block req blk =
      (blk * z.chunks_per_block + req / cfg.chunk_slots) * z.chunk_bytes +
        req % cfg.chunk_slots * cfg.block_bytes := by
  have hSlots := h.chunk_slots
  have hBytes := h.block_bytes
  have hFits := h.fits
  have hSlot : req % cfg.chunk_slots < cfg.chunk_slots :=
    Nat.mod_lt _ hSlots.1
  have hId := chunk_lt hBlk (h.groups req hReq)
  have hChunk := h.chunk_le hId
  have hInner := h.slot_le hSlot
  have hChunkPos : 1 ≤ z.chunk_bytes := by
    rw [h.chunk_bytes]
    exact Nat.mul_pos hSlots.1 hBytes.1
  rw [Nat.succ_mul] at hChunk hInner
  generalize hc : blk * z.chunks_per_block + req / cfg.chunk_slots = chunk
    at hChunk hId
  have hBlkLe : blk * z.chunks_per_block ≤ chunk :=
    hc ▸ Nat.le_add_right _ _
  have hChunkLe : chunk ≤ chunk * z.chunk_bytes :=
    Nat.le_mul_of_pos_right _ hChunkPos
  have hAssoc : chunk * z.chunk_bytes =
      chunk * cfg.chunk_slots * cfg.block_bytes := by
    rw [h.chunk_bytes, Nat.mul_assoc]
  have hSlotsLe : chunk * cfg.chunk_slots ≤ chunk * z.chunk_bytes := by
    rw [hAssoc]
    exact Nat.le_mul_of_pos_right _ hBytes.1
  rw [blockPtr, Nat.mod_eq_of_lt (show blk * z.chunks_per_block < 2 ^ 64 by
      omega), hc, Nat.mod_eq_of_lt (show chunk < 2 ^ 64 by omega),
    Nat.mod_eq_of_lt (show chunk * cfg.chunk_slots < 2 ^ 64 by omega),
    ← hAssoc, Nat.mod_eq_of_lt (show chunk * z.chunk_bytes < 2 ^ 64 by omega),
    Nat.mod_eq_of_lt (show req % cfg.chunk_slots * cfg.block_bytes < 2 ^ 64 by
      omega), Nat.mod_eq_of_lt (by omega)]

end Layout

/-! ## Populating the store -/

/-- One slot of a chunk; slots beyond the last request stay zero. -/
def fillSlot (cfg : Cfg) (chunk group blk : Nat) (m : Memory) (slot : Nat) :
    Memory :=
  let req := (group * cfg.chunk_slots % 2 ^ 64 + slot) % 2 ^ 64
  if cfg.requests ≤ req then m
  else fillBlock m (chunk + slot * cfg.block_bytes % 2 ^ 64) cfg.block_bytes
    req blk

/-- One chunk, at the running `chunk_id` of the state. -/
def fillChunk (cfg : Cfg) (chunk_bytes blk : Nat) (s : Memory × Nat)
    (group : Nat) : Memory × Nat :=
  let chunk := s.2 * chunk_bytes % 2 ^ 64
  let m := s.1.fill chunk 0 chunk_bytes
  ((List.range cfg.chunk_slots).foldl (fillSlot cfg chunk group blk) m,
    (s.2 + 1) % 2 ^ 64)

/-- `populate_chunk_stripe`. -/
def populateChunkStripe (cfg : Cfg) (store : Memory)
    (chunks_per_block chunk_bytes : Nat) : Memory :=
  ((List.range cfg.req_per_blocks).foldl (fun s blk =>
    (List.range chunks_per_block).foldl (fillChunk cfg chunk_bytes blk) s)
    (store, 0)).1

/-- Every slot of chunk `id` that belongs to a request holds its block. -/
def ChunkFilled (cfg : Cfg) (z : Sizes) (m : Memory) (id slots : Nat) : Prop :=
  ∀ slot, slot < slots →
    id % z.chunks_per_block * cfg.chunk_slots + slot < cfg.requests →
    HoldsBlock m (id * z.chunk_bytes + slot * cfg.block_bytes) cfg.block_bytes
      (id % z.chunks_per_block * cfg.chunk_slots + slot)
      (id / z.chunks_per_block)

/-- The chunks below `id` are filled, and beyond them nothing has changed. -/
structure FilledTo (cfg : Cfg) (z : Sizes) (store : Memory) (id : Nat)
    (s : Memory × Nat) : Prop where
  counter : s.2 = id
  chunks : ∀ c, c < id → ChunkFilled cfg z s.1 c cfg.chunk_slots
  beyond : ∀ a, id * z.chunk_bytes ≤ a → s.1 a = store a

section Populate

variable {cfg : Cfg} {z : Sizes} {store m m' : Memory} {id slots : Nat}

/-- A chunk stays filled under stores outside it. -/
theorem ChunkFilled.congr (h : ChunkFilled cfg z m id slots)
    (hz : Layout cfg z) (hSlots : slots ≤ cfg.chunk_slots)
    (hSame : ∀ a, id * z.chunk_bytes ≤ a → a < (id + 1) * z.chunk_bytes →
      m' a = m a) : ChunkFilled cfg z m' id slots := by
  intro slot hSlot hReq
  apply (h slot hSlot hReq).congr
  intro i hi
  have hInner := hz.slot_le (show slot < cfg.chunk_slots by omega)
  rw [Nat.succ_mul] at hInner
  apply hSame
  · omega
  · rw [Nat.succ_mul]
    omega

/-- What slot `slot` of chunk `id` is stamped with. -/
def slotImage (cfg : Cfg) (z : Sizes) (id slot : Nat) :
    Option (UInt8 × List Nat) :=
  let req := id % z.chunks_per_block * cfg.chunk_slots + slot
  if cfg.requests ≤ req then none
  else some (fillFor req (id / z.chunks_per_block),
    (BlockTag.of req (id / z.chunks_per_block)).fields)

/-- The slot loop of chunk `id` stamps one row: no product in it wraps. -/
theorem fillSlots_eq (hz : Layout cfg z) (m : Memory)
    (hId : id < cfg.req_per_blocks * z.chunks_per_block) :
    (List.range cfg.chunk_slots).foldl
      (fillSlot cfg (id * z.chunk_bytes) (id % z.chunks_per_block)
        (id / z.chunks_per_block)) m =
    stampRow m (id * z.chunk_bytes) cfg.block_bytes cfg.chunk_slots
      (slotImage cfg z id) := by
  have hSlots := hz.chunk_slots
  have hFits := hz.fits
  have hChunk := hz.chunk_le hId
  have hPos : 0 < z.chunks_per_block := by
    apply Nat.pos_of_ne_zero
    intro hZero
    simp [hZero] at hId
  apply List.foldl_ext
  intro m' slot hSlot
  have hk : slot < cfg.chunk_slots := List.mem_range.mp hSlot
  have hRoom := hz.slot_request (Nat.mod_lt id hPos) hk
  have hInner := hz.slot_le hk
  rw [Nat.succ_mul] at hInner hChunk
  have hReq : (id % z.chunks_per_block * cfg.chunk_slots % 2 ^ 64 + slot) %
      2 ^ 64 = id % z.chunks_per_block * cfg.chunk_slots + slot := by
    rw [Nat.mod_eq_of_lt (show id % z.chunks_per_block * cfg.chunk_slots <
      2 ^ 64 by omega), Nat.mod_eq_of_lt (by omega)]
  have hOff : slot * cfg.block_bytes % 2 ^ 64 = slot * cfg.block_bytes :=
    Nat.mod_eq_of_lt (by omega)
  rw [fillSlot, hReq, hOff]
  by_cases hPast : cfg.requests ≤
      id % z.chunks_per_block * cfg.chunk_slots + slot
  · simp [slotImage, hPast]
  · simp [slotImage, hPast, fillBlock]

/-- The tags of a chunk fit its blocks. -/
theorem slotImage_tag (hz : Layout cfg z) (slot : Nat) (fill : UInt8)
    (tag : List Nat) (h : slotImage cfg z id slot = some (fill, tag)) :
    8 * tag.length ≤ cfg.block_bytes := by
  simp only [slotImage] at h
  split at h
  · cases h
  · rw [← (Prod.mk.inj (Option.some.inj h)).2]
    exact Nat.le_of_succ_le hz.tag

/-- The slot loop of chunk `id`: it fills the chunk and touches nothing outside
it. -/
theorem fillSlots_filled (hz : Layout cfg z) (m : Memory)
    (hId : id < cfg.req_per_blocks * z.chunks_per_block) :
    let m' := (List.range cfg.chunk_slots).foldl
      (fillSlot cfg (id * z.chunk_bytes) (id % z.chunks_per_block)
        (id / z.chunks_per_block)) m
    ChunkFilled cfg z m' id cfg.chunk_slots ∧
      ∀ a, a < id * z.chunk_bytes ∨ (id + 1) * z.chunk_bytes ≤ a →
        m' a = m a := by
  have hRow := stampRow_spec m (id * z.chunk_bytes) cfg.chunk_slots
    (@slotImage_tag cfg z id hz)
  rw [fillSlots_eq hz m hId]
  refine ⟨?_, ?_⟩
  · intro slot hSlot hReq
    apply hRow.1 slot _ _ hSlot
    simp [slotImage, Nat.not_le.mpr hReq]
  · intro a ha
    rw [Nat.succ_mul, hz.chunk_bytes] at ha
    exact hRow.2 a (by rw [hz.chunk_bytes]; exact ha)

/-- The chunk at the running counter starts where it should: the product does
not wrap. -/
theorem Layout.chunk_start (hz : Layout cfg z)
    (hId : id < cfg.req_per_blocks * z.chunks_per_block) :
    id * z.chunk_bytes % 2 ^ 64 = id * z.chunk_bytes := by
  have hFits := hz.fits
  have hChunk := hz.chunk_le hId
  rw [Nat.succ_mul] at hChunk
  exact Nat.mod_eq_of_lt (by omega)

/-- One round of the group loop leaves alone everything outside its chunk. -/
theorem fillChunk_outside (hz : Layout cfg z) (m : Memory)
    (hId : id < cfg.req_per_blocks * z.chunks_per_block) {a : Nat}
    (ha : a < id * z.chunk_bytes ∨ (id + 1) * z.chunk_bytes ≤ a) :
    (fillChunk cfg z.chunk_bytes (id / z.chunks_per_block) (m, id)
      (id % z.chunks_per_block)).1 a = m a := by
  have hSlots := fillSlots_filled hz
    (m.fill (id * z.chunk_bytes) 0 z.chunk_bytes) hId
  rw [fillChunk, hz.chunk_start hId]
  refine (hSlots.2 a ha).trans ?_
  exact Memory.fill_outside _ _ _ (by rw [Nat.succ_mul] at ha; exact ha)

/-- One round of the group loop fills the chunk at the running counter. -/
theorem FilledTo.fillChunk {s : Memory × Nat} (h : FilledTo cfg z store id s)
    (hz : Layout cfg z) (hId : id < cfg.req_per_blocks * z.chunks_per_block) :
    FilledTo cfg z store (id + 1)
      (fillChunk cfg z.chunk_bytes (id / z.chunks_per_block) s
        (id % z.chunks_per_block)) := by
  obtain ⟨m, counter⟩ := s
  obtain rfl : counter = id := h.counter
  have hFits := hz.fits
  have hChunk := hz.chunk_le hId
  have hCount : counter + 1 ≤ (counter + 1) * z.chunk_bytes := by
    apply Nat.le_mul_of_pos_right
    rw [hz.chunk_bytes]
    exact Nat.mul_pos hz.chunk_slots.1 hz.block_bytes.1
  have hSlots := fillSlots_filled hz
    (m.fill (counter * z.chunk_bytes) 0 z.chunk_bytes) hId
  refine { counter := ?_, chunks := ?_, beyond := ?_ }
  · show (counter + 1) % 2 ^ 64 = counter + 1
    rw [Nat.mod_eq_of_lt (by omega)]
  · intro c hc
    by_cases hLast : c = counter
    · subst c
      rw [Store.fillChunk, hz.chunk_start hId]
      exact hSlots.1
    · apply (h.chunks c (by omega)).congr hz (Nat.le_refl _)
      intro a _ ha
      have hBefore := Nat.mul_le_mul_right z.chunk_bytes
        (show c + 1 ≤ counter by omega)
      exact fillChunk_outside hz m hId (by omega)
  · intro a ha
    rw [fillChunk_outside hz m hId (Or.inr ha)]
    exact h.beyond a (by rw [Nat.succ_mul] at ha; omega)

/-- The rule for the two nested loops of `populate_chunk_stripe`: they are one
loop over the chunks. -/
theorem populate_invariant (P : Nat → Memory × Nat → Prop)
    (hStart : P 0 (store, 0))
    (hStep : ∀ id s, id < cfg.req_per_blocks * z.chunks_per_block → P id s →
      P (id + 1) (fillChunk cfg z.chunk_bytes (id / z.chunks_per_block) s
        (id % z.chunks_per_block))) :
    ∃ s, P (cfg.req_per_blocks * z.chunks_per_block) s ∧
      populateChunkStripe cfg store z.chunks_per_block z.chunk_bytes = s.1 := by
  refine ⟨_, ?_, rfl⟩
  refine foldl_range_invariant
    (fun blk s => P (blk * z.chunks_per_block) s) ?_ ?_
  · simpa using hStart
  · intro blk s hBlk hs
    rw [Nat.succ_mul]
    refine foldl_range_invariant (fun group s =>
      P (blk * z.chunks_per_block + group) s) hs ?_
    intro group s hGroup hs
    obtain ⟨hDiv, hMod⟩ := chunk_div_mod blk hGroup
    have hNext := hStep _ s (chunk_lt hBlk hGroup) hs
    rw [hDiv, hMod] at hNext
    exact hNext

/-- After `populate_chunk_stripe` every chunk of the store is filled, and
nothing beyond the store has been written. -/
theorem populate_filledTo (hz : Layout cfg z) (store : Memory) :
    ∃ s, FilledTo cfg z store (cfg.req_per_blocks * z.chunks_per_block) s ∧
      populateChunkStripe cfg store z.chunks_per_block z.chunk_bytes = s.1 :=
  populate_invariant (FilledTo cfg z store)
    { counter := rfl
      chunks := fun c hc => absurd hc (Nat.not_lt_zero c)
      beyond := fun _ _ => rfl }
    fun _ _ hId hs => hs.fillChunk hz hId

/-- **Writer and reader agree**: in the populated store, the block a reader
finds through `block_ptr` is the one stamped for its request. -/
theorem populate_holdsBlock (hz : Layout cfg z) (store : Memory)
    {req blk : Nat} (hReq : req < cfg.requests)
    (hBlk : blk < cfg.req_per_blocks) :
    HoldsBlock (populateChunkStripe cfg store z.chunks_per_block z.chunk_bytes)
      (blockPtr cfg z.chunks_per_block req blk) cfg.block_bytes req blk := by
  rcases populate_filledTo hz store with ⟨s, hs, hPopulate⟩
  have hGroup := hz.groups req hReq
  have hSplit : req / cfg.chunk_slots * cfg.chunk_slots +
      req % cfg.chunk_slots = req := by
    rw [Nat.mul_comm]
    exact Nat.div_add_mod req cfg.chunk_slots
  obtain ⟨hDiv, hMod⟩ := chunk_div_mod blk hGroup
  have hFilled := hs.chunks _ (chunk_lt hBlk hGroup) (req % cfg.chunk_slots)
    (Nat.mod_lt _ hz.chunk_slots.1)
  rw [hMod, hDiv, hSplit] at hFilled
  rw [hPopulate, hz.blockPtr_eq hReq hBlk]
  exact hFilled hReq

end Populate

end MioBench.Store
