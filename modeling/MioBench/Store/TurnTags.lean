import MioBench.Store.MultiTurn

/-!
# What the tags of the multi-turn store tell

`verify_block` accepts a block exactly when its tag and its last byte are those
`fill_block` would have written for the same request, block and turn.  Since
request and block are fields of the tag, a block written by `write_turn`
verifies for its own request and block and for no others.
-/

namespace MioBench.Store.MultiTurn

open MioBench.Lib

/-- The block at `src` and the block at `src'` have the same first
`sizeof(struct block_tag)` bytes and the same last byte. -/
def SameTag (cfg : Cfg) (m : Memory) (src : Nat) (m' : Memory) (src' : Nat) :
    Prop :=
  (∀ i, i < tagBytes → m (src + i) = m' (src' + i)) ∧
    m (src + cfg.block_bytes - 1) = m' (src' + cfg.block_bytes - 1)

/-- The values of `blk` in `write_turn`. -/
def turnChunks (cfg : Cfg) (turn : Nat) : List Nat :=
  let first_blk := (turn + 2 ^ 32 - 1) % 2 ^ 32 * cfg.req_per_blocks % 2 ^ 64
  (List.range cfg.req_per_blocks).map fun i => (first_blk + i) % 2 ^ 64

theorem writeTurn_eq_foldl (cfg : Cfg) (store : Memory)
    (chunk_bytes turn : Nat) :
    writeTurn cfg store chunk_bytes turn =
      (turnChunks cfg turn).foldl (writeChunk cfg chunk_bytes turn) store := by
  rw [turnChunks, List.foldl_map]
  rfl

section Chunks

variable {cfg : Cfg} {turn blk : Nat}

/-- The chunks of a turn are consecutive, and none of their numbers wraps. -/
theorem mem_turnChunks (hWidth : cfg.req_per_blocks < 2 ^ 32)
    (h : blk ∈ turnChunks cfg turn) :
    (turn + 2 ^ 32 - 1) % 2 ^ 32 * cfg.req_per_blocks ≤ blk ∧
      blk < (turn + 2 ^ 32 - 1) % 2 ^ 32 * cfg.req_per_blocks +
        cfg.req_per_blocks := by
  obtain ⟨i, hi, rfl⟩ := List.mem_map.mp h
  have hi := List.mem_range.mp hi
  have hBefore : (turn + 2 ^ 32 - 1) % 2 ^ 32 ≤ 2 ^ 32 - 1 :=
    Nat.le_of_lt_succ (Nat.mod_lt _ (by decide))
  have hMul : (turn + 2 ^ 32 - 1) % 2 ^ 32 * cfg.req_per_blocks ≤
      (2 ^ 32 - 1) * (2 ^ 32 - 1) :=
    Nat.mul_le_mul hBefore (by omega)
  generalize (turn + 2 ^ 32 - 1) % 2 ^ 32 * cfg.req_per_blocks = first_blk
    at hMul ⊢
  rw [Nat.mod_eq_of_lt (show first_blk < 2 ^ 64 by omega),
    Nat.mod_eq_of_lt (show first_blk + i < 2 ^ 64 by omega)]
  omega

/-- Turns are counted from 1; turn `turn` ends the prefix of length
`turn * req_per_blocks`. -/
theorem mem_turnChunks_of_pos (hWidth : cfg.req_per_blocks < 2 ^ 32)
    (hTurn : 1 ≤ turn ∧ turn < 2 ^ 32) (h : blk ∈ turnChunks cfg turn) :
    (turn - 1) * cfg.req_per_blocks ≤ blk ∧
      blk < turn * cfg.req_per_blocks := by
  have hChunk := mem_turnChunks hWidth h
  have hBefore : (turn + 2 ^ 32 - 1) % 2 ^ 32 = turn - 1 := by omega
  have hEnd : (turn - 1) * cfg.req_per_blocks + cfg.req_per_blocks =
      turn * cfg.req_per_blocks := by
    rw [← Nat.succ_mul, Nat.succ_eq_add_one, Nat.sub_add_cancel hTurn.1]
  rw [hBefore, hEnd] at hChunk
  exact hChunk

/-- The reader recovers the turn by division. -/
theorem div_of_mem_turnChunks (hWidth : cfg.req_per_blocks < 2 ^ 32)
    (hTurn : 1 ≤ turn ∧ turn < 2 ^ 32) (h : blk ∈ turnChunks cfg turn) :
    blk / cfg.req_per_blocks + 1 = turn := by
  have hChunk := mem_turnChunks_of_pos hWidth hTurn h
  have hDiv : blk / cfg.req_per_blocks = turn - 1 :=
    Nat.div_eq_of_lt_le hChunk.1 (by
      rw [Nat.sub_add_cancel hTurn.1]
      exact hChunk.2)
  omega

theorem lt_of_mem_turnChunks (h : blk ∈ turnChunks cfg turn) :
    blk < 2 ^ 64 := by
  obtain ⟨i, _, rfl⟩ := List.mem_map.mp h
  exact Nat.mod_lt _ (by decide)

end Chunks

/-! ## Tags -/

section Tags

variable {cfg : Cfg} {m : Memory} {src req blk turn : Nat}

theorem BlockTag.length_fields (tag : BlockTag) : tag.fields.length = 5 := rfl

theorem BlockTag.forall_lt_length {tag : BlockTag} {p : Nat → Prop} :
    (∀ k, k < tag.fields.length → p k) ↔ p 0 ∧ p 1 ∧ p 2 ∧ p 3 ∧ p 4 := by
  rw [BlockTag.length_fields]
  constructor
  · intro h
    exact ⟨h 0 (by decide), h 1 (by decide), h 2 (by decide), h 3 (by decide),
      h 4 (by decide)⟩
  · intro h k hk
    have hField : k = 0 ∨ k = 1 ∨ k = 2 ∨ k = 3 ∨ k = 4 := by omega
    rcases hField with rfl | rfl | rfl | rfl | rfl
    · exact h.1
    · exact h.2.1
    · exact h.2.2.1
    · exact h.2.2.2.1
    · exact h.2.2.2.2

theorem BlockTag.fields_lt (hReq : req < 2 ^ 64) (hBlk : blk < 2 ^ 64)
    (hTurn : turn < 2 ^ 64) :
    ∀ k, k < (BlockTag.of req blk turn).fields.length →
      (BlockTag.of req blk turn).fields.getD k 0 < 2 ^ 64 := by
  have hMagic : blockMagic < 2 ^ 64 := by decide
  have hFill : (fillFor req blk).toNat < 2 ^ 64 := by
    have hByte := (fillFor req blk).toNat_lt
    omega
  exact BlockTag.forall_lt_length.mpr ⟨hMagic, hReq, hBlk, hTurn, hFill⟩

/-- The comparisons of `verify_block`, as a statement about the fields. -/
theorem verifyBlock_iff :
    verifyBlock cfg req blk m src = true ↔
      (∀ k, k < (BlockTag.of req blk
          ((blk / cfg.req_per_blocks + 1) % 2 ^ 64)).fields.length →
        m.word src k = (BlockTag.of req blk
          ((blk / cfg.req_per_blocks + 1) % 2 ^ 64)).fields.getD k 0) ∧
      m (src + cfg.block_bytes - 1) = fillFor req blk := by
  simp only [verifyBlock, BlockTag.load, Bool.and_eq_true, beq_iff_eq,
    BlockTag.forall_lt_length, and_assoc]
  rfl

/-- **A block verifies exactly when it looks like the block `fill_block` writes
for it**, as far as the tag and the last byte go. -/
theorem verifyBlock_iff_sameTag (hBytes : tagBytes + 1 ≤ cfg.block_bytes)
    (hReq : req < 2 ^ 64) (hBlk : blk < 2 ^ 64) (m₀ : Memory) (dst : Nat) :
    verifyBlock cfg req blk m src = true ↔
      SameTag cfg m src (fillBlock m₀ dst cfg.block_bytes req blk
        ((blk / cfg.req_per_blocks + 1) % 2 ^ 64)) dst := by
  have hTurn : (blk / cfg.req_per_blocks + 1) % 2 ^ 64 < 2 ^ 64 :=
    Nat.mod_lt _ (by decide)
  rw [verifyBlock_iff, forall_word_iff (BlockTag.fields_lt hReq hBlk hTurn)]
  generalize (blk / cfg.req_per_blocks + 1) % 2 ^ 64 = turn
  have hImage : HoldsBlock (fillBlock m₀ dst cfg.block_bytes req blk turn) dst
      cfg.block_bytes req blk turn := stampBlock_stamped _ _ _ _ _
  have hLast := hImage.last hBytes
  have hHead : ∀ i, i < tagBytes →
      fillBlock m₀ dst cfg.block_bytes req blk turn (dst + i) =
        (words (BlockTag.of req blk turn).fields).getD i 0 := by
    intro i hi
    exact (hImage i (by omega)).trans (if_pos hi)
  rw [SameTag, hLast]
  constructor
  · intro h
    refine ⟨fun i hi => ?_, h.2⟩
    rw [hHead i hi]
    exact h.1 i hi
  · intro h
    refine ⟨fun i hi => ?_, h.2⟩
    rw [← hHead i hi]
    exact h.1 i hi

/-- A block in its place verifies for its own request and block only: the two
are fields of its tag. -/
theorem HoldsBlock.verifyBlock_iff
    (h : HoldsBlock m src cfg.block_bytes req blk turn)
    (hBytes : tagBytes + 1 ≤ cfg.block_bytes) (hReq : req < 2 ^ 64)
    (hBlk : blk < 2 ^ 64) (hTurn : turn = blk / cfg.req_per_blocks + 1)
    (hTurnLt : turn < 2 ^ 64) (req' blk' : Nat) :
    verifyBlock cfg req' blk' m src = true ↔ req' = req ∧ blk' = blk := by
  constructor
  · intro hVerify
    have hFields := (MultiTurn.verifyBlock_iff.mp hVerify).1
    have hLen : 8 * (BlockTag.of req blk turn).fields.length ≤
        cfg.block_bytes := Nat.le_of_succ_le hBytes
    have hRequest := h.word (k := 1) hLen (by simp [BlockTag.fields]) hReq
    have hBlock := h.word (k := 2) hLen (by simp [BlockTag.fields]) hBlk
    have hRequest' := hFields 1 (by simp [BlockTag.fields])
    have hBlock' := hFields 2 (by simp [BlockTag.fields])
    exact ⟨hRequest'.symm.trans hRequest, hBlock'.symm.trans hBlock⟩
  · rintro ⟨rfl, rfl⟩
    exact verifyBlock_of_holds h hBytes hReq hBlk hTurn hTurnLt

end Tags

/-- **Tags identify blocks**, for every configuration with at least one block a
turn and room for the tag and one more byte: `verify_block` compares the tag
and the last byte with what `fill_block` writes; every `fill_block` of
`write_turn` gives a block that verifies for its own request and block and for
no others; and so does every block of the store that a whole `write_turn`
has written. -/
theorem verifyBlock_identifies (cfg : Cfg)
    (hBlocks : 1 ≤ cfg.req_per_blocks ∧ cfg.req_per_blocks < 2 ^ 32)
    (hBytes : tagBytes + 1 ≤ cfg.block_bytes) :
    (∀ (m m₀ : Memory) (src dst req blk : Nat), req < 2 ^ 64 → blk < 2 ^ 64 →
      (verifyBlock cfg req blk m src = true ↔
        SameTag cfg m src (fillBlock m₀ dst cfg.block_bytes req blk
          ((blk / cfg.req_per_blocks + 1) % 2 ^ 64)) dst)) ∧
    (∀ (m : Memory) (dst turn req blk : Nat), 1 ≤ turn ∧ turn < 2 ^ 32 →
      req < 2 ^ 64 → blk ∈ turnChunks cfg turn → ∀ req' blk',
      (verifyBlock cfg req' blk'
          (fillBlock m dst cfg.block_bytes req blk turn) dst = true ↔
        req' = req ∧ blk' = blk)) ∧
    ∀ (z : Sizes), Layout cfg z → ∀ (m : Memory) (turn req blk : Nat),
      turn < 2 ^ 32 → req < cfg.requests → blk ∈ turnChunks cfg turn →
      blk < z.total_chunks → ∀ req' blk',
      (verifyBlock cfg req' blk' (writeTurn cfg m z.chunk_bytes turn)
          (constBlockPtr cfg z.chunk_bytes req blk) = true ↔
        req' = req ∧ blk' = blk) := by
  refine ⟨?_, ?_, ?_⟩
  · intro m m₀ src dst req blk hReq hBlk
    exact verifyBlock_iff_sameTag hBytes hReq hBlk m₀ dst
  · intro m dst turn req blk hTurn hReq hMem req' blk'
    have hHolds : HoldsBlock (fillBlock m dst cfg.block_bytes req blk turn) dst
        cfg.block_bytes req blk turn := stampBlock_stamped _ _ _ _ _
    exact hHolds.verifyBlock_iff hBytes hReq (lt_of_mem_turnChunks hMem)
      (div_of_mem_turnChunks hBlocks.2 hTurn hMem).symm (by omega) req' blk'
  · intro z hz m turn req blk hTurn hReq hMem hBlk req' blk'
    have hChunk := mem_turnChunks hBlocks.2 hMem
    have hRequests := hz.requests
    have hRounds := hz.rounds
    -- The turn in front of turn 1 would write behind the store.
    have hBefore : (turn + 2 ^ 32 - 1) % 2 ^ 32 < cfg.rounds := by
      rw [hz.total_chunks] at hBlk
      exact Nat.lt_of_mul_lt_mul_right (Nat.lt_of_le_of_lt hChunk.1 hBlk)
    have hPos : 1 ≤ turn := by omega
    have hTurns : (turn + 2 ^ 32 - 1) % 2 ^ 32 = turn - 1 := by omega
    rw [hTurns] at hChunk hBefore
    have hSpec := (writeTurn_spec hz m hBefore).1 blk hChunk.1 (by
      rw [Nat.succ_mul]
      exact hChunk.2) req hReq
    rw [Nat.sub_add_cancel hPos] at hSpec
    rw [hz.constBlockPtr_eq hReq hBlk]
    exact hSpec.verifyBlock_iff hBytes (by omega) (lt_of_mem_turnChunks hMem)
      (div_of_mem_turnChunks hBlocks.2 ⟨hPos, hTurn⟩ hMem).symm (by omega)
      req' blk'

/-- The smallest block there is, with the largest request number, on the second
turn. -/
theorem verifyBlock_identifies_smallest :
    let cfg : Cfg :=
      { requests := 1, req_per_blocks := 1, block_bytes := 41, rounds := 2
        verify := true, copy_to_dst := true, csv_path := [] }
    verifyBlock cfg (2 ^ 64 - 1) 1
        (fillBlock (fun _ => 0) 7 41 (2 ^ 64 - 1) 1 2) 7 = true ∧
      verifyBlock cfg 0 1
        (fillBlock (fun _ => 0) 7 41 (2 ^ 64 - 1) 1 2) 7 = false := by
  intro cfg
  have h := (verifyBlock_identifies cfg (by decide) (by decide)).2.1
    (fun _ => 0) 7 2 (2 ^ 64 - 1) 1 (by decide) (by decide) (by decide)
  refine ⟨(h (2 ^ 64 - 1) 1).mpr ⟨rfl, rfl⟩, ?_⟩
  rw [← Bool.not_eq_true, h 0 1]
  decide

end MioBench.Store.MultiTurn
