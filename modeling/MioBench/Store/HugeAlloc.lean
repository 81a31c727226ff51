import MioBench.Store.ChunkStripe

/-!
# Allocating the store

`xaligned_alloc` rounds the size of the store up to whole huge pages.
`test2-rdma-fin.c` does so for every size; `test3-mt.c` first refuses the sizes
whose rounding would wrap.
-/

namespace MioBench.Store

open MioBench.Lib

/-- `HUGEPAGE_2MB`. -/
def hugepage2MB : Nat := 2 * 1024 * 1024

/-- `(bytes + HUGEPAGE_2MB - 1) & ~(HUGEPAGE_2MB - 1)`. -/
def hugeLen (bytes : Nat) : Nat :=
  (bytes + hugepage2MB - 1) % 2 ^ 64 &&& (2 ^ 64 - 1 - (hugepage2MB - 1))

namespace MultiTurn

/-- The length `xaligned_alloc` of `test3-mt.c` maps; `none` is `EINVAL`. -/
def hugeLen (bytes : Nat) : Option Nat :=
  if bytes = 0 ∨ 2 ^ 64 - 1 - (hugepage2MB - 1) < bytes then none
  else some (Store.hugeLen bytes)

end MultiTurn

/-- The mask drops the low 21 bits. -/
theorem and_hugeMask (x : Nat) (hx : x < 2 ^ 64) :
    x &&& (2 ^ 64 - 1 - (hugepage2MB - 1)) = x / 2 ^ 21 * 2 ^ 21 := by
  have hMask : 2 ^ 64 - 1 - (hugepage2MB - 1) = (2 ^ 43 - 1) <<< 21 := by decide
  rw [hMask, ← Nat.shiftRight_eq_div_pow, ← Nat.shiftLeft_eq]
  apply Nat.eq_of_testBit_eq
  intro i
  rw [Nat.testBit_and, Nat.testBit_shiftLeft, Nat.testBit_shiftLeft,
    Nat.testBit_shiftRight, Nat.testBit_two_pow_sub_one]
  by_cases hLow : 21 ≤ i
  · by_cases hHigh : i < 64
    · have hIn : i - 21 < 43 := by omega
      simp [hLow, hIn]
    · have hOut : x.testBit i = false :=
        Nat.testBit_lt_two_pow (Nat.lt_of_lt_of_le hx
          (Nat.pow_le_pow_right (by decide) (by omega)))
      simp [hLow, hOut]
  · simp [hLow]

/-- Rounding up, as long as the sum does not wrap. -/
theorem hugeLen_of_le {bytes : Nat} (h : bytes ≤ 2 ^ 64 - 2 ^ 21) :
    hugeLen bytes = (bytes + 2 ^ 21 - 1) / 2 ^ 21 * 2 ^ 21 := by
  have hSum : bytes + hugepage2MB - 1 = bytes + 2 ^ 21 - 1 := rfl
  rw [hugeLen, and_hugeMask _ (Nat.mod_lt _ (by decide)), hSum,
    Nat.mod_eq_of_lt (by omega)]

/-- In the last 2 MiB of the range the sum wraps, and nothing is left of it. -/
theorem hugeLen_of_gt {bytes : Nat} (h : 2 ^ 64 - 2 ^ 21 < bytes)
    (hBytes : bytes < 2 ^ 64) : hugeLen bytes = 0 := by
  have hSum : bytes + hugepage2MB - 1 = bytes + 2 ^ 21 - 1 := rfl
  have hWrap : (bytes + 2 ^ 21 - 1) % 2 ^ 64 = bytes + 2 ^ 21 - 1 - 2 ^ 64 := by
    omega
  rw [hugeLen, and_hugeMask _ (Nat.mod_lt _ (by decide)), hSum, hWrap]
  omega

theorem le_hugeLen_iff {bytes : Nat} (hPos : 0 < bytes)
    (hBytes : bytes < 2 ^ 64) :
    bytes ≤ hugeLen bytes ↔ bytes ≤ 2 ^ 64 - 2 ^ 21 := by
  constructor
  · intro hLe
    by_contra hGt
    rw [hugeLen_of_gt (not_le.mp hGt) hBytes] at hLe
    omega
  · intro hLe
    rw [hugeLen_of_le hLe]
    omega

/-- The guard of `test3-mt.c` is this condition: what it maps is enough. -/
theorem multiTurn_le_hugeLen {bytes len : Nat}
    (h : MultiTurn.hugeLen bytes = some len) : bytes ≤ len := by
  unfold MultiTurn.hugeLen at h
  split at h
  · cases h
  · rename_i hFits
    have hLe : bytes ≤ 2 ^ 64 - 2 ^ 21 := by
      have hGuard : 2 ^ 64 - 1 - (hugepage2MB - 1) = 2 ^ 64 - 2 ^ 21 := rfl
      omega
    rw [← Option.some.inj h]
    exact (le_hugeLen_iff (by omega) (by omega)).mpr hLe

theorem Layout.store_bytes_pos {cfg : Cfg} {z : Sizes} (hz : Layout cfg z) :
    0 < z.store_bytes := by
  have hGroups : 0 < z.chunks_per_block :=
    Nat.lt_of_le_of_lt (Nat.zero_le _) (hz.groups 0 hz.requests.1)
  rw [hz.store_bytes, hz.chunk_bytes]
  exact Nat.mul_pos (Nat.mul_pos hz.req_per_blocks.1 hGroups)
    (Nat.mul_pos hz.chunk_slots.1 hz.block_bytes.1)

/-- An allocation of `len` bytes has room for the store, and
`populate_chunk_stripe` keeps to it. -/
def StoreFits (cfg : Cfg) (z : Sizes) (len : Nat) : Prop :=
  z.store_bytes ≤ len ∧ ∀ store a, len ≤ a →
    populateChunkStripe cfg store z.chunks_per_block z.chunk_bytes a = store a

theorem storeFits_iff {cfg : Cfg} {z : Sizes} (hz : Layout cfg z) (len : Nat) :
    StoreFits cfg z len ↔ z.store_bytes ≤ len := by
  refine ⟨And.left, fun hLe => ⟨hLe, fun store a ha => ?_⟩⟩
  obtain ⟨s, hFilled, hPopulate⟩ := populate_filledTo hz store
  rw [hPopulate]
  apply hFilled.beyond
  rw [← hz.store_bytes]
  exact Nat.le_trans hLe ha

/-- When the allocation is big enough for the store. -/
theorem hugeAlloc_fits_iff (opts : List Opt) {cfg : Cfg} {z : Sizes}
    (hArgs : parseArgs opts = .ok cfg) (hSizes : sizes cfg = some z) :
    StoreFits cfg z (hugeLen z.store_bytes) ↔
      z.store_bytes ≤ 2 ^ 64 - 2 ^ 21 := by
  have hz := sizes_layout (parseArgs_wellFormed hArgs) hSizes
  rw [storeFits_iff hz, le_hugeLen_iff hz.store_bytes_pos hz.fits]

/-- The command line without options: 32 GiB. -/
theorem hugeAlloc_fits_iff_default :
    StoreFits { defaultCfg with sweep_max := 32 }
      { chunks_per_block := 1, chunk_count := 64, chunk_bytes := 2 ^ 29
        store_bytes := 2 ^ 35 } (hugeLen (2 ^ 35)) ↔
      2 ^ 35 ≤ 2 ^ 64 - 2 ^ 21 :=
  hugeAlloc_fits_iff [] rfl rfl

/-- A store of 2^64 - 1 bytes, which passes every check of `main`, gets an
allocation of no bytes. -/
theorem hugeAlloc_not_fits :
    ∃ opts cfg z, parseArgs opts = .ok cfg ∧ sizes cfg = some z ∧
      z.store_bytes = 2 ^ 64 - 1 ∧ hugeLen z.store_bytes = 0 ∧
      ¬ StoreFits cfg z (hugeLen z.store_bytes) := by
  refine ⟨[.reqPerBlocks "641".toList, .chunkSlots "6700417".toList,
      .blockBytes "4294967295".toList],
    { defaultCfg with
      req_per_blocks := 641, chunk_slots := 6700417, block_bytes := 4294967295
      sweep_max := 32 },
    { chunks_per_block := 1, chunk_count := 641
      chunk_bytes := 6700417 * 4294967295, store_bytes := 2 ^ 64 - 1 },
    by decide +kernel, by decide +kernel, rfl, by decide +kernel, ?_⟩
  intro hFits
  have hNone : hugeLen (2 ^ 64 - 1) = 0 := by decide +kernel
  have hLe := hFits.1
  dsimp only at hLe
  omega

end MioBench.Store
