import MioBench.Lib.ForLoop
import MioBench.Lib.Memory

/-!
# Stamped blocks

Every block of a store is filled with one byte and then stamped with a tag of
64-bit fields at its head.  The programs differ in the fields of the tag; what
a stamped block looks like, and what a reader sees of it, is the same.
-/

namespace MioBench.Store

open MioBench.Lib

/-- `fill_for`. -/
def fillFor (req blk : Nat) : UInt8 :=
  0xa5 ^^^ UInt8.ofNat (req * 31 % 2 ^ 64) ^^^ UInt8.ofNat (blk * 17 % 2 ^ 64)

/-- `memset(dst, fill, block_bytes); memcpy(dst, &tag, sizeof(tag));` -/
def stampBlock (m : Memory) (dst block_bytes : Nat) (fill : UInt8)
    (tag : List Nat) : Memory :=
  (m.fill dst fill block_bytes).write dst (words tag)

/-- The block at `src` reads as it was stamped. -/
def Stamped (m : Memory) (src block_bytes : Nat) (fill : UInt8)
    (tag : List Nat) : Prop :=
  ∀ i, i < block_bytes → m (src + i) =
    if i < 8 * tag.length then (words tag).getD i 0 else fill

theorem stampBlock_stamped (m : Memory) (dst block_bytes : Nat) (fill : UInt8)
    (tag : List Nat) :
    Stamped (stampBlock m dst block_bytes fill tag) dst block_bytes fill tag := by
  intro i hi
  unfold stampBlock
  split
  · exact Memory.write_inside _ _ _ (by simpa using ‹_›)
  · rw [Memory.write_outside _ _ _ (by simp; omega),
      Memory.fill_inside m dst fill hi]

theorem stampBlock_outside {m : Memory} {dst block_bytes a : Nat}
    (fill : UInt8) {tag : List Nat} (hTag : 8 * tag.length ≤ block_bytes)
    (ha : a < dst ∨ dst + block_bytes ≤ a) :
    stampBlock m dst block_bytes fill tag a = m a := by
  unfold stampBlock
  rw [Memory.write_outside _ _ _ (by simp; omega),
    Memory.fill_outside m dst fill ha]

namespace Stamped

variable {m m' : Memory} {src block_bytes : Nat} {fill : UInt8}
  {tag : List Nat}

/-- Stores elsewhere leave a stamped block alone, and a copy of it is stamped
too. -/
theorem congr (h : Stamped m src block_bytes fill tag) {src' : Nat}
    (hSame : ∀ i, i < block_bytes → m' (src' + i) = m (src + i)) :
    Stamped m' src' block_bytes fill tag :=
  fun i hi => (hSame i hi).trans (h i hi)

theorem word (h : Stamped m src block_bytes fill tag)
    (hTag : 8 * tag.length ≤ block_bytes) {k : Nat} (hk : k < tag.length)
    (hv : tag.getD k 0 < 2 ^ 64) : m.word src k = tag.getD k 0 := by
  apply word_of_words ?_ hk hv
  intro i hi
  rw [h i (by omega), if_pos hi]

/-- The first byte of a block is the low byte of the first field. -/
theorem first {magic : Nat} {rest : List Nat}
    (h : Stamped m src block_bytes fill (magic :: rest))
    (hTag : 8 * (magic :: rest).length ≤ block_bytes) :
    m src = UInt8.ofNat magic := by
  have hByte := h 0 (by simp at hTag; omega)
  rw [if_pos (by simp), Nat.add_zero] at hByte
  exact hByte

/-- The last byte of a block is its fill byte. -/
theorem last (h : Stamped m src block_bytes fill tag)
    (hTag : 8 * tag.length < block_bytes) :
    m (src + block_bytes - 1) = fill := by
  have hByte := h (block_bytes - 1) (by omega)
  rw [if_neg (by omega), ← Nat.add_sub_assoc (by omega)] at hByte
  exact hByte

end Stamped

/-! ## A row of blocks -/

/-- Stamp the blocks of a row from `base` on, leaving out those that have no
image. -/
def stampRow (m : Memory) (base block_bytes n : Nat)
    (image : Nat → Option (UInt8 × List Nat)) : Memory :=
  (List.range n).foldl (fun m k =>
    match image k with
    | none => m
    | some (fill, tag) =>
        stampBlock m (base + k * block_bytes) block_bytes fill tag) m

/-- A row reads as it was stamped, and nothing outside it has changed: a block
keeps its image while the blocks behind it are stamped. -/
theorem stampRow_spec (m : Memory) (base n : Nat) {block_bytes : Nat}
    {image : Nat → Option (UInt8 × List Nat)}
    (hTag : ∀ k fill tag, image k = some (fill, tag) →
      8 * tag.length ≤ block_bytes) :
    (∀ k fill tag, k < n → image k = some (fill, tag) →
      Stamped (stampRow m base block_bytes n image) (base + k * block_bytes)
        block_bytes fill tag) ∧
    ∀ a, a < base ∨ base + n * block_bytes ≤ a →
      stampRow m base block_bytes n image a = m a := by
  refine foldl_range_invariant (fun n m' =>
    (∀ k fill tag, k < n → image k = some (fill, tag) →
      Stamped m' (base + k * block_bytes) block_bytes fill tag) ∧
    ∀ a, a < base ∨ base + n * block_bytes ≤ a → m' a = m a)
    ⟨fun k fill tag hk => absurd hk (Nat.not_lt_zero k), fun a _ => rfl⟩ ?_
  intro i m' _ hInv
  cases hImage : image i with
  | none =>
      refine ⟨?_, fun a ha => hInv.2 a (by rw [Nat.succ_mul] at ha; omega)⟩
      intro k fill tag hk hSome
      have hNe : k ≠ i := by
        intro hEq
        rw [hEq, hImage] at hSome
        cases hSome
      exact hInv.1 k fill tag (by omega) hSome
  | some pair =>
      rcases pair with ⟨fill, tag⟩
      have hOutside : ∀ a, a < base + i * block_bytes ∨
          base + i * block_bytes + block_bytes ≤ a →
          stampBlock m' (base + i * block_bytes) block_bytes fill tag a = m' a :=
        fun a ha => stampBlock_outside fill (hTag i fill tag hImage) ha
      refine ⟨?_, ?_⟩
      · intro k fill' tag' hk hSome
        by_cases hLast : k = i
        · subst k
          rw [hImage] at hSome
          obtain ⟨rfl, rfl⟩ : fill = fill' ∧ tag = tag' := by simpa using hSome
          exact stampBlock_stamped _ _ _ _ _
        · apply (hInv.1 k fill' tag' (by omega) hSome).congr
          intro j hj
          have hBefore := Nat.mul_le_mul_right block_bytes
            (show k + 1 ≤ i by omega)
          rw [Nat.succ_mul] at hBefore
          exact hOutside _ (by omega)
      · intro a ha
        rw [Nat.succ_mul] at ha
        exact (hOutside a (by omega)).trans (hInv.2 a (by omega))

/-- And a byte of the row that is in no stamped block has not changed. -/
theorem stampRow_unstamped (m : Memory) (base : Nat) {n block_bytes a : Nat}
    {image : Nat → Option (UInt8 × List Nat)}
    (hTag : ∀ k fill tag, image k = some (fill, tag) →
      8 * tag.length ≤ block_bytes)
    (hOut : ∀ k, k < n → (image k).isSome →
      a < base + k * block_bytes ∨ base + k * block_bytes + block_bytes ≤ a) :
    stampRow m base block_bytes n image a = m a := by
  refine foldl_range_invariant (fun _ (m' : Memory) => m' a = m a) rfl ?_
  intro k m' hk hSame
  cases hImage : image k with
  | none => exact hSame
  | some pair =>
      have hAway := hOut k hk (by rw [hImage]; rfl)
      exact (stampBlock_outside pair.1 (hTag k pair.1 pair.2 hImage)
        hAway).trans hSame

/-! ## Reading a block -/

/-- What one round of a reader's loop adds to its local totals: the two bytes
summed up, and whether the verification failed. -/
structure BlockRead where
  sum : Nat
  fail : Bool
  deriving DecidableEq, Repr

/-- `check[0] + check[block_bytes - 1]` and the verification, at `check`. -/
def checkBlock (m : Memory) (check block_bytes : Nat) (verify : Bool)
    (verifyBlock : Memory → Nat → Bool) : BlockRead where
  sum := (m check).toNat + (m (check + block_bytes - 1)).toNat
  fail := verify && !verifyBlock m check

/-- One round of a reader's loop on the block at `src`, with the content of the
scratch buffer before and after. -/
def readBlock (store : Memory) (src block_bytes : Nat)
    (copy_to_dst verify : Bool) (verifyBlock : Memory → Nat → Bool)
    (scratch : Memory) : Memory × BlockRead :=
  if copy_to_dst then
    let scratch' := scratch.write 0 (store.read src block_bytes)
    (scratch', checkBlock scratch' 0 block_bytes verify verifyBlock)
  else (scratch, checkBlock store src block_bytes verify verifyBlock)

/-- What a stamped block contributes, for every setting of the two flags and
every old content of the scratch buffer. -/
theorem readBlock_of_stamped {store : Memory} {src block_bytes magic : Nat}
    {fill : UInt8} {rest : List Nat}
    (h : Stamped store src block_bytes fill (magic :: rest))
    (hTag : 8 * (magic :: rest).length < block_bytes)
    {verifyBlock : Memory → Nat → Bool}
    (hVerify : ∀ m check, Stamped m check block_bytes fill (magic :: rest) →
      verifyBlock m check = true)
    (copy_to_dst verify : Bool) (scratch : Memory) :
    (readBlock store src block_bytes copy_to_dst verify verifyBlock scratch).2 =
      { sum := (UInt8.ofNat magic).toNat + fill.toNat, fail := false } := by
  have hCheck : ∀ m check, Stamped m check block_bytes fill (magic :: rest) →
      checkBlock m check block_bytes verify verifyBlock =
        { sum := (UInt8.ofNat magic).toNat + fill.toNat, fail := false } := by
    intro m check hm
    rw [checkBlock, hm.first (by omega), hm.last hTag, hVerify m check hm]
    simp
  unfold readBlock
  cases copy_to_dst with
  | false => exact hCheck store src h
  | true =>
      apply hCheck
      apply h.congr
      intro i hi
      rw [Memory.write_inside _ _ _ (by simpa using hi), Memory.getD_read _ _ hi]

end MioBench.Store
