import Mathlib.Data.Int.ModEq

/-!
# Sizing of the benchmarked region

`main` computes the size of the region twice: `memory_size`, through the `int`
product `total_memory_mib`, is what it allocates, and `memory_to_use`, computed
in `size_t`, is what every `measure*` function is told to work on.
-/

namespace MioBench.Bench

/-- The value of an `int` converted to `size_t`. -/
def toSizeT (x : Int) : Nat := (x % 2 ^ 64).toNat

/-- The values of a C `int`. -/
def IsInt (x : Int) : Prop := -2 ^ 31 ≤ x ∧ x < 2 ^ 31

instance (x : Int) : Decidable (IsInt x) :=
  inferInstanceAs (Decidable (_ ∧ _))

/-- "Set default memory per thread if not specified". -/
def defaultMemory (memory_per_thread_mib : Int) : Int :=
  if memory_per_thread_mib ≤ 0 then 500 else memory_per_thread_mib

/-- `int total_memory_mib = memory_per_thread_mib * num_threads`, with the
product wrapped to 32 bits. -/
def totalMemoryMib (memory_per_thread_mib num_threads : Int) : Int :=
  (memory_per_thread_mib * num_threads).bmod (2 ^ 32)

/-- `(size_t)total_memory_mib * 1024 * 1024`. -/
def memorySize (memory_per_thread_mib num_threads : Int) : Nat :=
  toSizeT (totalMemoryMib memory_per_thread_mib num_threads) * 1024 % 2 ^ 64
    * 1024 % 2 ^ 64

/-- `(size_t)num_threads * memory_per_thread_mib * 1024 * 1024`. -/
def memoryToUse (memory_per_thread_mib num_threads : Int) : Nat :=
  toSizeT num_threads * toSizeT memory_per_thread_mib % 2 ^ 64 * 1024 % 2 ^ 64
    * 1024 % 2 ^ 64

/-- What `main` allocates and what it hands to the tests. -/
structure RegionSizes where
  memory_per_thread_mib : Int
  memory_size : Nat
  memory_to_use : Nat
deriving Repr, DecidableEq

/-- The sizing of `main` for the two `atoi` results: the default memory first,
then the thread check ("threads must be positive"), then the two products. -/
def regionSizes (memory_per_thread_mib num_threads : Int) :
    Option RegionSizes :=
  let mib := defaultMemory memory_per_thread_mib
  if num_threads ≤ 0 then none
  else some
    { memory_per_thread_mib := mib
      memory_size := memorySize mib num_threads
      memory_to_use := memoryToUse mib num_threads }

theorem defaultMemory_range {mem : Int} (h : IsInt mem) :
    0 < defaultMemory mem ∧ defaultMemory mem < 2 ^ 31 := by
  have hUpper := h.2
  unfold defaultMemory
  split <;> omega

/-- Both products, as functions of the exact product `p` of memory and threads
in MiB: the bits of `p` from 44 on never count, and `memory_size` reads the low
32 bits as a signed number. -/
theorem memorySize_eq {mem threads : Int} {p : Nat} (hp : mem * threads = p) :
    memorySize mem threads =
      if p % 2 ^ 32 < 2 ^ 31 then p % 2 ^ 32 * 2 ^ 20
      else 2 ^ 64 - 2 ^ 52 + p % 2 ^ 32 * 2 ^ 20 := by
  have hTotal : totalMemoryMib mem threads =
      if p % 2 ^ 32 < 2 ^ 31 then ((p % 2 ^ 32 : Nat) : Int)
      else ((p % 2 ^ 32 : Nat) : Int) - 2 ^ 32 := by
    rw [totalMemoryMib, hp, Int.bmod_def]
    split <;> split <;> omega
  rw [memorySize, hTotal, toSizeT]
  split <;> omega

theorem memoryToUse_eq {mem threads : Int} {p : Nat} (hMem : 0 ≤ mem)
    (hMem' : mem < 2 ^ 64) (hThreads : 0 ≤ threads)
    (hThreads' : threads < 2 ^ 64) (hp : mem * threads = p) :
    memoryToUse mem threads = p % 2 ^ 44 * 2 ^ 20 := by
  have hProd : toSizeT threads * toSizeT mem = p := by
    unfold toSizeT
    rw [Int.emod_eq_of_lt hMem hMem', Int.emod_eq_of_lt hThreads hThreads']
    apply Int.ofNat.inj
    show ((threads.toNat * mem.toNat : Nat) : Int) = p
    rw [Int.natCast_mul, Int.toNat_of_nonneg hMem,
      Int.toNat_of_nonneg hThreads, Int.mul_comm]
    exact hp
  rw [memoryToUse, hProd]
  omega

/-- The exact product in MiB fits the 32-bit detour: what `size_t` keeps of it
above bit 31 is zero, or bit 31 itself is set, so that the sign extension fills
the upper bits. -/
def ProductFits (p : Nat) : Prop :=
  p / 2 ^ 32 % 2 ^ 12 = 0 ∨ 2 ^ 31 ≤ p % 2 ^ 32

instance (p : Nat) : Decidable (ProductFits p) :=
  inferInstanceAs (Decidable (_ ∨ _))

/-- For every pair of `int` arguments `main` accepts, the region handed to the
tests lies inside the allocated one exactly when the product of memory and
threads fits.  Only the two sizes are compared; whether a test stays inside
`memory_to_use` is another question, settled for the load threads of the chase
in `PointerLoad`. -/
theorem memoryToUse_le_memorySize_iff (mem threads : Int) (hMem : IsInt mem)
    (hThreads : IsInt threads) (sizes : RegionSizes)
    (hAccepted : regionSizes mem threads = some sizes) :
    sizes.memory_to_use ≤ sizes.memory_size ↔
      ProductFits (defaultMemory mem * threads).toNat := by
  have hMib := defaultMemory_range hMem
  have hUpper := hThreads.2
  by_cases hPos : threads ≤ 0
  · simp [regionSizes, hPos] at hAccepted
  · obtain rfl : _ = sizes := by simpa [regionSizes, hPos] using hAccepted
    have hp : defaultMemory mem * threads =
        ((defaultMemory mem * threads).toNat : Int) :=
      (Int.toNat_of_nonneg (Int.mul_nonneg (by omega) (by omega))).symm
    show memoryToUse (defaultMemory mem) threads ≤
      memorySize (defaultMemory mem) threads ↔ _
    rw [memoryToUse_eq (by omega) (by omega) (by omega) (by omega) hp,
      memorySize_eq hp]
    unfold ProductFits
    generalize (defaultMemory mem * threads).toNat = p
    split <;> omega

/-- `--memory-per-thread 100 --threads 8`. -/
theorem memoryToUse_le_memorySize_iff_100 :
    regionSizes 100 8 = some ⟨100, 838860800, 838860800⟩ ∧
      (838860800 ≤ 838860800 ↔ ProductFits (defaultMemory 100 * 8).toNat) :=
  ⟨by decide, memoryToUse_le_memorySize_iff 100 8 (by decide) (by decide)
    ⟨100, 838860800, 838860800⟩ (by decide)⟩

/-- `--memory-per-thread 1073741825 --threads 4`: 4 MiB are allocated and
4 PiB + 4 MiB used. -/
theorem memoryToUse_not_le_memorySize :
    ¬ ∀ mem threads : Int, IsInt mem → IsInt threads → ∀ sizes : RegionSizes,
      regionSizes mem threads = some sizes →
        sizes.memory_to_use ≤ sizes.memory_size := by
  intro h
  have hSizes := h 1073741825 4 (by decide) (by decide)
    ⟨1073741825, 4194304, 4503599631564800⟩ (by decide)
  exact absurd hSizes (by decide)

/-- While the product fits in the `int`, the two sizes are the same number and
every thread's share is its memory in MiB. -/
theorem regionSizes_of_lt {mem threads : Int} (hMem : IsInt mem)
    (hThreads : 0 < threads) (hFits : defaultMemory mem * threads < 2 ^ 31) :
    regionSizes mem threads = some
      { memory_per_thread_mib := defaultMemory mem
        memory_size := (defaultMemory mem * threads).toNat * 2 ^ 20
        memory_to_use := (defaultMemory mem * threads).toNat * 2 ^ 20 } := by
  have hMib := defaultMemory_range hMem
  have hNonneg : 0 ≤ defaultMemory mem * threads :=
    Int.mul_nonneg (by omega) (by omega)
  have hp := (Int.toNat_of_nonneg hNonneg).symm
  have hThreads' : threads < 2 ^ 64 := by
    have hLe : 1 * threads ≤ defaultMemory mem * threads :=
      Int.mul_le_mul_of_nonneg_right (by omega) (by omega)
    omega
  have hLt : (defaultMemory mem * threads).toNat < 2 ^ 31 := by omega
  have hSize : memorySize (defaultMemory mem) threads =
      (defaultMemory mem * threads).toNat * 2 ^ 20 := by
    rw [memorySize_eq hp, if_pos (by omega), Nat.mod_eq_of_lt (by omega)]
  have hUse : memoryToUse (defaultMemory mem) threads =
      (defaultMemory mem * threads).toNat * 2 ^ 20 := by
    rw [memoryToUse_eq (by omega) (by omega) (by omega) hThreads' hp,
      Nat.mod_eq_of_lt (by omega)]
  simp only [regionSizes, show ¬ threads ≤ 0 by omega, ↓reduceIte, hSize, hUse]

end MioBench.Bench
