import MioBench.Bench.Stride
import MioBench.Lib.Wrapping

/-!
# When the stride tests end

`--block-size` and `--stride-size` are read with `atoi` and rejected only when
they are zero, so that a negative one becomes a size close to 2^64.  All three
counters of the nest then wrap.  Each of its loops ends when the counter comes
by a value from its bound on, which is a matter of the powers of two in its
step.
-/

namespace MioBench.Bench

open MioBench.Lib

/-- The `size_t` an `int` is converted to. -/
def sizeOfInt (value : Int32) : Nat := value.toInt64.toUInt64.toNat

/-- `--block-size` and `--stride-size` in `main`, on what `atoi` returns. -/
def sizeOption (value : Int32) : Option Nat :=
  if sizeOfInt value = 0 then none else some (sizeOfInt value)

/-- The loops of the nest end: that over the phases and, where it is entered,
those over the offsets and the lanes. -/
def StrideEnds (per_thread_size stride BLOCK_SIZE : Nat) : Prop :=
  let jump := (stride + BLOCK_SIZE) % 2 ^ 64
  jump + Nat.gcd BLOCK_SIZE (2 ^ 64) ≤ 2 ^ 64 ∧
    (jump = 0 ∨ per_thread_size = 0 ∨
      (per_thread_size + Nat.gcd jump (2 ^ 64) ≤ 2 ^ 64 ∧
        BLOCK_SIZE + 32 ≤ 2 ^ 64))

instance (per_thread_size stride BLOCK_SIZE : Nat) :
    Decidable (StrideEnds per_thread_size stride BLOCK_SIZE) :=
  inferInstanceAs (Decidable (_ ∧ _))

section Nest

variable {n S B : Nat}

/-- A loop that starts at zero. -/
theorem countUp_zero_ends_iff (bound step : Nat) :
    (Ends fun fuel => countUp (2 ^ 64) fuel 0 bound step) ↔
      bound + Nat.gcd step (2 ^ 64) ≤ 2 ^ 64 := by
  rw [countUp_ends_iff (by decide), Nat.zero_mod, Nat.add_zero]

theorem lanes_end_iff :
    (Ends fun fuel => countUp (2 ^ 64) fuel 0 B 32) ↔ B + 32 ≤ 2 ^ 64 :=
  countUp_zero_ends_iff B 32

/-- An empty slice has no offsets, whatever the phase. -/
theorem phaseLanes_settles_nil (hn : n = 0) (phase : Nat) :
    Settles (fun fuel => phaseLanes fuel n S B phase) [] := by
  subst hn
  refine ⟨0, fun fuel _ => ?_⟩
  have hNone : countUp (2 ^ 64) fuel phase 0 ((S + B) % 2 ^ 64) = some [] := by
    cases fuel <;> simp [countUp, visits]
  show phaseLanes fuel 0 S B phase = some []
  rw [phaseLanes, hNone]
  rfl

/-- A phase ends when its offsets and the lanes of a block do. -/
theorem phaseLanes_settles {phase : Nat} (hPhase : phase < 2 ^ 64)
    (hOffsets : n + Nat.gcd ((S + B) % 2 ^ 64) (2 ^ 64) ≤ 2 ^ 64)
    (hLanes : B + 32 ≤ 2 ^ 64) :
    ∃ lanes, Settles (fun fuel => phaseLanes fuel n S B phase) lanes := by
  have hEnds : Ends fun fuel =>
      countUp (2 ^ 64) fuel phase n ((S + B) % 2 ^ 64) :=
    (countUp_ends_iff hPhase n).mpr (Nat.le_add_right_of_le hOffsets)
  obtain ⟨offsets, hOffsets⟩ := visits_settles hEnds
  obtain ⟨bs, hBlock⟩ := visits_settles (lanes_end_iff.mpr hLanes)
  have hBody : ∀ offset ∈ offsets, ∃ lanes, Settles (fun fuel =>
      (countUp (2 ^ 64) fuel 0 B 32).map fun bs =>
        (bs.filter fun b => decide ((offset + b + 32) % 2 ^ 64 ≤ n)).map
          fun b => offset + b) lanes :=
    fun offset _ => ⟨_, hBlock.map _⟩
  obtain ⟨lanes, hGather⟩ := settles_gather hBody
  exact ⟨lanes, hOffsets.bind hGather⟩

/-- The first phase, which a nest that ends comes through. -/
theorem phaseLanes_zero_isSome {fuel : Nat} (hn : 0 < n)
    (h : (phaseLanes fuel n S B 0).isSome) :
    n + Nat.gcd ((S + B) % 2 ^ 64) (2 ^ 64) ≤ 2 ^ 64 ∧ B + 32 ≤ 2 ^ 64 := by
  obtain ⟨lanes, hLanes⟩ := Option.isSome_iff_exists.mp h
  obtain ⟨offsets, hOffsets, hGather⟩ := Option.bind_eq_some_iff.mp hLanes
  constructor
  · exact (countUp_zero_ends_iff n _).mp ⟨fuel, Option.isSome_of_eq_some hOffsets⟩
  · have hFirst : 0 ∈ offsets := first_mem_visits hOffsets (decide_eq_true hn)
    have hBlock := isSome_of_gather (Option.isSome_of_eq_some hGather) hFirst
    rw [Option.isSome_map] at hBlock
    exact lanes_end_iff.mp ⟨fuel, hBlock⟩

theorem strideLanes_ends_iff :
    (Ends fun fuel => strideLanes fuel n S B) ↔ StrideEnds n S B := by
  have hPhases := countUp_zero_ends_iff ((S + B) % 2 ^ 64) B
  constructor
  · rintro ⟨fuel, hRun⟩
    obtain ⟨lanes, hLanes⟩ := Option.isSome_iff_exists.mp hRun
    obtain ⟨starts, hStarts, hGather⟩ := Option.bind_eq_some_iff.mp hLanes
    refine ⟨hPhases.mp ⟨fuel, Option.isSome_of_eq_some hStarts⟩, ?_⟩
    rcases Nat.eq_zero_or_pos ((S + B) % 2 ^ 64) with hJump | hJump
    · exact Or.inl hJump
    · rcases Nat.eq_zero_or_pos n with hn | hn
      · exact Or.inr (Or.inl hn)
      · have hFirst : 0 ∈ starts :=
          first_mem_visits hStarts (decide_eq_true hJump)
        have hPhase : (phaseLanes fuel n S B 0).isSome :=
          isSome_of_gather (Option.isSome_of_eq_some hGather) hFirst
        exact Or.inr (Or.inr (phaseLanes_zero_isSome hn hPhase))
  · rintro ⟨hOuter, hInner⟩
    obtain ⟨starts, hStarts⟩ := visits_settles (hPhases.mpr hOuter)
    have hBelow : ∀ phase ∈ starts, phase < (S + B) % 2 ^ 64 := by
      intro phase hMem
      obtain ⟨least, hRun⟩ := hStarts
      simpa using mem_visits_cond (hRun least (Nat.le_refl _)) hMem
    have hBody : ∀ phase ∈ starts, ∃ lanes,
        Settles (fun fuel => phaseLanes fuel n S B phase) lanes := by
      intro phase hMem
      have hLt := hBelow phase hMem
      have hMod := Nat.mod_lt (S + B) (show 0 < 2 ^ 64 by decide)
      rcases hInner with hJump | hn | ⟨hOffsets, hLanes⟩
      · omega
      · exact ⟨[], phaseLanes_settles_nil hn phase⟩
      · exact phaseLanes_settles (by omega) hOffsets hLanes
    obtain ⟨lanes, hGather⟩ := settles_gather hBody
    exact (hStarts.bind hGather).ends

/-- Options that are positive and a slice that leaves room for one jump. -/
theorem strideEnds_of_positive (hB : 0 < B) (hBlock : B < 2 ^ 31)
    (hStride : S < 2 ^ 31) (hn : n ≤ 2 ^ 64 - 2 ^ 32) : StrideEnds n S B := by
  have hJump : (S + B) % 2 ^ 64 = S + B := Nat.mod_eq_of_lt (by omega)
  have hBlock' := Nat.gcd_le_left (2 ^ 64) hB
  have hJump' := Nat.gcd_le_left (2 ^ 64) (show 0 < S + B by omega)
  unfold StrideEnds
  rw [hJump]
  exact ⟨by omega, Or.inr (Or.inr ⟨by omega, by omega⟩)⟩

end Nest

theorem strideTest_ends_iff {data size num_threads S B : Nat}
    {bypass_cache : Bool} {stored : Nat → Option (List (BitVec 32))} :
    (Ends fun fuel => strideTest fuel data size num_threads S B bypass_cache
      stored) ↔ StrideEnds (size / num_threads) S B := by
  rw [← strideLanes_ends_iff]
  simp only [Ends, strideTest, Option.isSome_map]

/-- When the stride tests end, whatever the two options are. -/
theorem strideTests_end_iff (data size num_threads : Nat)
    (block_size stride_size : Int32) (bypass_cache : Bool) :
    ((Ends fun fuel => measureStrideRead fuel data size num_threads
        (sizeOfInt stride_size) (sizeOfInt block_size) bypass_cache) ↔
      StrideEnds (size / num_threads) (sizeOfInt stride_size)
        (sizeOfInt block_size)) ∧
    ((Ends fun fuel => measureStrideWrite fuel data size num_threads
        (sizeOfInt stride_size) (sizeOfInt block_size) bypass_cache) ↔
      StrideEnds (size / num_threads) (sizeOfInt stride_size)
        (sizeOfInt block_size)) :=
  ⟨strideTest_ends_iff, strideTest_ends_iff⟩

/-- `--block-size 1073741824 --stride-size -1073741825`: the jump is 2^64 - 1,
and the phases, all multiples of 2^30, go round for ever. -/
theorem strideTests_not_end :
    ¬ ∀ (data size num_threads : Nat) (block_size stride_size : Int32)
        (bypass_cache : Bool) (S B : Nat), 0 < num_threads →
      sizeOption block_size = some B → sizeOption stride_size = some S →
      Ends fun fuel => measureStrideRead fuel data size num_threads S B
        bypass_cache := by
  intro h
  have hEnds := strideTest_ends_iff.mp (h 4096 104857600 1 1073741824
    (-1073741825) false (2 ^ 64 - 1073741825) 1073741824 (by decide)
    (by decide +kernel) (by decide +kernel))
  exact absurd hEnds (by decide +kernel)

end MioBench.Bench
