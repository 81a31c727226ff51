import Mathlib.Data.Int.Log
import Mathlib.Data.Rat.Floor
import Mathlib.Tactic.Linarith
import Mathlib.Tactic.NormNum
import MioBench.Lib.DecimalText

/-!
# Rounding

A number is rounded to an integer, to two decimals for printing, and to the
nearest number of the binary64 format, each time to the even one of two that are
as near.
-/

namespace MioBench.Lib

/-! ## To an integer -/

/-- To the nearest integer, and to the even one of two. -/
def roundHalfEven (q : ℚ) : Nat :=
  if q - ⌊q⌋₊ < 1 / 2 ∨ (q - ⌊q⌋₊ = 1 / 2 ∧ ⌊q⌋₊ % 2 = 0) then ⌊q⌋₊ else ⌊q⌋₊ + 1

section Integer

theorem le_roundHalfEven {n : Nat} {q : ℚ} (h : (n : ℚ) ≤ q) :
    n ≤ roundHalfEven q := by
  have hFloor : n ≤ ⌊q⌋₊ := Nat.le_floor h
  unfold roundHalfEven
  split <;> omega

theorem roundHalfEven_le {n : Nat} {q : ℚ} (hPos : 0 ≤ q) (h : q < n) :
    roundHalfEven q ≤ n := by
  have hFloor : ⌊q⌋₊ < n := (Nat.floor_lt hPos).mpr h
  unfold roundHalfEven
  split <;> omega

/-- Less than half below an integer, what is not rounded up to it. -/
theorem roundHalfEven_lt {n : Nat} {q : ℚ} (hPos : 0 ≤ q) (h : q < n - 1 / 2) :
    roundHalfEven q < n := by
  have hFloor : ⌊q⌋₊ < n := (Nat.floor_lt hPos).mpr (by linarith)
  unfold roundHalfEven
  split
  · exact hFloor
  · rename_i hUp
    have hHalf : 1 / 2 ≤ q - ⌊q⌋₊ := not_lt.mp fun hLt => hUp (Or.inl hLt)
    have hBelow : (⌊q⌋₊ : ℚ) < (n - 1 : ℚ) := by linarith
    have hNext : ((⌊q⌋₊ + 1 : Nat) : ℚ) < n := by
      push_cast
      linarith
    exact_mod_cast hNext

theorem roundHalfEven_mono {q q' : ℚ} (h : q ≤ q') :
    roundHalfEven q ≤ roundHalfEven q' := by
  have hFloor : ⌊q⌋₊ ≤ ⌊q'⌋₊ := Nat.floor_mono h
  have hAbove : ⌊q'⌋₊ ≤ roundHalfEven q' := by
    unfold roundHalfEven
    split <;> omega
  rcases Nat.lt_or_eq_of_le hFloor with hLt | hEq
  · have hBelow : roundHalfEven q ≤ ⌊q⌋₊ + 1 := by
      unfold roundHalfEven
      split <;> omega
    omega
  · by_cases hDown : q' - ⌊q'⌋₊ < 1 / 2 ∨
        (q' - ⌊q'⌋₊ = 1 / 2 ∧ ⌊q'⌋₊ % 2 = 0)
    · -- What is above is rounded down, and so is what is below.
      have hDown' : q - ⌊q⌋₊ < 1 / 2 ∨ (q - ⌊q⌋₊ = 1 / 2 ∧ ⌊q⌋₊ % 2 = 0) := by
        rw [hEq]
        rcases hDown with hLess | ⟨hHalf, hEven⟩
        · exact Or.inl (by linarith)
        · rcases lt_or_eq_of_le h with hLt | rfl
          · exact Or.inl (by linarith)
          · exact Or.inr ⟨hHalf, hEven⟩
      rw [roundHalfEven, if_pos hDown', hEq]
      exact hAbove
    · rw [show roundHalfEven q' = ⌊q'⌋₊ + 1 from if_neg hDown]
      unfold roundHalfEven
      split <;> omega

end Integer

/-! ## To two decimals -/

/-- `%.2f`, of a number that is not negative. -/
def printfFixed2 (x : ℚ) : DecimalText where
  whole := allDigits 1 (roundHalfEven (100 * x) / 100)
  fraction := lastDigits 2 (roundHalfEven (100 * x) % 100)
  exponent := none
  whole_ne := allDigits_ne 1 _
  whole_digits := isDigit_lastDigits _ _
  fraction_digits := isDigit_lastDigits 2 _

theorem printfFixed2_value (x : ℚ) :
    (printfFixed2 x).value = roundHalfEven (100 * x) / 100 := by
  have hLow : roundHalfEven (100 * x) % 100 < 10 ^ 2 := Nat.mod_lt _ (by decide)
  have hDigits : decimal ((printfFixed2 x).whole ++ (printfFixed2 x).fraction) =
      roundHalfEven (100 * x) := by
    have hLength : (printfFixed2 x).fraction.length = 2 := length_lastDigits 2 _
    rw [decimal_append, hLength, printfFixed2, decimal_allDigits,
      decimal_lastDigits hLow]
    omega
  rw [DecimalText.value_of_fixed rfl, DecimalText.significand, fixedValue_eq,
    hDigits]
  norm_num [printfFixed2]

theorem printfFixed2_mono {x y : ℚ} (h : x ≤ y) :
    (printfFixed2 x).value ≤ (printfFixed2 y).value := by
  rw [printfFixed2_value, printfFixed2_value]
  have hRound := roundHalfEven_mono (show 100 * x ≤ 100 * y by linarith)
  have hCast : (roundHalfEven (100 * x) : ℚ) ≤ roundHalfEven (100 * y) := by
    exact_mod_cast hRound
  linarith

/-! ## To a double -/

/-- The binary64 number nearest to `x`, which is not negative; the largest are
not told from infinity. -/
def nearestDouble (x : ℚ) : ℚ :=
  let unit : ℚ := 2 ^ max (Int.log 2 x - 52) (-1074)
  roundHalfEven (x / unit) * unit

theorem nearestDouble_nonneg (x : ℚ) : 0 ≤ nearestDouble x := by
  unfold nearestDouble
  positivity

section Double

variable {x y : ℚ}

/-- A multiple of the unit of `x` bounds it from above through rounding. -/
theorem nearestDouble_le {e : ℤ} (hx : 0 ≤ x) (h : x < 2 ^ e)
    (he : max (Int.log 2 x - 52) (-1074) ≤ e) : nearestDouble x ≤ 2 ^ e := by
  unfold nearestDouble
  generalize max (Int.log 2 x - 52) (-1074) = u at he ⊢
  obtain ⟨n, hn⟩ := Int.eq_ofNat_of_zero_le (show 0 ≤ e - u by omega)
  have hUnit : (0 : ℚ) < 2 ^ u := by positivity
  have hSplit : (2 : ℚ) ^ e = (2 ^ n : Nat) * 2 ^ u := by
    push_cast
    rw [← zpow_natCast, ← zpow_add₀ two_ne_zero]
    congr 1
    omega
  have hRound : roundHalfEven (x / 2 ^ u) ≤ 2 ^ n :=
    roundHalfEven_le (div_nonneg hx hUnit.le)
      ((div_lt_iff₀ hUnit).mpr (hSplit ▸ h))
  rw [hSplit]
  exact mul_le_mul_of_nonneg_right (by exact_mod_cast hRound) hUnit.le

/-- A power of two in the range of normal numbers bounds it from below. -/
theorem le_nearestDouble (hx : 0 < x) (hNormal : -1022 ≤ Int.log 2 x) :
    2 ^ Int.log 2 x ≤ nearestDouble x := by
  have hLow : (2 : ℚ) ^ Int.log 2 x ≤ x :=
    Int.zpow_log_le_self (b := 2) (by decide) hx
  unfold nearestDouble
  rw [max_eq_left (by omega)]
  have hUnit : (0 : ℚ) < 2 ^ (Int.log 2 x - 52) := by positivity
  have hSplit : (2 : ℚ) ^ Int.log 2 x = (2 ^ 52 : Nat) * 2 ^ (Int.log 2 x - 52) := by
    rw [show ((2 ^ 52 : Nat) : ℚ) = 2 ^ (52 : ℤ) by norm_num,
      ← zpow_add₀ two_ne_zero]
    congr 1
    omega
  have hRound : 2 ^ 52 ≤ roundHalfEven (x / 2 ^ (Int.log 2 x - 52)) :=
    le_roundHalfEven ((le_div_iff₀ hUnit).mpr (hSplit ▸ hLow))
  rw [hSplit]
  exact mul_le_mul_of_nonneg_right (by exact_mod_cast hRound) hUnit.le

theorem nearestDouble_of_nonpos (hx : x ≤ 0) : nearestDouble x = 0 := by
  have hUnit : (0 : ℚ) < 2 ^ max (Int.log 2 x - 52) (-1074) := by positivity
  have hQuotient := div_nonpos_of_nonpos_of_nonneg hx hUnit.le
  have hRound : roundHalfEven (x / 2 ^ max (Int.log 2 x - 52) (-1074)) = 0 := by
    have hZero : roundHalfEven 0 = 0 := by norm_num [roundHalfEven]
    have hLe := roundHalfEven_mono hQuotient
    omega
  rw [nearestDouble, hRound]
  simp

theorem nearestDouble_mono : Monotone nearestDouble := by
  intro x y h
  rcases le_or_gt x 0 with hNonpos | hx
  · rw [nearestDouble_of_nonpos hNonpos]
    exact nearestDouble_nonneg y
  · have hy : 0 < y := lt_of_lt_of_le hx h
    have hLog : Int.log 2 x ≤ Int.log 2 y := Int.log_mono_right hx h
    by_cases hUnits : max (Int.log 2 x - 52) (-1074) =
        max (Int.log 2 y - 52) (-1074)
    · have hUnit : (0 : ℚ) < 2 ^ max (Int.log 2 y - 52) (-1074) := by positivity
      unfold nearestDouble
      rw [hUnits]
      have hRound := roundHalfEven_mono
        (div_le_div_of_nonneg_right h hUnit.le)
      exact mul_le_mul_of_nonneg_right (by exact_mod_cast hRound) hUnit.le
    · -- A power of two stands between numbers with different units.
      have hBinade : x < 2 ^ Int.log 2 y := by
        have hHigh : x < (2 : ℚ) ^ (Int.log 2 x + 1) :=
          Int.lt_zpow_succ_log_self (b := 2) (by decide) x
        exact hHigh.trans_le (zpow_le_zpow_right₀ (by norm_num) (by omega))
      exact (nearestDouble_le hx.le hBinade (by omega)).trans
        (le_nearestDouble hy (by omega))

end Double

end MioBench.Lib
