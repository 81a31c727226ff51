import Mathlib.Data.Int.Log
import Mathlib.Tactic.Linarith
import Mathlib.Tactic.NormNum
import MioBench.Lib.Rounding

/-!
# The latency log

`saveLatencyLog` of `latency_measure.cpp` writes each sample with `operator<<`
of an output stream, whose default is `%g`: six significant digits, no zeros at
the end, and an exponent when it is below -4 or above 5.
-/

namespace MioBench.Bench

open MioBench.Lib

/-- The exponent and the digits of a positive number in scientific notation with
six digits. -/
def sixDigits (x : ℚ) : ℤ × Nat :=
  let exponent := Int.log 10 x
  let digits := roundHalfEven (x / 10 ^ (exponent - 5))
  if digits = 10 ^ 6 then (exponent + 1, 10 ^ 5) else (exponent, digits)

/-- `ofs << x`, for a positive number. -/
def ostreamDouble (x : ℚ) : DecimalText :=
  let exponent := (sixDigits x).1
  let digits := lastDigits 6 (sixDigits x).2
  have hDigits : ∀ c ∈ digits, c.isDigit = true := isDigit_lastDigits 6 _
  if 0 ≤ exponent ∧ exponent < 6 then
    .stripped (digits.take (exponent.toNat + 1)) (digits.drop (exponent.toNat + 1))
      none (by rw [ne_eq, List.take_eq_nil_iff]; simp [digits, lastDigits])
      (fun c hc => hDigits c (List.mem_of_mem_take hc))
      (fun c hc => hDigits c (List.mem_of_mem_drop hc))
  else if -4 ≤ exponent ∧ exponent < 0 then
    .stripped ['0'] (List.replicate (-exponent - 1).toNat '0' ++ digits) none
      (by simp) (by simp)
      (fun c hc => (List.mem_append.mp hc).elim
        (fun hZero => by rw [List.eq_of_mem_replicate hZero]; rfl) (hDigits c))
  else
    .stripped (digits.take 1) (digits.drop 1) (some exponent)
      (by rw [ne_eq, List.take_eq_nil_iff]; simp [digits, lastDigits])
      (fun c hc => hDigits c (List.mem_of_mem_take hc))
      (fun c hc => hDigits c (List.mem_of_mem_drop hc))

example : (ostreamDouble 1234567).text = "1.23457e+06".toList := by
  decide +kernel

/-- The lines of the file; `global_latencies` is given in nanoseconds. -/
def saveLatencyLog (global_latencies : List ℚ) (cpu_freq_ghz : ℚ) :
    List (List Char) :=
  ["# Latency Log (ns)".toList,
    "# Samples: ".toList ++ allDigits 1 global_latencies.length,
    "# CPU Frequency: ".toList ++ (ostreamDouble cpu_freq_ghz).text ++
      " GHz".toList] ++
  global_latencies.map fun ns => (ostreamDouble ns).text

/-! ## What is printed -/

section Printed

variable {x : ℚ}

/-- The number with its point behind the sixth digit. -/
theorem scaled_bounds (hx : 0 < x) :
    10 ^ 5 ≤ x / 10 ^ (Int.log 10 x - 5) ∧
      x / 10 ^ (Int.log 10 x - 5) < 10 ^ 6 := by
  have hLow : (10 : ℚ) ^ Int.log 10 x ≤ x :=
    Int.zpow_log_le_self (b := 10) (by decide) hx
  have hHigh : x < (10 : ℚ) ^ (Int.log 10 x + 1) :=
    Int.lt_zpow_succ_log_self (b := 10) (by decide) x
  have hUnit : (0 : ℚ) < 10 ^ (Int.log 10 x - 5) := by positivity
  have hFive : (10 : ℚ) ^ 5 * 10 ^ (Int.log 10 x - 5) = 10 ^ Int.log 10 x := by
    rw [← zpow_natCast, ← zpow_add₀ (by norm_num)]
    congr 1
    push_cast
    ring
  have hSix : (10 : ℚ) ^ 6 * 10 ^ (Int.log 10 x - 5) =
      10 ^ (Int.log 10 x + 1) := by
    rw [← zpow_natCast, ← zpow_add₀ (by norm_num)]
    congr 1
    push_cast
    ring
  exact ⟨(le_div_iff₀ hUnit).mpr (hFive ▸ hLow),
    (div_lt_iff₀ hUnit).mpr (hSix ▸ hHigh)⟩

theorem sixDigits_bounds (hx : 0 < x) :
    10 ^ 5 ≤ (sixDigits x).2 ∧ (sixDigits x).2 < 10 ^ 6 := by
  obtain ⟨hLow, hHigh⟩ := scaled_bounds hx
  have hLeast : 10 ^ 5 ≤ roundHalfEven (x / 10 ^ (Int.log 10 x - 5)) :=
    le_roundHalfEven (by exact_mod_cast hLow)
  have hMost : roundHalfEven (x / 10 ^ (Int.log 10 x - 5)) ≤ 10 ^ 6 :=
    roundHalfEven_le (le_trans (by positivity) hLow) (by exact_mod_cast hHigh)
  dsimp only [sixDigits]
  split
  · exact ⟨Nat.le_refl _, Nat.pow_lt_pow_right (by decide) (by decide)⟩
  · rename_i hNot
    exact ⟨hLeast, lt_of_le_of_ne hMost hNot⟩

theorem div_pow_eq {n : Nat} {e : ℤ} (m : ℚ) (h : e = -(n : ℤ)) :
    m / 10 ^ n = m * 10 ^ e := by
  rw [h, zpow_neg, zpow_natCast, div_eq_mul_inv]

/-- The text stands for the six digits at their place. -/
theorem ostreamDouble_value (hx : 0 < x) :
    (ostreamDouble x).value =
      (sixDigits x).2 * 10 ^ ((sixDigits x).1 - 5) := by
  have hDecimal := decimal_lastDigits (sixDigits_bounds hx).2
  dsimp only [ostreamDouble]
  split
  · rename_i hFixed
    rw [DecimalText.value_of_fixed rfl, DecimalText.significand_stripped,
      List.take_append_drop, hDecimal, List.length_drop, length_lastDigits]
    exact div_pow_eq _ (by omega)
  · rename_i hNotFixed
    split
    · rename_i hSmall
      rw [DecimalText.value_of_fixed rfl, DecimalText.significand_stripped,
        List.length_append, List.length_replicate, length_lastDigits,
        ← List.append_assoc, decimal_append, hDecimal, decimal_append,
        decimal_zeros]
      have hZero : decimal ['0'] = 0 := rfl
      rw [hZero, Nat.zero_mul, Nat.zero_add, Nat.zero_mul, Nat.zero_add]
      exact div_pow_eq _ (by omega)
    · rw [DecimalText.value, DecimalText.significand_stripped,
        List.take_append_drop, hDecimal, List.length_drop, length_lastDigits]
      show _ / (10 : ℚ) ^ 5 * 10 ^ (sixDigits x).1 = _
      rw [div_pow_eq _ (show (-5 : ℤ) = -((5 : Nat) : ℤ) by rfl), mul_assoc,
        ← zpow_add₀ (by norm_num)]
      congr 2
      ring

/-- It is positive. -/
theorem ostreamDouble_pos (hx : 0 < x) : 0 < (ostreamDouble x).value := by
  have hDigits : (0 : ℚ) < (sixDigits x).2 := by
    have hLow := (sixDigits_bounds hx).1
    exact_mod_cast Nat.lt_of_lt_of_le (by decide) hLow
  rw [ostreamDouble_value hx]
  positivity

/-- There is no exponent in the range of the fixed notation. -/
theorem ostreamDouble_fixed (hLow : 1 / 10 ^ 4 ≤ x) (hHigh : x < 10 ^ 6 - 1 / 2) :
    (ostreamDouble x).exponent = none := by
  have hx : 0 < x := lt_of_lt_of_le (by norm_num) hLow
  have hLeast : -4 ≤ Int.log 10 x := by
    rw [← Int.zpow_le_iff_le_log (by decide) hx]
    norm_num at hLow ⊢
    exact hLow
  have hMost : Int.log 10 x < 6 := by
    rw [← Int.lt_zpow_iff_log_lt (by decide) hx]
    norm_num
    linarith
  have hExponent : -4 ≤ (sixDigits x).1 ∧ (sixDigits x).1 < 6 := by
    dsimp only [sixDigits]
    split
    · rename_i hCarry
      refine ⟨by dsimp only; omega, ?_⟩
      by_contra hNot
      have hFive : Int.log 10 x = 5 := by
        dsimp only at hNot
        omega
      have hRound := @roundHalfEven_lt (10 ^ 6) x hx.le (by exact_mod_cast hHigh)
      rw [hFive] at hCarry
      norm_num at hCarry hRound
      omega
    · exact ⟨hLeast, hMost⟩
  dsimp only [ostreamDouble]
  split
  · rfl
  · rename_i hNotFixed
    split
    · rfl
    · rename_i hNotSmall
      omega

end Printed

end MioBench.Bench
