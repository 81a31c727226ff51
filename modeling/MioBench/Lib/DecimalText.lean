import Mathlib.Algebra.Order.Field.Power
import Mathlib.Data.List.DropRight
import Mathlib.Data.Nat.Log
import Mathlib.Data.Rat.Lemmas
import Mathlib.Tactic.FieldSimp
import Mathlib.Tactic.Positivity
import Mathlib.Tactic.Ring
import MioBench.Lib.Numeral

/-!
# Decimal numbers in text

A `DecimalText` is what printing a positive number gives: the digits in front
of the point, those behind it and perhaps an exponent.  Reading it back, with or
without its exponent, gives what it stands for.
-/

namespace MioBench.Lib

/-! ## Digits -/

section Digits

variable {digits digits' : List Char}

theorem foldl_decimal (v : Nat) (digits : List Char) :
    digits.foldl (fun v c => 10 * v + (c.toNat - 48)) v =
      v * 10 ^ digits.length + decimal digits := by
  induction digits generalizing v with
  | nil => simp [decimal]
  | cons c digits ih =>
      rw [decimal, List.foldl_cons, List.foldl_cons, ih, ih (10 * 0 + _),
        List.length_cons, Nat.pow_succ]
      ring

theorem decimal_append (digits digits' : List Char) :
    decimal (digits ++ digits') =
      decimal digits * 10 ^ digits'.length + decimal digits' := by
  rw [decimal, List.foldl_append, foldl_decimal]
  rfl

theorem decimal_zeros (n : Nat) : decimal (List.replicate n '0') = 0 := by
  induction n with
  | zero => rfl
  | succ n ih =>
      have hZero : decimal ['0'] = 0 := rfl
      rw [List.replicate_succ, ← List.singleton_append, decimal_append, ih, hZero,
        Nat.zero_mul]

/-- The character of a digit. -/
def digitChar (d : Nat) : Char := Char.ofNat (48 + d)

theorem digitChar_spec {d : Nat} (hd : d < 10) :
    (digitChar d).toNat - 48 = d ∧ (digitChar d).isDigit = true := by
  have hAll : ∀ d : Fin 10, (digitChar d).toNat - 48 = d ∧
      (digitChar d).isDigit = true := by decide
  exact hAll ⟨d, hd⟩

/-- The last `width` digits of a number. -/
def lastDigits : (width : Nat) → Nat → List Char
  | 0, _ => []
  | width + 1, n => lastDigits width (n / 10) ++ [digitChar (n % 10)]

@[simp] theorem length_lastDigits (width n : Nat) :
    (lastDigits width n).length = width := by
  induction width generalizing n with
  | zero => rfl
  | succ width ih => simp [lastDigits, ih]

theorem decimal_lastDigits {width n : Nat} (h : n < 10 ^ width) :
    decimal (lastDigits width n) = n := by
  induction width generalizing n with
  | zero =>
      obtain rfl : n = 0 := by simpa using h
      rfl
  | succ width ih =>
      have hHigh : n / 10 < 10 ^ width := by
        rw [Nat.pow_succ] at h
        exact Nat.div_lt_of_lt_mul (by rwa [Nat.mul_comm])
      have hLow : decimal [digitChar (n % 10)] = n % 10 := by
        have hDigit := (digitChar_spec (Nat.mod_lt n (show 0 < 10 by decide))).1
        simpa [decimal] using hDigit
      rw [lastDigits, decimal_append, ih hHigh, hLow]
      simp only [List.length_singleton, Nat.pow_one]
      omega

theorem isDigit_lastDigits (width n : Nat) :
    ∀ c ∈ lastDigits width n, c.isDigit = true := by
  induction width generalizing n with
  | zero => simp [lastDigits]
  | succ width ih =>
      intro c hc
      rcases List.mem_append.mp hc with hHigh | hLow
      · exact ih _ c hHigh
      · rw [List.mem_singleton.mp hLow]
        exact (digitChar_spec (Nat.mod_lt n (by decide))).2

/-- All digits of a number, and no fewer than `least`. -/
def allDigits (least n : Nat) : List Char :=
  lastDigits (max least (Nat.log 10 n + 1)) n

theorem decimal_allDigits (least n : Nat) : decimal (allDigits least n) = n := by
  apply decimal_lastDigits
  exact (Nat.lt_pow_succ_log_self (by decide) n).trans_le
    (Nat.pow_le_pow_right (by decide) (Nat.le_max_right _ _))

theorem allDigits_ne (least n : Nat) : allDigits least n ≠ [] := by
  intro hNil
  have hLength := congrArg List.length hNil
  rw [allDigits, length_lastDigits, List.length_nil] at hLength
  omega

end Digits

/-! ## Fractions -/

/-- The number whose digits in front of the point and behind it are given. -/
def fixedValue (whole fraction : List Char) : ℚ :=
  decimal whole + decimal fraction / 10 ^ fraction.length

theorem fixedValue_eq (whole fraction : List Char) :
    fixedValue whole fraction =
      decimal (whole ++ fraction) / 10 ^ fraction.length := by
  rw [fixedValue, decimal_append]
  push_cast
  field_simp

/-- The digits of a fraction, less the zeros at its end. -/
def stripZeros (fraction : List Char) : List Char :=
  fraction.rdropWhile (· == '0')

theorem fixedValue_stripZeros (whole fraction : List Char) :
    fixedValue whole (stripZeros fraction) = fixedValue whole fraction := by
  induction fraction using List.reverseRecOn with
  | nil => rfl
  | append_singleton fraction c ih =>
      by_cases hZero : c = '0'
      · subst hZero
        have hStrip : stripZeros (fraction ++ ['0']) = stripZeros fraction :=
          List.rdropWhile_concat_pos _ _ _ rfl
        have hDigit : decimal ['0'] = 0 := rfl
        rw [hStrip, ih, fixedValue, fixedValue, decimal_append, hDigit,
          List.length_append, List.length_singleton, pow_succ]
        push_cast
        field_simp
        ring
      · have hKeep : stripZeros (fraction ++ [c]) = fraction ++ [c] :=
          List.rdropWhile_concat_neg _ _ _ (by simpa using hZero)
        rw [hKeep]

theorem mem_stripZeros {fraction : List Char} {c : Char}
    (h : c ∈ stripZeros fraction) : c ∈ fraction :=
  (List.rdropWhile_prefix _ _).subset h

/-! ## Numbers -/

/-- A printed number. -/
structure DecimalText where
  whole : List Char
  fraction : List Char
  exponent : Option ℤ
  whole_ne : whole ≠ []
  whole_digits : ∀ c ∈ whole, c.isDigit = true
  fraction_digits : ∀ c ∈ fraction, c.isDigit = true

namespace DecimalText

/-- The point is there only in front of digits. -/
def fractionText (fraction : List Char) : List Char :=
  if fraction = [] then [] else '.' :: fraction

/-- A sign and two digits or more. -/
def exponentText : Option ℤ → List Char
  | none => []
  | some e =>
      'e' :: (if e < 0 then '-' else '+') :: allDigits 2 e.natAbs

def text (d : DecimalText) : List Char :=
  d.whole ++ (fractionText d.fraction ++ exponentText d.exponent)

/-- What stands in front of the exponent. -/
def significand (d : DecimalText) : ℚ := fixedValue d.whole d.fraction

def value (d : DecimalText) : ℚ :=
  d.significand * 10 ^ d.exponent.getD 0

/-- The text of given digits, less the zeros at the end of the fraction. -/
def stripped (whole fraction : List Char) (exponent : Option ℤ)
    (whole_ne : whole ≠ []) (whole_digits : ∀ c ∈ whole, c.isDigit = true)
    (fraction_digits : ∀ c ∈ fraction, c.isDigit = true) : DecimalText where
  whole := whole
  fraction := stripZeros fraction
  exponent := exponent
  whole_ne := whole_ne
  whole_digits := whole_digits
  fraction_digits := fun c hc => fraction_digits c (mem_stripZeros hc)

theorem significand_stripped {whole fraction : List Char} {exponent : Option ℤ}
    {hNe : whole ≠ []} {hWhole : ∀ c ∈ whole, c.isDigit = true}
    {hFraction : ∀ c ∈ fraction, c.isDigit = true} :
    (stripped whole fraction exponent hNe hWhole hFraction).significand =
      decimal (whole ++ fraction) / 10 ^ fraction.length := by
  rw [← fixedValue_eq, ← fixedValue_stripZeros]
  rfl

theorem value_of_fixed {d : DecimalText} (h : d.exponent = none) :
    d.value = d.significand := by
  simp [value, h]

end DecimalText

/-! ## Reading -/

/-- The digits at the head of a text, those behind a point, and the rest. -/
def leadingDecimal (s : List Char) : List Char × List Char × List Char :=
  match s.dropWhile Char.isDigit with
  | '.' :: rest =>
      (s.takeWhile Char.isDigit, rest.takeWhile Char.isDigit,
        rest.dropWhile Char.isDigit)
  | rest => (s.takeWhile Char.isDigit, [], rest)

/-- What is left of a number behind its digits, if it is nothing or an
exponent. -/
def readExponent : List Char → Option ℤ
  | [] => some 0
  | c :: s =>
      if c = 'e' ∨ c = 'E' then
        match signOf s with
        | (sign, digits) =>
            if digits ≠ [] ∧ digits.all Char.isDigit then
              some (if sign = .minus then -(decimal digits : ℤ) else decimal digits)
            else none
      else none

namespace DecimalText

variable (d : DecimalText)

theorem exponentText_stop (e : Option ℤ) (c : Char)
    (h : (exponentText e).head? = some c) : c.isDigit = false ∧ c ≠ '.' := by
  cases e with
  | none => cases h
  | some e =>
      obtain rfl : 'e' = c := by simpa [exponentText] using h
      exact ⟨by decide, by decide⟩

theorem leadingDecimal_text :
    leadingDecimal d.text = (d.whole, d.fraction, exponentText d.exponent) := by
  have hStop := exponentText_stop d.exponent
  have hBehind : ∀ c,
      (fractionText d.fraction ++ exponentText d.exponent).head? = some c →
        c.isDigit = false := by
    intro c hc
    unfold fractionText at hc
    split at hc
    · exact (hStop c hc).1
    · obtain rfl : '.' = c := by simpa using hc
      decide
  unfold leadingDecimal text
  rw [dropWhile_run d.whole_digits hBehind, takeWhile_run d.whole_digits hBehind]
  unfold fractionText
  by_cases hNone : d.fraction = []
  · rw [if_pos hNone, hNone, List.nil_append]
    split
    · rename_i rest hPoint
      exact absurd rfl (hStop '.' (by rw [hPoint]; rfl)).2
    · rfl
  · rw [if_neg hNone, List.cons_append]
    have hAfter : ∀ c, (exponentText d.exponent).head? = some c →
        c.isDigit = false := fun c hc => (hStop c hc).1
    show (d.whole, (d.fraction ++ exponentText d.exponent).takeWhile Char.isDigit,
      (d.fraction ++ exponentText d.exponent).dropWhile Char.isDigit) = _
    rw [dropWhile_run d.fraction_digits hAfter,
      takeWhile_run d.fraction_digits hAfter]

theorem readExponent_text (e : Option ℤ) :
    readExponent (exponentText e) = some (e.getD 0) := by
  cases e with
  | none => rfl
  | some e =>
      have hAll : (allDigits 2 e.natAbs).all Char.isDigit = true := by
        rw [List.all_eq_true]
        exact isDigit_lastDigits _ _
      have hNe := allDigits_ne 2 e.natAbs
      have hDecimal := decimal_allDigits 2 e.natAbs
      by_cases hNeg : e < 0
      · simp [exponentText, readExponent, signOf, hNeg, hAll, hNe, hDecimal,
          abs_of_neg hNeg]
      · have hAbs : (e.natAbs : ℤ) = e := by omega
        simp [exponentText, readExponent, signOf, hNeg, hAll, hNe, hDecimal, hAbs]

/-- The text starts with a digit. -/
theorem head_text : ∃ c, d.text.head? = some c ∧ c.isDigit = true := by
  have hDigits := d.whole_digits
  have hNe := d.whole_ne
  unfold text
  cases hWhole : d.whole with
  | nil => exact absurd hWhole hNe
  | cons c whole =>
      rw [hWhole] at hDigits
      exact ⟨c, rfl, hDigits c List.mem_cons_self⟩

/-- All characters of the text. -/
theorem mem_text {c : Char} (h : c ∈ d.text) :
    c.isDigit = true ∨ c = '.' ∨ c = 'e' ∨ c = '+' ∨ c = '-' := by
  rcases List.mem_append.mp h with hWhole | hRest
  · exact Or.inl (d.whole_digits c hWhole)
  · rcases List.mem_append.mp hRest with hFraction | hExponent
    · unfold fractionText at hFraction
      split at hFraction
      · cases hFraction
      · rcases List.mem_cons.mp hFraction with hPoint | hDigit
        · exact Or.inr (Or.inl hPoint)
        · exact Or.inl (d.fraction_digits c hDigit)
    · cases hSome : d.exponent with
      | none =>
          rw [hSome] at hExponent
          cases hExponent
      | some e =>
          rw [hSome, exponentText, List.mem_cons, List.mem_cons] at hExponent
          rcases hExponent with hE | hSign | hDigit
          · exact Or.inr (Or.inr (Or.inl hE))
          · split at hSign
            · exact Or.inr (Or.inr (Or.inr (Or.inr hSign)))
            · exact Or.inr (Or.inr (Or.inr (Or.inl hSign)))
          · exact Or.inl (isDigit_lastDigits _ _ c hDigit)

end DecimalText

end MioBench.Lib
