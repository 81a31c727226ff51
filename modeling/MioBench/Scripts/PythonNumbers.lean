import MioBench.Lib.DecimalText
import MioBench.Lib.Words
import MioBench.Scripts.Python

/-!
# Texts that Python reads as numbers

`int` and `float` of any text, and `str.strip` and `str.split`, as the scripts
use them on lines that somebody else has written.
-/

namespace MioBench.Scripts

open Lib (signOf DecimalText)

/-- The doubles that are not next to a number, and the sign of a double. -/
structure Python.Special (py : Python) where
  inf : py.Double
  nan : py.Double
  neg : py.Double → py.Double

namespace Python

variable (py : Python)

/-- `str.strip` -/
def strip (s : List Char) : List Char := py.rstrip (s.dropWhile py.isSpace)

/-- `str.split` without an argument. -/
def split (s : List Char) : List (List Char) := Lib.wordsOf py.isSpace s

/-- Digits, single underscores between them; the underscores are left out. -/
def digitPart (s : List Char) : Option (List Char) :=
  let parts := s.splitOn '_'
  if parts.all fun part => part ≠ [] && part.all py.isDecimal then
    some parts.flatten
  else none

/-- As `digitPart`, but nothing is fine, too. -/
def optionalDigits (s : List Char) : Option (List Char) :=
  if s = [] then some [] else py.digitPart s

/-- `int` -/
def intText (s : List Char) : Except PyError ℤ :=
  match signOf (py.strip s) with
  | (sign, number) =>
      match py.digitPart number with
      | none => .error .valueError
      | some digits =>
          (py.int digits).map fun n : Nat => if sign = .minus then -(n : ℤ) else n

/-- What stands behind `e`. -/
def exponentOf : List Char → Option ℤ
  | [] => some 0
  | _ :: s =>
      match signOf s with
      | (sign, number) =>
          (py.digitPart number).map fun digits =>
            if sign = .minus then -(py.digitsValue digits : ℤ)
            else py.digitsValue digits

def isE (c : Char) : Bool := c == 'e' || c == 'E'

/-- A number without a sign, with digits before or behind the point. -/
def unsignedFloat (s : List Char) : Option ℚ := do
  let mantissa := s.takeWhile fun c => !isE c
  let exponent ← py.exponentOf (s.dropWhile fun c => !isE c)
  let whole ← py.optionalDigits (mantissa.takeWhile (· != '.'))
  let fraction ← py.optionalDigits (mantissa.dropWhile (· != '.')).tail
  if whole ++ fraction = [] then none
  else
    some (py.digitsValue (whole ++ fraction) / 10 ^ fraction.length *
      10 ^ exponent)

variable {py} in
/-- `float` -/
def floatText (special : py.Special) (s : List Char) :
    Except PyError py.Double :=
  match signOf (py.strip s) with
  | (sign, number) =>
      let signed := fun x => if sign = .minus then special.neg x else x
      let word := number.map Char.toLower
      if word = "inf".toList ∨ word = "infinity".toList then
        .ok (signed special.inf)
      else if word = "nan".toList then .ok (signed special.nan)
      else
        match py.unsignedFloat number with
        | none => .error .valueError
        | some q => .ok (signed (py.toDouble q))

end Python

/-! ## Words -/

section Words

variable {py : Python}

theorem split_rstrip (s : List Char) : py.split (py.rstrip s) = py.split s := by
  unfold Python.rstrip Python.split
  induction s using List.reverseRecOn with
  | nil => rfl
  | append_singleton s c ih =>
      by_cases hc : py.isSpace c = true
      · rw [List.rdropWhile_concat_pos _ _ _ hc, ih, Lib.wordsOf_append_sep _ hc,
          Lib.wordsOf_nil, List.append_nil]
      · rw [List.rdropWhile_concat_neg _ _ _ hc]

/-- Spaces around a text belong to no word. -/
theorem split_strip (s : List Char) : py.split (py.strip s) = py.split s := by
  rw [Python.strip, split_rstrip]
  exact Lib.wordsOf_dropWhile py.isSpace s

/-- A text that begins with a character that is no space keeps it. -/
theorem strip_cons {c : Char} (hc : py.isSpace c = false) (s : List Char) :
    ∃ s', py.strip (c :: s) = c :: s' := by
  have hDrop : (c :: s).dropWhile py.isSpace = c :: s := by
    rw [List.dropWhile_cons_of_neg (by simp [hc])]
  rw [Python.strip, hDrop]
  cases hText : py.rstrip (c :: s) with
  | nil =>
      have hSpaces := List.rdropWhile_eq_nil_iff.mp hText c List.mem_cons_self
      rw [hc] at hSpaces
      cases hSpaces
  | cons c' s' =>
      have hPrefix : c' :: s' <+: c :: s := by
        rw [← hText]
        exact List.rdropWhile_prefix _ _
      obtain rfl : c' = c := (List.cons_prefix_cons.mp hPrefix).1
      exact ⟨s', rfl⟩

end Words

/-! ## Plain texts -/

section Plain

variable {py : Python}

theorem isSpace_of_isDigit {c : Char} (h : c.isDigit = true) :
    py.isSpace c = false := by
  have hBounds := Char.isDigit_iff_toNat.mp h
  have hZero : '0'.toNat = 48 := rfl
  have hNine : '9'.toNat = 57 := rfl
  have hAscii : c.toNat < 128 := by omega
  rw [Python.isSpace, if_pos hAscii]
  simp only [Bool.or_eq_false_iff, Bool.and_eq_false_iff, decide_eq_false_iff_not]
  omega

theorem strip_of_not_isSpace {s : List Char}
    (h : ∀ c ∈ s, py.isSpace c = false) : py.strip s = s := by
  have hHead : s.dropWhile py.isSpace = s := by
    cases s with
    | nil => rfl
    | cons c s => simp [h c List.mem_cons_self]
  rw [Python.strip, hHead, Python.rstrip, List.rdropWhile_eq_self_iff]
  intro hNe
  rw [h _ (List.getLast_mem hNe)]
  exact Bool.false_ne_true

theorem digitPart_of_isDigit {digits : List Char} (hNe : digits ≠ [])
    (h : ∀ c ∈ digits, c.isDigit = true) : py.digitPart digits = some digits := by
  have hNone : ∀ c ∈ digits, (c == '_') = false := by
    intro c hc
    by_contra hUnderscore
    have hEq : c = '_' := by simpa using hUnderscore
    have hDigit := h c hc
    rw [hEq] at hDigit
    cases hDigit
  have hAll : digits.all py.isDecimal = true := by
    rw [List.all_eq_true]
    exact fun c hc => Python.isDecimal_of_isDigit (h c hc)
  rw [Python.digitPart, List.splitOn_eq_splitOnP,
    List.splitOnP_eq_singleton hNone]
  simp [hNe, hAll]

/-- A number in plain decimal is read back, unless it has too many digits. -/
theorem intText_plain (n : Nat) :
    py.intText (Lib.allDigits 1 n) =
      (py.int (Lib.allDigits 1 n)).map Int.ofNat := by
  have hDigits := Lib.isDigit_lastDigits (max 1 (Nat.log 10 n + 1)) n
  have hNe := Lib.allDigits_ne 1 n
  have hStrip : py.strip (Lib.allDigits 1 n) = Lib.allDigits 1 n :=
    strip_of_not_isSpace fun c hc => isSpace_of_isDigit (hDigits c hc)
  have hSign : signOf (Lib.allDigits 1 n) = (.absent, Lib.allDigits 1 n) :=
    @Lib.signOf_append .absent (Lib.allDigits 1 n) (by
      cases hText : Lib.allDigits 1 n with
      | nil => exact absurd hText hNe
      | cons c s => exact ⟨c, rfl, hDigits c (by
          show c ∈ Lib.allDigits 1 n
          rw [hText]
          exact List.mem_cons_self)⟩)
  have hPart : py.digitPart (Lib.allDigits 1 n) = some (Lib.allDigits 1 n) :=
    digitPart_of_isDigit hNe hDigits
  unfold Python.intText
  rw [hStrip, hSign]
  dsimp only
  rw [hPart]
  rfl

/-! ## Numbers with a point -/

variable {d : DecimalText}

theorem text_of_fixed (h : d.exponent = none) :
    d.text = d.whole ++ DecimalText.fractionText d.fraction := by
  rw [DecimalText.text, h]
  simp [DecimalText.exponentText]

/-- The characters of a number without an exponent. -/
theorem mem_text_of_fixed (h : d.exponent = none) {c : Char} (hc : c ∈ d.text) :
    c.isDigit = true ∨ c = '.' := by
  rw [text_of_fixed h] at hc
  rcases List.mem_append.mp hc with hWhole | hRest
  · exact Or.inl (d.whole_digits c hWhole)
  · unfold DecimalText.fractionText at hRest
    split at hRest
    · cases hRest
    · rcases List.mem_cons.mp hRest with hPoint | hFraction
      · exact Or.inr hPoint
      · exact Or.inl (d.fraction_digits c hFraction)

theorem isSpace_of_mem_text (h : d.exponent = none) {c : Char} (hc : c ∈ d.text) :
    py.isSpace c = false := by
  rcases mem_text_of_fixed h hc with hDigit | rfl
  · exact isSpace_of_isDigit hDigit
  · rfl

theorem toLower_of_isDigit {c : Char} (h : c.isDigit = true) : c.toLower = c := by
  have hBounds := Char.isDigit_iff_toNat.mp h
  have hNine : '9'.toNat = 57 := rfl
  unfold Char.toLower
  split
  · rename_i hUpper
    have hA : 'A'.val ≤ c.val := hUpper.1
    have hLow : 65 ≤ c.toNat := hA
    omega
  · rfl

/-- A number is not one of the words that `float` knows. -/
theorem map_toLower_ne {word : List Char} (hWord : ∃ c, word.head? = some c ∧
    c.isDigit = false) : d.text.map Char.toLower ≠ word := by
  obtain ⟨c, hHead, hDigit⟩ := d.head_text
  obtain ⟨c', hHead', hNoDigit⟩ := hWord
  intro hEq
  have hSame := congrArg List.head? hEq
  rw [List.head?_map, hHead, hHead', Option.map_some,
    toLower_of_isDigit hDigit, Option.some.injEq] at hSame
  rw [hSame, hNoDigit] at hDigit
  cases hDigit

theorem unsignedFloat_of_fixed (h : d.exponent = none) :
    py.unsignedFloat d.text = some d.value := by
  have hNoE : ∀ c ∈ d.text, (!Python.isE c) = true := by
    intro c hc
    rcases mem_text_of_fixed h hc with hDigit | rfl
    · by_contra hE
      have hEq : c = 'e' ∨ c = 'E' := by
        rw [Bool.not_eq_true', Bool.not_eq_false] at hE
        simpa [Python.isE] using hE
      rcases hEq with rfl | rfl
      · cases hDigit
      · cases hDigit
    · rfl
  have hNoPoint : ∀ c ∈ d.whole, (c != '.') = true := by
    intro c hc
    have hDigit := d.whole_digits c hc
    by_contra hPoint
    have hEq : c = '.' := by simpa using hPoint
    rw [hEq] at hDigit
    cases hDigit
  have hStop : ∀ c, (DecimalText.fractionText d.fraction).head? = some c →
      (c != '.') = false := by
    intro c hc
    unfold DecimalText.fractionText at hc
    split at hc
    · cases hc
    · obtain rfl : '.' = c := by simpa using hc
      rfl
  have hMantissa : d.text.takeWhile (fun c => !Python.isE c) = d.text :=
    List.takeWhile_eq_self_iff.mpr hNoE
  have hExponent : d.text.dropWhile (fun c => !Python.isE c) = [] :=
    List.dropWhile_eq_nil_iff.mpr hNoE
  have hWhole : d.text.takeWhile (· != '.') = d.whole := by
    rw [text_of_fixed h]
    exact Lib.takeWhile_run hNoPoint hStop
  have hFraction : (d.text.dropWhile (· != '.')).tail = d.fraction := by
    rw [text_of_fixed h, Lib.dropWhile_run hNoPoint hStop,
      DecimalText.fractionText]
    split
    · rename_i hNil
      rw [hNil]
      rfl
    · rfl
  have hOptional : ∀ digits : List Char, (∀ c ∈ digits, c.isDigit = true) →
      py.optionalDigits digits = some digits := by
    intro digits hDigits
    unfold Python.optionalDigits
    split
    · rename_i hNil
      rw [hNil]
    · rename_i hNe
      exact digitPart_of_isDigit hNe hDigits
  have hDigits : ∀ c ∈ d.whole ++ d.fraction, c.isDigit = true := by
    intro c hc
    rcases List.mem_append.mp hc with hc | hc
    · exact d.whole_digits c hc
    · exact d.fraction_digits c hc
  have hNe : d.whole ++ d.fraction ≠ [] := by simp [d.whole_ne]
  unfold Python.unsignedFloat
  dsimp only
  rw [hMantissa, hExponent, hWhole, hFraction, hOptional _ d.whole_digits,
    hOptional _ d.fraction_digits]
  simp only [Python.exponentOf, Option.bind_eq_bind, Option.bind_some, if_neg hNe]
  rw [Python.digitsValue_eq hDigits, DecimalText.value_of_fixed h,
    DecimalText.significand, Lib.fixedValue_eq, zpow_zero, mul_one]

/-- A number that C has printed in fixed notation is read back. -/
theorem floatText_of_fixed (special : py.Special) (h : d.exponent = none) :
    Python.floatText special d.text = .ok (py.toDouble d.value) := by
  have hStrip : py.strip d.text = d.text :=
    strip_of_not_isSpace fun c hc => isSpace_of_mem_text h hc
  have hSign : signOf d.text = (.absent, d.text) :=
    @Lib.signOf_append .absent d.text d.head_text
  have hInf : ¬ (d.text.map Char.toLower = "inf".toList ∨
      d.text.map Char.toLower = "infinity".toList) := by
    rintro (hEq | hEq)
    · exact map_toLower_ne ⟨'i', rfl, rfl⟩ hEq
    · exact map_toLower_ne ⟨'i', rfl, rfl⟩ hEq
  have hNan : d.text.map Char.toLower ≠ "nan".toList :=
    map_toLower_ne ⟨'n', rfl, rfl⟩
  unfold Python.floatText
  rw [hStrip, hSign]
  simp only [if_neg hInf, if_neg hNan, unsignedFloat_of_fixed h]
  rfl

end Plain

end MioBench.Scripts
