import MioBench.Lib.Tokens

/-!
# Decimal numerals in text

What the scanners of the C library have in common: blanks are skipped, a sign
is taken, then as many digits as there are.  `Numeral` says what a text looks
like that starts with a numeral, and `scan` finds it.
-/

namespace MioBench.Lib

/-- The value of digits, highest first. -/
def decimal (digits : List Char) : Nat :=
  digits.foldl (fun v c => 10 * v + (c.toNat - 48)) 0

inductive Sign
  | absent
  | plus
  | minus
  deriving DecidableEq, Repr

def Sign.text : Sign → List Char
  | .absent => []
  | .plus => ['+']
  | .minus => ['-']

/-- `s` is blanks, a sign, digits and a rest that does not go on with a
digit. -/
structure Numeral (blank : Char → Bool) (s : List Char) (sign : Sign)
    (digits rest : List Char) : Prop where
  text : ∃ blanks, (∀ c ∈ blanks, blank c = true) ∧
    s = blanks ++ (sign.text ++ (digits ++ rest))
  digits_ne : digits ≠ []
  digits_all : ∀ c ∈ digits, c.isDigit = true
  stop : ∀ c, rest.head? = some c → c.isDigit = false

/-- What stands in front of the digits. -/
def signOf : List Char → Sign × List Char
  | '+' :: number => (.plus, number)
  | '-' :: number => (.minus, number)
  | number => (.absent, number)

/-- Skip blanks, take a sign, take digits. -/
def scan (blank : Char → Bool) (s : List Char) : Sign × List Char × List Char :=
  let body := signOf (s.dropWhile blank)
  (body.1, body.2.takeWhile Char.isDigit, body.2.dropWhile Char.isDigit)

/-! ## Scanning -/

theorem signOf_text (number : List Char) :
    (signOf number).1.text ++ (signOf number).2 = number := by
  unfold signOf
  split <;> rfl

/-- The sign is settled by the first character. -/
theorem signOf_eq (number : List Char) :
    signOf number =
      (if number.head? = some '-' then .minus
        else if number.head? = some '+' then .plus else .absent,
      if number.head? = some '-' ∨ number.head? = some '+' then number.tail
        else number) := by
  cases number with
  | nil => rfl
  | cons c number =>
      by_cases hMinus : c = '-'
      · subst c
        rfl
      · by_cases hPlus : c = '+'
        · subst c
          rfl
        · simp [signOf, hMinus, hPlus]

/-- A digit is not a sign. -/
theorem signOf_append {sign : Sign} {number : List Char}
    (hHead : ∃ c, number.head? = some c ∧ c.isDigit = true) :
    signOf (sign.text ++ number) = (sign, number) := by
  obtain ⟨c, hc, hDigit⟩ := hHead
  cases number with
  | nil => cases hc
  | cons a number =>
      obtain rfl : a = c := by simpa using hc
      cases sign with
      | plus => rfl
      | minus => rfl
      | absent =>
          have hPlus : a ≠ '+' := by
            intro hEq
            exact absurd (hEq ▸ hDigit) (by decide)
          have hMinus : a ≠ '-' := by
            intro hEq
            exact absurd (hEq ▸ hDigit) (by decide)
          simp [Sign.text, signOf_eq, hPlus, hMinus]

/-- A scanner whose blanks are neither signs nor digits finds the numeral at
the head of a text, and nothing else. -/
theorem scan_eq_iff {blank : Char → Bool}
    (hDigit : ∀ c, c.isDigit = true → blank c = false)
    (hPlus : blank '+' = false) (hMinus : blank '-' = false) {s : List Char}
    {sign : Sign} {digits rest : List Char} :
    scan blank s = (sign, digits, rest) ∧ digits ≠ [] ↔
      Numeral blank s sign digits rest := by
  constructor
  · rintro ⟨hScan, hNe⟩
    obtain ⟨hSign, hRun⟩ := Prod.mk.inj hScan
    obtain ⟨hDigits, hRest⟩ := Prod.mk.inj hRun
    refine ⟨⟨s.takeWhile blank, ?_, ?_⟩, hNe, ?_, ?_⟩
    · intro c hc
      exact List.mem_takeWhile_imp hc
    · rw [← hDigits, ← hRest, List.takeWhile_append_dropWhile, ← hSign,
        signOf_text, List.takeWhile_append_dropWhile]
    · intro c hc
      rw [← hDigits] at hc
      exact List.mem_takeWhile_imp hc
    · intro c hc
      rw [← hRest] at hc
      exact head_dropWhile _ c hc
  · intro h
    obtain ⟨blanks, hBlanks, rfl⟩ := h.text
    refine ⟨?_, h.digits_ne⟩
    have hHead : ∃ c, (digits ++ rest).head? = some c ∧ c.isDigit = true := by
      cases digits with
      | nil => exact absurd rfl h.digits_ne
      | cons c digits => exact ⟨c, rfl, h.digits_all c List.mem_cons_self⟩
    have hBody : (blanks ++ (sign.text ++ (digits ++ rest))).dropWhile blank =
        sign.text ++ (digits ++ rest) := by
      apply dropWhile_run hBlanks
      intro c hc
      cases sign with
      | plus =>
          obtain rfl : '+' = c := by simpa [Sign.text] using hc
          exact hPlus
      | minus =>
          obtain rfl : '-' = c := by simpa [Sign.text] using hc
          exact hMinus
      | absent =>
          obtain ⟨c', hc', hDigit'⟩ := hHead
          obtain rfl : c' = c := Option.some.inj (hc'.symm.trans hc)
          exact hDigit c' hDigit'
    rw [scan, hBody, signOf_append hHead]
    rw [takeWhile_run h.digits_all h.stop, dropWhile_run h.digits_all h.stop]

end MioBench.Lib
