import Mathlib.Data.List.DropRight
import Mathlib.Data.Rat.Defs
import MioBench.Lib.Numeral

/-!
# Python as the scripts use it

The scripts under `scripts/` read texts with `re`, `int` and `float`.  What these
do with ASCII characters is fixed here.  Which characters beyond ASCII are digits,
spaces or letters, how many digits `int` accepts and what a `float` can hold depend
on the interpreter and are parameters.
-/

namespace MioBench.Scripts

/-- What depends on the interpreter. -/
structure Python where
  /-- The values of the decimal digits beyond ASCII. -/
  unicodeDecimal : Char → Option Nat
  unicodeSpace : Char → Bool
  unicodeAlnum : Char → Bool
  /-- `sys.get_int_max_str_digits()`, where 0 is no limit. -/
  int_max_str_digits : Nat
  Double : Type
  /-- The double next to a number. -/
  toDouble : ℚ → Double

/-- The exceptions that the scripts let through. -/
inductive PyError
  | valueError
  | indexError
  | osError
  deriving DecidableEq, Repr

/-- A computation returns where both of its parts do. -/
theorem bind_ok_iff {α β : Type} {x : Except PyError α}
    {f : α → Except PyError β} {b : β} :
    (x >>= f) = .ok b ↔ ∃ a, x = .ok a ∧ f a = .ok b := by
  cases x with
  | error e =>
      constructor
      · intro h
        cases h
      · rintro ⟨a, ha, -⟩
        cases ha
  | ok a =>
      constructor
      · intro h
        exact ⟨a, rfl, h⟩
      · rintro ⟨a', ha, h⟩
        cases ha
        exact h

theorem map_ok_iff {α β : Type} {x : Except PyError α} {f : α → β} {b : β} :
    x.map f = .ok b ↔ ∃ a, x = .ok a ∧ b = f a := by
  cases x with
  | error e =>
      constructor
      · intro h
        cases h
      · rintro ⟨a, ha, -⟩
        cases ha
  | ok a =>
      constructor
      · intro h
        cases h
        exact ⟨a, rfl, rfl⟩
      · rintro ⟨a', ha, rfl⟩
        cases ha
        rfl

theorem ok_of_toOption {α : Type} {x : Except PyError α} {a : α}
    (h : x.toOption = some a) : x = .ok a := by
  cases x with
  | error e => cases h
  | ok b =>
      cases h
      rfl

namespace Python

variable (py : Python)

/-! ## Characters -/

/-- The value of a decimal digit. -/
def decimal (c : Char) : Option Nat :=
  if c.toNat < 128 then
    if c.isDigit then some (c.toNat - 48) else none
  else py.unicodeDecimal c

/-- `\d`, and `str.isdecimal`. -/
def isDecimal (c : Char) : Bool := (py.decimal c).isSome

/-- `\s`, and `str.isspace`. -/
def isSpace (c : Char) : Bool :=
  if c.toNat < 128 then
    (9 ≤ c.toNat && c.toNat ≤ 13) || (28 ≤ c.toNat && c.toNat ≤ 32)
  else py.unicodeSpace c

/-- `\w` -/
def isWord (c : Char) : Bool :=
  if c.toNat < 128 then c.isAlphanum || c == '_' else py.unicodeAlnum c

/-- `str.rstrip` -/
def rstrip (s : List Char) : List Char := s.rdropWhile py.isSpace

/-! ## Numbers -/

def digitsValue (digits : List Char) : Nat :=
  digits.foldl (fun v c => 10 * v + (py.decimal c).getD 0) 0

/-- `int`, of a text of decimal digits. -/
def int (s : List Char) : Except PyError Nat :=
  if s = [] ∨ s.all py.isDecimal = false then .error .valueError
  else if 0 < py.int_max_str_digits ∧ py.int_max_str_digits < s.length then
    .error .valueError
  else .ok (py.digitsValue s)

/-- `float`, of a text of decimal digits and points: there is a digit and there is
no second point. -/
def float (s : List Char) : Except PyError py.Double :=
  let whole := s.takeWhile py.isDecimal
  let fraction := (s.dropWhile py.isDecimal).tail
  if s = whole ∨ s = whole ++ '.' :: fraction then
    if whole ++ fraction ≠ [] ∧ fraction.all py.isDecimal = true then
      .ok (py.toDouble (py.digitsValue (whole ++ fraction) / 10 ^ fraction.length))
    else .error .valueError
  else .error .valueError

variable {py}

theorem decimal_of_isDigit {c : Char} (h : c.isDigit = true) :
    py.decimal c = some (c.toNat - 48) := by
  have hAscii : c.toNat < 128 := by
    have hHigh := (Char.isDigit_iff_toNat.mp h).2
    have hNine : '9'.toNat = 57 := rfl
    omega
  rw [decimal, if_pos hAscii, if_pos h]

theorem isDecimal_of_isDigit {c : Char} (h : c.isDigit = true) :
    py.isDecimal c = true := by
  rw [isDecimal, decimal_of_isDigit h]
  rfl

/-- The digits `0` to `9` are read as C reads them. -/
theorem digitsValue_eq {digits : List Char}
    (h : ∀ c ∈ digits, c.isDigit = true) :
    py.digitsValue digits = Lib.decimal digits := by
  unfold digitsValue Lib.decimal
  apply List.foldl_ext
  intro v c hc
  rw [decimal_of_isDigit (h c hc), Option.getD_some]

/-- `int` reads a number from its digits, unless there are too many. -/
theorem int_of_isDigit {digits : List Char} (hNe : digits ≠ [])
    (hDigits : ∀ c ∈ digits, c.isDigit = true) :
    py.int digits =
      if 0 < py.int_max_str_digits ∧ py.int_max_str_digits < digits.length then
        .error .valueError
      else .ok (Lib.decimal digits) := by
  have hAll : digits.all py.isDecimal = true := by
    rw [List.all_eq_true]
    exact fun c hc => isDecimal_of_isDigit (hDigits c hc)
  have hText : ¬ (digits = [] ∨ digits.all py.isDecimal = false) := by
    rw [hAll]
    simp [hNe]
  rw [int, if_neg hText, digitsValue_eq hDigits]

end Python

/-- An interpreter that knows no digits, spaces or letters beyond ASCII, with the
default limit of `int` and exact numbers for doubles. -/
def asciiPython : Python where
  unicodeDecimal _ := none
  unicodeSpace _ := false
  unicodeAlnum _ := false
  int_max_str_digits := 4300
  Double := ℚ
  toDouble q := q

end MioBench.Scripts
