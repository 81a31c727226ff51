import MioBench.Lib.Numeral
import MioBench.Store.Args

/-!
# What a size argument means

The texts `parse_u32_arg` accepts, as a grammar: white space, a sign, digits
and a suffix.  `strtoull` takes a minus sign and negates in 64 bits, so a
number close enough below `2 ^ 64` comes back into the 32-bit range that the
caller checks; these are the only texts that do not mean what they say.
-/

namespace MioBench.Store

open MioBench.Lib

/-- `parse_u32_arg` with what it leaves in `*out`. -/
def parseU32ArgOut (value : List Char) (out : Nat) : Int × Nat :=
  match parseSize value with
  | none => (-1, out)
  | some v => if v = 0 ∨ 2 ^ 32 - 1 < v then (-1, out) else (0, v % 2 ^ 32)

/-- The option loop sees the same numbers. -/
theorem parseU32ArgOut_eq (name : String) (value : List Char) (out : Nat) :
    parseU32ArgOut value out =
      match parseU32Arg name value with
      | .error _ => (-1, out)
      | .ok v => (0, v) := by
  unfold parseU32ArgOut parseU32Arg
  cases parseSize value with
  | none => rfl
  | some v =>
      by_cases hBad : v = 0 ∨ 2 ^ 32 - 1 < v
      · simp only [if_pos hBad]
      · simp only [if_neg hBad]
        rw [Nat.mod_eq_of_lt (by omega)]

/-! ## The grammar -/

/-- The suffixes and their multipliers. -/
def sizeSuffixes : List (Char × Nat) :=
  [('k', 2 ^ 10), ('K', 2 ^ 10), ('m', 2 ^ 20), ('M', 2 ^ 20), ('g', 2 ^ 30),
    ('G', 2 ^ 30)]

/-- Nothing, or one suffix. -/
inductive Suffix : List Char → Nat → Prop
  | none : Suffix [] 1
  | one {c : Char} {mul : Nat} (h : (c, mul) ∈ sizeSuffixes) : Suffix [c] mul

/-- `s` is white space, a sign, digits of value `n` and at most one suffix of
multiplier `mul`. -/
def SizeText (s : List Char) (sign : Sign) (n mul : Nat) : Prop :=
  ∃ digits suffix, Numeral isSpace s sign digits suffix ∧ decimal digits = n ∧
    Suffix suffix mul

/-- `s` says `v`: no minus sign, and the exact product is `v`. -/
def Says (s : List Char) (v : Nat) : Prop :=
  ∃ sign n mul, sign ≠ .minus ∧ SizeText s sign n mul ∧ n * mul = v

/-- What a size argument is taken for: `parse_u32_arg` succeeds exactly when
`s` says a number from 1 to `UINT32_MAX`; then that is what it stores, and
otherwise it stores nothing. -/
def MeansWhatItSays (s : List Char) : Prop :=
  ∀ out,
    (∀ v, Says s v → 1 ≤ v ∧ v ≤ 2 ^ 32 - 1 → parseU32ArgOut s out = (0, v)) ∧
    ((¬ ∃ v, Says s v ∧ 1 ≤ v ∧ v ≤ 2 ^ 32 - 1) →
      parseU32ArgOut s out = (-1, out))

/-- A number with a minus sign whose negation in 64 bits, times the suffix, is
in the 32-bit range. -/
def NegatedIntoRange (s : List Char) : Prop :=
  ∃ n mul, SizeText s .minus n mul ∧ 1 ≤ n ∧ n < 2 ^ 64 ∧
    (2 ^ 64 - n) * mul ≤ 2 ^ 32 - 1

/-! ## What `strtoull` reads -/

theorem toNat_of_isDigit {c : Char} (h : c.isDigit = true) :
    48 ≤ c.toNat ∧ c.toNat ≤ 57 := by
  simp only [Char.isDigit, Bool.and_eq_true, decide_eq_true_eq, UInt32.le_iff_toNat_le]
    at h
  exact h

theorem isSpace_of_isDigit (c : Char) (h : c.isDigit = true) :
    isSpace c = false := by
  have hRange := toNat_of_isDigit h
  simp only [isSpace, Bool.or_eq_false_iff, Bool.and_eq_false_iff,
    decide_eq_false_iff_not, beq_eq_false_iff_ne]
  omega

/-- The scanner in `strtoull` finds the numeral at the head of a text. -/
theorem scan_isSpace_iff {s : List Char} {sign : Sign} {digits rest : List Char} :
    scan isSpace s = (sign, digits, rest) ∧ digits ≠ [] ↔
      Numeral isSpace s sign digits rest :=
  scan_eq_iff isSpace_of_isDigit (by decide) (by decide)

/-- What `strtoull` makes of a number below `2 ^ 64`. -/
def signed (sign : Sign) (n : Nat) : Nat :=
  if sign = .minus then (2 ^ 64 - n) % 2 ^ 64 else n

/-- `strtoull` in terms of the scanner. -/
theorem strtoull_eq_scan (s : List Char) :
    strtoull s =
      if (scan isSpace s).2.1 = [] then
        { value := 0, rest := s, converted := false, erange := false }
      else if 2 ^ 64 ≤ decimal (scan isSpace s).2.1 then
        { value := 2 ^ 64 - 1, rest := (scan isSpace s).2.2, converted := true
          erange := true }
      else
        { value := signed (scan isSpace s).1 (decimal (scan isSpace s).2.1)
          rest := (scan isSpace s).2.2, converted := true, erange := false } := by
  have hMinus : (signOf (s.dropWhile isSpace)).1 = .minus ↔
      (s.dropWhile isSpace).head? = some '-' := by
    rw [signOf_eq]
    split
    · simp [*]
    · split <;> simp [*]
  have hNumber : (signOf (s.dropWhile isSpace)).2 =
      if ((s.dropWhile isSpace).head? == some '-' ||
        (s.dropWhile isSpace).head? == some '+') = true
      then (s.dropWhile isSpace).tail else s.dropWhile isSpace := by
    simp [signOf_eq]
  simp only [strtoull, scan, signed, hMinus, hNumber, decimal, beq_iff_eq]

/-- On a numeral `strtoull` reads the sign and the digits, and stops at what
follows. -/
theorem strtoull_of_numeral {s : List Char} {sign : Sign}
    {digits rest : List Char} (h : Numeral isSpace s sign digits rest) :
    strtoull s =
      if 2 ^ 64 ≤ decimal digits then
        { value := 2 ^ 64 - 1, rest := rest, converted := true, erange := true }
      else
        { value := signed sign (decimal digits), rest := rest
          converted := true, erange := false } := by
  obtain ⟨hScan, hNe⟩ := scan_isSpace_iff.mpr h
  rw [strtoull_eq_scan, hScan]
  exact if_neg hNe

/-- Where it converts something there is a numeral. -/
theorem exists_numeral_of_converted {s : List Char}
    (h : (strtoull s).converted = true) :
    ∃ sign digits rest, Numeral isSpace s sign digits rest := by
  by_cases hNe : (scan isSpace s).2.1 = []
  · rw [strtoull_eq_scan, if_pos hNe] at h
    cases h
  · exact ⟨_, _, _, scan_isSpace_iff.mp ⟨rfl, hNe⟩⟩

/-! ## What the two parsers accept -/

theorem suffixMul_eq_some_iff {c : Char} {mul : Nat} :
    suffixMul c = some mul ↔ (c, mul) ∈ sizeSuffixes := by
  simp only [sizeSuffixes, List.mem_cons, Prod.mk.injEq, List.not_mem_nil,
    or_false]
  constructor
  · intro h
    unfold suffixMul at h
    split at h
    · rename_i hc
      obtain rfl := Option.some.inj h
      rcases hc with rfl | rfl <;> decide
    · split at h
      · rename_i hc
        obtain rfl := Option.some.inj h
        rcases hc with rfl | rfl <;> decide
      · split at h
        · rename_i hc
          obtain rfl := Option.some.inj h
          rcases hc with rfl | rfl <;> decide
        · cases h
  · rintro (⟨rfl, rfl⟩ | ⟨rfl, rfl⟩ | ⟨rfl, rfl⟩ | ⟨rfl, rfl⟩ | ⟨rfl, rfl⟩ |
      ⟨rfl, rfl⟩) <;> decide

theorem suffix_mul_pos {suffix : List Char} {mul : Nat} (h : Suffix suffix mul) :
    0 < mul := by
  cases h with
  | none => decide
  | one hMem =>
      simp only [sizeSuffixes, List.mem_cons, Prod.mk.injEq, List.not_mem_nil,
        or_false] at hMem
      omega

/-- The second half of `parse_size`: the number `v` and what follows it. -/
def scaled (v : Nat) : List Char → Option Nat
  | [] => some v
  | [c] =>
      match suffixMul c with
      | none => none
      | some mul => if (2 ^ 64 - 1) / mul < v then none else some (v * mul)
  | _ :: _ :: _ => none

/-- The test in front of the product keeps it in 64 bits. -/
theorem scaled_eq_some_iff {v w : Nat} (hv : v < 2 ^ 64) {rest : List Char} :
    scaled v rest = some w ↔
      ∃ mul, Suffix rest mul ∧ v * mul = w ∧ w < 2 ^ 64 := by
  match rest with
  | [] =>
      constructor
      · intro h
        obtain rfl : v = w := Option.some.inj h
        exact ⟨1, Suffix.none, Nat.mul_one v, hv⟩
      · rintro ⟨mul, hSuffix, hw, _⟩
        cases hSuffix with
        | none => exact congrArg some ((Nat.mul_one v).symm.trans hw)
  | [c] =>
      have hFits : ∀ mul, 0 < mul →
          (¬ (2 ^ 64 - 1) / mul < v ↔ v * mul < 2 ^ 64) := by
        intro mul hMul
        rw [Nat.not_lt, Nat.le_div_iff_mul_le hMul]
        omega
      constructor
      · intro h
        simp only [scaled] at h
        split at h
        · cases h
        · rename_i mul hMul
          have hSuffix := Suffix.one (suffixMul_eq_some_iff.mp hMul)
          split at h
          · cases h
          · rename_i hLe
            obtain rfl : v * mul = w := Option.some.inj h
            exact ⟨mul, hSuffix, rfl,
              (hFits mul (suffix_mul_pos hSuffix)).mp hLe⟩
      · rintro ⟨mul, hSuffix, rfl, hLt⟩
        have hPos := suffix_mul_pos hSuffix
        cases hSuffix with
        | one hMem =>
            simp only [scaled, suffixMul_eq_some_iff.mpr hMem]
            exact if_neg ((hFits mul hPos).mpr hLt)
  | _ :: _ :: _ =>
      constructor
      · intro h
        cases h
      · rintro ⟨mul, hSuffix, _⟩
        cases hSuffix

theorem parseSize_of_numeral {s : List Char} {sign : Sign}
    {digits rest : List Char} (h : Numeral isSpace s sign digits rest) :
    parseSize s =
      if 2 ^ 64 ≤ decimal digits then none
      else scaled (signed sign (decimal digits)) rest := by
  rw [parseSize, strtoull_of_numeral h]
  by_cases hBig : 2 ^ 64 ≤ decimal digits
  · simp only [hBig, ↓reduceIte, true_or]
  · simp only [hBig, ↓reduceIte, Bool.false_eq_true, not_true_eq_false, or_self]
    rfl

theorem signed_lt (sign : Sign) {n : Nat} (hn : n < 2 ^ 64) :
    signed sign n < 2 ^ 64 := by
  unfold signed
  split
  · exact Nat.mod_lt _ (by decide)
  · exact hn

/-- `parse_size` gives the product of the number `strtoull` read and the
multiplier of the suffix, where neither step leaves 64 bits. -/
theorem parseSize_eq_some_iff {s : List Char} {v : Nat} :
    parseSize s = some v ↔
      ∃ sign n mul, SizeText s sign n mul ∧ n < 2 ^ 64 ∧
        signed sign n * mul = v ∧ v < 2 ^ 64 := by
  constructor
  · intro h
    have hConverted : (strtoull s).converted = true := by
      by_contra hNot
      simp [parseSize, hNot] at h
    obtain ⟨sign, digits, rest, hNumeral⟩ := exists_numeral_of_converted hConverted
    rw [parseSize_of_numeral hNumeral] at h
    split at h
    · cases h
    · rename_i hSmall
      obtain ⟨mul, hSuffix, hv, hLt⟩ :=
        (scaled_eq_some_iff (signed_lt sign (Nat.lt_of_not_le hSmall))).mp h
      exact ⟨sign, decimal digits, mul, ⟨digits, rest, hNumeral, rfl, hSuffix⟩,
        Nat.lt_of_not_le hSmall, hv, hLt⟩
  · rintro ⟨sign, n, mul, ⟨digits, rest, hNumeral, rfl, hSuffix⟩, hn, hv, hLt⟩
    rw [parseSize_of_numeral hNumeral, if_neg (Nat.not_le_of_lt hn)]
    exact (scaled_eq_some_iff (signed_lt sign hn)).mpr ⟨mul, hSuffix, hv, hLt⟩

/-- A text has one sign. -/
theorem SizeText.sign_unique {s : List Char} {sign sign' : Sign}
    {n n' mul mul' : Nat} (h : SizeText s sign n mul)
    (h' : SizeText s sign' n' mul') : sign = sign' := by
  obtain ⟨digits, rest, hNumeral, _⟩ := h
  obtain ⟨digits', rest', hNumeral', _⟩ := h'
  have hScan := (scan_isSpace_iff.mpr hNumeral).1
  rw [(scan_isSpace_iff.mpr hNumeral').1] at hScan
  exact (Prod.mk.inj hScan).1.symm

/-! ## Arguments -/

theorem parseU32ArgOut_of_parseSize {s : List Char} {v : Nat}
    (h : parseSize s = some v) (hv : 1 ≤ v ∧ v ≤ 2 ^ 32 - 1) (out : Nat) :
    parseU32ArgOut s out = (0, v) := by
  rw [parseU32ArgOut, h]
  show (if v = 0 ∨ 2 ^ 32 - 1 < v then (-1, out) else (0, v % 2 ^ 32)) = (0, v)
  rw [if_neg (by omega), Nat.mod_eq_of_lt (by omega)]

/-- A text that says a number in range gives it. -/
theorem parseU32ArgOut_of_says {s : List Char} {v : Nat} (h : Says s v)
    (hv : 1 ≤ v ∧ v ≤ 2 ^ 32 - 1) (out : Nat) :
    parseU32ArgOut s out = (0, v) := by
  obtain ⟨sign, n, mul, hSign, hText, rfl⟩ := h
  have hPos : 0 < mul := by
    obtain ⟨_, _, _, _, hSuffix⟩ := hText
    exact suffix_mul_pos hSuffix
  have hn : n ≤ n * mul := Nat.le_mul_of_pos_right n hPos
  have hSigned : signed sign n = n := if_neg hSign
  have hSize : parseSize s = some (n * mul) := parseSize_eq_some_iff.mpr
    ⟨sign, n, mul, hText, by omega, by rw [hSigned], by omega⟩
  exact parseU32ArgOut_of_parseSize hSize hv out

/-- What is accepted without saying so has been negated into range. -/
theorem accepted_cases {s : List Char} {v : Nat} (h : parseSize s = some v)
    (hv : 1 ≤ v ∧ v ≤ 2 ^ 32 - 1) : Says s v ∨ NegatedIntoRange s := by
  obtain ⟨sign, n, mul, hText, hn, hProduct, _⟩ := parseSize_eq_some_iff.mp h
  by_cases hSign : sign = .minus
  · subst hSign
    have hPos : 1 ≤ n := by
      by_contra hZero
      obtain rfl : n = 0 := by omega
      simp [signed] at hProduct
      omega
    have hSigned : signed .minus n = 2 ^ 64 - n := by
      rw [signed, if_pos rfl, Nat.mod_eq_of_lt (by omega)]
    rw [hSigned] at hProduct
    exact Or.inr ⟨n, mul, hText, hPos, hn, by omega⟩
  · rw [signed, if_neg hSign] at hProduct
    exact Or.inl ⟨sign, n, mul, hSign, hText, hProduct⟩

/-- **Size arguments mean what they say**, except for the numbers with a minus
sign that come back into the 32-bit range. -/
theorem parseU32Arg_meansWhatItSays_iff (s : List Char) :
    MeansWhatItSays s ↔ ¬ NegatedIntoRange s := by
  constructor
  · rintro hMeans ⟨n, mul, hText, hPos, hn, hSmall⟩
    have hMul : 0 < mul := by
      obtain ⟨_, _, _, _, hSuffix⟩ := hText
      exact suffix_mul_pos hSuffix
    have hProduct : 1 ≤ (2 ^ 64 - n) * mul :=
      Nat.mul_pos (by omega) hMul
    have hSigned : signed .minus n = 2 ^ 64 - n := by
      rw [signed, if_pos rfl, Nat.mod_eq_of_lt (by omega)]
    have hSize : parseSize s = some ((2 ^ 64 - n) * mul) :=
      parseSize_eq_some_iff.mpr
        ⟨.minus, n, mul, hText, hn, by rw [hSigned], by omega⟩
    have hAccepted := parseU32ArgOut_of_parseSize hSize ⟨hProduct, hSmall⟩ 0
    have hRejected := (hMeans 0).2 (by
      rintro ⟨v, ⟨sign, n', mul', hSign, hText', _⟩, _⟩
      exact hSign (hText'.sign_unique hText))
    rw [hAccepted] at hRejected
    have hCode : (0 : Int) = -1 := congrArg Prod.fst hRejected
    omega
  · intro hNot out
    refine ⟨fun v hSays hv => parseU32ArgOut_of_says hSays hv out, ?_⟩
    intro hNone
    unfold parseU32ArgOut
    cases hSize : parseSize s with
    | none => rfl
    | some v =>
        by_cases hBad : v = 0 ∨ 2 ^ 32 - 1 < v
        · exact if_pos hBad
        · have hv : 1 ≤ v ∧ v ≤ 2 ^ 32 - 1 := by omega
          cases accepted_cases hSize hv with
          | inl hSays => exact absurd ⟨v, hSays, hv⟩ hNone
          | inr hNegated => exact absurd hNegated hNot

/-- `-18446744073709551615` is taken for 1. -/
theorem parseU32Arg_negated :
    parseU32ArgOut "-18446744073709551615".toList 7 = (0, 1) ∧
      ¬ MeansWhatItSays "-18446744073709551615".toList := by
  refine ⟨by decide, fun hMeans => ?_⟩
  have hText : SizeText "-18446744073709551615".toList .minus
      18446744073709551615 1 :=
    ⟨"18446744073709551615".toList, [],
      scan_isSpace_iff.mp ⟨by decide, by decide⟩, by decide, Suffix.none⟩
  have hRejected := (hMeans 7).2 (by
    rintro ⟨v, ⟨sign, n, mul, hSign, hText', _⟩, _⟩
    exact hSign (hText'.sign_unique hText))
  exact absurd hRejected (by decide)

end MioBench.Store
