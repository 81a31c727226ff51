import Mathlib.Data.List.DropRight

/-!
# Hexadecimal text

What `%llx` prints and what `strtoull` reads back after a `0x`: digits in both
cases, up to the first character that is none.
-/

namespace MioBench.Lib

/-- The value of a hexadecimal digit. -/
def hexValue (c : Char) : Option Nat :=
  if '0' ≤ c ∧ c ≤ '9' then some (c.toNat - 48)
  else if 'a' ≤ c ∧ c ≤ 'f' then some (c.toNat - 87)
  else if 'A' ≤ c ∧ c ≤ 'F' then some (c.toNat - 55)
  else none

/-- `strtoull` behind the `0x`, from an accumulator on. -/
def ofHexFrom (acc : Nat) : List Char → Nat
  | [] => acc
  | c :: l =>
      match hexValue c with
      | some d => ofHexFrom (16 * acc + d) l
      | none => acc

/-- `%llx`. -/
def toHex (n : Nat) : List Char := Nat.toDigits 16 n

theorem hexValue_digitChar {d : Nat} (hd : d < 16) :
    hexValue d.digitChar = some d := by
  have hAll : ∀ d, d < 16 → hexValue (Nat.digitChar d) = some d := by decide
  exact hAll d hd

/-- A number is its leading digits and its last one. -/
theorem toHex_step {m d : Nat} (hd : d < 16) (hm : 0 < m) :
    toHex (16 * m + d) = toHex m ++ [d.digitChar] := by
  rw [toHex, ← Nat.toDigits_append_toDigits (by decide) hm hd,
    Nat.toDigits_of_lt_base hd]
  rfl

/-- Reading undoes printing, whatever stands behind the digits. -/
theorem ofHexFrom_toHex (n : Nat) (rest : List Char) :
    ofHexFrom 0 (toHex n ++ rest) = ofHexFrom n rest := by
  induction n using Nat.base_induction 16 (by decide) generalizing rest with
  | single d hd =>
      rw [toHex, Nat.toDigits_of_lt_base hd]
      simp [ofHexFrom, hexValue_digitChar hd]
  | digit m d hd hm ih =>
      rw [toHex_step hd hm, List.append_assoc, ih]
      simp [ofHexFrom, hexValue_digitChar hd]

theorem hexValue_of_mem_toHex {n : Nat} {c : Char} (h : c ∈ toHex n) :
    ∃ d, hexValue c = some d := by
  induction n using Nat.base_induction 16 (by decide) with
  | single d hd =>
      rw [toHex, Nat.toDigits_of_lt_base hd, List.mem_singleton] at h
      exact ⟨d, h ▸ hexValue_digitChar hd⟩
  | digit m d hd hm ih =>
      rw [toHex_step hd hm, List.mem_append, List.mem_singleton] at h
      rcases h with hLeading | hLast
      · exact ih hLeading
      · exact ⟨d, hLast ▸ hexValue_digitChar hd⟩

/-- Trimming what is no digit from behind a printed number leaves the digits. -/
theorem rdropWhile_toHex {p : Char → Bool} (hp : ∀ c, p c = true → hexValue c = none)
    {sep : Char} (hSep : p sep = true) (n : Nat) :
    List.rdropWhile p (toHex n ++ [sep]) = toHex n := by
  rw [List.rdropWhile_concat_pos p _ _ hSep, List.rdropWhile_eq_self_iff]
  intro hNonempty hBlank
  obtain ⟨d, hd⟩ := hexValue_of_mem_toHex (List.getLast_mem hNonempty)
  rw [hp _ hBlank] at hd
  cases hd

end MioBench.Lib
