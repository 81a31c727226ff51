import Mathlib.Data.List.GetD
import Mathlib.Data.Nat.ModEq

/-!
# Bytes in memory

A memory object is a function from offsets to bytes.  `fill` and `write` are
what `memset` and `memcpy` do to it, and a little-endian word is a list of
bytes with a value.  A structure of 64-bit fields in memory is `words` of the
list of its fields, and field `k` is read back by `word`.
-/

namespace MioBench.Lib

/-- The bytes of one object, by offset. -/
abbrev Memory := Nat → UInt8

namespace Memory

/-- `memset(dst, byte, n)`. -/
def fill (m : Memory) (dst : Nat) (byte : UInt8) (n : Nat) : Memory :=
  fun a => if dst ≤ a ∧ a < dst + n then byte else m a

/-- `n` bytes from `src`. -/
def read (m : Memory) (src n : Nat) : List UInt8 :=
  (List.range n).map fun i => m (src + i)

/-- `memcpy` of the given bytes to `dst`. -/
def write (m : Memory) (dst : Nat) (bytes : List UInt8) : Memory :=
  fun a =>
    if dst ≤ a ∧ a < dst + bytes.length then bytes.getD (a - dst) 0 else m a

theorem fill_inside (m : Memory) (dst : Nat) (byte : UInt8) {n i : Nat}
    (hi : i < n) : m.fill dst byte n (dst + i) = byte := by
  unfold fill
  rw [if_pos (by omega)]

theorem fill_outside (m : Memory) (dst : Nat) (byte : UInt8) {n a : Nat}
    (ha : a < dst ∨ dst + n ≤ a) : m.fill dst byte n a = m a := by
  unfold fill
  rw [if_neg (by omega)]

theorem write_inside (m : Memory) (dst : Nat) (bytes : List UInt8) {i : Nat}
    (hi : i < bytes.length) :
    m.write dst bytes (dst + i) = bytes.getD i 0 := by
  unfold write
  rw [if_pos (by omega), Nat.add_sub_cancel_left]

theorem write_outside (m : Memory) (dst : Nat) (bytes : List UInt8) {a : Nat}
    (ha : a < dst ∨ dst + bytes.length ≤ a) : m.write dst bytes a = m a := by
  unfold write
  rw [if_neg (by omega)]

@[simp] theorem length_read (m : Memory) (src n : Nat) :
    (m.read src n).length = n := by
  simp [read]

theorem getD_read (m : Memory) (src : Nat) {n i : Nat} (hi : i < n) :
    (m.read src n).getD i 0 = m (src + i) := by
  simp [read, List.getD, hi]

end Memory

/-! ## Little-endian words -/

/-- The `n` low bytes of `v`, lowest first. -/
def leBytes : (n : Nat) → (v : Nat) → List UInt8
  | 0, _ => []
  | n + 1, v => UInt8.ofNat v :: leBytes n (v / 256)

/-- The value of a word given by its bytes, lowest first. -/
def leValue : List UInt8 → Nat
  | [] => 0
  | byte :: bytes => byte.toNat + 256 * leValue bytes

@[simp] theorem length_leBytes (n v : Nat) : (leBytes n v).length = n := by
  induction n generalizing v with
  | zero => rfl
  | succ n ih => simp [leBytes, ih]

theorem leValue_leBytes (n v : Nat) : leValue (leBytes n v) = v % 256 ^ n := by
  induction n generalizing v with
  | zero => simp [leBytes, leValue, Nat.mod_one]
  | succ n ih =>
      show (UInt8.ofNat v).toNat + 256 * leValue (leBytes n (v / 256)) = _
      rw [ih, Nat.pow_succ, Nat.mul_comm (256 ^ n), Nat.mod_mul]
      simp

/-- Bytes are determined by their value. -/
theorem leBytes_leValue (bytes : List UInt8) :
    leBytes bytes.length (leValue bytes) = bytes := by
  induction bytes with
  | nil => rfl
  | cons byte bytes ih =>
      have hLt := byte.toNat_lt
      have hHead : UInt8.ofNat (byte.toNat + 256 * leValue bytes) = byte := by
        apply UInt8.toNat_inj.mp
        rw [UInt8.toNat_ofNat']
        omega
      have hTail : (byte.toNat + 256 * leValue bytes) / 256 = leValue bytes := by
        omega
      rw [List.length_cons, leValue, leBytes, hHead, hTail, ih]

/-- Words of `n` bytes one after the other. -/
def leWords (n : Nat) (fields : List Nat) : List UInt8 :=
  fields.flatMap (leBytes n)

@[simp] theorem length_leWords (n : Nat) (fields : List Nat) :
    (leWords n fields).length = n * fields.length := by
  induction fields with
  | nil => rfl
  | cons v fields ih =>
      show (leBytes n v ++ leWords n fields).length = _
      rw [List.length_append, length_leBytes, ih, List.length_cons, Nat.mul_succ]
      omega

theorem getD_leWords {n : Nat} {fields : List Nat} {k i : Nat}
    (hk : k < fields.length) (hi : i < n) :
    (leWords n fields).getD (n * k + i) 0 =
      (leBytes n (fields.getD k 0)).getD i 0 := by
  induction fields generalizing k with
  | nil => simp at hk
  | cons v fields ih =>
      show (leBytes n v ++ leWords n fields).getD (n * k + i) 0 = _
      cases k with
      | zero =>
          rw [List.getD_append _ _ _ _ (by simp; omega)]
          simp
      | succ k =>
          rw [Nat.mul_succ, List.getD_append_right _ _ _ _ (by simp; omega),
            length_leBytes, show n * k + n + i - n = n * k + i by omega,
            ih (by simpa using hk)]
          simp

/-- A word in memory is read back as it was written. -/
theorem leValue_of_leWords {m : Memory} {n src k : Nat} {fields : List Nat}
    (hBytes : ∀ i, i < n * fields.length →
      m (src + i) = (leWords n fields).getD i 0)
    (hk : k < fields.length) (hv : fields.getD k 0 < 256 ^ n) :
    leValue (m.read (src + n * k) n) = fields.getD k 0 := by
  have hInside : n * k + n ≤ n * fields.length := by
    rw [← Nat.mul_succ]
    exact Nat.mul_le_mul_left n hk
  have hRead : m.read (src + n * k) n = leBytes n (fields.getD k 0) := by
    apply List.ext_getElem
    · simp
    · intro i hi _
      have hi' : i < n := by simpa using hi
      have hByte := hBytes (n * k + i) (by omega)
      rw [getD_leWords hk hi'] at hByte
      simpa [Memory.read, Nat.add_assoc, List.getD, hi'] using hByte
  rw [hRead, leValue_leBytes]
  exact Nat.mod_eq_of_lt hv

/-- A structure of 64-bit fields. -/
def words (fields : List Nat) : List UInt8 := fields.flatMap (leBytes 8)

@[simp] theorem length_words (fields : List Nat) :
    (words fields).length = 8 * fields.length :=
  length_leWords 8 fields

/-- Field `k` of a structure of 64-bit fields at `src`. -/
def Memory.word (m : Memory) (src k : Nat) : Nat :=
  leValue (m.read (src + 8 * k) 8)

/-- A field of a structure in memory is read back as it was written. -/
theorem word_of_words {m : Memory} {src k : Nat} {fields : List Nat}
    (hBytes : ∀ i, i < 8 * fields.length →
      m (src + i) = (words fields).getD i 0)
    (hk : k < fields.length) (hv : fields.getD k 0 < 2 ^ 64) :
    m.word src k = fields.getD k 0 :=
  leValue_of_leWords hBytes hk hv

/-- A structure in memory has the given fields exactly when it has their
bytes. -/
theorem forall_word_iff {m : Memory} {src : Nat} {fields : List Nat}
    (hFields : ∀ k, k < fields.length → fields.getD k 0 < 2 ^ 64) :
    (∀ k, k < fields.length → m.word src k = fields.getD k 0) ↔
      ∀ i, i < 8 * fields.length → m (src + i) = (words fields).getD i 0 := by
  constructor
  · intro hWord i hi
    have hk : i / 8 < fields.length := Nat.div_lt_of_lt_mul hi
    have hRead : leBytes 8 (fields.getD (i / 8) 0) =
        m.read (src + 8 * (i / 8)) 8 := by
      rw [← hWord (i / 8) hk]
      have hBytes := leBytes_leValue (m.read (src + 8 * (i / 8)) 8)
      rwa [Memory.length_read] at hBytes
    have hByte := @getD_leWords 8 fields (i / 8) (i % 8) hk
      (Nat.mod_lt _ (by decide))
    rw [hRead, Memory.getD_read _ _ (Nat.mod_lt _ (by decide)), Nat.add_assoc,
      Nat.div_add_mod] at hByte
    exact hByte.symm
  · intro hBytes k hk
    exact word_of_words hBytes hk (hFields k hk)

end MioBench.Lib
