import Mathlib.Data.List.Basic
import Mathlib.Data.Nat.ModEq

/-!
# Arithmetic that stops at a wrap

Unsigned operations of a fixed width that give `none` where the machine would
wrap.  A program written with them in place of the machine's is an account of
its own overflow freedom: it returns exactly when no operation wraps, and then
the two agree.
-/

namespace MioBench.Lib.Checked

universe u

/-- `a + b`. -/
def add (width a b : Nat) : Option Nat :=
  if a + b < 2 ^ width then some (a + b) else none

/-- `a - b`. -/
def sub (a b : Nat) : Option Nat := if b ≤ a then some (a - b) else none

/-- `a * b`. -/
def mul (width a b : Nat) : Option Nat :=
  if a * b < 2 ^ width then some (a * b) else none

section Operations

variable {width a b : Nat}

theorem add_eq (h : a + b < 2 ^ width) : add width a b = some (a + b) :=
  if_pos h

theorem sub_eq (h : b ≤ a) : sub a b = some (a - b) := if_pos h

theorem mul_eq (h : a * b < 2 ^ width) : mul width a b = some (a * b) :=
  if_pos h

end Operations

/-- `for (i = 0; i < n; i++)` around a body that may stop: the counter is
incremented after each round, the last one included. -/
def loop {α : Type u} (width n : Nat) (body : α → Nat → Option α) (a : α) :
    Option α :=
  (List.range n).foldlM
    (fun a i => (body a i).bind fun a => (add width i 1).map fun _ => a) a

/-- The rule for a loop that never stops: each round gives what the machine's
round gives, as long as an invariant holds that the rounds keep. -/
theorem loop_eq {α : Type u} {width n : Nat} {body : α → Nat → Option α}
    {round : α → Nat → α} (P : Nat → α → Prop) {a : α} (hStart : P 0 a)
    (hWidth : n < 2 ^ width)
    (hBody : ∀ i b, i < n → P i b →
      body b i = some (round b i) ∧ P (i + 1) (round b i)) :
    loop width n body a = some ((List.range n).foldl round a) ∧
      P n ((List.range n).foldl round a) := by
  -- The rounds below `k`, for every `k` up to `n`.
  have hRounds : ∀ k, k ≤ n →
      (List.range k).foldlM
        (fun a i => (body a i).bind fun a => (add width i 1).map fun _ => a) a =
        some ((List.range k).foldl round a) ∧
      P k ((List.range k).foldl round a) := by
    intro k
    induction k with
    | zero => exact fun _ => ⟨rfl, hStart⟩
    | succ k ih =>
        intro hk
        obtain ⟨hRun, hInv⟩ := ih (by omega)
        obtain ⟨hRound, hNext⟩ := hBody k _ (by omega) hInv
        rw [List.range_succ, List.foldlM_append, List.foldl_append, hRun]
        refine ⟨?_, hNext⟩
        simp [hRound, add_eq (show k + 1 < 2 ^ width by omega)]
  exact hRounds n (Nat.le_refl n)

end MioBench.Lib.Checked
