import Mathlib.Tactic.Common

/-!
# The lower bound search

`std::lower_bound` halves a range of positions until it knows where a property
that holds at the front of the range stops to hold.  On positions `0 .. n - 1`
the property changes at one boundary at most, and the search finds it.
-/

namespace MioBench.Lib

/-- The rounds of the search among the `len` positions from `first` on; each
leaves fewer of them, so that `len` rounds are enough. -/
def lowerBoundFrom (below : Nat → Bool) : (rounds first len : Nat) → Nat
  | 0, first, _ => first
  | rounds + 1, first, len =>
      if len = 0 then first
      else
        let half := len / 2
        if below (first + half) then
          lowerBoundFrom below rounds (first + half + 1) (len - half - 1)
        else
          lowerBoundFrom below rounds first half

/-- The first of `n` positions that is not `below`, or `n`. -/
def lowerBound (below : Nat → Bool) (n : Nat) : Nat := lowerBoundFrom below n 0 n

/-- What is below stays below towards the front. -/
def Downward (below : Nat → Bool) (n : Nat) : Prop :=
  ∀ i j, i ≤ j → j < n → below j = true → below i = true

/-- The positions before `r` are below, those from `r` on are not. -/
structure Boundary (below : Nat → Bool) (n r : Nat) : Prop where
  le : r ≤ n
  before : ∀ i, i < r → below i = true
  after : ∀ i, r ≤ i → i < n → below i = false

namespace Boundary

variable {below : Nat → Bool} {n r r' : Nat}

theorem unique (h : Boundary below n r) (h' : Boundary below n r') : r = r' := by
  have hLe := h.le
  have hLe' := h'.le
  rcases Nat.lt_trichotomy r r' with hLt | hEq | hGt
  · have hBelow := h'.before r hLt
    rw [h.after r (Nat.le_refl r) (by omega)] at hBelow
    cases hBelow
  · exact hEq
  · have hBelow := h.before r' hGt
    rw [h'.after r' (Nat.le_refl r') (by omega)] at hBelow
    cases hBelow

end Boundary

section Search

variable {below : Nat → Bool} {n : Nat}

/-- A position is the boundary if the one before it is below and it is not. -/
theorem boundary_iff (hDown : Downward below n) {r : Nat} (hr : r < n) :
    Boundary below n r ↔ (r = 0 ∨ below (r - 1) = true) ∧ below r = false := by
  constructor
  · intro h
    refine ⟨?_, h.after r (Nat.le_refl r) hr⟩
    rcases Nat.eq_zero_or_pos r with hZero | hPos
    · exact Or.inl hZero
    · exact Or.inr (h.before (r - 1) (by omega))
  · rintro ⟨hBefore, hAt⟩
    refine ⟨Nat.le_of_lt hr, fun i hi => ?_, fun i hi hin => ?_⟩
    · rcases hBefore with hZero | hBefore
      · omega
      · exact hDown i (r - 1) (by omega) (by omega) hBefore
    · by_contra hBelow
      rw [hDown r i hi hin (by simpa using hBelow)] at hAt
      cases hAt

/-- What lies outside the range that is left is known; the rounds keep this. -/
theorem lowerBoundFrom_boundary (hDown : Downward below n)
    {rounds first len : Nat} (hRounds : len ≤ rounds) (hRange : first + len ≤ n)
    (hBefore : ∀ i, i < first → below i = true)
    (hAfter : ∀ i, first + len ≤ i → i < n → below i = false) :
    Boundary below n (lowerBoundFrom below rounds first len) := by
  induction rounds generalizing first len with
  | zero =>
      obtain rfl : len = 0 := by omega
      exact ⟨hRange, hBefore, hAfter⟩
  | succ rounds ih =>
      rw [lowerBoundFrom]
      by_cases hLen : len = 0
      · subst hLen
        exact ⟨hRange, hBefore, hAfter⟩
      · rw [if_neg hLen]
        dsimp only
        have hHalf : first + len / 2 < n := by omega
        cases hMiddle : below (first + len / 2) with
        | true =>
            rw [if_pos rfl]
            refine ih (by omega) (by omega) (fun i hi => ?_) fun i hi hin => ?_
            · exact hDown i _ (by omega) hHalf hMiddle
            · exact hAfter i (by omega) hin
        | false =>
            rw [if_neg Bool.false_ne_true]
            refine ih (by omega) (by omega) hBefore fun i hi hin => ?_
            by_contra hBelow
            have hSame := hDown _ i hi hin (by simpa using hBelow)
            rw [hMiddle] at hSame
            cases hSame

theorem lowerBound_boundary (hDown : Downward below n) :
    Boundary below n (lowerBound below n) :=
  lowerBoundFrom_boundary hDown (Nat.le_refl n) (by omega)
    (fun i hi => absurd hi (Nat.not_lt_zero i)) fun i hi hin => by omega

/-- The search returns the boundary. -/
theorem lowerBound_eq_iff (hDown : Downward below n) (r : Nat) :
    lowerBound below n = r ↔ Boundary below n r := by
  have hBoundary := lowerBound_boundary hDown
  exact ⟨fun hEq => hEq ▸ hBoundary, hBoundary.unique⟩

/-- If the last position is not below, the search ends at a position. -/
theorem lowerBound_lt (hDown : Downward below n) (hn : 0 < n)
    (hLast : below (n - 1) = false) : lowerBound below n < n := by
  have hBoundary := lowerBound_boundary hDown
  have hLe := hBoundary.le
  by_contra hEnd
  rw [hBoundary.before (n - 1) (by omega)] at hLast
  cases hLast

end Search

end MioBench.Lib
