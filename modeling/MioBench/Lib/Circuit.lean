import Mathlib.Data.Nat.ModEq
import Mathlib.Dynamics.PeriodicPts.Defs

/-!
# Going round a circuit

A function that leads from each of finitely many distinct points to the next,
and from the last to the first, comes by at all of them before it is back
where it started.
-/

namespace MioBench.Lib

universe u

variable {α : Type u}

/-- `f` leads round the `n` points `p 0, .., p (n - 1)`. -/
structure Circuit (f : α → α) (n : Nat) (p : Nat → α) : Prop where
  next : ∀ i, i < n → f (p i) = p ((i + 1) % n)
  distinct : ∀ i j, i < n → j < n → p i = p j → i = j

namespace Circuit

variable {f : α → α} {n : Nat} {p : Nat → α} {s : Nat}

theorem iterate (h : Circuit f n p) (hs : s < n) (k : Nat) :
    f^[k] (p s) = p ((s + k) % n) := by
  induction k with
  | zero => rw [Nat.add_zero, Nat.mod_eq_of_lt hs, Function.iterate_zero_apply]
  | succ k ih =>
      have hLt : (s + k) % n < n := Nat.mod_lt _ (by omega)
      rw [Function.iterate_succ_apply', ih, h.next _ hLt, Nat.mod_add_mod]
      rfl

/-- A round ends where it began. -/
theorem iterate_self (h : Circuit f n p) (hs : s < n) : f^[n] (p s) = p s := by
  rw [h.iterate hs, Nat.add_mod_right, Nat.mod_eq_of_lt hs]

/-- Less than a round apart, no point is the same. -/
theorem iterate_ne (h : Circuit f n p) (hs : s < n) {j k : Nat} (hjk : j < k)
    (hk : k < n) : f^[j] (p s) ≠ f^[k] (p s) := by
  rw [h.iterate hs, h.iterate hs]
  intro hEq
  have hMod : (s + j) % n = (s + k) % n :=
    h.distinct _ _ (Nat.mod_lt _ (by omega)) (Nat.mod_lt _ (by omega)) hEq
  have hCongr : j ≡ k [MOD n] := Nat.ModEq.add_left_cancel' s hMod
  have hDvd : n ∣ k - j := (Nat.modEq_iff_dvd' hjk.le).mp hCongr
  have hLe := Nat.le_of_dvd (by omega) hDvd
  omega

/-- A round is the shortest way back. -/
theorem minimalPeriod_eq (h : Circuit f n p) (hs : s < n) :
    Function.minimalPeriod f (p s) = n := by
  have hPeriodic : Function.IsPeriodicPt f n (p s) := h.iterate_self hs
  have hPos : 0 < Function.minimalPeriod f (p s) :=
    hPeriodic.minimalPeriod_pos (by omega)
  refine Nat.le_antisymm (hPeriodic.minimalPeriod_le (by omega)) ?_
  by_contra hShort
  have hBack : f^[Function.minimalPeriod f (p s)] (p s) = p s :=
    Function.isPeriodicPt_minimalPeriod f (p s)
  exact h.iterate_ne hs hPos (by omega)
    ((Function.iterate_zero_apply f (p s)).trans hBack.symm)

end Circuit

end MioBench.Lib
