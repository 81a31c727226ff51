import MioBench.Lib.CallLoop
import MioBench.Store.Args

/-!
# The concurrency sweep of a round

The inner loop of `main` in `test2.c`: the number of readers doubles from 1 up
to `sweep_max`, and the sweeps from `sweep_min` on are run.  The counter has 32
bits; the loop leaves before a doubling would lose the top bit.
-/

namespace MioBench.Store

open MioBench.Lib

/-- The arguments of `run_one_sweep` that the loops of `main` choose. -/
structure SweepCall where
  round : Nat
  active_requests : Nat
  deriving DecidableEq, Repr

/-- The body of the loop: smaller concurrencies are passed over. -/
def sweepCalls (cfg : Cfg) (r c : Nat) : List SweepCall :=
  if cfg.sweep_min ≤ c then [{ round := r, active_requests := c }] else []

/-- `if (c > UINT32_MAX / 2) break; c <<= 1;` -/
def nextConcurrency (c : Nat) : Option Nat :=
  if (2 ^ 32 - 1) / 2 < c then none else some (c <<< 1 % 2 ^ 32)

/-- The inner loop of `main` in round `r`, for at most `fuel` values of `c`;
`ok` says whether the last of the sweeps run so far returned 0. -/
def sweepLoop (cfg : Cfg) (r : Nat) (ok : List SweepCall → Bool) (fuel : Nat) :
    List SweepCall × Exit :=
  callLoop ok (fun c => decide (c ≤ cfg.sweep_max)) (sweepCalls cfg r)
    nextConcurrency fuel 1 []

/-- The shift doubles; no bit is lost. -/
theorem nextConcurrency_eq {c d : Nat} (h : nextConcurrency c = some d) :
    d = 2 * c := by
  unfold nextConcurrency at h
  split at h
  · cases h
  · obtain rfl := Option.some.inj h
    rw [Nat.shiftLeft_eq, Nat.mod_eq_of_lt (by omega)]
    omega

theorem nextConcurrency_pow {k : Nat} (hk : k < 31) :
    nextConcurrency (2 ^ k) = some (2 ^ (k + 1)) := by
  have hLe : 2 ^ (k + 1) ≤ 2 ^ 31 := Nat.pow_le_pow_right (by decide) hk
  rw [Nat.pow_succ] at hLe ⊢
  rw [nextConcurrency, if_neg (by omega), Nat.shiftLeft_eq, Nat.pow_one,
    Nat.mod_eq_of_lt (by omega)]

/-- The powers of two from `2 ^ k` up to `max`, in order. -/
structure PowersFrom (max k : Nat) (powers : List Nat) : Prop where
  sorted : powers.Pairwise (· < ·)
  mem : ∀ c, c ∈ powers ↔ ∃ j, k ≤ j ∧ c = 2 ^ j ∧ c ≤ max

theorem PowersFrom.nil {max k : Nat} (h : max < 2 ^ k) :
    PowersFrom max k [] where
  sorted := List.Pairwise.nil
  mem := by
    intro c
    constructor
    · intro hc
      cases hc
    · rintro ⟨j, hj, rfl, hLe⟩
      have hPow : 2 ^ k ≤ 2 ^ j := Nat.pow_le_pow_right (by decide) hj
      omega

theorem PowersFrom.cons {max k : Nat} {powers : List Nat} (h : 2 ^ k ≤ max)
    (hRest : PowersFrom max (k + 1) powers) :
    PowersFrom max k (2 ^ k :: powers) where
  sorted := by
    refine List.Pairwise.cons ?_ hRest.sorted
    intro c hc
    obtain ⟨j, hj, rfl, _⟩ := (hRest.mem c).mp hc
    exact Nat.pow_lt_pow_right (by decide) hj
  mem := by
    intro c
    rw [List.mem_cons, hRest.mem]
    constructor
    · rintro (rfl | ⟨j, hj, hc, hLe⟩)
      · exact ⟨k, Nat.le_refl k, rfl, h⟩
      · exact ⟨j, by omega, hc, hLe⟩
    · rintro ⟨j, hj, hc, hLe⟩
      by_cases hFirst : j = k
      · exact Or.inl (hFirst ▸ hc)
      · exact Or.inr ⟨j, by omega, hc, hLe⟩

/-- From `2 ^ k` on, the counter goes through the powers of two up to the
bound.  The induction is on the doublings left before the top bit. -/
theorem rounds_powers {max : Nat} (hMax : max ≤ 2 ^ 32 - 1) (left : Nat)
    {k : Nat} (hk : k + left = 31) :
    ∃ powers, PowersFrom max k powers ∧ ∀ fuel, left < fuel →
      rounds (fun c => decide (c ≤ max)) nextConcurrency fuel (2 ^ k) =
        some powers := by
  induction left generalizing k with
  | zero =>
      obtain rfl : k = 31 := hk
      have hNone := @PowersFrom.nil max 32 (by omega)
      have hBreak : nextConcurrency (2 ^ 31) = none := by decide
      by_cases hEnter : 2 ^ 31 ≤ max
      · refine ⟨[2 ^ 31], hNone.cons hEnter, fun fuel hFuel => ?_⟩
        cases fuel with
        | zero => omega
        | succ fuel =>
            simp only [rounds, decide_eq_true hEnter, ↓reduceIte, hBreak]
      · exact ⟨[], PowersFrom.nil (by omega), fun fuel _ =>
          rounds_stop (decide_eq_false hEnter) fuel⟩
  | succ left ih =>
      by_cases hEnter : 2 ^ k ≤ max
      · obtain ⟨powers, hPowers, hRun⟩ := @ih (k + 1) (by omega)
        refine ⟨2 ^ k :: powers, hPowers.cons hEnter, fun fuel hFuel => ?_⟩
        cases fuel with
        | zero => omega
        | succ fuel =>
            have hRest := hRun fuel (by omega)
            simp only [rounds, decide_eq_true hEnter, ↓reduceIte,
              nextConcurrency_pow (show k < 31 by omega), hRest, Option.map_some]
      · exact ⟨[], PowersFrom.nil (by omega), fun fuel _ =>
          rounds_stop (decide_eq_false hEnter) fuel⟩

/-- The calls of the rounds are those at or above `sweep_min`. -/
theorem flatMap_sweepCalls (cfg : Cfg) (r : Nat) (powers : List Nat) :
    powers.flatMap (sweepCalls cfg r) =
      (powers.filter fun c => decide (cfg.sweep_min ≤ c)).map (SweepCall.mk r) := by
  induction powers with
  | nil => rfl
  | cons c powers ih =>
      by_cases hMin : cfg.sweep_min ≤ c
      · simp [sweepCalls, hMin, ih]
      · simp [sweepCalls, hMin, ih]

/-- **The concurrency sweep**: if no sweep fails, the loop ends after at most 32
values of the counter and has run a sweep for exactly the powers of two from
`sweep_min` to `sweep_max`, each once and in increasing order; and no shift
loses a bit. -/
theorem sweepLoop_runs_powers (cfg : Cfg) (r : Nat)
    (hMax : cfg.sweep_max ≤ 2 ^ 32 - 1) (ok : List SweepCall → Bool)
    (hOk : ∀ calls, ok calls = true) :
    (∃ powers : List Nat,
      (∀ fuel, 32 ≤ fuel → sweepLoop cfg r ok fuel =
        (powers.map (SweepCall.mk r), .finished)) ∧
      powers.Pairwise (· < ·) ∧
      ∀ c, c ∈ powers ↔
        (∃ k, c = 2 ^ k) ∧ cfg.sweep_min ≤ c ∧ c ≤ cfg.sweep_max) ∧
    ∀ c d, nextConcurrency c = some d → d = 2 * c := by
  refine ⟨?_, fun c d => nextConcurrency_eq⟩
  obtain ⟨powers, hPowers, hRun⟩ := rounds_powers hMax 31 (Nat.zero_add 31)
  refine ⟨powers.filter fun c => decide (cfg.sweep_min ≤ c), ?_,
    hPowers.sorted.filter _, ?_⟩
  · intro fuel hFuel
    have hLoop := @callLoop_of_rounds _ ok _ (sweepCalls cfg r) _ _ _ _
      (hRun fuel (by omega)) (fun _ _ _ _ _ => hOk _) []
    rw [List.nil_append, flatMap_sweepCalls] at hLoop
    exact hLoop
  · intro c
    rw [List.mem_filter, hPowers.mem, decide_eq_true_iff]
    constructor
    · rintro ⟨⟨j, _, hc, hLe⟩, hLow⟩
      exact ⟨⟨j, hc⟩, hLow, hLe⟩
    · rintro ⟨⟨j, hc⟩, hLow, hLe⟩
      exact ⟨⟨j, Nat.zero_le j, hc, hLe⟩, hLow⟩

/-- A range around the top bit. -/
theorem sweepLoop_runs_powers_top :
    let cfg : Cfg :=
      { defaultCfg with sweep_min := 2 ^ 30 + 1, sweep_max := 2 ^ 32 - 1 }
    (∃ powers : List Nat,
      (∀ fuel, 32 ≤ fuel → sweepLoop cfg 1 (fun _ => true) fuel =
        (powers.map (SweepCall.mk 1), .finished)) ∧
      powers.Pairwise (· < ·) ∧
      ∀ c, c ∈ powers ↔
        (∃ k, c = 2 ^ k) ∧ cfg.sweep_min ≤ c ∧ c ≤ cfg.sweep_max) ∧
    ∀ c d, nextConcurrency c = some d → d = 2 * c :=
  sweepLoop_runs_powers _ 1 (by decide) _ fun _ => rfl

end MioBench.Store
