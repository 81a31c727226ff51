import Mathlib.Data.Int.GCD
import MioBench.Lib.ForLoop

/-!
# When a loop over a wrapping counter ends

A counter that is advanced by `step` modulo `modulus` goes through a whole
residue class of their greatest common divisor before it comes back to where it
started.  A loop with an upper bound therefore ends exactly when the largest
member of that class reaches the bound.  Loops in loops end when all rounds of
the outer loop do; the fuel that suffices for each of them suffices for all.
-/

namespace MioBench.Lib

universe u v

/-- Some bound on the rounds is enough for a result. -/
def Ends {α : Type u} (run : Nat → Option α) : Prop :=
  ∃ fuel, (run fuel).isSome

/-- Every larger bound gives the same result. -/
def Settles {α : Type u} (run : Nat → Option α) (a : α) : Prop :=
  ∃ least, ∀ fuel, least ≤ fuel → run fuel = some a

section Settles

variable {α : Type u} {β : Type v}

theorem Settles.ends {run : Nat → Option α} {a : α} (h : Settles run a) :
    Ends run := by
  obtain ⟨least, hRun⟩ := h
  exact ⟨least, Option.isSome_of_eq_some (hRun least (Nat.le_refl _))⟩

theorem Settles.unique {run : Nat → Option α} {a b : α} (h : Settles run a)
    (h' : Settles run b) : a = b := by
  obtain ⟨least, hRun⟩ := h
  obtain ⟨least', hRun'⟩ := h'
  have hLeft := hRun (max least least') (Nat.le_max_left _ _)
  have hRight := hRun' (max least least') (Nat.le_max_right _ _)
  exact Option.some.inj (hLeft.symm.trans hRight)

theorem Settles.bind {run : Nat → Option α} {body : Nat → α → Option β} {a : α}
    {b : β} (hRun : Settles run a) (hBody : Settles (fun fuel => body fuel a) b) :
    Settles (fun fuel => (run fuel).bind (body fuel)) b := by
  obtain ⟨least, hRun⟩ := hRun
  obtain ⟨least', hBody⟩ := hBody
  refine ⟨max least least', fun fuel hFuel => ?_⟩
  show (run fuel).bind (body fuel) = some b
  rw [hRun fuel (Nat.le_trans (Nat.le_max_left _ _) hFuel), Option.bind_some]
  exact hBody fuel (Nat.le_trans (Nat.le_max_right _ _) hFuel)

theorem Settles.map {run : Nat → Option α} {a : α} (f : α → β)
    (h : Settles run a) : Settles (fun fuel => (run fuel).map f) (f a) := by
  obtain ⟨least, hRun⟩ := h
  exact ⟨least, fun fuel hFuel => congrArg (Option.map f) (hRun fuel hFuel)⟩

/-- An outer loop of finitely many rounds, each of which ends. -/
theorem settles_gather {body : Nat → α → Option (List β)} {l : List α}
    (h : ∀ a ∈ l, ∃ bs, Settles (fun fuel => body fuel a) bs) :
    ∃ bs, Settles (fun fuel => gather (body fuel) l) bs := by
  induction l with
  | nil => exact ⟨[], 0, fun _ _ => rfl⟩
  | cons a l ih =>
      obtain ⟨head, hHead⟩ := h a (by simp)
      obtain ⟨rest, hRest⟩ := ih fun b hb => h b (by simp [hb])
      exact ⟨head ++ rest, hHead.bind (hRest.map (head ++ ·))⟩

/-- The rounds of an outer loop that ends have ended. -/
theorem isSome_of_gather {body : α → Option (List β)} {l : List α}
    (h : (gather body l).isSome) {a : α} (ha : a ∈ l) : (body a).isSome := by
  induction l with
  | nil => cases ha
  | cons b l ih =>
      obtain ⟨bs, hGather⟩ := Option.isSome_iff_exists.mp h
      obtain ⟨head, hHead, hTail⟩ := Option.bind_eq_some_iff.mp hGather
      obtain ⟨rest, hRest, _⟩ := Option.map_eq_some_iff.mp hTail
      rcases List.mem_cons.mp ha with rfl | hLater
      · exact Option.isSome_of_eq_some hHead
      · exact ih (Option.isSome_of_eq_some hRest) hLater

end Settles

/-! ## One loop -/

section Visits

variable {cond : Nat → Bool} {next : Nat → Nat} {x : Nat}

theorem visits_isSome_iff (fuel : Nat) :
    (visits cond next fuel x).isSome ↔
      ∃ k, k ≤ fuel ∧ cond (next^[k] x) = false := by
  induction fuel generalizing x with
  | zero =>
      cases hCond : cond x with
      | true => simp [visits, hCond]
      | false => simp [visits, hCond]
  | succ fuel ih =>
      cases hCond : cond x with
      | false =>
          simp only [visits, hCond, Bool.false_eq_true, ↓reduceIte,
            Option.isSome_some, true_iff]
          exact ⟨0, Nat.zero_le _, hCond⟩
      | true =>
          simp only [visits, hCond, ↓reduceIte, Option.isSome_map, ih]
          constructor
          · rintro ⟨k, hk, hStop⟩
            exact ⟨k + 1, Nat.succ_le_succ hk, hStop⟩
          · rintro ⟨k, hk, hStop⟩
            cases k with
            | zero =>
                rw [Function.iterate_zero_apply, hCond] at hStop
                cases hStop
            | succ k => exact ⟨k, Nat.le_of_succ_le_succ hk, hStop⟩

theorem visits_mono {fuel fuel' : Nat} {l : List Nat}
    (h : visits cond next fuel x = some l) (hFuel : fuel ≤ fuel') :
    visits cond next fuel' x = some l := by
  induction fuel' generalizing fuel x l with
  | zero =>
      obtain rfl : fuel = 0 := Nat.le_zero.mp hFuel
      exact h
  | succ more ih =>
      cases hCond : cond x with
      | false =>
          rw [visits_stop hCond] at h ⊢
          exact h
      | true =>
          obtain ⟨less, rest, rfl, hRest, rfl⟩ := visits_enter hCond h
          have hTail := ih hRest (Nat.le_of_succ_le_succ hFuel)
          simp [visits, hCond, hTail]

theorem visits_settles (h : Ends fun fuel => visits cond next fuel x) :
    ∃ l, Settles (fun fuel => visits cond next fuel x) l := by
  obtain ⟨fuel, hRun⟩ := h
  obtain ⟨l, hl⟩ := Option.isSome_iff_exists.mp hRun
  exact ⟨l, fuel, fun fuel' hFuel => visits_mono hl hFuel⟩

theorem mem_visits_cond {fuel : Nat} {l : List Nat}
    (h : visits cond next fuel x = some l) {y : Nat} (hy : y ∈ l) :
    cond y = true := by
  induction l generalizing fuel x with
  | nil => cases hy
  | cons z rest ih =>
      cases hCond : cond x with
      | false =>
          rw [visits_stop hCond] at h
          cases h
      | true =>
          obtain ⟨less, rest', _, hRest, hEq⟩ := visits_enter hCond h
          obtain ⟨rfl, rfl⟩ := List.cons.inj hEq
          rcases List.mem_cons.mp hy with hFirst | hLater
          · rw [hFirst, hCond]
          · exact ih hRest hLater

/-- A loop that is entered visits its first value. -/
theorem first_mem_visits {fuel : Nat} {l : List Nat}
    (h : visits cond next fuel x = some l) (hCond : cond x = true) : x ∈ l := by
  obtain ⟨_, rest, _, _, rfl⟩ := visits_enter hCond h
  exact List.mem_cons_self

end Visits

/-! ## The values of a wrapping counter -/

section Counter

variable {modulus step x : Nat}

theorem iterate_add_mod (hx : x < modulus) (k : Nat) :
    (fun y => (y + step) % modulus)^[k] x = (x + step * k) % modulus := by
  induction k with
  | zero => simp [Nat.mod_eq_of_lt hx]
  | succ k ih =>
      rw [Function.iterate_succ_apply', ih, Nat.mod_add_mod, Nat.mul_succ,
        Nat.add_assoc]

/-- The counter stays in the residue class it started in. -/
theorem counter_mod_gcd (k : Nat) :
    (x + step * k) % modulus % Nat.gcd step modulus =
      x % Nat.gcd step modulus := by
  obtain ⟨c, hc⟩ := Nat.gcd_dvd_left step modulus
  rw [Nat.mod_mod_of_dvd _ (Nat.gcd_dvd_right step modulus)]
  rw [show step * k = Nat.gcd step modulus * (c * k) by
    rw [← Nat.mul_assoc, ← hc], Nat.add_mul_mod_self_left]

/-- And comes by every member of it. -/
theorem exists_counter_eq (hx : x < modulus) {y : Nat} (hy : y < modulus)
    (hClass : y % Nat.gcd step modulus = x % Nat.gcd step modulus) :
    ∃ k, (x + step * k) % modulus = y := by
  have hDvd := Nat.gcd_dvd_right step modulus
  have hLe := Nat.le_of_dvd (by omega) hDvd
  rcases Nat.lt_or_eq_of_le hLe with hLt | hWhole
  · obtain ⟨j, _, hj⟩ := Nat.exists_mul_mod_eq_gcd hLt
    -- The way from `x` up to `y`, or round to it, in steps of the divisor.
    obtain ⟨c, hc⟩ : Nat.gcd step modulus ∣ y + modulus - x := by
      refine (Nat.modEq_iff_dvd' (by omega)).mp ?_
      show x % Nat.gcd step modulus = (y + modulus) % Nat.gcd step modulus
      rw [← hClass, Nat.add_mod, Nat.mod_eq_zero_of_dvd hDvd, Nat.add_zero,
        Nat.mod_mod]
    refine ⟨j * c, ?_⟩
    have hWay : step * (j * c) % modulus =
        Nat.gcd step modulus * c % modulus := by
      rw [← Nat.mul_assoc, ← Nat.mod_mul_mod, hj]
    rw [Nat.add_mod, hWay, ← hc, Nat.add_mod_mod, Nat.mod_add_mod,
      show x + (y + modulus - x) = y + modulus by omega, Nat.add_mod_right,
      Nat.mod_eq_of_lt hy]
  · refine ⟨0, ?_⟩
    rw [hWhole, Nat.mod_eq_of_lt hx, Nat.mod_eq_of_lt hy] at hClass
    rw [Nat.mul_zero, Nat.add_zero, Nat.mod_eq_of_lt hx, hClass]

/-- The largest member of a residue class below a multiple of the divisor. -/
theorem exists_counter_ge_iff (hx : x < modulus) (bound : Nat) :
    (∃ k, bound ≤ (x + step * k) % modulus) ↔
      bound + Nat.gcd step modulus ≤ modulus + x % Nat.gcd step modulus := by
  have hPos : 0 < modulus := by omega
  have hDivisor := Nat.gcd_pos_of_pos_right step hPos
  obtain ⟨q, hq⟩ := Nat.gcd_dvd_right step modulus
  constructor
  · rintro ⟨k, hk⟩
    have hLt := Nat.mod_lt (x + step * k) hPos
    have hSplit := Nat.div_add_mod ((x + step * k) % modulus)
      (Nat.gcd step modulus)
    rw [counter_mod_gcd] at hSplit
    have hRow : (x + step * k) % modulus / Nat.gcd step modulus < q := by
      refine (Nat.div_lt_iff_lt_mul hDivisor).mpr ?_
      rw [Nat.mul_comm q, ← hq]
      exact hLt
    have hRows := Nat.mul_le_mul_left (Nat.gcd step modulus) hRow
    rw [Nat.mul_succ, ← hq] at hRows
    omega
  · intro hBound
    have hRest := Nat.mod_lt x hDivisor
    have hLe := Nat.le_of_dvd hPos (Nat.gcd_dvd_right step modulus)
    have hLast : modulus - Nat.gcd step modulus =
        Nat.gcd step modulus * (q - 1) := by
      rw [Nat.mul_sub_one, ← hq]
    obtain ⟨k, hk⟩ := @exists_counter_eq modulus step x hx
      (modulus - Nat.gcd step modulus + x % Nat.gcd step modulus)
      (by omega)
      (by rw [hLast, Nat.mul_add_mod, Nat.mod_mod])
    exact ⟨k, by omega⟩

/-- When `for (x = first; x < bound; x += step)` ends. -/
theorem countUp_ends_iff (hx : x < modulus) (bound : Nat) :
    (Ends fun fuel => countUp modulus fuel x bound step) ↔
      bound + Nat.gcd step modulus ≤ modulus + x % Nat.gcd step modulus := by
  rw [← exists_counter_ge_iff hx]
  constructor
  · rintro ⟨fuel, hRun⟩
    obtain ⟨k, _, hStop⟩ := (visits_isSome_iff fuel).mp hRun
    rw [iterate_add_mod hx] at hStop
    exact ⟨k, by simpa using hStop⟩
  · rintro ⟨k, hk⟩
    refine ⟨k, (visits_isSome_iff k).mpr ⟨k, Nat.le_refl _, ?_⟩⟩
    rw [iterate_add_mod hx]
    simpa using hk

end Counter

end MioBench.Lib
