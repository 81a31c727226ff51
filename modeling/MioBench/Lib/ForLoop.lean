import Mathlib.Algebra.BigOperators.Group.Finset.Basic
import Mathlib.Data.List.Basic
import Mathlib.Data.Nat.ModEq

/-!
# `for` loops over a counter

The values a C loop `for (x = first; cond; x = next(x))` runs its body for, as
a list, under a bound on the number of iterations: `none` says that the bound
was reached with the condition still true.  A loop whose counter wraps can run
for ever, so the bound is part of the meaning, and "the loop terminates" is the
statement that some bound gives a list.
-/

namespace MioBench.Lib

universe u v

/-- The counter values of a loop, in order. -/
def visits (cond : Nat → Bool) (next : Nat → Nat) : Nat → Nat →
    Option (List Nat)
  | 0, x => if cond x then none else some []
  | fuel + 1, x =>
      if cond x then (visits cond next fuel (next x)).map (x :: ·) else some []

/-- A loop that is not entered. -/
theorem visits_stop {cond : Nat → Bool} {next : Nat → Nat} {x : Nat}
    (hCond : cond x = false) (fuel : Nat) :
    visits cond next fuel x = some [] := by
  cases fuel <;> simp [visits, hCond]

/-- A loop that is entered, and ends. -/
theorem visits_enter {cond : Nat → Bool} {next : Nat → Nat} {fuel x : Nat}
    {l : List Nat} (hCond : cond x = true)
    (h : visits cond next fuel x = some l) :
    ∃ less rest, fuel = less + 1 ∧ visits cond next less (next x) = some rest ∧
      l = x :: rest := by
  cases fuel with
  | zero => simp [visits, hCond] at h
  | succ less =>
      simp only [visits, hCond, ↓reduceIte, Option.map_eq_some_iff] at h
      obtain ⟨rest, hRest, rfl⟩ := h
      exact ⟨less, rest, rfl, hRest, rfl⟩

/-- A loop that follows the sequence `seq` and stops at its entry `count`. -/
theorem visits_eq {cond : Nat → Bool} {next : Nat → Nat} (seq : Nat → Nat)
    (count : Nat)
    (hNext : ∀ i, i < count →
      cond (seq i) = true ∧ next (seq i) = seq (i + 1))
    (hStop : cond (seq count) = false) {fuel : Nat} (hFuel : count ≤ fuel) :
    visits cond next fuel (seq 0) = some ((List.range count).map seq) := by
  induction count generalizing seq fuel with
  | zero => cases fuel <;> simp [visits, hStop]
  | succ count ih =>
      cases fuel with
      | zero => omega
      | succ fuel =>
          have hFirst := hNext 0 (by omega)
          have hRest := ih (fun i => seq (i + 1))
            (fun i hi => hNext (i + 1) (by omega)) hStop
            (show count ≤ fuel by omega)
          simp only [visits, hFirst.1, hFirst.2, ↓reduceIte, hRest,
            Option.map_some, List.range_succ_eq_map, List.map_cons,
            List.map_map]
          rfl

/-- How often `for (x = first; x < bound; x += step)` runs without wrap. -/
def trips (first bound step : Nat) : Nat :=
  (bound - first + (step - 1)) / step

theorem lt_trips_iff {first bound step : Nat} (hStep : 0 < step) (i : Nat) :
    i < trips first bound step ↔ first + step * i < bound := by
  have hDiv : i + 1 ≤ trips first bound step ↔
      (i + 1) * step ≤ bound - first + (step - 1) :=
    Nat.le_div_iff_mul_le hStep
  have hMul : (i + 1) * step = step * i + step := by
    rw [Nat.succ_mul, Nat.mul_comm]
  omega

theorem trips_le {first bound step : Nat} (hStep : 0 < step) :
    trips first bound step ≤ bound := by
  by_contra hLt
  have hVisit := (lt_trips_iff hStep bound).mp (Nat.lt_of_not_le hLt)
  have hLe := Nat.le_mul_of_pos_left bound hStep
  omega

/-- `for (x = first; x < bound; x += step)` in arithmetic modulo `modulus`. -/
def countUp (modulus fuel first bound step : Nat) : Option (List Nat) :=
  visits (fun x => decide (x < bound)) (fun x => (x + step) % modulus) fuel
    first

/-- As long as the counter does not wrap, the loop visits the arithmetic
progression up to the bound. -/
theorem countUp_eq_of_lt {modulus fuel first bound step : Nat}
    (hStep : 0 < step)
    (hLt : ∀ i, i < trips first bound step → first + step * (i + 1) < modulus)
    (hFuel : trips first bound step ≤ fuel) :
    countUp modulus fuel first bound step =
      some ((List.range (trips first bound step)).map
        fun i => first + step * i) := by
  have hSeq := @visits_eq (fun x => decide (x < bound))
    (fun x => (x + step) % modulus) (fun i => first + step * i)
    (trips first bound step) ?_ ?_ fuel hFuel
  · simpa [countUp] using hSeq
  · intro i hi
    refine ⟨by simpa using (lt_trips_iff hStep i).mp hi, ?_⟩
    have hNext := hLt i hi
    rw [Nat.mul_succ] at hNext
    show (first + step * i + step) % modulus = first + step * (i + 1)
    rw [Nat.mod_eq_of_lt (by omega), Nat.mul_succ]
    omega
  · have hNot := (@lt_trips_iff first bound step hStep
      (trips first bound step)).not.mp (Nat.lt_irrefl _)
    simpa using hNot

/-- In particular when the bound leaves room for one more step. -/
theorem countUp_eq {modulus fuel first bound step : Nat} (hStep : 0 < step)
    (hRoom : bound + step ≤ modulus)
    (hFuel : trips first bound step ≤ fuel) :
    countUp modulus fuel first bound step =
      some ((List.range (trips first bound step)).map
        fun i => first + step * i) := by
  refine countUp_eq_of_lt hStep (fun i hi => ?_) hFuel
  have hLt := (lt_trips_iff hStep i).mp hi
  rw [Nat.mul_succ]
  omega

/-! ## A loop cut short -/

/-- The counter values of the first rounds of a loop, which may go on. -/
def visitsUpTo (cond : Nat → Bool) (next : Nat → Nat) : Nat → Nat → List Nat
  | 0, _ => []
  | rounds + 1, x =>
      if cond x then x :: visitsUpTo cond next rounds (next x) else []

/-- A loop that ends has been seen whole once the rounds suffice. -/
theorem visitsUpTo_eq {cond : Nat → Bool} {next : Nat → Nat}
    {fuel rounds x : Nat} {l : List Nat}
    (h : visits cond next fuel x = some l) (hRounds : fuel ≤ rounds) :
    visitsUpTo cond next rounds x = l := by
  induction rounds generalizing fuel x l with
  | zero =>
      obtain rfl : fuel = 0 := Nat.le_zero.mp hRounds
      cases hCond : cond x with
      | true => simp [visits, hCond] at h
      | false =>
          rw [visits_stop hCond] at h
          exact Option.some.inj h
  | succ rounds ih =>
      cases hCond : cond x with
      | true =>
          obtain ⟨less, rest, rfl, hRest, rfl⟩ := visits_enter hCond h
          have hTail := ih hRest (Nat.le_of_succ_le_succ hRounds)
          simp [visitsUpTo, hCond, hTail]
      | false =>
          rw [visits_stop hCond] at h
          obtain rfl : [] = l := Option.some.inj h
          simp [visitsUpTo, hCond]

/-- A loop that follows the sequence `seq` at least up to entry `count`. -/
theorem mem_visitsUpTo {cond : Nat → Bool} {next : Nat → Nat} (seq : Nat → Nat)
    {count rounds i : Nat} (hCond : ∀ i, i < count → cond (seq i) = true)
    (hNext : ∀ i, i + 1 < count → next (seq i) = seq (i + 1))
    (hRounds : count ≤ rounds) (hi : i < count) :
    seq i ∈ visitsUpTo cond next rounds (seq 0) := by
  induction count generalizing seq rounds i with
  | zero => omega
  | succ count ih =>
      cases rounds with
      | zero => omega
      | succ rounds =>
          simp only [visitsUpTo, hCond 0 (by omega), ↓reduceIte, List.mem_cons]
          cases i with
          | zero => exact Or.inl rfl
          | succ i =>
              right
              rw [hNext 0 (by omega)]
              exact ih (fun i => seq (i + 1))
                (fun i hi => hCond (i + 1) (by omega))
                (fun i hi => hNext (i + 1) (by omega)) (by omega) (by omega)

/-! ## A cursor that starts again at zero -/

/-- `x += step; if (x >= bound) x = 0;` -/
def wrapNext (bound step x : Nat) : Nat :=
  if bound ≤ x + step then 0 else x + step

/-- After how many rounds the cursor is at zero again. -/
def wrapPeriod (bound step : Nat) : Nat := max 1 (trips 0 bound step)

theorem le_wrapPeriod_mul {bound step : Nat} (hStep : 0 < step) :
    bound ≤ step * wrapPeriod bound step := by
  have hNot := (@lt_trips_iff 0 bound step hStep (trips 0 bound step)).not.mp
    (Nat.lt_irrefl _)
  have hMono : step * trips 0 bound step ≤ step * wrapPeriod bound step :=
    Nat.mul_le_mul_left _ (Nat.le_max_right _ _)
  omega

/-- Before the last round of a period the bound is not yet reached. -/
theorem lt_of_succ_lt_wrapPeriod {bound step m : Nat} (hStep : 0 < step)
    (hm : m + 1 < wrapPeriod bound step) : step * (m + 1) < bound := by
  have hTrips : m + 1 < trips 0 bound step := by
    unfold wrapPeriod at hm
    omega
  have hLt := (lt_trips_iff hStep (m + 1)).mp hTrips
  omega

theorem iterate_wrapNext {bound step : Nat} (hStep : 0 < step) (k : Nat) :
    (wrapNext bound step)^[k] 0 = step * (k % wrapPeriod bound step) := by
  induction k with
  | zero => simp
  | succ k ih =>
      have hPos : 0 < wrapPeriod bound step := Nat.lt_of_lt_of_le Nat.one_pos
        (Nat.le_max_left _ _)
      have hLt := Nat.mod_lt k hPos
      rw [Function.iterate_succ_apply', ih, wrapNext]
      rcases Nat.lt_or_eq_of_le (Nat.succ_le_of_lt hLt) with hInside | hLast
      · have hBound := lt_of_succ_lt_wrapPeriod hStep hInside
        have hMod : (k + 1) % wrapPeriod bound step =
            k % wrapPeriod bound step + 1 := by
          rw [← Nat.mod_add_mod, Nat.mod_eq_of_lt hInside]
        rw [if_neg (by rw [← Nat.mul_succ]; exact not_le.mpr hBound), hMod,
          Nat.mul_succ]
      · have hBound := @le_wrapPeriod_mul bound step hStep
        have hMod : (k + 1) % wrapPeriod bound step = 0 := by
          rw [← Nat.mod_add_mod, ← Nat.succ_eq_add_one, hLast, Nat.mod_self]
        rw [if_pos (by rw [← Nat.mul_succ, hLast]; exact hBound), hMod,
          Nat.mul_zero]

/-! ## A loop whose body may itself not end -/

/-- The concatenated results of a body over a list of counter values. -/
def gather {α : Type u} {β : Type v} (body : α → Option (List β)) :
    List α → Option (List β)
  | [] => some []
  | a :: l => (body a).bind fun bs => (gather body l).map (bs ++ ·)

theorem gather_eq {α : Type u} {β : Type v} {body : α → Option (List β)}
    {f : α → List β} {l : List α} (h : ∀ a, a ∈ l → body a = some (f a)) :
    gather body l = some (l.flatMap f) := by
  induction l with
  | nil => rfl
  | cons a l ih =>
      have hHead := h a (by simp)
      have hTail := ih fun b hb => h b (by simp [hb])
      simp [gather, hHead, hTail]

/-! ## A loop with a fixed number of rounds -/

/-- The invariant rule: what holds before the first round and is carried from
round `i` to round `i + 1` holds after `n` rounds. -/
theorem foldl_range_invariant {α : Type u} {step : α → Nat → α} {n : Nat}
    (P : Nat → α → Prop) {a : α} (hStart : P 0 a)
    (hStep : ∀ i b, i < n → P i b → P (i + 1) (step b i)) :
    P n ((List.range n).foldl step a) := by
  induction n with
  | zero => exact hStart
  | succ n ih =>
      rw [List.range_succ, List.foldl_append]
      exact hStep n _ (by omega)
        (ih fun i b hi => hStep i b (by omega))

/-- A loop that changes each entry of a list in its place changes them all. -/
theorem foldl_range_modify {α : Type u} (f : α → α) (l : List α) :
    (List.range l.length).foldl (fun l i => l.modify i f) l = l.map f := by
  -- After `n` rounds the first `n` entries are changed.
  have hLoop : ∀ n k, ((List.range n).foldl (fun l i => l.modify i f) l)[k]? =
      if k < n then l[k]?.map f else l[k]? := by
    refine fun n => foldl_range_invariant (fun n (l' : List α) =>
      ∀ k, l'[k]? = if k < n then l[k]?.map f else l[k]?) (fun k => rfl) ?_
    intro i l' _ ih k
    by_cases hAt : i = k
    · subst hAt
      rw [List.getElem?_modify_eq, ih, if_neg (by omega), if_pos (by omega)]
      rfl
    · rw [List.getElem?_modify_ne _ _ hAt, ih]
      exact if_congr (by omega) rfl rfl
  apply List.ext_getElem?
  intro k
  rw [hLoop, List.getElem?_map]
  split
  · rfl
  · rw [List.getElem?_eq_none (by omega), Option.map_none]

/-! ## Counting what a nest of loops visits -/

theorem sum_map_range (f : Nat → Nat) (n : Nat) :
    ((List.range n).map f).sum = ∑ i ∈ Finset.range n, f i := by
  induction n with
  | zero => rfl
  | succ n ih =>
      rw [List.range_succ, List.map_append, List.sum_append, ih,
        Finset.sum_range_succ]
      simp

/-- Two nested counters are one: block `i` of `k` values follows block
`i - 1`. -/
theorem sum_range_nested (f : Nat → Nat) (m k : Nat) :
    ∑ i ∈ Finset.range m, ∑ j ∈ Finset.range k, f (i * k + j) =
      ∑ q ∈ Finset.range (m * k), f q := by
  induction m with
  | zero => simp
  | succ m ih =>
      rw [Finset.sum_range_succ, ih, Nat.succ_mul, Finset.sum_range_add]

end MioBench.Lib
