import MioBench.Lib.ForLoop

/-!
# Loops that make calls

A loop `for (x = first; cond(x); x = next(x))` whose body makes calls and
leaves at the first call that fails.  What a call answers may depend on all
calls before it, so the environment is a function of the calls made so far.
`next` is `none` where the body ends in a `break`.  Which values the counter
takes when nothing fails is `rounds`, which knows nothing of the calls.
-/

namespace MioBench.Lib

universe u

/-- How a loop stands after a number of rounds. -/
inductive Exit
  | running
  | finished
  | failed
  deriving DecidableEq, Repr

section CallLoop

variable {Call : Type u} (ok : List Call → Bool)

/-- The calls of one round after the calls `done`, up to the first that
fails. -/
def makeCalls (done : List Call) : List Call → List Call × Bool
  | [] => (done, true)
  | call :: rest =>
      if ok (done ++ [call]) then makeCalls (done ++ [call]) rest
      else (done ++ [call], false)

/-- The calls made in at most `fuel` rounds from `x`, after the calls `done`. -/
def callLoop (cond : Nat → Bool) (body : Nat → List Call)
    (next : Nat → Option Nat) : (fuel x : Nat) → (done : List Call) →
    List Call × Exit
  | 0, x, done => (done, if cond x then .running else .finished)
  | fuel + 1, x, done =>
      if cond x then
        match makeCalls ok done (body x) with
        | (done', false) => (done', .failed)
        | (done', true) =>
            match next x with
            | none => (done', .finished)
            | some y => callLoop cond body next fuel y done'
      else (done, .finished)

theorem makeCalls_ok {calls : List Call}
    (hOk : ∀ call ∈ calls, ∀ done, ok (done ++ [call]) = true)
    (done : List Call) : makeCalls ok done calls = (done ++ calls, true) := by
  induction calls generalizing done with
  | nil => simp [makeCalls]
  | cons call rest ih =>
      have hRest := ih fun c hc => hOk c (List.mem_cons_of_mem _ hc)
      simp [makeCalls, hOk call List.mem_cons_self, hRest]

theorem makeCalls_mem {done calls : List Call} {call : Call}
    (h : call ∈ (makeCalls ok done calls).1) : call ∈ done ∨ call ∈ calls := by
  induction calls generalizing done with
  | nil => exact Or.inl h
  | cons first rest ih =>
      simp only [makeCalls] at h
      split at h
      · rcases ih h with hDone | hRest
        · simp only [List.mem_append, List.mem_singleton] at hDone
          rcases hDone with hDone | rfl
          · exact Or.inl hDone
          · exact Or.inr List.mem_cons_self
        · exact Or.inr (List.mem_cons_of_mem _ hRest)
      · simp only [List.mem_append, List.mem_singleton] at h
        rcases h with hDone | rfl
        · exact Or.inl hDone
        · exact Or.inr List.mem_cons_self

end CallLoop

/-! ## The counter -/

/-- The values of the counter for which the body runs, when nothing fails. -/
def rounds (cond : Nat → Bool) (next : Nat → Option Nat) : Nat → Nat →
    Option (List Nat)
  | 0, x => if cond x then none else some []
  | fuel + 1, x =>
      if cond x then
        match next x with
        | none => some [x]
        | some y => (rounds cond next fuel y).map (x :: ·)
      else some []

/-- A loop that is not entered. -/
theorem rounds_stop {cond : Nat → Bool} {next : Nat → Option Nat} {x : Nat}
    (hCond : cond x = false) (fuel : Nat) :
    rounds cond next fuel x = some [] := by
  cases fuel <;> simp [rounds, hCond]

/-- Without a `break` these are the values of a plain loop. -/
theorem rounds_eq_visits (cond : Nat → Bool) (step : Nat → Nat)
    (fuel x : Nat) :
    rounds cond (fun y => some (step y)) fuel x = visits cond step fuel x := by
  induction fuel generalizing x with
  | zero => rfl
  | succ fuel ih => simp [rounds, visits, ih]

section CallLoop

variable {Call : Type u} {ok : List Call → Bool} {cond : Nat → Bool}
  {body : Nat → List Call} {next : Nat → Option Nat}

/-- A loop that ends has made the calls of its rounds, in order, when none of
them fails. -/
theorem callLoop_of_rounds {fuel x : Nat} {l : List Nat}
    (h : rounds cond next fuel x = some l)
    (hOk : ∀ y ∈ l, ∀ call ∈ body y, ∀ done, ok (done ++ [call]) = true)
    (done : List Call) :
    callLoop ok cond body next fuel x done =
      (done ++ l.flatMap body, .finished) := by
  induction fuel generalizing x l done with
  | zero =>
      cases hCond : cond x with
      | true => simp [rounds, hCond] at h
      | false =>
          obtain rfl : [] = l := by simpa [rounds, hCond] using h
          simp [callLoop, hCond]
  | succ fuel ih =>
      cases hCond : cond x with
      | false =>
          obtain rfl : [] = l := by simpa [rounds, hCond] using h
          simp [callLoop, hCond]
      | true =>
          cases hNext : next x with
          | none =>
              obtain rfl : [x] = l := by simpa [rounds, hCond, hNext] using h
              have hBody := makeCalls_ok ok (hOk x List.mem_cons_self)
              simp [callLoop, hCond, hNext, hBody]
          | some y =>
              obtain ⟨rest, hRest, rfl⟩ : ∃ rest,
                  rounds cond next fuel y = some rest ∧ x :: rest = l := by
                simpa [rounds, hCond, hNext] using h
              have hBody := makeCalls_ok ok (hOk x List.mem_cons_self)
              have hLater := ih hRest fun z hz =>
                hOk z (List.mem_cons_of_mem _ hz)
              simp [callLoop, hCond, hNext, hBody, hLater]

/-- A loop whose counter goes on is still running. -/
theorem callLoop_running (hOk : ∀ calls, ok calls = true) {fuel x : Nat}
    (h : rounds cond next fuel x = none) (done : List Call) :
    (callLoop ok cond body next fuel x done).2 = .running := by
  induction fuel generalizing x done with
  | zero =>
      cases hCond : cond x with
      | true => simp [callLoop, hCond]
      | false => simp [rounds, hCond] at h
  | succ fuel ih =>
      cases hCond : cond x with
      | false => simp [rounds, hCond] at h
      | true =>
          cases hNext : next x with
          | none => simp [rounds, hCond, hNext] at h
          | some y =>
              have hRest : rounds cond next fuel y = none := by
                simpa [rounds, hCond, hNext] using h
              have hBody := @makeCalls_ok _ ok (body x) fun call _ done => hOk _
              simp [callLoop, hCond, hNext, hBody, ih hRest]

/-- What holds of the first counter value and is kept by `next` holds for every
round that made a call, also in a run that failed. -/
theorem callLoop_invariant {P : Nat → Prop} {fuel x : Nat} {done : List Call}
    (hx : P x) (hNext : ∀ y z, P y → cond y = true → next y = some z → P z)
    {call : Call} (h : call ∈ (callLoop ok cond body next fuel x done).1) :
    call ∈ done ∨ ∃ y, P y ∧ cond y = true ∧ call ∈ body y := by
  induction fuel generalizing x done with
  | zero => exact Or.inl h
  | succ fuel ih =>
      cases hCond : cond x with
      | false => exact Or.inl (by simpa [callLoop, hCond] using h)
      | true =>
          simp only [callLoop, hCond, ↓reduceIte] at h
          have hRound : ∀ call, call ∈ (makeCalls ok done (body x)).1 →
              call ∈ done ∨ ∃ y, P y ∧ cond y = true ∧ call ∈ body y := by
            intro call hCall
            rcases makeCalls_mem ok hCall with hDone | hBody
            · exact Or.inl hDone
            · exact Or.inr ⟨x, hx, hCond, hBody⟩
          split at h
          · rename_i done' hCalls
            exact hRound call (by rw [hCalls]; exact h)
          · rename_i done' hCalls
            have hDone' : ∀ call, call ∈ done' →
                call ∈ done ∨ ∃ y, P y ∧ cond y = true ∧ call ∈ body y := by
              intro call hCall
              exact hRound call (by rw [hCalls]; exact hCall)
            split at h
            · exact hDone' call h
            · rename_i y hy
              rcases ih (hNext x y hx hCond hy) h with hCall | hLater
              · exact hDone' call hCall
              · exact Or.inr hLater

end CallLoop

end MioBench.Lib
