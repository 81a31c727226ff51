import MioBench.Lib.CallLoop
import MioBench.Programs.FailureCleanup
import MioBench.Store.TurnTags
import MioBench.Sync.SweepReturn

/-!
# The turns of the multi-turn program

The loop of `main` in `test3-mt.c`: each turn is a call of `write_turn` and a
call of `read_cumulative`.  The counter has 32 bits and the test is
`turn <= cfg.rounds`, so the loop has no way out when `rounds` is the largest
32-bit number; the turn after it is turn 0, whose chunks are outside the store.
What a call of `read_cumulative` comes to is a run of its sweep.  With copying
that sweep passes scratch buffers from `mmap` to `free`, so no turn is ever
finished.
-/

namespace MioBench.Store.MultiTurn

open MioBench.Lib MioBench.Sync

/-- The calls of a turn. -/
inductive TurnCall
  | writeTurn (turn : Nat)
  | readCumulative (turn : Nat)
  deriving DecidableEq, Repr

/-- How a call ends: with a result, or with the process. -/
inductive Answer
  | zero
  | minusOne
  | died
  deriving DecidableEq, Repr

/-- The chunks of a turn are chunks of the store. -/
def Inside (cfg : Cfg) (turn : Nat) : Prop :=
  ∀ blk ∈ turnChunks cfg turn, blk < cfg.rounds * cfg.req_per_blocks

/-- What a call can answer. -/
inductive Answers (cfg : Cfg) (z : Sizes) : TurnCall → Answer → Prop
  | written (turn : Nat) (hInside : Inside cfg turn) :
      Answers cfg z (.writeTurn turn) .zero
  /-- A store outside the memory is undefined. -/
  | outside (turn : Nat) (hOutside : ¬ Inside cfg turn) (answer : Answer) :
      Answers cfg z (.writeTurn turn) answer
  /-- `threads` or `args` is not allocated. -/
  | noThreadState (turn : Nat) :
      Answers cfg z (.readCumulative turn) .minusOne
  /-- The sweep returns, and every `free` in it was defined. -/
  | returned (turn : Nat) (store : Memory) (failure : Option (Nat × CreateFail))
      (scratch : Nat → Memory) (s : SweepState)
      (hFailure : ∀ k kind, failure = some (k, kind) → k < cfg.requests)
      (hs : (sweepMachine (readCumulative cfg store z.chunk_bytes turn failure
        scratch)).Reachable s)
      (hReturned : s.main = .returned)
      (hFreed : ∀ j, s.scratch j ≠ .corrupted) :
      Answers cfg z (.readCumulative turn)
        (if s.ret = 0 then .zero else .minusOne)
  /-- The sweep passes to `free` what `malloc` has not made. -/
  | badFree (turn : Nat) (store : Memory) (failure : Option (Nat × CreateFail))
      (scratch : Nat → Memory) (s : SweepState) (j : Nat)
      (hFailure : ∀ k kind, failure = some (k, kind) → k < cfg.requests)
      (hs : (sweepMachine (readCumulative cfg store z.chunk_bytes turn failure
        scratch)).Reachable s)
      (hBad : s.scratch j = .corrupted) :
      Answers cfg z (.readCumulative turn) .died

/-- What the last of the calls made so far answers, in a run of the program. -/
def Answered (cfg : Cfg) (z : Sizes) (answer : List TurnCall → Answer) : Prop :=
  ∀ done call, Answers cfg z call (answer (done ++ [call]))

/-- How the loop stands. -/
inductive TurnExit
  | running
  | finished
  | failed
  | died
  deriving DecidableEq, Repr

/-- The body of the loop. -/
def turnCalls (turn : Nat) : List TurnCall :=
  [.writeTurn turn, .readCumulative turn]

/-- The loop of `main`, for at most `fuel` turns. -/
def turnLoop (cfg : Cfg) (answer : List TurnCall → Answer) (fuel : Nat) :
    List TurnCall × TurnExit :=
  match callLoop (fun calls => decide (answer calls = .zero))
    (fun turn => decide (turn ≤ cfg.rounds)) turnCalls
    (fun turn => some ((turn + 1) % 2 ^ 32)) fuel 1 [] with
  | (calls, .running) => (calls, .running)
  | (calls, .finished) => (calls, .finished)
  | (calls, .failed) =>
      (calls, if answer calls = .died then .died else .failed)

/-- What is expected of the loop: when no turn fails it calls both functions
for the turns `1, 2, .., rounds`, once and in order, and ends; and in every run
the chunks written are chunks of the store. -/
structure VisitsEachTurn (cfg : Cfg) (z : Sizes) : Prop where
  ends : ∀ answer, Answered cfg z answer → (∀ calls, answer calls ≠ .minusOne) →
    ∃ least, ∀ fuel, least ≤ fuel → turnLoop cfg answer fuel =
      ((List.range cfg.rounds).flatMap fun i => turnCalls (i + 1), .finished)
  inside : ∀ answer, Answered cfg z answer → ∀ (fuel turn : Nat),
    .writeTurn turn ∈ (turnLoop cfg answer fuel).1 → Inside cfg turn

/-! ## What `read_cumulative` comes to -/

section Read

variable {cfg : Cfg} {z : Sizes} {turn : Nat} {answer : Answer}

/-- The reading of a turn in which nothing fails. -/
theorem readCumulative_allCreated (cfg : Cfg) (store : Memory)
    (chunk_bytes turn : Nat) (scratch : Nat → Memory) :
    (readCumulative cfg store chunk_bytes turn none scratch).AllCreated :=
  fun _ => rfl

theorem readCumulative_returns (hz : Layout cfg z) (store : Memory)
    (turn : Nat) (scratch : Nat → Memory) :
    ∃ s, (sweepMachine (readCumulative cfg store z.chunk_bytes turn none
      scratch)).Reachable s ∧ s.main = .returned :=
  sweep_returns (readCumulative_allCreated cfg store z.chunk_bytes turn scratch)
    hz.requests.2 (Nat.mod_lt _ (by decide)) Machine.Reachable.initial

/-- Without copying there is nothing to free. -/
theorem answers_noCopy (hCopy : cfg.copy_to_dst = false)
    (h : Answers cfg z (.readCumulative turn) answer) : answer ≠ .died := by
  cases h with
  | noThreadState => exact fun h => by cases h
  | returned =>
      split
      · exact fun h => by cases h
      · exact fun h => by cases h
  | badFree _ store failure scratch s j _ hs hBad =>
      rw [sweep_scratch_null hCopy hs j] at hBad
      cases hBad

/-- With copying the first buffer, from `mmap`, is passed to `free` before
`read_cumulative` can return 0. -/
theorem answers_copy (hz : Layout cfg z) (hCopy : cfg.copy_to_dst = true)
    (h : Answers cfg z (.readCumulative turn) answer) : answer ≠ .zero := by
  cases h with
  | noThreadState => exact fun h => by cases h
  | badFree => exact fun h => by cases h
  | returned _ store failure scratch s hFailure hs hReturned hFreed =>
      have hRet : s.ret ≠ 0 := by
        cases failure with
        | none =>
            intro _
            have hLast := (sweep_returned (readCumulative_allCreated cfg store
              z.chunk_bytes turn scratch) hs hReturned hz.requests.1).2
            apply hFreed 0
            rw [hLast]
            simp [Sweep.newBuffer, readCumulative, hCopy, Buffer.free]
        | some fail =>
            obtain ⟨k, kind⟩ := fail
            have hFails : (readCumulative cfg store z.chunk_bytes turn
                (some (k, kind)) scratch).createFails k = some kind :=
              createFails_of_failure rfl fun _ => hCopy
            have hClean := sweep_cleanInv (hFailure k kind rfl)
              (by simp [hFails]) hs
            have hFailed := (hClean.marks hReturned).2.2.2 fun _ => by simp
            omega
      rw [if_neg hRet]
      exact fun h => by cases h

/-- A turn of the store is written. -/
theorem answers_inside (hInside : Inside cfg turn)
    (h : Answers cfg z (.writeTurn turn) answer) : answer = .zero := by
  cases h with
  | written => rfl
  | outside _ hOutside => exact absurd hInside hOutside

theorem answers_zero_noCopy (hz : Layout cfg z)
    (hCopy : cfg.copy_to_dst = false) (turn : Nat) :
    Answers cfg z (.readCumulative turn) .zero := by
  obtain ⟨s, hs, hReturned⟩ :=
    readCumulative_returns hz (fun _ => 0) turn fun _ _ => 0
  have hRet := (sweep_returned (readCumulative_allCreated cfg _ _ turn _) hs
    hReturned hz.requests.1).1
  have hAnswer := Answers.returned turn _ none _ s (fun _ _ h => by cases h) hs
    hReturned fun j => by
      rw [sweep_scratch_null hCopy hs j]
      exact fun h => by cases h
  rwa [if_pos hRet] at hAnswer

theorem answers_died_copy (hz : Layout cfg z)
    (hCopy : cfg.copy_to_dst = true) (turn : Nat) :
    Answers cfg z (.readCumulative turn) .died := by
  obtain ⟨s, hs, hReturned⟩ :=
    readCumulative_returns hz (fun _ => 0) turn fun _ _ => 0
  have hFreed := (sweep_returned (readCumulative_allCreated cfg _ _ turn _) hs
    hReturned hz.requests.1).2
  refine Answers.badFree turn _ none _ s 0 (fun _ _ h => by cases h) hs ?_
  rw [hFreed]
  simp [Sweep.newBuffer, readCumulative, hCopy, Buffer.free]

/-- A program every call of `read_cumulative` of which answers `read`. -/
def steadyAnswer (read : Answer) (calls : List TurnCall) : Answer :=
  match calls.getLast? with
  | some (.readCumulative _) => read
  | _ => .zero

theorem steadyAnswer_answered {read : Answer}
    (hRead : ∀ turn, Answers cfg z (.readCumulative turn) read) :
    Answered cfg z (steadyAnswer read) := by
  intro done call
  cases call with
  | readCumulative turn =>
      rw [steadyAnswer, List.getLast?_concat]
      exact hRead turn
  | writeTurn turn =>
      rw [steadyAnswer, List.getLast?_concat]
      by_cases hInside : Inside cfg turn
      · exact .written turn hInside
      · exact .outside turn hInside .zero

theorem steadyAnswer_ne {read : Answer} (hRead : read ≠ .minusOne)
    (calls : List TurnCall) : steadyAnswer read calls ≠ .minusOne := by
  unfold steadyAnswer
  split
  · exact hRead
  · exact fun h => by cases h

end Read

section Turns

variable {cfg : Cfg} {z : Sizes}

/-- Below the top of the range the counter reaches the turn behind the last. -/
theorem rounds_turns (hRounds : cfg.rounds < 2 ^ 32 - 1) {fuel : Nat}
    (hFuel : cfg.rounds ≤ fuel) :
    rounds (fun turn => decide (turn ≤ cfg.rounds))
      (fun turn => some ((turn + 1) % 2 ^ 32)) fuel 1 =
      some ((List.range cfg.rounds).map (· + 1)) := by
  rw [rounds_eq_visits]
  apply visits_eq (· + 1) cfg.rounds _ _ hFuel
  · intro i hi
    exact ⟨decide_eq_true hi, Nat.mod_eq_of_lt (by omega)⟩
  · exact decide_eq_false (by omega)

/-- At the top of the range it does not: no 32-bit counter is above
`rounds`. -/
theorem rounds_turns_top (hRounds : cfg.rounds = 2 ^ 32 - 1) (fuel : Nat)
    {turn : Nat} (hTurn : turn < 2 ^ 32) :
    rounds (fun turn => decide (turn ≤ cfg.rounds))
      (fun turn => some ((turn + 1) % 2 ^ 32)) fuel turn = none := by
  have hCond : decide (turn ≤ cfg.rounds) = true := decide_eq_true (by omega)
  induction fuel generalizing turn with
  | zero => simp only [rounds, hCond, ↓reduceIte]
  | succ fuel ih =>
      have hNext : (turn + 1) % 2 ^ 32 < 2 ^ 32 := Nat.mod_lt _ (by decide)
      have hRest := ih hNext (decide_eq_true (by omega))
      simp only [rounds, hCond, ↓reduceIte, hRest, Option.map_none]

/-- Without copying no call that main makes inside the store ends the process,
so turns that do not fail answer 0. -/
theorem answer_zero (hCopy : cfg.copy_to_dst = false)
    {answer : List TurnCall → Answer} (hAnswered : Answered cfg z answer)
    (hNone : ∀ calls, answer calls ≠ .minusOne) {turn : Nat}
    (hInside : Inside cfg turn) {call : TurnCall} (hCall : call ∈ turnCalls turn)
    (done : List TurnCall) : answer (done ++ [call]) = .zero := by
  have hAnswers := hAnswered done call
  have hCases : call = .writeTurn turn ∨ call = .readCumulative turn := by
    simpa [turnCalls] using hCall
  rcases hCases with rfl | rfl
  · exact answers_inside hInside hAnswers
  · have hLives := answers_noCopy hCopy hAnswers
    have hNotFailed := hNone (done ++ [.readCumulative turn])
    cases hLast : answer (done ++ [.readCumulative turn]) with
    | zero => rfl
    | minusOne => exact absurd hLast hNotFailed
    | died => exact absurd hLast hLives

theorem inside_of_turn (hz : Layout cfg z) {turn : Nat} (hFirst : 1 ≤ turn)
    (hLast : turn ≤ cfg.rounds) : Inside cfg turn := by
  intro blk hBlk
  have hRounds := hz.rounds.2
  have hChunk := mem_turnChunks_of_pos hz.req_per_blocks.2
    ⟨hFirst, by omega⟩ hBlk
  have hMul := Nat.mul_le_mul_right cfg.req_per_blocks hLast
  omega

theorem visitsEachTurn_of_lt (hz : Layout cfg z)
    (hCopy : cfg.copy_to_dst = false) (hRounds : cfg.rounds < 2 ^ 32 - 1) :
    VisitsEachTurn cfg z where
  ends := by
    intro answer hAnswered hNone
    refine ⟨cfg.rounds, fun fuel hFuel => ?_⟩
    have hTurns := rounds_turns hRounds hFuel
    have hOk : ∀ turn ∈ (List.range cfg.rounds).map (· + 1),
        ∀ call ∈ turnCalls turn, ∀ done,
          decide (answer (done ++ [call]) = .zero) = true := by
      intro turn hTurn call hCall done
      obtain ⟨i, hi, rfl⟩ := List.mem_map.mp hTurn
      have hi := List.mem_range.mp hi
      have hInside := inside_of_turn hz (Nat.le_add_left 1 i) hi
      exact decide_eq_true
        (answer_zero hCopy hAnswered hNone hInside hCall done)
    have hLoop := @callLoop_of_rounds _ (fun calls => decide (answer calls = .zero))
      _ turnCalls _ _ _ _ hTurns hOk []
    rw [List.nil_append, List.flatMap_map] at hLoop
    rw [turnLoop, hLoop]
  inside := by
    intro answer _ fuel turn hCall
    have hCalls : (turnLoop cfg answer fuel).1 =
        (callLoop (fun calls => decide (answer calls = .zero))
          (fun turn => decide (turn ≤ cfg.rounds)) turnCalls
          (fun turn => some ((turn + 1) % 2 ^ 32)) fuel 1 []).1 := by
      unfold turnLoop
      split <;> simp_all
    rw [hCalls] at hCall
    have hInv := @callLoop_invariant _ _ _ turnCalls _ (fun turn => 1 ≤ turn)
      fuel 1 [] (Nat.le_refl 1) (by
        intro y y' _ hCond hNext
        have hLe : y ≤ cfg.rounds := of_decide_eq_true hCond
        obtain rfl := Option.some.inj hNext
        rw [Nat.mod_eq_of_lt (by omega)]
        omega) _ hCall
    rcases hInv with hNil | ⟨y, hy, hCond, hBody⟩
    · cases hNil
    · obtain rfl : turn = y := by simpa [turnCalls] using hBody
      exact inside_of_turn hz hy (of_decide_eq_true hCond)

/-- A loop that goes on as long as nothing fails is expected to end. -/
theorem not_visitsEachTurn_top (hz : Layout cfg z)
    (hCopy : cfg.copy_to_dst = false) (hRounds : cfg.rounds = 2 ^ 32 - 1) :
    ¬ VisitsEachTurn cfg z := by
  intro h
  have hZero : ∀ calls, steadyAnswer .zero calls = .zero := by
    intro calls
    unfold steadyAnswer
    split <;> rfl
  obtain ⟨least, hEnds⟩ := h.ends (steadyAnswer .zero)
    (steadyAnswer_answered (answers_zero_noCopy hz hCopy))
    (steadyAnswer_ne fun h => by cases h)
  have hNone := rounds_turns_top hRounds least (show 1 < 2 ^ 32 by decide)
  have hRunning := @callLoop_running _
    (fun calls => decide (steadyAnswer .zero calls = .zero)) _ turnCalls _
    (fun calls => decide_eq_true (hZero calls)) _ _ hNone []
  have hFinished := congrArg Prod.snd (hEnds least (Nat.le_refl _))
  unfold turnLoop at hFinished
  split at hFinished
  · cases hFinished
  · rename_i hLoop
    rw [hLoop] at hRunning
    cases hRunning
  · rename_i hLoop
    rw [hLoop] at hRunning
    cases hRunning

/-- With copying the process ends in the first turn. -/
theorem not_visitsEachTurn_copy (hz : Layout cfg z)
    (hCopy : cfg.copy_to_dst = true) : ¬ VisitsEachTurn cfg z := by
  intro h
  obtain ⟨least, hEnds⟩ := h.ends (steadyAnswer .died)
    (steadyAnswer_answered (answers_died_copy hz hCopy))
    (steadyAnswer_ne fun h => by cases h)
  have hFinished := congrArg Prod.snd (hEnds (least + 1) (Nat.le_succ _))
  have hFirst : decide (1 ≤ cfg.rounds) = true := decide_eq_true hz.rounds.1
  have hDied : turnLoop cfg (steadyAnswer .died) (least + 1) =
      ([.writeTurn 1, .readCumulative 1], .died) := by
    simp [turnLoop, callLoop, hFirst, turnCalls, makeCalls, steadyAnswer]
  rw [hDied] at hFinished
  cases hFinished

end Turns

/-- **The turns of the multi-turn program**: for every accepted command line
whose sizes fit, the loop of `main` does what is expected of it exactly when
nothing is copied and `rounds` is below the largest 32-bit number. -/
theorem turnLoop_visits_iff {opts : List Opt} {cfg : Cfg} {z : Sizes}
    (hArgs : parseArgs opts = .ok cfg) (hSizes : sizes cfg = some z) :
    VisitsEachTurn cfg z ↔
      cfg.copy_to_dst = false ∧ cfg.rounds < 2 ^ 32 - 1 := by
  have hz := sizes_layout (parseArgs_wellFormed hArgs) hSizes
  constructor
  · intro h
    have hCopy : cfg.copy_to_dst = false := by
      rw [← Bool.not_eq_true]
      exact fun hCopy => not_visitsEachTurn_copy hz hCopy h
    refine ⟨hCopy, ?_⟩
    by_contra hTop
    have hLt := hz.rounds
    exact not_visitsEachTurn_top hz hCopy (by omega) h
  · rintro ⟨hCopy, hRounds⟩
    exact visitsEachTurn_of_lt hz hCopy hRounds

/-- `--no-copy` alone has one turn. -/
theorem turnLoop_visits_default :
    VisitsEachTurn { defaultCfg with copy_to_dst := false }
      ⟨536870912, 64, 34359738368⟩ :=
  (@turnLoop_visits_iff [.noCopy] _ _ (by decide) (by decide)).mpr (by decide)

/-- One request with one block of 41 bytes on each of `UINT32_MAX` turns,
without copying: the sizes fit, and the loop does not end. -/
theorem turnLoop_top_never_ends :
    ∃ (cfg : Cfg) (z : Sizes),
      parseArgs [.noCopy, .requests "1".toList, .blocks "1".toList,
        .blockBytes "41".toList, .rounds "4294967295".toList] = .ok cfg ∧
      sizes cfg = some z ∧ ¬ VisitsEachTurn cfg z := by
  let cfg : Cfg :=
    { requests := 1, req_per_blocks := 1, block_bytes := 41
      rounds := 4294967295, verify := true, copy_to_dst := false, csv_path := [] }
  let z : Sizes := ⟨41, 4294967295, 176093659095⟩
  have hArgs : parseArgs [.noCopy, .requests "1".toList, .blocks "1".toList,
      .blockBytes "41".toList, .rounds "4294967295".toList] = .ok cfg := by
    decide
  have hSizes : sizes cfg = some z := by decide
  exact ⟨cfg, z, hArgs, hSizes, not_visitsEachTurn_top
    (sizes_layout (parseArgs_wellFormed hArgs) hSizes) rfl rfl⟩

end MioBench.Store.MultiTurn
