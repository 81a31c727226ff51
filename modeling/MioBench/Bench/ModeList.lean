import MioBench.Lib.Tokens

/-!
# Mode lists

How `main` of the benchmark gets from the string given to `--mode` to the flags
of the tests it runs.  The string is cut at its commas and every piece is
checked; then the combined modes are expanded, and the flags are set.  The
expansion knows `all`, but the check only lets it through as the whole string.
-/

namespace MioBench.Bench

open MioBench.Lib

/-- The tests. -/
inductive Test
  | seqRead
  | seqWrite
  | randomRead
  | randomWrite
  | strideRead
  | strideWrite
  | zipfianRead
  | pointerChase
  deriving DecidableEq, Repr

/-- The names of the detailed modes. -/
def Test.name : Test → List Char
  | .seqRead => "seq_read".toList
  | .seqWrite => "seq_write".toList
  | .randomRead => "random_read".toList
  | .randomWrite => "random_write".toList
  | .strideRead => "stride_read".toList
  | .strideWrite => "stride_write".toList
  | .zipfianRead => "zipfian_read".toList
  | .pointerChase => "pointer_chase".toList

/-! ## Parsing -/

/-- The test in front of "Invalid mode". -/
def isMode (token : List Char) : Bool :=
  token == "seq".toList || token == "random".toList ||
    token == "stride".toList || token == "seq_read".toList ||
    token == "seq_write".toList || token == "random_read".toList ||
    token == "random_write".toList || token == "stride_read".toList ||
    token == "stride_write".toList || token == "pointer_chase".toList ||
    token == "zipfian".toList || token == "zipfian_read".toList

/-- The loop around `getline`; `none` is the return at the first invalid
token. -/
def pushModes : List (List Char) → Option (List (List Char))
  | [] => some []
  | token :: tokens =>
      if isMode token then (pushModes tokens).map (token :: ·) else none

/-- `modes`, or `none` where `main` returns 1. -/
def parseModes (mode : List Char) : Option (List (List Char)) :=
  let modes :=
    if mode = "all".toList then
      some ["seq".toList, "random".toList, "stride".toList]
    else pushModes (getlines ',' mode.length mode)
  modes.bind fun modes => if modes = [] then none else some modes

/-- One round of the loop that fills `expanded_modes`. -/
def expandMode (m : List Char) : List (List Char) :=
  if m = "seq".toList then [Test.seqRead.name, Test.seqWrite.name]
  else if m = "random".toList then [Test.randomRead.name, Test.randomWrite.name]
  else if m = "stride".toList then [Test.strideRead.name, Test.strideWrite.name]
  else if m = "zipfian".toList then [Test.zipfianRead.name]
  else if m = "all".toList then
    [Test.seqRead.name, Test.seqWrite.name, Test.randomRead.name,
      Test.randomWrite.name, Test.strideRead.name, Test.strideWrite.name]
  else [m]

/-- The flags `run_seq_read`, .., one for each test. -/
abbrev RunFlags := Test → Bool

/-- One round of the loop that sets the flags. -/
def setFlag (flags : RunFlags) (m : List Char) : RunFlags :=
  fun test => if m = test.name then true else flags test

/-- The flags `main` goes on with; `none` where it returned before. -/
def runFlags (mode : List Char) : Option RunFlags :=
  (parseModes mode).map fun modes =>
    (modes.flatMap expandMode).foldl setFlag fun _ => false

/-! ## What a list of modes denotes -/

/-- The modes of the error message, with the tests they stand for. -/
def validModes : List (List Char × List Test) :=
  [("seq_read".toList, [.seqRead]),
    ("seq_write".toList, [.seqWrite]),
    ("random_read".toList, [.randomRead]),
    ("random_write".toList, [.randomWrite]),
    ("stride_read".toList, [.strideRead]),
    ("stride_write".toList, [.strideWrite]),
    ("zipfian_read".toList, [.zipfianRead]),
    ("pointer_chase".toList, [.pointerChase]),
    ("seq".toList, [.seqRead, .seqWrite]),
    ("random".toList, [.randomRead, .randomWrite]),
    ("stride".toList, [.strideRead, .strideWrite]),
    ("zipfian".toList, [.zipfianRead]),
    ("all".toList, [.seqRead, .seqWrite, .randomRead, .randomWrite, .strideRead,
      .strideWrite])]

def modeNames : List (List Char) := validModes.map Prod.fst

/-- The comma-joined list is accepted, and the tests run are those its members
stand for. -/
def DenotesUnion (l : List (List Char)) : Prop :=
  ∃ flags, runFlags ([','].intercalate l) = some flags ∧
    ∀ test, flags test = true ↔
      ∃ m ∈ l, ∃ tests, (m, tests) ∈ validModes ∧ test ∈ tests

/-! ## Expansion -/

theorem setFlag_foldl {expanded_modes : List (List Char)} {flags : RunFlags}
    (test : Test) :
    expanded_modes.foldl setFlag flags test = true ↔
      flags test = true ∨ test.name ∈ expanded_modes := by
  induction expanded_modes generalizing flags with
  | nil => simp
  | cons m expanded_modes ih =>
      rw [List.foldl_cons, ih, setFlag, List.mem_cons]
      by_cases hName : m = test.name
      · simp [hName]
      · simp [hName, Ne.symm hName]

/-- The expansion of a mode is the tests it stands for. -/
theorem name_mem_expandMode {m : List Char} {tests : List Test}
    (h : (m, tests) ∈ validModes) (test : Test) :
    test.name ∈ expandMode m ↔ test ∈ tests := by
  have hTable : ∀ row ∈ validModes,
      (test.name ∈ expandMode row.1 ↔ test ∈ row.2) := by
    cases test <;> decide
  exact hTable (m, tests) h

theorem flags_of_modes {modes : List (List Char)}
    (hValid : ∀ m ∈ modes, m ∈ modeNames) (test : Test) :
    (modes.flatMap expandMode).foldl setFlag (fun _ => false) test = true ↔
      ∃ m ∈ modes, ∃ tests, (m, tests) ∈ validModes ∧ test ∈ tests := by
  rw [setFlag_foldl, List.mem_flatMap]
  simp only [Bool.false_eq_true, false_or]
  constructor
  · rintro ⟨m, hm, hTest⟩
    obtain ⟨row, hRow, rfl⟩ := List.mem_map.mp (hValid m hm)
    exact ⟨row.1, hm, row.2, hRow, (name_mem_expandMode hRow test).mp hTest⟩
  · rintro ⟨m, hm, tests, hRow, hTest⟩
    exact ⟨m, hm, (name_mem_expandMode hRow test).mpr hTest⟩

/-! ## Checking -/

theorem pushModes_eq_some {tokens : List (List Char)}
    (h : ∀ token ∈ tokens, isMode token = true) :
    pushModes tokens = some tokens := by
  induction tokens with
  | nil => rfl
  | cons token tokens ih =>
      have hRest := ih fun token' hToken => h token' (List.mem_cons_of_mem _ hToken)
      simp [pushModes, h token List.mem_cons_self, hRest]

theorem pushModes_eq_none {tokens : List (List Char)} {token : List Char}
    (h : token ∈ tokens) (hBad : isMode token = false) :
    pushModes tokens = none := by
  induction tokens with
  | nil => cases h
  | cons first tokens ih =>
      rcases List.mem_cons.mp h with rfl | hLater
      · simp [pushModes, hBad]
      · simp [pushModes, ih hLater]

/-- The check knows all valid modes but one. -/
theorem isMode_iff (m : List Char) :
    isMode m = true ↔ m ∈ modeNames ∧ m ≠ "all".toList := by
  have hNames : ∀ name ∈ modeNames, name ≠ "all".toList → isMode name = true := by
    decide
  constructor
  · intro h
    simp only [isMode, Bool.or_eq_true, beq_iff_eq, or_assoc] at h
    rcases h with rfl | rfl | rfl | rfl | rfl | rfl | rfl | rfl | rfl | rfl |
      rfl | rfl <;> decide
  · intro h
    exact hNames m h.1 h.2

/-- A token that is not empty is seen by the check, except in `all`. -/
theorem runFlags_eq_none {mode token : List Char}
    (h : token ∈ mode.splitOn ',') (hNe : token ≠ [])
    (hBad : isMode token = false) (hAll : mode ≠ "all".toList) :
    runFlags mode = none := by
  have hMem : token ∈ getlines ',' mode.length mode := by
    rw [getlines_eq (Nat.le_refl _)]
    exact mem_withoutLast h hNe
  simp only [runFlags, parseModes, if_neg hAll, pushModes_eq_none hMem hBad,
    Option.bind_none, Option.map_none]

/-- Valid names are not empty and have no comma, so a list of them comes back
from its string. -/
theorem splitOn_intercalate_modes {l : List (List Char)} (hNe : l ≠ [])
    (hValid : ∀ m ∈ l, m ∈ modeNames) :
    ([','].intercalate l).splitOn ',' = l := by
  have hComma : ∀ name ∈ modeNames, ',' ∉ name := by decide
  exact List.splitOn_intercalate ',' (fun m hm => hComma m (hValid m hm)) hNe

theorem intercalate_eq_all_iff {l : List (List Char)} (hNe : l ≠ [])
    (hValid : ∀ m ∈ l, m ∈ modeNames) :
    [','].intercalate l = "all".toList ↔ l = ["all".toList] := by
  constructor
  · intro hAll
    have hSplit := splitOn_intercalate_modes hNe hValid
    rw [hAll] at hSplit
    exact hSplit.symm.trans (by decide)
  · intro hl
    rw [hl]
    decide

/-- A list without `all` is let through as it is. -/
theorem parseModes_intercalate {l : List (List Char)} (hNe : l ≠ [])
    (hValid : ∀ m ∈ l, m ∈ modeNames) (hAll : "all".toList ∉ l) :
    parseModes ([','].intercalate l) = some l := by
  have hSplit := splitOn_intercalate_modes hNe hValid
  have hString : [','].intercalate l ≠ "all".toList := by
    intro hEq
    rw [(intercalate_eq_all_iff hNe hValid).mp hEq] at hAll
    exact hAll List.mem_cons_self
  have hEmpty : ∀ name ∈ modeNames, name ≠ [] := by decide
  have hLast : l.getLast? ≠ some [] := by
    intro hLast
    exact hEmpty [] (hValid [] (List.mem_of_getLast? hLast)) rfl
  have hTokens : getlines ',' ([','].intercalate l).length ([','].intercalate l)
      = l := by
    rw [getlines_eq (Nat.le_refl _), hSplit, withoutLast, if_neg hLast]
  have hModes : ∀ m ∈ l, isMode m = true := by
    intro m hm
    refine (isMode_iff m).mpr ⟨hValid m hm, ?_⟩
    intro hEq
    exact hAll (hEq ▸ hm)
  simp only [parseModes, if_neg hString, hTokens, pushModes_eq_some hModes,
    Option.bind_some, if_neg hNe]

/-- **Mode lists**: a list of valid modes denotes the union of its members
exactly when it is `all` alone or does not contain `all`; and no string with an
invalid token is accepted. -/
theorem runFlags_denotesUnion_iff (l : List (List Char)) (hNe : l ≠ [])
    (hValid : ∀ m ∈ l, m ∈ modeNames) :
    (DenotesUnion l ↔ ("all".toList ∈ l → l = ["all".toList])) ∧
    ∀ mode : List Char,
      (∃ token ∈ mode.splitOn ',', token ≠ [] ∧ token ∉ modeNames) →
      runFlags mode = none := by
  refine ⟨⟨?_, ?_⟩, ?_⟩
  · rintro ⟨flags, hFlags, _⟩ hMem
    by_contra hMore
    have hString : [','].intercalate l ≠ "all".toList := fun hEq =>
      hMore ((intercalate_eq_all_iff hNe hValid).mp hEq)
    have hNone := @runFlags_eq_none ([','].intercalate l) "all".toList
      (by rw [splitOn_intercalate_modes hNe hValid]; exact hMem) (by decide)
      (by decide) hString
    rw [hNone] at hFlags
    cases hFlags
  · intro hAlone
    by_cases hAll : "all".toList ∈ l
    · rw [hAlone hAll]
      have hModes : parseModes ([','].intercalate ["all".toList]) =
          some ["seq".toList, "random".toList, "stride".toList] := by decide
      have hSame : ["seq".toList, "random".toList, "stride".toList].flatMap
          expandMode = ["all".toList].flatMap expandMode := by decide
      refine ⟨_, congrArg (Option.map _) hModes, ?_⟩
      dsimp only
      rw [hSame]
      exact flags_of_modes (by decide)
    · have hModes := parseModes_intercalate hNe hValid hAll
      exact ⟨_, congrArg (Option.map _) hModes, flags_of_modes hValid⟩
  · rintro mode ⟨token, hMem, hToken, hBad⟩
    have hMode : isMode token = false := by
      rw [← Bool.not_eq_true, isMode_iff]
      exact fun h => hBad h.1
    apply runFlags_eq_none hMem hToken hMode
    rintro rfl
    have hAll : token = "all".toList := by
      have hSplit : "all".toList.splitOn ',' = ["all".toList] := by decide
      rw [hSplit] at hMem
      exact List.mem_singleton.mp hMem
    exact hBad (hAll ▸ by decide)

/-- A list with repetitions. -/
theorem runFlags_denotesUnion_two :
    DenotesUnion ["stride".toList, "seq_read".toList, "stride".toList] :=
  (runFlags_denotesUnion_iff ["stride".toList, "seq_read".toList,
    "stride".toList] (by decide) (by decide)).1.mpr (by decide)

/-- `seq,all` is rejected. -/
theorem runFlags_all_rejected :
    (∀ m ∈ ["seq".toList, "all".toList], m ∈ modeNames) ∧
      runFlags "seq,all".toList = none ∧
      ¬ DenotesUnion ["seq".toList, "all".toList] := by
  have hModes : parseModes "seq,all".toList = none := by decide
  have hNone : runFlags "seq,all".toList = none := congrArg (Option.map _) hModes
  refine ⟨by decide, hNone, ?_⟩
  rintro ⟨flags, hFlags, _⟩
  have hString : [','].intercalate ["seq".toList, "all".toList] =
      "seq,all".toList := by decide
  rw [hString, hNone] at hFlags
  cases hFlags

end MioBench.Bench
