import MioBench.Bench.ModeList
import MioBench.Lib.Rounding

/-!
# The result file

What `main` writes into its output file: a header with a column for each test
that is run, and a row with the number of threads and the bandwidths.  The name
of the file is the local time in seconds, so several runs may come to share one.
They are taken one after another, each ended before the next one looks for the
header; of runs that overlap each may find none, and they may overwrite one
another's rows.
-/

namespace MioBench.Bench

open MioBench.Lib

/-! ## The file -/

/-- The order of the columns. -/
def columnOrder : List Test :=
  [.seqRead, .seqWrite, .randomRead, .randomWrite, .strideRead, .strideWrite,
    .zipfianRead, .pointerChase]

/-- The heading of a column. -/
def Test.heading : Test → List Char
  | .seqRead => " SeqRead(GB/s)".toList
  | .seqWrite => " SeqWrite(GB/s)".toList
  | .randomRead => " RandRead(GB/s)".toList
  | .randomWrite => " RandWrite(GB/s)".toList
  | .strideRead => " StrideRead(GB/s)".toList
  | .strideWrite => " StrideWrite(GB/s)".toList
  | .zipfianRead => " ZipfianRead(GB/s)".toList
  | .pointerChase => " PointerChase(GB/s)".toList

/-- What a run that comes to its end has measured. -/
structure RunResult where
  num_threads : Nat
  mode : List Char
  flags : RunFlags
  accepted : runFlags mode = some flags
  bandwidth_gbps : Test → ℚ
  nonneg : ∀ test, 0 ≤ bandwidth_gbps test

/-- The tests of a run, in the order of the columns. -/
def RunResult.tests (r : RunResult) : List Test := columnOrder.filter r.flags

/-- A mode that is checked stands for a test. -/
theorem exists_mem_expandMode {m : List Char} (h : isMode m = true) :
    ∃ test : Test, test.name ∈ expandMode m := by
  have hTable : ∀ row ∈ validModes, row.2 ≠ [] := by decide
  obtain ⟨row, hRow, rfl⟩ := List.mem_map.mp ((isMode_iff m).mp h).1
  obtain ⟨test, hTest⟩ := List.exists_mem_of_ne_nil row.2 (hTable row hRow)
  exact ⟨test, (name_mem_expandMode hRow test).mpr hTest⟩

theorem isMode_of_pushModes {tokens modes : List (List Char)}
    (h : pushModes tokens = some modes) : ∀ m ∈ modes, isMode m = true := by
  induction tokens generalizing modes with
  | nil =>
      obtain rfl : [] = modes := by simpa [pushModes] using h
      simp
  | cons token tokens ih =>
      rw [pushModes] at h
      split at h
      · rename_i hMode
        obtain ⟨rest, hRest, rfl⟩ := Option.map_eq_some_iff.mp h
        intro m hm
        rcases List.mem_cons.mp hm with rfl | hm
        · exact hMode
        · exact ih hRest m hm
      · cases h

/-- A string that is accepted names a test. -/
theorem exists_flag {mode : List Char} {flags : RunFlags}
    (h : runFlags mode = some flags) : ∃ test, flags test = true := by
  obtain ⟨modes, hModes, rfl⟩ := Option.map_eq_some_iff.mp h
  obtain ⟨pushed, hPushed, hNe⟩ := Option.bind_eq_some_iff.mp hModes
  obtain ⟨hNonempty, hEq⟩ : pushed ≠ [] ∧ pushed = modes := by
    split at hNe
    · cases hNe
    · rename_i hNonempty
      exact ⟨hNonempty, by simpa using hNe⟩
  subst hEq
  obtain ⟨m, hm⟩ := List.exists_mem_of_ne_nil pushed hNonempty
  have hMode : isMode m = true := by
    split at hPushed
    · obtain rfl : _ = pushed := by simpa using hPushed
      revert m
      decide
    · exact isMode_of_pushModes hPushed m hm
  obtain ⟨test, hTest⟩ := exists_mem_expandMode hMode
  exact ⟨test, setFlag_foldl test |>.mpr (Or.inr
    (List.mem_flatMap.mpr ⟨m, hm, hTest⟩))⟩

theorem RunResult.tests_ne (r : RunResult) : r.tests ≠ [] := by
  obtain ⟨test, hTest⟩ := exists_flag r.accepted
  have hColumn : test ∈ columnOrder := by cases test <;> decide
  exact List.ne_nil_of_mem (List.mem_filter.mpr ⟨hColumn, hTest⟩)

/-- The test of the first column. -/
def RunResult.first (r : RunResult) : Test := r.tests.head r.tests_ne

theorem Test.name_inj {test test' : Test} (h : test.name = test'.name) :
    test = test' := by
  revert h
  cases test <;> cases test' <;> decide

/-- The mode of one test. -/
theorem runFlags_name (test : Test) :
    runFlags test.name = some fun t => decide (t = test) := by
  have hModes : parseModes test.name = some [test.name] := by
    cases test <;> decide
  have hMode : [test.name].flatMap expandMode = [test.name] := by
    cases test <;> decide
  rw [runFlags, hModes, Option.map_some, hMode]
  congr 1
  funext t
  rw [Bool.eq_iff_iff, setFlag_foldl]
  constructor
  · rintro (hFalse | hMem)
    · cases hFalse
    · simpa using Test.name_inj (List.mem_singleton.mp hMem)
  · intro hEq
    right
    rw [show t = test by simpa using hEq]
    exact List.mem_singleton_self _

theorem RunResult.first_of_name {r : RunResult} {test : Test}
    (h : r.mode = test.name) : r.first = test := by
  have hFlags : r.flags test = true ∧ ∀ t, r.flags t = true → t = test := by
    have hAccepted := r.accepted
    rw [h, runFlags_name, Option.some.injEq] at hAccepted
    rw [← hAccepted]
    exact ⟨by simp, fun t ht => by simpa using ht⟩
  have hMem : r.first ∈ r.tests := List.head_mem _
  exact hFlags.2 _ (List.mem_filter.mp hMem).2

/-- What a run of one test has measured, in MB/s. -/
def RunResult.ofTest (num_threads : Nat) (test : Test) (bandwidth_mbps : Nat) :
    RunResult where
  num_threads := num_threads
  mode := test.name
  flags t := decide (t = test)
  accepted := runFlags_name test
  bandwidth_gbps _ := (bandwidth_mbps : ℚ) / ((1000 : Nat) : ℚ)
  nonneg _ := div_nonneg (Nat.cast_nonneg _) (Nat.cast_nonneg _)

def headerLine (r : RunResult) : List Char :=
  "# Threads".toList ++ r.tests.flatMap Test.heading

def resultLine (r : RunResult) : List Char :=
  allDigits 1 r.num_threads ++ r.tests.flatMap fun test =>
    ' ' :: (printfFixed2 (r.bandwidth_gbps test)).text

/-- `has_header`: the first line begins with `# Threads`. -/
def hasHeader (lines : List (List Char)) : Bool :=
  match lines with
  | [] => false
  | first :: _ => "# Threads".toList.isPrefixOf first

/-- How a run that is given this output file may go. -/
inductive Attempt
  /-- `main` returns before it makes the directory of the file. -/
  | refused
  /-- `main` returns before it opens the file. -/
  | rejected
  /-- The process ends before the buffer of the open file is written. -/
  | killed
  | completed (r : RunResult)

/-- The lines of the file after a run that has it for itself; `none` is no
file. -/
def afterAttempt (file : Option (List (List Char))) :
    Attempt → Option (List (List Char))
  | .refused => file
  | .rejected => file
  | .killed => some (file.getD [])
  | .completed r =>
      let lines := file.getD []
      some (lines ++ (if hasHeader lines then [] else [headerLine r]) ++
        [resultLine r])

/-- The file after some runs, each of which has ended before the next. -/
def outputFile (attempts : List Attempt) : Option (List (List Char)) :=
  attempts.foldl afterAttempt none

def Attempt.result : Attempt → Option RunResult
  | completed r => some r
  | _ => none

/-- The runs that have come to their end. -/
def completedRuns (attempts : List Attempt) : List RunResult :=
  attempts.filterMap Attempt.result

/-- The header of the first run and the rows of all. -/
def resultLines : List RunResult → List (List Char)
  | [] => []
  | r :: rs => headerLine r :: (r :: rs).map resultLine

theorem hasHeader_resultLines (rs : List RunResult) :
    hasHeader (resultLines rs) = !rs.isEmpty := by
  cases rs with
  | nil => rfl
  | cons r rs =>
      have hHead : "# Threads".toList <+: headerLine r := List.prefix_append _ _
      simpa [resultLines, hasHeader] using hHead

/-- One header, whatever becomes of the runs, one after another. -/
theorem outputFile_lines (attempts : List Attempt) :
    (outputFile attempts).getD [] = resultLines (completedRuns attempts) := by
  induction attempts using List.reverseRecOn with
  | nil => rfl
  | append_singleton attempts a ih =>
      have hStep : outputFile (attempts ++ [a]) =
          afterAttempt (outputFile attempts) a := by
        rw [outputFile, List.foldl_append]
        rfl
      have hRuns : completedRuns (attempts ++ [a]) =
          completedRuns attempts ++ a.result.toList := by
        rw [completedRuns, List.filterMap_append]
        cases a <;> rfl
      rw [hStep, hRuns]
      cases a with
      | refused => simpa [afterAttempt, Attempt.result] using ih
      | rejected => simpa [afterAttempt, Attempt.result] using ih
      | killed => simpa [afterAttempt, Attempt.result] using ih
      | completed r =>
          show (outputFile attempts).getD [] ++ _ ++ _ = _
          rw [ih, hasHeader_resultLines]
          cases completedRuns attempts with
          | nil => rfl
          | cons r' rs => simp [resultLines, Attempt.result]

end MioBench.Bench
