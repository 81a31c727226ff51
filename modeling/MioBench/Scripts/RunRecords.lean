import MioBench.Bench.ResultFile
import MioBench.Scripts.PythonNumbers
import MioBench.Scripts.RunDirs

/-!
# Reading a result file

`_read_bw` of `inho_parser.py` looks for a number of threads in what `main` has
written into its output file.
-/

namespace MioBench.Scripts

open Lib (DecimalText allDigits printfFixed2)
open Bench (RunResult Attempt Test)

section ReadBw

variable {py : Python} (special : py.Special)

/-- One line of the loop of `_read_bw`; `none` is `continue`. -/
def bwRow (line : List Char) : Option (ℤ × py.Double) :=
  let line := py.strip line
  if line = [] ∨ line.head? = some '#' then none
  else
    match py.split line with
    | first :: second :: _ =>
        match py.intText first, Python.floatText special second with
        | .ok threads, .ok bw => some (threads, bw)
        | _, _ => none
    | _ => none

/-- `_read_bw` -/
def readBw (lines : List (List Char)) (threads : Nat) : Option py.Double :=
  let rows := lines.filterMap (bwRow special)
  match rows.find? fun row => row.1 == (threads : ℤ) with
  | some row => some row.2
  | none => rows.getLast?.map Prod.snd

/-- The first column of a run, as it is printed. -/
def firstBandwidth (py : Python) (r : RunResult) : py.Double :=
  py.toDouble (printfFixed2 (r.bandwidth_gbps r.first)).value

/-- A header is a comment. -/
theorem bwRow_headerLine (r : RunResult) :
    bwRow special (Bench.headerLine r) = none := by
  obtain ⟨line, hLine⟩ := @strip_cons py '#' rfl
    (" Threads".toList ++ r.tests.flatMap Test.heading)
  have hStrip : py.strip (Bench.headerLine r) = '#' :: line := hLine
  unfold bwRow
  rw [hStrip]
  exact if_pos (Or.inr rfl)

/-- The words of a row. -/
theorem split_resultLine (r : RunResult) :
    py.split (Bench.resultLine r) = allDigits 1 r.num_threads ::
      r.tests.map fun test => (printfFixed2 (r.bandwidth_gbps test)).text := by
  have hWord : ∀ w ∈ allDigits 1 r.num_threads ::
      r.tests.map (fun test => (printfFixed2 (r.bandwidth_gbps test)).text),
      w ≠ [] ∧ ∀ c ∈ w, py.isSpace c = false := by
    intro w hw
    rcases List.mem_cons.mp hw with rfl | hw
    · exact ⟨Lib.allDigits_ne 1 _, fun c hc =>
        isSpace_of_isDigit (Lib.isDigit_lastDigits _ _ c hc)⟩
    · obtain ⟨test, -, rfl⟩ := List.mem_map.mp hw
      refine ⟨?_, fun c hc => isSpace_of_mem_text rfl hc⟩
      rw [text_of_fixed rfl]
      exact List.append_ne_nil_of_left_ne_nil (DecimalText.whole_ne _) _
  rw [← Lib.wordsOf_flatMap py.isSpace (show py.isSpace ' ' = true from rfl) hWord,
    List.flatMap_map]
  rfl

theorem strip_resultLine (r : RunResult) :
    ∃ c s, py.strip (Bench.resultLine r) = c :: s ∧ c ≠ '#' := by
  cases hDigits : allDigits 1 r.num_threads with
  | nil => exact absurd hDigits (Lib.allDigits_ne 1 _)
  | cons c digits =>
      have hDigit : c.isDigit = true := Lib.isDigit_lastDigits _ _ c (by
        rw [allDigits] at hDigits
        rw [hDigits]
        exact List.mem_cons_self)
      have hLine : Bench.resultLine r = c :: (digits ++ r.tests.flatMap fun test =>
          ' ' :: (printfFixed2 (r.bandwidth_gbps test)).text) := by
        rw [Bench.resultLine, hDigits]
        rfl
      obtain ⟨s, hStrip⟩ := @strip_cons py c (isSpace_of_isDigit hDigit)
        (digits ++ r.tests.flatMap fun test =>
          ' ' :: (printfFixed2 (r.bandwidth_gbps test)).text)
      refine ⟨c, s, ?_, ?_⟩
      · rw [hLine, hStrip]
      · rintro rfl
        cases hDigit

/-- `int` reads a number that it accepts. -/
theorem intText_of_fits {n : Nat} (h : IntFits py n) :
    py.intText (plain n) = .ok (n : ℤ) := by
  have hInt : py.int (allDigits 1 n) = .ok n := int_plain_iff.mpr ⟨h, rfl⟩
  rw [plain, intText_plain, hInt]
  rfl

/-- The row of a run is read back. -/
theorem bwRow_resultLine {r : RunResult} (hFits : IntFits py r.num_threads) :
    bwRow special (Bench.resultLine r) =
      some ((r.num_threads : ℤ), firstBandwidth py r) := by
  obtain ⟨c, s, hStrip, hNe⟩ := @strip_resultLine py r
  have hText : ¬ (py.strip (Bench.resultLine r) = [] ∨
      (py.strip (Bench.resultLine r)).head? = some '#') := by
    rw [hStrip]
    simp [hNe]
  have hThreads : py.intText (allDigits 1 r.num_threads) =
      .ok (r.num_threads : ℤ) := intText_of_fits hFits
  have hTests : r.tests = r.first :: r.tests.tail :=
    (List.cons_head_tail r.tests_ne).symm
  have hBw := floatText_of_fixed special
    (show (printfFixed2 (r.bandwidth_gbps r.first)).exponent = none from rfl)
  unfold bwRow
  dsimp only
  rw [if_neg hText, split_strip, split_resultLine, hTests]
  simp only [List.map_cons, hThreads, hBw]
  rfl

theorem filterMap_resultLines {rs : List RunResult}
    (hFits : ∀ r ∈ rs, IntFits py r.num_threads) :
    (Bench.resultLines rs).filterMap (bwRow special) =
      rs.map fun r => ((r.num_threads : ℤ), firstBandwidth py r) := by
  have hRows : ∀ rs' : List RunResult, (∀ r ∈ rs', IntFits py r.num_threads) →
      (rs'.map Bench.resultLine).filterMap (bwRow special) =
        rs'.map fun r => ((r.num_threads : ℤ), firstBandwidth py r) := by
    intro rs' hFits'
    induction rs' with
    | nil => rfl
    | cons r rs' ih =>
        have hRow := bwRow_resultLine special (hFits' r List.mem_cons_self)
        have hRest := ih fun r' hr' => hFits' r' (List.mem_cons_of_mem _ hr')
        rw [List.map_cons, List.filterMap_cons_some hRow, hRest, List.map_cons]
  cases rs with
  | nil => rfl
  | cons r rs =>
      rw [Bench.resultLines,
        List.filterMap_cons_none (bwRow_headerLine special r), hRows _ hFits]

/-- What is found in the rows of some runs. -/
def bandwidthFor (rs : List RunResult) (threads : Nat) : Option RunResult :=
  (rs.find? fun r => r.num_threads == threads).or rs.getLast?

theorem readBw_resultLines {rs : List RunResult} (threads : Nat)
    (hFits : ∀ r ∈ rs, IntFits py r.num_threads) :
    readBw special (Bench.resultLines rs) threads =
      (bandwidthFor rs threads).map (firstBandwidth py) := by
  have hSame : ((fun row : ℤ × py.Double => row.1 == (threads : ℤ)) ∘
      fun r : RunResult => ((r.num_threads : ℤ), firstBandwidth py r)) =
      fun r => r.num_threads == threads := by
    funext r
    simp [beq_eq_decide]
  unfold readBw bandwidthFor
  dsimp only
  rw [filterMap_resultLines special hFits, List.find?_map, hSame,
    List.getLast?_map]
  cases rs.find? fun r => r.num_threads == threads with
  | none =>
      cases rs.getLast? with
      | none => rfl
      | some r => rfl
  | some r => rfl

/-- The file of one run. -/
theorem readBw_completed {r : RunResult} (hFits : IntFits py r.num_threads) :
    readBw special ((Bench.outputFile [.completed r]).getD []) r.num_threads =
      some (firstBandwidth py r) := by
  have hOne : ∀ r' ∈ [r], IntFits py r'.num_threads := by
    intro r' hr'
    rw [List.mem_singleton.mp hr']
    exact hFits
  rw [Bench.outputFile_lines,
    show Bench.completedRuns [.completed r] = [r] from rfl,
    readBw_resultLines special r.num_threads hOne]
  simp [bandwidthFor]

end ReadBw

/-- An interpreter without infinities. -/
def asciiSpecial : asciiPython.Special where
  inf := (0 : ℚ)
  nan := (0 : ℚ)
  neg := fun q : ℚ => -q

end MioBench.Scripts
