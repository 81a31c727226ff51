import MioBench.Bench.LatencySummary
import MioBench.Bench.ResultFile
import MioBench.Scripts.Csv
import MioBench.Scripts.RunRecords

/-!
# The summary of a pointer-chase sweep

`sweep_pointer_chase.sh` puts a row for each point into `summary.csv`: the bandwidth
from what the benchmark has printed, the latency columns from its latency log.
`parse_mmpt` of `inho_parser.py` reads the file and skips the points without samples.
-/

namespace MioBench.Scripts

open Lib (Collation DecimalText printfFixed2)
open Bench (Awk binary64Awk saveLatencyLog aggLat fields)

/-! ## What a point leaves behind -/

def loadBandwidth : List Char := "Load Bandwidth:".toList

/-- The output of one run of the sweep. -/
structure ChaseOutput where
  bandwidth_gbps : ℚ
  elapsed_ms : ℚ
  nonneg : 0 ≤ bandwidth_gbps ∧ 0 ≤ elapsed_ms
  /-- What is printed in front of the bandwidth, and behind it. -/
  before : List (List Char)
  after : List (List Char)
  before_other : ∀ line ∈ before, loadBandwidth.isPrefixOf line = false
  /-- The samples in nanoseconds and the frequency, if latencies are measured. -/
  log : Option (List ℚ × ℚ)
  log_nonneg : ∀ samples freq, log = some (samples, freq) → ∀ x ∈ samples, 0 ≤ x

/-- A point of the sweep, and what is in its directory. -/
structure ChasePoint extends ChaseOutput where
  t : Nat
  d : Nat

/-- The points in the order of the loops, where `output` is what each directory holds
when the runs are over. -/
def chasePoints (THREAD_COUNTS INJECT_DELAYS : List Nat)
    (output : Nat → Nat → ChaseOutput) : List ChasePoint :=
  THREAD_COUNTS.flatMap fun t =>
    INJECT_DELAYS.map fun d => { output t d with t := t, d := d }

namespace ChasePoint

variable (p : ChasePoint)

/-- `printf("Load Bandwidth: %.2f GB/s (%.2f ms)\n", ..)` -/
def bandwidthLine : List Char :=
  "Load Bandwidth: ".toList ++ (printfFixed2 p.bandwidth_gbps).text ++
    " GB/s (".toList ++ (printfFixed2 p.elapsed_ms).text ++ " ms)".toList

/-- `stdout.log` -/
def stdoutLog : List (List Char) := p.before ++ p.bandwidthLine :: p.after

/-- `pointer_chase_latency.log` -/
def latLog : Option (List (List Char)) :=
  p.log.map fun log => saveLatencyLog log.1 log.2

end ChasePoint

/-! ## The summary -/

/-- `grep -m1 -E '^Load Bandwidth:'`, which fails where there is no such line. -/
def grepFirst (lines : List (List Char)) : Option (List Char) :=
  lines.find? fun line => loadBandwidth.isPrefixOf line

/-- `awk '{print $3}'`, and `NA` for nothing. -/
def thirdField (line : List Char) : List Char :=
  match (fields line)[2]? with
  | none => "NA".toList
  | some field => field

/-- The latency columns. -/
def latencyColumns (awk : Awk) (locale : Collation (List Char)) :
    Option (List (List Char)) → List (List Char)
  | none => ["NA".toList, "NA".toList, "NA".toList, "0".toList]
  | some file =>
      if file = [] then ["NA".toList, "NA".toList, "NA".toList, "0".toList]
      else
        match aggLat awk locale file with
        | none => ["NA".toList, "NA".toList, "NA".toList, "0".toList]
        | some s =>
            [s.mean.text, s.p50.text, s.p99.text, plain s.n]

/-- The columns of a point; `none` is the end of the script. -/
def summaryRow (awk : Awk) (locale : Collation (List Char)) (p : ChasePoint) :
    Option (List (List Char)) :=
  (grepFirst p.stdoutLog).map fun line =>
    plain p.t :: plain p.d :: thirdField line :: latencyColumns awk locale p.latLog

/-- The rows up to the first point at which the script ends. -/
def summaryRows (awk : Awk) (locale : Collation (List Char)) :
    List ChasePoint → List (List (List Char))
  | [] => []
  | p :: points =>
      match summaryRow awk locale p with
      | none => []
      | some row => row :: summaryRows awk locale points

def summaryHeader : List Char :=
  "threads,delay_cycles,bw_gbps,mean_ns,p50_ns,p99_ns,samples".toList

/-- `summary.csv` -/
def summaryCsv (awk : Awk) (locale : Collation (List Char)) (points : List ChasePoint) :
    List (List Char) :=
  summaryHeader :: (summaryRows awk locale points).map csvLine

/-! ## Parsing -/

structure MmptRecord (py : Python) where
  threads : ℤ
  delay_cycles : ℤ
  bw_gbps : py.Double
  mean_ns : py.Double
  p50_ns : py.Double
  p99_ns : py.Double
  samples : ℤ

/-- How a row may fail. -/
inductive RowError
  /-- `except (ValueError, KeyError): continue` -/
  | skip
  /-- `TypeError`, from `int(None)` or `float(None)`. -/
  | typeError
  deriving DecidableEq, Repr

/-- `int(row[name])` or `float(row[name])`. -/
def readCell {α : Type} (read : List Char → Except PyError α) : Cell → Except RowError α
  | .missing => .error .skip
  | .none => .error .typeError
  | .text s =>
      match read s with
      | .ok a => .ok a
      | .error _ => .error .skip

section Parse

variable {py : Python} (special : py.Special)

def parseMmptRow (fieldnames row : List (List Char)) :
    Except RowError (MmptRecord py) := do
  let value := fun name : String => cell fieldnames row name.toList
  let threads ← readCell py.intText (value "threads")
  let delay_cycles ← readCell py.intText (value "delay_cycles")
  let bw_gbps ← readCell (Python.floatText special) (value "bw_gbps")
  let mean_ns ← readCell (Python.floatText special) (value "mean_ns")
  let p50_ns ← readCell (Python.floatText special) (value "p50_ns")
  let p99_ns ← readCell (Python.floatText special) (value "p99_ns")
  let samples ← readCell py.intText (value "samples")
  return {
    threads := threads
    delay_cycles := delay_cycles
    bw_gbps := bw_gbps
    mean_ns := mean_ns
    p50_ns := p50_ns
    p99_ns := p99_ns
    samples := samples }

/-- The loop over the rows; `none` is `TypeError`. -/
def parseMmptRows (fieldnames : List (List Char)) :
    List (List (List Char)) → Option (List (MmptRecord py))
  | [] => some []
  | row :: rows =>
      match parseMmptRow special fieldnames row with
      | .ok r => (parseMmptRows fieldnames rows).map (r :: ·)
      | .error .skip => parseMmptRows fieldnames rows
      | .error .typeError => none

/-- `parse_mmpt`, of a file that exists. -/
def parseMmpt (lines : List (List Char)) : Option (List (MmptRecord py)) :=
  let (fieldnames, rows) := dictRows lines
  parseMmptRows special fieldnames rows

end Parse

/-! ## The rows of the file -/

/-- The fields of the line with the bandwidth. -/
theorem fields_bandwidthLine (p : ChasePoint) :
    fields p.bandwidthLine =
      ["Load".toList, "Bandwidth:".toList, (printfFixed2 p.bandwidth_gbps).text,
        "GB/s".toList, '(' :: (printfFixed2 p.elapsed_ms).text, "ms)".toList] := by
  have hText : ∀ x : ℚ, (printfFixed2 x).text ≠ [] ∧
      ∀ c ∈ (printfFixed2 x).text, Bench.fieldSep c = false :=
    fun x => ⟨Bench.text_ne _, fun _ hc => Bench.fieldSep_of_mem_text _ hc⟩
  have hWords : ∀ w ∈ ["Load".toList, "Bandwidth:".toList,
      (printfFixed2 p.bandwidth_gbps).text, "GB/s".toList,
      '(' :: (printfFixed2 p.elapsed_ms).text, "ms)".toList],
      w ≠ [] ∧ ∀ c ∈ w, Bench.fieldSep c = false := by
    simp only [List.forall_mem_cons, List.not_mem_nil, false_imp_iff, implies_true,
      and_true]
    refine ⟨⟨List.cons_ne_nil _ _, Lib.eq_false_of_all rfl⟩,
      ⟨List.cons_ne_nil _ _, Lib.eq_false_of_all rfl⟩, hText _,
      ⟨List.cons_ne_nil _ _, Lib.eq_false_of_all rfl⟩, ⟨List.cons_ne_nil _ _, ?_⟩,
      ⟨List.cons_ne_nil _ _, Lib.eq_false_of_all rfl⟩⟩
    exact ⟨rfl, (hText _).2⟩
  have hLine : p.bandwidthLine = "Load".toList ++ ["Bandwidth:".toList,
      (printfFixed2 p.bandwidth_gbps).text, "GB/s".toList,
      '(' :: (printfFixed2 p.elapsed_ms).text, "ms)".toList].flatMap (' ' :: ·) := by
    unfold ChasePoint.bandwidthLine
    generalize (printfFixed2 p.bandwidth_gbps).text = bandwidth
    generalize (printfFixed2 p.elapsed_ms).text = elapsed
    simp
  have hSplit := Lib.wordsOf_flatMap Bench.fieldSep
    (show Bench.fieldSep ' ' = true from rfl) hWords
  rw [← hLine] at hSplit
  exact hSplit

theorem grepFirst_stdoutLog (p : ChasePoint) :
    grepFirst p.stdoutLog = some p.bandwidthLine := by
  have hBefore : p.before.find? (fun line => loadBandwidth.isPrefixOf line) = none :=
    List.find?_eq_none.mpr fun line hLine => by simp [p.before_other line hLine]
  have hLine : loadBandwidth.isPrefixOf p.bandwidthLine = true := by
    unfold ChasePoint.bandwidthLine
    generalize (printfFixed2 p.bandwidth_gbps).text = bandwidth
    generalize (printfFixed2 p.elapsed_ms).text = elapsed
    rfl
  rw [grepFirst, ChasePoint.stdoutLog, List.find?_append, hBefore, Option.none_or,
    List.find?_cons_of_pos hLine]

/-- The columns of a point. -/
def pointColumns (awk : Awk) (locale : Collation (List Char)) (p : ChasePoint) :
    List (List Char) :=
  plain p.t :: plain p.d :: (printfFixed2 p.bandwidth_gbps).text ::
    latencyColumns awk locale p.latLog

theorem summaryRows_eq (awk : Awk) (locale : Collation (List Char))
    (points : List ChasePoint) :
    summaryRows awk locale points = points.map (pointColumns awk locale) := by
  induction points with
  | nil => rfl
  | cons p points ih =>
      have hRow : summaryRow awk locale p = some (pointColumns awk locale p) := by
        rw [summaryRow, grepFirst_stdoutLog, Option.map_some, thirdField,
          fields_bandwidthLine]
        rfl
      rw [summaryRows, hRow, List.map_cons, ← ih]

theorem plainField_of_chars {w : List Char} (hNe : w ≠ [])
    (h : ∀ c ∈ w, c.isDigit = true ∨ c = '.') : PlainField w := by
  refine ⟨hNe, fun c hc => ?_⟩
  rcases h c hc with hDigit | rfl
  · constructor
    · rintro rfl
      cases hDigit
    · rintro rfl
      cases hDigit
  · decide

theorem plainField_plain (n : Nat) : PlainField (plain n) :=
  plainField_of_chars (Lib.allDigits_ne 1 n) fun c hc =>
    Or.inl (Lib.isDigit_lastDigits _ _ c hc)

theorem plainField_fixed {d : DecimalText} (h : d.exponent = none) :
    PlainField d.text :=
  plainField_of_chars (Bench.text_ne d) fun _ hc => mem_text_of_fixed h hc

theorem plainField_latencyColumns (awk : Awk) (locale : Collation (List Char))
    (latLog : Option (List (List Char))) :
    ∀ w ∈ latencyColumns awk locale latLog, PlainField w := by
  have hNa : ∀ w ∈ ["NA".toList, "NA".toList, "NA".toList, "0".toList],
      PlainField w :=
    plainField_of_all rfl
  unfold latencyColumns
  split
  · exact hNa
  · split
    · exact hNa
    · split
      · exact hNa
      · rename_i s _
        simp only [List.forall_mem_cons, List.not_mem_nil, false_imp_iff, implies_true,
          and_true]
        exact ⟨plainField_fixed s.fixed.1, plainField_fixed s.fixed.2.1,
          plainField_fixed s.fixed.2.2, plainField_plain _⟩

/-- The names in the first line. -/
def summaryNames : List (List Char) :=
  ["threads".toList, "delay_cycles".toList, "bw_gbps".toList, "mean_ns".toList,
    "p50_ns".toList, "p99_ns".toList, "samples".toList]

/-- The file is read as its columns. -/
theorem dictRows_summaryCsv (awk : Awk) (locale : Collation (List Char))
    (points : List ChasePoint) :
    dictRows (summaryCsv awk locale points) =
      (summaryNames, points.map (pointColumns awk locale)) := by
  have hNames : summaryNames ≠ [] ∧ ∀ w ∈ summaryNames, PlainField w :=
    ⟨List.cons_ne_nil _ _, plainField_of_all rfl⟩
  have hRows : ∀ row ∈ points.map (pointColumns awk locale),
      row ≠ [] ∧ ∀ w ∈ row, PlainField w := by
    intro row hRow
    obtain ⟨p, -, rfl⟩ := List.mem_map.mp hRow
    refine ⟨List.cons_ne_nil _ _, ?_⟩
    exact List.forall_mem_cons.mpr ⟨plainField_plain _, List.forall_mem_cons.mpr
      ⟨plainField_plain _, List.forall_mem_cons.mpr ⟨plainField_fixed rfl,
        plainField_latencyColumns awk locale p.latLog⟩⟩⟩
  have hFile : summaryCsv awk locale points =
      (summaryNames :: points.map (pointColumns awk locale)).map csvLine := by
    rw [summaryCsv, summaryRows_eq, List.map_cons]
    rfl
  rw [hFile]
  exact dictRows_csvLine hNames hRows

/-! ## The records -/

/-- What `agg_lat` has found for a point. -/
def ChasePoint.summary (awk : Awk) (locale : Collation (List Char)) (p : ChasePoint) :
    Option Bench.Summary :=
  p.log.bind fun log => aggLat awk locale (saveLatencyLog log.1 log.2)

theorem latencyColumns_latLog (awk : Awk) (locale : Collation (List Char))
    (p : ChasePoint) :
    latencyColumns awk locale p.latLog =
      match p.summary awk locale with
      | none => ["NA".toList, "NA".toList, "NA".toList, "0".toList]
      | some s =>
          [s.mean.text, s.p50.text, s.p99.text, plain s.n] := by
  unfold ChasePoint.latLog ChasePoint.summary
  cases p.log with
  | none => rfl
  | some log =>
      have hNe : saveLatencyLog log.1 log.2 ≠ [] := by simp [saveLatencyLog]
      unfold latencyColumns
      simp only [Option.map_some, if_neg hNe, Option.bind_some]

theorem aggLat_n {awk : Awk} {locale : Collation (List Char)} {samples : List ℚ}
    {freq : ℚ} {s : Bench.Summary}
    (h : aggLat awk locale (saveLatencyLog samples freq) = some s) :
    s.n = samples.length := by
  unfold aggLat at h
  dsimp only at h
  split at h
  · cases h
  · cases h
    exact Bench.length_latencies

/-- A summary needs a sample. -/
theorem aggLat_isSome_iff (awk : Awk) (locale : Collation (List Char))
    (samples : List ℚ) (freq : ℚ) :
    (aggLat awk locale (saveLatencyLog samples freq)).isSome ↔ samples ≠ [] := by
  have hLength := @Bench.length_latencies awk locale samples freq
  unfold aggLat
  dsimp only
  split
  · rename_i hZero
    rw [hLength, List.length_eq_zero_iff] at hZero
    simp [hZero]
  · rename_i hNe
    rw [hLength, List.length_eq_zero_iff] at hNe
    simp [hNe]

section Records

variable {py : Python} (special : py.Special)

/-- The record of a point. -/
def pointRecord (py : Python) (awk : Awk) (locale : Collation (List Char))
    (p : ChasePoint) : Option (MmptRecord py) :=
  (p.summary awk locale).map fun s =>
    { threads := p.t
      delay_cycles := p.d
      bw_gbps := py.toDouble (printfFixed2 p.bandwidth_gbps).value
      mean_ns := py.toDouble s.mean.value
      p50_ns := py.toDouble s.p50.value
      p99_ns := py.toDouble s.p99.value
      samples := s.n }

/-- `int` accepts the numbers of a point. -/
structure ChasePoint.Fits (py : Python) (p : ChasePoint) : Prop where
  t : IntFits py p.t
  d : IntFits py p.d
  samples : ∀ samples freq, p.log = some (samples, freq) → IntFits py samples.length

theorem readCell_plain {n : Nat} (h : IntFits py n) :
    readCell py.intText (.text (plain n)) = .ok (n : ℤ) := by
  rw [readCell, intText_of_fits h]

theorem readCell_fixed {d : DecimalText} (h : d.exponent = none) :
    readCell (Python.floatText special) (.text d.text) =
      .ok (py.toDouble d.value) := by
  rw [readCell, floatText_of_fixed special h]

theorem readCell_na :
    readCell (Python.floatText special) (.text "NA".toList) = .error .skip := by
  have hSpace : ∀ c ∈ "NA".toList, py.isSpace c = false := by
    intro c hc
    have hLetter : c = 'N' ∨ c = 'A' := by simpa using hc
    rcases hLetter with rfl | rfl
    · rfl
    · rfl
  have hWhole : py.optionalDigits "NA".toList = none := by
    unfold Python.optionalDigits Python.digitPart
    rw [List.splitOn_eq_splitOnP,
      List.splitOnP_eq_singleton (Lib.eq_false_of_all rfl)]
    rfl
  have hMantissa : "NA".toList.takeWhile (fun c => !Python.isE c) = "NA".toList :=
    rfl
  have hNumber : py.unsignedFloat "NA".toList = none := by
    unfold Python.unsignedFloat
    dsimp only
    rw [hMantissa, show "NA".toList.takeWhile (· != '.') = "NA".toList from rfl, hWhole]
    rfl
  have hText : Python.floatText special "NA".toList = .error .valueError := by
    unfold Python.floatText
    rw [strip_of_not_isSpace hSpace,
      show Lib.signOf "NA".toList = (.absent, "NA".toList) from rfl]
    dsimp only
    rw [if_neg (by decide), if_neg (by decide), hNumber]
  rw [readCell, hText]

/-- Where the columns are. -/
theorem cell_summaryNames (t d bw mean p50 p99 n : List Char) :
    cell summaryNames [t, d, bw, mean, p50, p99, n] "threads".toList = .text t ∧
    cell summaryNames [t, d, bw, mean, p50, p99, n] "delay_cycles".toList = .text d ∧
    cell summaryNames [t, d, bw, mean, p50, p99, n] "bw_gbps".toList = .text bw ∧
    cell summaryNames [t, d, bw, mean, p50, p99, n] "mean_ns".toList = .text mean ∧
    cell summaryNames [t, d, bw, mean, p50, p99, n] "p50_ns".toList = .text p50 ∧
    cell summaryNames [t, d, bw, mean, p50, p99, n] "p99_ns".toList = .text p99 ∧
    cell summaryNames [t, d, bw, mean, p50, p99, n] "samples".toList = .text n :=
  ⟨rfl, rfl, rfl, rfl, rfl, rfl, rfl⟩

/-- A row is read as the record of its point, and skipped if there is none. -/
theorem parseMmptRow_pointColumns (awk : Awk) (locale : Collation (List Char))
    {p : ChasePoint} (hFits : p.Fits py) :
    parseMmptRow special summaryNames (pointColumns awk locale p) =
      match pointRecord py awk locale p with
      | none => .error .skip
      | some r => .ok r := by
  have hT := readCell_plain hFits.t
  have hD := readCell_plain hFits.d
  unfold pointColumns pointRecord
  rw [latencyColumns_latLog]
  cases hSummary : p.summary awk locale with
  | none =>
      obtain ⟨h₁, h₂, h₃, h₄, -⟩ := cell_summaryNames (plain p.t) (plain p.d)
        (printfFixed2 p.bandwidth_gbps).text "NA".toList "NA".toList "NA".toList
        "0".toList
      unfold parseMmptRow
      dsimp only
      rw [h₁, h₂, h₃, h₄, hT, hD, readCell_fixed special rfl, readCell_na]
      rfl
  | some s =>
      obtain ⟨h₁, h₂, h₃, h₄, h₅, h₆, h₇⟩ := cell_summaryNames (plain p.t) (plain p.d)
        (printfFixed2 p.bandwidth_gbps).text s.mean.text s.p50.text s.p99.text
        (plain s.n)
      obtain ⟨⟨samples, freq⟩, hLog, hAgg⟩ := Option.bind_eq_some_iff.mp hSummary
      have hN : IntFits py s.n := by
        rw [aggLat_n hAgg]
        exact hFits.samples samples freq hLog
      unfold parseMmptRow
      dsimp only
      rw [h₁, h₂, h₃, h₄, h₅, h₆, h₇, hT, hD, readCell_plain hN,
        readCell_fixed special rfl, readCell_fixed special s.fixed.1,
        readCell_fixed special s.fixed.2.1, readCell_fixed special s.fixed.2.2]
      rfl

/-- The points without samples are skipped. -/
theorem parseMmptRows_points {awk : Awk} {locale : Collation (List Char)}
    {points : List ChasePoint} (hFits : ∀ p ∈ points, p.Fits py) :
    parseMmptRows special summaryNames (points.map (pointColumns awk locale)) =
      some (points.filterMap (pointRecord py awk locale)) := by
  induction points with
  | nil => rfl
  | cons p points ih =>
      have hRow := parseMmptRow_pointColumns special awk locale
        (hFits p List.mem_cons_self)
      have hRest := ih fun p' hp => hFits p' (List.mem_cons_of_mem _ hp)
      rw [List.map_cons, parseMmptRows, hRow]
      cases hRecord : pointRecord py awk locale p with
      | none =>
          rw [List.filterMap_cons_none hRecord]
          exact hRest
      | some r =>
          rw [List.filterMap_cons_some hRecord, hRest]
          rfl

theorem pointRecord_isSome_iff (awk : Awk) (locale : Collation (List Char))
    (p : ChasePoint) :
    (pointRecord py awk locale p).isSome ↔
      ∃ samples freq, p.log = some (samples, freq) ∧ samples ≠ [] := by
  unfold pointRecord ChasePoint.summary
  cases hLog : p.log with
  | none => simp
  | some log =>
      obtain ⟨samples, freq⟩ := log
      have hSome := aggLat_isSome_iff awk locale samples freq
      rw [Option.isSome_map, Option.bind_some, hSome]
      simp

/-- **The summary of a sweep is read back.**  `parse_mmpt` finds the points that have
samples, in the order of the sweep, with their numbers, the bandwidth that was printed
and the latency columns that `agg_lat` makes of the log; a point without samples is
skipped, and no row raises.  The doubles of awk and of Python are parameters. -/
theorem parseMmpt_summaryCsv (awk : Awk) (locale : Collation (List Char))
    (THREAD_COUNTS INJECT_DELAYS : List Nat) (output : Nat → Nat → ChaseOutput)
    (hFits : ∀ p ∈ chasePoints THREAD_COUNTS INJECT_DELAYS output, p.Fits py) :
    parseMmpt special
      (summaryCsv awk locale (chasePoints THREAD_COUNTS INJECT_DELAYS output)) =
      some ((chasePoints THREAD_COUNTS INJECT_DELAYS output).filterMap
        (pointRecord py awk locale)) ∧
    ∀ p ∈ chasePoints THREAD_COUNTS INJECT_DELAYS output,
      (pointRecord py awk locale p).isSome ↔
        ∃ samples freq, p.log = some (samples, freq) ∧ samples ≠ [] := by
  constructor
  · rw [parseMmpt, dictRows_summaryCsv]
    exact parseMmptRows_points special hFits
  · intro p _
    exact pointRecord_isSome_iff awk locale p

end Records

/-- Runs with one thread measure latencies, others do not. -/
def twoLog : Nat → Option (List ℚ × ℚ)
  | 1 => some ([250, 120], 2)
  | _ => none

theorem twoLog_eq_some {t : Nat} {samples : List ℚ} {freq : ℚ}
    (h : twoLog t = some (samples, freq)) : samples = [250, 120] := by
  unfold twoLog at h
  split at h
  · exact (Prod.mk.inj (Option.some.inj h)).1.symm
  · cases h

def twoOutputs (t _d : Nat) : ChaseOutput where
  bandwidth_gbps := ((12 : Nat) : ℚ)
  elapsed_ms := ((7 : Nat) : ℚ)
  nonneg := ⟨Nat.cast_nonneg 12, Nat.cast_nonneg 7⟩
  before := ["[Pointer Chase with Load (inject delay: 0 cycles)]".toList]
  after := []
  before_other := by decide
  log := twoLog t
  log_nonneg := by
    intro samples freq hLog x hx
    rw [twoLog_eq_some hLog] at hx
    revert x
    decide +kernel

/-- A point with two samples and one without any. -/
theorem parseMmpt_summaryCsv_two :
    ∃ r, parseMmpt asciiSpecial
        (summaryCsv binary64Awk Lib.byteOrder
          (chasePoints [1, 2] [0] twoOutputs)) = some [r] ∧
      r.threads = 1 ∧ r.delay_cycles = 0 ∧ r.samples = 2 := by
  let first : ChasePoint := { twoOutputs 1 0 with t := 1, d := 0 }
  let second : ChasePoint := { twoOutputs 2 0 with t := 2, d := 0 }
  have hFew : ∀ n, n < 4300 → IntFits asciiPython n := fun n hn _ =>
    (length_plain_le n).trans hn
  have hFits : ∀ p ∈ chasePoints [1, 2] [0] twoOutputs, p.Fits asciiPython := by
    show ∀ p ∈ [first, second], p.Fits asciiPython
    simp only [List.forall_mem_cons, List.not_mem_nil, false_imp_iff, implies_true,
      and_true]
    constructor
    · refine ⟨hFew 1 (by decide), hFew 0 (by decide), ?_⟩
      intro samples freq hLog
      rw [twoLog_eq_some (show twoLog 1 = some (samples, freq) from hLog)]
      exact hFew 2 (by decide)
    · refine ⟨hFew 2 (by decide), hFew 0 (by decide), ?_⟩
      intro samples freq hLog
      rw [twoLog_eq_some (show twoLog 2 = some (samples, freq) from hLog)]
      exact hFew 2 (by decide)
  obtain ⟨hParse, -⟩ := parseMmpt_summaryCsv asciiSpecial binary64Awk
    Lib.byteOrder [1, 2] [0] twoOutputs hFits
  have hPoints : chasePoints [1, 2] [0] twoOutputs = [first, second] := rfl
  obtain ⟨s, hSummary⟩ : ∃ s, first.summary binary64Awk Lib.byteOrder = some s :=
    Option.isSome_iff_exists.mp
      ((aggLat_isSome_iff binary64Awk Lib.byteOrder [250, 120] 2).mpr (by simp))
  have hN : s.n = 2 := aggLat_n hSummary
  have hSecond : pointRecord asciiPython binary64Awk Lib.byteOrder second = none := rfl
  cases hFirst : pointRecord asciiPython binary64Awk Lib.byteOrder first with
  | none =>
      rw [pointRecord, hSummary] at hFirst
      cases hFirst
  | some r =>
      rw [hPoints, List.filterMap_cons_some hFirst, List.filterMap_cons_none hSecond,
        List.filterMap_nil, ← hPoints] at hParse
      refine ⟨r, hParse, ?_⟩
      rw [pointRecord, hSummary] at hFirst
      obtain rfl := Option.some.inj hFirst
      refine ⟨rfl, rfl, ?_⟩
      show (s.n : ℤ) = 2
      rw [hN]
      rfl

end MioBench.Scripts
