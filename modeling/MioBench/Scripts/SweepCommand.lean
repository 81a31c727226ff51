import MioBench.Bench.CommandLine
import MioBench.Scripts.SweepRecords

/-!
# The command lines of a sweep

What `run_sweep` of `sweep_lat_bw.sh` passes to the benchmark.  One of the options is
`--pre-touch`, and `main.cpp`, which `CMakeLists.txt` builds, does not know it;
`main_patched.cpp` does.
-/

namespace MioBench.Scripts

open Bench (Floats Settings Stop Opt StopsAt parseArgs parseArgs_flatMap
  parseArgs_stop atoi toSizeT)

/-- A number that is written out is read back. -/
theorem atoi_plain {n : Nat} (h : n < 2 ^ 31) : atoi (plain n) = n := by
  have hNumeral : Lib.Numeral Store.isSpace (plain n) .absent (plain n) [] :=
    { text := ⟨[], by simp, by simp [Lib.Sign.text]⟩
      digits_ne := Lib.allDigits_ne 1 n
      digits_all := Lib.isDigit_lastDigits _ _
      stop := by simp }
  have hDecimal : Lib.decimal (plain n) = n := Lib.decimal_allDigits 1 n
  have hMax : max (-2 ^ 63) (min (2 ^ 63 - 1) (n : ℤ)) = min (2 ^ 63 - 1) (n : ℤ) :=
    max_eq_right (by omega)
  rw [atoi, Bench.strtol_of_numeral hNumeral, hDecimal]
  show Bench.toInt (max (-2 ^ 63) (min (2 ^ 63 - 1) (n : ℤ))) = n
  rw [hMax]
  exact Bench.toInt_eq (by unfold Bench.intMax; omega)

theorem toSizeT_natCast {n : Nat} (h : n < 2 ^ 64) : toSizeT (n : ℤ) = n := by
  unfold toSizeT
  omega

/-- What does not depend on the point. -/
structure Machine where
  CXL_SIZE_MIB : Nat
  CXL_NODE : Nat
  OUTDIR : List Char
  size_fits : CXL_SIZE_MIB < 2 ^ 31
  node_fits : CXL_NODE < 2 ^ 31

namespace Machine

variable (m : Machine) (run : Run)

def resultDir : List Char := m.OUTDIR ++ '/' :: run.stem

/-- The options in front of `--pre-touch`. -/
def optsBefore : List Opt :=
  [.value .mode run.w, .value .threads (plain run.t),
    .value .memoryPerThread (plain (m.CXL_SIZE_MIB / run.t)),
    .value .blockSize (plain run.bs), .value .membind (plain m.CXL_NODE),
    .flag .hugepage]

/-- The command line of a point, behind `$MICROBENCH`. -/
def args : List (List Char) :=
  ["--mode".toList, run.w, "--threads".toList, plain run.t,
    "--memory-per-thread".toList, plain (m.CXL_SIZE_MIB / run.t),
    "--block-size".toList, plain run.bs, "--membind".toList, plain m.CXL_NODE,
    "--hugepage".toList, "--pre-touch".toList, "--result-dir".toList,
    m.resultDir run]

/-- The settings of a point. -/
def settings (fl : Floats) : Settings fl where
  mode := run.w
  num_threads := run.t
  memory_per_thread_mib := (m.CXL_SIZE_MIB / run.t : Nat)
  BLOCK_SIZE := run.bs
  membind_node := m.CXL_NODE
  use_hugepage := true
  pre_touch := true
  result_dir_path := some (m.resultDir run)

variable {m run} {fl : Floats}

theorem accepted_optsBefore (hBs : 0 < run.bs ∧ run.bs < 2 ^ 31) (patched : Bool) :
    ∀ opt ∈ m.optsBefore run, opt.Accepted fl patched := by
  have hBlock : (toSizeT (atoi (plain run.bs)) != 0) = true := by
    rw [atoi_plain hBs.2, toSizeT_natCast (by omega)]
    simpa using Nat.pos_iff_ne_zero.mp hBs.1
  simp only [optsBefore, List.forall_mem_cons, List.not_mem_nil, false_imp_iff,
    implies_true, and_true]
  refine ⟨rfl, rfl, rfl, hBlock, rfl, ?_⟩
  show Bench.FlagOption.hugepage ∈ Bench.FlagOption.known patched
  cases patched <;> decide

/-- `main_patched.cpp` gets the settings of the point. -/
theorem parseArgs_patched (hT : run.t < 2 ^ 31)
    (hBs : 0 < run.bs ∧ run.bs < 2 ^ 31) :
    parseArgs true ({} : Settings fl) (m.args run) = .ok (m.settings run fl) := by
  have hAfter : ∀ opt ∈ m.optsBefore run ++
      [.flag .preTouch, .value .resultDir (m.resultDir run)],
      opt.Accepted fl true := by
    intro opt hOpt
    rcases List.mem_append.mp hOpt with hOpt | hOpt
    · exact accepted_optsBefore hBs true opt hOpt
    · simp only [List.mem_cons, List.not_mem_nil, or_false] at hOpt
      rcases hOpt with rfl | rfl
      · show Bench.FlagOption.preTouch ∈ Bench.FlagOption.known true
        decide
      · rfl
  have hParse := parseArgs_flatMap ({} : Settings fl) hAfter []
  rw [List.append_nil] at hParse
  have hSize : m.CXL_SIZE_MIB / run.t < 2 ^ 31 :=
    (Nat.div_le_self _ _).trans_lt m.size_fits
  refine Eq.trans (show _ = _ from rfl) (hParse.trans ?_)
  simp [optsBefore, settings, Settings.set, Settings.assign, Settings.setFlag,
    parseArgs, atoi_plain hT, atoi_plain hBs.2, atoi_plain hSize,
    atoi_plain m.node_fits, toSizeT_natCast (show run.bs < 2 ^ 64 by omega)]

/-- `main.cpp` stops at `--pre-touch`. -/
theorem parseArgs_main (hBs : 0 < run.bs ∧ run.bs < 2 ^ 31) :
    parseArgs false ({} : Settings fl) (m.args run) =
      .error (.unknown "--pre-touch".toList) := by
  have hStop : StopsAt fl false (.unknown "--pre-touch".toList)
      ["--pre-touch".toList, "--result-dir".toList, m.resultDir run] := by
    refine .unknown _ _ ?_ (by decide) (by decide)
    intro o
    cases o <;> decide
  have hParse := parseArgs_flatMap ({} : Settings fl)
    (accepted_optsBefore (m := m) hBs false)
    ["--pre-touch".toList, "--result-dir".toList, m.resultDir run]
  exact hParse.trans (parseArgs_stop _ hStop)

end Machine

/-- The benchmark that is started, and what comes of its command line. -/
def Start.Follows (fl : Floats) (patched : Bool) (m : Machine) (s : Start) : Prop :=
  match parseArgs patched ({} : Settings fl) (m.args s.run) with
  | .error _ => s.attempt = .refused
  | .ok settings => ∀ r, s.attempt = .completed r →
      r.mode = settings.mode ∧ (r.num_threads : ℤ) = settings.num_threads

/-- The numbers of the script are numbers for `atoi`, and no block is empty. -/
structure SweepConfig.Ints (c : SweepConfig) : Prop where
  threads : ∀ t ∈ c.TARGET_THREADS, t < 2 ^ 31
  blocks : ∀ bs ∈ c.TARGET_BLOCKSIZE, 0 < bs ∧ bs < 2 ^ 31

theorem ints_runs {c : SweepConfig} (h : c.Ints) {run : Run} (hRun : run ∈ c.runs) :
    run.t < 2 ^ 31 ∧ 0 < run.bs ∧ run.bs < 2 ^ 31 := by
  rcases List.mem_append.mp hRun with hRun | hRun
  · obtain ⟨bs, hBs, w, hw, t, ht, rep, -, rfl⟩ := mem_runSweep.mp hRun
    exact ⟨h.threads t ht, h.blocks bs hBs⟩
  · obtain ⟨bs, hBs, w, hw, t, ht, rep, -, rfl⟩ := mem_runSweep.mp hRun
    exact ⟨h.threads t ht, h.blocks bs hBs⟩

theorem sweepDirs_of_refused {starts : List Start}
    (h : ∀ s ∈ starts, s.attempt = .refused) :
    untilFailure starts = starts.take 1 ∧ sweepDirs starts = ∅ := by
  cases starts with
  | nil => exact ⟨rfl, rfl⟩
  | cons s starts =>
      have hAttempt := h s List.mem_cons_self
      have hFirst : untilFailure (s :: starts) = [s] := by
        rw [untilFailure, hAttempt]
      refine ⟨hFirst, ?_⟩
      rw [sweepDirs, hFirst]
      show afterStart ∅ s = ∅
      rw [afterStart, hAttempt]

/-- **A sweep needs the patched benchmark.**  `main_patched.cpp` gets the settings of
every point.  `main.cpp` refuses every command line of the sweep at `--pre-touch`: the
script ends at its first point, and there is nothing to parse. -/
theorem sweep_needs_patched {py : Python} (special : py.Special) (fl : Floats)
    (m : Machine) {c : SweepConfig} (hInts : c.Ints) :
    (∀ run ∈ c.runs,
      parseArgs true ({} : Settings fl) (m.args run) = .ok (m.settings run fl)) ∧
    (∀ run ∈ c.runs, parseArgs false ({} : Settings fl) (m.args run) =
      .error (.unknown "--pre-touch".toList)) ∧
    ∀ starts, starts.map Start.run = c.runs →
      (∀ s ∈ starts, s.Follows fl false m) →
      untilFailure starts = starts.take 1 ∧
      ∀ date, parseMio special (date ++ "_sweep".toList) ∅ (sweepDirs starts) =
        .ok [] := by
  refine ⟨?_, ?_, ?_⟩
  · intro run hRun
    obtain ⟨hT, hBs⟩ := ints_runs hInts hRun
    exact Machine.parseArgs_patched hT hBs
  · intro run hRun
    obtain ⟨-, hBs⟩ := ints_runs hInts hRun
    exact Machine.parseArgs_main hBs
  · intro starts hStarts hFollows
    have hRefused : ∀ s ∈ starts, s.attempt = .refused := by
      intro s hs
      have hRun : s.run ∈ c.runs := by
        rw [← hStarts]
        exact List.mem_map_of_mem hs
      have hFollow := hFollows s hs
      obtain ⟨-, hBs⟩ := ints_runs hInts hRun
      unfold Start.Follows at hFollow
      rw [Machine.parseArgs_main hBs] at hFollow
      exact hFollow
    obtain ⟨hFirst, hDirs⟩ := sweepDirs_of_refused hRefused
    refine ⟨hFirst, fun date => ?_⟩
    have hEmpty : parseMio special (date ++ "_sweep".toList) ∅
        (([] : List Start).foldl afterStart ∅) =
        .ok ((([] : List Start).mergeSort Start.le).filterMap fun s => s.record py) :=
      parseMio_starts special date List.nodup_nil (by simp)
    rw [List.mergeSort_nil] at hEmpty
    rw [hDirs]
    exact hEmpty

/-- Numbers without a sign or an exponent, as they are. -/
def exactFloats : Floats where
  Double := ℚ
  atof s :=
    match Lib.leadingDecimal (s.dropWhile Store.isSpace) with
    | (whole, fraction, _) => Lib.fixedValue whole fraction
  notPositive x := decide (x ≤ 0)
  default_alpha := (99 / 100 : ℚ)

/-- The two points, with the benchmark that is built. -/
theorem sweep_needs_patched_two :
    let m : Machine :=
      { CXL_SIZE_MIB := 131072
        CXL_NODE := 2
        OUTDIR := "result/2025_sweep".toList
        size_fits := by decide
        node_fits := by decide }
    ∃ starts, starts.map Start.run = twoPoints.runs ∧
      (∀ s ∈ starts, s.Follows exactFloats false m) ∧
      untilFailure starts = starts.take 1 ∧
      parseMio asciiSpecial "2025_sweep".toList ∅ (sweepDirs starts) = .ok [] := by
  intro m
  have hInts : twoPoints.Ints := ⟨by decide, by decide⟩
  let refused : Run → Start := fun run =>
    { run := run
      timestamp := "20250101".toList
      attempt := .refused
      asked := by
        intro r hr
        cases hr }
  obtain ⟨-, hMain, hEnds⟩ := sweep_needs_patched asciiSpecial exactFloats m hInts
  have hStarts : (twoPoints.runs.map refused).map Start.run = twoPoints.runs := rfl
  have hFollows : ∀ s ∈ twoPoints.runs.map refused, s.Follows exactFloats false m := by
    intro s hs
    obtain ⟨run, hRun, rfl⟩ := List.mem_map.mp hs
    unfold Start.Follows
    rw [show (refused run).run = run from rfl, hMain run hRun]
  obtain ⟨hFirst, hParse⟩ := hEnds _ hStarts hFollows
  exact ⟨_, hStarts, hFollows, hFirst, hParse "2025".toList⟩

end MioBench.Scripts
