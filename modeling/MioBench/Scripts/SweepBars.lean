import MioBench.Scripts.SweepRecords

/-!
# The bars of a sweep

`plot_bar` of `inho_parser.py` groups the records of one block size: the workloads
in their order, a bar for each number of threads.  Repetitions share a bar.
-/

namespace MioBench.Scripts

open Lib (printfFixed2)
open Bench (RunResult Attempt Test)

/-- `_WORKLOAD_ORDER` -/
def workloadOrder : List (List Char) :=
  [Test.seqRead, .randomRead, .zipfianRead, .strideRead, .seqWrite, .randomWrite,
    .strideWrite].map Test.name

/-- What is drawn: a row of heights for each number of threads. -/
structure Bars (py : Python) where
  workloads : List (List Char)
  threads : List Nat
  vals : List (List py.Double)

section PlotBar

variable {py : Python}

/-- `bw`, a later record in the place of an earlier one. -/
def bwDict (recs : List (MioRecord py)) :
    AList fun _ : List Char × Nat => py.Double :=
  recs.foldl (fun bw r => bw.insert (r.workload, r.threads) r.bw_gbps) ∅

/-- `sorted({r.threads for r in recs})` -/
def threadCounts (recs : List (MioRecord py)) : List Nat :=
  ((recs.map fun r => r.threads).dedup).mergeSort fun t t' => decide (t ≤ t')

/-- `plot_bar`; `none` is `SystemExit`. -/
def plotBar (recs : List (MioRecord py)) (block_size : Nat) : Option (Bars py) :=
  let recs := recs.filter fun r => r.block_size == block_size
  if recs = [] then none
  else
    let workloads := workloadOrder.filter fun w => recs.any fun r => r.workload == w
    let threads := threadCounts recs
    let bw := bwDict recs
    some {
      workloads := workloads
      threads := threads
      vals := threads.map fun t =>
        workloads.map fun w => (bw.lookup (w, t)).getD (py.toDouble 0) }

/-- The records that share a bar. -/
def sameBar (recs : List (MioRecord py)) (block_size : Nat) (w : List Char)
    (t : Nat) : List (MioRecord py) :=
  recs.filter fun r =>
    r.block_size == block_size && r.workload == w && r.threads == t

theorem lookup_bwDict (recs : List (MioRecord py)) (w : List Char) (t : Nat) :
    (bwDict recs).lookup (w, t) =
      ((recs.filter fun r => r.workload == w && r.threads == t).getLast?).map
        MioRecord.bw_gbps := by
  induction recs using List.reverseRecOn with
  | nil => rfl
  | append_singleton recs r ih =>
      have hStep : bwDict (recs ++ [r]) =
          (bwDict recs).insert (r.workload, r.threads) r.bw_gbps := by
        rw [bwDict, List.foldl_append]
        rfl
      rw [hStep, List.filter_append]
      by_cases hKey : (r.workload, r.threads) = (w, t)
      · obtain ⟨rfl, rfl⟩ := Prod.mk.inj hKey
        rw [AList.lookup_insert, List.filter_cons_of_pos (by simp), List.filter_nil,
          List.getLast?_concat]
        rfl
      · have hOther : [r].filter (fun r => r.workload == w && r.threads == t) =
            [] := by
          simpa using hKey
        rw [AList.lookup_insert_ne (Ne.symm hKey), ih, hOther, List.append_nil]

/-- The height of a bar is that of the last of its records. -/
theorem bar_eq (recs : List (MioRecord py)) (block_size : Nat) (w : List Char)
    (t : Nat) :
    (bwDict (recs.filter fun r => r.block_size == block_size)).lookup (w, t) =
      ((sameBar recs block_size w t).getLast?).map MioRecord.bw_gbps := by
  rw [lookup_bwDict, List.filter_filter, sameBar]
  congr 3
  funext r
  rw [Bool.and_comm, Bool.and_assoc]

theorem mem_threadCounts {recs : List (MioRecord py)} {t : Nat} :
    t ∈ threadCounts recs ↔ ∃ r ∈ recs, r.threads = t := by
  simp [threadCounts]

theorem threadCounts_increasing (recs : List (MioRecord py)) :
    (threadCounts recs).Pairwise (· < ·) := by
  have hSorted : (threadCounts recs).Pairwise fun t t' => decide (t ≤ t') = true := by
    refine List.pairwise_mergeSort ?_ ?_ _
    · intro a b c hab hbc
      rw [decide_eq_true_eq] at hab hbc ⊢
      exact hab.trans hbc
    · intro a b
      rw [Bool.or_eq_true, decide_eq_true_eq, decide_eq_true_eq]
      exact Nat.le_total a b
  have hNodup : (threadCounts recs).Nodup :=
    (List.mergeSort_perm _ _).nodup_iff.mpr (List.nodup_dedup _)
  refine (hSorted.and hNodup).imp ?_
  intro t t' hBoth
  exact Nat.lt_of_le_of_ne (by simpa using hBoth.1) hBoth.2

end PlotBar

/-! ## The records of the runs -/

section Runs

variable {py : Python} {starts : List Start}

/-- The records of some runs, in the order of the names. -/
def sortedRecords (py : Python) (starts : List Start) : List (MioRecord py) :=
  (starts.mergeSort Start.le).filterMap fun s => s.record py

theorem mem_sortedRecords {record : MioRecord py} :
    record ∈ sortedRecords py starts ↔
      ∃ s ∈ starts, ∃ r, s.attempt = .completed r ∧
        record = s.recordOf py r := by
  have hRecord : ∀ s : Start, s.record py = some record ↔
      ∃ r, s.attempt = .completed r ∧
        record = s.recordOf py r := by
    intro s
    unfold Start.record
    cases s.attempt with
    | refused => simp
    | rejected => simp
    | killed => simp
    | completed r => simp [eq_comm]
  simp only [sortedRecords, List.mem_filterMap, List.mem_mergeSort, hRecord]

theorem pairwise_sortedRecords :
    (sortedRecords py starts).Pairwise fun r r' =>
      pathLe r.path.name r'.path.name = true := by
  refine List.pairwise_filterMap.mpr ((pairwise_names starts).imp ?_)
  intro s s' hLe r hr r' hr'
  have hName : ∀ {s : Start} {r : MioRecord py}, s.record py = some r →
      r.path.name = s.run.stem := by
    intro s r hr
    unfold Start.record at hr
    split at hr
    · cases hr
      rfl
    · cases hr
  rw [hName hr, hName hr']
  exact hLe

end Runs

/-! ## The bars of the runs -/

/-- A run that has come to its end and is shown in this bar. -/
structure Start.At (s : Start) (r : RunResult) (block_size : Nat) (w : List Char)
    (t : Nat) : Prop where
  completed : s.attempt = .completed r
  block_size : s.run.bs = block_size
  workload : s.run.w = w
  threads : s.run.t = t

/-- The bars show some runs. -/
structure Bars.Show {py : Python} (bars : Bars py) (starts : List Start)
    (block_size : Nat) : Prop where
  order : bars.workloads.Sublist workloadOrder
  workloads : ∀ w, w ∈ bars.workloads ↔
    w ∈ workloadOrder ∧ ∃ s ∈ starts, ∃ r t, s.At r block_size w t
  increasing : bars.threads.Pairwise (· < ·)
  threads : ∀ t, t ∈ bars.threads ↔ ∃ s ∈ starts, ∃ r w, s.At r block_size w t
  vals : ∃ height : List Char → Nat → py.Double,
    bars.vals = (bars.threads.map fun t => bars.workloads.map fun w => height w t) ∧
    (∀ w t, (∀ s ∈ starts, ∀ r, ¬ s.At r block_size w t) →
      height w t = py.toDouble 0) ∧
    ∀ s ∈ starts, ∀ r test t, s.At r block_size (Test.name test) t →
      (∀ s' ∈ starts, ∀ r', s'.At r' block_size (Test.name test) t →
        s'.le s = true) →
      height (Test.name test) t = py.toDouble (printfFixed2 (r.bandwidth_gbps test)).value

section Show

variable {py : Python} {starts : List Start} {block_size : Nat}

theorem mem_sameBar {record : MioRecord py} {w : List Char} {t : Nat} :
    record ∈ sameBar (sortedRecords py starts) block_size w t ↔
      ∃ s ∈ starts, ∃ r, s.At r block_size w t ∧
        record = s.recordOf py r := by
  rw [sameBar, List.mem_filter, mem_sortedRecords]
  constructor
  · rintro ⟨⟨s, hs, r, hAttempt, rfl⟩, hBar⟩
    rw [Bool.and_eq_true, Bool.and_eq_true, beq_iff_eq, beq_iff_eq, beq_iff_eq] at hBar
    exact ⟨s, hs, r, ⟨hAttempt, hBar.1.1, hBar.1.2, hBar.2⟩, rfl⟩
  · rintro ⟨s, hs, r, hAt, rfl⟩
    refine ⟨⟨s, hs, r, hAt.completed, rfl⟩, ?_⟩
    rw [Bool.and_eq_true, Bool.and_eq_true, beq_iff_eq, beq_iff_eq, beq_iff_eq]
    exact ⟨⟨hAt.block_size, hAt.workload⟩, hAt.threads⟩

/-- Of the runs that share a bar, the one with the last name is drawn. -/
theorem getLast?_sameBar (hRuns : (starts.map Start.run).Nodup) {s : Start}
    (hs : s ∈ starts) {r : RunResult} {w : List Char} {t : Nat}
    (hAt : s.At r block_size w t)
    (hLast : ∀ s' ∈ starts, ∀ r', s'.At r' block_size w t → s'.le s = true) :
    (sameBar (sortedRecords py starts) block_size w t).getLast? =
      some (s.recordOf py r) := by
  have hMem : s.recordOf py r ∈ sameBar (sortedRecords py starts) block_size w t :=
    mem_sameBar.mpr ⟨s, hs, r, hAt, rfl⟩
  have hNe := List.ne_nil_of_mem hMem
  have hSorted : (sameBar (sortedRecords py starts) block_size w t).Pairwise
      fun r r' => pathLe r.path.name r'.path.name = true :=
    pairwise_sortedRecords.filter _
  have hRefl : ∀ name, pathLe name name = true := fun name =>
    (pathLe_iff name name).mpr (le_refl name)
  have hUpper := hSorted.rel_getLast_of_rel_getLast_getLast hMem (hRefl _)
  obtain ⟨s', hs', r', hAt', hEq⟩ := mem_sameBar.mp (List.getLast_mem hNe)
  rw [hEq] at hUpper
  have hStem : s'.run.stem = s.run.stem :=
    le_antisymm ((pathLe_iff _ _).mp (hLast s' hs' r' hAt')) ((pathLe_iff _ _).mp hUpper)
  obtain rfl : s' = s :=
    List.inj_on_of_nodup_map hRuns hs' hs (Run.stem_inj hStem)
  obtain rfl : r' = r := Attempt.completed.inj (hAt'.completed.symm.trans hAt.completed)
  rw [List.getLast?_eq_some_getLast hNe, hEq]

/-- The records of a block size. -/
theorem exists_filter_iff {P : MioRecord py → Prop} :
    (∃ r ∈ (sortedRecords py starts).filter (fun r => r.block_size == block_size),
      P r) ↔ ∃ s ∈ starts, ∃ r, s.attempt = .completed r ∧ s.run.bs = block_size ∧
        P (s.recordOf py r) := by
  constructor
  · rintro ⟨record, hMem, hP⟩
    obtain ⟨hMem, hBlock⟩ := List.mem_filter.mp hMem
    obtain ⟨s, hs, r, hAttempt, rfl⟩ := mem_sortedRecords.mp hMem
    exact ⟨s, hs, r, hAttempt, beq_iff_eq.mp hBlock, hP⟩
  · rintro ⟨s, hs, r, hAttempt, hBlock, hP⟩
    refine ⟨_, List.mem_filter.mpr ⟨mem_sortedRecords.mpr ⟨s, hs, r, hAttempt, rfl⟩,
      ?_⟩, hP⟩
    exact beq_iff_eq.mpr hBlock

theorem plotBar_eq_none_iff :
    plotBar (sortedRecords py starts) block_size = none ↔
      ∀ s ∈ starts, ∀ r w t, ¬ s.At r block_size w t := by
  have hEmpty : plotBar (sortedRecords py starts) block_size = none ↔
      (sortedRecords py starts).filter (fun r => r.block_size == block_size) = [] := by
    unfold plotBar
    dsimp only
    split <;> simp_all
  rw [hEmpty, List.eq_nil_iff_forall_not_mem]
  constructor
  · intro h s hs r w t hAt
    have hSome := (@exists_filter_iff py starts block_size fun _ => True).mpr
      ⟨s, hs, r, hAt.completed, hAt.block_size, trivial⟩
    obtain ⟨record, hMem, -⟩ := hSome
    exact h record hMem
  · intro h record hMem
    obtain ⟨s, hs, r, hAttempt, hBlock, -⟩ :=
      (@exists_filter_iff py starts block_size fun _ => True).mp
        ⟨record, hMem, trivial⟩
    exact h s hs r _ _ ⟨hAttempt, hBlock, rfl, rfl⟩

theorem mem_any_iff {recs : List (MioRecord py)} {w : List Char} :
    (recs.any fun r => r.workload == w) = true ↔ ∃ r ∈ recs, r.workload = w := by
  simp only [List.any_eq_true, beq_iff_eq]

/-- What is drawn of some runs. -/
theorem show_plotBar (hRuns : (starts.map Start.run).Nodup) {bars : Bars py}
    (hBars : plotBar (sortedRecords py starts) block_size = some bars) :
    bars.Show starts block_size := by
  have hDrawn := hBars
  unfold plotBar at hDrawn
  dsimp only at hDrawn
  split at hDrawn
  · cases hDrawn
  · obtain rfl := Option.some.inj hDrawn
    constructor
    · exact List.filter_sublist
    · intro w
      dsimp only
      rw [List.mem_filter, mem_any_iff, exists_filter_iff]
      refine and_congr_right fun _ => ?_
      constructor
      · rintro ⟨s, hs, r, hAttempt, hBlock, hWorkload⟩
        exact ⟨s, hs, r, _, hAttempt, hBlock, hWorkload, rfl⟩
      · rintro ⟨s, hs, r, t, hAt⟩
        exact ⟨s, hs, r, hAt.completed, hAt.block_size, hAt.workload⟩
    · exact threadCounts_increasing _
    · intro t
      dsimp only
      rw [mem_threadCounts, exists_filter_iff]
      constructor
      · rintro ⟨s, hs, r, hAttempt, hBlock, hThreads⟩
        exact ⟨s, hs, r, _, hAttempt, hBlock, rfl, hThreads⟩
      · rintro ⟨s, hs, r, w, hAt⟩
        exact ⟨s, hs, r, hAt.completed, hAt.block_size, hAt.threads⟩
    · refine ⟨_, rfl, ?_, ?_⟩
      · intro w t hNone
        have hEmpty : sameBar (sortedRecords py starts) block_size w t = [] := by
          rw [List.eq_nil_iff_forall_not_mem]
          intro record hMem
          obtain ⟨s, hs, r, hAt, -⟩ := mem_sameBar.mp hMem
          exact hNone s hs r hAt
        rw [bar_eq, hEmpty]
        rfl
      · intro s hs r test t hAt hLast
        have hFirst : r.first = test := by
          apply RunResult.first_of_name
          rw [(s.asked r hAt.completed).1, hAt.workload]
        rw [bar_eq, getLast?_sameBar hRuns hs hAt hLast, Option.map_some,
          Option.getD_some, ← hFirst]
        rfl

end Show

section PlotSweep

variable {py : Python} (special : py.Special)

/-- **The bars of a sweep.**  Of the directories of a sweep, up to the run that has
failed, `plot_bar` draws a bar for every run of the block size that has come to its
end; of repetitions it draws the one with the last name, and where there is no run it
draws nothing, at height 0. -/
theorem plotBar_sweep {c : SweepConfig} (hLists : c.Distinct) {starts : List Start}
    (hStarts : starts.map Start.run = c.runs) (hFits : ∀ s ∈ starts, s.Fits py)
    (date : List Char) (block_size : Nat) :
    ∃ records,
      parseMio special (date ++ "_sweep".toList) ∅ (sweepDirs starts) = .ok records ∧
      (plotBar records block_size = none ↔
        ∀ s ∈ untilFailure starts, ∀ r w t, ¬ s.At r block_size w t) ∧
      ∀ bars, plotBar records block_size = some bars →
        bars.Show (untilFailure starts) block_size := by
  have hRuns := nodup_untilFailure hLists hStarts
  refine ⟨sortedRecords py (untilFailure starts), ?_, plotBar_eq_none_iff,
    fun bars hBars => show_plotBar hRuns hBars⟩
  exact parseMio_starts special date hRuns fun s hs =>
    hFits s ((untilFailure_isPrefix starts).subset hs)

end PlotSweep

/-- A bar is drawn for the first of two points. -/
theorem plotBar_sweep_killed :
    ∃ records bars,
      parseMio asciiSpecial "2025_sweep".toList ∅ (sweepDirs twoStarts) =
        .ok records ∧
      plotBar records 64 = some bars ∧ bars.Show (untilFailure twoStarts) 64 := by
  obtain ⟨records, hParse, hNone, hShow⟩ := plotBar_sweep asciiSpecial
    distinct_twoPoints (show twoStarts.map Start.run = twoPoints.runs from rfl)
    fits_twoStarts "2025".toList 64
  cases hBars : plotBar records 64 with
  | none =>
      have hAt := hNone.mp hBars firstStart List.mem_cons_self
      exact absurd ⟨rfl, rfl, rfl, rfl⟩ (hAt firstResult Test.seqRead.name 4)
  | some bars => exact ⟨records, bars, hParse, hBars, hShow bars hBars⟩

end MioBench.Scripts
