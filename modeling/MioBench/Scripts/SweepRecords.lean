import Mathlib.Data.Char
import Mathlib.Data.List.AList
import Mathlib.Data.List.Lex
import MioBench.Scripts.RunRecords

/-!
# The records of a sweep

`run_sweep` of `sweep_lat_bw.sh` starts the benchmark once for each point, in a
directory that is named after the point, and the script ends at the first run that
fails.  `parse_mio` of `inho_parser.py` makes records of the directories.
-/

namespace MioBench.Scripts

open Bench (RunResult Attempt Test afterAttempt)

/-! ## The sweep -/

/-- The lists at the head of the script. -/
structure SweepConfig where
  TARGET_THREADS : List Nat
  TARGET_BLOCKSIZE : List Nat
  READ_WORKLOADS : List Test
  WRITE_WORKLOADS : List Test
  REPS : Nat

/-- A point of the sweep. -/
def Run.ofTest (label : Label) (bs : Nat) (test : Test) (t rep : Nat) : Run where
  label := label
  w := test.name
  bs := bs
  t := t
  rep := rep
  w_ne := by cases test <;> decide
  w_line := by cases test <;> decide

/-- `run_sweep` -/
def SweepConfig.runSweep (c : SweepConfig) (label : Label)
    (workloads : List Test) : List Run :=
  c.TARGET_BLOCKSIZE.flatMap fun bs =>
    workloads.flatMap fun w =>
      c.TARGET_THREADS.flatMap fun t =>
        (List.range' 1 c.REPS).map fun rep => Run.ofTest label bs w t rep

/-- The reads, then the writes. -/
def SweepConfig.runs (c : SweepConfig) : List Run :=
  c.runSweep .READ c.READ_WORKLOADS ++ c.runSweep .WRITE c.WRITE_WORKLOADS

/-- A start of the benchmark, in its second, and what becomes of it. -/
structure Start where
  run : Run
  timestamp : List Char
  attempt : Attempt
  /-- What `--mode` and `--threads` ask for. -/
  asked : ∀ r, attempt = .completed r → r.mode = run.w ∧ r.num_threads = run.t

namespace Start

/-- The name of the output file. -/
def txt (s : Start) : List Char := s.timestamp ++ ".txt".toList

/-- The order of the directories. -/
def le (s s' : Start) : Bool := pathLe s.run.stem s'.run.stem

end Start

/-- The lines of the files of a directory. -/
abbrev Files := AList fun _ : List Char => List (List Char)

/-- The directories below `$OUTDIR`. -/
abbrev Dirs := AList fun _ : List Char => Files

/-- `mkdir -p` and the output file. -/
def afterStart (dirs : Dirs) (s : Start) : Dirs :=
  let files := (dirs.lookup s.run.stem).getD ∅
  match s.attempt with
  | .refused => dirs
  | attempt =>
      dirs.insert s.run.stem
        (match afterAttempt (files.lookup s.txt) attempt with
        | none => files
        | some lines => files.insert s.txt lines)

/-- `set -e`: a run that fails is the last one. -/
def untilFailure : List Start → List Start
  | [] => []
  | s :: starts =>
      match s.attempt with
      | .completed _ => s :: untilFailure starts
      | _ => [s]

/-- `$OUTDIR`, at the end of the script. -/
def sweepDirs (starts : List Start) : Dirs :=
  (untilFailure starts).foldl afterStart ∅

/-! ## Parsing -/

section Parse

variable {py : Python} (special : py.Special)

/-- `_read_bw`, of a file of a directory. -/
def readTxt (files : Files) (txt : List Char) (threads : Nat) :
    Except PyError (Option py.Double) :=
  match files.lookup txt with
  | none => .error .osError
  | some lines => .ok (readBw special lines threads)

/-- `_parse_mio_dir`, of a directory with these files. -/
def parseFiles (name : List Char) (files : Files) :
    Except PyError (Option (MioRecord py)) :=
  parseMioDir py (readTxt special files) { name := name, txts := files.keys }

/-- `parse_mio`, of a directory. -/
def parseMio (name : List Char) (files : Files) (dirs : Dirs) :
    Except PyError (List (MioRecord py)) := do
  let candidates := ⟨name, files⟩ :: dirs.entries.mergeSort fun d d' => pathLe d.1 d'.1
  let records ← candidates.mapM fun d => parseFiles special d.1 d.2
  return records.filterMap id

end Parse

/-! ## The order of names -/

theorem pathLe_iff (a b : List Char) : pathLe a b = true ↔ a ≤ b := by
  have hLex : ∀ s t : List Char,
      List.lex s t (fun c d => decide (c.toNat < d.toNat)) = true ↔ s < t := by
    intro s t
    rw [List.lex_eq_true_iff_lex]
    simp only [decide_eq_true_eq]
    exact Iff.rfl
  rw [pathLe, Bool.not_eq_true', ← Bool.not_eq_true, hLex, not_lt]

section Names

variable {α : Type} {name : α → List Char}

theorem pairwise_names (l : List α) :
    (l.mergeSort fun a b => pathLe (name a) (name b)).Pairwise fun a b =>
      pathLe (name a) (name b) = true := by
  have hTrans : ∀ a b c : α, pathLe (name a) (name b) = true →
      pathLe (name b) (name c) = true → pathLe (name a) (name c) = true := by
    intro a b c hab hbc
    rw [pathLe_iff] at hab hbc ⊢
    exact hab.trans hbc
  have hTotal : ∀ a b : α,
      (pathLe (name a) (name b) || pathLe (name b) (name a)) = true := by
    intro a b
    rw [Bool.or_eq_true, pathLe_iff, pathLe_iff]
    exact le_total _ _
  exact List.pairwise_mergeSort hTrans hTotal l

/-- What is sorted by different names can be sorted in one way only. -/
theorem mergeSort_names {l l' : List α} (hPerm : l.Perm l')
    (hNames : (l.map name).Nodup)
    (hSorted : l'.Pairwise fun a b => pathLe (name a) (name b) = true) :
    l.mergeSort (fun a b => pathLe (name a) (name b)) = l' := by
  refine List.Perm.eq_of_pairwise ?_ (pairwise_names l) hSorted
    ((List.mergeSort_perm l _).trans hPerm)
  intro a b ha hb hab hba
  rw [pathLe_iff] at hab hba
  exact List.inj_on_of_nodup_map hNames (List.mem_mergeSort.mp ha)
    (hPerm.mem_iff.mpr hb) (le_antisymm hab hba)

end Names

/-! ## One directory -/

section Directory

variable {py : Python} (special : py.Special)

/-- `$OUTDIR` is a candidate, too, but its name ends otherwise. -/
theorem matchStart_sweep (date : List Char) :
    (mioDirRe py).matchStart (date ++ "_sweep".toList) = none := by
  cases hMatch : (mioDirRe py).matchStart (date ++ "_sweep".toList) with
  | none => rfl
  | some x =>
      obtain ⟨hText, hFits⟩ := Lib.Regex.mem_successes.mp
        (List.mem_of_mem_head? (Option.mem_def.mpr hMatch))
      obtain ⟨p, hp, hTaken, -, hEnd⟩ := fits_mioDirRe.mp hFits
      have hLast : (date ++ "_sweep".toList).getLast? = some 'p' := by simp
      rw [hText, hTaken] at hLast
      rcases hEnd with hNil | hLine
      · -- The name would end in a digit.
        obtain ⟨digits, c, hRep⟩ := (List.eq_nil_or_concat p.rep).resolve_left hp.rep.1
        have hDigit := hp.rep.2 c (by rw [hRep]; simp)
        have hText : p.text = (((p.rw ++ '_' :: p.workload) ++ '_' ::
            ("bs".toList ++ p.bs)) ++ '_' :: ("t".toList ++ p.threads) ++
            '_' :: ("rep".toList ++ digits)) ++ [c] := by
          simp [Parts.text, hRep]
        rw [hNil, List.append_nil, hText, List.getLast?_concat] at hLast
        obtain rfl : c = 'p' := by simpa using hLast
        cases hDigit
      · rw [hLine] at hLast
        simp at hLast

theorem parseFiles_sweep (date : List Char) (files : Files) :
    parseFiles special (date ++ "_sweep".toList) files = .ok none := by
  unfold parseFiles parseMioDir
  rw [matchStart_sweep]

theorem readTxt_insert (files : Files) (txt : List Char)
    (lines : List (List Char)) (threads : Nat) :
    readTxt special (files.insert txt lines) txt threads =
      .ok (readBw special lines threads) := by
  rw [readTxt, AList.lookup_insert]

namespace Start

variable (s : Start)

/-- The files of a run that had its directory for itself. -/
def files : Files :=
  match afterAttempt none s.attempt with
  | none => ∅
  | some lines => (∅ : Files).insert s.txt lines

/-- The record of a run that has measured this. -/
def recordOf (py : Python) (r : RunResult) : MioRecord py where
  toMioKey := s.run.key
  bw_gbps := firstBandwidth py r
  path := { name := s.run.stem, txts := [s.txt] }

/-- The record of a run. -/
def record (py : Python) : Option (MioRecord py) :=
  match s.attempt with
  | .completed r => some (s.recordOf py r)
  | _ => none

/-- `int` accepts the numbers in the name. -/
structure Fits (py : Python) : Prop where
  bs : IntFits py s.run.bs
  t : IntFits py s.run.t
  rep : IntFits py s.run.rep

/-- Its directory is parsed to the record of a run. -/
theorem parseFiles_files (hFits : s.Fits py) :
    parseFiles special s.run.stem s.files = .ok (s.record py) := by
  have hMatch := s.run.matchStart_stem py
  have hKeys : ∀ lines, (((∅ : Files).insert s.txt lines).keys.mergeSort
      pathLe).getLast? = some s.txt := by
    intro lines
    rw [AList.keys_insert]
    exact congrArg List.getLast? (List.mergeSort_singleton s.txt)
  unfold files record
  cases hAttempt : s.attempt with
  | refused =>
      simp [afterAttempt, parseFiles, parseMioDir, hMatch]
  | rejected =>
      simp [afterAttempt, parseFiles, parseMioDir, hMatch]
  | killed =>
      show parseFiles special s.run.stem ((∅ : Files).insert s.txt []) = .ok none
      unfold parseFiles parseMioDir
      rw [hMatch, hKeys]
      refine bind_ok_iff.mpr ⟨s.run.t, int_plain_iff.mpr ⟨hFits.t, rfl⟩,
        bind_ok_iff.mpr ⟨none, ?_, rfl⟩⟩
      exact readTxt_insert special ∅ s.txt [] s.run.t
  | completed r =>
      obtain ⟨-, hThreads⟩ := s.asked r hAttempt
      have hRead := readBw_completed special
        (show IntFits py r.num_threads from hThreads ▸ hFits.t)
      rw [hThreads] at hRead
      show parseFiles special s.run.stem ((∅ : Files).insert s.txt
        ((Bench.outputFile [.completed r]).getD [])) = _
      have hTxt := readTxt_insert special ∅ s.txt
        ((Bench.outputFile [.completed r]).getD []) s.run.t
      rw [hRead] at hTxt
      exact s.run.parseMioDir_stem rfl (hKeys _) hTxt hFits.bs hFits.t hFits.rep

end Start

end Directory

/-! ## The directories of a sweep -/

theorem plain_inj {n n' : Nat} (h : plain n = plain n') : n = n' := by
  rw [← Lib.decimal_allDigits 1 n, ← Lib.decimal_allDigits 1 n']
  exact congrArg Lib.decimal h

/-- Runs do not share a name. -/
theorem Run.stem_inj {run run' : Run} (h : run.stem = run'.stem) : run = run' := by
  have hParts : run.parts = run'.parts :=
    Parts.text_inj (run.fits_parts asciiPython) (run'.fits_parts asciiPython) h
  obtain ⟨hLabel, hW, hBs, hT, hRep⟩ := Parts.mk.inj hParts
  exact Run.ext (Label.lower_inj hLabel) hW (plain_inj hBs) (plain_inj hT)
    (plain_inj hRep)

namespace Start

/-- `main` comes as far as `mkdir`. -/
def made (s : Start) : Bool :=
  match s.attempt with
  | .refused => false
  | _ => true

def entry (s : Start) : (_ : List Char) × Files := ⟨s.run.stem, s.files⟩

theorem record_eq_none {py : Python} {s : Start} (h : s.made = false) :
    s.record py = none := by
  unfold made at h
  unfold record
  cases hAttempt : s.attempt with
  | refused => rfl
  | rejected => rfl
  | killed => rfl
  | completed r =>
      rw [hAttempt] at h
      cases h

end Start

/-- One run adds its directory. -/
theorem entries_afterStart {dirs : Dirs} {s : Start} (hNew : s.run.stem ∉ dirs) :
    (afterStart dirs s).entries =
      ([s].filter Start.made).map Start.entry ++ dirs.entries := by
  have hLookup : dirs.lookup s.run.stem = none := AList.lookup_eq_none.mpr hNew
  have hEmpty : (∅ : Files).lookup s.txt = none := AList.lookup_empty _
  unfold afterStart
  rw [hLookup, Option.getD_none]
  dsimp only
  rw [hEmpty]
  cases hAttempt : s.attempt with
  | refused => simp [Start.made, hAttempt]
  | rejected =>
      rw [AList.entries_insert_of_notMem hNew]
      simp [Start.made, Start.entry, Start.files, hAttempt]
  | killed =>
      rw [AList.entries_insert_of_notMem hNew]
      simp [Start.made, Start.entry, Start.files, hAttempt]
  | completed r =>
      rw [AList.entries_insert_of_notMem hNew]
      simp [Start.made, Start.entry, Start.files, hAttempt]

/-- The directories are those of the runs that came as far as `mkdir`. -/
theorem entries_foldl {starts : List Start}
    (hRuns : (starts.map Start.run).Nodup) :
    (starts.foldl afterStart ∅).entries.Perm
      ((starts.filter Start.made).map Start.entry) := by
  induction starts using List.reverseRecOn with
  | nil => exact List.Perm.refl _
  | append_singleton starts s ih =>
      rw [List.map_append, List.nodup_append] at hRuns
      obtain ⟨hBefore, -, hOther⟩ := hRuns
      have hDirs := ih hBefore
      have hNew : s.run.stem ∉ starts.foldl afterStart ∅ := by
        intro hMem
        obtain ⟨d, hd, hName⟩ := List.mem_map.mp (AList.mem_keys.mp hMem)
        obtain ⟨s', hs', rfl⟩ := List.mem_map.mp (hDirs.mem_iff.mp hd)
        have hRun : s'.run = s.run := Run.stem_inj hName
        exact hOther s'.run (List.mem_map_of_mem (List.mem_of_mem_filter hs'))
          s.run (by simp) hRun
      rw [List.foldl_append, List.foldl_cons, List.foldl_nil,
        entries_afterStart hNew, List.filter_append, List.map_append]
      exact (List.Perm.append_left _ hDirs).trans List.perm_append_comm

theorem untilFailure_isPrefix (starts : List Start) :
    untilFailure starts <+: starts := by
  induction starts with
  | nil => exact List.prefix_refl _
  | cons s starts ih =>
      rw [untilFailure]
      split
      · exact List.cons_prefix_cons.mpr ⟨rfl, ih⟩
      · exact List.cons_prefix_cons.mpr ⟨rfl, List.nil_prefix⟩

theorem untilFailure_eq_self {starts : List Start}
    (h : ∀ s ∈ starts, ∃ r, s.attempt = .completed r) :
    untilFailure starts = starts := by
  induction starts with
  | nil => rfl
  | cons s starts ih =>
      obtain ⟨r, hAttempt⟩ := h s List.mem_cons_self
      have hRest := ih fun s' hs' => h s' (List.mem_cons_of_mem _ hs')
      rw [untilFailure, hAttempt]
      exact congrArg (s :: ·) hRest

/-! ## The points -/

theorem nodup_flatMap {α β γ : Type} {l : List α} {f : α → List β} {g : α → γ}
    (tag : β → γ) (hg : Function.Injective g) (hl : l.Nodup)
    (hf : ∀ x ∈ l, (f x).Nodup) (hTag : ∀ x ∈ l, ∀ y ∈ f x, tag y = g x) :
    (l.flatMap f).Nodup := by
  refine List.nodup_flatMap.mpr ⟨hf, ?_⟩
  refine List.Pairwise.imp_of_mem ?_ hl
  intro x x' hx hx' hNe y hy hy'
  exact hNe (hg ((hTag x hx y hy).symm.trans (hTag x' hx' y hy')))

/-- No value stands twice in a list. -/
structure SweepConfig.Distinct (c : SweepConfig) : Prop where
  threads : c.TARGET_THREADS.Nodup
  blocks : c.TARGET_BLOCKSIZE.Nodup
  reads : c.READ_WORKLOADS.Nodup
  writes : c.WRITE_WORKLOADS.Nodup

section Points

variable {c : SweepConfig}

theorem mem_runSweep {label : Label} {workloads : List Test} {run : Run} :
    run ∈ c.runSweep label workloads ↔
      ∃ bs ∈ c.TARGET_BLOCKSIZE, ∃ w ∈ workloads, ∃ t ∈ c.TARGET_THREADS, ∃ rep,
        (1 ≤ rep ∧ rep ≤ c.REPS) ∧ Run.ofTest label bs w t rep = run := by
  have hRep : ∀ rep, (1 ≤ rep ∧ rep < 1 + c.REPS) ↔ (1 ≤ rep ∧ rep ≤ c.REPS) := by
    intro rep
    omega
  simp [SweepConfig.runSweep, List.mem_range'_1, hRep]

theorem nodup_runSweep (h : c.Distinct) {label : Label} {workloads : List Test}
    (hWorkloads : workloads.Nodup) : (c.runSweep label workloads).Nodup := by
  have hName : Function.Injective Test.name := fun _ _ => Test.name_inj
  refine nodup_flatMap Run.bs Function.injective_id h.blocks ?_ ?_
  · intro bs _
    refine nodup_flatMap Run.w hName hWorkloads ?_ ?_
    · intro w _
      refine nodup_flatMap Run.t Function.injective_id h.threads ?_ ?_
      · intro t _
        refine List.Nodup.map ?_ List.nodup_range'
        intro rep rep' hEq
        exact congrArg Run.rep hEq
      · intro t _ run hRun
        obtain ⟨rep, -, rfl⟩ := List.mem_map.mp hRun
        rfl
    · intro w _ run hRun
      obtain ⟨t, -, hRun⟩ := List.mem_flatMap.mp hRun
      obtain ⟨rep, -, rfl⟩ := List.mem_map.mp hRun
      rfl
  · intro bs _ run hRun
    obtain ⟨w, -, hRun⟩ := List.mem_flatMap.mp hRun
    obtain ⟨t, -, hRun⟩ := List.mem_flatMap.mp hRun
    obtain ⟨rep, -, rfl⟩ := List.mem_map.mp hRun
    rfl

theorem nodup_runs (h : c.Distinct) : c.runs.Nodup := by
  refine List.nodup_append.mpr ⟨nodup_runSweep h h.reads, nodup_runSweep h h.writes, ?_⟩
  intro run hRead run' hWrite hEq
  obtain ⟨_, _, _, _, _, _, _, _, rfl⟩ := mem_runSweep.mp hRead
  obtain ⟨_, _, _, _, _, _, _, _, rfl⟩ := mem_runSweep.mp hWrite
  cases congrArg Run.label hEq

end Points

/-! ## All records -/

section Records

variable {py : Python} (special : py.Special)

theorem mapM_ok {α β : Type} {f : α → Except PyError β} {g : α → β} {l : List α}
    (h : ∀ a ∈ l, f a = .ok (g a)) : l.mapM f = .ok (l.map g) := by
  induction l with
  | nil => rfl
  | cons a l ih =>
      have hRest := ih fun b hb => h b (List.mem_cons_of_mem _ hb)
      rw [List.mapM_cons, h a List.mem_cons_self, hRest]
      rfl

/-- The directories of some runs, parsed. -/
theorem parseMio_starts {starts : List Start} (date : List Char)
    (hRuns : (starts.map Start.run).Nodup) (hFits : ∀ s ∈ starts, s.Fits py) :
    parseMio special (date ++ "_sweep".toList) ∅ (starts.foldl afterStart ∅) =
      .ok ((starts.mergeSort Start.le).filterMap fun s => s.record py) := by
  have hSame : (starts.mergeSort Start.le).Perm starts := List.mergeSort_perm _ _
  have hPerm : (starts.foldl afterStart ∅).entries.Perm
      (((starts.mergeSort Start.le).filter Start.made).map Start.entry) :=
    (entries_foldl hRuns).trans ((hSame.symm.filter _).map _)
  have hSorted : (((starts.mergeSort Start.le).filter Start.made).map
      Start.entry).Pairwise fun d d' => pathLe d.1 d'.1 = true :=
    List.pairwise_map.mpr ((pairwise_names starts).filter _)
  have hDirs := mergeSort_names hPerm (AList.keys_nodup _) hSorted
  have hParsed : ((starts.mergeSort Start.le).filter Start.made).mapM
      (fun s => parseFiles special s.entry.1 s.entry.2) =
      .ok (((starts.mergeSort Start.le).filter Start.made).map fun s =>
        s.record py) := by
    refine mapM_ok fun s hs => s.parseFiles_files special (hFits s ?_)
    exact hSame.mem_iff.mp (List.mem_of_mem_filter hs)
  unfold parseMio
  dsimp only
  rw [hDirs, List.mapM_cons, parseFiles_sweep, List.mapM_map]
  refine bind_ok_iff.mpr ⟨none :: ((starts.mergeSort Start.le).filter
    Start.made).map fun s => s.record py, ?_, ?_⟩
  · refine bind_ok_iff.mpr ⟨none, rfl, bind_ok_iff.mpr ⟨_, hParsed, rfl⟩⟩
  · refine congrArg Except.ok ?_
    rw [List.filterMap_cons_none rfl, List.filterMap_map, List.filterMap_filter]
    refine List.filterMap_congr fun s _ => ?_
    split
    · rfl
    · rename_i hMade
      exact (Start.record_eq_none (by simpa using hMade)).symm

theorem nodup_untilFailure {c : SweepConfig} (hLists : c.Distinct)
    {starts : List Start} (hStarts : starts.map Start.run = c.runs) :
    ((untilFailure starts).map Start.run).Nodup := by
  have hAll := nodup_runs hLists
  rw [← hStarts] at hAll
  exact hAll.sublist ((untilFailure_isPrefix starts).sublist.map _)

/-- **A sweep comes back as records.**  `parse_mio` finds the runs that have come to
their end before the script did, in the order of their names, each with the numbers
of its point and the bandwidth that was printed; and if none has failed, these are
all points of the sweep. -/
theorem parseMio_sweep {c : SweepConfig} (hLists : c.Distinct) {starts : List Start}
    (hStarts : starts.map Start.run = c.runs) (hFits : ∀ s ∈ starts, s.Fits py)
    (date : List Char) :
    ∃ records,
      parseMio special (date ++ "_sweep".toList) ∅ (sweepDirs starts) = .ok records ∧
      records = ((untilFailure starts).mergeSort Start.le).filterMap
        (fun s => s.record py) ∧
      ((∀ s ∈ starts, ∃ r, s.attempt = .completed r) →
        (records.map MioRecord.toMioKey).Perm (c.runs.map Run.key)) := by
  refine ⟨_, parseMio_starts special date (nodup_untilFailure hLists hStarts)
    fun s hs => hFits s ((untilFailure_isPrefix starts).subset hs), rfl, ?_⟩
  intro hCompleted
  rw [untilFailure_eq_self hCompleted, ← hStarts, List.map_map]
  have hKeys : ∀ l : List Start, (∀ s ∈ l, ∃ r, s.attempt = .completed r) →
      (l.filterMap fun s => s.record py).map MioRecord.toMioKey =
        l.map (Run.key ∘ Start.run) := by
    intro l hl
    induction l with
    | nil => rfl
    | cons s l ih =>
        obtain ⟨r, hAttempt⟩ := hl s List.mem_cons_self
        have hRest := ih fun s' hs' => hl s' (List.mem_cons_of_mem _ hs')
        have hRecord : s.record py = some (s.recordOf py r) := by
          rw [Start.record, hAttempt]
        rw [List.filterMap_cons_some (f := fun s : Start => s.record py) hRecord,
          List.map_cons, hRest]
        rfl
  rw [hKeys _ fun s hs => hCompleted s (List.mem_mergeSort.mp hs)]
  exact (List.mergeSort_perm _ _).map _

end Records

theorem intFits_ascii {n : Nat} (h : n < 4300) : IntFits asciiPython n :=
  fun _ => (length_plain_le n).trans h

/-- A sweep of two points. -/
def twoPoints : SweepConfig where
  TARGET_THREADS := [4]
  TARGET_BLOCKSIZE := [64]
  READ_WORKLOADS := [.seqRead]
  WRITE_WORKLOADS := [.seqWrite]
  REPS := 1

theorem distinct_twoPoints : twoPoints.Distinct :=
  ⟨by decide, by decide, by decide, by decide⟩

/-- What the first of them has measured. -/
def firstResult : RunResult := RunResult.ofTest 4 .seqRead 333

def firstStart : Start where
  run := Run.ofTest .READ 64 .seqRead 4 1
  timestamp := "20250101".toList
  attempt := .completed firstResult
  asked := by
    intro r hr
    cases hr
    exact ⟨rfl, rfl⟩

/-- The second of them is killed. -/
def twoStarts : List Start :=
  [firstStart,
    { run := Run.ofTest .WRITE 64 .seqWrite 4 1
      timestamp := "20250102".toList
      attempt := .killed
      asked := by
        intro r hr
        cases hr }]

theorem fits_twoStarts : ∀ s ∈ twoStarts, s.Fits asciiPython := by
  intro s hs
  have hFew : s.run.bs = 64 ∧ s.run.t = 4 ∧ s.run.rep = 1 := by
    revert s
    simp [twoStarts, firstStart, Run.ofTest]
  exact ⟨intFits_ascii (by omega), intFits_ascii (by omega), intFits_ascii (by omega)⟩

/-- Only the first point has a record. -/
theorem parseMio_sweep_killed :
    ∃ record,
      parseMio asciiSpecial "2025_sweep".toList ∅ (sweepDirs twoStarts) =
        .ok [record] ∧
      record.toMioKey = (Run.ofTest .READ 64 .seqRead 4 1).key ∧
      record.bw_gbps = firstBandwidth asciiPython firstResult := by
  obtain ⟨records, hParse, hRecords, -⟩ := parseMio_sweep asciiSpecial
    distinct_twoPoints (show twoStarts.map Start.run = twoPoints.runs from rfl)
    fits_twoStarts "2025".toList
  have hSorted : (untilFailure twoStarts).mergeSort Start.le = twoStarts :=
    List.mergeSort_of_pairwise (by decide)
  rw [hRecords, hSorted] at hParse
  exact ⟨_, hParse, rfl, rfl⟩

end MioBench.Scripts
