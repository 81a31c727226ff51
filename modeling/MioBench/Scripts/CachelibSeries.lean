import MioBench.Scripts.CachelibLog

/-!
# The latency series of a CacheBench log

A log is cut at its headers, and the latency series should have one entry for each
block.  `Tracks` says how far the parser is with this behind some lines: the blocks
that are closed have their entries, and `current_lat` holds the latencies of the
last one.  At the end of the file the last block is missing where it has reported
no latency.
-/

namespace MioBench.Scripts

open Lib (sections lastGiven)

variable (py : Python)

/-! ## What the series should be -/

def isHeader (line : List Char) : Bool :=
  ((headerRe py).search (py.rstrip line)).isSome

/-- The lines behind each header. -/
def blocks (lines : List (List Char)) : List (List (List Char)) :=
  sections (isHeader py) lines

/-- The latency that a line reports, with its key. -/
def reported (line : List Char) : Option (List Char × py.Double) :=
  match readItem py (py.rstrip line) with
  | .ok item => item.report
  | .error _ => none

def reports (block : List (List Char)) : List (List Char × py.Double) :=
  block.filterMap (reported py)

/-- The last value of a percentile in a block, or 0. -/
def lastReported (key : List Char) (block : List (List Char)) : py.Double :=
  (lastGiven key (reports py block)).getD (py.toDouble 0)

/-- Once a header was seen, each latency series is as long as the timestamps, and
its entries are the last values of the blocks. -/
def SeriesAligned (lines : List (List Char)) (results : Results py) : Prop :=
  blocks py lines ≠ [] → ∀ key ∈ latencyKeys,
    (results.latency key).length = results.timestamp.length ∧
    results.latency key = (blocks py lines).map (lastReported py key)

def HeaderReads (line : List Char) : Prop :=
  ∀ m, (headerRe py).search (py.rstrip line) = some m →
    ∃ header, readHeader py m = .ok header

def ItemReads (line : List Char) : Prop :=
  ∃ item, readItem py (py.rstrip line) = .ok item

/-- The numbers of the headers and of the lines behind them can be converted. -/
structure Readable (lines : List (List Char)) : Prop where
  headers : ∀ line ∈ lines, HeaderReads py line
  items : ∀ block ∈ blocks py lines, ∀ line ∈ block, ItemReads py line

/-- A latency is reported behind the last header, if there is one. -/
def EndsReported (lines : List (List Char)) : Prop :=
  ∀ block, (blocks py lines).getLast? = some block →
    ∃ line ∈ block, isLatency (py.rstrip line) = true

variable {py}

/-! ## One step -/

/-- What a step needs. -/
def LineReads (py : Python) (in_block : Bool) (line : List Char) : Prop :=
  HeaderReads py line ∧
    (isHeader py line = false → in_block = true → ItemReads py line)

/-- What a step does. -/
theorem logStep_ok_iff {s s' : LogState py} {line : List Char} :
    logStep py s line = .ok s' ↔
      (∃ m header, (headerRe py).search (py.rstrip line) = some m ∧
        readHeader py m = .ok header ∧ s' = s.close.addHeader header) ∨
      isHeader py line = false ∧
        (s.in_block = true ∧
          (∃ item, readItem py (py.rstrip line) = .ok item ∧ s' = s.addItem item) ∨
        s.in_block = false ∧ s' = s) := by
  unfold logStep isHeader
  dsimp only
  cases hSearch : (headerRe py).search (py.rstrip line) with
  | some m =>
      constructor
      · intro h
        obtain ⟨header, hHeader, rfl⟩ := map_ok_iff.mp h
        exact Or.inl ⟨m, header, rfl, hHeader, rfl⟩
      · rintro (⟨m', header, hm, hHeader, rfl⟩ | ⟨hNone, -⟩)
        · cases hm
          exact map_ok_iff.mpr ⟨header, hHeader, rfl⟩
        · cases hNone
  | none =>
      dsimp only
      cases hBlock : s.in_block with
      | true =>
          constructor
          · intro h
            obtain ⟨item, hItem, rfl⟩ := map_ok_iff.mp h
            exact Or.inr ⟨rfl, Or.inl ⟨rfl, item, hItem, rfl⟩⟩
          · rintro (⟨m, header, hm, -⟩ | ⟨-, ⟨-, item, hItem, rfl⟩ | ⟨hOut, -⟩⟩)
            · cases hm
            · exact map_ok_iff.mpr ⟨item, hItem, rfl⟩
            · cases hOut
      | false =>
          constructor
          · intro h
            cases h
            exact Or.inr ⟨rfl, Or.inr ⟨rfl, rfl⟩⟩
          · rintro (⟨m, header, hm, -⟩ | ⟨-, ⟨hIn, -⟩ | ⟨-, rfl⟩⟩)
            · cases hm
            · cases hIn
            · rfl

theorem logStep_returns_iff {s : LogState py} {line : List Char} :
    (∃ s', logStep py s line = .ok s') ↔ LineReads py s.in_block line := by
  constructor
  · rintro ⟨s', h⟩
    rcases logStep_ok_iff.mp h with ⟨m, header, hm, hHeader, -⟩ | ⟨hNone, hRest⟩
    · refine ⟨fun m' hm' => ⟨header, ?_⟩, fun hNone => ?_⟩
      · rw [hm] at hm'
        cases hm'
        exact hHeader
      · rw [isHeader, hm] at hNone
        cases hNone
    · refine ⟨fun m hm => ?_, fun _ hIn => ?_⟩
      · rw [isHeader, hm] at hNone
        cases hNone
      · rcases hRest with ⟨-, item, hItem, -⟩ | ⟨hOut, -⟩
        · exact ⟨item, hItem⟩
        · rw [hOut] at hIn
          cases hIn
  · rintro ⟨hHeaders, hItems⟩
    cases hSearch : (headerRe py).search (py.rstrip line) with
    | some m =>
        obtain ⟨header, hHeader⟩ := hHeaders m hSearch
        exact ⟨_, logStep_ok_iff.mpr (Or.inl ⟨m, header, hSearch, hHeader, rfl⟩)⟩
    | none =>
        have hNone : isHeader py line = false := by
          rw [isHeader, hSearch]
          rfl
        cases hBlock : s.in_block with
        | true =>
            obtain ⟨item, hItem⟩ := hItems hNone hBlock
            exact ⟨_, logStep_ok_iff.mpr
              (Or.inr ⟨hNone, Or.inl ⟨hBlock, item, hItem, rfl⟩⟩)⟩
        | false =>
            exact ⟨s, logStep_ok_iff.mpr (Or.inr ⟨hNone, Or.inr ⟨hBlock, rfl⟩⟩)⟩

/-! ## The blocks grow line by line -/

section Growth

variable {lines : List (List Char)} {line : List Char}

theorem blocks_concat_header (h : isHeader py line = true) :
    blocks py (lines ++ [line]) = blocks py lines ++ [[]] :=
  Lib.sections_concat_head h

theorem blocks_concat_of_nil (hBlocks : blocks py lines = [])
    (h : isHeader py line = false) : blocks py (lines ++ [line]) = [] :=
  Lib.sections_concat_of_nil hBlocks h

theorem blocks_concat {front : List (List (List Char))} {block : List (List Char)}
    (hBlocks : blocks py lines = front ++ [block]) (h : isHeader py line = false) :
    blocks py (lines ++ [line]) = front ++ [block ++ [line]] :=
  Lib.sections_concat hBlocks h

theorem reports_concat {block : List (List Char)} {item : Item py}
    (hItem : readItem py (py.rstrip line) = .ok item) :
    reports py (block ++ [line]) = reports py block ++ item.report.toList := by
  have hLine : reported py line = item.report := by
    rw [reported, hItem]
  rw [reports, List.filterMap_append, ← reports, List.filterMap_cons, hLine]
  cases item.report with
  | none => rfl
  | some report => rfl

theorem readable_concat_iff :
    Readable py (lines ++ [line]) ↔
      Readable py lines ∧ LineReads py (!(blocks py lines).isEmpty) line := by
  have hHeaders : (∀ l ∈ lines ++ [line], HeaderReads py l) ↔
      (∀ l ∈ lines, HeaderReads py l) ∧ HeaderReads py line := by
    simp [or_imp, forall_and]
  have hItems : (∀ block ∈ blocks py (lines ++ [line]), ∀ l ∈ block, ItemReads py l) ↔
      (∀ block ∈ blocks py lines, ∀ l ∈ block, ItemReads py l) ∧
        (isHeader py line = false → (!(blocks py lines).isEmpty) = true →
          ItemReads py line) := by
    cases hHeader : isHeader py line with
    | true => simp [blocks_concat_header hHeader, or_imp, forall_and]
    | false =>
        rcases List.eq_nil_or_concat' (blocks py lines) with hNil | ⟨front, block, hEq⟩
        · simp [blocks_concat_of_nil hNil hHeader, hNil]
        · simp [blocks_concat hEq hHeader, hEq, or_imp, forall_and, and_assoc]
  constructor
  · rintro ⟨hH, hI⟩
    exact ⟨⟨(hHeaders.mp hH).1, (hItems.mp hI).1⟩, (hHeaders.mp hH).2,
      (hItems.mp hI).2⟩
  · rintro ⟨⟨hH, hI⟩, hHeader, hItem⟩
    exact ⟨hHeaders.mpr ⟨hH, hHeader⟩, hItems.mpr ⟨hI, hItem⟩⟩

end Growth

/-! ## How far the parser is -/

theorem nodup_latencyKeys : latencyKeys.Nodup := by decide +kernel

/-- Every series gets the last value of the block. -/
theorem latency_flush {results : Results py} {block : List (List Char)}
    {key : List Char} (hKey : key ∈ latencyKeys) :
    (flush results (reports py block).reverse).latency key =
      results.latency key ++ [lastReported py key block] := by
  rw [lastReported, ← Lib.lookup_reverse]
  unfold flush
  dsimp only
  rw [Lib.foldl_appendAt (fun key =>
    ((reports py block).reverse.lookup key).getD (py.toDouble 0)) nodup_latencyKeys,
    if_pos hKey]

/-- Where the parser is behind some lines. -/
structure Tracks (lines : List (List Char)) (s : LogState py) : Prop where
  in_block : s.in_block = !(blocks py lines).isEmpty
  timestamp : s.results.timestamp.length = (blocks py lines).length
  latency : ∀ key ∈ latencyKeys,
    s.results.latency key = (blocks py lines).dropLast.map (lastReported py key)
  current_lat : s.current_lat = (reports py ((blocks py lines).getLastD [])).reverse

theorem tracks_start : Tracks [] (logStart py) where
  in_block := rfl
  timestamp := rfl
  latency := fun _ _ => rfl
  current_lat := rfl

theorem latency_addItem (r : Results py) (item : Item py) :
    (r.addItem item).latency = r.latency ∧
      (r.addItem item).timestamp = r.timestamp := by
  cases item with
  | latency key val => exact ⟨rfl, rfl⟩
  | items_in_ram n => exact ⟨rfl, rfl⟩
  | items_in_nvm n => exact ⟨rfl, rfl⟩
  | app_write_amp x => exact ⟨rfl, rfl⟩
  | throughput op per_sec success_pct => exact ⟨rfl, rfl⟩
  | unrelated => exact ⟨rfl, rfl⟩

/-- A header closes the last block. -/
theorem Tracks.header {lines : List (List Char)} {line : List Char}
    {s : LogState py} (h : Tracks lines s) (hLine : isHeader py line = true)
    (header : Header py) :
    Tracks (lines ++ [line]) (s.close.addHeader header) := by
  have hBlocks := @blocks_concat_header py lines line hLine
  have hOpen := h.in_block
  rcases List.eq_nil_or_concat' (blocks py lines) with hNil | ⟨front, block, hEq⟩
  · rw [hNil] at hBlocks hOpen
    have hClose : s.close = s := by
      rw [LogState.close, hOpen]
      rfl
    rw [hClose]
    exact {
      in_block := by simp [LogState.addHeader, hBlocks]
      timestamp := by simp [LogState.addHeader, hBlocks, h.timestamp, hNil]
      latency := fun key hKey => by
        simp [LogState.addHeader, hBlocks, h.latency key hKey, hNil]
      current_lat := by
        simp [LogState.addHeader, hBlocks, h.current_lat, hNil] }
  · have hClose : s.close =
        { s with results := flush s.results s.current_lat, current_lat := [] } := by
      rw [LogState.close, hOpen, hEq]
      simp
    rw [hClose]
    exact {
      in_block := by simp [LogState.addHeader, hBlocks]
      timestamp := by simp [LogState.addHeader, flush, hBlocks, h.timestamp]
      latency := fun key hKey => by
        have hTable : s.current_lat = (reports py block).reverse := by
          simp [h.current_lat, hEq]
        have hSeries := h.latency key hKey
        simp only [hEq, List.dropLast_concat] at hSeries
        show (flush s.results s.current_lat).latency key = _
        rw [hTable, latency_flush hKey, hSeries, hBlocks, List.dropLast_concat, hEq,
          List.map_append]
        rfl
      current_lat := by simp [LogState.addHeader, hBlocks, reports] }

/-- A line of the last block adds to its table. -/
theorem Tracks.item {lines : List (List Char)} {line : List Char}
    {s : LogState py} (h : Tracks lines s) (hLine : isHeader py line = false)
    (hBlock : s.in_block = true) {item : Item py}
    (hItem : readItem py (py.rstrip line) = .ok item) :
    Tracks (lines ++ [line]) (s.addItem item) := by
  have hSame := latency_addItem s.results item
  rcases List.eq_nil_or_concat' (blocks py lines) with hNil | ⟨front, block, hEq⟩
  · rw [h.in_block, hNil] at hBlock
    cases hBlock
  · have hBlocks := blocks_concat hEq hLine
    exact {
      in_block := by
        rw [hBlocks]
        simp [LogState.addItem, hBlock]
      timestamp := by
        rw [hBlocks]
        simp [LogState.addItem, hSame, h.timestamp, hEq]
      latency := fun key hKey => by
        rw [hBlocks]
        simp [LogState.addItem, hSame, h.latency key hKey, hEq]
      current_lat := by
        have hReport : item.report.toList.reverse = item.report.toList := by
          cases item.report <;> rfl
        rw [hBlocks]
        simp [LogState.addItem, h.current_lat, hEq, reports_concat hItem, hReport] }

/-- In front of the first header nothing is read. -/
theorem Tracks.skip {lines : List (List Char)} {line : List Char}
    {s : LogState py} (h : Tracks lines s) (hLine : isHeader py line = false)
    (hBlock : s.in_block = false) : Tracks (lines ++ [line]) s := by
  have hNil : blocks py lines = [] := by
    have hOpen := h.in_block
    rw [hBlock] at hOpen
    simpa using hOpen
  have hBlocks : blocks py (lines ++ [line]) = blocks py lines := by
    rw [blocks_concat_of_nil hNil hLine, hNil]
  exact {
    in_block := by rw [hBlocks, h.in_block]
    timestamp := by rw [hBlocks, h.timestamp]
    latency := fun key hKey => by rw [hBlocks, h.latency key hKey]
    current_lat := by rw [hBlocks, h.current_lat] }

theorem Tracks.step {lines : List (List Char)} {line : List Char}
    {s s' : LogState py} (h : Tracks lines s) (hStep : logStep py s line = .ok s') :
    Tracks (lines ++ [line]) s' := by
  rcases logStep_ok_iff.mp hStep with
    ⟨m, header, hm, -, rfl⟩ | ⟨hLine, ⟨hBlock, item, hItem, rfl⟩ | ⟨hBlock, rfl⟩⟩
  · apply h.header
    rw [isHeader, hm]
    rfl
  · exact h.item hLine hBlock hItem
  · exact h.skip hLine hBlock

/-! ## The whole file -/

theorem logRun_concat_ok_iff {lines : List (List Char)} {line : List Char}
    {s' : LogState py} :
    logRun py (lines ++ [line]) = .ok s' ↔
      ∃ s, logRun py lines = .ok s ∧ logStep py s line = .ok s' := by
  have hRun : logRun py (lines ++ [line]) =
      logRun py lines >>= fun s => logStep py s line := by
    simp [logRun, List.foldlM_append]
  rw [hRun, bind_ok_iff]

theorem tracks_logRun {lines : List (List Char)} {s : LogState py}
    (h : logRun py lines = .ok s) : Tracks lines s := by
  induction lines using List.reverseRecOn generalizing s with
  | nil =>
      cases h
      exact tracks_start
  | append_singleton lines line ih =>
      obtain ⟨s, hRun, hStep⟩ := logRun_concat_ok_iff.mp h
      exact (ih hRun).step hStep

/-- The loop ends unless it meets a number that cannot be converted. -/
theorem logRun_returns_iff (lines : List (List Char)) :
    (∃ s, logRun py lines = .ok s) ↔ Readable py lines := by
  induction lines using List.reverseRecOn with
  | nil =>
      refine ⟨fun _ => ⟨?_, ?_⟩, fun _ => ⟨logStart py, rfl⟩⟩
      · intro line hLine
        cases hLine
      · intro block hBlock
        cases hBlock
  | append_singleton lines line ih =>
      rw [readable_concat_iff, ← ih]
      constructor
      · rintro ⟨s', h⟩
        obtain ⟨s, hRun, hStep⟩ := logRun_concat_ok_iff.mp h
        refine ⟨⟨s, hRun⟩, ?_⟩
        rw [← (tracks_logRun hRun).in_block]
        exact logStep_returns_iff.mp ⟨s', hStep⟩
      · rintro ⟨⟨s, hRun⟩, hLine⟩
        rw [← (tracks_logRun hRun).in_block] at hLine
        obtain ⟨s', hStep⟩ := logStep_returns_iff.mpr hLine
        exact ⟨s', logRun_concat_ok_iff.mpr ⟨s, hRun, hStep⟩⟩

/-! ## The end of the file -/

/-- Latencies are what the lines that look like it report. -/
theorem report_of_readItem {line : List Char} {item : Item py}
    (h : readItem py line = .ok item) : item.report.isSome = isLatency line := by
  unfold readItem at h
  cases hLatency : isLatency line with
  | true =>
      rw [if_pos hLatency] at h
      split at h
      · cases h
      · obtain ⟨val, -, h⟩ := bind_ok_iff.mp h
        cases h
        rfl
  | false =>
      rw [hLatency, if_neg (by decide)] at h
      split at h
      · obtain ⟨n, -, rfl⟩ := map_ok_iff.mp h
        rfl
      · split at h
        · obtain ⟨n, -, rfl⟩ := map_ok_iff.mp h
          rfl
        · split at h
          · obtain ⟨x, -, rfl⟩ := map_ok_iff.mp h
            rfl
          · split at h
            · obtain ⟨per_sec, -, h⟩ := bind_ok_iff.mp h
              obtain ⟨success_pct, -, h⟩ := bind_ok_iff.mp h
              cases h
              rfl
            · cases h
              rfl

theorem reports_ne_nil_iff {block : List (List Char)}
    (hReads : ∀ line ∈ block, ItemReads py line) :
    reports py block ≠ [] ↔ ∃ line ∈ block, isLatency (py.rstrip line) = true := by
  have hReported : ∀ line ∈ block,
      (reported py line).isSome = isLatency (py.rstrip line) := by
    intro line hLine
    obtain ⟨item, hItem⟩ := hReads line hLine
    rw [reported, hItem]
    exact report_of_readItem hItem
  rw [reports, Ne, List.filterMap_eq_nil_iff]
  constructor
  · intro hSome
    by_contra hNone
    apply hSome
    intro line hLine
    rw [← Option.not_isSome_iff_eq_none, hReported line hLine]
    exact fun hLatency => hNone ⟨line, hLine, hLatency⟩
  · rintro ⟨line, hLine, hLatency⟩ hAll
    rw [← hReported line hLine, hAll line hLine] at hLatency
    cases hLatency

/-- What is returned is aligned where the last block is flushed. -/
theorem Tracks.aligned_iff {lines : List (List Char)} {s : LogState py}
    (h : Tracks lines s) (hReads : Readable py lines) :
    SeriesAligned py lines s.finish ↔ EndsReported py lines := by
  unfold SeriesAligned EndsReported
  rcases List.eq_nil_or_concat' (blocks py lines) with hNil | ⟨front, block, hEq⟩
  · simp [hNil]
  have hBlock : block ∈ blocks py lines := by
    rw [hEq]
    simp
  have hTable : s.current_lat = (reports py block).reverse := by
    simp [h.current_lat, hEq]
  have hLatency := reports_ne_nil_iff (hReads.items block hBlock)
  have hLast : (∀ b, (blocks py lines).getLast? = some b →
      ∃ line ∈ b, isLatency (py.rstrip line) = true) ↔ reports py block ≠ [] := by
    rw [hLatency, hEq]
    simp
  have hSeries : ∀ key ∈ latencyKeys,
      s.results.latency key = front.map (lastReported py key) := by
    intro key hKey
    rw [h.latency key hKey, hEq, List.dropLast_concat]
  have hLength := h.timestamp
  rw [hEq, List.length_append, List.length_singleton] at hLength
  rw [hLast]
  constructor
  · intro hAligned hNone
    -- The last block is not flushed: the series are one entry short.
    have hFinish : s.finish = s.results := by
      simp [LogState.finish, hTable, hNone]
    have hKey : latencyKey "read".toList "p50".toList ∈ latencyKeys := by
      decide +kernel
    have hShort := (hAligned (by simp [hEq]) _ hKey).1
    rw [hFinish, hSeries _ hKey, List.length_map] at hShort
    omega
  · intro hSome _ key hKey
    have hFinish : s.finish = flush s.results (reports py block).reverse := by
      simp [LogState.finish, hTable, hSome]
    have hAll : s.finish.latency key =
        (blocks py lines).map (lastReported py key) := by
      rw [hFinish, latency_flush hKey, hSeries key hKey, hEq, List.map_append]
      rfl
    refine ⟨?_, hAll⟩
    have hTimestamp : s.finish.timestamp = s.results.timestamp := by
      rw [hFinish]
      rfl
    rw [hAll, hTimestamp, h.timestamp, List.length_map]

/-- **When the series are aligned.**  `parse` returns aligned series exactly for the
logs that can be read and report a latency behind their last header; among those
that can be read, it is the last block alone that decides. -/
theorem cachelibParse_aligned_iff (py : Python) (lines : List (List Char)) :
    ((∃ results, cachelibParse py lines = .ok results ∧
        SeriesAligned py lines results) ↔
      Readable py lines ∧ EndsReported py lines) ∧
    ∀ results, cachelibParse py lines = .ok results →
      (SeriesAligned py lines results ↔ EndsReported py lines) := by
  have hReturned : ∀ results, cachelibParse py lines = .ok results →
      Readable py lines ∧
        (SeriesAligned py lines results ↔ EndsReported py lines) := by
    intro results h
    obtain ⟨s, hRun, rfl⟩ := map_ok_iff.mp h
    have hReads := (logRun_returns_iff lines).mp ⟨s, hRun⟩
    exact ⟨hReads, (tracks_logRun hRun).aligned_iff hReads⟩
  refine ⟨⟨?_, ?_⟩, fun results h => (hReturned results h).2⟩
  · rintro ⟨results, h, hAligned⟩
    obtain ⟨hReads, hIff⟩ := hReturned results h
    exact ⟨hReads, hIff.mp hAligned⟩
  · rintro ⟨hReads, hEnds⟩
    obtain ⟨s, hRun⟩ := (logRun_returns_iff lines).mpr hReads
    exact ⟨s.finish, map_ok_iff.mpr ⟨s, hRun, rfl⟩,
      ((tracks_logRun hRun).aligned_iff hReads).mpr hEnds⟩

/-! ## A log that ends with a header -/

def headerLine : List Char :=
  "12:00:00 1.00M ops completed. Hit Ratio 50.00% (RAM 10.00%, NVM 40.00%)".toList

def latencyLine : List Char := "NVM Read Latency p50 : 123.25 us".toList

/-- Two timestamps, and one entry in each latency series. -/
theorem cachelibParse_drops_last_block :
    ∃ results,
      cachelibParse asciiPython [headerLine, latencyLine, headerLine] = .ok results ∧
      ¬ SeriesAligned asciiPython [headerLine, latencyLine, headerLine] results := by
  have hLengths :
      (cachelibParse asciiPython [headerLine, latencyLine, headerLine]).toOption.map
        (fun r => (r.timestamp.length,
          (r.latency (latencyKey "read".toList "p50".toList)).length)) =
      some (2, 1) := by decide +kernel
  obtain ⟨results, hResults, hPair⟩ := Option.map_eq_some_iff.mp hLengths
  obtain ⟨hTimestamp, hSeries⟩ := Prod.mk.inj hPair
  refine ⟨results, ok_of_toOption hResults, ?_⟩
  intro hAligned
  have hBlocks : blocks asciiPython [headerLine, latencyLine, headerLine] ≠ [] := by
    decide +kernel
  have hKey : latencyKey "read".toList "p50".toList ∈ latencyKeys := by
    decide +kernel
  have hLength := (hAligned hBlocks _ hKey).1
  rw [hTimestamp, hSeries] at hLength
  cases hLength

/-- Without the last header the series are aligned. -/
theorem cachelibParse_aligned_iff_two :
    ∃ results, cachelibParse asciiPython [headerLine, latencyLine] = .ok results ∧
      SeriesAligned asciiPython [headerLine, latencyLine] results := by
  have hReturns :
      (cachelibParse asciiPython [headerLine, latencyLine]).toOption.isSome = true := by
    decide +kernel
  have hLast : (blocks asciiPython [headerLine, latencyLine]).getLast? =
      some [latencyLine] := by decide +kernel
  obtain ⟨results, hResults⟩ := Option.isSome_iff_exists.mp hReturns
  have hParse := ok_of_toOption hResults
  refine ⟨results, hParse,
    ((cachelibParse_aligned_iff asciiPython _).2 results hParse).mpr ?_⟩
  intro block hBlock
  rw [hLast] at hBlock
  cases hBlock
  exact ⟨latencyLine, List.mem_singleton_self _, by decide +kernel⟩

end MioBench.Scripts
