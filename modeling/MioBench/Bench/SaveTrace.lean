import Mathlib.Data.List.Basic
import MioBench.Lib.PairMerge

/-!
# Saving a trace

`saveTrace` of `tracing.cpp`: the buffer of each thread has its neighbouring
32-byte halves merged, all buffers are sorted by time, and the first million
entries are written.  `std::sort` is a parameter, since it may leave entries of
one time in any order.
-/

namespace MioBench.Bench

open MioBench.Lib

/-- `TraceEntry`. -/
structure TraceEntry where
  timestamp : UInt64
  address : UInt64
  size : UInt32
  access_type : UInt8
  deriving DecidableEq, Repr

namespace TraceEntry

/-- The five-part condition: the next entry is the other half. -/
def halves (e next : TraceEntry) : Bool :=
  e.size == 32 && next.size == 32 && e.access_type == next.access_type &&
    next.address == e.address + 32

/-- `merged_entry`. -/
def merged (e : TraceEntry) (_next : TraceEntry) : TraceEntry :=
  { e with size := 64 }

/-- What an entry says about memory: an address, a size and a direction. -/
def access (e : TraceEntry) : UInt64 × UInt32 × UInt8 :=
  (e.address, e.size, e.access_type)

/-- An entry of 64 bytes as its two halves. -/
def expand (e : TraceEntry) : List (UInt64 × UInt32 × UInt8) :=
  if e.size = 64 then
    [(e.address, 32, e.access_type), (e.address + 32, 32, e.access_type)]
  else [e.access]

/-- The line of an entry, `"0x%lx,%u,%s\n"`. -/
def row (base_address : UInt64) (e : TraceEntry) : String :=
  "0x" ++ String.ofList (Nat.toDigits 16 (e.address - base_address).toNat) ++
    "," ++ toString e.size.toNat ++ "," ++
    (if e.access_type = 0 then "read" else "write") ++ "\n"

theorem halves_iff {e next : TraceEntry} : e.halves next = true ↔
    e.size = 32 ∧ next.size = 32 ∧ e.access_type = next.access_type ∧
      next.address = e.address + 32 := by
  simp [halves, and_assoc]

end TraceEntry

/-- The loop over one buffer; an entry merged into the one before is skipped. -/
def processBuffer (buf : List TraceEntry) : List TraceEntry :=
  mergePairs TraceEntry.halves TraceEntry.merged buf

/-- What the file is cut to. -/
def traceLimit : Nat := 1000000

/-- `saveTrace`; `none` when the file cannot be opened. -/
def saveTrace (sort : List TraceEntry → List TraceEntry) (opened : Bool)
    (base_address : UInt64) (global_trace_buffers : List (List TraceEntry)) :
    Option (List String) :=
  let processed_buffers := global_trace_buffers.map processBuffer
  let sorted := sort processed_buffers.flatten
  let kept := if traceLimit < sorted.length then sorted.take traceLimit else sorted
  if opened then
    some ("address,size,access_type\n" :: kept.map (TraceEntry.row base_address))
  else none

/-- What the standard says of `std::sort` by `timestamp`. -/
def SortsByTime (sort : List TraceEntry → List TraceEntry) : Prop :=
  ∀ l, (sort l).Perm l ∧
    (sort l).Pairwise fun a b => a.timestamp ≤ b.timestamp

/-- The halves of a buffer's entries are there again after expansion. -/
theorem expand_processBuffer {buf : List TraceEntry}
    (hSizes : ∀ e ∈ buf, e.size = 32 ∨ e.size = 4) :
    (processBuffer buf).flatMap TraceEntry.expand =
      buf.map TraceEntry.access := by
  have hWhole : ∀ e ∈ buf, e.expand = [e.access] := by
    intro e he
    apply if_neg
    rcases hSizes e he with hSize | hSize
    · rw [hSize]
      decide
    · rw [hSize]
      decide
  rw [processBuffer, flatMap_mergePairs, List.flatMap_def,
    List.map_congr_left hWhole, ← List.flatMap_def]
  · exact List.flatMap_pure_eq_map _ _
  · intro e next hHalves
    obtain ⟨hSize, hNext, hType, hAddress⟩ := TraceEntry.halves_iff.mp hHalves
    have hMerged : (e.merged next).size = 64 := rfl
    simp only [TraceEntry.expand, hMerged, ↓reduceIte, hSize, hNext]
    simp [TraceEntry.merged, TraceEntry.access, hSize, hNext, hType, hAddress]

/-- A merged entry is never merged again. -/
theorem processBuffer_processBuffer (buf : List TraceEntry) :
    processBuffer (processBuffer buf) = processBuffer buf :=
  mergePairs_mergePairs (fun _ _ _ => rfl)
    (fun a b c => by simp [TraceEntry.halves, TraceEntry.merged]) buf

/-- The rows are the head of the sorted processed buffers. -/
theorem saveTrace_rows {sort : List TraceEntry → List TraceEntry}
    (hSort : SortsByTime sort) (base_address : UInt64)
    (bufs : List (List TraceEntry)) :
    ∃ sorted : List TraceEntry,
      sorted.Perm (bufs.map processBuffer).flatten ∧
      (sorted.Pairwise fun a b => a.timestamp ≤ b.timestamp) ∧
      saveTrace sort true base_address bufs = some
        ("address,size,access_type\n" :: (sorted.take (min
          (bufs.map processBuffer).flatten.length traceLimit)).map
            (TraceEntry.row base_address)) := by
  obtain ⟨hPerm, hOrder⟩ := hSort (bufs.map processBuffer).flatten
  refine ⟨sort (bufs.map processBuffer).flatten, hPerm, hOrder, ?_⟩
  have hKept : (if traceLimit < (sort (bufs.map processBuffer).flatten).length
      then (sort (bufs.map processBuffer).flatten).take traceLimit
      else sort (bufs.map processBuffer).flatten) =
      (sort (bufs.map processBuffer).flatten).take
        (min (bufs.map processBuffer).flatten.length traceLimit) := by
    rw [← hPerm.length_eq]
    split
    · rename_i hLong
      rw [Nat.min_eq_right (Nat.le_of_lt hLong)]
    · rename_i hShort
      rw [Nat.min_eq_left (Nat.le_of_not_lt hShort), List.take_length]
  simp only [saveTrace, ↓reduceIte, hKept]

/-- A trace is saved as it was taken: merging loses nothing and is done once,
and the file holds the earliest entries in order. -/
theorem saveTrace_faithful (sort : List TraceEntry → List TraceEntry)
    (hSort : SortsByTime sort) (base_address : UInt64)
    (bufs : List (List TraceEntry))
    (hSizes : ∀ buf ∈ bufs, ∀ e ∈ buf, e.size = 32 ∨ e.size = 4) :
    (∀ buf ∈ bufs, (processBuffer buf).flatMap TraceEntry.expand =
      buf.map TraceEntry.access) ∧
    (∀ buf ∈ bufs,
      processBuffer (processBuffer buf) = processBuffer buf) ∧
    ∃ sorted : List TraceEntry,
      sorted.Perm (bufs.map processBuffer).flatten ∧
      (sorted.Pairwise fun a b => a.timestamp ≤ b.timestamp) ∧
      saveTrace sort true base_address bufs = some
        ("address,size,access_type\n" :: (sorted.take (min
          (bufs.map processBuffer).flatten.length 1000000)).map
            (TraceEntry.row base_address)) :=
  ⟨fun buf hBuf => expand_processBuffer (hSizes buf hBuf),
    fun buf _ => processBuffer_processBuffer buf,
    saveTrace_rows hSort base_address bufs⟩

/-- A stable sort by time, one of those the standard allows. -/
def stableSort (l : List TraceEntry) : List TraceEntry :=
  l.mergeSort fun a b => decide (a.timestamp ≤ b.timestamp)

theorem stableSort_sortsByTime : SortsByTime stableSort := by
  intro l
  refine ⟨List.mergeSort_perm l _, ?_⟩
  have hSorted := @List.pairwise_mergeSort TraceEntry
    (fun a b => decide (a.timestamp ≤ b.timestamp))
    (fun a b c hab hbc => by
      simp only [decide_eq_true_eq] at hab hbc ⊢
      exact UInt64.le_trans hab hbc)
    (fun a b => by simpa using UInt64.le_total a.timestamp b.timestamp) l
  exact hSorted.imp fun h => by simpa using h

/-- Two threads; the second pair of the first reads across a write. -/
theorem saveTrace_faithful_two :
    let bufs : List (List TraceEntry) :=
      [[⟨10, 4096, 32, 0⟩, ⟨11, 4128, 32, 0⟩, ⟨12, 4160, 32, 1⟩,
          ⟨13, 4192, 32, 0⟩],
        [⟨11, 8192, 4, 0⟩]]
    (∀ buf ∈ bufs, (processBuffer buf).flatMap TraceEntry.expand =
      buf.map TraceEntry.access) ∧
    (∀ buf ∈ bufs,
      processBuffer (processBuffer buf) = processBuffer buf) ∧
    ∃ sorted : List TraceEntry,
      sorted.Perm (bufs.map processBuffer).flatten ∧
      (sorted.Pairwise fun a b => a.timestamp ≤ b.timestamp) ∧
      saveTrace stableSort true 4096 bufs = some
        ("address,size,access_type\n" :: (sorted.take (min
          (bufs.map processBuffer).flatten.length 1000000)).map
            (TraceEntry.row 4096)) :=
  saveTrace_faithful stableSort stableSort_sortsByTime 4096 _ (by decide)

end MioBench.Bench
