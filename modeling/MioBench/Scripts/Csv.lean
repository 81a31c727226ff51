import MioBench.Scripts.PythonNumbers

/-!
# Comma-separated values

The reader of Python's `csv` module for the default dialect, and the rows of
`csv.DictReader`.  The lines of a file are given without their ends.
-/

namespace MioBench.Scripts

/-! ## The reader -/

inductive CsvState
  | startRecord
  | startField
  | inField
  | inQuotedField
  | quoteInQuotedField
  deriving DecidableEq, Repr

/-- The field that is being read, and the fields before it. -/
structure CsvReader where
  state : CsvState := .startRecord
  field : List Char := []
  fields : List (List Char) := []

def quotechar : Char := Char.ofNat 34

namespace CsvReader

variable (r : CsvReader)

def saveField : CsvReader :=
  { r with field := [], fields := r.fields ++ [r.field] }

def addChar (c : Char) : CsvReader := { r with field := r.field ++ [c] }

/-- A character that does not end the line. -/
def processChar (c : Char) : CsvReader :=
  match r.state with
  | .startRecord | .startField =>
      if c = quotechar then { r with state := .inQuotedField }
      else if c = ',' then { r.saveField with state := .startField }
      else { r.addChar c with state := .inField }
  | .inField =>
      if c = ',' then { r.saveField with state := .startField } else r.addChar c
  | .inQuotedField =>
      if c = quotechar then { r with state := .quoteInQuotedField } else r.addChar c
  | .quoteInQuotedField =>
      if c = quotechar then { r.addChar c with state := .inQuotedField }
      else if c = ',' then { r.saveField with state := .startField }
      else { r.addChar c with state := .inField }

/-- The end of a line: a record, unless it goes on in the next line. -/
def endLine : Option (List (List Char)) × CsvReader :=
  match r.state with
  | .startRecord => (some [], {})
  | .inQuotedField => (none, r.addChar '\n')
  | _ => (some r.saveField.fields, {})

/-- The records of the lines. -/
def records (r : CsvReader) : List (List Char) → List (List (List Char))
  | [] =>
      match r.state with
      | .inQuotedField => [r.saveField.fields]
      | _ => []
  | line :: lines =>
      match (line.foldl processChar r).endLine with
      | (some record, r') => record :: records r' lines
      | (none, r') => records r' lines

end CsvReader

/-- What a row has under a name. -/
inductive Cell
  /-- `KeyError` -/
  | missing
  /-- `None`, where the row is too short. -/
  | none
  | text (s : List Char)
  deriving DecidableEq, Repr

/-- `row[name]` of the row that `csv.DictReader` makes. -/
def cell (fieldnames row : List (List Char)) (name : List Char) : Cell :=
  match ((fieldnames.zipIdx.filter fun column => column.1 == name).getLast?) with
  | .none => .missing
  | .some column =>
      match row[column.2]? with
      | .none => .none
      | .some s => .text s

/-- The names and the rows of `csv.DictReader`, which skips empty ones. -/
def dictRows (lines : List (List Char)) : List (List Char) × List (List (List Char)) :=
  match CsvReader.records {} lines with
  | [] => ([], [])
  | fieldnames :: rows => (fieldnames, rows.filter (· ≠ []))

/-! ## Plain fields -/

/-- A field that is neither empty nor in need of quotes. -/
def PlainField (w : List Char) : Prop :=
  w ≠ [] ∧ ∀ c ∈ w, c ≠ ',' ∧ c ≠ quotechar

/-- Given fields that are plain. -/
theorem plainField_of_all {ws : List (List Char)}
    (h : (ws.all fun w => !w.isEmpty && w.all fun c => c != ',' && c != quotechar) =
      true) : ∀ w ∈ ws, PlainField w := by
  intro w hw
  have hWord := List.all_eq_true.mp h w hw
  rw [Bool.and_eq_true, Bool.not_eq_true', List.isEmpty_eq_false_iff] at hWord
  refine ⟨hWord.1, fun c hc => ?_⟩
  have hChar := List.all_eq_true.mp hWord.2 c hc
  rw [Bool.and_eq_true, bne_iff_ne, bne_iff_ne] at hChar
  exact hChar

/-- Fields with commas between them. -/
def csvLine : List (List Char) → List Char
  | [] => []
  | w :: ws => w ++ ws.flatMap (',' :: ·)

namespace CsvReader

theorem foldl_inField {w : List Char} (h : ∀ c ∈ w, c ≠ ',')
    (field : List Char) (fields : List (List Char)) :
    w.foldl processChar ⟨.inField, field, fields⟩ =
      ⟨.inField, field ++ w, fields⟩ := by
  induction w generalizing field with
  | nil => rw [List.append_nil]; rfl
  | cons c w ih =>
      have hStep : processChar ⟨.inField, field, fields⟩ c =
          ⟨.inField, field ++ [c], fields⟩ := if_neg (h c List.mem_cons_self)
      rw [List.foldl_cons, hStep, ih fun c' hc => h c' (List.mem_cons_of_mem _ hc),
        List.append_assoc]
      rfl

/-- A plain field at the start of a record or of a field. -/
theorem foldl_plain {w : List Char} (h : PlainField w) {state : CsvState}
    (hState : state = .startRecord ∨ state = .startField)
    (fields : List (List Char)) :
    w.foldl processChar ⟨state, [], fields⟩ = ⟨.inField, w, fields⟩ := by
  obtain ⟨hNe, hChars⟩ := h
  cases w with
  | nil => exact absurd rfl hNe
  | cons c w =>
      obtain ⟨hComma, hQuote⟩ := hChars c List.mem_cons_self
      have hStep : processChar ⟨state, [], fields⟩ c = ⟨.inField, [c], fields⟩ := by
        rcases hState with rfl | rfl
        · exact (if_neg hQuote).trans (if_neg hComma)
        · exact (if_neg hQuote).trans (if_neg hComma)
      rw [List.foldl_cons, hStep]
      exact foldl_inField (fun c' hc => (hChars c' (List.mem_cons_of_mem _ hc)).1) _ _

theorem foldl_fields {ws : List (List Char)} (h : ∀ w ∈ ws, PlainField w)
    (field : List Char) (fields : List (List Char)) :
    (((ws.flatMap (',' :: ·)).foldl processChar
      ⟨.inField, field, fields⟩).saveField).fields = fields ++ field :: ws ∧
    ((ws.flatMap (',' :: ·)).foldl processChar ⟨.inField, field, fields⟩).state =
      .inField := by
  induction ws generalizing field fields with
  | nil => exact ⟨rfl, rfl⟩
  | cons w ws ih =>
      have hComma : processChar ⟨.inField, field, fields⟩ ',' =
          ⟨.startField, [], fields ++ [field]⟩ := rfl
      have hField := foldl_plain (h w List.mem_cons_self) (Or.inr rfl)
        (fields ++ [field])
      have hRest := ih (fun w' hw => h w' (List.mem_cons_of_mem _ hw)) w
        (fields ++ [field])
      rw [List.flatMap_cons, List.cons_append, List.foldl_cons, hComma,
        List.foldl_append, hField]
      rw [List.append_assoc] at hRest
      exact hRest

/-- Lines of plain fields are read as these fields. -/
theorem records_csvLine {rows : List (List (List Char))}
    (h : ∀ row ∈ rows, row ≠ [] ∧ ∀ w ∈ row, PlainField w) :
    records {} (rows.map csvLine) = rows := by
  induction rows with
  | nil => rfl
  | cons row rows ih =>
      have hRest := ih fun row' hRow => h row' (List.mem_cons_of_mem _ hRow)
      obtain ⟨hNe, hFields⟩ := h row List.mem_cons_self
      cases row with
      | nil => exact absurd rfl hNe
      | cons w ws =>
          have hFirst : (csvLine (w :: ws)).foldl processChar {} =
              (ws.flatMap (',' :: ·)).foldl processChar ⟨.inField, w, []⟩ := by
            have hPlain : w.foldl processChar {} = ⟨.inField, w, []⟩ :=
              foldl_plain (hFields w List.mem_cons_self) (Or.inl rfl) []
            rw [csvLine, List.foldl_append, hPlain]
          obtain ⟨hSaved, hState⟩ := foldl_fields
            (fun w' hw => hFields w' (List.mem_cons_of_mem _ hw)) w []
          have hEnd : ((csvLine (w :: ws)).foldl processChar {}).endLine =
              (some (w :: ws), {}) := by
            rw [hFirst, endLine, hState]
            exact congrArg (fun fields => (some fields, _)) hSaved
          rw [List.map_cons, records, hEnd]
          exact congrArg _ hRest

end CsvReader

/-- A file that is written with plain fields, and a row for each line. -/
theorem dictRows_csvLine {fieldnames : List (List Char)}
    {rows : List (List (List Char))}
    (hNames : fieldnames ≠ [] ∧ ∀ w ∈ fieldnames, PlainField w)
    (hRows : ∀ row ∈ rows, row ≠ [] ∧ ∀ w ∈ row, PlainField w) :
    dictRows ((fieldnames :: rows).map csvLine) = (fieldnames, rows) := by
  have hRecords := CsvReader.records_csvLine
    (List.forall_mem_cons.mpr ⟨hNames, hRows⟩)
  have hKept : rows.filter (· ≠ []) = rows :=
    List.filter_eq_self.mpr fun row hRow => by simpa using (hRows row hRow).1
  rw [dictRows, hRecords]
  exact congrArg (fieldnames, ·) hKept

end MioBench.Scripts
