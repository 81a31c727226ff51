import MioBench.Lib.Regex
import MioBench.Lib.Sections
import MioBench.Scripts.Python

/-!
# Logs of CacheBench

`_CachelibParser` of `figures/figlib.py`.  A header opens a block and ends the one
before; the latencies of a block are kept in a table, and `_flush` appends one
entry to each series when the block ends.  The last block ends with the file, and
is flushed only if its table is not empty.
-/

namespace MioBench.Scripts

open Lib (Regex Success appendAt)

/-! ## The expressions of `_CachelibParser` -/

section Expressions

variable (py : Python)

/-- `\d` -/
def digit : Regex Nat := .char py.isDecimal

/-- `\s+` -/
def spaces : Regex Nat := .plus false py.isSpace

/-- `[\d.]+` -/
def decimals : Regex Nat := .plus false (fun c => py.isDecimal c || c == '.')

/-- `[\d,]+` -/
def counts : Regex Nat := .plus false (fun c => py.isDecimal c || c == ',')

/-- `_header_re` -/
def headerRe : Regex Nat :=
  .seqs [.group 1 (.seqs [digit py, digit py, .lit ":".toList, digit py, digit py,
      .lit ":".toList, digit py, digit py]),
    spaces py, .group 2 (decimals py), .lit "M ops completed.".toList,
    spaces py, .lit "Hit Ratio".toList, spaces py, .group 3 (decimals py),
    .lit "%".toList, spaces py, .lit "(RAM".toList, spaces py,
    .group 4 (decimals py), .lit "%,".toList, spaces py, .lit "NVM".toList,
    spaces py, .group 5 (decimals py), .lit "%)".toList]

/-- `_rw_re` -/
def rwRe : Regex Nat := .alt (.lit "Read".toList) (.lit "Write".toList)

/-- `[0-9]` -/
def asciiDigit (c : Char) : Bool := c.isDigit

/-- `_lat_re`: `p[0-9][0-9]+`. -/
def latRe : Regex Nat :=
  .seqs [.lit "p".toList, .char asciiDigit, .plus false asciiDigit]

/-- `_float_re`: `[0-9]+\.[0-9]+`. -/
def floatRe : Regex Nat :=
  .seqs [.plus false asciiDigit, .lit ".".toList, .plus false asciiDigit]

/-- `_tp_re` -/
def tpRe : Regex Nat :=
  .seqs [.group 1 (.alt (.lit "get".toList)
      (.alt (.lit "set".toList) (.lit "del".toList))),
    spaces py, .lit ":".toList, spaces py, .group 2 (counts py), .lit "/s,".toList,
    spaces py, .plus false py.isWord, spaces py, .lit ":".toList, spaces py,
    .group 3 (decimals py), .lit "%".toList]

/-- `_items_ram_re` -/
def itemsRamRe : Regex Nat :=
  .seqs [.lit "Items in RAM".toList, spaces py, .lit ":".toList, spaces py,
    .group 1 (counts py)]

/-- `_items_nvm_re` -/
def itemsNvmRe : Regex Nat :=
  .seqs [.lit "Items in NVM".toList, spaces py, .lit ":".toList, spaces py,
    .group 1 (counts py)]

/-- `_app_wa_re` -/
def appWaRe : Regex Nat :=
  .seqs [.lit "NVM app write amplification".toList, spaces py, .lit ":".toList,
    spaces py, .group 1 (decimals py)]

end Expressions

/-! ## What a line says -/

/-- `_PERCENTILE_KEYS` -/
def percentileKeys : List (List Char) :=
  ["p50".toList, "p90".toList, "p99".toList, "p999".toList, "p9999".toList,
    "p99999".toList, "p999999".toList]

def latencyKey (rw pct : List Char) : List Char := rw ++ '_' :: pct

/-- The latency series. -/
def latencyKeys : List (List Char) :=
  ["read".toList, "write".toList].flatMap fun rw =>
    percentileKeys.map (latencyKey rw)

structure Header (py : Python) where
  timestamp : List Char
  ops_completed_M : py.Double
  hit_ratio : py.Double
  ram_hit_ratio : py.Double
  nvm_hit_ratio : py.Double

inductive Item (py : Python)
  | latency (key : List Char) (val : py.Double)
  | items_in_ram (n : Nat)
  | items_in_nvm (n : Nat)
  | app_write_amp (x : py.Double)
  | throughput (op : List Char) (per_sec : Nat) (success_pct : py.Double)
  | unrelated

variable (py : Python)

def readHeader (m : Success Nat) : Except PyError (Header py) := do
  let ops_completed_M ← py.float (m.group 2)
  let hit_ratio ← py.float (m.group 3)
  let ram_hit_ratio ← py.float (m.group 4)
  let nvm_hit_ratio ← py.float (m.group 5)
  .ok { timestamp := m.group 1, ops_completed_M, hit_ratio, ram_hit_ratio,
        nvm_hit_ratio }

/-- `text in line` -/
def occursIn (text line : List Char) : Bool := line.tails.any (text.isPrefixOf ·)

/-- A line that reports a latency of the NVM. -/
def isLatency (line : List Char) : Bool :=
  occursIn "NVM".toList line && occursIn "Latency".toList line &&
    !(rwRe.findall line).isEmpty && !(latRe.findall line).isEmpty

/-- `int(text.replace(",", ""))` -/
def readCount (text : List Char) : Except PyError Nat :=
  py.int (text.filter (· != ','))

/-- What a line of a block says, in the order in which `parse` asks. -/
def readItem (line : List Char) : Except PyError (Item py) :=
  if isLatency line then
    match (floatRe.findall line).getLast? with
    | none => .error .indexError
    | some text => do
        let val ← py.float text
        let rw := ((rwRe.findall line).headD []).map Char.toLower
        .ok (.latency (latencyKey rw ((latRe.findall line).headD [])) val)
  else
    match (itemsRamRe py).search line with
    | some m => (readCount py (m.group 1)).map .items_in_ram
    | none =>
        match (itemsNvmRe py).search line with
        | some m => (readCount py (m.group 1)).map .items_in_nvm
        | none =>
            match (appWaRe py).search line with
            | some m => (py.float (m.group 1)).map .app_write_amp
            | none =>
                match (tpRe py).search line with
                | some m => do
                    let per_sec ← readCount py (m.group 2)
                    let success_pct ← py.float (m.group 3)
                    .ok (.throughput (m.group 1) per_sec success_pct)
                | none => .ok .unrelated

/-! ## The parser -/

/-- `results`, where a key that is missing is an empty series.  The keys of
throughput are given by the operation, those of latencies are whole. -/
structure Results where
  timestamp : List (List Char)
  ops_completed_M : List py.Double
  hit_ratio : List py.Double
  ram_hit_ratio : List py.Double
  nvm_hit_ratio : List py.Double
  items_in_ram : List Nat
  items_in_nvm : List Nat
  app_write_amp : List py.Double
  per_sec : List Char → List Nat
  success_pct : List Char → List py.Double
  latency : List Char → List py.Double

/-- The variables of `parse`; the table `current_lat` is kept newest first. -/
structure LogState where
  results : Results py
  current_lat : List (List Char × py.Double)
  in_block : Bool

def logStart : LogState py where
  results :=
    { timestamp := [], ops_completed_M := [], hit_ratio := [], ram_hit_ratio := []
      nvm_hit_ratio := [], items_in_ram := [], items_in_nvm := []
      app_write_amp := [], per_sec := fun _ => [], success_pct := fun _ => []
      latency := fun _ => [] }
  current_lat := []
  in_block := false

variable {py}

/-- `_flush` -/
def flush (results : Results py) (lat_dict : List (List Char × py.Double)) :
    Results py :=
  { results with
    latency := latencyKeys.foldl
      (fun series key =>
        appendAt key ((lat_dict.lookup key).getD (py.toDouble 0)) series)
      results.latency }

/-- The block before a header. -/
def LogState.close (s : LogState py) : LogState py :=
  if s.in_block then
    { s with results := flush s.results s.current_lat, current_lat := [] }
  else s

def LogState.addHeader (s : LogState py) (h : Header py) : LogState py :=
  { s with
    in_block := true
    results :=
      { s.results with
        timestamp := s.results.timestamp ++ [h.timestamp]
        ops_completed_M := s.results.ops_completed_M ++ [h.ops_completed_M]
        hit_ratio := s.results.hit_ratio ++ [h.hit_ratio]
        ram_hit_ratio := s.results.ram_hit_ratio ++ [h.ram_hit_ratio]
        nvm_hit_ratio := s.results.nvm_hit_ratio ++ [h.nvm_hit_ratio] } }

def Results.addItem (r : Results py) : Item py → Results py
  | .latency _ _ => r
  | .items_in_ram n => { r with items_in_ram := r.items_in_ram ++ [n] }
  | .items_in_nvm n => { r with items_in_nvm := r.items_in_nvm ++ [n] }
  | .app_write_amp x => { r with app_write_amp := r.app_write_amp ++ [x] }
  | .throughput op per_sec success_pct =>
      { r with
        per_sec := appendAt op per_sec r.per_sec
        success_pct := appendAt op success_pct r.success_pct }
  | .unrelated => r

/-- The entry of the table that an item is. -/
def Item.report : Item py → Option (List Char × py.Double)
  | .latency key val => some (key, val)
  | _ => none

def LogState.addItem (s : LogState py) (item : Item py) : LogState py :=
  { s with
    results := s.results.addItem item
    current_lat := item.report.toList ++ s.current_lat }

variable (py)

/-- The body of the loop. -/
def logStep (s : LogState py) (line : List Char) :
    Except PyError (LogState py) :=
  let line := py.rstrip line
  match (headerRe py).search line with
  | some m => (readHeader py m).map s.close.addHeader
  | none => if s.in_block then (readItem py line).map s.addItem else .ok s

/-- The loop of `parse`. -/
def logRun (lines : List (List Char)) : Except PyError (LogState py) :=
  lines.foldlM (logStep py) (logStart py)

/-- What is returned at the end of the file. -/
def LogState.finish {py : Python} (s : LogState py) : Results py :=
  if s.current_lat.isEmpty then s.results else flush s.results s.current_lat

/-- `parse` -/
def cachelibParse (lines : List (List Char)) : Except PyError (Results py) :=
  (logRun py lines).map LogState.finish

end MioBench.Scripts
