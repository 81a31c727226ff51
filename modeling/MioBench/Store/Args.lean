import Mathlib.Data.List.Basic
import Mathlib.Data.Nat.ModEq

/-!
# Command line of the chunk-stripe programs

`parse_size`, `parse_u32_arg` and `parse_args`, which `test2.c` and
`test2-rdma-fin.c` have word for word, and the checked product behind the size
computation of `main`; `test3-mt.c` shares all but its options.  `getopt_long`
is taken to deliver the options in order, so an argument vector is the list of
what it delivers; `strtoull` is the C standard's.
-/

namespace MioBench.Store

/-! ## Numbers -/

/-- `isspace` in the C locale. -/
def isSpace (c : Char) : Bool :=
  c.toNat == 32 || (9 ≤ c.toNat && c.toNat ≤ 13)

/-- What a call of `strtoull` leaves behind. -/
structure Strtoull where
  value : Nat
  rest : List Char
  converted : Bool
  erange : Bool
  deriving DecidableEq, Repr

/-- `strtoull(s, &end, 10)`.  A minus sign negates in unsigned arithmetic. -/
def strtoull (s : List Char) : Strtoull :=
  let body := s.dropWhile isSpace
  let negative := body.head? == some '-'
  let signed := negative || body.head? == some '+'
  let number := if signed then body.tail else body
  let digits := number.takeWhile Char.isDigit
  let rest := number.dropWhile Char.isDigit
  let n := digits.foldl (fun v c => 10 * v + (c.toNat - 48)) 0
  if digits = [] then
    { value := 0, rest := s, converted := false, erange := false }
  else if 2 ^ 64 ≤ n then
    { value := 2 ^ 64 - 1, rest := rest, converted := true, erange := true }
  else
    { value := if negative then (2 ^ 64 - n) % 2 ^ 64 else n
      rest := rest, converted := true, erange := false }

/-- The multiplier of a size suffix. -/
def suffixMul (c : Char) : Option Nat :=
  if c = 'k' ∨ c = 'K' then some 1024
  else if c = 'm' ∨ c = 'M' then some (1024 * 1024)
  else if c = 'g' ∨ c = 'G' then some (1024 * 1024 * 1024)
  else none

/-- `parse_size`; `none` is `*ok = false`. -/
def parseSize (s : List Char) : Option Nat :=
  let r := strtoull s
  if r.erange ∨ ¬ r.converted then none
  else
    match r.rest with
    | [] => some r.value
    | [c] =>
        match suffixMul c with
        | none => none
        | some mul =>
            if (2 ^ 64 - 1) / mul < r.value then none else some (r.value * mul)
    | _ :: _ :: _ => none

/-- Why `parse_args` did not return 0. -/
inductive ArgError
  | bad (name : String) (value : List Char)
  | badSweepRange (min max requests : Nat)
  | blockBytesAtLeast (bytes : Nat)
  | usage
  | help
  deriving DecidableEq, Repr

/-- `parse_u32_arg`. -/
def parseU32Arg (name : String) (value : List Char) : Except ArgError Nat :=
  match parseSize value with
  | none => .error (.bad name value)
  | some v =>
      if v = 0 ∨ 2 ^ 32 - 1 < v then .error (.bad name value) else .ok v

theorem parseU32Arg_range {name : String} {value : List Char} {v : Nat}
    (h : parseU32Arg name value = .ok v) : 1 ≤ v ∧ v < 2 ^ 32 := by
  unfold parseU32Arg at h
  cases hSize : parseSize value with
  | none => simp [hSize] at h
  | some w =>
      simp only [hSize] at h
      split at h
      · cases h
      · obtain rfl : w = v := by simpa using h
        omega

/-- The `OPT_BLOCK_MB` case: MiB that still fit a `uint32_t` in bytes. -/
def parseBlockMb (value : List Char) : Except ArgError Nat :=
  (parseU32Arg "--block-mb" value).bind fun mb =>
    if (2 ^ 32 - 1) / (1024 * 1024) < mb then .error (.bad "--block-mb" value)
    else .ok (mb * 1024 * 1024)

theorem parseBlockMb_range {value : List Char} {v : Nat}
    (h : parseBlockMb value = .ok v) : 1 ≤ v ∧ v < 2 ^ 32 := by
  unfold parseBlockMb at h
  cases hMb : parseU32Arg "--block-mb" value with
  | error e => simp [hMb, Except.bind] at h
  | ok mb =>
      have hRange := parseU32Arg_range hMb
      simp only [hMb, Except.bind] at h
      split at h
      · cases h
      · obtain rfl : mb * 1024 * 1024 = v := by simpa using h
        omega

/-- `checked_mul_u64`; `none` is `false`. -/
def checkedMulU64 (a b : Nat) : Option Nat :=
  if a ≠ 0 ∧ (2 ^ 64 - 1) / a < b then none else some (a * b % 2 ^ 64)

theorem checkedMulU64_eq {a b c : Nat} (h : checkedMulU64 a b = some c) :
    c = a * b ∧ c < 2 ^ 64 := by
  unfold checkedMulU64 at h
  split at h
  · cases h
  · rename_i hFits
    obtain rfl := Option.some.inj h
    have hLt : a * b < 2 ^ 64 := by
      by_cases ha : a = 0
      · simp [ha]
      · have hLe : b ≤ (2 ^ 64 - 1) / a := by
          by_contra hGt
          exact hFits ⟨ha, by omega⟩
        have hMul := (Nat.le_div_iff_mul_le (Nat.pos_of_ne_zero ha)).mp hLe
        rw [Nat.mul_comm] at hMul
        omega
    exact ⟨Nat.mod_eq_of_lt hLt, Nat.mod_lt _ (by decide)⟩

/-! ## The option loop -/

/-- The loop around `getopt_long`: it stops at the first error. -/
def applyOpts {Cfg Opt : Type} (applyOpt : Cfg → Opt → Except ArgError Cfg) :
    Cfg → List Opt → Except ArgError Cfg
  | cfg, [] => .ok cfg
  | cfg, opt :: opts =>
      (applyOpt cfg opt).bind fun cfg' => applyOpts applyOpt cfg' opts

/-- What every option keeps holds of an accepted command line. -/
theorem applyOpts_invariant {Cfg Opt : Type}
    {applyOpt : Cfg → Opt → Except ArgError Cfg} {P : Cfg → Prop}
    (hStep : ∀ cfg opt cfg', P cfg → applyOpt cfg opt = .ok cfg' → P cfg')
    {opts : List Opt} {cfg cfg' : Cfg} (h : P cfg)
    (hOpts : applyOpts applyOpt cfg opts = .ok cfg') : P cfg' := by
  induction opts generalizing cfg with
  | nil =>
      obtain rfl := Except.ok.inj hOpts
      exact h
  | cons opt opts ih =>
      cases hOpt : applyOpt cfg opt with
      | error e => simp [applyOpts, hOpt, Except.bind] at hOpts
      | ok cfg₁ =>
          have hRest : applyOpts applyOpt cfg₁ opts = .ok cfg' := by
            simpa [applyOpts, hOpt, Except.bind] using hOpts
          exact ih (hStep cfg opt cfg₁ h hOpt) hRest

/-- An option that sets a field from a checked number succeeds only with a
number in range. -/
theorem exists_of_map_ok {α β : Type} {r : Except ArgError α} {f : α → β}
    {b : β} (h : r.map f = .ok b) : ∃ a, r = .ok a ∧ f a = b := by
  cases r with
  | error e => simp [Except.map] at h
  | ok a => exact ⟨a, rfl, by simpa [Except.map] using h⟩

/-! ## Options -/

/-- What `getopt_long` delivers, with `optarg` where the option has one. -/
inductive Opt
  | requests (optarg : List Char)
  | reqPerBlocks (optarg : List Char)
  | blocks (optarg : List Char)
  | reqBlocks (optarg : List Char)
  | chunkSlots (optarg : List Char)
  | blockMb (optarg : List Char)
  | blockBytes (optarg : List Char)
  | rounds (optarg : List Char)
  | sweepMin (optarg : List Char)
  | sweepMax (optarg : List Char)
  | noVerify
  | noCopy
  | csv (optarg : List Char)
  | help
  | unknown
  deriving DecidableEq, Repr

/-- `struct cfg`. -/
structure Cfg where
  requests : Nat
  req_per_blocks : Nat
  chunk_slots : Nat
  block_bytes : Nat
  rounds : Nat
  sweep_min : Nat
  sweep_max : Nat
  verify : Bool
  copy_to_dst : Bool
  csv_path : List Char
  deriving DecidableEq, Repr

/-- The assignments at the head of `parse_args`. -/
def defaultCfg : Cfg where
  requests := 32
  req_per_blocks := 64
  chunk_slots := 32
  block_bytes := 16 * 1024 * 1024
  rounds := 1
  sweep_min := 1
  sweep_max := 0
  verify := true
  copy_to_dst := true
  csv_path := []

/-- One round of the `switch`.  `snprintf` cuts the path to its buffer. -/
def applyOpt (cfg : Cfg) : Opt → Except ArgError Cfg
  | .requests v =>
      (parseU32Arg "--requests" v).map fun n => { cfg with requests := n }
  | .reqPerBlocks v =>
      (parseU32Arg "--req_per_blocks" v).map fun n =>
        { cfg with req_per_blocks := n }
  | .blocks v =>
      (parseU32Arg "--blocks" v).map fun n => { cfg with req_per_blocks := n }
  | .reqBlocks v =>
      (parseU32Arg "--req-blocks" v).map fun n =>
        { cfg with req_per_blocks := n }
  | .chunkSlots v =>
      (parseU32Arg "--chunk-slots" v).map fun n => { cfg with chunk_slots := n }
  | .blockMb v => (parseBlockMb v).map fun n => { cfg with block_bytes := n }
  | .blockBytes v =>
      (parseU32Arg "--block-bytes" v).map fun n => { cfg with block_bytes := n }
  | .rounds v => (parseU32Arg "--rounds" v).map fun n => { cfg with rounds := n }
  | .sweepMin v =>
      (parseU32Arg "--sweep-min" v).map fun n => { cfg with sweep_min := n }
  | .sweepMax v =>
      (parseU32Arg "--sweep-max" v).map fun n => { cfg with sweep_max := n }
  | .noVerify => .ok { cfg with verify := false }
  | .noCopy => .ok { cfg with copy_to_dst := false }
  | .csv v => .ok { cfg with csv_path := v.take 255 }
  | .help => .error .help
  | .unknown => .error .usage

/-- `sizeof(struct block_tag)`: four 64-bit fields. -/
def tagBytes : Nat := 32

/-- The sweep defaults "filled after parsing". -/
def fillSweep (cfg : Cfg) : Cfg :=
  { cfg with
    sweep_max := if cfg.sweep_max = 0 then cfg.requests else cfg.sweep_max
    sweep_min := if cfg.sweep_min = 0 then 1 else cfg.sweep_min }

/-- The checks after the loop. -/
def checkCfg (cfg : Cfg) : Except ArgError Cfg :=
  if cfg.sweep_max < cfg.sweep_min ∨ cfg.requests < cfg.sweep_max then
    .error (.badSweepRange cfg.sweep_min cfg.sweep_max cfg.requests)
  else if cfg.block_bytes < tagBytes + 1 then
    .error (.blockBytesAtLeast (tagBytes + 1))
  else .ok cfg

/-- `parse_args`. -/
def parseArgs (opts : List Opt) : Except ArgError Cfg :=
  (applyOpts applyOpt defaultCfg opts).bind fun cfg => checkCfg (fillSweep cfg)

/-! ## What an accepted configuration satisfies -/

/-- The 32-bit fields that every option keeps positive. -/
structure Cfg.InRange (cfg : Cfg) : Prop where
  requests : 1 ≤ cfg.requests ∧ cfg.requests < 2 ^ 32
  req_per_blocks : 1 ≤ cfg.req_per_blocks ∧ cfg.req_per_blocks < 2 ^ 32
  chunk_slots : 1 ≤ cfg.chunk_slots ∧ cfg.chunk_slots < 2 ^ 32
  block_bytes : 1 ≤ cfg.block_bytes ∧ cfg.block_bytes < 2 ^ 32
  rounds : 1 ≤ cfg.rounds ∧ cfg.rounds < 2 ^ 32

/-- A configuration a sweep can run on. -/
structure Cfg.WellFormed (cfg : Cfg) : Prop extends Cfg.InRange cfg where
  sweep : 1 ≤ cfg.sweep_min ∧ cfg.sweep_min ≤ cfg.sweep_max ∧
    cfg.sweep_max ≤ cfg.requests
  tag : tagBytes + 1 ≤ cfg.block_bytes

theorem defaultCfg_inRange : defaultCfg.InRange where
  requests := by decide
  req_per_blocks := by decide
  chunk_slots := by decide
  block_bytes := by decide
  rounds := by decide

theorem applyOpt_inRange (cfg : Cfg) (opt : Opt) (cfg' : Cfg) (h : cfg.InRange)
    (hOpt : applyOpt cfg opt = .ok cfg') : cfg'.InRange := by
  cases opt with
  | requests v =>
      rcases exists_of_map_ok hOpt with ⟨n, hn, rfl⟩
      exact { h with requests := parseU32Arg_range hn }
  | reqPerBlocks v =>
      rcases exists_of_map_ok hOpt with ⟨n, hn, rfl⟩
      exact { h with req_per_blocks := parseU32Arg_range hn }
  | blocks v =>
      rcases exists_of_map_ok hOpt with ⟨n, hn, rfl⟩
      exact { h with req_per_blocks := parseU32Arg_range hn }
  | reqBlocks v =>
      rcases exists_of_map_ok hOpt with ⟨n, hn, rfl⟩
      exact { h with req_per_blocks := parseU32Arg_range hn }
  | chunkSlots v =>
      rcases exists_of_map_ok hOpt with ⟨n, hn, rfl⟩
      exact { h with chunk_slots := parseU32Arg_range hn }
  | blockMb v =>
      rcases exists_of_map_ok hOpt with ⟨n, hn, rfl⟩
      exact { h with block_bytes := parseBlockMb_range hn }
  | blockBytes v =>
      rcases exists_of_map_ok hOpt with ⟨n, hn, rfl⟩
      exact { h with block_bytes := parseU32Arg_range hn }
  | rounds v =>
      rcases exists_of_map_ok hOpt with ⟨n, hn, rfl⟩
      exact { h with rounds := parseU32Arg_range hn }
  | sweepMin v =>
      rcases exists_of_map_ok hOpt with ⟨n, _, rfl⟩
      exact { h with }
  | sweepMax v =>
      rcases exists_of_map_ok hOpt with ⟨n, _, rfl⟩
      exact { h with }
  | noVerify =>
      obtain rfl := Except.ok.inj hOpt
      exact { h with }
  | noCopy =>
      obtain rfl := Except.ok.inj hOpt
      exact { h with }
  | csv v =>
      obtain rfl := Except.ok.inj hOpt
      exact { h with }
  | help => cases hOpt
  | unknown => cases hOpt

theorem checkCfg_wellFormed {cfg cfg' : Cfg} (h : cfg.InRange)
    (hMin : 1 ≤ cfg.sweep_min) (hCheck : checkCfg cfg = .ok cfg') :
    cfg'.WellFormed := by
  unfold checkCfg at hCheck
  split at hCheck
  · cases hCheck
  · split at hCheck
    · cases hCheck
    · obtain rfl := Except.ok.inj hCheck
      exact { h with sweep := by omega, tag := by omega }

/-- Every accepted command line gives a well-formed configuration. -/
theorem parseArgs_wellFormed {opts : List Opt} {cfg : Cfg}
    (h : parseArgs opts = .ok cfg) : cfg.WellFormed := by
  cases hOpts : applyOpts applyOpt defaultCfg opts with
  | error e => simp [parseArgs, hOpts, Except.bind] at h
  | ok cfg₁ =>
      have hCheck : checkCfg (fillSweep cfg₁) = .ok cfg := by
        simpa [parseArgs, hOpts, Except.bind] using h
      have hRange := applyOpts_invariant applyOpt_inRange defaultCfg_inRange hOpts
      apply @checkCfg_wellFormed (fillSweep cfg₁) cfg { hRange with } ?_ hCheck
      show 1 ≤ if cfg₁.sweep_min = 0 then 1 else cfg₁.sweep_min
      split <;> omega

end MioBench.Store
