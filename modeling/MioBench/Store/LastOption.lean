import MioBench.Store.Args

/-!
# The last option wins

`parse_args` of `test2.c` starts from the defaults and lets every option
overwrite the fields it sets, so what an accepted command line leaves in a
field is the value of the last option for it, under whichever of its names.
`sweep_max` is the exception: its default is the final number of requests.
-/

namespace MioBench.Store

/-- The value of the last option that sets a field, or its default. -/
def lastOr {Opt α : Type} (sets : Opt → Option α) (default : α)
    (opts : List Opt) : α :=
  ((opts.filterMap sets).getLast?).getD default

theorem lastOr_cons {Opt α : Type} (sets : Opt → Option α) (default : α)
    (opt : Opt) (opts : List Opt) :
    lastOr sets default (opt :: opts) =
      lastOr sets ((sets opt).getD default) opts := by
  unfold lastOr
  cases hSets : sets opt with
  | none => simp [hSets]
  | some v => simp [hSets, List.getLast?_cons]

theorem lastOr_map {Opt α β : Type} (sets : Opt → Option α) (f : α → β)
    (default : α) (opts : List Opt) :
    lastOr (fun opt => (sets opt).map f) (f default) opts =
      f (lastOr sets default opts) := by
  induction opts generalizing default with
  | nil => rfl
  | cons opt opts ih =>
      rw [lastOr_cons, lastOr_cons, ← ih]
      cases sets opt <;> rfl

theorem lastOr_pos {Opt : Type} {sets : Opt → Option Nat}
    (hPos : ∀ opt v, sets opt = some v → 1 ≤ v) {default : Nat}
    (hDefault : 1 ≤ default) (opts : List Opt) :
    1 ≤ lastOr sets default opts := by
  induction opts generalizing default with
  | nil => exact hDefault
  | cons opt opts ih =>
      rw [lastOr_cons]
      apply ih
      cases hSets : sets opt with
      | none => exact hDefault
      | some v => exact hPos opt v hSets

/-- A default that is filled in afterwards, where 0 stands for no value. -/
theorem lastOr_zero {Opt : Type} {sets : Opt → Option Nat}
    (hPos : ∀ opt v, sets opt = some v → 1 ≤ v) (default : Nat)
    (opts : List Opt) :
    (if lastOr sets 0 opts = 0 then default else lastOr sets 0 opts) =
      lastOr sets default opts := by
  unfold lastOr
  cases hLast : (opts.filterMap sets).getLast? with
  | none => rfl
  | some v =>
      obtain ⟨opt, _, hSets⟩ :=
        List.mem_filterMap.mp (List.mem_of_getLast? hLast)
      have hv := hPos opt v hSets
      exact if_neg (by simp only [Option.getD_some]; omega)

/-! ## What the options of `test2.c` set -/

/-- The number `parse_u32_arg` reads. -/
def u32Value (name : String) (value : List Char) : Option Nat :=
  (parseU32Arg name value).toOption

def setsRequests : Opt → Option Nat
  | .requests v => u32Value "--requests" v
  | _ => none

/-- `--req_per_blocks` and its aliases. -/
def setsReqPerBlocks : Opt → Option Nat
  | .reqPerBlocks v => u32Value "--req_per_blocks" v
  | .blocks v => u32Value "--blocks" v
  | .reqBlocks v => u32Value "--req-blocks" v
  | _ => none

def setsChunkSlots : Opt → Option Nat
  | .chunkSlots v => u32Value "--chunk-slots" v
  | _ => none

/-- Bytes, or MiB taken exactly. -/
def setsBlockBytes : Opt → Option Nat
  | .blockMb v => (u32Value "--block-mb" v).map (· * 2 ^ 20)
  | .blockBytes v => u32Value "--block-bytes" v
  | _ => none

def setsRounds : Opt → Option Nat
  | .rounds v => u32Value "--rounds" v
  | _ => none

def setsSweepMin : Opt → Option Nat
  | .sweepMin v => u32Value "--sweep-min" v
  | _ => none

def setsSweepMax : Opt → Option Nat
  | .sweepMax v => u32Value "--sweep-max" v
  | _ => none

def setsVerify : Opt → Option Bool
  | .noVerify => some false
  | _ => none

def setsCopyToDst : Opt → Option Bool
  | .noCopy => some false
  | _ => none

/-- The path as it is given. -/
def setsCsvPath : Opt → Option (List Char)
  | .csv v => some v
  | _ => none

/-- The MiB case as the compiler computes it, in 32 bits: the test in front
leaves nothing to wrap. -/
theorem parseBlockMb_eq_some {value : List Char} {v : Nat}
    (h : parseBlockMb value = .ok v) :
    ∃ mb, parseU32Arg "--block-mb" value = .ok mb ∧ v = mb * 2 ^ 20 ∧
      mb * 1024 % 2 ^ 32 * 1024 % 2 ^ 32 = mb * 2 ^ 20 := by
  unfold parseBlockMb at h
  cases hMb : parseU32Arg "--block-mb" value with
  | error e => simp [hMb, Except.bind] at h
  | ok mb =>
      simp only [hMb, Except.bind] at h
      split at h
      · cases h
      · obtain rfl : mb * 1024 * 1024 = v := by simpa using h
        refine ⟨mb, rfl, by omega, ?_⟩
        rw [Nat.mod_eq_of_lt (show mb * 1024 < 2 ^ 32 by omega),
          Nat.mod_eq_of_lt (by omega)]
        omega

/-- One round of the `switch`, field by field. -/
theorem applyOpt_fields {cfg cfg' : Cfg} {opt : Opt}
    (h : applyOpt cfg opt = .ok cfg') :
    cfg' =
      { requests := (setsRequests opt).getD cfg.requests
        req_per_blocks := (setsReqPerBlocks opt).getD cfg.req_per_blocks
        chunk_slots := (setsChunkSlots opt).getD cfg.chunk_slots
        block_bytes := (setsBlockBytes opt).getD cfg.block_bytes
        rounds := (setsRounds opt).getD cfg.rounds
        sweep_min := (setsSweepMin opt).getD cfg.sweep_min
        sweep_max := (setsSweepMax opt).getD cfg.sweep_max
        verify := (setsVerify opt).getD cfg.verify
        copy_to_dst := (setsCopyToDst opt).getD cfg.copy_to_dst
        csv_path := ((setsCsvPath opt).map (List.take 255)).getD cfg.csv_path } := by
  have hValue : ∀ {name : String} {v : List Char} {n : Nat},
      parseU32Arg name v = .ok n → u32Value name v = some n := by
    intro name v n hn
    rw [u32Value, hn]
    rfl
  cases opt with
  | requests v =>
      rcases exists_of_map_ok h with ⟨n, hn, rfl⟩
      rw [setsRequests, hValue hn]
      rfl
  | reqPerBlocks v =>
      rcases exists_of_map_ok h with ⟨n, hn, rfl⟩
      rw [setsReqPerBlocks, hValue hn]
      rfl
  | blocks v =>
      rcases exists_of_map_ok h with ⟨n, hn, rfl⟩
      rw [setsReqPerBlocks, hValue hn]
      rfl
  | reqBlocks v =>
      rcases exists_of_map_ok h with ⟨n, hn, rfl⟩
      rw [setsReqPerBlocks, hValue hn]
      rfl
  | chunkSlots v =>
      rcases exists_of_map_ok h with ⟨n, hn, rfl⟩
      rw [setsChunkSlots, hValue hn]
      rfl
  | blockMb v =>
      rcases exists_of_map_ok h with ⟨n, hn, rfl⟩
      obtain ⟨mb, hMb, rfl, _⟩ := parseBlockMb_eq_some hn
      rw [setsBlockBytes, hValue hMb]
      rfl
  | blockBytes v =>
      rcases exists_of_map_ok h with ⟨n, hn, rfl⟩
      rw [setsBlockBytes, hValue hn]
      rfl
  | rounds v =>
      rcases exists_of_map_ok h with ⟨n, hn, rfl⟩
      rw [setsRounds, hValue hn]
      rfl
  | sweepMin v =>
      rcases exists_of_map_ok h with ⟨n, hn, rfl⟩
      rw [setsSweepMin, hValue hn]
      rfl
  | sweepMax v =>
      rcases exists_of_map_ok h with ⟨n, hn, rfl⟩
      rw [setsSweepMax, hValue hn]
      rfl
  | noVerify => exact (Except.ok.inj h).symm
  | noCopy => exact (Except.ok.inj h).symm
  | csv v => exact (Except.ok.inj h).symm
  | help => cases h
  | unknown => cases h

/-- The whole loop, field by field. -/
theorem applyOpts_fields {cfg cfg' : Cfg} {opts : List Opt}
    (h : applyOpts applyOpt cfg opts = .ok cfg') :
    cfg' =
      { requests := lastOr setsRequests cfg.requests opts
        req_per_blocks := lastOr setsReqPerBlocks cfg.req_per_blocks opts
        chunk_slots := lastOr setsChunkSlots cfg.chunk_slots opts
        block_bytes := lastOr setsBlockBytes cfg.block_bytes opts
        rounds := lastOr setsRounds cfg.rounds opts
        sweep_min := lastOr setsSweepMin cfg.sweep_min opts
        sweep_max := lastOr setsSweepMax cfg.sweep_max opts
        verify := lastOr setsVerify cfg.verify opts
        copy_to_dst := lastOr setsCopyToDst cfg.copy_to_dst opts
        csv_path := lastOr (fun opt => (setsCsvPath opt).map (List.take 255))
          cfg.csv_path opts } := by
  induction opts generalizing cfg with
  | nil =>
      obtain rfl := Except.ok.inj h
      rfl
  | cons opt opts ih =>
      cases hOpt : applyOpt cfg opt with
      | error e => simp [applyOpts, hOpt, Except.bind] at h
      | ok cfg₁ =>
          have hRest : applyOpts applyOpt cfg₁ opts = .ok cfg' := by
            simpa [applyOpts, hOpt, Except.bind] using h
          rw [ih hRest, applyOpt_fields hOpt]
          simp only [lastOr_cons]

/-! ## What an accepted command line leaves -/

/-- The numbers and flags of `cfg` are those of the last option for them. -/
structure GivenLast (opts : List Opt) (cfg : Cfg) : Prop where
  requests : cfg.requests = lastOr setsRequests 32 opts
  req_per_blocks : cfg.req_per_blocks = lastOr setsReqPerBlocks 64 opts
  chunk_slots : cfg.chunk_slots = lastOr setsChunkSlots 32 opts
  block_bytes : cfg.block_bytes = lastOr setsBlockBytes (16 * 2 ^ 20) opts
  rounds : cfg.rounds = lastOr setsRounds 1 opts
  sweep_min : cfg.sweep_min = lastOr setsSweepMin 1 opts
  sweep_max : cfg.sweep_max = lastOr setsSweepMax cfg.requests opts
  verify : cfg.verify = lastOr setsVerify true opts
  copy_to_dst : cfg.copy_to_dst = lastOr setsCopyToDst true opts

theorem u32Value_pos {name : String} {value : List Char} {v : Nat}
    (h : u32Value name value = some v) : 1 ≤ v := by
  unfold u32Value at h
  cases hParse : parseU32Arg name value with
  | error e => simp [hParse, Except.toOption] at h
  | ok w =>
      obtain rfl : w = v := by simpa [hParse, Except.toOption] using h
      exact (parseU32Arg_range hParse).1

theorem setsSweepMin_pos (opt : Opt) (v : Nat) (h : setsSweepMin opt = some v) :
    1 ≤ v := by
  cases opt with
  | sweepMin value => exact u32Value_pos h
  | _ => cases h

theorem setsSweepMax_pos (opt : Opt) (v : Nat) (h : setsSweepMax opt = some v) :
    1 ≤ v := by
  cases opt with
  | sweepMax value => exact u32Value_pos h
  | _ => cases h

theorem checkCfg_eq {cfg cfg' : Cfg} (h : checkCfg cfg = .ok cfg') :
    cfg = cfg' := by
  unfold checkCfg at h
  split at h
  · cases h
  · split at h
    · cases h
    · exact Except.ok.inj h

/-- The option loop leaves what `lastOr` says, and the defaults are filled in
after it. -/
theorem parseArgs_fields {opts : List Opt} {cfg : Cfg}
    (h : parseArgs opts = .ok cfg) :
    GivenLast opts cfg ∧
      cfg.csv_path = (lastOr setsCsvPath [] opts).take 255 := by
  cases hOpts : applyOpts applyOpt defaultCfg opts with
  | error e => simp [parseArgs, hOpts, Except.bind] at h
  | ok cfg₁ =>
      have hCheck : checkCfg (fillSweep cfg₁) = .ok cfg := by
        simpa [parseArgs, hOpts, Except.bind] using h
      obtain rfl := checkCfg_eq hCheck
      have hMin := lastOr_pos setsSweepMin_pos
        (show 1 ≤ defaultCfg.sweep_min by decide) opts
      rw [applyOpts_fields hOpts]
      constructor
      · exact
          { requests := rfl
            req_per_blocks := rfl
            chunk_slots := rfl
            block_bytes := rfl
            rounds := rfl
            sweep_min := if_neg (Nat.ne_of_gt hMin)
            sweep_max := lastOr_zero setsSweepMax_pos _ opts
            verify := rfl
            copy_to_dst := rfl }
      · exact lastOr_map setsCsvPath (List.take 255) [] opts

/-- **Accepted command lines**: the configuration is well formed, every field is
the value of the last option for it or its default, `sweep_max` falling back on
the final number of requests, and sizes in MiB are exact in 32 bits.  The path
is cut to its buffer. -/
theorem parseArgs_lastOption {opts : List Opt} {cfg : Cfg}
    (h : parseArgs opts = .ok cfg) :
    cfg.WellFormed ∧ GivenLast opts cfg ∧
      cfg.csv_path = (lastOr setsCsvPath [] opts).take 255 ∧
      ∀ value bytes, parseBlockMb value = .ok bytes →
        ∃ mb, parseU32Arg "--block-mb" value = .ok mb ∧ bytes = mb * 2 ^ 20 ∧
          mb * 1024 % 2 ^ 32 * 1024 % 2 ^ 32 = mb * 2 ^ 20 :=
  ⟨parseArgs_wellFormed h, (parseArgs_fields h).1, (parseArgs_fields h).2,
    fun _ _ hMb => parseBlockMb_eq_some hMb⟩

/-- An alias overrides, and `sweep_max` follows a later number of requests. -/
theorem parseArgs_lastOption_order :
    ∃ cfg : Cfg, parseArgs [.reqPerBlocks "2".toList, .sweepMin "8".toList,
        .blocks "3".toList, .requests "16".toList] = .ok cfg ∧
      cfg.req_per_blocks = 3 ∧ cfg.sweep_max = 16 := by
  have hParse : parseArgs [.reqPerBlocks "2".toList, .sweepMin "8".toList,
      .blocks "3".toList, .requests "16".toList] =
      .ok { defaultCfg with
        requests := 16, req_per_blocks := 3, sweep_min := 8, sweep_max := 16 } := by
    decide
  have hGiven := (parseArgs_lastOption hParse).2.1
  exact ⟨_, hParse, hGiven.req_per_blocks.trans (by decide),
    hGiven.sweep_max.trans (by decide)⟩

/-- A path of 256 characters is not what ends up in the configuration. -/
theorem parseArgs_cuts_path :
    ∃ cfg : Cfg, parseArgs [.csv (List.replicate 256 'x')] = .ok cfg ∧
      cfg.csv_path ≠ lastOr setsCsvPath [] [.csv (List.replicate 256 'x')] := by
  generalize hPath : List.replicate 256 'x' = path
  have hLong : path.length = 256 := by rw [← hPath, List.length_replicate]
  refine ⟨{ defaultCfg with sweep_max := 32, csv_path := path.take 255 }, rfl, ?_⟩
  intro hEq
  have hSame : (path.take 255).length = path.length := congrArg List.length hEq
  rw [List.length_take, hLong] at hSame
  omega

end MioBench.Store
