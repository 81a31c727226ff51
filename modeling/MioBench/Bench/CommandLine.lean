import MioBench.Bench.MemorySize
import MioBench.Bench.NumaNodes
import MioBench.Lib.Hex
import MioBench.Store.LastOption

/-!
# The command line of the benchmark

The loop of `main` over its arguments, in `main.cpp` and in `main_patched.cpp`,
which knows `--pre-touch` besides.  An option takes what stands behind it as its
value, whatever it looks like, and a later option overwrites an earlier one.
-/

namespace MioBench.Bench

open MioBench.Lib MioBench.Store

/-! ## Numbers -/

/-- `atoi`, which narrows what `strtol` reads. -/
def atoi (s : List Char) : ℤ := toInt (strtol s).value

/-- `atoll` -/
def atoll (s : List Char) : ℤ := (strtol s).value

/-- The digits of a base up to ten at the head of a text. -/
def leadingDigits (base : Nat) (s : List Char) : Nat :=
  (s.takeWhile fun c => c.isDigit && c.toNat - 48 < base).foldl
    (fun v c => base * v + (c.toNat - 48)) 0

/-- `strtoull(s, nullptr, 0)`: the base is seen from the digits. -/
def strtoullBase0 (s : List Char) : Nat :=
  match signOf (s.dropWhile isSpace) with
  | (sign, number) =>
      let n :=
        match number with
        | '0' :: x :: c :: rest =>
            if (x = 'x' ∨ x = 'X') ∧ (hexValue c).isSome then ofHexFrom 0 (c :: rest)
            else leadingDigits 8 number
        | '0' :: _ => leadingDigits 8 number
        | _ => leadingDigits 10 number
      if 2 ^ 64 ≤ n then 2 ^ 64 - 1 else signed sign n

/-- `atof`, and what is asked of a `double`. -/
structure Floats where
  Double : Type
  atof : List Char → Double
  /-- `zipfian_alpha <= 0` -/
  notPositive : Double → Bool
  default_alpha : Double

/-! ## Options -/

/-- The options that take a value, in the order in which they are tried. -/
inductive ValueOption
  | memoryPerThread
  | mode
  | threads
  | resultDir
  | devdax
  | membind
  | prefetch
  | blockSize
  | strideSize
  | cpuAffinity
  | injectDelay
  | offset
  | zipfianAlpha
  deriving DecidableEq, Repr

def ValueOption.all : List ValueOption :=
  [.memoryPerThread, .mode, .threads, .resultDir, .devdax, .membind, .prefetch,
    .blockSize, .strideSize, .cpuAffinity, .injectDelay, .offset, .zipfianAlpha]

def ValueOption.name : ValueOption → List Char
  | .memoryPerThread => "--memory-per-thread".toList
  | .mode => "--mode".toList
  | .threads => "--threads".toList
  | .resultDir => "--result-dir".toList
  | .devdax => "--devdax".toList
  | .membind => "--membind".toList
  | .prefetch => "--prefetch".toList
  | .blockSize => "--block-size".toList
  | .strideSize => "--stride-size".toList
  | .cpuAffinity => "--cpu-affinity".toList
  | .injectDelay => "--inject-delay".toList
  | .offset => "--offset".toList
  | .zipfianAlpha => "--zipfian-alpha".toList

inductive FlagOption
  | bypassCache
  | hugepage
  /-- In `main_patched.cpp` only. -/
  | preTouch
  deriving DecidableEq, Repr

def FlagOption.name : FlagOption → List Char
  | .bypassCache => "--bypass-cache".toList
  | .hugepage => "--hugepage".toList
  | .preTouch => "--pre-touch".toList

/-- The flags of the one program or the other. -/
def FlagOption.known (patched : Bool) : List FlagOption :=
  if patched then [.bypassCache, .hugepage, .preTouch] else [.bypassCache, .hugepage]

/-- The variables that the options set. -/
structure Settings (fl : Floats) where
  memory_per_thread_mib : ℤ := -1
  mode : List Char := "seq,random".toList
  num_threads : ℤ := 1
  result_dir_path : Option (List Char) := none
  devdax_path : Option (List Char) := none
  membind_node : ℤ := -1
  prefetch_option : List Char := []
  BLOCK_SIZE : Nat := 64
  STRIDE_SIZE : Nat := 64
  bypass_cache : Bool := false
  cpu_affinity_str : Option (List Char) := none
  inject_delay_cycles : Nat := 0
  use_hugepage : Bool := false
  devdax_offset : Nat := 0
  zipfian_alpha : fl.Double := fl.default_alpha
  pre_touch : Bool := false

/-- Why `main` returns from the loop. -/
inductive Stop
  | requiresValue (o : ValueOption)
  | rejected (o : ValueOption)
  | unknown (arg : List Char)
  | help
  deriving DecidableEq, Repr

/-- What is printed; after `unknown` and for `help` the usage is printed, too. -/
def Stop.text : Stop → List Char
  | .requiresValue o => "Error: ".toList ++ o.name ++ " requires a value".toList
  | .rejected .prefetch => "Error: --prefetch must be ON or OFF".toList
  | .rejected o => "Error: ".toList ++ o.name ++ " must be greater than 0".toList
  | .unknown arg => "Error: Unknown argument '".toList ++ arg ++ "'".toList
  | .help => []

def Stop.status : Stop → Nat
  | .help => 0
  | _ => 1

/-! ## The loop -/

section Loop

variable {fl : Floats}

/-- The assignment of an option. -/
def Settings.assign (s : Settings fl) (o : ValueOption) (v : List Char) :
    Settings fl :=
  match o with
  | .memoryPerThread => { s with memory_per_thread_mib := atoi v }
  | .mode => { s with mode := v }
  | .threads => { s with num_threads := atoi v }
  | .resultDir => { s with result_dir_path := some v }
  | .devdax => { s with devdax_path := some v }
  | .membind => { s with membind_node := atoi v }
  | .prefetch => { s with prefetch_option := v }
  | .blockSize => { s with BLOCK_SIZE := toSizeT (atoi v) }
  | .strideSize => { s with STRIDE_SIZE := toSizeT (atoi v) }
  | .cpuAffinity => { s with cpu_affinity_str := some v }
  | .injectDelay => { s with inject_delay_cycles := toSizeT (atoll v) }
  | .offset => { s with devdax_offset := strtoullBase0 v }
  | .zipfianAlpha => { s with zipfian_alpha := fl.atof v }

/-- The test behind an assignment. -/
def Settings.rejects (s : Settings fl) : ValueOption → Bool
  | .prefetch => s.prefetch_option != "ON".toList && s.prefetch_option != "OFF".toList
  | .blockSize => s.BLOCK_SIZE == 0
  | .strideSize => s.STRIDE_SIZE == 0
  | .zipfianAlpha => fl.notPositive s.zipfian_alpha
  | _ => false

def Settings.setFlag (s : Settings fl) : FlagOption → Settings fl
  | .bypassCache => { s with bypass_cache := true }
  | .hugepage => { s with use_hugepage := true }
  | .preTouch => { s with pre_touch := true }

/-- The loop over the arguments. -/
def parseArgs (patched : Bool) (s : Settings fl) :
    List (List Char) → Except Stop (Settings fl)
  | [] => .ok s
  | arg :: rest =>
      match ValueOption.all.find? fun o => o.name == arg with
      | some o =>
          match rest with
          | [] => .error (.requiresValue o)
          | v :: rest =>
              if (s.assign o v).rejects o then .error (.rejected o)
              else parseArgs patched (s.assign o v) rest
      | none =>
          match (FlagOption.known patched).find? fun f => f.name == arg with
          | some f => parseArgs patched (s.setFlag f) rest
          | none =>
              if arg = "--help".toList ∨ arg = "-h".toList then .error .help
              else .error (.unknown arg)

end Loop

/-! ## What a command line says -/

/-- An option as it is given. -/
inductive Opt
  | value (o : ValueOption) (v : List Char)
  | flag (f : FlagOption)
  deriving DecidableEq, Repr

def Opt.words : Opt → List (List Char)
  | .value o v => [o.name, v]
  | .flag f => [f.name]

/-- The value given to an option, if it is the one. -/
def Opt.valueOf (o : ValueOption) : Opt → Option (List Char)
  | .value o' v => if o' = o then some v else none
  | .flag _ => none

/-- What the last option of a kind gives. -/
def lastGiven {α : Type} (opts : List Opt) (o : ValueOption) (read : List Char → α)
    (default : α) : α :=
  lastOr (fun opt => (opt.valueOf o).map read) default opts

/-- Every variable has the last value that it is given, or its default. -/
def Settings.ofOptions (fl : Floats) (opts : List Opt) : Settings fl where
  memory_per_thread_mib := lastGiven opts .memoryPerThread atoi (-1)
  mode := lastGiven opts .mode id "seq,random".toList
  num_threads := lastGiven opts .threads atoi 1
  result_dir_path := lastGiven opts .resultDir some none
  devdax_path := lastGiven opts .devdax some none
  membind_node := lastGiven opts .membind atoi (-1)
  prefetch_option := lastGiven opts .prefetch id []
  BLOCK_SIZE := lastGiven opts .blockSize (fun v => toSizeT (atoi v)) 64
  STRIDE_SIZE := lastGiven opts .strideSize (fun v => toSizeT (atoi v)) 64
  bypass_cache := decide (.flag .bypassCache ∈ opts)
  cpu_affinity_str := lastGiven opts .cpuAffinity some none
  inject_delay_cycles := lastGiven opts .injectDelay (fun v => toSizeT (atoll v)) 0
  use_hugepage := decide (.flag .hugepage ∈ opts)
  devdax_offset := lastGiven opts .offset strtoullBase0 0
  zipfian_alpha := lastGiven opts .zipfianAlpha fl.atof fl.default_alpha
  pre_touch := decide (.flag .preTouch ∈ opts)

/-- A value that `main` goes on with. -/
def ValueOption.accepts (fl : Floats) : ValueOption → List Char → Bool
  | .prefetch, v => v == "ON".toList || v == "OFF".toList
  | .blockSize, v => toSizeT (atoi v) != 0
  | .strideSize, v => toSizeT (atoi v) != 0
  | .zipfianAlpha, v => !fl.notPositive (fl.atof v)
  | _, _ => true

/-- An option that `main` goes on with. -/
def Opt.Accepted (fl : Floats) (patched : Bool) : Opt → Prop
  | .value o v => o.accepts fl v = true
  | .flag f => f ∈ FlagOption.known patched

/-- The argument at which `main` returns, and what is behind it. -/
inductive StopsAt (fl : Floats) (patched : Bool) : Stop → List (List Char) → Prop
  | requiresValue (o : ValueOption) : StopsAt fl patched (.requiresValue o) [o.name]
  | rejected (o : ValueOption) (v : List Char) (rest : List (List Char))
      (h : o.accepts fl v = false) :
      StopsAt fl patched (.rejected o) (o.name :: v :: rest)
  | unknown (arg : List Char) (rest : List (List Char))
      (hValue : ∀ o : ValueOption, o.name ≠ arg)
      (hFlag : ∀ f ∈ FlagOption.known patched, f.name ≠ arg)
      (hHelp : arg ≠ "--help".toList ∧ arg ≠ "-h".toList) :
      StopsAt fl patched (.unknown arg) (arg :: rest)
  | help (arg : List Char) (rest : List (List Char))
      (h : arg = "--help".toList ∨ arg = "-h".toList) :
      StopsAt fl patched .help (arg :: rest)

/-! ## One option -/

theorem find?_name (o : ValueOption) :
    (ValueOption.all.find? fun o' => o'.name == o.name) = some o := by
  cases o <;> rfl

theorem find?_flagName (f : FlagOption) :
    (ValueOption.all.find? fun o => o.name == f.name) = none := by
  cases f <;> rfl

theorem find?_known {patched : Bool} {f : FlagOption}
    (h : f ∈ FlagOption.known patched) :
    ((FlagOption.known patched).find? fun f' => f'.name == f.name) = some f := by
  revert h
  cases patched <;> cases f <;> decide

theorem find?_all_eq_none {arg : List Char} :
    (ValueOption.all.find? fun o => o.name == arg) = none ↔
      ∀ o : ValueOption, o.name ≠ arg := by
  have hAll : ∀ o : ValueOption, o ∈ ValueOption.all := by
    intro o
    cases o <;> decide
  rw [List.find?_eq_none]
  simp only [beq_iff_eq]
  exact ⟨fun h o => h o (hAll o), fun h o _ => h o⟩

theorem find?_known_eq_none {patched : Bool} {arg : List Char} :
    ((FlagOption.known patched).find? fun f => f.name == arg) = none ↔
      ∀ f ∈ FlagOption.known patched, f.name ≠ arg := by
  simp only [List.find?_eq_none, beq_iff_eq, ne_eq]

section Step

variable {fl : Floats} {patched : Bool}

def Settings.set (s : Settings fl) : Opt → Settings fl
  | .value o v => s.assign o v
  | .flag f => s.setFlag f

/-- The test only sees the value. -/
theorem rejects_assign (s : Settings fl) (o : ValueOption) (v : List Char) :
    (s.assign o v).rejects o = !o.accepts fl v := by
  cases o <;> simp [Settings.rejects, Settings.assign, ValueOption.accepts, bne]

theorem parseArgs_words (s : Settings fl) {opt : Opt}
    (h : opt.Accepted fl patched) (rest : List (List Char)) :
    parseArgs patched s (opt.words ++ rest) = parseArgs patched (s.set opt) rest := by
  cases opt with
  | value o v =>
      have hTest : ¬ (s.assign o v).rejects o = true := by
        rw [rejects_assign, show o.accepts fl v = true from h]
        exact Bool.false_ne_true
      show parseArgs patched s (o.name :: v :: rest) = _
      rw [parseArgs, find?_name]
      exact if_neg hTest
  | flag f =>
      show parseArgs patched s (f.name :: rest) = _
      rw [parseArgs, find?_flagName, find?_known h]
      rfl

theorem parseArgs_stop (s : Settings fl) {e : Stop} {rest : List (List Char)}
    (h : StopsAt fl patched e rest) : parseArgs patched s rest = .error e := by
  cases h with
  | requiresValue o =>
      rw [parseArgs, find?_name]
  | rejected o v rest hTest =>
      rw [parseArgs, find?_name]
      have hRejects : (s.assign o v).rejects o = true := by
        rw [rejects_assign, hTest]
        rfl
      exact if_pos hRejects
  | unknown arg rest hValue hFlag hHelp =>
      rw [parseArgs, find?_all_eq_none.mpr hValue, find?_known_eq_none.mpr hFlag]
      exact if_neg (not_or.mpr hHelp)
  | help arg rest hHelp =>
      have hValue : ∀ o : ValueOption, o.name ≠ arg := by
        intro o
        rcases hHelp with rfl | rfl <;> cases o <;> decide
      have hFlag : ∀ f ∈ FlagOption.known patched, f.name ≠ arg := by
        rcases hHelp with rfl | rfl <;> cases patched <;> decide
      rw [parseArgs, find?_all_eq_none.mpr hValue, find?_known_eq_none.mpr hFlag]
      exact if_pos hHelp

/-- Every error names the argument at which `main` returns, and only `--help` is no
failure. -/
theorem StopsAt.names {e : Stop} {rest : List (List Char)}
    (h : StopsAt fl patched e rest) (hFailed : e.status ≠ 0) :
    ∃ arg rest', rest = arg :: rest' ∧ arg <:+: e.text := by
  cases h with
  | requiresValue o =>
      exact ⟨o.name, [], rfl, "Error: ".toList, " requires a value".toList, rfl⟩
  | rejected o v rest hTest =>
      refine ⟨o.name, v :: rest, rfl, "Error: ".toList, ?_⟩
      cases o with
      | prefetch => exact ⟨" must be ON or OFF".toList, rfl⟩
      | _ => exact ⟨" must be greater than 0".toList, rfl⟩
  | unknown arg rest hValue hFlag hHelp =>
      exact ⟨arg, rest, rfl, "Error: Unknown argument '".toList, "'".toList, rfl⟩
  | help arg rest hHelp => exact absurd rfl hFailed

theorem parseArgs_flatMap (s : Settings fl) {opts : List Opt}
    (h : ∀ opt ∈ opts, opt.Accepted fl patched) (rest : List (List Char)) :
    parseArgs patched s (opts.flatMap Opt.words ++ rest) =
      parseArgs patched (opts.foldl Settings.set s) rest := by
  induction opts generalizing s with
  | nil => rfl
  | cons opt opts ih =>
      have hRest := ih (s.set opt) fun opt' hOpt => h opt' (List.mem_cons_of_mem _ hOpt)
      rw [List.flatMap_cons, List.append_assoc,
        parseArgs_words s (h opt List.mem_cons_self), hRest, List.foldl_cons]

/-- Options, and then nothing or the argument at which `main` returns. -/
theorem exists_options (fl : Floats) (patched : Bool) (argv : List (List Char)) :
    ∃ (opts : List Opt) (rest : List (List Char)),
      argv = opts.flatMap Opt.words ++ rest ∧
      (∀ opt ∈ opts, opt.Accepted fl patched) ∧
      (rest = [] ∨ ∃ e, StopsAt fl patched e rest) := by
  induction hn : argv.length using Nat.strong_induction_on generalizing argv with
  | _ n ih =>
  cases argv with
  | nil => exact ⟨[], [], rfl, by simp, Or.inl rfl⟩
  | cons arg rest =>
      by_cases hValue : ∃ o : ValueOption, o.name = arg
      · obtain ⟨o, rfl⟩ := hValue
        cases rest with
        | nil =>
            exact ⟨[], _, rfl, by simp, Or.inr ⟨_, .requiresValue o⟩⟩
        | cons v rest =>
            cases hTest : o.accepts fl v with
            | false =>
                exact ⟨[], _, rfl, by simp, Or.inr ⟨_, .rejected o v rest hTest⟩⟩
            | true =>
                obtain ⟨opts, rest', hEq, hOpts, hEnd⟩ := ih rest.length
                  (by simp only [List.length_cons] at hn; omega) rest rfl
                refine ⟨.value o v :: opts, rest', ?_, ?_, hEnd⟩
                · rw [hEq]
                  rfl
                · exact List.forall_mem_cons.mpr ⟨hTest, hOpts⟩
      · by_cases hFlag : ∃ f ∈ FlagOption.known patched, f.name = arg
        · obtain ⟨f, hKnown, rfl⟩ := hFlag
          obtain ⟨opts, rest', hEq, hOpts, hEnd⟩ := ih rest.length
            (by simp only [List.length_cons] at hn; omega) rest rfl
          refine ⟨.flag f :: opts, rest', ?_, ?_, hEnd⟩
          · rw [hEq]
            rfl
          · exact List.forall_mem_cons.mpr ⟨hKnown, hOpts⟩
        · have hValue' : ∀ o : ValueOption, o.name ≠ arg := fun o hName =>
            hValue ⟨o, hName⟩
          have hFlag' : ∀ f ∈ FlagOption.known patched, f.name ≠ arg :=
            fun f hKnown hName => hFlag ⟨f, hKnown, hName⟩
          by_cases hHelp : arg = "--help".toList ∨ arg = "-h".toList
          · exact ⟨[], _, rfl, by simp, Or.inr ⟨_, .help arg rest hHelp⟩⟩
          · exact ⟨[], _, rfl, by simp,
              Or.inr ⟨_, .unknown arg rest hValue' hFlag' (not_or.mp hHelp)⟩⟩

end Step

/-! ## The last option -/

section Last

variable {fl : Floats}

theorem lastGiven_concat {α : Type} (opts : List Opt) (opt : Opt) (o : ValueOption)
    (read : List Char → α) (default : α) :
    lastGiven (opts ++ [opt]) o read default =
      ((opt.valueOf o).map read).getD (lastGiven opts o read default) := by
  unfold lastGiven lastOr
  rw [List.filterMap_append]
  cases hValue : opt.valueOf o with
  | none => simp [hValue]
  | some v => simp [hValue]

/-- An option overwrites its variable. -/
theorem set_ofOptions (opts : List Opt) (opt : Opt) :
    (Settings.ofOptions fl opts).set opt = Settings.ofOptions fl (opts ++ [opt]) := by
  cases opt with
  | value o v =>
      cases o <;> simp [Settings.set, Settings.assign, Settings.ofOptions,
        lastGiven_concat, Opt.valueOf]
  | flag f =>
      cases f <;> simp [Settings.set, Settings.setFlag, Settings.ofOptions,
        lastGiven_concat, Opt.valueOf]

theorem foldl_set (opts : List Opt) :
    opts.foldl Settings.set ({} : Settings fl) = Settings.ofOptions fl opts := by
  induction opts using List.reverseRecOn with
  | nil => rfl
  | append_singleton opts opt ih =>
      rw [List.foldl_append, List.foldl_cons, List.foldl_nil, ih, set_ofOptions]

end Last

/-- **The command line.**  `main` goes on exactly with a sequence of options whose
values pass, and every variable then has the last value it was given; it returns
exactly where such a sequence is followed by an option without its value, a value that
does not pass, an unknown argument or `--help`, and with the error for that. -/
theorem parseArgs_iff (fl : Floats) (patched : Bool) (argv : List (List Char)) :
    (∀ s, parseArgs patched ({} : Settings fl) argv = .ok s ↔
      ∃ opts : List Opt, argv = opts.flatMap Opt.words ∧
        (∀ opt ∈ opts, opt.Accepted fl patched) ∧
        s = Settings.ofOptions fl opts) ∧
    ∀ e, parseArgs patched ({} : Settings fl) argv = .error e ↔
      ∃ (opts : List Opt) (rest : List (List Char)),
        argv = opts.flatMap Opt.words ++ rest ∧
        (∀ opt ∈ opts, opt.Accepted fl patched) ∧ StopsAt fl patched e rest := by
  have hRun : ∀ (opts : List Opt) (rest : List (List Char)),
      (∀ opt ∈ opts, opt.Accepted fl patched) →
      parseArgs patched ({} : Settings fl) (opts.flatMap Opt.words ++ rest) =
        parseArgs patched (Settings.ofOptions fl opts) rest := by
    intro opts rest hOpts
    rw [parseArgs_flatMap _ hOpts, foldl_set]
  constructor
  · intro s
    constructor
    · intro hParse
      obtain ⟨opts, rest, rfl, hOpts, hEnd⟩ := exists_options fl patched argv
      rw [hRun opts rest hOpts] at hParse
      rcases hEnd with rfl | ⟨e, hStop⟩
      · refine ⟨opts, List.append_nil _, hOpts, ?_⟩
        exact (Except.ok.inj hParse).symm
      · rw [parseArgs_stop _ hStop] at hParse
        cases hParse
    · rintro ⟨opts, rfl, hOpts, rfl⟩
      have hParse := hRun opts [] hOpts
      rw [List.append_nil] at hParse
      exact hParse
  · intro e
    constructor
    · intro hParse
      obtain ⟨opts, rest, rfl, hOpts, hEnd⟩ := exists_options fl patched argv
      rw [hRun opts rest hOpts] at hParse
      rcases hEnd with rfl | ⟨e', hStop⟩
      · cases hParse
      · rw [parseArgs_stop _ hStop] at hParse
        obtain rfl := Except.error.inj hParse
        exact ⟨opts, rest, rfl, hOpts, hStop⟩
    · rintro ⟨opts, rest, rfl, hOpts, hStop⟩
      rw [hRun opts rest hOpts, parseArgs_stop _ hStop]

end MioBench.Bench
