import MioBench.Lib.Hex

/-!
# Putting the prefetcher setting back

With `--prefetch`, `main` saves MSR 0x1A4 of CPU 0 as the text `rdmsr` prints,
writes the new setting to every CPU with `wrmsr -a`, and on its way out writes
the saved text to every CPU.  What the tools and the other calls on the way do
is given from outside.  Between any two calls a signal can come, with a handler
or without, and a C++ exception that nothing catches, such as that of a test
which cannot have its threads.
-/

namespace MioBench.Bench

open MioBench.Lib

/-- One run of `wrmsr -a`: it stops where it fails. -/
structure WrmsrRun (cpus : Nat) where
  ok : Bool
  wrote : Nat → Bool
  complete : ok = true → ∀ cpu, cpu < cpus → wrote cpu = true

/-- `--prefetch`. -/
inductive PrefetchOption
  | unset
  | on
  | off
  deriving DecidableEq, Repr

/-- The options that decide the way of `main`; it rejects `--devdax` together
with `--membind`, and neither. -/
structure HostOptions where
  prefetch_option : PrefetchOption
  devdax : Bool
  membind_node : Int
  use_hugepage : Bool
  exclusive : devdax = true ↔ membind_node < 0

/-- Where something can come between two calls of `main`.  The tests follow
`opened`. -/
inductive Point
  | saved
  | set
  | checked
  | allocated
  | opened
  deriving DecidableEq, Repr

/-- What can come there. -/
inductive Event
  /-- A signal that `signal_handler` handles: SIGINT, SIGTERM, SIGSEGV, SIGBUS. -/
  | signal (signum : Nat)
  /-- A signal without a handler that ends the process. -/
  | killed (signum : Nat)
  /-- A C++ exception: no thread or no memory for a test. -/
  | exception
  deriving DecidableEq, Repr

def Event.handled : Event → Bool
  | signal _ => true
  | killed _ | exception => false

/-- What the calls of `main` return, and what comes between them. -/
structure Calls (cpus : Nat) where
  /-- Whether `rdmsr` prints a line. -/
  rdmsr : Bool
  set : WrmsrRun cpus
  restore : WrmsrRun cpus
  numa_available : Int
  numa_max_node : Int
  devdax_fd : Int
  mmap : Bool
  numa_alloc_onnode : Bool
  posix_memalign : Bool
  fopen : Bool
  event : Point → Option Event

/-- MSR 0x1A4 of every CPU, and the variables of `hw_prefetcher.cpp`. -/
structure Host where
  msr : Nat → UInt64
  saved_prefetcher_state : List Char
  prefetcher_state_saved : Bool

/-- How the process ends. -/
inductive Exit
  | returned (code : Int)
  | signalled (signum : Nat)
  | killed (signum : Nat)
  | aborted
  deriving DecidableEq, Repr

structure Ended where
  exit : Exit
  host : Host

/-- Where the memory under test comes from. -/
inductive Region
  | devdax
  | hugepages
  | numa
  | heap
  deriving DecidableEq, Repr

/-! ## The tools -/

/-- The characters of `" \n\r\t"`. -/
def isBlank (c : Char) : Bool := c == ' ' || c == '\n' || c == '\r' || c == '\t'

/-- What `rdmsr` prints. -/
def rdmsrLine (value : UInt64) : List Char := toHex value.toNat ++ ['\n']

/-- The value argument of `wrmsr`, with its `0x`. -/
def wrmsrValue (text : List Char) : UInt64 := UInt64.ofNat (ofHexFrom 0 (text.drop 2))

/-- `wrmsr -a 0x1A4 text`. -/
def wrmsrAll {cpus : Nat} (run : WrmsrRun cpus) (text : List Char) (h : Host) :
    Host :=
  { h with msr := fun cpu => if run.wrote cpu then wrmsrValue text else h.msr cpu }

section Main

variable {cpus : Nat} (o : HostOptions) (c : Calls cpus) (h : Host)

/-- `save_prefetcher_state`; `none` is false. -/
def savePrefetcherState : Option Host :=
  if c.rdmsr then
    some { h with
      saved_prefetcher_state := (rdmsrLine (h.msr 0)).rdropWhile isBlank
      prefetcher_state_saved := true }
  else none

/-- `set_prefetcher_state`, up to its result. -/
def setPrefetcherState (enable : Bool) : Host :=
  wrmsrAll c.set (if enable then ['0', 'x', '0'] else ['0', 'x', 'f']) h

def restorePrefetcherState : Host :=
  if h.prefetcher_state_saved then
    wrmsrAll c.restore ('0' :: 'x' :: h.saved_prefetcher_state) h
  else h

/-- `restore_prefetcher_state(); return 1;` -/
def fail {α : Type} : Except Ended α :=
  .error { exit := .returned 1, host := restorePrefetcherState c h }

/-- What comes at a point: only `signal_handler` restores. -/
def interrupt (p : Point) : Except Ended Unit :=
  match c.event p with
  | none => .ok ()
  | some (.signal signum) =>
      .error { exit := .signalled signum, host := restorePrefetcherState c h }
  | some (.killed signum) => .error { exit := .killed signum, host := h }
  | some .exception => .error { exit := .aborted, host := h }

/-- The prefetch setup of `main`. -/
def setupPrefetcher : Except Ended Host :=
  match o.prefetch_option with
  | .unset => .ok h
  | option =>
      match savePrefetcherState c h with
      | none => .error { exit := .returned 1, host := h }
      | some h =>
          (interrupt c h .saved).bind fun _ =>
            let h := setPrefetcherState c h (decide (option = .on))
            (interrupt c h .set).bind fun _ =>
              if c.set.ok then .ok h
              else .error { exit := .returned 1, host := h }

/-- The checks of the NUMA node. -/
def validateNode : Except Ended Unit :=
  if 0 ≤ o.membind_node then
    if c.numa_available < 0 then fail c h
    else if c.numa_max_node < o.membind_node then fail c h
    else .ok ()
  else .ok ()

/-- The allocation paths. -/
def allocateMemory : Except Ended Region :=
  if o.devdax then
    if c.devdax_fd < 0 then fail c h
    else if c.mmap then .ok .devdax else fail c h
  else if 0 ≤ o.membind_node then
    if o.use_hugepage then
      if c.mmap then .ok .hugepages else fail c h
    else if c.numa_alloc_onnode then .ok .numa else fail c h
  else if c.posix_memalign then .ok .heap else fail c h

/-- `free(data)`, which aborts on what `malloc` has not made. -/
def freeData (data : Region) : Except Ended Unit :=
  if data = .heap then .ok () else .error { exit := .aborted, host := h }

/-- The output file. -/
def openOutput (data : Region) : Except Ended Unit :=
  if c.fopen then .ok ()
  else if o.devdax then fail c h
  else (freeData h data).bind fun _ => fail c h

/-- The release of the memory after the tests. -/
def releaseMemory (data : Region) : Except Ended Unit :=
  if o.devdax then .ok ()
  else if 0 ≤ o.membind_node then .ok ()
  else freeData h data

/-- `main` from the NUMA checks on. -/
def runMain : Except Ended Ended :=
  (validateNode o c h).bind fun _ =>
  (interrupt c h .checked).bind fun _ =>
  (allocateMemory o c h).bind fun data =>
  (interrupt c h .allocated).bind fun _ =>
  (openOutput o c h data).bind fun _ =>
  (interrupt c h .opened).bind fun _ =>
  (releaseMemory o h data).bind fun _ =>
  .ok { exit := .returned 0, host := restorePrefetcherState c h }

/-- How a computation ends, early or not. -/
def Ended.of : Except Ended Ended → Ended
  | .ok e => e
  | .error e => e

/-- `main` from the prefetch setup on. -/
def mainFrom : Ended :=
  Ended.of ((setupPrefetcher o c h).bind fun h => runMain o c h)

end Main

/-- A process that has not saved anything. -/
def Host.start (msr : Nat → UInt64) : Host where
  msr := msr
  saved_prefetcher_state := []
  prefetcher_state_saved := false

/-- Every CPU ends with the value it began with. -/
def PutBack {cpus : Nat} (o : HostOptions) (c : Calls cpus)
    (msr : Nat → UInt64) : Prop :=
  ∀ cpu, cpu < cpus → (mainFrom o c (Host.start msr)).host.msr cpu = msr cpu

/-! ## The saved text -/

theorem hexValue_of_isBlank {char : Char} (hBlank : isBlank char = true) :
    hexValue char = none := by
  simp only [isBlank, Bool.or_eq_true, beq_iff_eq] at hBlank
  rcases hBlank with ((rfl | rfl) | rfl) | rfl
  · rfl
  · rfl
  · rfl
  · rfl

/-- The saved text is what was printed, less the line feed. -/
theorem rdropWhile_rdmsrLine (value : UInt64) :
    (rdmsrLine value).rdropWhile isBlank = toHex value.toNat :=
  rdropWhile_toHex (fun _ => hexValue_of_isBlank) rfl _

/-- Written back behind a `0x` it is the value that was read. -/
theorem wrmsrValue_toHex (value : UInt64) :
    wrmsrValue ('0' :: 'x' :: toHex value.toNat) = value := by
  have hRead := ofHexFrom_toHex value.toNat []
  rw [List.append_nil] at hRead
  show UInt64.ofNat (ofHexFrom 0 (toHex value.toNat)) = value
  rw [hRead]
  exact UInt64.ofNat_toNat

/-! ## Where `main` restores -/

section Restores

variable {cpus : Nat} (o : HostOptions) (c : Calls cpus)

/-- The checks of the NUMA node pass. -/
def FindsNode : Prop :=
  0 ≤ o.membind_node →
    0 ≤ c.numa_available ∧ o.membind_node ≤ c.numa_max_node

/-- The memory under test is there. -/
def Allocates : Prop :=
  if o.devdax then 0 ≤ c.devdax_fd ∧ c.mmap = true
  else (if o.use_hugepage then c.mmap else c.numa_alloc_onnode) = true

/-- What comes at a point is handled, or nothing comes and `rest` holds. -/
def Survives (p : Point) (rest : Prop) : Prop :=
  match c.event p with
  | none => rest
  | some e => e.handled = true

/-- `main` restores once `set_prefetcher_state` has succeeded: without an output
file only when the memory is from devdax, since it frees the other kinds with
`free`. -/
def RestoresFromSet : Prop :=
  FindsNode o c → Survives c .checked (Allocates o c → Survives c .allocated
    (if c.fopen then Survives c .opened True else o.devdax = true))

/-- `main` writes the saved text before it ends. -/
def Restores : Prop :=
  Survives c .saved (Survives c .set (c.set.ok = true ∧ RestoresFromSet o c))

/-- The value `--prefetch` asks for. -/
def setting : UInt64 := if o.prefetch_option = .on then 0 else 15

/-- The saved text reaches this CPU. -/
def RestoresCpu (cpu : Nat) : Prop := Restores o c ∧ c.restore.wrote cpu = true

/-- The setting reaches this CPU. -/
def SetsCpu (cpu : Nat) : Prop :=
  c.event .saved = none ∧ c.set.wrote cpu = true

end Restores

/-- A run ends after a restore exactly when `R` holds, and leaves everything
else as it is. -/
structure EndsWith {cpus : Nat} (c : Calls cpus) (h : Host) (R : Prop)
    (x : Except Ended Ended) : Prop where
  restored : R → (Ended.of x).host = restorePrefetcherState c h
  left : ¬ R → (Ended.of x).host = h

section Ends

variable {cpus : Nat} {o : HostOptions} {c : Calls cpus} {h : Host}

theorem endsWith_fail {R : Prop} (hR : R) : EndsWith c h R (fail c h) where
  restored := fun _ => rfl
  left := fun hNot => absurd hR hNot

/-- An end without a restore. -/
theorem endsWith_error {R : Prop} {exit : Exit} (hR : ¬ R) :
    EndsWith c h R (.error { exit := exit, host := h }) where
  restored := fun hYes => absurd hYes hR
  left := fun _ => rfl

theorem EndsWith.congr {R R' : Prop} {x : Except Ended Ended}
    (hEnds : EndsWith c h R x) (hR : R' ↔ R) : EndsWith c h R' x where
  restored := fun hYes => hEnds.restored (hR.mp hYes)
  left := fun hNot => hEnds.left fun hYes => hNot (hR.mpr hYes)

theorem interrupt_endsWith (p : Point) {R : Prop} {f : Unit → Except Ended Ended}
    (hRest : EndsWith c h R (f ())) :
    EndsWith c h (Survives c p R) ((interrupt c h p).bind f) := by
  unfold interrupt Survives
  cases c.event p with
  | none => exact hRest
  | some e =>
      cases e with
      | signal signum => exact ⟨fun _ => rfl, fun hNot => absurd rfl hNot⟩
      | killed signum => exact endsWith_error Bool.false_ne_true
      | exception => exact endsWith_error Bool.false_ne_true

theorem validateNode_endsWith {R : Prop} {f : Unit → Except Ended Ended}
    (hRest : EndsWith c h R (f ())) :
    EndsWith c h (FindsNode o c → R) ((validateNode o c h).bind f) := by
  unfold validateNode
  by_cases hNode : 0 ≤ o.membind_node
  · rw [if_pos hNode]
    by_cases hAvailable : c.numa_available < 0
    · rw [if_pos hAvailable]
      exact endsWith_fail fun hFinds => absurd (hFinds hNode).1 (by omega)
    · rw [if_neg hAvailable]
      by_cases hMax : c.numa_max_node < o.membind_node
      · rw [if_pos hMax]
        exact endsWith_fail fun hFinds => absurd (hFinds hNode).2 (by omega)
      · rw [if_neg hMax]
        refine EndsWith.congr hRest ⟨fun hR => hR fun _ => ?_, fun hR _ => hR⟩
        omega
  · rw [if_neg hNode]
    exact EndsWith.congr hRest
      ⟨fun hR => hR fun hYes => absurd hYes hNode, fun hR _ => hR⟩

theorem HostOptions.membind_of_not_devdax (hDevdax : o.devdax = false) :
    0 ≤ o.membind_node := by
  by_contra hNegative
  have hBoth := o.exclusive.mpr (by omega)
  rw [hDevdax] at hBoth
  cases hBoth

/-- Either the memory is there, and not from `malloc`, or `main` fails. -/
theorem allocateMemory_eq :
    (Allocates o c ∧ ∃ data, data ≠ .heap ∧ allocateMemory o c h = .ok data) ∨
      (¬ Allocates o c ∧ allocateMemory o c h = fail c h) := by
  unfold Allocates allocateMemory
  cases hDevdax : o.devdax with
  | true =>
      simp only [if_true]
      by_cases hOpen : c.devdax_fd < 0
      · exact Or.inr ⟨fun hYes => absurd hYes.1 (by omega), if_pos hOpen⟩
      · rw [if_neg hOpen]
        cases c.mmap with
        | true => exact Or.inl ⟨⟨by omega, rfl⟩, .devdax, by decide, rfl⟩
        | false => exact Or.inr ⟨fun hYes => absurd hYes.2 (by decide), rfl⟩
  | false =>
      rw [if_pos (HostOptions.membind_of_not_devdax hDevdax)]
      simp only [Bool.false_eq_true, if_false]
      cases o.use_hugepage with
      | true =>
          cases c.mmap with
          | true => exact Or.inl ⟨rfl, .hugepages, by decide, rfl⟩
          | false => exact Or.inr ⟨by simp, rfl⟩
      | false =>
          cases c.numa_alloc_onnode with
          | true => exact Or.inl ⟨rfl, .numa, by decide, rfl⟩
          | false => exact Or.inr ⟨by simp, rfl⟩

theorem allocateMemory_endsWith {R : Prop} {f : Region → Except Ended Ended}
    (hRest : ∀ data, data ≠ .heap → EndsWith c h R (f data)) :
    EndsWith c h (Allocates o c → R) ((allocateMemory o c h).bind f) := by
  rcases @allocateMemory_eq cpus o c h with ⟨hMade, data, hData, hEq⟩ | ⟨hNot, hEq⟩
  · rw [hEq]
    exact EndsWith.congr (hRest data hData) ⟨fun hR => hR hMade, fun hR _ => hR⟩
  · rw [hEq]
    exact endsWith_fail fun hMade => absurd hMade hNot

theorem openOutput_endsWith {R : Prop} {f : Unit → Except Ended Ended}
    {data : Region} (hData : data ≠ .heap) (hRest : EndsWith c h R (f ())) :
    EndsWith c h (if c.fopen then R else o.devdax = true)
      ((openOutput o c h data).bind f) := by
  unfold openOutput
  cases c.fopen with
  | true => exact hRest
  | false =>
      cases o.devdax with
      | true => exact endsWith_fail rfl
      | false =>
          simp only [Bool.false_eq_true, if_false, freeData, if_neg hData]
          exact endsWith_error (by simp)

theorem releaseMemory_ok (data : Region) : releaseMemory o h data = .ok () := by
  unfold releaseMemory
  split
  · rfl
  · rename_i hDevdax
    exact if_pos (HostOptions.membind_of_not_devdax (by simpa using hDevdax))

theorem runMain_endsWith : EndsWith c h (RestoresFromSet o c) (runMain o c h) := by
  refine validateNode_endsWith (interrupt_endsWith .checked ?_)
  refine allocateMemory_endsWith fun data hData => interrupt_endsWith .allocated ?_
  refine openOutput_endsWith hData (interrupt_endsWith .opened ?_)
  rw [releaseMemory_ok]
  exact ⟨fun _ => rfl, fun hNot => absurd trivial hNot⟩

end Ends

/-! ## When the setting is put back -/

/-- The variables once the value of CPU 0 is saved. -/
def Host.saved (msr : Nat → UInt64) : Host where
  msr := msr
  saved_prefetcher_state := toHex (msr 0).toNat
  prefetcher_state_saved := true

section Final

variable {cpus : Nat} {o : HostOptions} {c : Calls cpus} {msr : Nat → UInt64}

theorem savePrefetcherState_start (hSaved : c.rdmsr = true) :
    savePrefetcherState c (Host.start msr) = some (Host.saved msr) := by
  unfold savePrefetcherState
  rw [if_pos hSaved]
  show some { Host.start msr with
    saved_prefetcher_state := (rdmsrLine (msr 0)).rdropWhile isBlank
    prefetcher_state_saved := true } = _
  rw [rdropWhile_rdmsrLine]
  rfl

/-- A restore writes back what CPU 0 held, whatever has happened since. -/
theorem restore_msr (msr' : Nat → UInt64) (cpu : Nat) :
    (restorePrefetcherState c { Host.saved msr with msr := msr' }).msr cpu =
      if c.restore.wrote cpu then msr 0 else msr' cpu := by
  show (if c.restore.wrote cpu then
    wrmsrValue ('0' :: 'x' :: toHex (msr 0).toNat) else msr' cpu) = _
  rw [wrmsrValue_toHex]

/-- What the setting leaves behind. -/
def setMsr (o : HostOptions) (c : Calls cpus) (msr : Nat → UInt64)
    (cpu : Nat) : UInt64 :=
  if c.set.wrote cpu then setting o else msr cpu

theorem setPrefetcherState_saved :
    setPrefetcherState c (Host.saved msr) (decide (o.prefetch_option = .on)) =
      { Host.saved msr with msr := setMsr o c msr } := by
  have hText : wrmsrValue (if decide (o.prefetch_option = .on) then
      ['0', 'x', '0'] else ['0', 'x', 'f']) = setting o := by
    unfold setting
    by_cases hOn : o.prefetch_option = .on
    · rw [if_pos hOn, if_pos (decide_eq_true hOn)]
      rfl
    · rw [if_neg hOn, if_neg (by simpa using hOn)]
      rfl
  unfold setPrefetcherState wrmsrAll
  rw [hText]
  rfl

theorem setupPrefetcher_start (hOption : o.prefetch_option ≠ .unset)
    (hSaved : c.rdmsr = true) :
    setupPrefetcher o c (Host.start msr) =
      (interrupt c (Host.saved msr) .saved).bind fun _ =>
        (interrupt c { Host.saved msr with msr := setMsr o c msr } .set).bind
          fun _ =>
            if c.set.ok then .ok { Host.saved msr with msr := setMsr o c msr }
            else .error
              { exit := .returned 1
                host := { Host.saved msr with msr := setMsr o c msr } } := by
  unfold setupPrefetcher
  split
  · rename_i hUnset
    exact absurd hUnset hOption
  · rw [savePrefetcherState_start hSaved]
    simp only [setPrefetcherState_saved]

/-- From the setting on. -/
theorem set_endsWith {h : Host} :
    EndsWith c h (Survives c .set (c.set.ok = true ∧ RestoresFromSet o c))
      ((interrupt c h .set).bind fun _ =>
        (if c.set.ok then .ok h else .error { exit := .returned 1, host := h } :
          Except Ended Host).bind fun h => runMain o c h) := by
  apply interrupt_endsWith
  cases hSet : c.set.ok with
  | true => exact EndsWith.congr runMain_endsWith ⟨And.right, fun hR => ⟨rfl, hR⟩⟩
  | false => exact endsWith_error fun hBoth => absurd hBoth.1 (by decide)

theorem mainFrom_eq (hOption : o.prefetch_option ≠ .unset)
    (hSaved : c.rdmsr = true) :
    mainFrom o c (Host.start msr) =
      Ended.of ((interrupt c (Host.saved msr) .saved).bind fun _ =>
        (interrupt c { Host.saved msr with msr := setMsr o c msr } .set).bind
          fun _ =>
            (if c.set.ok then .ok { Host.saved msr with msr := setMsr o c msr }
              else .error
                { exit := .returned 1
                  host := { Host.saved msr with msr := setMsr o c msr } } :
              Except Ended Host).bind fun h => runMain o c h) := by
  rw [mainFrom, setupPrefetcher_start hOption hSaved]
  cases interrupt c (Host.saved msr) .saved with
  | error e => rfl
  | ok a =>
      show Ended.of (Except.bind (Except.bind _ _) _) = Ended.of (Except.bind _ _)
      cases interrupt c { Host.saved msr with msr := setMsr o c msr } .set with
      | error e => rfl
      | ok a => rfl

/-- Where the saved text reaches a CPU it has the value of CPU 0, and elsewhere
what the setting has left. -/
theorem mainFrom_msr (hOption : o.prefetch_option ≠ .unset)
    (hSaved : c.rdmsr = true) (cpu : Nat) :
    (RestoresCpu o c cpu →
      (mainFrom o c (Host.start msr)).host.msr cpu = msr 0) ∧
    (¬ RestoresCpu o c cpu → SetsCpu c cpu →
      (mainFrom o c (Host.start msr)).host.msr cpu = setting o) ∧
    (¬ RestoresCpu o c cpu → ¬ SetsCpu c cpu →
      (mainFrom o c (Host.start msr)).host.msr cpu = msr cpu) := by
  -- The variables when `main` ends, but for a restore.
  have hEnds : ∃ msr', EndsWith c { Host.saved msr with msr := msr' }
      (Restores o c) (.ok (mainFrom o c (Host.start msr))) ∧
      (SetsCpu c cpu → msr' cpu = setting o) ∧
      (¬ SetsCpu c cpu → msr' cpu = msr cpu) := by
    rw [mainFrom_eq hOption hSaved]
    unfold Restores SetsCpu Survives interrupt
    cases c.event .saved with
    | none =>
        refine ⟨setMsr o c msr, ?_, fun hSets => if_pos hSets.2,
          fun hNot => if_neg fun hWrote => hNot ⟨rfl, hWrote⟩⟩
        exact ⟨set_endsWith.restored, set_endsWith.left⟩
    | some e =>
        refine ⟨msr, ?_, fun hSets => absurd hSets.1 (by simp), fun _ => rfl⟩
        cases e with
        | signal signum => exact ⟨fun _ => rfl, fun hNot => absurd rfl hNot⟩
        | killed signum =>
            exact ⟨fun hYes => absurd hYes Bool.false_ne_true, fun _ => rfl⟩
        | exception =>
            exact ⟨fun hYes => absurd hYes Bool.false_ne_true, fun _ => rfl⟩
  obtain ⟨msr', hRun, hSet, hKept⟩ := hEnds
  have hLeft : ¬ RestoresCpu o c cpu →
      (mainFrom o c (Host.start msr)).host.msr cpu = msr' cpu := by
    intro hNot
    by_cases hRestores : Restores o c
    · have hHost : (mainFrom o c (Host.start msr)).host = _ :=
        hRun.restored hRestores
      rw [hHost, restore_msr, if_neg fun hWrote => hNot ⟨hRestores, hWrote⟩]
    · have hHost : (mainFrom o c (Host.start msr)).host = _ := hRun.left hRestores
      rw [hHost]
  refine ⟨fun hReached => ?_, fun hNot hSets => (hLeft hNot).trans (hSet hSets),
    fun hNot hSets => (hLeft hNot).trans (hKept hSets)⟩
  have hHost : (mainFrom o c (Host.start msr)).host = _ := hRun.restored hReached.1
  rw [hHost, restore_msr, if_pos hReached.2]

/-- On a machine whose CPUs agree, a working restore puts the setting back. -/
theorem putBack_of_uniform (hOption : o.prefetch_option ≠ .unset)
    (hSaved : c.rdmsr = true) (hRestores : Restores o c)
    (hRestore : c.restore.ok = true)
    (hUniform : ∀ cpu, cpu < cpus → msr cpu = msr 0) : PutBack o c msr := by
  intro cpu hcpu
  have hReached : RestoresCpu o c cpu :=
    ⟨hRestores, c.restore.complete hRestore cpu hcpu⟩
  rw [(mainFrom_msr hOption hSaved cpu).1 hReached, hUniform cpu hcpu]

end Final

/-- When the setting is put back: every CPU that the restore reaches began with
the value of CPU 0, and every other one that the option reached began with what
the option asks for. -/
theorem prefetcher_putBack_iff {cpus : Nat} (o : HostOptions) (c : Calls cpus)
    (msr : Nat → UInt64) (hOption : o.prefetch_option ≠ .unset)
    (hSaved : c.rdmsr = true) :
    PutBack o c msr ↔ ∀ cpu, cpu < cpus →
      (RestoresCpu o c cpu → msr cpu = msr 0) ∧
      (¬ RestoresCpu o c cpu → SetsCpu c cpu → msr cpu = setting o) := by
  unfold PutBack
  refine forall_congr' fun cpu => forall_congr' fun _ => ?_
  obtain ⟨hRestored, hSet, hKept⟩ :=
    @mainFrom_msr cpus o c msr hOption hSaved cpu
  by_cases hRestores : RestoresCpu o c cpu
  · rw [hRestored hRestores]
    simp [hRestores, eq_comm]
  · by_cases hSets : SetsCpu c cpu
    · rw [hSet hRestores hSets]
      simp [hRestores, hSets, eq_comm]
    · rw [hKept hRestores hSets]
      simp [hRestores, hSets]

/-- A run in which every call works. -/
def Calls.working (cpus : Nat) : Calls cpus where
  rdmsr := true
  set := { ok := true, wrote := fun _ => true, complete := fun _ _ _ => rfl }
  restore := { ok := true, wrote := fun _ => true, complete := fun _ _ _ => rfl }
  numa_available := 0
  numa_max_node := 0
  devdax_fd := 3
  mmap := true
  numa_alloc_onnode := true
  posix_memalign := true
  fopen := true
  event := fun _ => none

/-- `--prefetch OFF --membind 0`. -/
def HostOptions.prefetchOff : HostOptions where
  prefetch_option := .off
  devdax := false
  membind_node := 0
  use_hugepage := false
  exclusive := by decide

/-- Two CPUs that agree. -/
theorem prefetcher_putBack_iff_two :
    PutBack HostOptions.prefetchOff (Calls.working 2) (fun _ => 0) ↔
      ∀ cpu, cpu < 2 →
        (RestoresCpu HostOptions.prefetchOff (Calls.working 2) cpu →
          (0 : UInt64) = 0) ∧
        (¬ RestoresCpu HostOptions.prefetchOff (Calls.working 2) cpu →
          SetsCpu (Calls.working 2) cpu →
          0 = setting HostOptions.prefetchOff) :=
  prefetcher_putBack_iff HostOptions.prefetchOff (Calls.working 2) (fun _ => 0)
    (by decide) rfl

/-- Two CPUs that agree, the second of which `wrmsr -a` cannot write: `main`
returns at once and leaves the first one changed. -/
theorem prefetcher_not_putBack :
    ¬ ∀ (cpus : Nat) (o : HostOptions) (c : Calls cpus) (msr : Nat → UInt64),
      0 < cpus → o.prefetch_option ≠ .unset → c.rdmsr = true →
      PutBack o c msr := by
  intro h
  have hBack := h 2 HostOptions.prefetchOff
    { Calls.working 2 with
      set := { ok := false, wrote := fun cpu => cpu == 0
               complete := fun hOk => by cases hOk } }
    (fun _ => 0) (by decide) (by decide) rfl 0 (by decide)
  exact absurd hBack (by decide)

end MioBench.Bench
