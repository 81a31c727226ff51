import Mathlib.Algebra.BigOperators.Group.List.Basic
import Mathlib.Data.List.Basic
import Mathlib.Data.Nat.ModEq
import MioBench.Lib.Stores

/-!
# The timed loop of a benchmark thread

Every bandwidth test of `benchmark.cpp` runs the same kind of loop in each
thread: it loads or stores vectors of 32 bytes, adds to `local_bytes`, and from
time to time passes `local_bytes` on to the shared progress counter.  A run is
kept as what can be observed of it: the accesses in program order and the
arguments of the `add_bytes` calls.  The data loaded is only summed up to keep
the compiler from removing the loads, and is not part of the model.
-/

namespace MioBench.Bench

open MioBench.Lib

/-- One access of a timed loop.  `nonTemporal` tells the streaming instruction
from the cached one, and `stored` is `none` for a load.  A streaming access at an
address that is no multiple of 32 faults; here it counts as any other, and
`BypassAlignment` says where there are none. -/
structure Access where
  addr : Nat
  bytes : Nat
  nonTemporal : Bool
  stored : Option (List (BitVec 32))
deriving Repr, DecidableEq

namespace Access

/-- The two accesses have no byte in common. -/
def Apart (a b : Access) : Prop :=
  a.addr + a.bytes ≤ b.addr ∨ b.addr + b.bytes ≤ a.addr

/-- What the access stores, an `int32_t` after the other. -/
def stores (a : Access) : List Store :=
  match a.stored with
  | none => []
  | some lanes =>
      [{ addr := a.addr, bytes := leWords 4 (lanes.map BitVec.toNat) }]

/-- The lanes of a store fill it. -/
def Filled (a : Access) : Prop :=
  ∀ lanes, a.stored = some lanes → 4 * lanes.length = a.bytes

theorem mem_stores {a : Access} {s : Store} :
    s ∈ a.stores ↔ ∃ lanes, a.stored = some lanes ∧
      s = { addr := a.addr, bytes := leWords 4 (lanes.map BitVec.toNat) } := by
  unfold stores
  cases a.stored with
  | none => simp
  | some lanes => simp

/-- Accesses apart from one another store apart from one another. -/
theorem pairwise_stores {accesses : List Access}
    (hApart : accesses.Pairwise Apart) (hFilled : ∀ a ∈ accesses, a.Filled) :
    (accesses.flatMap stores).Pairwise Store.Apart := by
  rw [List.pairwise_flatMap]
  refine ⟨fun a _ => ?_, hApart.imp_of_mem fun ha hb hab s hs s' hs' => ?_⟩
  · unfold stores
    cases a.stored with
    | none => simp
    | some lanes => simp
  · obtain ⟨lanes, hStored, rfl⟩ := mem_stores.mp hs
    obtain ⟨lanes', hStored', rfl⟩ := mem_stores.mp hs'
    have hFull := hFilled _ ha lanes hStored
    have hFull' := hFilled _ hb lanes' hStored'
    unfold Apart at hab
    unfold Store.Apart
    simp only [length_leWords, List.length_map]
    omega

end Access

/-- `_mm256_set1_epi32`: the eight lanes of a vector with one value. -/
def set1 (value : Nat) : List (BitVec 32) :=
  List.replicate 8 (BitVec.ofNat 32 value)

/-- Number of blocks between two progress updates (`UPDATE_INTERVAL`). -/
def updateInterval : Nat := 1000

/-- A timed loop under way. -/
structure ThreadLoop where
  accesses : List Access
  local_bytes : Nat
  added : List Nat
deriving Repr, DecidableEq

namespace ThreadLoop

def start : ThreadLoop := { accesses := [], local_bytes := 0, added := [] }

/-- `progress.add_bytes(local_bytes); local_bytes = 0;` -/
def flush (s : ThreadLoop) : ThreadLoop :=
  { s with added := s.added ++ [s.local_bytes], local_bytes := 0 }

/-- One round of the loop: the accesses, `local_bytes += bytes`, and the
progress update when the number of rounds is a multiple of the interval. -/
def round (bytes : Nat) (s : ThreadLoop) (accs : List Access) (k : Nat) :
    ThreadLoop :=
  let s := { s with
    accesses := s.accesses ++ accs
    local_bytes := (s.local_bytes + bytes) % 2 ^ 64 }
  if (k + 1) % 2 ^ 64 % updateInterval = 0 then s.flush else s

/-- All bytes counted so far, passed on or not. -/
def counted (s : ThreadLoop) : Nat := s.added.sum + s.local_bytes

@[simp] theorem flush_accesses (s : ThreadLoop) :
    s.flush.accesses = s.accesses := rfl

@[simp] theorem flush_counted (s : ThreadLoop) :
    s.flush.counted = s.counted := by
  simp [flush, counted]

@[simp] theorem round_accesses (bytes : Nat) (s : ThreadLoop)
    (accs : List Access) (k : Nat) :
    (s.round bytes accs k).accesses = s.accesses ++ accs := by
  unfold round
  split <;> rfl

theorem round_counted (bytes : Nat) (s : ThreadLoop) (accs : List Access)
    (k : Nat) :
    (s.round bytes accs k).counted % 2 ^ 64 =
      (s.counted + bytes) % 2 ^ 64 := by
  have hLocal : (s.added.sum + (s.local_bytes + bytes) % 2 ^ 64) % 2 ^ 64 =
      (s.counted + bytes) % 2 ^ 64 := by
    unfold counted
    omega
  unfold round
  split
  · rw [flush_counted]
    exact hLocal
  · exact hLocal

end ThreadLoop

/-- The rounds of a timed loop, `bytes` being added to `local_bytes` in each,
and the final `add_bytes`. -/
def timedLoop (bytes : Nat) (rounds : List (List Access)) : ThreadLoop :=
  (rounds.zipIdx.foldl (fun s r => s.round bytes r.1 r.2)
    ThreadLoop.start).flush

theorem foldl_round (bytes : Nat) (rounds : List (List Access)) (k : Nat)
    (s : ThreadLoop) :
    ((rounds.zipIdx k).foldl (fun s r => s.round bytes r.1 r.2) s).accesses =
        s.accesses ++ rounds.flatten ∧
      ((rounds.zipIdx k).foldl
          (fun s r => s.round bytes r.1 r.2) s).counted % 2 ^ 64 =
        (s.counted + rounds.length * bytes) % 2 ^ 64 := by
  induction rounds generalizing k s with
  | nil => simp
  | cons accs rounds ih =>
      have hTail := ih (k + 1) (s.round bytes accs k)
      have hHead := s.round_counted bytes accs k
      rw [List.zipIdx_cons, List.foldl_cons, List.flatten_cons,
        List.length_cons, Nat.succ_mul]
      refine ⟨?_, ?_⟩
      · rw [hTail.1, ThreadLoop.round_accesses, List.append_assoc]
      · rw [hTail.2]
        omega

/-- The loop makes the accesses of its rounds, in order. -/
theorem timedLoop_accesses (bytes : Nat) (rounds : List (List Access)) :
    (timedLoop bytes rounds).accesses = rounds.flatten := by
  have hLoop := (foldl_round bytes rounds 0 ThreadLoop.start).1
  simpa [timedLoop, ThreadLoop.start] using hLoop

/-- Whatever the update interval, the `add_bytes` calls pass on `bytes` for
every round. -/
theorem timedLoop_added (bytes : Nat) (rounds : List (List Access)) :
    (timedLoop bytes rounds).added.sum % 2 ^ 64 =
      rounds.length * bytes % 2 ^ 64 := by
  have hLoop := (foldl_round bytes rounds 0 ThreadLoop.start).2
  rw [← ThreadLoop.flush_counted] at hLoop
  simpa [timedLoop, ThreadLoop.counted, ThreadLoop.flush, ThreadLoop.start]
    using hLoop

/-! ## A measurement -/

/-- A test after all its threads have been joined: their loops, and the `size`
that is divided by the elapsed time for `bandwidth_gbps`. -/
structure Measurement where
  threads : List ThreadLoop
  size : Nat
deriving Repr, DecidableEq

/-- The atomic counter of `ProgressMonitor` after `add_bytes` calls in the
given order. -/
def bytesProcessed (calls : List Nat) : Nat :=
  calls.foldl (fun counter bytes => (counter + bytes) % 2 ^ 64) 0

theorem bytesProcessed_eq (calls : List Nat) :
    bytesProcessed calls = calls.sum % 2 ^ 64 := by
  have hFold : ∀ (l : List Nat) (c : Nat), c < 2 ^ 64 →
      l.foldl (fun counter bytes => (counter + bytes) % 2 ^ 64) c =
        (c + l.sum) % 2 ^ 64 := by
    intro l
    induction l with
    | nil =>
        intro c hc
        simpa using (Nat.mod_eq_of_lt hc).symm
    | cons b l ih =>
        intro c _
        rw [List.foldl_cons, ih _ (Nat.mod_lt _ (by decide)), List.sum_cons]
        omega
  simpa [bytesProcessed] using hFold calls 0 (by decide)

namespace Measurement

/-- The bytes really loaded or stored, over all threads. -/
def bytesMoved (m : Measurement) : Nat :=
  (m.threads.map fun s => (s.accesses.map Access.bytes).sum).sum

/-- `counter` is the progress counter's final value for some order in which the
threads' `add_bytes` calls took effect. -/
def FinalCounter (m : Measurement) (counter : Nat) : Prop :=
  ∃ calls, calls.Perm (m.threads.flatMap ThreadLoop.added) ∧
    counter = bytesProcessed calls

/-- All accesses of all threads. -/
def accesses (m : Measurement) : List Access :=
  m.threads.flatMap ThreadLoop.accesses

/-- `after` is the memory at the end for some order in which the bytes stored
by the threads took effect. -/
def FinalMemory (m : Measurement) (before after : Memory) : Prop :=
  ∃ order, order.Perm ((m.accesses.flatMap Access.stores).flatMap Store.cells) ∧
    after = before.run order

section FinalMemory

variable {m : Measurement} {before after : Memory}

/-- A store apart from all others is read back lane by lane. -/
theorem FinalMemory.stored (h : m.FinalMemory before after)
    (hApart : m.accesses.Pairwise Access.Apart)
    (hFilled : ∀ a ∈ m.accesses, a.Filled) {a : Access} (ha : a ∈ m.accesses)
    {lanes : List (BitVec 32)} (hStored : a.stored = some lanes) {l : Nat}
    (hl : l < lanes.length) :
    leValue (after.read (a.addr + 4 * l) 4) = (lanes.getD l 0).toNat := by
  obtain ⟨order, hOrder, rfl⟩ := h
  have hMine : { addr := a.addr, bytes := leWords 4 (lanes.map BitVec.toNat) } ∈
      m.accesses.flatMap Access.stores :=
    List.mem_flatMap.mpr ⟨a, ha, Access.mem_stores.mpr ⟨lanes, hStored, rfl⟩⟩
  have hLane : (lanes.map BitVec.toNat).getD l 0 = (lanes.getD l 0).toNat := by
    rw [← BitVec.toNat_zero (w := 32), List.getD_map]
    rfl
  rw [@leValue_of_leWords _ 4 a.addr l (lanes.map BitVec.toNat) ?_
    (by simpa using hl) ?_, hLane]
  · intro i hi
    exact run_stored before (Access.pairwise_stores hApart hFilled) hOrder
      hMine (by simpa using hi)
  · rw [hLane]
    exact (lanes.getD l 0).isLt

/-- A byte outside all accesses keeps its value. -/
theorem FinalMemory.unstored (h : m.FinalMemory before after)
    (hFilled : ∀ a ∈ m.accesses, a.Filled) {x : Nat}
    (hOut : ∀ a ∈ m.accesses, x < a.addr ∨ a.addr + a.bytes ≤ x) :
    after x = before x := by
  obtain ⟨order, hOrder, rfl⟩ := h
  refine run_unstored before hOrder fun s hs => ?_
  obtain ⟨a, ha, hStore⟩ := List.mem_flatMap.mp hs
  obtain ⟨lanes, hStored, rfl⟩ := Access.mem_stores.mp hStore
  have hFull := hFilled a ha lanes hStored
  have hAway := hOut a ha
  simp only [length_leWords, List.length_map]
  omega

end FinalMemory

/-- The order of the calls does not matter. -/
theorem finalCounter_iff (m : Measurement) (counter : Nat) :
    m.FinalCounter counter ↔
      counter = (m.threads.map fun s => s.added.sum).sum % 2 ^ 64 := by
  have hSum : (m.threads.flatMap ThreadLoop.added).sum =
      (m.threads.map fun s => s.added.sum).sum := by
    rw [List.flatMap_def, List.sum_flatten, List.map_map]
    rfl
  constructor
  · intro hFinal
    rcases hFinal with ⟨calls, hPerm, hCounter⟩
    rw [hCounter, bytesProcessed_eq, hPerm.sum_eq, hSum]
  · intro hCounter
    exact ⟨_, List.Perm.refl _, by rw [hCounter, bytesProcessed_eq, hSum]⟩

end Measurement

/-- The loops of the threads `0 .. num_threads - 1`, each on its slice of
`size / num_threads` bytes. -/
def onSlices (data size num_threads : Nat)
    (loop : (t thread_data per_thread_size : Nat) → ThreadLoop) :
    Measurement :=
  let per_thread_size := size / num_threads
  { threads := (List.range num_threads).map fun t =>
      loop t (data + t * per_thread_size) per_thread_size
    size := size }

/-- Threads that stay inside their slices, and whose own accesses are apart,
make accesses that are apart. -/
theorem pairwise_onSlices (data size num_threads : Nat)
    {loop : Nat → Nat → Nat → ThreadLoop}
    (hApart : ∀ t, t < num_threads →
      (loop t (data + t * (size / num_threads))
        (size / num_threads)).accesses.Pairwise Access.Apart)
    (hInside : ∀ t, t < num_threads →
      ∀ a ∈ (loop t (data + t * (size / num_threads))
          (size / num_threads)).accesses,
        data + t * (size / num_threads) ≤ a.addr ∧
          a.addr + a.bytes ≤ data + (t + 1) * (size / num_threads)) :
    (onSlices data size num_threads loop).accesses.Pairwise Access.Apart := by
  rw [Measurement.accesses, onSlices, List.flatMap_map, List.pairwise_flatMap]
  refine ⟨fun t ht => hApart t (List.mem_range.mp ht), ?_⟩
  refine List.pairwise_lt_range.imp_of_mem
    fun {t u} ht hu hLt a ha b hb => Or.inl ?_
  have hLow := (hInside t (List.mem_range.mp ht) a ha).2
  have hHigh := (hInside u (List.mem_range.mp hu) b hb).1
  have hNext : (t + 1) * (size / num_threads) ≤ u * (size / num_threads) :=
    Nat.mul_le_mul_right _ hLt
  omega

theorem threads_onSlices (data size : Nat) {num_threads t : Nat}
    (loop : Nat → Nat → Nat → ThreadLoop) (ht : t < num_threads) :
    (onSlices data size num_threads loop).threads[t]? =
      some (loop t (data + t * (size / num_threads)) (size / num_threads)) := by
  simp [onSlices, ht]

theorem mem_accesses_onSlices {data size num_threads : Nat}
    {loop : Nat → Nat → Nat → ThreadLoop} {a : Access} :
    a ∈ (onSlices data size num_threads loop).accesses ↔
      ∃ t, t < num_threads ∧ a ∈ (loop t (data + t * (size / num_threads))
        (size / num_threads)).accesses := by
  simp [Measurement.accesses, onSlices]

/-- Threads that each move `moved` bytes move `num_threads` times as many. -/
theorem bytesMoved_onSlices (data size num_threads : Nat) {moved : Nat}
    {loop : Nat → Nat → Nat → ThreadLoop}
    (hLoop : ∀ t thread_data,
      ((loop t thread_data (size / num_threads)).accesses.map
        Access.bytes).sum = moved) :
    (onSlices data size num_threads loop).bytesMoved = num_threads * moved := by
  have hEach : ∀ t, ((loop t (data + t * (size / num_threads))
      (size / num_threads)).accesses.map Access.bytes).sum = moved :=
    fun t => hLoop t _
  simp [onSlices, Measurement.bytesMoved, Function.comp_def, hEach]

/-- Threads that each count `counted` bytes leave `num_threads` times as many
in the progress counter. -/
theorem finalCounter_onSlices (data size num_threads : Nat) {counted : Nat}
    {loop : Nat → Nat → Nat → ThreadLoop}
    (hLoop : ∀ t thread_data,
      (loop t thread_data (size / num_threads)).added.sum % 2 ^ 64 =
        counted % 2 ^ 64) (counter : Nat) :
    (onSlices data size num_threads loop).FinalCounter counter ↔
      counter = num_threads * counted % 2 ^ 64 := by
  have hSum : ∀ l : List Nat,
      ((l.map fun t => (loop t (data + t * (size / num_threads))
        (size / num_threads)).added.sum).sum) % 2 ^ 64 =
        l.length * counted % 2 ^ 64 := by
    intro l
    induction l with
    | nil => simp
    | cons t l ih =>
        have hHead := hLoop t (data + t * (size / num_threads))
        rw [List.map_cons, List.sum_cons, List.length_cons, Nat.succ_mul]
        omega
  rw [Measurement.finalCounter_iff]
  have hRange := hSum (List.range num_threads)
  rw [List.length_range] at hRange
  simp only [onSlices, List.map_map, Function.comp_def, hRange]

end MioBench.Bench
