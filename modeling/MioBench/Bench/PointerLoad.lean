import MioBench.Bench.Access
import MioBench.Lib.ForLoop

/-!
# The load threads of the pointer chase test

`measurePointerChaseWithLoad` keeps the first 2 GiB of the region for the
chase and divides the rest between `num_load_threads` threads, which read or
write their slice over and over until the chase is done.  How many rounds a
thread makes is up to the scheduler, and is a parameter of the model.
-/

namespace MioBench.Bench

open MioBench.Lib

/-- `CHASE_SIZE_BYTES`. -/
def chaseSizeBytes : Nat := 2 * 1024 * 1024 * 1024

/-- The loop of a load thread under way. -/
structure LoadLoop where
  accesses : List Access
  bytes_accessed : Nat
  offset : Nat
deriving Repr, DecidableEq

namespace LoadLoop

def start : LoadLoop := { accesses := [], bytes_accessed := 0, offset := 0 }

/-- One round of the loop of thread `t`, up to the test of `stop_flag`. -/
def round (is_read : Bool) (t thread_data total_ints : Nat) (s : LoadLoop) :
    LoadLoop :=
  let access : Access :=
    { addr := thread_data + s.offset * 4
      bytes := 32
      nonTemporal := false
      stored := if is_read then none else some (set1 t) }
  { accesses := s.accesses ++ [access]
    bytes_accessed := (s.bytes_accessed + 32) % 2 ^ 64
    offset := wrapNext total_ints 8 s.offset }

/-- The access of round `i`: the cursor is back at the start of the slice
every `wrapPeriod` rounds. -/
def access (is_read : Bool) (t thread_data total_ints i : Nat) : Access :=
  { addr := thread_data + 32 * (i % wrapPeriod total_ints 8)
    bytes := 32
    nonTemporal := false
    stored := if is_read then none else some (set1 t) }

theorem iterate_round (is_read : Bool) (t thread_data total_ints k : Nat) :
    (round is_read t thread_data total_ints)^[k] start =
      { accesses := (List.range k).map (access is_read t thread_data total_ints)
        bytes_accessed := 32 * k % 2 ^ 64
        offset := (wrapNext total_ints 8)^[k] 0 } := by
  induction k with
  | zero => rfl
  | succ k ih =>
      have hCursor : (wrapNext total_ints 8)^[k] 0 * 4 =
          32 * (k % wrapPeriod total_ints 8) := by
        rw [iterate_wrapNext (by decide)]
        omega
      rw [Function.iterate_succ_apply', ih, round, List.range_succ,
        List.map_append, Function.iterate_succ_apply']
      simp only [hCursor, List.map_singleton, access]
      congr 1
      omega

end LoadLoop

/-- Thread `t` after the given number of rounds; `none` is the error return
for a region that is too small. -/
def loadThread (data size num_load_threads t rounds : Nat) : Option LoadLoop :=
  if size < chaseSizeBytes then none
  else
    let load_size := size - chaseSizeBytes
    let load_data := data + chaseSizeBytes
    let num_read_threads := num_load_threads / 2
    let is_read := decide (t < num_read_threads)
    let per_thread_size := load_size / num_load_threads
    let thread_data := load_data + t * per_thread_size
    let total_ints := per_thread_size / 4
    some ((LoadLoop.round is_read t thread_data total_ints)^[rounds]
      LoadLoop.start)

/-- `a` lies in the bytes `[t * per_thread_size, (t + 1) * per_thread_size)` of
the load region. -/
def InsideSlice (load_data per_thread_size t : Nat) (a : Access) : Prop :=
  load_data + t * per_thread_size ≤ a.addr ∧
    a.addr + a.bytes ≤ load_data + (t + 1) * per_thread_size

theorem loadThread_eq {size : Nat} (hSize : chaseSizeBytes ≤ size)
    (data num_load_threads t rounds : Nat) :
    loadThread data size num_load_threads t rounds =
      some ((LoadLoop.round (decide (t < num_load_threads / 2)) t
        (data + chaseSizeBytes +
          t * ((size - chaseSizeBytes) / num_load_threads))
        ((size - chaseSizeBytes) / num_load_threads / 4))^[rounds]
          LoadLoop.start) :=
  if_neg (not_lt.mpr hSize)

/-- An access is inside its slice when there is room for a vector at the
cursor. -/
theorem insideSlice_iff (load_data per_thread_size t i : Nat) (is_read : Bool) :
    InsideSlice load_data per_thread_size t
        (LoadLoop.access is_read t (load_data + t * per_thread_size)
          (per_thread_size / 4) i) ↔
      32 * (i % wrapPeriod (per_thread_size / 4) 8) + 32 ≤ per_thread_size := by
  have hNext : (t + 1) * per_thread_size =
      t * per_thread_size + per_thread_size := Nat.succ_mul _ _
  unfold InsideSlice LoadLoop.access
  rw [hNext]
  dsimp only
  omega

/-- A load thread stays inside its slice when there is room at the cursor in
each of its rounds. -/
theorem loadThread_inside_iff_room {size : Nat}
    (hSize : chaseSizeBytes ≤ size) (data num_load_threads t rounds : Nat) :
    (∀ loop, loadThread data size num_load_threads t rounds = some loop →
        ∀ a ∈ loop.accesses, InsideSlice (data + chaseSizeBytes)
          ((size - chaseSizeBytes) / num_load_threads) t a) ↔
      ∀ i, i < rounds →
        32 * (i % wrapPeriod
          ((size - chaseSizeBytes) / num_load_threads / 4) 8) + 32 ≤
          (size - chaseSizeBytes) / num_load_threads := by
  rw [loadThread_eq hSize]
  simp only [LoadLoop.iterate_round, Option.some.injEq, forall_eq',
    List.forall_mem_map, List.mem_range]
  exact forall_congr' fun i => imp_congr_right fun _ =>
    insideSlice_iff _ _ t i _

/-- The cursor of the first `rounds` rounds leaves room for a vector exactly
when it does not come to the end of the slice, or the slice has room for a
vector and ends with one. -/
theorem cursor_room_iff (per_thread_size rounds : Nat) :
    (∀ i, i < rounds →
        32 * (i % wrapPeriod (per_thread_size / 4) 8) + 32 ≤ per_thread_size) ↔
      32 * rounds ≤ per_thread_size ∨
        32 ≤ per_thread_size ∧ per_thread_size % 32 < 4 := by
  have hCover := @le_wrapPeriod_mul (per_thread_size / 4) 8 (by decide)
  have hPos : 0 < wrapPeriod (per_thread_size / 4) 8 :=
    Nat.lt_of_lt_of_le Nat.one_pos (Nat.le_max_left _ _)
  constructor
  · intro h
    rcases Nat.lt_or_ge (wrapPeriod (per_thread_size / 4) 8) rounds with
      hWrapped | hFirst
    · -- The last access of a period ends at the end of the slice.
      have hLast := h (wrapPeriod (per_thread_size / 4) 8 - 1) (by omega)
      rw [Nat.mod_eq_of_lt (by omega)] at hLast
      right
      omega
    · rcases Nat.eq_zero_or_pos rounds with rfl | hSome
      · left
        omega
      · have hLast := h (rounds - 1) (by omega)
        rw [Nat.mod_eq_of_lt (by omega)] at hLast
        left
        omega
  · rintro (hShort | ⟨hRoom, hEnd⟩) i hi
    · have hLe := Nat.mod_le i (wrapPeriod (per_thread_size / 4) 8)
      omega
    · have hLt := Nat.mod_lt i hPos
      rcases Nat.eq_or_lt_of_le (Nat.succ_le_of_lt hPos) with hOne | hMore
      · omega
      · have hBound := @lt_of_succ_lt_wrapPeriod (per_thread_size / 4) 8
          (wrapPeriod (per_thread_size / 4) 8 - 2) (by decide) (by omega)
        omega

/-- A load thread stays inside its slice exactly when it stops before the end
of the slice or the slice ends with a whole vector. -/
theorem loadThread_inside_iff {size : Nat} (hSize : chaseSizeBytes ≤ size)
    (data num_load_threads t rounds : Nat) :
    (∀ loop, loadThread data size num_load_threads t rounds = some loop →
        ∀ a ∈ loop.accesses, InsideSlice (data + chaseSizeBytes)
          ((size - chaseSizeBytes) / num_load_threads) t a) ↔
      32 * rounds ≤ (size - chaseSizeBytes) / num_load_threads ∨
        32 ≤ (size - chaseSizeBytes) / num_load_threads ∧
          (size - chaseSizeBytes) / num_load_threads % 32 < 4 := by
  rw [loadThread_inside_iff_room hSize, cursor_room_iff]

/-- A region of exactly 2 GiB leaves nothing to load, and the first round
already leaves the slice. -/
theorem loadThread_inside_iff_empty :
    ¬ ∀ loop, loadThread 0 (2 ^ 31) 1 0 1 = some loop →
      ∀ a ∈ loop.accesses, InsideSlice (0 + chaseSizeBytes)
        ((2 ^ 31 - chaseSizeBytes) / 1) 0 a := by
  rw [loadThread_inside_iff (by decide)]
  decide

/-- Three threads on the working set of the sweep: the last round before the
third one starts again at zero stores past the end of its slice, which is the
end of the region. -/
theorem loadThread_overrun :
    ¬ ∀ loop, loadThread 0 (3 * 43690 * 2 ^ 20) 3 2 1409264299 = some loop →
      ∀ a ∈ loop.accesses, InsideSlice (0 + chaseSizeBytes)
        ((3 * 43690 * 2 ^ 20 - chaseSizeBytes) / 3) 2 a := by
  rw [loadThread_inside_iff_room (by decide)]
  intro h
  exact absurd (h 1409264298 (by decide)) (by decide)

end MioBench.Bench
