import MioBench.Lib.ForLoop
import MioBench.Lib.Stores

/-!
# First touch

`firstTouchData` of `main_patched.cpp` stores one byte every 4096 bytes, so
that the kernel gives every page of the region a frame of its own before
anything is measured.  Each thread counts from the start of its own slice, and
the slices need not start on a page.
-/

namespace MioBench.Bench

open MioBench.Lib

/-- `kPageSize`. -/
def kPageSize : Nat := 4096

/-- `static_cast<char>(0xA5 ^ (t & 0xFF))`. -/
def touchMarker (t : Nat) : UInt8 := UInt8.ofNat (0xA5 ^^^ (t &&& 0xFF))

/-- Where the slice of thread `t` starts, as an offset in the region. -/
def touchBase (size num_threads t : Nat) : Nat :=
  t * (size / num_threads) % 2 ^ 64

/-- `per_thread` of thread `t`, after the last thread has taken the rest. -/
def touchLength (size num_threads t : Nat) : Nat :=
  let per_thread := size / num_threads
  if t = num_threads - 1 then
    (size + 2 ^ 64 - t * per_thread % 2 ^ 64) % 2 ^ 64
  else per_thread

/-- The bytes thread `t` stores, each with its address. -/
def touchThread (fuel data size num_threads t : Nat) :
    Option (List (Nat × UInt8)) :=
  (countUp (2 ^ 64) fuel 0 (touchLength size num_threads t) kPageSize).map
    fun offs => offs.map fun off =>
      (data + touchBase size num_threads t + off, touchMarker t)

/-- `firstTouchData`, thread after thread. -/
def firstTouchData (fuel data size : Nat) (num_threads : Int) :
    Option (List (Nat × UInt8)) :=
  if data = 0 ∨ size = 0 ∨ num_threads ≤ 0 then some []
  else
    gather (touchThread fuel data size num_threads.toNat)
      (List.range num_threads.toNat)

/-! ## The slices -/

section Slices

variable {size n t : Nat}

theorem mul_div_le_size (ht : t < n) : t * (size / n) ≤ size :=
  Nat.le_trans (Nat.mul_le_mul_right _ (Nat.le_of_lt ht))
    (Nat.mul_div_le size n)

theorem touchBase_eq (hSize : size < 2 ^ 64) (ht : t < n) :
    touchBase size n t = t * (size / n) :=
  Nat.mod_eq_of_lt (Nat.lt_of_le_of_lt (mul_div_le_size ht) hSize)

theorem touchLength_last (hSize : size < 2 ^ 64) (hn : 0 < n) :
    touchLength size n (n - 1) = size - (n - 1) * (size / n) := by
  have hLe : (n - 1) * (size / n) ≤ size := mul_div_le_size (by omega)
  unfold touchLength
  dsimp only
  rw [if_pos rfl, Nat.mod_eq_of_lt (show (n - 1) * (size / n) < 2 ^ 64 by omega)]
  omega

theorem touchLength_inner (ht : t + 1 < n) :
    touchLength size n t = size / n :=
  if_neg (by omega)

/-- Every slice ends inside the region. -/
theorem touch_slice_le (hSize : size < 2 ^ 64) (ht : t < n) :
    t * (size / n) + touchLength size n t ≤ size := by
  by_cases hLast : t + 1 = n
  · obtain rfl : t = n - 1 := by omega
    have hLe := @mul_div_le_size size n (n - 1) ht
    rw [touchLength_last hSize (by omega)]
    omega
  · have hNext := @mul_div_le_size size n (t + 1) (by omega)
    rw [Nat.succ_mul] at hNext
    rw [touchLength_inner (by omega)]
    exact hNext

/-- A slice that stops short of the end of the region is followed by the slice
of the next thread. -/
theorem touch_slice_next (hSize : size < 2 ^ 64) (ht : t < n)
    (hMore : t * (size / n) + touchLength size n t < size) :
    t + 1 < n ∧
      t * (size / n) + touchLength size n t = (t + 1) * (size / n) := by
  have hNext : t + 1 < n := by
    by_contra hLast
    obtain rfl : t = n - 1 := by omega
    rw [touchLength_last hSize (by omega)] at hMore
    omega
  refine ⟨hNext, ?_⟩
  rw [touchLength_inner hNext, Nat.succ_mul]

/-- Every offset of the region lies in some slice. -/
theorem exists_touch_slice (hSize : size < 2 ^ 64) (hn : 0 < n) {x : Nat}
    (hx : x < size) :
    ∃ t, t < n ∧ t * (size / n) ≤ x ∧
      x < t * (size / n) + touchLength size n t := by
  by_cases hInner : x < (n - 1) * (size / n)
  · have hPos : 0 < size / n := by
      rcases Nat.eq_zero_or_pos (size / n) with hZero | hPos
      · simp [hZero] at hInner
      · exact hPos
    have hLt : x / (size / n) < n - 1 := Nat.div_lt_of_lt_mul (by
      rwa [Nat.mul_comm] at hInner)
    refine ⟨x / (size / n), by omega, Nat.div_mul_le_self _ _, ?_⟩
    rw [touchLength_inner (by omega), Nat.mul_comm]
    exact Nat.lt_mul_div_succ x hPos
  · refine ⟨n - 1, by omega, by omega, ?_⟩
    rw [touchLength_last hSize hn]
    omega

end Slices

/-! ## The pages -/

section Pages

variable {fuel data size n t : Nat}

/-- The loop of a thread ends and stores at every 4096th byte of its slice. -/
theorem touchThread_eq (hSize : size < 2 ^ 64) (hPages : kPageSize ∣ size)
    (hFuel : size ≤ fuel) (ht : t < n) :
    touchThread fuel data size n t =
      some ((List.range (trips 0 (touchLength size n t) kPageSize)).map
        fun i => (data + t * (size / n) + kPageSize * i, touchMarker t)) := by
  have hSlice := @touch_slice_le size n t hSize ht
  have hRoom : size + kPageSize ≤ 2 ^ 64 := by
    obtain ⟨pages, rfl⟩ := hPages
    unfold kPageSize at hSize ⊢
    omega
  have hTrips := @trips_le 0 (touchLength size n t) kPageSize (by decide)
  unfold touchThread
  rw [countUp_eq (by decide) (by omega) (by omega), touchBase_eq hSize ht]
  simp [Function.comp_def]

/-- What `firstTouchData` stores. -/
def touched (data size n : Nat) : List (Nat × UInt8) :=
  (List.range n).flatMap fun t =>
    (List.range (trips 0 (touchLength size n t) kPageSize)).map
      fun i => (data + t * (size / n) + kPageSize * i, touchMarker t)

theorem firstTouchData_eq {num_threads : Int} (hData : data ≠ 0)
    (hPos : 0 < size) (hSize : size < 2 ^ 64) (hPages : kPageSize ∣ size)
    (hThreads : 0 < num_threads) (hFuel : size ≤ fuel) :
    firstTouchData fuel data size num_threads =
      some (touched data size num_threads.toNat) := by
  unfold firstTouchData
  rw [if_neg (by omega)]
  exact gather_eq fun t ht =>
    touchThread_eq hSize hPages hFuel (List.mem_range.mp ht)

theorem mem_touched {c : Nat × UInt8} :
    c ∈ touched data size n ↔ ∃ t i, t < n ∧
      kPageSize * i < touchLength size n t ∧
      c = (data + t * (size / n) + kPageSize * i, touchMarker t) := by
  have hTrip : ∀ t i, i < trips 0 (touchLength size n t) kPageSize ↔
      kPageSize * i < touchLength size n t := by
    intro t i
    rw [lt_trips_iff (by decide), Nat.zero_add]
  simp only [touched, List.mem_flatMap, List.mem_map, List.mem_range, hTrip]
  constructor
  · rintro ⟨t, ht, i, hi, rfl⟩
    exact ⟨t, i, ht, hi, rfl⟩
  · rintro ⟨t, i, ht, hi, rfl⟩
    exact ⟨t, ht, i, hi, rfl⟩

/-- Some thread stores into each page.  The thread whose slice has the page's
first byte does so, unless its slice ends before its next step; then the next
thread starts inside the page. -/
theorem exists_touched_page (hSize : size < 2 ^ 64) (hn : 0 < n) {x : Nat}
    (hPage : x + kPageSize ≤ size) :
    ∃ t i, t < n ∧ kPageSize * i < touchLength size n t ∧
      x ≤ t * (size / n) + kPageSize * i ∧
      t * (size / n) + kPageSize * i < x + kPageSize := by
  have hx : x < size := by
    unfold kPageSize at hPage
    omega
  obtain ⟨t, ht, hStart, hEnd⟩ := exists_touch_slice hSize hn hx
  -- The first stop of thread `t` at or after the page's first byte.
  obtain ⟨i, hLow, hHigh⟩ : ∃ i, x ≤ t * (size / n) + kPageSize * i ∧
      t * (size / n) + kPageSize * i < x + kPageSize := by
    refine ⟨(x - t * (size / n) + (kPageSize - 1)) / kPageSize, ?_, ?_⟩
    · unfold kPageSize
      omega
    · unfold kPageSize
      omega
  by_cases hInside : kPageSize * i < touchLength size n t
  · exact ⟨t, i, ht, hInside, hLow, hHigh⟩
  · have hMore : t * (size / n) + touchLength size n t < size := by omega
    obtain ⟨hNext, hEq⟩ := touch_slice_next hSize ht hMore
    refine ⟨t + 1, 0, hNext, ?_, by omega, by omega⟩
    -- The next slice is not empty: it begins before the region ends.
    by_contra hEmpty
    have hEmpty : touchLength size n (t + 1) = 0 := by omega
    have hShort : (t + 1) * (size / n) + touchLength size n (t + 1) < size := by
      omega
    obtain ⟨hAfter, -⟩ := touch_slice_next hSize hNext hShort
    rw [touchLength_inner hAfter] at hEmpty
    rw [hEmpty] at hStart hEnd hEq
    omega

end Pages

/-- First touch reaches every page and nothing but the region. -/
theorem firstTouchData_pages (data size : Nat) (num_threads : Int)
    (hData : data ≠ 0) (hAligned : kPageSize ∣ data) (hPos : 0 < size)
    (hSize : size < 2 ^ 64) (hPages : kPageSize ∣ size)
    (hThreads : 0 < num_threads) :
    ∃ stored : List (Nat × UInt8),
      (∀ fuel, size ≤ fuel →
        firstTouchData fuel data size num_threads = some stored) ∧
      (∀ page, data ≤ kPageSize * page → kPageSize * page < data + size →
        ∃ c ∈ stored, kPageSize * page ≤ c.1 ∧
          c.1 < kPageSize * page + kPageSize) ∧
      ∀ c ∈ stored, data ≤ c.1 ∧ c.1 < data + size := by
  have hn : 0 < num_threads.toNat := by omega
  refine ⟨touched data size num_threads.toNat,
    fun fuel hFuel => firstTouchData_eq hData hPos hSize hPages hThreads hFuel,
    ?_, ?_⟩
  · intro page hLow hHigh
    obtain ⟨first, rfl⟩ := hAligned
    obtain ⟨pages, rfl⟩ := hPages
    have hWhole : kPageSize * page - kPageSize * first + kPageSize ≤
        kPageSize * pages := by
      unfold kPageSize at hLow hHigh ⊢
      omega
    obtain ⟨t, i, ht, hi, hFrom, hTo⟩ := exists_touched_page hSize hn hWhole
    refine ⟨_, mem_touched.mpr ⟨t, i, ht, hi, rfl⟩, ?_, ?_⟩
    · dsimp only
      omega
    · dsimp only
      omega
  · intro c hc
    obtain ⟨t, i, ht, hi, rfl⟩ := mem_touched.mp hc
    have hSlice := touch_slice_le hSize ht
    dsimp only
    omega

/-- Two pages among three threads: no slice but the first starts on a page. -/
theorem firstTouchData_pages_three :
    ∃ stored : List (Nat × UInt8),
      (∀ fuel, 8192 ≤ fuel →
        firstTouchData fuel 4096 8192 3 = some stored) ∧
      (∀ page, 4096 ≤ kPageSize * page → kPageSize * page < 4096 + 8192 →
        ∃ c ∈ stored, kPageSize * page ≤ c.1 ∧
          c.1 < kPageSize * page + kPageSize) ∧
      ∀ c ∈ stored, 4096 ≤ c.1 ∧ c.1 < 4096 + 8192 :=
  firstTouchData_pages 4096 8192 3 (by decide) ⟨1, rfl⟩ (by decide) (by decide)
    ⟨2, rfl⟩ (by decide)

end MioBench.Bench
