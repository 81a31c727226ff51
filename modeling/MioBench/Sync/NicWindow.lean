import Mathlib.Tactic.Ring
import MioBench.Sync.Nic

/-!
# The windowed NIC

The `calculate` section of `test2-rdma-fin.c` over a sequence of requests.  A
request that arrives after `ntime` opens a window of `windowFactor` service
times; a request inside an open window is stamped with its own arrival and a
constant.  The header of `rnic_thread` promises more: each request occupies
the link for its service time.  This file says when the stamps keep that
promise.
-/

namespace MioBench.Sync

namespace Nic

/-- What `rnic_thread` leaves behind for request `k`. -/
def calculated (n : Nic) (lag service_ns : ℚ) (queue : ℕ → Dequeue) :
    ℕ → Nic × ℚ × RdmaReq
  | 0 => n.calculate lag (queue 0).req service_ns
  | k + 1 =>
      let r := calculated n lag service_ns queue k
      r.1.calculate r.2.1 (queue (k + 1)).req service_ns

variable {n : Nic} {lag service_ns : ℚ} {req : RdmaReq}

theorem calculate_open (h : n.ntime < req.stime) :
    n.calculate lag req service_ns =
      ({ n with
          stime := req.stime + service_ns
          ntime := req.stime + windowFactor * service_ns },
        0, { req with expire_time := req.expire_time + 1000 + 1000 }) := by
  simp [calculate, h]

/-- A window that is used up is followed by another. -/
theorem calculate_extend (hBusy : req.stime ≤ n.ntime)
    (hUsed : n.ntime < n.stime + service_ns) :
    (n.calculate lag req service_ns).2.2.expire_time =
      req.expire_time + (n.ntime - req.stime) + 1000 := by
  simp [calculate, not_lt.mpr hBusy, hUsed]

/-- Inside a window, with no lag left over, only the share of the window that
is used moves. -/
theorem calculate_inside (hBusy : req.stime ≤ n.ntime)
    (hRoom : n.stime + service_ns ≤ n.ntime) :
    n.calculate 0 req service_ns =
      ({ n with stime := n.stime + service_ns },
        0, { req with expire_time := req.expire_time + 1000 }) := by
  simp [calculate, not_lt.mpr hBusy, not_lt.mpr hRoom]

theorem serviceNs_nonneg (n : Nic) (req_bytes : Nat) :
    0 ≤ n.serviceNs req_bytes :=
  div_nonneg (mul_nonneg (Nat.cast_nonneg _) (by norm_num)) (Nat.cast_nonneg _)

end Nic

@[simp] theorem windowFactor_eq : windowFactor = 100 := rfl

/-! ## The promise and the condition -/

/-- Transfers are serialized: each of the first `n` requests occupies the link
for `service_ns`, after its arrival and after the request before it. -/
structure Serialized (service_ns : ℚ) (stime expire : ℕ → ℚ) (n : ℕ) :
    Prop where
  occupies : ∀ k < n, stime k + service_ns ≤ expire k
  inOrder : ∀ k, k + 1 < n → expire k + service_ns ≤ expire (k + 1)

section Windows

variable (service_ns : ℚ) (stime : ℕ → ℚ)

/-- Where the window of request `k` starts: the arrivals are cut into windows
of `windowFactor` service times, from left to right. -/
def windowStart : ℕ → ℚ
  | 0 => stime 0
  | k + 1 =>
      if windowStart k + windowFactor * service_ns < stime (k + 1) then
        stime (k + 1)
      else windowStart k

/-- Request `k` arrives after the window of the request before it. -/
def Opens : ℕ → Prop
  | 0 => True
  | k + 1 =>
      windowStart service_ns stime k + windowFactor * service_ns < stime (k + 1)

instance : DecidablePred (Opens service_ns stime) := fun k =>
  match k with
  | 0 => inferInstanceAs (Decidable True)
  | _ + 1 => inferInstanceAs (Decidable (_ < _))

/-- What the simulation adds to the arrival of request `k`. -/
def latency (k : ℕ) : ℚ := if Opens service_ns stime k then 2000 else 1000

/-- The arrivals leave the room the stamps do not make: at most 2000 ns of
service, and a request inside a window comes with at most 1000 ns of service
and that long after the stamp of the request before it. -/
structure Spaced (n : ℕ) : Prop where
  short : 0 < n → service_ns ≤ 2000
  apart : ∀ k, k + 1 < n → Opens service_ns stime (k + 1) ∨
    service_ns ≤ 1000 ∧
      stime k + latency service_ns stime k + service_ns ≤ stime (k + 1) + 1000

/-- After request `k`, the `served + 1`-st of its window, as long as the
stamps have kept the promise. -/
structure InWindow (k served : ℕ) (r : Nic × ℚ × RdmaReq) : Prop where
  used : r.1.stime =
    windowStart service_ns stime k + (served + 1) * service_ns
  window : r.1.ntime =
    windowStart service_ns stime k + windowFactor * service_ns
  noLag : r.2.1 = 0
  stamped : r.2.2.expire_time = stime k + latency service_ns stime k
  first : served = 0 →
    Opens service_ns stime k ∧ stime k = windowStart service_ns stime k
  later : 0 < served →
    ¬ Opens service_ns stime k ∧ service_ns ≤ 1000 ∧ stime k ≤ r.1.ntime ∧
      windowStart service_ns stime k + 1000 + served * service_ns ≤ stime k

end Windows

section Run

variable {n : Nic} {lag service_ns : ℚ} {queue : ℕ → Dequeue}

/-- The arrivals of a sequence of requests. -/
def arrivals (queue : ℕ → Dequeue) (k : ℕ) : ℚ := (queue k).req.stime

/-- The stamps of a run over a sequence of requests. -/
def expiries (n : Nic) (lag service_ns : ℚ) (queue : ℕ → Dequeue) (k : ℕ) : ℚ :=
  (n.calculated lag service_ns queue k).2.2.expire_time

/-- The first request of a fresh NIC opens a window. -/
theorem inWindow_first (hFresh : n.ntime < arrivals queue 0)
    (hSubmit : (queue 0).req.expire_time = arrivals queue 0) :
    InWindow service_ns (arrivals queue) 0 0
      (n.calculated lag service_ns queue 0) := by
  have hRun : n.calculated lag service_ns queue 0 = _ := Nic.calculate_open hFresh
  have hTrue : Opens service_ns (arrivals queue) 0 := trivial
  refine ⟨?_, ?_, ?_, ?_, fun _ => ⟨trivial, rfl⟩, fun h => absurd h (by simp)⟩
  · rw [hRun]
    simp [windowStart, arrivals]
  · rw [hRun]
    simp [windowStart, arrivals]
  · rw [hRun]
  · rw [hRun, latency, if_pos hTrue]
    show (queue 0).req.expire_time + 1000 + 1000 = _
    rw [hSubmit]
    ring

variable {k served : ℕ} {stime : ℕ → ℚ}
variable {r : Nic × ℚ × RdmaReq} {req : RdmaReq}

/-- A request after the window opens the next one, and keeps the promise. -/
theorem inWindow_open (hInv : InWindow service_ns stime k served r)
    (hNonneg : 0 ≤ service_ns)
    (hStime : req.stime = stime (k + 1)) (hSubmit : req.expire_time = req.stime)
    (hOpens : Opens service_ns stime (k + 1)) :
    InWindow service_ns stime (k + 1) 0 (r.1.calculate r.2.1 req service_ns) ∧
    r.2.2.expire_time + service_ns ≤
      (r.1.calculate r.2.1 req service_ns).2.2.expire_time := by
  have hLater : windowStart service_ns stime k + 100 * service_ns <
      stime (k + 1) := by
    simpa [Opens] using hOpens
  have hIdle : r.1.ntime < req.stime := by
    rw [hInv.window, hStime]
    exact hOpens
  have hStart : windowStart service_ns stime (k + 1) = stime (k + 1) :=
    if_pos hOpens
  rw [Nic.calculate_open hIdle]
  refine ⟨⟨?_, ?_, rfl, ?_, fun _ => ⟨hOpens, hStart.symm⟩,
    fun h => absurd h (by simp)⟩, ?_⟩
  · show req.stime + service_ns = _
    rw [hStart, hStime]
    push_cast
    ring
  · show req.stime + windowFactor * service_ns = _
    rw [hStart, hStime]
  · show req.expire_time + 1000 + 1000 = _
    rw [latency, if_pos hOpens, hSubmit, hStime]
    ring
  · show r.2.2.expire_time + service_ns ≤ req.expire_time + 1000 + 1000
    rw [hInv.stamped, hSubmit, hStime]
    rcases Nat.eq_zero_or_pos served with hFirst | hServed
    · obtain ⟨hOpen, hStart⟩ := hInv.first hFirst
      rw [latency, if_pos hOpen]
      linarith
    · obtain ⟨hClosed, hBrief, hWithin, -⟩ := hInv.later hServed
      rw [latency, if_neg hClosed]
      rw [hInv.window, windowFactor_eq] at hWithin
      push_cast at hWithin
      linarith

/-- Inside a window the stamps have moved on by a service time for each
request served. -/
theorem InWindow.served_le (hInv : InWindow service_ns stime k served r) :
    windowStart service_ns stime k + 2000 + served * service_ns ≤
      stime k + latency service_ns stime k := by
  rcases Nat.eq_zero_or_pos served with hFirst | hServed
  · obtain ⟨hOpen, hStart⟩ := hInv.first hFirst
    rw [latency, if_pos hOpen, hStart, hFirst]
    simp
  · obtain ⟨hClosed, -, -, hLate⟩ := hInv.later hServed
    rw [latency, if_neg hClosed]
    linarith

/-- A request inside the window that leaves the room it should finds the
window not used up: the room alone fills it before its hundredth request. -/
theorem InWindow.room (hInv : InWindow service_ns stime k served r)
    (hNonneg : 0 ≤ service_ns) (hInside : ¬ Opens service_ns stime (k + 1))
    (hApart : stime k + latency service_ns stime k + service_ns ≤
      stime (k + 1) + 1000) :
    r.1.stime + service_ns ≤ r.1.ntime := by
  have hEnd : stime (k + 1) ≤ windowStart service_ns stime k + 100 * service_ns := by
    simpa [Opens] using hInside
  have hLate := hInv.served_le
  have hServed : (served : ℚ) + 2 ≤ 100 := by
    by_contra hMany
    have hCount : 99 ≤ served := by
      have hCast : ((98 : ℕ) : ℚ) < (served : ℚ) := by
        push_cast
        linarith
      exact_mod_cast hCast
    have hFill : (99 : ℚ) * service_ns ≤ served * service_ns :=
      mul_le_mul_of_nonneg_right (by exact_mod_cast hCount) hNonneg
    linarith
  calc
    r.1.stime + service_ns =
        windowStart service_ns stime k + ((served : ℚ) + 2) * service_ns := by
      rw [hInv.used]
      ring
    _ ≤ windowStart service_ns stime k + 100 * service_ns := by
      gcongr
    _ = r.1.ntime := by
      rw [hInv.window, windowFactor_eq]
      norm_num

/-- A request that finds the window used up is stamped too early. -/
theorem InWindow.early (hInv : InWindow service_ns stime k served r)
    (hSubmit : req.expire_time = req.stime)
    (hBusy : req.stime ≤ r.1.ntime)
    (hNonneg : 0 ≤ service_ns) (hUsed : r.1.ntime < r.1.stime + service_ns) :
    (r.1.calculate r.2.1 req service_ns).2.2.expire_time <
      r.2.2.expire_time + service_ns := by
  have hLate := hInv.served_le
  have hWindow : r.1.ntime =
      windowStart service_ns stime k + 100 * service_ns := by
    rw [hInv.window, windowFactor_eq]
    norm_num
  have hCount : (99 : ℚ) ≤ served := by
    by_contra hFew
    have hAtMost : served ≤ 98 := by
      have hCast : (served : ℚ) < ((99 : ℕ) : ℚ) := by
        push_cast
        linarith
      exact Nat.lt_succ_iff.mp (by exact_mod_cast hCast)
    have hRoom : (served : ℚ) * service_ns ≤ 98 * service_ns :=
      mul_le_mul_of_nonneg_right (by exact_mod_cast hAtMost) hNonneg
    rw [hInv.used, hWindow] at hUsed
    linarith
  have hFill : (99 : ℚ) * service_ns ≤ served * service_ns :=
    mul_le_mul_of_nonneg_right hCount hNonneg
  rw [Nic.calculate_extend hBusy hUsed, hSubmit, hInv.stamped, hWindow]
  linarith

/-- A request inside the window keeps the promise exactly when its arrival
leaves the room the stamp does not make. -/
theorem inWindow_inside (hInv : InWindow service_ns stime k served r)
    (hNonneg : 0 ≤ service_ns) (hStime : req.stime = stime (k + 1))
    (hSubmit : req.expire_time = req.stime)
    (hInside : ¬ Opens service_ns stime (k + 1)) :
    ((req.stime + service_ns ≤
          (r.1.calculate r.2.1 req service_ns).2.2.expire_time ∧
        r.2.2.expire_time + service_ns ≤
          (r.1.calculate r.2.1 req service_ns).2.2.expire_time) ↔
      service_ns ≤ 1000 ∧
        stime k + latency service_ns stime k + service_ns ≤
          stime (k + 1) + 1000) ∧
    (service_ns ≤ 1000 →
      stime k + latency service_ns stime k + service_ns ≤
        stime (k + 1) + 1000 →
      InWindow service_ns stime (k + 1) (served + 1)
        (r.1.calculate r.2.1 req service_ns)) := by
  have hBusy : req.stime ≤ r.1.ntime := by
    rw [hInv.window, hStime]
    exact not_lt.mp hInside
  have hStart : windowStart service_ns stime (k + 1) =
      windowStart service_ns stime k := if_neg hInside
  rcases lt_or_ge r.1.ntime (r.1.stime + service_ns) with hUsed | hRoom
  · -- The window is used up: both sides fail.
    have hEarly := hInv.early hSubmit hBusy hNonneg hUsed
    have hNot : ¬ stime k + latency service_ns stime k + service_ns ≤
        stime (k + 1) + 1000 := fun hApart =>
      absurd (hInv.room hNonneg hInside hApart) (not_le.mpr hUsed)
    exact ⟨⟨fun h => absurd h.2 (not_le.mpr hEarly),
      fun h => absurd h.2 hNot⟩, fun _ hApart => absurd hApart hNot⟩
  · rw [hInv.noLag, Nic.calculate_inside hBusy hRoom]
    constructor
    · show req.stime + service_ns ≤ req.expire_time + 1000 ∧
        r.2.2.expire_time + service_ns ≤ req.expire_time + 1000 ↔ _
      rw [hInv.stamped, hSubmit, hStime]
      constructor
      · rintro ⟨hOwn, hPrev⟩
        exact ⟨by linarith, hPrev⟩
      · rintro ⟨hBrief, hApart⟩
        exact ⟨by linarith, hApart⟩
    · intro hBrief hApart
      have hLate := hInv.served_le
      refine ⟨?_, ?_, rfl, ?_, fun h => absurd h (by omega), fun _ =>
        ⟨hInside, hBrief, hStime ▸ hBusy, ?_⟩⟩
      · show r.1.stime + service_ns = _
        rw [hInv.used, hStart]
        push_cast
        ring
      · show r.1.ntime = _
        rw [hInv.window, hStart]
      · show req.expire_time + 1000 = _
        rw [hSubmit, hStime, latency, if_neg hInside]
      · rw [hStart]
        push_cast
        linarith

/-! ## The whole run -/

/-- The promise over one more request. -/
theorem serialized_succ (service_ns : ℚ) (stime expire : ℕ → ℚ) (k : ℕ) :
    Serialized service_ns stime expire (k + 2) ↔
      Serialized service_ns stime expire (k + 1) ∧
        stime (k + 1) + service_ns ≤ expire (k + 1) ∧
        expire k + service_ns ≤ expire (k + 1) := by
  constructor
  · intro h
    exact ⟨⟨fun j hj => h.occupies j (by omega),
        fun j hj => h.inOrder j (by omega)⟩,
      h.occupies (k + 1) (by omega), h.inOrder k (by omega)⟩
  · rintro ⟨h, hOwn, hPrev⟩
    refine ⟨fun j hj => ?_, fun j hj => ?_⟩
    · rcases Nat.lt_succ_iff_lt_or_eq.mp hj with hOld | rfl
      · exact h.occupies j hOld
      · exact hOwn
    · rcases Nat.lt_succ_iff_lt_or_eq.mp hj with hOld | hNew
      · exact h.inOrder j hOld
      · obtain rfl : j = k := by omega
        exact hPrev

/-- The condition over one more request. -/
theorem spaced_succ (service_ns : ℚ) (stime : ℕ → ℚ) (k : ℕ) :
    Spaced service_ns stime (k + 2) ↔
      Spaced service_ns stime (k + 1) ∧
        (Opens service_ns stime (k + 1) ∨
          service_ns ≤ 1000 ∧
            stime k + latency service_ns stime k + service_ns ≤
              stime (k + 1) + 1000) := by
  constructor
  · intro h
    exact ⟨⟨fun _ => h.short (by omega), fun j hj => h.apart j (by omega)⟩,
      h.apart k (by omega)⟩
  · rintro ⟨h, hNew⟩
    refine ⟨fun _ => h.short (by omega), fun j hj => ?_⟩
    rcases Nat.lt_succ_iff_lt_or_eq.mp hj with hOld | hLast
    · exact h.apart j hOld
    · obtain rfl : j = k := by omega
      exact hNew

theorem serialized_one (hFresh : n.ntime < arrivals queue 0)
    (hSubmit : ∀ k, (queue k).req.expire_time = (queue k).req.stime) :
    Serialized service_ns (arrivals queue) (expiries n lag service_ns queue) 1 ↔
      Spaced service_ns (arrivals queue) 1 := by
  have hInv : InWindow service_ns (arrivals queue) 0 0
      (n.calculated lag service_ns queue 0) := inWindow_first hFresh (hSubmit 0)
  have hTrue : Opens service_ns (arrivals queue) 0 := trivial
  have hStamp : expiries n lag service_ns queue 0 = arrivals queue 0 + 2000 := by
    rw [expiries, hInv.stamped, latency, if_pos hTrue]
  constructor
  · intro h
    refine ⟨fun _ => ?_, fun j hj => absurd hj (by omega)⟩
    have hOwn := h.occupies 0 (by omega)
    rw [hStamp] at hOwn
    linarith
  · intro h
    refine ⟨fun j hj => ?_, fun j hj => absurd hj (by omega)⟩
    obtain rfl : j = 0 := by omega
    have hShort := h.short (by omega)
    rw [hStamp]
    linarith

/-- As long as the stamps keep the promise the arrivals are spaced out, and
the run is inside the window the arrivals alone determine. -/
theorem serialized_run (hFresh : n.ntime < arrivals queue 0)
    (hSubmit : ∀ k, (queue k).req.expire_time = (queue k).req.stime)
    (hNonneg : 0 ≤ service_ns) (k : ℕ) :
    (Serialized service_ns (arrivals queue) (expiries n lag service_ns queue)
        (k + 1) ↔ Spaced service_ns (arrivals queue) (k + 1)) ∧
    (Spaced service_ns (arrivals queue) (k + 1) →
      ∃ served, InWindow service_ns (arrivals queue) k served
        (n.calculated lag service_ns queue k)) := by
  induction k with
  | zero =>
      exact ⟨serialized_one hFresh hSubmit,
        fun _ => ⟨0, inWindow_first hFresh (hSubmit 0)⟩⟩
  | succ k ih =>
      obtain ⟨hIff, hRun⟩ := ih
      rw [serialized_succ, spaced_succ, hIff]
      -- Both sides ask for the shorter run; there the window is known.
      by_cases hSpaced : Spaced service_ns (arrivals queue) (k + 1)
      · obtain ⟨served, hInv⟩ := hRun hSpaced
        have hStep : n.calculated lag service_ns queue (k + 1) =
            (n.calculated lag service_ns queue k).1.calculate
              (n.calculated lag service_ns queue k).2.1
              (queue (k + 1)).req service_ns := rfl
        by_cases hOpens : Opens service_ns (arrivals queue) (k + 1)
        · obtain ⟨hNext, hPrev⟩ := inWindow_open hInv hNonneg
            (rfl : (queue (k + 1)).req.stime = arrivals queue (k + 1))
            (hSubmit (k + 1)) hOpens
          have hShort := hSpaced.short (by omega)
          have hOwn : arrivals queue (k + 1) + service_ns ≤
              expiries n lag service_ns queue (k + 1) := by
            rw [expiries, hStep, hNext.stamped, latency, if_pos hOpens]
            linarith
          exact ⟨⟨fun h => ⟨h.1, Or.inl hOpens⟩, fun h => ⟨h.1, hOwn, hPrev⟩⟩,
            fun _ => ⟨0, hNext⟩⟩
        · obtain ⟨hStepIff, hNext⟩ := inWindow_inside hInv hNonneg
            (rfl : (queue (k + 1)).req.stime = arrivals queue (k + 1))
            (hSubmit (k + 1)) hOpens
          refine ⟨⟨fun h => ⟨h.1, Or.inr (hStepIff.mp h.2)⟩, fun h =>
            ⟨h.1, hStepIff.mpr (h.2.resolve_left hOpens)⟩⟩, fun h => ?_⟩
          obtain ⟨hBrief, hApart⟩ := h.2.resolve_left hOpens
          exact ⟨served + 1, hNext hBrief hApart⟩
      · exact ⟨⟨fun h => absurd h.1 hSpaced, fun h => absurd h.1 hSpaced⟩,
          fun h => absurd h.1 hSpaced⟩

end Run

/-- On a fresh NIC the transfers are serialized exactly when the arrivals are
spaced out. -/
theorem serialized_iff_spaced (req_bytes : ℕ) (lag : ℚ) (queue : ℕ → Dequeue)
    (hClock : 0 < arrivals queue 0)
    (hSubmit : ∀ k, (queue k).req.expire_time = (queue k).req.stime)
    (count : ℕ) :
    Serialized (Nic.init.serviceNs req_bytes) (arrivals queue)
        (expiries Nic.init lag (Nic.init.serviceNs req_bytes) queue) count ↔
      Spaced (Nic.init.serviceNs req_bytes) (arrivals queue) count := by
  cases count with
  | zero =>
      exact ⟨fun _ => ⟨fun h => absurd h (by omega),
          fun k hk => absurd hk (by omega)⟩,
        fun _ => ⟨fun k hk => absurd hk (by omega),
          fun k hk => absurd hk (by omega)⟩⟩
  | succ k =>
      exact (serialized_run hClock hSubmit (Nic.serviceNs_nonneg _ _) k).1

/-- Requests of 12500 bytes, 2000 ns apart. -/
theorem serialized_iff_spaced_three :
    Serialized (Nic.init.serviceNs 12500)
      (arrivals fun k => ⟨⟨k, 5000 + 2000 * k, 5000 + 2000 * k⟩, 9000 + 2000 * k⟩)
      (expiries Nic.init 7 (Nic.init.serviceNs 12500)
        fun k => ⟨⟨k, 5000 + 2000 * k, 5000 + 2000 * k⟩, 9000 + 2000 * k⟩) 3 := by
  have hService : Nic.init.serviceNs 12500 = 1000 := by
    norm_num [Nic.serviceNs, Nic.init, interfaceRnicBw]
  refine (serialized_iff_spaced 12500 7 _ ?_ (fun k => rfl) 3).mpr ⟨fun _ => ?_,
    fun k hk => Or.inr ⟨?_, ?_⟩⟩
  · norm_num [arrivals]
  · rw [hService]
    norm_num
  · rw [hService]
  · rw [hService]
    rcases (show k = 0 ∨ k = 1 by omega) with rfl | rfl
    · norm_num [latency, Opens, arrivals]
    · norm_num [latency, Opens, windowStart, arrivals]

/-- Two requests of the default size, 10 us apart: each is stamped as if it
took a few microseconds on the link, and the two transfers overlap. -/
theorem default_requests_overlap :
    let queue : ℕ → Dequeue := fun k =>
      ⟨⟨k, 1000000 + 10000 * k, 1000000 + 10000 * k⟩, 1003000 + 10000 * k⟩
    let service_ns := Nic.init.serviceNs (64 * 2 ^ 24)
    let expire := expiries Nic.init 0 service_ns queue
    (∀ k, (queue k).req.expire_time = (queue k).req.stime ∧
      (queue k).req.stime ≤ (queue k).now ∧
      (queue k).now ≤ (queue (k + 1)).now) ∧
    expire 0 ≤ (queue 1).now ∧
    expire 0 < arrivals queue 0 + service_ns ∧
    expire 1 < expire 0 + service_ns ∧
    ¬ Serialized service_ns (arrivals queue) expire 2 := by
  intro queue service_ns expire
  have hService : service_ns = 64 * 2 ^ 24 * 1000 / 12500 := by
    norm_num [service_ns, Nic.serviceNs, Nic.init, interfaceRnicBw]
  have hFirst : expire 0 = 1002000 := by
    norm_num [expire, expiries, Nic.calculated, Nic.calculate, Nic.init, queue]
  have hSecond : expire 1 = 1011000 := by
    norm_num [expire, expiries, Nic.calculated, Nic.calculate, Nic.init, queue,
      hService]
  have hOwn : expire 0 < arrivals queue 0 + service_ns := by
    rw [hFirst, hService]
    norm_num [arrivals, queue]
  refine ⟨fun k => ⟨rfl, ?_, ?_⟩, ?_, hOwn, ?_, fun h => ?_⟩
  · show (1000000 + 10000 * k : ℚ) ≤ 1003000 + 10000 * k
    linarith
  · show (1003000 + 10000 * k : ℚ) ≤ 1003000 + 10000 * ((k + 1 : ℕ) : ℚ)
    push_cast
    linarith
  · rw [hFirst]
    norm_num [queue]
  · rw [hFirst, hSecond, hService]
    norm_num
  · exact absurd (h.occupies 0 (by omega)) (not_le.mpr hOwn)

end MioBench.Sync
