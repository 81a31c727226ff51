import Mathlib.Tactic.Ring
import MioBench.Lib.SerialLink
import MioBench.Sync.Nic

/-!
# The timestamping NIC

In `test2-rdma3.c` the `rnic_thread` never waits: for each dequeued request it
advances `ntime`, the next time the link is free, and stamps the request with
it.  The run over a sequence of requests is the serialized link of
`MioBench.Lib.SerialLink`.
-/

namespace MioBench.Sync

open Finset MioBench.Lib

namespace Nic

/-- The `process latency logic` section: the new NIC, the new `lag` and the
request as it is signalled. -/
def process (n : Nic) (d : Dequeue) (service_ns : ℚ) : Nic × ℚ × RdmaReq :=
  -- `ntime == 0` means that the link has never carried a transfer.
  let n := if n.ntime = 0 then { n with ntime := d.now } else n
  let r : Nic × ℚ :=
    if n.ntime < d.now then ({ n with ntime := d.now }, d.now - n.ntime)
    else (n, 0)
  let n := { r.1 with
    stime := r.1.ntime
    ntime := r.1.ntime + service_ns }
  (n, r.2, { d.req with expire_time := n.ntime })

/-- What `rnic_thread` leaves behind for request `k`. -/
def stamp (n : Nic) (service_ns : ℚ) (queue : ℕ → Dequeue) :
    ℕ → Nic × ℚ × RdmaReq
  | 0 => n.process (queue 0) service_ns
  | k + 1 => (stamp n service_ns queue k).1.process (queue (k + 1)) service_ns

theorem process_first {n : Nic} {d : Dequeue} (hFresh : n.ntime = 0)
    (service_ns : ℚ) :
    n.process d service_ns =
      ({ n with stime := d.now, ntime := d.now + service_ns }, 0,
        { d.req with expire_time := d.now + service_ns }) := by
  simp [process, hFresh]

/-- A used link starts the transfer when it is free and the request is there,
and records the time it stood idle. -/
theorem process_used {n : Nic} {d : Dequeue} (hUsed : n.ntime ≠ 0)
    (service_ns : ℚ) :
    n.process d service_ns =
      ({ n with
          stime := max d.now n.ntime
          ntime := max d.now n.ntime + service_ns },
        max (d.now - n.ntime) 0,
        { d.req with expire_time := max d.now n.ntime + service_ns }) := by
  rcases lt_or_ge n.ntime d.now with hIdle | hBusy
  · have hMax : max d.now n.ntime = d.now := max_eq_left hIdle.le
    have hGap : max (d.now - n.ntime) 0 = d.now - n.ntime :=
      max_eq_left (by linarith)
    simp [process, hUsed, hIdle, hMax, hGap]
  · have hMax : max d.now n.ntime = n.ntime := max_eq_right hBusy
    have hGap : max (d.now - n.ntime) 0 = 0 := max_eq_right (by linarith)
    simp [process, hUsed, not_lt.mpr hBusy, hMax, hGap]

end Nic

/-- The readings of the clock after each dequeue. -/
def clock (queue : ℕ → Dequeue) (k : ℕ) : ℚ := (queue k).now

section Timeline

variable {n : Nic} {service_ns : ℚ} {queue : ℕ → Dequeue}

/-- The link is never free at time zero again: a request leaves it after the
first one has arrived. -/
theorem finish_pos (hService : 0 < service_ns) (hFirst : 0 < clock queue 0)
    (k : ℕ) : 0 < SerialLink.finish service_ns (clock queue) k := by
  have hLate : clock queue 0 + (k - 0 + 1) • service_ns ≤
      SerialLink.finish service_ns (clock queue) k :=
    (SerialLink.finish_isGreatest service_ns (clock queue) k).2
      ⟨0, Nat.zero_le k, rfl⟩
  have hTime : 0 ≤ (k - 0 + 1) • service_ns := nsmul_nonneg hService.le _
  linarith

/-- The timestamps of the thread are those of the serialized link; the request
and the NIC keep everything else. -/
theorem stamp_eq (hFresh : n.ntime = 0) (hService : 0 < service_ns)
    (hFirst : 0 < clock queue 0) (k : ℕ) :
    n.stamp service_ns queue k =
      ({ n with
          stime := SerialLink.start service_ns (clock queue) k
          ntime := SerialLink.finish service_ns (clock queue) k },
        SerialLink.idle service_ns (clock queue) k,
        { (queue k).req with
          expire_time := SerialLink.finish service_ns (clock queue) k }) := by
  induction k with
  | zero => exact Nic.process_first hFresh service_ns
  | succ k ih =>
      have hUsed : SerialLink.finish service_ns (clock queue) k ≠ 0 :=
        (finish_pos hService hFirst k).ne'
      rw [Nic.stamp, ih, Nic.process_used hUsed]
      rfl

/-- The RNIC timeline is a work-conserving serialized link. -/
theorem rnic_timeline (hFresh : n.ntime = 0) (hService : 0 < service_ns)
    (hFirst : 0 < clock queue 0) :
    (n.stamp service_ns queue 0).1.stime = clock queue 0 ∧
    (∀ k, (n.stamp service_ns queue (k + 1)).1.stime =
      max (clock queue (k + 1))
        (n.stamp service_ns queue k).2.2.expire_time) ∧
    (∀ k, IsGreatest
      {t | ∃ j ≤ k, t = clock queue j + ((k : ℚ) - j + 1) * service_ns}
      (n.stamp service_ns queue k).2.2.expire_time) ∧
    (∀ j k, j ≠ k → Disjoint
      (Set.Ico (n.stamp service_ns queue j).1.stime
        (n.stamp service_ns queue j).2.2.expire_time)
      (Set.Ico (n.stamp service_ns queue k).1.stime
        (n.stamp service_ns queue k).2.2.expire_time)) ∧
    (∀ k, ∑ i ∈ range (k + 1), (n.stamp service_ns queue i).2.1 =
      (n.stamp service_ns queue k).2.2.expire_time - clock queue 0 -
        ((k : ℚ) + 1) * service_ns) := by
  simp only [stamp_eq hFresh hService hFirst]
  refine ⟨rfl, fun k => rfl, fun k => ?_, fun j k hjk => ?_, fun k => ?_⟩
  · have hSet : {t | ∃ j ≤ k,
          t = clock queue j + ((k : ℚ) - j + 1) * service_ns} =
        {t | ∃ j ≤ k, t = clock queue j + (k - j + 1) • service_ns} := by
      ext t
      refine exists_congr fun j => and_congr_right fun hj => ?_
      rw [nsmul_eq_mul]
      push_cast [hj]
      rfl
    rw [hSet]
    exact SerialLink.finish_isGreatest service_ns (clock queue) k
  · exact SerialLink.disjoint_slots (clock queue) hService.le hjk
  · rw [SerialLink.sum_idle, nsmul_eq_mul]
    push_cast
    rfl

end Timeline

/-- Three requests on a link with a service time of 10 ns: the second queues
behind the first, the third finds the link idle since 25. -/
theorem rnic_timeline_three :
    let queue : ℕ → Dequeue := fun k => ⟨⟨k, 0, 0⟩, 5 + 17 * k * (k - 1)⟩
    (Nic.init.stamp 10 queue 2).2.2.expire_time = 49 ∧
    ∑ i ∈ range 3, (Nic.init.stamp 10 queue i).2.1 = 49 - 5 - 30 := by
  intro queue
  have hLast : (Nic.init.stamp 10 queue 2).2.2.expire_time = 49 := by
    norm_num [Nic.stamp, Nic.process, Nic.init, queue]
  have hFirst : 0 < clock queue 0 := by norm_num [clock, queue]
  obtain ⟨-, -, -, -, hLags⟩ :=
    @rnic_timeline Nic.init 10 queue rfl (by norm_num) hFirst
  refine ⟨hLast, ?_⟩
  rw [hLags 2, hLast]
  norm_num [clock, queue]

end MioBench.Sync
