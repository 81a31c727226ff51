import Mathlib.Data.Rat.Defs
import Mathlib.Algebra.Order.Field.Rat
import Mathlib.Tactic.Linarith

/-!
# The simulated NIC

The calculation `rnic_thread` makes for one dequeued request, with exact
rationals for `double`.
-/

namespace MioBench.Sync

/-- `struct rdma_req`. -/
structure RdmaReq where
  req_id : Nat
  stime : ℚ
  expire_time : ℚ
  deriving DecidableEq, Repr

/-- `struct nic`. -/
structure Nic where
  bw : Nat
  stime : ℚ
  ntime : ℚ
  busy : Bool
  deriving DecidableEq, Repr

/-- One trip of `rnic_thread`: the request at the head of the queue and the
reading of the clock after it has been dequeued. -/
structure Dequeue where
  req : RdmaReq
  now : ℚ
  deriving DecidableEq, Repr

/-- `Interface_RNICGen6x100G_bw`, in MB/s. -/
def interfaceRnicBw : Nat := 12500

/-- `Interface_RNICGen6x100G_bwmb/NVME_DEFAULT_MAX_AZ_SIZE/1000`, in integer
arithmetic. -/
def windowFactor : Nat := 12500 * 2 ^ 20 / (128 * 2 ^ 10) / 1000

namespace Nic

/-- The NIC of a new sweep. -/
def init : Nic where
  bw := interfaceRnicBw
  stime := 0
  ntime := 0
  busy := false

/-- The service time of one request, in ns. -/
def serviceNs (n : Nic) (req_bytes : Nat) : ℚ := req_bytes * 1000 / n.bw

/-- The `calculate` section: the new NIC, the new `lag` and the request as it
is signalled. -/
def calculate (n : Nic) (lag : ℚ) (req : RdmaReq) (delta_time_ns : ℚ) :
    Nic × ℚ × RdmaReq :=
  let r : Nic × ℚ × RdmaReq :=
    if n.ntime < req.stime then
      ({ n with
          stime := req.stime
          ntime := req.stime + windowFactor * delta_time_ns },
        0, { req with expire_time := req.expire_time + 1000 })
    else if n.ntime < n.stime + delta_time_ns then
      ({ n with
          stime := n.ntime
          ntime := n.ntime + windowFactor * delta_time_ns },
        n.ntime - req.stime,
        { req with expire_time := req.expire_time + (n.ntime - req.stime) })
    else if req.stime < n.ntime ∧ 0 < lag then
      (n, lag, { req with expire_time := req.expire_time + lag })
    else (n, lag, req)
  ({ r.1 with stime := r.1.stime + delta_time_ns }, r.2.1,
    { r.2.2 with expire_time := r.2.2.expire_time + 1000 })

/-- Whichever branch is taken, the request keeps its identity and expires at
least 1000 ns later than before. -/
theorem calculate_req (n : Nic) (lag : ℚ) (req : RdmaReq) (delta_time_ns : ℚ) :
    (n.calculate lag req delta_time_ns).2.2.req_id = req.req_id ∧
    (n.calculate lag req delta_time_ns).2.2.stime = req.stime ∧
    req.expire_time + 1000 ≤
      (n.calculate lag req delta_time_ns).2.2.expire_time := by
  simp only [calculate]
  split
  · refine ⟨rfl, rfl, ?_⟩
    show req.expire_time + 1000 ≤ req.expire_time + 1000 + 1000
    linarith
  · rename_i hBusy
    split
    · refine ⟨rfl, rfl, ?_⟩
      show req.expire_time + 1000 ≤
        req.expire_time + (n.ntime - req.stime) + 1000
      linarith
    · split
      · rename_i hLag
        refine ⟨rfl, rfl, ?_⟩
        show req.expire_time + 1000 ≤ req.expire_time + lag + 1000
        linarith [hLag.2]
      · exact ⟨rfl, rfl, le_refl _⟩

end Nic

end MioBench.Sync
