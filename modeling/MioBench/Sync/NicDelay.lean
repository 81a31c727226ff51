import MioBench.Lib.Transition
import MioBench.Sync.Nic

/-!
# The delay of the windowed NIC

`rnic_thread` of `test2-rdma2.c` with `RNIC_SIMULATE_DELAY`.  The thread stamps
the request it has dequeued and reads the clock until the stamp is past, so the
next request is not dequeued before the last one has expired.  `lag` is a
global: it outlives the thread and is carried into the next sweep.
-/

namespace MioBench.Sync

open MioBench.Lib

/-- The window: 1 ms. -/
def delayWindow : ℚ := 1000000

/-- The `calculate` section: the new NIC, the new `lag` and the stamped
request. -/
def Nic.calculateDelay (n : Nic) (lag delta_time_ns : ℚ) (req : RdmaReq) :
    Nic × ℚ × RdmaReq :=
  let r : Nic × ℚ × RdmaReq :=
    if n.ntime < req.stime then
      ({ n with stime := req.stime, ntime := req.stime + delayWindow }, 0, req)
    else if n.ntime < n.stime + delta_time_ns then
      ({ n with
          stime := n.ntime + delta_time_ns
          ntime := n.ntime + delayWindow },
        n.ntime - req.stime,
        { req with expire_time := req.expire_time + (n.ntime - req.stime) })
    else if req.stime < n.ntime ∧ 0 < lag then
      (n, lag, { req with expire_time := req.expire_time + lag })
    else (n, lag, req)
  ({ r.1 with stime := r.1.stime + delta_time_ns }, r.2.1, r.2.2)

/-- Where the RNIC thread stands: between two sweeps there is none. -/
inductive DelayPc
  | idle
  | polling
  | holding
  deriving DecidableEq, Repr

structure DelayState where
  /-- The last reading of `now_ns`. -/
  clock : ℚ
  pc : DelayPc
  num_readers : Nat
  done : Nat
  nic : Nic
  lag : ℚ
  /-- The requests stamped so far in all sweeps, the latest first. -/
  stamped : List RdmaReq

/-- The steps of the thread, each with the reading of the clock it makes. -/
inductive DelayEvent
  | start (num_readers : Nat) (now : ℚ)
  | dequeue (req_id : Nat) (now : ℚ)
  | hold (now : ℚ)
  | finish

namespace DelayState

def init (boot : ℚ) : DelayState where
  clock := boot
  pc := .idle
  num_readers := 0
  done := 0
  nic := Nic.init
  lag := 0
  stamped := []

/-- A new sweep: a new NIC, whose timeline starts with the thread. -/
def startSweep (s : DelayState) (num_readers : Nat) (now : ℚ) : DelayState :=
  { s with
    clock := now
    pc := .polling
    num_readers := num_readers
    done := 0
    nic := { Nic.init with ntime := now } }

/-- A request is dequeued and stamped. -/
def serve (delta_time_ns : ℚ) (s : DelayState) (req_id : Nat) (now : ℚ) :
    DelayState :=
  let r := s.nic.calculateDelay s.lag delta_time_ns
    { req_id := req_id, stime := now, expire_time := now }
  { s with
    clock := now
    pc := .holding
    nic := r.1
    lag := r.2.1
    stamped := r.2.2 :: s.stamped }

/-- `while (now_ns() < req->expire_time)`, one reading; after the last one the
request is dispatched. -/
def hold (s : DelayState) (now : ℚ) : DelayState :=
  match s.stamped with
  | [] => { s with clock := now }
  | req :: _ =>
      if now < req.expire_time then { s with clock := now }
      else { s with clock := now, pc := .polling, done := s.done + 1 }

end DelayState

/-- Sweep after sweep on a clock that never goes back. -/
def delayMachine (boot delta_time_ns : ℚ) : Machine DelayState DelayEvent where
  start := DelayState.init boot
  next s
    | .start num_readers now =>
        if s.pc = .idle ∧ s.clock ≤ now then
          some (s.startSweep num_readers now)
        else none
    | .dequeue req_id now =>
        if s.pc = .polling ∧ s.done < s.num_readers ∧ s.clock ≤ now then
          some (s.serve delta_time_ns req_id now)
        else none
    | .hold now =>
        if s.pc = .holding ∧ s.clock ≤ now then some (s.hold now) else none
    | .finish =>
        if s.pc = .polling ∧ s.num_readers ≤ s.done then
          some { s with pc := .idle }
        else none

/-! ## One request -/

/-- A delay the simulation may impose. -/
def WithinWindow (x : ℚ) : Prop := 0 ≤ x ∧ x ≤ delayWindow

/-- What a stamped request looks like. -/
def Delayed (req : RdmaReq) : Prop := WithinWindow (req.expire_time - req.stime)

/-- The NIC is at most one window ahead of the clock.  Then the stamp and the
new `lag` are within the window, and the NIC is at most one window ahead of the
stamp. -/
theorem calculateDelay_spec {n : Nic} {lag delta_time_ns : ℚ} {req : RdmaReq}
    (hLag : WithinWindow lag) (hAhead : n.ntime ≤ req.stime + delayWindow)
    (hFresh : req.expire_time = req.stime) :
    let r := n.calculateDelay lag delta_time_ns req
    WithinWindow r.2.1 ∧ Delayed r.2.2 ∧
      r.1.ntime ≤ r.2.2.expire_time + delayWindow := by
  have hZero : WithinWindow 0 := ⟨le_refl _, by decide⟩
  unfold Nic.calculateDelay
  dsimp only
  split
  · refine ⟨hZero, ?_, ?_⟩
    · rw [Delayed, hFresh, sub_self]
      exact hZero
    · show req.stime + delayWindow ≤ req.expire_time + delayWindow
      rw [hFresh]
  · rename_i hBusy
    have hBacklog : WithinWindow (n.ntime - req.stime) :=
      ⟨by linarith, by linarith⟩
    split
    · refine ⟨hBacklog, ?_, ?_⟩
      · show WithinWindow (req.expire_time + (n.ntime - req.stime) - req.stime)
        rw [hFresh, add_sub_cancel_left]
        exact hBacklog
      · show n.ntime + delayWindow ≤
          req.expire_time + (n.ntime - req.stime) + delayWindow
        linarith
    · split
      · refine ⟨hLag, ?_, ?_⟩
        · show WithinWindow (req.expire_time + lag - req.stime)
          rw [hFresh, add_sub_cancel_left]
          exact hLag
        · show n.ntime ≤ req.expire_time + lag + delayWindow
          linarith [hLag.1]
      · refine ⟨hLag, ?_, ?_⟩
        · rw [Delayed, hFresh, sub_self]
          exact hZero
        · show n.ntime ≤ req.expire_time + delayWindow
          rw [hFresh]
          exact hAhead

/-! ## Any number of sweeps -/

/-- What holds between two steps.  The NIC is at most one window ahead of the
next dequeue: of the clock while the thread polls, and of the stamp it is
waiting for otherwise. -/
structure DelayInv (s : DelayState) : Prop where
  lag : WithinWindow s.lag
  stamped : ∀ req ∈ s.stamped, Delayed req
  polling : s.pc = .polling → s.nic.ntime ≤ s.clock + delayWindow
  holding : s.pc = .holding → ∃ req rest, s.stamped = req :: rest ∧
    s.nic.ntime ≤ req.expire_time + delayWindow

theorem DelayInv.serve {s : DelayState} (h : DelayInv s) {delta_time_ns : ℚ}
    (hpc : s.pc = .polling) (req_id : Nat) {now : ℚ} (hClock : s.clock ≤ now) :
    DelayInv (s.serve delta_time_ns req_id now) := by
  have hAhead : s.nic.ntime ≤ now + delayWindow :=
    le_trans (h.polling hpc) (by linarith)
  obtain ⟨hLag, hDelayed, hNext⟩ := @calculateDelay_spec s.nic s.lag
    delta_time_ns { req_id := req_id, stime := now, expire_time := now } h.lag
    hAhead rfl
  refine ⟨hLag, ?_, fun hOther => ?_, fun _ => ⟨_, _, rfl, hNext⟩⟩
  · intro req hMem
    rcases List.mem_cons.mp hMem with rfl | hOld
    · exact hDelayed
    · exact h.stamped req hOld
  · cases hOther

theorem DelayInv.hold {s : DelayState} (h : DelayInv s)
    (hpc : s.pc = .holding) (now : ℚ) : DelayInv (s.hold now) := by
  obtain ⟨req, rest, hStamped, hNext⟩ := h.holding hpc
  unfold DelayState.hold
  split
  · rename_i hNone
    rw [hStamped] at hNone
    cases hNone
  rename_i req' rest' hSame
  rw [hStamped] at hSame
  obtain ⟨rfl, rfl⟩ := List.cons.inj hSame
  split
  · refine ⟨h.lag, h.stamped, fun hOther => ?_, fun _ => ⟨req, rest, ?_, hNext⟩⟩
    · rw [hpc] at hOther
      cases hOther
    · exact hStamped
  · rename_i hPast
    refine ⟨h.lag, h.stamped, fun _ => ?_, fun hOther => ?_⟩
    · show s.nic.ntime ≤ now + delayWindow
      linarith
    · cases hOther

theorem delayMachine_inv {boot delta_time_ns : ℚ} {s : DelayState}
    (hs : (delayMachine boot delta_time_ns).Reachable s) : DelayInv s := by
  refine hs.invariant (P := DelayInv) ?_ ?_
  · refine ⟨⟨le_refl 0, ?_⟩, ?_, fun h => ?_, fun h => ?_⟩
    · show 0 ≤ delayWindow
      decide
    · intro req hMem
      cases hMem
    · cases h
    · cases h
  · intro s e s' _ h hStep
    cases e with
    | start num_readers now =>
        obtain ⟨-, hEq⟩ := Option.ite_none_right_eq_some.mp hStep
        obtain rfl := Option.some.inj hEq
        refine ⟨h.lag, h.stamped, fun _ => ?_, fun hOther => ?_⟩
        · show now ≤ now + delayWindow
          exact le_add_of_nonneg_right (by decide)
        · cases hOther
    | dequeue req_id now =>
        obtain ⟨⟨hpc, -, hClock⟩, hEq⟩ := Option.ite_none_right_eq_some.mp hStep
        obtain rfl := Option.some.inj hEq
        exact h.serve hpc req_id hClock
    | hold now =>
        obtain ⟨⟨hpc, -⟩, hEq⟩ := Option.ite_none_right_eq_some.mp hStep
        obtain rfl := Option.some.inj hEq
        exact h.hold hpc now
    | finish =>
        obtain ⟨-, hEq⟩ := Option.ite_none_right_eq_some.mp hStep
        obtain rfl := Option.some.inj hEq
        refine ⟨h.lag, h.stamped, fun hOther => ?_, fun hOther => ?_⟩
        · cases hOther
        · cases hOther

/-- The simulated delay is at most one window, whatever the service time and
the arrivals, and `lag` never leaves the window. -/
theorem rnicDelay_bounded (boot delta_time_ns : ℚ) {s : DelayState}
    (hs : (delayMachine boot delta_time_ns).Reachable s) :
    (0 ≤ s.lag ∧ s.lag ≤ 1000000) ∧
    ∀ req ∈ s.stamped, 0 ≤ req.expire_time - req.stime ∧
      req.expire_time - req.stime ≤ 1000000 :=
  ⟨(delayMachine_inv hs).lag, (delayMachine_inv hs).stamped⟩

/-- Two sweeps of a service time of 600 µs: the second request of the first is
held for the rest of the window, and its lag is still there in the second. -/
theorem rnicDelay_bounded_two :
    let m := delayMachine 0 600000
    let s := (m.exec m.start
      [.start 2 1000, .dequeue 0 2000, .hold 3000, .dequeue 1 4000,
        .hold 1002000, .finish, .start 1 1003000, .dequeue 0 1003000]).get
        (by decide +kernel)
    (0 ≤ s.lag ∧ s.lag ≤ 1000000) ∧
    ∀ req ∈ s.stamped, 0 ≤ req.expire_time - req.stime ∧
      req.expire_time - req.stime ≤ 1000000 := by
  intro m s
  exact rnicDelay_bounded 0 600000
    (Machine.reachable_of_exec (Option.some_get _).symm)

end MioBench.Sync
