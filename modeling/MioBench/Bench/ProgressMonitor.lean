import MioBench.Bench.BandwidthOutcome

/-!
# The progress of a bandwidth test

`ProgressMonitor` counts the bytes its threads pass on; `print_progress` reads
the count from time to time and once more when the monitor is stopped, and prints
it in GiB and as a percentage, rounded.  What it reads never runs ahead of the
threads, and what it reads last is what all of them have passed on.
-/

namespace MioBench.Bench

open MioBench.Lib

/-! ## The count -/

/-- How many of its `n` calls of `add_bytes` a thread has made. -/
def WorkerPc.calls (n : Nat) : WorkerPc → Nat
  | unborn | begin | waitStart => 0
  | work calls => calls
  | _ => n

/-- What thread `t` has passed on. -/
def passedOn (p : BandwidthTest) (s : BandwidthState) (t : Nat) : Nat :=
  ((p.added t).take ((s.worker t).calls (p.added t).length)).sum

/-- What all threads have passed on. -/
def passedOnAll (p : BandwidthTest) (s : BandwidthState) : Nat :=
  ∑ t ∈ Finset.range p.num_threads, passedOn p s t

section Count

variable {p : BandwidthTest} {s s' : BandwidthState}

theorem passedOn_le (p : BandwidthTest) (s : BandwidthState) (t : Nat) :
    passedOn p s t ≤ (p.added t).sum := by
  have hSplit := List.sum_take_add_sum_drop (p.added t)
    ((s.worker t).calls (p.added t).length)
  unfold passedOn
  omega

/-- The counts of the threads that stand still stay. -/
theorem passedOn_congr {t : Nat} (h : s'.worker t = s.worker t) :
    passedOn p s' t = passedOn p s t := by
  rw [passedOn, passedOn, h]

/-- What one step of a thread adds to its count, it adds to the counter. -/
theorem WorkerMove.counts {t : Nat} (h : WorkerMove p s s' t)
    (hLt : s.bytes_processed < 2 ^ 64) :
    ∃ bytes, passedOn p s' t = passedOn p s t + bytes ∧
      s'.bytes_processed = (s.bytes_processed + bytes) % 2 ^ 64 := by
  -- A step that passes nothing on.
  have hNothing : s'.bytes_processed = s.bytes_processed →
      passedOn p s' t = passedOn p s t →
      ∃ bytes, passedOn p s' t = passedOn p s t + bytes ∧
        s'.bytes_processed = (s.bytes_processed + bytes) % 2 ^ 64 :=
    fun hBytes hPassed => ⟨0, hPassed, by
      rw [hBytes, Nat.add_zero, Nat.mod_eq_of_lt hLt]⟩
  -- The positions behind the loop have made all calls.
  have hAll : ∀ pc : WorkerPc, pc.calls (p.added t).length = (p.added t).length →
      s'.worker t = pc → (p.added t).length ≤ (s.worker t).calls (p.added t).length →
      passedOn p s' t = passedOn p s t := by
    intro pc hpc hNew hOld
    rw [passedOn, passedOn, hNew, hpc, List.take_length,
      List.take_of_length_le hOld]
  have hTrace : (BandwidthState.afterTrace p).calls (p.added t).length =
      (p.added t).length := by
    rcases BandwidthState.afterTrace_cases p with ⟨hNext, _⟩ | ⟨hNext, _⟩
    all_goals rw [hNext]; rfl
  cases h with
  | begin hpc hEq =>
      refine hNothing (by rw [hEq]; rfl) ?_
      have hNew : s'.worker t = .waitStart := by
        rw [hEq]
        exact BandwidthState.setWorker_self s t _
      rw [passedOn, passedOn, hNew, hpc]
      rfl
  | wait _ _ hEq => exact hNothing (by rw [hEq]) (by rw [hEq])
  | go hpc _ hEq =>
      refine hNothing (by rw [hEq]; rfl) ?_
      rw [passedOn, passedOn, hEq, BandwidthState.setWorker_self, hpc]
      rfl
  | add calls bytes hpc hCall hEq =>
      refine ⟨bytes, ?_, by rw [hEq]⟩
      have hNew : s'.worker t = .work (calls + 1) := by
        rw [hEq]
        exact BandwidthState.setWorker_self s t _
      rw [passedOn, passedOn, hNew, hpc]
      simp only [WorkerPc.calls]
      rw [List.take_add_one, hCall, List.sum_append]
      rfl
  | worked calls hpc hEnd hEq =>
      refine hNothing (by rw [hEq]; rfl) ?_
      have hLong : (p.added t).length ≤ (s.worker t).calls (p.added t).length := by
        rw [hpc]
        exact List.getElem?_eq_none_iff.mp hEnd
      refine hAll (BandwidthState.afterWork p) ?_ ?_ hLong
      · rcases BandwidthState.afterWork_cases p with ⟨hNext, _⟩ | ⟨hNext, _⟩
        · rw [hNext]
          rfl
        · rw [hNext, hTrace]
      · rw [hEq, BandwidthState.setWorker_self]
  | lockTrace log hpc _ hEq =>
      refine hNothing (by rw [hEq]; rfl)
        (hAll .tracePush rfl ?_ (by rw [hpc]; exact Nat.le_refl _))
      rw [hEq]
      exact BandwidthState.setWorker_self s t _
  | pushTrace log _ _ hEq =>
      exact hNothing (by rw [hEq]) (passedOn_congr (by rw [hEq]))
  | unlockTrace hpc _ hEq =>
      refine hNothing (by rw [hEq]; rfl)
        (hAll _ hTrace ?_ (by rw [hpc]; exact Nat.le_refl _))
      rw [hEq]
      exact BandwidthState.setWorker_self s t _
  | lockLatency log hpc _ hEq =>
      refine hNothing (by rw [hEq]; rfl)
        (hAll .latencyInsert rfl ?_ (by rw [hpc]; exact Nat.le_refl _))
      rw [hEq]
      exact BandwidthState.setWorker_self s t _
  | insertLatency log _ _ hEq =>
      exact hNothing (by rw [hEq]) (passedOn_congr (by rw [hEq]))
  | unlockLatency hpc _ hEq =>
      refine hNothing (by rw [hEq]; rfl)
        (hAll .finished rfl ?_ (by rw [hpc]; exact Nat.le_refl _))
      rw [hEq]
      exact BandwidthState.setWorker_self s t _

/-- One step of the test: what it adds to the count of all threads, it adds to
the counter. -/
theorem bandwidth_counts (hs : (bandwidthMachine p).Reachable s)
    (hLt : s.bytes_processed < 2 ^ 64) {e : BandwidthEvent}
    (hStep : (bandwidthMachine p).next s e = some s') :
    ∃ bytes, passedOnAll p s' = passedOnAll p s + bytes ∧
      s'.bytes_processed = (s.bytes_processed + bytes) % 2 ^ 64 := by
  have hNothing : s'.bytes_processed = s.bytes_processed →
      (∀ t, passedOn p s' t = passedOn p s t) →
      ∃ bytes, passedOnAll p s' = passedOnAll p s + bytes ∧
        s'.bytes_processed = (s.bytes_processed + bytes) % 2 ^ 64 :=
    fun hBytes hPassed => ⟨0, sum_range_same fun t _ => hPassed t, by
      rw [hBytes, Nat.add_zero, Nat.mod_eq_of_lt hLt]⟩
  cases e with
  | main =>
      cases bandwidthMain_cases hStep with
      | create t hpc _ hEq =>
          refine hNothing (by rw [hEq]; rfl) fun u => ?_
          have hWorker : s'.worker = (s.setWorker t .begin).worker := by rw [hEq]
          by_cases hu : u = t
          · rw [hu, passedOn, passedOn, hWorker, BandwidthState.setWorker_self,
              unborn_worker hs hpc]
            rfl
          · exact passedOn_congr (by
              rw [hWorker, BandwidthState.setWorker_other s _ hu])
      | _ => subst s'; exact hNothing rfl fun t => rfl
  | monitor =>
      cases monitor_cases hStep
      all_goals subst s'; exact hNothing rfl fun t => rfl
  | worker t =>
      have hMove := worker_cases hStep
      obtain ⟨bytes, hMine, hCounter⟩ := hMove.counts hLt
      have hSum := sum_range_change (f := passedOn p s) (g := passedOn p s')
        (worker_lt hs hMove.active.1)
        fun u hu => passedOn_congr (hMove.frame.other u hu)
      refine ⟨bytes, ?_, hCounter⟩
      unfold passedOnAll
      omega

/-- The counter holds what all threads have passed on. -/
theorem bandwidth_bytes_processed (hs : (bandwidthMachine p).Reachable s) :
    s.bytes_processed = passedOnAll p s % 2 ^ 64 := by
  refine hs.invariant
    (P := fun s => s.bytes_processed = passedOnAll p s % 2 ^ 64) ?_ ?_
  · have hNone : passedOnAll p (bandwidthMachine p).start = 0 :=
      Finset.sum_eq_zero fun t _ => rfl
    rw [hNone]
    rfl
  · intro s e s' hReach h hStep
    obtain ⟨bytes, hPassed, hCounter⟩ := bandwidth_counts hReach
      (by rw [h]; exact Nat.mod_lt _ (by decide)) hStep
    rw [hCounter, hPassed, h, Nat.mod_add_mod]

end Count

/-! ## What is read -/

section Lines

variable {p : BandwidthTest} {s s' : BandwidthState}

/-- Main has started the monitor. -/
@[simp] def BandwidthPc.monitored : BandwidthPc → Bool
  | create _ | waitReady | startMonitor => false
  | _ => true

/-- The monitor is stopped by main, reads the counter once more when it is, and
main waits for that. -/
structure MonitorInv (s : BandwidthState) : Prop where
  born : s.main.monitored = true → s.monitor ≠ .unborn
  stop : s.stop_flag = true →
    s.main = .joinMonitor ∨ s.main = .save ∨ s.main = .returned
  stopped : s.main = .joinMonitor → s.stop_flag = true
  last : s.monitor = .last ∨ s.monitor = .finished → s.stop_flag = true
  done : s.main = .save ∨ s.main = .returned → s.monitor = .finished
  line : s.monitor = .finished → s.processed.getLast? = some s.bytes_processed

theorem MonitorInv.joinedAll (h : MonitorInv s) (hStop : s.stop_flag = true) :
    s.main.joinedAll = true := by
  rcases h.stop hStop with hpc | hpc | hpc
  all_goals rw [hpc]; rfl

theorem MonitorInv.main (h : MonitorInv s) (hMove : BandwidthMainMove p s s') :
    MonitorInv s' := by
  have hDown : s.main.joinedAll = false → s.stop_flag = false := fun hpc =>
    Bool.eq_false_iff.mpr fun hUp =>
      Bool.false_ne_true (hpc.symm.trans (h.joinedAll hUp))
  cases hMove with
  | waitReady _ _ hEq => exact hEq.symm ▸ h
  | startMonitor hpc hEq =>
      have hUp := hDown (by rw [hpc]; rfl)
      subst hEq
      exact ⟨by simp, by simp [hUp], by simp, by simp, by simp, by simp⟩
  | stopMonitor hpc hEq =>
      subst hEq
      exact ⟨fun _ => h.born (by rw [hpc]; rfl), by simp, by simp, by simp,
        by simp, h.line⟩
  | joinMonitor hpc hDone hEq =>
      subst hEq
      exact ⟨fun _ => h.born (by rw [hpc]; rfl), by simp, by simp, h.last,
        fun _ => hDone, h.line⟩
  | save hpc hEq =>
      have hDone := h.done (Or.inl hpc)
      subst hEq
      exact ⟨fun _ => h.born (by rw [hpc]; rfl), by simp, by simp, h.last,
        fun _ => hDone, h.line⟩
  | create t hpc _ hEq =>
      have hUp := hDown (by rw [hpc]; rfl)
      subst hEq
      exact ⟨by simp, fun hStop => absurd (hUp.symm.trans hStop) Bool.false_ne_true,
        by simp, h.last, by simp, h.line⟩
  | allCreated t hpc _ hEq =>
      have hUp := hDown (by rw [hpc]; rfl)
      subst hEq
      exact ⟨by simp, by simp [hUp], by simp, h.last, by simp, h.line⟩
  | allReady hpc _ hEq =>
      have hUp := hDown (by rw [hpc]; rfl)
      subst hEq
      exact ⟨by simp, by simp [hUp], by simp, h.last, by simp, h.line⟩
  | startAll hpc hEq =>
      have hUp := hDown (by rw [hpc]; rfl)
      subst hEq
      exact ⟨fun _ => h.born (by rw [hpc]; rfl), by simp [hUp], by simp, h.last,
        by simp, h.line⟩
  | join t hpc _ _ hEq =>
      have hUp := hDown (by rw [hpc]; rfl)
      subst hEq
      exact ⟨fun _ => h.born (by rw [hpc]; rfl), by simp [hUp], by simp, h.last,
        by simp, h.line⟩
  | allJoined t hpc _ hEq =>
      have hUp := hDown (by rw [hpc]; rfl)
      subst hEq
      exact ⟨fun _ => h.born (by rw [hpc]; rfl), by simp [hUp], by simp, h.last,
        by simp, h.line⟩

theorem MonitorInv.monitor (h : MonitorInv s) (hMove : MonitorMove s s') :
    MonitorInv s' := by
  have hNotDone : s.monitor ≠ .finished → ¬ (s.main = .save ∨ s.main = .returned) :=
    mt h.done
  cases hMove with
  | test hpc hEq =>
      have hOpen := hNotDone (by simp [hpc])
      by_cases hFlag : s.stop_flag = true
      · rw [if_pos hFlag] at hEq
        subst hEq
        exact ⟨by simp, h.stop, h.stopped, fun _ => hFlag,
          fun hpc => absurd hpc hOpen, by simp⟩
      · rw [if_neg hFlag] at hEq
        subst hEq
        exact ⟨by simp, h.stop, h.stopped, by simp,
          fun hpc => absurd hpc hOpen, by simp⟩
  | print hpc hEq =>
      have hOpen := hNotDone (by simp [hpc])
      subst hEq
      exact ⟨by simp, h.stop, h.stopped, by simp, fun hpc => absurd hpc hOpen,
        by simp⟩
  | last hpc hEq =>
      have hStop := h.last (Or.inl hpc)
      subst hEq
      exact ⟨by simp, h.stop, h.stopped, fun _ => hStop, fun _ => rfl,
        fun _ => List.getLast?_concat ..⟩

theorem bandwidth_monitorInv (hs : (bandwidthMachine p).Reachable s) :
    MonitorInv s := by
  refine hs.invariant (P := MonitorInv) ?_ ?_
  · exact ⟨by simp [bandwidthMachine, BandwidthState.init],
      by simp [bandwidthMachine, BandwidthState.init],
      by simp [bandwidthMachine, BandwidthState.init],
      by simp [bandwidthMachine, BandwidthState.init],
      by simp [bandwidthMachine, BandwidthState.init],
      by simp [bandwidthMachine, BandwidthState.init]⟩
  · intro s e s' hReach h hStep
    cases e with
    | main => exact h.main (bandwidthMain_cases hStep)
    | monitor => exact h.monitor (monitor_cases hStep)
    | worker t =>
        have hMove := worker_cases hStep
        have hFrame := hMove.frame
        -- After the last call no thread is left to add to the counter.
        have hOpen : s.monitor ≠ .finished := fun hDone =>
          not_workerMove hReach (h.joinedAll (h.last (Or.inr hDone))) hMove
        refine ⟨?_, ?_, ?_, ?_, ?_, ?_⟩
        · rw [hFrame.main, hFrame.monitor]
          exact h.born
        · rw [hFrame.main, hFrame.stop]
          exact h.stop
        · rw [hFrame.main, hFrame.stop]
          exact h.stopped
        · rw [hFrame.monitor, hFrame.stop]
          exact h.last
        · rw [hFrame.main, hFrame.monitor]
          exact h.done
        · rw [hFrame.monitor]
          exact fun hDone => absurd hDone hOpen

/-- What all threads pass on in the end. -/
def BandwidthTest.total (p : BandwidthTest) : Nat :=
  (p.measurement.threads.map fun loop => loop.added.sum).sum

theorem BandwidthTest.sum_added (p : BandwidthTest) :
    ∑ t ∈ Finset.range p.num_threads, (p.added t).sum = p.total :=
  congrArg List.sum (p.map_threads fun loop => loop.added.sum)

theorem passedOnAll_le (p : BandwidthTest) (s : BandwidthState) :
    passedOnAll p s ≤ p.total := by
  rw [← p.sum_added]
  exact Finset.sum_le_sum fun t _ => passedOn_le p s t

/-- When main has joined all threads, they have passed everything on. -/
theorem passedOnAll_joined (hs : (bandwidthMachine p).Reachable s)
    (hpc : s.main.joinedAll = true) : passedOnAll p s = p.total := by
  rw [← p.sum_added]
  refine Finset.sum_congr rfl fun t ht => ?_
  rw [passedOn, worker_finished hs hpc t (Finset.mem_range.mp ht)]
  exact congrArg List.sum (List.take_length ..)

/-- What has been read so far, when the counter cannot wrap around. -/
structure LinesInv (s : BandwidthState) : Prop where
  ordered : s.processed.Pairwise (· ≤ ·)
  behind : ∀ line ∈ s.processed, line ≤ s.bytes_processed

theorem LinesInv.print (h : LinesInv s)
    (hProcessed : s'.processed = s.processed ++ [s.bytes_processed])
    (hBytes : s'.bytes_processed = s.bytes_processed) : LinesInv s' := by
  constructor
  · rw [hProcessed]
    refine List.pairwise_append.mpr ⟨h.ordered, List.pairwise_singleton ..,
      fun line hLine last hLast => ?_⟩
    rw [List.mem_singleton.mp hLast]
    exact h.behind line hLine
  · intro line hLine
    rw [hProcessed] at hLine
    rw [hBytes]
    rcases List.mem_append.mp hLine with hOld | hNew
    · exact h.behind line hOld
    · exact Nat.le_of_eq (List.mem_singleton.mp hNew)

theorem bandwidth_linesInv (hFits : p.total < 2 ^ 64)
    (hs : (bandwidthMachine p).Reachable s) : LinesInv s := by
  refine hs.invariant (P := LinesInv)
    ⟨List.Pairwise.nil, by simp [bandwidthMachine, BandwidthState.init]⟩ ?_
  intro s e s' hReach h hStep
  -- The counter is the count, so it never goes down.
  have hExact : ∀ {s}, (bandwidthMachine p).Reachable s →
      s.bytes_processed = passedOnAll p s := fun hs => by
    rw [bandwidth_bytes_processed hs,
      Nat.mod_eq_of_lt (Nat.lt_of_le_of_lt (passedOnAll_le p _) hFits)]
  have hStays : s'.processed = s.processed → LinesInv s' := by
    intro hProcessed
    obtain ⟨bytes, hMore, _⟩ := bandwidth_counts hReach
      (by rw [bandwidth_bytes_processed hReach]; exact Nat.mod_lt _ (by decide))
      hStep
    have hNow := hExact (hReach.next hStep)
    have hThen := hExact hReach
    refine ⟨hProcessed ▸ h.ordered, fun line hLine => ?_⟩
    have hOld := h.behind line (hProcessed ▸ hLine)
    omega
  cases e with
  | main =>
      cases bandwidthMain_cases hStep
      all_goals exact hStays (by subst s'; rfl)
  | monitor =>
      cases monitor_cases hStep with
      | test _ hEq => exact hStays (by rw [hEq])
      | print _ hEq => exact h.print (by rw [hEq]) (by rw [hEq])
      | last _ hEq => exact h.print (by rw [hEq]) (by rw [hEq])
  | worker t => exact hStays (worker_cases hStep).frame.processed

end Lines

/-- **The progress lines.**  In every run of a bandwidth test the values that
`print_progress` reads for its lines never fall and never run ahead of what the
threads have passed on, when the bytes of the test fit in the counter; and
however many bytes there are, the value for the last line is the counter after
all calls of `add_bytes`. -/
theorem progress_lines (p : BandwidthTest) {s : BandwidthState}
    (hs : (bandwidthMachine p).Reachable s) :
    (p.total < 2 ^ 64 → s.processed.Pairwise (· ≤ ·) ∧
      ∀ line ∈ s.processed, line ≤ passedOnAll p s) ∧
    (s.main = .returned → ∃ counter, p.measurement.FinalCounter counter ∧
      s.processed.getLast? = some counter) := by
  constructor
  · intro hFits
    have hLines := bandwidth_linesInv hFits hs
    refine ⟨hLines.ordered, fun line hLine => ?_⟩
    have hBytes := bandwidth_bytes_processed hs
    have hLe := Nat.mod_le (passedOnAll p s) (2 ^ 64)
    have hLine := hLines.behind line hLine
    omega
  · intro hpc
    have hMonitor := bandwidth_monitorInv hs
    refine ⟨s.bytes_processed, ?_, hMonitor.line (hMonitor.done (Or.inr hpc))⟩
    rw [Measurement.finalCounter_iff, bandwidth_bytes_processed hs,
      passedOnAll_joined hs (by rw [hpc]; rfl)]
    rfl

theorem progress_lines_two :
    ∃ s, (bandwidthMachine twoReaders).Reachable s ∧ s.main = .returned ∧
      (s.processed.Pairwise (· ≤ ·) ∧
        ∀ line ∈ s.processed, line ≤ passedOnAll twoReaders s) ∧
      ∃ counter, twoReaders.measurement.FinalCounter counter ∧
        s.processed.getLast? = some counter := by
  have hs := Machine.reachable_of_exec (m := bandwidthMachine twoReaders)
    (Option.some_get (x := (bandwidthMachine twoReaders).exec
      (bandwidthMachine twoReaders).start twoReadersRun) (by decide)).symm
  have hLines := progress_lines twoReaders hs
  exact ⟨_, hs, by decide, hLines.1 (by decide), hLines.2 (by decide)⟩

end MioBench.Bench
