import MioBench.Programs.ChunkStripe
import MioBench.Programs.MultiTurn
import MioBench.Sync.NoWait
import MioBench.Sync.SweepCleanup

/-!
# Failing creations

`run_one_sweep` of `test2.c` cleans up after a failing creation.  So does
`read_cumulative` of `test3-mt.c`, up to the scratch buffers: its
`xaligned_alloc` maps them and its clean-up passes them to `free`.  The
clean-up of `read_rdma` of `test4-nowait.c` waits for readers there are not.
-/

namespace MioBench.Store

open MioBench.Lib MioBench.Sync

/-- A failing creation is met: only an allocation that is made can fail. -/
theorem createFails_of_failure {p : Sweep} {k : Nat} {kind : CreateFail}
    (hFailure : p.failure = some (k, kind))
    (hMade : kind = .scratchAlloc → p.copy_to_dst = true) :
    p.createFails k = some kind := by
  unfold Sweep.createFails
  rw [hFailure]
  cases kind with
  | scratchAlloc => simp [hMade rfl]
  | pthreadCreate => simp

/-- After every failing creation `run_one_sweep` cleans up, and
`read_cumulative` does when there is no mapped buffer to free: without
copying, or when the first allocation is the one to fail. -/
theorem failureCleanup_iff (store : Memory) (k : Nat) (kind : CreateFail)
    (scratch : Nat → Memory) :
    (∀ (cfg : Cfg) (chunks_per_block active_requests : Nat),
      active_requests < 2 ^ 32 → cfg.req_per_blocks < 2 ^ 32 →
      k < active_requests → (kind = .scratchAlloc → cfg.copy_to_dst = true) →
      CleansUp (runOneSweep cfg store chunks_per_block active_requests
        (some (k, kind)) scratch)) ∧
    ∀ (cfg : MultiTurn.Cfg) (chunk_bytes turn : Nat),
      cfg.requests < 2 ^ 32 → k < cfg.requests →
      (kind = .scratchAlloc → cfg.copy_to_dst = true) →
      (CleansUp (MultiTurn.readCumulative cfg store chunk_bytes turn
          (some (k, kind)) scratch) ↔
        cfg.copy_to_dst = false ∨ (k = 0 ∧ kind = .scratchAlloc)) := by
  constructor
  · intro cfg chunks_per_block active_requests hRequests hBlocks hk hMade
    have hKind := createFails_of_failure (p := runOneSweep cfg store
      chunks_per_block active_requests (some (k, kind)) scratch) rfl hMade
    have hLess : cfg.req_per_blocks < 2 ^ 64 := by omega
    exact failedSweep_cleansUp hk (by simp [hKind]) hRequests hLess
      (Or.inl rfl)
  · intro cfg chunk_bytes turn hRequests hk hMade
    have hKind := createFails_of_failure (p := MultiTurn.readCumulative cfg store
      chunk_bytes turn (some (k, kind)) scratch) rfl hMade
    rw [failedSweep_cleansUp_iff hk (by simp [hKind]) hRequests
      (Nat.mod_lt _ (by decide)), FreesHeap, hKind]
    simp [MultiTurn.readCumulative]

/-- Two readers, the second of which cannot be created. -/
theorem failureCleanup_iff_two :
    CleansUp (runOneSweep { defaultCfg with sweep_max := 32 } (fun _ => 0) 1 2
      (some (1, .pthreadCreate)) fun _ _ => 0) ∧
    (CleansUp (MultiTurn.readCumulative { MultiTurn.defaultCfg with requests := 2 }
        (fun _ => 0) 1 1 (some (1, .pthreadCreate)) fun _ _ => 0) ↔
      true = false ∨ (1 = 0 ∧ CreateFail.pthreadCreate = .scratchAlloc)) :=
  ⟨(failureCleanup_iff (fun _ => 0) 1 .pthreadCreate _).1 _ 1 2 (by decide)
      (by decide) (by decide) (by decide),
    (failureCleanup_iff (fun _ => 0) 1 .pthreadCreate _).2 _ 1 1 (by decide)
      (by decide) (by decide)⟩

/-- `test3-mt.c` with two requests, copying, the second reader of which cannot
be created: the first scratch buffer is mapped and passed to `free`. -/
theorem failureCleanup_not_complete :
    ¬ ∀ (cfg : MultiTurn.Cfg) (store : Memory) (chunk_bytes turn k : Nat)
        (kind : CreateFail) (scratch : Nat → Memory),
      cfg.requests < 2 ^ 32 → k < cfg.requests →
      (kind = .scratchAlloc → cfg.copy_to_dst = true) →
      CleansUp (MultiTurn.readCumulative cfg store chunk_bytes turn
        (some (k, kind)) scratch) := by
  intro h
  have hComplete := h { MultiTurn.defaultCfg with requests := 2 } (fun _ => 0) 1
    1 1 .pthreadCreate (fun _ _ => 0) (by decide) (by decide) (by decide)
  have hHeap := (failedSweep_cleansUp_iff (k := 1) (by decide) (by decide)
    (by decide) (Nat.mod_lt _ (by decide))).mp hComplete
  rcases hHeap with hMaps | hCopies | hFirst
  · cases hMaps
  · cases hCopies
  · cases hFirst.1

/-- `read_rdma` of `test4-nowait.c`. -/
def readRdma (cfg : MultiTurn.Cfg) (store : Memory) (chunk_bytes : Nat)
    (failure : Option (Nat × CreateFail)) (scratch : Nat → Memory) : Sweep where
  active_requests := cfg.requests
  copy_to_dst := cfg.copy_to_dst
  maps_scratch := false
  body :=
    { blocks := cfg.req_per_blocks
      round := fun req blk =>
        readBlock store (MultiTurn.constBlockPtr cfg chunk_bytes req blk)
          cfg.block_bytes cfg.copy_to_dst cfg.verify
          (MultiTurn.verifyBlock cfg req blk) }
  failure := failure
  scratch := scratch

/-- The clean-up of `read_rdma` completes exactly when the first allocation is
what fails.  After any other failure main and the readers it has started can
come to wait for each other. -/
theorem readRdma_completes_iff (cfg : MultiTurn.Cfg) (store : Memory)
    (chunk_bytes k : Nat) (kind : CreateFail) (scratch : Nat → Memory)
    (hRequests : cfg.requests < 2 ^ 32) (hk : k < cfg.requests)
    (hMade : kind = .scratchAlloc → cfg.copy_to_dst = true) :
    (CleanupCompletes (readRdma cfg store chunk_bytes (some (k, kind)) scratch) ↔
      k = 0 ∧ kind = .scratchAlloc) ∧
    (cfg.requests ≤ 2 ^ 31 → ¬ (k = 0 ∧ kind = .scratchAlloc) →
      Hangs (readRdma cfg store chunk_bytes (some (k, kind)) scratch)) := by
  have hKind := createFails_of_failure (p := readRdma cfg store chunk_bytes
    (some (k, kind)) scratch) rfl hMade
  have hFirst := Sweep.failsFirst_iff hKind
  rw [← hFirst]
  exact ⟨noWait_completes hRequests hk (by simp [hKind]),
    fun hHalf => noWait_hangs hk hHalf (by simp [hKind])⟩

/-- Two readers, and no scratch buffer for the first. -/
theorem readRdma_completes_iff_first :
    (CleanupCompletes (readRdma { MultiTurn.defaultCfg with requests := 2 }
        (fun _ => 0) 1 (some (0, .scratchAlloc)) fun _ _ => 0) ↔
      0 = 0 ∧ CreateFail.scratchAlloc = .scratchAlloc) ∧
    (2 ≤ 2 ^ 31 → ¬ (0 = 0 ∧ CreateFail.scratchAlloc = .scratchAlloc) →
      Hangs (readRdma { MultiTurn.defaultCfg with requests := 2 }
        (fun _ => 0) 1 (some (0, .scratchAlloc)) fun _ _ => 0)) :=
  readRdma_completes_iff _ _ 1 0 .scratchAlloc _ (by decide) (by decide)
    (by decide)

/-- Two readers, the second of which cannot be created: the gate is opened for
three. -/
theorem readRdma_not_completes :
    ¬ ∀ (cfg : MultiTurn.Cfg) (store : Memory) (chunk_bytes k : Nat)
        (kind : CreateFail) (scratch : Nat → Memory),
      cfg.requests < 2 ^ 32 → k < cfg.requests →
      (kind = .scratchAlloc → cfg.copy_to_dst = true) →
      CleanupCompletes (readRdma cfg store chunk_bytes (some (k, kind))
        scratch) := by
  intro h
  have hComplete := h { MultiTurn.defaultCfg with requests := 2 } (fun _ => 0) 1
    1 .pthreadCreate (fun _ _ => 0) (by decide) (by decide) (by decide)
  have hFirst := (noWait_completes (k := 1) (by decide) (by decide)
    (by decide)).mp hComplete
  cases hFirst

end MioBench.Store
