import MioBench.Bench.RandomBlocks
import MioBench.Lib.ForLoop
import MioBench.Lib.LowerBound
import MioBench.Lib.Shares
import MioBench.Lib.Shuffle

/-!
# Zipfian sampling

`measureZipfianRead` sums up weights that fall with the rank, searches the
normalised sums for a random number, and reads the block of the rank it finds.
Numbers are exact here, and the weights `1.0 / pow(i + 1, alpha)` any positive
ones.
-/

namespace MioBench.Bench

open Finset MeasureTheory MioBench.Lib

section Model

variable {K : Type*} [Field K] [LinearOrder K]

/-- `cdf.resize(n)`. -/
def resize (cdf : List K) (n : ℕ) : List K :=
  cdf.take n ++ List.replicate (n - cdf.length) 0

/-- `sum` and `cdf` after the first loop. -/
def prefixSums (weight : ℕ → K) (cdf : List K) (n : ℕ) : K × List K :=
  (List.range n).foldl
    (fun s i => (s.1 + weight i, s.2.set i (s.1 + weight i))) (0, resize cdf n)

/-- Both loops; `weight i` is `1.0 / pow((double)(i + 1), alpha)`. -/
def buildZipfianCDF (weight : ℕ → K) (cdf : List K) (n : ℕ) : List K :=
  let s := prefixSums weight cdf n
  (List.range n).foldl (fun cdf i => cdf.modify i (· / s.1)) s.2

def sampleZipfian (cdf : List K) (u : K) : ℕ :=
  lowerBound (fun i => decide (cdf.getD i 0 < u)) cdf.length

/-- `rank_count[rank]++` for each sampled rank. -/
def rankCount (num_blocks : ℕ) (ranks : List ℕ) : List ℕ :=
  ranks.foldl (fun rank_count rank => rank_count.modify rank (· + 1))
    (List.replicate num_blocks 0)

/-- `r` is the rank that `u` stands for. -/
def IsRank (cdf : List K) (u : K) (r : ℕ) : Prop :=
  (r = 0 ∨ cdf.getD (r - 1) 0 < u) ∧ u ≤ cdf.getD r 0

end Model

/-! ## The table -/

section Table

variable {K : Type*} [Field K]

@[simp] theorem length_resize (cdf : List K) (n : ℕ) :
    (resize cdf n).length = n := by
  simp only [resize, List.length_append, List.length_take, List.length_replicate]
  omega

theorem prefixSums_eq (weight : ℕ → K) (cdf : List K) (n : ℕ) :
    prefixSums weight cdf n =
      (∑ i ∈ range n, weight i,
        (List.range n).map fun i => ∑ j ∈ range (i + 1), weight j) := by
  -- After `k` rounds the first `k` sums are stored.
  have hLoop : (prefixSums weight cdf n).1 = ∑ i ∈ range n, weight i ∧
      (prefixSums weight cdf n).2.length = n ∧
      ∀ i, i < n → (prefixSums weight cdf n).2[i]? =
        some (∑ j ∈ range (i + 1), weight j) := by
    refine foldl_range_invariant (fun k (s : K × List K) =>
      s.1 = ∑ i ∈ range k, weight i ∧ s.2.length = n ∧
        ∀ i, i < k → s.2[i]? = some (∑ j ∈ range (i + 1), weight j)) ?_ ?_
    · exact ⟨by simp, length_resize cdf n, fun i hi => absurd hi (Nat.not_lt_zero i)⟩
    · rintro k s hk ⟨hSum, hLength, hStored⟩
      refine ⟨by rw [sum_range_succ, hSum], by simpa using hLength, ?_⟩
      intro i hi
      by_cases hLast : i = k
      · rw [hLast, List.getElem?_set_self (by omega), sum_range_succ, hSum]
      · rw [List.getElem?_set_ne (Ne.symm hLast)]
        exact hStored i (by omega)
  obtain ⟨hSum, hLength, hStored⟩ := hLoop
  refine Prod.ext hSum (List.ext_getElem? fun i => ?_)
  by_cases hi : i < n
  · rw [hStored i hi, List.getElem?_map, List.getElem?_range hi, Option.map_some]
  · rw [List.getElem?_eq_none (by omega), List.getElem?_eq_none (by simpa using hi)]

/-- The table holds where the pieces of the unit interval end. -/
theorem buildZipfianCDF_eq (weight : ℕ → K) (cdf : List K) (n : ℕ) :
    buildZipfianCDF weight cdf n =
      (List.range n).map fun i => share weight n (i + 1) := by
  have hLength : n = (prefixSums weight cdf n).2.length := by
    rw [prefixSums_eq, List.length_map, List.length_range]
  have hLoop := foldl_range_modify (· / (prefixSums weight cdf n).1)
    (prefixSums weight cdf n).2
  rw [← hLength] at hLoop
  rw [buildZipfianCDF, hLoop, prefixSums_eq, List.map_map]
  rfl

@[simp] theorem length_buildZipfianCDF (weight : ℕ → K) (cdf : List K) (n : ℕ) :
    (buildZipfianCDF weight cdf n).length = n := by
  rw [buildZipfianCDF_eq, List.length_map, List.length_range]

theorem getD_buildZipfianCDF (weight : ℕ → K) (cdf : List K) {n i : ℕ}
    (hi : i < n) :
    (buildZipfianCDF weight cdf n).getD i 0 = share weight n (i + 1) := by
  rw [buildZipfianCDF_eq, List.getD_eq_getElem _ _ (by simpa using hi),
    List.getElem_map, List.getElem_range]

variable [LinearOrder K] [IsStrictOrderedRing K] {weight : ℕ → K} {n : ℕ}

/-- The table is strictly increasing. -/
theorem pairwise_buildZipfianCDF (hWeight : ∀ i, i < n → 0 < weight i)
    (cdf : List K) : (buildZipfianCDF weight cdf n).Pairwise (· < ·) := by
  rw [buildZipfianCDF_eq, List.pairwise_map]
  refine List.pairwise_lt_range.imp_of_mem fun {i j} _ hj hij => ?_
  have hjn : j < n := List.mem_range.mp hj
  exact share_lt_share hWeight (by omega) (by omega)

/-- The table ends with 1. -/
theorem getLast?_buildZipfianCDF (hWeight : ∀ i, i < n → 0 < weight i)
    (hn : 0 < n) (cdf : List K) :
    (buildZipfianCDF weight cdf n).getLast? = some 1 := by
  obtain ⟨m, rfl⟩ : ∃ m, n = m + 1 := ⟨n - 1, by omega⟩
  rw [buildZipfianCDF_eq, List.range_succ, List.map_append, List.map_singleton,
    List.getLast?_concat, share_self hWeight hn]

end Table

/-! ## The search -/

section Sample

variable {K : Type*} [Field K] [LinearOrder K] {weight : ℕ → K} {n : ℕ}

/-- The random numbers of a rank are those from its piece of the interval. -/
theorem isRank_iff (cdf : List K) {u : K} (hu : 0 < u) {r : ℕ} (hr : r < n) :
    IsRank (buildZipfianCDF weight cdf n) u r ↔
      share weight n r < u ∧ u ≤ share weight n (r + 1) := by
  rw [IsRank, getD_buildZipfianCDF weight cdf hr]
  refine and_congr_left fun _ => ?_
  cases r with
  | zero => simpa using hu
  | succ r =>
      rw [Nat.add_sub_cancel, getD_buildZipfianCDF weight cdf (by omega)]
      simp

variable [IsStrictOrderedRing K]

theorem downward_buildZipfianCDF (hWeight : ∀ i, i < n → 0 < weight i)
    (cdf : List K) (u : K) :
    Downward (fun i => decide ((buildZipfianCDF weight cdf n).getD i 0 < u)) n := by
  intro i j hij hj hBelow
  have hLe := share_le_share hWeight (Nat.succ_le_succ hij) hj
  rw [decide_eq_true_iff, getD_buildZipfianCDF weight cdf hj] at hBelow
  rw [decide_eq_true_iff, getD_buildZipfianCDF weight cdf (by omega)]
  exact lt_of_le_of_lt hLe hBelow

/-- The search finds the one rank that `u` stands for. -/
theorem sampleZipfian_eq_iff (hWeight : ∀ i, i < n → 0 < weight i)
    (cdf : List K) (u : K) {r : ℕ} (hr : r < n) :
    sampleZipfian (buildZipfianCDF weight cdf n) u = r ↔
      IsRank (buildZipfianCDF weight cdf n) u r := by
  have hDown := downward_buildZipfianCDF hWeight cdf u
  rw [sampleZipfian, length_buildZipfianCDF, lowerBound_eq_iff hDown,
    boundary_iff hDown hr, decide_eq_true_iff, decide_eq_false_iff_not, not_lt,
    IsRank]

/-- The table is 6/11, 9/11, 1; an entry still belongs to its own rank. -/
example : ([0, 6 / 11, 7 / 11, 9 / 11] : List ℚ).map
    (sampleZipfian (buildZipfianCDF (fun i => 1 / ((i : ℚ) + 1)) [] 3)) =
      [0, 0, 1, 1] := by
  decide +kernel

theorem sampleZipfian_lt (hWeight : ∀ i, i < n → 0 < weight i) (hn : 0 < n)
    (cdf : List K) {u : K} (hu : u ≤ 1) :
    sampleZipfian (buildZipfianCDF weight cdf n) u < n := by
  rw [sampleZipfian, length_buildZipfianCDF]
  refine lowerBound_lt (downward_buildZipfianCDF hWeight cdf u) hn ?_
  rw [getD_buildZipfianCDF weight cdf (by omega), Nat.sub_add_cancel hn,
    share_self hWeight hn, decide_eq_false_iff_not, not_lt]
  exact hu

end Sample

/-- A rank is as likely as its weight is of the total. -/
theorem volume_sampleZipfian {weight : ℕ → ℝ} {n : ℕ}
    (hWeight : ∀ i, i < n → 0 < weight i) (cdf : List ℝ) {r : ℕ} (hr : r < n) :
    volume {u | u ∈ Set.Ioo 0 1 ∧
        sampleZipfian (buildZipfianCDF weight cdf n) u = r} =
      ENNReal.ofReal (weight r / ∑ i ∈ range n, weight i) := by
  have hn : 0 < n := by omega
  rw [← share_succ_sub]
  have hPiece : ∀ u ∈ Set.Ioo (0 : ℝ) 1,
      (sampleZipfian (buildZipfianCDF weight cdf n) u = r ↔
        share weight n r < u ∧ u ≤ share weight n (r + 1)) := fun u hu => by
    rw [sampleZipfian_eq_iff hWeight cdf u hr, isRank_iff cdf hu.1 hr]
  have hStart : 0 ≤ share weight n r := share_nonneg hWeight hr.le
  have hEnd : share weight n (r + 1) ≤ 1 := share_le_one hWeight hn hr
  apply volume_of_between
  · rintro u ⟨hLow, hHigh⟩
    have hUnit : u ∈ Set.Ioo (0 : ℝ) 1 :=
      ⟨lt_of_le_of_lt hStart hLow, lt_of_lt_of_le hHigh hEnd⟩
    exact ⟨hUnit, (hPiece u hUnit).mpr ⟨hLow, hHigh.le⟩⟩
  · rintro u ⟨hUnit, hSample⟩
    obtain ⟨hLow, hHigh⟩ := (hPiece u hUnit).mp hSample
    exact ⟨hLow.le, hHigh⟩

/-! ## The counters -/

/-- A counter that exists makes the sum grow by one. -/
theorem sum_modify_succ {counts : List ℕ} {rank : ℕ} (hRank : rank < counts.length) :
    (counts.modify rank (· + 1)).sum = counts.sum + 1 := by
  induction counts generalizing rank with
  | nil => cases hRank
  | cons count counts ih =>
      cases rank with
      | zero =>
          rw [List.modify_zero_cons, List.sum_cons, List.sum_cons]
          omega
      | succ rank =>
          rw [List.modify_succ_cons, List.sum_cons, List.sum_cons,
            ih (Nat.lt_of_succ_lt_succ hRank)]
          omega

/-- As long as all ranks have a counter, every access is counted. -/
theorem rankCount_sum {num_blocks : ℕ} {ranks : List ℕ}
    (hRanks : ∀ rank ∈ ranks, rank < num_blocks) :
    (rankCount num_blocks ranks).length = num_blocks ∧
      (rankCount num_blocks ranks).sum = ranks.length := by
  have hLoop : ∀ (counts : List ℕ), counts.length = num_blocks →
      (ranks.foldl (fun rank_count rank => rank_count.modify rank (· + 1))
          counts).length = num_blocks ∧
        (ranks.foldl (fun rank_count rank => rank_count.modify rank (· + 1))
          counts).sum = counts.sum + ranks.length := by
    induction ranks with
    | nil =>
        intro counts hLength
        exact ⟨hLength, rfl⟩
    | cons rank ranks ih =>
        intro counts hLength
        have hRank := hRanks rank (by simp)
        have hRest := ih (fun r hr => hRanks r (by simp [hr]))
          (counts.modify rank (· + 1)) (by simpa using hLength)
        rw [sum_modify_succ (by omega)] at hRest
        refine ⟨hRest.1, hRest.2.trans ?_⟩
        rw [List.length_cons]
        omega
  obtain ⟨hLength, hSum⟩ :=
    hLoop (List.replicate num_blocks 0) List.length_replicate
  refine ⟨hLength, hSum.trans ?_⟩
  rw [List.sum_replicate_nat, Nat.mul_zero, Nat.zero_add]

/-- Every entry of the access sequence is a block. -/
theorem accessSequence_lt {num_blocks : ℕ} {indices ranks : List ℕ}
    (hPerm : indices.Perm (List.range num_blocks))
    (hRanks : ∀ rank ∈ ranks, rank < num_blocks) :
    ∀ block ∈ accessSequence indices ranks, block < num_blocks := by
  intro block hBlock
  obtain ⟨rank, hRank, rfl⟩ := List.mem_map.mp hBlock
  exact getD_lt_of_perm_range hPerm (hRanks rank hRank)

/-- For all positive weights and every vector passed in, the table is strictly
increasing and ends with 1, and each random number below 1 leads to the one
rank it stands for.  A rank is as likely as its weight is of the total.  All
blocks of the access sequence exist, and each access is counted for its rank. -/
theorem zipfian_sampling (weight : ℕ → ℝ) (resized : List ℝ) (n : ℕ)
    (hn : 0 < n) (hWeight : ∀ i, i < n → 0 < weight i) :
    (buildZipfianCDF weight resized n).length = n ∧
    (buildZipfianCDF weight resized n).Pairwise (· < ·) ∧
    (buildZipfianCDF weight resized n).getLast? = some 1 ∧
    let cdf := buildZipfianCDF weight resized n
    (∀ u, 0 ≤ u → u < 1 → sampleZipfian cdf u < n ∧
      ∀ r, r < n → (sampleZipfian cdf u = r ↔ IsRank cdf u r)) ∧
    (∀ r, r < n → volume {u | u ∈ Set.Ioo 0 1 ∧ sampleZipfian cdf u = r} =
      ENNReal.ofReal (weight r / ∑ i ∈ range n, weight i)) ∧
    (∀ (indices : List ℕ) (us : List ℝ), indices.Perm (List.range n) →
      us.length = n → (∀ u ∈ us, 0 ≤ u ∧ u < 1) →
      let ranks := us.map (sampleZipfian cdf)
      (accessSequence indices ranks).length = n ∧
      (∀ block ∈ accessSequence indices ranks, block < n) ∧
      (rankCount n ranks).length = n ∧ (rankCount n ranks).sum = n) := by
  have hLt : ∀ u, u < 1 →
      sampleZipfian (buildZipfianCDF weight resized n) u < n := fun u hu =>
    sampleZipfian_lt hWeight hn resized hu.le
  refine ⟨length_buildZipfianCDF weight resized n,
    pairwise_buildZipfianCDF hWeight resized,
    getLast?_buildZipfianCDF hWeight hn resized,
    fun u _ hu => ⟨hLt u hu, fun r hr => sampleZipfian_eq_iff hWeight resized u hr⟩,
    fun r hr => volume_sampleZipfian hWeight resized hr, ?_⟩
  intro indices us hPerm hLength hUnit ranks
  have hRanks : ∀ rank ∈ ranks, rank < n := by
    intro rank hRank
    obtain ⟨u, hu, rfl⟩ := List.mem_map.mp hRank
    exact hLt u (hUnit u hu).2
  have hCount : ranks.length = n := by rw [List.length_map, hLength]
  obtain ⟨hCounters, hSum⟩ := rankCount_sum hRanks
  exact ⟨by rw [accessSequence, List.length_map, hCount],
    accessSequence_lt hPerm hRanks, hCounters, hSum.trans hCount⟩

/-- Three blocks whose weights are 1, 1/2 and 1/3, the zipfian ones for
`alpha = 1`: the hottest is read with a chance of 6/11. -/
theorem zipfian_sampling_three :
    volume {u : ℝ | u ∈ Set.Ioo 0 1 ∧ sampleZipfian
        (buildZipfianCDF (fun i => 1 / ((i : ℝ) + 1)) [] 3) u = 0} =
      ENNReal.ofReal (6 / 11) := by
  have hFirst := (zipfian_sampling (fun i => 1 / ((i : ℝ) + 1)) [] 3 (by decide)
    (fun i _ => by positivity)).2.2.2.2.1 0 (by decide)
  rw [hFirst]
  norm_num [sum_range_succ]

end MioBench.Bench
