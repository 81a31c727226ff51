import Mathlib.Data.List.GetD
import Mathlib.Data.List.Sort
import Mathlib.Order.Bounds.Defs
import MioBench.Bench.LatencyLog
import MioBench.Lib.Collation

/-!
# The latency columns of a summary

`agg_lat` of `run_all_devdax.sh`, which `custom-runner.sh` repeats: of the lines
of a latency log those that are a number are sorted with `sort -n` and put into
an awk array, whose elements at the ranks `int(n * 0.5)` and `int(n * 0.99)` are
printed with two decimals as p50 and p99.  The array starts at 1, `sort -n` does
not read the exponents that the log has from a millisecond on, and the log may
have more than two decimals.
-/

namespace MioBench.Bench

open MioBench.Lib

/-! ## The pipeline -/

/-- What separates fields. -/
def fieldSep (c : Char) : Bool := c == ' ' || c == '\t'

/-- `grep -v '^#'`. -/
def grepV (lines : List (List Char)) : List (List Char) :=
  lines.filter fun line => line.head? != some '#'

/-- The fields of a line, of which there are `NF`. -/
def fields (line : List Char) : List (List Char) :=
  (line.splitOnP fieldSep).filter (· ≠ [])

/-- The number that a field is, if it looks like one. -/
def strnum (field : List Char) : Option ℚ :=
  match signOf field with
  | (sign, number) =>
      match leadingDecimal number with
      | (whole, fraction, rest) =>
          if whole ++ fraction = [] then none
          else (readExponent rest).map fun e =>
            (if sign = .minus then -1 else 1) * (fixedValue whole fraction * 10 ^ e)

/-- `NF==1 && $1+0==$1`: a field that does not look like a number is compared as
a string, and differs. -/
def awkNumeric (line : List Char) : Bool :=
  match fields line with
  | [field] => (strnum field).isSome
  | _ => false

/-- The number `sort -n` reads at the head of a line: no exponent, and no sign
but a minus. -/
def sortKey (line : List Char) : ℚ :=
  match line.dropWhile fieldSep with
  | '-' :: number =>
      -fixedValue (leadingDecimal number).1 (leadingDecimal number).2.1
  | number => fixedValue (leadingDecimal number).1 (leadingDecimal number).2.1

/-- `sort -n`, where lines with the same number are in the order of the
locale. -/
def sortN (locale : Collation (List Char)) (lines : List (List Char)) :
    List (List Char) :=
  (locale.byKey sortKey).sort lines

/-- The numbers of awk: a text, and the result of an operation, is the double for
its value. -/
structure Awk where
  double : ℚ → ℚ
  nonneg : ∀ x, 0 ≤ x → 0 ≤ double x

/-- The value of `$1`. -/
def firstField (line : List Char) : ℚ :=
  ((fields line).head?.bind strnum).getD 0

/-- The array `v`, from `v[1]` on. -/
def latencies (awk : Awk) (locale : Collation (List Char))
    (file : List (List Char)) : List ℚ :=
  (sortN locale ((grepV file).filter awkNumeric)).map fun line =>
    awk.double (firstField line)

/-- `v[k]`: an element that has not been set counts as 0. -/
def element (v : List ℚ) (k : Nat) : ℚ :=
  if k = 0 then 0 else v.getD (k - 1) 0

/-- `int(n*0.5)` for 50 and `int(n*0.99)` for 99. -/
def Awk.rank (awk : Awk) (n percent : Nat) : Nat :=
  ⌊awk.double (n * awk.double (percent / (100 : Nat)))⌋₊

/-- `s`, after the last line. -/
def Awk.sum (awk : Awk) (v : List ℚ) : ℚ :=
  v.foldl (fun s x => awk.double (s + x)) 0

/-- What the last `printf` prints. -/
structure Summary where
  mean : DecimalText
  p50 : DecimalText
  p99 : DecimalText
  n : Nat
  fixed : mean.exponent = none ∧ p50.exponent = none ∧ p99.exponent = none

/-- `none` is `NA NA NA 0`. -/
def aggLat (awk : Awk) (locale : Collation (List Char))
    (file : List (List Char)) : Option Summary :=
  let v := latencies awk locale file
  let n := v.length
  if n = 0 then none
  else
    some
      { mean := printfFixed2 (awk.double (awk.sum v / n))
        p50 := printfFixed2 (element v (awk.rank n 50))
        p99 := printfFixed2 (element v (awk.rank n 99))
        n := n
        fixed := ⟨rfl, rfl, rfl⟩ }

/-- The awk of a machine with binary64 numbers. -/
def binary64Awk : Awk where
  double := nearestDouble
  nonneg x _ := nearestDouble_nonneg x

/-! ## What is expected of it -/

/-- The values of a log of these samples. -/
def logValues (samples : List ℚ) : List ℚ :=
  samples.map fun x => (ostreamDouble x).value

/-- The summary of a log consists of order statistics of its values. -/
structure OrderStatistics (awk : Awk) (locale : Collation (List Char))
    (samples : List ℚ) (cpu_freq_ghz : ℚ) (summary : Summary) : Prop where
  p50_mem : summary.p50.value ∈ logValues samples
  p99_mem : summary.p99.value ∈ logValues samples
  least_le : ∀ least, IsLeast {y | y ∈ logValues samples} least →
    least ≤ summary.p50.value
  p50_le_p99 : summary.p50.value ≤ summary.p99.value
  le_greatest : ∀ greatest, IsGreatest {y | y ∈ logValues samples} greatest →
    summary.p99.value ≤ greatest
  sorted : (latencies awk locale
    (saveLatencyLog samples cpu_freq_ghz)).Pairwise (· ≤ ·)

/-- The indices are those of exact arithmetic. -/
def Awk.ExactRanks (awk : Awk) (n : Nat) : Prop :=
  awk.rank n 50 = n * 50 / 100 ∧ awk.rank n 99 = n * 99 / 100

instance (awk : Awk) (n : Nat) : Decidable (awk.ExactRanks n) :=
  inferInstanceAs (Decidable (_ ∧ _))

/-- What awk makes of the numbers of a log. -/
def Awk.numbers (awk : Awk) (samples : List ℚ) : List ℚ :=
  samples.map fun x => awk.double (ostreamDouble x).value

/-- The `k`-th smallest number, counted from 1. -/
def orderStatistic (l : List ℚ) (k : Nat) : ℚ := (l.mergeSort (· ≤ ·)).getD (k - 1) 0

/-- `sort -n` puts the line of the one number in front of that of the other. -/
def SortsBefore (locale : Collation (List Char)) (d d' : DecimalText) : Prop :=
  d.significand < d'.significand ∨
    (d.significand = d'.significand ∧ locale.le d.text d'.text = true)

/-- No sample is read as less than another one and sorted behind it. -/
def SortsByNumber (awk : Awk) (locale : Collation (List Char))
    (samples : List ℚ) : Prop :=
  ∀ x ∈ samples, ∀ y ∈ samples,
    awk.double (ostreamDouble x).value < awk.double (ostreamDouble y).value →
      SortsBefore locale (ostreamDouble x) (ostreamDouble y)

/-- Two decimals are enough for the number at a rank. -/
def PrintsValue (awk : Awk) (samples : List ℚ) (percent : Nat) : Prop :=
  (printfFixed2 (orderStatistic (awk.numbers samples)
    (samples.length * percent / 100))).value ∈ logValues samples

/-! ## Reading the log back -/

section Text

variable (d : DecimalText)

theorem fieldSep_of_mem_text {c : Char} (h : c ∈ d.text) : fieldSep c = false := by
  rcases d.mem_text h with hDigit | rfl | rfl | rfl | rfl
  · by_contra hBlank
    rw [Bool.not_eq_false, fieldSep, Bool.or_eq_true, beq_iff_eq, beq_iff_eq]
      at hBlank
    rcases hBlank with rfl | rfl
    · cases hDigit
    · cases hDigit
  · rfl
  · rfl
  · rfl
  · rfl

theorem text_ne : d.text ≠ [] := by
  obtain ⟨c, hHead, -⟩ := d.head_text
  intro hNil
  rw [hNil] at hHead
  cases hHead

theorem fields_text : fields d.text = [d.text] := by
  rw [fields, List.splitOnP_eq_singleton fun c hc => fieldSep_of_mem_text d hc]
  simp [text_ne d]

theorem strnum_text : strnum d.text = some d.value := by
  have hSign : signOf d.text = (.absent, d.text) :=
    @signOf_append .absent _ d.head_text
  have hDigits : d.whole ++ d.fraction ≠ [] := fun hNil =>
    d.whole_ne (List.append_eq_nil_iff.mp hNil).1
  simp only [strnum, hSign, d.leadingDecimal_text,
    DecimalText.readExponent_text, if_neg hDigits]
  simp [DecimalText.value, DecimalText.significand]

theorem awkNumeric_text : awkNumeric d.text = true := by
  simp [awkNumeric, fields_text, strnum_text]

theorem firstField_text : firstField d.text = d.value := by
  simp [firstField, fields_text, strnum_text]

theorem sortKey_text : sortKey d.text = d.significand := by
  obtain ⟨c, hHead, hDigit⟩ := d.head_text
  have hBlank := fun c => @fieldSep_of_mem_text d c
  have hLeading := d.leadingDecimal_text
  generalize d.text = line at hHead hBlank hLeading
  cases line with
  | nil => cases hHead
  | cons a line =>
      obtain rfl : a = c := by simpa using hHead
      have hMinus : a ≠ '-' := by
        rintro rfl
        cases hDigit
      have hFirst : (a :: line).dropWhile fieldSep = a :: line := by
        simp [hBlank a List.mem_cons_self]
      unfold sortKey
      rw [hFirst]
      split
      · rename_i number hEq
        exact absurd (List.cons.inj hEq).1 hMinus
      · rw [hLeading]
        rfl

end Text

/-! ## The array -/

section Array

variable {awk : Awk} {locale : Collation (List Char)} {samples : List ℚ}
  {cpu_freq_ghz : ℚ}

/-- The pipeline in front of `sort -n` leaves the samples. -/
theorem kept_saveLatencyLog :
    (grepV (saveLatencyLog samples cpu_freq_ghz)).filter awkNumeric =
      samples.map fun x => (ostreamDouble x).text := by
  have hHeader : grepV ["# Latency Log (ns)".toList,
      "# Samples: ".toList ++ allDigits 1 samples.length,
      "# CPU Frequency: ".toList ++ (ostreamDouble cpu_freq_ghz).text ++
        " GHz".toList] = [] := by
    simp [grepV]
  have hSamples : grepV (samples.map fun x => (ostreamDouble x).text) =
      samples.map fun x => (ostreamDouble x).text := by
    refine List.filter_eq_self.mpr fun line hLine => ?_
    obtain ⟨x, -, rfl⟩ := List.mem_map.mp hLine
    obtain ⟨c, hHead, hDigit⟩ := (ostreamDouble x).head_text
    have hHash : c ≠ '#' := by
      rintro rfl
      cases hDigit
    simp [hHead, hHash]
  rw [saveLatencyLog, grepV, List.filter_append, ← grepV, ← grepV, hHeader,
    hSamples, List.nil_append]
  refine List.filter_eq_self.mpr fun line hLine => ?_
  obtain ⟨x, -, rfl⟩ := List.mem_map.mp hLine
  exact awkNumeric_text _

theorem latencies_saveLatencyLog :
    latencies awk locale (saveLatencyLog samples cpu_freq_ghz) =
      ((locale.byKey sortKey).sort
        (samples.map fun x => (ostreamDouble x).text)).map fun line =>
          awk.double (firstField line) := by
  rw [latencies, sortN, kept_saveLatencyLog]

/-- The array holds the numbers of the log. -/
theorem latencies_perm :
    (latencies awk locale (saveLatencyLog samples cpu_freq_ghz)).Perm
      (awk.numbers samples) := by
  rw [latencies_saveLatencyLog]
  have hPerm := ((locale.byKey sortKey).sort_perm
    (samples.map fun x => (ostreamDouble x).text)).map fun line =>
      awk.double (firstField line)
  rw [List.map_map] at hPerm
  simpa [Awk.numbers, Function.comp_def, firstField_text] using hPerm

theorem length_latencies :
    (latencies awk locale (saveLatencyLog samples cpu_freq_ghz)).length =
      samples.length := by
  rw [latencies_perm.length_eq, Awk.numbers, List.length_map]

/-- It is in order exactly when `sort -n` puts smaller numbers in front. -/
theorem latencies_sorted_iff :
    (latencies awk locale
        (saveLatencyLog samples cpu_freq_ghz)).Pairwise (· ≤ ·) ↔
      SortsByNumber awk locale samples := by
  rw [latencies_saveLatencyLog, Collation.pairwise_map_sort_iff]
  simp only [List.forall_mem_map, firstField_text, Collation.byKey_le,
    sortKey_text, SortsByNumber, SortsBefore]

theorem latencies_nonneg (hPos : ∀ x ∈ samples, 0 < x) :
    ∀ y ∈ latencies awk locale (saveLatencyLog samples cpu_freq_ghz), 0 ≤ y := by
  intro y hy
  obtain ⟨x, hx, rfl⟩ := List.mem_map.mp (latencies_perm.mem_iff.mp hy)
  exact awk.nonneg _ (ostreamDouble_pos (hPos x hx)).le

theorem awkSum_nonneg {v : List ℚ} (hv : ∀ y ∈ v, 0 ≤ y) : 0 ≤ awk.sum v := by
  have hFrom : ∀ s, 0 ≤ s → 0 ≤ v.foldl (fun s x => awk.double (s + x)) s := by
    induction v with
    | nil => exact fun _ hs => hs
    | cons x l ih =>
        intro s hs
        exact ih (fun y hy => hv y (List.mem_cons_of_mem _ hy)) _
          (awk.nonneg _ (add_nonneg hs (hv x List.mem_cons_self)))
  exact hFrom 0 (le_refl 0)

/-- What is printed of a log is not negative, as `printfFixed2` has it. -/
theorem printed_nonneg (hPos : ∀ x ∈ samples, 0 < x) {v : List ℚ}
    (hLog : v = latencies awk locale (saveLatencyLog samples cpu_freq_ghz)) :
    0 ≤ awk.double (awk.sum v / v.length) ∧ ∀ k, 0 ≤ element v k := by
  have hv : ∀ y ∈ v, 0 ≤ y := by
    rw [hLog]
    exact latencies_nonneg hPos
  refine ⟨awk.nonneg _ (div_nonneg (awkSum_nonneg hv) (Nat.cast_nonneg _)),
    fun k => ?_⟩
  unfold element
  split
  · exact le_refl 0
  · rcases lt_or_ge (k - 1) v.length with hIn | hOut
    · rw [List.getD_eq_getElem _ _ hIn]
      exact hv _ (List.getElem_mem _)
    · rw [List.getD_eq_default _ _ hOut]

/-- The elements of an array in order are the order statistics. -/
theorem element_eq_orderStatistic {v l : List ℚ} (hPerm : v.Perm l)
    (hSorted : v.Pairwise (· ≤ ·)) {k : Nat} (hk : 1 ≤ k) :
    element v k = orderStatistic l k := by
  have hMerge : v = l.mergeSort (· ≤ ·) :=
    (hPerm.trans (List.mergeSort_perm l _).symm).eq_of_pairwise
      (fun _ _ _ _ h h' => le_antisymm h h') hSorted
      (List.pairwise_mergeSort' (· ≤ ·) l)
  rw [element, if_neg (by omega), orderStatistic, ← hMerge]

theorem element_le {v : List ℚ} (hSorted : v.Pairwise (· ≤ ·)) {k k' : Nat}
    (hk : 1 ≤ k) (hLe : k ≤ k') (hk' : k' ≤ v.length) :
    element v k ≤ element v k' := by
  rw [element, if_neg (by omega), element, if_neg (by omega),
    List.getD_eq_getElem _ _ (by omega), List.getD_eq_getElem _ _ (by omega)]
  rcases Nat.eq_or_lt_of_le hLe with rfl | hLt
  · exact le_refl _
  · exact List.pairwise_iff_getElem.mp hSorted _ _ _ _ (by omega)

/-- What is printed for the element `v[0]` is no value of the log. -/
theorem zero_notMem_logValues (hPos : ∀ x ∈ samples, 0 < x) :
    (printfFixed2 0).value ∉ logValues samples := by
  have hZero : (printfFixed2 0).value = 0 := by
    rw [printfFixed2_value]
    norm_num [roundHalfEven]
  intro hMem
  rw [hZero] at hMem
  obtain ⟨x, hx, hValue⟩ := List.mem_map.mp hMem
  exact absurd hValue (ne_of_gt (ostreamDouble_pos (hPos x hx)))

theorem aggLat_saveLatencyLog (hSome : samples ≠ [])
    (hRanks : awk.ExactRanks samples.length) :
    ∃ mean, aggLat awk locale (saveLatencyLog samples cpu_freq_ghz) = some
      { mean := printfFixed2 mean
        p50 := printfFixed2 (element
          (latencies awk locale (saveLatencyLog samples cpu_freq_ghz))
          (samples.length * 50 / 100))
        p99 := printfFixed2 (element
          (latencies awk locale (saveLatencyLog samples cpu_freq_ghz))
          (samples.length * 99 / 100))
        n := samples.length
        fixed := ⟨rfl, rfl, rfl⟩ } := by
  have hNe : samples.length ≠ 0 := fun hZero =>
    hSome (List.length_eq_zero_iff.mp hZero)
  simp only [aggLat, length_latencies, if_neg hNe, hRanks.1, hRanks.2]
  exact ⟨_, rfl⟩

/-- With two samples or more the ranks are elements of the array; with one
sample they are not. -/
theorem orderStatistics_iff_sorted (hSome : samples ≠ [])
    (hPos : ∀ x ∈ samples, 0 < x) (hRanks : awk.ExactRanks samples.length) :
    (∃ summary, aggLat awk locale (saveLatencyLog samples cpu_freq_ghz) =
        some summary ∧
        OrderStatistics awk locale samples cpu_freq_ghz summary) ↔
      2 ≤ samples.length ∧
        (latencies awk locale
          (saveLatencyLog samples cpu_freq_ghz)).Pairwise (· ≤ ·) ∧
        PrintsValue awk samples 50 ∧ PrintsValue awk samples 99 := by
  have hLength := @length_latencies awk locale samples cpu_freq_ghz
  have hPerm := @latencies_perm awk locale samples cpu_freq_ghz
  obtain ⟨mean, hAgg⟩ :=
    @aggLat_saveLatencyLog awk locale samples cpu_freq_ghz hSome hRanks
  constructor
  · rintro ⟨summary, hSummary, h⟩
    obtain rfl := Option.some.inj (hAgg.symm.trans hSummary)
    have hTwo : 2 ≤ samples.length := by
      by_contra hFew
      have hPos' := List.length_pos_of_ne_nil hSome
      have hOne : samples.length = 1 := by omega
      have hZero := h.p50_mem
      rw [hOne] at hZero
      exact zero_notMem_logValues hPos hZero
    have h50 := h.p50_mem
    have h99 := h.p99_mem
    dsimp only at h50 h99
    rw [element_eq_orderStatistic hPerm h.sorted (by omega)] at h50 h99
    exact ⟨hTwo, h.sorted, h50, h99⟩
  · rintro ⟨hTwo, hSorted, h50, h99⟩
    unfold PrintsValue at h50 h99
    rw [← element_eq_orderStatistic hPerm hSorted (by omega)] at h50 h99
    exact ⟨_, hAgg,
      { p50_mem := h50
        p99_mem := h99
        least_le := fun least hLeast => hLeast.2 h50
        p50_le_p99 := printfFixed2_mono
          (element_le hSorted (by omega) (by omega) (by omega))
        le_greatest := fun greatest hGreatest => hGreatest.2 h99
        sorted := hSorted }⟩

end Array

/-- In the fixed notation the number is read as it stands. -/
theorem sortsBefore_of_fixed {locale : Collation (List Char)} {x y : ℚ}
    (hx : 1 / 10 ^ 4 ≤ x ∧ x < 10 ^ 6 - 1 / 2)
    (hy : 1 / 10 ^ 4 ≤ y ∧ y < 10 ^ 6 - 1 / 2)
    (hLt : (ostreamDouble x).value < (ostreamDouble y).value) :
    SortsBefore locale (ostreamDouble x) (ostreamDouble y) := by
  rw [DecimalText.value_of_fixed (ostreamDouble_fixed hx.1 hx.2),
    DecimalText.value_of_fixed (ostreamDouble_fixed hy.1 hy.2)] at hLt
  exact Or.inl hLt

/-- Logs without an exponent are sorted, by an awk whose numbers are in the order
of the texts. -/
theorem sortsByNumber_of_fixed {awk : Awk} (hMono : Monotone awk.double)
    (locale : Collation (List Char)) {samples : List ℚ}
    (hFixed : ∀ x ∈ samples, 1 / 10 ^ 4 ≤ x ∧ x < 10 ^ 6 - 1 / 2) :
    SortsByNumber awk locale samples := by
  intro x hx y hy hLt
  refine sortsBefore_of_fixed (hFixed x hx) (hFixed y hy) ?_
  by_contra hNot
  exact absurd hLt (not_lt.mpr (hMono (not_lt.mp hNot)))

/-- **The latency columns**, for every log of positive samples and every
locale: with exact indices p50 and p99 are order statistics of the log exactly
when it has two samples or more, `sort -n` puts the line of a smaller number in
front of that of a greater one, and two decimals are enough for the numbers at
the two ranks. -/
theorem aggLat_orderStatistics_iff (awk : Awk) (locale : Collation (List Char))
    (samples : List ℚ) (cpu_freq_ghz : ℚ) (hSome : samples ≠ [])
    (hPos : ∀ x ∈ samples, 0 < x) (hRanks : awk.ExactRanks samples.length) :
    (∃ summary, aggLat awk locale (saveLatencyLog samples cpu_freq_ghz) =
        some summary ∧
        OrderStatistics awk locale samples cpu_freq_ghz summary) ↔
      2 ≤ samples.length ∧ SortsByNumber awk locale samples ∧
        PrintsValue awk samples 50 ∧ PrintsValue awk samples 99 := by
  rw [orderStatistics_iff_sorted hSome hPos hRanks, latencies_sorted_iff]

/-- Two samples below a millisecond, in whole nanoseconds. -/
theorem aggLat_orderStatistics_iff_two :
    ∃ summary, aggLat binary64Awk byteOrder (saveLatencyLog [250, 120] 2) =
        some summary ∧
      OrderStatistics binary64Awk byteOrder [250, 120] 2 summary := by
  have hFixed : ∀ x ∈ ([250, 120] : List ℚ),
      1 / 10 ^ 4 ≤ x ∧ x < 10 ^ 6 - 1 / 2 := by
    norm_num
  have hSmallest : orderStatistic (binary64Awk.numbers [250, 120]) 1 =
      nearestDouble (ostreamDouble 120).value :=
    (@element_eq_orderStatistic [nearestDouble (ostreamDouble 120).value,
      nearestDouble (ostreamDouble 250).value] (binary64Awk.numbers [250, 120])
      (List.Perm.swap _ _ _) (by decide +kernel) 1 (Nat.le_refl 1)).symm
  have hPrints : (printfFixed2 (orderStatistic
      (binary64Awk.numbers [250, 120]) 1)).value ∈ logValues [250, 120] := by
    rw [hSmallest]
    decide +kernel
  refine (aggLat_orderStatistics_iff binary64Awk byteOrder [250, 120] 2 (by simp)
    ?_ (by decide +kernel)).mpr
    ⟨by simp, sortsByNumber_of_fixed nearestDouble_mono byteOrder hFixed, hPrints,
      hPrints⟩
  norm_num

/-- One sample of 120 ns: the array starts at 1 and is asked for element 0.  Two
samples of 2 ns and a millisecond: the second is printed as `1e+06`, which
`sort -n` takes for 1.  And two samples of 120.456 and 120.457 ns: the first has
rank 1 and is printed as 120.46. -/
theorem aggLat_not_orderStatistics :
    (¬ ∀ (awk : Awk) (locale : Collation (List Char)) (samples : List ℚ)
        (cpu_freq_ghz : ℚ),
      samples ≠ [] → (∀ x ∈ samples, 0 < x) → awk.ExactRanks samples.length →
      ∃ summary, aggLat awk locale (saveLatencyLog samples cpu_freq_ghz) =
        some summary ∧
        OrderStatistics awk locale samples cpu_freq_ghz summary) ∧
    (¬ ∃ summary, aggLat binary64Awk byteOrder (saveLatencyLog [2, 1000000] 2) =
        some summary ∧
        OrderStatistics binary64Awk byteOrder [2, 1000000] 2 summary) ∧
    ¬ ∃ summary, aggLat binary64Awk byteOrder
        (saveLatencyLog [120.456, 120.457] 2) = some summary ∧
        OrderStatistics binary64Awk byteOrder [120.456, 120.457] 2 summary := by
  have hTwo : binary64Awk.ExactRanks 2 := by decide +kernel
  refine ⟨?_, ?_, ?_⟩
  · intro h
    have hPos : ∀ x ∈ ([120] : List ℚ), 0 < x := by norm_num
    have hOne : binary64Awk.ExactRanks 1 := by decide +kernel
    have hOrder := (orderStatistics_iff_sorted (by simp) hPos hOne).mp
      (h binary64Awk byteOrder [120] 2 (by simp) hPos hOne)
    exact absurd hOrder.1 (by decide)
  · intro hSummary
    have hPos : ∀ x ∈ ([2, 1000000] : List ℚ), 0 < x := by norm_num
    have hOrder := (orderStatistics_iff_sorted (by simp) hPos hTwo).mp hSummary
    have hBefore := latencies_sorted_iff.mp hOrder.2.1 2 (by simp) 1000000
      (by simp) (by decide +kernel)
    unfold SortsBefore at hBefore
    exact absurd hBefore (by decide +kernel)
  · intro hSummary
    have hPos : ∀ x ∈ ([120.456, 120.457] : List ℚ), 0 < x := by norm_num
    have hOrder := (orderStatistics_iff_sorted (by simp) hPos hTwo).mp hSummary
    have hPrints := hOrder.2.2.1
    unfold PrintsValue at hPrints
    rw [← @element_eq_orderStatistic
      (binary64Awk.numbers [120.456, 120.457]) _ (List.Perm.refl _)
      (by decide +kernel) _ (by decide)] at hPrints
    exact absurd hPrints (by decide +kernel)

end MioBench.Bench
