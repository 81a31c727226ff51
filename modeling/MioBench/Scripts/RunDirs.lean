import MioBench.Lib.DecimalText
import MioBench.Lib.Regex
import MioBench.Scripts.Python

/-!
# The names of run directories

`run_sweep` of `sweep_lat_bw.sh` names the directory of a run, and `_MIO_DIR_RE`
of `inho_parser.py` takes the name apart again.  A workload may look like the
parts behind it, and it is matched lazily.  There is still only one way to match:
digits contain no underscore, so the last three underscores of a name are those
in front of `bs`, `t` and `rep`.
-/

namespace MioBench.Scripts

open Lib (Regex Success allDigits)

/-! ## The names that are given -/

/-- The label of a sweep. -/
inductive Label
  | READ
  | WRITE
  deriving DecidableEq, Repr

def Label.text : Label → List Char
  | .READ => "READ".toList
  | .WRITE => "WRITE".toList

/-- `${label,,}` -/
def Label.lower (label : Label) : List Char := label.text.map Char.toLower

/-- One turn of the loops of `run_sweep`. -/
@[ext] structure Run where
  label : Label
  w : List Char
  bs : Nat
  t : Nat
  rep : Nat
  w_ne : w ≠ []
  w_line : '\n' ∉ w

/-- A number in plain decimal. -/
def plain (n : Nat) : List Char := allDigits 1 n

def Run.stem (run : Run) : List Char :=
  run.label.lower ++ ("_".toList ++ (run.w ++ ("_bs".toList ++ (plain run.bs ++
    ("_t".toList ++ (plain run.t ++ ("_rep".toList ++ plain run.rep)))))))

/-! ## Taking a name apart -/

/-- The groups of `_MIO_DIR_RE`. -/
inductive MioGroup
  | rw
  | workload
  | bs
  | threads
  | rep
  deriving DecidableEq, Repr

/-- `_MIO_DIR_RE`:
`^(?P<rw>read|write)_(?P<workload>.+?)_bs(?P<bs>\d+)_t(?P<threads>\d+)_rep(?P<rep>\d+)$`. -/
def mioDirRe (py : Python) : Regex MioGroup :=
  .seq .atStart (.seq (.group .rw (.alt (.lit "read".toList) (.lit "write".toList)))
    (.seq (.lit "_".toList) (.seq (.group .workload (.plus true (· != '\n')))
      (.seq (.lit "_bs".toList) (.seq (.group .bs (.plus false py.isDecimal))
        (.seq (.lit "_t".toList) (.seq (.group .threads (.plus false py.isDecimal))
          (.seq (.lit "_rep".toList) (.seq (.group .rep (.plus false py.isDecimal))
            .atEnd)))))))))

/-- A directory: its name and the paths of its `.txt` files. -/
structure Dir where
  name : List Char
  txts : List (List Char)

/-- What tells runs apart. -/
structure MioKey where
  rw : List Char
  workload : List Char
  block_size : Nat
  threads : Nat
  rep : Nat
  deriving DecidableEq, Repr

structure MioRecord (py : Python) extends MioKey where
  bw_gbps : py.Double
  path : Dir

/-- The order of `sorted`, by code points. -/
def pathLe (a b : List Char) : Bool :=
  !List.lex b a (fun c d => decide (c.toNat < d.toNat))

/-- `_parse_mio_dir`, where `read_bw` is what `_read_bw` finds in a file. -/
def parseMioDir (py : Python)
    (read_bw : List Char → Nat → Except PyError (Option py.Double)) (d : Dir) :
    Except PyError (Option (MioRecord py)) :=
  match (mioDirRe py).matchStart d.name with
  | none => .ok none
  | some m =>
      match (d.txts.mergeSort pathLe).getLast? with
      | none => .ok none
      | some txt => do
          let threads ← py.int (m.group .threads)
          match ← read_bw txt threads with
          | none => .ok none
          | some bw_gbps =>
              let block_size ← py.int (m.group .bs)
              let rep ← py.int (m.group .rep)
              .ok (some {
                rw := m.group .rw
                workload := m.group .workload
                block_size := block_size
                threads := threads
                rep := rep
                bw_gbps := bw_gbps
                path := d })

/-! ## There is one way to match -/

/-- The texts of the groups. -/
@[ext] structure Parts where
  rw : List Char
  workload : List Char
  bs : List Char
  threads : List Char
  rep : List Char

/-- `+` of digits. -/
def Decimals (py : Python) (digits : List Char) : Prop :=
  digits ≠ [] ∧ ∀ c ∈ digits, py.isDecimal c = true

namespace Parts

def text (p : Parts) : List Char :=
  p.rw ++ ("_".toList ++ (p.workload ++ ("_bs".toList ++ (p.bs ++
    ("_t".toList ++ (p.threads ++ ("_rep".toList ++ p.rep)))))))

def groups (p : Parts) : List (MioGroup × List Char) :=
  [(.rw, p.rw), (.workload, p.workload), (.bs, p.bs), (.threads, p.threads),
    (.rep, p.rep)]

/-- The groups match. -/
structure Fits (py : Python) (p : Parts) : Prop where
  rw : p.rw = "read".toList ∨ p.rw = "write".toList
  workload : p.workload ≠ [] ∧ ∀ c ∈ p.workload, (c != '\n') = true
  bs : Decimals py p.bs
  threads : Decimals py p.threads
  rep : Decimals py p.rep

/-- The name in front of the last three underscores, and what is behind each. -/
theorem text_eq (p : Parts) :
    p.text = (((p.rw ++ '_' :: p.workload) ++ '_' :: ("bs".toList ++ p.bs)) ++
      '_' :: ("t".toList ++ p.threads)) ++ '_' :: ("rep".toList ++ p.rep) := by
  simp [text]

end Parts

theorem underscore_notMem {py : Python} {digits word : List Char}
    (hDigits : Decimals py digits) (hWord : '_' ∉ word) : '_' ∉ word ++ digits := by
  intro hMem
  rcases List.mem_append.mp hMem with hMem | hMem
  · exact hWord hMem
  · have hDigit := hDigits.2 '_' hMem
    cases hDigit

/-- A name has the parts of one run only. -/
theorem Parts.text_inj {py : Python} {p p' : Parts} (hp : p.Fits py)
    (hp' : p'.Fits py) (h : p.text = p'.text) : p = p' := by
  have hBs : '_' ∉ "bs".toList := by decide
  have hT : '_' ∉ "t".toList := by decide
  have hRep : '_' ∉ "rep".toList := by decide
  rw [p.text_eq, p'.text_eq] at h
  obtain ⟨h, hReps⟩ := Lib.append_sep_inj_last h (underscore_notMem hp.rep hRep)
    (underscore_notMem hp'.rep hRep)
  obtain ⟨h, hThreads⟩ := Lib.append_sep_inj_last h
    (underscore_notMem hp.threads hT) (underscore_notMem hp'.threads hT)
  obtain ⟨h, hBlocks⟩ := Lib.append_sep_inj_last h (underscore_notMem hp.bs hBs)
    (underscore_notMem hp'.bs hBs)
  -- `read` and `write` differ in their first letters.
  have hHead : p.rw = p'.rw ∧ p.workload = p'.workload := by
    rcases hp.rw with hRw | hRw <;> rcases hp'.rw with hRw' | hRw' <;>
      simp [hRw, hRw'] at h ⊢
    · exact h
    · exact h
  exact Parts.ext hHead.1 hHead.2 (List.append_cancel_left hBlocks)
    (List.append_cancel_left hThreads) (List.append_cancel_left hReps)

/-- The ways in which the expression matches. -/
theorem fits_mioDirRe {py : Python} {taken rest : List Char}
    {groups : List (MioGroup × List Char)} :
    (mioDirRe py).Fits true taken rest groups ↔
      ∃ p : Parts, p.Fits py ∧ taken = p.text ∧ groups = p.groups ∧
        (rest = [] ∨ rest = ['\n']) := by
  unfold mioDirRe
  rw [Regex.fits_seq_atStart]
  constructor
  · intro h
    obtain ⟨rw, _, g, _, rfl, rfl, hWordFits, h₁⟩ := Regex.fits_seq_group.mp h
    obtain ⟨_, rfl, h₂⟩ := Regex.fits_seq_lit.mp h₁
    obtain ⟨workload, _, _, rfl, rfl, hWorkload, h₃⟩ :=
      Regex.fits_seq_group_plus.mp h₂
    obtain ⟨_, rfl, h₄⟩ := Regex.fits_seq_lit.mp h₃
    obtain ⟨bs, _, _, rfl, rfl, hBs, h₅⟩ := Regex.fits_seq_group_plus.mp h₄
    obtain ⟨_, rfl, h₆⟩ := Regex.fits_seq_lit.mp h₅
    obtain ⟨threads, _, _, rfl, rfl, hThreads, h₇⟩ := Regex.fits_seq_group_plus.mp h₆
    obtain ⟨_, rfl, h₈⟩ := Regex.fits_seq_lit.mp h₇
    obtain ⟨rep, _, _, rfl, rfl, hRep, rfl, hEnd, rfl⟩ :=
      Regex.fits_seq_group_plus.mp h₈
    have hWord : (rw = "read".toList ∨ rw = "write".toList) ∧ g = [] := by
      rcases hWordFits with ⟨hRw, hg⟩ | ⟨hRw, hg⟩
      · exact ⟨Or.inl hRw, hg⟩
      · exact ⟨Or.inr hRw, hg⟩
    obtain ⟨hRw, rfl⟩ := hWord
    refine ⟨⟨rw, workload, bs, threads, rep⟩, ⟨hRw, hWorkload, hBs, hThreads, hRep⟩,
      ?_, rfl, hEnd⟩
    rw [List.append_nil]
    rfl
  · rintro ⟨p, hp, rfl, rfl, hEnd⟩
    refine Regex.fits_seq_group.mpr ⟨p.rw, _, [], _, rfl, rfl, ?_,
      Regex.fits_seq_lit.mpr ⟨_, rfl,
        Regex.fits_seq_group_plus.mpr ⟨p.workload, _, _, rfl, rfl, hp.workload,
          Regex.fits_seq_lit.mpr ⟨_, rfl,
            Regex.fits_seq_group_plus.mpr ⟨p.bs, _, _, rfl, rfl, hp.bs,
              Regex.fits_seq_lit.mpr ⟨_, rfl,
                Regex.fits_seq_group_plus.mpr ⟨p.threads, _, _, rfl, rfl, hp.threads,
                  Regex.fits_seq_lit.mpr ⟨_, rfl,
                    Regex.fits_seq_group_plus.mpr ⟨p.rep, [], [],
                      (List.append_nil _).symm, rfl, hp.rep, rfl, hEnd, rfl⟩⟩⟩⟩⟩⟩⟩⟩⟩
    rcases hp.rw with hRw | hRw
    · exact Or.inl ⟨hRw, rfl⟩
    · exact Or.inr ⟨hRw, rfl⟩

theorem Parts.newline_notMem {py : Python} {p : Parts} (hp : p.Fits py) :
    '\n' ∉ p.text := by
  have hDigits : ∀ {digits : List Char}, Decimals py digits → '\n' ∉ digits := by
    intro digits h hMem
    have hDigit := h.2 '\n' hMem
    cases hDigit
  have hRw : '\n' ∉ p.rw := by
    rcases hp.rw with hRw | hRw
    · rw [hRw]
      decide
    · rw [hRw]
      decide
  have hWorkload : '\n' ∉ p.workload := by
    intro hMem
    simpa using hp.workload.2 '\n' hMem
  simp [text, hRw, hWorkload, hDigits hp.bs, hDigits hp.threads, hDigits hp.rep]

/-! ## The parts of a run's name -/

theorem decimals_plain (py : Python) (n : Nat) : Decimals py (plain n) :=
  ⟨Lib.allDigits_ne 1 n, fun c hc =>
    Python.isDecimal_of_isDigit (Lib.isDigit_lastDigits _ _ c hc)⟩

/-- `int` accepts as many digits as the number has. -/
def IntFits (py : Python) (n : Nat) : Prop :=
  0 < py.int_max_str_digits → (plain n).length ≤ py.int_max_str_digits

theorem int_plain_iff {py : Python} {n k : Nat} :
    py.int (plain n) = .ok k ↔ IntFits py n ∧ k = n := by
  unfold IntFits plain
  rw [Python.int_of_isDigit (Lib.allDigits_ne 1 n) (Lib.isDigit_lastDigits _ _),
    Lib.decimal_allDigits]
  split
  · rename_i hMany
    constructor
    · intro h
      cases h
    · rintro ⟨hFits, -⟩
      exact absurd (hFits hMany.1) (by omega)
  · rename_i hFew
    constructor
    · intro h
      cases h
      exact ⟨fun hLimit => by omega, rfl⟩
    · rintro ⟨-, rfl⟩
      rfl

theorem Label.lower_cases (label : Label) :
    label.lower = "read".toList ∨ label.lower = "write".toList := by
  cases label with
  | READ => exact Or.inl rfl
  | WRITE => exact Or.inr rfl

theorem Label.lower_inj {label label' : Label} (h : label.lower = label'.lower) :
    label = label' := by
  cases label <;> cases label' <;> first | rfl | cases h

namespace Run

variable (run : Run)

def parts : Parts where
  rw := run.label.lower
  workload := run.w
  bs := plain run.bs
  threads := plain run.t
  rep := plain run.rep

theorem fits_parts (py : Python) : run.parts.Fits py where
  rw := run.label.lower_cases
  workload := ⟨run.w_ne, fun c hc => by
    have hNe : c ≠ '\n' := by
      rintro rfl
      exact run.w_line hc
    simpa using hNe⟩
  bs := decimals_plain py run.bs
  threads := decimals_plain py run.t
  rep := decimals_plain py run.rep

/-- What is parsed of a run. -/
def key : MioKey where
  rw := run.label.lower
  workload := run.w
  block_size := run.bs
  threads := run.t
  rep := run.rep

theorem key_inj {run run' : Run} (h : run.key = run'.key) : run = run' := by
  have hKey := MioKey.mk.inj h
  exact Run.ext (Label.lower_inj hKey.1) hKey.2.1 hKey.2.2.1 hKey.2.2.2.1
    hKey.2.2.2.2

/-- The name of a run matches as a whole, in its own parts. -/
theorem matchStart_stem (py : Python) :
    (mioDirRe py).matchStart run.stem =
      some { taken := run.stem, rest := [], groups := run.parts.groups } := by
  refine Regex.matchStart_of_unique (List.append_nil _).symm
    (fits_mioDirRe.mpr ⟨run.parts, run.fits_parts py, rfl, rfl, Or.inl rfl⟩) ?_
  intro y hText hFits
  obtain ⟨p, hp, hTaken, hGroups, hEnd⟩ := fits_mioDirRe.mp hFits
  have hRest : y.rest = [] := by
    rcases hEnd with hNil | hLine
    · exact hNil
    · -- `$` would match in front of a line feed, but the name has none.
      have hMem : '\n' ∈ run.stem := by
        rw [hText, hLine]
        simp
      exact absurd hMem (Parts.newline_notMem (run.fits_parts py))
  have hParts : p = run.parts := by
    apply Parts.text_inj hp (run.fits_parts py)
    rw [hRest, List.append_nil, hTaken] at hText
    exact hText.symm
  subst hParts
  exact Success.ext hTaken hRest hGroups

theorem key_of_parseMioDir {py : Python}
    {read_bw : List Char → Nat → Except PyError (Option py.Double)} {d : Dir}
    {r : MioRecord py} (hName : d.name = run.stem)
    (h : parseMioDir py read_bw d = .ok (some r)) : r.toMioKey = run.key := by
  unfold parseMioDir at h
  rw [hName, run.matchStart_stem py] at h
  dsimp only at h
  split at h
  · cases h
  · obtain ⟨threads, hThreads, h⟩ := bind_ok_iff.mp h
    obtain ⟨bw, -, h⟩ := bind_ok_iff.mp h
    cases bw with
    | none => cases h
    | some bw =>
        obtain ⟨block_size, hBs, h⟩ := bind_ok_iff.mp h
        obtain ⟨rep, hRep, h⟩ := bind_ok_iff.mp h
        cases h
        rw [(int_plain_iff.mp hThreads).2, (int_plain_iff.mp hBs).2,
          (int_plain_iff.mp hRep).2]
        rfl

/-- A run whose numbers `int` accepts is parsed, once its result can be read. -/
theorem parseMioDir_stem {py : Python}
    {read_bw : List Char → Nat → Except PyError (Option py.Double)} {d : Dir}
    {txt : List Char} {bw : py.Double} (hName : d.name = run.stem)
    (hTxt : (d.txts.mergeSort pathLe).getLast? = some txt)
    (hBw : read_bw txt run.t = .ok (some bw)) (hBs : IntFits py run.bs)
    (hT : IntFits py run.t) (hRep : IntFits py run.rep) :
    parseMioDir py read_bw d =
      .ok (some { toMioKey := run.key, bw_gbps := bw, path := d }) := by
  unfold parseMioDir
  rw [hName, run.matchStart_stem py]
  dsimp only
  rw [hTxt]
  refine bind_ok_iff.mpr ⟨run.t, int_plain_iff.mpr ⟨hT, rfl⟩,
    bind_ok_iff.mpr ⟨some bw, hBw, ?_⟩⟩
  exact bind_ok_iff.mpr ⟨run.bs, int_plain_iff.mpr ⟨hBs, rfl⟩,
    bind_ok_iff.mpr ⟨run.rep, int_plain_iff.mpr ⟨hRep, rfl⟩, rfl⟩⟩

end Run

/-- **Names of runs round-trip.**  The name of a run matches, with the parts it was
made of; the record of a directory with that name is of that run, and so records
of different runs have different keys. -/
theorem mioDirRe_roundTrip (py : Python)
    (read_bw : List Char → Nat → Except PyError (Option py.Double)) (run : Run) :
    (∃ m, (mioDirRe py).matchStart run.stem = some m ∧
      m.group .rw = run.label.lower ∧ m.group .workload = run.w ∧
      m.group .bs = plain run.bs ∧ m.group .threads = plain run.t ∧
      m.group .rep = plain run.rep) ∧
    (∀ d r, d.name = run.stem → parseMioDir py read_bw d = .ok (some r) →
      r.toMioKey = run.key) ∧
    ∀ run' d r d' r', d.name = run.stem → d'.name = run'.stem →
      parseMioDir py read_bw d = .ok (some r) →
      parseMioDir py read_bw d' = .ok (some r') →
      r.toMioKey = r'.toMioKey → run = run' := by
  refine ⟨⟨_, run.matchStart_stem py, rfl, rfl, rfl, rfl, rfl⟩, ?_, ?_⟩
  · intro d r hName hParse
    exact run.key_of_parseMioDir hName hParse
  · intro run' d r d' r' hName hName' hParse hParse' hKey
    apply Run.key_inj
    rw [← run.key_of_parseMioDir hName hParse, hKey]
    exact run'.key_of_parseMioDir hName' hParse'

theorem length_plain_le (n : Nat) : (plain n).length ≤ n + 1 := by
  have hLog := Nat.log_le_self 10 n
  rw [plain, allDigits, Lib.length_lastDigits]
  omega

/-- A workload that looks like the parts behind it. -/
theorem mioDirRe_roundTrip_lookalike :
    ∃ (run : Run)
      (read_bw : List Char → Nat → Except PyError (Option asciiPython.Double))
      (d : Dir) (r : MioRecord asciiPython),
      run.stem = "read_seq_bs8_t2_rep3_bs64_t4_rep1".toList ∧
      d.name = run.stem ∧
      parseMioDir asciiPython read_bw d = .ok (some r) ∧ r.toMioKey = run.key := by
  let run : Run :=
    { label := .READ
      w := "seq_bs8_t2_rep3".toList
      bs := 64
      t := 4
      rep := 1
      w_ne := by decide
      w_line := by decide }
  let d : Dir := { name := run.stem, txts := ["20250101.txt".toList] }
  let bw := asciiPython.toDouble 1
  have hFits : ∀ n, n < 4300 → IntFits asciiPython n := by
    intro n hn _
    exact (length_plain_le n).trans hn
  have hParse := @Run.parseMioDir_stem run asciiPython (fun _ _ => .ok (some bw)) d
    "20250101.txt".toList bw rfl (by simp [d]) rfl (hFits 64 (by decide))
    (hFits 4 (by decide)) (hFits 1 (by decide))
  refine ⟨run, _, d, _, ?_, rfl, hParse,
    (mioDirRe_roundTrip asciiPython _ run).2.1 d _ rfl hParse⟩
  decide +kernel

end MioBench.Scripts
