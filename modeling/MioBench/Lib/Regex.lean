import Mathlib.Data.List.Basic
import Mathlib.Data.List.TakeWhile

/-!
# Backtracking regular expressions

The part of the regular expressions of a backtracking matcher in which only
single characters are repeated.  `successes` lists the ways to match at a place
in the order in which backtracking tries them, so that the match is the first of
them; `Fits` says what a way to match is, without an order.  Where a text fits
in one way only, the matcher finds that way, greedy or not.
-/

namespace MioBench.Lib

universe u

/-- Regular expressions whose groups are named by `γ`. -/
inductive Regex (γ : Type u)
  | lit (text : List Char)
  | char (p : Char → Bool)
  /-- `+`, or `+?` where it is lazy. -/
  | plus (isLazy : Bool) (p : Char → Bool)
  | seq (r r' : Regex γ)
  | alt (r r' : Regex γ)
  | group (name : γ) (r : Regex γ)
  /-- `^` -/
  | atStart
  /-- `$`: the end, or a line feed that ends the text. -/
  | atEnd

/-- One expression after the other. -/
def Regex.seqs {γ : Type u} : List (Regex γ) → Regex γ
  | [] => .lit []
  | [r] => r
  | r :: rs => .seq r (seqs rs)

/-- A way to match: what is taken, what is left, and the texts of the groups. -/
@[ext] structure Success (γ : Type u) where
  taken : List Char
  rest : List Char
  groups : List (γ × List Char)

namespace Regex

variable {γ : Type u}

/-! ## Ways to match -/

/-- `taken` in front of `rest` matches, with the texts `groups`; `start` says
whether nothing is in front of `taken`. -/
def Fits : Regex γ → (start : Bool) → (taken rest : List Char) →
    (groups : List (γ × List Char)) → Prop
  | lit text, _, taken, _, groups => taken = text ∧ groups = []
  | char p, _, taken, _, groups => (∃ c, taken = [c] ∧ p c = true) ∧ groups = []
  | plus _ p, _, taken, _, groups =>
      (taken ≠ [] ∧ ∀ c ∈ taken, p c = true) ∧ groups = []
  | seq r r', start, taken, rest, groups =>
      ∃ t t' g g', taken = t ++ t' ∧ groups = g ++ g' ∧
        r.Fits start t (t' ++ rest) g ∧
        r'.Fits (start && t.isEmpty) t' rest g'
  | alt r r', start, taken, rest, groups =>
      r.Fits start taken rest groups ∨ r'.Fits start taken rest groups
  | group name r, start, taken, rest, groups =>
      ∃ g, groups = g ++ [(name, taken)] ∧ r.Fits start taken rest g
  | atStart, start, taken, _, groups => start = true ∧ taken = [] ∧ groups = []
  | atEnd, _, taken, rest, groups =>
      taken = [] ∧ (rest = [] ∨ rest = ['\n']) ∧ groups = []

/-! ## How expressions begin -/

section Begin

variable {r r' : Regex γ} {start : Bool} {taken rest : List Char}
  {groups : List (γ × List Char)}

theorem fits_seq_atStart :
    (seq atStart r).Fits true taken rest groups ↔ r.Fits true taken rest groups := by
  simp only [Fits]
  constructor
  · rintro ⟨_, t', _, g', rfl, rfl, ⟨-, rfl, rfl⟩, hFits⟩
    exact hFits
  · intro hFits
    exact ⟨[], taken, [], groups, rfl, rfl, ⟨trivial, rfl, rfl⟩, hFits⟩

theorem fits_seq_lit {text : List Char} :
    (seq (lit text) r).Fits start taken rest groups ↔
      ∃ t, taken = text ++ t ∧ r.Fits (start && text.isEmpty) t rest groups := by
  simp only [Fits]
  constructor
  · rintro ⟨_, t', _, g', rfl, rfl, ⟨rfl, rfl⟩, hFits⟩
    exact ⟨t', rfl, hFits⟩
  · rintro ⟨t, rfl, hFits⟩
    exact ⟨text, t, [], groups, rfl, rfl, ⟨rfl, rfl⟩, hFits⟩

theorem fits_seq_group {name : γ} :
    (seq (group name r) r').Fits start taken rest groups ↔
      ∃ t t' g g', taken = t ++ t' ∧ groups = g ++ (name, t) :: g' ∧
        r.Fits start t (t' ++ rest) g ∧
        r'.Fits (start && t.isEmpty) t' rest g' := by
  simp only [Fits]
  constructor
  · rintro ⟨t, t', _, g', rfl, rfl, ⟨g, rfl, hFits⟩, hFits'⟩
    exact ⟨t, t', g, g', rfl, by simp, hFits, hFits'⟩
  · rintro ⟨t, t', g, g', rfl, rfl, hFits, hFits'⟩
    exact ⟨t, t', _, g', rfl, by simp, ⟨g, rfl, hFits⟩, hFits'⟩

theorem fits_seq_group_plus {name : γ} {isLazy : Bool} {p : Char → Bool} :
    (seq (group name (plus isLazy p)) r).Fits start taken rest groups ↔
      ∃ t t' g, taken = t ++ t' ∧ groups = (name, t) :: g ∧
        (t ≠ [] ∧ ∀ c ∈ t, p c = true) ∧
        r.Fits (start && t.isEmpty) t' rest g := by
  rw [fits_seq_group]
  simp only [Fits]
  constructor
  · rintro ⟨t, t', _, g', rfl, rfl, ⟨hRun, rfl⟩, hFits⟩
    exact ⟨t, t', g', rfl, rfl, hRun, hFits⟩
  · rintro ⟨t, t', g', rfl, rfl, hRun, hFits⟩
    exact ⟨t, t', [], g', rfl, rfl, ⟨hRun, rfl⟩, hFits⟩

end Begin

/-! ## The matcher -/

/-- The ways to take one character or more that satisfy `p`, shortest first. -/
def runs (p : Char → Bool) (s : List Char) : List (Success γ) :=
  (List.range (s.takeWhile p).length).map fun k =>
    { taken := s.take (k + 1), rest := s.drop (k + 1), groups := [] }

/-- The ways to match at the head of `s`, in the order they are tried. -/
def successes : Regex γ → (start : Bool) → List Char → List (Success γ)
  | lit text, _, s =>
      if text.isPrefixOf s then
        [{ taken := text, rest := s.drop text.length, groups := [] }]
      else []
  | char p, _, s =>
      match s with
      | [] => []
      | c :: rest =>
          if p c then [{ taken := [c], rest := rest, groups := [] }] else []
  | plus isLazy p, _, s => if isLazy then runs p s else (runs p s).reverse
  | seq r r', start, s =>
      (r.successes start s).flatMap fun x =>
        (r'.successes (start && x.taken.isEmpty) x.rest).map fun y =>
          { taken := x.taken ++ y.taken
            rest := y.rest
            groups := x.groups ++ y.groups }
  | alt r r', start, s => r.successes start s ++ r'.successes start s
  | group name r, start, s =>
      (r.successes start s).map fun x =>
        { x with groups := x.groups ++ [(name, x.taken)] }
  | atStart, start, s =>
      if start then [{ taken := [], rest := s, groups := [] }] else []
  | atEnd, _, s =>
      if s = [] ∨ s = ['\n'] then [{ taken := [], rest := s, groups := [] }]
      else []

/-- `re.match`: a match at the start of the text. -/
def matchStart (r : Regex γ) (s : List Char) : Option (Success γ) :=
  (r.successes true s).head?

/-- The first match at or behind a place. -/
def searchFrom (r : Regex γ) (start : Bool) : List Char → Option (Success γ)
  | [] => (r.successes start []).head?
  | c :: s =>
      match (r.successes start (c :: s)).head? with
      | some x => some x
      | none => r.searchFrom false s

/-- `re.search` -/
def search (r : Regex γ) (s : List Char) : Option (Success γ) :=
  r.searchFrom true s

/-- `re.findall` of an expression without groups that takes a character or more:
at most `fuel` matches, each behind the one before. -/
def findallFrom (r : Regex γ) (start : Bool) :
    (fuel : Nat) → List Char → List (List Char)
  | 0, _ => []
  | fuel + 1, s =>
      match r.searchFrom start s with
      | none => []
      | some x => x.taken :: r.findallFrom false fuel x.rest

def findall (r : Regex γ) (s : List Char) : List (List Char) :=
  r.findallFrom true s.length s

end Regex

/-- The text of a group. -/
def Success.group {γ : Type u} [BEq γ] (x : Success γ) (name : γ) : List Char :=
  (x.groups.lookup name).getD []

namespace Regex

variable {γ : Type u}

/-! ## The matcher finds the ways to match -/

theorem mem_runs {p : Char → Bool} {s : List Char} {x : Success γ} :
    x ∈ runs p s ↔ s = x.taken ++ x.rest ∧
      (x.taken ≠ [] ∧ ∀ c ∈ x.taken, p c = true) ∧ x.groups = [] := by
  unfold runs
  rw [List.mem_map]
  constructor
  · rintro ⟨k, hk, rfl⟩
    have hLe : k + 1 ≤ (s.takeWhile p).length := List.mem_range.mp hk
    have hShort : s.take (k + 1) = (s.takeWhile p).take (k + 1) := by
      have hParts := congrArg (List.take (k + 1))
        (@List.takeWhile_append_dropWhile _ p s)
      rw [List.take_append_of_le_length hLe] at hParts
      exact hParts.symm
    refine ⟨(List.take_append_drop (k + 1) s).symm, ⟨?_, ?_⟩, rfl⟩
    · intro hNil
      have hLength := congrArg List.length hNil
      rw [hShort, List.length_take, List.length_nil] at hLength
      omega
    · intro c hc
      rw [hShort] at hc
      exact List.mem_takeWhile_imp (List.mem_of_mem_take hc)
  · rintro ⟨rfl, ⟨hNe, hAll⟩, hGroups⟩
    have hPos := List.length_pos_of_ne_nil hNe
    have hLe : x.taken.length ≤ ((x.taken ++ x.rest).takeWhile p).length := by
      rw [List.takeWhile_append_of_pos hAll, List.length_append]
      exact Nat.le_add_right _ _
    refine ⟨x.taken.length - 1, List.mem_range.mpr (by omega), ?_⟩
    rw [Nat.sub_add_cancel hPos, List.take_left, List.drop_left]
    exact Success.ext rfl rfl hGroups.symm

section Single

variable {start : Bool} {s : List Char} {x : Success γ}

theorem mem_successes_lit {text : List Char} :
    x ∈ (lit text).successes start s ↔
      s = x.taken ++ x.rest ∧ x.taken = text ∧ x.groups = [] := by
  rw [successes, List.mem_ite_nil_right, List.mem_singleton,
    List.isPrefixOf_iff_prefix]
  constructor
  · rintro ⟨⟨rest, rfl⟩, rfl⟩
    rw [List.drop_left]
    exact ⟨rfl, rfl, rfl⟩
  · rintro ⟨rfl, hText, hGroups⟩
    subst hText
    refine ⟨List.prefix_append _ _, Success.ext rfl ?_ hGroups⟩
    rw [List.drop_left]

theorem mem_successes_char {p : Char → Bool} :
    x ∈ (char p).successes start s ↔
      s = x.taken ++ x.rest ∧ (∃ c, x.taken = [c] ∧ p c = true) ∧ x.groups = [] := by
  cases s with
  | nil =>
      rw [successes]
      constructor
      · intro hx
        cases hx
      · rintro ⟨hNil, ⟨c, hc, -⟩, -⟩
        rw [hc] at hNil
        cases hNil
  | cons c s =>
      rw [successes, List.mem_ite_nil_right, List.mem_singleton]
      constructor
      · rintro ⟨hp, rfl⟩
        exact ⟨rfl, ⟨c, rfl, hp⟩, rfl⟩
      · rintro ⟨hText, ⟨c', hc, hp⟩, hGroups⟩
        rw [hc] at hText
        obtain ⟨rfl, hRest⟩ := List.cons.inj hText
        exact ⟨hp, Success.ext hc hRest.symm hGroups⟩

theorem mem_successes_atStart :
    x ∈ (atStart : Regex γ).successes start s ↔
      s = x.taken ++ x.rest ∧ start = true ∧ x.taken = [] ∧ x.groups = [] := by
  rw [successes, List.mem_ite_nil_right, List.mem_singleton]
  constructor
  · rintro ⟨hStart, rfl⟩
    exact ⟨rfl, hStart, rfl, rfl⟩
  · rintro ⟨hText, hStart, hTaken, hGroups⟩
    rw [hTaken, List.nil_append] at hText
    exact ⟨hStart, Success.ext hTaken hText.symm hGroups⟩

theorem mem_successes_atEnd :
    x ∈ (atEnd : Regex γ).successes start s ↔
      s = x.taken ++ x.rest ∧ x.taken = [] ∧ (x.rest = [] ∨ x.rest = ['\n']) ∧
        x.groups = [] := by
  rw [successes, List.mem_ite_nil_right, List.mem_singleton]
  constructor
  · rintro ⟨hEnd, rfl⟩
    exact ⟨rfl, rfl, hEnd, rfl⟩
  · rintro ⟨hText, hTaken, hEnd, hGroups⟩
    rw [hTaken, List.nil_append] at hText
    rw [hText]
    exact ⟨hEnd, Success.ext hTaken rfl hGroups⟩

end Single

/-- Backtracking tries exactly the ways to match. -/
theorem mem_successes {r : Regex γ} {start : Bool} {s : List Char}
    {x : Success γ} :
    x ∈ r.successes start s ↔
      s = x.taken ++ x.rest ∧ r.Fits start x.taken x.rest x.groups := by
  induction r generalizing start s x with
  | lit text => exact mem_successes_lit
  | char p => exact mem_successes_char
  | plus isLazy p =>
      simp only [successes, Fits]
      split
      · exact mem_runs
      · rw [List.mem_reverse]
        exact mem_runs
  | seq r r' ih ih' =>
      simp only [successes, Fits, List.mem_flatMap, List.mem_map]
      constructor
      · rintro ⟨y, hy, z, hz, rfl⟩
        obtain ⟨rfl, hFits⟩ := ih.mp hy
        obtain ⟨hRest, hFits'⟩ := ih'.mp hz
        rw [hRest] at hFits
        refine ⟨?_, y.taken, z.taken, y.groups, z.groups, rfl, rfl, hFits, hFits'⟩
        rw [hRest, List.append_assoc]
      · rintro ⟨rfl, t, t', g, g', hTaken, hGroups, hFits, hFits'⟩
        refine ⟨⟨t, t' ++ x.rest, g⟩, ih.mpr ⟨?_, hFits⟩,
          ⟨t', x.rest, g'⟩, ih'.mpr ⟨rfl, hFits'⟩, ?_⟩
        · rw [hTaken, List.append_assoc]
        · exact Success.ext hTaken.symm rfl hGroups.symm
  | alt r r' ih ih' =>
      simp only [successes, Fits, List.mem_append, ih, ih']
      constructor
      · rintro (⟨hText, hFits⟩ | ⟨hText, hFits⟩)
        · exact ⟨hText, Or.inl hFits⟩
        · exact ⟨hText, Or.inr hFits⟩
      · rintro ⟨hText, hFits | hFits⟩
        · exact Or.inl ⟨hText, hFits⟩
        · exact Or.inr ⟨hText, hFits⟩
  | group name r ih =>
      simp only [successes, Fits, List.mem_map]
      constructor
      · rintro ⟨y, hy, rfl⟩
        obtain ⟨hText, hFits⟩ := ih.mp hy
        exact ⟨hText, y.groups, rfl, hFits⟩
      · rintro ⟨hText, g, hGroups, hFits⟩
        exact ⟨⟨x.taken, x.rest, g⟩, ih.mpr ⟨hText, hFits⟩,
          Success.ext rfl rfl hGroups.symm⟩
  | atStart => exact mem_successes_atStart
  | atEnd => exact mem_successes_atEnd

/-- **The only way to match is found**, whatever is tried before it. -/
theorem matchStart_of_unique {r : Regex γ} {s : List Char} {x : Success γ}
    (hText : s = x.taken ++ x.rest)
    (hFits : r.Fits true x.taken x.rest x.groups)
    (hUnique : ∀ y : Success γ, s = y.taken ++ y.rest →
      r.Fits true y.taken y.rest y.groups → y = x) :
    r.matchStart s = some x := by
  unfold matchStart
  have hMem : x ∈ r.successes true s := mem_successes.mpr ⟨hText, hFits⟩
  cases hWays : r.successes true s with
  | nil =>
      rw [hWays] at hMem
      cases hMem
  | cons y ways =>
      have hFirst : y ∈ r.successes true s := by
        rw [hWays]
        exact List.mem_cons_self
      obtain ⟨hText', hFits'⟩ := mem_successes.mp hFirst
      rw [List.head?_cons, hUnique y hText' hFits']

end Regex

end MioBench.Lib
