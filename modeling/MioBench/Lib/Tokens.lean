import Mathlib.Data.List.TakeWhile

/-!
# Cutting a text at separators

Two readers of the C and C++ libraries that cut a text at a separator, against
`List.splitOn`.  `getlines` is `getline` called until the stream is used up: it
gives all pieces, but no last one when the text ends in a separator.  `strtoks`
is `strtok` called until there is nothing left: it gives the pieces that are
not empty.
-/

namespace MioBench.Lib

universe u

/-! ## Runs -/

section Runs

variable {α : Type u} {p : α → Bool} {run rest : List α}

theorem dropWhile_run (hRun : ∀ c ∈ run, p c = true)
    (hStop : ∀ c, rest.head? = some c → p c = false) :
    (run ++ rest).dropWhile p = rest := by
  rw [List.dropWhile_append_of_pos hRun]
  cases rest with
  | nil => rfl
  | cons c rest => simp [hStop c rfl]

theorem takeWhile_run (hRun : ∀ c ∈ run, p c = true)
    (hStop : ∀ c, rest.head? = some c → p c = false) :
    (run ++ rest).takeWhile p = run := by
  rw [List.takeWhile_append_of_pos hRun]
  cases rest with
  | nil => simp
  | cons c rest => simp [hStop c rfl]

/-- A run is taken as far as it goes. -/
theorem head_dropWhile (s : List α) (c : α)
    (h : (s.dropWhile p).head? = some c) : p c = false := by
  induction s with
  | nil => cases h
  | cons a s ih =>
      cases ha : p a with
      | true => exact ih (by simpa [ha] using h)
      | false =>
          obtain rfl : a = c := by simpa [ha] using h
          exact ha

end Runs

/-! ## The last separator -/

section Separators

variable {α : Type u} {sep : α} {s s' t t' : List α}

/-- What is behind the last separator, and what is in front of it. -/
theorem append_sep_inj_last (h : s ++ sep :: t = s' ++ sep :: t')
    (ht : sep ∉ t) (ht' : sep ∉ t') : s = s' ∧ t = t' := by
  induction s generalizing s' with
  | nil =>
      cases s' with
      | nil => exact ⟨rfl, (List.cons.inj h).2⟩
      | cons c s' =>
          have hTail : t = s' ++ sep :: t' := (List.cons.inj h).2
          exact absurd (by rw [hTail]; simp) ht
  | cons c s ih =>
      cases s' with
      | nil =>
          have hTail : s ++ sep :: t = t' := (List.cons.inj h).2
          exact absurd (by rw [← hTail]; simp) ht'
      | cons c' s' =>
          obtain ⟨rfl, hTail⟩ := List.cons.inj h
          obtain ⟨rfl, rfl⟩ := ih hTail
          exact ⟨rfl, rfl⟩

end Separators

/-! ## The readers -/

section Readers

variable {α : Type u} [DecidableEq α] (sep : α)

/-- The pieces `getline` delivers, at most `fuel` of them. -/
def getlines : (fuel : Nat) → List α → List (List α)
  | 0, _ => []
  | fuel + 1, s =>
      if s = [] then []
      else
        s.takeWhile (· != sep) ::
          getlines fuel (s.dropWhile (· != sep)).tail

/-- The tokens `strtok` delivers, at most `fuel` of them. -/
def strtoks : (fuel : Nat) → List α → List (List α)
  | 0, _ => []
  | fuel + 1, s =>
      let body := s.dropWhile (· == sep)
      if body = [] then []
      else
        body.takeWhile (· != sep) ::
          strtoks fuel (body.dropWhile (· != sep)).tail

/-- All pieces, without the empty one behind a last separator. -/
def withoutLast (pieces : List (List α)) : List (List α) :=
  if pieces.getLast? = some [] then pieces.dropLast else pieces

variable {sep}

/-- The first piece, and what is left behind its separator. -/
theorem splitOn_first (s : List α) :
    s.dropWhile (· != sep) = [] ∧ s.takeWhile (· != sep) = s ∧
        s.splitOn sep = [s] ∨
      s.splitOn sep = s.takeWhile (· != sep) ::
          (s.dropWhile (· != sep)).tail.splitOn sep ∧
        (s.dropWhile (· != sep)).tail.length < s.length := by
  have hNot : sep ∉ s.takeWhile (· != sep) := by
    intro hMem
    have hNe := List.mem_takeWhile_imp hMem
    simp at hNe
  have hParts := @List.takeWhile_append_dropWhile _ (· != sep) s
  cases hRest : s.dropWhile (· != sep) with
  | nil =>
      rw [hRest, List.append_nil] at hParts
      rw [hParts] at hNot
      exact Or.inl ⟨rfl, hParts, List.splitOn_eq_singleton hNot⟩
  | cons c rest =>
      have hSep : c = sep := by
        have hHead := head_dropWhile s c (by rw [hRest]; rfl)
        simpa using hHead
      subst hSep
      rw [hRest] at hParts
      have hSplit := List.splitOn_append_cons_self_of_not_mem hNot rest
      rw [hParts] at hSplit
      have hLength := congrArg List.length hParts
      simp only [List.length_append, List.length_cons] at hLength
      refine Or.inr ⟨hSplit, ?_⟩
      simp only [List.tail_cons]
      omega

theorem getlines_eq {fuel : Nat} {s : List α} (hFuel : s.length ≤ fuel) :
    getlines sep fuel s = withoutLast (s.splitOn sep) := by
  induction fuel generalizing s with
  | zero =>
      obtain rfl := List.length_eq_zero_iff.mp (Nat.le_zero.mp hFuel)
      rfl
  | succ fuel ih =>
      by_cases hNil : s = []
      · subst hNil
        rfl
      · rw [getlines, if_neg hNil]
        rcases @splitOn_first _ _ sep s with ⟨hRest, hTake, hSplit⟩ | ⟨hSplit, hLt⟩
        · rw [hRest, hTake, hSplit, List.tail_nil, @ih [] (Nat.zero_le fuel)]
          simp [withoutLast, hNil]
        · rw [ih (by omega), hSplit]
          have hNe := List.splitOn_ne_nil sep (s.dropWhile (· != sep)).tail
          generalize (s.dropWhile (· != sep)).tail.splitOn sep = pieces at hNe
          cases pieces with
          | nil => exact absurd rfl hNe
          | cons piece pieces =>
              simp only [withoutLast, List.getLast?_cons_cons]
              split
              · rfl
              · rfl

/-- Separators in front only make empty pieces. -/
theorem filter_splitOn_dropWhile (s : List α) :
    ((s.dropWhile (· == sep)).splitOn sep).filter (· ≠ []) =
      (s.splitOn sep).filter (· ≠ []) := by
  induction s with
  | nil => rfl
  | cons c s ih =>
      by_cases hSep : c = sep
      · subst hSep
        have hSplit : (c :: s).splitOn c = [] :: s.splitOn c := by
          simp [List.splitOn_cons_eq_if_modifyHead]
        rw [hSplit]
        simpa using ih
      · simp [hSep]

theorem strtoks_eq {fuel : Nat} {s : List α} (hFuel : s.length ≤ fuel) :
    strtoks sep fuel s = (s.splitOn sep).filter (· ≠ []) := by
  induction fuel generalizing s with
  | zero =>
      obtain rfl := List.length_eq_zero_iff.mp (Nat.le_zero.mp hFuel)
      rfl
  | succ fuel ih =>
      rw [strtoks, ← filter_splitOn_dropWhile]
      have hShorter := (s.dropWhile_suffix (· == sep)).length_le
      have hHead := @head_dropWhile _ (· == sep) s
      generalize s.dropWhile (· == sep) = body at hShorter hHead
      cases body with
      | nil => rfl
      | cons c body =>
          have hNe : (c :: body).takeWhile (· != sep) ≠ [] := by
            have hSep := hHead c rfl
            simp_all
          rw [if_neg (List.cons_ne_nil c body)]
          rcases @splitOn_first _ _ sep (c :: body) with
            ⟨hRest, hTake, hSplit⟩ | ⟨hSplit, hLt⟩
          · rw [hRest, hTake, hSplit, List.tail_nil, @ih [] (Nat.zero_le fuel)]
            simp
          · rw [ih (by omega), hSplit, List.filter_cons_of_pos (by simpa using hNe)]

/-- Every piece that is not empty is read. -/
theorem mem_withoutLast {pieces : List (List α)} {piece : List α}
    (h : piece ∈ pieces) (hNe : piece ≠ []) : piece ∈ withoutLast pieces := by
  unfold withoutLast
  split
  · rename_i hLast
    obtain ⟨init, rfl⟩ := List.getLast?_eq_some_iff.mp hLast
    rw [List.dropLast_concat]
    rcases List.mem_append.mp h with hInit | hEnd
    · exact hInit
    · exact absurd (List.mem_singleton.mp hEnd) hNe
  · exact h

end Readers

end MioBench.Lib
