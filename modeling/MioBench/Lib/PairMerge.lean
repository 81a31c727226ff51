import Mathlib.Data.List.Chain

/-!
# Merging neighbours

One pass over a list that joins two neighbours where it can and goes on behind
them.  What the entries stand for is not changed by the pass, and when a joined
entry joins with nothing, a second pass has nothing left to do.
-/

namespace MioBench.Lib

universe u v

section PairMerge

variable {α : Type u} {β : Type v} (joins : α → α → Bool) (join : α → α → α)

/-- From left to right, each entry with its successor or alone. -/
def mergePairs : List α → List α
  | [] => []
  | [a] => [a]
  | a :: b :: l =>
      if joins a b then join a b :: mergePairs l else a :: mergePairs (b :: l)

variable {joins join}

/-- What the entries stand for is the same after the pass. -/
theorem flatMap_mergePairs {expand : α → List β}
    (hJoin : ∀ a b, joins a b → expand (join a b) = expand a ++ expand b)
    (l : List α) :
    (mergePairs joins join l).flatMap expand = l.flatMap expand := by
  fun_induction mergePairs joins join l with
  | case1 => rfl
  | case2 a => rfl
  | case3 a b l hJoins ih =>
      rw [List.flatMap_cons, ih, hJoin a b hJoins]
      simp
  | case4 a b l hApart ih => simp [ih]

/-- A list without neighbours to join is left as it is. -/
theorem mergePairs_of_isChain {l : List α}
    (h : l.IsChain fun a b => joins a b = false) :
    mergePairs joins join l = l := by
  fun_induction mergePairs joins join l with
  | case1 => rfl
  | case2 a => rfl
  | case3 a b l hJoins ih =>
      rw [List.isChain_cons_cons] at h
      rw [h.1] at hJoins
      cases hJoins
  | case4 a b l hApart ih =>
      rw [List.isChain_cons_cons] at h
      rw [ih h.2]

/-- The first entry after the pass is the first entry, or that one joined. -/
theorem head?_mergePairs (b : α) (l : List α) :
    (mergePairs joins join (b :: l)).head? = some b ∨
      ∃ c, (mergePairs joins join (b :: l)).head? = some (join b c) := by
  cases l with
  | nil => exact Or.inl rfl
  | cons c l =>
      rw [mergePairs]
      split
      · exact Or.inr ⟨c, rfl⟩
      · exact Or.inl rfl

theorem isChain_mergePairs
    (hLeft : ∀ a b c, joins (join a b) c = false)
    (hRight : ∀ a b c, joins a (join b c) = false) (l : List α) :
    (mergePairs joins join l).IsChain fun a b => joins a b = false := by
  fun_induction mergePairs joins join l with
  | case1 => exact .nil
  | case2 a => exact .singleton a
  | case3 a b l hJoins ih =>
      exact List.isChain_cons.mpr ⟨fun c _ => hLeft a b c, ih⟩
  | case4 a b l hApart ih =>
      refine List.isChain_cons.mpr ⟨fun d hd => ?_, ih⟩
      rcases @head?_mergePairs α joins join b l with hHead | ⟨c, hHead⟩
      · rw [hHead] at hd
        obtain rfl : b = d := by simpa using hd
        simpa using hApart
      · rw [hHead] at hd
        obtain rfl : join b c = d := by simpa using hd
        exact hRight a b c

/-- A second pass changes nothing. -/
theorem mergePairs_mergePairs
    (hLeft : ∀ a b c, joins (join a b) c = false)
    (hRight : ∀ a b c, joins a (join b c) = false) (l : List α) :
    mergePairs joins join (mergePairs joins join l) =
      mergePairs joins join l :=
  mergePairs_of_isChain (isChain_mergePairs hLeft hRight l)

end PairMerge

end MioBench.Lib
