import Mathlib.Data.List.Basic

/-!
# The words of a text

A text is cut at its separators, and empty pieces are left out.  So what is written
with a separator between the words is read as these words.
-/

namespace MioBench.Lib

section Words

variable {α : Type} (sep : α → Bool)

def wordsOf (s : List α) : List (List α) := (s.splitOnP sep).filter (· ≠ [])

/-- A given text without separators. -/
theorem eq_false_of_all {sep : α → Bool} {w : List α}
    (h : w.all (fun c => !sep c) = true) : ∀ c ∈ w, sep c = false := by
  intro c hc
  have hNot := List.all_eq_true.mp h c hc
  exact (Bool.not_eq_true' _).mp hNot

/-- The words of two texts with a separator between them. -/
theorem wordsOf_append_sep {c : α} (hc : sep c = true) (s s' : List α) :
    wordsOf sep (s ++ c :: s') = wordsOf sep s ++ wordsOf sep s' := by
  rw [wordsOf, List.splitOnP_append_cons s s' hc, List.filter_append]
  rfl

theorem wordsOf_nil : wordsOf sep [] = [] := rfl

theorem wordsOf_word {w : List α} (hNe : w ≠ []) (h : ∀ c ∈ w, sep c = false) :
    wordsOf sep w = [w] := by
  rw [wordsOf, List.splitOnP_eq_singleton h, List.filter_cons,
    if_pos (by simpa using hNe)]
  rfl

/-- Words that are written with a separator in front of each but the first. -/
theorem wordsOf_flatMap {c : α} (hc : sep c = true) {w : List α} {ws : List (List α)}
    (h : ∀ w' ∈ w :: ws, w' ≠ [] ∧ ∀ c ∈ w', sep c = false) :
    wordsOf sep (w ++ ws.flatMap (c :: ·)) = w :: ws := by
  induction ws generalizing w with
  | nil =>
      have hWord := h w List.mem_cons_self
      rw [List.flatMap_nil, List.append_nil, wordsOf_word sep hWord.1 hWord.2]
  | cons w' ws ih =>
      have hWord := h w List.mem_cons_self
      have hRest := ih fun v hv => h v (List.mem_cons_of_mem _ hv)
      rw [List.flatMap_cons, List.cons_append, wordsOf_append_sep sep hc, hRest,
        wordsOf_word sep hWord.1 hWord.2]
      rfl

theorem wordsOf_dropWhile (s : List α) : wordsOf sep (s.dropWhile sep) = wordsOf sep s := by
  induction s with
  | nil => rfl
  | cons c s ih =>
      by_cases hc : sep c = true
      · have hWords := wordsOf_append_sep sep hc [] s
        rw [List.nil_append, wordsOf_nil, List.nil_append] at hWords
        rw [List.dropWhile_cons_of_pos hc, ih, hWords]
      · rw [List.dropWhile_cons_of_neg hc]

end Words

end MioBench.Lib
