import Mathlib.Data.List.Basic
import Mathlib.Data.List.Induction
import Mathlib.Data.List.TakeWhile

/-!
# Sections of a list

A list is cut at its heads: a section is what follows a head up to the next one.
A reader that goes through the list sees the sections grow one entry at a time;
the lemmas say how, and what a table that it keeps for the section holds.
-/

namespace MioBench.Lib

universe u v

section Sections

variable {α : Type u} {isHead : α → Bool} {l : List α} {a : α}

/-- What follows each head. -/
def sections (isHead : α → Bool) : List α → List (List α)
  | [] => []
  | a :: l =>
      if isHead a then l.takeWhile (fun b => !isHead b) :: sections isHead l
      else sections isHead l

theorem sections_eq_nil_iff :
    sections isHead l = [] ↔ ∀ b ∈ l, isHead b = false := by
  induction l with
  | nil => simp [sections]
  | cons b l ih =>
      cases hHead : isHead b with
      | true => simp [sections, hHead]
      | false => simp [sections, hHead, ih]

/-- An entry behind a head of the rest is not taken. -/
theorem takeWhile_concat_of_head (h : isHead a = true ∨ sections isHead l ≠ []) :
    (l ++ [a]).takeWhile (fun b => !isHead b) =
      l.takeWhile (fun b => !isHead b) := by
  induction l with
  | nil =>
      rcases h with hHead | hNe
      · simp [hHead]
      · exact absurd rfl hNe
  | cons b l ih =>
      cases hHead : isHead b with
      | true => simp [hHead]
      | false =>
          simp only [sections, hHead, Bool.false_eq_true, if_false] at h
          simp [hHead, ih h]

/-- An entry without a head in front of it belongs to no section. -/
theorem sections_concat_of_nil (hSections : sections isHead l = [])
    (ha : isHead a = false) : sections isHead (l ++ [a]) = [] := by
  rw [sections_eq_nil_iff] at hSections ⊢
  intro b hb
  rcases List.mem_append.mp hb with hb | hb
  · exact hSections b hb
  · rw [List.mem_singleton.mp hb]
    exact ha

/-- A head starts a section. -/
theorem sections_concat_head (ha : isHead a = true) :
    sections isHead (l ++ [a]) = sections isHead l ++ [[]] := by
  induction l with
  | nil => simp [sections, ha]
  | cons b l ih =>
      rw [List.cons_append, sections, sections, ih,
        takeWhile_concat_of_head (Or.inl ha)]
      split
      · rfl
      · rfl

/-- Another entry belongs to the last section. -/
theorem sections_concat {front : List (List α)} {block : List α}
    (hSections : sections isHead l = front ++ [block]) (ha : isHead a = false) :
    sections isHead (l ++ [a]) = front ++ [block ++ [a]] := by
  induction l generalizing front with
  | nil => simp [sections] at hSections
  | cons b l ih =>
      cases hHead : isHead b with
      | false =>
          simp only [sections, hHead, Bool.false_eq_true, if_false,
            List.cons_append] at hSections ⊢
          exact ih hSections
      | true =>
          simp only [sections, hHead, if_true, List.cons_append] at hSections ⊢
          cases front with
          | nil =>
              obtain ⟨rfl, hNil⟩ := List.cons.inj hSections
              have hAll := sections_eq_nil_iff.mp hNil
              have hTake : ∀ s : List α, (∀ b ∈ s, isHead b = false) →
                  s.takeWhile (fun b => !isHead b) = s := by
                intro s hs
                rw [List.takeWhile_eq_self_iff]
                intro b hb
                rw [hs b hb]
                rfl
              have hAll' := sections_eq_nil_iff.mp (sections_concat_of_nil hNil ha)
              rw [sections_concat_of_nil hNil ha, hTake _ hAll, hTake _ hAll']
              rfl
          | cons first front =>
              obtain ⟨rfl, hRest⟩ := List.cons.inj hSections
              have hNe : sections isHead l ≠ [] := by
                rw [hRest]
                simp
              rw [ih hRest, takeWhile_concat_of_head (Or.inr hNe)]
              rfl

end Sections

/-! ## Tables -/

section Tables

variable {κ : Type u} {β : Type v}

/-- The last value that is given to a key. -/
def lastGiven [BEq κ] (key : κ) (given : List (κ × β)) : Option β :=
  ((given.filter (fun x => key == x.1)).getLast?).map Prod.snd

/-- A table that is kept newest first holds the values given last. -/
theorem lookup_reverse [BEq κ] (key : κ) (given : List (κ × β)) :
    given.reverse.lookup key = lastGiven key given := by
  induction given using List.reverseRecOn with
  | nil => rfl
  | append_singleton given x ih =>
      rw [List.reverse_append, List.reverse_singleton, List.singleton_append]
      cases x with
      | mk k b =>
          rw [List.lookup_cons, ih]
          cases hKey : key == k with
          | true => simp [lastGiven, hKey]
          | false => simp [lastGiven, hKey]

/-- The series of one key gets an entry. -/
def appendAt [DecidableEq κ] (key : κ) (b : β) (series : κ → List β) (k : κ) :
    List β :=
  if k = key then series k ++ [b] else series k

/-- The series of each key of a list get an entry. -/
theorem foldl_appendAt [DecidableEq κ] (value : κ → β) {keys : List κ}
    (hNodup : keys.Nodup) (series : κ → List β) (key : κ) :
    keys.foldl (fun f k => appendAt k (value k) f) series key =
      if key ∈ keys then series key ++ [value key] else series key := by
  induction keys generalizing series with
  | nil => rfl
  | cons k keys ih =>
      obtain ⟨hk, hNodup⟩ := List.nodup_cons.mp hNodup
      rw [List.foldl_cons, ih hNodup]
      by_cases hKey : key = k
      · subst hKey
        simp [appendAt, hk]
      · simp [appendAt, hKey]

end Tables

end MioBench.Lib
