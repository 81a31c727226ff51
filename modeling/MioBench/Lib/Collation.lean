import Mathlib.Data.Char
import Mathlib.Data.List.Lex
import Mathlib.Data.List.Pairwise
import Mathlib.Order.Lattice

/-!
# Sorting by a key

A `Collation` is a total order that sorting can use.  `byKey` puts a key in
front of it, as `sort -n` does with the number a line starts with: only lines
with the same key are left to the order behind it.
-/

namespace MioBench.Lib

universe u v

structure Collation (α : Type u) where
  le : α → α → Bool
  trans : ∀ a b c, le a b = true → le b c = true → le a c = true
  total : ∀ a b, (le a b || le b a) = true
  antisymm : ∀ a b, le a b = true → le b a = true → a = b

namespace Collation

variable {α : Type u} {β : Type v} [LinearOrder β]

/-- In the order of the keys, and among equal keys in the order there was. -/
def byKey (key : α → β) (c : Collation α) : Collation α where
  le a b := decide (key a < key b ∨ (key a = key b ∧ c.le a b = true))
  trans := by
    intro x y z hxy hyz
    rw [decide_eq_true_eq] at hxy hyz ⊢
    rcases hxy with hLt | ⟨hEq, hLe⟩
    · rcases hyz with hLt' | ⟨hEq', -⟩
      · exact Or.inl (lt_trans hLt hLt')
      · exact Or.inl (hEq' ▸ hLt)
    · rcases hyz with hLt' | ⟨hEq', hLe'⟩
      · exact Or.inl (hEq ▸ hLt')
      · exact Or.inr ⟨hEq.trans hEq', c.trans x y z hLe hLe'⟩
  total := by
    intro x y
    rw [Bool.or_eq_true, decide_eq_true_eq, decide_eq_true_eq]
    rcases lt_trichotomy (key x) (key y) with hLt | hEq | hGt
    · exact Or.inl (Or.inl hLt)
    · rcases Bool.or_eq_true_iff.mp (c.total x y) with hLe | hGe
      · exact Or.inl (Or.inr ⟨hEq, hLe⟩)
      · exact Or.inr (Or.inr ⟨hEq.symm, hGe⟩)
    · exact Or.inr (Or.inl hGt)
  antisymm := by
    intro x y hxy hyx
    rw [decide_eq_true_eq] at hxy hyx
    rcases hxy with hLt | ⟨hEq, hLe⟩
    · rcases hyx with hLt' | ⟨hEq', -⟩
      · exact absurd hLt (lt_asymm hLt')
      · exact absurd hLt (hEq' ▸ lt_irrefl _)
    · rcases hyx with hLt' | ⟨-, hLe'⟩
      · exact absurd hLt' (hEq ▸ lt_irrefl _)
      · exact c.antisymm x y hLe hLe'

theorem byKey_le {key : α → β} {c : Collation α} {a b : α} :
    (c.byKey key).le a b = true ↔
      key a < key b ∨ (key a = key b ∧ c.le a b = true) := decide_eq_true_iff

def sort (c : Collation α) (l : List α) : List α := l.mergeSort c.le

theorem sort_perm (c : Collation α) (l : List α) : (c.sort l).Perm l :=
  List.mergeSort_perm l c.le

theorem pairwise_sort (c : Collation α) (l : List α) :
    (c.sort l).Pairwise fun a b => c.le a b = true :=
  List.pairwise_mergeSort c.trans c.total l

/-- What is sorted by one order is in the order of `f` exactly when the two go
together wherever `f` tells apart. -/
theorem pairwise_map_sort_iff (c : Collation α) (f : α → β) (l : List α) :
    ((c.sort l).map f).Pairwise (· ≤ ·) ↔
      ∀ a ∈ l, ∀ b ∈ l, f a < f b → c.le a b = true := by
  have hSorted := c.pairwise_sort l
  have hPerm := c.sort_perm l
  rw [List.pairwise_map]
  constructor
  · intro hOrder
    -- Of two elements the one in front is not the greater one.
    have hFront : (c.sort l).Pairwise fun a b => f a < f b → c.le a b = true :=
      hSorted.imp fun {a b} hLe (_ : f a < f b) => hLe
    have hBehind : (c.sort l).Pairwise fun a b => f b < f a → c.le b a = true :=
      hOrder.imp fun {a b} hLe (hLt : f b < f a) => absurd hLt (not_lt_of_ge hLe)
    have hAll := hFront.forall_of_forall_of_flip
      (fun a _ hLt => absurd hLt (lt_irrefl _)) hBehind
    intro a ha b hb
    exact hAll (hPerm.mem_iff.mpr ha) (hPerm.mem_iff.mpr hb)
  · intro hAgree
    refine hSorted.imp_of_mem fun {a b} ha hb hLe => ?_
    by_contra hNot
    have hBack := hAgree b (hPerm.mem_iff.mp hb) a (hPerm.mem_iff.mp ha)
      (not_le.mp hNot)
    exact hNot (le_of_eq (congrArg f (c.antisymm a b hLe hBack)))

end Collation

/-- The order of the bytes. -/
def byteOrder : Collation (List Char) where
  le a b := decide (a ≤ b)
  trans := by
    intro a b c hab hbc
    rw [decide_eq_true_eq] at hab hbc ⊢
    exact le_trans hab hbc
  total := by
    intro a b
    rw [Bool.or_eq_true, decide_eq_true_eq, decide_eq_true_eq]
    exact le_total a b
  antisymm := by
    intro a b hab hba
    exact le_antisymm (of_decide_eq_true hab) (of_decide_eq_true hba)

end MioBench.Lib
