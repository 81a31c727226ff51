import Mathlib.Data.List.Basic
import Mathlib.Data.List.Chain
import Mathlib.Data.List.Induction

/-!
# Neighbours in a list

`Adjacent l a b` says that `b` comes directly after `a` in `l`.  A linked list
in memory is described by such pairs: the list the pointers are meant to
represent is `l`, and each link `a → b` is either stored or still to be stored
by whoever appended `b`.
-/

namespace MioBench.Lib

universe u

variable {α : Type u}

/-- `b` is the direct successor of `a` somewhere in the list. -/
def Adjacent : List α → α → α → Prop
  | x :: y :: l, a, b => (a = x ∧ b = y) ∨ Adjacent (y :: l) a b
  | [_], _, _ => False
  | [], _, _ => False

namespace Adjacent

@[simp] theorem nil_iff (a b : α) : ¬ Adjacent [] a b := id

@[simp] theorem singleton_iff (x a b : α) : ¬ Adjacent [x] a b := id

theorem cons_iff (x : α) (l : List α) (a b : α) :
    Adjacent (x :: l) a b ↔ (a = x ∧ l.head? = some b) ∨ Adjacent l a b := by
  cases l with
  | nil => simp
  | cons y l => simp [Adjacent, eq_comm]

theorem mem_left {l : List α} {a b : α} (h : Adjacent l a b) : a ∈ l := by
  induction l with
  | nil => exact absurd h (nil_iff a b)
  | cons x l ih =>
      rw [cons_iff] at h
      rcases h with ⟨rfl, _⟩ | h
      · simp
      · exact List.mem_cons_of_mem x (ih h)

/-- A successor is never the first element's position. -/
theorem mem_tail {l : List α} {a b : α} (h : Adjacent l a b) : b ∈ l.tail := by
  induction l with
  | nil => exact absurd h (nil_iff a b)
  | cons x l ih =>
      rw [cons_iff] at h
      rcases h with ⟨_, hHead⟩ | h
      · exact List.mem_of_mem_head? hHead
      · exact List.mem_of_mem_tail (ih h)

theorem mem_right {l : List α} {a b : α} (h : Adjacent l a b) : b ∈ l :=
  List.mem_of_mem_tail h.mem_tail

/-- Everything but the last element has a successor. -/
theorem exists_of_mem {l : List α} {a : α} (ha : a ∈ l)
    (hLast : l.getLast? ≠ some a) : ∃ b, Adjacent l a b := by
  induction l with
  | nil => simp at ha
  | cons x l ih =>
      cases l with
      | nil =>
          obtain rfl : a = x := by simpa using ha
          exact absurd rfl hLast
      | cons y l =>
          rcases List.mem_cons.mp ha with rfl | ha
          · exact ⟨y, Or.inl ⟨rfl, rfl⟩⟩
          · obtain ⟨b, hb⟩ := ih ha (by simpa using hLast)
            exact ⟨b, Or.inr hb⟩

/-- Appending one element adds one pair: the old last element and the new. -/
theorem concat_iff (l : List α) (x a b : α) :
    Adjacent (l ++ [x]) a b ↔
      Adjacent l a b ∨ (l.getLast? = some a ∧ b = x) := by
  induction l with
  | nil => simp
  | cons y l ih =>
      rw [List.cons_append, cons_iff, cons_iff, ih]
      cases l with
      | nil => simp [eq_comm]
      | cons z l =>
          simp only [List.cons_append, List.head?_cons,
            List.getLast?_cons_cons]
          tauto

theorem append_left {l : List α} {a b : α} (h : Adjacent l a b)
    (rest : List α) : Adjacent (l ++ rest) a b := by
  induction rest using List.reverseRecOn with
  | nil => rwa [List.append_nil]
  | append_singleton rest x ih =>
      rw [← List.append_assoc, concat_iff]
      exact Or.inl ih

theorem append_cons (front : List α) (a b : α) (rest : List α) :
    Adjacent (front ++ a :: b :: rest) a b := by
  induction front with
  | nil => exact Or.inl ⟨rfl, rfl⟩
  | cons x front ih =>
      rw [List.cons_append, cons_iff]
      exact Or.inr ih

/-- What holds of all neighbours makes the list a chain. -/
theorem isChain {R : α → α → Prop} {l : List α}
    (h : ∀ a b, Adjacent l a b → R a b) : l.IsChain R := by
  induction l with
  | nil => exact List.isChain_nil
  | cons x l ih =>
      rw [List.isChain_cons]
      constructor
      · intro y hy
        exact h x y ((cons_iff x l x y).mpr (Or.inl ⟨rfl, hy⟩))
      · exact ih fun a b hab => h a b ((cons_iff x l a b).mpr (Or.inr hab))

section Nodup

variable {l : List α} {a b c : α}

/-- The first element follows nobody. -/
theorem not_head (hl : l.Nodup) (hHead : l.head? = some b) :
    ¬ Adjacent l a b := by
  intro h
  cases l with
  | nil => simp at hHead
  | cons x l =>
      obtain rfl : x = b := by simpa using hHead
      exact (List.nodup_cons.mp hl).1 h.mem_tail

theorem right_unique (hl : l.Nodup) (h : Adjacent l a b)
    (h' : Adjacent l a c) : b = c := by
  induction l with
  | nil => exact absurd h (nil_iff a b)
  | cons x l ih =>
      obtain ⟨hx, hl⟩ := List.nodup_cons.mp hl
      rw [cons_iff] at h h'
      rcases h with ⟨ha, hb⟩ | h <;> rcases h' with ⟨ha', hc⟩ | h'
      · exact Option.some.inj (hb.symm.trans hc)
      · exact absurd (ha ▸ h'.mem_left) hx
      · exact absurd (ha' ▸ h.mem_left) hx
      · exact ih hl h h'

/-- The last element has no successor. -/
theorem not_last (hl : l.Nodup) (hLast : l.getLast? = some a) :
    ¬ Adjacent l a b := by
  induction l with
  | nil => exact nil_iff a b
  | cons x l ih =>
      obtain ⟨hx, hl'⟩ := List.nodup_cons.mp hl
      intro h
      cases l with
      | nil => exact singleton_iff x a b h
      | cons y l =>
          have hLast' : (y :: l).getLast? = some a := by simpa using hLast
          rw [cons_iff] at h
          rcases h with ⟨rfl, _⟩ | h
          · exact hx (List.mem_of_mem_getLast? hLast')
          · exact ih hl' hLast' h

/-- A start of the list goes on with the successor of its last element. -/
theorem concat_isPrefix {init : List α} (hl : l.Nodup) (hInit : init <+: l)
    (hLast : init.getLast? = some a) (h : Adjacent l a b) :
    init ++ [b] <+: l := by
  obtain ⟨rest, rfl⟩ := hInit
  cases rest with
  | nil =>
      rw [List.append_nil] at hl h
      exact absurd h (not_last hl hLast)
  | cons c rest =>
      have hSplit : init ++ c :: rest = init ++ [c] ++ rest := by simp
      rw [hSplit] at hl h ⊢
      have hNext : Adjacent (init ++ [c] ++ rest) a c :=
        append_left ((concat_iff init c a c).mpr (Or.inr ⟨hLast, rfl⟩)) rest
      obtain rfl := right_unique hl h hNext
      exact List.prefix_append _ rest

end Nodup

end Adjacent

end MioBench.Lib
