import MioBench.Lib.Transition
import Mathlib.Data.List.Basic

/-!
# The abstract FIFO

What a first-in first-out queue is for, with no memory and no threads: a list
of what entered and a list of what left, where only the oldest element that has
not left can leave.
-/

namespace MioBench.Lib

universe u

/-- Everything that entered the queue and everything that left it, in order. -/
structure Fifo (α : Type u) where
  entered : List α
  left : List α

inductive FifoEvent (α : Type u)
  | enter (a : α)
  | leave

namespace Fifo

variable {α : Type u}

/-- What is in the queue, oldest first. -/
def waiting (s : Fifo α) : List α := s.entered.drop s.left.length

/-- The only element that may leave is the oldest one waiting. -/
def leave (s : Fifo α) : Option (Fifo α) :=
  match s.waiting with
  | [] => none
  | a :: _ => some { s with left := s.left ++ [a] }

variable (α) in
def machine : Machine (Fifo α) (FifoEvent α) where
  start := { entered := [], left := [] }
  next s
    | .enter a => some { s with entered := s.entered ++ [a] }
    | .leave => s.leave

theorem leave_of_split {s : Fifo α} {a : α} {rest : List α}
    (h : s.entered = s.left ++ a :: rest) :
    s.leave = some { s with left := s.left ++ [a] } := by
  have hWaiting : s.waiting = a :: rest := by simp [waiting, h]
  simp [leave, hWaiting]

/-- Nothing is lost, duplicated or overtaken: what left is a prefix of what
entered. -/
theorem left_prefix {s : Fifo α} (hs : (machine α).Reachable s) :
    s.left <+: s.entered := by
  refine hs.invariant (P := fun s => s.left <+: s.entered)
    (List.prefix_refl []) ?_
  intro s e s' _ h hStep
  cases e with
  | enter a =>
      obtain rfl := Option.some.inj hStep
      exact h.trans (List.prefix_append s.entered [a])
  | leave =>
      obtain ⟨rest, hRest⟩ := h
      have hWaiting : s.waiting = rest := by simp [waiting, ← hRest]
      cases rest with
      | nil => simp [machine, leave, hWaiting] at hStep
      | cons a rest =>
          simp only [machine, leave, hWaiting, Option.some.injEq] at hStep
          subst hStep
          exact ⟨rest, by simp [← hRest]⟩

/-! ## A queue that keeps its newest element back -/

/-- The oldest element may leave when another one is waiting behind it. -/
def leaveBehind (s : Fifo α) : Option (Fifo α) :=
  match s.waiting with
  | a :: _ :: _ => some { s with left := s.left ++ [a] }
  | _ => none

variable (α) in
def laggingMachine : Machine (Fifo α) (FifoEvent α) where
  start := { entered := [], left := [] }
  next s
    | .enter a => some { s with entered := s.entered ++ [a] }
    | .leave => s.leaveBehind

theorem leaveBehind_of_split {s : Fifo α} {a b : α} {rest : List α}
    (h : s.entered = s.left ++ a :: b :: rest) :
    s.leaveBehind = some { s with left := s.left ++ [a] } := by
  have hWaiting : s.waiting = a :: b :: rest := by simp [waiting, h]
  simp [leaveBehind, hWaiting]

/-- Keeping elements back does not disturb the order. -/
theorem laggingMachine_projects :
    Machine.Projects (laggingMachine α) (machine α) id where
  start := rfl
  step := by
    intro s e s' _ hStep
    right
    cases e with
    | enter a => exact ⟨.enter a, hStep⟩
    | leave =>
        refine ⟨.leave, ?_⟩
        simp only [laggingMachine, leaveBehind] at hStep
        split at hStep
        · rename_i a b rest hWaiting
          simpa [machine, leave, hWaiting] using hStep
        · cases hStep

/-- The newest element never leaves: something is always waiting, once
anything has entered. -/
theorem left_length_lt {s : Fifo α} (hs : (laggingMachine α).Reachable s)
    (hSome : s.entered ≠ []) : s.left.length < s.entered.length := by
  have hInv : s.entered = [] ∧ s.left = [] ∨
      s.left.length < s.entered.length := by
    refine hs.invariant (P := fun s => s.entered = [] ∧ s.left = [] ∨
      s.left.length < s.entered.length) (Or.inl ⟨rfl, rfl⟩) ?_
    intro s e s' _ ih hStep
    right
    cases e with
    | enter a =>
        obtain rfl := Option.some.inj hStep
        rcases ih with ⟨hNone, hLeft⟩ | hLt
        · simp [hNone, hLeft]
        · simp only [List.length_append, List.length_singleton]
          omega
    | leave =>
        simp only [laggingMachine, leaveBehind] at hStep
        split at hStep
        · rename_i a b rest hWaiting
          obtain rfl := Option.some.inj hStep
          have hLength := congrArg List.length hWaiting
          simp only [waiting, List.length_drop, List.length_cons] at hLength
          simp only [List.length_append, List.length_singleton]
          omega
        · cases hStep
  rcases hInv with ⟨hNone, -⟩ | hLt
  · exact absurd hNone hSome
  · exact hLt

end Fifo

end MioBench.Lib
