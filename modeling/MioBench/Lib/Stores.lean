import Mathlib.Data.List.Pairwise
import MioBench.Lib.Memory

/-!
# Runs of stores

Several threads store into one memory.  A store reaches it byte by byte, in
whatever order the hardware makes of the stores of all threads: a run is a
list of single bytes, and nothing is assumed about its order.  Stores to
disjoint places leave the same memory in every order.
-/

namespace MioBench.Lib

/-- A store of some bytes at an address. -/
structure Store where
  addr : Nat
  bytes : List UInt8
deriving Repr, DecidableEq

namespace Store

/-- The single bytes of a store, each with its address. -/
def cells (s : Store) : List (Nat × UInt8) :=
  (List.range s.bytes.length).map fun i => (s.addr + i, s.bytes.getD i 0)

/-- The two stores have no byte in common. -/
def Apart (s s' : Store) : Prop :=
  s.addr + s.bytes.length ≤ s'.addr ∨ s'.addr + s'.bytes.length ≤ s.addr

instance : Std.Symm Apart where
  symm _ _ h := Or.symm h

theorem mem_cells {s : Store} {a : Nat} {v : UInt8} :
    (a, v) ∈ s.cells ↔
      ∃ i, i < s.bytes.length ∧ a = s.addr + i ∧ v = s.bytes.getD i 0 := by
  simp [cells, eq_comm]

end Store

namespace Memory

/-- Single bytes are stored one after the other. -/
def run (m : Memory) (cells : List (Nat × UInt8)) : Memory :=
  cells.foldl (fun m c => m.write c.1 [c.2]) m

theorem run_cons (m : Memory) (c : Nat × UInt8) (cells : List (Nat × UInt8)) :
    m.run (c :: cells) = (m.write c.1 [c.2]).run cells := rfl

/-- A byte nobody stores to keeps its value. -/
theorem run_of_not_stored (m : Memory) {cells : List (Nat × UInt8)} {a : Nat}
    (hNone : ∀ c ∈ cells, c.1 ≠ a) : m.run cells a = m a := by
  induction cells generalizing m with
  | nil => rfl
  | cons c cells ih =>
      have hHead := hNone c (by simp)
      rw [run_cons, ih _ fun d hd => hNone d (by simp [hd])]
      apply write_outside
      simp only [List.length_singleton]
      omega

/-- A byte to which everybody stores the same value has it at the end. -/
theorem run_of_agree (m : Memory) {cells : List (Nat × UInt8)} {a : Nat}
    {v : UInt8} (hSome : (a, v) ∈ cells)
    (hAgree : ∀ c ∈ cells, c.1 = a → c.2 = v) : m.run cells a = v := by
  induction cells generalizing m with
  | nil => simp at hSome
  | cons c cells ih =>
      rw [run_cons]
      by_cases hLater : (a, v) ∈ cells
      · exact ih _ hLater fun d hd => hAgree d (by simp [hd])
      · obtain rfl : (a, v) = c := by simpa [hLater] using hSome
        have hNone : ∀ d ∈ cells, d.1 ≠ a := by
          intro d hd hEq
          have hSame := hAgree d (by simp [hd]) hEq
          exact hLater (by rwa [← hEq, ← hSame])
        rw [run_of_not_stored _ hNone]
        exact write_inside m a [v] (i := 0) (by simp)

end Memory

section Disjoint

variable {stores : List Store} {order : List (Nat × UInt8)}

/-- Stores that are pairwise apart, in any order of their bytes, leave each
its own bytes. -/
theorem run_stored (m : Memory) (hApart : stores.Pairwise Store.Apart)
    (hOrder : order.Perm (stores.flatMap Store.cells)) {s : Store}
    (hs : s ∈ stores) {i : Nat} (hi : i < s.bytes.length) :
    m.run order (s.addr + i) = s.bytes.getD i 0 := by
  have hMine : (s.addr + i, s.bytes.getD i 0) ∈ s.cells :=
    Store.mem_cells.mpr ⟨i, hi, rfl, rfl⟩
  apply m.run_of_agree
  · exact hOrder.mem_iff.mpr (List.mem_flatMap.mpr ⟨s, hs, hMine⟩)
  · rintro ⟨a, v⟩ hc rfl
    obtain ⟨s', hs', hCell⟩ := List.mem_flatMap.mp (hOrder.mem_iff.mp hc)
    obtain ⟨i', hi', hAddr, rfl⟩ := Store.mem_cells.mp hCell
    have hSame : s' = s := by
      by_contra hNe
      rcases hApart.forall hs' hs hNe with h | h
      · omega
      · omega
    obtain rfl : i' = i := by
      rw [hSame] at hAddr
      omega
    rw [hSame]

/-- And they leave alone what none of them covers. -/
theorem run_unstored (m : Memory)
    (hOrder : order.Perm (stores.flatMap Store.cells)) {a : Nat}
    (hOut : ∀ s ∈ stores, a < s.addr ∨ s.addr + s.bytes.length ≤ a) :
    m.run order a = m a := by
  apply m.run_of_not_stored
  rintro ⟨b, v⟩ hc rfl
  obtain ⟨s, hs, hCell⟩ := List.mem_flatMap.mp (hOrder.mem_iff.mp hc)
  obtain ⟨i, hi, hAddr, _⟩ := Store.mem_cells.mp hCell
  have hAway := hOut s hs
  omega

end Disjoint

end MioBench.Lib
