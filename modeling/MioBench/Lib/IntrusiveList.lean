import Mathlib.Logic.Function.Basic
import Mathlib.Logic.Relation
import MioBench.Lib.Adjacent

/-!
# A linked list with links still to be stored

A list kept in the `next` fields of its own nodes, with a head and a tail, is
changed by one store at a time: an appended node becomes the tail before the
old tail points to it.  `IntrusiveList` says which list of nodes the memory
stands for while such links are pending, and the lemmas below what the
elementary stores do to it: clearing a field outside the list, appending,
storing a pending link, and moving the head along a stored one.
-/

namespace MioBench.Lib

universe u

variable {α : Type u}

/-- The fields `next`, with `head` and `tail`, represent `chain`: each link of
it is stored, or somebody is going to store it. -/
structure IntrusiveList (next : α → Option α) (pending : α → α → Prop)
    (head tail : α) (chain : List α) : Prop where
  nodup : chain.Nodup
  starts : chain.head? = some head
  ends : chain.getLast? = some tail
  linked : ∀ a b, Adjacent chain a b → next a = some b ∨ pending a b
  owed : ∀ a b, pending a b → Adjacent chain a b ∧ next a = none
  terminated : next tail = none

/-- A way along the links, from the head on. -/
structure Walk (next : α → Option α) (pending : α → α → Prop) (head : α)
    (l : List α) : Prop where
  starts : l.head? = some head
  links : l.IsChain fun a b => next a = some b ∨ pending a b

namespace IntrusiveList

variable {next : α → Option α} {pending pending' : α → α → Prop}
  {head tail a b c x : α} {chain : List α}

theorem ne_nil (h : IntrusiveList next pending head tail chain) :
    chain ≠ [] := by
  intro hNil
  have hHead := h.starts
  simp [hNil] at hHead

theorem head_mem (h : IntrusiveList next pending head tail chain) :
    head ∈ chain :=
  List.mem_of_mem_head? h.starts

theorem tail_mem (h : IntrusiveList next pending head tail chain) :
    tail ∈ chain :=
  List.mem_of_getLast? h.ends

/-- A stored link inside the chain is the chain's own. -/
theorem adjacent_of_next (h : IntrusiveList next pending head tail chain)
    (ha : a ∈ chain) (hNext : next a = some b) : Adjacent chain a b := by
  have hNotLast : chain.getLast? ≠ some a := by
    intro hLast
    obtain rfl : tail = a := Option.some.inj (h.ends.symm.trans hLast)
    rw [h.terminated] at hNext
    cases hNext
  obtain ⟨c, hAdj⟩ := Adjacent.exists_of_mem ha hNotLast
  rcases h.linked a c hAdj with hStored | hPend
  · obtain rfl : b = c := Option.some.inj (hNext.symm.trans hStored)
    exact hAdj
  · have hNone := (h.owed a c hPend).2
    rw [hNext] at hNone
    cases hNone

/-- The stored links lead from the head to nodes of the chain only. -/
theorem mem_of_reaches (h : IntrusiveList next pending head tail chain)
    (hReach : Relation.ReflTransGen (fun a b => next a = some b) head x) :
    x ∈ chain := by
  induction hReach with
  | refl => exact h.head_mem
  | tail _ hNext ih => exact (h.adjacent_of_next ih hNext).mem_right

/-- Past a stored link of the head, the chain goes on with its target. -/
theorem cons_of_next (h : IntrusiveList next pending head tail chain)
    (hNext : next head = some b) : ∃ rest, chain = head :: b :: rest := by
  have hAdj := h.adjacent_of_next h.head_mem hNext
  have hHead := h.starts
  have hNodup := h.nodup
  cases chain with
  | nil => simp at hHead
  | cons y l =>
      obtain rfl : y = head := by simpa using hHead
      rw [Adjacent.cons_iff] at hAdj
      rcases hAdj with ⟨_, hSecond⟩ | hLater
      · cases l with
        | nil => simp at hSecond
        | cons z l =>
            obtain rfl : z = b := by simpa using hSecond
            exact ⟨l, rfl⟩
      · exact absurd hLater.mem_left (List.nodup_cons.mp hNodup).1

/-- When the head is also the tail, it is the whole chain. -/
theorem eq_singleton (h : IntrusiveList next pending head tail chain)
    (hOnly : head = tail) : chain = [head] := by
  have hHead := h.starts
  have hTail := h.ends
  have hNodup := h.nodup
  cases chain with
  | nil => simp at hHead
  | cons y l =>
      obtain rfl : y = head := by simpa using hHead
      cases l with
      | nil => rfl
      | cons z l =>
          have hLast : (z :: l).getLast? = some tail := by simpa using hTail
          have hMem := List.mem_of_getLast? hLast
          rw [← hOnly] at hMem
          exact absurd hMem (List.nodup_cons.mp hNodup).1

/-- At most one link out of a node is pending. -/
theorem pending_unique (h : IntrusiveList next pending head tail chain)
    (hab : pending a b) (hac : pending a c) : b = c :=
  Adjacent.right_unique h.nodup (h.owed a b hab).1 (h.owed a c hac).1

/-- A node with a pending link is not the tail. -/
theorem ne_tail_of_pending (h : IntrusiveList next pending head tail chain)
    (hab : pending a b) : tail ≠ a := by
  rintro rfl
  exact Adjacent.not_last h.nodup h.ends (h.owed tail b hab).1

/-- Who is going to store a link does not matter. -/
theorem congr (h : IntrusiveList next pending head tail chain)
    (hPending : ∀ a b, pending' a b ↔ pending a b) :
    IntrusiveList next pending' head tail chain :=
  { h with
    linked := fun a b hAdj => by
      rw [hPending]
      exact h.linked a b hAdj
    owed := fun a b hP => h.owed a b ((hPending a b).mp hP) }

/-- The first node leaves the chain along its stored link. -/
theorem advance (h : IntrusiveList next pending head tail chain)
    (hNext : next head = some b) :
    IntrusiveList next pending b tail chain.tail := by
  obtain ⟨rest, hChain⟩ := h.cons_of_next hNext
  have hNodup := h.nodup
  have hLast := h.ends
  rw [hChain] at hNodup hLast
  refine
    { nodup := ?_, starts := by simp [hChain], ends := ?_, linked := ?_
      owed := ?_, terminated := h.terminated }
  · rw [hChain]
    exact (List.nodup_cons.mp hNodup).2
  · simpa [hChain] using hLast
  · intro x y hAdj
    apply h.linked
    rw [hChain] at hAdj ⊢
    rw [Adjacent.cons_iff]
    exact Or.inr hAdj
  · intro x y hP
    obtain ⟨hAdj, hNone⟩ := h.owed x y hP
    refine ⟨?_, hNone⟩
    rw [hChain, Adjacent.cons_iff] at hAdj
    rw [hChain]
    rcases hAdj with ⟨rfl, _⟩ | hAdj
    · rw [hNext] at hNone
      cases hNone
    · exact hAdj

/-- A node with a cleared field, not yet in the chain, becomes the tail; the
link to it is pending. -/
theorem append (h : IntrusiveList next pending head tail chain)
    (hOut : x ∉ chain) (hNull : next x = none)
    (hPending : ∀ a b, pending' a b ↔ (a = tail ∧ b = x) ∨ pending a b) :
    IntrusiveList next pending' head x (chain ++ [x]) := by
  refine
    { nodup := ?_, starts := ?_, ends := by simp, linked := ?_, owed := ?_
      terminated := hNull }
  · rw [List.nodup_append]
    refine ⟨h.nodup, by simp, ?_⟩
    intro a ha b hb hEq
    rw [List.mem_singleton.mp hb] at hEq
    exact hOut (by rwa [← hEq])
  · rw [List.head?_append, h.starts]
    rfl
  · intro a b hAdj
    rw [Adjacent.concat_iff] at hAdj
    rw [hPending]
    rcases hAdj with hOld | ⟨hLast, hb⟩
    · rcases h.linked a b hOld with hStored | hPend
      · exact Or.inl hStored
      · exact Or.inr (Or.inr hPend)
    · have ha : a = tail := Option.some.inj (hLast.symm.trans h.ends)
      exact Or.inr (Or.inl ⟨ha, hb⟩)
  · intro a b hP
    rw [Adjacent.concat_iff]
    rcases (hPending a b).mp hP with ⟨rfl, rfl⟩ | hOld
    · exact ⟨Or.inr ⟨h.ends, rfl⟩, h.terminated⟩
    · obtain ⟨hAdj, hNone⟩ := h.owed a b hOld
      exact ⟨Or.inl hAdj, hNone⟩

/-! ## Walking along the links -/

/-- Out of a node of the chain there is one link, stored or pending, and it is
the chain's. -/
theorem link_iff (h : IntrusiveList next pending head tail chain)
    (ha : a ∈ chain) : next a = some b ∨ pending a b ↔ Adjacent chain a b := by
  constructor
  · intro hLink
    rcases hLink with hStored | hPend
    · exact h.adjacent_of_next ha hStored
    · exact (h.owed a b hPend).1
  · exact h.linked a b

/-- Whoever starts at the head and follows the links is on the chain. -/
theorem isPrefix_of_walk (h : IntrusiveList next pending head tail chain)
    {l : List α} (hWalk : Walk next pending head l) : l <+: chain := by
  obtain ⟨hStart, hLinks⟩ := hWalk
  induction l using List.reverseRecOn with
  | nil => exact List.nil_prefix
  | append_singleton l x ih =>
      cases hLast : l.getLast? with
      | none =>
          rw [List.getLast?_eq_none_iff] at hLast
          subst hLast
          obtain rfl : x = head := by simpa using hStart
          cases chain with
          | nil => exact absurd rfl h.ne_nil
          | cons y chain =>
              obtain rfl : y = x := by simpa using h.starts
              exact List.prefix_append [y] chain
      | some y =>
          have hNe : l ≠ [] := by
            rintro rfl
            cases hLast
          rw [List.head?_append_of_ne_nil l hNe] at hStart
          rw [List.isChain_append] at hLinks
          have hPrev := ih hStart hLinks.1
          have hLink := hLinks.2.2 y hLast x rfl
          have hMem : y ∈ chain := hPrev.subset (List.mem_of_getLast? hLast)
          exact Adjacent.concat_isPrefix h.nodup hPrev hLast
            ((h.link_iff hMem).mp hLink)

/-- The ways are the starts of the chain. -/
theorem walk_iff (h : IntrusiveList next pending head tail chain)
    {l : List α} : Walk next pending head l ↔ l ≠ [] ∧ l <+: chain := by
  constructor
  · intro hWalk
    refine ⟨?_, h.isPrefix_of_walk hWalk⟩
    rintro rfl
    cases hWalk.starts
  · rintro ⟨hNe, rest, rfl⟩
    have hStart := h.starts
    have hLinks := Adjacent.isChain h.linked
    rw [List.head?_append_of_ne_nil l hNe] at hStart
    exact ⟨hStart, hLinks.left_of_append⟩

section Store

variable [DecidableEq α]

/-- Whatever is stored in the field of a node outside the chain. -/
theorem outside (h : IntrusiveList next pending head tail chain)
    (hOut : x ∉ chain) (v : Option α) :
    IntrusiveList (Function.update next x v) pending head tail chain := by
  have hSame : ∀ a, a ∈ chain → Function.update next x v a = next a := by
    intro a ha
    have hNe : a ≠ x := by
      rintro rfl
      exact hOut ha
    exact Function.update_of_ne hNe _ _
  exact
    { h with
      linked := fun a b hAdj => by
        rw [hSame a hAdj.mem_left]
        exact h.linked a b hAdj
      owed := fun a b hP => by
        obtain ⟨hAdj, hNone⟩ := h.owed a b hP
        exact ⟨hAdj, (hSame a hAdj.mem_left).trans hNone⟩
      terminated := (hSame tail h.tail_mem).trans h.terminated }

/-- Clearing the field of a node outside the chain. -/
theorem reset (h : IntrusiveList next pending head tail chain)
    (hOut : x ∉ chain) :
    IntrusiveList (Function.update next x none) pending head tail chain :=
  h.outside hOut none

/-- Storing a pending link. -/
theorem store (h : IntrusiveList next pending head tail chain)
    (hMine : pending a b)
    (hPending : ∀ x y, pending' x y ↔ x ≠ a ∧ pending x y) :
    IntrusiveList (Function.update next a (some b)) pending' head tail
      chain := by
  obtain ⟨hAdj, _⟩ := h.owed a b hMine
  have hOther : ∀ x, x ≠ a →
      Function.update next a (some b) x = next x := by
    intro x hx
    exact Function.update_of_ne hx _ _
  refine
    { nodup := h.nodup, starts := h.starts, ends := h.ends, linked := ?_
      owed := ?_, terminated := ?_ }
  · intro x y hxy
    rw [hPending]
    by_cases hx : x = a
    · subst x
      left
      rw [Function.update_self, Adjacent.right_unique h.nodup hxy hAdj]
    · rw [hOther x hx]
      rcases h.linked x y hxy with hStored | hPend
      · exact Or.inl hStored
      · exact Or.inr ⟨hx, hPend⟩
  · intro x y hP
    obtain ⟨hx, hOld⟩ := (hPending x y).mp hP
    rw [hOther x hx]
    exact h.owed x y hOld
  · rw [hOther tail (h.ne_tail_of_pending hMine)]
    exact h.terminated

end Store

end IntrusiveList

end MioBench.Lib
