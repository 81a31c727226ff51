import Mathlib.Data.List.GetD
import Mathlib.Data.List.Nodup
import Mathlib.Logic.Equiv.Basic

/-!
# The countdown shuffle

`for (i = last; i > 0; i--) swap(l[i], l[j])` with a `j` drawn for each `i`.
After round `i` the entry at `i` is final, so that the draws can be read off
the result one after the other: a list without duplicates has each of its
permutations as the result of exactly one sequence of draws `j ≤ i`.
-/

namespace MioBench.Lib

universe u

variable {α : Type u}

/-- `swap(l[i], l[j])`. -/
def swapAt (l : List α) (i j : Nat) : List α :=
  match l[i]?, l[j]? with
  | some a, some b => (l.set i b).set j a
  | _, _ => l

/-- The rounds `last, last - 1, .., 1`; `draw i` is the `j` of round `i`. -/
def shuffle (draw : Nat → Nat) : (last : Nat) → List α → List α
  | 0, l => l
  | i + 1, l => shuffle draw i (swapAt l (i + 1) (draw (i + 1)))

/-- Each draw is an index up to that of its round. -/
def DrawsBelow (draw : Nat → Nat) (last : Nat) : Prop :=
  ∀ i, 0 < i → i ≤ last → draw i ≤ i

theorem DrawsBelow.pred {draw : Nat → Nat} {i : Nat}
    (h : DrawsBelow draw (i + 1)) : DrawsBelow draw i :=
  fun k hPos hk => h k hPos (by omega)

/-! ## One swap -/

theorem swapAt_perm (l : List α) (i j : Nat) : (swapAt l i j).Perm l := by
  unfold swapAt
  split
  · rename_i a b ha hb
    obtain ⟨hi, rfl⟩ := List.getElem?_eq_some_iff.mp ha
    obtain ⟨hj, rfl⟩ := List.getElem?_eq_some_iff.mp hb
    exact List.set_set_perm hi hj
  · exact List.Perm.refl l

@[simp] theorem length_swapAt (l : List α) (i j : Nat) :
    (swapAt l i j).length = l.length :=
  (swapAt_perm l i j).length_eq

/-- A swap within the list moves the entries as a transposition moves their
positions. -/
theorem getElem?_swapAt {l : List α} {i j : Nat} (hi : i < l.length)
    (hj : j < l.length) (k : Nat) :
    (swapAt l i j)[k]? = l[Equiv.swap i j k]? := by
  rw [swapAt, List.getElem?_eq_getElem hi, List.getElem?_eq_getElem hj]
  dsimp only
  by_cases hkj : k = j
  · rw [hkj, Equiv.swap_apply_right, List.getElem?_set_self (by simpa using hj),
      List.getElem?_eq_getElem hi]
  · rw [List.getElem?_set_ne (Ne.symm hkj)]
    by_cases hki : k = i
    · rw [hki, Equiv.swap_apply_left, List.getElem?_set_self hi,
        List.getElem?_eq_getElem hj]
    · rw [List.getElem?_set_ne (Ne.symm hki), Equiv.swap_apply_of_ne_of_ne hki hkj]

/-! ## The loop -/

theorem shuffle_perm (draw : Nat → Nat) (last : Nat) (l : List α) :
    (shuffle draw last l).Perm l := by
  induction last generalizing l with
  | zero => exact List.Perm.refl l
  | succ i ih => exact (ih _).trans (swapAt_perm l _ _)

/-- Only the draws of the rounds matter. -/
theorem shuffle_congr {draw draw' : Nat → Nat} {last : Nat}
    (h : ∀ i, 0 < i → i ≤ last → draw i = draw' i) (l : List α) :
    shuffle draw last l = shuffle draw' last l := by
  induction last generalizing l with
  | zero => rfl
  | succ i ih =>
      rw [shuffle, shuffle, h (i + 1) (by omega) (by omega)]
      exact ih (fun k hPos hk => h k hPos (by omega)) _

/-- A position above all rounds keeps its entry. -/
theorem getElem?_shuffle_above {draw : Nat → Nat} {last k : Nat} {l : List α}
    (hDraws : DrawsBelow draw last) (hLast : last < l.length) (hk : last < k) :
    (shuffle draw last l)[k]? = l[k]? := by
  induction last generalizing l with
  | zero => rfl
  | succ i ih =>
      have hDraw := hDraws (i + 1) (by omega) (by omega)
      rw [shuffle, ih hDraws.pred (by simpa using Nat.lt_of_succ_lt hLast)
        (by omega), getElem?_swapAt hLast (by omega),
        Equiv.swap_apply_of_ne_of_ne (by omega) (by omega)]

/-- Round `i` settles position `i`, by its draw. -/
theorem getElem?_shuffle_last {draw : Nat → Nat} {i : Nat} {l : List α}
    (hDraws : DrawsBelow draw (i + 1)) (hLast : i + 1 < l.length) :
    (shuffle draw (i + 1) l)[i + 1]? = l[draw (i + 1)]? := by
  have hDraw := hDraws (i + 1) (by omega) (by omega)
  rw [shuffle, getElem?_shuffle_above hDraws.pred
    (by simpa using Nat.lt_of_succ_lt hLast) (by omega),
    getElem?_swapAt hLast (by omega), Equiv.swap_apply_left]

/-- In a list without duplicates, an entry tells its position. -/
theorem eq_of_getElem?_eq {l : List α} (hl : l.Nodup) {i j : Nat}
    (hi : i < l.length) (hEq : l[i]? = l[j]?) : i = j := by
  rw [List.getElem?_eq_getElem hi] at hEq
  obtain ⟨hj, hEntry⟩ := List.getElem?_eq_some_iff.mp hEq.symm
  exact ((List.Nodup.getElem_inj_iff hl).mp hEntry).symm

/-- Two sequences of draws with the same result are the same. -/
theorem shuffle_injective {draw draw' : Nat → Nat} {last : Nat} {l : List α}
    (hl : l.Nodup) (hLast : last < l.length) (hDraws : DrawsBelow draw last)
    (hDraws' : DrawsBelow draw' last)
    (hEq : shuffle draw last l = shuffle draw' last l) :
    ∀ i, 0 < i → i ≤ last → draw i = draw' i := by
  induction last generalizing l with
  | zero =>
      intro i hPos hi
      omega
  | succ i ih =>
      have hDraw := hDraws (i + 1) (by omega) (by omega)
      have hTop : draw (i + 1) = draw' (i + 1) := by
        apply eq_of_getElem?_eq hl (by omega)
        rw [← getElem?_shuffle_last hDraws hLast, hEq,
          getElem?_shuffle_last hDraws' hLast]
      have hRest := ih (l := swapAt l (i + 1) (draw (i + 1)))
        ((swapAt_perm l _ _).nodup_iff.mpr hl)
        (by simpa using Nat.lt_of_succ_lt hLast) hDraws.pred hDraws'.pred
        (by rw [shuffle, shuffle, ← hTop] at hEq; exact hEq)
      intro k hPos hk
      rcases Nat.lt_or_eq_of_le hk with hEarlier | rfl
      · exact hRest k hPos (by omega)
      · exact hTop

/-- Lists that are permutations of each other and agree but for the first
entry agree. -/
theorem eq_of_perm_of_tail {l p : List α} (hPerm : p.Perm l)
    (hAgree : ∀ k, 0 < k → p[k]? = l[k]?) : p = l := by
  have hTail : p.tail = l.tail := by
    apply List.ext_getElem?
    intro k
    rw [List.getElem?_tail, List.getElem?_tail]
    exact hAgree (k + 1) (by omega)
  cases p with
  | nil => exact (List.Perm.nil_eq hPerm)
  | cons a p =>
      cases l with
      | nil => simpa using hPerm.length_eq
      | cons b l =>
          obtain rfl : p = l := hTail
          have hHead : [a].Perm [b] := (List.perm_append_right_iff p).mp hPerm
          rw [List.singleton_perm_singleton.mp hHead]

/-- Every permutation that leaves the positions above all rounds alone is the
result of some draws. -/
theorem exists_shuffle_eq {last : Nat} {l p : List α} (hl : l.Nodup)
    (hLast : last < l.length) (hPerm : p.Perm l)
    (hAbove : ∀ k, last < k → p[k]? = l[k]?) :
    ∃ draw, DrawsBelow draw last ∧ shuffle draw last l = p := by
  induction last generalizing l with
  | zero =>
      refine ⟨fun _ => 0, fun i hPos hi => by omega, ?_⟩
      exact (eq_of_perm_of_tail hPerm hAbove).symm
  | succ i ih =>
      have hLength := hPerm.length_eq
      have hp : p.Nodup := hPerm.nodup_iff.mpr hl
      -- The entry that has to come to `i + 1` is somewhere at or below it.
      obtain ⟨j, hj⟩ : ∃ j, l[j]? = p[i + 1]? := by
        have hMem : p[i + 1] ∈ l := hPerm.mem_iff.mp (List.getElem_mem _)
        obtain ⟨j, hj⟩ := List.getElem?_of_mem hMem
        exact ⟨j, by rw [hj, List.getElem?_eq_getElem]⟩
      have hBelow : j ≤ i + 1 := by
        by_contra hAfter
        have hSame := hAbove j (by omega)
        rw [hj] at hSame
        have hPos := eq_of_getElem?_eq hp (by omega) hSame.symm
        omega
      have hRest : ∀ k, i < k → p[k]? = (swapAt l (i + 1) j)[k]? := by
        intro k hk
        rw [getElem?_swapAt hLast (by omega)]
        rcases Nat.eq_or_lt_of_le (Nat.succ_le_of_lt hk) with hTop | hHigh
        · rw [← hTop, Nat.succ_eq_add_one, Equiv.swap_apply_left, hj]
        · rw [Equiv.swap_apply_of_ne_of_ne (by omega) (by omega)]
          exact hAbove k hHigh
      obtain ⟨draw, hDraws, hShuffle⟩ := ih
        ((swapAt_perm l _ _).nodup_iff.mpr hl)
        (by simpa using Nat.lt_of_succ_lt hLast)
        (hPerm.trans (swapAt_perm l _ _).symm) hRest
      refine ⟨Function.update draw (i + 1) j, fun k hPos hk => ?_, ?_⟩
      · by_cases hTop : k = i + 1
        · rw [hTop, Function.update_self]
          exact hBelow
        · rw [Function.update_of_ne hTop]
          exact hDraws k hPos (by omega)
      · rw [shuffle, Function.update_self, ← hShuffle]
        exact shuffle_congr (fun k hPos hk => Function.update_of_ne (by omega) _ _) _

/-! ## A permutation of `0 .. n - 1` by position -/

section Range

variable {n : Nat} {p : List Nat}

theorem getD_lt_of_perm_range (hPerm : p.Perm (List.range n)) {i : Nat}
    (hi : i < n) : p.getD i 0 < n := by
  have hLength : p.length = n := by simpa using hPerm.length_eq
  rw [List.getD_eq_getElem _ _ (by omega)]
  exact List.mem_range.mp (hPerm.mem_iff.mp (List.getElem_mem _))

theorem getD_inj_of_perm_range (hPerm : p.Perm (List.range n)) {i j : Nat}
    (hi : i < n) (hj : j < n) (hEq : p.getD i 0 = p.getD j 0) : i = j := by
  have hLength : p.length = n := by simpa using hPerm.length_eq
  have hNodup : p.Nodup := hPerm.nodup_iff.mpr List.nodup_range
  rw [List.getD_eq_getElem _ _ (by omega),
    List.getD_eq_getElem _ _ (by omega)] at hEq
  exact (List.Nodup.getElem_inj_iff hNodup).mp hEq

theorem exists_getD_of_perm_range (hPerm : p.Perm (List.range n)) {v : Nat}
    (hv : v < n) : ∃ i, i < n ∧ p.getD i 0 = v := by
  have hLength : p.length = n := by simpa using hPerm.length_eq
  obtain ⟨i, hi, hEntry⟩ :=
    List.getElem_of_mem (hPerm.mem_iff.mpr (List.mem_range.mpr hv))
  exact ⟨i, by omega, by rw [List.getD_eq_getElem _ _ hi, hEntry]⟩

end Range

/-! ## The draws as a type -/

/-- One draw for each of the rounds `last, .., 1`: entry `i` is that of round
`i + 1`. -/
abbrev Draws (last : Nat) : Type := (i : Fin last) → Fin (i + 2)

/-- The draw of each round; there is none above `last`. -/
def Draws.draw {last : Nat} (d : Draws last) (i : Nat) : Nat :=
  if h : i - 1 < last then d ⟨i - 1, h⟩ else 0

theorem Draws.draw_succ {last : Nat} (d : Draws last) (i : Fin last) :
    d.draw (i + 1) = d i := by
  simp [Draws.draw]

theorem Draws.drawsBelow {last : Nat} (d : Draws last) :
    DrawsBelow d.draw last := by
  intro i hPos hi
  obtain ⟨k, rfl⟩ : ∃ k, i = k + 1 := ⟨i - 1, by omega⟩
  rw [d.draw_succ ⟨k, hi⟩]
  exact Nat.lt_succ_iff.mp (d ⟨k, hi⟩).isLt

/-- The shuffle of a whole list without duplicates is a bijection between the
draws and the permutations of the list. -/
theorem shuffle_bijective {last : Nat} {l : List α} (hl : l.Nodup)
    (hLength : l.length = last + 1) :
    Function.Bijective fun d : Draws last =>
      (⟨shuffle d.draw last l, shuffle_perm d.draw last l⟩ :
        {p : List α // p.Perm l}) := by
  constructor
  · intro d d' hEq
    have hDraws := shuffle_injective hl (by omega) d.drawsBelow d'.drawsBelow
      (congrArg Subtype.val hEq)
    funext i
    have hSame := hDraws (i + 1) (by omega) (by omega)
    rw [d.draw_succ, d'.draw_succ] at hSame
    exact Fin.ext hSame
  · rintro ⟨p, hPerm⟩
    have hAbove : ∀ k, last < k → p[k]? = l[k]? := by
      intro k hk
      have hShort := hPerm.length_eq
      rw [List.getElem?_eq_none (by omega), List.getElem?_eq_none (by omega)]
    obtain ⟨draw, hDraws, hShuffle⟩ :=
      exists_shuffle_eq hl (by omega) hPerm hAbove
    refine ⟨fun i => ⟨draw (i + 1), ?_⟩, Subtype.ext ?_⟩
    · have hDraw := hDraws (i + 1) (by omega) (by omega)
      omega
    · refine Eq.trans (shuffle_congr (fun i hPos hi => ?_) l) hShuffle
      obtain ⟨k, rfl⟩ : ∃ k, i = k + 1 := ⟨i - 1, by omega⟩
      exact Draws.draw_succ _ ⟨k, hi⟩

end MioBench.Lib
