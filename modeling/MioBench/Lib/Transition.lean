import Mathlib.Logic.Relation

/-!
# Guarded transition machines

A concurrent program is modelled by one guarded, executable step function:
`next s e` is the state after event `e`, and `none` when `e` is not enabled
in `s`.  The rules below are the ones every development over such a machine
needs: the invariant rule, replay of a finite schedule, transport along a
projection to a smaller machine, and two ranking rules, one for "this thread
is not merely polling" and one for "from here the run can be finished".
-/

namespace MioBench.Lib

universe u v

/-- A guarded transition machine over states `σ` and events `ε`. -/
structure Machine (σ : Type u) (ε : Type v) where
  start : σ
  next : σ → ε → Option σ

namespace Machine

variable {σ τ : Type u} {ε δ : Type v} (m : Machine σ ε)

/-- One enabled event, whichever it is. -/
def Moves (s s' : σ) : Prop := ∃ e, m.next s e = some s'

/-- `s'` is reached from `s` by finitely many enabled events. -/
def Reaches (s s' : σ) : Prop := Relation.ReflTransGen m.Moves s s'

/-- The states of the finite runs from the start state. -/
def Reachable (s : σ) : Prop := m.Reaches m.start s

variable {m}

theorem Reachable.initial : m.Reachable m.start := Relation.ReflTransGen.refl

theorem Reachable.next {s s' : σ} {e : ε} (h : m.Reachable s)
    (he : m.next s e = some s') : m.Reachable s' :=
  Relation.ReflTransGen.tail h ⟨e, he⟩

theorem Reachable.trans {s s' : σ} (h : m.Reachable s) (h' : m.Reaches s s') :
    m.Reachable s' :=
  Relation.ReflTransGen.trans h h'

theorem reaches_of_next {s s' : σ} {e : ε} (h : m.next s e = some s') :
    m.Reaches s s' :=
  Relation.ReflTransGen.single ⟨e, h⟩

/-- The invariant rule: a predicate of the start state that every enabled
event keeps holds in every reachable state.  The step may use that its source
is itself reachable. -/
theorem Reachable.invariant {P : σ → Prop} (hStart : P m.start)
    (hStep : ∀ s e s', m.Reachable s → P s → m.next s e = some s' → P s')
    {s : σ} (h : m.Reachable s) : P s := by
  induction h with
  | refl => exact hStart
  | tail hs hMove ih =>
      obtain ⟨e, he⟩ := hMove
      exact hStep _ e _ hs ih he

/-- The stage rule: where each of `n` stages leads to the next by some event,
the last one is reached. -/
theorem exists_reachable_stage {P : Nat → σ → Prop} {n : Nat}
    (hFirst : ∃ s, m.Reachable s ∧ P 0 s)
    (hStep : ∀ i s, i < n → P i s → ∃ e s', m.next s e = some s' ∧ P (i + 1) s') :
    ∃ s, m.Reachable s ∧ P n s := by
  induction n with
  | zero => exact hFirst
  | succ n ih =>
      obtain ⟨s, hs, hP⟩ := ih fun i s hi => hStep i s (by omega)
      obtain ⟨e, s', he, hP'⟩ := hStep n s (Nat.lt_succ_self n) hP
      exact ⟨s', hs.next he, hP'⟩

/-- What every enabled event keeps is kept by every run from any state. -/
theorem Reaches.invariant {P : σ → Prop}
    (hStep : ∀ s e s', P s → m.next s e = some s' → P s')
    {s s' : σ} (h : m.Reaches s s') (hs : P s) : P s' := by
  induction h with
  | refl => exact hs
  | tail _ hMove ih =>
      obtain ⟨e, he⟩ := hMove
      exact hStep _ e _ ih he

/-! ## Replaying a schedule -/

variable (m) in
/-- Run the events of a schedule in order; `none` when one is disabled. -/
def exec : σ → List ε → Option σ
  | s, [] => some s
  | s, e :: es => (m.next s e).bind (exec · es)

@[simp] theorem exec_nil (s : σ) : m.exec s [] = some s := rfl

theorem reaches_of_exec {s s' : σ} {es : List ε}
    (h : m.exec s es = some s') : m.Reaches s s' := by
  induction es generalizing s with
  | nil =>
      obtain rfl : s = s' := by simpa using h
      exact Relation.ReflTransGen.refl
  | cons e es ih =>
      cases he : m.next s e with
      | none => simp [exec, he] at h
      | some s₁ =>
          have hTail : m.exec s₁ es = some s' := by simpa [exec, he] using h
          exact Relation.ReflTransGen.head ⟨e, he⟩ (ih hTail)

theorem reachable_of_exec {s : σ} {es : List ε}
    (h : m.exec m.start es = some s) : m.Reachable s :=
  reaches_of_exec h

/-- What the events of a schedule keep is kept by replaying it. -/
theorem exec_invariant {P : σ → Prop} {allowed : ε → Prop}
    (hStep : ∀ s e s', P s → allowed e → m.next s e = some s' → P s')
    {s s' : σ} {es : List ε} (hs : P s) (hAllowed : ∀ e ∈ es, allowed e)
    (h : m.exec s es = some s') : P s' := by
  induction es generalizing s with
  | nil =>
      obtain rfl : s = s' := by simpa using h
      exact hs
  | cons e es ih =>
      cases he : m.next s e with
      | none => simp [exec, he] at h
      | some s₁ =>
          have hTail : m.exec s₁ es = some s' := by simpa [exec, he] using h
          exact ih (hStep s e s₁ hs (hAllowed e (by simp)) he)
            (fun d hd => hAllowed d (by simp [hd])) hTail

/-- The frame rule: a change `f` of the state that the allowed events neither
notice nor undo, as long as `P` holds, can be made before a schedule of them
or after it. -/
theorem exec_frame {f : σ → σ} {P : σ → Prop} {allowed : ε → Prop}
    (hStep : ∀ s e s', P s → allowed e → m.next s e = some s' → P s')
    (hFrame : ∀ s e, P s → allowed e → m.next (f s) e = (m.next s e).map f)
    {s : σ} (hs : P s) {es : List ε} (hAllowed : ∀ e ∈ es, allowed e) :
    m.exec (f s) es = (m.exec s es).map f := by
  induction es generalizing s with
  | nil => rfl
  | cons e es ih =>
      have hHead := hFrame s e hs (hAllowed e (by simp))
      cases he : m.next s e with
      | none => simp [exec, hHead, he]
      | some s₁ =>
          have hTail := ih (hStep s e s₁ hs (hAllowed e (by simp)) he)
            (fun d hd => hAllowed d (by simp [hd]))
          simpa [exec, hHead, he] using hTail

/-! ## Projection to a smaller machine -/

/-- `f` maps the reachable part of `m` into `a`: each event of `m` is matched
by one event of `a` or leaves the projected state as it is. -/
structure Projects (m : Machine σ ε) (a : Machine τ δ) (f : σ → τ) : Prop where
  start : f m.start = a.start
  step : ∀ s e s', m.Reachable s → m.next s e = some s' →
    f s' = f s ∨ ∃ d, a.next (f s) d = some (f s')

/-- Reachability is transported along a projection, and with it every
invariant of the smaller machine. -/
theorem Projects.reachable {a : Machine τ δ} {f : σ → τ}
    (h : Projects m a f) {s : σ} (hs : m.Reachable s) :
    a.Reachable (f s) := by
  refine hs.invariant (P := fun s => a.Reachable (f s)) ?_ ?_
  · rw [h.start]
    exact Reachable.initial
  · intro s e s' hReach ih he
    rcases h.step s e s' hReach he with hStay | ⟨d, hd⟩
    · rw [hStay]
      exact ih
    · exact ih.next hd

/-! ## Ranking rules -/

variable (m) in
/-- One step of the events in `own`, all others standing still. -/
def Solo (own : ε → Prop) (s s' : σ) : Prop :=
  ∃ e, own e ∧ m.next s e = some s'

variable (m) in
/-- The owner of `own`, running alone from `s`, can come back to `s`: it
polls something nobody has changed. -/
def Polls (own : ε → Prop) (s : σ) : Prop := Relation.TransGen (m.Solo own) s s

theorem Solo.reachable {own : ε → Prop} {s s' : σ} (h : m.Solo own s s')
    (hs : m.Reachable s) : m.Reachable s' := by
  obtain ⟨e, _, he⟩ := h
  exact hs.next he

/-- An owner whose steps never raise a rank, and whose next step lowers it,
is not polling. -/
theorem not_polls_of_rank {own : ε → Prop} (rank : σ → Nat) {s : σ}
    (hs : m.Reachable s)
    (hMono : ∀ t t', m.Reachable t → m.Solo own t t' → rank t' ≤ rank t)
    (hNext : ∀ t, m.Solo own s t → rank t < rank s) : ¬ m.Polls own s := by
  have hRun : ∀ t t', Relation.ReflTransGen (m.Solo own) t t' →
      m.Reachable t → m.Reachable t' ∧ rank t' ≤ rank t := by
    intro t t' hRun ht
    induction hRun with
    | refl => exact ⟨ht, Nat.le_refl _⟩
    | tail _ hStep ih =>
        exact ⟨hStep.reachable ih.1,
          Nat.le_trans (hMono _ _ ih.1 hStep) ih.2⟩
  intro hCycle
  obtain ⟨t, hFirst, hRest⟩ := Relation.TransGen.head'_iff.mp hCycle
  have hLt := hNext t hFirst
  have hLe := (hRun t s hRest (hFirst.reachable hs)).2
  omega

/-- The same for an owner whose polling is ruled out only while a counter
stands still: the counter never falls, and from a state where `Good` holds a
step that leaves the counter alone lowers the rank and keeps `Good`. -/
theorem not_polls_of_counter {own : ε → Prop} {Good : σ → Prop}
    (count rank : σ → Nat) {s : σ} (hs : m.Reachable s) (hGood : Good s)
    (hMono : ∀ t t', m.Reachable t → m.Solo own t t' → count t ≤ count t')
    (hStep : ∀ t t', m.Reachable t → Good t → m.Solo own t t' →
      count t' = count t → Good t' ∧ rank t' < rank t) :
    ¬ m.Polls own s := by
  have hCount : ∀ t t', Relation.ReflTransGen (m.Solo own) t t' →
      m.Reachable t → count t ≤ count t' := by
    intro t t' hRun ht
    have hBoth : m.Reachable t' ∧ count t ≤ count t' := by
      induction hRun with
      | refl => exact ⟨ht, Nat.le_refl _⟩
      | tail _ hNext ih =>
          exact ⟨hNext.reachable ih.1,
            Nat.le_trans ih.2 (hMono _ _ ih.1 hNext)⟩
    exact hBoth.2
  -- Everything on the way round the cycle has the counter of `s`.
  have hWay : ∀ t, Relation.TransGen (m.Solo own) s t →
      Relation.ReflTransGen (m.Solo own) t s →
      m.Reachable t ∧ Good t ∧ rank t < rank s := by
    intro t hOut
    induction hOut with
    | single hFirst =>
        intro hBack
        have hReach := hFirst.reachable hs
        have hUp := hMono _ _ hs hFirst
        have hDown := hCount _ _ hBack hReach
        exact ⟨hReach, hStep _ _ hs hGood hFirst (by omega)⟩
    | @tail t t' hOut hNext ih =>
        intro hBack
        obtain ⟨hReach, hGoodT, hLt⟩ :=
          ih (Relation.ReflTransGen.head hNext hBack)
        have hReach' := hNext.reachable hReach
        have hUp := hMono _ _ hReach hNext
        have hDown := hCount _ _ hBack hReach'
        have hFirst := hCount _ _ hOut.to_reflTransGen hs
        obtain ⟨hGood', hLt'⟩ := hStep _ _ hReach hGoodT hNext (by omega)
        exact ⟨hReach', hGood', by omega⟩
  intro hCycle
  exact Nat.lt_irrefl _ (hWay s hCycle Relation.ReflTransGen.refl).2.2

/-- The finishing rule within a budget: if from every reachable unfinished
state some events lower a rank and do not raise a budget, then every reachable
state can be run to a finished one within its budget. -/
theorem finishes_within {Done : σ → Prop} (rank budget : σ → Nat)
    (hRun : ∀ s, m.Reachable s → ¬ Done s →
      ∃ s', m.Reaches s s' ∧ rank s' < rank s ∧ budget s' ≤ budget s)
    {s : σ} (hs : m.Reachable s) :
    ∃ s', m.Reaches s s' ∧ Done s' ∧ budget s' ≤ budget s := by
  induction hr : rank s using Nat.strongRecOn generalizing s with
  | _ r ih =>
      by_cases hDone : Done s
      · exact ⟨s, Relation.ReflTransGen.refl, hDone, Nat.le_refl _⟩
      · obtain ⟨s₁, hFirst, hLt, hLe⟩ := hRun s hs hDone
        obtain ⟨s', hRest, hFin, hWithin⟩ :=
          ih (rank s₁) (hr ▸ hLt) (hs.trans hFirst) rfl
        exact ⟨s', Relation.ReflTransGen.trans hFirst hRest, hFin,
          Nat.le_trans hWithin hLe⟩

/-- The finishing rule: if from every reachable unfinished state some event
lowers a rank, then every reachable state can be run to a finished one. -/
theorem finishes_of_rank {Done : σ → Prop} (rank : σ → Nat)
    (hStep : ∀ s, m.Reachable s → ¬ Done s →
      ∃ e s', m.next s e = some s' ∧ rank s' < rank s)
    {s : σ} (hs : m.Reachable s) : ∃ s', m.Reaches s s' ∧ Done s' := by
  have hRun : ∀ s, m.Reachable s → ¬ Done s →
      ∃ s', m.Reaches s s' ∧ rank s' < rank s ∧ 0 ≤ 0 := by
    intro s hs hDone
    obtain ⟨e, s', he, hLt⟩ := hStep s hs hDone
    exact ⟨s', reaches_of_next he, hLt, Nat.le_refl 0⟩
  obtain ⟨s', hReach, hDone, _⟩ := finishes_within rank (fun _ => 0) hRun hs
  exact ⟨s', hReach, hDone⟩

end Machine

end MioBench.Lib
