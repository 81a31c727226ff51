import Mathlib.Data.List.Nodup
import Mathlib.Logic.Function.Basic
import MioBench.Lib.Transition

/-!
# Handing buffers over under a lock

Every thread has a buffer and appends it, element by element, to one shared log
while it holds the lock of the log.  However the threads interleave, the log is
made of whole buffers in the order in which the lock was released, and of the
beginning of the buffer of the one who holds it.
-/

namespace MioBench.Lib

universe u

/-- The log, its lock, how much of its buffer the holder has appended, and who
has released the lock so far. -/
structure LockedLog (α : Type u) where
  owner : Option Nat
  log : List α
  written : Nat
  order : List Nat

namespace LockedLog

variable {α : Type u}

/-- The log free, with something in it from before. -/
def free (before : List α) : LockedLog α where
  owner := none
  log := before
  written := 0
  order := []

def lock (l : LockedLog α) (t : Nat) : Option (LockedLog α) :=
  match l.owner with
  | none => some { l with owner := some t, written := 0 }
  | some _ => none

/-- The holder appends the next element of its buffer, if there is one. -/
def append (l : LockedLog α) (buf : List α) : Option (LockedLog α) :=
  match buf[l.written]? with
  | none => none
  | some a => some { l with log := l.log ++ [a], written := l.written + 1 }

def unlock (l : LockedLog α) (t : Nat) : LockedLog α :=
  { l with owner := none, order := l.order ++ [t] }

/-- What the holder has appended. -/
def begun (l : LockedLog α) (buf : Nat → List α) : List α :=
  match l.owner with
  | none => []
  | some t => (buf t).take l.written

/-- How many elements the holder has yet to append. -/
def left (l : LockedLog α) (buf : Nat → List α) : Nat :=
  match l.owner with
  | none => 0
  | some t => (buf t).length - l.written

variable {l l' : LockedLog α} {t : Nat}

theorem exists_lock (hFree : l.owner = none) (t : Nat) :
    ∃ l', l.lock t = some l' :=
  ⟨{ l with owner := some t, written := 0 }, by rw [lock, hFree]⟩

theorem left_lock (buf : Nat → List α) (h : l.lock t = some l') :
    l'.left buf = (buf t).length := by
  unfold lock at h
  split at h
  · rw [← Option.some.inj h]
    rfl
  · cases h

theorem left_append (buf : Nat → List α) (hOwner : l.owner = some t)
    (h : l.append (buf t) = some l') : l'.left buf < l.left buf := by
  unfold append at h
  split at h
  · cases h
  · rename_i hNext
    have hLt := (List.getElem?_eq_some_iff.mp hNext).1
    rw [← Option.some.inj h]
    simp only [left, hOwner]
    omega

theorem left_unlock (l : LockedLog α) (t : Nat) (buf : Nat → List α) :
    (l.unlock t).left buf = 0 := rfl

/-- The log is made of whole buffers, of different threads, and of the
beginning of one buffer that a holder has not appended to the end. -/
def MadeOf (l : LockedLog α) (buf : Nat → List α) (holds : Nat → Prop) : Prop :=
  l.order.Nodup ∧ ∃ rest, l.log = l.order.flatMap buf ++ rest ∧
    (rest = [] ∨ ∃ t, holds t ∧ rest <+: buf t)

end LockedLog

/-- Where a thread stands with its buffer. -/
inductive HandPhase
  | ahead
  | holding
  | handed
  deriving DecidableEq, Repr

@[ext] structure HandState (α : Type u) where
  shared : LockedLog α
  phase : Nat → HandPhase

namespace HandState

variable {α : Type u}

def setPhase (s : HandState α) (t : Nat) (phase : HandPhase) : HandState α :=
  { s with phase := Function.update s.phase t phase }

/-- The next step of thread `t`. -/
def step (buf : Nat → List α) (s : HandState α) (t : Nat) :
    Option (HandState α) :=
  match s.phase t with
  | .ahead =>
      (s.shared.lock t).map fun shared =>
        { s.setPhase t .holding with shared := shared }
  | .holding =>
      match s.shared.append (buf t) with
      | some shared => some { s with shared := shared }
      | none => some { s.setPhase t .handed with shared := s.shared.unlock t }
  | .handed => none

end HandState

/-- Any number of threads, each of which may hand its buffer over once. -/
def handMachine {α : Type u} (before : List α) (buf : Nat → List α) :
    Machine (HandState α) Nat where
  start := { shared := LockedLog.free before, phase := fun _ => .ahead }
  next s t := s.step buf t

/-- The log is made of whole buffers and of a beginning of the holder's. -/
structure HandInv {α : Type u} (before : List α) (buf : Nat → List α)
    (s : HandState α) : Prop where
  log : s.shared.log =
    before ++ s.shared.order.flatMap buf ++ s.shared.begun buf
  nodup : s.shared.order.Nodup
  owner : ∀ t, s.shared.owner = some t ↔ s.phase t = .holding
  order : ∀ t, t ∈ s.shared.order ↔ s.phase t = .handed
  written : ∀ t, s.shared.owner = some t →
    s.shared.written ≤ (buf t).length

section Invariant

variable {α : Type u} {before : List α} {buf : Nat → List α}
  {s s' : HandState α}

theorem init_handInv (before : List α) (buf : Nat → List α) :
    HandInv before buf (handMachine before buf).start where
  log := by simp [handMachine, LockedLog.free, LockedLog.begun]
  nodup := List.nodup_nil
  owner := by simp [handMachine, LockedLog.free]
  order := by simp [handMachine, LockedLog.free]
  written := by simp [handMachine, LockedLog.free]

/-- Thread `t` takes the free lock; it has appended nothing yet. -/
theorem HandInv.lock (h : HandInv before buf s) {t : Nat}
    {shared : LockedLog α} (hPhase : s.phase t = .ahead)
    (hLock : s.shared.lock t = some shared) :
    HandInv before buf { s.setPhase t .holding with shared := shared } := by
  cases hOwner : s.shared.owner with
  | some u => simp [LockedLog.lock, hOwner] at hLock
  | none =>
      simp only [LockedLog.lock, hOwner] at hLock
      rw [← Option.some.inj hLock]
      have hLog := h.log
      simp only [LockedLog.begun, hOwner] at hLog
      refine ⟨?_, h.nodup, ?_, ?_, fun _ _ => Nat.zero_le _⟩
      · simpa [LockedLog.begun, HandState.setPhase] using hLog
      · intro u
        by_cases hu : u = t
        · simp [HandState.setPhase, hu]
        · have hNot : s.phase u ≠ .holding := by
            rw [ne_eq, ← h.owner u, hOwner]
            simp
          simp [HandState.setPhase, hu, hNot, Ne.symm hu]
      · intro u
        by_cases hu : u = t
        · have hNot : t ∉ s.shared.order := by
            rw [h.order t, hPhase]
            simp
          simp [HandState.setPhase, hu, hNot]
        · simpa [HandState.setPhase, hu] using h.order u

/-- The holder appends one element of its buffer. -/
theorem HandInv.append (h : HandInv before buf s) {t : Nat}
    {shared : LockedLog α} (hPhase : s.phase t = .holding)
    (hAppend : s.shared.append (buf t) = some shared) :
    HandInv before buf { s with shared := shared } := by
  have hOwner := (h.owner t).mpr hPhase
  cases hNext : (buf t)[s.shared.written]? with
  | none => simp [LockedLog.append, hNext] at hAppend
  | some a =>
      simp only [LockedLog.append, hNext] at hAppend
      rw [← Option.some.inj hAppend]
      have hLog := h.log
      simp only [LockedLog.begun, hOwner] at hLog
      refine ⟨?_, h.nodup, h.owner, h.order, ?_⟩
      · have hTake : (buf t).take (s.shared.written + 1) =
            (buf t).take s.shared.written ++ [a] := by
          rw [List.take_add_one, hNext]
          rfl
        simp only [LockedLog.begun, hOwner, hTake]
        rw [hLog, List.append_assoc]
      · intro u hu
        obtain rfl : t = u := Option.some.inj (hOwner.symm.trans hu)
        exact (List.getElem?_eq_some_iff.mp hNext).1

/-- The holder has appended its buffer and gives the lock back. -/
theorem HandInv.unlock (h : HandInv before buf s) {t : Nat}
    (hPhase : s.phase t = .holding) (hEnd : s.shared.append (buf t) = none) :
    HandInv before buf
      { s.setPhase t .handed with shared := s.shared.unlock t } := by
  have hOwner := (h.owner t).mpr hPhase
  have hLog := h.log
  simp only [LockedLog.begun, hOwner] at hLog
  have hAll : (buf t).take s.shared.written = buf t := by
    cases hNext : (buf t)[s.shared.written]? with
    | none => exact List.take_of_length_le (List.getElem?_eq_none_iff.mp hNext)
    | some a => simp [LockedLog.append, hNext] at hEnd
  refine ⟨?_, ?_, ?_, ?_, by simp [LockedLog.unlock]⟩
  · simp only [LockedLog.unlock, LockedLog.begun, List.flatMap_append,
      List.flatMap_singleton, List.append_nil]
    rw [hLog, hAll, List.append_assoc]
  · have hNot : t ∉ s.shared.order := by
      rw [h.order t, hPhase]
      simp
    exact List.nodup_append.mpr ⟨h.nodup, List.nodup_singleton t,
      fun u hu v hv => by
        rw [List.mem_singleton.mp hv]
        exact fun hEq => hNot (hEq ▸ hu)⟩
  · intro u
    by_cases hu : u = t
    · simp [LockedLog.unlock, HandState.setPhase, hu]
    · have hNot : s.phase u ≠ .holding := by
        rw [ne_eq, ← h.owner u, hOwner, Option.some.injEq]
        exact Ne.symm hu
      simp [LockedLog.unlock, HandState.setPhase, hu, hNot]
  · intro u
    by_cases hu : u = t
    · simp [LockedLog.unlock, HandState.setPhase, hu]
    · simpa [LockedLog.unlock, HandState.setPhase, hu] using h.order u

theorem handMachine_inv (hs : (handMachine before buf).Reachable s) :
    HandInv before buf s := by
  refine hs.invariant (init_handInv before buf) ?_
  intro s t s' _ h hStep
  change s.step buf t = some s' at hStep
  unfold HandState.step at hStep
  cases hPhase : s.phase t with
  | ahead =>
      simp only [hPhase] at hStep
      obtain ⟨shared, hLock, rfl⟩ := Option.map_eq_some_iff.mp hStep
      exact h.lock hPhase hLock
  | holding =>
      simp only [hPhase] at hStep
      cases hAppend : s.shared.append (buf t) with
      | some shared =>
          simp only [hAppend] at hStep
          rw [← Option.some.inj hStep]
          exact h.append hPhase hAppend
      | none =>
          simp only [hAppend] at hStep
          rw [← Option.some.inj hStep]
          exact h.unlock hPhase hAppend
  | handed => simp [hPhase] at hStep

/-- The lock has one holder. -/
theorem HandInv.holder_unique (h : HandInv before buf s) {t u : Nat}
    (ht : s.phase t = .holding) (hu : s.phase u = .holding) : t = u :=
  Option.some.inj (((h.owner t).mpr ht).symm.trans ((h.owner u).mpr hu))

theorem HandInv.madeOf (h : HandInv [] buf s) :
    s.shared.MadeOf buf fun t => s.phase t = .holding := by
  refine ⟨h.nodup, s.shared.begun buf, by simpa using h.log, ?_⟩
  cases hOwner : s.shared.owner with
  | none => exact Or.inl (by simp [LockedLog.begun, hOwner])
  | some t =>
      refine Or.inr ⟨t, (h.owner t).mp hOwner, ?_⟩
      simp only [LockedLog.begun, hOwner]
      exact List.take_prefix _ _

/-- When the threads below `n`, and no others, have handed their buffers over,
the log consists of their buffers, each whole and each once. -/
theorem HandInv.all_handed (h : HandInv before buf s) {n : Nat}
    (hHanded : ∀ t, t < n → s.phase t = .handed)
    (hAhead : ∀ t, n ≤ t → s.phase t = .ahead) :
    s.shared.order.Perm (List.range n) ∧
      s.shared.log = before ++ s.shared.order.flatMap buf := by
  constructor
  · refine (List.perm_ext_iff_of_nodup h.nodup List.nodup_range).mpr fun t => ?_
    rw [h.order t, List.mem_range]
    constructor
    · intro hPhase
      by_contra hLate
      rw [hAhead t (Nat.le_of_not_lt hLate)] at hPhase
      cases hPhase
    · exact hHanded t
  · have hFree : s.shared.begun buf = [] := by
      cases hOwner : s.shared.owner with
      | none => simp [LockedLog.begun, hOwner]
      | some t =>
          have hPhase := (h.owner t).mp hOwner
          rcases Nat.lt_or_ge t n with hEarly | hLate
          · rw [hHanded t hEarly] at hPhase
            cases hPhase
          · rw [hAhead t hLate] at hPhase
            cases hPhase
    rw [h.log, hFree, List.append_nil]

end Invariant

end MioBench.Lib
