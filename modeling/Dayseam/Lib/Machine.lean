import Mathlib

/-!
# Machines and their runs

A machine takes one action at a time.  An interleaving of several parties is a
list of actions; a condition on steps restricts which interleavings are looked
at, and an invariant that every allowed step preserves holds in every state that
such a run reaches.

## Main definitions

* `Machine` — a start state and a partial step function.
* `Machine.Reach` — the states reached by steps that meet a condition.
* `Machine.exec` — the run of a list of actions.
* `Machine.Throughout` — what holds in every state of such a run.

## Main results

* `Machine.Reach.invariant` — **the invariant rule.**
* `Machine.reach_of_exec` — a run that can be computed reaches its last state.
* `Machine.throughout_of_allowed` — what allowed steps keep holds throughout.
* `Machine.throughout_iff_allowed` — **the exact condition of a run.**
-/

/-- A machine with states `σ` and actions `α`; `step` is undefined where the
action is not possible. -/
structure Machine (σ α : Type*) where
  init : σ
  step : σ → α → Option σ

/-- Samples of a run number their parties from zero. -/
instance neZero_two : NeZero (1 + 1 : ℕ) := inferInstance

namespace Machine

variable {σ α : Type*} {m : Machine σ α} {allowed allowed' : σ → α → Prop} {s s' : σ}

/-- The states that are reached by allowed steps. -/
inductive Reach (m : Machine σ α) (allowed : σ → α → Prop) : σ → Prop
  | init : Reach m allowed m.init
  | step {s s' : σ} {a : α} : Reach m allowed s → allowed s a → m.step s a = some s' →
      Reach m allowed s'

/-- **The invariant rule**: what holds at the start and is preserved by every
allowed step from a reached state holds in every reached state. -/
theorem Reach.invariant {I : σ → Prop} (h : m.Reach allowed s) (h0 : I m.init)
    (hs : ∀ s a s', m.Reach allowed s → I s → allowed s a → m.step s a = some s' → I s') :
    I s := by
  induction h with
  | init => exact h0
  | step hr ha hst ih => exact hs _ _ _ hr ih ha hst

/-- Fewer steps reach fewer states. -/
theorem Reach.mono (h : m.Reach allowed s) (hc : ∀ s a, allowed s a → allowed' s a) :
    m.Reach allowed' s := by
  induction h with
  | init => exact .init
  | step _ ha hst ih => exact .step ih (hc _ _ ha) hst

/-! ### Computed runs -/

/-- The state after a list of actions. -/
def exec (m : Machine σ α) : σ → List α → Option σ
  | s, [] => some s
  | s, a :: as => (m.step s a).bind fun s' => m.exec s' as

/-- The actions of a run from `s` are all allowed. -/
def Allowed (m : Machine σ α) (allowed : σ → α → Prop) : σ → List α → Prop
  | _, [] => True
  | s, a :: as => allowed s a ∧ match m.step s a with
    | some s' => m.Allowed allowed s' as
    | none => True

instance decidableAllowed (m : Machine σ α) (allowed : σ → α → Prop)
    [∀ s a, Decidable (allowed s a)] : ∀ (s : σ) (as : List α), Decidable (m.Allowed allowed s as)
  | _, [] => isTrue trivial
  | s, a :: as =>
    have : Decidable (match m.step s a with
        | some s' => m.Allowed allowed s' as
        | none => True) :=
      match m.step s a with
      | some s' => decidableAllowed m allowed s' as
      | none => isTrue trivial
    inferInstanceAs (Decidable (allowed s a ∧ _))

theorem reach_of_exec_from {as : List α} (h : m.Reach allowed s) (ha : m.Allowed allowed s as)
    (he : m.exec s as = some s') : m.Reach allowed s' := by
  induction as generalizing s with
  | nil =>
    cases he
    exact h
  | cons a as ih =>
    obtain ⟨t, hst, het⟩ := Option.bind_eq_some_iff.mp he
    obtain ⟨ha, hrest⟩ := ha
    rw [hst] at hrest
    exact ih (.step h ha hst) hrest het

/-- **A computed run reaches its last state.** -/
theorem reach_of_exec {as : List α} (ha : m.Allowed allowed m.init as)
    (he : m.exec m.init as = some s) : m.Reach allowed s :=
  reach_of_exec_from .init ha he

theorem allowed_true (s : σ) (as : List α) : m.Allowed (fun _ _ => True) s as := by
  induction as generalizing s with
  | nil => trivial
  | cons a as ih =>
    refine ⟨trivial, ?_⟩
    split
    · exact ih _
    · trivial

/-! ### Exact conditions -/

/-- The property holds in every state along a list of actions. -/
def Throughout (m : Machine σ α) (P : σ → Prop) : σ → List α → Prop
  | s, [] => P s
  | s, a :: as => P s ∧ match m.step s a with
    | some s' => m.Throughout P s' as
    | none => True

theorem Throughout.last {P : σ → Prop} {as : List α} (h : m.Throughout P s as)
    (he : m.exec s as = some s') : P s' := by
  induction as generalizing s with
  | nil =>
    cases he
    exact h
  | cons a as ih =>
    obtain ⟨t, hst, het⟩ := Option.bind_eq_some_iff.mp he
    have hrest := h.2
    rw [hst] at hrest
    exact ih hrest het

/-- **Allowed steps keep an invariant**, and what follows from it holds throughout. -/
theorem throughout_of_allowed {I P : σ → Prop} (hP : ∀ s, I s → P s)
    (hstep : ∀ s a s', I s → allowed s a → m.step s a = some s' → I s') {as : List α}
    (hinv : I s) (h : m.Allowed allowed s as) : m.Throughout P s as := by
  induction as generalizing s with
  | nil => exact hP s hinv
  | cons a as ih =>
    obtain ⟨ha, hrest⟩ := h
    refine ⟨hP s hinv, ?_⟩
    cases hs : m.step s a with
    | none => trivial
    | some s' =>
      rw [hs] at hrest
      exact ih (hstep s a s' hinv ha hs) hrest

/-- The exact condition of a run, where an invariant goes along. -/
theorem throughout_iff_allowed_of_invariant {I P : σ → Prop}
    (htotal : ∀ s a, ∃ s', m.step s a = some s')
    (hI : ∀ s a s', I s → P s → m.step s a = some s' → I s')
    (hstep : ∀ s a s', I s → P s → m.step s a = some s' → (P s' ↔ allowed s a)) {as : List α}
    (hinv : I s) (h : P s) : m.Throughout P s as ↔ m.Allowed allowed s as := by
  induction as generalizing s with
  | nil => exact iff_of_true h trivial
  | cons a as ih =>
    obtain ⟨s', hs'⟩ := htotal s a
    have hinv' := hI s a s' hinv h hs'
    simp only [Throughout, Allowed, hs']
    constructor
    · rintro ⟨-, hrest⟩
      have hs : P s' := by
        cases as with
        | nil => exact hrest
        | cons b as => exact hrest.1
      exact ⟨(hstep s a s' hinv h hs').mp hs, (ih hinv' hs).mp hrest⟩
    · rintro ⟨ha, hrest⟩
      exact ⟨h, (ih hinv' ((hstep s a s' hinv h hs').mpr ha)).mpr hrest⟩

/-- **The exact condition of a run**: where a step out of a good state leads to a good
one just when it is allowed, a run stays good just when all its steps are. -/
theorem throughout_iff_allowed {P : σ → Prop}
    (htotal : ∀ s a, ∃ s', m.step s a = some s')
    (hstep : ∀ s a s', P s → m.step s a = some s' → (P s' ↔ allowed s a)) {as : List α}
    (h : P s) : m.Throughout P s as ↔ m.Allowed allowed s as :=
  throughout_iff_allowed_of_invariant (I := fun _ => True) htotal
    (fun _ _ _ _ _ _ => trivial)
    (fun s a s' _ hs => hstep s a s' hs) trivial h

end Machine
