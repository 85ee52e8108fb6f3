import Dayseam.Orchestrator.GenerateStep
import Mathlib

/-!
# Superseded runs and their drafts

A run looks for a newer one before it stores its draft.  That guard reads the
in-flight entry, which the newer run removes when it is done, and the draft is
stored in a later step.  A superseded run publishes nothing in every interleaving
in which no run starts between another one's guard and its draft, and no
superseded run comes to its guard after the entry is gone.

## Main definitions

* `NeverLate` — no run stores a draft after a newer run has started.
* `PublishGuarded` — the steps that keep it so.

## Main results

* `superseded_never_publishes` — **no late draft in guarded runs.**
* `late_draft_published` — an interleaving with one.
-/

namespace Dayseam
namespace Orchestrator

variable {R P : Type}

/-- Whenever a run stored its draft, it was the newest one to have started.
Histories are listed newest first. -/
def NeverLate (history : List (Event R)) : Prop :=
  ∀ after before r, history = after ++ .drafted r :: before → (swapsOf before).head? = some r

theorem neverLate_cons {e : Event R} {h : List (Event R)} (hh : NeverLate h)
    (he : ∀ r, e = .drafted r → (swapsOf h).head? = some r) : NeverLate (e :: h) := by
  intro after before r heq
  cases after with
  | nil =>
    obtain ⟨rfl, rfl⟩ := List.cons.inj heq
    exact he r rfl
  | cons e' after => exact hh after before r (List.cons.inj heq).2

/-- The next step of the run is its guard. -/
def Phase.isGuarding : Phase R → Bool
  | .guarding _ => true
  | _ => false

/-- The next step of the run stores its draft. -/
def Phase.isDrafting : Phase R → Bool
  | .drafting _ => true
  | _ => false

/-- No run starts between another one's guard and its draft, and a run that
comes to its guard and finds no in-flight entry is the newest. -/
def PublishGuarded (s : State R P) : Action R P → Prop
  | .start _ _ => ∀ r, (s.runs r).phase.isDrafting = false
  | .advance r _ => (s.runs r).phase.isGuarding = true → s.inFlight = none → Newest s r
  | .cancel _ | .cancelHandle _ => True

/-- What guarded steps preserve. -/
structure PublishInv (s : State R P) : Prop where
  drafting : ∀ r, (s.runs r).phase.isDrafting = true → Newest s r
  neverLate : NeverLate s.history

variable [DecidableEq R]

/-- A guarded step of one run. -/
theorem publishInv_advance {s s' : State R P} {r : R} {io : Io P}
    (hin : ∀ q, s.inFlight = some q → Newest s q) (hi : PublishInv s)
    (ha : PublishGuarded s (.advance r io)) (h : advance s r io = some s') : PublishInv s' := by
  constructor
  · intro q hq
    rw [newest_advance h]
    by_cases hqr : q = r
    · subst hqr
      -- only a guard that found no newer run leads to the draft
      have hnext := advance_phase h
      generalize hph : (s.runs q).phase = ph at hnext
      generalize (s'.runs q).phase = ph' at hnext hq
      cases hnext with
      | guarded d hnone =>
        cases he : s.inFlight with
        | none => exact ha (by rw [hph]; rfl) he
        | some p =>
          have hpq : p = q := by
            by_contra hne
            rw [supersededByNow_eq_some.mpr ⟨he, hne⟩] at hnone
            cases hnone
          rw [← hpq]
          exact hin p he
      | _ => cases hq
    · rw [(advance_other h hqr).1] at hq
      exact hi.drafting q hq
  · cases advance_records h with
    | nothing _ hh | inserted _ _ _ hh | own _ _ _ _ hh =>
      rw [hh]
      exact hi.neverLate
    | superseded _ _ _ _ hh =>
      rw [hh]
      exact neverLate_cons hi.neverLate fun _ he => by cases he
    | drafted d hph _ hh =>
      rw [hh]
      refine neverLate_cons hi.neverLate ?_
      rintro _ ⟨⟩
      exact hi.drafting r (by rw [hph]; rfl)

/-- **A superseded run never publishes** in an interleaving of guarded steps. -/
theorem superseded_never_publishes {s : State R P}
    (h : (machine R P).Reach PublishGuarded s) : NeverLate s.history := by
  suffices hinv : PublishInv s from hinv.neverLate
  refine h.invariant ⟨(fun r hr => nomatch hr), ?_⟩ ?_
  · intro after before r heq
    simp [machine] at heq
  intro s a s' hr hi ha hstep
  rcases step_cases hstep with ⟨p, t, rfl, hst⟩ | ⟨p, io, rfl, hadv⟩ | htok
  · constructor
    · intro q hq
      by_cases hqp : q = p
      · exact (newest_started hst).mpr hqp
      · rw [hst.others q hqp, ha q] at hq
        cases hq
    · rw [hst.history]
      exact neverLate_cons hi.neverLate fun _ he => by cases he
  · exact publishInv_advance (newest_of_inFlight hr) hi ha hadv
  · constructor
    · intro q hq
      rw [htok.phase] at hq
      exact (newest_tokensOnly htok).mpr (hi.drafting q hq)
    · rw [htok.history]
      exact hi.neverLate

/-! ### Two runs -/

/-- The second run supersedes the first one before its guard and finishes after
it. -/
def guardedRun : List (Action (Fin 2) Unit) :=
  .start 0 .user :: steps 0 6 ++ .start 1 .user :: steps 1 3 ++ steps 0 1 ++ steps 1 7

instance (s : State (Fin 2) Unit) : ∀ a, Decidable (PublishGuarded s a)
  | .start _ _ => inferInstanceAs (Decidable (∀ r, (s.runs r).phase.isDrafting = false))
  | .advance r _ => inferInstanceAs (Decidable ((s.runs r).phase.isGuarding = true →
      s.inFlight = none → (swapsOf s.history).head? = some r))
  | .cancel _ | .cancelHandle _ => isTrue trivial

/-- The superseded run drops its results. -/
theorem guarded_run_never_late : ∃ s, (machine (Fin 2) Unit).exec (machine (Fin 2) Unit).init
    guardedRun = some s ∧ Event.drafted 1 ∈ s.history ∧ NeverLate s.history := by
  have hdone : (((machine (Fin 2) Unit).exec (machine (Fin 2) Unit).init guardedRun).any
      fun s => Event.drafted 1 ∈ s.history) = true := by decide +kernel
  obtain ⟨s, hs, hmem⟩ := (Option.any_eq_true ..).mp hdone
  exact ⟨s, hs, of_decide_eq_true hmem,
    superseded_never_publishes (Machine.reach_of_exec (by decide +kernel) hs)⟩

/-- The second run starts and finishes while the first one renders. -/
def lateRun : List (Action (Fin 2) Unit) :=
  .start 0 .user :: steps 0 6 ++ .start 1 .user :: steps 1 10 ++ steps 0 2

/-- **A superseded run publishes** when the newer one has already finished. -/
theorem late_draft_published :
    ¬ ∀ s, (machine (Fin 2) Unit).Reach (fun _ _ => True) s → NeverLate s.history := by
  intro h
  have hlate : (((machine (Fin 2) Unit).exec (machine (Fin 2) Unit).init lateRun).any fun s =>
      s.history = [.drafted 0, .drafted 1, .superseded 0 1, .swapped 1, .swapped 0]) = true := by
    decide +kernel
  obtain ⟨s, hs, hhist⟩ := (Option.any_eq_true ..).mp hlate
  have hnever := h s (Machine.reach_of_exec (Machine.allowed_true _ _) hs)
  rw [of_decide_eq_true hhist] at hnever
  exact absurd (hnever [] _ 0 rfl) (by decide)

end Orchestrator
end Dayseam
