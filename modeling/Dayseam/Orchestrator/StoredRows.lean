import Dayseam.Orchestrator.GenerateStep
import Mathlib

/-!
# Stored rows and their runs

A row appears when its run inserts it, under the id of the run and with its
trigger, and keeps both.  This holds in every interleaving.

## Main results

* `rowsInv_of_reach` — **a stored row is that of its run.**
-/

namespace Dayseam
namespace Orchestrator

variable {R P : Type}

/-- The run has not inserted its row yet. -/
def Phase.beforeInsert : Phase R → Bool
  | .idle | .firing | .inserting => true
  | _ => false

/-- A run has no row before it inserts one or when the insert fails, and a stored
row carries the id and the trigger of its run. -/
structure RowsInv (s : State R P) : Prop where
  absent : ∀ r, (s.runs r).phase.beforeInsert = true ∨ (s.runs r).phase = .draining →
    s.rows r = none
  stored : ∀ r run, s.rows r = some run → run.id = r ∧ run.trigger = (s.runs r).trigger

variable [DecidableEq R] {s s' : State R P} {r : R} {io : Io P}

/-- The phases on the two sides of the insert. -/
theorem Next.beforeInsert {ph ph' : Phase R} (h : Next s r io ph ph') :
    (ph'.beforeInsert = true → ph.beforeInsert = true) ∧
      (ph'.beforeInsert = false → ph.beforeInsert = false ∨ ph = .inserting) ∧
      (ph' = .draining → ph = .inserting) := by
  cases h <;> simp [Phase.beforeInsert]

/-- A row of the next state is an old one, or its run has just inserted it. -/
theorem Records.same (h : Records s r io s') {q : R} {run' : SyncRun R P}
    (hrow : s'.rows q = .some run') :
    (∃ run, s.rows q = .some run ∧ run'.id = run.id ∧ run'.trigger = run.trigger) ∨
      (q = r ∧ run'.id = r ∧ run'.trigger = (s.runs r).trigger) := by
  cases h with
  | nothing hr | drafted _ _ hr =>
    rw [hr] at hrow
    exact Or.inl ⟨run', hrow, rfl, rfl⟩
  | inserted _ _ hins =>
    rw [(SyncRunTable.insert_eq_some hins).2] at hrow
    by_cases hq : q = r
    · subst hq
      rw [startedRow, Function.update_self] at hrow
      cases hrow
      exact Or.inr ⟨rfl, rfl, rfl⟩
    · rw [startedRow, Function.update_of_ne hq] at hrow
      exact Or.inl ⟨run', hrow, rfl, rfl⟩
  | superseded _ _ _ hm =>
    obtain ⟨run, hrun, hid, htrigger, -⟩ := SyncRunTable.transition_same hm hrow
    exact Or.inl ⟨run, hrun, hid, htrigger⟩
  | own o _ _ hr =>
    left
    cases hw : (if io.ok then ownWrite s r io o else Option.none) with
    | none =>
      rw [hr, hw] at hrow
      exact ⟨run', hrow, rfl, rfl⟩
    | some t =>
      rw [hr, hw, Option.getD_some] at hrow
      split at hw
      · obtain ⟨run, hrun, hid, htrigger, -⟩ := SyncRunTable.transition_same hw hrow
        exact ⟨run, hrun, hid, htrigger⟩
      · cases hw

/-- **A step of one run** preserves the invariant. -/
theorem RowsInv.advance (hi : RowsInv s) (h : advance s r io = some s') : RowsInv s' := by
  constructor
  · intro q hq
    have hbefore : (s.runs q).phase.beforeInsert = true ∨ (s.runs q).phase = .draining := by
      by_cases hqr : q = r
      · subst hqr
        rcases hq with hq | hq
        · exact Or.inl ((advance_phase h).beforeInsert.1 hq)
        · exact Or.inl (by rw [(advance_phase h).beforeInsert.2.2 hq]; rfl)
      · rw [← (advance_other h hqr).1]
        exact hq
    rcases (advance_records h).none (hi.absent q hbefore) with hn | ⟨rfl, -, hmark⟩
    · exact hn
    · rw [hmark] at hq
      rcases hq with hq | hq <;> cases hq
  · intro q run' hrow
    rw [advance_trigger h]
    rcases (advance_records h).same hrow with ⟨run, hrun, hid, htrigger⟩ | ⟨rfl, hid, htrigger⟩
    · rw [hid, htrigger]
      exact hi.stored q run hrun
    · exact ⟨hid, htrigger⟩

/-- The swap of a starting run preserves the invariant. -/
theorem RowsInv.started (hi : RowsInv s) (h : Started s r s') : RowsInv s' := by
  have hfree : s.rows r = none := hi.absent r (Or.inl (by rw [h.idle]; rfl))
  constructor
  · intro q hq
    rw [h.rows]
    by_cases hqr : q = r
    · rw [hqr]
      exact hfree
    · rw [h.others q hqr] at hq
      exact hi.absent q hq
  · intro q run hrow
    rw [h.rows] at hrow
    have hqr : q ≠ r := by
      rintro rfl
      rw [hfree] at hrow
      cases hrow
    rw [h.others q hqr]
    exact hi.stored q run hrow

omit [DecidableEq R] in
theorem RowsInv.tokensOnly (hi : RowsInv s) (h : TokensOnly s s') : RowsInv s' := by
  constructor
  · intro q hq
    rw [h.rows]
    exact hi.absent q (h.phase q ▸ hq)
  · intro q run hrow
    rw [h.trigger]
    exact hi.stored q run (h.rows ▸ hrow)

theorem rowsInv_init : RowsInv (machine R P).init :=
  ⟨fun _ _ => rfl, fun _ _ hrow => by cases hrow⟩

/-- **A stored row is that of its run**, in every reachable state. -/
theorem rowsInv_of_reach {allowed : State R P → Action R P → Prop}
    (h : (machine R P).Reach allowed s) : RowsInv s := by
  refine h.invariant rowsInv_init ?_
  intro s a s' _ hi _ hstep
  rcases step_cases hstep with ⟨p, _, -, hst⟩ | ⟨p, io, -, hadv⟩ | htok
  · exact hi.started hst
  · exact hi.advance hadv
  · exact hi.tokensOnly htok

end Orchestrator
end Dayseam
