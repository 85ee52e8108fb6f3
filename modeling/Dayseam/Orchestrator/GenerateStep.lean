import Dayseam.Orchestrator.Generate
import Mathlib

/-!
# What one step of a report run can do

Each component of the state by itself: the program point of the acting run, its
outcome, the in-flight entry, the rows and the history.  The invariants about
interleavings are proved from these facts alone.

## Main definitions

* `Next` — the control flow of one run.
* `State.swaps` — the runs in the order of their swaps, newest first.

## Main results

* `step_phase`, `step_outcome`, `step_prior` — the runs.
* `step_inFlight`, `step_history`, `step_rows` — what the runs share.
-/

namespace Dayseam

/-! ### Writes to the rows -/

namespace SyncRunTable
variable {R P : Type} [DecidableEq R] {t t' : SyncRunTable R P} {id : R}

/-- The status and the reason of a stored row. -/
def RowIs (t : SyncRunTable R P) (id : R) (status : SyncRunStatus)
    (reason : Option (SyncRunCancelReason R)) : Prop :=
  ∃ run, t id = some run ∧ run.status = status ∧ run.cancelReason = reason

omit [DecidableEq R] in
theorem RowIs.unique {st st' : SyncRunStatus} {reason reason' : Option (SyncRunCancelReason R)}
    (h : t.RowIs id st reason) (h' : t.RowIs id st' reason') : st = st' ∧ reason = reason' := by
  obtain ⟨run, hrun, rfl, rfl⟩ := h
  obtain ⟨run', hrun', rfl, rfl⟩ := h'
  cases hrun.symm.trans hrun'
  exact ⟨rfl, rfl⟩

/-- Only a running row is moved, and no other row is touched. -/
theorem transition_eq_some {st : SyncRunStatus} {fin : Option ℤ}
    {reason : Option (SyncRunCancelReason R)} {sup : Option R} {ps : Option (List P)}
    (h : t.transition id st fin reason sup ps = some t') :
    (∃ run, t id = some run ∧ run.status = .running) ∧ t'.RowIs id st reason ∧
      ∀ id', id' ≠ id → t' id' = t id' := by
  unfold transition at h
  cases hrow : t id with
  | none => rw [hrow] at h; cases h
  | some run =>
    rw [hrow] at h
    simp only at h
    split at h
    · next hst =>
      cases h
      refine ⟨⟨run, rfl, hst⟩, ⟨_, Function.update_self .., rfl, rfl⟩, ?_⟩
      intro id' hid
      rw [Function.update_of_ne hid]
    · cases h

/-- A write keeps the id, the trigger and the start of every row. -/
theorem transition_same {st : SyncRunStatus} {fin : Option ℤ}
    {reason : Option (SyncRunCancelReason R)} {sup : Option R} {ps : Option (List P)}
    (h : t.transition id st fin reason sup ps = some t') {q : R} {run' : SyncRun R P}
    (hrow : t' q = some run') : ∃ run, t q = some run ∧ run'.id = run.id ∧
      run'.trigger = run.trigger ∧ run'.startedAt = run.startedAt := by
  unfold transition at h
  cases ht : t id with
  | none => rw [ht] at h; cases h
  | some run =>
    rw [ht] at h
    simp only at h
    split at h
    · cases h
      by_cases hq : q = id
      · subst hq
        rw [Function.update_self] at hrow
        cases hrow
        exact ⟨run, ht, rfl, rfl, rfl⟩
      · rw [Function.update_of_ne hq] at hrow
        exact ⟨run', hrow, rfl, rfl, rfl⟩
    · cases h

/-- A running row can be moved. -/
theorem exists_transition {run : SyncRun R P} (h : t id = some run) (hst : run.status = .running)
    (st : SyncRunStatus) (fin : Option ℤ) (reason : Option (SyncRunCancelReason R))
    (sup : Option R) (ps : Option (List P)) :
    ∃ t', t.transition id st fin reason sup ps = some t' := by
  unfold transition
  rw [h]
  exact ⟨_, if_pos hst⟩

theorem insert_eq_some {run : SyncRun R P} (h : t.insert run = some t') :
    t run.id = none ∧ t' = Function.update t run.id (some run) := by
  unfold insert at h
  split at h
  · cases h
  split at h
  · cases h
  split at h
  · cases h
  next hfree =>
    cases h
    exact ⟨by simpa using hfree, rfl⟩

end SyncRunTable

namespace Orchestrator

/-! ### The parts of a step, field by field -/

namespace State
variable {R P : Type} (s : State R P)

@[simp] theorem withInFlight_inFlight (e : Option R) : (s.withInFlight e).inFlight = e := rfl
@[simp] theorem withInFlight_rows (e : Option R) : (s.withInFlight e).rows = s.rows := rfl
@[simp] theorem withInFlight_runs (e : Option R) : (s.withInFlight e).runs = s.runs := rfl
@[simp] theorem withInFlight_history (e : Option R) : (s.withInFlight e).history = s.history := rfl

@[simp] theorem withRows_inFlight (t : Option (SyncRunTable R P)) :
    (s.withRows t).inFlight = s.inFlight := rfl
@[simp] theorem withRows_rows (t : Option (SyncRunTable R P)) :
    (s.withRows t).rows = t.getD s.rows := rfl
@[simp] theorem withRows_runs (t : Option (SyncRunTable R P)) : (s.withRows t).runs = s.runs := rfl
@[simp] theorem withRows_history (t : Option (SyncRunTable R P)) :
    (s.withRows t).history = s.history := rfl

@[simp] theorem record_inFlight (e : Event R) : (s.record e).inFlight = s.inFlight := rfl
@[simp] theorem record_rows (e : Event R) : (s.record e).rows = s.rows := rfl
@[simp] theorem record_runs (e : Event R) : (s.record e).runs = s.runs := rfl
@[simp] theorem record_history (e : Event R) : (s.record e).history = e :: s.history := rfl

end State

section
variable {R P : Type} [DecidableEq R]

namespace State
variable (s : State R P) (r : R)

@[simp] theorem goto_inFlight (ph : Phase R) : (s.goto r ph).inFlight = s.inFlight := rfl
@[simp] theorem goto_rows (ph : Phase R) : (s.goto r ph).rows = s.rows := rfl
@[simp] theorem goto_history (ph : Phase R) : (s.goto r ph).history = s.history := rfl

@[simp] theorem fire_inFlight : (s.fire r).inFlight = s.inFlight := rfl
@[simp] theorem fire_rows : (s.fire r).rows = s.rows := rfl
@[simp] theorem fire_history : (s.fire r).history = s.history := rfl

@[simp] theorem resolve_inFlight (o : GenerateOutcome R) :
    (s.resolve r o).inFlight = s.inFlight := rfl
@[simp] theorem resolve_rows (o : GenerateOutcome R) : (s.resolve r o).rows = s.rows := rfl
@[simp] theorem resolve_history (o : GenerateOutcome R) :
    (s.resolve r o).history = s.history := rfl

theorem goto_runs (ph : Phase R) (q : R) : (s.goto r ph).runs q =
    if q = r then { s.runs r with phase := ph } else s.runs q := Function.update_apply ..

theorem resolve_runs (o : GenerateOutcome R) (q : R) : (s.resolve r o).runs q =
    if q = r then { s.runs r with phase := .done, outcome := some o } else s.runs q :=
  Function.update_apply ..

@[simp] theorem fire_phase (q : R) : ((s.fire r).runs q).phase = (s.runs q).phase := by
  simp only [fire, Function.update_apply]
  split
  · next h => rw [h]
  · rfl

@[simp] theorem fire_prior (q : R) : ((s.fire r).runs q).prior = (s.runs q).prior := by
  simp only [fire, Function.update_apply]
  split
  · next h => rw [h]
  · rfl

@[simp] theorem fire_trigger (q : R) : ((s.fire r).runs q).trigger = (s.runs q).trigger := by
  simp only [fire, Function.update_apply]
  split
  · next h => rw [h]
  · rfl

@[simp] theorem fire_outcome (q : R) : ((s.fire r).runs q).outcome = (s.runs q).outcome := by
  simp only [fire, Function.update_apply]
  split
  · next h => rw [h]
  · rfl

end State

@[simp] theorem markPriorSuperseded_inFlight (s : State R P) (p r : R) (io : Io P) :
    (markPriorSuperseded s p r io).inFlight = s.inFlight := by
  unfold markPriorSuperseded
  split
  · split <;> rfl
  · rfl

@[simp] theorem markPriorSuperseded_runs (s : State R P) (p r : R) (io : Io P) :
    (markPriorSuperseded s p r io).runs = s.runs := by
  unfold markPriorSuperseded
  split
  · split <;> rfl
  · rfl

@[simp] theorem dropInFlightIfOurs_runs (s : State R P) (r : R) :
    (dropInFlightIfOurs s r).runs = s.runs := by
  unfold dropInFlightIfOurs
  split <;> rfl

@[simp] theorem dropInFlightIfOurs_rows (s : State R P) (r : R) :
    (dropInFlightIfOurs s r).rows = s.rows := by
  unfold dropInFlightIfOurs
  split <;> rfl

@[simp] theorem dropInFlightIfOurs_history (s : State R P) (r : R) :
    (dropInFlightIfOurs s r).history = s.history := by
  unfold dropInFlightIfOurs
  split <;> rfl

/-- A newer run is found exactly when the entry names another run. -/
theorem supersededByNow_eq_some {s : State R P} {r q : R} :
    supersededByNow s r = some q ↔ s.inFlight = some q ∧ q ≠ r := by
  unfold supersededByNow
  cases s.inFlight with
  | none => simp
  | some e =>
    by_cases h : e = r
    · simp only [h, ne_eq, not_true, if_false, Option.some.injEq]
      constructor
      · rintro ⟨⟩
      · rintro ⟨rfl, h⟩; exact absurd rfl h
    · simp only [ne_eq, h, not_false_eq_true, if_true, Option.some.injEq]
      constructor
      · rintro rfl; exact ⟨rfl, h⟩
      · rintro ⟨rfl, -⟩; rfl

/-! ### The control flow of one run -/

/-- The program points of run `r`, one step in state `s` apart. -/
inductive Next (s : State R P) (r : R) (io : Io P) : Phase R → Phase R → Prop
  | fired : Next s r io .firing .inserting
  | inserted : Next s r io .inserting .marking
  | refused : Next s r io .inserting .draining
  | drained : Next s r io .draining .done
  | marked : Next s r io .marking .fetching
  | interrupted : (s.runs r).cancelled = true → Next s r io .fetching .lookingUp
  | fetched : (s.runs r).cancelled = false → Next s r io .fetching .storing
  | lookedUp : Next s r io .lookingUp (.cancelling (supersededByNow s r))
  | cancelled (found : Option R) :
      Next s r io (.cancelling found) (.dropping (cancelledOutcome r found))
  | stored : Next s r io .storing .rendering
  | notStored : Next s r io .storing .failing
  | rendered : Next s r io .rendering (.guarding io.draftId)
  | notRendered : Next s r io .rendering .failing
  | superseded (d : Uuid) (q : R) : supersededByNow s r = some q →
      Next s r io (.guarding d) .done
  | guarded (d : Uuid) : supersededByNow s r = none → Next s r io (.guarding d) (.drafting d)
  | drafted (d : Uuid) : Next s r io (.drafting d) (.finishing d)
  | notDrafted (d : Uuid) : Next s r io (.drafting d) .failing
  | finished (d : Uuid) : Next s r io (.finishing d) (.dropping ⟨r, .completed, some d, none⟩)
  | failed : Next s r io .failing (.dropping ⟨r, .failed, none, none⟩)
  | dropped (o : GenerateOutcome R) : Next s r io (.dropping o) .done

variable {s s' : State R P} {r q : R} {io : Io P} {a : Action R P}

/-- **The acting run moves along its control flow.** -/
theorem advance_phase (h : advance s r io = some s') :
    Next s r io (s.runs r).phase (s'.runs r).phase := by
  cases hph : (s.runs r).phase with
  | idle | done => simp only [advance, hph, reduceCtorEq] at h
  | firing =>
    simp only [advance, hph] at h
    split at h <;> (cases h; rw [State.goto_runs, if_pos rfl]; exact .fired)
  | inserting =>
    simp only [advance, hph] at h
    split at h <;> (cases h; rw [State.goto_runs, if_pos rfl])
    · exact .inserted
    · exact .refused
  | draining =>
    simp only [advance, hph] at h
    cases h
    rw [State.resolve_runs, if_pos rfl]
    exact .drained
  | marking =>
    simp only [advance, hph] at h
    split at h <;> (cases h; rw [State.goto_runs, if_pos rfl]; exact .marked)
  | fetching =>
    simp only [advance, hph] at h
    split at h <;> rename_i hc <;> (cases h; rw [State.goto_runs, if_pos rfl])
    · exact .interrupted hc
    · exact .fetched (by simpa using hc)
  | lookingUp =>
    simp only [advance, hph] at h
    cases h
    rw [State.goto_runs, if_pos rfl]
    exact .lookedUp
  | cancelling found =>
    cases found <;>
      (simp only [advance, hph] at h; cases h; rw [State.goto_runs, if_pos rfl]; exact .cancelled _)
  | storing =>
    simp only [advance, hph] at h
    cases h
    rw [State.goto_runs, if_pos rfl]
    cases io.ok
    · exact .notStored
    · exact .stored
  | rendering =>
    simp only [advance, hph] at h
    cases h
    rw [State.goto_runs, if_pos rfl]
    cases io.ok
    · exact .notRendered
    · exact .rendered
  | guarding d =>
    simp only [advance, hph] at h
    split at h <;> rename_i hq <;> cases h
    · rw [State.resolve_runs, if_pos rfl]
      exact .superseded d _ hq
    · rw [State.goto_runs, if_pos rfl]
      exact .guarded d hq
  | drafting d =>
    simp only [advance, hph] at h
    split at h <;> (cases h; rw [State.goto_runs, if_pos rfl])
    · exact .drafted d
    · exact .notDrafted d
  | finishing d =>
    simp only [advance, hph] at h
    cases h
    rw [State.goto_runs, if_pos rfl]
    exact .finished d
  | failing =>
    simp only [advance, hph] at h
    cases h
    rw [State.goto_runs, if_pos rfl]
    exact .failed
  | dropping o =>
    simp only [advance, hph] at h
    cases h
    rw [State.resolve_runs, if_pos rfl]
    exact .dropped o

/-! ### The other runs -/

/-- Another run keeps its program point, its prior and its outcome. -/
theorem advance_other (h : advance s r io = some s') (hq : q ≠ r) :
    (s'.runs q).phase = (s.runs q).phase ∧ (s'.runs q).outcome = (s.runs q).outcome := by
  unfold advance at h
  repeat' split at h
  all_goals first
    | cases h
      simp only [State.goto_runs, State.resolve_runs, if_neg hq, State.fire_phase,
        State.fire_outcome, State.withInFlight_runs, State.withRows_runs, State.record_runs,
        markPriorSuperseded_runs, dropInFlightIfOurs_runs, and_self]
    | cases h

/-- No run changes the prior that it or another one swapped out. -/
theorem advance_prior (h : advance s r io = some s') (q : R) :
    (s'.runs q).prior = (s.runs q).prior := by
  unfold advance at h
  repeat' split at h
  all_goals first
    | cases h
      by_cases hq : q = r <;> simp [State.goto_runs, State.resolve_runs, hq]
    | cases h

/-- No run changes its trigger. -/
theorem advance_trigger (h : advance s r io = some s') (q : R) :
    (s'.runs q).trigger = (s.runs q).trigger := by
  unfold advance at h
  repeat' split at h
  all_goals first
    | cases h
      by_cases hq : q = r <;> simp [State.goto_runs, State.resolve_runs, hq]
    | cases h

/-! ### The outcome -/

/-- How a run resolves: after a failed insert, at the persist-time guard, or
after it dropped its entry. -/
inductive Resolves (s : State R P) (r : R) : Phase R → GenerateOutcome R → Prop
  | drained : Resolves s r .draining ⟨r, .failed, none, none⟩
  | superseded (d : Uuid) (q : R) : supersededByNow s r = some q →
      Resolves s r (.guarding d) (cancelledOutcome r (some q))
  | dropped (o : GenerateOutcome R) : Resolves s r (.dropping o) o

/-- **A run resolves exactly when it is done.** -/
theorem advance_outcome (h : advance s r io = some s') :
    ((s'.runs r).phase ≠ .done ∧ (s'.runs r).outcome = (s.runs r).outcome) ∨
      ((s'.runs r).phase = .done ∧
        ∃ o, (s'.runs r).outcome = some o ∧ Resolves s r (s.runs r).phase o) := by
  cases hph : (s.runs r).phase with
  | draining =>
    simp only [advance, hph] at h
    cases h
    exact Or.inr ⟨by simp [State.resolve_runs], _, by simp [State.resolve_runs], .drained⟩
  | dropping o =>
    simp only [advance, hph] at h
    cases h
    exact Or.inr ⟨by simp [State.resolve_runs], o, by simp [State.resolve_runs], .dropped o⟩
  | guarding d =>
    simp only [advance, hph] at h
    split at h <;> rename_i hq <;> cases h
    · exact Or.inr ⟨by simp [State.resolve_runs], _, by simp [State.resolve_runs],
        .superseded d _ hq⟩
    · exact Or.inl ⟨by simp [State.goto_runs], by simp [State.goto_runs]⟩
  | cancelling found =>
    left
    cases found <;> (simp only [advance, hph] at h; cases h; simp [State.goto_runs])
  | _ =>
    left
    simp only [advance, hph] at h
    repeat' split at h
    all_goals first
      | cases h
        constructor <;> simp [State.goto_runs]
      | cases h

/-! ### What the runs share -/

theorem advance_inFlight (h : advance s r io = some s') : s'.inFlight = s.inFlight ∨
    ((s.runs r).phase = .draining ∧ s'.inFlight = none) ∨
    (s.inFlight = some r ∧ s'.inFlight = none ∧ ∃ o, (s.runs r).phase = .dropping o) := by
  cases hph : (s.runs r).phase with
  | draining =>
    simp only [advance, hph] at h
    cases h
    exact Or.inr (Or.inl ⟨rfl, rfl⟩)
  | dropping o =>
    simp only [advance, hph] at h
    cases h
    by_cases hin : s.inFlight = some r
    · exact Or.inr (Or.inr ⟨hin, by simp [dropInFlightIfOurs, hin], o, rfl⟩)
    · exact Or.inl (by simp [dropInFlightIfOurs, hin])
  | cancelling found => left; cases found <;> (simp only [advance, hph] at h; cases h; simp)
  | _ =>
    left
    simp only [advance, hph] at h
    repeat' split at h
    all_goals first
      | cases h; simp
      | cases h

/-- The terminal row that goes with an outcome, written by its own run. -/
def ownWrite (s : State R P) (r : R) (io : Io P) (o : GenerateOutcome R) :
    Option (SyncRunTable R P) :=
  s.rows.transition r o.status (some io.now) o.cancelReason none (some io.perSource)

/-- The outcome is terminal, and has a draft exactly when it is a completion. -/
def GenerateOutcome.Final (o : GenerateOutcome R) : Prop :=
  o.status ≠ .running ∧ (o.draftId.isSome = true ↔ o.status = .completed)

omit [DecidableEq R] in
theorem final_cancelledOutcome (r : R) (found : Option R) : (cancelledOutcome r found).Final := by
  simp [GenerateOutcome.Final, cancelledOutcome]

/-- What one step does to the rows and the history: a run inserts its row, marks
the run that it superseded, writes its own terminal row or stores its draft. -/
inductive Records (s : State R P) (r : R) (io : Io P) (s' : State R P) : Prop
  | nothing : s'.rows = s.rows → s'.history = s.history →
      (∀ o, (s'.runs r).phase = .dropping o → ∃ q, o = cancelledOutcome r (some q)) →
      Records s r io s'
  | inserted : (s.runs r).phase = .inserting → (s'.runs r).phase = .marking →
      s.rows.insert (startedRow (s.runs r) r io.now) = some s'.rows → s'.history = s.history →
      Records s r io s'
  | superseded (p : R) : (s.runs r).phase = .marking → (s.runs r).prior = some p →
      s.rows.markCancelled p io.now (.supersededBy r) [] = some s'.rows →
      s'.history = .superseded p r :: s.history → Records s r io s'
  | own (o : GenerateOutcome R) : o.Final → (s'.runs r).phase = .dropping o →
      s'.rows = (if io.ok then ownWrite s r io o else none).getD s.rows →
      s'.history = s.history → Records s r io s'
  | drafted (d : Uuid) : (s.runs r).phase = .drafting d → s'.rows = s.rows →
      s'.history = .drafted r :: s.history → Records s r io s'

theorem advance_records (h : advance s r io = some s') : Records s r io s' := by
  have hnot : ∀ {ph : Phase R}, (s'.runs r).phase = ph → (∀ o, ph ≠ .dropping o) →
      ∀ o, (s'.runs r).phase = .dropping o → ∃ q, o = cancelledOutcome r (some q) :=
    fun hph hne o ho => absurd (hph.symm.trans ho) (hne o)
  cases hph : (s.runs r).phase with
  | idle | done => simp only [advance, hph, reduceCtorEq] at h
  | firing =>
    simp only [advance, hph] at h
    split at h <;> (cases h; exact .nothing rfl rfl (by simp [State.goto_runs]))
  | inserting =>
    simp only [advance, hph] at h
    split at h
    · next rows hins =>
      cases h
      refine .inserted hph (by simp [State.goto_runs]) ?_ rfl
      cases hok : io.ok with
      | false => rw [hok] at hins; cases hins
      | true => rw [hok] at hins; exact hins
    · cases h
      exact .nothing rfl rfl (by simp [State.goto_runs])
  | draining =>
    simp only [advance, hph] at h
    cases h
    exact .nothing rfl rfl (by simp [State.resolve_runs])
  | marking =>
    simp only [advance, hph] at h
    split at h
    · next p hp =>
      cases h
      cases hm : (if io.ok then s.rows.markCancelled p io.now (.supersededBy r) [] else none) with
      | none =>
        have hs : markPriorSuperseded s p r io = s := by
          unfold markPriorSuperseded
          split
          · next hok => rw [if_pos hok] at hm; rw [hm]
          · rfl
        rw [hs]
        exact .nothing rfl rfl (by simp [State.goto_runs])
      | some rows =>
        have hok : io.ok = true := by
          by_contra hno
          rw [if_neg hno] at hm
          cases hm
        rw [if_pos hok] at hm
        have hs : markPriorSuperseded s p r io =
            (s.withRows (some rows)).record (.superseded p r) := by
          rw [markPriorSuperseded, if_pos hok, hm]
        rw [hs]
        exact .superseded p hph hp hm rfl
    · cases h
      exact .nothing rfl rfl (by simp [State.goto_runs])
  | fetching =>
    simp only [advance, hph] at h
    split at h <;> (cases h; exact .nothing rfl rfl (by simp [State.goto_runs]))
  | lookingUp =>
    simp only [advance, hph] at h
    cases h
    exact .nothing rfl rfl (by simp [State.goto_runs])
  | cancelling found =>
    cases found with
    | some q =>
      simp only [advance, hph] at h
      cases h
      refine .nothing rfl rfl ?_
      intro o ho
      rw [State.goto_runs, if_pos rfl] at ho
      cases ho
      exact ⟨q, rfl⟩
    | none =>
      simp only [advance, hph] at h
      cases h
      exact .own (cancelledOutcome r none) (final_cancelledOutcome r none)
        (by simp [State.goto_runs]) rfl rfl
  | storing | rendering =>
    simp only [advance, hph] at h
    cases h
    refine .nothing rfl rfl ?_
    intro o ho
    rw [State.goto_runs, if_pos rfl] at ho
    simp only at ho
    split at ho <;> cases ho
  | guarding d =>
    simp only [advance, hph] at h
    split at h <;> cases h
    · exact .nothing rfl rfl (by simp [State.resolve_runs])
    · exact .nothing rfl rfl (by simp [State.goto_runs])
  | drafting d =>
    simp only [advance, hph] at h
    split at h <;> cases h
    · exact .drafted d hph rfl rfl
    · exact .nothing rfl rfl (by simp [State.goto_runs])
  | finishing d =>
    simp only [advance, hph] at h
    cases h
    exact .own ⟨r, .completed, some d, none⟩ (by simp [GenerateOutcome.Final])
      (by simp [State.goto_runs]) rfl rfl
  | failing =>
    simp only [advance, hph] at h
    cases h
    exact .own ⟨r, .failed, none, none⟩ (by simp [GenerateOutcome.Final])
      (by simp [State.goto_runs]) rfl rfl
  | dropping o =>
    simp only [advance, hph] at h
    cases h
    exact .nothing (by simp) (by simp) (by simp [State.resolve_runs])

/-- The rows that a step leaves alone or writes once. -/
theorem Records.rows_cases (h : Records s r io s') : s'.rows = s.rows ∨
    (s.rows r = none ∧ (s.runs r).phase = .inserting ∧ (s'.runs r).phase = .marking ∧
      s'.rows = Function.update s.rows r (some (startedRow (s.runs r) r io.now))) ∨
    ∃ id, (∃ run, s.rows id = some run ∧ run.status = .running) ∧
      (∃ run, s'.rows id = some run ∧ run.status ≠ .running) ∧
      ∀ q, q ≠ id → s'.rows q = s.rows q := by
  cases h with
  | nothing hr | drafted _ _ hr => exact Or.inl hr
  | inserted hph hph' hins =>
    obtain ⟨hnone, hrows⟩ := SyncRunTable.insert_eq_some hins
    exact Or.inr (Or.inl ⟨hnone, hph, hph', hrows⟩)
  | superseded p _ _ hm =>
    obtain ⟨hrun, ⟨run, hrow, hst, -⟩, hothers⟩ := SyncRunTable.transition_eq_some hm
    exact Or.inr (Or.inr ⟨p, hrun, ⟨run, hrow, by rw [hst]; decide⟩, hothers⟩)
  | own o hfin _ hr =>
    cases hw : (if io.ok then ownWrite s r io o else none) with
    | none => rw [hw] at hr; exact Or.inl hr
    | some t =>
      rw [hw, Option.getD_some] at hr
      split at hw
      · obtain ⟨hrun, ⟨run, hrow, hst, -⟩, hothers⟩ := SyncRunTable.transition_eq_some hw
        rw [← hr] at hrow hothers
        exact Or.inr (Or.inr ⟨r, hrun, ⟨run, hrow, by rw [hst]; exact hfin.1⟩, hothers⟩)
      · cases hw

/-- A terminal row stays as it is. -/
theorem Records.terminal (h : Records s r io s') {id : R} {run : SyncRun R P}
    (hrow : s.rows id = some run) (hst : run.status ≠ .running) : s'.rows id = some run := by
  rcases h.rows_cases with hr | ⟨hnone, -, -, hr⟩ | ⟨p, ⟨run', hp, hrun⟩, -, hothers⟩
  · rw [hr]
    exact hrow
  · have hne : id ≠ r := by
      rintro rfl
      rw [hnone] at hrow
      cases hrow
    rw [hr, Function.update_of_ne hne]
    exact hrow
  · have hne : id ≠ p := by
      rintro rfl
      cases hp.symm.trans hrow
      exact hst hrun
    rw [hothers id hne]
    exact hrow

theorem Records.rowIs (h : Records s r io s') {id : R} {st : SyncRunStatus}
    {reason : Option (SyncRunCancelReason R)} (hrow : s.rows.RowIs id st reason)
    (hst : st ≠ .running) : s'.rows.RowIs id st reason := by
  obtain ⟨run, hrun, rfl, hreason⟩ := hrow
  exact ⟨run, h.terminal hrun hst, rfl, hreason⟩

/-- A stored row is never removed. -/
theorem Records.some (h : Records s r io s') {id : R} (hrow : s.rows id ≠ none) :
    s'.rows id ≠ none := by
  rcases h.rows_cases with hr | ⟨hnone, -, -, hr⟩ | ⟨p, -, ⟨run, hp, -⟩, hothers⟩
  · rw [hr]
    exact hrow
  · rw [hr]
    by_cases hid : id = r
    · simp [hid]
    · rw [Function.update_of_ne hid]
      exact hrow
  · by_cases hid : id = p
    · simp [hid, hp]
    · rw [hothers id hid]
      exact hrow

/-- A row appears only when its run inserts it. -/
theorem Records.none (h : Records s r io s') {id : R} (hrow : s.rows id = none) :
    s'.rows id = none ∨ (id = r ∧ (s.runs r).phase = .inserting ∧ (s'.runs r).phase = .marking) := by
  rcases h.rows_cases with hr | ⟨-, hph, hph', hr⟩ | ⟨p, ⟨run, hp, -⟩, -, hothers⟩
  · exact Or.inl (by rw [hr]; exact hrow)
  · by_cases hid : id = r
    · exact Or.inr ⟨hid, hph, hph'⟩
    · left
      rw [hr, Function.update_of_ne hid]
      exact hrow
  · have hne : id ≠ p := by
      rintro rfl
      cases hp.symm.trans hrow
    exact Or.inl (by rw [hothers id hne]; exact hrow)

/-- A running row was running before, or its run has just inserted it. -/
theorem Records.running (h : Records s r io s') {id : R} {run : SyncRun R P}
    (hrow : s'.rows id = .some run) (hst : run.status = .running) :
    s.rows id = .some run ∨ (id = r ∧ (s.runs r).phase = .inserting) := by
  rcases h.rows_cases with hr | ⟨-, hph, -, hr⟩ | ⟨p, -, ⟨run', hp, hrun⟩, hothers⟩
  · exact Or.inl (by rw [← hr]; exact hrow)
  · by_cases hid : id = r
    · exact Or.inr ⟨hid, hph⟩
    · rw [hr, Function.update_of_ne hid] at hrow
      exact Or.inl hrow
  · have hne : id ≠ p := by
      rintro rfl
      cases hp.symm.trans hrow
      exact hrun hst
    rw [hothers id hne] at hrow
    exact Or.inl hrow

/-- A run that is past its insert has a row. -/
theorem advance_marking (h : advance s r io = some s') (hph : (s.runs r).phase = .inserting)
    (hm : (s'.runs r).phase = .marking) : s'.rows r ≠ none := by
  simp only [advance, hph] at h
  split at h
  · next rows hins =>
    cases h
    split at hins
    · rw [State.goto_rows, State.withRows_rows, Option.getD_some,
        (SyncRunTable.insert_eq_some hins).2]
      simp [startedRow]
    · cases hins
  · cases h
    rw [State.goto_runs, if_pos rfl] at hm
    cases hm

/-- The row of a run that starts is inserted when the statement succeeds. -/
theorem advance_inserting (h : advance s r io = some s') (hph : (s.runs r).phase = .inserting)
    (hok : io.ok = true) (hfree : s.rows r = none) : (s'.runs r).phase = .marking := by
  have hins : s.rows.insert (startedRow (s.runs r) r io.now) =
      some (Function.update s.rows r (some (startedRow (s.runs r) r io.now))) := by
    simp [SyncRunTable.insert, startedRow, hfree]
  simp only [advance, hph, hok, if_true, hins] at h
  cases h
  simp [State.goto_runs]

/-! ### The other actions -/

/-- What the swap of a starting run changes. -/
structure Started (s : State R P) (r : R) (s' : State R P) : Prop where
  idle : (s.runs r).phase = .idle
  inFlight : s'.inFlight = some r
  phase : (s'.runs r).phase = .firing
  prior : (s'.runs r).prior = s.inFlight
  outcome : (s'.runs r).outcome = none
  others : ∀ q, q ≠ r → s'.runs q = s.runs q
  rows : s'.rows = s.rows
  history : s'.history = .swapped r :: s.history

/-- The states differ in cancellation tokens only. -/
structure TokensOnly (s s' : State R P) : Prop where
  inFlight : s'.inFlight = s.inFlight
  phase : ∀ q, (s'.runs q).phase = (s.runs q).phase
  prior : ∀ q, (s'.runs q).prior = (s.runs q).prior
  outcome : ∀ q, (s'.runs q).outcome = (s.runs q).outcome
  trigger : ∀ q, (s'.runs q).trigger = (s.runs q).trigger
  rows : s'.rows = s.rows
  history : s'.history = s.history

theorem tokensOnly_fire (s : State R P) (r : R) : TokensOnly s (s.fire r) :=
  ⟨rfl, by simp, by simp, by simp, by simp, rfl, rfl⟩

/-- **What a step can do.** -/
theorem step_cases (h : step s a = some s') :
    (∃ r trigger, a = .start r trigger ∧ Started s r s') ∨
    (∃ r io, a = .advance r io ∧ advance s r io = some s') ∨
    TokensOnly s s' := by
  cases a with
  | start r trigger =>
    left
    simp only [step, start] at h
    split at h
    · next hidle =>
      cases h
      refine ⟨r, trigger, rfl, hidle, rfl, ?_, ?_, ?_, ?_, rfl, rfl⟩
      · simp
      · simp
      · simp
      · intro q hq
        simp [hq]
    · cases h
  | advance r io => exact Or.inr (Or.inl ⟨r, io, rfl, h⟩)
  | cancel r =>
    right; right
    simp only [step, cancel] at h
    split at h <;> cases h
    · exact tokensOnly_fire s r
    · exact ⟨rfl, fun _ => rfl, fun _ => rfl, fun _ => rfl, fun _ => rfl, rfl, rfl⟩
  | cancelHandle r =>
    right; right
    simp only [step] at h
    split at h <;> cases h
    exact tokensOnly_fire s r

/-! ### The order of the swaps -/

/-- The run that a history entry starts. -/
def Event.swap? : Event R → Option R
  | .swapped r => some r
  | _ => none

/-- The runs in the order of their swaps, newest first. -/
def swapsOf (history : List (Event R)) : List R := history.filterMap Event.swap?

/-- Run `r` is the newest: no other run swapped the entry after it. -/
def Newest (s : State R P) (r : R) : Prop := (swapsOf s.history).head? = some r

theorem swapsOf_advance (h : advance s r io = some s') :
    swapsOf s'.history = swapsOf s.history := by
  cases advance_records h with
  | nothing _ hh | inserted _ _ _ hh | own _ _ _ _ hh => rw [hh]
  | superseded _ _ _ _ hh | drafted _ _ _ hh => rw [hh]; rfl

theorem newest_advance (h : advance s r io = some s') : Newest s' q ↔ Newest s q := by
  rw [Newest, swapsOf_advance h, Newest]

omit [DecidableEq R] in
theorem newest_started (h : Started s r s') : Newest s' q ↔ q = r := by
  rw [Newest, h.history]
  simp [swapsOf, Event.swap?, eq_comm]

omit [DecidableEq R] in
theorem newest_tokensOnly (h : TokensOnly s s') : Newest s' q ↔ Newest s q := by
  rw [Newest, h.history, Newest]

/-- **The in-flight entry names the newest run**, while there is one. -/
theorem newest_of_inFlight {allowed : State R P → Action R P → Prop}
    (h : (machine R P).Reach allowed s) : ∀ r, s.inFlight = some r → Newest s r := by
  refine Machine.Reach.invariant (I := fun s => ∀ r, s.inFlight = some r → Newest s r) h
    (fun r hr => by cases hr) ?_
  intro s a s' _ ih _ hstep r hr
  rcases step_cases hstep with ⟨p, _, -, hst⟩ | ⟨p, io, -, hadv⟩ | htok
  · rw [hst.inFlight] at hr
    rw [newest_started hst]
    exact (Option.some.inj hr).symm
  · rw [newest_advance hadv]
    rcases advance_inFlight hadv with he | ⟨-, he⟩ | ⟨-, he, -⟩
    · exact ih r (he ▸ hr)
    · rw [he] at hr; cases hr
    · rw [he] at hr; cases hr
  · rw [newest_tokensOnly htok]
    exact ih r (htok.inFlight ▸ hr)

end

/-! ### Scripts of two runs -/

/-- A step in which everything succeeds. -/
def fine : Io Unit := ⟨true, 0, 0, []⟩

/-- A step whose database statement fails. -/
def refused : Io Unit := ⟨false, 0, 0, []⟩

/-- `n` steps of a run in a row. -/
def steps (r : Fin 2) (n : ℕ) : List (Action (Fin 2) Unit) := List.replicate n (.advance r fine)

end Orchestrator
end Dayseam
