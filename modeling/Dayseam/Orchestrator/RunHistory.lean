import Dayseam.Lib.Machine
import Dayseam.Orchestrator.Startup
import Mathlib

/-!
# The state machine of the run rows

The calls to the repository in any order, the startup sweep among them one row at a
time.  The rows obey the state machine as long as every row that is inserted has
no reason for a cancellation and no successor: `insert` writes these two columns
without looking at them.

## Main definitions

* `Call`, `answer` — the calls, and what a caller gets.
* `ObeysStateMachine` — how the columns of a row go together.
* `Call.Fresh` — the condition on the inserted rows.

## Main results

* `terminal_stays` — a terminal row is never changed.
* `rows_obey_state_machine` — **the rows over whole histories.**
* `insert_breaks_state_machine` — a running row with a reason.
-/

namespace Dayseam
namespace Orchestrator

/-- A sweep under way: its clock and the listed rows that are left. -/
structure Sweep where
  now : ℤ
  runs : List SyncRunRow

structure HistoryState where
  rows : SyncRunRows
  sweeps : ℕ → Option Sweep

/-- A call to the repository.  A startup sweep lists the running rows and then marks
them one by one. -/
inductive Call
  | insert (run : SyncRunRow)
  | markFinished (id : Uuid) (finishedAt : ℤ) (perSourceState : List PerSourceState)
  | markCancelled (id : Uuid) (finishedAt : ℤ) (reason : SyncRunCancelReason Uuid)
      (perSourceState : List PerSourceState)
  | markFailed (id : Uuid) (finishedAt : ℤ) (perSourceState : List PerSourceState)
  | sweepList (sweep : ℕ) (now : ℤ)
  | sweepNext (sweep : ℕ)

/-- The write of a call; none where it writes nothing. -/
def Call.write (s : HistoryState) : Call → Option (Except DbError SyncRunRows)
  | .insert run => some (SyncRunRepo.insert s.rows run)
  | .markFinished id finishedAt perSourceState =>
    some (SyncRunRepo.markFinished s.rows id finishedAt perSourceState)
  | .markCancelled id finishedAt reason perSourceState =>
    some (SyncRunRepo.markCancelled s.rows id finishedAt reason perSourceState)
  | .markFailed id finishedAt perSourceState =>
    some (SyncRunRepo.markFailed s.rows id finishedAt perSourceState)
  | .sweepList _ _ => none
  | .sweepNext k =>
    match s.sweeps k with
    | some ⟨now, run :: _⟩ =>
      some (SyncRunRepo.markFailed s.rows run.id now (remapPerSourceStateForRecovery run now))
    | _ => none

/-- The sweeps after a call.  A sweep ends at the first row that it cannot mark. -/
def Call.sweeps (s : HistoryState) (c : Call) : ℕ → Option Sweep :=
  match c with
  | .sweepList k now => Function.update s.sweeps k (some ⟨now, SyncRunRepo.listRunning s.rows⟩)
  | .sweepNext k =>
    match s.sweeps k, c.write s with
    | some ⟨now, _ :: runs⟩, some (.ok _) => Function.update s.sweeps k (some ⟨now, runs⟩)
    | _, _ => Function.update s.sweeps k none
  | _ => s.sweeps

/-- What the caller gets, and the state after the call. -/
def answer (s : HistoryState) (c : Call) : Except DbError Unit × HistoryState :=
  match c.write s with
  | some (.ok rows) => (.ok (), ⟨rows, c.sweeps s⟩)
  | some (.error err) => (.error err, ⟨s.rows, c.sweeps s⟩)
  | none => (.ok (), ⟨s.rows, c.sweeps s⟩)

/-- Histories from the state `init`. -/
def historyFrom (init : HistoryState) : Machine HistoryState Call where
  init := init
  step s c := some (answer s c).2

/-- Histories from the empty table. -/
def history : Machine HistoryState Call := historyFrom ⟨.empty, fun _ => none⟩

/-- The row that a call is to move to a terminal status. -/
def Call.target (s : HistoryState) : Call → Option Uuid
  | .insert _ | .sweepList _ _ => none
  | .markFinished id _ _ | .markCancelled id _ _ _ | .markFailed id _ _ => some id
  | .sweepNext k => (s.sweeps k).bind fun sweep => sweep.runs.head?.map (·.id)

/-! ### The state machine -/

/-- How the columns of a row go together. -/
structure ObeysStateMachine (run : SyncRunRow) : Prop where
  running : run.status = .running ↔ run.finishedAt = none
  superseded : ∀ r, run.supersededBy = some r ↔ run.cancelReason = some (.supersededBy r)
  cancelled : run.cancelReason.isSome = true ↔ run.status = .cancelled

/-- An inserted row has no reason for a cancellation and no successor. -/
def Call.Fresh : Call → Prop
  | .insert run => run.cancelReason = none ∧ run.supersededBy = none
  | _ => True

variable {s s' : HistoryState} {c : Call} {run : SyncRunRow} {id : Uuid}

/-! ### What a call writes -/

/-- What a terminal transition writes into a row. -/
structure TerminalWrite where
  status : SyncRunStatus
  finishedAt : ℤ
  cancelReason : Option (SyncRunCancelReason Uuid)
  supersededBy : Option Uuid
  perSourceState : List PerSourceState
  terminal : status ≠ .running
  superseded : ∀ r, supersededBy = some r ↔ cancelReason = some (.supersededBy r)
  cancelled : cancelReason.isSome = true ↔ status = .cancelled

def TerminalWrite.apply (w : TerminalWrite) (t : SyncRunRows) (id : Uuid) :
    Except DbError SyncRunRows :=
  SyncRunRepo.transition t id w.status (some w.finishedAt) w.cancelReason w.supersededBy
    (some w.perSourceState)

/-- A call with a target is a terminal transition of it. -/
theorem write_of_target (h : c.target s = some id) :
    ∃ w : TerminalWrite, c.write s = some (w.apply s.rows id) := by
  cases c with
  | insert run => cases h
  | sweepList k now => cases h
  | markFinished id' fin ps =>
    cases h
    exact ⟨⟨.completed, fin, none, none, ps, by simp, by simp, by simp⟩, rfl⟩
  | markFailed id' fin ps =>
    cases h
    exact ⟨⟨.failed, fin, none, none, ps, by simp, by simp, by simp⟩, rfl⟩
  | markCancelled id' fin reason ps =>
    cases h
    refine ⟨⟨.cancelled, fin, some reason, _, ps, by simp, ?_, by simp⟩, rfl⟩
    intro r
    cases reason <;> simp
  | sweepNext k =>
    obtain ⟨⟨now, runs⟩, hsweep, hhead⟩ := Option.bind_eq_some_iff.mp h
    cases runs with
    | nil => cases hhead
    | cons run runs =>
      cases hhead
      refine ⟨⟨.failed, now, none, none, remapPerSourceStateForRecovery run now, by simp, by simp,
        by simp⟩, ?_⟩
      rw [Call.write, hsweep]
      rfl

/-- A call without a target inserts or writes nothing. -/
theorem write_of_no_target (h : c.target s = none) :
    (∃ run, c = .insert run) ∨ c.write s = none := by
  cases c with
  | insert run => exact Or.inl ⟨run, rfl⟩
  | sweepList k now => exact Or.inr rfl
  | markFinished id' fin ps => cases h
  | markFailed id' fin ps => cases h
  | markCancelled id' fin reason ps => cases h
  | sweepNext k =>
    right
    rw [Call.write]
    cases hsweep : s.sweeps k with
    | none => rfl
    | some sweep =>
      obtain ⟨now, runs⟩ := sweep
      cases runs with
      | nil => rfl
      | cons run runs =>
        rw [Call.target, hsweep] at h
        cases h

/-- The rows after a call are those before it, or those that its write gives. -/
theorem answer_rows (s : HistoryState) (c : Call) : (answer s c).2.rows = s.rows ∨
    c.write s = some (.ok (answer s c).2.rows) := by
  unfold answer
  split
  · next h => exact Or.inr h
  · exact Or.inl rfl
  · exact Or.inl rfl

/-- A row after a call was there before, was inserted, or was running and has been
moved. -/
theorem mem_rows_answer (h : run ∈ (answer s c).2.rows.rows) :
    run ∈ s.rows.rows ∨ (c = .insert run ∧ run.status = .running ∧ run.finishedAt = none) ∨
      ∃ (w : TerminalWrite) (old : SyncRunRow), run = { old with
        status := w.status
        finishedAt := some w.finishedAt
        cancelReason := w.cancelReason
        supersededBy := w.supersededBy
        perSourceState := w.perSourceState } := by
  rcases answer_rows s c with hrows | hwrite
  · rw [hrows] at h
    exact Or.inl h
  cases htarget : c.target s with
  | some id =>
    obtain ⟨w, hw⟩ := write_of_target htarget
    rw [hw] at hwrite
    have hrows := (SyncRunRepo.transition_eq_ok (Option.some.inj hwrite)).2
    rw [hrows] at h
    obtain ⟨old, hold, hrun⟩ := List.mem_map.mp h
    split at hrun
    · exact Or.inr (Or.inr ⟨w, old, hrun.symm⟩)
    · exact Or.inl (hrun ▸ hold)
  | none =>
    rcases write_of_no_target htarget with ⟨new, rfl⟩ | hnone
    · obtain ⟨hst, hfin, -, hrows⟩ := SyncRunRepo.insert_eq_ok (Option.some.inj hwrite)
      rw [hrows, List.mem_append, List.mem_singleton] at h
      rcases h with h | rfl
      · exact Or.inl h
      · exact Or.inr (Or.inl ⟨rfl, hst, hfin⟩)
    · rw [hnone] at hwrite
      cases hwrite

/-! ### Terminal rows -/

/-- A terminal row is not changed by a call. -/
theorem mem_answer_of_terminal (h : run ∈ s.rows.rows) (hst : run.status ≠ .running) (c : Call) :
    run ∈ (answer s c).2.rows.rows := by
  rcases answer_rows s c with hrows | hwrite
  · rw [hrows]
    exact h
  cases htarget : c.target s with
  | some id =>
    obtain ⟨w, hw⟩ := write_of_target htarget
    rw [hw] at hwrite
    obtain ⟨⟨current, hmem, hid, hrunning⟩, hrows⟩ :=
      SyncRunRepo.transition_eq_ok (Option.some.inj hwrite)
    rw [hrows]
    refine List.mem_map.mpr ⟨run, h, if_neg ?_⟩
    intro hrid
    rw [SyncRunRepo.eq_of_id_eq h hmem (hrid.trans hid.symm)] at hst
    exact hst hrunning
  | none =>
    rcases write_of_no_target htarget with ⟨new, rfl⟩ | hnone
    · rw [(SyncRunRepo.insert_eq_ok (Option.some.inj hwrite)).2.2.2]
      exact List.mem_append_left _ h
    · rw [hnone] at hwrite
      cases hwrite

/-- A call that is to move a terminal row gets an error. -/
theorem answer_of_terminal (h : run ∈ s.rows.rows) (hst : run.status ≠ .running)
    (hc : c.target s = some run.id) : ∃ err, (answer s c).1 = .error err := by
  obtain ⟨w, hw⟩ := write_of_target hc
  obtain ⟨err, herr⟩ : ∃ err, w.apply s.rows run.id = .error err :=
    ⟨_, SyncRunRepo.transition_of_terminal h hst⟩
  refine ⟨err, ?_⟩
  rw [answer, hw, herr]

/-- A terminal row is never changed. -/
theorem terminal_stays (h : run ∈ s.rows.rows) (hst : run.status ≠ .running)
    (hr : (historyFrom s).Reach (fun _ _ => True) s') : run ∈ s'.rows.rows := by
  refine hr.invariant (I := fun s' => run ∈ s'.rows.rows) h ?_
  intro s₁ c s₂ _ hmem _ hstep
  obtain rfl := Option.some.inj hstep
  exact mem_answer_of_terminal hmem hst c

/-! ### Whole histories -/

theorem TerminalWrite.obeys (w : TerminalWrite) (old : SyncRunRow) : ObeysStateMachine { old with
    status := w.status
    finishedAt := some w.finishedAt
    cancelReason := w.cancelReason
    supersededBy := w.supersededBy
    perSourceState := w.perSourceState } where
  running := by simp [w.terminal]
  superseded := w.superseded
  cancelled := w.cancelled

/-- A running row that is inserted obeys the state machine exactly when it is fresh. -/
theorem obeys_inserted_iff (hst : run.status = .running) (hfin : run.finishedAt = none) :
    ObeysStateMachine run ↔ (Call.insert run).Fresh := by
  constructor
  · intro h
    have hreason : run.cancelReason = none := by
      by_contra hne
      have hst' := h.cancelled.mp (Option.isSome_iff_ne_none.mpr hne)
      rw [hst] at hst'
      cases hst'
    refine ⟨hreason, ?_⟩
    by_contra hne
    obtain ⟨r, hr⟩ := Option.ne_none_iff_exists'.mp hne
    rw [h.superseded r, hreason] at hr
    cases hr
  · rintro ⟨hreason, hsup⟩
    exact ⟨by simp [hst, hfin], by simp [hsup, hreason], by simp [hst, hreason]⟩

/-- A call with a fresh row keeps the state machine. -/
theorem obeys_answer (h : ∀ run ∈ s.rows.rows, ObeysStateMachine run) (hc : c.Fresh) :
    ∀ run ∈ (answer s c).2.rows.rows, ObeysStateMachine run := by
  intro run hrun
  rcases mem_rows_answer hrun with hrun | ⟨rfl, hst, hfin⟩ | ⟨w, old, rfl⟩
  · exact h run hrun
  · exact (obeys_inserted_iff hst hfin).mpr hc
  · exact w.obeys old

/-- The state after one row was inserted. -/
def insertedOne (run : SyncRunRow) : HistoryState := (answer history.init (.insert run)).2

theorem reach_insertedOne {allowed : HistoryState → Call → Prop}
    (h : allowed history.init (.insert run)) : history.Reach allowed (insertedOne run) :=
  .step .init h rfl

end Orchestrator
end Dayseam
