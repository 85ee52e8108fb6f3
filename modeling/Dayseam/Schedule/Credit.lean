import Dayseam.Schedule.Planner
import Mathlib

/-!
# The day that a run is credited to

A stored run does not say which day it was generated for.  In-day runs and final
passes are credited to that day all the same.  A run of the user is credited to
the day on which it was started, also when it was generated for an earlier one.

## Main definitions

* `DatedRun` — a completed run and the day it was generated for.
* `Credited` — the days that a history has reports for.

## Main results

* `satisfied_iff_credited` — **which days a history satisfies.**
* `backdated_run_not_credited` — a run of the user for an earlier day.
-/

namespace Dayseam
namespace Schedule

/-- The day that a run can be generated for, by its trigger: an in-day run for the
day on which it starts, a final pass for the day before, a catch-up for an
earlier day, a run of the user for any day up to its own. -/
def Dated {R : Type} (tz : FixedOffset) (trigger : SyncRunTrigger R) (startedAt : ℤ)
    (requestDate : NaiveDate) : Prop :=
  match trigger with
  | .scheduler .inDay => requestDate = localDate tz startedAt
  | .scheduler .finalPass => requestDate = (localDate tz startedAt).addDays (-1)
  | .scheduler .catchUp => requestDate < localDate tz startedAt
  | .user | .retry _ => requestDate ≤ localDate tz startedAt

instance {R : Type} (tz : FixedOffset) (startedAt : ℤ) (requestDate : NaiveDate) :
    ∀ trigger : SyncRunTrigger R, Decidable (Dated tz trigger startedAt requestDate)
  | .scheduler .inDay | .scheduler .finalPass => inferInstanceAs (Decidable (_ = _))
  | .scheduler .catchUp => inferInstanceAs (Decidable (_ < _))
  | .user | .retry _ => inferInstanceAs (Decidable (_ ≤ _))

/-- A completed run with the date that it was generated for. -/
structure DatedRun (R : Type) (tz : FixedOffset) where
  trigger : SyncRunTrigger R
  startedAt : ℤ
  requestDate : NaiveDate
  dated : Dated tz trigger startedAt requestDate

variable {R : Type} {tz : FixedOffset}

/-- The stored row of the run. -/
def DatedRun.row (run : DatedRun R tz) : SchedulerRunRow R :=
  ⟨.completed, run.trigger, run.startedAt⟩

/-- The state that a history of runs leaves. -/
def stateOf (history : List (DatedRun R tz)) : ScheduleState :=
  .fromSyncRuns (history.map DatedRun.row) tz

/-- Some in-day run or final pass was generated for the day, or some run of the
user was started on it. -/
def Credited (history : List (DatedRun R tz)) (d : NaiveDate) : Prop :=
  ∃ run ∈ history, match run.trigger with
    | .scheduler .inDay | .scheduler .finalPass => run.requestDate = d
    | .scheduler .catchUp => False
    | .user | .retry _ => localDate tz run.startedAt = d

/-- No catch-up was started on the day or generated for it. -/
def NoCatchUp (history : List (DatedRun R tz)) (d : NaiveDate) : Prop :=
  ∀ run ∈ history, run.trigger = .scheduler .catchUp →
    localDate tz run.startedAt ≠ d ∧ run.requestDate ≠ d

/-- What a run is credited to, by its trigger. -/
theorem credits_row (run : DatedRun R tz) (d : NaiveDate) :
    run.row.Credits tz d ↔ match run.trigger with
      | .scheduler .inDay | .scheduler .finalPass => run.requestDate = d
      | .scheduler .catchUp | .user | .retry _ => localDate tz run.startedAt = d := by
  obtain ⟨trigger, startedAt, requestDate, hdated⟩ := run
  simp only [SchedulerRunRow.Credits, DatedRun.row, SchedulerRunRow.credit, true_and]
  cases trigger with
  | scheduler kind =>
    cases kind with
    | inDay | finalPass =>
      simp only [Dated] at hdated
      rw [hdated]
    | catchUp => exact Iff.rfl
  | user | retry => exact Iff.rfl

theorem satisfied_stateOf {history : List (DatedRun R tz)} {d : NaiveDate}
    (hcatch : NoCatchUp history d) : (stateOf history).satisfied d ≠ none ↔ Credited history d := by
  rw [stateOf, ScheduleState.satisfied_fromSyncRuns]
  simp only [List.mem_map, exists_exists_and_eq_and, credits_row, Credited]
  refine exists_congr fun run => and_congr_right fun hmem => ?_
  match htrigger : run.trigger with
  | .scheduler .inDay | .scheduler .finalPass | .user | .retry _ => exact Iff.rfl
  | .scheduler .catchUp => exact iff_of_false (hcatch run hmem htrigger).1 id

/-- **A history satisfies the days that its in-day runs and final passes were
generated for, and those on which runs of the user were started.**  So a day is
planned in its window until then, and is in no catch-up list after that. -/
theorem satisfied_iff_credited (history : List (DatedRun R tz)) (d : NaiveDate)
    (hcatch : NoCatchUp history d) :
    ((stateOf history).satisfied d ≠ none ↔ Credited history d) ∧
      ∀ (cfg : ScheduleConfig) (now : DateTime) (skipped : Finset NaiveDate) (busy : Bool),
        let actions := planNextActions now cfg ((stateOf history).inSession skipped busy)
        (.runToday d ∈ actions ↔
            now.dateNaive = d ∧ InWindow now cfg ∧ busy = false ∧ ¬ Credited history d) ∧
          (Credited history d → ∀ dates, .catchUp dates ∈ actions → d ∉ dates) := by
  have hsat := satisfied_stateOf hcatch
  refine ⟨hsat, fun cfg now skipped busy => ⟨?_, ?_⟩⟩
  · rw [runToday_mem, ScheduleState.satisfied_inSession, ← hsat, not_not,
      ScheduleState.userRunInFlight_inSession]
  · intro hcredited dates hplan hmem
    have hnone := satisfied_of_catchUp hplan hmem
    exact hsat.mpr hcredited hnone

/-- A final pass of the day before leaves today's report to be planned. -/
theorem final_pass_credited : let run : DatedRun Unit .utc :=
      ⟨.scheduler .finalPass, 9 * 3600 * nanosPerSec, ⟨-1⟩, by decide⟩
    (stateOf [run]).satisfied ⟨0⟩ = none ∧ (stateOf [run]).satisfied ⟨-1⟩ ≠ none := by
  intro run
  have hcatch : ∀ d, NoCatchUp [run] d := by
    intro d r hr htrigger
    cases List.mem_singleton.mp hr
    cases htrigger
  constructor
  · by_contra hsat
    obtain ⟨r, hr, hd⟩ := (satisfied_iff_credited [run] ⟨0⟩ (hcatch _)).1.mp hsat
    cases List.mem_singleton.mp hr
    exact absurd hd (by decide)
  · exact (satisfied_iff_credited [run] ⟨-1⟩ (hcatch _)).1.mpr ⟨run, by simp, rfl⟩

/-- **A run of the user for the day before** satisfies the day on which it was
started, and not the day it was generated for. -/
theorem backdated_run_not_credited :
    ¬ ∀ (tz : FixedOffset) (history : List (DatedRun Unit tz)) (d : NaiveDate),
      (stateOf history).satisfied d ≠ none ↔ ∃ run ∈ history, run.requestDate = d := by
  intro h
  -- started at half past midnight
  let run : DatedRun Unit .utc := ⟨.user, 1800 * nanosPerSec, ⟨-1⟩, by decide⟩
  have hsat := (h .utc [run] ⟨-1⟩).mpr ⟨run, by simp, rfl⟩
  rw [stateOf, ScheduleState.satisfied_fromSyncRuns] at hsat
  obtain ⟨row, hrow, -, hd⟩ := hsat
  cases List.mem_singleton.mp hrow
  exact absurd hd (by decide)

end Schedule
end Dayseam
