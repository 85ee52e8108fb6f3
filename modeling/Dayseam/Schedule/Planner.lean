import Dayseam.Core.Time
import Dayseam.Db.SyncRuns
import Mathlib

/-!
# The schedule planner

The scheduler looks at the stored runs to find the days that have a report, and
plans what is to be done now from that.  A stored run does not say which day it
was for: the day is read off its start and its trigger.

## Main definitions

* `ScheduleState.fromSyncRuns` — the days that the stored runs satisfy.
* `planNextActions` — what is to be done now.

## Main results

* `satisfied_fromSyncRuns` — the satisfied days are those that completed runs
  are credited to.
* `runToday_mem`, `finalPassYesterday_mem`, `mem_of_catchUp` — when an action is
  planned.
-/

namespace Dayseam
namespace Schedule

/-! ### Satisfied days -/

/-- How a scheduled day was produced. -/
inductive SatisfactionKind
  | inDay
  | finalPass
  deriving DecidableEq, Repr

/-- What the planner looks at. -/
structure ScheduleState where
  satisfied : NaiveDate → Option SatisfactionKind
  skippedThisSession : Finset NaiveDate
  userRunInFlight : Bool

namespace ScheduleState

def default : ScheduleState := ⟨fun _ => none, ∅, false⟩

/-- A day with one more report; a final pass wins over an in-day run. -/
def satisfy (state : ScheduleState) (date : NaiveDate) (kind : SatisfactionKind) : ScheduleState :=
  { state with
    satisfied := Function.update state.satisfied date (match state.satisfied date with
      | some existing => some (if kind = .finalPass then kind else existing)
      | none => some kind) }

/-- The state with what the session knows: the days that the user skipped, and
whether a run of the user is in flight. -/
def inSession (state : ScheduleState) (skipped : Finset NaiveDate) (userRunInFlight : Bool) :
    ScheduleState :=
  { state with
    skippedThisSession := state.skippedThisSession ∪ skipped
    userRunInFlight := userRunInFlight }

@[simp] theorem satisfied_inSession (state : ScheduleState) (skipped : Finset NaiveDate)
    (busy : Bool) : (state.inSession skipped busy).satisfied = state.satisfied := rfl

@[simp] theorem userRunInFlight_inSession (state : ScheduleState) (skipped : Finset NaiveDate)
    (busy : Bool) : (state.inSession skipped busy).userRunInFlight = busy := rfl

end ScheduleState

/-- What the scheduler reads of a stored run. -/
structure SchedulerRunRow (R : Type) where
  status : SyncRunStatus
  trigger : SyncRunTrigger R
  startedAt : ℤ
  deriving DecidableEq, Repr

variable {R : Type}

/-- The day that a run is credited to.  A final pass is for the day before it
starts, every other run for the day on which it starts. -/
def SchedulerRunRow.credit (localTz : FixedOffset) (row : SchedulerRunRow R) :
    NaiveDate × SatisfactionKind :=
  let startedLocal := localDate localTz row.startedAt
  match row.trigger with
  | .scheduler .inDay | .scheduler .catchUp => (startedLocal, .inDay)
  | .scheduler .finalPass => (startedLocal.addDays (-1), .finalPass)
  | .user | .retry _ => (startedLocal, .inDay)

/-- The state after one more stored run. -/
def ScheduleState.credit (localTz : FixedOffset) (state : ScheduleState)
    (row : SchedulerRunRow R) : ScheduleState :=
  if row.status ≠ .completed then state
  else state.satisfy (row.credit localTz).1 (row.credit localTz).2

def ScheduleState.fromSyncRuns (rows : List (SchedulerRunRow R)) (localTz : FixedOffset) :
    ScheduleState :=
  rows.foldl (ScheduleState.credit localTz) ScheduleState.default

/-- A completed run that is credited to the day. -/
def SchedulerRunRow.Credits (localTz : FixedOffset) (row : SchedulerRunRow R) (date : NaiveDate) :
    Prop :=
  row.status = .completed ∧ (row.credit localTz).1 = date

instance (localTz : FixedOffset) (row : SchedulerRunRow R) (date : NaiveDate) :
    Decidable (row.Credits localTz date) :=
  inferInstanceAs (Decidable (_ ∧ _))

namespace ScheduleState
variable (state : ScheduleState) (localTz : FixedOffset)

theorem satisfied_satisfy {date d : NaiveDate} {kind : SatisfactionKind} :
    (state.satisfy date kind).satisfied d ≠ none ↔ state.satisfied d ≠ none ∨ date = d := by
  by_cases h : d = date
  · subst h
    simp only [satisfy, Function.update_self, or_true, iff_true]
    cases state.satisfied d <;> simp
  · simp only [satisfy, Function.update_of_ne h]
    exact ⟨Or.inl, fun hd => hd.resolve_right fun he => h he.symm⟩

theorem satisfied_credit (row : SchedulerRunRow R) (d : NaiveDate) :
    (state.credit localTz row).satisfied d ≠ none ↔
      state.satisfied d ≠ none ∨ row.Credits localTz d := by
  by_cases h : row.status = .completed
  · simp only [credit, SchedulerRunRow.Credits, h, ne_eq, not_true, if_false, true_and]
    exact satisfied_satisfy state
  · simp [credit, SchedulerRunRow.Credits, h]

theorem satisfied_foldl (rows : List (SchedulerRunRow R)) (d : NaiveDate) :
    (rows.foldl (credit localTz) state).satisfied d ≠ none ↔
      state.satisfied d ≠ none ∨ ∃ row ∈ rows, row.Credits localTz d := by
  induction rows generalizing state with
  | nil => simp
  | cons row rows ih =>
    rw [List.foldl_cons, ih, satisfied_credit, or_assoc]
    simp only [List.exists_mem_cons_iff]

/-- **The satisfied days are those that completed runs are credited to.** -/
theorem satisfied_fromSyncRuns (rows : List (SchedulerRunRow R)) (d : NaiveDate) :
    (fromSyncRuns rows localTz).satisfied d ≠ none ↔ ∃ row ∈ rows, row.Credits localTz d := by
  rw [fromSyncRuns, satisfied_foldl]
  simp [default]

end ScheduleState

/-! ### The planner -/

/-- The stored configuration. -/
structure ScheduleConfig where
  enabled : Bool
  daysOfWeek : List Weekday
  targetTime : NaiveTime
  earliestStart : NaiveTime
  catchUpDays : ℕ
  deriving DecidableEq, Repr

def CATCH_UP_DAYS_HARD_CAP : ℕ := 30

inductive ScheduledAction
  | runToday (date : NaiveDate)
  | finalPassYesterday (date : NaiveDate)
  | catchUp (dates : List NaiveDate)
  deriving DecidableEq, Repr

section
variable (now : DateTime) (cfg : ScheduleConfig) (state : ScheduleState)

def finalPassActions : List ScheduledAction :=
  let yesterday := now.dateNaive.addDays (-1)
  -- a run of the day itself does not count as its final pass
  if !state.userRunInFlight && cfg.daysOfWeek.contains yesterday.weekday
      && state.satisfied yesterday != some .finalPass then
    [.finalPassYesterday yesterday]
  else []

def runTodayActions : List ScheduledAction :=
  let today := now.dateNaive
  -- the days that were skipped in the session are not asked for
  if !state.userRunInFlight && cfg.daysOfWeek.contains today.weekday
      && cfg.earliestStart.ble now.time && now.time.ble cfg.targetTime
      && (state.satisfied today).isNone then
    [.runToday today]
  else []

/-- The scheduled days of the catch-up window without a report, latest first.  A
day that `actions` makes the final pass of is left out. -/
def missedDays (actions : List ScheduledAction) : List NaiveDate :=
  let today := now.dateNaive
  let yesterday := today.addDays (-1)
  let window := (List.range' 1 (min cfg.catchUpDays CATCH_UP_DAYS_HARD_CAP)).map
    fun offset => today.addDays (-offset)
  window.filter fun d =>
    cfg.daysOfWeek.contains d.weekday && (state.satisfied d).isNone
      && !decide (d ∈ state.skippedThisSession)
      && !(d == yesterday && actions.contains (.finalPassYesterday yesterday))

def planNextActions : List ScheduledAction :=
  if !cfg.enabled then []
  else
    let actions := finalPassActions now cfg state ++ runTodayActions now cfg state
    let missed := missedDays now cfg state actions
    if missed = [] then actions
    else actions ++ [.catchUp (missed.mergeSort fun a b => decide (a ≤ b))]

/-- The day is scheduled, and the clock is in the window of in-day runs. -/
def InWindow : Prop :=
  cfg.enabled = true ∧ now.dateNaive.weekday ∈ cfg.daysOfWeek ∧
    cfg.earliestStart.ble now.time = true ∧ now.time.ble cfg.targetTime = true

instance : Decidable (InWindow now cfg) := inferInstanceAs (Decidable (_ ∧ _))

variable {now cfg state}

theorem mem_planNextActions {action : ScheduledAction} :
    action ∈ planNextActions now cfg state ↔ cfg.enabled = true ∧
      (action ∈ finalPassActions now cfg state ∨ action ∈ runTodayActions now cfg state ∨
        ∃ missed, missed = missedDays now cfg state
            (finalPassActions now cfg state ++ runTodayActions now cfg state) ∧
          missed ≠ [] ∧ action = .catchUp (missed.mergeSort fun a b => decide (a ≤ b))) := by
  simp only [planNextActions]
  cases hen : cfg.enabled with
  | false => simp
  | true =>
    simp only [Bool.not_true, Bool.false_eq_true, if_false, true_and, exists_eq_left]
    split
    · next h => simp [h]
    · next h => simp [h]

/-- When today's report is planned. -/
theorem runToday_mem {d : NaiveDate} : .runToday d ∈ planNextActions now cfg state ↔
    now.dateNaive = d ∧ InWindow now cfg ∧ state.userRunInFlight = false ∧
      state.satisfied d = none := by
  rw [mem_planNextActions]
  simp only [finalPassActions, runTodayActions, InWindow]
  constructor
  · rintro ⟨hen, h | h | ⟨_, _, _, h⟩⟩
    · split at h <;> simp at h
    · split at h
      · next hc =>
        cases List.mem_singleton.mp h
        simp only [Bool.and_eq_true, Bool.not_eq_true', List.contains_iff_mem,
          Option.isNone_iff_eq_none] at hc
        exact ⟨rfl, ⟨hen, hc.1.1.1.2, hc.1.1.2, hc.1.2⟩, hc.1.1.1.1, hc.2⟩
      · simp at h
    · cases h
  · rintro ⟨rfl, ⟨hen, hday, hearly, hlate⟩, huser, hsat⟩
    refine ⟨hen, Or.inr (Or.inl ?_)⟩
    simp [hday, hearly, hlate, huser, hsat]

/-- When the final pass of yesterday is planned. -/
theorem finalPassYesterday_mem {d : NaiveDate} :
    .finalPassYesterday d ∈ planNextActions now cfg state ↔
      now.dateNaive.addDays (-1) = d ∧ cfg.enabled = true ∧ d.weekday ∈ cfg.daysOfWeek ∧
        state.userRunInFlight = false ∧ state.satisfied d ≠ some .finalPass := by
  rw [mem_planNextActions]
  simp only [finalPassActions, runTodayActions]
  constructor
  · rintro ⟨hen, h | h | ⟨_, _, _, h⟩⟩
    · split at h
      · next hc =>
        cases List.mem_singleton.mp h
        simp only [Bool.and_eq_true, Bool.not_eq_true', List.contains_iff_mem, bne_iff_ne] at hc
        exact ⟨rfl, hen, hc.1.2, hc.1.1, hc.2⟩
      · simp at h
    · split at h <;> simp at h
    · cases h
  · rintro ⟨rfl, hen, hday, huser, hsat⟩
    refine ⟨hen, Or.inl ?_⟩
    simp [hday, huser, hsat]

/-- A day of a catch-up list has no report yet. -/
theorem satisfied_of_catchUp {dates : List NaiveDate} {d : NaiveDate}
    (h : .catchUp dates ∈ planNextActions now cfg state) (hd : d ∈ dates) :
    state.satisfied d = none := by
  obtain ⟨-, h | h | ⟨_, rfl, -, heq⟩⟩ := mem_planNextActions.mp h
  · simp only [finalPassActions] at h
    split at h <;> simp at h
  · simp only [runTodayActions] at h
    split at h <;> simp at h
  · cases heq
    rw [List.mem_mergeSort] at hd
    have hkeep := (List.mem_filter.mp hd).2
    simp only [Bool.and_eq_true, Option.isNone_iff_eq_none] at hkeep
    exact hkeep.1.1.2

end

end Schedule
end Dayseam
