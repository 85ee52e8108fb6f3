import Dayseam.Core.Sink
import Dayseam.Schedule.Planner
import Dayseam.Orchestrator.StoredRows
import Mathlib

/-!
# Scheduled runs and their saves

A scheduled action generates a report and then saves its draft to the sink of the
schedule.  The row of the run is `Completed` before the save starts, and the next
tick looks at rows, not at saves.  A day whose save failed is planned again
exactly when the row of the failed run is credited to another day.

## Main definitions

* `runScheduledAction` — generate, then save.
* `buildScheduleState` — what the next tick plans from.
* `Retried` — the tick plans the day again.

## Main results

* `save_failure_retried_iff` — **when a day is planned again after its save
  failed.**
* `failed_save_not_retried` — a run of today whose save failed.
-/

namespace Dayseam
namespace Schedule

open Orchestrator

/-! ### Saving a report -/

/-- The draft that is to be saved; `getDraft` is the read of its row. -/
def loadDraft (getDraft : Uuid → Except Text (Option ReportDraft)) (draftId : Uuid) :
    Except DayseamError ReportDraft :=
  match getDraft draftId with
  | .error e => .error (.internal ORCHESTRATOR_SAVE_DRAFT_NOT_FOUND
      ("failed to read report_drafts[".toList ++ draftId.display ++ "]: ".toList ++ e))
  | .ok none => .error (.invalidConfig ORCHESTRATOR_SAVE_DRAFT_NOT_FOUND
      ("no report_drafts row with id ".toList ++ draftId.display))
  | .ok (some draft) => .ok draft

/-- `save::run`. -/
def saveReport {Receipt : Type} (getDraft : Uuid → Except Text (Option ReportDraft))
    (sinks : SinkRegistry Receipt) (draftId : Uuid) (sink : Sink) :
    Except DayseamError (List Receipt) := do
  let draft ← loadDraft getDraft draftId
  match sinks sink.kind with
  | none => .error (.invalidConfig ORCHESTRATOR_SINK_NOT_REGISTERED
      ("no sink adapter registered for kind ".toList ++ sink.kind.debug))
  | some adapter =>
    let receipt ← adapter.write sink.config draft
    pure [receipt]

/-! ### The runner -/

inductive ScheduleRunError (R : Type)
  | noSinkConfigured
  | sinkNotSafeForUnattended (sinkId : Uuid)
  | sinkNotFound (sinkId : Uuid)
  | sinkKindNotRegistered (sinkKind : SinkKind)
  | generateDidNotComplete (status : SyncRunStatus) (cancelReason : Option (SyncRunCancelReason R))
  | generateJoinError (message : Text)
  | save (error : DayseamError)
  deriving DecidableEq, Repr

variable {R P Receipt : Type}

/-- Generate the report and save its draft.  `generate` is the completion of the
generated run, or the text of a join error. -/
def runScheduledAction (getDraft : Uuid → Except Text (Option ReportDraft))
    (sinks : SinkRegistry Receipt)
    (generate : SchedulerTriggerKind → Except Text (GenerateOutcome R)) (sink : Sink)
    (triggerKind : SchedulerTriggerKind) : Except (ScheduleRunError R) (List Receipt) :=
  match sinks sink.kind with
  | none => .error (.sinkKindNotRegistered sink.kind)
  | some adapter =>
    if !adapter.capabilities.safeForUnattended then .error (.sinkNotSafeForUnattended sink.id)
    else match generate triggerKind with
      | .error e => .error (.generateJoinError e)
      | .ok outcome =>
        if outcome.status ≠ .completed then
          .error (.generateDidNotComplete outcome.status outcome.cancelReason)
        else match outcome.draftId with
          | none => .error (.generateDidNotComplete outcome.status none)
          | some draftId => match saveReport getDraft sinks draftId sink with
            | .error e => .error (.save e)
            | .ok receipts => .ok receipts

/-! ### The state of a tick -/

def RECENT_RUNS_LOOKBACK_LIMIT : ℕ := 2000

/-- The rows that started last, latest first. -/
def listRecent (limit : ℕ) (rows : List (SyncRun R P)) : List (SyncRun R P) :=
  (rows.mergeSort fun a b => decide (b.startedAt ≤ a.startedAt)).take limit

def schedulerRow (run : SyncRun R P) : SchedulerRunRow R := ⟨run.status, run.trigger, run.startedAt⟩

def reportFilenameForDate (chrono : Chrono) (date : NaiveDate) : Text :=
  "Dayseam ".toList ++ chrono.display date ++ ".md".toList

/-- The date of a report file, by its name. -/
def dateFromReportFilename (chrono : Chrono) (name : Text) : Option NaiveDate :=
  if Text.byteLen name ≠ Text.byteLen "Dayseam YYYY-MM-DD.md".toList then none
  else do
    let withoutPrefix ← "Dayseam ".toList.isPrefixOf? name
    let withoutSuffix ← ".md".toList.isSuffixOf? withoutPrefix
    match chrono.parseFromStr withoutSuffix with
    | .error _ => none
    | .ok date => if reportFilenameForDate chrono date = name then some date else none

/-- The names of the files in the directories of the sinks; an unreadable
directory is skipped. -/
def sinkFiles (readDir : Text → Option (List Text)) (sinks : List Sink) : List Text :=
  sinks.flatMap fun sink => sink.config.destDirs.flatMap fun dir => (readDir dir).getD []

/-- The state with the date of one more report file. -/
def ScheduleState.addReport (chrono : Chrono) (state : ScheduleState) (name : Text) :
    ScheduleState :=
  match dateFromReportFilename chrono name with
  | none => state
  | some date => match state.satisfied date with
    | some _ => state
    | none => state.satisfy date .inDay

def augmentWithSinkFiles (chrono : Chrono) (names : List Text) (state : ScheduleState) :
    ScheduleState :=
  names.foldl (ScheduleState.addReport chrono) state

/-- What a tick reads: the stored rows, the configured sinks and their
directories, and the session. -/
structure TickInput (R P : Type) where
  rows : List (SyncRun R P)
  sinks : List Sink
  readDir : Text → Option (List Text)
  skipped : Finset NaiveDate
  userRunInFlight : Bool

def TickInput.recentRows (input : TickInput R P) : List (SyncRun R P) :=
  listRecent RECENT_RUNS_LOOKBACK_LIMIT input.rows

def buildScheduleState (chrono : Chrono) (localOffset : FixedOffset) (input : TickInput R P) :
    ScheduleState :=
  let state := ScheduleState.fromSyncRuns (input.recentRows.map schedulerRow) localOffset
  (augmentWithSinkFiles chrono (sinkFiles input.readDir input.sinks) state).inSession
    input.skipped input.userRunInFlight

theorem satisfied_addReport (chrono : Chrono) (state : ScheduleState) (name : Text)
    (d : NaiveDate) : (state.addReport chrono name).satisfied d ≠ none ↔
      state.satisfied d ≠ none ∨ dateFromReportFilename chrono name = some d := by
  cases hname : dateFromReportFilename chrono name with
  | none => simp [ScheduleState.addReport, hname]
  | some date =>
    cases hdate : state.satisfied date with
    | some kind =>
      -- the date is there already
      simp only [ScheduleState.addReport, hname, hdate, Option.some.injEq]
      refine ⟨Or.inl, ?_⟩
      rintro (h | rfl)
      · exact h
      · rw [hdate]
        simp
    | none =>
      simp only [ScheduleState.addReport, hname, hdate, Option.some.injEq]
      exact ScheduleState.satisfied_satisfy state

theorem satisfied_augmentWithSinkFiles (chrono : Chrono) (names : List Text)
    (state : ScheduleState) (d : NaiveDate) :
    (augmentWithSinkFiles chrono names state).satisfied d ≠ none ↔
      state.satisfied d ≠ none ∨ ∃ name ∈ names, dateFromReportFilename chrono name = some d := by
  induction names generalizing state with
  | nil => simp [augmentWithSinkFiles]
  | cons name names ih =>
    have hstep := satisfied_addReport chrono state name d
    simp only [augmentWithSinkFiles, List.foldl_cons] at ih ⊢
    rw [ih, hstep, or_assoc]
    simp only [List.exists_mem_cons_iff]

/-- The days that a tick takes for satisfied. -/
theorem satisfied_buildScheduleState (chrono : Chrono) (localOffset : FixedOffset)
    (input : TickInput R P) (d : NaiveDate) :
    (buildScheduleState chrono localOffset input).satisfied d ≠ none ↔
      (∃ run ∈ input.recentRows, (schedulerRow run).Credits localOffset d) ∨
        ∃ name ∈ sinkFiles input.readDir input.sinks,
          dateFromReportFilename chrono name = some d := by
  rw [buildScheduleState, ScheduleState.satisfied_inSession, satisfied_augmentWithSinkFiles,
    ScheduleState.satisfied_fromSyncRuns]
  simp only [List.mem_map, exists_exists_and_eq_and]

/-! ### A save that failed -/

/-- The day that a scheduled run which starts on a day is credited to. -/
def scheduledFor (kind : SchedulerTriggerKind) (startedLocal : NaiveDate) : NaiveDate :=
  match kind with
  | .inDay | .catchUp => startedLocal
  | .finalPass => startedLocal.addDays (-1)

/-- Run `r` was generated for a scheduled action whose save failed. -/
structure FailedSave [DecidableEq R] (s : State R P) (r : R) (kind : SchedulerTriggerKind) :
    Prop where
  reach : (machine R P).Reach (fun _ _ => True) s
  trigger : (s.runs r).trigger = .scheduler kind
  failed : ∃ (outcome : GenerateOutcome R) (Receipt : Type)
    (getDraft : Uuid → Except Text (Option ReportDraft)) (sinks : SinkRegistry Receipt)
    (sink : Sink) (e : DayseamError), (s.runs r).outcome = some outcome ∧
      runScheduledAction getDraft sinks (fun _ => .ok outcome) sink kind = .error (.save e)

/-- The rows that a tick reads are those that the run left, and nothing else has
satisfied the day. -/
structure OnlyRun (chrono : Chrono) (s : State R P) (r : R) (now : DateTime)
    (input : TickInput R P) (date : NaiveDate) : Prop where
  rows : ∀ run, run.id = r → (run ∈ input.rows ↔ s.rows r = some run)
  others : ∀ run ∈ input.rows, run.id ≠ r → ¬ (schedulerRow run).Credits now.offset date
  files : ∀ name ∈ sinkFiles input.readDir input.sinks,
    dateFromReportFilename chrono name ≠ some date
  idle : input.userRunInFlight = false

/-- The tick does not take the day for satisfied, and plans it again in its
window. -/
structure Retried (now : DateTime) (state : ScheduleState) (date : NaiveDate) : Prop where
  unsatisfied : state.satisfied date = none
  runToday : ∀ cfg, now.dateNaive = date → InWindow now cfg →
    .runToday date ∈ planNextActions now cfg state
  finalPass : ∀ cfg, now.dateNaive.addDays (-1) = date → cfg.enabled = true →
    date.weekday ∈ cfg.daysOfWeek → .finalPassYesterday date ∈ planNextActions now cfg state

theorem retried_iff {now : DateTime} {state : ScheduleState} {date : NaiveDate}
    (hidle : state.userRunInFlight = false) :
    Retried now state date ↔ state.satisfied date = none := by
  refine ⟨Retried.unsatisfied, fun hsat => ⟨hsat, ?_, ?_⟩⟩
  · intro cfg hdate hwindow
    exact runToday_mem.mpr ⟨hdate, hwindow, hidle, hsat⟩
  · intro cfg hdate hen hday
    exact finalPassYesterday_mem.mpr ⟨hdate, hen, hday, hidle, by rw [hsat]; simp⟩

theorem mem_of_mem_recentRows {input : TickInput R P} {run : SyncRun R P}
    (h : run ∈ input.recentRows) : run ∈ input.rows :=
  List.mem_mergeSort.mp (List.mem_of_mem_take h)

/-- **When a day is planned again after its save failed**: exactly when the tick
does not read the row of the failed run as `Completed`, or that row is credited
to another day. -/
theorem save_failure_retried_iff [DecidableEq R] {chrono : Chrono} {s : State R P} {r : R}
    {kind : SchedulerTriggerKind} {now : DateTime} {input : TickInput R P} {date : NaiveDate}
    (hfailed : FailedSave s r kind) (honly : OnlyRun chrono s r now input date) :
    Retried now (buildScheduleState chrono now.offset input) date ↔
      ¬ ∃ run ∈ input.recentRows, run.id = r ∧ run.status = .completed ∧
        scheduledFor kind (localDate now.offset run.startedAt) = date := by
  rw [retried_iff honly.idle, ← not_iff_not, not_not, ← ne_eq, satisfied_buildScheduleState]
  have hcredit : ∀ run ∈ input.recentRows, run.id = r →
      ((schedulerRow run).credit now.offset).1 =
        scheduledFor kind (localDate now.offset run.startedAt) := by
    intro run hmem hid
    have hrow := (honly.rows run hid).mp (mem_of_mem_recentRows hmem)
    have htrigger := ((rowsInv_of_reach hfailed.reach).stored r run hrow).2
    rw [hfailed.trigger] at htrigger
    cases kind <;> simp [schedulerRow, SchedulerRunRow.credit, scheduledFor, htrigger]
  constructor
  · rintro (⟨run, hmem, hcr⟩ | ⟨name, hname, hdate⟩)
    · by_cases hid : run.id = r
      · exact ⟨run, hmem, hid, hcr.1, (hcredit run hmem hid) ▸ hcr.2⟩
      · exact absurd hcr (honly.others run (mem_of_mem_recentRows hmem) hid)
    · exact absurd hdate (honly.files name hname)
  · rintro ⟨run, hmem, hid, hst, hdate⟩
    exact Or.inl ⟨run, hmem, hst, by rw [hcredit run hmem hid]; exact hdate⟩

/-! ### One run whose save fails -/

/-- Run `0` runs to its end, all of it at the start of 1970-01-01. -/
def scheduledRun (kind : SchedulerTriggerKind) : List (Orchestrator.Action (Fin 2) Unit) :=
  .start 0 (.scheduler kind) :: steps 0 10

/-- The row that it leaves. -/
def completedRow (kind : SchedulerTriggerKind) : SyncRun (Fin 2) Unit :=
  ⟨0, 0, some 0, .scheduler kind, .completed, none, none, []⟩

def folderSink : Sink := ⟨0, .markdownFile, .markdownFile 1 ["/reports".toList] true⟩

/-- A sink whose folder is not writable. -/
def unwritable : SinkRegistry Unit := fun _ => some ⟨.LOCAL_ONLY, fun _ _ =>
  .error (.io "sink.fs.not_writable".toList none "permission denied".toList)⟩

def emptyDraft : ReportDraft := ⟨0, ⟨0⟩, [], [], [], [], false, 0⟩

theorem exists_failedSave (kind : SchedulerTriggerKind) :
    ∃ s : State (Fin 2) Unit, FailedSave s 0 kind ∧ s.rows 0 = some (completedRow kind) := by
  have hdone : (((machine (Fin 2) Unit).exec (machine (Fin 2) Unit).init (scheduledRun kind)).any
      fun s => (s.runs 0).trigger = .scheduler kind ∧
        (s.runs 0).outcome = some ⟨0, .completed, some 0, none⟩ ∧
        s.rows 0 = some (completedRow kind)) = true := by
    cases kind <;> decide +kernel
  obtain ⟨s, hs, hall⟩ := (Option.any_eq_true ..).mp hdone
  obtain ⟨htrigger, hout, hrow⟩ := of_decide_eq_true hall
  refine ⟨s, ⟨Machine.reach_of_exec (Machine.allowed_true _ _) hs, htrigger, ?_⟩, hrow⟩
  exact ⟨_, Unit, fun _ => .ok (some emptyDraft), unwritable, folderSink, _, hout, rfl⟩

/-- The tick at noon of 1970-01-01 that reads that row and no file. -/
def noonTick (kind : SchedulerTriggerKind) : TickInput (Fin 2) Unit :=
  ⟨[completedRow kind], [folderSink], fun _ => none, ∅, false⟩

def noon : DateTime := ⟨12 * 3600 * nanosPerSec, .utc⟩

theorem onlyRun_noonTick {s : State (Fin 2) Unit} {kind : SchedulerTriggerKind}
    (hrow : s.rows 0 = some (completedRow kind)) (date : NaiveDate) :
    OnlyRun .iso s 0 noon (noonTick kind) date where
  rows run _ := by
    rw [hrow, noonTick, List.mem_singleton, Option.some.injEq, eq_comm]
  others run hmem hid := by
    rw [noonTick, List.mem_singleton] at hmem
    exact absurd (by rw [hmem]; rfl) hid
  files name hname := by
    simp [noonTick, sinkFiles, folderSink, SinkConfig.destDirs] at hname
  idle := rfl

/-- A catch-up for an earlier day is planned again. -/
theorem failed_catch_up_retried :
    Retried noon (buildScheduleState .iso noon.offset (noonTick .catchUp)) ⟨-3⟩ := by
  obtain ⟨s, hfailed, hrow⟩ := exists_failedSave .catchUp
  refine (save_failure_retried_iff hfailed (onlyRun_noonTick hrow _)).mpr ?_
  rintro ⟨run, hmem, -, -, hdate⟩
  rw [List.mem_singleton.mp (mem_of_mem_recentRows hmem)] at hdate
  exact absurd hdate (by decide)

/-- **A run of today whose save failed** satisfies today. -/
theorem failed_save_not_retried :
    ¬ ∀ (s : State (Fin 2) Unit) (kind : SchedulerTriggerKind) (now : DateTime)
      (input : TickInput (Fin 2) Unit) (date : NaiveDate), FailedSave s 0 kind →
        OnlyRun .iso s 0 now input date →
          Retried now (buildScheduleState .iso now.offset input) date := by
  intro h
  obtain ⟨s, hfailed, hrow⟩ := exists_failedSave .inDay
  have hretried := h s .inDay noon (noonTick .inDay) ⟨0⟩ hfailed (onlyRun_noonTick hrow _)
  refine (satisfied_buildScheduleState ..).mpr (Or.inl ?_) hretried.unsatisfied
  exact ⟨completedRow .inDay, by simp [TickInput.recentRows, noonTick, listRecent,
    RECENT_RUNS_LOOKBACK_LIMIT], by decide⟩

end Schedule
end Dayseam
