import Dayseam.Db.SyncRunRepo
import Mathlib

/-!
# The startup sweep

A process that dies leaves its runs in the status `Running`.  Before it accepts
new runs, the next process moves every such row to `Failed` and marks its
unfinished sources as failed.

## Main definitions

* `remapPerSourceStateForRecovery`, `recovered` — what becomes of a row.
* `recoverRuns` — the loop over the rows, which stops at the first fault.
* `startup` — the whole sweep.

## Main results

* `startup_rows` — **a sweep that ends well maps every row.**
* `recovery_exact` — what is recovered, what is left alone, and the second sweep.
* `finished_row_keeps_running` — a running row that has an end.
-/

namespace Dayseam
namespace Orchestrator

open SyncRunRepo (isOpen listRunning)

/-! ### The code -/

/-- The source had come to an end. -/
def RunStatus.isTerminal : RunStatus → Bool
  | .pending | .running => false
  | .succeeded | .failed | .skipped => true

def recoveryError : DayseamError :=
  .internal INTERNAL_PROCESS_RESTARTED "process restarted before this source finished".toList

def remapPerSourceStateForRecovery (run : SyncRunRow) (finishedAt : ℤ) : List PerSourceState :=
  run.perSourceState.map fun state =>
    if RunStatus.isTerminal state.status then state
    else {
      sourceId := state.sourceId
      status := .failed
      startedAt := state.startedAt
      finishedAt := some finishedAt
      fetchedCount := state.fetchedCount
      error := some recoveryError }

structure SweepReport where
  rawPayloadsDeleted : ℕ
  logEntriesDeleted : ℕ
  deriving DecidableEq, Repr

structure StartupReport where
  retentionDefaultInstalled : Bool
  crashedRunsRecovered : ℕ
  retention : SweepReport
  deriving DecidableEq, Repr

/-- What the sweep meets: the clock, the calls to the database that fault, and the
result of the retention sweep, which is on other tables. -/
structure StartupIo where
  now : ℤ
  getSetting : Option DbError
  setSetting : Option DbError
  listRunning : Option DbError
  markFailed : Uuid → Option DbError
  retention : Except DayseamError SweepReport

/-- The setting `retention.days` and the rows of the runs. -/
@[ext] structure StartupDb where
  retentionDays : Option ℕ
  runs : SyncRunRows

def DEFAULT_RETENTION_DAYS : ℕ := 30

def settingError (what : Text) (err : DbError) : DayseamError :=
  .internal ORCHESTRATOR_RETENTION_SWEEP_FAILED
    ("failed to ".toList ++ what ++ " retention.days: ".toList ++ err.display)

def ensureDefaultRetentionDays (io : StartupIo) (db : StartupDb) :
    Except DayseamError Bool × StartupDb :=
  match io.getSetting with
  | some err => (.error (settingError "read".toList err), db)
  | none =>
    if db.retentionDays.isSome then (.ok false, db)
    else match io.setSetting with
      | some err => (.error (settingError "write default".toList err), db)
      | none => (.ok true, { db with retentionDays := some DEFAULT_RETENTION_DAYS })

/-- One row of the sweep. -/
def recoverRun (io : StartupIo) (run : SyncRunRow) (t : SyncRunRows) : Except DbError SyncRunRows :=
  match io.markFailed run.id with
  | some err => .error err
  | none => SyncRunRepo.markFailed t run.id io.now (remapPerSourceStateForRecovery run io.now)

/-- The loop over the listed rows. -/
def recoverRuns (io : StartupIo) : List SyncRunRow → SyncRunRows →
    Except DayseamError ℕ × SyncRunRows
  | [], t => (.ok 0, t)
  | run :: runs, t =>
    match recoverRun io run t with
    | .error err => (.error (.internal INTERNAL_PROCESS_RESTARTED
        ("failed to recover sync_run[".toList ++ run.id.display ++
          "] after unclean shutdown: ".toList ++ err.display)), t)
    | .ok t' =>
      let (result, t'') := recoverRuns io runs t'
      (result.map (· + 1), t'')

def recoverCrashedRuns (io : StartupIo) (t : SyncRunRows) : Except DayseamError ℕ × SyncRunRows :=
  match io.listRunning with
  | some err => (.error (.internal INTERNAL_PROCESS_RESTARTED
      ("failed to list running sync_runs: ".toList ++ err.display)), t)
  | none => recoverRuns io (listRunning t) t

def startup (io : StartupIo) (db : StartupDb) : Except DayseamError StartupReport × StartupDb :=
  match ensureDefaultRetentionDays io db with
  | (.error err, db') => (.error err, db')
  | (.ok installed, db') =>
    match recoverCrashedRuns io db'.runs with
    | (.error err, runs) => (.error err, { db' with runs := runs })
    | (.ok recovered, runs) =>
      match io.retention with
      | .error err => (.error err, { db' with runs := runs })
      | .ok retention => (.ok ⟨installed, recovered, retention⟩, { db' with runs := runs })

/-! ### What a sweep does to the rows -/

theorem isOpen_iff {run : SyncRunRow} :
    isOpen run = true ↔ run.status = .running ∧ run.finishedAt = none := by
  simp [isOpen]

/-- A row after its recovery. -/
def recovered (now : ℤ) (run : SyncRunRow) : SyncRunRow := { run with
  status := .failed
  finishedAt := some now
  cancelReason := none
  supersededBy := none
  perSourceState := remapPerSourceStateForRecovery run now }

@[simp] theorem recovered_id (now : ℤ) (run : SyncRunRow) : (recovered now run).id = run.id := rfl

@[simp] theorem isOpen_recovered (now : ℤ) (run : SyncRunRow) :
    isOpen (recovered now run) = false := rfl

variable {io io' : StartupIo} {t t' : SyncRunRows} {runs : List SyncRunRow} {run : SyncRunRow}
  {n : ℕ} {db db' : StartupDb} {report : StartupReport}

/-- One row is recovered, the others are not touched. -/
theorem recoverRun_eq_ok (hmem : run ∈ t.rows) (h : recoverRun io run t = .ok t') :
    t'.rows = t.rows.map fun r => if r.id = run.id then recovered io.now r else r := by
  unfold recoverRun at h
  split at h
  · cases h
  · rw [(SyncRunRepo.transition_eq_ok h).2]
    refine List.map_congr_left fun r hr => ?_
    by_cases hid : r.id = run.id
    · rw [if_pos hid, if_pos hid, SyncRunRepo.eq_of_id_eq hr hmem hid]
      rfl
    · rw [if_neg hid, if_neg hid]

theorem recoverRuns_cons_ok (h : recoverRun io run t = .ok t') :
    recoverRuns io (run :: runs) t =
      ((recoverRuns io runs t').1.map (· + 1), (recoverRuns io runs t').2) := by
  rw [recoverRuns, h]

theorem recoverRuns_cons_error {err : DbError} (h : recoverRun io run t = .error err) :
    (recoverRuns io (run :: runs) t).1 ≠ .ok n := by
  rw [recoverRuns, h]
  exact fun hc => by cases hc

/-- The rows that are left to do are not touched by a step. -/
theorem recoverRun_keeps (hmem : ∀ r ∈ run :: runs, r ∈ t.rows)
    (hn : ((run :: runs).map (·.id)).Nodup) (h : recoverRun io run t = .ok t') :
    ∀ r ∈ runs, r ∈ t'.rows := by
  intro r hr
  rw [recoverRun_eq_ok (hmem run List.mem_cons_self) h]
  refine List.mem_map.mpr ⟨r, hmem r (List.mem_cons_of_mem _ hr), if_neg ?_⟩
  intro hid
  refine (List.nodup_cons.mp hn).1 ?_
  show run.id ∈ _
  rw [← hid]
  exact List.mem_map_of_mem hr

/-- A loop that ends well recovers the listed rows. -/
theorem recoverRuns_eq_ok (hmem : ∀ run ∈ runs, run ∈ t.rows) (hn : (runs.map (·.id)).Nodup)
    (h : recoverRuns io runs t = (.ok n, t')) : n = runs.length ∧
      t'.rows = t.rows.map fun r => if r.id ∈ runs.map (·.id) then recovered io.now r else r := by
  induction runs generalizing t n with
  | nil =>
    cases h
    simp
  | cons run runs ih =>
    cases hone : recoverRun io run t with
    | error err => exact absurd (congrArg Prod.fst h) (recoverRuns_cons_error hone)
    | ok t₁ =>
      rw [recoverRuns_cons_ok hone] at h
      obtain ⟨hresult, hrows⟩ := Prod.mk.inj h
      have ht₁ := recoverRun_eq_ok (hmem run List.mem_cons_self) hone
      have hmem₁ := recoverRun_keeps hmem hn hone
      obtain ⟨hnot, hn⟩ := List.nodup_cons.mp hn
      cases hk : (recoverRuns io runs t₁).1 with
      | error err => rw [hk] at hresult; cases hresult
      | ok k =>
        rw [hk] at hresult
        obtain ⟨hlen, hrest⟩ := ih hmem₁ hn (Prod.ext hk hrows)
        refine ⟨?_, ?_⟩
        · rw [List.length_cons, ← hlen]
          exact (Except.ok.inj hresult).symm
        · rw [hrest, ht₁, List.map_map]
          refine List.map_congr_left fun r _ => ?_
          rw [Function.comp_apply, List.map_cons]
          by_cases hid : r.id = run.id
          · rw [if_pos hid, recovered_id, hid, if_neg hnot, if_pos List.mem_cons_self]
          · rw [if_neg hid]
            simp [hid]

/-- Without faults the loop ends well. -/
theorem exists_recoverRuns (hio : ∀ id, io.markFailed id = none)
    (hmem : ∀ run ∈ runs, run ∈ t.rows) (hst : ∀ run ∈ runs, run.status = .running)
    (hn : (runs.map (·.id)).Nodup) : ∃ n t', recoverRuns io runs t = (.ok n, t') := by
  induction runs generalizing t with
  | nil => exact ⟨0, t, rfl⟩
  | cons run runs ih =>
    obtain ⟨t₁, hmove⟩ := @SyncRunRepo.exists_transition t run .failed (some io.now) none
      (some (remapPerSourceStateForRecovery run io.now)) (hmem run List.mem_cons_self)
      (hst run List.mem_cons_self)
    have hone : recoverRun io run t = .ok t₁ := by
      rw [recoverRun, hio]
      exact hmove
    obtain ⟨n, t₂, hrest⟩ := ih (recoverRun_keeps hmem hn hone)
      (fun r hr => hst r (List.mem_cons_of_mem _ hr)) (List.nodup_cons.mp hn).2
    refine ⟨n + 1, t₂, ?_⟩
    rw [recoverRuns_cons_ok hone, hrest]
    rfl

/-- What a sweep makes of a row. -/
def sweptRow (now : ℤ) (run : SyncRunRow) : SyncRunRow :=
  if isOpen run then recovered now run else run

theorem recoverCrashedRuns_eq_ok (h : recoverCrashedRuns io t = (.ok n, t')) :
    n = (t.rows.filter isOpen).length ∧ t'.rows = t.rows.map (sweptRow io.now) := by
  unfold recoverCrashedRuns at h
  split at h
  · cases h
  · obtain ⟨hlen, hrows⟩ := recoverRuns_eq_ok
      (fun run hrun => (SyncRunRepo.mem_listRunning_iff.mp hrun).1)
      (SyncRunRepo.listRunning_nodup t) h
    refine ⟨?_, ?_⟩
    · rw [hlen, listRunning, List.length_mergeSort]
    · rw [hrows]
      refine List.map_congr_left fun r hr => ?_
      -- a row is listed when it is open, since its key is its own
      have hiff : r.id ∈ (listRunning t).map (·.id) ↔ isOpen r = true := by
        constructor
        · intro hid
          obtain ⟨r', hr', hid⟩ := List.mem_map.mp hid
          obtain ⟨hmem, hopen⟩ := SyncRunRepo.mem_listRunning_iff.mp hr'
          rw [SyncRunRepo.eq_of_id_eq hr hmem hid.symm]
          exact hopen
        · intro hopen
          exact List.mem_map_of_mem (SyncRunRepo.mem_listRunning_iff.mpr ⟨hr, hopen⟩)
      rw [sweptRow, if_congr hiff rfl rfl]

theorem ensureDefaultRetentionDays_runs (io : StartupIo) (db : StartupDb) :
    (ensureDefaultRetentionDays io db).2.runs = db.runs := by
  unfold ensureDefaultRetentionDays
  split
  · rfl
  · split
    · rfl
    · split <;> rfl

/-- The setting is there after a sweep that ends well. -/
theorem ensureDefaultRetentionDays_eq_ok {installed : Bool}
    (h : ensureDefaultRetentionDays io db = (.ok installed, db')) :
    db'.retentionDays.isSome = true ∧
      (db.retentionDays.isSome = true → db' = db ∧ installed = false) := by
  unfold ensureDefaultRetentionDays at h
  split at h
  · cases h
  · split at h
    · next hsome =>
      obtain ⟨hi, rfl⟩ := Prod.mk.inj h
      exact ⟨hsome, fun _ => ⟨rfl, (Except.ok.inj hi).symm⟩⟩
    · next hnone =>
      split at h
      · cases h
      · obtain ⟨-, rfl⟩ := Prod.mk.inj h
        exact ⟨rfl, fun hsome => absurd hsome hnone⟩

/-- The parts of a sweep that ends well. -/
theorem startup_eq_ok (h : startup io db = (.ok report, db')) :
    ∃ db₁, ensureDefaultRetentionDays io db = (.ok report.retentionDefaultInstalled, db₁) ∧
      recoverCrashedRuns io db₁.runs = (.ok report.crashedRunsRecovered, db'.runs) ∧
        db'.retentionDays = db₁.retentionDays := by
  unfold startup at h
  split at h
  · cases h
  · next installed db₁ hensure =>
    split at h
    · cases h
    · next k runs hrecover =>
      split at h
      · cases h
      · obtain ⟨hreport, rfl⟩ := Prod.mk.inj h
        obtain rfl := Except.ok.inj hreport
        exact ⟨db₁, hensure, hrecover, rfl⟩

/-- **A sweep that ends well maps every row.** -/
theorem startup_rows (h : startup io db = (.ok report, db')) :
    report.crashedRunsRecovered = (db.runs.rows.filter isOpen).length ∧
      db'.runs.rows = db.runs.rows.map (sweptRow io.now) := by
  obtain ⟨db₁, hensure, hrecover, -⟩ := startup_eq_ok h
  have hruns := ensureDefaultRetentionDays_runs io db
  rw [hensure] at hruns
  rw [show db₁.runs = db.runs from hruns] at hrecover
  exact recoverCrashedRuns_eq_ok hrecover

/-- The database does not fault. -/
structure StartupIo.Quiet (io : StartupIo) : Prop where
  getSetting : io.getSetting = none
  setSetting : io.setSetting = none
  listRunning : io.listRunning = none
  markFailed : ∀ id, io.markFailed id = none
  retention : ∃ report, io.retention = .ok report

/-- Without faults the sweep ends well, whatever the rows are. -/
theorem exists_startup (hio : io.Quiet) (db : StartupDb) :
    ∃ report db', startup io db = (.ok report, db') := by
  have hensure : ∃ installed db₁, ensureDefaultRetentionDays io db = (.ok installed, db₁) := by
    rw [ensureDefaultRetentionDays, hio.getSetting, hio.setSetting]
    dsimp only
    split
    · exact ⟨_, _, rfl⟩
    · exact ⟨_, _, rfl⟩
  obtain ⟨installed, db₁, hensure⟩ := hensure
  obtain ⟨n, t, hrecover⟩ := @exists_recoverRuns io db₁.runs (listRunning db₁.runs) hio.markFailed
    (fun run hrun => (SyncRunRepo.mem_listRunning_iff.mp hrun).1)
    (fun run hrun => (isOpen_iff.mp (SyncRunRepo.mem_listRunning_iff.mp hrun).2).1)
    (SyncRunRepo.listRunning_nodup _)
  obtain ⟨retention, hretention⟩ := hio.retention
  refine ⟨⟨installed, n, retention⟩, { db₁ with runs := t }, ?_⟩
  rw [startup, hensure]
  dsimp only
  rw [recoverCrashedRuns, hio.listRunning]
  dsimp only
  rw [hrecover, hretention]

/-! ### Exact recovery -/

/-- What a sweep makes of a source: one that had come to an end is kept, any other
one failed with the recovery code. -/
structure SourceRecovered (old new : PerSourceState) : Prop where
  kept : RunStatus.isTerminal old.status = true → new = old
  failed : RunStatus.isTerminal old.status = false → new.status = .failed ∧
    new.error.map DayseamError.code = some INTERNAL_PROCESS_RESTARTED ∧
      new.sourceId = old.sourceId ∧ new.fetchedCount = old.fetchedCount

theorem remap_sources (run : SyncRunRow) (now : ℤ) :
    List.Forall₂ SourceRecovered run.perSourceState (remapPerSourceStateForRecovery run now) := by
  refine List.forall₂_map_right_iff.mpr (List.forall₂_same.mpr fun state _ => ⟨?_, ?_⟩)
  · intro hterm
    exact if_pos hterm
  · intro hterm
    rw [if_neg (by simp [hterm])]
    exact ⟨rfl, rfl, rfl, rfl⟩

theorem isOpen_sweptRow (now : ℤ) (run : SyncRunRow) : isOpen (sweptRow now run) = false := by
  unfold sweptRow
  split
  · rfl
  · next h => simpa using h

theorem sweptRow_of_not_open {now : ℤ} (h : isOpen run = false) : sweptRow now run = run :=
  if_neg (by simp [h])

@[simp] theorem sweptRow_id (now : ℤ) (run : SyncRunRow) : (sweptRow now run).id = run.id := by
  unfold sweptRow
  split <;> rfl

/-- A second sweep changes nothing. -/
theorem startup_again (h : startup io db = (.ok report, db')) {report' : StartupReport}
    {db'' : StartupDb} (h' : startup io' db' = (.ok report', db'')) :
    db'' = db' ∧ report'.crashedRunsRecovered = 0 := by
  obtain ⟨-, hrows⟩ := startup_rows h
  obtain ⟨hcount, hrows'⟩ := startup_rows h'
  have hclosed : ∀ run ∈ db'.runs.rows, isOpen run = false := by
    rw [hrows]
    intro run hrun
    obtain ⟨run', -, rfl⟩ := List.mem_map.mp hrun
    exact isOpen_sweptRow io.now run'
  have hsame : db''.runs = db'.runs := by
    apply SyncRunRows.ext
    rw [hrows']
    exact (List.map_congr_left fun run hrun => sweptRow_of_not_open (hclosed run hrun)).trans
      (List.map_id' _)
  obtain ⟨db₁, hensure, -, hdays⟩ := startup_eq_ok h
  obtain ⟨db₁', hensure', -, hdays'⟩ := startup_eq_ok h'
  have hsome : db'.retentionDays.isSome = true := by
    rw [hdays]
    exact (ensureDefaultRetentionDays_eq_ok hensure).1
  obtain ⟨rfl, -⟩ := (ensureDefaultRetentionDays_eq_ok hensure').2 hsome
  refine ⟨StartupDb.ext hdays' hsame, ?_⟩
  rw [hcount, List.length_eq_zero_iff, List.filter_eq_nil_iff]
  intro run hrun
  simp [hclosed run hrun]

/-- **Recovery is exact**: no row is left open, every other row is unchanged, a
recovered row failed and so did its unfinished sources, and a second sweep changes
nothing. -/
theorem recovery_exact (h : startup io db = (.ok report, db')) :
    (∀ run ∈ db'.runs.rows, ¬(run.status = .running ∧ run.finishedAt = none)) ∧
      ((∀ run ∈ db.runs.rows, run.status = .running → run.finishedAt = none) →
        ∀ run ∈ db'.runs.rows, run.status ≠ .running) ∧
      (∀ run ∈ db.runs.rows, ¬(run.status = .running ∧ run.finishedAt = none) →
        run ∈ db'.runs.rows) ∧
      (∀ run ∈ db.runs.rows, run.status = .running → run.finishedAt = none →
        ∃ run' ∈ db'.runs.rows, run'.id = run.id ∧ run'.status = .failed ∧
          List.Forall₂ SourceRecovered run.perSourceState run'.perSourceState) ∧
      db'.runs.ids = db.runs.ids ∧
      ∀ io' report' db'', startup io' db' = (.ok report', db'') →
        db'' = db' ∧ report'.crashedRunsRecovered = 0 := by
  obtain ⟨-, hrows⟩ := startup_rows h
  have hclosed : ∀ run ∈ db'.runs.rows, ¬(run.status = .running ∧ run.finishedAt = none) := by
    rw [hrows]
    intro run hrun hopen
    obtain ⟨run', -, rfl⟩ := List.mem_map.mp hrun
    have hfalse := isOpen_sweptRow io.now run'
    rw [isOpen_iff.mpr hopen] at hfalse
    cases hfalse
  have hkept : ∀ run ∈ db.runs.rows, ¬(run.status = .running ∧ run.finishedAt = none) →
      run ∈ db'.runs.rows := by
    intro run hrun hclosed
    rw [hrows, ← @sweptRow_of_not_open run io.now]
    · exact List.mem_map_of_mem hrun
    · rw [← Bool.not_eq_true, isOpen_iff]
      exact hclosed
  refine ⟨hclosed, ?_, hkept, ?_, ?_, fun io' report' db'' h' => startup_again h h'⟩
  · intro hend run hrun hst
    -- a row that is still running was not swept, so it had no end before either
    rw [hrows] at hrun
    obtain ⟨run', hrun', rfl⟩ := List.mem_map.mp hrun
    cases hopen : isOpen run' with
    | true =>
      rw [sweptRow, if_pos hopen] at hst
      cases hst
    | false =>
      rw [sweptRow_of_not_open hopen] at hst
      rw [isOpen_iff.mpr ⟨hst, hend run' hrun' hst⟩] at hopen
      cases hopen
  · intro run hrun hst hfin
    refine ⟨recovered io.now run, ?_, rfl, rfl, remap_sources run io.now⟩
    rw [hrows]
    exact List.mem_map.mpr ⟨run, hrun, if_pos (isOpen_iff.mpr ⟨hst, hfin⟩)⟩
  · rw [SyncRunRows.ids, hrows, List.map_map]
    exact List.map_congr_left fun run _ => sweptRow_id io.now run

/-! ### Two rows -/

/-- A database without faults. -/
def quietIo : StartupIo := ⟨1, none, none, none, fun _ => none, .ok ⟨0, 0⟩⟩

/-- A row that was running when the process died, with a source that had come to an
end and one that had not. -/
def crashedRow : SyncRunRow where
  id := 1
  startedAt := 0
  finishedAt := none
  trigger := .user
  status := .running
  cancelReason := none
  supersededBy := none
  perSourceState := [⟨1, .succeeded, 0, some 0, 3, none⟩, ⟨2, .running, 0, none, 0, none⟩]

def oneRow (run : SyncRunRow) : StartupDb := ⟨none, [run], List.nodup_singleton _⟩

theorem quietIo_quiet : quietIo.Quiet := ⟨rfl, rfl, rfl, fun _ => rfl, ⟨_, rfl⟩⟩

theorem crashedRow_recovered : ∃ report db', startup quietIo (oneRow crashedRow) =
    (.ok report, db') ∧ ∀ run ∈ db'.runs.rows, run.status ≠ .running := by
  obtain ⟨report, db', h⟩ := exists_startup quietIo_quiet (oneRow crashedRow)
  refine ⟨report, db', h, (recovery_exact h).2.1 ?_⟩
  intro run hrun _
  rw [List.mem_singleton.mp hrun]
  rfl

/-- **A running row that has an end** is not taken for a crashed one. -/
theorem finished_row_keeps_running : ∃ report db',
    startup quietIo (oneRow { crashedRow with finishedAt := some 0 }) = (.ok report, db') ∧
      ∃ run ∈ db'.runs.rows, run.status = .running := by
  obtain ⟨report, db', h⟩ := exists_startup quietIo_quiet
    (oneRow { crashedRow with finishedAt := some 0 })
  refine ⟨report, db', h, { crashedRow with finishedAt := some 0 }, ?_, rfl⟩
  rw [(startup_rows h).2]
  exact List.mem_singleton_self _

end Orchestrator
end Dayseam
