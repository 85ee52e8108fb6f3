import Dayseam.Core.Types
import Mathlib

/-!
# The `sync_runs` table

The rows of the table and the state machine that the repository enforces on
them: a row starts `Running`, and one statement `UPDATE … WHERE id = ? AND
status = 'Running'` moves it to a terminal status.  Run ids and per-source
states are parameters.

## Main definitions

* `SyncRun` — a row.
* `SyncRunTable.transition` and the `mark` functions — the writes.
-/

namespace Dayseam

inductive SyncRunStatus
  | running
  | completed
  | cancelled
  | failed
  deriving DecidableEq, Repr

/-- Why a run was cancelled. -/
inductive SyncRunCancelReason (R : Type)
  | user
  | supersededBy (runId : R)
  deriving DecidableEq, Repr

/-- Which scheduler action produced a run. -/
inductive SchedulerTriggerKind
  | inDay
  | finalPass
  | catchUp
  deriving DecidableEq, Repr

/-- What started a run. -/
inductive SyncRunTrigger (R : Type)
  | user
  | retry (previousRunId : R)
  | scheduler (action : SchedulerTriggerKind)
  deriving DecidableEq, Repr

/-- A row; instants are in nanoseconds since the epoch. -/
structure SyncRun (R P : Type) where
  id : R
  startedAt : ℤ
  finishedAt : Option ℤ
  trigger : SyncRunTrigger R
  status : SyncRunStatus
  cancelReason : Option (SyncRunCancelReason R)
  supersededBy : Option R
  perSourceState : List P
  deriving DecidableEq, Repr

/-- The rows by their primary key. -/
abbrev SyncRunTable (R P : Type) := R → Option (SyncRun R P)

namespace SyncRunTable

variable {R P : Type} [DecidableEq R]

/-- The table with a new row; none when the row is refused. -/
def insert (t : SyncRunTable R P) (run : SyncRun R P) : Option (SyncRunTable R P) :=
  if run.status ≠ .running then none
  else if run.finishedAt.isSome then none
  else if (t run.id).isSome then none
  else some (Function.update t run.id (some run))

/-- The `Running → terminal` update; none when no row was touched. -/
def transition (t : SyncRunTable R P) (id : R) (toStatus : SyncRunStatus) (finishedAt : Option ℤ)
    (cancelReason : Option (SyncRunCancelReason R)) (supersededBy : Option R)
    (perSourceState : Option (List P)) : Option (SyncRunTable R P) :=
  match t id with
  | none => none
  | some run =>
    if run.status = .running then
      some (Function.update t id (some { run with
        status := toStatus
        finishedAt := finishedAt
        cancelReason := cancelReason
        supersededBy := supersededBy
        perSourceState := perSourceState.getD run.perSourceState }))
    else none

def markFinished (t : SyncRunTable R P) (id : R) (finishedAt : ℤ) (perSourceState : List P) :
    Option (SyncRunTable R P) :=
  t.transition id .completed (some finishedAt) none none (some perSourceState)

def markCancelled (t : SyncRunTable R P) (id : R) (finishedAt : ℤ)
    (reason : SyncRunCancelReason R) (perSourceState : List P) : Option (SyncRunTable R P) :=
  let supersededBy := match reason with
    | .supersededBy runId => some runId
    | .user => none
  t.transition id .cancelled (some finishedAt) (some reason) supersededBy (some perSourceState)

def markFailed (t : SyncRunTable R P) (id : R) (finishedAt : ℤ) (perSourceState : List P) :
    Option (SyncRunTable R P) :=
  t.transition id .failed (some finishedAt) none none (some perSourceState)

end SyncRunTable

end Dayseam
