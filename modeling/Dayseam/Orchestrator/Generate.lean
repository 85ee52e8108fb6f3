import Dayseam.Lib.Machine
import Dayseam.Db.SyncRuns
import Mathlib

/-!
# Report runs for one in-flight key

The runs of `generate_report` for one person, date and template, as a machine.
A run takes one step at a time between two points where other runs can act: a
lock of the in-flight map, a fired token, one database statement.  Any number of
runs, user cancels and supersedes are interleaved in any order; every database
statement may fail.

## Main definitions

* `Phase` — what a run does next.
* `State` — the in-flight entry of the key, the stored rows and drafts, and the
  runs.
* `advance` — the next step of a run.
* `machine` — the runs of one key.
-/

namespace Dayseam
namespace Orchestrator

/-- What the caller of a run is told. -/
structure GenerateOutcome (R : Type) where
  runId : R
  status : SyncRunStatus
  draftId : Option Uuid
  cancelReason : Option (SyncRunCancelReason R)
  deriving DecidableEq, Repr

/-- What a run does next. -/
inductive Phase (R : Type)
  /-- not started -/
  | idle
  /-- fire the token of the entry that was swapped out -/
  | firing
  /-- insert the `sync_runs` row -/
  | inserting
  /-- drain the in-flight entry after a failed insert -/
  | draining
  /-- mark the prior run superseded -/
  | marking
  /-- finish the fan-out and check for cancellation -/
  | fetching
  /-- look for a newer run after a cancellation -/
  | lookingUp
  /-- write the cancelled row unless a newer run was found -/
  | cancelling (supersededBy : Option R)
  /-- store the events -/
  | storing
  /-- render the draft -/
  | rendering
  /-- look for a newer run before the draft is stored -/
  | guarding (draftId : Uuid)
  /-- insert the draft -/
  | drafting (draftId : Uuid)
  /-- write the completed row -/
  | finishing (draftId : Uuid)
  /-- write the failed row -/
  | failing
  /-- drop the own in-flight entry and return the outcome -/
  | dropping (outcome : GenerateOutcome R)
  /-- returned -/
  | done
  deriving DecidableEq, Repr

/-- A run: its program point, the run that it swapped out of the in-flight map,
its cancellation token and what it returned. -/
structure RunState (R : Type) where
  phase : Phase R
  trigger : SyncRunTrigger R
  prior : Option R
  cancelled : Bool
  outcome : Option (GenerateOutcome R)
  deriving DecidableEq, Repr

/-- What happened, for the statements about runs; no step reads it. -/
inductive Event (R : Type)
  | swapped (runId : R)
  | superseded (runId newRunId : R)
  | drafted (runId : R)
  deriving DecidableEq, Repr

/-- The state of one key.  The in-flight map holds at most one entry for it: the
run id, with the token of that run. -/
structure State (R P : Type) where
  inFlight : Option R
  rows : SyncRunTable R P
  drafts : List (Uuid × R)
  runs : R → RunState R
  history : List (Event R)

/-- What the world answers to one step: whether its database call or the render
succeeds, the clock, a fresh draft id, and the per-source states. -/
structure Io (P : Type) where
  ok : Bool
  now : ℤ
  draftId : Uuid
  perSource : List P
  deriving DecidableEq, Repr

inductive Action (R P : Type)
  /-- `start_with_trigger` swaps the in-flight entry -/
  | start (runId : R) (trigger : SyncRunTrigger R)
  /-- the next step of a run -/
  | advance (runId : R) (io : Io P)
  /-- `Orchestrator::cancel` -/
  | cancel (runId : R)
  /-- the caller fires the token of a handle that it holds -/
  | cancelHandle (runId : R)
  deriving DecidableEq, Repr

section
variable {R P : Type} [DecidableEq R]

/-! ### Parts of a step -/

namespace State
variable (s : State R P)

def goto (r : R) (phase : Phase R) : State R P :=
  { s with runs := Function.update s.runs r { s.runs r with phase := phase } }

/-- Fire the token of a run. -/
def fire (r : R) : State R P :=
  { s with runs := Function.update s.runs r { s.runs r with cancelled := true } }

/-- Resolve the completion of a run. -/
def resolve (r : R) (outcome : GenerateOutcome R) : State R P :=
  { s with
    runs := Function.update s.runs r
      { s.runs r with phase := .done, outcome := some outcome } }

def withInFlight (entry : Option R) : State R P := { s with inFlight := entry }

/-- The rows after a write; a rejected or failed one is only logged. -/
def withRows (rows : Option (SyncRunTable R P)) : State R P :=
  { s with rows := rows.getD s.rows }

def record (e : Event R) : State R P := { s with history := e :: s.history }

end State

/-! ### The steps of the source -/

/-- The run that replaced `myRunId` in the in-flight map, if one did. -/
def supersededByNow (s : State R P) (myRunId : R) : Option R :=
  match s.inFlight with
  | some r => if r ≠ myRunId then some r else none
  | none => none

def dropInFlightIfOurs (s : State R P) (runId : R) : State R P :=
  if s.inFlight = some runId then s.withInFlight none else s

/-- `Running` row of a run that starts now. -/
def startedRow (run : RunState R) (runId : R) (now : ℤ) : SyncRun R P :=
  ⟨runId, now, none, run.trigger, .running, none, none, []⟩

def markPriorSuperseded (s : State R P) (priorRunId newRunId : R) (io : Io P) : State R P :=
  if io.ok then
    match s.rows.markCancelled priorRunId io.now (.supersededBy newRunId) [] with
    | some rows => (s.withRows (some rows)).record (.superseded priorRunId newRunId)
    | none => s
  else s

/-- The swap of the in-flight entry that starts a run. -/
def start (s : State R P) (r : R) (trigger : SyncRunTrigger R) : Option (State R P) :=
  match (s.runs r).phase with
  | .idle => some (({ s with
      inFlight := some r
      runs := Function.update s.runs r ⟨.firing, trigger, s.inFlight, false, none⟩ }).record
        (.swapped r))
  | _ => none

/-- What a cancelled run tells its caller. -/
def cancelledOutcome (r : R) (supersededBy : Option R) : GenerateOutcome R :=
  ⟨r, .cancelled, none, some (match supersededBy with
    | some q => .supersededBy q
    | none => .user)⟩

/-- The next step of a run. -/
def advance (s : State R P) (r : R) (io : Io P) : Option (State R P) :=
  match (s.runs r).phase with
  | .idle => none
  | .firing => match (s.runs r).prior with
    | some p => some ((s.fire p).goto r .inserting)
    | none => some (s.goto r .inserting)
  | .inserting =>
    match (if io.ok then s.rows.insert (startedRow (s.runs r) r io.now) else none) with
    | some rows => some ((s.withRows (some rows)).goto r .marking)
    | none => some (s.goto r .draining)
  -- `in_flight.remove(&key)`, whoever's entry it is
  | .draining => some ((s.withInFlight none).resolve r ⟨r, .failed, none, none⟩)
  | .marking => match (s.runs r).prior with
    | some p => some ((markPriorSuperseded s p r io).goto r .fetching)
    | none => some (s.goto r .fetching)
  | .fetching =>
    if (s.runs r).cancelled then some (s.goto r .lookingUp) else some (s.goto r .storing)
  | .lookingUp => some (s.goto r (.cancelling (supersededByNow s r)))
  -- the row is left to the newer run if there is one
  | .cancelling (some q) => some (s.goto r (.dropping (cancelledOutcome r (some q))))
  | .cancelling none =>
    some ((s.withRows (if io.ok then s.rows.markCancelled r io.now .user io.perSource else none)).goto
      r (.dropping (cancelledOutcome r none)))
  | .storing => some (s.goto r (if io.ok then .rendering else .failing))
  | .rendering => some (s.goto r (if io.ok then .guarding io.draftId else .failing))
  | .guarding d => match supersededByNow s r with
    | some q => some (s.resolve r (cancelledOutcome r (some q)))
    | none => some (s.goto r (.drafting d))
  | .drafting d =>
    if io.ok then
      some ((({ s with drafts := (d, r) :: s.drafts }).record (.drafted r)).goto r (.finishing d))
    else some (s.goto r .failing)
  -- a rejected write is logged, and the outcome is `Completed` all the same
  | .finishing d =>
    some ((s.withRows (if io.ok then s.rows.markFinished r io.now io.perSource else none)).goto
      r (.dropping ⟨r, .completed, some d, none⟩))
  | .failing =>
    some ((s.withRows (if io.ok then s.rows.markFailed r io.now io.perSource else none)).goto
      r (.dropping ⟨r, .failed, none, none⟩))
  | .dropping o => some ((dropInFlightIfOurs s r).resolve r o)
  | .done => none

/-- The handle of a run has been returned to its caller. -/
def handedOut (s : State R P) (r : R) : Bool :=
  match (s.runs r).phase with
  | .idle | .firing | .inserting | .draining | .marking => false
  | _ => true

/-- `Orchestrator::cancel`: whether the run was found, and its token fired. -/
def cancel (s : State R P) (r : R) : State R P × Bool :=
  if s.inFlight = some r then (s.fire r, true) else (s, false)

def step (s : State R P) : Action R P → Option (State R P)
  | .start r trigger => start s r trigger
  | .advance r io => advance s r io
  | .cancel r => some (cancel s r).1
  | .cancelHandle r => if handedOut s r then some (s.fire r) else none

/-- The runs of one key, from an empty in-flight map. -/
def machine (R P : Type) [DecidableEq R] : Machine (State R P) (Action R P) where
  init := ⟨none, fun _ => none, [], fun _ => ⟨.idle, .user, none, false, none⟩, []⟩
  step := step

end

end Orchestrator
end Dayseam
