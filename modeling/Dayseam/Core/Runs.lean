import Dayseam.Core.Sink
import Mathlib

/-!
# Sources and their runs

The identities that tell whose an event is, and the state of one source in a run.

## Main definitions

* `SourceIdentity` — an external id of a person.
* `SourceRunState`, `PerSourceState` — what came of a source in a run.
-/

namespace Dayseam

inductive SourceIdentityKind
  | gitEmail
  | gitLabUserId
  | gitLabUsername
  | gitHubLogin
  | gitHubUserId
  | atlassianAccountId
  | outlookUserObjectId
  | outlookUserPrincipalName
  deriving DecidableEq, Repr

structure SourceIdentity where
  id : Uuid
  personId : Uuid
  sourceId : Option Uuid
  kind : SourceIdentityKind
  externalActorId : Text
  deriving DecidableEq, Repr

inductive RunStatus
  | pending
  | running
  | succeeded
  | failed
  | skipped
  deriving DecidableEq, Repr

/-- What came of a source, for the report. -/
structure SourceRunState where
  status : RunStatus
  startedAt : ℤ
  finishedAt : Option ℤ
  fetchedCount : ℕ
  error : Option DayseamError
  deriving DecidableEq, Repr

/-- What came of a source, for the row of the run. -/
structure PerSourceState where
  sourceId : Uuid
  status : RunStatus
  startedAt : ℤ
  finishedAt : Option ℤ
  fetchedCount : ℕ
  error : Option DayseamError
  deriving DecidableEq, Repr

def DayseamError.code : DayseamError → Text
  | .auth code _ _ _ | .network code _ | .rateLimited code _ | .upstreamChanged code _
  | .invalidConfig code _ | .io code _ _ | .internal code _ | .cancelled code _
  | .unsupported code _ => code

def ORCHESTRATOR_RUN_FAILED : Text := "orchestrator.run.failed".toList

def INTERNAL_PROCESS_RESTARTED : Text := "internal.process_restarted".toList

def ORCHESTRATOR_RETENTION_SWEEP_FAILED : Text := "orchestrator.retention.sweep_failed".toList

end Dayseam
