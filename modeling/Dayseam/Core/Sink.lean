import Dayseam.Core.Types
import Mathlib

/-!
# Errors and sinks

The error type at the public boundary of the crates, and the sinks that a report
is saved to.

## Main definitions

* `DayseamError` — an error with a stable code.
* `Sink`, `SinkAdapter` — a configured sink, and what writes to its kind.
-/

namespace Dayseam

inductive DayseamError
  | auth (code message : Text) (retryable : Bool) (actionHint : Option Text)
  | network (code message : Text)
  | rateLimited (code : Text) (retryAfterSecs : ℕ)
  | upstreamChanged (code message : Text)
  | invalidConfig (code message : Text)
  | io (code : Text) (path : Option Text) (message : Text)
  | internal (code message : Text)
  | cancelled (code message : Text)
  | unsupported (code message : Text)
  deriving DecidableEq, Repr

def ORCHESTRATOR_SAVE_DRAFT_NOT_FOUND : Text := "orchestrator.save.draft_not_found".toList

def ORCHESTRATOR_SINK_NOT_REGISTERED : Text := "orchestrator.save.sink_not_registered".toList

inductive SinkKind
  | markdownFile
  deriving DecidableEq, Repr

/-- The `Debug` text of a kind. -/
def SinkKind.debug : SinkKind → Text
  | .markdownFile => "MarkdownFile".toList

inductive SinkConfig
  | markdownFile (configVersion : ℕ) (destDirs : List Text) (frontmatter : Bool)
  deriving DecidableEq, Repr

def SinkConfig.destDirs : SinkConfig → List Text
  | .markdownFile _ destDirs _ => destDirs

structure SinkCapabilities where
  localOnly : Bool
  remoteWrite : Bool
  interactiveOnly : Bool
  safeForUnattended : Bool
  deriving DecidableEq, Repr

def SinkCapabilities.LOCAL_ONLY : SinkCapabilities := ⟨true, false, false, true⟩

structure Sink where
  id : Uuid
  kind : SinkKind
  config : SinkConfig
  deriving DecidableEq, Repr

/-- What writes drafts to a kind of sink; `write` answers with a receipt. -/
structure SinkAdapter (Receipt : Type) where
  capabilities : SinkCapabilities
  write : SinkConfig → ReportDraft → Except DayseamError Receipt

/-- The registered adapters. -/
abbrev SinkRegistry (Receipt : Type) := SinkKind → Option (SinkAdapter Receipt)

end Dayseam
