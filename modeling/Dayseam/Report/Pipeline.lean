import Dayseam.Report.Dedup
import Dayseam.Report.Enrich
import Mathlib

/-!
# The passes before the rollup

`pipeline` runs on the events of a day before they are rolled up: one event for
each commit, the entities and parents that other sources give, and for each
commit the merge request that holds it.
-/

namespace Dayseam
namespace Report

/-- The commits of a merge request. -/
structure MergeRequestArtifact where
  externalId : Text
  commitShas : List Text
  deriving DecidableEq, Repr

/-- A commit without a parent gets the first merge request that holds its SHA. -/
def rolledIntoMrOf (mrs : List MergeRequestArtifact) (e : ActivityEvent) : ActivityEvent :=
  if e.kind = .commitAuthored ∧ e.parentExternalId = none then
    -- the first request that lists the commit
    match mrs.find? fun mr => decide (e.externalId ∈ mr.commitShas) with
    | some mr => { e with parentExternalId := some mr.externalId }
    | none => e
  else e

def annotateRolledIntoMr (mrs : List MergeRequestArtifact) (events : List ActivityEvent) :
    List ActivityEvent :=
  events.map (rolledIntoMrOf mrs)

def pipeline (events : List ActivityEvent) (mrs : List MergeRequestArtifact) :
    List ActivityEvent :=
  annotateRolledIntoMr mrs (annotateTransitionWithMr (extractGithubPrUrls
    (extractTicketKeys (dedupCommitAuthored events))))

end Report
end Dayseam
