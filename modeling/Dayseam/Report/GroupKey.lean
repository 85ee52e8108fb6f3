import Dayseam.Core.Activity
import Mathlib

/-!
# Group keys

Which section of the report an event belongs to: the repository, the project or
the space that its canonical entity names.
-/

namespace Dayseam
namespace Report

inductive GroupKind
  | repo
  | project
  | space
  deriving DecidableEq, Repr

structure GroupKey where
  kind : GroupKind
  value : Text
  label : Option Text
  deriving DecidableEq, Repr

def GroupKey.display (key : GroupKey) : Text := key.label.getD key.value

/-- The key that the first entity of a kind names; `/` where there is none. -/
def entityGroup (event : ActivityEvent) (entityKind : EntityKind) (groupKind : GroupKind) :
    GroupKey :=
  match event.entity? entityKind with
  | some e => ⟨groupKind, if e.externalId = [] then ['/'] else e.externalId, e.label⟩
  | none => ⟨groupKind, ['/'], none⟩

def groupKeyFromEvent (event : ActivityEvent) : GroupKey :=
  match event.kind with
  | .jiraIssueTransitioned | .jiraIssueCommented | .jiraIssueAssigned | .jiraIssueUnassigned
  | .jiraIssueCreated => entityGroup event .jiraProject .project
  | .confluencePageCreated | .confluencePageEdited | .confluenceComment =>
    entityGroup event .confluenceSpace .space
  | .gitHubPullRequestOpened | .gitHubPullRequestMerged | .gitHubPullRequestClosed
  | .gitHubPullRequestReviewed | .gitHubPullRequestCommented | .gitHubIssueOpened
  | .gitHubIssueClosed | .gitHubIssueCommented | .gitHubIssueAssigned =>
    entityGroup event .gitHubRepo .repo
  | _ => entityGroup event .repo .repo

end Report
end Dayseam
