import Dayseam.Report.Rollup
import Mathlib

/-!
# The sections of a report

Every group of a rollup belongs to one section, and the sections stand in a fixed
order.
-/

namespace Dayseam
namespace Report

inductive ReportSection
  | commits
  | mergeRequests
  | meetings
  | jiraIssues
  | confluencePages
  | unlinked
  deriving DecidableEq, Repr

namespace ReportSection

def ofPayload : ArtifactPayload → ReportSection
  | .commitSet .. => .commits
  | .jiraIssue .. => .jiraIssues
  | .confluencePage .. => .confluencePages
  | .mergeRequest .. => .mergeRequests
  | .meeting .. => .meetings

/-- The comment has no page. -/
def isUnattached (e : ActivityEvent) : Bool :=
  e.kind == .confluenceComment &&
    ((e.metadata.get "unattached".toList).map Json.isTrue).getD false

/-- A page that only unattached comments name is not shown as a page. -/
def ofGroup (group : RolledUpArtifact) : ReportSection :=
  match group.artifact.payload with
  | .confluencePage .. =>
    if !group.events.isEmpty && group.events.all isUnattached then .unlinked else .confluencePages
  | payload => ofPayload payload

def id : ReportSection → Text
  | .commits => "commits".toList
  | .mergeRequests => "merge_requests".toList
  | .meetings => "meetings".toList
  | .jiraIssues => "jira_issues".toList
  | .confluencePages => "confluence_pages".toList
  | .unlinked => "unlinked".toList

def title : ReportSection → Text
  | .commits => "Commits".toList
  | .mergeRequests => "Merge requests".toList
  | .meetings => "Meetings".toList
  | .jiraIssues => "Jira issues".toList
  | .confluencePages => "Confluence pages".toList
  | .unlinked => "Unlinked activity".toList

def ALL : List ReportSection :=
  [.commits, .mergeRequests, .meetings, .jiraIssues, .confluencePages, .unlinked]

theorem mem_ALL (s : ReportSection) : s ∈ ALL := by
  cases s <;> simp [ALL]

theorem nodup_ALL : ALL.Nodup := by decide

end ReportSection

end Report
end Dayseam
