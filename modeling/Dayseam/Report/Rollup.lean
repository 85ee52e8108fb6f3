import Dayseam.Core.Artifact
import Dayseam.Core.Time
import Dayseam.Lib.KeyedMerge
import Dayseam.Lib.OrderedMap
import Dayseam.Report.GroupKey
import Mathlib

/-!
# Rolling events up into artifacts

`rollUp` bundles the events of a report into groups, one for each artifact.  An
event belongs to the first artifact that claims its id; the others are orphans,
and each bucket of them gets a synthetic artifact.  Commit sets of one repository
and day are then merged.

## Main definitions

* `Crates` — what the report takes from other crates.
* `orphanKey`, `synthesizeArtifact` — the bucket of an orphan, and its artifact.
* `mergeDuplicateCommitSets` — merge the groups that share a key.
* `rollUp` — the groups of a report.
-/

namespace Dayseam
namespace Report

open KeyedMerge (keepNew)

/-- What the report takes from other crates: the formats of `chrono`, with the
instant that an RFC 3339 text names and the clock, and the UUIDv5 of a namespace
and a name. -/
structure Crates where
  chrono : Chrono
  parseFromRfc3339 : Text → Option ℤ
  now : ℤ
  newV5 : Uuid → List UInt8 → Uuid

/-! ### The order of events and groups -/

structure RolledUpArtifact where
  artifact : Artifact
  events : List ActivityEvent

/-- Events are ordered by their instant, their upstream id and their own id. -/
def eventKey (event : ActivityEvent) : ℤ ×ₗ Text ×ₗ Uuid :=
  toLex (event.occurredAt, toLex (event.externalId, event.id))

def sortEvents (events : List ActivityEvent) : List ActivityEvent :=
  events.mergeSort fun a b => decide (eventKey a ≤ eventKey b)

/-- Groups are ordered by the token of their kind, then meetings by their start
and the others by their upstream id, then by the id of the artifact. -/
def groupLe (a b : RolledUpArtifact) : Bool :=
  match a.artifact.payload, b.artifact.payload with
  | .meeting _ _ aStart _ _ _, .meeting _ _ bStart _ _ _ =>
    decide (toLex (a.artifact.kind.token, toLex (aStart, a.artifact.id)) ≤
      toLex (b.artifact.kind.token, toLex (bStart, b.artifact.id)))
  | _, _ =>
    decide (toLex (a.artifact.kind.token, toLex (a.artifact.externalId, a.artifact.id)) ≤
      toLex (b.artifact.kind.token, toLex (b.artifact.externalId, b.artifact.id)))

def sortGroups (groups : List RolledUpArtifact) : List RolledUpArtifact :=
  groups.mergeSort groupLe

theorem sortEvents_perm (events : List ActivityEvent) : (sortEvents events).Perm events :=
  List.mergeSort_perm _ _

@[simp] theorem mem_sortEvents {e : ActivityEvent} {events : List ActivityEvent} :
    e ∈ sortEvents events ↔ e ∈ events := (sortEvents_perm events).mem_iff

theorem sortGroups_perm (groups : List RolledUpArtifact) : (sortGroups groups).Perm groups :=
  List.mergeSort_perm _ _

/-! ### The buckets of orphans -/

inductive OrphanKey
  | commitSet (sourceId : Uuid) (repoPath : PathBuf) (day : NaiveDate)
  | jiraIssue (sourceId : Uuid) (issueKey projectKey : Text) (day : NaiveDate)
  | confluencePage (sourceId : Uuid) (pageId spaceKey : Text) (day : NaiveDate)
  | mergeRequest (sourceId : Uuid) (provider : MergeRequestProvider) (projectKey : Text)
      (number : ℤ) (day : NaiveDate)
  | outlookMeeting (sourceId : Uuid) (eventId : Text) (day : NaiveDate)
  deriving DecidableEq, Repr

def providerIndex : MergeRequestProvider → ℕ
  | .gitLab => 0
  | .gitHub => 1

/-- The order of the keys: by the variant, then field by field.  Two keys are the
same bucket when they have the same place in it. -/
def OrphanKey.order : OrphanKey → ℕ ×ₗ Uuid ×ₗ ℕ ×ₗ List (ℕ ×ₗ Text) ×ₗ ℤ ×ₗ NaiveDate
  | .commitSet sourceId repoPath day =>
    toLex (0, toLex (sourceId, toLex (0, toLex (repoPath.components.map PathComponent.sortKey,
      toLex (0, day)))))
  | .jiraIssue sourceId issueKey projectKey day =>
    toLex (1, toLex (sourceId, toLex (0, toLex ([toLex (0, issueKey), toLex (0, projectKey)],
      toLex (0, day)))))
  | .confluencePage sourceId pageId spaceKey day =>
    toLex (2, toLex (sourceId, toLex (0, toLex ([toLex (0, pageId), toLex (0, spaceKey)],
      toLex (0, day)))))
  | .mergeRequest sourceId provider projectKey number day =>
    toLex (3, toLex (sourceId, toLex (providerIndex provider,
      toLex ([toLex (0, projectKey)], toLex (number, day)))))
  | .outlookMeeting sourceId eventId day =>
    toLex (4, toLex (sourceId, toLex (0, toLex ([toLex (0, eventId)], toLex (0, day)))))

/-- The project and number of a GitLab merge request; `none` where its event has
another shape. -/
def gitlabMrIdentity (event : ActivityEvent) : Option (Text × ℤ) := do
  let projectKey ← ((event.entity? .repo).map (·.externalId)).filter fun s =>
    decide (s ≠ [] ∧ s ≠ ['/'])
  let iid ← match event.externalId with
    | '!' :: iid => some iid
    | _ => none
  let number ← parseI64 iid
  some (projectKey, number)

/-- The project and number of a GitHub pull request, around the first `#`. -/
def githubPrIdentity (event : ActivityEvent) : Option (Text × ℤ) := do
  let (projectKey, numberText) ← event.externalId.splitFirst '#'
  if projectKey = [] then none
  else
    let number ← parseI64 numberText
    some (projectKey, number)

/-- The UTC day of an event. -/
def eventDay (event : ActivityEvent) : NaiveDate := localDate .utc event.occurredAt

/-- The upstream id of the first entity of a kind. -/
def entityIdOrUnknown (event : ActivityEvent) (kind : EntityKind) : Text :=
  ((event.entity? kind).map (·.externalId)).getD "UNKNOWN".toList

/-- The bucket of an event that is grouped by its repository. -/
def repoOrphanKey (event : ActivityEvent) : OrphanKey :=
  .commitSet event.sourceId ⟨(groupKeyFromEvent event).value⟩ (eventDay event)

/-- The bucket of a merge request event with the identity that its provider's
shape gives, or else that of its repository. -/
def mergeRequestOrphanKey (provider : MergeRequestProvider) (identity : Option (Text × ℤ))
    (event : ActivityEvent) : OrphanKey :=
  match identity with
  | some (projectKey, number) =>
    .mergeRequest event.sourceId provider projectKey number (eventDay event)
  | none => repoOrphanKey event

def orphanKey (event : ActivityEvent) : OrphanKey :=
  match event.kind with
  | .jiraIssueTransitioned | .jiraIssueCommented | .jiraIssueAssigned | .jiraIssueUnassigned
  | .jiraIssueCreated =>
    .jiraIssue event.sourceId (entityIdOrUnknown event .jiraIssue) (groupKeyFromEvent event).value
      (eventDay event)
  | .confluencePageCreated | .confluencePageEdited | .confluenceComment =>
    .confluencePage event.sourceId (entityIdOrUnknown event .confluencePage)
      (groupKeyFromEvent event).value (eventDay event)
  | .mrOpened | .mrMerged | .mrClosed | .mrReviewComment | .mrApproved =>
    mergeRequestOrphanKey .gitLab (gitlabMrIdentity event) event
  | .gitHubPullRequestOpened | .gitHubPullRequestMerged | .gitHubPullRequestClosed
  | .gitHubPullRequestReviewed | .gitHubPullRequestCommented =>
    mergeRequestOrphanKey .gitHub (githubPrIdentity event) event
  | .outlookMeetingAttended =>
    .outlookMeeting event.sourceId event.externalId (eventDay event)
  | _ => repoOrphanKey event

/-! ### Synthetic artifacts -/

def MR_PREFIXES : List Text :=
  ["Opened MR: ".toList, "Merged MR: ".toList, "Closed MR: ".toList, "Approved MR: ".toList,
    "Commented on MR: ".toList, "Opened PR: ".toList, "Merged PR: ".toList, "Closed PR: ".toList,
    "Reviewed PR: ".toList, "Commented on PR: ".toList]

def stripMrPrefix (title : Text) : Text :=
  match MR_PREFIXES.find? fun p => p.isPrefixOf title with
  | some p => title.drop p.length
  | none => title

/-- The title of a merge request: that of the event that opened it, or of its
first event, without its lifecycle prefix. -/
def extractMrTitle (events : List ActivityEvent) : Text :=
  let preferred := events.find? fun e =>
    e.kind == .mrOpened || e.kind == .gitHubPullRequestOpened
  match preferred.or events.head? with
  | some chosen => stripMrPrefix chosen.title
  | none => []

/-- The start and the end of a meeting, as its first event gives them. -/
def meetingBounds (crates : Crates) (events : List ActivityEvent) : ℤ × ℤ :=
  match events with
  | [] => (crates.now, crates.now)
  | first :: _ =>
    let instantAt (field : Text) : Option ℤ :=
      ((first.metadata.get field).bind Json.asStr).bind crates.parseFromRfc3339
    let start := (instantAt "start_utc".toList).getD first.occurredAt
    (start, (instantAt "end_utc".toList).getD start)

/-- The kind and the upstream id of the artifact of a bucket. -/
def OrphanKey.identity (chrono : Chrono) : OrphanKey → ArtifactKind × Text
  | .commitSet _ repoPath day =>
    (.commitSet, repoPath.text ++ "::".toList ++ chrono.display day ++ "::synthetic".toList)
  | .jiraIssue _ issueKey _ day => (.jiraIssue, issueKey ++ "::".toList ++ chrono.display day)
  | .confluencePage _ pageId _ day =>
    (.confluencePage, pageId ++ "::".toList ++ chrono.display day)
  | .mergeRequest _ provider projectKey number day =>
    let sigil := match provider with
      | .gitLab => '!'
      | .gitHub => '#'
    (.gitHubPullRequest,
      projectKey ++ [sigil] ++ i64Text number ++ "::".toList ++ chrono.display day)
  | .outlookMeeting _ eventId _ => (.outlookMeeting, eventId)

def OrphanKey.sourceId : OrphanKey → Uuid
  | .commitSet sourceId _ _ | .jiraIssue sourceId _ _ _ | .confluencePage sourceId _ _ _
  | .mergeRequest sourceId _ _ _ _ | .outlookMeeting sourceId _ _ => sourceId

def synthesizePayload (crates : Crates) (key : OrphanKey) (events : List ActivityEvent) :
    ArtifactPayload :=
  let eventIds := events.map (·.id)
  match key with
  | .commitSet _ repoPath day => .commitSet repoPath day eventIds (events.map (·.externalId))
  | .jiraIssue _ issueKey projectKey day => .jiraIssue issueKey projectKey day eventIds
  | .confluencePage _ pageId spaceKey day => .confluencePage pageId spaceKey day eventIds
  | .mergeRequest _ provider projectKey number day =>
    let url := (events.findSome? fun e => e.links.head?.map (·.url)).getD []
    .mergeRequest provider number projectKey (extractMrTitle events) url day eventIds
  | .outlookMeeting _ eventId day =>
    let bounds := meetingBounds crates events
    .meeting eventId ((events.head?.map (·.title)).getD []) bounds.1 bounds.2 day eventIds

def synthesizeArtifact (crates : Crates) (key : OrphanKey) (events : List ActivityEvent)
    (reportDate : NaiveDate) : Artifact :=
  let (kind, externalId) := key.identity crates.chrono
  { id := ArtifactId.deterministic crates.newV5 key.sourceId kind externalId
    sourceId := key.sourceId
    kind := kind
    externalId := externalId
    payload := synthesizePayload crates key events
    createdAt := reportDate.day * nanosPerDay }

/-! ### Merging commit sets -/

/-- The repository and the day of a commit set. -/
def commitSetKey (artifact : Artifact) : Option (PathBuf × NaiveDate) :=
  match artifact.payload with
  | .commitSet repoPath date _ _ => some (repoPath, date)
  | _ => none

/-- The key that an artifact's group is merged under.  What is not a commit set
has a key of its own, made of its id. -/
def mergeKey (artifact : Artifact) : PathBuf × NaiveDate :=
  (commitSetKey artifact).getD
    (⟨"__non_commit_set__::".toList ++ Uuid.display artifact.id⟩, ⟨0⟩)

/-- The place of a key in the map of merged groups: paths are compared by their
parts. -/
def slot (artifact : Artifact) : List PathComponent × NaiveDate :=
  ((mergeKey artifact).1.components, (mergeKey artifact).2)

/-- A group meets one that is stored under its key: a commit set adds the events
whose upstream ids are new, anything else replaces the stored group. -/
def mergeInto (existing group : RolledUpArtifact) : RolledUpArtifact :=
  match commitSetKey group.artifact with
  | some _ =>
    let fresh := keepNew (·.externalId) (existing.events.map (·.externalId)) group.events
    { existing with events := sortEvents (existing.events ++ fresh) }
  | none => group

def groupSlot (group : RolledUpArtifact) : List PathComponent × NaiveDate := slot group.artifact

/-- The map of the source and the order of its keys, as one list. -/
def mergeDuplicateCommitSets (groups : List RolledUpArtifact) : List RolledUpArtifact :=
  KeyedMerge.mergeBy groupSlot mergeInto groups

/-! ### The rollup -/

/-- The events by their ids; of two with one id the later one stays. -/
def indexById (events : List ActivityEvent) : List ActivityEvent :=
  events.foldl (fun index e => OrderedMap.upsert (·.id) (fun _ => e) e.id index) []

/-- Take the events with the given ids out of the index. -/
def claimEvents : List Uuid → List ActivityEvent → List ActivityEvent × List ActivityEvent
  | [], index => ([], index)
  | id :: ids, index =>
    match index.find? (·.id = id) with
    | some event =>
      let (claimed, rest) := claimEvents ids (index.filter (·.id ≠ id))
      (event :: claimed, rest)
    | none => claimEvents ids index

/-- One group for each artifact, and the events that are left. -/
def claimGroups : List Artifact → List ActivityEvent → List RolledUpArtifact × List ActivityEvent
  | [], index => ([], index)
  | artifact :: artifacts, index =>
    let (claimed, left) := claimEvents artifact.payload.eventIds index
    let (groups, rest) := claimGroups artifacts left
    (⟨artifact, sortEvents claimed⟩ :: groups, rest)

/-- The orphans by their keys; a bucket keeps the key of its first event. -/
def orphanByKey (orphans : List ActivityEvent) : List (OrphanKey × List ActivityEvent) :=
  orphans.foldl (fun buckets e =>
    OrderedMap.upsert (·.1.order)
      (fun bucket => bucket.elim (orphanKey e, [e]) fun b => (b.1, b.2 ++ [e]))
      (orphanKey e).order buckets) []

def orphanGroup (crates : Crates) (reportDate : NaiveDate)
    (bucket : OrphanKey × List ActivityEvent) : RolledUpArtifact :=
  let events := sortEvents bucket.2
  ⟨synthesizeArtifact crates bucket.1 events reportDate, events⟩

/-- The groups before commit sets are merged: those of the artifacts, then those
of the orphans. -/
def groupsOf (crates : Crates) (events : List ActivityEvent) (artifacts : List Artifact)
    (reportDate : NaiveDate) : List RolledUpArtifact :=
  let (groups, orphans) := claimGroups artifacts (indexById events)
  groups ++ (orphanByKey orphans).map (orphanGroup crates reportDate)

def rollUp (crates : Crates) (events : List ActivityEvent) (artifacts : List Artifact)
    (reportDate : NaiveDate) : List RolledUpArtifact :=
  sortGroups (mergeDuplicateCommitSets (groupsOf crates events artifacts reportDate))

end Report
end Dayseam
