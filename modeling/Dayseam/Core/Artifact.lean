import Dayseam.Core.Activity
import Mathlib

/-!
# Artifacts

The upstream things that events belong to: a day of commits on one repository, an
issue, a page, a merge request, a meeting.

## Main definitions

* `PathBuf` — a path, compared by its components.
* `Artifact` — a stored artifact with its payload.
* `ArtifactId.deterministic` — the id of an artifact, by its source, kind and
  upstream id.
-/

namespace Dayseam

/-! ### Paths -/

/-- One part of a path. -/
inductive PathComponent
  | rootDir
  | curDir
  | parentDir
  | normal (name : Text)
  deriving DecidableEq, Repr

/-- The order of the parts: by their kind, then by their name. -/
def PathComponent.sortKey : PathComponent → ℕ ×ₗ Text
  | .rootDir => toLex (0, [])
  | .curDir => toLex (1, [])
  | .parentDir => toLex (2, [])
  | .normal name => toLex (3, name)

structure PathBuf where
  text : Text
  deriving DecidableEq, Repr

/-- A name between two separators; an empty one and `.` stand for nothing. -/
def PathComponent.ofName (name : Text) : Option PathComponent :=
  if name = [] ∨ name = ['.'] then none
  else if name = ['.', '.'] then some .parentDir
  else some (.normal name)

/-- The parts of a path.  Equal paths are those with equal parts. -/
def PathBuf.components (path : PathBuf) : List PathComponent :=
  let names := path.text.splitOn '/'
  let start := if path.text.head? = some '/' then [.rootDir]
    else if names.head? = some ['.'] then [.curDir]
    else []
  start ++ names.filterMap PathComponent.ofName

/-! ### Artifacts -/

inductive ArtifactKind
  | commitSet
  | jiraIssue
  | confluencePage
  | gitHubPullRequest
  | gitHubIssue
  | outlookMeeting
  deriving DecidableEq, Repr

def ArtifactKind.token : ArtifactKind → Text
  | .commitSet => "CommitSet".toList
  | .jiraIssue => "JiraIssue".toList
  | .confluencePage => "ConfluencePage".toList
  | .gitHubPullRequest => "GitHubPullRequest".toList
  | .gitHubIssue => "GitHubIssue".toList
  | .outlookMeeting => "OutlookMeeting".toList

inductive MergeRequestProvider
  | gitLab
  | gitHub
  deriving DecidableEq, Repr

inductive ArtifactPayload
  | commitSet (repoPath : PathBuf) (date : NaiveDate) (eventIds : List Uuid)
      (commitShas : List Text)
  | jiraIssue (issueKey projectKey : Text) (date : NaiveDate) (eventIds : List Uuid)
  | confluencePage (pageId spaceKey : Text) (date : NaiveDate) (eventIds : List Uuid)
  | mergeRequest (provider : MergeRequestProvider) (number : ℤ) (projectKey title url : Text)
      (date : NaiveDate) (eventIds : List Uuid)
  | meeting (outlookEventId title : Text) (startUtc endUtc : ℤ) (date : NaiveDate)
      (eventIds : List Uuid)
  deriving DecidableEq, Repr

/-- The events that the artifact claims. -/
def ArtifactPayload.eventIds : ArtifactPayload → List Uuid
  | .commitSet _ _ eventIds _ | .jiraIssue _ _ _ eventIds | .confluencePage _ _ _ eventIds
  | .mergeRequest _ _ _ _ _ _ eventIds | .meeting _ _ _ _ _ eventIds => eventIds

structure Artifact where
  id : Uuid
  sourceId : Uuid
  kind : ArtifactKind
  externalId : Text
  payload : ArtifactPayload
  createdAt : ℤ
  deriving DecidableEq, Repr

/-! ### Ids -/

/-- The UTF-8 bytes of a text. -/
def utf8 (t : Text) : List UInt8 := t.flatMap String.utf8EncodeChar

/-- The sixteen bytes of an identifier. -/
def Uuid.bytes (u : Uuid) : List UInt8 :=
  (List.range 16).map fun i => UInt8.ofNat (u.val / 2 ^ (8 * (15 - i)))

/-- `Uuid::NAMESPACE_OID`. -/
def Uuid.NAMESPACE_OID : Uuid := ⟨0x6ba7b8129dad11d180b400c04fd430c8, by decide⟩

/-- The id of an artifact; `newV5` is the UUIDv5 of a namespace and a name. -/
def ArtifactId.deterministic (newV5 : Uuid → List UInt8 → Uuid) (sourceId : Uuid)
    (kind : ArtifactKind) (externalId : Text) : Uuid :=
  newV5 (newV5 Uuid.NAMESPACE_OID sourceId.bytes) (utf8 (kind.token ++ "::".toList ++ externalId))

end Dayseam
