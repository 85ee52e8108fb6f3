import Dayseam.Core.Types
import Mathlib

/-!
# Activity events

The normalised record that every connector produces, one for each thing that the
user did.

## Main definitions

* `ActivityEvent` — one piece of evidence from a source.
* `Json` — the free-form attributes of an event.
-/

namespace Dayseam

/-- A JSON value; numbers are kept as their texts. -/
inductive Json
  | null
  | bool (value : Bool)
  | number (text : Text)
  | string (text : Text)
  | array (items : List Json)
  | object (fields : List (Text × Json))

namespace Json

/-- The field of an object. -/
def get (key : Text) : Json → Option Json
  | .object fields => (fields.find? fun field => field.1 == key).map (·.2)
  | _ => none

def asStr : Json → Option Text
  | .string text => some text
  | _ => none

def asArray : Json → Option (List Json)
  | .array items => some items
  | _ => none

/-- The value is the literal `true`. -/
def isTrue : Json → Bool
  | .bool true => true
  | _ => false

def asBool : Json → Option Bool
  | .bool value => some value
  | _ => none

/-- `Value::as_u64`, of a number without a fraction. -/
def asU64 : Json → Option ℕ
  | .number text => (Calendar.parseNat text).filter fun n => decide (n < 2 ^ 64)
  | _ => none

def asI64 : Json → Option ℤ
  | .number text => parseI64 text
  | _ => none

def isObject : Json → Bool
  | .object _ => true
  | _ => false

/-- The value under one key after another. -/
def path (keys : List Text) (value : Json) : Option Json :=
  keys.foldlM (fun value key => value.get key) value

def strAt (keys : List Text) (value : Json) : Option Text := (value.path keys).bind asStr

def arrayAt (keys : List Text) (value : Json) : Option (List Json) :=
  (value.path keys).bind asArray

/-- Put a field into an object, in the place of one under its key. -/
def insert (key : Text) (value : Json) : Json → Json
  | .object fields =>
    if fields.any fun field => field.1 == key then
      .object (fields.map fun field => if field.1 == key then (key, value) else field)
    else .object (fields ++ [(key, value)])
  | json => json

end Json

inductive ActivityKind
  | commitAuthored
  | mrOpened
  | mrMerged
  | mrClosed
  | mrReviewComment
  | mrApproved
  | issueOpened
  | issueClosed
  | issueComment
  | jiraIssueTransitioned
  | jiraIssueCommented
  | jiraIssueAssigned
  | jiraIssueUnassigned
  | jiraIssueCreated
  | confluencePageCreated
  | confluencePageEdited
  | confluenceComment
  | gitHubPullRequestOpened
  | gitHubPullRequestMerged
  | gitHubPullRequestClosed
  | gitHubPullRequestReviewed
  | gitHubPullRequestCommented
  | gitHubIssueOpened
  | gitHubIssueClosed
  | gitHubIssueCommented
  | gitHubIssueAssigned
  | outlookMeetingAttended
  deriving DecidableEq, Repr

/-- The kind of an upstream object that an event refers to. -/
inductive EntityKind
  | repo
  | project
  | target
  | jiraProject
  | jiraIssue
  | confluenceSpace
  | confluencePage
  | confluenceComment
  | gitHubRepo
  | gitHubPullRequest
  | gitHubIssue
  | outlookEvent
  | workspace
  | other (name : Text)
  deriving DecidableEq, Repr

structure EntityRef where
  kind : EntityKind
  externalId : Text
  label : Option Text
  deriving DecidableEq, Repr

/-- The person who caused an event. -/
structure Actor where
  displayName : Text
  email : Option Text
  externalId : Option Text
  deriving DecidableEq, Repr

structure Link where
  url : Text
  label : Option Text
  deriving DecidableEq, Repr

inductive Privacy
  | normal
  | redactedPrivateRepo
  deriving DecidableEq, Repr

/-- One thing that the user did; instants are in nanoseconds since the epoch. -/
structure ActivityEvent where
  id : Uuid
  sourceId : Uuid
  externalId : Text
  kind : ActivityKind
  occurredAt : ℤ
  actor : Actor
  title : Text
  body : Option Text
  links : List Link
  entities : List EntityRef
  parentExternalId : Option Text
  metadata : Json
  privacy : Privacy

/-- The first entity of a kind. -/
def ActivityEvent.entity? (event : ActivityEvent) (kind : EntityKind) : Option EntityRef :=
  event.entities.find? fun e => e.kind == kind

end Dayseam
