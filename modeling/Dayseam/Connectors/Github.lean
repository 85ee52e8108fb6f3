import Dayseam.Core.Ids
import Dayseam.Core.Time
import Mathlib

/-!
# GitHub events

The rows of the events API of GitHub, and the activity event that a row becomes.  The
payload of a row is decoded by its type; one of an unknown shape becomes none, and so
does a push.

## Main definitions

* `GithubEvent`, `GithubEventPayload` — a row.
* `Github.normaliseEvent` — its activity event.
* `Github.SameKey` — the rows that are addressed alike.

## Main results

* `Github.identity_eq_iff` — the rows that get the same identity.
-/

namespace Dayseam

/-! ### Rows -/

structure GithubActor where
  id : ℤ
  login : Text
  deriving DecidableEq, Repr

structure GithubUserRef where
  id : ℤ
  login : Text
  deriving DecidableEq, Repr

structure GithubPullRequest where
  number : ℤ
  title : Text
  htmlUrl : Text
  merged : Bool
  deriving DecidableEq, Repr

/-- An issue; `isPullRequest` tells the pull requests that the issues API serves. -/
structure GithubIssue where
  number : ℤ
  title : Text
  htmlUrl : Text
  isPullRequest : Bool
  deriving DecidableEq, Repr

structure GithubReview where
  id : ℤ
  state : Text
  deriving DecidableEq, Repr

structure GithubComment where
  id : ℤ
  deriving DecidableEq, Repr

inductive GithubEventPayload
  | pullRequest (action : Text) (pullRequest : GithubPullRequest)
  | pullRequestReview (action : Text) (pullRequest : GithubPullRequest) (review : GithubReview)
  | pullRequestReviewComment (action : Text) (pullRequest : GithubPullRequest)
      (comment : GithubComment)
  | issues (action : Text) (issue : GithubIssue) (assignee : Option GithubUserRef)
  | issueComment (action : Text) (issue : GithubIssue) (comment : GithubComment)
  | push
  | unknown
  deriving DecidableEq, Repr

/-- The review or the comment that a row is about. -/
def GithubEventPayload.upstreamId : GithubEventPayload → Option ℤ
  | .pullRequestReview _ _ review => some review.id
  | .pullRequestReviewComment _ _ comment | .issueComment _ _ comment => some comment.id
  | _ => none

/-- A row of the events of a user; `repo` is the name of the repository. -/
structure GithubEvent where
  id : Text
  actor : GithubActor
  repo : Text
  createdAt : ℤ
  payload : GithubEventPayload
  deriving DecidableEq, Repr

namespace Github

/-! ### The activity event of a row -/

variable (newV5 : Uuid → List UInt8 → Uuid) (sourceId : Uuid) (event : GithubEvent)

def baseEntities : List EntityRef := [⟨.gitHubRepo, event.repo, (event.repo.splitOn '/').getLast?⟩]

def actorFromEvent : Actor := ⟨event.actor.login, none, some (i64Text event.actor.id)⟩

/-- A pull request or an issue by its repository and its number. -/
def threadId (repo : Text) (number : ℤ) : Text := repo ++ '#' :: i64Text number

def prTitle (kind : ActivityKind) (pr : GithubPullRequest) : Text :=
  match kind with
  | .gitHubPullRequestOpened => "Opened PR: ".toList ++ pr.title
  | .gitHubPullRequestMerged => "Merged PR: ".toList ++ pr.title
  | .gitHubPullRequestClosed => "Closed PR: ".toList ++ pr.title
  | .gitHubPullRequestReviewed => "Reviewed PR: ".toList ++ pr.title
  | .gitHubPullRequestCommented => "Commented on PR: ".toList ++ pr.title
  | _ => pr.title

def issueTitle (kind : ActivityKind) (issue : GithubIssue) : Text :=
  match kind with
  | .gitHubIssueOpened => "Opened issue: ".toList ++ issue.title
  | .gitHubIssueClosed => "Closed issue: ".toList ++ issue.title
  | .gitHubIssueCommented => "Commented on issue: ".toList ++ issue.title
  | .gitHubIssueAssigned => "Assigned issue: ".toList ++ issue.title
  | .gitHubPullRequestCommented => "Commented on PR: ".toList ++ issue.title
  | _ => issue.title

/-- The attributes that every activity event of a row has. -/
def eventFields (numberField : Text) (number : ℤ) : List (Text × Json) :=
  [("github_event_id".toList, .string event.id), (numberField, .number (i64Text number)),
    ("repo".toList, .string event.repo)]

/-- The activity event of a row that is about a thread. -/
def composeEvent (kind : ActivityKind) (entityKind : EntityKind) (number : ℤ)
    (title htmlUrl : Text) (metadata : Json) : ActivityEvent where
  id := ActivityEvent.deterministicId newV5 sourceId (threadId event.repo number) kind
  sourceId := sourceId
  externalId := threadId event.repo number
  kind := kind
  occurredAt := event.createdAt
  actor := actorFromEvent event
  title := title
  body := none
  links := [⟨htmlUrl, some ('#' :: i64Text number)⟩]
  entities := baseEntities event ++
    [⟨entityKind, threadId event.repo number, some ('#' :: i64Text number)⟩]
  parentExternalId := some (threadId event.repo number)
  metadata := metadata
  privacy := .normal

def composePrEvent (kind : ActivityKind) (pr : GithubPullRequest)
    (metadataOverride : Option Json) : ActivityEvent :=
  composeEvent newV5 sourceId event kind .gitHubPullRequest pr.number (prTitle kind pr)
    pr.htmlUrl (metadataOverride.getD (.object (eventFields event "pr_number".toList pr.number)))

def composeIssueEvent (kind : ActivityKind) (issue : GithubIssue) : ActivityEvent :=
  composeEvent newV5 sourceId event kind
    (if issue.isPullRequest then .gitHubPullRequest else .gitHubIssue) issue.number
    (issueTitle kind issue) issue.htmlUrl
    (.object (eventFields event "issue_number".toList issue.number))

/-! ### The kind of a row -/

def pullRequestKind (action : Text) (pr : GithubPullRequest) : Option ActivityKind :=
  if action = "opened".toList then some .gitHubPullRequestOpened
  else if action = "closed".toList then
    some (if pr.merged then .gitHubPullRequestMerged else .gitHubPullRequestClosed)
  else none

def reviewKind (action : Text) : Option ActivityKind :=
  if action = "submitted".toList then some .gitHubPullRequestReviewed else none

def reviewCommentKind (action : Text) : Option ActivityKind :=
  if action = "created".toList then some .gitHubPullRequestCommented else none

/-- Issues that are assigned count where the user assigned them to themselves. -/
def issuesKind (actor : GithubActor) (action : Text) (issue : GithubIssue)
    (assignee : Option GithubUserRef) : Option ActivityKind :=
  if action = "opened".toList ∧ issue.isPullRequest = false then some .gitHubIssueOpened
  else if action = "closed".toList ∧ issue.isPullRequest = false then some .gitHubIssueClosed
  else if action = "assigned".toList then
    let assignedTo := (assignee.map (·.login)).getD []
    if assignedTo = [] ∨ assignedTo ≠ actor.login then none else some .gitHubIssueAssigned
  else none

def issueCommentKind (action : Text) (issue : GithubIssue) : Option ActivityKind :=
  if action = "created".toList then
    some (if issue.isPullRequest then .gitHubPullRequestCommented else .gitHubIssueCommented)
  else none

def reviewMetadata (pr : GithubPullRequest) (review : GithubReview) : Json :=
  .object (eventFields event "pr_number".toList pr.number ++
    [("review_id".toList, .number (i64Text review.id)),
      ("review_state".toList, .string review.state), ("review_count".toList, .number ['1'])])

def normaliseEvent : Option ActivityEvent :=
  match event.payload with
  | .pullRequest action pr =>
    (pullRequestKind action pr).map fun kind => composePrEvent newV5 sourceId event kind pr none
  | .pullRequestReview action pr review =>
    (reviewKind action).map fun kind =>
      composePrEvent newV5 sourceId event kind pr (some (reviewMetadata event pr review))
  | .pullRequestReviewComment action pr _ =>
    (reviewCommentKind action).map fun kind => composePrEvent newV5 sourceId event kind pr none
  | .issues action issue assignee =>
    (issuesKind event.actor action issue assignee).map fun kind =>
      composeIssueEvent newV5 sourceId event kind issue
  | .issueComment action issue _ =>
    (issueCommentKind action issue).map fun kind =>
      composeIssueEvent newV5 sourceId event kind issue
  | .push | .unknown => none

/-! ### The rows with one identity -/

/-- The kind of the activity event of a row, and the number of the thread. -/
def keyOf (event : GithubEvent) : Option (ActivityKind × ℤ) :=
  match event.payload with
  | .pullRequest action pr => (pullRequestKind action pr).map (·, pr.number)
  | .pullRequestReview action pr _ => (reviewKind action).map (·, pr.number)
  | .pullRequestReviewComment action pr _ => (reviewCommentKind action).map (·, pr.number)
  | .issues action issue assignee =>
    (issuesKind event.actor action issue assignee).map (·, issue.number)
  | .issueComment action issue _ => (issueCommentKind action issue).map (·, issue.number)
  | .push | .unknown => none

/-- Rows of one kind about one thread: the same kind, repository and number. -/
def SameKey (a b : GithubEvent) : Prop := keyOf a = keyOf b ∧ a.repo = b.repo

instance : DecidableRel SameKey := fun _ _ => inferInstanceAs (Decidable (_ ∧ _))

variable {newV5 sourceId event}

/-- The identity of the activity event of a row. -/
theorem normaliseEvent_eq_some {e : ActivityEvent}
    (h : normaliseEvent newV5 sourceId event = some e) :
    ∃ number, keyOf event = some (e.kind, number) ∧ e.externalId = threadId event.repo number ∧
      e.sourceId = sourceId ∧
      e.id = ActivityEvent.deterministicId newV5 sourceId e.externalId e.kind := by
  unfold normaliseEvent at h
  unfold keyOf
  cases hp : event.payload with
  | push | unknown => rw [hp] at h; exact absurd h (by simp)
  | pullRequest action pr | pullRequestReview action pr _ | pullRequestReviewComment action pr _
  | issues action pr _ | issueComment action pr _ =>
    rw [hp] at h
    obtain ⟨kind, hkind, rfl⟩ := Option.map_eq_some_iff.mp h
    refine ⟨pr.number, ?_, rfl, rfl, rfl⟩
    simp only [hkind, Option.map_some]
    rfl

/-- The number of a thread stands after the last `#`. -/
theorem threadId_inj {r r' : Text} {n n' : ℤ} (h : threadId r n = threadId r' n') :
    r = r' ∧ n = n' := by
  have hhash : ∀ n : ℤ, '#' ∉ (i64Text n).reverse := by
    intro n hn
    rcases isDigit_or_of_mem_i64Text (List.mem_reverse.mp hn) with hc | hc
    · exact absurd hc (by decide)
    · exact absurd hc (by decide)
  have hrev := congrArg (fun t => Text.splitFirst '#' t.reverse) h
  simp only [threadId, List.reverse_append, List.reverse_cons, List.append_assoc,
    List.singleton_append] at hrev
  rw [Text.splitFirst_append (hhash n), Text.splitFirst_append (hhash n')] at hrev
  obtain ⟨hn, hr⟩ := Prod.mk.inj (Option.some.inj hrev)
  exact ⟨List.reverse_injective hr, i64Text_injective (List.reverse_injective hn)⟩

/-- **The rows with one identity** are those of one kind about one thread. -/
theorem identity_eq_iff {a b : GithubEvent} {e e' : ActivityEvent}
    (ha : normaliseEvent newV5 sourceId a = some e)
    (hb : normaliseEvent newV5 sourceId b = some e') :
    (e.externalId, e.kind) = (e'.externalId, e'.kind) ↔ SameKey a b := by
  obtain ⟨n, hka, hea, -, -⟩ := normaliseEvent_eq_some ha
  obtain ⟨n', hkb, heb, -, -⟩ := normaliseEvent_eq_some hb
  rw [Prod.mk.injEq, hea, heb, SameKey, hka, hkb, Option.some.injEq, Prod.mk.injEq]
  constructor
  · rintro ⟨hid, hkind⟩
    obtain ⟨hrepo, hn⟩ := threadId_inj hid
    exact ⟨⟨hkind, hn⟩, hrepo⟩
  · rintro ⟨⟨hkind, hn⟩, hrepo⟩
    exact ⟨by rw [hrepo, hn], hkind⟩

end Github
end Dayseam
