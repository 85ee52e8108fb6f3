import Dayseam.Connectors.CursorQuery
import Dayseam.Connectors.DayWindow
import Dayseam.Connectors.GithubReviews
import Dayseam.Connectors.LinkHeader
import Dayseam.Core.Runs
import Dayseam.Core.Sink
import Dayseam.Lib.Firsts
import Dayseam.Lib.LinkedPages
import Dayseam.Lib.Rfc3339
import Mathlib

/-!
# The walk over GitHub events

The walk reads two streams.  The feed of the user's events comes newest first, and a row
from before the day ends it.  The search for issues and pull requests fills in what the
feed does not show: a hit becomes an opened and a closed event, unless an event of that
kind for the same thread was met before.

## Main definitions

* `GithubSearchIssue`, `Github.synthesiseEvents` — a hit, and the events that it becomes.
* `Github.walkDay` — the walk of a day.
* `Github.feedEvents`, `Github.searchEvents` — what the two streams tell of.
* `Github.FeedOffered`, `Github.SearchOffered` — the pages that the server has for the day.

## Main results

* `Github.walkDay_events_iff` — the events of a walk that ends well.
* `Github.walkDay_noSilentTruncation` — a walk that ends well tells of every row and every
  hit of the day, and of nothing else; one that would need too many pages is an error.
* `Github.count_identity_le_one` — what only the search knows of is told of once.
* `Github.merged_and_closed_iff` — the pull requests that are told of as merged and as
  closed.
-/

namespace Dayseam

open Connectors (RowDate identity)
open Firsts (firsts known)
open Paging (ServedAll Offered through)

/-! ### Hits of the search -/

structure GithubSearchIssue where
  id : ℤ
  number : ℤ
  title : Text
  htmlUrl : Text
  user : Option GithubUserRef
  /-- Whether the hit has a `pull_request`. -/
  isPullRequest : Bool
  createdAt : Option ℤ
  closedAt : Option ℤ
  repositoryUrl : Option Text
  deriving DecidableEq, Repr

namespace GithubSearchIssue

/-- The text behind the first place of a pattern. -/
def afterFirst (pat : Text) : Text → Option Text
  | [] => pat.isPrefixOf? []
  | c :: t => (pat.isPrefixOf? (c :: t)).or (afterFirst pat t)

/-- The owner and the name of the repository, out of its URL. -/
def repoFullName (hit : GithubSearchIssue) : Option Text :=
  match hit.repositoryUrl.bind (afterFirst "/repos/".toList) with
  | none => none
  | some tail =>
    let tail := tail.trimEndMatches (· == '/')
    if tail = [] ∨ '/' ∉ tail then none else some tail

end GithubSearchIssue

namespace Github

def MAX_PAGES : ℕ := 30

def PAGE_SIZE : ℕ := 100

/-! ### What a walk is for -/

structure SelfIdentity where
  userId : ℤ
  login : Text
  deriving DecidableEq, Repr

structure WalkInput where
  newV5 : Uuid → List UInt8 → Uuid
  /-- `Url::join`, with the text of its error. -/
  joinUrl : Text → Text → Except Text Text
  apiBaseUrl : Text
  sourceId : Uuid
  displayId : Uuid → Text
  sourceIdentities : List SourceIdentity
  day : NaiveDate
  localTz : FixedOffset

/-- The first identity of a kind, among those of the source and those of every source. -/
def firstOfKind (kind : SourceIdentityKind) (identities : List SourceIdentity)
    (sourceId : Uuid) : Option Text :=
  (identities.find? fun i =>
    i.kind = kind ∧ (i.sourceId = none ∨ i.sourceId = some sourceId)).map (·.externalActorId)

/-- Both the id and the login of the user are needed. -/
def selfIdentity (identities : List SourceIdentity) (sourceId : Uuid) : Option SelfIdentity :=
  match (firstOfKind .gitHubUserId identities sourceId).bind parseI64,
    firstOfKind .gitHubLogin identities sourceId with
  | some userId, some login => some ⟨userId, login⟩
  | _, _ => none

structure WalkOutcome where
  events : List ActivityEvent
  fetchedCount : ℕ
  filteredByIdentity : ℕ
  filteredByDate : ℕ
  droppedByShape : ℕ
  dedupedByExternalId : ℕ

/-- `WalkOutcome::default`. -/
def WalkOutcome.empty : WalkOutcome := ⟨[], 0, 0, 0, 0, 0⟩

/-- `saturating_add` on a `u64`. -/
def saturatingAdd (a b : ℕ) : ℕ := min (a + b) (2 ^ 64 - 1)

namespace WalkOutcome

variable (out : WalkOutcome)

def fetch (n : ℕ) : WalkOutcome := { out with fetchedCount := saturatingAdd out.fetchedCount n }

def filterIdentity : WalkOutcome :=
  { out with filteredByIdentity := saturatingAdd out.filteredByIdentity 1 }

def filterDate : WalkOutcome :=
  { out with filteredByDate := saturatingAdd out.filteredByDate 1 }

def dropShape : WalkOutcome :=
  { out with droppedByShape := saturatingAdd out.droppedByShape 1 }

def dedup : WalkOutcome :=
  { out with dedupedByExternalId := saturatingAdd out.dedupedByExternalId 1 }

def push (e : ActivityEvent) : WalkOutcome := { out with events := out.events ++ [e] }

end WalkOutcome

/-! ### Requests -/

inductive GithubUpstreamError
  | authInvalidCredentials
  | authMissingScope
  | resourceNotFound (message : Text)
  | resourceGone (message : Text)
  | rateLimited (retryAfterSecs : ℕ)
  | upstream5xx (status : ℕ) (message : Text)
  | shapeChanged (message : Text)
  deriving DecidableEq, Repr

def GithubUpstreamError.toDayseamError (displayStatus : ℕ → Text) :
    GithubUpstreamError → DayseamError
  | .authInvalidCredentials => .auth "github.auth.invalid_credentials".toList
      "GitHub rejected the personal access token".toList false
      (some ("Open Settings, select this source, and click Reconnect to paste a fresh " ++
        "PAT.").toList)
  | .authMissingScope => .auth "github.auth.missing_scope".toList
      ("PAT is valid but missing a scope Dayseam needs (classic PAT: read:user + repo + " ++
        "read:org; fine-grained PAT: read-only Metadata, Issues, Pull requests, Contents)").toList
      false (some "Generate a fresh PAT with the required scopes and reconnect this source.".toList)
  | .resourceNotFound message => .network "github.resource_not_found".toList message
  | .resourceGone message => .network "github.resource_gone".toList
      ("GitHub resource returned 410 Gone: ".toList ++ message)
  | .rateLimited retryAfterSecs => .rateLimited "github.rate_limited".toList retryAfterSecs
  | .upstream5xx status message => .network "github.upstream_5xx".toList
      ("GitHub returned ".toList ++ displayStatus status ++ ": ".toList ++ message)
  | .shapeChanged message => .upstreamChanged "github.upstream_shape_changed".toList message

/-- The error of a status that is not a success. -/
def mapStatus (displayStatus : ℕ → Text) (status : ℕ) (message : Text) : GithubUpstreamError :=
  if status = 401 then .authInvalidCredentials
  else if status = 403 then .authMissingScope
  else if status = 404 then .resourceNotFound message
  else if status = 410 then .resourceGone message
  else if status = 429 then .rateLimited 0
  else if 500 ≤ status ∧ status < 600 then .upstream5xx status message
  else .upstream5xx status
    ("unexpected status ".toList ++ displayStatus status ++ ": ".toList ++ message)

/-- A response, with its `Link` header where that is visible ASCII. -/
structure Answer where
  status : ℕ
  link : Option Text
  body : Text

/-- What one of the streams meets: whether the walk is cancelled before page `i`, what
request `i` brings, and how a body is read. -/
structure Requests (α : Type) where
  cancelled : ℕ → Bool
  /-- `authenticate` and `HttpClient::send`. -/
  send : ℕ → Text → Except DayseamError Answer
  decode : Text → Except Text (List α)

structure WalkEnv where
  feed : Requests GithubEvent
  search : Requests GithubSearchIssue
  /-- `Url::parse` and the text of the URL. -/
  parseUrl : Text → Option Text
  displayStatus : ℕ → Text

structure Page (α : Type) where
  rows : List α
  link : Option Text
  deriving DecidableEq, Repr

variable (w : WalkInput) (env : WalkEnv)

section Requests

variable {α : Type} (requests : Requests α)

/-- Request page `i` and read its link and its body. -/
def fetchPage (what : Text) (i : ℕ) (url : Text) : Except DayseamError (Page α) :=
  match requests.send i url with
  | .error err => .error err
  | .ok answer =>
    if 200 ≤ answer.status ∧ answer.status < 300 then
      match requests.decode answer.body with
      | .ok rows =>
        .ok ⟨rows, answer.link.bind (LinkHeader.parseNextFromLinkHeader env.parseUrl)⟩
      | .error e => .error (GithubUpstreamError.toDayseamError env.displayStatus (.shapeChanged
          (what ++ " page ".toList ++ Nat.toDigits 10 i ++ " failed to decode: ".toList ++ e)))
    else .error ((mapStatus env.displayStatus answer.status answer.body).toDayseamError
      env.displayStatus)

def cancelledAt (message : Text) (i : ℕ) : Option DayseamError :=
  if requests.cancelled i then some (.cancelled "run.cancelled.by_user".toList message) else none

end Requests

def badApiBaseUrl (path e : Text) : DayseamError :=
  .invalidConfig "github.config.bad_api_base_url".toList
    ("cannot join `".toList ++ path ++ "`: ".toList ++ e)

/-- A link is left when the pages that may be read are used up. -/
def capTripped (what : Text) : DayseamError :=
  .internal "connector.github.pagination.cycle_guard_tripped".toList
    ("github ".toList ++ what ++ " pagination cap hit: ".toList ++ Nat.toDigits 10 MAX_PAGES ++
      " pages × ".toList ++ Nat.toDigits 10 PAGE_SIZE ++ " rows exceeded for source_id=".toList ++
      w.displayId w.sourceId ++ " without a rel=\"next\" terminator".toList)

/-- Where a row lies relative to the day. -/
def WalkInput.rowDate (row : GithubEvent) : RowDate :=
  Github.rowDate (Connectors.dayBoundsUtc w.day w.localTz).1
    (Connectors.endUtcExclusive w.day w.localTz) row.createdAt

/-- Whether an instant of a hit lies in the day. -/
def WalkInput.inWindow (t : ℤ) : Bool :=
  Github.inWindow (Connectors.dayBoundsUtc w.day w.localTz).1
    (Connectors.endUtcExclusive w.day w.localTz) t

/-! ### The feed -/

variable (me : SelfIdentity)

/-- The outcome, and the ids of the rows that were read. -/
structure FeedState where
  out : WalkOutcome
  seenEventIds : List Text

def readFeedRow (s : FeedState) (row : GithubEvent) : FeedState :=
  if row.actor.id ≠ me.userId then { s with out := s.out.filterIdentity }
  else match w.rowDate row with
    | .before => { s with out := s.out.filterDate }
    | .after => { s with out := s.out.filterDate }
    | .inside =>
      if row.id ∈ s.seenEventIds then s
      else match normaliseEvent w.newV5 w.sourceId row with
        | some e => ⟨s.out.push e, row.id :: s.seenEventIds⟩
        | none => ⟨s.out.dropShape, row.id :: s.seenEventIds⟩

def readFeedPage (s : FeedState) (page : Page GithubEvent) : FeedState :=
  page.rows.foldl (readFeedRow w me) { s with out := s.out.fetch page.rows.length }

/-- A row of the user from before the day. -/
def reachedWindowFloor (rows : List GithubEvent) : Bool :=
  rows.any fun row => row.actor.id = me.userId ∧ w.rowDate row = .before

def feedStops (page : Page GithubEvent) : Bool :=
  page.rows.isEmpty || reachedWindowFloor w me page.rows

/-- The feed, with the size of its first page; the links carry it on. -/
def feedUrl : Except DayseamError Text :=
  match w.joinUrl w.apiBaseUrl ("users/".toList ++ me.login ++ "/events".toList) with
  | .ok url => .ok (url ++ '?' :: Urlencoded.serialize
      [Atlassian.textPair "per_page" (Nat.toDigits 10 PAGE_SIZE)])
  | .error e => .error (badApiBaseUrl "/users/:login/events".toList e)

def walkUserEvents : Except DayseamError FeedState :=
  match feedUrl w me with
  | .error err => .error err
  | .ok initial =>
    Paging.followAll (cancelledAt env.feed "github walk cancelled".toList)
      (fetchPage env env.feed "events".toList) (·.link) (feedStops w me) (readFeedPage w me)
      (capTripped w "events".toList) MAX_PAGES initial ⟨.empty, []⟩

/-! ### The search -/

def hitTitle (kind : ActivityKind) (hit : GithubSearchIssue) : Text :=
  match kind with
  | .gitHubPullRequestOpened => "Opened PR: ".toList ++ hit.title
  | .gitHubPullRequestClosed => "Closed PR: ".toList ++ hit.title
  | .gitHubIssueOpened => "Opened issue: ".toList ++ hit.title
  | .gitHubIssueClosed => "Closed issue: ".toList ++ hit.title
  | _ => hit.title

def searchHitToActivityEvent (hit : GithubSearchIssue) (repoFullName externalId : Text)
    (kind : ActivityKind) (occurredAt : ℤ) : ActivityEvent where
  id := ActivityEvent.deterministicId w.newV5 w.sourceId externalId kind
  sourceId := w.sourceId
  externalId := externalId
  kind := kind
  occurredAt := occurredAt
  actor :=
    let user := hit.user.getD ⟨0, "unknown".toList⟩
    ⟨user.login, none, some (i64Text user.id)⟩
  title := hitTitle kind hit
  body := none
  links := [⟨hit.htmlUrl, some ('#' :: i64Text hit.number)⟩]
  entities := [⟨.gitHubRepo, repoFullName, (repoFullName.splitOn '/').getLast?⟩,
    ⟨if hit.isPullRequest then .gitHubPullRequest else .gitHubIssue, externalId,
      some ('#' :: i64Text hit.number)⟩]
  parentExternalId := some externalId
  metadata := .object [("source".toList, .string "search/issues".toList),
    ("repo".toList, .string repoFullName), ("number".toList, .number (i64Text hit.number))]
  privacy := .normal

def openedKind (hit : GithubSearchIssue) : ActivityKind :=
  if hit.isPullRequest then .gitHubPullRequestOpened else .gitHubIssueOpened

/-- A pull request that was merged counts as closed. -/
def closedKind (hit : GithubSearchIssue) : ActivityKind :=
  if hit.isPullRequest then .gitHubPullRequestClosed else .gitHubIssueClosed

/-- The events of a hit whose instants lie in the day. -/
def synthesiseEvents (hit : GithubSearchIssue) : List ActivityEvent :=
  match hit.repoFullName with
  | none => []
  | some fullName =>
    let eventOf := searchHitToActivityEvent w hit fullName (threadId fullName hit.number)
    ((hit.createdAt.filter w.inWindow).map (eventOf (openedKind hit))).toList ++
      ((hit.closedAt.filter w.inWindow).map (eventOf (closedKind hit))).toList

/-- The outcome, and the identities that the search has brought. -/
structure SearchState where
  out : WalkOutcome
  newSeen : List (Text × ActivityKind)

def readHitEvent (alreadySeen : List (Text × ActivityKind)) (s : SearchState)
    (e : ActivityEvent) : SearchState :=
  if identity e ∈ alreadySeen ∨ identity e ∈ s.newSeen then { s with out := s.out.dedup }
  else ⟨s.out.push e, identity e :: s.newSeen⟩

def readHit (alreadySeen : List (Text × ActivityKind)) (s : SearchState)
    (hit : GithubSearchIssue) : SearchState :=
  match hit.user with
  | none => s
  | some user =>
    if user.id ≠ me.userId then { s with out := s.out.filterIdentity }
    else (synthesiseEvents w hit).foldl (readHitEvent alreadySeen) s

def readSearchPage (alreadySeen : List (Text × ActivityKind)) (s : SearchState)
    (page : Page GithubSearchIssue) : SearchState :=
  page.rows.foldl (readHit w me alreadySeen) { s with out := s.out.fetch page.rows.length }

def searchStops (page : Page GithubSearchIssue) : Bool := page.rows.isEmpty

/-- An instant in whole seconds. -/
def secondsText (t : ℤ) : Text :=
  let u := Rfc3339.Instant.ofNanos t
  Calendar.isoText u.day ++ 'T' :: (Calendar.padded 2 (u.secs / 3600) ++ ':' ::
    (Calendar.padded 2 (u.secs / 60 % 60) ++ ':' ::
      (Calendar.padded 2 (u.secs % 60) ++ ['Z'])))

def searchQuery : Text :=
  "involves:".toList ++ me.login ++ " updated:".toList ++
    secondsText (Connectors.dayBoundsUtc w.day w.localTz).1 ++ "..".toList ++
      secondsText (Connectors.endUtcExclusive w.day w.localTz)

def searchUrl : Except DayseamError Text :=
  match w.joinUrl w.apiBaseUrl "search/issues".toList with
  | .ok url => .ok (url ++ '?' :: Urlencoded.serialize
      [Atlassian.textPair "q" (searchQuery w me),
        Atlassian.textPair "per_page" (Nat.toDigits 10 PAGE_SIZE)])
  | .error e => .error (badApiBaseUrl "/search/issues".toList e)

def walkSearchIssues (alreadySeen : List (Text × ActivityKind)) (out : WalkOutcome) :
    Except DayseamError SearchState :=
  match searchUrl w me with
  | .error err => .error err
  | .ok initial =>
    Paging.followAll (cancelledAt env.search "github search walk cancelled".toList)
      (fetchPage env env.search "search/issues".toList) (·.link) searchStops
      (readSearchPage w me alreadySeen) (capTripped w "search/issues".toList) MAX_PAGES initial
      ⟨out, []⟩

/-! ### The walk -/

/-- The feed is read first, and what it told of is known to the search. -/
def walkDay : Except DayseamError WalkOutcome :=
  match selfIdentity w.sourceIdentities w.sourceId with
  | none => .ok .empty
  | some me =>
    match walkUserEvents w env me with
    | .error err => .error err
    | .ok feed =>
      (walkSearchIssues w env me (feed.out.events.map identity) feed.out).map fun search =>
        { search.out with
          events := Connectors.sortByInstant (collapseRapidReviews search.out.events) }

/-! ### What the streams tell of -/

variable {w env me}

/-- A row of the user in the day. -/
def InFeed (w : WalkInput) (me : SelfIdentity) (row : GithubEvent) : Prop :=
  row.actor.id = me.userId ∧ w.rowDate row = .inside

instance decidableInFeed (w : WalkInput) (me : SelfIdentity) : DecidablePred (InFeed w me) :=
  fun _ => inferInstanceAs (Decidable (_ ∧ _))

/-- The events of the rows in the day, of which each counts once. -/
def feedEvents (w : WalkInput) (me : SelfIdentity) (rows : List GithubEvent) :
    List ActivityEvent :=
  (firsts (·.id) [] (rows.filter (InFeed w me))).filterMap (normaliseEvent w.newV5 w.sourceId)

/-- The events of a hit by the user. -/
def hitEvents (w : WalkInput) (me : SelfIdentity) (hit : GithubSearchIssue) :
    List ActivityEvent :=
  if hit.user.map (·.id) = some me.userId then synthesiseEvents w hit else []

/-- The events of the hits whose identities are new. -/
def searchEvents (w : WalkInput) (me : SelfIdentity) (alreadySeen : List (Text × ActivityKind))
    (hits : List GithubSearchIssue) : List ActivityEvent :=
  firsts identity alreadySeen (hits.flatMap (hitEvents w me))

/-- The events of a day. -/
def dayEvents (w : WalkInput) (me : SelfIdentity) (rows : List GithubEvent)
    (hits : List GithubSearchIssue) : List ActivityEvent :=
  Connectors.sortByInstant (collapseRapidReviews (feedEvents w me rows ++
    searchEvents w me ((feedEvents w me rows).map identity) hits))

/-- A state in which the feed was read as far as `rows`. -/
structure FeedTells (w : WalkInput) (me : SelfIdentity) (rows : List GithubEvent)
    (s : FeedState) : Prop where
  events : s.out.events = feedEvents w me rows
  seen : s.seenEventIds = known (·.id) [] (rows.filter (InFeed w me))

theorem readFeedRow_tells {rows : List GithubEvent} {s : FeedState} (h : FeedTells w me rows s)
    (row : GithubEvent) : FeedTells w me (rows ++ [row]) (readFeedRow w me s row) := by
  by_cases hin : InFeed w me row
  · have hfilter : (rows ++ [row]).filter (InFeed w me) = rows.filter (InFeed w me) ++ [row] := by
      simp [hin]
    have hknown : known (·.id) [] ((rows ++ [row]).filter (InFeed w me)) =
        if row.id ∈ s.seenEventIds then s.seenEventIds else row.id :: s.seenEventIds := by
      rw [hfilter, Firsts.known_concat, h.seen]
      split_ifs <;> rfl
    have hevents : feedEvents w me (rows ++ [row]) = s.out.events ++
        (firsts (·.id) s.seenEventIds [row]).filterMap (normaliseEvent w.newV5 w.sourceId) := by
      rw [feedEvents, hfilter, Firsts.firsts_append, List.filterMap_append, ← h.seen, h.events,
        feedEvents]
    by_cases hseen : row.id ∈ s.seenEventIds
    · have hread : readFeedRow w me s row = s := by
        simp [readFeedRow, hin.1, hin.2, hseen]
      rw [hread]
      refine ⟨?_, ?_⟩
      · simp [hevents, firsts, hseen]
      · rw [hknown, if_pos hseen]
    · cases hnorm : normaliseEvent w.newV5 w.sourceId row with
      | some e =>
        have hread : readFeedRow w me s row = ⟨s.out.push e, row.id :: s.seenEventIds⟩ := by
          simp [readFeedRow, hin.1, hin.2, hseen, hnorm]
        rw [hread]
        refine ⟨?_, ?_⟩
        · simp [hevents, firsts, hseen, hnorm, WalkOutcome.push]
        · rw [hknown, if_neg hseen]
      | none =>
        have hread : readFeedRow w me s row = ⟨s.out.dropShape, row.id :: s.seenEventIds⟩ := by
          simp [readFeedRow, hin.1, hin.2, hseen, hnorm]
        rw [hread]
        refine ⟨?_, ?_⟩
        · simp [hevents, firsts, hseen, hnorm, WalkOutcome.dropShape]
        · rw [hknown, if_neg hseen]
  · -- a row of somebody else or of another day only moves a counter
    have hfilter : (rows ++ [row]).filter (InFeed w me) = rows.filter (InFeed w me) := by
      simp [hin]
    have hread : (readFeedRow w me s row).out.events = s.out.events ∧
        (readFeedRow w me s row).seenEventIds = s.seenEventIds := by
      unfold readFeedRow
      by_cases hme : row.actor.id = me.userId
      · rw [if_neg (not_not.mpr hme)]
        cases hdate : w.rowDate row with
        | before => exact ⟨rfl, rfl⟩
        | after => exact ⟨rfl, rfl⟩
        | inside => exact absurd ⟨hme, hdate⟩ hin
      · rw [if_pos hme]
        exact ⟨rfl, rfl⟩
    exact ⟨by rw [hread.1, h.events, feedEvents, feedEvents, hfilter],
      by rw [hread.2, h.seen, hfilter]⟩

theorem readFeedPage_tells {rows : List GithubEvent} {s : FeedState} (h : FeedTells w me rows s)
    (page : Page GithubEvent) : FeedTells w me (rows ++ page.rows) (readFeedPage w me s page) := by
  have hrows : ∀ (more : List GithubEvent) {rows : List GithubEvent} {s : FeedState},
      FeedTells w me rows s → FeedTells w me (rows ++ more) (more.foldl (readFeedRow w me) s) := by
    intro more
    induction more with
    | nil =>
      intro rows s h
      rw [List.append_nil]
      exact h
    | cons row more ih =>
      intro rows s h
      rw [List.append_cons]
      exact ih (readFeedRow_tells h row)
  have hfetch : FeedTells w me rows { s with out := s.out.fetch page.rows.length } :=
    ⟨h.events, h.seen⟩
  exact hrows page.rows hfetch

theorem foldl_readFeedPage_tells (pages : List (Page GithubEvent)) :
    FeedTells w me (pages.flatMap (·.rows))
      (pages.foldl (readFeedPage w me) ⟨.empty, []⟩) := by
  induction pages using List.reverseRecOn with
  | nil => exact ⟨rfl, rfl⟩
  | append_singleton pages page ih =>
    rw [List.foldl_concat, List.flatMap_append, List.flatMap_singleton]
    exact readFeedPage_tells ih page

/-- A state in which the search has brought `told`, behind the outcome `out`. -/
structure SearchTells (alreadySeen : List (Text × ActivityKind)) (out : WalkOutcome)
    (told : List ActivityEvent) (s : SearchState) : Prop where
  events : s.out.events = out.events ++ firsts identity alreadySeen told
  seen : ∀ k, k ∈ alreadySeen ∨ k ∈ s.newSeen ↔ k ∈ known identity alreadySeen told

variable {alreadySeen : List (Text × ActivityKind)} {out : WalkOutcome}

theorem readHitEvent_tells {told : List ActivityEvent} {s : SearchState}
    (h : SearchTells alreadySeen out told s) (e : ActivityEvent) :
    SearchTells alreadySeen out (told ++ [e]) (readHitEvent alreadySeen s e) := by
  have hevents : out.events ++ firsts identity alreadySeen (told ++ [e]) = s.out.events ++
      firsts identity (known identity alreadySeen told) [e] := by
    rw [Firsts.firsts_append, ← List.append_assoc, h.events]
  unfold readHitEvent
  by_cases hseen : identity e ∈ known identity alreadySeen told
  · rw [if_pos ((h.seen _).mpr hseen)]
    refine ⟨by simp [hevents, firsts, hseen, WalkOutcome.dedup], fun k => ?_⟩
    rw [Firsts.known_concat, if_pos hseen, ← h.seen]
  · rw [if_neg fun hmem => hseen ((h.seen _).mp hmem)]
    refine ⟨by simp [hevents, firsts, hseen, WalkOutcome.push], fun k => ?_⟩
    rw [Firsts.known_concat, if_neg hseen, List.mem_cons, List.mem_cons, ← h.seen]
    tauto

theorem readHit_tells {told : List ActivityEvent} {s : SearchState}
    (h : SearchTells alreadySeen out told s) (hit : GithubSearchIssue) :
    SearchTells alreadySeen out (told ++ hitEvents w me hit) (readHit w me alreadySeen s hit) := by
  have hfold : ∀ (more : List ActivityEvent) {told : List ActivityEvent} {s : SearchState},
      SearchTells alreadySeen out told s →
        SearchTells alreadySeen out (told ++ more) (more.foldl (readHitEvent alreadySeen) s) := by
    intro more
    induction more with
    | nil =>
      intro told s h
      rw [List.append_nil]
      exact h
    | cons e more ih =>
      intro told s h
      rw [List.append_cons]
      exact ih (readHitEvent_tells h e)
  unfold readHit hitEvents
  cases hit.user with
  | none => simpa using h
  | some user =>
    by_cases hme : user.id = me.userId
    · simpa [hme] using hfold _ h
    · have hother : SearchTells alreadySeen out told { s with out := s.out.filterIdentity } :=
        ⟨h.events, h.seen⟩
      simpa [hme] using hother

theorem foldl_readSearchPage_tells (pages : List (Page GithubSearchIssue)) :
    SearchTells alreadySeen out ((pages.flatMap (·.rows)).flatMap (hitEvents w me))
      (pages.foldl (readSearchPage w me alreadySeen) ⟨out, []⟩) := by
  have hfold : ∀ (hits : List GithubSearchIssue) {told : List ActivityEvent} {s : SearchState},
      SearchTells alreadySeen out told s →
        SearchTells alreadySeen out (told ++ hits.flatMap (hitEvents w me))
          (hits.foldl (readHit w me alreadySeen) s) := by
    intro hits
    induction hits with
    | nil =>
      intro told s h
      rw [List.flatMap_nil, List.append_nil]
      exact h
    | cons hit hits ih =>
      intro told s h
      rw [List.flatMap_cons, ← List.append_assoc]
      exact ih (readHit_tells h hit)
  induction pages using List.reverseRecOn with
  | nil => exact ⟨by simp [firsts], fun k => by simp [known]⟩
  | append_singleton pages page ih =>
    rw [List.foldl_concat, List.flatMap_append, List.flatMap_singleton, List.flatMap_append]
    exact hfold page.rows ⟨ih.events, ih.seen⟩

/-! ### The events of a walk -/

/-- The rows of the feed that the walk is served. -/
def FeedRead (w : WalkInput) (env : WalkEnv) (me : SelfIdentity) (rows : List GithubEvent) :
    Prop :=
  ∃ initial pages, feedUrl w me = .ok initial ∧
    ServedAll (cancelledAt env.feed "github walk cancelled".toList)
      (fetchPage env env.feed "events".toList) (·.link) (feedStops w me) MAX_PAGES initial pages ∧
    rows = pages.flatMap (·.rows)

/-- The hits of the search that the walk is served. -/
def SearchRead (w : WalkInput) (env : WalkEnv) (me : SelfIdentity)
    (hits : List GithubSearchIssue) : Prop :=
  ∃ initial pages, searchUrl w me = .ok initial ∧
    ServedAll (cancelledAt env.search "github search walk cancelled".toList)
      (fetchPage env env.search "search/issues".toList) (·.link) searchStops MAX_PAGES initial
      pages ∧ hits = pages.flatMap (·.rows)

theorem exists_walkUserEvents_iff {events : List ActivityEvent} :
    (∃ s, walkUserEvents w env me = .ok s ∧ s.out.events = events) ↔
      ∃ rows, FeedRead w env me rows ∧ events = feedEvents w me rows := by
  unfold walkUserEvents FeedRead
  cases feedUrl w me with
  | error err => simp
  | ok initial =>
    simp only [Paging.followAll_eq_ok_iff, Except.ok.injEq]
    constructor
    · rintro ⟨s, ⟨pages, hserved, rfl⟩, rfl⟩
      exact ⟨_, ⟨initial, pages, rfl, hserved, rfl⟩, (foldl_readFeedPage_tells pages).events⟩
    · rintro ⟨rows, ⟨initial', pages, rfl, hserved, rfl⟩, rfl⟩
      exact ⟨_, ⟨pages, hserved, rfl⟩, (foldl_readFeedPage_tells pages).events⟩

theorem exists_walkSearchIssues_iff {events : List ActivityEvent} :
    (∃ s, walkSearchIssues w env me alreadySeen out = .ok s ∧ s.out.events = events) ↔
      ∃ hits, SearchRead w env me hits ∧
        events = out.events ++ searchEvents w me alreadySeen hits := by
  unfold walkSearchIssues SearchRead
  cases searchUrl w me with
  | error err => simp
  | ok initial =>
    simp only [Paging.followAll_eq_ok_iff, Except.ok.injEq]
    constructor
    · rintro ⟨s, ⟨pages, hserved, rfl⟩, rfl⟩
      exact ⟨_, ⟨initial, pages, rfl, hserved, rfl⟩, (foldl_readSearchPage_tells pages).events⟩
    · rintro ⟨hits, ⟨initial', pages, rfl, hserved, rfl⟩, rfl⟩
      exact ⟨_, ⟨pages, hserved, rfl⟩, (foldl_readSearchPage_tells pages).events⟩

/-- **The events of a walk that ends well** are those of the rows and the hits that it was
served, in at most thirty pages of each and without an error. -/
theorem walkDay_events_iff (events : List ActivityEvent) :
    (walkDay w env).map (·.events) = .ok events ↔
      (selfIdentity w.sourceIdentities w.sourceId = none ∧ events = []) ∨
        ∃ me ∈ selfIdentity w.sourceIdentities w.sourceId, ∃ rows hits,
          FeedRead w env me rows ∧ SearchRead w env me hits ∧
            events = dayEvents w me rows hits := by
  unfold walkDay
  cases selfIdentity w.sourceIdentities w.sourceId with
  | none => simp [Except.map, WalkOutcome.empty, eq_comm]
  | some me =>
    simp only [reduceCtorEq, false_and, false_or, Option.mem_some_iff, exists_eq_left']
    constructor
    · intro h
      obtain ⟨out, hwalk, rfl⟩ := Paging.exists_of_map_eq_ok h
      cases hfeed : walkUserEvents w env me with
      | error err => simp [hfeed] at hwalk
      | ok feed =>
        simp only [hfeed] at hwalk
        obtain ⟨search, hsearch, rfl⟩ := Paging.exists_of_map_eq_ok hwalk
        obtain ⟨rows, hrows, hevents⟩ := exists_walkUserEvents_iff.mp ⟨feed, hfeed, rfl⟩
        obtain ⟨hits, hhits, hmore⟩ := exists_walkSearchIssues_iff.mp ⟨search, hsearch, rfl⟩
        refine ⟨rows, hits, hrows, hhits, ?_⟩
        rw [dayEvents, ← hevents, ← hmore]
    · rintro ⟨rows, hits, hrows, hhits, rfl⟩
      obtain ⟨feed, hfeed, hevents⟩ := exists_walkUserEvents_iff.mpr ⟨rows, hrows, rfl⟩
      obtain ⟨search, hsearch, hmore⟩ := exists_walkSearchIssues_iff.mpr ⟨hits, hhits, rfl⟩
      rw [hfeed]
      simp only
      rw [hsearch]
      simp only [Except.map, hmore, hevents, dayEvents]

/-! ### The identities of the events -/

theorem parent_of_normaliseEvent {row : GithubEvent} {e : ActivityEvent}
    (h : normaliseEvent w.newV5 w.sourceId row = some e) :
    e.parentExternalId = some e.externalId := by
  unfold normaliseEvent at h
  cases hp : row.payload with
  | push | unknown => rw [hp] at h; cases h
  | pullRequest action pr | pullRequestReview action pr _ | pullRequestReviewComment action pr _
  | issues action pr _ | issueComment action pr _ =>
    rw [hp] at h
    obtain ⟨kind, -, rfl⟩ := Option.map_eq_some_iff.mp h
    rfl

/-- An event of a hit, with the instant that it is for. -/
theorem mem_synthesiseEvents_iff {hit : GithubSearchIssue} {e : ActivityEvent} :
    e ∈ synthesiseEvents w hit ↔ ∃ fullName ∈ hit.repoFullName, ∃ kind t,
      (kind = openedKind hit ∧ hit.createdAt = some t ∨
        kind = closedKind hit ∧ hit.closedAt = some t) ∧ w.inWindow t = true ∧
          e = searchHitToActivityEvent w hit fullName (threadId fullName hit.number) kind t := by
  unfold synthesiseEvents
  cases hit.repoFullName with
  | none => simp
  | some fullName =>
    simp only [List.mem_append, Option.mem_toList, Option.map_eq_some_iff,
      Option.filter_eq_some_iff, Option.mem_some_iff, exists_eq_left']
    constructor
    · rintro (⟨t, ⟨ht, hin⟩, rfl⟩ | ⟨t, ⟨ht, hin⟩, rfl⟩)
      · exact ⟨_, t, Or.inl ⟨rfl, ht⟩, hin, rfl⟩
      · exact ⟨_, t, Or.inr ⟨rfl, ht⟩, hin, rfl⟩
    · rintro ⟨kind, t, ⟨rfl, ht⟩ | ⟨rfl, ht⟩, hin, rfl⟩
      · exact Or.inl ⟨t, ⟨ht, hin⟩, rfl⟩
      · exact Or.inr ⟨t, ⟨ht, hin⟩, rfl⟩

/-- The search brings no reviews. -/
theorem isReview_of_mem_synthesise {hit : GithubSearchIssue} {e : ActivityEvent}
    (h : e ∈ synthesiseEvents w hit) : isReview e = false := by
  obtain ⟨fullName, -, kind, t, hkind, -, rfl⟩ := mem_synthesiseEvents_iff.mp h
  rcases hkind with ⟨rfl, -⟩ | ⟨rfl, -⟩
  · cases hpr : hit.isPullRequest <;> simp [isReview, searchHitToActivityEvent, openedKind, hpr]
  · cases hpr : hit.isPullRequest <;> simp [isReview, searchHitToActivityEvent, closedKind, hpr]

theorem exists_hit_of_mem_searchEvents {hits : List GithubSearchIssue} {e : ActivityEvent}
    (h : e ∈ searchEvents w me alreadySeen hits) : ∃ hit ∈ hits, e ∈ synthesiseEvents w hit := by
  obtain ⟨hit, hhit, he⟩ := List.mem_flatMap.mp (Firsts.firsts_sublist.subset h)
  unfold hitEvents at he
  split_ifs at he
  · exact ⟨hit, hhit, he⟩
  · cases he

/-- The collapse of rapid reviews loses no identity, where a review is filed under its own
thread. -/
theorem mem_identity_collapse_iff {events : List ActivityEvent}
    (hparent : ∀ e ∈ events, isReview e = true → e.parentExternalId = some e.externalId)
    {x : Text × ActivityKind} :
    x ∈ (collapseRapidReviews events).map identity ↔ x ∈ events.map identity := by
  have hother : ∀ e, isReview e = false → (e ∈ collapseRapidReviews events ↔ e ∈ events) := by
    intro e he
    have hfilter := congrArg (e ∈ ·) (@filter_not_isReview_collapse events)
    simpa [List.mem_filter, he] using hfilter
  constructor
  · intro hx
    obtain ⟨c, hc, rfl⟩ := List.mem_map.mp hx
    cases hrev : isReview c with
    | false => exact List.mem_map_of_mem ((hother c hrev).mp hc)
    | true =>
      -- a folded review keeps the identity of the first review of its run
      have hfold : ∀ c ∈ collapsedReviews events, ∃ e ∈ events, identity c = identity e :=
        @Collapse.forall_mem_collapse _ _ foldsInto id foldReview
          (fun c => ∃ e ∈ events, identity c = identity e) _
          (fun a ha => ⟨a, (mem_sortedReviews.mp ha).1, rfl⟩) (fun _ _ _ _ hb => hb)
      obtain ⟨e, he, heq⟩ := hfold c ((mem_collapse_iff hrev).mp hc)
      rw [heq]
      exact List.mem_map_of_mem he
  · intro hx
    obtain ⟨e, he, rfl⟩ := List.mem_map.mp hx
    cases hrev : isReview e with
    | false => exact List.mem_map_of_mem ((hother e hrev).mpr he)
    | true =>
      have hsorted : e ∈ sortedReviews events := mem_sortedReviews.mpr ⟨he, hrev⟩
      have hflat := (runs_sortedReviews events).flatten
      rw [← hflat] at hsorted
      obtain ⟨run, hrun, hmem⟩ := List.mem_flatten.mp hsorted
      obtain ⟨c, hc, hbuilds⟩ := Collapse.exists_right_of_mem (forall₂_builds events) hrun
      have hcrev := isReview_of_mem_collapsed hc
      refine List.mem_map.mpr ⟨c, (mem_collapse_iff hcrev).mpr hc, ?_⟩
      have hfirst : ∃ a ∈ run, identity c = identity a :=
        @Collapse.builds_induction _ _ id foldReview
          (fun run c => ∃ a ∈ run, identity c = identity a)
          (fun a => ⟨a, List.mem_singleton_self a, rfl⟩)
          (fun run b a hb => by
            obtain ⟨z, hz, heq⟩ := hb
            exact ⟨z, List.mem_append_left _ hz, heq⟩) run c hbuilds
      obtain ⟨a, ha, heq⟩ := hfirst
      have hasorted : a ∈ sortedReviews events := by
        rw [← hflat]
        exact List.mem_flatten.mpr ⟨run, hrun, ha⟩
      obtain ⟨hae, harev⟩ := mem_sortedReviews.mp hasorted
      have hthread := (thread_of_mem_run hrun a ha e hmem).1
      rw [hparent a hae harev, hparent e he hrev] at hthread
      have hkind : a.kind = e.kind := by
        have ha' : a.kind = .gitHubPullRequestReviewed := by simpa [isReview] using harev
        have he' : e.kind = .gitHubPullRequestReviewed := by simpa [isReview] using hrev
        rw [ha', he']
      rw [heq, identity, identity, Option.some.inj hthread, hkind]

/-- The identities of the rows that the feed has in the day. -/
def FeedHas (w : WalkInput) (me : SelfIdentity) (rows : List GithubEvent)
    (x : Text × ActivityKind) : Prop :=
  ∃ row ∈ rows, InFeed w me row ∧ ∃ e ∈ normaliseEvent w.newV5 w.sourceId row, identity e = x

/-- The identities of what the hits by the user did in the day. -/
def SearchHas (w : WalkInput) (me : SelfIdentity) (hits : List GithubSearchIssue)
    (x : Text × ActivityKind) : Prop :=
  ∃ hit ∈ hits, hit.user.map (·.id) = some me.userId ∧
    ∃ e ∈ synthesiseEvents w hit, identity e = x

theorem searchHas_iff {hits : List GithubSearchIssue} {x : Text × ActivityKind} :
    SearchHas w me hits x ↔ x ∈ (hits.flatMap (hitEvents w me)).map identity := by
  simp only [SearchHas, List.mem_map, List.mem_flatMap, hitEvents]
  constructor
  · rintro ⟨hit, hhit, hme, e, he, rfl⟩
    exact ⟨e, ⟨hit, hhit, by rw [if_pos hme]; exact he⟩, rfl⟩
  · rintro ⟨e, ⟨hit, hhit, he⟩, rfl⟩
    split_ifs at he with hme
    · exact ⟨hit, hhit, hme, e, he, rfl⟩
    · cases he

/-- Rows with one event id are one row, which the server may send twice. -/
def DistinctIds (rows : List GithubEvent) : Prop :=
  ∀ a ∈ rows, ∀ b ∈ rows, a.id = b.id → a = b

theorem mem_identity_feedEvents_iff {rows : List GithubEvent} (hids : DistinctIds rows)
    {x : Text × ActivityKind} :
    x ∈ (feedEvents w me rows).map identity ↔ FeedHas w me rows x := by
  simp only [feedEvents, FeedHas, List.mem_map, List.mem_filterMap]
  constructor
  · rintro ⟨e, ⟨row, hrow, he⟩, rfl⟩
    have hmem := List.mem_filter.mp (Firsts.firsts_sublist.subset hrow)
    exact ⟨row, hmem.1, of_decide_eq_true hmem.2, e, he, rfl⟩
  · rintro ⟨row, hrow, hin, e, he, rfl⟩
    refine ⟨e, ⟨row, ?_, he⟩, rfl⟩
    apply Firsts.mem_firsts_of_unique (List.mem_filter.mpr ⟨hrow, decide_eq_true hin⟩)
    · exact List.not_mem_nil
    · intro b hb hid
      exact hids b (List.mem_filter.mp hb).1 row hrow hid

/-- **The events of a day are those of the two streams**, one identity after another. -/
theorem mem_identity_dayEvents_iff {rows : List GithubEvent} {hits : List GithubSearchIssue}
    (hids : DistinctIds rows) {x : Text × ActivityKind} :
    x ∈ (dayEvents w me rows hits).map identity ↔ FeedHas w me rows x ∨ SearchHas w me hits x := by
  have hparent : ∀ e ∈ feedEvents w me rows ++
      searchEvents w me ((feedEvents w me rows).map identity) hits,
      isReview e = true → e.parentExternalId = some e.externalId := by
    intro e he hrev
    rcases List.mem_append.mp he with he | he
    · obtain ⟨row, -, hnorm⟩ := List.mem_filterMap.mp he
      exact parent_of_normaliseEvent hnorm
    · obtain ⟨hit, -, hsynth⟩ := exists_hit_of_mem_searchEvents he
      rw [isReview_of_mem_synthesise hsynth] at hrev
      cases hrev
  have hsort : ∀ events : List ActivityEvent,
      x ∈ (Connectors.sortByInstant events).map identity ↔ x ∈ events.map identity := by
    intro events
    simp only [List.mem_map, Connectors.mem_sortByInstant]
  rw [dayEvents, hsort, mem_identity_collapse_iff hparent, List.map_append, List.mem_append,
    searchEvents, Firsts.mem_map_firsts_iff, ← searchHas_iff, mem_identity_feedEvents_iff hids]
  constructor
  · rintro (h | ⟨h, -⟩)
    · exact Or.inl h
    · exact Or.inr h
  · intro h
    by_cases hfeed : FeedHas w me rows x
    · exact Or.inl hfeed
    · exact Or.inr ⟨h.resolve_left hfeed, hfeed⟩

/-! ### Silent truncation -/

/-- The pages of the feed that the server has: newest first, none empty but perhaps the last. -/
structure FeedOffered (w : WalkInput) (env : WalkEnv) (me : SelfIdentity)
    (pages : List (Page GithubEvent)) : Prop where
  offered : ∃ initial, feedUrl w me = .ok initial ∧
    Offered (fetchPage env env.feed "events".toList) (·.link) initial pages
  newestFirst : (pages.flatMap (·.rows)).Pairwise fun a b => b.createdAt ≤ a.createdAt
  filled : ∀ page ∈ pages.dropLast, page.rows ≠ []
  distinct : DistinctIds (pages.flatMap (·.rows))

/-- The pages of the search that the server has, none empty but perhaps the last. -/
structure SearchOffered (w : WalkInput) (env : WalkEnv) (me : SelfIdentity)
    (pages : List (Page GithubSearchIssue)) : Prop where
  offered : ∃ initial, searchUrl w me = .ok initial ∧
    Offered (fetchPage env env.search "search/issues".toList) (·.link) initial pages
  filled : ∀ page ∈ pages.dropLast, page.rows ≠ []

/-- A walk that returns events has those of every row and every hit of the day, and one that
would have to read too many pages returns an error. -/
structure NoSilentTruncation (w : WalkInput) (env : WalkEnv) (me : SelfIdentity)
    (feedPages : List (Page GithubEvent)) (searchPages : List (Page GithubSearchIssue)) :
    Prop where
  tells : ∀ out, walkDay w env = .ok out → ∀ x, x ∈ out.events.map identity ↔
    FeedHas w me (feedPages.flatMap (·.rows)) x ∨ SearchHas w me (searchPages.flatMap (·.rows)) x
  trips : MAX_PAGES < (through (feedStops w me) feedPages).length ∨
    MAX_PAGES < searchPages.length → ∃ err, walkDay w env = .error err

variable {feedPages : List (Page GithubEvent)} {searchPages : List (Page GithubSearchIssue)}

/-- A row of the day is not behind the page at which the walk stops. -/
theorem mem_through_of_inFeed
    (hnewest : (feedPages.flatMap (·.rows)).Pairwise fun a b => b.createdAt ≤ a.createdAt)
    (hfilled : ∀ page ∈ feedPages.dropLast, page.rows ≠ []) {row : GithubEvent}
    (hrow : row ∈ feedPages.flatMap (·.rows)) (hin : InFeed w me row) :
    row ∈ (through (feedStops w me) feedPages).flatMap (·.rows) := by
  induction feedPages with
  | nil => exact hrow
  | cons page pages ih =>
    unfold through
    rw [List.flatMap_cons, List.mem_append] at hrow ⊢
    rcases hrow with hrow | hrow
    · exact Or.inl hrow
    · rw [List.flatMap_cons] at hnewest
      obtain ⟨-, hrest, holder⟩ := List.pairwise_append.mp hnewest
      have hne : pages ≠ [] := by
        rintro rfl
        cases hrow
      rw [List.dropLast_cons_of_ne_nil hne] at hfilled
      have hgo : feedStops w me page = false := by
        have hrows := hfilled page List.mem_cons_self
        simp only [feedStops, reachedWindowFloor, Bool.or_eq_false_iff, List.any_eq_false,
          decide_eq_true_eq, List.isEmpty_eq_false_iff]
        refine ⟨hrows, ?_⟩
        rintro old hold ⟨-, hbefore⟩
        -- the floor is not above a row of the day
        have hle : row.createdAt ≤ old.createdAt := holder old hold row hrow
        have hinside := (Connectors.rowDate_github_eq_inside _ _ _).mp hin.2
        have hstart : old.createdAt < (Connectors.dayBoundsUtc w.day w.localTz).1 := by
          unfold WalkInput.rowDate Github.rowDate at hbefore
          split_ifs at hbefore with hlt
          exact hlt
        omega
      rw [hgo]
      exact Or.inr (ih hrest (fun p hp => hfilled p (List.mem_cons_of_mem _ hp)) hrow)

theorem feedHas_through_iff (hfeed : FeedOffered w env me feedPages) {x : Text × ActivityKind} :
    FeedHas w me ((through (feedStops w me) feedPages).flatMap (·.rows)) x ↔
      FeedHas w me (feedPages.flatMap (·.rows)) x := by
  have hsub : ∀ row ∈ (through (feedStops w me) feedPages).flatMap (·.rows),
      row ∈ feedPages.flatMap (·.rows) := by
    intro row hrow
    obtain ⟨page, hpage, hmem⟩ := List.mem_flatMap.mp hrow
    exact List.mem_flatMap.mpr
      ⟨page, (Paging.through_isPrefix (feedStops w me) feedPages).subset hpage, hmem⟩
  constructor
  · rintro ⟨row, hrow, h⟩
    exact ⟨row, hsub row hrow, h⟩
  · rintro ⟨row, hrow, hin, h⟩
    exact ⟨row, mem_through_of_inFeed hfeed.newestFirst hfeed.filled hrow hin, hin, h⟩

/-- What a walk that ends well has read of the pages that the server has. -/
theorem exists_dayEvents (hself : selfIdentity w.sourceIdentities w.sourceId = some me)
    (hfeed : FeedOffered w env me feedPages) (hsearch : SearchOffered w env me searchPages)
    {out : WalkOutcome} (h : walkDay w env = .ok out) :
    out.events = dayEvents w me ((through (feedStops w me) feedPages).flatMap (·.rows))
        (searchPages.flatMap (·.rows)) ∧
      (through (feedStops w me) feedPages).length ≤ MAX_PAGES ∧
        searchPages.length ≤ MAX_PAGES := by
  have hevents : (walkDay w env).map (·.events) = .ok out.events := by
    rw [h]
    rfl
  rcases (walkDay_events_iff out.events).mp hevents with ⟨hnone, -⟩ | ⟨me', hme', h⟩
  · rw [hself] at hnone
    cases hnone
  · rw [hself] at hme'
    obtain rfl := Option.some.inj hme'
    obtain ⟨rows, hits, ⟨initial, pages, hurl, hserved, rfl⟩,
      ⟨initial', pages', hurl', hserved', rfl⟩, hday⟩ := h
    obtain ⟨start, hstart, hoffered⟩ := hfeed.offered
    obtain ⟨start', hstart', hoffered'⟩ := hsearch.offered
    rw [hurl] at hstart
    obtain rfl := Except.ok.inj hstart
    rw [hurl'] at hstart'
    obtain rfl := Except.ok.inj hstart'
    obtain ⟨rfl, hlen⟩ := hserved.eq_through hoffered
    obtain ⟨rfl, hlen'⟩ := hserved'.eq_through hoffered'
    have hall : through searchStops searchPages = searchPages :=
      Paging.through_eq_self_of_dropLast fun page hpage => by
        simpa [searchStops] using hsearch.filled page hpage
    rw [hall] at hday hlen'
    exact ⟨hday, hlen, hlen'⟩

theorem distinctIds_through (hfeed : FeedOffered w env me feedPages) :
    DistinctIds ((through (feedStops w me) feedPages).flatMap (·.rows)) := by
  have hsub : ∀ row ∈ (through (feedStops w me) feedPages).flatMap (·.rows),
      row ∈ feedPages.flatMap (·.rows) := by
    intro row hrow
    obtain ⟨page, hpage, hmem⟩ := List.mem_flatMap.mp hrow
    exact List.mem_flatMap.mpr
      ⟨page, (Paging.through_isPrefix (feedStops w me) feedPages).subset hpage, hmem⟩
  intro a ha b hb hab
  exact hfeed.distinct a (hsub a ha) b (hsub b hb) hab

theorem mem_identity_of_walkDay (hself : selfIdentity w.sourceIdentities w.sourceId = some me)
    (hfeed : FeedOffered w env me feedPages) (hsearch : SearchOffered w env me searchPages)
    {out : WalkOutcome} (h : walkDay w env = .ok out) (x : Text × ActivityKind) :
    x ∈ out.events.map identity ↔ FeedHas w me (feedPages.flatMap (·.rows)) x ∨
      SearchHas w me (searchPages.flatMap (·.rows)) x := by
  rw [(exists_dayEvents hself hfeed hsearch h).1,
    mem_identity_dayEvents_iff (distinctIds_through hfeed), feedHas_through_iff hfeed]

/-- **No walk over the two streams truncates silently**, whatever goes wrong on the way. -/
theorem walkDay_noSilentTruncation
    (hself : selfIdentity w.sourceIdentities w.sourceId = some me)
    (hfeed : FeedOffered w env me feedPages) (hsearch : SearchOffered w env me searchPages) :
    NoSilentTruncation w env me feedPages searchPages where
  tells _ h x := mem_identity_of_walkDay hself hfeed hsearch h x
  trips hcap := by
    cases h : walkDay w env with
    | error err => exact ⟨err, rfl⟩
    | ok out =>
      obtain ⟨-, hlen, hlen'⟩ := exists_dayEvents hself hfeed hsearch h
      omega

/-! ### Events that are told of more than once -/

/-- **What only the search knows of is told of once.** -/
theorem count_identity_le_one (hself : selfIdentity w.sourceIdentities w.sourceId = some me)
    (hfeed : FeedOffered w env me feedPages) (hsearch : SearchOffered w env me searchPages)
    {out : WalkOutcome} (h : walkDay w env = .ok out) {x : Text × ActivityKind}
    (hnew : ¬FeedHas w me (feedPages.flatMap (·.rows)) x) :
    (out.events.map identity).count x ≤ 1 := by
  obtain ⟨hevents, -, -⟩ := exists_dayEvents hself hfeed hsearch h
  have hids := distinctIds_through hfeed
  generalize hrows : (through (feedStops w me) feedPages).flatMap (·.rows) = rows at hevents hids
  have hnew' : x ∉ (feedEvents w me rows).map identity := by
    rw [mem_identity_feedEvents_iff hids, ← hrows, feedHas_through_iff hfeed]
    exact hnew
  by_cases hmem : x ∈ out.events.map identity
  · -- only the search has it, and the search has no reviews
    rw [mem_identity_of_walkDay hself hfeed hsearch h] at hmem
    obtain ⟨hit, -, -, e, he, rfl⟩ := hmem.resolve_left hnew
    have hother : ∀ c : ActivityEvent, identity c = identity e → isReview c = false := by
      intro c hc
      have hrev := isReview_of_mem_synthesise he
      have hkind : c.kind = e.kind := congrArg Prod.snd hc
      rwa [isReview, hkind]
    have hcount : ∀ events : List ActivityEvent, (events.map identity).count (identity e) =
        ((events.filter fun c => !isReview c).map identity).count (identity e) := by
      intro events
      rw [List.count_eq_countP, List.countP_map, List.count_eq_countP, List.countP_map,
        List.countP_filter]
      refine List.countP_congr fun c _ => ?_
      simp only [Function.comp, beq_iff_eq, Bool.and_eq_true, Bool.not_eq_true']
      exact ⟨fun hc => ⟨hc, hother c hc⟩, And.left⟩
    have hperm := (List.mergeSort_perm (collapseRapidReviews (feedEvents w me rows ++
      searchEvents w me ((feedEvents w me rows).map identity)
        (searchPages.flatMap (·.rows)))) fun a b =>
          decide (toLex (a.occurredAt, a.id) ≤ toLex (b.occurredAt, b.id))).map identity
    rw [hevents, dayEvents, Connectors.sortByInstant, hperm.count_eq, hcount,
      filter_not_isReview_collapse, ← hcount, List.map_append, List.count_append,
      List.count_eq_zero_of_not_mem hnew', Nat.zero_add]
    exact List.nodup_iff_count_le_one.mp Firsts.nodup_map_firsts _
  · rw [List.count_eq_zero_of_not_mem hmem]
    exact Nat.zero_le 1

theorem feedHas_iff {rows : List GithubEvent} {x : Text × ActivityKind} :
    FeedHas w me rows x ↔ ∃ row ∈ rows, InFeed w me row ∧ ∃ number,
      keyOf row = some (x.2, number) ∧ threadId row.repo number = x.1 := by
  have hsome : ∀ row, ∀ key ∈ keyOf row,
      (normaliseEvent w.newV5 w.sourceId row).isSome = true := by
    intro row key hkey
    unfold keyOf at hkey
    unfold normaliseEvent
    cases hp : row.payload with
    | push | unknown => rw [hp] at hkey; cases hkey
    | pullRequest action pr | pullRequestReview action pr _ | pullRequestReviewComment action pr _
    | issues action pr _ | issueComment action pr _ =>
      rw [hp] at hkey
      obtain ⟨kind, hkind, -⟩ := Option.map_eq_some_iff.mp hkey
      simp only [hkind, Option.map_some, Option.isSome_some]
  constructor
  · rintro ⟨row, hrow, hin, e, he, rfl⟩
    obtain ⟨number, hkey, hid, -⟩ := normaliseEvent_eq_some he
    exact ⟨row, hrow, hin, number, hkey, hid.symm⟩
  · rintro ⟨row, hrow, hin, number, hkey, hid⟩
    obtain ⟨e, he⟩ := Option.isSome_iff_exists.mp (hsome row _ hkey)
    obtain ⟨number', hkey', hid', -⟩ := normaliseEvent_eq_some he
    rw [hkey] at hkey'
    obtain ⟨hkind, rfl⟩ := Prod.mk.inj (Option.some.inj hkey')
    exact ⟨row, hrow, hin, e, he, Prod.ext (hid'.trans hid) hkind.symm⟩

/-- A pull request that the user closed in the day, as the feed has it. -/
def ClosedInFeed (w : WalkInput) (me : SelfIdentity) (merged : Bool) (rows : List GithubEvent)
    (thread : Text) : Prop :=
  ∃ row ∈ rows, InFeed w me row ∧ ∃ pr, row.payload = .pullRequest "closed".toList pr ∧
    pr.merged = merged ∧ threadId row.repo pr.number = thread

/-- A pull request by the user that was closed in the day, as the search has it. -/
def ClosedInSearch (w : WalkInput) (me : SelfIdentity) (hits : List GithubSearchIssue)
    (thread : Text) : Prop :=
  ∃ hit ∈ hits, hit.user.map (·.id) = some me.userId ∧ hit.isPullRequest = true ∧
    (∃ t ∈ hit.closedAt, w.inWindow t = true) ∧
      ∃ name ∈ hit.repoFullName, threadId name hit.number = thread

/-- The kind of a pull request that was closed. -/
def closedPrKind (merged : Bool) : ActivityKind :=
  if merged then .gitHubPullRequestMerged else .gitHubPullRequestClosed

theorem pullRequestKind_eq_closed_iff {action : Text} {pr : GithubPullRequest} {merged : Bool} :
    pullRequestKind action pr = some (closedPrKind merged) ↔
      action = "closed".toList ∧ pr.merged = merged := by
  have hne : ("opened".toList : Text) ≠ "closed".toList := by decide
  unfold pullRequestKind
  by_cases hopened : action = "opened".toList
  · rw [if_pos hopened, hopened]
    refine ⟨fun h => ?_, fun h => absurd h.1 hne⟩
    cases merged <;> cases h
  · rw [if_neg hopened]
    by_cases hclosed : action = "closed".toList
    · rw [if_pos hclosed, Option.some.injEq]
      refine ⟨fun h => ⟨hclosed, ?_⟩, fun h => by rw [h.2]; rfl⟩
      cases hm : pr.merged <;> cases merged <;> rw [hm] at h <;> cases h
    · rw [if_neg hclosed]
      refine ⟨fun h => ?_, fun h => absurd h.1 hclosed⟩
      cases h

/-- Only the row of a pull request has such a kind. -/
theorem closedPrKind_ne_issuesKind {actor : GithubActor} {action : Text} {issue : GithubIssue}
    {assignee : Option GithubUserRef} {merged : Bool} :
    issuesKind actor action issue assignee ≠ some (closedPrKind merged) := by
  unfold issuesKind
  dsimp only
  cases merged <;> split_ifs <;> simp [closedPrKind]

theorem keyOf_closed_iff {row : GithubEvent} {merged : Bool} {number : ℤ} :
    keyOf row = some (closedPrKind merged, number) ↔
      ∃ pr, row.payload = .pullRequest "closed".toList pr ∧ pr.merged = merged ∧
        pr.number = number := by
  have hpair : ∀ (kind : Option ActivityKind) (n : ℤ),
      kind.map (·, n) = some (closedPrKind merged, number) ↔
        kind = some (closedPrKind merged) ∧ n = number := by
    intro kind n
    cases kind <;> simp
  have hother : ∀ kind : ActivityKind, kind ≠ .gitHubPullRequestMerged →
      kind ≠ .gitHubPullRequestClosed → kind ≠ closedPrKind merged := by
    intro kind hm hc
    cases merged with
    | true => exact hm
    | false => exact hc
  unfold keyOf
  cases hp : row.payload with
  | push | unknown => simp
  | pullRequest action pr =>
    simp only [hpair, pullRequestKind_eq_closed_iff]
    constructor
    · rintro ⟨⟨rfl, hm⟩, hn⟩
      exact ⟨pr, rfl, hm, hn⟩
    · rintro ⟨pr', heq, hm, hn⟩
      cases heq
      exact ⟨⟨rfl, hm⟩, hn⟩
  | pullRequestReview action pr review =>
    simp only [hpair, reviewKind, reduceCtorEq, false_and, exists_false, iff_false]
    split_ifs
    · simp [hother .gitHubPullRequestReviewed (by decide) (by decide)]
    · simp
  | pullRequestReviewComment action pr comment =>
    simp only [hpair, reviewCommentKind, reduceCtorEq, false_and, exists_false, iff_false]
    split_ifs
    · simp [hother .gitHubPullRequestCommented (by decide) (by decide)]
    · simp
  | issues action issue assignee =>
    simp only [hpair, closedPrKind_ne_issuesKind, reduceCtorEq, false_and, exists_false]
  | issueComment action issue comment =>
    simp only [hpair, issueCommentKind, reduceCtorEq, false_and, exists_false, iff_false]
    split_ifs
    · simp [hother .gitHubPullRequestCommented (by decide) (by decide)]
    · simp [hother .gitHubIssueCommented (by decide) (by decide)]
    · simp

theorem feedHas_closed_iff {rows : List GithubEvent} {merged : Bool} {thread : Text} :
    FeedHas w me rows (thread, closedPrKind merged) ↔ ClosedInFeed w me merged rows thread := by
  rw [feedHas_iff]
  constructor
  · rintro ⟨row, hrow, hin, number, hkey, hid⟩
    obtain ⟨pr, hp, hm, rfl⟩ := keyOf_closed_iff.mp hkey
    exact ⟨row, hrow, hin, pr, hp, hm, hid⟩
  · rintro ⟨row, hrow, hin, pr, hp, hm, hid⟩
    exact ⟨row, hrow, hin, pr.number, keyOf_closed_iff.mpr ⟨pr, hp, hm, rfl⟩, hid⟩

theorem searchHas_closed_iff {hits : List GithubSearchIssue} {thread : Text} :
    SearchHas w me hits (thread, .gitHubPullRequestClosed) ↔ ClosedInSearch w me hits thread := by
  constructor
  · rintro ⟨hit, hhit, hme, e, he, hid⟩
    obtain ⟨name, hname, kind, t, hkind, hin, rfl⟩ := mem_synthesiseEvents_iff.mp he
    obtain ⟨hthread, rfl⟩ := Prod.mk.inj hid
    rcases hkind with ⟨hk, ht⟩ | ⟨hk, ht⟩
    · -- an opened event is of another kind
      unfold openedKind at hk
      split_ifs at hk
    · unfold closedKind at hk
      split_ifs at hk with hpr
      exact ⟨hit, hhit, hme, hpr, ⟨t, ht, hin⟩, name, hname, hthread⟩
  · rintro ⟨hit, hhit, hme, hpr, ⟨t, ht, hin⟩, name, hname, rfl⟩
    have hkind : closedKind hit = .gitHubPullRequestClosed := by simp [closedKind, hpr]
    exact ⟨hit, hhit, hme, _, mem_synthesiseEvents_iff.mpr
      ⟨name, hname, _, t, Or.inr ⟨rfl, ht⟩, hin, rfl⟩, by rw [identity, hkind]; rfl⟩

theorem searchHas_merged_iff {hits : List GithubSearchIssue} {thread : Text} :
    ¬SearchHas w me hits (thread, .gitHubPullRequestMerged) := by
  rintro ⟨hit, -, -, e, he, hid⟩
  obtain ⟨name, -, kind, t, hkind, -, rfl⟩ := mem_synthesiseEvents_iff.mp he
  obtain ⟨-, rfl⟩ := Prod.mk.inj hid
  rcases hkind with ⟨hk, -⟩ | ⟨hk, -⟩
  · unfold openedKind at hk
    split_ifs at hk
  · unfold closedKind at hk
    split_ifs at hk

/-- **The pull requests that are told of as merged and as closed** are those that the feed
has as merged and that either stream has as closed in the day: the search, which cannot
tell the two apart, is not held back by a merge. -/
theorem merged_and_closed_iff (hself : selfIdentity w.sourceIdentities w.sourceId = some me)
    (hfeed : FeedOffered w env me feedPages) (hsearch : SearchOffered w env me searchPages)
    {out : WalkOutcome} (h : walkDay w env = .ok out) (thread : Text) :
    ((thread, .gitHubPullRequestMerged) ∈ out.events.map identity ∧
        (thread, .gitHubPullRequestClosed) ∈ out.events.map identity) ↔
      ClosedInFeed w me true (feedPages.flatMap (·.rows)) thread ∧
        (ClosedInFeed w me false (feedPages.flatMap (·.rows)) thread ∨
          ClosedInSearch w me (searchPages.flatMap (·.rows)) thread) := by
  have hmerged := @feedHas_closed_iff w me (feedPages.flatMap (·.rows)) true thread
  have hclosed := @feedHas_closed_iff w me (feedPages.flatMap (·.rows)) false thread
  simp only [closedPrKind, if_true, Bool.false_eq_true, if_false] at hmerged hclosed
  rw [mem_identity_of_walkDay hself hfeed hsearch h, mem_identity_of_walkDay hself hfeed hsearch h,
    hmerged, hclosed, searchHas_closed_iff, or_iff_left searchHas_merged_iff]

/-! ### A pull request that was merged -/

def mergeDay : WalkInput where
  newV5 _ _ := 0
  joinUrl base path := .ok (base ++ path)
  apiBaseUrl := "https://api.github.com/".toList
  sourceId := 1
  displayId _ := []
  sourceIdentities := [⟨2, 3, none, .gitHubUserId, "17".toList⟩,
    ⟨4, 3, none, .gitHubLogin, "vedanth".toList⟩]
  day := ⟨20561⟩
  localTz := FixedOffset.utc

def mergeUser : SelfIdentity := ⟨17, "vedanth".toList⟩

/-- The merge in the feed, an hour after midnight. -/
def mergeRow : GithubEvent where
  id := "50".toList
  actor := ⟨17, "vedanth".toList⟩
  repo := "company/foo".toList
  createdAt := 20561 * nanosPerDay + 3600000000000
  payload := .pullRequest "closed".toList
    ⟨42, "Add payments".toList, "https://github.com/company/foo/pull/42".toList, true⟩

/-- The same pull request in the search. -/
def mergeHit : GithubSearchIssue where
  id := 1
  number := 42
  title := "Add payments".toList
  htmlUrl := "https://github.com/company/foo/pull/42".toList
  user := some ⟨17, "vedanth".toList⟩
  isPullRequest := true
  createdAt := none
  closedAt := some (20561 * nanosPerDay + 3600000000000)
  repositoryUrl := some "https://api.github.com/repos/company/foo".toList

/-- A server with one page for each stream. -/
def mergeServer : WalkEnv where
  feed := ⟨fun _ => false, fun _ _ => .ok ⟨200, none, []⟩, fun _ => .ok [mergeRow]⟩
  search := ⟨fun _ => false, fun _ _ => .ok ⟨200, none, []⟩, fun _ => .ok [mergeHit]⟩
  parseUrl _ := none
  displayStatus _ := []

theorem selfIdentity_mergeDay :
    selfIdentity mergeDay.sourceIdentities mergeDay.sourceId = some mergeUser := by decide

theorem feedOffered_mergeDay : FeedOffered mergeDay mergeServer mergeUser [⟨[mergeRow], none⟩] where
  offered := ⟨_, rfl, .last (fun _ _ h => (Except.ok.inj h).symm) rfl⟩
  newestFirst := List.pairwise_singleton _ _
  filled := fun _ h => absurd h List.not_mem_nil
  distinct := fun _ ha _ hb _ => (List.mem_singleton.mp ha).trans (List.mem_singleton.mp hb).symm

theorem searchOffered_mergeDay :
    SearchOffered mergeDay mergeServer mergeUser [⟨[mergeHit], none⟩] where
  offered := ⟨_, rfl, .last (fun _ _ h => (Except.ok.inj h).symm) rfl⟩
  filled := fun _ h => absurd h List.not_mem_nil

theorem exists_walkDay_mergeDay : ∃ out, walkDay mergeDay mergeServer = .ok out := by
  have hday := (@walkDay_events_iff mergeDay mergeServer _).mpr (Or.inr ⟨mergeUser,
    selfIdentity_mergeDay, [mergeRow],
    [mergeHit], ⟨_, [⟨[mergeRow], none⟩], rfl, ⟨.before none, ⟨.step rfl rfl (by decide) .rest,
      Or.inr ⟨by decide, rfl, rfl⟩⟩, rfl⟩, rfl⟩, ⟨_, [⟨[mergeHit], none⟩], rfl, ⟨.before none,
        ⟨.step rfl rfl rfl .rest, Or.inr ⟨by decide, rfl, rfl⟩⟩, rfl⟩, rfl⟩, rfl⟩)
  obtain ⟨out, hout, -⟩ := Paging.exists_of_map_eq_ok hday
  exact ⟨out, hout⟩

theorem merge_noSilentTruncation : NoSilentTruncation mergeDay mergeServer mergeUser
    [⟨[mergeRow], none⟩] [⟨[mergeHit], none⟩] :=
  walkDay_noSilentTruncation selfIdentity_mergeDay feedOffered_mergeDay searchOffered_mergeDay

theorem closedInSearch_mergeDay :
    ClosedInSearch mergeDay mergeUser [mergeHit] "company/foo#42".toList :=
  ⟨mergeHit, List.mem_singleton_self _, by decide, rfl, ⟨_, rfl, by decide⟩,
    "company/foo".toList, by decide, by decide⟩

/-- The search tells of the close once. -/
theorem merge_closed_once : ∃ out, walkDay mergeDay mergeServer = .ok out ∧
    (out.events.map identity).count ("company/foo#42".toList, .gitHubPullRequestClosed) ≤ 1 := by
  obtain ⟨out, hout⟩ := exists_walkDay_mergeDay
  refine ⟨out, hout, count_identity_le_one selfIdentity_mergeDay feedOffered_mergeDay
    searchOffered_mergeDay hout ?_⟩
  rintro ⟨row, hrow, -, e, he, hid⟩
  obtain rfl := List.mem_singleton.mp hrow
  obtain rfl := Option.some.inj he
  cases congrArg Prod.snd hid

/-- One merge, two events. -/
theorem merge_told_twice : ∃ out, walkDay mergeDay mergeServer = .ok out ∧
    ("company/foo#42".toList, .gitHubPullRequestMerged) ∈ out.events.map identity ∧
      ("company/foo#42".toList, .gitHubPullRequestClosed) ∈ out.events.map identity := by
  obtain ⟨out, hout⟩ := exists_walkDay_mergeDay
  refine ⟨out, hout, (merged_and_closed_iff selfIdentity_mergeDay feedOffered_mergeDay
    searchOffered_mergeDay hout _).mpr ⟨?_, Or.inr closedInSearch_mergeDay⟩⟩
  exact ⟨mergeRow, List.mem_singleton_self _, by decide, _, rfl, rfl, by decide⟩

end Github
end Dayseam
