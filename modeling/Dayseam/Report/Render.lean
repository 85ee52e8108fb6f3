import Dayseam.Core.Runs
import Dayseam.Report.Sections
import Mathlib

/-!
# From events to a draft

`render` keeps the events of the person, rolls them up and writes one bullet for
each commit, issue event and page event, and one for each merge request and
meeting.  Every bullet has an evidence edge back to its events.

## Main definitions

* `RenderCrates`, `ReportInput` — what the engine reads.
* `eventIsSelf` — the events of the person.
* `bulletId` — the stable id of a bullet.
* `renderGroup`, `buildSections`, `render` — bullets, sections, the draft.
-/

namespace Dayseam
namespace Report

/-- What rendering takes from other crates besides: the escape function of the
template engine and SHA-256. -/
structure RenderCrates extends Crates where
  htmlEscape : Text → Text
  sha256 : List UInt8 → List UInt8

/-- Everything that the engine reads.  The maps over sources are the list of their
entries, which has a source once, and a lookup. -/
structure ReportInput where
  id : Uuid
  date : NaiveDate
  templateId : Text
  templateVersion : Text
  personId : Uuid
  sourceIdentities : List SourceIdentity
  events : List ActivityEvent
  artifacts : List Artifact
  perSourceState : List (Uuid × SourceRunState)
  perSourceState_nodup : (perSourceState.map (·.1)).Nodup
  sourceKinds : Uuid → Option SourceKind
  verboseMode : Bool
  generatedAt : ℤ
  renderOffset : FixedOffset

inductive ReportError
  | unknownTemplate (templateId : Text)
  deriving DecidableEq, Repr

def DEV_EOD_TEMPLATE_ID : Text := "dayseam.dev_eod".toList

def DEV_EOD_TEMPLATE_VERSION : Text := "2026-04-24".toList

def REDACTED_BULLET_TEXT : Text := "(private work)".toList

/-! ### Whose events -/

/-- The identity row names the actor of the event. -/
def identityMatches (event : ActivityEvent) (row : SourceIdentity) : Bool :=
  (row.sourceId.map (· == event.sourceId)).getD true &&
    match row.kind with
    | .gitEmail | .outlookUserPrincipalName =>
      (event.actor.email.map fun e => eqIgnoreAsciiCase e row.externalActorId).getD false
    | .gitLabUserId | .gitLabUsername | .gitHubLogin | .gitHubUserId | .atlassianAccountId
    | .outlookUserObjectId => event.actor.externalId == some row.externalActorId

def eventIsSelf (event : ActivityEvent) (identities : List SourceIdentity) : Bool :=
  identities.any (identityMatches event)

def identitiesForPerson (rows : List SourceIdentity) (personId : Uuid) : List SourceIdentity :=
  rows.filter fun r => r.personId == personId

def filterEventsBySelf (input : ReportInput) : List ActivityEvent :=
  input.events.filter fun e =>
    eventIsSelf e (identitiesForPerson input.sourceIdentities input.personId)

/-! ### Bullet ids -/

/-- The first eight bytes of the digest, in hexadecimal. -/
def shortDigest (crates : RenderCrates) (bytes : List UInt8) : Text :=
  "b_".toList ++ ((crates.sha256 bytes).take 8).flatMap fun b => hexDigits b.toNat 2

/-- The parts of an id, each followed by a zero byte. -/
def zeroTerminated (parts : List Text) : List UInt8 := parts.flatMap fun p => utf8 p ++ [0]

/-- What the id of a bullet is the digest of. -/
def bulletKey (templateId sectionId : Text) (artifactId : Uuid) (eventIds : List Uuid) :
    List UInt8 :=
  zeroTerminated [templateId, sectionId, artifactId.display] ++
    (eventIds.mergeSort fun a b => decide (a ≤ b)).flatMap Uuid.bytes

def bulletId (crates : RenderCrates) (templateId sectionId : Text) (artifactId : Uuid)
    (eventIds : List Uuid) : Text :=
  shortDigest crates (bulletKey templateId sectionId artifactId eventIds)

def emptyStateKey (crates : RenderCrates) (date : NaiveDate) : List UInt8 :=
  zeroTerminated [DEV_EOD_TEMPLATE_ID, ReportSection.commits.id, "empty".toList] ++
    utf8 (crates.chrono.display date)

def emptyStateBulletId (crates : RenderCrates) (date : NaiveDate) : Text :=
  shortDigest crates (emptyStateKey crates date)

/-- The eight bytes of a signed number, most significant first. -/
def i64Bytes (n : ℤ) : List UInt8 :=
  (List.range 8).map fun i => UInt8.ofNat ((n / 2 ^ (8 * (7 - i))) % 256).toNat

def meetingsSummaryKey (templateId : Text) (totalMinutes : ℤ) : List UInt8 :=
  zeroTerminated [templateId, ReportSection.meetings.id, "meetings_summary".toList] ++
    i64Bytes totalMinutes

def meetingsSummaryBulletId (crates : RenderCrates) (templateId : Text) (totalMinutes : ℤ) :
    Text := shortDigest crates (meetingsSummaryKey templateId totalMinutes)

def SYNC_ISSUES : Text := "sync_issues".toList

def syncIssueKey (templateId : Text) (sourceId : Uuid) (errorCode : Text) : List UInt8 :=
  zeroTerminated [templateId, SYNC_ISSUES, sourceId.display] ++ utf8 errorCode

def syncIssueBulletId (crates : RenderCrates) (templateId : Text) (sourceId : Uuid)
    (errorCode : Text) : Text :=
  shortDigest crates (syncIssueKey templateId sourceId errorCode)

/-! ### Commits -/

/-- The placeholder `project-<digits>` of a project without a path. -/
def isSyntheticProjectToken (s : Text) : Bool :=
  match ("project-".toList).isPrefixOf? s with
  | some rest => !rest.isEmpty && rest.all Char.isDigit
  | none => false

/-- The last part of a path, when it is a name. -/
def PathBuf.fileName (path : PathBuf) : Option Text :=
  match path.components.getLast? with
  | some (.normal name) => some name
  | _ => none

def commitHeadline (repoPath : PathBuf) (event : ActivityEvent) : Text :=
  let raw := repoPath.text
  if raw = [] ∨ raw = ['/'] ∨ isSyntheticProjectToken raw = true then event.title
  else
    let repoLabel := (PathBuf.fileName repoPath).getD raw
    if repoLabel = [] ∨ isSyntheticProjectToken repoLabel = true then event.title
    else "**".toList ++ repoLabel ++ "** — ".toList ++ event.title

def shortSha (sha : Text) : Text := sha.take 7

/-- The `section_commits` partial: values are escaped, and an empty one counts as
missing. -/
def renderSectionCommits (crates : RenderCrates) (headline : Text) (verboseMode : Bool)
    (sha rolledIntoMr : Option Text) : Text :=
  let part (value : Option Text) (before after : Text) : Text :=
    match value with
    | some v => if v = [] then [] else before ++ crates.htmlEscape v ++ after
    | none => []
  crates.htmlEscape headline ++
    if verboseMode then
      part sha " · `".toList "`".toList ++ part rolledIntoMr " (rolled into ".toList ")".toList
    else []

/-- A bullet with the one evidence edge that it has. -/
def bulletWithEvidence (id text : Text) (sourceKind : Option SourceKind) (eventIds : List Uuid)
    (reason : Text) : RenderedBullet × Evidence :=
  (⟨id, text, sourceKind⟩, ⟨id, eventIds, reason⟩)

def commitText (crates : RenderCrates) (repoPath : PathBuf) (event : ActivityEvent)
    (verboseMode : Bool) : Text :=
  if event.privacy = .redactedPrivateRepo then REDACTED_BULLET_TEXT
  else renderSectionCommits crates (commitHeadline repoPath event) verboseMode
    (if verboseMode then some (shortSha event.externalId) else none)
    (if verboseMode then event.parentExternalId else none)

def renderCommitBullet (crates : RenderCrates) (artifactId : Uuid) (repoPath : PathBuf)
    (event : ActivityEvent) (templateId sectionId : Text) (verboseMode : Bool)
    (sourceKind : Option SourceKind) : RenderedBullet × Evidence :=
  bulletWithEvidence (bulletId crates templateId sectionId artifactId [event.id])
    (commitText crates repoPath event verboseMode) sourceKind [event.id] "1 commit".toList

/-! ### Issues and pages -/

/-- The tail of a text from its last `#`. -/
def fromLastHash (t : Text) : Option Text :=
  if '#' ∈ t then some ('#' :: (t.reverse.takeWhile (· != '#')).reverse) else none

def triggeredByLabel (parentExternalId : Text) : Option Text :=
  if parentExternalId = [] then none
  else if parentExternalId.head? = some '!' then some parentExternalId
  else match fromLastHash parentExternalId with
    | some tail =>
      if 2 ≤ Text.byteLen tail ∧ (tail.drop 1).all Char.isDigit = true then some tail
      else some parentExternalId
    | none => some parentExternalId

def triggeredBySuffix (event : ActivityEvent) : Option Text :=
  if event.kind = .jiraIssueTransitioned then
    (event.parentExternalId.bind triggeredByLabel).map fun label =>
      "(triggered by ".toList ++ label ++ ")".toList
  else none

def groupKindForPayload : ArtifactPayload → GroupKind
  | .commitSet .. => .repo
  | .jiraIssue .. => .project
  | .confluencePage .. => .space
  | .mergeRequest .. => .repo
  | .meeting .. => .repo

def atlassianReason : GroupKind → Text
  | .project => "1 Jira event".toList
  | .space => "1 Confluence event".toList
  | .repo => "1 event".toList

def atlassianText (event : ActivityEvent) (verboseMode : Bool) : Text :=
  if event.privacy = .redactedPrivateRepo then REDACTED_BULLET_TEXT
  else
    let gk := groupKeyFromEvent event
    let base :=
      if gk.value = [] ∨ gk.value = ['/'] then event.title
      else if gk.display = gk.value then "**".toList ++ gk.value ++ "** — ".toList ++ event.title
      else "**".toList ++ gk.display ++ "** (".toList ++ gk.value ++ ") — ".toList ++ event.title
    match if verboseMode then triggeredBySuffix event else none with
    | some s => base ++ ' ' :: s
    | none => base

def renderAtlassianBullet (crates : RenderCrates) (artifactId : Uuid) (groupKind : GroupKind)
    (event : ActivityEvent) (templateId sectionId : Text) (verboseMode : Bool)
    (sourceKind : Option SourceKind) : RenderedBullet × Evidence :=
  bulletWithEvidence (bulletId crates templateId sectionId artifactId [event.id])
    (atlassianText event verboseMode) sourceKind [event.id] (atlassianReason groupKind)

/-! ### Merge requests -/

def providerSigil : MergeRequestProvider → Char
  | .gitLab => '!'
  | .gitHub => '#'

def mergeRequestReason (count : ℕ) (provider : MergeRequestProvider) : Text :=
  let unit := match provider with
    | .gitLab => "GitLab MR event".toList
    | .gitHub => "GitHub PR event".toList
  if count = 1 then "1 ".toList ++ unit else Nat.toDigits 10 count ++ ' ' :: unit ++ ['s']

def renderMrBullet (crates : RenderCrates) (artifactId : Uuid) (events : List ActivityEvent)
    (provider : MergeRequestProvider) (number : ℤ) (projectKey title : Text)
    (templateId sectionId : Text) (sourceKind : Option SourceKind) : RenderedBullet × Evidence :=
  let eventIds := events.map (·.id)
  bulletWithEvidence (bulletId crates templateId sectionId artifactId eventIds)
    ("**".toList ++ projectKey ++ providerSigil provider :: i64Text number ++ "** — ".toList ++
      title) sourceKind eventIds (mergeRequestReason events.length provider)

/-! ### Meetings -/

/-- The local time of an instant as `HH:MM`. -/
def clockText (offset : FixedOffset) (instant : ℤ) : Text :=
  let secs := (localTime offset instant).secs
  Calendar.padded 2 (secs / 3600) ++ ':' :: Calendar.padded 2 (secs % 3600 / 60)

def renderMeetingBullet (crates : RenderCrates) (artifactId : Uuid) (events : List ActivityEvent)
    (startUtc endUtc : ℤ) (title : Text) (templateId sectionId : Text)
    (sourceKind : Option SourceKind) (renderOffset : FixedOffset) : RenderedBullet × Evidence :=
  let eventIds := events.map (·.id)
  bulletWithEvidence (bulletId crates templateId sectionId artifactId eventIds)
    ("**".toList ++ clockText renderOffset startUtc ++ "–".toList ++
      clockText renderOffset endUtc ++ "** · ".toList ++ title)
    sourceKind eventIds "1 Outlook meeting".toList

/-- The whole minutes of a duration, cut towards zero. -/
def wholeMinutes (nanos : ℤ) : ℤ := (nanos.tdiv nanosPerSec).tdiv 60

def meetingMinutes (group : RolledUpArtifact) : Option ℤ :=
  match group.artifact.payload with
  | .meeting _ _ startUtc endUtc _ _ => some (max (wholeMinutes (endUtc - startUtc)) 0)
  | _ => none

def sumMeetingMinutes (groups : List RolledUpArtifact) : ℤ := (groups.filterMap meetingMinutes).sum

def meetingsSummaryText (totalMinutes : ℤ) : Text :=
  "Total time in meetings: ".toList ++ i64Text (totalMinutes / 60) ++ "h ".toList ++
    i64Text (totalMinutes % 60) ++ "m / 8h (".toList ++ i64Text (totalMinutes * 100 / 480) ++
    "%)".toList

def meetingsSummaryBullet (crates : RenderCrates) (totalMinutes : ℤ) (templateId : Text) :
    Option RenderedBullet :=
  if totalMinutes ≤ 0 then none
  else some ⟨meetingsSummaryBulletId crates templateId totalMinutes,
    meetingsSummaryText totalMinutes, none⟩

/-! ### Groups and sections -/

/-- The bullets of a group, in order. -/
def renderGroup (crates : RenderCrates) (group : RolledUpArtifact) (templateId sectionId : Text)
    (verboseMode : Bool) (sourceKind : Option SourceKind) (renderOffset : FixedOffset) :
    List (RenderedBullet × Evidence) :=
  let artifactId := group.artifact.id
  match group.artifact.payload with
  | .commitSet repoPath _ _ _ => group.events.map fun event =>
      renderCommitBullet crates artifactId repoPath event templateId sectionId verboseMode sourceKind
  | .jiraIssue .. | .confluencePage .. => group.events.map fun event =>
      renderAtlassianBullet crates artifactId (groupKindForPayload group.artifact.payload) event
        templateId sectionId verboseMode sourceKind
  | .mergeRequest provider number projectKey title _ _ _ =>
    [renderMrBullet crates artifactId group.events provider number projectKey title templateId
      sectionId sourceKind]
  | .meeting _ title startUtc endUtc _ _ =>
    [renderMeetingBullet crates artifactId group.events startUtc endUtc title templateId sectionId
      sourceKind renderOffset]

/-- The bullets of a group under its section, with their evidence. -/
def renderedGroup (crates : RenderCrates) (input : ReportInput) (group : RolledUpArtifact) :
    List (RenderedBullet × Evidence) :=
  renderGroup crates group input.templateId (ReportSection.ofGroup group).id input.verboseMode
    (input.sourceKinds group.artifact.sourceId) input.renderOffset

/-- The bullets of a section; that of the meetings ends with their total. -/
def sectionBullets (crates : RenderCrates) (input : ReportInput) (groups : List RolledUpArtifact)
    (s : ReportSection) : List RenderedBullet :=
  let bullets := (groups.filter fun g => ReportSection.ofGroup g = s).flatMap fun g =>
    (renderedGroup crates input g).map (·.1)
  if s = .meetings ∧ bullets ≠ [] then
    bullets ++ (meetingsSummaryBullet crates (sumMeetingMinutes groups) input.templateId).toList
  else bullets

def sectionOf (bullets : List RenderedBullet) (s : ReportSection) : Option RenderedSection :=
  if bullets = [] then none else some ⟨s.id, s.title, bullets⟩

def buildSections (crates : RenderCrates) (input : ReportInput) (groups : List RolledUpArtifact) :
    List RenderedSection × List Evidence :=
  (ReportSection.ALL.filterMap fun s => sectionOf (sectionBullets crates input groups s) s,
    groups.flatMap fun g => (renderedGroup crates input g).map (·.2))

/-! ### The day without activity -/

def weekdayName : Weekday → Text
  | .mon => "Monday".toList
  | .tue => "Tuesday".toList
  | .wed => "Wednesday".toList
  | .thu => "Thursday".toList
  | .fri => "Friday".toList
  | .sat => "Saturday".toList
  | .sun => "Sunday".toList

def MONTH_NAMES : List Text :=
  ["Jan".toList, "Feb".toList, "Mar".toList, "Apr".toList, "May".toList, "Jun".toList,
    "Jul".toList, "Aug".toList, "Sep".toList, "Oct".toList, "Nov".toList, "Dec".toList]

/-- The date as `%A, %b %-d, %Y`. -/
def formatDateLong (date : NaiveDate) : Text :=
  let c := Calendar.civilOfDays date.day
  weekdayName date.weekday ++ ", ".toList ++ (MONTH_NAMES[(c.month - 1).toNat]?.getD []) ++
    ' ' :: Nat.toDigits 10 c.day.toNat ++ ", ".toList ++ Calendar.isoYear c.year

def emptySection (crates : RenderCrates) (date : NaiveDate) : RenderedSection :=
  ⟨ReportSection.commits.id, ReportSection.commits.title,
    [⟨emptyStateBulletId crates date,
      "*No tracked activity for ".toList ++ formatDateLong date ++ ".*".toList, none⟩]⟩

/-! ### Sources that failed -/

def syncIssueMessage : DayseamError → Text
  | .auth _ message _ _ | .network _ message | .upstreamChanged _ message
  | .invalidConfig _ message | .io _ _ message | .internal _ message | .cancelled _ message
  | .unsupported _ message => message
  | .rateLimited _ retryAfterSecs =>
    "rate limited; retry after ".toList ++ Nat.toDigits 10 retryAfterSecs ++ ['s']

/-- The error of a failed source, or the one for a failure without an error. -/
def failureOf (state : SourceRunState) : Option DayseamError :=
  if state.status = .failed then
    some (state.error.getD (.internal ORCHESTRATOR_RUN_FAILED
      "Sync failed without an attached error; try reconnecting or running again.".toList))
  else none

/-- Where a kind stands in the render order; an unknown kind stands last. -/
def kindPosition (kind : Option SourceKind) : ℕ :=
  (kind.bind fun k => SourceKind.renderOrder.idxOf? k).getD (2 ^ 64 - 1)

def syncIssueLabel (kind : Option SourceKind) (sourceId : Uuid) : Text :=
  match kind with
  | some k => k.displayLabel
  | none => "Source `".toList ++ hexDigits (sourceId.val / 2 ^ 96) 8 ++ "`".toList

/-- The failed sources, by kind and then by id. -/
def failures (input : ReportInput) : List (Option SourceKind × Uuid × DayseamError) :=
  (input.perSourceState.filterMap fun entry =>
    (failureOf entry.2).map fun err => (input.sourceKinds entry.1, entry.1, err)).mergeSort
      fun a b => decide ((toLex (kindPosition a.1, a.2.1) : ℕ ×ₗ Uuid) ≤
        toLex (kindPosition b.1, b.2.1))

def syncIssueBullet (crates : RenderCrates) (templateId : Text)
    (failure : Option SourceKind × Uuid × DayseamError) : RenderedBullet :=
  ⟨syncIssueBulletId crates templateId failure.2.1 failure.2.2.code,
    "**".toList ++ syncIssueLabel failure.1 failure.2.1 ++ "** sync failed: ".toList ++
      syncIssueMessage failure.2.2, none⟩

def renderSyncIssues (crates : RenderCrates) (input : ReportInput) : Option RenderedSection :=
  if failures input = [] then none
  else some ⟨SYNC_ISSUES, "Sync issues".toList,
    (failures input).map (syncIssueBullet crates input.templateId)⟩

/-! ### The draft -/

/-- The groups of the person's events. -/
def inputGroups (crates : RenderCrates) (input : ReportInput) : List RolledUpArtifact :=
  rollUp crates.toCrates (filterEventsBySelf input) input.artifacts input.date

def render (crates : RenderCrates) (input : ReportInput) : Except ReportError ReportDraft :=
  if input.templateId ≠ DEV_EOD_TEMPLATE_ID then .error (.unknownTemplate input.templateId)
  else
    let groups := inputGroups crates input
    let (sections, evidence) :=
      if groups = [] then ([emptySection crates input.date], [])
      else buildSections crates input groups
    .ok {
      id := input.id
      date := input.date
      templateId := input.templateId
      templateVersion := input.templateVersion
      sections := (renderSyncIssues crates input).toList ++ sections
      evidence := evidence
      verboseMode := input.verboseMode
      generatedAt := input.generatedAt }

end Report
end Dayseam
