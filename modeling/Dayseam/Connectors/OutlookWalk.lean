import Dayseam.Connectors.CursorQuery
import Dayseam.Connectors.DayWindow
import Dayseam.Connectors.Outlook
import Dayseam.Core.Runs
import Dayseam.Core.Sink
import Dayseam.Lib.LinkedPages
import Dayseam.Lib.Rfc3339
import Mathlib

/-!
# The walk over calendar events

The walk asks for the rows of a local day and follows the links that the server hands
out, at most fifty pages far.  Every row is kept or counted as dropped, and a link that is
left over at the cap is an error.

## Main definitions

* `CalendarRow` — a row with the fields that only the walk reads.
* `Outlook.keepsEvent` — the filters, with the counter that each bumps.
* `Outlook.walkDay` — the walk of a day.
* `Outlook.ServedDay` — the pages that the server hands out, one request after another.
* `Outlook.outcomeOf` — what is to become of the rows of a day.

## Main results

* `Outlook.walkDay_eq_ok_iff` — a walk ends well with all that the server handed out, or
  not at all.
* `Outlook.conserves_of_walkDay` — no row is lost between the counters.
-/

namespace Dayseam

open Paging (ServedAll)

/-! ### Rows and pages -/

structure GraphAttendeeStatus where
  response : Option Text
  deriving DecidableEq, Repr

structure GraphAttendee where
  emailAddress : Option GraphEmailAddress
  status : Option GraphAttendeeStatus
  deriving DecidableEq, Repr

/-- A row of a calendar, with the fields that only the walk reads. -/
structure CalendarRow extends GraphEvent where
  isCancelled : Bool
  isAllDay : Bool
  attendees : List GraphAttendee
  showAs : Option Text
  deriving DecidableEq, Repr

structure GraphEventsPage where
  value : List CalendarRow
  nextLink : Option Text
  deriving DecidableEq, Repr

namespace Outlook

def MAX_PAGES : ℕ := 50

def PAGE_SIZE : ℕ := 50

/-- `saturating_add` on a `u64`. -/
def saturatingAdd (a b : ℕ) : ℕ := min (a + b) (2 ^ 64 - 1)

structure WalkOutcome where
  events : List ActivityEvent
  fetchedCount : ℕ
  filteredByIdentity : ℕ
  filteredByStatus : ℕ
  droppedByShape : ℕ

/-- `WalkOutcome::default`. -/
def WalkOutcome.empty : WalkOutcome := ⟨[], 0, 0, 0, 0⟩

def WalkOutcome.filterIdentity (out : WalkOutcome) : WalkOutcome :=
  { out with filteredByIdentity := saturatingAdd out.filteredByIdentity 1 }

def WalkOutcome.filterStatus (out : WalkOutcome) : WalkOutcome :=
  { out with filteredByStatus := saturatingAdd out.filteredByStatus 1 }

def WalkOutcome.dropShape (out : WalkOutcome) : WalkOutcome :=
  { out with droppedByShape := saturatingAdd out.droppedByShape 1 }

/-! ### Errors -/

inductive OutlookUpstreamError
  | authInvalidCredentials
  | authMissingScope
  | resourceNotFound (message : Text)
  | resourceGone (message : Text)
  | rateLimited (retryAfterSecs : ℕ)
  | upstream5xx (status : ℕ) (message : Text)
  | shapeChanged (message : Text)
  deriving DecidableEq, Repr

/-- The texts that `displayStatus` writes are those of `StatusCode`. -/
def OutlookUpstreamError.toDayseamError (displayStatus : ℕ → Text) :
    OutlookUpstreamError → DayseamError
  | .authInvalidCredentials => .auth "outlook.auth.invalid_credentials".toList
      "Microsoft Graph rejected the OAuth access token".toList false
      (some ("Open Settings, select this source, and click Reconnect to re-authenticate with " ++
        "Microsoft.").toList)
  | .authMissingScope => .auth "outlook.auth.missing_scope".toList
      ("OAuth token is valid but missing a delegated scope Dayseam needs (Calendars.Read + " ++
        "User.Read). If your tenant admin must approve, reconnect after they grant consent.").toList
      false (some "Reconnect this source; consent again with the required scopes.".toList)
  | .resourceNotFound message => .network "outlook.resource_not_found".toList message
  | .resourceGone message => .network "outlook.resource_gone".toList
      ("Microsoft Graph returned 410 Gone: ".toList ++ message)
  | .rateLimited retryAfterSecs => .rateLimited "outlook.rate_limited".toList retryAfterSecs
  | .upstream5xx status message => .network "outlook.upstream_5xx".toList
      ("Microsoft Graph returned ".toList ++ displayStatus status ++ ": ".toList ++ message)
  | .shapeChanged message => .upstreamChanged "outlook.upstream_shape_changed".toList message

/-- The error of a status that is not a success. -/
def mapStatus (displayStatus : ℕ → Text) (status : ℕ) (message : Text) : OutlookUpstreamError :=
  if status = 401 then .authInvalidCredentials
  else if status = 403 then .authMissingScope
  else if status = 404 then .resourceNotFound message
  else if status = 410 then .resourceGone message
  else if status = 429 then .rateLimited 0
  else if 500 ≤ status ∧ status < 600 then .upstream5xx status message
  else .upstream5xx status
    ("unexpected status ".toList ++ displayStatus status ++ ": ".toList ++ message)

/-! ### What a walk is for -/

structure WalkInput where
  crates : NormaliseCrates
  /-- `Url::join`, with the text of its error. -/
  joinUrl : Text → Text → Except Text Text
  apiBaseUrl : Text
  sourceId : Uuid
  displayId : Uuid → Text
  sourceIdentities : List SourceIdentity
  day : NaiveDate
  localTz : FixedOffset

structure Answer where
  status : ℕ
  body : Text

/-- What the walk meets: whether it is cancelled before page `i`, what its request `i`
brings, and how a body is read. -/
structure WalkEnv where
  cancelled : ℕ → Bool
  /-- `authenticate` and `HttpClient::send`. -/
  send : ℕ → Text → Except DayseamError Answer
  decode : Text → Except Text GraphEventsPage
  displayStatus : ℕ → Text

variable (w : WalkInput) (env : WalkEnv)

/-- The start of the day, and the same a day later. -/
def dayBoundsUtc (day : NaiveDate) (tz : FixedOffset) : ℤ × ℤ :=
  let startUtc := Connectors.localInstant day tz 0
  (startUtc, startUtc + nanosPerDay)

def selectFields : Text :=
  ("id,subject,bodyPreview,isCancelled,isAllDay,sensitivity,start,end," ++
    "organizer,attendees,isOnlineMeeting,showAs").toList

def calendarQuery (startUtc endUtcExclusive : ℤ) (pageSize : ℕ) : Text :=
  Urlencoded.serialize
    [Atlassian.textPair "startDateTime" (Rfc3339.toRfc3339 (.ofNanos startUtc)),
      Atlassian.textPair "endDateTime" (Rfc3339.toRfc3339 (.ofNanos endUtcExclusive)),
      Atlassian.textPair "$top" (Nat.toDigits 10 pageSize),
      Atlassian.textPair "$select" selectFields,
      Atlassian.textPair "$orderby" "start/dateTime".toList]

def buildInitialUrl : Except DayseamError Text :=
  let (startUtc, endUtcExclusive) := dayBoundsUtc w.day w.localTz
  match w.joinUrl w.apiBaseUrl "me/calendarView".toList with
  | .ok url => .ok (url ++ '?' :: calendarQuery startUtc endUtcExclusive PAGE_SIZE)
  | .error e => .error (.invalidConfig "outlook.config.bad_api_base_url".toList
      ("cannot join `/me/calendarView`: ".toList ++ e))

/-- The first identity of a kind. -/
def firstOfKind (kind : SourceIdentityKind) (identities : List SourceIdentity) : Option Text :=
  (identities.find? fun i => i.kind = kind).map (·.externalActorId)

/-- The owner of the calendar, by its object id, its principal name, or both. -/
def selfActor (identities : List SourceIdentity) : Option Actor :=
  let objectId := firstOfKind .outlookUserObjectId identities
  let upn := firstOfKind .outlookUserPrincipalName identities
  if objectId = none ∧ upn = none then none
  else some ⟨upn.getD (objectId.getD []), upn, objectId⟩

/-! ### The filters -/

inductive Attendance
  | organizer
  | acceptedOrTentative
  | declined
  | notInvolved
  deriving DecidableEq, Repr

def attendeeEmail (a : GraphAttendee) : Option Text := a.emailAddress.bind (·.address)

def isEmail (email : Text) (addr : Option Text) : Bool :=
  (addr.map fun addr => eqIgnoreAsciiCase addr email).getD false

def attendanceOf (a : GraphAttendee) : Attendance :=
  if (a.status.bind (·.response)).map (fun s => s.map Char.toLower) = some "declined".toList then
    .declined
  else .acceptedOrTentative

/-- The first entry of the owner on the list of attendees counts. -/
def userAttendance (row : CalendarRow) (self : Actor) : Attendance :=
  match self.email with
  | none => .notInvolved
  | some email =>
    if isEmail email (organizerEmail row.toGraphEvent) then .organizer
    else match row.attendees.find? fun a => isEmail email (attendeeEmail a) with
      | some a => attendanceOf a
      | none => .notInvolved

def isFree (row : CalendarRow) : Bool :=
  (row.showAs.map fun s => eqIgnoreAsciiCase s "free".toList).getD false

/-- Whether a row is to be normalised, with its counter where it is not. -/
def keepsEvent (row : CalendarRow) (self : Actor) (out : WalkOutcome) : Bool × WalkOutcome :=
  if row.isCancelled then (false, out.filterStatus)
  else if row.isAllDay then (false, out.filterStatus)
  else if isFree row then (false, out.filterStatus)
  else match userAttendance row self with
    | .organizer => (true, out)
    | .acceptedOrTentative => (true, out)
    | .declined => (false, out.filterStatus)
    | .notInvolved => (false, out.filterIdentity)

def readRow (self : Actor) (out : WalkOutcome) (row : CalendarRow) : WalkOutcome :=
  match keepsEvent row self out with
  | (false, out) => out
  | (true, out) =>
    match normaliseEvent w.crates w.sourceId self row.toGraphEvent with
    | .ok e => { out with events := out.events ++ [e] }
    | .error _ => out.dropShape

def readPage (self : Actor) (out : WalkOutcome) (page : GraphEventsPage) : WalkOutcome :=
  page.value.foldl (readRow w self)
    { out with fetchedCount := saturatingAdd out.fetchedCount page.value.length }

/-! ### The walk -/

def walkCancelled : DayseamError :=
  .cancelled "run.cancelled.by_user".toList "outlook walk cancelled".toList

/-- Request page `i` and read its body. -/
def fetchPage (i : ℕ) (url : Text) : Except DayseamError GraphEventsPage :=
  match env.send i url with
  | .error err => .error err
  | .ok answer =>
    if 200 ≤ answer.status ∧ answer.status < 300 then
      match env.decode answer.body with
      | .ok page => .ok page
      | .error e => .error (OutlookUpstreamError.toDayseamError env.displayStatus (.shapeChanged
          ("calendarView page ".toList ++ Nat.toDigits 10 i ++ " failed to decode: ".toList ++ e)))
    else .error ((mapStatus env.displayStatus answer.status answer.body).toDayseamError
      env.displayStatus)

def cancelledAt (i : ℕ) : Option DayseamError :=
  if env.cancelled i then some walkCancelled else none

def capTripped : DayseamError :=
  .internal "outlook.pagination.cap_tripped".toList
    ("outlook calendarView pagination cap hit: ".toList ++ Nat.toDigits 10 MAX_PAGES ++
      " pages × ".toList ++ Nat.toDigits 10 PAGE_SIZE ++ " rows exceeded for source_id=".toList ++
      w.displayId w.sourceId ++ " without an exhausted next-link".toList)

/-- The loop over the pages; no page makes it stop. -/
def walkPages (self : Actor) (initial : Text) : Except DayseamError WalkOutcome :=
  Paging.followAll (cancelledAt env) (fetchPage env) (·.nextLink) (fun _ => false)
    (readPage w self) (capTripped w) MAX_PAGES initial .empty

def WalkOutcome.sorted (out : WalkOutcome) : WalkOutcome :=
  { out with events := Connectors.sortByInstant out.events }

def walkDay : Except DayseamError WalkOutcome :=
  match selfActor w.sourceIdentities with
  | none => .ok .empty
  | some self =>
    match buildInitialUrl w with
    | .error err => .error err
    | .ok initial =>
      (walkPages w env self initial).map WalkOutcome.sorted

/-- The window that the walk asks for is the local day. -/
theorem dayBoundsUtc_iff (day : NaiveDate) (tz : FixedOffset) (t : ℤ) :
    (dayBoundsUtc day tz).1 ≤ t ∧ t < (dayBoundsUtc day tz).2 ↔ localDate tz t = day := by
  have hnext : Connectors.localInstant day tz 0 + nanosPerDay =
      Connectors.localInstant day tz 86400 := by
    unfold Connectors.localInstant nanosPerDay nanosPerSec
    omega
  rw [Connectors.localDate_eq_iff, ← hnext]
  exact Iff.rfl

/-! ### What becomes of a row -/

inductive Fate
  | kept (e : ActivityEvent)
  | byIdentity
  | byStatus
  | byShape

namespace Fate

def event? : Fate → Option ActivityEvent
  | kept e => some e
  | _ => none

def isByIdentity : Fate → Bool
  | byIdentity => true
  | _ => false

def isByStatus : Fate → Bool
  | byStatus => true
  | _ => false

def isByShape : Fate → Bool
  | byShape => true
  | _ => false

/-- The fates part the rows among them. -/
theorem length_eq (fates : List Fate) : fates.length = (fates.filterMap event?).length +
    fates.countP isByIdentity + fates.countP isByStatus + fates.countP isByShape := by
  induction fates with
  | nil => rfl
  | cons f fates ih =>
    rw [List.filterMap_cons, List.countP_cons, List.countP_cons, List.countP_cons]
    cases f <;> simp only [event?, isByIdentity, isByStatus, isByShape, List.length_cons] <;>
      simp <;> omega

end Fate

/-- A row is kept when it is a meeting that the owner did not turn down. -/
def fate (self : Actor) (row : CalendarRow) : Fate :=
  if row.isCancelled ∨ row.isAllDay ∨ isFree row then .byStatus
  else match userAttendance row self with
    | .declined => .byStatus
    | .notInvolved => .byIdentity
    | .organizer | .acceptedOrTentative =>
      match normaliseEvent w.crates w.sourceId self row.toGraphEvent with
      | .ok e => .kept e
      | .error _ => .byShape

def capped (n : ℕ) : ℕ := min n (2 ^ 64 - 1)

/-- The outcome of a walk over `fetched` rows with the fates `fates`. -/
def tally (fetched : ℕ) (fates : List Fate) : WalkOutcome where
  events := fates.filterMap Fate.event?
  fetchedCount := capped fetched
  filteredByIdentity := capped (fates.countP Fate.isByIdentity)
  filteredByStatus := capped (fates.countP Fate.isByStatus)
  droppedByShape := capped (fates.countP Fate.isByShape)

def outcomeOf (self : Actor) (rows : List CalendarRow) : WalkOutcome :=
  tally rows.length (rows.map (fate w self))

variable {w env} {self : Actor}

theorem saturatingAdd_capped (m n : ℕ) : saturatingAdd (capped m) n = capped (m + n) := by
  unfold saturatingAdd capped
  omega

theorem readRow_tally (n : ℕ) (fates : List Fate) (row : CalendarRow) :
    readRow w self (tally n fates) row = tally n (fates ++ [fate w self row]) := by
  have hstatus : (tally n fates).filterStatus = tally n (fates ++ [.byStatus]) := by
    simp [tally, WalkOutcome.filterStatus, saturatingAdd_capped, Fate.event?, Fate.isByIdentity,
      Fate.isByStatus, Fate.isByShape]
  have hidentity : (tally n fates).filterIdentity = tally n (fates ++ [.byIdentity]) := by
    simp [tally, WalkOutcome.filterIdentity, saturatingAdd_capped, Fate.event?, Fate.isByIdentity,
      Fate.isByStatus, Fate.isByShape]
  have hshape : (tally n fates).dropShape = tally n (fates ++ [.byShape]) := by
    simp [tally, WalkOutcome.dropShape, saturatingAdd_capped, Fate.event?, Fate.isByIdentity,
      Fate.isByStatus, Fate.isByShape]
  have hkept : ∀ e, { tally n fates with events := (tally n fates).events ++ [e] } =
      tally n (fates ++ [.kept e]) := by
    intro e
    simp [tally, Fate.event?, Fate.isByIdentity, Fate.isByStatus, Fate.isByShape]
  unfold readRow keepsEvent fate
  by_cases hcancelled : row.isCancelled = true
  · simp [hcancelled, hstatus]
  by_cases hallDay : row.isAllDay = true
  · simp [hcancelled, hallDay, hstatus]
  by_cases hfree : isFree row = true
  · simp [hcancelled, hallDay, hfree, hstatus]
  rw [if_neg hcancelled, if_neg hallDay, if_neg hfree, if_neg (by tauto)]
  cases userAttendance row self with
  | declined => exact hstatus
  | notInvolved => exact hidentity
  | organizer | acceptedOrTentative =>
    cases normaliseEvent w.crates w.sourceId self row.toGraphEvent with
    | ok e => exact hkept e
    | error err => exact hshape

theorem foldl_readRow_tally (n : ℕ) (fates : List Fate) (rows : List CalendarRow) :
    rows.foldl (readRow w self) (tally n fates) = tally n (fates ++ rows.map (fate w self)) := by
  induction rows generalizing fates with
  | nil => simp
  | cons row rows ih => rw [List.foldl_cons, readRow_tally, ih, List.map_cons, List.append_assoc,
      List.singleton_append]

/-- A page adds its rows to those that were read before it. -/
theorem readPage_outcomeOf (seen : List CalendarRow) (page : GraphEventsPage) :
    readPage w self (outcomeOf w self seen) page = outcomeOf w self (seen ++ page.value) := by
  have hfetched : { outcomeOf w self seen with
      fetchedCount := saturatingAdd (outcomeOf w self seen).fetchedCount page.value.length } =
      tally (seen ++ page.value).length (seen.map (fate w self)) := by
    simp [outcomeOf, tally, saturatingAdd_capped]
  rw [readPage, hfetched, foldl_readRow_tally, outcomeOf, List.map_append]

theorem outcomeOf_nil : outcomeOf w self [] = .empty := rfl

/-- **No row is lost between the counters.** -/
theorem conserves (rows : List CalendarRow) (h : rows.length < 2 ^ 64) :
    (outcomeOf w self rows).fetchedCount = (outcomeOf w self rows).events.length +
      (outcomeOf w self rows).filteredByIdentity + (outcomeOf w self rows).filteredByStatus +
        (outcomeOf w self rows).droppedByShape := by
  have hrows := Fate.length_eq (rows.map (fate w self))
  rw [List.length_map] at hrows
  simp only [outcomeOf, tally, capped]
  omega

/-- Without a principal name no row counts as attended. -/
theorem fate_of_no_email {row : CalendarRow} (h : self.email = none) :
    (fate w self row).event? = none := by
  unfold fate
  split_ifs
  · rfl
  · simp [userAttendance, h, Fate.event?]

/-! ### What the server hands out -/

def rowsOf (pages : List GraphEventsPage) : List CalendarRow := pages.flatMap (·.value)

/-- All the pages that the server hands out for the day of a walk. -/
def ServedDay (w : WalkInput) (env : WalkEnv) (pages : List GraphEventsPage) : Prop :=
  ∃ initial, buildInitialUrl w = .ok initial ∧ ServedAll (cancelledAt env) (fetchPage env)
    (·.nextLink) (fun _ => false) MAX_PAGES initial pages

theorem foldl_readPage (seen : List CalendarRow) (pages : List GraphEventsPage) :
    pages.foldl (readPage w self) (outcomeOf w self seen) =
      outcomeOf w self (seen ++ rowsOf pages) := by
  induction pages generalizing seen with
  | nil => simp [rowsOf]
  | cons page pages ih =>
    rw [List.foldl_cons, readPage_outcomeOf, ih, List.append_assoc]
    rfl

/-- **A walk ends well with all that the server handed out**: it has followed every link, and
each row is an event or counted as dropped, in at most fifty pages and without an error. -/
theorem walkDay_eq_ok_iff (out : WalkOutcome) :
    walkDay w env = .ok out ↔
      (selfActor w.sourceIdentities = none ∧ out = .empty) ∨
        ∃ self ∈ selfActor w.sourceIdentities, ∃ pages, ServedDay w env pages ∧
          out = (outcomeOf w self (rowsOf pages)).sorted := by
  unfold walkDay ServedDay
  cases hself : selfActor w.sourceIdentities with
  | none => simp [eq_comm]
  | some self =>
    simp only [reduceCtorEq, false_and, false_or, Option.mem_some_iff, exists_eq_left']
    cases hurl : buildInitialUrl w with
    | error err => simp
    | ok initial =>
      have hfold : ∀ pages : List GraphEventsPage, pages.foldl (readPage w self) .empty =
          outcomeOf w self (rowsOf pages) := foldl_readPage []
      simp only [Except.ok.injEq, exists_eq_left']
      constructor
      · intro h
        obtain ⟨out', hwalk, rfl⟩ := Paging.exists_of_map_eq_ok h
        obtain ⟨pages, hserved, rfl⟩ := Paging.followAll_eq_ok_iff.mp hwalk
        exact ⟨pages, hserved, by rw [hfold]⟩
      · rintro ⟨pages, hserved, rfl⟩
        have hwalk : walkPages w env self initial = .ok (outcomeOf w self (rowsOf pages)) :=
          Paging.followAll_eq_ok_iff.mpr ⟨pages, hserved, (hfold pages).symm⟩
        rw [hwalk]
        rfl

/-- The owner's object id alone does not make a row count: a walk without a principal name
tells of no meeting, whatever the server hands out. -/
theorem events_eq_nil_of_no_upn
    (hupn : firstOfKind .outlookUserPrincipalName w.sourceIdentities = none) {out : WalkOutcome}
    (h : walkDay w env = .ok out) : out.events = [] := by
  rcases (walkDay_eq_ok_iff out).mp h with ⟨-, rfl⟩ | ⟨self, hself, pages, -, rfl⟩
  · rfl
  · have hemail : self.email = none := by
      unfold selfActor at hself
      rw [hupn] at hself
      dsimp only at hself
      split_ifs at hself
      · cases hself
      · cases hself
        rfl
    have hnone : (rowsOf pages).filterMap (fun row => (fate w self row).event?) = [] :=
      List.filterMap_eq_nil_iff.mpr fun row _ => fate_of_no_email hemail
    simp only [WalkOutcome.sorted, outcomeOf, tally, List.filterMap_map]
    rw [show (Fate.event? ∘ fate w self) = fun row => (fate w self row).event? from rfl, hnone]
    exact List.mergeSort_nil

/-- **The counters of a walk that ends well account for every row that was fetched**, as far
as a counter reaches. -/
theorem conserves_of_walkDay {out : WalkOutcome} (h : walkDay w env = .ok out)
    (hfew : out.fetchedCount < 2 ^ 64 - 1) :
    out.fetchedCount = out.events.length + out.filteredByIdentity + out.filteredByStatus +
      out.droppedByShape := by
  rcases (walkDay_eq_ok_iff out).mp h with ⟨-, rfl⟩ | ⟨self, -, pages, -, rfl⟩
  · rfl
  · have hrows : (rowsOf pages).length < 2 ^ 64 := by
      simp only [WalkOutcome.sorted, outcomeOf, tally, capped] at hfew
      omega
    have hsorted : ∀ events, (Connectors.sortByInstant events).length = events.length :=
      fun events => (List.mergeSort_perm events _).length_eq
    have hsum := @conserves w self _ hrows
    rw [WalkOutcome.sorted, hsorted]
    exact hsum

/-- A day on which the server hands out a meeting of the owner and one that was declined. -/
def plainDay : WalkInput where
  crates := ⟨fun _ _ => 0, fun _ _ => some 0⟩
  joinUrl base path := .ok (base ++ path)
  apiBaseUrl := "https://graph.microsoft.com/v1.0/".toList
  sourceId := 1
  displayId _ := []
  sourceIdentities := [⟨2, 3, none, .outlookUserPrincipalName, "me@contoso.com".toList⟩]
  day := ⟨20561⟩
  localTz := FixedOffset.utc

def calendarOwner : Actor := ⟨"me@contoso.com".toList, some "me@contoso.com".toList, none⟩

def invitation (response : String) : CalendarRow where
  id := "AAMk".toList
  subject := none
  bodyPreview := none
  sensitivity := none
  start := ⟨"2026-04-18T15:00:00".toList⟩
  «end» := ⟨"2026-04-18T15:30:00".toList⟩
  organizer := none
  isOnlineMeeting := true
  isCancelled := false
  isAllDay := false
  attendees := [⟨some ⟨some "Me@Contoso.com".toList⟩, some ⟨some response.toList⟩⟩]
  showAs := none

def twoInvitations : GraphEventsPage := ⟨[invitation "accepted", invitation "Declined"], none⟩

def plainServer : WalkEnv where
  cancelled _ := false
  send _ _ := .ok ⟨200, []⟩
  decode _ := .ok twoInvitations
  displayStatus _ := []

theorem walkDay_plainDay : walkDay plainDay plainServer =
    .ok (outcomeOf plainDay calendarOwner (rowsOf [twoInvitations])).sorted :=
  (walkDay_eq_ok_iff _).mpr (Or.inr ⟨calendarOwner, rfl, [twoInvitations],
    ⟨_, rfl, .before none, ⟨.step rfl rfl rfl .rest, Or.inr ⟨by decide, rfl, rfl⟩⟩, rfl⟩, rfl⟩)

/-- One row is an event and one is counted as dropped. -/
theorem two_invitations_conserved :
    let out := (outcomeOf plainDay calendarOwner (rowsOf [twoInvitations])).sorted
    out.fetchedCount = out.events.length + out.filteredByIdentity + out.filteredByStatus +
      out.droppedByShape :=
  conserves_of_walkDay walkDay_plainDay (by decide)

end Outlook
end Dayseam
