import Dayseam.Core.Ids
import Dayseam.Core.Time
import Mathlib

/-!
# The normaliser of calendar events

Microsoft Graph sends the events of a calendar with naive timestamps in UTC.  The
normaliser makes one activity event of each; the start and the end travel on as the
texts that Graph sent.

## Main definitions

* `GraphEvent` — one row of a calendar.
* `Outlook.normaliseEvent` — its activity event.
* `Outlook.Meeting` — a row whose timestamps can be read.
-/

namespace Dayseam

/-! ### Rows -/

/-- A timestamp; its time zone is not read. -/
structure GraphDateTime where
  dateTime : Text
  deriving DecidableEq, Repr

structure GraphEmailAddress where
  address : Option Text
  deriving DecidableEq, Repr

structure GraphAttendeeRef where
  emailAddress : Option GraphEmailAddress
  deriving DecidableEq, Repr

/-- One row of a calendar, with the fields that the normaliser reads. -/
structure GraphEvent where
  id : Text
  subject : Option Text
  bodyPreview : Option Text
  sensitivity : Option Text
  start : GraphDateTime
  «end» : GraphDateTime
  organizer : Option GraphAttendeeRef
  isOnlineMeeting : Bool
  deriving DecidableEq, Repr

namespace Outlook

inductive NormaliseError
  | unparseableTimestamp (raw : Text)
  deriving DecidableEq, Repr

/-- What the normaliser takes from other crates: the UUIDv5 of a namespace and a name,
and the instant that a text names in a format without an offset. -/
structure NormaliseCrates where
  newV5 : Uuid → List UInt8 → Uuid
  naiveFromStr : Text → Text → Option ℤ

variable (crates : NormaliseCrates) (sourceId : Uuid) (selfActor : Actor) (event : GraphEvent)

/-! ### The normaliser -/

/-- The instant of a timestamp, with or without a fraction. -/
def parseGraphTimestamp (gdt : GraphDateTime) : Except NormaliseError ℤ :=
  match (crates.naiveFromStr gdt.dateTime "%Y-%m-%dT%H:%M:%S%.f".toList).or
      (crates.naiveFromStr gdt.dateTime "%Y-%m-%dT%H:%M:%S".toList) with
  | some instant => .ok instant
  | none => .error (.unparseableTimestamp gdt.dateTime)

def isPrivate : Bool :=
  (event.sensitivity.map fun s =>
    eqIgnoreAsciiCase s "private".toList || eqIgnoreAsciiCase s "confidential".toList).getD false

/-- A text that is there and not empty. -/
def nonEmpty (t : Option Text) : Option Text := t.filter fun s => decide (s ≠ [])

def composeTitle : Text :=
  if isPrivate event then "Private meeting".toList
  else (nonEmpty event.subject).getD "(No subject)".toList

def urlencodingEncode (s : Text) : Text :=
  s.flatMap fun c =>
    if c = '=' then "%3D".toList
    else if c = '/' then "%2F".toList
    else if c = '+' then "%2B".toList
    else if c = ' ' then "%20".toList
    else [c]

def deepLink (eventId : Text) : Text :=
  "https://outlook.office.com/calendar/item/".toList ++ urlencodingEncode eventId

def organizerEmail : Option Text :=
  (event.organizer.bind (·.emailAddress)).bind (·.address)

def organizerMatchesSelf : Bool :=
  match selfActor.email, organizerEmail event with
  | some selfEmail, some addr => eqIgnoreAsciiCase addr selfEmail
  | _, _ => false

def metadataOf : Json :=
  .object [
    ("outlook_event_id".toList, .string event.id),
    ("is_online_meeting".toList, .bool event.isOnlineMeeting),
    ("is_organizer".toList, .bool (organizerMatchesSelf selfActor event)),
    ("organizer_email".toList, (organizerEmail event).elim .null .string),
    ("start_utc".toList, .string event.start.dateTime),
    ("end_utc".toList, .string event.end.dateTime)]

/-- The event of a row that starts at `occurredAt`. -/
def eventAt (occurredAt : ℤ) : ActivityEvent where
  id := ActivityEvent.deterministicId crates.newV5 sourceId event.id .outlookMeetingAttended
  sourceId := sourceId
  externalId := event.id
  kind := .outlookMeetingAttended
  occurredAt := occurredAt
  actor := selfActor
  title := composeTitle event
  body := if isPrivate event then none else nonEmpty event.bodyPreview
  links := [⟨deepLink event.id, some "Open in Outlook".toList⟩]
  entities := [⟨.outlookEvent, event.id, some ((nonEmpty event.subject).getD "(No subject)".toList)⟩]
  parentExternalId := some event.id
  metadata := metadataOf selfActor event
  privacy := .normal

/-- Only the start is read; the end goes on as it is. -/
def normaliseEvent : Except NormaliseError ActivityEvent :=
  (parseGraphTimestamp crates event.start).map (eventAt crates sourceId selfActor event)

/-! ### Meetings -/

/-- A row whose start and end can be read, the end not before the start. -/
structure Meeting (crates : NormaliseCrates) where
  event : GraphEvent
  start : ℤ
  «end» : ℤ
  parse_start : parseGraphTimestamp crates event.start = .ok start
  parse_end : parseGraphTimestamp crates event.end = .ok «end»
  start_le_end : start ≤ «end»

variable {crates}

/-- The event of a meeting. -/
def Meeting.activity (m : Meeting crates) : ActivityEvent :=
  eventAt crates sourceId selfActor m.event m.start

theorem Meeting.normaliseEvent (m : Meeting crates) :
    normaliseEvent crates sourceId selfActor m.event = .ok (m.activity sourceId selfActor) := by
  rw [Outlook.normaliseEvent, m.parse_start]
  rfl

/-- The events that a list of rows gives. -/
theorem filterMap_normaliseEvent (meetings : List (Meeting crates)) :
    (meetings.filterMap fun m => (Outlook.normaliseEvent crates sourceId selfActor m.event).toOption)
      = meetings.map (Meeting.activity sourceId selfActor) := by
  rw [← List.filterMap_eq_map]
  refine List.filterMap_congr fun m _ => ?_
  rw [m.normaliseEvent]
  rfl

/-- The texts of the bounds are texts in a format without an offset. -/
theorem exists_naive_of_parse {gdt : GraphDateTime} {instant : ℤ}
    (h : parseGraphTimestamp crates gdt = .ok instant) :
    ∃ format, (crates.naiveFromStr gdt.dateTime format).isSome = true := by
  unfold parseGraphTimestamp at h
  cases hfirst : crates.naiveFromStr gdt.dateTime "%Y-%m-%dT%H:%M:%S%.f".toList with
  | some t => exact ⟨_, by rw [hfirst]; rfl⟩
  | none =>
    cases hsecond : crates.naiveFromStr gdt.dateTime "%Y-%m-%dT%H:%M:%S".toList with
    | some t => exact ⟨_, by rw [hsecond]; rfl⟩
    | none =>
      rw [hfirst, hsecond] at h
      exact nomatch h

end Outlook
end Dayseam
