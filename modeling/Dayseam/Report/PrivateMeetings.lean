import Dayseam.Report.MeetingTimes
import Dayseam.Report.Redaction
import Mathlib

/-!
# Private meetings

A meeting that its owner keeps private is shown as a private meeting.  Its event has
neither its subject nor its text, with one exception: the entity that stands for the
calendar entry is still labelled with the subject.

## Main definitions

* `SameEntry` — rows that differ in the subject and the text only.
* `subjectLabel` — the label that a subject gives.
* `Indistinct` — one row cannot be told from the other.

## Main results

* `eventAt_of_sameEntry` — the event of the one row is that of the other, up to the label.
* `indistinct_iff` — **private rows are indistinct where their labels are equal**, or where they
  cannot be read.
-/

namespace Dayseam
namespace Report

open Outlook

/-- The rows differ in the subject and the text only. -/
structure SameEntry (a b : GraphEvent) : Prop where
  id : a.id = b.id
  sensitivity : a.sensitivity = b.sensitivity
  start : a.start = b.start
  «end» : a.end = b.end
  organizer : a.organizer = b.organizer
  isOnlineMeeting : a.isOnlineMeeting = b.isOnlineMeeting

/-- The label that a subject gives, as a calendar shows it. -/
def subjectLabel (subject : Option Text) : Text :=
  (nonEmpty subject).getD "(No subject)".toList

variable {outlook : NormaliseCrates} {sourceId : Uuid} {owner : Actor} {a b : GraphEvent}

/-- What a day with the row reports; `before` and `after` are the other events of the day. -/
def dayOutcome (outlook : NormaliseCrates) (sourceId : Uuid) (owner : Actor)
    (crates : RenderCrates) (input : ReportInput) (mrs : List MergeRequestArtifact)
    (before after : List ActivityEvent) (event : GraphEvent) : Except ReportError ReportDraft :=
  let own := (normaliseEvent outlook sourceId owner event).toOption.toList
  render crates (ReportInput.over input (pipeline (before ++ own ++ after) mrs))

/-- The rows give equal events, and equal drafts among whatever other events. -/
structure Indistinct (outlook : NormaliseCrates) (sourceId : Uuid) (owner : Actor)
    (a b : GraphEvent) : Prop where
  events : normaliseEvent outlook sourceId owner a = normaliseEvent outlook sourceId owner b
  drafts : ∀ crates input mrs before after,
    dayOutcome outlook sourceId owner crates input mrs before after a =
      dayOutcome outlook sourceId owner crates input mrs before after b

/-! ### The event of a private row -/

theorem SameEntry.isPrivate (h : SameEntry a b) : isPrivate b = isPrivate a := by
  rw [Outlook.isPrivate, Outlook.isPrivate, h.sensitivity]

theorem SameEntry.metadataOf (h : SameEntry a b) : metadataOf owner b = metadataOf owner a := by
  unfold Outlook.metadataOf organizerMatchesSelf organizerEmail
  rw [h.id, h.start, h.end, h.organizer, h.isOnlineMeeting]

/-- **Only the label tells private rows apart.** -/
theorem eventAt_of_sameEntry (ha : isPrivate a = true) (h : SameEntry a b) (occurredAt : ℤ) :
    eventAt outlook sourceId owner b occurredAt =
      { eventAt outlook sourceId owner a occurredAt with
        entities := [⟨.outlookEvent, a.id, some (subjectLabel b.subject)⟩] } := by
  have hb : isPrivate b = true := h.isPrivate.trans ha
  have htitle : composeTitle b = composeTitle a := by
    rw [composeTitle, composeTitle, if_pos hb, if_pos ha]
  unfold eventAt
  rw [h.metadataOf, htitle, ← h.id, if_pos hb, if_pos ha]
  rfl

/-- A label is read off the event. -/
theorem subjectLabel_of_eventAt {occurredAt : ℤ}
    (h : eventAt outlook sourceId owner a occurredAt =
      eventAt outlook sourceId owner b occurredAt) :
    subjectLabel a.subject = subjectLabel b.subject := by
  have hentities := congrArg ActivityEvent.entities h
  have hlabel := congrArg EntityRef.label (List.cons.inj hentities).1
  exact Option.some.inj hlabel

theorem normaliseEvent_eq_iff (ha : isPrivate a = true) (h : SameEntry a b) :
    normaliseEvent outlook sourceId owner a = normaliseEvent outlook sourceId owner b ↔
      (∀ instant, parseGraphTimestamp outlook a.start ≠ .ok instant) ∨
        subjectLabel a.subject = subjectLabel b.subject := by
  unfold normaliseEvent
  rw [← h.start]
  cases hstart : parseGraphTimestamp outlook a.start with
  | error e =>
    refine iff_of_true rfl (Or.inl fun instant hok => ?_)
    exact nomatch hok
  | ok instant =>
    constructor
    · intro heq
      exact Or.inr (subjectLabel_of_eventAt (Except.ok.inj heq))
    · rintro (hnone | hlabel)
      · exact absurd rfl (hnone instant)
      · show Except.ok _ = Except.ok _
        rw [eventAt_of_sameEntry ha h instant, ← hlabel]
        rfl

/-- **Private rows are indistinct** when nothing is made of them, or when their subjects give
one label. -/
theorem indistinct_iff (ha : isPrivate a = true) (h : SameEntry a b) :
    Indistinct outlook sourceId owner a b ↔
      (∀ instant, parseGraphTimestamp outlook a.start ≠ .ok instant) ∨
        subjectLabel a.subject = subjectLabel b.subject := by
  have hiff := @normaliseEvent_eq_iff outlook sourceId owner a b ha h
  rw [← hiff]
  refine ⟨Indistinct.events, fun heq => ⟨heq, fun crates input mrs before after => ?_⟩⟩
  rw [dayOutcome, dayOutcome, heq]

/-! ### A talk about a promotion -/

/-- A private entry of the calendar. -/
def privateEntry (subject : Option Text) : GraphEvent :=
  { graphEventUntil "2026-04-23T15:30:00.0000000".toList with
    subject := subject
    sensitivity := some "private".toList }

theorem sameEntry_privateEntry (subject subject' : Option Text) :
    SameEntry (privateEntry subject) (privateEntry subject') := ⟨rfl, rfl, rfl, rfl, rfl, rfl⟩

/-- An empty subject is a missing one. -/
theorem missing_subject_untold :
    isPrivate (privateEntry none) = true ∧ SameEntry (privateEntry none) (privateEntry (some [])) ∧
      Indistinct graphCrates 2 ada (privateEntry none) (privateEntry (some [])) :=
  ⟨by decide +kernel, sameEntry_privateEntry _ _,
    (indistinct_iff (by decide +kernel) (sameEntry_privateEntry _ _)).mpr (Or.inr rfl)⟩

/-- **The subject of a private meeting** is in its event. -/
theorem promotion_is_told :
    ∃ a b : GraphEvent, isPrivate a = true ∧ isPrivate b = true ∧ SameEntry a b ∧
      normaliseEvent graphCrates 2 ada a ≠ normaliseEvent graphCrates 2 ada b ∧
      ¬Indistinct graphCrates 2 ada a b := by
  have htold : normaliseEvent graphCrates 2 ada (privateEntry (some "1:1 about promotion".toList)) ≠
      normaliseEvent graphCrates 2 ada (privateEntry (some "Board meeting".toList)) := by
    rw [Ne, normaliseEvent_eq_iff (by decide +kernel) (sameEntry_privateEntry _ _), not_or]
    refine ⟨fun hnone => hnone (20566 * nanosPerDay + 54000 * nanosPerSec) rfl, ?_⟩
    decide +kernel
  exact ⟨_, _, by decide +kernel, by decide +kernel, sameEntry_privateEntry _ _, htold,
    fun h => htold h.events⟩

end Report
end Dayseam
