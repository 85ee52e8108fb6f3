import Dayseam.Report.RollupOrder
import Mathlib

/-!
# The merge request before a status change

A status change of an issue gets the first merge request of the issue in the day before it
as its parent.  With distinct ids, which one this is depends on the events and not on their
order.

## Main definitions

* `Candidate` — a merge request that may have triggered a status change.
* `Attributed` — an event behind the pass, against the event before it.

## Main results

* `triggerOf_eq_some`, `triggerOf_eq_none` — what the search finds.
* `transitions_attributed` — **every status change is attributed to the right request, in
  any order of the events.**
-/

namespace Dayseam
namespace Report

open StableSort

variable {events : List ActivityEvent} {e : ActivityEvent} {issueKey : Text}

/-- A merge request that may have triggered the status change: it carries the issue that the
change names first, and was at most a day before. -/
structure Candidate (e c : ActivityEvent) : Prop where
  mrLike : isMrLike c.kind = true
  issue : ∃ issue, e.entity? .jiraIssue = some issue ∧
    ∃ ent ∈ c.entities, ent.kind = .jiraIssue ∧ ent.externalId = issue.externalId
  recent : e.occurredAt - MR_TRIGGER_WINDOW ≤ c.occurredAt
  past : c.occurredAt ≤ e.occurredAt

/-- Requests are ordered by their time and then by their id. -/
def requestKey (c : ActivityEvent) : ℤ ×ₗ Uuid := toLex (c.occurredAt, c.id)

/-- The event behind the pass. -/
inductive Attributed (events : List ActivityEvent) (e : ActivityEvent) : ActivityEvent → Prop
  | other : e.kind ≠ .jiraIssueTransitioned → Attributed events e e
  | untriggered : e.kind = .jiraIssueTransitioned → (∀ d ∈ events, ¬Candidate e d) →
      Attributed events e e
  | triggered {c : ActivityEvent} : e.kind = .jiraIssueTransitioned → c ∈ events →
      Candidate e c → (∀ d ∈ events, Candidate e d → requestKey c ≤ requestKey d) →
      Attributed events e { e with parentExternalId := some c.externalId }

/-! ### The search -/

/-- What the index holds under the key of an issue. -/
theorem mem_issueCandidates {m : MrCandidate} : m ∈ issueCandidates events issueKey ↔
    ∃ c ∈ events, isMrLike c.kind = true ∧
      (∃ ent ∈ c.entities, ent.kind = .jiraIssue ∧ ent.externalId = issueKey) ∧
        m = ⟨c.occurredAt, c.id, c.externalId⟩ := by
  unfold issueCandidates
  rw [List.mem_flatMap]
  constructor
  · rintro ⟨c, hc, hm⟩
    obtain ⟨hc, hlike⟩ := List.mem_filter.mp hc
    obtain ⟨ent, hent, rfl⟩ := List.mem_map.mp hm
    obtain ⟨hent, hnames⟩ := List.mem_filter.mp hent
    rw [Bool.and_eq_true, beq_iff_eq, beq_iff_eq] at hnames
    exact ⟨c, hc, hlike, ⟨ent, hent, hnames⟩, rfl⟩
  · rintro ⟨c, hc, hlike, ⟨ent, hent, hkind, hkey⟩, rfl⟩
    refine ⟨c, List.mem_filter.mpr ⟨hc, hlike⟩, List.mem_map.mpr ⟨ent, ?_, rfl⟩⟩
    rw [List.mem_filter, Bool.and_eq_true, beq_iff_eq, beq_iff_eq]
    exact ⟨hent, hkind, hkey⟩

/-- The entries of the window. -/
def inWindow (e : ActivityEvent) (events : List ActivityEvent) (issueKey : Text) :
    List MrCandidate :=
  (issueCandidates events issueKey).filter fun c =>
    decide (e.occurredAt - MR_TRIGGER_WINDOW ≤ c.occurredAt ∧ c.occurredAt ≤ e.occurredAt)

/-- The entries of the window stand for the candidates. -/
theorem mem_inWindow {issue : EntityRef} (hissue : e.entity? .jiraIssue = some issue)
    {m : MrCandidate} : m ∈ inWindow e events issue.externalId ↔
      ∃ c ∈ events, Candidate e c ∧ m = ⟨c.occurredAt, c.id, c.externalId⟩ := by
  rw [inWindow, List.mem_filter, mem_issueCandidates, decide_eq_true_eq]
  constructor
  · rintro ⟨⟨c, hc, hlike, hnames, rfl⟩, hrecent, hpast⟩
    exact ⟨c, hc, ⟨hlike, ⟨issue, hissue, hnames⟩, hrecent, hpast⟩, rfl⟩
  · rintro ⟨c, hc, ⟨hlike, ⟨issue', hissue', hnames⟩, hrecent, hpast⟩, rfl⟩
    rw [hissue, Option.some.injEq] at hissue'
    exact ⟨⟨c, hc, hlike, hissue' ▸ hnames, rfl⟩, hrecent, hpast⟩

theorem triggerOf_sortBy (events : List ActivityEvent) (e : ActivityEvent) (issueKey : Text) :
    triggerOf events e issueKey = (sortBy (fun m : MrCandidate =>
      (toLex (m.occurredAt, m.id) : ℤ ×ₗ Uuid)) (inWindow e events issueKey)).head? := rfl

/-- **The search finds the first candidate.** -/
theorem triggerOf_eq_some {issue : EntityRef} (hissue : e.entity? .jiraIssue = some issue)
    {m : MrCandidate} (h : triggerOf events e issue.externalId = some m) :
    ∃ c ∈ events, Candidate e c ∧ m.externalId = c.externalId ∧
      ∀ d ∈ events, Candidate e d → requestKey c ≤ requestKey d := by
  rw [triggerOf_sortBy] at h
  obtain ⟨hm, hleast⟩ := head?_sortBy_eq_some h
  obtain ⟨c, hc, hcandidate, rfl⟩ := (mem_inWindow hissue).mp hm
  exact ⟨c, hc, hcandidate, rfl, fun d hd hdc =>
    hleast _ ((mem_inWindow hissue).mpr ⟨d, hd, hdc, rfl⟩)⟩

/-- The search finds nothing only where there is no candidate. -/
theorem triggerOf_eq_none {issue : EntityRef} (hissue : e.entity? .jiraIssue = some issue)
    (h : triggerOf events e issue.externalId = none) : ∀ d ∈ events, ¬Candidate e d := by
  intro d hd hdc
  rw [triggerOf_sortBy] at h
  have hm := (mem_inWindow hissue).mpr ⟨d, hd, hdc, rfl⟩
  rw [head?_sortBy_eq_none h] at hm
  exact List.not_mem_nil hm

/-! ### The pass -/

theorem attributed_annotateTransitionOf (events : List ActivityEvent) (e : ActivityEvent) :
    Attributed events e (annotateTransitionOf events e) := by
  unfold annotateTransitionOf
  by_cases hkind : e.kind = .jiraIssueTransitioned
  · rw [if_pos hkind]
    cases hissue : e.entity? .jiraIssue with
    | none =>
      refine .untriggered hkind fun d _ hdc => ?_
      obtain ⟨issue, hsome, -⟩ := hdc.issue
      rw [hissue] at hsome
      exact nomatch hsome
    | some issue =>
      rw [Option.bind_some]
      cases hfound : triggerOf events e issue.externalId with
      | none => exact .untriggered hkind (triggerOf_eq_none hissue hfound)
      | some m =>
        obtain ⟨c, hc, hcandidate, hid, hleast⟩ := triggerOf_eq_some hissue hfound
        dsimp only
        rw [hid]
        exact .triggered hkind hc hcandidate hleast
  · rw [if_neg hkind]
    exact .other hkind

/-- **Every status change is attributed to the right merge request**, and the pass does the
same to each event in any order of the events. -/
theorem transitions_attributed (hn : (events.map (·.id)).Nodup) :
    ∃ pass : ActivityEvent → ActivityEvent, (∀ e ∈ events, Attributed events e (pass e)) ∧
      ∀ events', events.Perm events' → annotateTransitionWithMr events' = events'.map pass := by
  refine ⟨annotateTransitionOf events, fun e _ => attributed_annotateTransitionOf events e, ?_⟩
  intro events' hperm
  rw [annotateTransitionOf_perm hperm hn]
  rfl

/-! ### A request an hour before the change -/

/-- An event about the issue `CAR-7`. -/
def carEvent (id : Uuid) (kind : ActivityKind) (hour : ℤ) : ActivityEvent where
  id := id
  sourceId := 1
  externalId := "!4".toList
  kind := kind
  occurredAt := hour * (3600 * 1000000000)
  actor := ⟨"Ada".toList, none, none⟩
  title := "CAR-7".toList
  body := none
  links := []
  entities := [⟨.jiraIssue, "CAR-7".toList, none⟩]
  parentExternalId := none
  metadata := .null
  privacy := .normal

/-- A change and the request before it. -/
theorem change_attributed :
    let events := [carEvent 1 .jiraIssueTransitioned 2, carEvent 2 .mrOpened 1]
    (events.map (·.id)).Nodup ∧ ∃ pass : ActivityEvent → ActivityEvent,
      (∀ e ∈ events, Attributed events e (pass e)) ∧
        ∀ events', events.Perm events' → annotateTransitionWithMr events' = events'.map pass := by
  intro events
  have hn : (events.map (·.id)).Nodup := by decide
  exact ⟨hn, transitions_attributed hn⟩

end Report
end Dayseam
