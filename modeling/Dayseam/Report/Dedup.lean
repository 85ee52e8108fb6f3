import Dayseam.Core.Activity
import Dayseam.Lib.KeyedMerge
import Mathlib

/-!
# One event for a commit that two sources report

Sources that see the same commit report it under its SHA.  `dedupCommitAuthored`
merges these events into the first of them; every other event passes through.

## Main definitions

* `mergeTwo` — the richer of two events, with what the other adds.
* `dedupCommitAuthored` — one event for each SHA.

## Main results

* `filter_commits_dedup` — the commits that are left are the merged ones.
* `filter_others_dedup` — the other events are unchanged.
-/

namespace Dayseam
namespace Report

open KeyedMerge

/-! ### Merging two events of a commit -/

/-- The length of the body in bytes. -/
def bodyRank (e : ActivityEvent) : ℕ := (e.body.map Text.byteLen).getD 0

/-- The tie between two bodies of one length goes to the smaller source id. -/
def pickAOnTie (a b : ActivityEvent) : Bool :=
  if bodyRank a ≠ bodyRank b then true else decide (a.sourceId ≤ b.sourceId)

/-- The elements of `a`, then those of `b` that are new. -/
def unionNew {α : Type} [DecidableEq α] (a b : List α) : List α :=
  b.foldl (fun held x => if x ∈ held then held else held ++ [x]) a

def unionLinks (a b : List Link) : List Link := unionNew a b

def unionEntities (a b : List EntityRef) : List EntityRef := unionNew a b

def louderPrivacy : Privacy → Privacy → Privacy
  | .redactedPrivateRepo, _ | _, .redactedPrivateRepo => .redactedPrivateRepo
  | _, _ => .normal

/-- The winner's name, and for each identity the winner's or else the loser's. -/
def mergeActors (winner loser : Actor) : Actor := { winner with
  email := winner.email.or loser.email
  externalId := winner.externalId.or loser.externalId }

def mergeTwo (a b : ActivityEvent) : ActivityEvent :=
  -- the longer body wins, and the first of two equals on a tie
  let (winner, loser) :=
    if bodyRank b ≤ bodyRank a ∧ pickAOnTie a b = true then (a, b) else (b, a)
  { winner with
    links := unionLinks winner.links loser.links
    entities := unionEntities winner.entities loser.entities
    privacy := louderPrivacy winner.privacy loser.privacy
    actor := mergeActors winner.actor loser.actor }

/-! ### Merging a list -/

def isCommit (e : ActivityEvent) : Bool := e.kind == .commitAuthored

/-- Merge a commit into the one with its SHA, or put it at the end. -/
def addCommit (event : ActivityEvent) : List ActivityEvent → List ActivityEvent
  | [] => [event]
  | e :: merged =>
    if isCommit e = true ∧ e.externalId = event.externalId then mergeTwo e event :: merged
    else e :: addCommit event merged

def dedupStep (merged : List ActivityEvent) (event : ActivityEvent) : List ActivityEvent :=
  if isCommit event then addCommit event merged else merged ++ [event]

def dedupCommitAuthored (events : List ActivityEvent) : List ActivityEvent :=
  events.foldl dedupStep []

/-! ### What is merged -/

section Merged

variable {a b e event : ActivityEvent} {events merged : List ActivityEvent}

/-- Two events of one commit are merged into an event of it. -/
theorem mergeTwo_kind_externalId (ha : isCommit a = true) (hb : isCommit b = true)
    (h : a.externalId = b.externalId) :
    isCommit (mergeTwo a b) = true ∧ (mergeTwo a b).externalId = b.externalId := by
  unfold mergeTwo
  split_ifs
  · exact ⟨ha, h⟩
  · exact ⟨hb, rfl⟩

/-- The merged event has the id of one of the two. -/
theorem mergeTwo_id (a b : ActivityEvent) :
    (mergeTwo a b).id = a.id ∨ (mergeTwo a b).id = b.id := by
  unfold mergeTwo
  split_ifs
  · exact Or.inl rfl
  · exact Or.inr rfl

/-- Two events of one commit are merged into one of it. -/
theorem mergeTwo_keeps : Keeps (·.externalId) mergeTwo := by
  intro a b h
  unfold mergeTwo
  split_ifs
  · exact h
  · rfl

theorem louderPrivacy_comm (p q : Privacy) : louderPrivacy p q = louderPrivacy q p := by
  cases p <;> cases q <;> rfl

/-- The merged event is as private as the more private of the two. -/
theorem mergeTwo_privacy (a b : ActivityEvent) :
    (mergeTwo a b).privacy = louderPrivacy a.privacy b.privacy := by
  unfold mergeTwo
  split_ifs
  · rfl
  · exact louderPrivacy_comm _ _

theorem filter_commits_addCommit (h : isCommit event = true) :
    (addCommit event merged).filter isCommit =
      place (·.externalId) mergeTwo (merged.filter isCommit) event := by
  induction merged with
  | nil => simp [addCommit, place, h]
  | cons e merged ih =>
    unfold addCommit
    by_cases he : isCommit e = true
    · rw [List.filter_cons_of_pos he]
      unfold place
      by_cases hx : e.externalId = event.externalId
      · rw [if_pos ⟨he, hx⟩, if_pos hx,
          List.filter_cons_of_pos (mergeTwo_kind_externalId he h hx).1]
      · rw [if_neg fun hc => hx hc.2, if_neg hx, List.filter_cons_of_pos he, ih]
    · rw [if_neg fun hc => he hc.1, List.filter_cons_of_neg he, List.filter_cons_of_neg he, ih]

theorem filter_others_addCommit (h : isCommit event = true) :
    (addCommit event merged).filter (!isCommit ·) = merged.filter (!isCommit ·) := by
  induction merged with
  | nil => simp [addCommit, h]
  | cons e merged ih =>
    unfold addCommit
    split_ifs with hc
    · rw [List.filter_cons_of_neg (by simp [(mergeTwo_kind_externalId hc.1 h hc.2).1]),
        List.filter_cons_of_neg (by simp [hc.1])]
    · rw [List.filter_cons, List.filter_cons, ih]

/-- **The commits that are left are the merged ones**, in the order in which their
SHAs are first seen. -/
theorem filter_commits_dedup (events : List ActivityEvent) :
    (dedupCommitAuthored events).filter isCommit =
      mergeBy (·.externalId) mergeTwo (events.filter isCommit) := by
  suffices h : ∀ merged, (events.foldl dedupStep merged).filter isCommit =
      (events.filter isCommit).foldl (place (·.externalId) mergeTwo) (merged.filter isCommit) from
    h []
  induction events with
  | nil => exact fun _ => rfl
  | cons e events ih =>
    intro merged
    rw [List.foldl_cons, ih]
    by_cases he : isCommit e = true
    · rw [List.filter_cons_of_pos he, List.foldl_cons, dedupStep, if_pos he,
        filter_commits_addCommit he]
    · rw [List.filter_cons_of_neg he, dedupStep, if_neg he, List.filter_append,
        List.filter_cons_of_neg he, List.filter_nil, List.append_nil]

/-- **The other events are unchanged.** -/
theorem filter_others_dedup (events : List ActivityEvent) :
    (dedupCommitAuthored events).filter (!isCommit ·) = events.filter (!isCommit ·) := by
  suffices h : ∀ merged, (events.foldl dedupStep merged).filter (!isCommit ·) =
      merged.filter (!isCommit ·) ++ events.filter (!isCommit ·) from h []
  induction events with
  | nil => exact fun _ => (List.append_nil _).symm
  | cons e events ih =>
    intro merged
    rw [List.foldl_cons, ih]
    by_cases he : isCommit e = true
    · rw [dedupStep, if_pos he, filter_others_addCommit he, List.filter_cons_of_neg (by simp [he])]
    · rw [dedupStep, if_neg he, List.filter_append, List.filter_cons_of_pos (by simpa using he),
        List.filter_nil, List.filter_cons_of_pos (by simpa using he), List.append_assoc,
        List.singleton_append]

end Merged

end Report
end Dayseam
