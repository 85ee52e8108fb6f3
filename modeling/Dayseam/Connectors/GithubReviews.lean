import Dayseam.Connectors.Atlassian
import Dayseam.Connectors.Github
import Dayseam.Core.JsonObject
import Dayseam.Lib.Collapse
import Dayseam.Lib.StableSort
import Mathlib

/-!
# Rapid reviews of a pull request

The reviews of a day are sorted by their thread, and a review that comes at most a minute
after the one before it in its thread is folded into that.  What is folded has the fields
of the first review of its run, but for the title, the time, the state and the count.

## Main definitions

* `collapseRapidReviews` — the events of a day, with their reviews collapsed.
* `Conserves` — what the collapse keeps.
* `RunAgrees` — the reviews of a run that tie tell the same.

## Main results

* `folded_of_builds` — what comes of a run.
* `perm_of_ties` — the runs do not depend on the order of the events.
* `conserves_iff` — **when the collapse conserves the reviews.**
-/

namespace Dayseam

open Atlassian (numSeconds)
open Collapse (Builds Runs collapse)
open StableSort (sortBy)

namespace Github

/-! ### The collapse -/

def RAPID_REVIEW_WINDOW_SECONDS : ℤ := 60

def isReview (event : ActivityEvent) : Bool := event.kind == .gitHubPullRequestReviewed

/-- The order of the reviews: by their thread, the time and the id. -/
def reviewKey (event : ActivityEvent) : Text ×ₗ Text ×ₗ ℤ ×ₗ Uuid :=
  toLex (event.parentExternalId.getD [], toLex (event.actor.externalId.getD [],
    toLex (event.occurredAt, event.id)))

def timeKey (event : ActivityEvent) : ℤ ×ₗ Uuid := toLex (event.occurredAt, event.id)

def sameThread (a b : ActivityEvent) : Bool :=
  (a.parentExternalId == b.parentExternalId && a.parentExternalId.isSome) &&
    a.actor.externalId == b.actor.externalId

def withinRapidWindow (earlier later : ℤ) : Bool :=
  decide (((numSeconds (later - earlier)).natAbs : ℤ) ≤ RAPID_REVIEW_WINDOW_SECONDS)

def foldsInto (prev event : ActivityEvent) : Bool :=
  sameThread prev event && withinRapidWindow prev.occurredAt event.occurredAt

def REVIEW_COUNT : Text := "review_count".toList

def REVIEW_STATE : Text := "review_state".toList

def reviewCount (event : ActivityEvent) : ℤ :=
  ((event.metadata.get REVIEW_COUNT).bind Json.asI64).getD 1

def reviewState (event : ActivityEvent) : Option Json := event.metadata.get REVIEW_STATE

/-- The sum of two counts, in 64 bits; a release build wraps. -/
def addCounts (a b : ℤ) : ℤ := (a + b).bmod (2 ^ 64)

/-- A review is folded into the one before it. -/
def foldReview (prev event : ActivityEvent) : ActivityEvent :=
  let stated := match reviewState event with
    | some state => prev.metadata.set REVIEW_STATE state
    | none => prev.metadata
  { prev with
    metadata := stated.set REVIEW_COUNT
      (.number (i64Text (addCounts (reviewCount prev) (reviewCount event))))
    occurredAt := event.occurredAt
    title := event.title }

/-- The reviews in the order in which they are folded. -/
def sortedReviews (events : List ActivityEvent) : List ActivityEvent :=
  sortBy reviewKey (events.filter isReview)

def collapsedReviews (events : List ActivityEvent) : List ActivityEvent :=
  collapse foldsInto id foldReview (sortedReviews events)

def collapseRapidReviews (events : List ActivityEvent) : List ActivityEvent :=
  let others := events.filter fun event => !isReview event
  if (events.filter isReview).isEmpty then others
  else sortBy timeKey (collapsedReviews events) ++ others

theorem collapseRapidReviews_eq (events : List ActivityEvent) :
    collapseRapidReviews events =
      sortBy timeKey (collapsedReviews events) ++ events.filter fun event => !isReview event := by
  unfold collapseRapidReviews
  dsimp only
  split_ifs with hempty
  · rw [collapsedReviews, sortedReviews, List.isEmpty_iff.mp hempty]
    simp [sortBy, collapse]
  · rfl

/-! ### What the collapse keeps -/

/-- `c` is what the reviews of a run come to. -/
structure CollapsedRun (run : List ActivityEvent) (c : ActivityEvent) : Prop where
  thread : ∀ e ∈ run, c.parentExternalId = e.parentExternalId ∧
    c.actor.externalId = e.actor.externalId
  last : ∃ z ∈ run.getLast?, c.occurredAt = z.occurredAt ∧ c.title = z.title ∧
    reviewState c = reviewState z
  count : reviewCount c = (run.map reviewCount).sum
  single : ∀ e, run = [e] → c = e

/-- The collapse conserves the reviews of the events. -/
structure Conserves (events : List ActivityEvent) : Prop where
  /-- one review for each maximal run -/
  runs : ∃ runs cs, Runs foldsInto (sortedReviews events) runs ∧
    List.Forall₂ CollapsedRun runs cs ∧ ((collapseRapidReviews events).filter isReview).Perm cs
  total : ((collapseRapidReviews events).map reviewCount).sum = (events.map reviewCount).sum
  others : (collapseRapidReviews events).filter (fun event => !isReview event) =
    events.filter fun event => !isReview event
  unordered : ∀ events', events'.Perm events → ∀ e, isReview e = true →
    (e ∈ collapseRapidReviews events' ↔ e ∈ collapseRapidReviews events)
  twice : collapseRapidReviews (collapseRapidReviews events) = collapseRapidReviews events

/-- The reviews differ in what a fold overwrites only. -/
def SameBase (a b : ActivityEvent) : Prop :=
  { a with title := b.title, occurredAt := b.occurredAt, metadata := b.metadata } = b ∧
    ∀ key, key ≠ REVIEW_STATE → key ≠ REVIEW_COUNT → a.metadata.get key = b.metadata.get key

/-- The count of the run fits, the last review has a state if any has, and the reviews that
tie with the first or the last of the run tell the same as that. -/
structure RunAgrees (run : List ActivityEvent) : Prop where
  count : -2 ^ 63 ≤ (run.map reviewCount).sum ∧ (run.map reviewCount).sum < 2 ^ 63
  first : ∀ a ∈ run.head?, ∀ e ∈ run, reviewKey e = reviewKey a → SameBase e a
  last : ∀ z ∈ run.getLast?, ∀ e ∈ run, reviewKey e = reviewKey z →
    e.title = z.title ∧ (reviewState e = none ∨ reviewState e = reviewState z)
  stated : ∀ z ∈ run.getLast?, reviewState z = none → ∀ e ∈ run, reviewState e = none

/-! ### What comes of a run -/

theorem SameBase.rfl {a : ActivityEvent} : SameBase a a := ⟨Eq.refl _, fun _ _ _ => Eq.refl _⟩

/-- The fields that a fold leaves alone. -/
theorem SameBase.trans {a b c : ActivityEvent} (h : SameBase a b) (h' : SameBase b c) :
    SameBase a c := by
  obtain ⟨hab, hget⟩ := h
  obtain ⟨hbc, hget'⟩ := h'
  refine ⟨?_, fun key h1 h2 => (hget key h1 h2).trans (hget' key h1 h2)⟩
  conv_rhs => rw [← hbc, ← hab]

theorem SameBase.symm {a b : ActivityEvent} (h : SameBase a b) : SameBase b a := by
  obtain ⟨hab, hget⟩ := h
  refine ⟨?_, fun key h1 h2 => (hget key h1 h2).symm⟩
  rw [← hab]

/-- What the folds make of a run: the first review, with what the later ones overwrite. -/
structure Folded (run : List ActivityEvent) (c : ActivityEvent) : Prop where
  canonical : c.metadata.Canonical
  base : ∃ a ∈ run.head?, SameBase c a
  last : ∃ z ∈ run.getLast?, c.occurredAt = z.occurredAt ∧ c.title = z.title
  state : reviewState c = (run.filterMap reviewState).getLast?
  single : ∀ a, run = [a] → c = a
  counted : 2 ≤ run.length → c.metadata.get REVIEW_COUNT =
    some (.number (i64Text ((run.map reviewCount).sum.bmod (2 ^ 64))))

theorem bmod_range (n : ℤ) : -2 ^ 63 ≤ n.bmod (2 ^ 64) ∧ n.bmod (2 ^ 64) < 2 ^ 63 := by
  have h1 := @Int.le_bmod n (2 ^ 64) (by decide)
  have h2 := @Int.bmod_lt n (2 ^ 64) (by decide)
  omega

theorem bmod_eq_iff {n : ℤ} : n.bmod (2 ^ 64) = n ↔ -2 ^ 63 ≤ n ∧ n < 2 ^ 63 := by
  constructor
  · intro h
    rw [← h]
    exact bmod_range n
  · rintro ⟨h1, h2⟩
    exact Int.bmod_eq_of_le (by omega) (by omega)

/-- A count is a number in 64 bits. -/
theorem reviewCount_range (e : ActivityEvent) :
    -2 ^ 63 ≤ reviewCount e ∧ reviewCount e < 2 ^ 63 := by
  unfold reviewCount
  cases h : (e.metadata.get REVIEW_COUNT).bind Json.asI64 with
  | none => exact ⟨by decide, by decide⟩
  | some n =>
    obtain ⟨value, -, hn⟩ := Option.bind_eq_some_iff.mp h
    cases value with
    | number t => exact parseI64_range hn
    | null | bool | string | array | object => cases hn

theorem reviewCount_of_get {e : ActivityEvent} {n : ℤ}
    (h : e.metadata.get REVIEW_COUNT = some (.number (i64Text n))) (hn : -2 ^ 63 ≤ n ∧ n < 2 ^ 63) :
    reviewCount e = n := by
  unfold reviewCount
  rw [h, Option.bind_some, Json.asI64, parseI64_i64Text hn]
  rfl

/-- The counts of a run are added up in 64 bits. -/
theorem Folded.count {run : List ActivityEvent} {c : ActivityEvent} (h : Folded run c) :
    reviewCount c = (run.map reviewCount).sum.bmod (2 ^ 64) := by
  obtain ⟨a, ha, -⟩ := h.base
  rcases run with - | ⟨x, - | ⟨y, rest⟩⟩
  · cases ha
  · obtain rfl := h.single x rfl
    simp only [List.map_cons, List.map_nil, List.sum_cons, List.sum_nil, Int.add_zero]
    exact (bmod_eq_iff.mpr (reviewCount_range c)).symm
  · exact reviewCount_of_get (h.counted (by simp)) (bmod_range _)

/-- **What comes of a run** of reviews. -/
theorem folded_of_builds {run : List ActivityEvent} {c : ActivityEvent}
    (hobj : ∀ e ∈ run, e.metadata.Canonical) (h : Builds id foldReview run c) : Folded run c := by
  revert hobj
  refine Collapse.builds_induction (P := fun run c => (∀ e ∈ run, e.metadata.Canonical) →
    Folded run c) ?_ ?_ h
  · intro a hobj
    refine ⟨hobj a List.mem_cons_self, ⟨a, rfl, .rfl⟩, ⟨a, rfl, rfl, rfl⟩, ?_, ?_, ?_⟩
    · show reviewState a = _
      cases hs : reviewState a <;> simp [hs]
    · rintro b hb
      exact (List.cons.inj hb).1
    · intro hlen
      simp at hlen
  · intro run b a ih hobj
    have hb := ih fun e he => hobj e (List.mem_append_left _ he)
    obtain ⟨x, hx, hbase⟩ := hb.base
    have hhead : x ∈ (run ++ [a]).head? := by
      rw [List.head?_append, hx]
      rfl
    -- the metadata, with the new state if there is one
    have hstated : ∃ stated : Json, stated.Canonical ∧
        (foldReview b a).metadata = stated.set REVIEW_COUNT
          (.number (i64Text (addCounts (reviewCount b) (reviewCount a)))) ∧
        stated.get REVIEW_STATE = (reviewState a).or (reviewState b) ∧
        ∀ key, key ≠ REVIEW_STATE → stated.get key = b.metadata.get key := by
      unfold foldReview
      cases hs : reviewState a with
      | none => exact ⟨_, hb.canonical, rfl, rfl, fun _ _ => rfl⟩
      | some state =>
        refine ⟨_, hb.canonical.set, rfl, ?_, fun key hkey => ?_⟩
        · rw [hb.canonical.get_set, if_pos rfl]
          rfl
        · rw [hb.canonical.get_set, if_neg hkey]
    obtain ⟨stated, hcanon, hmeta, hstate, hrest⟩ := hstated
    have hlast : a ∈ (run ++ [a]).getLast? := by
      rw [List.getLast?_concat]
      rfl
    refine ⟨?_, ⟨x, hhead, ?_, ?_⟩, ⟨a, hlast, rfl, rfl⟩, ?_, ?_, fun _ => ?_⟩
    · rw [hmeta]
      exact hcanon.set
    · exact hbase.1
    · intro key h1 h2
      rw [hmeta, hcanon.get_set, if_neg h2, hrest key h1]
      exact hbase.2 key h1 h2
    · show (foldReview b a).metadata.get REVIEW_STATE = _
      rw [hmeta, hcanon.get_set, if_neg (by decide), hstate, hb.state, List.filterMap_append]
      cases hs : reviewState a <;> simp [hs]
    · intro e he
      have hlen := congrArg List.length he
      obtain ⟨ys, rfl⟩ := List.head?_eq_some_iff.mp hx
      simp at hlen
    · rw [hmeta, hcanon.get_set, if_pos rfl, hb.count, addCounts, Int.bmod_add_bmod,
        List.map_append, List.sum_append]
      simp

/-! ### The runs and the order of the events -/

/-- The thread and the time of a review. -/
def spot (e : ActivityEvent) : Text ×ₗ Text ×ₗ ℤ :=
  toLex (e.parentExternalId.getD [], toLex (e.actor.externalId.getD [], e.occurredAt))

/-- The ids of the parent and of the actor, where there are any, are not empty. -/
def Addressed (e : ActivityEvent) : Prop :=
  e.parentExternalId ≠ some [] ∧ e.actor.externalId ≠ some []

theorem spot_eq_of_reviewKey {a b : ActivityEvent} (h : reviewKey a = reviewKey b) :
    spot a = spot b := by
  simp only [reviewKey, spot, toLex_inj, Prod.mk.injEq] at h ⊢
  exact ⟨h.1, h.2.1, h.2.2.1⟩

theorem spot_le_of_reviewKey {a b : ActivityEvent} (h : reviewKey a ≤ reviewKey b) :
    spot a ≤ spot b := by
  simp only [reviewKey, spot, Prod.Lex.toLex_le_toLex] at h ⊢
  rcases h with h | ⟨h1, h | ⟨h2, h⟩⟩
  · exact Or.inl h
  · exact Or.inr ⟨h1, Or.inl h⟩
  · refine Or.inr ⟨h1, Or.inr ⟨h2, ?_⟩⟩
    rcases h with h | ⟨h, -⟩
    · exact h.le
    · exact h.le

theorem getD_nil_inj {a b : Option Text} (ha : a ≠ some []) (hb : b ≠ some [])
    (h : a.getD [] = b.getD []) : a = b := by
  cases a with
  | none =>
    cases b with
    | none => rfl
    | some t => exact absurd (congrArg some h.symm) hb
  | some s =>
    cases b with
    | none => exact absurd (congrArg some h) ha
    | some t => exact congrArg some h

theorem eq_of_spot {a b : ActivityEvent} (ha : Addressed a) (hb : Addressed b)
    (h : spot a = spot b) : a.parentExternalId = b.parentExternalId ∧
      a.actor.externalId = b.actor.externalId ∧ a.occurredAt = b.occurredAt := by
  simp only [spot, toLex_inj, Prod.mk.injEq] at h
  exact ⟨getD_nil_inj ha.1 hb.1 h.1, getD_nil_inj ha.2 hb.2 h.2.1, h.2.2⟩

theorem foldsInto_iff {a b : ActivityEvent} :
    foldsInto a b = true ↔ (a.parentExternalId = b.parentExternalId ∧
      a.parentExternalId.isSome = true) ∧ a.actor.externalId = b.actor.externalId ∧
        ((numSeconds (b.occurredAt - a.occurredAt)).natAbs : ℤ) ≤ RAPID_REVIEW_WINDOW_SECONDS := by
  simp only [foldsInto, sameThread, withinRapidWindow, Bool.and_eq_true, beq_iff_eq,
    decide_eq_true_eq, and_assoc]

/-- Reviews of one thread at one time are near. -/
theorem foldsInto_of_spot {x a b : ActivityEvent} (hx : Addressed x) (ha : Addressed a)
    (hb : Addressed b) (hsome : x.parentExternalId.isSome = true) (hax : spot a = spot x)
    (hbx : spot b = spot x) : foldsInto a b = true := by
  obtain ⟨hp, hc, ht⟩ := eq_of_spot ha hx hax
  obtain ⟨hp', hc', ht'⟩ := eq_of_spot hb hx hbx
  refine foldsInto_iff.mpr ⟨⟨hp.trans hp'.symm, hp ▸ hsome⟩, hc.trans hc'.symm, ?_⟩
  rw [ht, ht', Int.sub_self]
  decide

section Runs

variable {events events' : List ActivityEvent} {run : List ActivityEvent}

theorem mem_sortedReviews {e : ActivityEvent} :
    e ∈ sortedReviews events ↔ e ∈ events ∧ isReview e = true := by
  rw [sortedReviews, (StableSort.sortBy_perm _ _).mem_iff, List.mem_filter]

theorem runs_sortedReviews (events : List ActivityEvent) :
    Runs foldsInto (sortedReviews events) ((sortedReviews events).splitBy foldsInto) :=
  Collapse.runs_iff.mpr rfl

theorem pairwise_spot : (sortedReviews events).Pairwise fun a b => spot a ≤ spot b :=
  (StableSort.pairwise_sortBy reviewKey _).imp spot_le_of_reviewKey

/-- The reviews of a run are of one thread. -/
theorem thread_of_mem_run (hrun : run ∈ (sortedReviews events).splitBy foldsInto) :
    ∀ x ∈ run, ∀ y ∈ run, x.parentExternalId = y.parentExternalId ∧
      x.actor.externalId = y.actor.externalId := by
  have hchain := (runs_sortedReviews events).linked run hrun
  have hthread : run.IsChain fun a b => a.parentExternalId = b.parentExternalId ∧
      a.actor.externalId = b.actor.externalId :=
    hchain.imp fun a b h => ⟨(foldsInto_iff.mp h).1.1, (foldsInto_iff.mp h).2.1⟩
  have htrans : IsTrans ActivityEvent fun a b => a.parentExternalId = b.parentExternalId ∧
      a.actor.externalId = b.actor.externalId :=
    ⟨fun _ _ _ h h' => ⟨h.1.trans h'.1, h.2.trans h'.2⟩⟩
  have hsymm : Std.Symm fun a b : ActivityEvent => a.parentExternalId = b.parentExternalId ∧
      a.actor.externalId = b.actor.externalId :=
    ⟨fun _ _ h => ⟨h.1.symm, h.2.symm⟩⟩
  intro x hx y hy
  exact (List.isChain_iff_pairwise.mp hthread).forall_of_forall (fun x _ => ⟨rfl, rfl⟩) hx hy

/-- A review without a parent stays single. -/
theorem run_eq_singleton (hrun : run ∈ (sortedReviews events).splitBy foldsInto)
    {x : ActivityEvent} (hx : x ∈ run) (hnone : x.parentExternalId = none) : run = [x] := by
  have hchain := (runs_sortedReviews events).linked run hrun
  rcases run with - | ⟨a, - | ⟨b, rest⟩⟩
  · cases hx
  · rw [List.mem_singleton.mp hx]
  · have hsome := (foldsInto_iff.mp (List.isChain_cons_cons.mp hchain).1).1.2
    rw [(thread_of_mem_run hrun a List.mem_cons_self x hx).1, hnone] at hsome
    cases hsome

variable (haddr : ∀ e ∈ events, Addressed e)

include haddr

/-- A run of a thread holds all reviews of the thread at its times. -/
theorem filter_spot (hrun : run ∈ (sortedReviews events).splitBy foldsInto)
    (hsome : ∀ x ∈ run, x.parentExternalId.isSome = true) :
    (sortedReviews events).filter (fun e => spot e ∈ run.map spot) = run := by
  have hruns := runs_sortedReviews events
  have hsub {x : ActivityEvent} (hx : x ∈ run) : x ∈ sortedReviews events :=
    hruns.flatten ▸ List.mem_flatten.mpr ⟨run, hrun, hx⟩
  refine hruns.filter_eq pairwise_spot hrun fun x hx a ha b hb hax hbx => ?_
  exact foldsInto_of_spot (haddr x (mem_sortedReviews.mp (hsub hx)).1)
    (haddr a (mem_sortedReviews.mp ha).1) (haddr b (mem_sortedReviews.mp hb).1) (hsome x hx) hax hbx

end Runs

/-- Reviews that the sort leaves as they stand. -/
structure Ties (a b : ActivityEvent) : Prop where
  key : reviewKey a = reviewKey b
  parent : a.parentExternalId = b.parentExternalId
  actor : a.actor.externalId = b.actor.externalId
  time : a.occurredAt = b.occurredAt

theorem ties_of_reviewKey {a b : ActivityEvent} (ha : Addressed a) (hb : Addressed b)
    (h : reviewKey a = reviewKey b) : Ties a b := by
  obtain ⟨hp, hc, ht⟩ := eq_of_spot ha hb (spot_eq_of_reviewKey h)
  exact ⟨h, hp, hc, ht⟩

theorem foldsInto_congr {a a' b b' : ActivityEvent} (h : Ties a a') (h' : Ties b b') :
    foldsInto a b = foldsInto a' b' := by
  rw [Bool.eq_iff_iff, foldsInto_iff, foldsInto_iff, h.parent, h.actor, h.time, h'.parent, h'.actor,
    h'.time]

section Order

variable {events events' : List ActivityEvent} {run run' : List ActivityEvent}

theorem sortedReviews_perm (hperm : events'.Perm events) :
    (sortedReviews events').Perm (sortedReviews events) :=
  ((StableSort.sortBy_perm _ _).trans (hperm.filter _)).trans (StableSort.sortBy_perm _ _).symm

/-- In whatever order the events come, the sorted reviews tie one by one. -/
theorem forall₂_ties (haddr : ∀ e ∈ events, Addressed e) (hperm : events'.Perm events) :
    List.Forall₂ Ties (sortedReviews events) (sortedReviews events') := by
  have hkeys : (sortedReviews events).map reviewKey = (sortedReviews events').map reviewKey := by
    have hsorted {evs : List ActivityEvent} :
        ((sortedReviews evs).map reviewKey).Pairwise fun k l => k ≤ l :=
      List.pairwise_map.mpr (StableSort.pairwise_sortBy reviewKey _)
    exact List.Perm.eq_of_pairwise (fun _ _ _ _ h1 h2 => le_antisymm h1 h2) hsorted hsorted
      ((sortedReviews_perm hperm).symm.map _)
  have heq : List.Forall₂ (fun a b => reviewKey a = reviewKey b) (sortedReviews events)
      (sortedReviews events') := by
    have h := List.forall₂_eq_eq_eq ▸ hkeys
    exact List.forall₂_map_right_iff.mp (List.forall₂_map_left_iff.mp h)
  have hleft := List.forall₂_and_left _ _ |>.mpr ⟨fun a ha =>
    haddr a (mem_sortedReviews.mp ha).1, heq⟩
  have hboth := List.forall₂_and_left _ _ |>.mpr ⟨fun b hb =>
    haddr b (hperm.mem_iff.mp (mem_sortedReviews.mp hb).1), hleft.flip⟩
  exact hboth.flip.imp fun a b h => ties_of_reviewKey h.2.1 h.1 h.2.2

/-- The runs tie one by one. -/
theorem forall₂_runs (haddr : ∀ e ∈ events, Addressed e) (hperm : events'.Perm events) :
    List.Forall₂ (List.Forall₂ Ties) ((sortedReviews events).splitBy foldsInto)
      ((sortedReviews events').splitBy foldsInto) :=
  @Collapse.forall₂_splitBy _ _ Ties foldsInto foldsInto (fun _ _ _ _ h h' => foldsInto_congr h h')
    _ _ (forall₂_ties haddr hperm)

/-- **The runs do not depend on the order of the events**, but for the order of ties. -/
theorem perm_of_ties (haddr : ∀ e ∈ events, Addressed e) (hperm : events'.Perm events)
    (hrun : run ∈ (sortedReviews events).splitBy foldsInto)
    (hrun' : run' ∈ (sortedReviews events').splitBy foldsInto) (hties : List.Forall₂ Ties run run')
    (hsome : ∀ x ∈ run, x.parentExternalId.isSome = true) : run'.Perm run := by
  have hspots : run.map spot = run'.map spot :=
    Collapse.map_eq_of_forall₂ hties fun a b h => spot_eq_of_reviewKey h.key
  have hsome' : ∀ x ∈ run', x.parentExternalId.isSome = true := by
    intro x' hx'
    obtain ⟨x, hx, h⟩ := Collapse.exists_right_of_mem hties.flip hx'
    exact h.parent ▸ hsome x hx
  have haddr' : ∀ e ∈ events', Addressed e := fun e he => haddr e (hperm.mem_iff.mp he)
  rw [← filter_spot haddr hrun hsome, ← filter_spot haddr' hrun' hsome', hspots]
  exact (sortedReviews_perm hperm).filter _

end Order

/-! ### The collapsed reviews -/

theorem forall₂_builds (events : List ActivityEvent) :
    List.Forall₂ (Builds id foldReview) ((sortedReviews events).splitBy foldsInto)
      (collapsedReviews events) :=
  -- what is folded has the thread and the time of the last review
  @Collapse.forall₂_collapse _ _ foldsInto id foldReview _
    (fun e => (e.parentExternalId, e.actor.externalId, e.occurredAt))
    (fun e => (e.parentExternalId, e.actor.externalId, e.occurredAt))
    (fun p q => ((p.1 == q.1 && p.1.isSome) && p.2.1 == q.2.1) && withinRapidWindow p.2.2 q.2.2)
    (fun _ _ => rfl) (fun _ => rfl)
    (fun b a h => by
      obtain ⟨⟨hp, -⟩, hc, -⟩ := foldsInto_iff.mp h
      show (b.parentExternalId, b.actor.externalId, a.occurredAt) = _
      rw [hp, hc]) (sortedReviews events)

theorem builds_unique {run : List ActivityEvent} {c c' : ActivityEvent}
    (h : Builds id foldReview run c) (h' : Builds id foldReview run c') : c = c' := by
  obtain ⟨a, as, rfl, rfl⟩ := h
  obtain ⟨b, bs, heq, rfl⟩ := h'
  obtain ⟨rfl, rfl⟩ := List.cons.inj heq
  rfl

/-- What is folded is known by the first review, the last one, and the states. -/
theorem Folded.eq {run run' : List ActivityEvent} {c c' : ActivityEvent} (h : Folded run c)
    (h' : Folded run' c') (hperm : run'.Perm run) (hlen : 2 ≤ run.length)
    (hfirst : ∀ a ∈ run.head?, ∀ a' ∈ run'.head?, SameBase a' a)
    (hlast : ∀ z ∈ run.getLast?, ∀ z' ∈ run'.getLast?,
      z'.occurredAt = z.occurredAt ∧ z'.title = z.title)
    (hstate : reviewState c' = reviewState c) : c' = c := by
  obtain ⟨a, ha, hbase⟩ := h.base
  obtain ⟨a', ha', hbase'⟩ := h'.base
  obtain ⟨z, hz, htime, htitle⟩ := h.last
  obtain ⟨z', hz', htime', htitle'⟩ := h'.last
  obtain ⟨hzt, hztitle⟩ := hlast z hz z' hz'
  obtain ⟨hfields, hget⟩ := (hbase'.trans (hfirst a ha a' ha')).trans hbase.symm
  have hsum : (run'.map reviewCount).sum = (run.map reviewCount).sum := (hperm.map _).sum_eq
  have hmeta : c'.metadata = c.metadata := by
    refine h'.canonical.ext h.canonical fun key => ?_
    by_cases hs : key = REVIEW_STATE
    · rw [hs]
      exact hstate
    · by_cases hc : key = REVIEW_COUNT
      · rw [hc, h.counted hlen, h'.counted (by rw [hperm.length_eq]; exact hlen), hsum]
      · exact hget key hs hc
  rw [← hfields, ← hmeta, htime, htitle, ← hzt, ← hztitle, ← htime', ← htitle']

section States

variable {run run' : List ActivityEvent}

/-- The state of a run is that of its last review. -/
theorem getLast?_states {z : ActivityEvent} (hz : z ∈ run.getLast?)
    (hstated : reviewState z = none → ∀ e ∈ run, reviewState e = none) :
    (run.filterMap reviewState).getLast? = reviewState z := by
  cases hs : reviewState z with
  | none => rw [List.filterMap_eq_nil_iff.mpr (hstated hs)]; rfl
  | some state =>
    obtain ⟨l, rfl⟩ := List.getLast?_eq_some_iff.mp hz
    rw [List.filterMap_append, List.filterMap_cons_some hs]
    exact List.getLast?_concat

/-- A run in another order has the same state, where ties agree. -/
theorem getLast?_states_of_perm {z : ActivityEvent} (hz : z ∈ run.getLast?) (hperm : run'.Perm run)
    (hsorted : run'.Pairwise fun a b => reviewKey a ≤ reviewKey b)
    (hmax : ∀ e ∈ run, reviewKey e ≤ reviewKey z)
    (hagree : ∀ e ∈ run, reviewKey e = reviewKey z →
      reviewState e = none ∨ reviewState e = reviewState z)
    (hstated : reviewState z = none → ∀ e ∈ run, reviewState e = none) :
    (run'.filterMap reviewState).getLast? = reviewState z := by
  cases hs : reviewState z with
  | none =>
    rw [List.filterMap_eq_nil_iff.mpr fun e he => hstated hs e (hperm.mem_iff.mp he)]
    rfl
  | some state =>
    -- behind `z` stand only reviews that tie with it
    obtain ⟨l, r, rfl⟩ :=
      List.append_of_mem (hperm.mem_iff.mpr (List.mem_of_mem_getLast? hz))
    have hr : ∀ e ∈ r, reviewState e = none ∨ reviewState e = some state := by
      intro e he
      have hmem : e ∈ run :=
        hperm.mem_iff.mp (List.mem_append_right _ (List.mem_cons_of_mem _ he))
      have hle := (List.pairwise_cons.mp (List.pairwise_append.mp hsorted).2.1).1 e he
      have htie := hagree e hmem (le_antisymm (hmax e hmem) hle)
      rwa [hs] at htie
    rw [List.filterMap_append, List.filterMap_cons_some hs,
      List.getLast?_append_of_ne_nil _ (by simp)]
    have hall : ∀ s ∈ state :: r.filterMap reviewState, s = state := by
      intro s hs
      rcases List.mem_cons.mp hs with rfl | hs
      · rfl
      · obtain ⟨e, he, hes⟩ := List.mem_filterMap.mp hs
        rcases hr e he with hnone | hsome
        · rw [hes] at hnone
          cases hnone
        · exact Option.some.inj (hes.symm.trans hsome)
    obtain ⟨s, hlast⟩ : ∃ s, (state :: r.filterMap reviewState).getLast? = some s :=
      ⟨_, List.getLast?_eq_some_getLast (by simp)⟩
    rw [hlast, hall s (List.mem_of_getLast? hlast)]

end States

/-! ### When the reviews are conserved -/

section Conserved

variable {events events' : List ActivityEvent} {run run' : List ActivityEvent}

/-- What a run of the events holds is among them. -/
theorem mem_of_mem_run (hrun : run ∈ (sortedReviews events).splitBy foldsInto) {e : ActivityEvent}
    (he : e ∈ run) : e ∈ events ∧ isReview e = true := by
  have hruns := runs_sortedReviews events
  exact mem_sortedReviews.mp (hruns.flatten ▸ List.mem_flatten.mpr ⟨run, hrun, he⟩)

theorem sorted_run (hrun : run ∈ (sortedReviews events).splitBy foldsInto) :
    run.Pairwise fun a b => reviewKey a ≤ reviewKey b := by
  have hruns := runs_sortedReviews events
  have hsorted := StableSort.pairwise_sortBy reviewKey (events.filter isReview)
  rw [show sortBy reviewKey (events.filter isReview) = _ from hruns.flatten.symm] at hsorted
  exact (List.pairwise_flatten.mp hsorted).1 run hrun

theorem reviewKey_le_last (hrun : run ∈ (sortedReviews events).splitBy foldsInto)
    {z : ActivityEvent} (hz : z ∈ run.getLast?) : ∀ e ∈ run, reviewKey e ≤ reviewKey z := by
  obtain ⟨l, rfl⟩ := List.getLast?_eq_some_iff.mp hz
  intro e he
  rcases List.mem_append.mp he with he | he
  · exact (List.pairwise_append.mp (sorted_run hrun)).2.2 e he z List.mem_cons_self
  · rw [List.mem_singleton.mp he]

theorem folded_of_mem_run (hobj : ∀ e ∈ events, e.metadata.Canonical)
    (hrun : run ∈ (sortedReviews events).splitBy foldsInto) {c : ActivityEvent}
    (h : Builds id foldReview run c) : Folded run c :=
  folded_of_builds (fun e he => hobj e (mem_of_mem_run hrun he).1) h

/-- A review without a parent comes out as it went in. -/
theorem mem_collapsedReviews_of_lone {a : ActivityEvent} (ha : a ∈ sortedReviews events)
    (hnone : a.parentExternalId = none) : a ∈ collapsedReviews events := by
  have hruns := runs_sortedReviews events
  rw [← hruns.flatten] at ha
  obtain ⟨run, hrun, ha⟩ := List.mem_flatten.mp ha
  obtain ⟨c, hc, hbuilds⟩ := Collapse.exists_right_of_mem (forall₂_builds events) hrun
  obtain rfl := run_eq_singleton hrun ha hnone
  obtain ⟨x, xs, hx, rfl⟩ := hbuilds
  obtain ⟨rfl, rfl⟩ := List.cons.inj hx
  exact hc

variable (hobj : ∀ e ∈ events, e.metadata.Canonical) (haddr : ∀ e ∈ events, Addressed e)

include hobj haddr

/-- Runs that tie come to the same review, where their reviews agree. -/
theorem eq_of_ties (hperm : events'.Perm events)
    (hrun : run ∈ (sortedReviews events).splitBy foldsInto)
    (hrun' : run' ∈ (sortedReviews events').splitBy foldsInto) (hties : List.Forall₂ Ties run run')
    (hsome : ∀ x ∈ run, x.parentExternalId.isSome = true) (hagree : RunAgrees run)
    {c c' : ActivityEvent} (hc : Builds id foldReview run c) (hc' : Builds id foldReview run' c') :
    c' = c := by
  have hrunperm := perm_of_ties haddr hperm hrun hrun' hties hsome
  have hobj' : ∀ e ∈ events', e.metadata.Canonical := fun e he => hobj e (hperm.mem_iff.mp he)
  have hfold := folded_of_mem_run hobj hrun hc
  have hfold' := folded_of_mem_run hobj' hrun' hc'
  rcases Nat.lt_or_ge run.length 2 with hlen | hlen
  · -- a run of one is that review
    obtain ⟨a, ha, -⟩ := hfold.base
    obtain rfl : run = [a] := by
      rcases run with - | ⟨x, - | ⟨y, rest⟩⟩
      · cases ha
      · rw [Option.some.inj ha]
      · rw [List.length_cons, List.length_cons] at hlen
        omega
    rw [hfold.single a rfl, hfold'.single a (List.perm_singleton.mp hrunperm)]
  · have htie {x x' : ActivityEvent} (hx' : x' ∈ run') (h : Ties x x') :
        x' ∈ run ∧ reviewKey x' = reviewKey x := ⟨hrunperm.mem_iff.mp hx', h.key.symm⟩
    refine hfold.eq hfold' hrunperm hlen ?_ ?_ ?_
    · intro a ha a' ha'
      obtain ⟨as, rfl⟩ := List.head?_eq_some_iff.mp ha
      obtain ⟨as', rfl⟩ := List.head?_eq_some_iff.mp ha'
      obtain ⟨hmem, hkey⟩ := htie List.mem_cons_self (List.forall₂_cons.mp hties).1
      exact hagree.first a ha a' hmem hkey
    · intro z hz z' hz'
      have hlast := List.rel_reverse hties
      rw [Option.mem_def, ← List.head?_reverse] at hz hz'
      obtain ⟨zs, hzs⟩ := List.head?_eq_some_iff.mp hz
      obtain ⟨zs', hzs'⟩ := List.head?_eq_some_iff.mp hz'
      rw [hzs, hzs'] at hlast
      have hz'' : z' ∈ run' := List.mem_reverse.mp (hzs' ▸ List.mem_cons_self)
      have hties := (List.forall₂_cons.mp hlast).1
      obtain ⟨hmem, hkey⟩ := htie hz'' hties
      rw [List.head?_reverse] at hz
      exact ⟨hties.time.symm, (hagree.last z hz z' hmem hkey).1⟩
    · obtain ⟨z, hz, -⟩ := hfold.last
      rw [hfold.state, hfold'.state, getLast?_states hz (hagree.stated z hz)]
      exact getLast?_states_of_perm hz hrunperm (sorted_run hrun') (reviewKey_le_last hrun hz)
        (fun e he hkey => (hagree.last z hz e he hkey).2) (hagree.stated z hz)

/-- The set of the collapsed reviews does not depend on the order of the events. -/
theorem mem_collapsedReviews_of_perm (hperm : events'.Perm events)
    (hagree : ∀ run ∈ (sortedReviews events).splitBy foldsInto, RunAgrees run) (c : ActivityEvent) :
    c ∈ collapsedReviews events' ↔ c ∈ collapsedReviews events := by
  have hties := forall₂_runs haddr hperm
  have hbuilds := forall₂_builds events
  have hbuilds' := forall₂_builds events'
  have hlone {evs : List ActivityEvent} {run : List ActivityEvent} {x d : ActivityEvent}
      (hrun : run ∈ (sortedReviews evs).splitBy foldsInto) (hx : x ∈ run)
      (hnone : x.parentExternalId = none) (hd : Builds id foldReview run d) :
      d = x ∧ x ∈ sortedReviews evs := by
    refine ⟨?_, mem_sortedReviews.mpr (mem_of_mem_run hrun hx)⟩
    obtain rfl := run_eq_singleton hrun hx hnone
    obtain ⟨y, ys, hy, rfl⟩ := hd
    obtain ⟨rfl, rfl⟩ := List.cons.inj hy
    rfl
  -- a run has a parent throughout, or it is one review without
  have hcases {run run' : List ActivityEvent} {d d' : ActivityEvent}
      (hrun : run ∈ (sortedReviews events).splitBy foldsInto)
      (hrun' : run' ∈ (sortedReviews events').splitBy foldsInto) (h : List.Forall₂ Ties run run')
      (hd : Builds id foldReview run d) (hd' : Builds id foldReview run' d') :
      d' = d ∨ d ∈ collapsedReviews events' ∧ d' ∈ collapsedReviews events := by
    by_cases hsome : ∀ x ∈ run, x.parentExternalId.isSome = true
    · exact Or.inl (eq_of_ties hobj haddr hperm hrun hrun' h hsome (hagree run hrun) hd hd')
    · push Not at hsome
      obtain ⟨x, hx, hnone⟩ := hsome
      replace hnone := Option.not_isSome_iff_eq_none.mp hnone
      obtain ⟨x', hx', htie⟩ := Collapse.exists_right_of_mem h hx
      obtain ⟨rfl, hmem⟩ := hlone hrun hx hnone hd
      obtain ⟨rfl, hmem'⟩ := hlone hrun' hx' (htie.parent ▸ hnone) hd'
      have hp := sortedReviews_perm hperm
      exact Or.inr ⟨mem_collapsedReviews_of_lone (hp.mem_iff.mpr hmem) hnone,
        mem_collapsedReviews_of_lone (hp.mem_iff.mp hmem') (htie.parent ▸ hnone)⟩
  constructor
  · intro hc
    obtain ⟨run', hrun', hd'⟩ := Collapse.exists_right_of_mem hbuilds'.flip hc
    obtain ⟨run, hrun, h⟩ := Collapse.exists_right_of_mem hties.flip hrun'
    obtain ⟨d, hd, hbuild⟩ := Collapse.exists_right_of_mem hbuilds hrun
    rcases hcases hrun hrun' h hbuild hd' with rfl | ⟨-, hmem⟩
    · exact hd
    · exact hmem
  · intro hc
    obtain ⟨run, hrun, hd⟩ := Collapse.exists_right_of_mem hbuilds.flip hc
    obtain ⟨run', hrun', h⟩ := Collapse.exists_right_of_mem hties hrun
    obtain ⟨d', hd', hbuild⟩ := Collapse.exists_right_of_mem hbuilds' hrun'
    rcases hcases hrun hrun' h hd hbuild with rfl | ⟨hmem, -⟩
    · exact hd'
    · exact hmem

end Conserved

section Output

variable {events : List ActivityEvent}

theorem isReview_of_mem_collapsed {c : ActivityEvent} (hc : c ∈ collapsedReviews events) :
    isReview c = true :=
  @Collapse.forall_mem_collapse _ _ foldsInto id foldReview (fun c => isReview c = true) _
    (fun _ ha => (mem_sortedReviews.mp ha).2) (fun _ _ _ _ hb => hb) c hc

theorem filter_isReview_collapse : (collapseRapidReviews events).filter isReview =
    sortBy timeKey (collapsedReviews events) := by
  have hall : (sortBy timeKey (collapsedReviews events)).filter isReview =
      sortBy timeKey (collapsedReviews events) :=
    List.filter_eq_self.mpr fun c hc =>
      isReview_of_mem_collapsed ((StableSort.sortBy_perm _ _).mem_iff.mp hc)
  rw [collapseRapidReviews_eq, List.filter_append, hall, List.filter_filter,
    List.filter_eq_nil_iff.mpr (by simp), List.append_nil]

/-- The other events are left as they are. -/
theorem filter_not_isReview_collapse :
    (collapseRapidReviews events).filter (fun event => !isReview event) =
      events.filter fun event => !isReview event := by
  have hnone : (sortBy timeKey (collapsedReviews events)).filter (fun e => !isReview e) = [] :=
    List.filter_eq_nil_iff.mpr fun c hc => by
      simp [isReview_of_mem_collapsed ((StableSort.sortBy_perm _ _).mem_iff.mp hc)]
  rw [collapseRapidReviews_eq, List.filter_append, hnone, List.nil_append, List.filter_filter]
  simp only [Bool.and_self]

theorem mem_collapse_iff {c : ActivityEvent} (hc : isReview c = true) :
    c ∈ collapseRapidReviews events ↔ c ∈ collapsedReviews events := by
  rw [← (StableSort.sortBy_perm timeKey (collapsedReviews events)).mem_iff,
    ← filter_isReview_collapse, List.mem_filter]
  exact ⟨fun h => ⟨h, hc⟩, And.left⟩

/-- What stands between two reviews of one thread is of that thread. -/
theorem spot_between {z a w : ActivityEvent} (h1 : spot z ≤ spot a) (h2 : spot a ≤ spot w)
    (hp : z.parentExternalId = w.parentExternalId) (hc : z.actor.externalId = w.actor.externalId) :
    a.parentExternalId.getD [] = z.parentExternalId.getD [] ∧
      a.actor.externalId.getD [] = z.actor.externalId.getD [] ∧
        z.occurredAt ≤ a.occurredAt ∧ a.occurredAt ≤ w.occurredAt := by
  simp only [spot, Prod.Lex.toLex_le_toLex, ← hp, ← hc] at h1 h2
  have hparent : a.parentExternalId.getD [] = z.parentExternalId.getD [] :=
    le_antisymm (h2.elim le_of_lt fun h => h.1.le) (h1.elim le_of_lt fun h => h.1.le)
  simp only [hparent, lt_irrefl, false_or, true_and] at h1 h2
  have hactor : a.actor.externalId.getD [] = z.actor.externalId.getD [] :=
    le_antisymm (h2.elim le_of_lt fun h => h.1.le) (h1.elim le_of_lt fun h => h.1.le)
  simp only [hactor, lt_irrefl, false_or, true_and] at h1 h2
  exact ⟨hparent, hactor, h1, h2⟩

/-- Between two reviews of one thread that were folded apart lies more than a minute. -/
theorem minute_between {z a b w : ActivityEvent} (haddr : Addressed z ∧ Addressed a ∧ Addressed b)
    (h1 : spot z ≤ spot a) (h2 : spot a ≤ spot b) (h3 : spot b ≤ spot w)
    (hfalse : foldsInto a b = false) (hp : z.parentExternalId = w.parentExternalId)
    (hc : z.actor.externalId = w.actor.externalId) (hsome : z.parentExternalId.isSome = true) :
    RAPID_REVIEW_WINDOW_SECONDS < numSeconds (w.occurredAt - z.occurredAt) := by
  obtain ⟨hz, ha, hb⟩ := haddr
  obtain ⟨hpa, hca, hza, -⟩ := spot_between h1 (h2.trans h3) hp hc
  obtain ⟨hpb, hcb, -, hbw⟩ := spot_between (h1.trans h2) h3 hp hc
  have hparent := getD_nil_inj ha.1 hz.1 hpa
  have hactor := getD_nil_inj ha.2 hz.2 hca
  have hab : a.occurredAt ≤ b.occurredAt :=
    (spot_between h2 le_rfl (hparent.trans (getD_nil_inj hb.1 hz.1 hpb).symm)
      (hactor.trans (getD_nil_inj hb.2 hz.2 hcb).symm)).2.2.1
  have hfar : ¬ ((numSeconds (b.occurredAt - a.occurredAt)).natAbs : ℤ) ≤
      RAPID_REVIEW_WINDOW_SECONDS := by
    intro hnear
    refine absurd (foldsInto_iff.mpr ⟨⟨?_, hparent ▸ hsome⟩, ?_, hnear⟩) (by simp [hfalse])
    · exact hparent.trans (getD_nil_inj hb.1 hz.1 hpb).symm
    · exact hactor.trans (getD_nil_inj hb.2 hz.2 hcb).symm
  unfold numSeconds nanosPerSec at hfar ⊢
  rw [Int.tdiv_eq_ediv_of_nonneg (by omega)] at hfar ⊢
  unfold RAPID_REVIEW_WINDOW_SECONDS at hfar ⊢
  omega

section Apart

variable (hobj : ∀ e ∈ events, e.metadata.Canonical)

include hobj

/-- Where a review stands that comes of a run. -/
theorem spot_of_builds {run : List ActivityEvent}
    (hrun : run ∈ (sortedReviews events).splitBy foldsInto) {c : ActivityEvent}
    (h : Builds id foldReview run c) : ∃ z ∈ run.getLast?, c.parentExternalId = z.parentExternalId ∧
      c.actor.externalId = z.actor.externalId ∧ c.occurredAt = z.occurredAt := by
  have hfold := folded_of_mem_run hobj hrun h
  obtain ⟨a, ha, hbase, -⟩ := hfold.base
  obtain ⟨z, hz, htime, -⟩ := hfold.last
  obtain ⟨hp, hc⟩ := thread_of_mem_run hrun a (List.mem_of_mem_head? ha) z
    (List.mem_of_mem_getLast? hz)
  refine ⟨z, hz, ?_, ?_, htime⟩
  · rw [← hp, ← hbase]
  · rw [← hc, ← hbase]

variable (haddr : ∀ e ∈ events, Addressed e)

include haddr

/-- Reviews that were folded apart are in the order of the sort, and are not near. -/
theorem pairwise_collapsedReviews : (collapsedReviews events).Pairwise fun c d =>
    reviewKey c ≤ reviewKey d ∧ foldsInto c d = false := by
  have hruns := runs_sortedReviews events
  have hspots := hruns.pairwise pairwise_spot
  have hkeys := hruns.pairwise (StableSort.pairwise_sortBy reviewKey (events.filter isReview))
  have hbuilds := (List.forall₂_and_left _ _).mpr ⟨fun run hrun => hrun, forall₂_builds events⟩
  refine Collapse.pairwise_of_forall₂ ?_ hbuilds (hspots.and hkeys)
  rintro run next c d ⟨hrun, hc⟩ ⟨hnext, hd⟩ ⟨hspot, hkey⟩
  obtain ⟨z, hz, hcp, hcc, hct⟩ := spot_of_builds hobj hrun hc
  obtain ⟨w, hw, hdp, hdc, hdt⟩ := spot_of_builds hobj hnext hd
  replace hz := List.mem_of_mem_getLast? hz
  replace hw := List.mem_of_mem_getLast? hw
  obtain ⟨a, ha, b, hb, hfalse, h1, h2, h3⟩ := hspot z hz w hw
  have hz' := haddr z (mem_of_mem_run hrun hz).1
  have ha' := haddr a (mem_sortedReviews.mp ha).1
  have hb' := haddr b (mem_sortedReviews.mp hb).1
  have hcz : spot c = spot z := by rw [spot, spot, hcp, hcc, hct]
  have hdw : spot d = spot w := by rw [spot, spot, hdp, hdc, hdt]
  constructor
  · rcases lt_or_eq_of_le (h1.trans (h2.trans h3)) with hlt | heq
    · rw [← hcz, ← hdw] at hlt
      exact (lt_of_not_ge fun hle => absurd (spot_le_of_reviewKey hle) (not_le_of_gt hlt)).le
    · -- two runs at one time have no parent
      have hw' := haddr w (mem_of_mem_run hnext hw).1
      obtain ⟨hp, hc', ht⟩ := eq_of_spot hz' hw' heq
      cases hsome : z.parentExternalId with
      | none =>
        obtain rfl := run_eq_singleton hrun hz hsome
        obtain rfl := run_eq_singleton hnext hw (hp ▸ hsome)
        obtain rfl := (folded_of_mem_run hobj hrun hc).single z rfl
        obtain rfl := (folded_of_mem_run hobj hnext hd).single w rfl
        obtain ⟨x, hx, y, hy, -, k1, k2, k3⟩ := hkey c hz d hw
        exact k1.trans (k2.trans k3)
      | some p =>
        have hmin := minute_between ⟨hz', ha', hb'⟩ h1 h2 h3 hfalse hp hc' (by rw [hsome]; rfl)
        rw [ht, Int.sub_self] at hmin
        exact absurd hmin (by decide)
  · rw [Bool.eq_false_iff]
    intro hnear
    obtain ⟨⟨hp, hsome⟩, hc', hwin⟩ := foldsInto_iff.mp hnear
    rw [hcp, hdp] at hp
    rw [hcc, hdc] at hc'
    rw [hct, hdt] at hwin
    have hmin := minute_between ⟨hz', ha', hb'⟩ h1 h2 h3 hfalse hp hc' (hcp ▸ hsome)
    omega

end Apart

/-- **Reviews that are collapsed already stay.** -/
theorem collapse_twice (hobj : ∀ e ∈ events, e.metadata.Canonical)
    (haddr : ∀ e ∈ events, Addressed e) :
    collapseRapidReviews (collapseRapidReviews events) = collapseRapidReviews events := by
  have hpairs := pairwise_collapsedReviews hobj haddr
  have hrefines : ∀ a b : ActivityEvent, reviewKey a = reviewKey b → timeKey a = timeKey b := by
    intro a b h
    simp only [reviewKey, timeKey, toLex_inj, Prod.mk.injEq] at h ⊢
    exact h.2.2
  have hsorted : sortedReviews (collapseRapidReviews events) = collapsedReviews events := by
    rw [sortedReviews, filter_isReview_collapse]
    exact StableSort.sortBy_sortBy_of_refines (hpairs.imp And.left) hrefines
  have hcollapsed : collapsedReviews (collapseRapidReviews events) = collapsedReviews events := by
    show collapse foldsInto id foldReview (sortedReviews _) = _
    rw [hsorted]
    exact Collapse.collapse_eq_self (hpairs.imp And.right).isChain
  rw [collapseRapidReviews_eq (collapseRapidReviews events), hcollapsed,
    filter_not_isReview_collapse, ← collapseRapidReviews_eq]

end Output

/-! ### Agreement is enough -/

section Agreement

variable {events : List ActivityEvent}

/-- The counts add up, where they do in every run. -/
theorem sum_collapse {runs : List (List ActivityEvent)}
    (hruns : Runs foldsInto (sortedReviews events) runs)
    (hcollapsed : List.Forall₂ CollapsedRun runs (collapsedReviews events)) :
    ((collapseRapidReviews events).map reviewCount).sum = (events.map reviewCount).sum := by
  have hsums : (collapsedReviews events).map reviewCount =
      runs.map fun run => (run.map reviewCount).sum :=
    (Collapse.map_eq_of_forall₂ hcollapsed fun run c h => h.count.symm).symm
  have hreviews : ((collapsedReviews events).map reviewCount).sum =
      ((events.filter isReview).map reviewCount).sum := by
    have hsort := (StableSort.sortBy_perm reviewKey (events.filter isReview)).map reviewCount
    rw [hsums, ← hsort.sum_eq,
      show sortBy reviewKey (events.filter isReview) = _ from hruns.flatten.symm, List.map_flatten,
      List.sum_flatten, List.map_map]
    rfl
  rw [collapseRapidReviews_eq, List.map_append, List.sum_append,
    ((StableSort.sortBy_perm timeKey (collapsedReviews events)).map reviewCount).sum_eq, hreviews,
    ← List.sum_append, ← List.map_append]
  exact ((List.filter_append_perm isReview events).map reviewCount).sum_eq

variable (hobj : ∀ e ∈ events, e.metadata.Canonical) (haddr : ∀ e ∈ events, Addressed e)

include hobj

theorem collapsedRun_of_agrees {run : List ActivityEvent}
    (hrun : run ∈ (sortedReviews events).splitBy foldsInto) (hagree : RunAgrees run)
    {c : ActivityEvent} (h : Builds id foldReview run c) : CollapsedRun run c := by
  have hfold := folded_of_mem_run hobj hrun h
  obtain ⟨a, ha, hbase, -⟩ := hfold.base
  obtain ⟨z, hz, htime, htitle⟩ := hfold.last
  refine ⟨fun e he => ?_, ⟨z, hz, htime, htitle, ?_⟩, ?_, hfold.single⟩
  · obtain ⟨hp, hc⟩ := thread_of_mem_run hrun a (List.mem_of_mem_head? ha) e he
    rw [← hp, ← hc, ← hbase]
    exact ⟨rfl, rfl⟩
  · rw [hfold.state]
    exact getLast?_states hz (hagree.stated z hz)
  · rw [hfold.count]
    exact bmod_eq_iff.mpr hagree.count

include haddr

theorem conserves_of_agrees
    (hagree : ∀ run ∈ (sortedReviews events).splitBy foldsInto, RunAgrees run) :
    Conserves events := by
  have hruns := runs_sortedReviews events
  have hbuilds := (List.forall₂_and_left _ _).mpr ⟨fun run hrun => hrun, forall₂_builds events⟩
  have hcollapsed := hbuilds.imp fun run c h =>
    collapsedRun_of_agrees hobj h.1 (hagree run h.1) h.2
  refine ⟨⟨_, _, hruns, hcollapsed, ?_⟩, sum_collapse hruns hcollapsed,
    filter_not_isReview_collapse, fun events' hperm e he => ?_, collapse_twice hobj haddr⟩
  · rw [filter_isReview_collapse]
    exact StableSort.sortBy_perm _ _
  · rw [mem_collapse_iff he, mem_collapse_iff he]
    exact mem_collapsedReviews_of_perm hobj haddr hperm hagree e

end Agreement

/-! ### Agreement is needed -/

section Needed

variable {events events' : List ActivityEvent} {run : List ActivityEvent}
  (haddr : ∀ e ∈ events, Addressed e)

include haddr

/-- In a run, the reviews of a key stand as they do among the events. -/
theorem filter_reviewKey_run (hrun : run ∈ (sortedReviews events).splitBy foldsInto)
    (hsome : ∀ x ∈ run, x.parentExternalId.isSome = true) {x : ActivityEvent} (hx : x ∈ run) :
    run.filter (reviewKey · = reviewKey x) =
      (events.filter isReview).filter (reviewKey · = reviewKey x) := by
  have hsort : (sortedReviews events).filter (reviewKey · = reviewKey x) =
      (events.filter isReview).filter (reviewKey · = reviewKey x) := by
    convert StableSort.filter_sortBy reviewKey (events.filter isReview) (reviewKey x)
    rfl
  rw [← hsort]
  conv_lhs => rw [← filter_spot haddr hrun hsome, List.filter_filter]
  refine List.filter_congr fun e _ => ?_
  have hmem : reviewKey e = reviewKey x → spot e ∈ run.map spot := fun h =>
    List.mem_map.mpr ⟨x, hx, (spot_eq_of_reviewKey h).symm⟩
  by_cases h : reviewKey e = reviewKey x
  · simp only [h, hmem h, decide_true, Bool.and_self]
  · simp only [h, decide_false, Bool.false_and]

variable (hobj : ∀ e ∈ events, e.metadata.Canonical)

include hobj

/-- A collapsed review is known by its thread and its time. -/
theorem builds_of_spot (hrun : run ∈ (sortedReviews events).splitBy foldsInto)
    (hsome : ∀ x ∈ run, x.parentExternalId.isSome = true) {z d : ActivityEvent} (hz : z ∈ run)
    (hd : d ∈ collapsedReviews events) (hspot : spot d = spot z) : Builds id foldReview run d := by
  obtain ⟨other, hother, hbuilds⟩ := Collapse.exists_right_of_mem (forall₂_builds events).flip hd
  obtain ⟨w, hw, hp, hc, ht⟩ := spot_of_builds hobj hother hbuilds
  replace hw := List.mem_of_mem_getLast? hw
  have hwz : spot w = spot z := by rw [← hspot, spot, spot, hp, hc, ht]
  have hruns := runs_sortedReviews events
  -- two runs have no review of one thread at one time
  have hapart : ((sortedReviews events).splitBy foldsInto).Pairwise fun r s =>
      ∀ x ∈ r, ∀ y ∈ s, spot x = spot y → spot x ≠ spot z := by
    refine (hruns.pairwise pairwise_spot).imp fun {r s} h x hx y hy hxy hxz => ?_
    obtain ⟨a, ha, b, hb, hfalse, h1, h2, h3⟩ := h x hx y hy
    rw [← hxy, hxz] at h3
    rw [hxz] at h1
    have hnear := foldsInto_of_spot (haddr z (mem_of_mem_run hrun hz).1)
      (haddr a (mem_sortedReviews.mp ha).1) (haddr b (mem_sortedReviews.mp hb).1) (hsome z hz)
      (le_antisymm (h2.trans h3) h1) (le_antisymm h3 (h1.trans h2))
    rw [hfalse] at hnear
    cases hnear
  have hsymm : Std.Symm fun r s : List ActivityEvent =>
      ∀ x ∈ r, ∀ y ∈ s, spot x = spot y → spot x ≠ spot z :=
    ⟨fun r s h x hx y hy hxy hxz => h y hy x hx hxy.symm (hxy ▸ hxz)⟩
  by_cases heq : other = run
  · exact heq ▸ hbuilds
  · exact absurd hwz (hapart.forall hother hrun heq w hw z hz hwz)

/-- Where the reviews are conserved, what is built of a run tells of it. -/
theorem collapsedRun_of_conserves (h : Conserves events)
    (hrun : run ∈ (sortedReviews events).splitBy foldsInto)
    (hsome : ∀ x ∈ run, x.parentExternalId.isSome = true) {c : ActivityEvent}
    (hc : Builds id foldReview run c) : CollapsedRun run c := by
  obtain ⟨runs, cs, hruns, hcollapsed, hperm⟩ := h.runs
  obtain rfl := Collapse.runs_iff.mp hruns
  obtain ⟨d, hd, hrund⟩ := Collapse.exists_right_of_mem hcollapsed hrun
  rw [filter_isReview_collapse] at hperm
  have hmem : d ∈ collapsedReviews events :=
    (StableSort.sortBy_perm timeKey _).mem_iff.mp (hperm.mem_iff.mpr hd)
  obtain ⟨z, hz, htime, -⟩ := hrund.last
  replace hz := List.mem_of_mem_getLast? hz
  obtain ⟨hp, hact⟩ := hrund.thread z hz
  have hspot : spot d = spot z := by rw [spot, spot, hp, hact, htime]
  rwa [builds_unique hc (builds_of_spot haddr hobj hrun hsome hz hmem hspot)]

/-- Where the reviews are conserved, another order of the events builds the same of a run. -/
theorem exists_run_of_perm (h : Conserves events) (hperm : events'.Perm events)
    (hrun : run ∈ (sortedReviews events).splitBy foldsInto)
    (hsome : ∀ x ∈ run, x.parentExternalId.isSome = true) {c : ActivityEvent}
    (hc : Builds id foldReview run c) : ∃ run', Folded run' c ∧ List.Forall₂ Ties run run' ∧
      ∀ x ∈ run', run'.filter (reviewKey · = reviewKey x) =
        (events'.filter isReview).filter (reviewKey · = reviewKey x) := by
  have haddr' : ∀ e ∈ events', Addressed e := fun e he => haddr e (hperm.mem_iff.mp he)
  have hobj' : ∀ e ∈ events', e.metadata.Canonical := fun e he => hobj e (hperm.mem_iff.mp he)
  obtain ⟨run', hrun', hties⟩ := Collapse.exists_right_of_mem (forall₂_runs haddr hperm) hrun
  obtain ⟨c', hc', hbuilds⟩ := Collapse.exists_right_of_mem (forall₂_builds events') hrun'
  have hreview := isReview_of_mem_collapsed hc'
  have hmem : c' ∈ collapsedReviews events :=
    (mem_collapse_iff hreview).mp ((h.unordered events' hperm c' hreview).mp
      ((mem_collapse_iff hreview).mpr hc'))
  -- it stands where the run ends
  obtain ⟨z', hz', hp, hact, htime⟩ := spot_of_builds hobj' hrun' hbuilds
  obtain ⟨z, hz, htie⟩ := Collapse.exists_right_of_mem hties.flip (List.mem_of_mem_getLast? hz')
  have hspot : spot c' = spot z := by
    rw [spot_eq_of_reviewKey htie.key, spot, spot, hp, hact, htime]
  have hsome' : ∀ x ∈ run', x.parentExternalId.isSome = true := by
    intro x' hx'
    obtain ⟨x, hx, htie⟩ := Collapse.exists_right_of_mem hties.flip hx'
    exact htie.parent ▸ hsome x hx
  obtain rfl := builds_unique hc (builds_of_spot haddr hobj hrun hsome hz hmem hspot)
  exact ⟨run', folded_of_mem_run hobj' hrun' hbuilds, hties, fun x hx =>
    filter_reviewKey_run haddr' hrun' hsome' hx⟩

theorem agrees_of_conserves (h : Conserves events)
    (hrun : run ∈ (sortedReviews events).splitBy foldsInto) : RunAgrees run := by
  have hbuilds := forall₂_builds events
  obtain ⟨c, -, hc⟩ := Collapse.exists_right_of_mem hbuilds hrun
  have hfold := folded_of_mem_run hobj hrun hc
  by_cases hsome : ∀ x ∈ run, x.parentExternalId.isSome = true
  · have hcollapsed := collapsedRun_of_conserves haddr hobj h hrun hsome hc
    refine ⟨?_, ?_, ?_, ?_⟩
    · rw [← bmod_eq_iff, ← hfold.count, hcollapsed.count]
    · -- the review that ties with the first is put first of all
      intro a ha e he hkey
      obtain ⟨l, r, rfl⟩ := List.append_of_mem (mem_of_mem_run hrun he).1
      have hreview := (mem_of_mem_run hrun he).2
      obtain ⟨run', hfold', hties, hfilter⟩ :=
        exists_run_of_perm haddr hobj h List.perm_middle.symm hrun hsome hc
      obtain ⟨a', ha', hbase'⟩ := hfold'.base
      obtain ⟨as, rfl⟩ := List.head?_eq_some_iff.mp ha
      obtain ⟨as', rfl⟩ := List.head?_eq_some_iff.mp ha'
      have htie := (List.forall₂_cons.mp hties).1.key
      have hfirst := hfilter a' List.mem_cons_self
      rw [List.filter_cons_of_pos (by simp), List.filter_cons_of_pos hreview,
        List.filter_cons_of_pos (by simp [hkey, htie])] at hfirst
      obtain rfl := (List.cons.inj hfirst).1
      obtain ⟨b, hb, hbase⟩ := hfold.base
      obtain rfl := Option.some.inj hb
      exact hbase'.symm.trans hbase
    · -- the review that ties with the last is put last of all
      intro z hz e he hkey
      obtain ⟨l, r, rfl⟩ := List.append_of_mem (mem_of_mem_run hrun he).1
      have hreview := (mem_of_mem_run hrun he).2
      have hperm : ((l ++ r) ++ [e]).Perm (l ++ e :: r) :=
        (List.perm_append_singleton e (l ++ r)).trans List.perm_middle.symm
      obtain ⟨run', hfold', hties, hfilter⟩ := exists_run_of_perm haddr hobj h hperm hrun hsome hc
      obtain ⟨z', hz', -, htitle'⟩ := hfold'.last
      obtain ⟨as, rfl⟩ := List.getLast?_eq_some_iff.mp hz
      obtain ⟨as', rfl⟩ := List.getLast?_eq_some_iff.mp hz'
      have htie : reviewKey z = reviewKey z' := by
        have hrev := List.rel_reverse hties
        rw [List.reverse_concat, List.reverse_concat] at hrev
        exact (List.forall₂_cons.mp hrev).1.key
      have hlast := hfilter z' List.mem_concat_self
      rw [List.filter_append, List.filter_cons_of_pos (by simp), List.filter_append,
        List.filter_append, List.filter_cons_of_pos hreview, List.filter_nil, List.filter_nil,
        List.filter_cons_of_pos (by simp [hkey, htie]), List.filter_nil] at hlast
      obtain rfl := (List.append_inj_right' hlast rfl |> List.cons.inj).1
      obtain ⟨w, hw, -, htitle⟩ := hfold.last
      obtain ⟨w', hw', -, -, hstate⟩ := hcollapsed.last
      obtain rfl := Option.some.inj (hz.symm.trans hw)
      obtain rfl := Option.some.inj (hz.symm.trans hw')
      refine ⟨htitle'.symm.trans htitle, ?_⟩
      cases hs : reviewState z' with
      | none => exact Or.inl rfl
      | some state =>
        refine Or.inr ?_
        rw [← hstate, hfold'.state, List.filterMap_append, List.filterMap_cons_some hs]
        exact List.getLast?_concat.symm
    · intro z hz hnone
      obtain ⟨w, hw, -, -, hstate⟩ := hcollapsed.last
      obtain rfl := Option.some.inj (hz.symm.trans hw)
      rw [hfold.state, hnone, List.getLast?_eq_none_iff] at hstate
      exact List.filterMap_eq_nil_iff.mp hstate
  · push Not at hsome
    obtain ⟨x, hx, hnone⟩ := hsome
    obtain rfl := run_eq_singleton hrun hx (Option.not_isSome_iff_eq_none.mp hnone)
    refine ⟨by simpa using reviewCount_range x, ?_, ?_, ?_⟩
    · rintro a ha e he -
      obtain rfl := Option.some.inj ha
      rw [List.mem_singleton.mp he]
      exact .rfl
    · rintro z hz e he -
      obtain rfl := Option.some.inj hz
      rw [List.mem_singleton.mp he]
      exact ⟨rfl, Or.inr rfl⟩
    · intro z hz hnone e he
      obtain rfl := Option.some.inj hz
      rwa [List.mem_singleton.mp he]

end Needed

/-- **When the collapse conserves the reviews.** -/
theorem conserves_iff {events : List ActivityEvent} (hobj : ∀ e ∈ events, e.metadata.Canonical)
    (haddr : ∀ e ∈ events, Addressed e) :
    Conserves events ↔ ∀ run ∈ (sortedReviews events).splitBy foldsInto, RunAgrees run :=
  ⟨fun h _ hrun => agrees_of_conserves haddr hobj h hrun, conserves_of_agrees hobj haddr⟩

/-! ### Reviews of one request -/

/-- A review of the pull request 42, which has the id of all its reviews. -/
def sampleReview (seconds : ℤ) (state : Text) : ActivityEvent where
  id := 42
  sourceId := 1
  externalId := "company/foo#42".toList
  kind := .gitHubPullRequestReviewed
  occurredAt := seconds * nanosPerSec
  actor := ⟨"vedanth".toList, none, some "17".toList⟩
  title := "Reviewed PR: Add payments".toList
  body := none
  links := []
  entities := []
  parentExternalId := some "company/foo#42".toList
  metadata := .object [(REVIEW_COUNT, .number ['1']), (REVIEW_STATE, .string state)]
  privacy := .normal

theorem sampleReview_wellFormed (seconds : ℤ) (state : Text) :
    (sampleReview seconds state).metadata.Canonical ∧ Addressed (sampleReview seconds state) := by
  have hparent : some "company/foo#42".toList ≠ some [] := by decide
  have hactor : some "17".toList ≠ some [] := by decide
  have hfields : REVIEW_COUNT < REVIEW_STATE := by decide
  refine ⟨⟨_, rfl, List.pairwise_cons.mpr ⟨fun field hf => ?_, List.pairwise_singleton _ _⟩⟩,
    hparent, hactor⟩
  rw [List.mem_singleton.mp hf]
  exact hfields

theorem forall_mem_pair {P : ActivityEvent → Prop} {a b : ActivityEvent} (ha : P a) (hb : P b) :
    ∀ e ∈ [a, b], P e :=
  List.forall_mem_cons.mpr ⟨ha, List.forall_mem_singleton.mpr hb⟩

/-- Two reviews that come in the order of their times are one run, if they are near. -/
theorem splitBy_pair {a b : ActivityEvent} (ha : isReview a = true) (hb : isReview b = true)
    (hle : reviewKey a ≤ reviewKey b) (hnear : foldsInto a b = true) :
    (sortedReviews [a, b]).splitBy foldsInto = [[a, b]] := by
  have hsorted : sortedReviews [a, b] = [a, b] := by
    rw [sortedReviews, List.filter_cons_of_pos ha, List.filter_cons_of_pos hb, List.filter_nil]
    refine List.mergeSort_of_pairwise (List.pairwise_cons.mpr ⟨?_, List.pairwise_singleton _ _⟩)
    exact List.forall_mem_singleton.mpr (decide_eq_true hle)
  rw [hsorted]
  simp [List.splitBy, List.splitBy.loop, hnear]

/-- A request that was commented on and then approved, ten seconds later. -/
theorem commented_then_approved : Conserves
    [sampleReview 0 "commented".toList, sampleReview 10 "approved".toList] := by
  have hwell : ∀ e ∈ [sampleReview 0 "commented".toList, sampleReview 10 "approved".toList],
      e.metadata.Canonical ∧ Addressed e :=
    forall_mem_pair (sampleReview_wellFormed _ _) (sampleReview_wellFormed _ _)
  refine (conserves_iff (fun e he => (hwell e he).1) fun e he => (hwell e he).2).mpr ?_
  rw [splitBy_pair (by decide) (by decide) (by decide) (by decide)]
  intro run hrun
  rw [List.mem_singleton.mp hrun]
  refine ⟨by decide, ?_, ?_, ?_⟩
  · intro a ha
    obtain rfl := Option.some.inj ha
    exact forall_mem_pair (fun _ => .rfl) fun h => absurd h (by decide)
  · intro z hz
    obtain rfl := Option.some.inj hz
    exact forall_mem_pair (fun h => absurd h (by decide)) fun _ => ⟨rfl, Or.inr rfl⟩
  · intro z hz hnone
    obtain rfl := Option.some.inj hz
    cases hnone

/-- Two reviews in one second: whichever stands last tells the state. -/
theorem two_reviews_one_second :
    (∀ e ∈ [sampleReview 0 "approved".toList, sampleReview 0 "changes_requested".toList],
      e.metadata.Canonical ∧ Addressed e) ∧
    ¬Conserves [sampleReview 0 "approved".toList, sampleReview 0 "changes_requested".toList] := by
  have hwell : ∀ e ∈ [sampleReview 0 "approved".toList, sampleReview 0 "changes_requested".toList],
      e.metadata.Canonical ∧ Addressed e :=
    forall_mem_pair (sampleReview_wellFormed _ _) (sampleReview_wellFormed _ _)
  refine ⟨hwell, fun h => ?_⟩
  have hruns := @splitBy_pair (sampleReview 0 "approved".toList)
    (sampleReview 0 "changes_requested".toList) (by decide) (by decide) (by decide) (by decide)
  have hagree := agrees_of_conserves (fun e he => (hwell e he).2) (fun e he => (hwell e he).1) h
    (hruns ▸ List.mem_singleton.mpr rfl)
  have hstate := (hagree.last _ rfl _ List.mem_cons_self rfl).2
  rcases hstate with hnone | heq
  · cases hnone
  · exact absurd (congrArg (·.bind Json.asStr) heq) (by decide)

end Github
end Dayseam
