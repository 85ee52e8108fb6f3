import Dayseam.Report.RollupKept
import Mathlib

/-!
# Rollups of changed events

The rollup reads the ids, the instants and the buckets of the events.  A change of the
events that keeps these changes the events in the groups, and nothing else.

## Main definitions

* `KeepsRollup` — what a change has to keep.
* `mapEvents` — a change of the events of a group.

## Main results

* `rollUp_map` — **a change that keeps this carries over to the groups.**
* `mem_indexById_of_mem_rollUp` — the groups hold events of the index.
* `commitsInSets_rollUp` — only commit sets hold commits.
-/

namespace Dayseam
namespace Report

open KeyedMerge OrderedMap

variable {crates : Crates} {events index orphans : List ActivityEvent} {artifacts : List Artifact}
  {date : NaiveDate} {f : ActivityEvent → ActivityEvent}

/-- The bucket is one of commits. -/
def OrphanKey.isCommitSet : OrphanKey → Bool
  | .commitSet .. => true
  | _ => false

/-- What the rollup reads is unchanged, and the events of every other bucket than those of
commits are. -/
structure KeepsRollup (f : ActivityEvent → ActivityEvent) : Prop where
  id : ∀ e, (f e).id = e.id
  externalId : ∀ e, (f e).externalId = e.externalId
  occurredAt : ∀ e, (f e).occurredAt = e.occurredAt
  orphanKey : ∀ e, orphanKey (f e) = orphanKey e
  other : ∀ e, (Report.orphanKey e).isCommitSet = false → f e = e

/-- A change of the events of a group. -/
def mapEvents (f : ActivityEvent → ActivityEvent) (g : RolledUpArtifact) : RolledUpArtifact :=
  { g with events := g.events.map f }

/-- A change of the events of a bucket. -/
def mapBucket (f : ActivityEvent → ActivityEvent) (bucket : OrphanKey × List ActivityEvent) :
    OrphanKey × List ActivityEvent := (bucket.1, bucket.2.map f)

namespace KeepsRollup

/-! ### One stage after another -/

theorem sortEvents (hf : KeepsRollup f) (events : List ActivityEvent) :
    (sortEvents events).map f = Report.sortEvents (events.map f) := by
  have hkey : ∀ e, eventKey (f e) = eventKey e := fun e => by
    rw [eventKey, hf.occurredAt, hf.externalId, hf.id, eventKey]
  exact List.map_mergeSort fun a _ b _ => by rw [hkey, hkey]

theorem indexById (hf : KeepsRollup f) (events : List ActivityEvent) :
    (indexById events).map f = Report.indexById (events.map f) :=
  map_foldl_upsert hf.id hf.id fun _ _ => rfl

theorem claimEvents (hf : KeepsRollup f) (ids : List Uuid) (index : List ActivityEvent) :
    Report.claimEvents ids (index.map f) =
      ((claimEvents ids index).1.map f, (Report.claimEvents ids index).2.map f) := by
  induction ids generalizing index with
  | nil => rfl
  | cons id ids ih =>
    have hfind : (index.map f).find? (·.id = id) = (index.find? (·.id = id)).map f := by
      rw [List.find?_map]
      simp only [Function.comp_def, hf.id]
    cases hfound : index.find? (·.id = id) with
    | none =>
      rw [hfound, Option.map_none] at hfind
      simp only [Report.claimEvents, hfind, hfound, ih]
    | some found =>
      rw [hfound, Option.map_some] at hfind
      have hleft : (index.map f).filter (·.id ≠ id) = (index.filter (·.id ≠ id)).map f := by
        rw [List.filter_map]
        simp only [Function.comp_def, hf.id]
      simp only [Report.claimEvents, hfind, hfound, hleft, ih, List.map_cons]

theorem claimGroups (hf : KeepsRollup f) (artifacts : List Artifact)
    (index : List ActivityEvent) :
    Report.claimGroups artifacts (index.map f) =
      ((claimGroups artifacts index).1.map (mapEvents f),
        (Report.claimGroups artifacts index).2.map f) := by
  induction artifacts generalizing index with
  | nil => rfl
  | cons a artifacts ih =>
    rw [claimGroups_cons, claimGroups_cons, hf.claimEvents, ih, List.map_cons, mapEvents,
      hf.sortEvents]

theorem orphanByKey (hf : KeepsRollup f) (orphans : List ActivityEvent) :
    (orphanByKey orphans).map (mapBucket f) = Report.orphanByKey (orphans.map f) := by
  unfold Report.orphanByKey
  refine map_foldl_upsert (m := []) (fun _ => rfl) (fun e => by rw [hf.orphanKey]) fun e held => ?_
  cases held with
  | none => simp [mapBucket, hf.orphanKey]
  | some b => simp [mapBucket]

/-- The events of the other buckets are unchanged. -/
theorem map_bucket (hf : KeepsRollup f) {bucket : OrphanKey × List ActivityEvent}
    (hb : bucket ∈ Report.orphanByKey orphans) (hc : bucket.1.isCommitSet = false) :
    bucket.2.map f = bucket.2 := by
  refine (List.map_congr_left fun e he => hf.other e ?_).trans (List.map_id _)
  have horder := (orphanByKey_bucket hb).2 e he
  rcases eq_or_of_order_eq horder with h | ⟨_, _, _, _, -, h, -⟩
  · rw [h, hc]
  · rw [h] at hc
    exact nomatch hc

theorem orphanGroup (hf : KeepsRollup f) {bucket : OrphanKey × List ActivityEvent}
    (hb : bucket ∈ Report.orphanByKey orphans) :
    orphanGroup crates date (mapBucket f bucket) =
      mapEvents f (Report.orphanGroup crates date bucket) := by
  cases hc : bucket.1.isCommitSet with
  | false =>
    have hsame := hf.map_bucket hb hc
    have hsorted : (Report.sortEvents bucket.2).map f = Report.sortEvents bucket.2 := by
      rw [hf.sortEvents, hsame]
    rw [mapBucket, hsame, mapEvents]
    show _ = RolledUpArtifact.mk _ ((Report.sortEvents bucket.2).map f)
    rw [hsorted]
    rfl
  | true =>
    obtain ⟨key, held⟩ := bucket
    cases key with
    | commitSet sourceId path day =>
      simp only [Report.orphanGroup, mapBucket, mapEvents, synthesizeArtifact, synthesizePayload,
        ← hf.sortEvents, List.map_map, Function.comp_def, hf.id, hf.externalId, OrphanKey.identity,
        OrphanKey.sourceId]
    | jiraIssue | confluencePage | mergeRequest | outlookMeeting => exact nomatch hc

theorem mergeInto (hf : KeepsRollup f) (y x : RolledUpArtifact) :
    mapEvents f (mergeInto y x) = Report.mergeInto (mapEvents f y) (mapEvents f x) := by
  have hids : ∀ l : List ActivityEvent,
      (l.map f).map (·.externalId) = l.map (·.externalId) := fun l => by
    rw [List.map_map]
    exact List.map_congr_left fun e _ => hf.externalId e
  cases hx : Report.isCommitSet x.artifact with
  | true =>
    have hx' : Report.isCommitSet (mapEvents f x).artifact = true := hx
    rw [mergeInto_of_commitSet hx, mergeInto_of_commitSet hx']
    simp only [mapEvents, hf.sortEvents, List.map_append, map_keepNew hf.externalId, hids]
  | false =>
    have hx' : Report.isCommitSet (mapEvents f x).artifact = false := hx
    rw [mergeInto_of_other hx, mergeInto_of_other hx']

end KeepsRollup

/-- **A change that keeps what the rollup reads carries over to the groups.** -/
theorem rollUp_map (hf : KeepsRollup f) (crates : Crates) (events : List ActivityEvent)
    (artifacts : List Artifact) (date : NaiveDate) :
    rollUp crates (events.map f) artifacts date =
      (rollUp crates events artifacts date).map (mapEvents f) := by
  have hgroups : groupsOf crates (events.map f) artifacts date =
      (groupsOf crates events artifacts date).map (mapEvents f) := by
    rw [groupsOf_eq, groupsOf_eq, ← hf.indexById, hf.claimGroups, List.map_append,
      ← hf.orphanByKey, List.map_map, List.map_map]
    exact congrArg _ (List.map_congr_left fun b hb => hf.orphanGroup hb)
  have hsort : ∀ groups : List RolledUpArtifact,
      (sortGroups groups).map (mapEvents f) = sortGroups (groups.map (mapEvents f)) :=
    fun groups => List.map_mergeSort fun _ _ _ _ => rfl
  have hmerge : ∀ groups : List RolledUpArtifact,
      (mergeDuplicateCommitSets groups).map (mapEvents f) =
        mergeDuplicateCommitSets (groups.map (mapEvents f)) := by
    have hslot : ∀ g, groupSlot (mapEvents f g) = groupSlot g := fun _ => rfl
    exact map_mergeBy hslot hf.mergeInto
  rw [rollUp, rollUp, hgroups, hsort, hmerge]

/-! ### What the groups hold -/

theorem mem_of_mem_indexById {e : ActivityEvent} (he : e ∈ indexById events) : e ∈ events :=
  forall_mem_foldl_upsert (m := []) (fun _ ha => ha) (fun _ ha _ _ _ => ha) (by simp) e he

/-- The groups hold events of the index. -/
theorem mem_indexById_of_mem_rollUp {g : RolledUpArtifact} {e : ActivityEvent}
    (hg : g ∈ rollUp crates events artifacts date) (he : e ∈ g.events) : e ∈ indexById events := by
  have hg := (sortGroups_perm _).mem_iff.mp hg
  have hmerged : e ∈ (groupsOf crates events artifacts date).flatMap (·.events) :=
    (flatMap_mergeBy_subperm events_mergeInto_subperm _).subset
      (List.mem_flatMap.mpr ⟨g, hg, he⟩)
  exact flatMap_groupsOf_perm_index.mem_iff.mp hmerged

/-- Groups that are no commit sets hold no commit. -/
def CommitsInSets (g : RolledUpArtifact) : Prop :=
  isCommitSet g.artifact = false → ∀ e ∈ g.events, e.kind ≠ .commitAuthored

theorem orphanKey_of_commit {e : ActivityEvent} (h : e.kind = .commitAuthored) :
    (orphanKey e).isCommitSet = true := by
  unfold orphanKey
  rw [h]
  rfl

theorem isCommitSet_orphanGroup (bucket : OrphanKey × List ActivityEvent) :
    isCommitSet (orphanGroup crates date bucket).artifact = bucket.1.isCommitSet := by
  obtain ⟨key, held⟩ := bucket
  cases key <;> rfl

/-- The buckets of commits come first. -/
theorem isCommitSet_of_order_lt {k k' : OrphanKey} (h : k.order < k'.order)
    (hc : k'.isCommitSet = true) : k.isCommitSet = true := by
  cases k' with
  | commitSet =>
    cases k with
    | commitSet => rfl
    | jiraIssue | confluencePage | mergeRequest | outlookMeeting =>
      simp [OrphanKey.order, Prod.Lex.toLex_lt_toLex] at h
  | jiraIssue | confluencePage | mergeRequest | outlookMeeting => cases hc

/-- With commit sets for artifacts, the groups of commits come first. -/
theorem groupsOf_pairwise (ha : ∀ a ∈ artifacts, isCommitSet a = true) :
    (groupsOf crates events artifacts date).Pairwise fun g h =>
      isCommitSet h.artifact = true → isCommitSet g.artifact = true := by
  have hclaimed : ∀ g ∈ (claimGroups artifacts (indexById events)).1,
      isCommitSet g.artifact = true := fun g hg => by
    refine ha _ ?_
    rw [← map_artifact_claimGroups artifacts (indexById events)]
    exact List.mem_map_of_mem hg
  rw [groupsOf_eq, List.pairwise_append]
  refine ⟨?_, ?_, fun g hg _ _ _ => hclaimed g hg⟩
  · exact List.Pairwise.imp_of_mem (fun hg _ _ _ => hclaimed _ hg)
      (List.pairwise_of_forall fun _ _ => trivial)
  · rw [List.pairwise_map]
    refine (orphanByKey_sorted _).imp fun {b b'} hlt hc => ?_
    rw [isCommitSet_orphanGroup] at hc ⊢
    exact isCommitSet_of_order_lt hlt hc

theorem commitsInSets_groupsOf (ha : ∀ a ∈ artifacts, isCommitSet a = true) :
    ∀ g ∈ groupsOf crates events artifacts date, CommitsInSets g := by
  intro g hg hc e he hkind
  rw [groupsOf_eq, List.mem_append] at hg
  rcases hg with hg | hg
  · have hart : g.artifact ∈ artifacts := by
      rw [← map_artifact_claimGroups artifacts (indexById events)]
      exact List.mem_map_of_mem hg
    rw [ha _ hart] at hc
    exact nomatch hc
  · obtain ⟨bucket, hb, rfl⟩ := List.mem_map.mp hg
    rw [isCommitSet_orphanGroup] at hc
    have horder := (orphanByKey_bucket hb).2 e (mem_sortEvents.mp he)
    have hcommit := orphanKey_of_commit hkind
    rcases eq_or_of_order_eq horder with h | ⟨_, _, _, _, -, h, -⟩
    · rw [h, hc] at hcommit
      exact nomatch hcommit
    · rw [h] at hc
      exact nomatch hc

/-- The merge keeps this, as no commit set is merged into another group. -/
theorem commitsInSets_foldl {rest : List RolledUpArtifact} {g : RolledUpArtifact}
    (hp : (g :: rest).Pairwise fun g h => isCommitSet h.artifact = true →
      isCommitSet g.artifact = true)
    (h : ∀ x ∈ g :: rest, CommitsInSets x) : CommitsInSets (rest.foldl mergeInto g) := by
  induction rest generalizing g with
  | nil => exact h g List.mem_cons_self
  | cons x rest ih =>
    obtain ⟨hg, hp⟩ := List.pairwise_cons.mp hp
    obtain ⟨hx, hp⟩ := List.pairwise_cons.mp hp
    rw [List.foldl_cons]
    cases hc : isCommitSet x.artifact with
    | true =>
      have hset := hg x List.mem_cons_self hc
      rw [mergeInto_of_commitSet hc]
      refine ih (List.pairwise_cons.mpr ⟨fun y _ _ => hset, hp⟩) ?_
      refine List.forall_mem_cons.mpr ⟨fun hno => ?_, fun y hy => h y (by simp [hy])⟩
      rw [hset] at hno
      exact nomatch hno
    | false =>
      rw [mergeInto_of_other hc]
      exact ih (List.pairwise_cons.mpr ⟨hx, hp⟩) fun y hy => h y (List.mem_cons_of_mem _ hy)

/-- **Only commit sets hold commits**, where the artifacts are commit sets. -/
theorem commitsInSets_rollUp (ha : ∀ a ∈ artifacts, isCommitSet a = true) :
    ∀ g ∈ rollUp crates events artifacts date, CommitsInSets g := by
  intro g hg
  obtain ⟨x, rest, hfibre, rfl⟩ := (mem_mergeBy_iff mergeInto_keeps).mp
    ((sortGroups_perm _).mem_iff.mp hg)
  have hsub : (x :: rest).Sublist (groupsOf crates events artifacts date) :=
    hfibre ▸ List.filter_sublist
  exact commitsInSets_foldl ((groupsOf_pairwise ha).sublist hsub) fun y hy =>
    commitsInSets_groupsOf ha y (hsub.subset hy)

end Report
end Dayseam
