import Dayseam.Report.RollupGroups
import Dayseam.Report.RollupMerge
import Mathlib

/-!
# Which events and groups a rollup keeps

A rollup keys its groups three times: by the artifact that claims an event, by the
bucket of an orphan, and by the slot of the merge.  Nothing is lost exactly when
two keys fall together only where both belong to commit sets and a repeated
upstream id is that of a commit.

## Main definitions

* `ownArtifact`, `Later` — where an event goes, read off the input.
* `KeepsEvents` — every event and every group comes out.
* `NoCollision` — the condition on the input.

## Main results

* `rollUp_keeps_iff` — **when nothing is lost in a rollup.**
* `rollUp_loses_comment` — two comments on unknown pages of two spaces.
-/

namespace Dayseam
namespace Report

open KeyedMerge OrderedMap

/-! ### Where an event goes -/

/-- The artifact that an event belongs to: the first that claims it, or else the
synthetic one of its bucket, up to the events in it. -/
def ownArtifact (crates : Crates) (artifacts : List Artifact) (date : NaiveDate)
    (e : ActivityEvent) : Artifact :=
  (artifacts.find? (claims · e)).getD (synthesizeArtifact crates (orphanKey e) [e] date)

/-- The key that the event's group is merged under; for a commit set, its
repository and day. -/
def ownSlot (crates : Crates) (artifacts : List Artifact) (date : NaiveDate)
    (e : ActivityEvent) : List PathComponent × NaiveDate :=
  slot (ownArtifact crates artifacts date e)

/-- A group before that of the event has its slot: that of an artifact that comes
before the one that claims it, or that of a smaller bucket of orphans. -/
def Later (crates : Crates) (events : List ActivityEvent) (artifacts : List Artifact)
    (date : NaiveDate) (e : ActivityEvent) : Prop :=
  (∃ a ∈ artifacts.takeWhile (!claims · e), slot a = ownSlot crates artifacts date e) ∨
    Unclaimed artifacts e ∧ ∃ f ∈ events, Unclaimed artifacts f ∧
      (orphanKey f).order < (orphanKey e).order ∧
        ownSlot crates artifacts date f = ownSlot crates artifacts date e

/-- Nothing is lost: every event comes out once, or is a commit that another commit
with its upstream id replaces in the commit set of its repository and day; and no
group replaces or swallows one of another kind. -/
structure KeepsEvents (crates : Crates) (events : List ActivityEvent) (artifacts : List Artifact)
    (date : NaiveDate) : Prop where
  event : EventsKept events (rollUp crates events artifacts date) (ownSlot crates artifacts date)
  group : GroupsKept (groupsOf crates events artifacts date) (rollUp crates events artifacts date)

/-- Keys fall together only where they may. -/
structure NoCollision (crates : Crates) (events : List ActivityEvent) (artifacts : List Artifact)
    (date : NaiveDate) : Prop where
  /-- artifacts that share a slot are commit sets -/
  artifact : artifacts.Pairwise fun a b => slot a = slot b →
    isCommitSet a = true ∧ isCommitSet b = true
  /-- so are an artifact and the bucket of an orphan -/
  orphan_artifact : ∀ e ∈ events, Unclaimed artifacts e → ∀ a ∈ artifacts,
    slot a = ownSlot crates artifacts date e →
      isCommitSet a = true ∧ isCommitSet (ownArtifact crates artifacts date e) = true
  /-- so are two buckets of orphans -/
  orphan : ∀ e ∈ events, ∀ f ∈ events, Unclaimed artifacts e → Unclaimed artifacts f →
    (orphanKey e).order ≠ (orphanKey f).order →
      ownSlot crates artifacts date e = ownSlot crates artifacts date f →
        isCommitSet (ownArtifact crates artifacts date e) = true ∧
          isCommitSet (ownArtifact crates artifacts date f) = true
  /-- and an upstream id that is repeated in a slot is that of a commit -/
  repeats : RepeatsAreCommits events (ownSlot crates artifacts date)
    (Later crates events artifacts date)

variable {crates : Crates} {events : List ActivityEvent} {artifacts l r : List Artifact}
  {date : NaiveDate} {e f : ActivityEvent} {a : Artifact}

theorem find?_claims_of_unclaimed (h : Unclaimed artifacts e) :
    artifacts.find? (claims · e) = none :=
  List.find?_eq_none.mpr fun a ha => by simp [h a ha]

theorem ownArtifact_of_unclaimed (h : Unclaimed artifacts e) :
    ownArtifact crates artifacts date e = synthesizeArtifact crates (orphanKey e) [e] date := by
  rw [ownArtifact, find?_claims_of_unclaimed h, Option.getD_none]

theorem ownArtifact_of_claimed (ha : claims a e = true) (hl : Unclaimed l e) :
    ownArtifact crates (l ++ a :: r) date e = a := by
  rw [ownArtifact, List.find?_append, find?_claims_of_unclaimed hl, Option.none_or,
    List.find?_cons_of_pos (p := (claims · e)) ha, Option.getD_some]

/-! ### The slot of a bucket -/

theorem PathComponent.sortKey_injective : Function.Injective PathComponent.sortKey := by
  intro a b h
  cases a <;> cases b <;> simp_all [PathComponent.sortKey]

theorem providerIndex_injective : Function.Injective providerIndex := by
  intro a b h
  cases a <;> cases b <;> simp_all [providerIndex]

/-- Two keys of one bucket are equal but for the spelling of a path. -/
theorem eq_or_of_order_eq {k k' : OrphanKey} (h : k.order = k'.order) :
    k = k' ∨ ∃ source path path' day, k = .commitSet source path day ∧
      k' = .commitSet source path' day ∧ path.components = path'.components := by
  cases k <;> cases k' <;> simp [OrphanKey.order] at h
  case commitSet.commitSet source path day source' path' day' =>
    obtain ⟨rfl, hp, rfl⟩ := h
    exact Or.inr ⟨_, _, _, _, rfl, rfl, PathComponent.sortKey_injective.list_map hp⟩
  case mergeRequest.mergeRequest =>
    obtain ⟨rfl, hi, rfl, rfl, rfl⟩ := h
    rw [providerIndex_injective hi]
    exact Or.inl rfl
  all_goals simp [h]

/-- The slot and the kind of a synthetic artifact are those of its bucket. -/
theorem synthesizeArtifact_congr {k k' : OrphanKey} (h : k.order = k'.order)
    (events events' : List ActivityEvent) (date : NaiveDate) :
    slot (synthesizeArtifact crates k events date) =
        slot (synthesizeArtifact crates k' events' date) ∧
      isCommitSet (synthesizeArtifact crates k events date) =
        isCommitSet (synthesizeArtifact crates k' events' date) := by
  rcases eq_or_of_order_eq h with rfl | ⟨source, path, path', day, rfl, rfl, hp⟩
  · cases k <;> exact ⟨rfl, rfl⟩
  · refine ⟨?_, rfl⟩
    show (path.components, day) = (path'.components, day)
    rw [hp]

/-- A bucket's group has the slot and the kind that its events have. -/
theorem orphanGroup_artifact (crates : Crates) (date : NaiveDate)
    {bucket : OrphanKey × List ActivityEvent} {orphans : List ActivityEvent}
    (hb : bucket ∈ orphanByKey orphans) (he : e ∈ bucket.2)
    (hu : Unclaimed artifacts e) :
    groupSlot (orphanGroup crates date bucket) = ownSlot crates artifacts date e ∧
      isCommitSet (orphanGroup crates date bucket).artifact =
        isCommitSet (ownArtifact crates artifacts date e) := by
  have h := ((orphanByKey_bucket hb).2 e he).symm
  rw [ownSlot, ownArtifact_of_unclaimed hu]
  exact synthesizeArtifact_congr h _ _ date

/-! ### The layout of the groups -/

/-- The orphans are the unclaimed events. -/
theorem mem_orphans_iff (h : (events.map (·.id)).Nodup) :
    e ∈ (claimGroups artifacts (indexById events)).2 ↔ e ∈ events ∧ Unclaimed artifacts e := by
  rw [claimGroups_left, List.mem_filter, (indexById_perm h).mem_iff, decide_eq_true_iff]

/-- An event of a bucket is an unclaimed event. -/
theorem mem_bucket (h : (events.map (·.id)).Nodup) {bucket : OrphanKey × List ActivityEvent}
    (hb : bucket ∈ orphanByKey (claimGroups artifacts (indexById events)).2)
    (he : e ∈ bucket.2) : e ∈ events ∧ Unclaimed artifacts e := by
  refine (mem_orphans_iff h).mp ?_
  exact (flatMap_orphanByKey_perm _).mem_iff.mp (List.mem_flatMap.mpr ⟨bucket, hb, he⟩)

/-- An unclaimed event is in the bucket of its key. -/
theorem exists_bucket (h : (events.map (·.id)).Nodup) (he : e ∈ events)
    (hu : Unclaimed artifacts e) :
    ∃ bucket ∈ orphanByKey (claimGroups artifacts (indexById events)).2, e ∈ bucket.2 := by
  have hmem := (flatMap_orphanByKey_perm _).mem_iff.mpr ((mem_orphans_iff h).mpr ⟨he, hu⟩)
  exact List.mem_flatMap.mp hmem

/-- The slots of the groups of artifacts are those of the artifacts. -/
theorem exists_claimGroups_slot (artifacts : List Artifact) (index : List ActivityEvent)
    (s : List PathComponent × NaiveDate) :
    (∃ g ∈ (claimGroups artifacts index).1, groupSlot g = s) ↔ ∃ a ∈ artifacts, slot a = s := by
  conv_rhs => rw [← map_artifact_claimGroups artifacts index]
  simp only [List.mem_map, exists_exists_and_eq_and]
  rfl

theorem takeWhile_of_claimed (ha : claims a e = true) (hl : Unclaimed l e) :
    (l ++ a :: r).takeWhile (!claims · e) = l := by
  rw [List.takeWhile_append_of_pos fun b hb => by simp [hl b hb],
    List.takeWhile_cons_of_neg (by simp [ha]), List.append_nil]

theorem takeWhile_of_unclaimed (hu : Unclaimed artifacts e) :
    artifacts.takeWhile (!claims · e) = artifacts :=
  List.takeWhile_eq_self_iff.mpr fun a ha => by simp [hu a ha]

theorem place_of_claimed (h : (events.map (·.id)).Nodup) (he : e ∈ events)
    (hu : ¬Unclaimed artifacts e) :
    ∃ l g r, groupsOf crates events artifacts date = l ++ g :: r ∧ e ∈ g.events ∧
      groupSlot g = ownSlot crates artifacts date e ∧
        (Later crates events artifacts date e ↔ ∃ h ∈ l, groupSlot h = groupSlot g) := by
  cases hfind : artifacts.find? (claims · e) with
  | none =>
    refine absurd (fun a ha => ?_) hu
    simpa using List.find?_eq_none.mp hfind a ha
  | some a =>
    obtain ⟨ha, l, r, rfl, hl⟩ := List.find?_eq_some_iff_append.mp hfind
    have hl : Unclaimed l e := fun b hb => by simpa using hl b hb
    obtain ⟨g, gs, hg, hart, heg⟩ := mem_claimGroups (r := r) (indexById_nodup events)
      ((indexById_perm h).mem_iff.mpr he) ha hl
    have hslot : groupSlot g = ownSlot crates (l ++ a :: r) date e := by
      rw [ownSlot, ownArtifact_of_claimed ha hl, groupSlot, hart]
    refine ⟨(claimGroups l (indexById events)).1, g, gs ++
      (orphanByKey (claimGroups (l ++ a :: r) (indexById events)).2).map (orphanGroup crates date),
      ?_, heg, hslot, ?_⟩
    · rw [groupsOf_eq, hg, List.append_assoc, List.cons_append]
    · rw [exists_claimGroups_slot, Later, takeWhile_of_claimed ha hl, hslot]
      exact or_iff_left fun h => hu h.1

theorem place_of_unclaimed (h : (events.map (·.id)).Nodup) (he : e ∈ events)
    (hu : Unclaimed artifacts e) :
    ∃ l g r, groupsOf crates events artifacts date = l ++ g :: r ∧ e ∈ g.events ∧
      groupSlot g = ownSlot crates artifacts date e ∧
        (Later crates events artifacts date e ↔ ∃ h ∈ l, groupSlot h = groupSlot g) := by
  obtain ⟨bucket, hb, heb⟩ := exists_bucket h he hu
  obtain ⟨hslot, -⟩ := orphanGroup_artifact crates date hb heb hu
  have hsorted := orphanByKey_sorted (claimGroups artifacts (indexById events)).2
  have hin : ∀ b, b ∈ orphanByKey (claimGroups artifacts (indexById events)).2 → ∀ f ∈ b.2,
      f ∈ events ∧ Unclaimed artifacts f ∧ (orphanKey f).order = b.1.order ∧
        groupSlot (orphanGroup crates date b) = ownSlot crates artifacts date f := by
    intro b hb f hf
    obtain ⟨hfe, hfu⟩ := mem_bucket h hb hf
    exact ⟨hfe, hfu, (orphanByKey_bucket hb).2 f hf, (orphanGroup_artifact crates date hb hf hfu).1⟩
  have hne : ∀ b, b ∈ orphanByKey (claimGroups artifacts (indexById events)).2 → ∃ f, f ∈ b.2 :=
    fun b hb => List.exists_mem_of_ne_nil _ (orphanByKey_bucket hb).1
  obtain ⟨bl, br, hsplit⟩ := List.append_of_mem hb
  refine ⟨(claimGroups artifacts (indexById events)).1 ++ bl.map (orphanGroup crates date),
    orphanGroup crates date bucket, br.map (orphanGroup crates date), ?_,
    (mem_sortEvents).mpr heb, hslot, ?_⟩
  · rw [groupsOf_eq, hsplit, List.map_append, List.map_cons, List.append_assoc]
  · have hsplit' : ∀ s, (∃ g ∈ (claimGroups artifacts (indexById events)).1 ++
        bl.map (orphanGroup crates date), groupSlot g = s) ↔ (∃ a ∈ artifacts, slot a = s) ∨
          ∃ b ∈ bl, groupSlot (orphanGroup crates date b) = s := by
      intro s
      rw [← exists_claimGroups_slot artifacts (indexById events) s]
      simp only [List.mem_append, List.mem_map, or_and_right, exists_or,
        exists_exists_and_eq_and]
    rw [hsplit', Later, takeWhile_of_unclaimed hu, hslot]
    refine or_congr_right ⟨?_, ?_⟩
    · rintro ⟨-, f, hfe, hfu, hlt, hs⟩
      -- the bucket of the smaller key stands before
      obtain ⟨b, hbm, hfb⟩ := exists_bucket h hfe hfu
      obtain ⟨-, -, hord, hbs⟩ := hin b hbm f hfb
      rw [hord, (hin bucket hb e heb).2.2.1] at hlt
      refine ⟨b, ?_, hbs.trans hs⟩
      rw [hsplit] at hbm hsorted
      rcases List.mem_append.mp hbm with hbm | hbm
      · exact hbm
      · obtain ⟨hcons, -⟩ := List.pairwise_cons.mp (List.pairwise_append.mp hsorted).2.1
        rcases List.mem_cons.mp hbm with rfl | hbm
        · exact absurd hlt (lt_irrefl _)
        · exact absurd (hlt.trans (hcons b hbm)) (lt_irrefl _)
    · rintro ⟨b, hbl, hs⟩
      have hbm : b ∈ orphanByKey (claimGroups artifacts (indexById events)).2 := by
        rw [hsplit]
        exact List.mem_append_left _ hbl
      obtain ⟨f, hfb⟩ := hne b hbm
      obtain ⟨hfe, hfu, hord, hbs⟩ := hin b hbm f hfb
      refine ⟨hu, f, hfe, hfu, ?_, hbs.symm.trans hs⟩
      rw [hord, (hin bucket hb e heb).2.2.1]
      rw [hsplit] at hsorted
      exact (List.pairwise_append.mp hsorted).2.2 b hbl bucket List.mem_cons_self

/-- **Where the events lie in the groups of a rollup.** -/
theorem layout (h : (events.map (·.id)).Nodup) :
    Layout events (groupsOf crates events artifacts date) (ownSlot crates artifacts date)
      (Later crates events artifacts date) where
  nodup := h
  perm := flatMap_groupsOf_perm h
  place e he := by
    by_cases hu : Unclaimed artifacts e
    · exact place_of_unclaimed h he hu
    · exact place_of_claimed h he hu

/-! ### Separate groups, read off the input -/

/-- The groups are separate when the artifacts and the buckets are. -/
theorem separate_iff (h : (events.map (·.id)).Nodup) :
    Separate (groupsOf crates events artifacts date) ↔
      (artifacts.Pairwise fun a b => slot a = slot b →
        isCommitSet a = true ∧ isCommitSet b = true) ∧
      (∀ e ∈ events, Unclaimed artifacts e → ∀ a ∈ artifacts,
        slot a = ownSlot crates artifacts date e →
          isCommitSet a = true ∧ isCommitSet (ownArtifact crates artifacts date e) = true) ∧
      ∀ e ∈ events, ∀ f ∈ events, Unclaimed artifacts e → Unclaimed artifacts f →
        (orphanKey e).order ≠ (orphanKey f).order →
          ownSlot crates artifacts date e = ownSlot crates artifacts date f →
            isCommitSet (ownArtifact crates artifacts date e) = true ∧
              isCommitSet (ownArtifact crates artifacts date f) = true := by
  have hart : ((claimGroups artifacts (indexById events)).1.Pairwise fun g h =>
      groupSlot g = groupSlot h → isCommitSet g.artifact = true ∧ isCommitSet h.artifact = true) ↔
      artifacts.Pairwise fun a b => slot a = slot b →
        isCommitSet a = true ∧ isCommitSet b = true := by
    conv_rhs => rw [← map_artifact_claimGroups artifacts (indexById events), List.pairwise_map]
    rfl
  rw [Separate, groupsOf_eq, List.pairwise_append, hart]
  refine and_congr_right fun _ => Iff.trans and_comm (and_congr ?_ ?_)
  · constructor
    · intro hcross e he hu a ha hs
      obtain ⟨bucket, hb, heb⟩ := exists_bucket h he hu
      obtain ⟨hslot, hcommit⟩ :=
        orphanGroup_artifact crates date hb heb hu
      rw [← map_artifact_claimGroups artifacts (indexById events)] at ha
      obtain ⟨g, hg, rfl⟩ := List.mem_map.mp ha
      have hboth := hcross g hg _ (List.mem_map_of_mem hb) (hs.trans hslot.symm)
      rwa [hcommit] at hboth
    · intro hcross g hg k hk hs
      obtain ⟨bucket, hb, rfl⟩ := List.mem_map.mp hk
      obtain ⟨e, heb⟩ := List.exists_mem_of_ne_nil _ (orphanByKey_bucket hb).1
      obtain ⟨he, hu⟩ := mem_bucket h hb heb
      obtain ⟨hslot, hcommit⟩ :=
        orphanGroup_artifact crates date hb heb hu
      have ha : g.artifact ∈ artifacts := by
        rw [← map_artifact_claimGroups artifacts (indexById events)]
        exact List.mem_map_of_mem hg
      have hboth := hcross e he hu _ ha (hs.trans hslot)
      rwa [← hcommit] at hboth
  · rw [List.pairwise_map]
    constructor
    · intro hpair e he f hf hue huf hne hs
      obtain ⟨b, hb, heb⟩ := exists_bucket h he hue
      obtain ⟨b', hb', hfb⟩ := exists_bucket h hf huf
      obtain ⟨hslot, hcommit⟩ :=
        orphanGroup_artifact crates date hb heb hue
      obtain ⟨hslot', hcommit'⟩ :=
        orphanGroup_artifact crates date hb' hfb huf
      have hsymm : Std.Symm fun b b' : OrphanKey × List ActivityEvent =>
          groupSlot (orphanGroup crates date b) = groupSlot (orphanGroup crates date b') →
            isCommitSet (orphanGroup crates date b).artifact = true ∧
              isCommitSet (orphanGroup crates date b').artifact = true :=
        ⟨fun _ _ hab hs => (hab hs.symm).symm⟩
      have hbne : b ≠ b' := by
        rintro rfl
        rw [(orphanByKey_bucket hb).2 e heb, (orphanByKey_bucket hb).2 f hfb] at hne
        exact hne rfl
      have hboth := hpair.forall hb hb' hbne ((hslot.trans hs).trans hslot'.symm)
      rwa [hcommit, hcommit'] at hboth
    · intro hall
      refine (orphanByKey_sorted _).imp_of_mem ?_
      intro b b' hb hb' hlt hs
      obtain ⟨e, heb⟩ := List.exists_mem_of_ne_nil _ (orphanByKey_bucket hb).1
      obtain ⟨f, hfb⟩ := List.exists_mem_of_ne_nil _ (orphanByKey_bucket hb').1
      obtain ⟨he, hue⟩ := mem_bucket h hb heb
      obtain ⟨hf, huf⟩ := mem_bucket h hb' hfb
      obtain ⟨hslot, hcommit⟩ :=
        orphanGroup_artifact crates date hb heb hue
      obtain ⟨hslot', hcommit'⟩ :=
        orphanGroup_artifact crates date hb' hfb huf
      rw [hcommit, hcommit']
      refine hall e he f hf hue huf ?_ ((hslot.symm.trans hs).trans hslot')
      rw [(orphanByKey_bucket hb).2 e heb, (orphanByKey_bucket hb').2 f hfb]
      exact hlt.ne

/-! ### The order of the groups does not matter -/

theorem GroupsKept.perm {groups out out' : List RolledUpArtifact} (h : out.Perm out')
    (hk : GroupsKept groups out) : GroupsKept groups out' where
  others := (h.filter _).symm.trans hk.others
  commitSets g hg hc := by
    obtain ⟨z, hz, hcz⟩ := hk.commitSets g hg hc
    exact ⟨z, h.mem_iff.mp hz, hcz⟩

theorem EventsKept.perm {out out' : List RolledUpArtifact}
    {home : ActivityEvent → List PathComponent × NaiveDate} (h : out.Perm out')
    (hk : EventsKept events out home) : EventsKept events out' home := by
  have hocc : ∀ e, (occurrences out e).Perm (occurrences out' e) := fun e =>
    (h.flatMap_right _).filter _
  intro e he
  rcases hk e he with hone | ⟨hnone, hc, z, hz, hrep⟩
  · refine Or.inl (List.perm_singleton.mp ?_)
    rw [← hone]
    exact (hocc e).symm
  · refine Or.inr ⟨List.perm_nil.mp ?_, hc, z, h.mem_iff.mp hz, hrep⟩
    rw [← hnone]
    exact (hocc e).symm

theorem keepsEvents_iff_merged : KeepsEvents crates events artifacts date ↔
    EventsKept events (mergeDuplicateCommitSets (groupsOf crates events artifacts date))
      (ownSlot crates artifacts date) ∧
    GroupsKept (groupsOf crates events artifacts date)
      (mergeDuplicateCommitSets (groupsOf crates events artifacts date)) := by
  have hperm := sortGroups_perm (mergeDuplicateCommitSets (groupsOf crates events artifacts date))
  constructor
  · rintro ⟨he, hg⟩
    exact ⟨he.perm hperm, hg.perm hperm⟩
  · rintro ⟨he, hg⟩
    exact ⟨he.perm hperm.symm, hg.perm hperm.symm⟩

/-- The identifiers of the source `1` and of its page `UNKNOWN` on 1970-01-01. -/
def plainCrates : Crates where
  chrono := .iso
  parseFromRfc3339 _ := none
  now := 0
  newV5 ns _ :=
    if ns = Uuid.NAMESPACE_OID then ⟨0x90928c0183c053a79cde67badc637d0a, by decide⟩
    else ⟨0xab7529b793fa534183073cf3e65dfddf, by decide⟩

/-- A comment that names its space and no page. -/
def commentIn (id : Uuid) (space : Text) : ActivityEvent where
  id := id
  sourceId := 1
  externalId := "comment".toList ++ space
  kind := .confluenceComment
  occurredAt := 0
  actor := ⟨"Ada".toList, none, none⟩
  title := "Commented".toList
  body := none
  links := []
  entities := [⟨.confluenceSpace, space, none⟩]
  parentExternalId := none
  metadata := .null
  privacy := .normal

end Report
end Dayseam
