import Dayseam.Report.Evidence
import Mathlib

/-!
# The shape of a draft

A draft has sections in a fixed order, and none of them is empty.  Whether the day
counts as quiet is decided by the groups, but whether a section is shown by its
bullets, and a group that has lost its events may have none.

## Main definitions

* `bulletsUnder` — what a draft shows under a heading.
* `WellFormed` — what is asked of a draft.
* `BulletLeft` — some group of the input has a bullet.

## Main results

* `draft_wellFormed_iff` — **when a draft is well formed.**
* `filtered_commits_no_section` — a commit set whose commit was filtered away.
-/

namespace Dayseam
namespace Report

open KeyedMerge

/-! ### What is asked of a draft -/

/-- The bullets of the sections with the given id. -/
def bulletsUnder (draft : ReportDraft) (id : Text) : List RenderedBullet :=
  (draft.sections.filter fun s => decide (s.id = id)).flatMap (·.bullets)

/-- The bullet with the total time in meetings. -/
def totalBullet (crates : RenderCrates) (input : ReportInput) : RenderedBullet :=
  let minutes := sumMeetingMinutes (inputGroups crates input)
  ⟨meetingsSummaryBulletId crates input.templateId minutes, meetingsSummaryText minutes, none⟩

/-- The sections are shown as they should be. -/
structure WellFormed (crates : RenderCrates) (input : ReportInput) (draft : ReportDraft) :
    Prop where
  shown : draft.sections ≠ []
  filled : ∀ s ∈ draft.sections, s.bullets ≠ []
  distinct : (draft.sections.map (·.id)).Nodup
  ordered : (draft.sections.map (·.id)).Sublist
    (SYNC_ISSUES :: ReportSection.ALL.map ReportSection.id)
  failed : SYNC_ISSUES ∈ draft.sections.map (·.id) ↔
    ∃ entry ∈ input.perSourceState, entry.2.status = .failed
  /-- the bullets of the groups, then the total of the meetings or the bullet of the
  quiet day -/
  bullets : ∀ s, bulletsUnder draft (ReportSection.id s) = ownBullets crates input s ++
    (if s = .meetings ∧ 0 < sumMeetingMinutes (inputGroups crates input) then
      [totalBullet crates input] else []) ++
    if s = .commits ∧ filterEventsBySelf input = [] then
      (emptySection crates input.date).bullets else []

/-- Some group of the input has a bullet: that of an event that no artifact claims,
or that of an artifact which is a merge request, is a meeting or holds an event,
where only commit sets come after it in its slot. -/
def BulletLeft (input : ReportInput) : Prop :=
  (∃ e ∈ filterEventsBySelf input, Unclaimed input.artifacts e) ∨
    ∃ l a r, input.artifacts = l ++ a :: r ∧
      (hasOneBullet a = true ∨
        ∃ e ∈ filterEventsBySelf input, claims a e = true ∧ Unclaimed l e) ∧
      ∀ b ∈ r, slot b = slot a → isCommitSet b = true

variable {crates : RenderCrates} {input : ReportInput} {draft : ReportDraft}
  {g : RolledUpArtifact} {groups rest : List RolledUpArtifact}

/-! ### Groups with a bullet -/

/-- The group has a bullet. -/
def HasBullet (group : RolledUpArtifact) : Prop :=
  hasOneBullet group.artifact = true ∨ group.events ≠ []

theorem renderedGroup_ne_nil_iff : renderedGroup crates input g ≠ [] ↔ HasBullet g := by
  unfold renderedGroup renderGroup HasBullet hasOneBullet
  cases g.artifact.payload <;> simp

/-- A commit set adds its events, anything else takes the place. -/
theorem hasBullet_mergeInto (x y : RolledUpArtifact) :
    HasBullet (mergeInto x y) ↔ HasBullet y ∨ isCommitSet y.artifact = true ∧ HasBullet x := by
  unfold mergeInto
  cases hk : commitSetKey y.artifact with
  | none => simp [isCommitSet, hk]
  | some k =>
    have hset : isCommitSet y.artifact = true := by simp [isCommitSet, hk]
    have hone : hasOneBullet y.artifact = false := by
      by_contra h
      have h := isCommitSet_of_hasOneBullet (by simpa using h)
      rw [hset] at h
      cases h
    have hevents : sortEvents (x.events ++ keepNew (·.externalId)
        (x.events.map (·.externalId)) y.events) = [] ↔ x.events = [] ∧ y.events = [] := by
      rw [← List.length_eq_zero_iff, (sortEvents_perm _).length_eq, List.length_eq_zero_iff,
        List.append_eq_nil_iff]
      refine and_congr_right fun hx => ?_
      rw [hx]
      cases y.events with
      | nil => simp [keepNew]
      | cons e es =>
        rw [List.map_nil, keepNew_cons_of_notMem List.not_mem_nil]
        simp
    simp only [HasBullet, hset, hone, ne_eq, hevents, Bool.false_eq_true, false_or, true_and]
    tauto

/-- The last group that shows something has only commit sets behind it. -/
theorem hasBullet_foldl (x : RolledUpArtifact) (rest : List RolledUpArtifact) :
    HasBullet (rest.foldl mergeInto x) ↔ ∃ l g r, x :: rest = l ++ g :: r ∧ HasBullet g ∧
      ∀ y ∈ r, isCommitSet y.artifact = true := by
  induction rest using List.reverseRecOn with
  | nil =>
    constructor
    · intro h
      exact ⟨[], x, [], rfl, h, by simp⟩
    · rintro ⟨l, g, r, hsplit, hg, -⟩
      rcases List.cons_eq_append_iff.mp hsplit with ⟨rfl, h⟩ | ⟨l', rfl, h⟩
      · rw [← (List.cons.inj h).1]
        exact hg
      · exact absurd h (by simp)
  | append_singleton rest y ih =>
    rw [List.foldl_concat, hasBullet_mergeInto, ih]
    constructor
    · rintro (hy | ⟨hset, l, g, r, hsplit, hg, hr⟩)
      · exact ⟨x :: rest, y, [], rfl, hy, by simp⟩
      · refine ⟨l, g, r ++ [y], ?_, hg, ?_⟩
        · rw [← List.cons_append, hsplit, List.append_assoc, List.cons_append]
        · intro z hz
          rcases List.mem_append.mp hz with hz | hz
          · exact hr z hz
          · rw [List.mem_singleton.mp hz]
            exact hset
    · rintro ⟨l, g, r, hsplit, hg, hr⟩
      rw [← List.cons_append] at hsplit
      -- the last element is the group itself, or one of the commit sets behind it
      rcases List.eq_nil_or_concat' r with rfl | ⟨r, z, rfl⟩
      · obtain ⟨-, hy⟩ := List.append_inj' hsplit rfl
        rw [(List.cons.inj hy).1]
        exact Or.inl hg
      · rw [← List.cons_append, ← List.append_assoc] at hsplit
        obtain ⟨hl, hy⟩ := List.append_inj' hsplit rfl
        rw [(List.cons.inj hy).1]
        exact Or.inr ⟨hr z (by simp), l, g, r, hl, hg,
          fun u hu => hr u (List.mem_append_left _ hu)⟩

/-- A split of the entries with a property is one of the whole list. -/
theorem exists_split_filter {α : Type} {xs : List α} {p : α → Bool} {P Q : α → Prop} :
    (∃ l g r, xs.filter p = l ++ g :: r ∧ P g ∧ ∀ y ∈ r, Q y) ↔
      ∃ l g r, xs = l ++ g :: r ∧ p g = true ∧ P g ∧ ∀ y ∈ r, p y = true → Q y := by
  constructor
  · rintro ⟨l, g, r, hf, hg, hr⟩
    obtain ⟨l₁, l₂, rfl, -, h2⟩ := List.filter_eq_append_iff.mp hf
    obtain ⟨m, k, rfl, -, hp, hk⟩ := List.filter_eq_cons_iff.mp h2
    refine ⟨l₁ ++ m, g, k, by simp, hp, hg, ?_⟩
    intro y hy hpy
    exact hr y (hk ▸ List.mem_filter.mpr ⟨hy, hpy⟩)
  · rintro ⟨l, g, r, rfl, hp, hg, hr⟩
    refine ⟨l.filter p, g, r.filter p, ?_, hg, ?_⟩
    · rw [List.filter_append, List.filter_cons_of_pos hp]
    · intro y hy
      exact hr y (List.mem_filter.mp hy).1 (List.mem_filter.mp hy).2

/-- A merged group shows something when a group does and only commit sets follow in
its slot. -/
theorem exists_hasBullet_merged :
    (∃ v ∈ mergeDuplicateCommitSets groups, HasBullet v) ↔ ∃ l g r, groups = l ++ g :: r ∧
      HasBullet g ∧ ∀ y ∈ r, groupSlot y = groupSlot g → isCommitSet y.artifact = true := by
  have hsplit (s) : (∃ l g r, groups.filter (fun y => decide (groupSlot y = s)) = l ++ g :: r ∧
      HasBullet g ∧ ∀ y ∈ r, isCommitSet y.artifact = true) ↔ ∃ l g r, groups = l ++ g :: r ∧
        groupSlot g = s ∧ HasBullet g ∧ ∀ y ∈ r, groupSlot y = s → isCommitSet y.artifact = true := by
    simpa only [decide_eq_true_eq] using @exists_split_filter _ groups
      (fun y => decide (groupSlot y = s)) HasBullet fun y => isCommitSet y.artifact = true
  constructor
  · rintro ⟨v, hv, hb⟩
    obtain ⟨x, rest, hf, hvx⟩ := (mem_mergeBy_iff mergeInto_keeps).mp hv
    rw [hvx, hasBullet_foldl, ← hf, hsplit] at hb
    obtain ⟨l, g, r, hgroups, hs, hg, hr⟩ := hb
    refine ⟨l, g, r, hgroups, hg, ?_⟩
    rw [hs]
    exact hr
  · rintro ⟨l, g, r, hgroups, hg, hr⟩
    have hmem : g ∈ groups := hgroups ▸ List.mem_append_right _ List.mem_cons_self
    obtain ⟨v, hv, hs⟩ := exists_mem_mergeBy mergeInto_keeps hmem
    obtain ⟨x, rest, hf, hvx⟩ := (mem_mergeBy_iff mergeInto_keeps).mp hv
    refine ⟨v, hv, ?_⟩
    rw [hvx, hasBullet_foldl, ← hf, hs, hsplit]
    exact ⟨l, g, r, hgroups, rfl, hg, hr⟩

/-! ### Groups of the input -/

/-- The group of an artifact holds the events that it claims and none before it does. -/
theorem hasBullet_claimed {events : List ActivityEvent} {l r : List Artifact} {a : Artifact} :
    ∃ z, (claimGroups (l ++ a :: r) (indexById events)).1 =
        (claimGroups l (indexById events)).1 ++ z :: (claimGroups r
          (claimGroups (l ++ [a]) (indexById events)).2).1 ∧ z.artifact = a ∧
      (HasBullet z ↔ hasOneBullet a = true ∨ ∃ e ∈ events, claims a e = true ∧ Unclaimed l e) := by
  have hleft : (((claimGroups l (indexById events)).2).map (·.id)).Nodup := by
    rw [claimGroups_left]
    exact (indexById_nodup events).sublist (List.filter_sublist.map _)
  refine ⟨⟨a, sortEvents (claimEvents a.payload.eventIds (claimGroups l (indexById events)).2).1⟩,
    ?_, rfl, or_congr_right ?_⟩
  · rw [claimGroups_append, claimGroups_cons, claimGroups_append_left, claimGroups_cons,
      claimGroups_nil]
  · have hmem (e) : e ∈ sortEvents (claimEvents a.payload.eventIds
        (claimGroups l (indexById events)).2).1 ↔
          e ∈ indexById events ∧ claims a e = true ∧ Unclaimed l e := by
      rw [mem_sortEvents, mem_claimEvents_iff hleft, claimGroups_left, List.mem_filter,
        decide_eq_true_iff, and_assoc, claims, decide_eq_true_iff, and_comm (a := Unclaimed l e)]
    rw [ne_eq, List.eq_nil_iff_forall_not_mem, not_forall_not]
    simp only [hmem]
    exact @exists_mem_indexById events fun i => decide (i ∈ a.payload.eventIds) = true ∧
      ∀ b ∈ l, decide (i ∈ b.payload.eventIds) = false

/-- The groups of a report that have a bullet, read off the input. -/
theorem exists_hasBullet_iff (crates : RenderCrates) (input : ReportInput) :
    (∃ g ∈ inputGroups crates input, HasBullet g) ↔ BulletLeft input := by
  have hmem (g) := (inputGroups_perm crates input).mem_iff (a := g)
  simp only [hmem, exists_hasBullet_merged, groupsOf_eq]
  by_cases horphan : ∃ e ∈ filterEventsBySelf input, Unclaimed input.artifacts e
  · refine iff_of_true ?_ (Or.inl horphan)
    have hindex := @exists_mem_indexById (filterEventsBySelf input) fun i =>
      ∀ b ∈ input.artifacts, decide (i ∈ b.payload.eventIds) = false
    obtain ⟨e, he, hu⟩ := hindex.mpr horphan
    have hleft : e ∈ (claimGroups input.artifacts (indexById (filterEventsBySelf input))).2 := by
      rw [claimGroups_left, List.mem_filter, decide_eq_true_iff]
      exact ⟨he, hu⟩
    -- the last group is that of a bucket, which has events
    rcases List.eq_nil_or_concat' (orphanByKey (claimGroups input.artifacts
      (indexById (filterEventsBySelf input))).2) with hnil | ⟨bl, b, hbl⟩
    · rw [← (flatMap_orphanByKey_perm _).mem_iff, hnil] at hleft
      exact absurd hleft List.not_mem_nil
    · have hb : b ∈ orphanByKey (claimGroups input.artifacts
          (indexById (filterEventsBySelf input))).2 := by
        rw [hbl]
        exact List.mem_append_right _ List.mem_cons_self
      refine ⟨(claimGroups input.artifacts (indexById (filterEventsBySelf input))).1 ++
          bl.map (orphanGroup crates.toCrates input.date),
        orphanGroup crates.toCrates input.date b, [], ?_,
        Or.inr (orphanGroup_events_ne_nil _ _ hb), fun y hy => absurd hy List.not_mem_nil⟩
      rw [hbl, List.map_append, ← List.append_assoc]
      rfl
  · have hleft : (claimGroups input.artifacts (indexById (filterEventsBySelf input))).2 = [] := by
      rw [claimGroups_left, List.filter_eq_nil_iff]
      intro e he hu
      exact horphan ((@exists_mem_indexById (filterEventsBySelf input) fun i =>
        ∀ b ∈ input.artifacts, decide (i ∈ b.payload.eventIds) = false).mp
          ⟨e, he, of_decide_eq_true hu⟩)
    rw [BulletLeft, or_iff_right horphan, hleft, show orphanByKey [] = [] from rfl, List.map_nil,
      List.append_nil]
    have hart := map_artifact_claimGroups input.artifacts (indexById (filterEventsBySelf input))
    constructor
    · rintro ⟨l, g, r, hsplit, hg, hr⟩
      rw [hsplit, List.map_append, List.map_cons] at hart
      obtain ⟨z, hz, -, hiff⟩ := @hasBullet_claimed (filterEventsBySelf input)
        (l.map (·.artifact)) (r.map (·.artifact)) g.artifact
      rw [hart, hsplit] at hz
      have hlen := congrArg List.length (map_artifact_claimGroups (l.map (·.artifact))
        (indexById (filterEventsBySelf input)))
      rw [List.length_map, List.length_map] at hlen
      obtain ⟨-, hz⟩ := List.append_inj hz hlen.symm
      rw [(List.cons.inj hz).1] at hg
      refine ⟨_, _, _, hart.symm, hiff.mp hg, ?_⟩
      intro b hb hs
      obtain ⟨y, hy, rfl⟩ := List.mem_map.mp hb
      exact hr y hy hs
    · rintro ⟨l, a, r, hsplit, ha, hr⟩
      obtain ⟨z, hz, rfl, hiff⟩ := @hasBullet_claimed (filterEventsBySelf input) l r a
      rw [hsplit]
      refine ⟨_, z, _, hz, hiff.mpr ha, ?_⟩
      intro y hy hs
      refine hr y.artifact ?_ hs
      have hy := List.mem_map_of_mem (f := (·.artifact)) hy
      rw [map_artifact_claimGroups] at hy
      exact hy

/-! ### The sections -/

theorem failureOf_eq_none_iff {state : SourceRunState} :
    failureOf state = none ↔ state.status ≠ .failed := by
  unfold failureOf
  by_cases h : state.status = .failed
  · rw [if_pos h]
    exact iff_of_false (Option.some_ne_none _) (not_not.mpr h)
  · rw [if_neg h]
    exact iff_of_true rfl h

theorem failures_ne_nil_iff :
    failures input ≠ [] ↔ ∃ entry ∈ input.perSourceState, entry.2.status = .failed := by
  rw [failures, ne_eq, ← List.length_eq_zero_iff, List.length_mergeSort,
    List.length_eq_zero_iff, List.filterMap_eq_nil_iff]
  simp only [Option.map_eq_none_iff, failureOf_eq_none_iff]
  push Not
  rfl

/-- The ids of the sections besides that of the failed sources, in their order. -/
theorem map_id_activitySections (crates : RenderCrates) (input : ReportInput) :
    ((activitySections crates input).map (·.id)).Sublist
      (ReportSection.ALL.map ReportSection.id) := by
  have hsections (bullets : ReportSection → List RenderedBullet) (sections : List ReportSection) :
      ((sections.filterMap fun s => sectionOf (bullets s) s).map (·.id)).Sublist
        (sections.map ReportSection.id) := by
    induction sections with
    | nil => exact List.Sublist.refl _
    | cons s sections ih =>
      by_cases hs : bullets s = []
      · rw [List.filterMap_cons_none (by rw [sectionOf, if_pos hs])]
        exact ih.cons _
      · rw [List.filterMap_cons_some (by rw [sectionOf, if_neg hs])]
        exact ih.cons_cons _
  unfold activitySections
  dsimp only
  split_ifs
  · exact (List.nil_sublist _).cons_cons ReportSection.commits.id
  · exact hsections _ _

theorem activitySections_filled {s : RenderedSection} (hs : s ∈ activitySections crates input) :
    s.bullets ≠ [] := by
  unfold activitySections buildSections at hs
  dsimp only at hs
  split_ifs at hs
  · rw [List.mem_singleton.mp hs]
    exact List.cons_ne_nil _ _
  · obtain ⟨rs, -, hrs⟩ := List.mem_filterMap.mp hs
    unfold sectionOf at hrs
    split_ifs at hrs with hnil
    rw [← Option.some.inj hrs]
    exact hnil

/-- A meeting makes its section. -/
theorem ownBullets_of_minutes (h : 0 < sumMeetingMinutes (inputGroups crates input)) :
    ownBullets crates input .meetings ≠ [] := by
  have hex : ∃ g ∈ inputGroups crates input, meetingMinutes g ≠ none := by
    by_contra hnone
    push Not at hnone
    rw [sumMeetingMinutes, List.filterMap_eq_nil_iff.mpr hnone] at h
    exact absurd h (by decide)
  obtain ⟨g, hg, hm⟩ := hex
  unfold meetingMinutes at hm
  split at hm
  · next hp =>
    have hs : ReportSection.ofGroup g = .meetings := by
      rw [ReportSection.ofGroup, hp]
      rfl
    have hb : renderedGroup crates input g ≠ [] := by
      rw [renderedGroup_ne_nil_iff, HasBullet, hasOneBullet, hp]
      exact Or.inl rfl
    obtain ⟨p, hp⟩ := List.exists_mem_of_ne_nil _ hb
    refine List.ne_nil_of_mem (a := p.1) (List.mem_flatMap.mpr ⟨g, ?_, List.mem_map_of_mem hp⟩)
    exact List.mem_filter.mpr ⟨hg, decide_eq_true hs⟩
  · exact absurd rfl hm

theorem totalBullets_eq (crates : RenderCrates) (input : ReportInput) (s : ReportSection) :
    totalBullets crates input s =
      if s = .meetings ∧ 0 < sumMeetingMinutes (inputGroups crates input) then
        [totalBullet crates input] else [] := by
  by_cases hs : s = .meetings
  · subst hs
    unfold totalBullets meetingsSummaryBullet
    by_cases hpos : 0 < sumMeetingMinutes (inputGroups crates input)
    · rw [if_pos ⟨rfl, ownBullets_of_minutes hpos⟩, if_neg (by omega), if_pos ⟨rfl, hpos⟩]
      rfl
    · rw [if_neg (fun h : _ ∧ 0 < _ => hpos h.2), if_pos (show _ ≤ _ by omega)]
      split_ifs <;> rfl
  · rw [totalBullets, if_neg (fun h => hs h.1), if_neg (fun h => hs h.1)]

/-- Only an input without events of the person and without artifacts has no group. -/
theorem inputGroups_eq_nil_iff :
    inputGroups crates input = [] ↔ filterEventsBySelf input = [] ∧ input.artifacts = [] := by
  have hmerged : inputGroups crates input = [] ↔ groupsOf crates.toCrates
      (filterEventsBySelf input) input.artifacts input.date = [] := by
    simp only [List.eq_nil_iff_forall_not_mem, (inputGroups_perm crates input).mem_iff]
    constructor
    · intro h g hg
      obtain ⟨v, hv, -⟩ := exists_mem_mergeBy mergeInto_keeps hg
      exact h v hv
    · intro h v hv
      obtain ⟨x, rest, hf, -⟩ := (mem_mergeBy_iff mergeInto_keeps).mp hv
      have hx : x ∈ List.filter _ _ := hf ▸ List.mem_cons_self
      exact h x (List.mem_filter.mp hx).1
  have hclaimed : (claimGroups input.artifacts (indexById (filterEventsBySelf input))).1 = [] ↔
      input.artifacts = [] := by
    conv_rhs => rw [← map_artifact_claimGroups input.artifacts
      (indexById (filterEventsBySelf input)), List.map_eq_nil_iff]
  have horphans (orphans : List ActivityEvent) : orphanByKey orphans = [] ↔ orphans = [] := by
    constructor
    · intro h
      have hperm := flatMap_orphanByKey_perm orphans
      rw [h] at hperm
      exact (List.nil_perm.mp hperm)
    · rintro rfl
      rfl
  have hindex : indexById (filterEventsBySelf input) = [] ↔ filterEventsBySelf input = [] := by
    simpa [List.eq_nil_iff_forall_not_mem] using
      (@exists_mem_indexById (filterEventsBySelf input) fun _ => True).not
  rw [hmerged, groupsOf_eq, List.append_eq_nil_iff, List.map_eq_nil_iff, horphans, hclaimed,
    and_comm]
  refine and_congr_left fun hnil => ?_
  rw [hnil, claimGroups_nil, hindex]

/-! ### The result -/

/-- What is shown under a heading of the report. -/
theorem bulletsUnder_eq (hr : render crates input = .ok draft) (s : ReportSection) :
    bulletsUnder draft s.id = ownBullets crates input s ++ totalBullets crates input s ++
      if s = .commits ∧ inputGroups crates input = [] then
        (emptySection crates input.date).bullets else [] := by
  have hsync : ((renderSyncIssues crates input).toList.filter fun shown =>
      decide (shown.id = s.id)) = [] := by
    unfold renderSyncIssues
    split_ifs
    · rfl
    · simp [Ne.symm (ReportSection.id_ne_syncIssues s)]
  rw [bulletsUnder, (render_ok hr).2.1, List.filter_append, hsync, List.nil_append,
    activitySections]
  by_cases hg : inputGroups crates input = []
  · have hown : ownBullets crates input s = [] := by
      rw [ownBullets, hg]
      rfl
    rw [if_pos hg, totalBullets, hown, if_neg (fun h => h.2 rfl), List.nil_append,
      List.nil_append]
    by_cases hs : s = .commits
    · subst hs
      rw [if_pos ⟨rfl, hg⟩]
      simp [emptySection]
    · have hid : (emptySection crates input.date).id ≠ s.id :=
        fun h => hs (ReportSection.id_injective (show ReportSection.commits.id = _ from h)).symm
      rw [if_neg (fun h => hs h.1), List.filter_cons_of_neg (by simpa using hid)]
      rfl
  · rw [if_neg hg, if_neg (fun h => hg h.2), List.append_nil, buildSections,
      flatMap_filter_sectionOf _ s ReportSection.nodup_ALL, if_pos (ReportSection.mem_ALL s),
      sectionBullets_eq]

/-- A draft has a section when a source failed, the day is quiet or a group has a bullet. -/
theorem sections_ne_nil_iff (hr : render crates input = .ok draft) :
    draft.sections ≠ [] ↔ (∃ entry ∈ input.perSourceState, entry.2.status = .failed) ∨
      inputGroups crates input = [] ∨ BulletLeft input := by
  rw [(render_ok hr).2.1, ne_eq, List.append_eq_nil_iff, not_and_or]
  refine or_congr ?_ ?_
  · rw [← failures_ne_nil_iff, renderSyncIssues]
    split_ifs with hf <;> simp [hf]
  · rw [← exists_hasBullet_iff crates, activitySections]
    by_cases hg : inputGroups crates input = []
    · rw [if_pos hg]
      exact iff_of_true (List.cons_ne_nil _ _) (Or.inl hg)
    · have hnone (s) : sectionOf (sectionBullets crates input (inputGroups crates input) s) s =
          none ↔ ownBullets crates input s = [] := by
        rw [sectionBullets_eq, sectionOf]
        by_cases hown : ownBullets crates input s = []
        · simp [hown, totalBullets]
        · simp [hown]
      have hperm := flatMap_ownBullets_perm crates input
      rw [if_neg hg, or_iff_right hg, buildSections, List.filterMap_eq_nil_iff]
      simp only [hnone]
      rw [← List.flatMap_eq_nil_iff, ← List.length_eq_zero_iff, hperm.length_eq,
        List.length_eq_zero_iff, List.map_eq_nil_iff, activity, List.flatMap_eq_nil_iff]
      push Not
      simp only [renderedGroup_ne_nil_iff]

/-- **When a draft is well formed.** -/
theorem draft_wellFormed_iff (ht : input.templateId = DEV_EOD_TEMPLATE_ID) :
    (∃ draft, render crates input = .ok draft ∧ WellFormed crates input draft) ↔
      (filterEventsBySelf input = [] → input.artifacts = []) ∧
        (filterEventsBySelf input ≠ [] → BulletLeft input ∨
          ∃ entry ∈ input.perSourceState, entry.2.status = .failed) := by
  obtain ⟨draft, hr⟩ := exists_render crates ht
  have hdraft : (∃ draft, render crates input = .ok draft ∧ WellFormed crates input draft) ↔
      WellFormed crates input draft := by
    rw [hr]
    simp
  rw [hdraft]
  have hempty := @inputGroups_eq_nil_iff crates input
  constructor
  · intro h
    have hquiet : filterEventsBySelf input = [] → input.artifacts = [] := by
      intro hnone
      have hb := h.bullets .commits
      by_contra ha
      rw [bulletsUnder_eq hr, if_neg (fun h' => ha (hempty.mp h'.2).2), totalBullets_eq,
        if_pos (show _ ∧ filterEventsBySelf input = [] from ⟨rfl, hnone⟩),
        List.append_right_inj] at hb
      exact absurd hb.symm (List.cons_ne_nil _ _)
    refine ⟨hquiet, fun hsome => ?_⟩
    rcases (sections_ne_nil_iff hr).mp h.shown with hf | hg | hb
    · exact Or.inr hf
    · exact absurd (hempty.mp hg).1 hsome
    · exact Or.inl hb
  · rintro ⟨hquiet, hsome⟩
    have hsub : (draft.sections.map (·.id)).Sublist
        (SYNC_ISSUES :: ReportSection.ALL.map ReportSection.id) := by
      rw [(render_ok hr).2.1, List.map_append]
      refine @List.Sublist.append _ _ [SYNC_ISSUES] _ _ ?_ (map_id_activitySections crates input)
      unfold renderSyncIssues
      split_ifs
      · exact List.nil_sublist _
      · exact List.Sublist.refl _
    have hids : (SYNC_ISSUES :: ReportSection.ALL.map ReportSection.id).Nodup := by decide
    refine ⟨?_, ?_, hids.sublist hsub, hsub, ?_, ?_⟩
    · refine (sections_ne_nil_iff hr).mpr ?_
      by_cases hnone : filterEventsBySelf input = []
      · exact Or.inr (Or.inl (hempty.mpr ⟨hnone, hquiet hnone⟩))
      · exact (hsome hnone).symm.imp_right Or.inr
    · intro s hs
      rw [(render_ok hr).2.1, List.mem_append] at hs
      rcases hs with hs | hs
      · unfold renderSyncIssues at hs
        split_ifs at hs with hf
        · exact absurd hs List.not_mem_nil
        · rw [List.mem_singleton.mp hs]
          exact fun hnil => hf (List.map_eq_nil_iff.mp hnil)
      · exact activitySections_filled hs
    · rw [← failures_ne_nil_iff, (render_ok hr).2.1, List.map_append, List.mem_append,
        or_iff_left, renderSyncIssues]
      · split_ifs with hf <;> simp [hf]
      · intro h
        obtain ⟨s, hs, hid⟩ := List.mem_map.mp h
        exact activitySections_id hs hid
    · intro s
      rw [bulletsUnder_eq hr, totalBullets_eq]
      refine congrArg _ (if_congr (and_congr_right fun _ => ?_) rfl rfl)
      rw [hempty]
      exact and_iff_left_of_imp hquiet

/-- The stand-up of Ada has its section. -/
theorem own_meeting_wellFormed : ∃ draft,
    render standupCrates (standupInput "ada".toList) = .ok draft ∧
      WellFormed standupCrates (standupInput "ada".toList) draft := by
  refine (draft_wellFormed_iff rfl).mpr ⟨fun hnone => absurd hnone (by decide), fun _ => ?_⟩
  exact Or.inl (Or.inr ⟨[], standupArtifact, [], rfl, Or.inl rfl, by simp⟩)

/-! ### A commit that was filtered away -/

/-- A commit set that is handed in with a commit of somebody else. -/
def pairedCommits : Artifact where
  id := 7
  sourceId := 2
  kind := .commitSet
  externalId := "paired".toList
  payload := .commitSet ⟨"/w/paired".toList⟩ ⟨0⟩ [5] ["1f2e".toList]
  createdAt := 0

/-- The report of Ada on a day on which only somebody else was at work. -/
def pairedInput : ReportInput where
  __ := standupInput "bob".toList
  artifacts := [pairedCommits]

theorem inputGroups_paired : inputGroups standupCrates pairedInput = [⟨pairedCommits, []⟩] := by
  have hself : filterEventsBySelf pairedInput = [] := List.filter_cons_of_neg (by decide)
  have hclaim : claimGroups [pairedCommits] [] = ([⟨pairedCommits, []⟩], []) := by
    rw [claimGroups_cons]
    simp [claimEvents, pairedCommits, ArtifactPayload.eventIds, sortEvents]
  show rollUp plainCrates (filterEventsBySelf pairedInput) [pairedCommits] ⟨0⟩ = _
  rw [rollUp, groupsOf_eq, hself, show indexById [] = [] from rfl, hclaim]
  exact List.mergeSort_singleton _

/-- **A commit set whose commit was filtered away** leaves a draft without sections. -/
theorem filtered_commits_no_section : ∃ draft, render standupCrates pairedInput = .ok draft ∧
    draft.sections = [] ∧ ¬WellFormed standupCrates pairedInput draft := by
  obtain ⟨draft, hr⟩ := @exists_render pairedInput standupCrates rfl
  have hnone : draft.sections = [] := by
    by_contra hne
    rcases (sections_ne_nil_iff hr).mp hne with ⟨entry, hentry, -⟩ | hg | hb
    · exact absurd hentry List.not_mem_nil
    · rw [inputGroups_paired] at hg
      exact absurd hg (List.cons_ne_nil _ _)
    · obtain ⟨g, hg, hbullet⟩ := (exists_hasBullet_iff standupCrates pairedInput).mpr hb
      rw [inputGroups_paired, List.mem_singleton] at hg
      subst hg
      rcases hbullet with h | h
      · cases h
      · exact h rfl
  exact ⟨draft, hr, hnone, fun h => h.shown hnone⟩

end Report
end Dayseam
