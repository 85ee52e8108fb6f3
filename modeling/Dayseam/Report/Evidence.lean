import Dayseam.Report.BulletKeys
import Mathlib

/-!
# The evidence behind the bullets

Every bullet of a report is traced back to its events by one evidence edge.  A
merge request or a meeting that is handed in from outside has a bullet also when
all its events were filtered away, and then its edge leads nowhere.

## Main definitions

* `NoDigestCollision` — the digests tell the keys of a draft apart.
* `EvidenceSound` — bullets and evidence fit together.
* `Attested` — the condition on the input.

## Main results

* `evidence_sound_iff` — **when the evidence is sound.**
* `meeting_without_evidence` — a meeting whose event was filtered away.
-/

namespace Dayseam
namespace Report

open KeyedMerge

/-! ### What is asked of a draft -/

/-- The truncated digests tell the keys of the draft apart. -/
def NoDigestCollision (crates : RenderCrates) (input : ReportInput) : Prop :=
  ∀ k ∈ hashedKeys crates input, ∀ k' ∈ hashedKeys crates input,
    (crates.sha256 k).take 8 = (crates.sha256 k').take 8 → k = k'

def draftBullets (draft : ReportDraft) : List RenderedBullet :=
  draft.sections.flatMap (·.bullets)

/-- The bullet tells of activity: it is not about a failed source, not that of the
empty state and not the total of the meetings. -/
def IsActivityBullet (crates : RenderCrates) (input : ReportInput) (s : RenderedSection)
    (b : RenderedBullet) : Prop :=
  s.id ≠ SYNC_ISSUES ∧ b ∉ (emptySection crates input.date).bullets ∧
    some b ≠ meetingsSummaryBullet crates (sumMeetingMinutes (inputGroups crates input))
      input.templateId

/-- The edge names events of the person, and at least one. -/
structure Evidence.Grounded (input : ReportInput) (ev : Evidence) : Prop where
  nonempty : ev.eventIds ≠ []
  events : ∀ i ∈ ev.eventIds, ∃ e ∈ input.events,
    eventIsSelf e (identitiesForPerson input.sourceIdentities input.personId) = true ∧ e.id = i

/-- Bullets and evidence fit together. -/
structure EvidenceSound (crates : RenderCrates) (input : ReportInput) (draft : ReportDraft) :
    Prop where
  /-- a bullet about activity has one edge, and the edge is grounded -/
  edge : ∀ s ∈ draft.sections, ∀ b ∈ s.bullets, IsActivityBullet crates input s b →
    ∃ ev, (draft.evidence.filter fun ev => decide (ev.bulletId = b.id)) = [ev] ∧
      Evidence.Grounded input ev
  /-- the ids of the bullets are distinct -/
  ids : ((draftBullets draft).map (·.id)).Nodup
  /-- an edge names one bullet -/
  bullet : ∀ ev ∈ draft.evidence,
    ∃ b, (draftBullets draft).filter (fun b => decide (b.id = ev.bulletId)) = [b]

/-- Every merge request and meeting that is handed in keeps an event of the person:
one that no artifact before it claims, and whose group is merged where it is. -/
def Attested (crates : RenderCrates) (input : ReportInput) : Prop :=
  ∀ l a r, input.artifacts = l ++ a :: r → hasOneBullet a = true →
    ∃ e ∈ filterEventsBySelf input, Unclaimed l e ∧
      ownSlot crates.toCrates input.artifacts input.date e = slot a

variable {crates : RenderCrates} {input : ReportInput} {draft : ReportDraft}
  {g : RolledUpArtifact} {p : RenderedBullet × Evidence}

/-! ### The bullets of a group -/

/-- The id of a bullet, with its edge. -/
theorem map_renderedGroup (crates : RenderCrates) (input : ReportInput) (g : RolledUpArtifact) :
    (renderedGroup crates input g).map (fun p => (p.1.id, p.2.bulletId, p.2.eventIds)) =
      (evidenceIds g).map fun ids =>
        let id := bulletId crates input.templateId (ReportSection.ofGroup g).id g.artifact.id ids
        (id, id, ids) := by
  unfold renderedGroup renderGroup evidenceIds
  cases hp : g.artifact.payload <;>
    simp [renderCommitBullet, renderAtlassianBullet, renderMrBullet, renderMeetingBullet,
      bulletWithEvidence]

theorem map_id_renderedGroup (crates : RenderCrates) (input : ReportInput) (g : RolledUpArtifact) :
    (renderedGroup crates input g).map (·.1.id) =
      (groupKeys input.templateId g).map (shortDigest crates) := by
  have h := congrArg (List.map (·.1)) (map_renderedGroup crates input g)
  rw [List.map_map, List.map_map] at h
  rw [groupKeys, List.map_map]
  exact h

theorem of_mem_renderedGroup (hp : p ∈ renderedGroup crates input g) :
    p.2.bulletId = p.1.id ∧ p.2.eventIds ∈ evidenceIds g := by
  have h := List.mem_map_of_mem (f := fun p : RenderedBullet × Evidence =>
    (p.1.id, p.2.bulletId, p.2.eventIds)) hp
  rw [map_renderedGroup] at h
  obtain ⟨ids, hids, heq⟩ := List.mem_map.mp h
  simp only [Prod.mk.injEq] at heq
  obtain ⟨h1, h2, rfl⟩ := heq
  exact ⟨h2.symm.trans h1, hids⟩

/-- Every edge of a group is that of a bullet. -/
theorem exists_mem_renderedGroup (crates : RenderCrates) (input : ReportInput) {ids : List Uuid}
    (h : ids ∈ evidenceIds g) : ∃ p ∈ renderedGroup crates input g, p.2.eventIds = ids := by
  have hm := List.mem_map_of_mem (f := fun ids =>
    let id := bulletId crates input.templateId (ReportSection.ofGroup g).id g.artifact.id ids
    (id, id, ids)) h
  rw [← map_renderedGroup] at hm
  obtain ⟨p, hp, heq⟩ := List.mem_map.mp hm
  simp only [Prod.mk.injEq] at heq
  exact ⟨p, hp, heq.2.2⟩

/-! ### The bullets of a draft -/

/-- The bullets of the groups, with their edges. -/
def activity (crates : RenderCrates) (input : ReportInput) : List (RenderedBullet × Evidence) :=
  (inputGroups crates input).flatMap (renderedGroup crates input)

/-- What a draft holds besides the bullets of the groups. -/
def extraBullets (crates : RenderCrates) (input : ReportInput) : List RenderedBullet :=
  let groups := inputGroups crates input
  if groups = [] then (emptySection crates input.date).bullets
  else if ((groups.filter fun g => ReportSection.ofGroup g = .meetings).flatMap fun g =>
      (renderedGroup crates input g).map (·.1)) ≠ [] then
    (meetingsSummaryBullet crates (sumMeetingMinutes groups) input.templateId).toList
  else []

/-- The sections of a draft besides that of the failed sources. -/
def activitySections (crates : RenderCrates) (input : ReportInput) : List RenderedSection :=
  let groups := inputGroups crates input
  if groups = [] then [emptySection crates input.date] else (buildSections crates input groups).1

theorem render_ok (h : render crates input = .ok draft) :
    input.templateId = DEV_EOD_TEMPLATE_ID ∧
      draft.sections = (renderSyncIssues crates input).toList ++ activitySections crates input ∧
        draft.evidence = (activity crates input).map (·.2) := by
  by_cases ht : input.templateId = DEV_EOD_TEMPLATE_ID
  · rw [render, if_neg (not_not.mpr ht)] at h
    by_cases hg : inputGroups crates input = []
    · simp only [hg, if_true] at h
      obtain rfl := Except.ok.inj h
      refine ⟨ht, ?_, ?_⟩
      · rw [activitySections, if_pos hg]
      · rw [activity, hg]
        rfl
    · simp only [hg, if_false] at h
      obtain rfl := Except.ok.inj h
      refine ⟨ht, ?_, ?_⟩
      · rw [activitySections, if_neg hg]
      · rw [activity, List.map_flatMap]
        rfl
  · rw [render, if_pos ht] at h
    cases h

/-- The section of the failed sources is apart from the others. -/
theorem activitySections_id {s : RenderedSection} (hs : s ∈ activitySections crates input) :
    s.id ≠ SYNC_ISSUES := by
  unfold activitySections buildSections at hs
  dsimp only at hs
  split_ifs at hs
  · rw [List.mem_singleton.mp hs]
    exact ReportSection.id_ne_syncIssues .commits
  · obtain ⟨rs, -, hrs⟩ := List.mem_filterMap.mp hs
    unfold sectionOf at hrs
    split_ifs at hrs
    rw [← Option.some.inj hrs]
    exact ReportSection.id_ne_syncIssues rs

/-- The bullets of the sections that are shown. -/
theorem flatMap_sectionOf (bullets : ReportSection → List RenderedBullet)
    (sections : List ReportSection) :
    (sections.filterMap fun s => sectionOf (bullets s) s).flatMap (·.bullets) =
      sections.flatMap bullets := by
  induction sections with
  | nil => rfl
  | cons s sections ih =>
    rw [List.flatMap_cons]
    by_cases hs : bullets s = []
    · rw [List.filterMap_cons_none (by rw [sectionOf, if_pos hs]), ih, hs, List.nil_append]
    · rw [List.filterMap_cons_some (by rw [sectionOf, if_neg hs]), List.flatMap_cons, ih]

/-- The bullets of the sections with the id of a section. -/
theorem flatMap_filter_sectionOf (bullets : ReportSection → List RenderedBullet)
    (t : ReportSection) {sections : List ReportSection} (hn : sections.Nodup) :
    ((sections.filterMap fun s => sectionOf (bullets s) s).filter fun s => s.id = t.id).flatMap
      (·.bullets) = if t ∈ sections then bullets t else [] := by
  induction sections with
  | nil => rfl
  | cons s sections ih =>
    obtain ⟨hs, hn⟩ := List.nodup_cons.mp hn
    have ih := ih hn
    by_cases hempty : bullets s = []
    · rw [List.filterMap_cons_none (by rw [sectionOf, if_pos hempty]), ih]
      by_cases hst : t = s
      · rw [hst, if_neg hs, if_pos List.mem_cons_self, hempty]
      · simp only [List.mem_cons, hst, false_or]
    · rw [List.filterMap_cons_some (by rw [sectionOf, if_neg hempty])]
      by_cases hst : t = s
      · rw [hst] at ih ⊢
        rw [List.filter_cons_of_pos (by simp), List.flatMap_cons, ih, if_neg hs,
          if_pos List.mem_cons_self, List.append_nil]
      · have hid : s.id ≠ t.id := fun h => hst (ReportSection.id_injective h).symm
        rw [List.filter_cons_of_neg (by simpa using hid), ih]
        simp only [List.mem_cons, hst, false_or]

/-- The bullets of the groups of a section. -/
def ownBullets (crates : RenderCrates) (input : ReportInput) (s : ReportSection) :
    List RenderedBullet :=
  ((inputGroups crates input).filter fun g => ReportSection.ofGroup g = s).flatMap fun g =>
    (renderedGroup crates input g).map (·.1)

/-- The total of the meetings, behind their bullets. -/
def totalBullets (crates : RenderCrates) (input : ReportInput) (s : ReportSection) :
    List RenderedBullet :=
  if s = .meetings ∧ ownBullets crates input s ≠ [] then (meetingsSummaryBullet crates
    (sumMeetingMinutes (inputGroups crates input)) input.templateId).toList
  else []

theorem sectionBullets_eq (crates : RenderCrates) (input : ReportInput) (s : ReportSection) :
    sectionBullets crates input (inputGroups crates input) s =
      ownBullets crates input s ++ totalBullets crates input s := by
  show (if s = .meetings ∧ ownBullets crates input s ≠ [] then _ else _) = _
  unfold totalBullets
  split_ifs
  · rfl
  · exact (List.append_nil _).symm

/-- The groups are spread over the sections. -/
theorem flatMap_ownBullets_perm (crates : RenderCrates) (input : ReportInput) :
    (ReportSection.ALL.flatMap (ownBullets crates input)).Perm
      ((activity crates input).map (·.1)) := by
  have hfibres : (ReportSection.ALL.flatMap fun s =>
      (inputGroups crates input).filter fun g => ReportSection.ofGroup g = s).Perm
        (inputGroups crates input) :=
    flatMap_filter_perm ReportSection.nodup_ALL fun _ _ => ReportSection.mem_ALL _
  unfold ownBullets
  rw [activity, List.map_flatMap, ← List.flatMap_assoc]
  exact hfibres.flatMap_right _

theorem activitySections_perm (crates : RenderCrates) (input : ReportInput) :
    ((activitySections crates input).flatMap (·.bullets)).Perm
      ((activity crates input).map (·.1) ++ extraBullets crates input) := by
  by_cases hg : inputGroups crates input = []
  · rw [activitySections, if_pos hg, extraBullets, if_pos hg, activity, hg]
    exact List.Perm.refl _
  · have htotal : ReportSection.ALL.flatMap (totalBullets crates input) =
        extraBullets crates input := by
      rw [extraBullets, if_neg hg]
      simp [ReportSection.ALL, totalBullets, ownBullets]
    rw [activitySections, if_neg hg, buildSections, flatMap_sectionOf, ← htotal,
      funext (sectionBullets_eq crates input)]
    exact (List.flatMap_append_perm _ _ _).symm.trans
      ((flatMap_ownBullets_perm crates input).append_right _)

/-- What is not the bullet of a group has a key of its own. -/
theorem extraBullets_sublist (crates : RenderCrates) (input : ReportInput) :
    ((extraBullets crates input).map (·.id)).Sublist ([emptyStateKey crates input.date,
      meetingsSummaryKey input.templateId (sumMeetingMinutes (inputGroups crates input))].map
        (shortDigest crates)) := by
  unfold extraBullets
  dsimp only
  split_ifs
  · exact (List.nil_sublist _).cons_cons _
  · refine List.Sublist.cons _ ?_
    unfold meetingsSummaryBullet
    split_ifs
    · exact List.nil_sublist _
    · exact List.Sublist.refl _
  · exact List.nil_sublist _

theorem activity_ids (crates : RenderCrates) (input : ReportInput) :
    (activity crates input).map (·.1.id) =
      ((inputGroups crates input).flatMap (groupKeys input.templateId)).map
        (shortDigest crates) := by
  rw [activity, List.map_flatMap, List.map_flatMap]
  exact List.flatMap_congr fun g _ => map_id_renderedGroup crates input g

theorem syncIssues_ids (crates : RenderCrates) (input : ReportInput) :
    ((renderSyncIssues crates input).toList.flatMap (·.bullets)).map (·.id) =
      (syncIssueKeys input).map (shortDigest crates) := by
  unfold renderSyncIssues syncIssueKeys
  split_ifs with hf
  · rw [hf]
    rfl
  · rw [Option.toList_some, List.flatMap_singleton, List.map_map, List.map_map]
    rfl

/-- The bullets of a draft, up to their order. -/
theorem draftBullets_perm (h : render crates input = .ok draft) :
    (draftBullets draft).Perm ((renderSyncIssues crates input).toList.flatMap (·.bullets) ++
      ((activity crates input).map (·.1) ++ extraBullets crates input)) := by
  obtain ⟨-, hsections, -⟩ := render_ok h
  rw [draftBullets, hsections, List.flatMap_append]
  exact (activitySections_perm crates input).append_left _

/-- The ids of the bullets are digests of keys of the draft. -/
theorem draftBullets_ids_subperm (h : render crates input = .ok draft) :
    ((draftBullets draft).map (·.id)).Subperm
      ((hashedKeys crates input).map (shortDigest crates)) := by
  refine ((draftBullets_perm h).map (·.id)).subperm.trans (List.Sublist.subperm ?_)
  rw [List.map_append, List.map_append, List.map_map, syncIssues_ids, hashedKeys, List.map_append,
    List.map_append]
  have hids : (activity crates input).map ((fun b : RenderedBullet => b.id) ∘ (·.1)) = _ :=
    activity_ids crates input
  rw [hids]
  exact ((extraBullets_sublist crates input).append_left _).append_left _

/-! ### Edges -/

section Edges

variable (hn : (input.events.map (·.id)).Nodup) (hd : NoDigestCollision crates input)
  (hr : render crates input = .ok draft)

include hn hd hr

/-- The digests of the keys are distinct. -/
theorem digests_nodup : ((hashedKeys crates input).map (shortDigest crates)).Nodup :=
  List.Nodup.map_on (fun k hk k' hk' heq => hd k hk k' hk' (take_eq_of_shortDigest_eq heq))
    (hashedKeys_nodup crates hn (render_ok hr).1)

theorem draftBullets_nodup : ((draftBullets draft).map (·.id)).Nodup := by
  obtain ⟨l, hperm, hsub⟩ := draftBullets_ids_subperm hr
  exact hperm.nodup_iff.mp ((digests_nodup hn hd hr).sublist hsub)

theorem evidence_distinct : Distinct (·.bulletId) draft.evidence := by
  have hids : draft.evidence.map (·.bulletId) = (activity crates input).map (·.1.id) := by
    rw [(render_ok hr).2.2, List.map_map]
    refine List.map_congr_left fun p hp => ?_
    obtain ⟨g, -, hp⟩ := List.mem_flatMap.mp hp
    exact (of_mem_renderedGroup hp).1
  have hsub : ((activity crates input).map (·.1.id)).Sublist
      ((hashedKeys crates input).map (shortDigest crates)) := by
    rw [activity_ids, hashedKeys]
    exact ((List.sublist_append_left _ _).trans (List.sublist_append_right _ _)).map _
  rw [distinct_iff_nodup_map, hids]
  exact (digests_nodup hn hd hr).sublist hsub

/-- The one edge of a bullet of a group. -/
theorem evidence_filter_eq (hp : p ∈ activity crates input) :
    (draft.evidence.filter fun ev => decide (ev.bulletId = p.1.id)) = [p.2] := by
  have hmem : p.2 ∈ draft.evidence := by
    rw [(render_ok hr).2.2]
    exact List.mem_map_of_mem hp
  obtain ⟨g, -, hpg⟩ := List.mem_flatMap.mp hp
  rw [← (of_mem_renderedGroup hpg).1]
  exact (evidence_distinct hn hd hr).filter_eq hmem

/-- The bullet of a group is one about activity. -/
theorem isActivityBullet_of_mem (hp : p ∈ activity crates input) :
    ∃ s ∈ draft.sections, p.1 ∈ s.bullets ∧ IsActivityBullet crates input s p.1 := by
  have hdigests := digests_nodup hn hd hr
  rw [hashedKeys, List.map_append, List.map_append, ← activity_ids] at hdigests
  obtain ⟨-, hdigests, -⟩ := List.nodup_append.mp hdigests
  obtain ⟨-, -, hapart⟩ := List.nodup_append.mp hdigests
  have hid : p.1.id ∈ (activity crates input).map (·.1.id) := List.mem_map_of_mem hp
  have hin : p.1 ∈ (activitySections crates input).flatMap (·.bullets) :=
    (activitySections_perm crates input).mem_iff.mpr
      (List.mem_append_left _ (List.mem_map_of_mem hp))
  obtain ⟨s, hs, hb⟩ := List.mem_flatMap.mp hin
  refine ⟨s, ?_, hb, activitySections_id hs, ?_, ?_⟩
  · rw [(render_ok hr).2.1]
    exact List.mem_append_right _ hs
  · intro hempty
    refine hapart _ hid (emptyStateBulletId crates input.date) List.mem_cons_self ?_
    rw [List.mem_singleton.mp hempty]
  · intro htotal
    refine hapart _ hid (meetingsSummaryBulletId crates input.templateId
      (sumMeetingMinutes (inputGroups crates input))) ?_ ?_
    · exact List.mem_cons_of_mem _ List.mem_cons_self
    · unfold meetingsSummaryBullet at htotal
      split_ifs at htotal
      rw [Option.some.inj htotal]

omit hn hd in
/-- A bullet about activity is that of a group. -/
theorem mem_activity_of_isActivityBullet {s : RenderedSection} {b : RenderedBullet}
    (hs : s ∈ draft.sections) (hb : b ∈ s.bullets) (ha : IsActivityBullet crates input s b) :
    ∃ p ∈ activity crates input, p.1 = b := by
  rw [(render_ok hr).2.1] at hs
  rcases List.mem_append.mp hs with hs | hs
  · refine absurd ?_ ha.1
    unfold renderSyncIssues at hs
    split_ifs at hs
    · exact absurd hs List.not_mem_nil
    · rw [List.mem_singleton.mp hs]
  · have hin := (activitySections_perm crates input).mem_iff.mp (List.mem_flatMap.mpr ⟨s, hs, hb⟩)
    rcases List.mem_append.mp hin with hin | hin
    · exact List.mem_map.mp hin
    · unfold extraBullets at hin
      dsimp only at hin
      split_ifs at hin
      · exact absurd hin ha.2.1
      · exact absurd (Option.mem_toList.mp hin).symm ha.2.2
      · exact absurd hin List.not_mem_nil

/-- **The evidence is sound when no merge request and no meeting is without events.** -/
theorem evidenceSound_iff_events : EvidenceSound crates input draft ↔
    ∀ g ∈ inputGroups crates input, hasOneBullet g.artifact = true → g.events ≠ [] := by
  constructor
  · intro hsound g hg hone hnil
    obtain ⟨p, hp, hpids⟩ := exists_mem_renderedGroup crates input
      (nil_mem_evidenceIds_iff.mpr ⟨hone, hnil⟩)
    have hp : p ∈ activity crates input := List.mem_flatMap.mpr ⟨g, hg, hp⟩
    obtain ⟨s, hs, hb, ha⟩ := isActivityBullet_of_mem hn hd hr hp
    obtain ⟨ev, hev, hground⟩ := hsound.edge s hs p.1 hb ha
    rw [evidence_filter_eq hn hd hr hp] at hev
    apply hground.nonempty
    rw [← List.singleton_inj.mp hev, hpids]
  · intro hall
    refine ⟨?_, draftBullets_nodup hn hd hr, ?_⟩
    · intro s hs b hb ha
      obtain ⟨p, hp, rfl⟩ := mem_activity_of_isActivityBullet hr hs hb ha
      refine ⟨p.2, evidence_filter_eq hn hd hr hp, ?_, ?_⟩
      · obtain ⟨g, hg, hp⟩ := List.mem_flatMap.mp hp
        intro hnil
        have hids := (of_mem_renderedGroup hp).2
        rw [hnil] at hids
        obtain ⟨hone, hevents⟩ := nil_mem_evidenceIds_iff.mp hids
        exact hall g hg hone hevents
      · intro i hi
        obtain ⟨g, hg, hp⟩ := List.mem_flatMap.mp hp
        obtain ⟨e, he, hid⟩ := List.mem_map.mp
          (of_mem_evidenceIds (of_mem_renderedGroup hp).2 i hi)
        have hself := (inputGroups_subperm crates hn).subset (List.mem_flatMap.mpr ⟨g, hg, he⟩)
        obtain ⟨hin, hself⟩ := List.mem_filter.mp hself
        exact ⟨e, hin, hself, hid⟩
    · intro ev hev
      rw [(render_ok hr).2.2] at hev
      obtain ⟨p, hp, rfl⟩ := List.mem_map.mp hev
      obtain ⟨s, hs, hb, -⟩ := isActivityBullet_of_mem hn hd hr hp
      obtain ⟨g, -, hpg⟩ := List.mem_flatMap.mp hp
      refine ⟨p.1, ?_⟩
      rw [(of_mem_renderedGroup hpg).1]
      exact (distinct_iff_nodup_map.mpr (draftBullets_nodup hn hd hr)).filter_eq
        (List.mem_flatMap.mpr ⟨s, hs, hb⟩)

end Edges

/-! ### The groups of merge requests and meetings -/

/-- A text without a separator that is no dot is one part of a path. -/
theorem components_of_name {t : Text} (h0 : t ≠ []) (h1 : t ≠ ['.']) (h2 : t ≠ ['.', '.'])
    (hs : '/' ∉ t) : PathBuf.components ⟨t⟩ = [.normal t] := by
  have hsplit : t.splitOn '/' = [t] :=
    List.splitOnP_eq_singleton fun c hc => by
      rw [beq_eq_false_iff_ne]
      exact fun h => hs (h ▸ hc)
  have hhead : t.head? ≠ some '/' := fun h => hs (List.mem_of_head? h)
  have hname : PathComponent.ofName t = some (.normal t) := by
    rw [PathComponent.ofName, if_neg (not_or.mpr ⟨h0, h1⟩), if_neg h2]
  simp only [PathBuf.components, hsplit, hhead, List.head?_cons, Option.some.injEq, h1, if_false,
    List.nil_append, List.filterMap_cons, hname, List.filterMap_nil]

/-- Two artifacts that are no commit sets have one slot only when they have one id. -/
theorem id_eq_of_slot_eq {a b : Artifact} (ha : isCommitSet a = false) (hb : isCommitSet b = false)
    (h : slot a = slot b) : a.id = b.id := by
  have hparts : ∀ u : Uuid, PathBuf.components ⟨"__non_commit_set__::".toList ++ u.display⟩ =
      [.normal ("__non_commit_set__::".toList ++ u.display)] := by
    intro u
    refine components_of_name (by simp) (by simp) (by simp) ?_
    rw [List.mem_append, not_or]
    refine ⟨by decide, fun h => ?_⟩
    exact absurd (isUuidChar_of_mem_display h) (by decide)
  rw [slot_of_other ha, slot_of_other hb, hparts, hparts] at h
  simp only [Prod.mk.injEq, List.cons.injEq, PathComponent.normal.injEq, and_true] at h
  exact Uuid.display_injective (List.append_cancel_left h)

section Attested

variable {events : List ActivityEvent} {artifacts l r : List Artifact} {a : Artifact}
  {date : NaiveDate} {base : Crates}

theorem orphanGroup_events_ne_nil (crates : Crates) (date : NaiveDate)
    {orphans : List ActivityEvent} {bucket : OrphanKey × List ActivityEvent}
    (hb : bucket ∈ orphanByKey orphans) : (orphanGroup crates date bucket).events ≠ [] := by
  intro hnil
  have hperm := (sortEvents_perm bucket.2).symm
  rw [show sortEvents bucket.2 = [] from hnil] at hperm
  exact (orphanByKey_bucket hb).1 (List.perm_nil.mp hperm)

/-- The groups from that of an artifact on: they hold the events that no artifact
before it claims, and a group among them is that of a later artifact or has events. -/
theorem groupsOf_split (h : (events.map (·.id)).Nodup) :
    ∃ z rest, groupsOf base events (l ++ a :: r) date =
        (claimGroups l (indexById events)).1 ++ z :: rest ∧ z.artifact = a ∧
      (∀ x ∈ rest, x.artifact ∈ r ∨ x.events ≠ []) ∧
      ∀ e, e ∈ (z :: rest).flatMap (·.events) ↔ e ∈ events ∧ Unclaimed l e := by
  have hleft : (((claimGroups l (indexById events)).2).map (·.id)).Nodup := by
    rw [claimGroups_left]
    exact (indexById_nodup events).sublist (List.filter_sublist.map _)
  have hperm := flatMap_claimGroups_perm (a :: r) hleft
  have hmem : ∀ e, e ∈ (claimGroups l (indexById events)).2 ↔ e ∈ events ∧ Unclaimed l e := by
    intro e
    rw [claimGroups_left, List.mem_filter, (indexById_perm h).mem_iff, decide_eq_true_iff]
  have hgroups := @groupsOf_eq base events (l ++ a :: r) date
  rw [claimGroups_append, claimGroups_append_left] at hgroups
  generalize (claimGroups l (indexById events)).2 = left at hperm hmem hgroups
  rw [claimGroups_cons] at hperm hgroups
  have hart := map_artifact_claimGroups r (claimEvents a.payload.eventIds left).2
  generalize claimGroups r (claimEvents a.payload.eventIds left).2 = out at hperm hart hgroups
  refine ⟨⟨a, sortEvents (claimEvents a.payload.eventIds left).1⟩,
    out.1 ++ (orphanByKey out.2).map (orphanGroup base date), ?_, rfl, ?_, ?_⟩
  · rw [hgroups, List.append_assoc, List.cons_append]
  · intro x hx
    rcases List.mem_append.mp hx with hx | hx
    · left
      rw [← hart]
      exact List.mem_map_of_mem hx
    · obtain ⟨bucket, hb, rfl⟩ := List.mem_map.mp hx
      exact Or.inr (orphanGroup_events_ne_nil base date hb)
  · intro e
    rw [← List.cons_append, List.flatMap_append, (((flatMap_map_orphanGroup_perm _).trans
      (flatMap_orphanByKey_perm _)).append_left _).mem_iff, hperm.mem_iff, hmem]

/-- What comes out in the slot of a group that is no commit set, where the groups
behind it that can replace it have events. -/
theorem merged_events_eq_nil {before rest : List RolledUpArtifact} {v z : RolledUpArtifact}
    (hc : isCommitSet z.artifact = false) (hrest : ∀ x ∈ rest, groupSlot x = groupSlot z →
      isCommitSet x.artifact = false → x.events ≠ [])
    (hv : v ∈ mergeDuplicateCommitSets (before ++ z :: rest)) (hs : groupSlot v = groupSlot z) :
    v.events = [] ↔ ∀ x ∈ z :: rest, groupSlot x = groupSlot z → x.events = [] := by
  rw [merged_of_other hc hv hs, foldl_mergeInto_events_eq_nil ?_, List.forall_mem_cons]
  · simp only [forall_const, List.mem_filter, decide_eq_true_eq, and_imp]
  · intro x hx
    obtain ⟨hx, hxs⟩ := List.mem_filter.mp hx
    exact hrest x hx (of_decide_eq_true hxs)

/-- With distinct ids, the groups that can replace that of an artifact have events. -/
theorem events_ne_nil_of_other {rest : List RolledUpArtifact} {z : RolledUpArtifact}
    (ha : ((l ++ z.artifact :: r).map (·.id)).Nodup) (hc : isCommitSet z.artifact = false)
    (hrest : ∀ x ∈ rest, x.artifact ∈ r ∨ x.events ≠ []) :
    ∀ x ∈ rest, groupSlot x = groupSlot z → isCommitSet x.artifact = false → x.events ≠ [] := by
  intro x hx hs hcx
  refine (hrest x hx).resolve_left fun hr => ?_
  rw [List.map_append, List.map_cons] at ha
  refine (List.nodup_cons.mp (List.nodup_append.mp ha).2.1).1 ?_
  rw [← id_eq_of_slot_eq hcx hc hs]
  exact List.mem_map_of_mem hr

/-- A merge request or a meeting that comes out has events when every one that is
handed in keeps an event, and conversely. -/
theorem merged_events_iff (h : (events.map (·.id)).Nodup) (ha : (artifacts.map (·.id)).Nodup) :
    (∀ g ∈ mergeDuplicateCommitSets (groupsOf base events artifacts date),
        hasOneBullet g.artifact = true → g.events ≠ []) ↔
      ∀ l a r, artifacts = l ++ a :: r → hasOneBullet a = true →
        ∃ e ∈ events, Unclaimed l e ∧ ownSlot base artifacts date e = slot a := by
  have hl := @layout base events artifacts date h
  constructor
  · intro hall l a r hsplit hone
    subst hsplit
    obtain ⟨z, rest, hgroups, rfl, hrest, hevents⟩ :=
      @groupsOf_split events l r a date base h
    have hc := isCommitSet_of_hasOneBullet hone
    have hother := events_ne_nil_of_other ha hc hrest
    by_contra hnone
    -- otherwise nothing in the slot has events, so the group of the artifact comes out
    have hempty : ∀ x ∈ z :: rest, groupSlot x = groupSlot z → x.events = [] := by
      intro x hx hs
      refine List.eq_nil_iff_forall_not_mem.mpr fun e he => hnone ?_
      obtain ⟨hin, hu⟩ := (hevents e).mp (List.mem_flatMap.mpr ⟨x, hx, he⟩)
      have hx : x ∈ groupsOf base events (l ++ z.artifact :: r) date :=
        hgroups ▸ List.mem_append_right _ hx
      exact ⟨e, hin, hu, (hl.groupSlot_eq hx he).symm.trans hs⟩
    have hz : z ∈ groupsOf base events (l ++ z.artifact :: r) date :=
      hgroups ▸ List.mem_append_right _ List.mem_cons_self
    obtain ⟨v, hv, hs⟩ := exists_mem_mergeBy mergeInto_keeps hz
    rw [hgroups] at hall
    rw [hgroups] at hv
    refine hall v hv ?_ ((merged_events_eq_nil hc hother hv hs).mpr hempty)
    rw [merged_of_other hc hv hs, (foldl_mergeInto ?_ z).1]
    · exact hone
    · intro x hx
      obtain ⟨hx, hxs⟩ := List.mem_filter.mp hx
      have hxs := of_decide_eq_true hxs
      by_contra hcx
      exact hother x hx hxs (by simpa using hcx) (hempty x (List.mem_cons_of_mem _ hx) hxs)
  · intro hall v hv hone hnil
    obtain ⟨x, rest₀, hf, hvx⟩ := (mem_mergeBy_iff mergeInto_keeps).mp hv
    obtain ⟨z, hz, hart⟩ := foldl_mergeInto_artifact rest₀ x
    rw [← hf, List.mem_filter] at hz
    have hs : groupSlot v = groupSlot z := (of_decide_eq_true hz.2).symm
    rw [← hvx] at hart
    rw [hart] at hone
    have hc := isCommitSet_of_hasOneBullet hone
    rw [groupsOf_eq, List.mem_append] at hz
    rcases hz.1 with hz | hz
    · -- the group of an artifact, which keeps an event
      have hmem : z.artifact ∈ artifacts := by
        rw [← map_artifact_claimGroups artifacts (indexById events)]
        exact List.mem_map_of_mem hz
      obtain ⟨l, r, rfl⟩ := List.append_of_mem hmem
      obtain ⟨z', rest, hgroups, hz', hrest, hevents⟩ :=
        @groupsOf_split events l r z.artifact date base h
      have hslot : groupSlot z' = groupSlot z := by rw [groupSlot, hz', groupSlot]
      obtain ⟨e, he, hu, hown⟩ := hall l z.artifact r rfl hone
      obtain ⟨y, hy, hey⟩ := List.mem_flatMap.mp ((hevents e).mpr ⟨he, hu⟩)
      have hy' : y ∈ groupsOf base events (l ++ z.artifact :: r) date :=
        hgroups ▸ List.mem_append_right _ hy
      rw [← hz'] at hc ha
      rw [hgroups] at hv
      have hempty := (merged_events_eq_nil hc (events_ne_nil_of_other ha hc hrest) hv
        (hs.trans hslot.symm)).mp hnil y hy ?_
      · rw [hempty] at hey
        exact List.not_mem_nil hey
      · rw [hl.groupSlot_eq hy' hey, hown, hslot, groupSlot]
    · -- the group of a bucket, which has events
      obtain ⟨bl, br, hsplit⟩ := List.append_of_mem hz
      have hbucket : ∀ y ∈ z :: br, y.events ≠ [] := by
        intro y hy
        have hy : y ∈ (orphanByKey (claimGroups artifacts (indexById events)).2).map
            (orphanGroup base date) := hsplit ▸ List.mem_append_right _ hy
        obtain ⟨bucket, hb, rfl⟩ := List.mem_map.mp hy
        exact orphanGroup_events_ne_nil base date hb
      rw [groupsOf_eq, hsplit, ← List.append_assoc] at hv
      refine hbucket z List.mem_cons_self ((merged_events_eq_nil hc ?_ hv hs).mp hnil z
        List.mem_cons_self rfl)
      intro y hy _ _
      exact hbucket y (List.mem_cons_of_mem _ hy)

end Attested

/-! ### The result -/

/-- A draft with the known template is always rendered. -/
theorem exists_render (crates : RenderCrates) (ht : input.templateId = DEV_EOD_TEMPLATE_ID) :
    ∃ draft, render crates input = .ok draft :=
  ⟨_, if_neg (not_not.mpr ht)⟩

/-- **When the evidence is sound.** -/
theorem evidence_sound_iff (hn : (input.events.map (·.id)).Nodup)
    (ha : (input.artifacts.map (·.id)).Nodup) (hd : NoDigestCollision crates input)
    (hr : render crates input = .ok draft) :
    EvidenceSound crates input draft ↔ Attested crates input := by
  rw [evidenceSound_iff_events hn hd hr, Attested,
    ← merged_events_iff (filterEventsBySelf_nodup hn) ha]
  have hperm := inputGroups_perm crates input
  constructor
  · intro h g hg
    exact h g (hperm.mem_iff.mpr hg)
  · intro h g hg
    exact h g (hperm.mem_iff.mp hg)

/-! ### A meeting of the person, and one of somebody else -/

/-- The thirty-two bytes of a digest. -/
def digestBytes (n : ℕ) : List UInt8 :=
  (List.range 32).map fun i => UInt8.ofNat (n / 256 ^ (31 - i))

/-- A stand-up of half an hour with the given attendee. -/
def standupOf (attendee : Text) : ActivityEvent where
  id := 5
  sourceId := 2
  externalId := "standup".toList
  kind := .outlookMeetingAttended
  occurredAt := 0
  actor := ⟨attendee, none, some attendee⟩
  title := "Stand-up".toList
  body := none
  links := []
  entities := []
  parentExternalId := none
  metadata := .null
  privacy := .normal

def standupArtifact : Artifact where
  id := 7
  sourceId := 2
  kind := .outlookMeeting
  externalId := "standup".toList
  payload := .meeting "standup".toList "Stand-up".toList 0 (1800 * nanosPerSec) ⟨0⟩ [5]
  createdAt := 0

/-- A report for Ada with the stand-up handed in as an artifact. -/
def standupInput (attendee : Text) : ReportInput where
  id := 1
  date := ⟨0⟩
  templateId := DEV_EOD_TEMPLATE_ID
  templateVersion := DEV_EOD_TEMPLATE_VERSION
  personId := 1
  sourceIdentities := [⟨9, 1, none, .outlookUserObjectId, "ada".toList⟩]
  events := [standupOf attendee]
  artifacts := [standupArtifact]
  perSourceState := []
  perSourceState_nodup := List.nodup_nil
  sourceKinds := fun _ => some .outlook
  verboseMode := false
  generatedAt := 0
  renderOffset := .utc

/-- The SHA-256 of the keys of the two reports, and no text to escape. -/
def standupCrates : RenderCrates where
  toCrates := plainCrates
  htmlEscape t := t
  sha256 k :=
    if k = bulletKey DEV_EOD_TEMPLATE_ID ReportSection.meetings.id 7 [5] then
      digestBytes 0x23af2660af217b8b2af0fef93548e9a22fcb755a4e1abc1a9b8049de22f7b353
    else if k = bulletKey DEV_EOD_TEMPLATE_ID ReportSection.meetings.id 7 [] then
      digestBytes 0x9089aae8e372043a77cb3051dbc2f357324eaca44a1db33e45d15c276403bc08
    else if k = meetingsSummaryKey DEV_EOD_TEMPLATE_ID 30 then
      digestBytes 0xf82395546cc23c107d7610c7e1419e4307dce70fc3757e9b136ca70872b1f576
    else digestBytes 0x9765aac5151112f9df4cce3610b58e8fde0d881887bd6bc1204ff75c69088419

theorem inputGroups_own : inputGroups standupCrates (standupInput "ada".toList) =
    [⟨standupArtifact, [standupOf "ada".toList]⟩] := by
  have hself : filterEventsBySelf (standupInput "ada".toList) = [standupOf "ada".toList] :=
    List.filter_cons_of_pos (by decide)
  have hindex : indexById [standupOf "ada".toList] = [standupOf "ada".toList] := rfl
  have hclaim : claimGroups [standupArtifact] [standupOf "ada".toList] =
      ([⟨standupArtifact, [standupOf "ada".toList]⟩], []) := by
    rw [claimGroups_cons]
    simp [claimEvents, standupArtifact, ArtifactPayload.eventIds, standupOf, sortEvents]
  show rollUp plainCrates (filterEventsBySelf (standupInput "ada".toList)) [standupArtifact] ⟨0⟩ = _
  rw [rollUp, groupsOf_eq, hself, hindex, hclaim]
  exact List.mergeSort_singleton _

theorem inputGroups_foreign : inputGroups standupCrates (standupInput "bob".toList) =
    [⟨standupArtifact, []⟩] := by
  have hself : filterEventsBySelf (standupInput "bob".toList) = [] :=
    List.filter_cons_of_neg (by decide)
  have hclaim : claimGroups [standupArtifact] [] = ([⟨standupArtifact, []⟩], []) := by
    rw [claimGroups_cons]
    simp [claimEvents, standupArtifact, ArtifactPayload.eventIds, sortEvents]
  show rollUp plainCrates (filterEventsBySelf (standupInput "bob".toList)) [standupArtifact] ⟨0⟩ = _
  rw [rollUp, groupsOf_eq, hself, show indexById [] = [] from rfl, hclaim]
  exact List.mergeSort_singleton _

/-- The keys of the two reports have digests of their own. -/
theorem noDigestCollision_own : NoDigestCollision standupCrates (standupInput "ada".toList) := by
  unfold NoDigestCollision hashedKeys
  rw [inputGroups_own]
  decide +kernel

theorem noDigestCollision_foreign :
    NoDigestCollision standupCrates (standupInput "bob".toList) := by
  unfold NoDigestCollision hashedKeys
  rw [inputGroups_foreign]
  decide +kernel

/-- The stand-up of the person is shown with its event. -/
theorem own_meeting_sound : ∃ draft, render standupCrates (standupInput "ada".toList) = .ok draft ∧
    EvidenceSound standupCrates (standupInput "ada".toList) draft := by
  obtain ⟨draft, hr⟩ := @exists_render (standupInput "ada".toList) standupCrates rfl
  have hn : ((standupInput "ada".toList).events.map (·.id)).Nodup := List.nodup_singleton _
  have ha : ((standupInput "ada".toList).artifacts.map (·.id)).Nodup := List.nodup_singleton _
  refine ⟨draft, hr, (evidence_sound_iff hn ha noDigestCollision_own hr).mpr ?_⟩
  intro l a r hsplit _
  obtain ⟨rfl, h⟩ | ⟨as, rfl, h⟩ := List.cons_eq_append_iff.mp hsplit
  · obtain ⟨rfl, -⟩ := List.cons.inj h
    refine ⟨standupOf "ada".toList, List.mem_filter.mpr ⟨List.mem_singleton_self _, by decide⟩,
      fun b hb => absurd hb List.not_mem_nil, rfl⟩
  · exact absurd h (by simp)

/-- **A meeting whose event was filtered away** is shown, with no event behind it. -/
theorem meeting_without_evidence :
    ((standupInput "bob".toList).events.map (·.id)).Nodup ∧
      ((standupInput "bob".toList).artifacts.map (·.id)).Nodup ∧
        NoDigestCollision standupCrates (standupInput "bob".toList) ∧
          ∃ draft, render standupCrates (standupInput "bob".toList) = .ok draft ∧
            ¬EvidenceSound standupCrates (standupInput "bob".toList) draft := by
  have hn : ((standupInput "bob".toList).events.map (·.id)).Nodup := List.nodup_singleton _
  obtain ⟨draft, hr⟩ := @exists_render (standupInput "bob".toList) standupCrates rfl
  refine ⟨hn, List.nodup_singleton _, noDigestCollision_foreign, draft, hr, ?_⟩
  rw [evidenceSound_iff_events hn noDigestCollision_foreign hr, inputGroups_foreign]
  intro h
  exact h _ List.mem_cons_self rfl rfl

end Report
end Dayseam
