import Dayseam.Report.DraftShape
import Mathlib

/-!
# What verbose mode adds

Verbose mode writes the hash of a commit, the merge request that it went into and
what triggered a transition behind the text of a bullet.  The groups, the ids and the
evidence do not read the mode.

## Main definitions

* `ReportInput.inMode` — the input with the mode set.
* `bulletOrigins` — the events behind each bullet of a section.
* `VerboseAdds` — how the two drafts of one input compare.

## Main results

* `verbose_mode_only_adds` — **the verbose draft is the plain one with longer texts.**
-/

namespace Dayseam
namespace Report

/-! ### The two drafts of an input -/

/-- The input with verbose mode on or off. -/
def ReportInput.inMode (input : ReportInput) (verboseMode : Bool) : ReportInput where
  __ := input
  verboseMode := verboseMode

/-- The events that the bullets of a group are about: one event each, or all events of
a merge request or a meeting. -/
def eventsOf (group : RolledUpArtifact) : List (List ActivityEvent) :=
  match group.artifact.payload with
  | .mergeRequest .. | .meeting .. => [group.events]
  | _ => group.events.map fun e => [e]

/-- The events behind the bullets of a section, bullet by bullet. -/
def bulletOrigins (crates : RenderCrates) (input : ReportInput) (s : ReportSection) :
    List (List ActivityEvent) :=
  ((inputGroups crates input).filter fun g => ReportSection.ofGroup g = s).flatMap eventsOf

/-- The bullet with a text that goes on. -/
structure BulletAdds (plain verbose : RenderedBullet) : Prop where
  id : verbose.id = plain.id
  sourceKind : verbose.sourceKind = plain.sourceKind
  text : plain.text <+: verbose.text

/-- The section with bullets whose texts go on. -/
structure SectionAdds (plain verbose : RenderedSection) : Prop where
  id : verbose.id = plain.id
  title : verbose.title = plain.title
  bullets : List.Forall₂ BulletAdds plain.bullets verbose.bullets

/-- The drafts have the same sections, bullets and evidence, and differ in the tails of
texts that are not redacted. -/
structure VerboseAdds (crates : RenderCrates) (input : ReportInput) (plain verbose : ReportDraft) :
    Prop where
  sections : List.Forall₂ SectionAdds plain.sections verbose.sections
  evidence : verbose.evidence = plain.evidence
  /-- the edges list the events behind the bullets -/
  origins : plain.evidence.map (·.eventIds) =
    ((inputGroups crates input).flatMap eventsOf).map fun events => events.map (·.id)
  redacted : ∀ (s : ReportSection) (i : ℕ) (events : List ActivityEvent),
    (bulletOrigins crates input s)[i]? = some events →
      (∃ e ∈ events, e.privacy = .redactedPrivateRepo) →
        (bulletsUnder verbose s.id)[i]? = (bulletsUnder plain s.id)[i]?

variable {crates : RenderCrates} {input : ReportInput} {g : RolledUpArtifact}

/-- The edges are those of the bullets: they list the same events. -/
theorem evidenceIds_eq (g : RolledUpArtifact) :
    evidenceIds g = (eventsOf g).map fun events => events.map (·.id) := by
  unfold evidenceIds eventsOf
  cases g.artifact.payload with
  | mergeRequest | meeting => rfl
  | commitSet | jiraIssue | confluencePage =>
    dsimp only
    rw [List.map_map]
    rfl

theorem map_eventIds_activity (crates : RenderCrates) (input : ReportInput) :
    (activity crates input).map (·.2.eventIds) =
      ((inputGroups crates input).flatMap eventsOf).map fun events => events.map (·.id) := by
  rw [activity, List.map_flatMap, List.map_flatMap]
  refine List.flatMap_congr fun g _ => ?_
  have h := congrArg (List.map (·.2.2)) (map_renderedGroup crates input g)
  rw [List.map_map, List.map_map] at h
  rw [← evidenceIds_eq]
  exact h.trans (List.map_id _)

/-! ### The texts -/

theorem commitText_prefix (crates : RenderCrates) (repoPath : PathBuf) (e : ActivityEvent) :
    commitText crates repoPath e false <+: commitText crates repoPath e true := by
  by_cases hr : e.privacy = .redactedPrivateRepo
  · rw [commitText, commitText, if_pos hr, if_pos hr]
  · -- the headline comes first, and in plain mode nothing after it
    rw [commitText, commitText, if_neg hr, if_neg hr]
    show crates.htmlEscape (commitHeadline repoPath e) ++ [] <+:
      crates.htmlEscape (commitHeadline repoPath e) ++ _
    rw [List.append_nil]
    exact List.prefix_append _ _

theorem atlassianText_prefix (e : ActivityEvent) :
    atlassianText e false <+: atlassianText e true := by
  by_cases hr : e.privacy = .redactedPrivateRepo
  · rw [atlassianText, atlassianText, if_pos hr, if_pos hr]
  · rw [atlassianText, atlassianText, if_neg hr, if_neg hr]
    dsimp only
    rw [if_neg Bool.false_ne_true, if_pos rfl]
    cases triggeredBySuffix e with
    | none => exact List.prefix_refl _
    | some s => exact List.prefix_append _ _

theorem BulletAdds.refl (b : RenderedBullet) : BulletAdds b b := ⟨rfl, rfl, List.prefix_refl _⟩

/-! ### The bullets of a group -/

/-- A bullet in both modes, with its edges and the events that it is about. -/
structure Twin where
  events : List ActivityEvent
  plain : RenderedBullet × Evidence
  verbose : RenderedBullet × Evidence

structure Twin.Valid (t : Twin) : Prop where
  edge : t.verbose.2 = t.plain.2
  adds : BulletAdds t.plain.1 t.verbose.1
  redacted : (∃ e ∈ t.events, e.privacy = .redactedPrivateRepo) → t.verbose.1 = t.plain.1

/-- The bullets of a group in both modes, side by side. -/
theorem exists_twins (crates : RenderCrates) (input : ReportInput) (g : RolledUpArtifact) :
    ∃ twins : List Twin, twins.map (·.events) = eventsOf g ∧
      twins.map (·.plain) = renderedGroup crates (input.inMode false) g ∧
      twins.map (·.verbose) = renderedGroup crates (input.inMode true) g ∧
      ∀ t ∈ twins, t.Valid := by
  have hredacted {e : ActivityEvent} (h : ∃ e' ∈ [e], e'.privacy = .redactedPrivateRepo) :
      e.privacy = .redactedPrivateRepo := by
    simpa using h
  have hsame (events : List ActivityEvent) (p : RenderedBullet × Evidence) :
      ∀ t ∈ [Twin.mk events p p], t.Valid := by
    intro t ht
    rw [List.mem_singleton.mp ht]
    exact ⟨rfl, .refl _, fun _ => rfl⟩
  unfold renderedGroup renderGroup eventsOf
  cases g.artifact.payload with
  | commitSet repoPath date ids shas =>
    refine ⟨g.events.map fun e => ⟨[e], _, _⟩, ?_, List.map_map, List.map_map, ?_⟩
    · rw [List.map_map]
      rfl
    · intro t ht
      obtain ⟨e, -, rfl⟩ := List.mem_map.mp ht
      refine ⟨rfl, ⟨rfl, rfl, commitText_prefix crates repoPath e⟩, fun h => ?_⟩
      show RenderedBullet.mk _ (commitText crates repoPath e true) _ = ⟨_, commitText _ _ _ _, _⟩
      rw [commitText, commitText, if_pos (hredacted h), if_pos (hredacted h)]
      rfl
  | jiraIssue | confluencePage =>
    refine ⟨g.events.map fun e => ⟨[e], _, _⟩, ?_, List.map_map, List.map_map, ?_⟩
    · rw [List.map_map]
      rfl
    · intro t ht
      obtain ⟨e, -, rfl⟩ := List.mem_map.mp ht
      refine ⟨rfl, ⟨rfl, rfl, atlassianText_prefix e⟩, fun h => ?_⟩
      show RenderedBullet.mk _ (atlassianText e true) _ = ⟨_, atlassianText _ _, _⟩
      rw [atlassianText, atlassianText, if_pos (hredacted h), if_pos (hredacted h)]
      rfl
  | mergeRequest | meeting =>
    exact ⟨[⟨g.events, _, _⟩], rfl, rfl, rfl, hsame _ _⟩

/-- The bullets of a list of groups in both modes. -/
theorem exists_twins_flatMap (crates : RenderCrates) (input : ReportInput)
    (groups : List RolledUpArtifact) :
    ∃ twins : List Twin, twins.map (·.events) = groups.flatMap eventsOf ∧
      twins.map (·.plain) = groups.flatMap (renderedGroup crates (input.inMode false)) ∧
      twins.map (·.verbose) = groups.flatMap (renderedGroup crates (input.inMode true)) ∧
      ∀ t ∈ twins, t.Valid := by
  choose twins hevents hplain hverbose hvalid using exists_twins crates input
  refine ⟨groups.flatMap twins, ?_, ?_, ?_, ?_⟩
  · rw [List.map_flatMap, funext hevents]
  · rw [List.map_flatMap, funext hplain]
  · rw [List.map_flatMap, funext hverbose]
  · intro t ht
    obtain ⟨g, -, ht⟩ := List.mem_flatMap.mp ht
    exact hvalid g t ht

/-! ### The sections -/

/-- The bullets of the groups of a section in both modes. -/
theorem exists_twins_section (crates : RenderCrates) (input : ReportInput) (s : ReportSection) :
    ∃ twins : List Twin, twins.map (·.events) = bulletOrigins crates input s ∧
      twins.map (·.plain.1) = ownBullets crates (input.inMode false) s ∧
      twins.map (·.verbose.1) = ownBullets crates (input.inMode true) s ∧
      ∀ t ∈ twins, t.Valid := by
  obtain ⟨twins, hevents, hplain, hverbose, hvalid⟩ := exists_twins_flatMap crates input
    ((inputGroups crates input).filter fun g => ReportSection.ofGroup g = s)
  refine ⟨twins, hevents, ?_, ?_, hvalid⟩
  · have h := congrArg (List.map (·.1)) hplain
    rw [List.map_map, List.map_flatMap] at h
    exact h
  · have h := congrArg (List.map (·.1)) hverbose
    rw [List.map_map, List.map_flatMap] at h
    exact h

theorem forall₂_of_twins {twins : List Twin} (h : ∀ t ∈ twins, t.Valid) :
    List.Forall₂ BulletAdds (twins.map (·.plain.1)) (twins.map (·.verbose.1)) := by
  rw [List.forall₂_map_left_iff, List.forall₂_map_right_iff, List.forall₂_same]
  exact fun t ht => (h t ht).adds

theorem forall₂_refl (bullets : List RenderedBullet) : List.Forall₂ BulletAdds bullets bullets :=
  List.forall₂_same.mpr fun b _ => .refl b

/-- The total of the meetings does not read the mode. -/
theorem totalBullets_inMode (s : ReportSection) :
    totalBullets crates (input.inMode true) s = totalBullets crates (input.inMode false) s := by
  rw [totalBullets_eq, totalBullets_eq]
  rfl

theorem sectionBullets_adds (crates : RenderCrates) (input : ReportInput) (s : ReportSection) :
    List.Forall₂ BulletAdds
      (sectionBullets crates (input.inMode false) (inputGroups crates (input.inMode false)) s)
      (sectionBullets crates (input.inMode true) (inputGroups crates (input.inMode true)) s) := by
  obtain ⟨twins, -, hplain, hverbose, hvalid⟩ := exists_twins_section crates input s
  rw [sectionBullets_eq, sectionBullets_eq, ← hplain, ← hverbose, totalBullets_inMode]
  exact List.rel_append (forall₂_of_twins hvalid) (forall₂_refl _)

/-- Sections with bullets that go on are shown or left out together. -/
theorem forall₂_sectionOf {plain verbose : ReportSection → List RenderedBullet}
    (h : ∀ s, List.Forall₂ BulletAdds (plain s) (verbose s)) (sections : List ReportSection) :
    List.Forall₂ SectionAdds (sections.filterMap fun s => sectionOf (plain s) s)
      (sections.filterMap fun s => sectionOf (verbose s) s) := by
  induction sections with
  | nil => exact .nil
  | cons s sections ih =>
    have hlen := (h s).length_eq
    by_cases hs : plain s = []
    · have hs' : verbose s = [] := by
        rw [hs] at hlen
        exact List.length_eq_zero_iff.mp hlen.symm
      rw [List.filterMap_cons_none (by rw [sectionOf, if_pos hs]),
        List.filterMap_cons_none (by rw [sectionOf, if_pos hs'])]
      exact ih
    · have hs' : verbose s ≠ [] := by
        intro hnil
        rw [hnil] at hlen
        exact hs (List.length_eq_zero_iff.mp hlen)
      rw [List.filterMap_cons_some (by rw [sectionOf, if_neg hs]),
        List.filterMap_cons_some (by rw [sectionOf, if_neg hs'])]
      exact .cons ⟨rfl, rfl, h s⟩ ih

theorem activitySections_adds (crates : RenderCrates) (input : ReportInput) :
    List.Forall₂ SectionAdds (activitySections crates (input.inMode false))
      (activitySections crates (input.inMode true)) := by
  have hrefl (s : RenderedSection) : SectionAdds s s := ⟨rfl, rfl, forall₂_refl _⟩
  have hgroups (v : Bool) : inputGroups crates (input.inMode v) = inputGroups crates input := rfl
  unfold activitySections
  rw [hgroups, hgroups]
  dsimp only
  split_ifs
  · exact .cons (hrefl _) .nil
  · exact forall₂_sectionOf (sectionBullets_adds crates input) _

theorem evidence_inMode (crates : RenderCrates) (input : ReportInput) :
    (activity crates (input.inMode true)).map (·.2) =
      (activity crates (input.inMode false)).map (·.2) := by
  obtain ⟨twins, -, hplain, hverbose, hvalid⟩ :=
    exists_twins_flatMap crates input (inputGroups crates input)
  have hplain : twins.map (·.plain) = activity crates (input.inMode false) := hplain
  have hverbose : twins.map (·.verbose) = activity crates (input.inMode true) := hverbose
  rw [← hplain, ← hverbose, List.map_map, List.map_map]
  exact List.map_congr_left fun t ht => (hvalid t ht).edge

/-! ### The result -/

/-- The bullet of a redacted event is the same in both modes. -/
theorem redacted_inMode {plain verbose : ReportDraft}
    (hp : render crates (input.inMode false) = .ok plain)
    (hv : render crates (input.inMode true) = .ok verbose) {s : ReportSection} {i : ℕ}
    {events : List ActivityEvent} (hi : (bulletOrigins crates input s)[i]? = some events)
    (hr : ∃ e ∈ events, e.privacy = .redactedPrivateRepo) :
    (bulletsUnder verbose s.id)[i]? = (bulletsUnder plain s.id)[i]? := by
  obtain ⟨twins, hevents, hplain, hverbose, hvalid⟩ := exists_twins_section crates input s
  rw [← hevents, List.getElem?_map, Option.map_eq_some_iff] at hi
  obtain ⟨t, ht, rfl⟩ := hi
  obtain ⟨hlt, -⟩ := List.getElem?_eq_some_iff.mp ht
  have hmem : t ∈ twins := List.mem_of_getElem? ht
  -- the bullets of groups come first, so the place is that of the twin
  have hown (f : Twin → RenderedBullet) (rest : List RenderedBullet) :
      (twins.map f ++ rest)[i]? = some (f t) := by
    rw [List.getElem?_append_left (by rw [List.length_map]; exact hlt), List.getElem?_map, ht]
    rfl
  rw [bulletsUnder_eq hv, bulletsUnder_eq hp, ← hplain, ← hverbose, List.append_assoc,
    List.append_assoc, hown, hown, (hvalid t hmem).redacted hr]

/-- **The verbose draft is the plain one with longer texts.**  With an unknown template
both modes fail alike. -/
theorem verbose_mode_only_adds (crates : RenderCrates) (input : ReportInput) :
    (∃ plain verbose, render crates (input.inMode false) = .ok plain ∧
        render crates (input.inMode true) = .ok verbose ∧
          VerboseAdds crates input plain verbose) ∨
      input.templateId ≠ DEV_EOD_TEMPLATE_ID ∧ ∀ verboseMode,
        render crates (input.inMode verboseMode) = .error (.unknownTemplate input.templateId) := by
  by_cases ht : input.templateId = DEV_EOD_TEMPLATE_ID
  · obtain ⟨plain, hp⟩ := @exists_render (input.inMode false) crates ht
    obtain ⟨verbose, hv⟩ := @exists_render (input.inMode true) crates ht
    obtain ⟨-, hsp, hep⟩ := render_ok hp
    obtain ⟨-, hsv, hev⟩ := render_ok hv
    have hsync : renderSyncIssues crates (input.inMode true) =
        renderSyncIssues crates (input.inMode false) := rfl
    refine Or.inl ⟨plain, verbose, hp, hv, ?_, ?_, ?_, fun s i events => redacted_inMode hp hv⟩
    · rw [hsp, hsv, hsync]
      refine List.rel_append ?_ (activitySections_adds crates input)
      exact List.forall₂_same.mpr fun s _ => ⟨rfl, rfl, forall₂_refl _⟩
    · rw [hep, hev, evidence_inMode]
    · rw [hep, List.map_map]
      exact map_eventIds_activity crates (input.inMode false)
  · exact Or.inr ⟨ht, fun v => if_pos ht⟩

end Report
end Dayseam
