import Dayseam.Report.Evidence
import Dayseam.Report.Pipeline
import Dayseam.Report.RollupMap
import Mathlib

/-!
# Private commits

A commit that some source reports as private is shown as private work, whatever the
other sources report about it.  Its titles tell the report nothing.

## Main definitions

* `isCommitOf` — the events of a commit.
* `blur` — an event without what the title of the commit may tell.
* `Retitled` — lists that differ in the titles of the commit.

## Main results

* `blur_pipeline` — the passes carry the titles no further.
* `redacted_pipeline` — the commit stays private.
* `private_commits_hidden` — **a private commit is hidden.**
* `HiddenIn.text_eq` — the same along the ids of the bullets.
-/

namespace Dayseam
namespace Report

open KeyedMerge

variable {crates : RenderCrates} {input : ReportInput} {sha : Text} {a b e : ActivityEvent}
  {events events' : List ActivityEvent} {mrs : List MergeRequestArtifact} {g : RolledUpArtifact}

/-- An event of the commit. -/
def isCommitOf (sha : Text) (e : ActivityEvent) : Bool := isCommit e && e.externalId == sha

theorem isCommitOf_iff :
    isCommitOf sha e = true ↔ isCommit e = true ∧ e.externalId = sha := by
  rw [isCommitOf, Bool.and_eq_true, beq_iff_eq]

theorem kind_of_isCommitOf (h : isCommitOf sha e = true) : e.kind = .commitAuthored :=
  beq_iff_eq.mp (isCommitOf_iff.mp h).1

/-! ### What the title of a commit may tell -/

/-- Neither the title of the commit nor the issues that are read from it. -/
def blur (sha : Text) (e : ActivityEvent) : ActivityEvent :=
  if isCommitOf sha e then
    { e with title := [], entities := e.entities.filter fun ent => ent.kind != .jiraIssue }
  else e

theorem blur_of_commit (h : isCommitOf sha e = true) : blur sha e =
    { e with title := [], entities := e.entities.filter fun ent => ent.kind != .jiraIssue } :=
  if_pos h

theorem blur_of_other (h : isCommitOf sha e = false) : blur sha e = e := by
  rw [blur, h]
  rfl

/-- The event differs from its blur in the title and the entities only. -/
theorem blur_eq (sha : Text) (e : ActivityEvent) :
    ∃ title entities, blur sha e = { e with title := title, entities := entities } := by
  unfold blur
  split_ifs
  · exact ⟨_, _, rfl⟩
  · exact ⟨e.title, e.entities, rfl⟩

@[simp] theorem id_blur : (blur sha e).id = e.id := by
  obtain ⟨_, _, h⟩ := blur_eq sha e
  rw [h]

@[simp] theorem kind_blur : (blur sha e).kind = e.kind := by
  obtain ⟨_, _, h⟩ := blur_eq sha e
  rw [h]

@[simp] theorem externalId_blur : (blur sha e).externalId = e.externalId := by
  obtain ⟨_, _, h⟩ := blur_eq sha e
  rw [h]

@[simp] theorem occurredAt_blur : (blur sha e).occurredAt = e.occurredAt := by
  obtain ⟨_, _, h⟩ := blur_eq sha e
  rw [h]

@[simp] theorem privacy_blur : (blur sha e).privacy = e.privacy := by
  obtain ⟨_, _, h⟩ := blur_eq sha e
  rw [h]

@[simp] theorem isCommitOf_blur : isCommitOf sha (blur sha e) = isCommitOf sha e := by
  simp only [isCommitOf, isCommit, kind_blur, externalId_blur]

@[simp] theorem isCommit_blur : isCommit (blur sha e) = isCommit e := by
  simp only [isCommit, kind_blur]

/-- Entities of another kind than issues are not blurred. -/
theorem entity?_blur {kind : EntityKind} (h : kind ≠ .jiraIssue) :
    (blur sha e).entity? kind = e.entity? kind := by
  cases hc : isCommitOf sha e with
  | false => rw [blur_of_other hc]
  | true =>
    rw [blur_of_commit hc, ActivityEvent.entity?, ActivityEvent.entity?, List.find?_filter]
    congr 1
    funext ent
    by_cases hk : ent.kind = kind
    · simp [hk, h]
    · simp [hk]

/-! ### The passes -/

theorem unionNew_filter {α : Type} [DecidableEq α] (p : α → Bool) (xs ys : List α) :
    (unionNew xs ys).filter p = unionNew (xs.filter p) (ys.filter p) := by
  induction ys generalizing xs with
  | nil => rfl
  | cons y ys ih =>
    have hstep : unionNew xs (y :: ys) = unionNew (if y ∈ xs then xs else xs ++ [y]) ys := rfl
    rw [hstep, ih]
    by_cases hp : p y = true
    · have hmem : y ∈ xs.filter p ↔ y ∈ xs := by simp [List.mem_filter, hp]
      rw [List.filter_cons_of_pos hp]
      show _ = unionNew (if y ∈ xs.filter p then xs.filter p else xs.filter p ++ [y]) (ys.filter p)
      by_cases hy : y ∈ xs
      · rw [if_pos hy, if_pos (hmem.mpr hy)]
      · rw [if_neg hy, if_neg (mt hmem.mp hy), List.filter_append, List.filter_cons_of_pos hp,
          List.filter_nil]
    · rw [List.filter_cons_of_neg hp]
      split_ifs
      · rfl
      · rw [List.filter_append, List.filter_cons_of_neg hp, List.filter_nil, List.append_nil]

/-- The winner with what the loser adds. -/
def enriched (winner loser : ActivityEvent) : ActivityEvent := { winner with
  links := unionLinks winner.links loser.links
  entities := unionEntities winner.entities loser.entities
  privacy := louderPrivacy winner.privacy loser.privacy
  actor := mergeActors winner.actor loser.actor }

theorem mergeTwo_eq (a b : ActivityEvent) : mergeTwo a b =
    if bodyRank b ≤ bodyRank a ∧ pickAOnTie a b = true then enriched a b else enriched b a := by
  unfold mergeTwo
  split_ifs <;> rfl

/-- Two events of one commit are merged without their titles. -/
theorem blur_mergeTwo (ha : isCommit a = true) (hb : isCommit b = true)
    (h : a.externalId = b.externalId) :
    blur sha (mergeTwo a b) = mergeTwo (blur sha a) (blur sha b) := by
  obtain ⟨hm, hx⟩ := mergeTwo_kind_externalId ha hb h
  cases hc : isCommitOf sha b with
  | false =>
    have hother : b.externalId ≠ sha := fun hs => by
      rw [isCommitOf_iff.mpr ⟨hb, hs⟩] at hc
      exact nomatch hc
    have hca : isCommitOf sha a = false :=
      Bool.eq_false_iff.mpr fun hs => hother (h ▸ (isCommitOf_iff.mp hs).2)
    have hcm : isCommitOf sha (mergeTwo a b) = false :=
      Bool.eq_false_iff.mpr fun hs => hother (hx ▸ (isCommitOf_iff.mp hs).2)
    rw [blur_of_other hc, blur_of_other hca, blur_of_other hcm]
  | true =>
    have hs := (isCommitOf_iff.mp hc).2
    have hca : isCommitOf sha a = true := isCommitOf_iff.mpr ⟨ha, h.trans hs⟩
    have hcm : isCommitOf sha (mergeTwo a b) = true := isCommitOf_iff.mpr ⟨hm, hx.trans hs⟩
    have hentities : ∀ xs ys : List EntityRef,
        (unionEntities xs ys).filter (fun ent => ent.kind != .jiraIssue) =
          unionEntities (xs.filter fun ent => ent.kind != .jiraIssue)
            (ys.filter fun ent => ent.kind != .jiraIssue) := unionNew_filter _
    rw [blur_of_commit hc, blur_of_commit hca, blur_of_commit hcm, mergeTwo_eq, mergeTwo_eq]
    -- the choice of the winner reads the bodies and the sources
    by_cases hwin : bodyRank b ≤ bodyRank a ∧ pickAOnTie a b = true
    · rw [if_pos hwin, if_pos (by exact hwin)]
      simp only [enriched, hentities]
    · rw [if_neg hwin, if_neg (by exact hwin)]
      simp only [enriched, hentities]

theorem blur_dedup (sha : Text) (events : List ActivityEvent) :
    (dedupCommitAuthored events).map (blur sha) = dedupCommitAuthored (events.map (blur sha)) := by
  have hadd : ∀ (event : ActivityEvent), isCommit event = true → ∀ merged,
      (addCommit event merged).map (blur sha) =
        addCommit (blur sha event) (merged.map (blur sha)) := by
    intro event hevent merged
    induction merged with
    | nil => rfl
    | cons e merged ih =>
      rw [List.map_cons]
      unfold addCommit
      rw [isCommit_blur, externalId_blur, externalId_blur]
      split_ifs with h
      · rw [List.map_cons, blur_mergeTwo h.1 hevent h.2]
      · rw [List.map_cons, ih]
  suffices h : ∀ merged, (events.foldl dedupStep merged).map (blur sha) =
      (events.map (blur sha)).foldl dedupStep (merged.map (blur sha)) from h []
  induction events with
  | nil => exact fun _ => rfl
  | cons e events ih =>
    intro merged
    rw [List.foldl_cons, ih, List.map_cons, List.foldl_cons]
    congr 1
    unfold dedupStep
    rw [isCommit_blur]
    split_ifs with h
    · exact hadd e h merged
    · rw [List.map_append, List.map_cons, List.map_nil]

/-- What is read from the title of the commit is blurred with it. -/
theorem blur_extractTicketKeysOf (sha : Text) (e : ActivityEvent) :
    blur sha (extractTicketKeysOf e) = blur sha (extractTicketKeysOf (blur sha e)) := by
  cases hc : isCommitOf sha e with
  | false => rw [blur_of_other hc]
  | true =>
    have hkeys : ∀ e, isCommitOf sha e = true → blur sha (extractTicketKeysOf e) = blur sha e := by
      intro e hc
      obtain ⟨extra, hextra, heq⟩ := extractTicketKeysOf_eq e
      have hissues : extra.filter (fun ent => ent.kind != .jiraIssue) = [] :=
        List.filter_eq_nil_iff.mpr fun ent hent => by simp [hextra ent hent]
      rw [heq, blur_of_commit hc, blur_of_commit (by exact hc)]
      simp only [List.filter_append, hissues, List.append_nil]
    have hc' : isCommitOf sha (blur sha e) = true := by rw [isCommitOf_blur, hc]
    rw [hkeys e hc, hkeys _ hc', blur_of_commit hc', blur_of_commit hc]
    simp only [List.filter_filter, Bool.and_self]

theorem blur_extractTicketKeys (sha : Text) (events : List ActivityEvent) :
    (extractTicketKeys events).map (blur sha) =
      (extractTicketKeys (events.map (blur sha))).map (blur sha) := by
  simp only [extractTicketKeys, List.map_map]
  exact List.map_congr_left fun e _ => blur_extractTicketKeysOf sha e

/-- A pass that leaves the commit alone, and makes no commit, sees no blur. -/
theorem blur_comm {f : ActivityEvent → ActivityEvent}
    (hskip : ∀ e, isCommitOf sha e = true → f e = e)
    (hother : ∀ e, isCommitOf sha e = false → isCommitOf sha (f e) = false) (e : ActivityEvent) :
    blur sha (f e) = f (blur sha e) := by
  cases hc : isCommitOf sha e with
  | true => rw [hskip e hc, hskip _ (by rw [isCommitOf_blur, hc])]
  | false => rw [blur_of_other hc, blur_of_other (hother e hc)]

theorem blur_extractGithubPrUrls (sha : Text) (events : List ActivityEvent) :
    (extractGithubPrUrls events).map (blur sha) = extractGithubPrUrls (events.map (blur sha)) := by
  simp only [extractGithubPrUrls, List.map_map]
  refine List.map_congr_left fun e _ => ?_
  apply blur_comm
  · intro e hc
    exact if_neg (by simp [kind_of_isCommitOf hc])
  · intro e hc
    unfold extractGithubPrUrlsOf
    split_ifs
    · obtain ⟨extra, -, heq⟩ := addEntities_eq .gitHubPullRequest _ e
      rw [heq]
      exact hc
    · exact hc

/-- No commit triggers a status change. -/
theorem issueCandidates_blur (sha : Text) (events : List ActivityEvent) (issueKey : Text) :
    issueCandidates (events.map (blur sha)) issueKey = issueCandidates events issueKey := by
  unfold issueCandidates
  rw [List.filter_map, List.flatMap_map]
  simp only [Function.comp_def, kind_blur]
  refine List.flatMap_congr fun e he => ?_
  have hkind := (List.mem_filter.mp he).2
  have hc : isCommitOf sha e = false := Bool.eq_false_iff.mpr fun hc => by
    rw [kind_of_isCommitOf hc] at hkind
    exact nomatch hkind
  rw [blur_of_other hc]

theorem annotateTransitionOf_blur (sha : Text) (events : List ActivityEvent) :
    annotateTransitionOf (events.map (blur sha)) = annotateTransitionOf events := by
  funext e
  simp only [annotateTransitionOf, triggerOf, issueCandidates_blur]

theorem blur_annotateTransitionWithMr (sha : Text) (events : List ActivityEvent) :
    (annotateTransitionWithMr events).map (blur sha) =
      annotateTransitionWithMr (events.map (blur sha)) := by
  simp only [annotateTransitionWithMr, List.map_map, annotateTransitionOf_blur]
  refine List.map_congr_left fun e _ => ?_
  apply blur_comm
  · intro e hc
    exact if_neg (by simp [kind_of_isCommitOf hc])
  · intro e hc
    unfold annotateTransitionOf
    split_ifs
    · split
      · exact hc
      · exact hc
    · exact hc

theorem blur_annotateRolledIntoMr (sha : Text) (mrs : List MergeRequestArtifact)
    (events : List ActivityEvent) :
    (annotateRolledIntoMr mrs events).map (blur sha) =
      annotateRolledIntoMr mrs (events.map (blur sha)) := by
  simp only [annotateRolledIntoMr, List.map_map]
  refine List.map_congr_left fun e _ => ?_
  show blur sha (rolledIntoMrOf mrs e) = rolledIntoMrOf mrs (blur sha e)
  cases hc : isCommitOf sha e with
  | true =>
    rw [blur_of_commit hc]
    unfold rolledIntoMrOf
    dsimp only
    split_ifs
    · cases mrs.find? fun mr => decide (e.externalId ∈ mr.commitShas) with
      | some mr => exact blur_of_commit hc
      | none => exact blur_of_commit hc
    · exact blur_of_commit hc
  | false =>
    rw [blur_of_other hc]
    unfold rolledIntoMrOf
    split_ifs
    · split
      · exact blur_of_other hc
      · exact blur_of_other hc
    · exact blur_of_other hc

/-- **The passes carry the titles of the commit no further.** -/
theorem blur_pipeline (h : events.map (blur sha) = events'.map (blur sha))
    (mrs : List MergeRequestArtifact) :
    (pipeline events mrs).map (blur sha) = (pipeline events' mrs).map (blur sha) := by
  have hpass : ∀ l, (pipeline l mrs).map (blur sha) = annotateRolledIntoMr mrs
      (annotateTransitionWithMr (extractGithubPrUrls ((extractTicketKeys (dedupCommitAuthored
        (l.map (blur sha)))).map (blur sha)))) := by
    intro l
    rw [pipeline, blur_annotateRolledIntoMr, blur_annotateTransitionWithMr,
      blur_extractGithubPrUrls, blur_extractTicketKeys, blur_dedup]
  rw [hpass, hpass, h]

/-! ### The privacy of a commit -/

/-- A merged event is private when one of the merged events is. -/
theorem foldl_mergeTwo_privacy {rest : List ActivityEvent} {x : ActivityEvent}
    (h : ∃ z ∈ x :: rest, z.privacy = .redactedPrivateRepo) :
    (rest.foldl mergeTwo x).privacy = .redactedPrivateRepo := by
  induction rest generalizing x with
  | nil =>
    obtain ⟨z, hz, hp⟩ := h
    rw [List.mem_singleton.mp hz] at hp
    exact hp
  | cons y rest ih =>
    refine ih ?_
    obtain ⟨z, hz, hp⟩ := h
    rcases List.mem_cons.mp hz with rfl | hz
    · refine ⟨mergeTwo z y, List.mem_cons_self, ?_⟩
      rw [mergeTwo_privacy, hp]
      rfl
    · rcases List.mem_cons.mp hz with rfl | hz
      · refine ⟨mergeTwo x z, List.mem_cons_self, ?_⟩
        rw [mergeTwo_privacy, hp, louderPrivacy_comm]
        rfl
      · exact ⟨z, List.mem_cons_of_mem _ hz, hp⟩

theorem redacted_dedup
    (h : ∃ e ∈ events, isCommitOf sha e = true ∧ e.privacy = .redactedPrivateRepo) :
    ∀ e ∈ dedupCommitAuthored events, isCommitOf sha e = true →
      e.privacy = .redactedPrivateRepo := by
  obtain ⟨p, hp, hcp, hprivate⟩ := h
  intro e he hc
  have hin : e ∈ (dedupCommitAuthored events).filter isCommit :=
    List.mem_filter.mpr ⟨he, (isCommitOf_iff.mp hc).1⟩
  rw [filter_commits_dedup, mem_mergeBy_iff mergeTwo_keeps] at hin
  obtain ⟨x, rest, hfibre, rfl⟩ := hin
  refine foldl_mergeTwo_privacy ⟨p, ?_, hprivate⟩
  rw [← hfibre, List.mem_filter, List.mem_filter]
  refine ⟨⟨hp, (isCommitOf_iff.mp hcp).1⟩, decide_eq_true ?_⟩
  exact (isCommitOf_iff.mp hcp).2.trans (isCommitOf_iff.mp hc).2.symm

/-- What a pass keeps of every event. -/
def KeepsPrivacy (sha : Text) (f : ActivityEvent → ActivityEvent) : Prop :=
  ∀ e, isCommitOf sha (f e) = isCommitOf sha e ∧ (f e).privacy = e.privacy

theorem KeepsPrivacy.map {f : ActivityEvent → ActivityEvent} (hf : KeepsPrivacy sha f)
    (h : ∀ e ∈ events, isCommitOf sha e = true → e.privacy = .redactedPrivateRepo) :
    ∀ e ∈ events.map f, isCommitOf sha e = true → e.privacy = .redactedPrivateRepo := by
  intro e he hc
  obtain ⟨held, hheld, rfl⟩ := List.mem_map.mp he
  rw [(hf held).1] at hc
  rw [(hf held).2, h held hheld hc]

/-- **The commit stays private.** -/
theorem redacted_pipeline (mrs : List MergeRequestArtifact)
    (h : ∃ e ∈ events, isCommitOf sha e = true ∧ e.privacy = .redactedPrivateRepo) :
    ∀ e ∈ pipeline events mrs, isCommitOf sha e = true → e.privacy = .redactedPrivateRepo := by
  have hkeys : KeepsPrivacy sha extractTicketKeysOf := fun e => by
    obtain ⟨extra, -, heq⟩ := extractTicketKeysOf_eq e
    rw [heq]
    exact ⟨rfl, rfl⟩
  have hurls : KeepsPrivacy sha extractGithubPrUrlsOf := fun e => by
    unfold extractGithubPrUrlsOf
    split_ifs
    · obtain ⟨extra, -, heq⟩ := addEntities_eq .gitHubPullRequest _ e
      rw [heq]
      exact ⟨rfl, rfl⟩
    · exact ⟨rfl, rfl⟩
  have htransitions : ∀ all, KeepsPrivacy sha (annotateTransitionOf all) := fun all e => by
    unfold annotateTransitionOf
    split_ifs
    · split
      · exact ⟨rfl, rfl⟩
      · exact ⟨rfl, rfl⟩
    · exact ⟨rfl, rfl⟩
  have hmrs : KeepsPrivacy sha (rolledIntoMrOf mrs) := fun e => by
    unfold rolledIntoMrOf
    split_ifs
    · split
      · exact ⟨rfl, rfl⟩
      · exact ⟨rfl, rfl⟩
    · exact ⟨rfl, rfl⟩
  exact hmrs.map ((htransitions _).map (hurls.map (hkeys.map (redacted_dedup h))))

/-! ### The groups -/

theorem keepsRollup_blur (sha : Text) : KeepsRollup (blur sha) where
  id _ := id_blur
  externalId _ := externalId_blur
  occurredAt _ := occurredAt_blur
  orphanKey e := by
    cases hc : isCommitOf sha e with
    | false => rw [blur_of_other hc]
    | true =>
      have hrepo : ∀ e, isCommitOf sha e = true → orphanKey e = repoOrphanKey e := fun e hc => by
        unfold orphanKey
        rw [kind_of_isCommitOf hc]
      have hgroup : ∀ e, isCommitOf sha e = true →
          groupKeyFromEvent e = entityGroup e .repo .repo := fun e hc => by
        unfold groupKeyFromEvent
        rw [kind_of_isCommitOf hc]
      have hc' : isCommitOf sha (blur sha e) = true := by rw [isCommitOf_blur, hc]
      obtain ⟨title, entities, heq⟩ := blur_eq sha e
      have hsource : (blur sha e).sourceId = e.sourceId := by rw [heq]
      rw [hrepo _ hc', hrepo e hc]
      simp only [repoOrphanKey, eventDay, hsource, occurredAt_blur, hgroup _ hc', hgroup e hc,
        entityGroup, entity?_blur (show EntityKind.repo ≠ .jiraIssue by decide)]
  other e h := blur_of_other (Bool.eq_false_iff.mpr fun hc => by
    rw [orphanKey_of_commit (kind_of_isCommitOf hc)] at h
    exact nomatch h)

/-- A report over other events. -/
def ReportInput.over (input : ReportInput) (events : List ActivityEvent) : ReportInput :=
  { input with events := events }

theorem inputGroups_blur (crates : RenderCrates) (input : ReportInput) (sha : Text)
    (events : List ActivityEvent) :
    inputGroups crates (ReportInput.over input (events.map (blur sha))) =
      (inputGroups crates (ReportInput.over input events)).map (mapEvents (blur sha)) := by
  have hself : filterEventsBySelf (ReportInput.over input (events.map (blur sha))) =
      (filterEventsBySelf (ReportInput.over input events)).map (blur sha) := by
    unfold filterEventsBySelf ReportInput.over
    dsimp only
    rw [List.filter_map]
    refine congrArg _ (List.filter_congr fun e _ => ?_)
    obtain ⟨title, entities, heq⟩ := blur_eq sha e
    rw [Function.comp_apply, heq]
    rfl
  unfold inputGroups
  rw [hself]
  exact rollUp_map (keepsRollup_blur sha) _ _ _ _

/-! ### The bullets -/

/-- Every event of the commit in the group is private. -/
def Redacted (sha : Text) (g : RolledUpArtifact) : Prop :=
  ∀ e ∈ g.events, isCommitOf sha e = true → e.privacy = .redactedPrivateRepo

theorem redacted_inputGroups
    (h : ∀ e ∈ events, isCommitOf sha e = true → e.privacy = .redactedPrivateRepo) :
    ∀ g ∈ inputGroups crates (ReportInput.over input events), Redacted sha g := by
  intro g hg e he
  have hin := mem_of_mem_indexById (mem_indexById_of_mem_rollUp hg he)
  exact h e (List.mem_filter.mp hin).1

theorem commitText_blur (hr : isCommitOf sha e = true → e.privacy = .redactedPrivateRepo)
    (repoPath : PathBuf) (verboseMode : Bool) :
    commitText crates repoPath (blur sha e) verboseMode =
      commitText crates repoPath e verboseMode := by
  cases hc : isCommitOf sha e with
  | false => rw [blur_of_other hc]
  | true =>
    rw [blur_of_commit hc, commitText, commitText, if_pos (hr hc)]
    exact (if_pos (hr hc)).symm

theorem atlassianText_blur (hr : isCommitOf sha e = true → e.privacy = .redactedPrivateRepo)
    (verboseMode : Bool) :
    atlassianText (blur sha e) verboseMode = atlassianText e verboseMode := by
  cases hc : isCommitOf sha e with
  | false => rw [blur_of_other hc]
  | true =>
    rw [blur_of_commit hc, atlassianText, atlassianText, if_pos (hr hc)]
    exact (if_pos (hr hc)).symm

theorem ofGroup_blur (g : RolledUpArtifact) :
    ReportSection.ofGroup (mapEvents (blur sha) g) = ReportSection.ofGroup g := by
  have hunattached : ∀ e, ReportSection.isUnattached (blur sha e) =
      ReportSection.isUnattached e := fun e => by
    obtain ⟨_, _, heq⟩ := blur_eq sha e
    rw [heq]
    rfl
  unfold ReportSection.ofGroup mapEvents
  dsimp only
  rw [List.isEmpty_map, List.all_map]
  simp only [Function.comp_def, hunattached]

/-- The bullets of a group do not tell the titles of the commit. -/
theorem renderedGroup_blur (hr : Redacted sha g) :
    renderedGroup crates input (mapEvents (blur sha) g) = renderedGroup crates input g := by
  have hids : (g.events.map (blur sha)).map (·.id) = g.events.map (·.id) := by
    rw [List.map_map]
    exact List.map_congr_left fun e _ => id_blur
  unfold renderedGroup
  rw [ofGroup_blur]
  unfold renderGroup mapEvents
  dsimp only
  cases g.artifact.payload with
  | commitSet repoPath date ids shas =>
    dsimp only
    rw [List.map_map]
    refine List.map_congr_left fun e he => ?_
    simp only [Function.comp_apply, renderCommitBullet, id_blur, commitText_blur (hr e he)]
  | jiraIssue | confluencePage =>
    dsimp only
    rw [List.map_map]
    refine List.map_congr_left fun e he => ?_
    simp only [Function.comp_apply, renderAtlassianBullet, id_blur, atlassianText_blur (hr e he)]
  | mergeRequest => simp only [renderMrBullet, hids, List.length_map]
  | meeting => simp only [renderMeetingBullet, hids]

theorem buildSections_blur {groups : List RolledUpArtifact} (hr : ∀ g ∈ groups, Redacted sha g) :
    buildSections crates input (groups.map (mapEvents (blur sha))) =
      buildSections crates input groups := by
  have hsum : sumMeetingMinutes (groups.map (mapEvents (blur sha))) = sumMeetingMinutes groups := by
    unfold sumMeetingMinutes
    rw [List.filterMap_map]
    rfl
  have hsection : ∀ s, sectionBullets crates input (groups.map (mapEvents (blur sha))) s =
      sectionBullets crates input groups s := by
    intro s
    have hbullets : ((groups.map (mapEvents (blur sha))).filter fun g =>
          ReportSection.ofGroup g = s).flatMap (fun g =>
            (renderedGroup crates input g).map (·.1)) =
        (groups.filter fun g => ReportSection.ofGroup g = s).flatMap fun g =>
            (renderedGroup crates input g).map (·.1) := by
      rw [List.filter_map, List.flatMap_map]
      simp only [Function.comp_def, ofGroup_blur]
      refine List.flatMap_congr fun g hg => ?_
      rw [renderedGroup_blur (hr g (List.mem_filter.mp hg).1)]
    unfold sectionBullets
    rw [hsum, hbullets]
  unfold buildSections
  rw [List.flatMap_map, funext hsection]
  refine congrArg _ (List.flatMap_congr fun g hg => ?_)
  rw [renderedGroup_blur (hr g hg)]

/-! ### The result -/

/-- The sections and the evidence of a report. -/
def outcome (crates : RenderCrates) (input : ReportInput) :
    Except ReportError (List RenderedSection × List Evidence) :=
  (render crates input).map fun draft => (draft.sections, draft.evidence)

theorem outcome_of_template (crates : RenderCrates)
    (ht : input.templateId = DEV_EOD_TEMPLATE_ID) :
    outcome crates input = .ok ((renderSyncIssues crates input).toList ++
      activitySections crates input, (activity crates input).map (·.2)) := by
  obtain ⟨draft, hr⟩ := exists_render crates ht
  obtain ⟨-, hsections, hevidence⟩ := render_ok hr
  rw [outcome, hr, ← hsections, ← hevidence]
  rfl

theorem outcome_of_unknown (crates : RenderCrates)
    (ht : input.templateId ≠ DEV_EOD_TEMPLATE_ID) :
    outcome crates input = .error (.unknownTemplate input.templateId) := by
  rw [outcome, render, if_pos ht]
  rfl

/-- Reports over events that differ in the titles of a private commit are equal. -/
theorem outcome_blur
    (h : ∀ e ∈ events, isCommitOf sha e = true → e.privacy = .redactedPrivateRepo) :
    outcome crates (ReportInput.over input (events.map (blur sha))) =
      outcome crates (ReportInput.over input events) := by
  have hr := @redacted_inputGroups crates input sha events h
  by_cases ht : input.templateId = DEV_EOD_TEMPLATE_ID
  · have hactivity : activity crates (ReportInput.over input (events.map (blur sha))) =
        activity crates (ReportInput.over input events) := by
      rw [activity, inputGroups_blur, List.flatMap_map]
      exact List.flatMap_congr fun g hg => renderedGroup_blur (hr g hg)
    have hsections : activitySections crates (ReportInput.over input (events.map (blur sha))) =
        activitySections crates (ReportInput.over input events) := by
      unfold activitySections
      simp only [inputGroups_blur, List.map_eq_nil_iff]
      exact if_congr Iff.rfl rfl (congrArg (·.1) (buildSections_blur hr))
    have hoffered : ∀ l, (ReportInput.over input l).templateId = DEV_EOD_TEMPLATE_ID := fun _ => ht
    rw [outcome_of_template crates (hoffered _), outcome_of_template crates (hoffered _), hactivity,
      hsections]
    rfl
  · have hunknown : ∀ l, (ReportInput.over input l).templateId ≠ DEV_EOD_TEMPLATE_ID := fun _ => ht
    rw [outcome_of_unknown crates (hunknown _), outcome_of_unknown crates (hunknown _)]
    rfl

/-- The events that an edge names, as the rollup knows them: of two events with one id it
knows the later. -/
def namedEvents (input : ReportInput) (ev : Evidence) : List ActivityEvent :=
  (indexById (filterEventsBySelf input)).filter fun e => e.id ∈ ev.eventIds

/-- Every edge comes with a bullet, and the bullet of an edge that names an event of the
commit tells of private work. -/
def HiddenIn (sha : Text) (input : ReportInput) (draft : ReportDraft) : Prop :=
  ∃ pairs : List (RenderedBullet × Evidence), draft.evidence = pairs.map (·.2) ∧
    (pairs.map (·.1)).Subperm (draftBullets draft) ∧ ∀ p ∈ pairs, p.2.bulletId = p.1.id ∧
      ∀ e ∈ namedEvents input p.2, isCommitOf sha e = true → p.1.text = REDACTED_BULLET_TEXT

/-- Where the ids tell the bullets apart, every bullet that such an edge names is hidden. -/
theorem HiddenIn.text_eq {draft : ReportDraft} (h : HiddenIn sha input draft)
    (hn : (input.events.map (·.id)).Nodup) (hd : NoDigestCollision crates input)
    (hr : render crates input = .ok draft) {b : RenderedBullet} {ev : Evidence}
    (hb : b ∈ draftBullets draft) (hev : ev ∈ draft.evidence) (hid : ev.bulletId = b.id)
    (he : e ∈ namedEvents input ev) (hc : isCommitOf sha e = true) :
    b.text = REDACTED_BULLET_TEXT := by
  obtain ⟨pairs, hevidence, hsub, hpairs⟩ := h
  rw [hevidence] at hev
  obtain ⟨p, hp, rfl⟩ := List.mem_map.mp hev
  obtain ⟨hedge, htext⟩ := hpairs p hp
  have hin : p.1 ∈ draftBullets draft := hsub.subset (List.mem_map_of_mem hp)
  rw [List.inj_on_of_nodup_map (draftBullets_nodup hn hd hr) hb hin (hid.symm.trans hedge)]
  exact htext e he hc

/-- The lists differ in the titles of the commit only. -/
def Retitled (sha : Text) (events events' : List ActivityEvent) : Prop :=
  List.Forall₂ (fun e e' => e' = e ∨
    isCommitOf sha e = true ∧ ∃ title, e' = { e with title := title }) events events'

theorem Retitled.map_blur (h : Retitled sha events events') :
    events.map (blur sha) = events'.map (blur sha) := by
  induction h with
  | nil => rfl
  | @cons e _ _ _ he _ ih =>
    rw [List.map_cons, List.map_cons, ih]
    congr 1
    rcases he with rfl | ⟨hc, title, rfl⟩
    · rfl
    · have hc' : isCommitOf sha { e with title := title } = true := hc
      rw [blur_of_commit hc, blur_of_commit hc']

theorem redacted_of_map_blur (h : events.map (blur sha) = events'.map (blur sha))
    (hr : ∀ e ∈ events, isCommitOf sha e = true → e.privacy = .redactedPrivateRepo) :
    ∀ e ∈ events', isCommitOf sha e = true → e.privacy = .redactedPrivateRepo := by
  intro e he hc
  have hin : blur sha e ∈ events.map (blur sha) := h ▸ List.mem_map_of_mem he
  obtain ⟨e₀, he₀, heq⟩ := List.mem_map.mp hin
  have hc₀ : isCommitOf sha e₀ = true := by rw [← isCommitOf_blur, heq, isCommitOf_blur, hc]
  rw [← @privacy_blur sha, ← heq, privacy_blur, hr e₀ he₀ hc₀]

/-- The bullet of an edge that names an event of the commit. -/
theorem text_of_mem_renderedGroup (hg : g ∈ inputGroups crates input) (hset : CommitsInSets g)
    (hr : Redacted sha g) {p : RenderedBullet × Evidence} (hp : p ∈ renderedGroup crates input g)
    (he : e ∈ namedEvents input p.2) (hc : isCommitOf sha e = true) :
    p.1.text = REDACTED_BULLET_TEXT := by
  obtain ⟨hindex, hid⟩ := List.mem_filter.mp he
  have hid := of_decide_eq_true hid
  -- an event of the group with the id is the event that is named
  have hsame : ∀ e' ∈ g.events, e'.id = e.id → e' = e := fun e' he' heq =>
    List.inj_on_of_nodup_map (indexById_nodup _) (mem_indexById_of_mem_rollUp hg he') hindex heq
  unfold renderedGroup renderGroup at hp
  cases hpayload : g.artifact.payload with
  | commitSet repoPath date ids shas =>
    rw [hpayload] at hp
    obtain ⟨e', he', rfl⟩ := List.mem_map.mp hp
    obtain rfl := hsame e' he' (List.mem_singleton.mp hid).symm
    exact if_pos (hr e' he' hc)
  | jiraIssue | confluencePage =>
    rw [hpayload] at hp
    obtain ⟨e', he', rfl⟩ := List.mem_map.mp hp
    obtain rfl := hsame e' he' (List.mem_singleton.mp hid).symm
    exact if_pos (hr e' he' hc)
  | mergeRequest | meeting =>
    rw [hpayload] at hp
    obtain rfl := List.mem_singleton.mp hp
    obtain ⟨e', he', heq⟩ := List.mem_map.mp hid
    obtain rfl := hsame e' he' heq
    have hno : isCommitSet g.artifact = false := by rw [isCommitSet, commitSetKey, hpayload]; rfl
    exact absurd (kind_of_isCommitOf hc) (hset hno e' he')

theorem hiddenIn_of_redacted {draft : ReportDraft}
    (ha : ∀ a ∈ input.artifacts, isCommitSet a = true)
    (h : ∀ e ∈ events, isCommitOf sha e = true → e.privacy = .redactedPrivateRepo)
    (hd : render crates (ReportInput.over input events) = .ok draft) :
    HiddenIn sha (ReportInput.over input events) draft := by
  refine ⟨activity crates (ReportInput.over input events), (render_ok hd).2.2, ?_, ?_⟩
  · refine List.Subperm.trans (List.Sublist.subperm ?_) (draftBullets_perm hd).symm.subperm
    exact (List.sublist_append_left _ _).trans (List.sublist_append_right _ _)
  · intro p hp
    obtain ⟨g, hg, hp⟩ := List.mem_flatMap.mp hp
    refine ⟨(of_mem_renderedGroup hp).1, fun e he hc => ?_⟩
    exact text_of_mem_renderedGroup hg (commitsInSets_rollUp ha g hg)
      (redacted_inputGroups h g hg) hp he hc

/-- **A private commit is hidden**: its bullets tell of private work, and what is rendered
does not depend on its titles. -/
theorem private_commits_hidden (crates : RenderCrates) (input : ReportInput) (sha : Text)
    (events : List ActivityEvent) (mrs : List MergeRequestArtifact)
    (ha : ∀ a ∈ input.artifacts, isCommitSet a = true)
    (hp : ∃ e ∈ events, isCommitOf sha e = true ∧ e.privacy = .redactedPrivateRepo) :
    (∀ draft, render crates (ReportInput.over input (pipeline events mrs)) = .ok draft →
      HiddenIn sha (ReportInput.over input (pipeline events mrs)) draft) ∧
    ∀ events', Retitled sha events events' →
      outcome crates (ReportInput.over input (pipeline events' mrs)) =
        outcome crates (ReportInput.over input (pipeline events mrs)) := by
  have hr := redacted_pipeline mrs hp
  refine ⟨fun draft hd => hiddenIn_of_redacted ha hr hd, fun events' h => ?_⟩
  have hblur := blur_pipeline h.map_blur mrs
  rw [← outcome_blur hr, ← outcome_blur (redacted_of_map_blur hblur hr), hblur]

/-! ### A private copy and a public copy of one commit -/

/-- The event of a source about the commit `abc`. -/
def copyFrom (sourceId : Uuid) (title : Text) (privacy : Privacy) : ActivityEvent where
  id := sourceId
  sourceId := sourceId
  externalId := "abc".toList
  kind := .commitAuthored
  occurredAt := 0
  actor := ⟨"Ada".toList, none, some "ada".toList⟩
  title := title
  body := none
  links := []
  entities := [⟨.repo, "/home/ada/engine".toList, none⟩]
  parentExternalId := none
  metadata := .null
  privacy := privacy

/-- The public copy does not uncover the private one. -/
theorem public_copy_hidden :
    let events := [copyFrom 1 "CAR-7: the deal".toList .redactedPrivateRepo,
      copyFrom 2 "CAR-7: the deal".toList .normal]
    let other := [copyFrom 1 "wip".toList .redactedPrivateRepo, copyFrom 2 "wip".toList .normal]
    let input := { standupInput "ada".toList with artifacts := [] }
    (∃ draft, render standupCrates (ReportInput.over input (pipeline events [])) = .ok draft ∧
      HiddenIn "abc".toList (ReportInput.over input (pipeline events [])) draft) ∧
    outcome standupCrates (ReportInput.over input (pipeline other [])) =
      outcome standupCrates (ReportInput.over input (pipeline events [])) := by
  intro events other input
  obtain ⟨hhidden, hsame⟩ := private_commits_hidden standupCrates input "abc".toList events []
    (fun _ ha => absurd ha List.not_mem_nil) ⟨_, List.mem_cons_self, rfl, rfl⟩
  obtain ⟨draft, hd⟩ :=
    @exists_render (ReportInput.over input (pipeline events [])) standupCrates rfl
  refine ⟨⟨draft, hd, hhidden draft hd⟩, hsame other ?_⟩
  exact .cons (Or.inr ⟨rfl, _, rfl⟩) (.cons (Or.inr ⟨rfl, _, rfl⟩) .nil)

end Report
end Dayseam
