import Dayseam.Report.DedupOrder
import Dayseam.Report.Pipeline
import Mathlib

/-!
# What the passes change, and that they change it once

The passes before the rollup read what the passes before them wrote.  They add entities
and set parents, and neither what they read in the texts nor what they look up depends on
what a second run could change.

## Main definitions

* `Fresh` — entities that are not there yet.
* `Enriched` — an event behind the passes, against the event before them.
* `grow`, `settle` — the passes on one event: those that add entities, those that set the
  parent.

## Main results

* `pipeline_eq` — the passes, event by event.
* `grow_grow`, `settle_settle` — a second run adds nothing.
* `pipeline_idempotent_framed` — **the passes run once, and change no more than this.**
-/

namespace Dayseam
namespace Report

variable {e d : ActivityEvent} {events all all' : List ActivityEvent}
  {mrs : List MergeRequestArtifact} {kind : EntityKind} {refs : List (Text × Option Text)}

/-! ### Entities that are added -/

/-- What an entity is found by. -/
def entityKey (ent : EntityRef) : EntityKind × Text := (ent.kind, ent.externalId)

/-- None of the entities is there yet, and none is added twice. -/
structure Fresh (held extra : List EntityRef) : Prop where
  nodup : (extra.map entityKey).Nodup
  new : ∀ ent ∈ extra, entityKey ent ∉ held.map entityKey

theorem Fresh.nil (held : List EntityRef) : Fresh held [] :=
  ⟨List.nodup_nil, fun _ h => absurd h List.not_mem_nil⟩

/-- Entities that are added after others. -/
theorem Fresh.append {held a b : List EntityRef} (ha : Fresh held a) (hb : Fresh (held ++ a) b) :
    Fresh held (a ++ b) := by
  refine ⟨?_, List.forall_mem_append.mpr ⟨ha.new, fun ent hent hm => ?_⟩⟩
  · rw [List.map_append, List.nodup_append]
    refine ⟨ha.nodup, hb.nodup, fun k hk k' hk' heq => ?_⟩
    obtain ⟨ent, hent, rfl⟩ := List.mem_map.mp hk'
    apply hb.new ent hent
    rw [List.map_append, ← heq]
    exact List.mem_append_right _ hk
  · apply hb.new ent hent
    rw [List.map_append]
    exact List.mem_append_left _ hm

/-- The event has an entity of the kind for each of the texts. -/
def Holds (kind : EntityKind) (refs : List (Text × Option Text)) (entities : List EntityRef) :
    Prop := ∀ ref ∈ refs, (kind, ref.1) ∈ entities.map entityKey

theorem any_entity_iff {entities : List EntityRef} {id : Text} :
    (entities.any fun ent => ent.kind == kind && ent.externalId == id) = true ↔
      (kind, id) ∈ entities.map entityKey := by
  rw [List.any_eq_true, List.mem_map]
  simp only [Bool.and_eq_true, beq_iff_eq, entityKey, Prod.mk.injEq]

theorem addEntities_cons (ref : Text × Option Text) : addEntities kind (ref :: refs) e =
    addEntities kind refs (if (kind, ref.1) ∈ e.entities.map entityKey then e
      else { e with entities := e.entities ++ [⟨kind, ref.1, ref.2⟩] }) := by
  unfold addEntities
  rw [List.foldl_cons, if_congr any_entity_iff rfl rfl]

/-- **New entities are added behind those that are there**, one for each of the texts. -/
theorem addEntities_spec (kind : EntityKind) (refs : List (Text × Option Text))
    (e : ActivityEvent) : ∃ extra, addEntities kind refs e =
      { e with entities := e.entities ++ extra } ∧ Fresh e.entities extra ∧
        (∀ ent ∈ extra, ent.kind = kind) ∧ Holds kind refs (e.entities ++ extra) := by
  induction refs generalizing e with
  | nil =>
    refine ⟨[], ?_, .nil _, fun _ h => absurd h List.not_mem_nil, fun _ h => ?_⟩
    swap
    · exact absurd h List.not_mem_nil
    rw [List.append_nil]
    rfl
  | cons ref refs ih =>
    rw [addEntities_cons]
    split_ifs with hheld
    · obtain ⟨extra, heq, hfresh, hkind, hholds⟩ := ih e
      refine ⟨extra, heq, hfresh, hkind, List.forall_mem_cons.mpr ⟨?_, hholds⟩⟩
      rw [List.map_append]
      exact List.mem_append_left _ hheld
    · obtain ⟨extra, heq, hfresh, hkind, hholds⟩ :=
        ih { e with entities := e.entities ++ [⟨kind, ref.1, ref.2⟩] }
      have hone : Fresh e.entities [⟨kind, ref.1, ref.2⟩] :=
        ⟨List.pairwise_singleton _ _, fun ent hent => by
          rw [List.mem_singleton.mp hent]
          exact hheld⟩
      rw [List.append_assoc] at heq hholds
      refine ⟨_, heq, hone.append hfresh, List.forall_mem_cons.mpr ⟨rfl, hkind⟩,
        List.forall_mem_cons.mpr ⟨?_, hholds⟩⟩
      simp [entityKey]

/-- Entities that are there are not added. -/
theorem addEntities_of_holds (h : Holds kind refs e.entities) : addEntities kind refs e = e := by
  induction refs with
  | nil => rfl
  | cons ref refs ih =>
    rw [addEntities_cons, if_pos (h ref List.mem_cons_self)]
    exact ih fun ref href => h ref (List.mem_cons_of_mem _ href)

theorem Holds.append {entities : List EntityRef} (h : Holds kind refs entities)
    (extra : List EntityRef) : Holds kind refs (entities ++ extra) := by
  intro ref href
  rw [List.map_append]
  exact List.mem_append_left _ (h ref href)

/-! ### The passes on one event -/

/-- The passes that read the texts of the event. -/
def grow (e : ActivityEvent) : ActivityEvent := extractGithubPrUrlsOf (extractTicketKeysOf e)

/-- The passes that set its parent. -/
def settle (mrs : List MergeRequestArtifact) (all : List ActivityEvent) (e : ActivityEvent) :
    ActivityEvent := rolledIntoMrOf mrs (annotateTransitionOf all e)

/-- **The passes, event by event**, behind the deduplication. -/
theorem pipeline_eq (events : List ActivityEvent) (mrs : List MergeRequestArtifact) :
    pipeline events mrs = ((dedupCommitAuthored events).map grow).map
      (settle mrs ((dedupCommitAuthored events).map grow)) := by
  have hgrow : extractGithubPrUrls (extractTicketKeys (dedupCommitAuthored events)) =
      (dedupCommitAuthored events).map grow := List.map_map
  rw [pipeline, hgrow]
  exact List.map_map

/-- The texts that the pass adds entities for. -/
def ticketRefs (e : ActivityEvent) : List (Text × Option Text) :=
  if (ticketKeys e).length ≤ MAX_TICKET_KEYS_PER_EVENT then
    (ticketKeys e).map fun key => (key, none)
  else []

def pullRequestRefs (e : ActivityEvent) : List (Text × Option Text) :=
  if e.kind = .mrOpened ∨ e.kind = .mrMerged then
    (((scannedTexts e).flatMap scanGithubPrUrls).mergeSort fun a b =>
      decide (a.1 ≤ b.1)).destutter fun a b => a.1 ≠ b.1
  else []

theorem extractTicketKeysOf_refs (e : ActivityEvent) :
    extractTicketKeysOf e = addEntities .jiraIssue (ticketRefs e) e := by
  unfold extractTicketKeysOf ticketRefs
  split_ifs
  · rfl
  · rfl

theorem extractGithubPrUrlsOf_refs (e : ActivityEvent) :
    extractGithubPrUrlsOf e = addEntities .gitHubPullRequest (pullRequestRefs e) e := by
  unfold extractGithubPrUrlsOf pullRequestRefs
  split_ifs
  · rfl
  · rfl

/-- The event with other entities and another parent. -/
def reworked (e : ActivityEvent) (entities : List EntityRef) (parent : Option Text) :
    ActivityEvent := { e with entities := entities, parentExternalId := parent }

/-- Neither the entities nor the parent are read. -/
theorem ticketRefs_reworked (entities : List EntityRef) (parent : Option Text) :
    ticketRefs (reworked e entities parent) = ticketRefs e := rfl

theorem pullRequestRefs_reworked (entities : List EntityRef) (parent : Option Text) :
    pullRequestRefs (reworked e entities parent) = pullRequestRefs e := rfl

/-- What the passes add to an event. -/
theorem grow_spec (e : ActivityEvent) : ∃ extra, grow e =
    reworked e (e.entities ++ extra) e.parentExternalId ∧ Fresh e.entities extra ∧
      (∀ ent ∈ extra, ent.kind = .jiraIssue ∨ ent.kind = .gitHubPullRequest) ∧
        Holds .jiraIssue (ticketRefs e) (e.entities ++ extra) ∧
          Holds .gitHubPullRequest (pullRequestRefs e) (e.entities ++ extra) := by
  obtain ⟨issues, hissues, hfresh, hkind, hholds⟩ :=
    addEntities_spec .jiraIssue (ticketRefs e) e
  obtain ⟨requests, hrequests, hfresh', hkind', hholds'⟩ := addEntities_spec .gitHubPullRequest
    (pullRequestRefs e) (reworked e (e.entities ++ issues) e.parentExternalId)
  -- the second pass reads the same texts, and adds behind the issues of the first
  refine ⟨issues ++ requests, ?_, hfresh.append hfresh', ?_, ?_, ?_⟩
  · rw [grow, extractTicketKeysOf_refs, hissues, extractGithubPrUrlsOf_refs]
    show addEntities _ (pullRequestRefs e)
      (reworked e (e.entities ++ issues) e.parentExternalId) = _
    rw [hrequests, ← List.append_assoc]
    rfl
  · intro ent hent
    exact (List.mem_append.mp hent).imp (hkind ent) (hkind' ent)
  · rw [← List.append_assoc]
    exact hholds.append requests
  · rw [← List.append_assoc]
    exact hholds'

/-- **A second run adds nothing**, whatever parent was set. -/
theorem grow_grow (e : ActivityEvent) (parent : Option Text) :
    grow { grow e with parentExternalId := parent } =
      { grow e with parentExternalId := parent } := by
  obtain ⟨extra, hgrow, -, -, hissues, hrequests⟩ := grow_spec e
  rw [hgrow]
  show grow (reworked e (e.entities ++ extra) parent) = reworked e (e.entities ++ extra) parent
  rw [grow, extractTicketKeysOf_refs, ticketRefs_reworked,
    addEntities_of_holds (by exact hissues), extractGithubPrUrlsOf_refs, pullRequestRefs_reworked,
    addEntities_of_holds (by exact hrequests)]

/-! ### Parents -/

/-- What the passes may do to the parent of an event: set that of a status change, and that
of a commit without one. -/
def ParentFrame (e : ActivityEvent) (parent : Option Text) : Prop :=
  parent = e.parentExternalId ∨ parent ≠ none ∧
    (e.kind = .jiraIssueTransitioned ∨ e.kind = .commitAuthored ∧ e.parentExternalId = none)

/-- The parent of a status change, from the request that triggered it. -/
def transitionParent (all : List ActivityEvent) (e : ActivityEvent) : Option Text :=
  if e.kind = .jiraIssueTransitioned then
    Option.or (((e.entity? .jiraIssue).bind fun issue => triggerOf all e issue.externalId).map
      MrCandidate.externalId) e.parentExternalId
  else e.parentExternalId

/-- The parent of a commit, from the request that holds it. -/
def rolledParent (mrs : List MergeRequestArtifact) (e : ActivityEvent) : Option Text :=
  if e.kind = .commitAuthored then
    Option.or e.parentExternalId
      ((mrs.find? fun mr => decide (e.externalId ∈ mr.commitShas)).map
        MergeRequestArtifact.externalId)
  else e.parentExternalId

theorem annotateTransitionOf_eq (all : List ActivityEvent) (e : ActivityEvent) :
    annotateTransitionOf all e = { e with parentExternalId := transitionParent all e } := by
  unfold annotateTransitionOf transitionParent
  by_cases hkind : e.kind = .jiraIssueTransitioned
  · rw [if_pos hkind, if_pos hkind]
    split
    · next c hc => rw [hc]; rfl
    · next hc => rw [hc]; rfl
  · rw [if_neg hkind, if_neg hkind]

theorem rolledIntoMrOf_eq (mrs : List MergeRequestArtifact) (e : ActivityEvent) :
    rolledIntoMrOf mrs e = { e with parentExternalId := rolledParent mrs e } := by
  unfold rolledIntoMrOf rolledParent
  by_cases hkind : e.kind = .commitAuthored
  · rw [if_pos hkind]
    cases hparent : e.parentExternalId with
    | some parent =>
      rw [if_neg fun h => nomatch h.2]
      show e = { e with parentExternalId := some parent }
      rw [← hparent]
    | none =>
      rw [if_pos ⟨hkind, rfl⟩, Option.none_or]
      split
      · next mr hmr => rw [hmr]; rfl
      · next hmr =>
        rw [hmr]
        show e = { e with parentExternalId := none }
        rw [← hparent]
  · rw [if_neg fun h => hkind h.1, if_neg hkind]

/-- The parent behind the passes. -/
def settledParent (mrs : List MergeRequestArtifact) (all : List ActivityEvent)
    (e : ActivityEvent) : Option Text :=
  rolledParent mrs { e with parentExternalId := transitionParent all e }

theorem settle_eq (mrs : List MergeRequestArtifact) (all : List ActivityEvent)
    (e : ActivityEvent) :
    settle mrs all e = { e with parentExternalId := settledParent mrs all e } := by
  rw [settle, rolledIntoMrOf_eq, annotateTransitionOf_eq]
  rfl

theorem settledParent_of_transition (h : e.kind = .jiraIssueTransitioned) :
    settledParent mrs all e = transitionParent all e := by
  have hcommit : e.kind ≠ .commitAuthored := fun hc => nomatch h.symm.trans hc
  unfold settledParent rolledParent
  rw [if_neg hcommit]

theorem settledParent_of_other (h : e.kind ≠ .jiraIssueTransitioned) :
    settledParent mrs all e = rolledParent mrs e := by
  have hparent : transitionParent all e = e.parentExternalId := if_neg h
  unfold settledParent
  rw [hparent]

theorem parentFrame_settledParent (mrs : List MergeRequestArtifact) (all : List ActivityEvent)
    (e : ActivityEvent) : ParentFrame e (settledParent mrs all e) := by
  by_cases htransition : e.kind = .jiraIssueTransitioned
  · rw [settledParent_of_transition htransition, transitionParent, if_pos htransition]
    cases (e.entity? .jiraIssue).bind fun issue => triggerOf all e issue.externalId with
    | none => exact Or.inl rfl
    | some c => exact Or.inr ⟨Option.some_ne_none _, Or.inl htransition⟩
  · rw [settledParent_of_other htransition, rolledParent]
    by_cases hcommit : e.kind = .commitAuthored
    · rw [if_pos hcommit]
      cases hparent : e.parentExternalId with
      | some parent => exact Or.inl hparent.symm
      | none =>
        rw [Option.none_or]
        cases mrs.find? fun mr => decide (e.externalId ∈ mr.commitShas) with
        | none => exact Or.inl hparent.symm
        | some mr => exact Or.inr ⟨Option.some_ne_none _, Or.inr ⟨hcommit, hparent⟩⟩
    · rw [if_neg hcommit]
      exact Or.inl rfl

/-- The parents of the events are not looked at for a trigger. -/
theorem triggerOf_reparented {parentOf : ActivityEvent → Option Text} (issueKey : Text) :
    triggerOf (all.map fun d => { d with parentExternalId := parentOf d }) e issueKey =
      triggerOf all e issueKey := by
  have hcandidates : issueCandidates
      (all.map fun d => { d with parentExternalId := parentOf d }) issueKey =
        issueCandidates all issueKey := by
    unfold issueCandidates
    rw [List.filter_map, List.flatMap_map]
    rfl
  unfold triggerOf
  rw [hcandidates]

/-- **A second run sets no parent**: a status change finds the trigger that it found, and a
commit keeps its parent. -/
theorem settle_settle (mrs : List MergeRequestArtifact) (all : List ActivityEvent)
    (e : ActivityEvent) :
    settle mrs (all.map (settle mrs all)) (settle mrs all e) = settle mrs all e := by
  have hmap : all.map (settle mrs all) =
      all.map fun d => { d with parentExternalId := settledParent mrs all d } :=
    List.map_congr_left fun d _ => settle_eq mrs all d
  have htrigger : ∀ issueKey, triggerOf (all.map (settle mrs all)) e issueKey =
      triggerOf all e issueKey := fun issueKey => by rw [hmap, triggerOf_reparented]
  rw [settle_eq mrs all e, settle_eq]
  show ({ e with parentExternalId := _ } : ActivityEvent) = { e with parentExternalId := _ }
  congr 1
  by_cases htransition : e.kind = .jiraIssueTransitioned
  · -- the trigger that is found is the one that was
    rw [settledParent_of_transition (by exact htransition), settledParent_of_transition htransition]
    unfold transitionParent
    rw [if_pos htransition, if_pos (by exact htransition)]
    show Option.or (((e.entity? .jiraIssue).bind fun issue =>
      triggerOf (all.map (settle mrs all)) e issue.externalId).map MrCandidate.externalId) _ = _
    simp only [htrigger]
    rw [← Option.or_assoc, Option.or_self]
  · -- what has a parent keeps it, and what has none finds none
    rw [settledParent_of_other (by exact htransition), settledParent_of_other htransition]
    unfold rolledParent
    dsimp only
    split_ifs
    · rw [Option.or_assoc, Option.or_self]
    · rfl

/-! ### All passes -/

theorem addCommit_of_new (h : ∀ d ∈ events, isCommit d = true → d.externalId ≠ e.externalId) :
    addCommit e events = events ++ [e] := by
  induction events with
  | nil => rfl
  | cons d events ih =>
    have hd : ¬(isCommit d = true ∧ d.externalId = e.externalId) := fun hc =>
      h d List.mem_cons_self hc.1 hc.2
    rw [addCommit, if_neg hd, ih fun d hd => h d (List.mem_cons_of_mem _ hd)]
    rfl

/-- Commits with distinct SHAs are left alone. -/
theorem dedup_of_distinct (h : ((events.filter isCommit).map (·.externalId)).Nodup) :
    dedupCommitAuthored events = events := by
  induction events using List.reverseRecOn with
  | nil => rfl
  | append_singleton events e ih =>
    rw [List.filter_append, List.map_append, List.nodup_append] at h
    have hfold : dedupCommitAuthored (events ++ [e]) =
        dedupStep (dedupCommitAuthored events) e := List.foldl_append
    rw [hfold, ih h.1, dedupStep]
    split_ifs with hcommit
    · -- no commit before it has its SHA
      refine addCommit_of_new fun d hd hdc heq => ?_
      refine h.2.2 _ (List.mem_map_of_mem (List.mem_filter.mpr ⟨hd, hdc⟩)) e.externalId ?_ heq
      rw [List.filter_cons_of_pos hcommit]
      exact List.mem_cons_self
    · rfl

/-- The event behind the passes: entities are added behind those that it has, and its
parent is set where it may be. -/
def Enriched (e e' : ActivityEvent) : Prop :=
  ∃ extra parent, e' = reworked e (e.entities ++ extra) parent ∧ Fresh e.entities extra ∧
    (∀ ent ∈ extra, ent.kind = .jiraIssue ∨ ent.kind = .gitHubPullRequest) ∧ ParentFrame e parent

theorem enriched_settle_grow (e : ActivityEvent) : Enriched e (settle mrs all (grow e)) := by
  obtain ⟨extra, hgrow, hfresh, hkind, -, -⟩ := grow_spec e
  refine ⟨extra, settledParent mrs all (grow e), ?_, hfresh, hkind, ?_⟩
  · rw [settle_eq, hgrow]
    rfl
  · have hframe := parentFrame_settledParent mrs all (grow e)
    rw [hgrow] at hframe ⊢
    exact hframe

/-- Deduplicated events are deduplicated behind the passes. -/
theorem dedup_pipeline (events : List ActivityEvent) (mrs : List MergeRequestArtifact) :
    dedupCommitAuthored (pipeline events mrs) = pipeline events mrs := by
  apply dedup_of_distinct
  rw [pipeline_eq, List.map_map]
  -- the passes leave the kinds and the SHAs alone
  have hfilter : ∀ (f : ActivityEvent → ActivityEvent) (l : List ActivityEvent),
      (∀ e, (f e).kind = e.kind ∧ (f e).externalId = e.externalId) →
        ((l.map f).filter isCommit).map (·.externalId) =
          (l.filter isCommit).map (·.externalId) := by
    intro f l hf
    have hcommit : isCommit ∘ f = isCommit := funext fun e => by
      rw [Function.comp_apply, isCommit, isCommit, (hf e).1]
    rw [List.filter_map, List.map_map, hcommit]
    exact List.map_congr_left fun e _ => (hf e).2
  rw [hfilter _ _ fun e => ?_, filter_commits_dedup]
  · exact KeyedMerge.distinct_iff_nodup_map.mp (KeyedMerge.distinct_mergeBy mergeTwo_keeps _)
  · obtain ⟨extra, parent, heq, -⟩ :=
      @enriched_settle_grow ((dedupCommitAuthored events).map grow) mrs e
    rw [Function.comp_apply, heq]
    exact ⟨rfl, rfl⟩

/-- **The passes run once, and change no more than this**: a second run changes nothing,
and every deduplicated event has new entities behind its own and a parent where it may. -/
theorem pipeline_idempotent_framed (events : List ActivityEvent)
    (mrs : List MergeRequestArtifact) :
    pipeline (pipeline events mrs) mrs = pipeline events mrs ∧
      List.Forall₂ Enriched (dedupCommitAuthored events) (pipeline events mrs) := by
  constructor
  · -- a second run has no copies to merge, nothing to add and no parent to set
    let grown := (dedupCommitAuthored events).map grow
    have hsettled : pipeline events mrs = grown.map (settle mrs grown) := pipeline_eq events mrs
    have hgrown : (pipeline events mrs).map grow = pipeline events mrs := by
      rw [hsettled]
      refine (List.map_congr_left fun p hp => ?_).trans (List.map_id _)
      obtain ⟨g, hg, rfl⟩ := List.mem_map.mp hp
      obtain ⟨e, -, rfl⟩ := List.mem_map.mp hg
      rw [settle_eq]
      exact grow_grow e _
    rw [pipeline_eq (pipeline events mrs), dedup_pipeline, hgrown, hsettled, List.map_map]
    exact List.map_congr_left fun e _ => settle_settle mrs grown e
  · rw [pipeline_eq, List.map_map, List.forall₂_map_right_iff, List.forall₂_same]
    exact fun e _ => enriched_settle_grow e

end Report
end Dayseam
