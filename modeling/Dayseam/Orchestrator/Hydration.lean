import Dayseam.Connectors.EventIdentity
import Dayseam.Connectors.Jira
import Dayseam.Connectors.LocalGit
import Dayseam.Connectors.Outlook
import Dayseam.Orchestrator.FanOut
import Dayseam.Report.Redaction
import Mathlib

/-!
# Hydrating the evidence of stored drafts

A run inserts its events, renders its draft and inserts it.  Later runs insert the same
events again and refresh them; the rows keep their ids, and with them the evidence of
every stored draft.

## Main definitions

* `CompletedFanOut` — what a run has when its sources are done.
* `Archive.step` — a run that stores its events, one that stores its draft, and a source
  that is deleted.
* `Hydrated` — the evidence of the drafts has its rows.

## Main results

* `hasOrigin_of_mem_pipeline` — the passes before the rollup keep ids and places.
* `drafts_hydrated` — **stored evidence can always be hydrated.**
-/

namespace Dayseam
namespace Orchestrator

open ActivityRepo (HasOrigin hasOrigin_of_mem getMany insertMany deleteForSource)
open Connectors (Identified)
open Report

/-! ### What the passes keep -/

section Pipeline

variable {e event : ActivityEvent} {events merged : List ActivityEvent}
  {mrs : List MergeRequestArtifact}

/-- The second event has the id and the place of the first. -/
def SameIdentity (a b : ActivityEvent) : Prop := a.id = b.id ∧ a.place = b.place

theorem mergeTwo_sameIdentity (a b : ActivityEvent) :
    SameIdentity a (mergeTwo a b) ∨ SameIdentity b (mergeTwo a b) := by
  unfold mergeTwo
  split_ifs
  · exact Or.inl ⟨rfl, rfl⟩
  · exact Or.inr ⟨rfl, rfl⟩

theorem hasOrigin_addCommit (h : e ∈ addCommit event merged) : HasOrigin (merged ++ [event]) e := by
  induction merged with
  | nil => exact hasOrigin_of_mem h
  | cons m merged ih =>
    unfold addCommit at h
    split_ifs at h
    · rcases List.mem_cons.mp h with rfl | h
      · rcases mergeTwo_sameIdentity m event with hsame | hsame
        · exact ⟨m, by simp, hsame⟩
        · exact ⟨event, by simp, hsame⟩
      · exact hasOrigin_of_mem (by simp [h])
    · rcases List.mem_cons.mp h with rfl | h
      · exact hasOrigin_of_mem (by simp)
      · exact (ih h).mono fun a ha => hasOrigin_of_mem (List.mem_cons_of_mem _ ha)

theorem hasOrigin_dedup (h : e ∈ dedupCommitAuthored events) : HasOrigin events e := by
  suffices hall : ∀ merged, e ∈ events.foldl dedupStep merged → HasOrigin (merged ++ events) e from
    hall [] h
  clear h
  induction events with
  | nil =>
    intro merged h
    exact hasOrigin_of_mem (by simpa using h)
  | cons event events ih =>
    intro merged h
    refine (ih _ h).mono fun a ha => ?_
    rcases List.mem_append.mp ha with ha | ha
    · have hstep : HasOrigin (merged ++ [event]) a := by
        unfold dedupStep at ha
        split_ifs at ha
        · exact hasOrigin_addCommit ha
        · exact hasOrigin_of_mem ha
      refine hstep.mono fun b hb => hasOrigin_of_mem ?_
      rw [List.append_cons]
      exact List.mem_append_left _ hb
    · exact hasOrigin_of_mem (by simp [ha])

theorem hasOrigin_map {f : ActivityEvent → ActivityEvent} (hf : ∀ a, SameIdentity a (f a))
    (h : e ∈ events.map f) : HasOrigin events e := by
  obtain ⟨a, ha, rfl⟩ := List.mem_map.mp h
  exact ⟨a, ha, hf a⟩

theorem sameIdentity_extractTicketKeysOf (a : ActivityEvent) :
    SameIdentity a (extractTicketKeysOf a) := by
  obtain ⟨extra, -, heq⟩ := extractTicketKeysOf_eq a
  rw [heq]
  exact ⟨rfl, rfl⟩

theorem sameIdentity_extractGithubPrUrlsOf (a : ActivityEvent) :
    SameIdentity a (extractGithubPrUrlsOf a) := by
  unfold extractGithubPrUrlsOf
  split_ifs
  · obtain ⟨extra, -, heq⟩ := addEntities_eq .gitHubPullRequest _ a
    rw [heq]
    exact ⟨rfl, rfl⟩
  · exact ⟨rfl, rfl⟩

theorem sameIdentity_annotateTransitionOf (events : List ActivityEvent) (a : ActivityEvent) :
    SameIdentity a (annotateTransitionOf events a) := by
  unfold annotateTransitionOf
  split_ifs
  · split <;> exact ⟨rfl, rfl⟩
  · exact ⟨rfl, rfl⟩

theorem sameIdentity_rolledIntoMrOf (mrs : List MergeRequestArtifact) (a : ActivityEvent) :
    SameIdentity a (rolledIntoMrOf mrs a) := by
  unfold rolledIntoMrOf
  split_ifs
  · split <;> exact ⟨rfl, rfl⟩
  · exact ⟨rfl, rfl⟩

/-- **The passes before the rollup keep ids and places.** -/
theorem hasOrigin_of_mem_pipeline (h : e ∈ pipeline events mrs) : HasOrigin events e := by
  refine (hasOrigin_map (sameIdentity_rolledIntoMrOf mrs) h).mono fun a ha => ?_
  refine (hasOrigin_map (sameIdentity_annotateTransitionOf _) ha).mono fun b hb => ?_
  refine (hasOrigin_map sameIdentity_extractGithubPrUrlsOf hb).mono fun c hc => ?_
  exact (hasOrigin_map sameIdentity_extractTicketKeysOf hc).mono fun d hd => hasOrigin_dedup hd

/-- The evidence of a draft names events that were handed in. -/
theorem mem_events_of_mem_evidence {crates : RenderCrates} {input : ReportInput}
    {draft : ReportDraft} (h : render crates input = .ok draft) {ev : Evidence}
    (hev : ev ∈ draft.evidence) {id : Uuid} (hid : id ∈ ev.eventIds) :
    ∃ e ∈ input.events, e.id = id := by
  rw [(render_ok h).2.2] at hev
  obtain ⟨p, hp, rfl⟩ := List.mem_map.mp hev
  obtain ⟨g, hg, hp⟩ := List.mem_flatMap.mp hp
  obtain ⟨e, he, rfl⟩ := List.mem_map.mp (of_mem_evidenceIds (of_mem_renderedGroup hp).2 id hid)
  have hself := mem_of_mem_indexById (mem_indexById_of_mem_rollUp hg he)
  exact ⟨e, (List.mem_filter.mp hself).1, rfl⟩

end Pipeline

/-! ### Runs -/

/-- What a run has when its sources are done: their results, and what the request gives
for the input of the report.  The events of a source come from the normalisers of its
connector, which give each the id of its place. -/
structure CompletedFanOut (newV5 : Uuid → List UInt8 → Uuid) where
  results : List PerSourceResult
  request : ReportInput
  identified : ∀ res ∈ results, ∀ e ∈ res.events, Identified newV5 res.sourceId e

variable {newV5 : Uuid → List UInt8 → Uuid} {run : CompletedFanOut newV5} {e : ActivityEvent}
  {crates : RenderCrates}

namespace CompletedFanOut

def sources (run : CompletedFanOut newV5) : List Uuid := run.results.map (·.sourceId)

/-- The input that the run renders; its events are those that the run inserts. -/
def input (run : CompletedFanOut newV5) : ReportInput :=
  let split := splitFanOut run.results
  { run.request with
    events := pipeline split.events (collectMrArtifacts split.events)
    artifacts := split.artifacts }

/-- An event of the run is one of a source of it, with the id of its place. -/
theorem identified_of_mem (h : e ∈ run.input.events) :
    e.sourceId ∈ run.sources ∧ Identified newV5 e.sourceId e := by
  obtain ⟨e₀, he₀, hid, hplace⟩ := hasOrigin_of_mem_pipeline h
  obtain ⟨res, hres, he₀⟩ := List.mem_flatMap.mp he₀
  obtain ⟨hsource, hown⟩ := run.identified res hres e₀ he₀
  simp only [ActivityEvent.place, Prod.mk.injEq] at hplace
  obtain ⟨hsource', hext, hkind⟩ := hplace
  refine ⟨?_, rfl, ?_⟩
  · rw [← hsource', hsource]
    exact List.mem_map_of_mem hres
  · rw [← hid, hown, ← hsource', hsource, hext, hkind]

end CompletedFanOut

/-- What the runs leave behind: the events, the runs that have yet to store their draft,
the drafts with their runs, and the sources that are gone. -/
structure Archive (newV5 : Uuid → List UInt8 → Uuid) where
  rows : ActivityRows
  deleted : List Uuid
  stored : List (CompletedFanOut newV5)
  drafts : List (CompletedFanOut newV5 × ReportDraft)

namespace Archive

def empty (newV5 : Uuid → List UInt8 → Uuid) : Archive newV5 := ⟨ActivityRepo.empty, [], [], []⟩

inductive Action (newV5 : Uuid → List UInt8 → Uuid)
  /-- a run inserts its events; one that cannot ends here -/
  | store (run : CompletedFanOut newV5)
  /-- a run renders its draft, and inserts it -/
  | persist (n : ℕ)
  /-- a source is deleted, and its events with it -/
  | deleteSource (id : Uuid)

def step (crates : RenderCrates) (s : Archive newV5) : Action newV5 → Archive newV5
  | .store run =>
    -- the foreign key to the source
    if ∃ e ∈ run.input.events, e.sourceId ∈ s.deleted then s
    else match insertMany s.rows run.input.events with
      | .ok rows => { s with rows := rows, stored := s.stored ++ [run] }
      | .error _ => s
  | .persist n => match s.stored[n]? with
    | none => s
    | some run => match render crates run.input with
      | .ok draft => { s with drafts := s.drafts ++ [(run, draft)] }
      | .error _ => s
  | .deleteSource id =>
    { s with rows := deleteForSource s.rows id, deleted := id :: s.deleted }

/-- The archive after a history of steps. -/
def after (crates : RenderCrates) (actions : List (Action newV5)) : Archive newV5 :=
  actions.foldl (step crates) (empty newV5)

/-- For a draft whose sources are all there, any ids of its evidence are hydrated with
one row for each distinct id. -/
def Hydrated (s : Archive newV5) : Prop :=
  ∀ p ∈ s.drafts, (∀ id ∈ p.1.sources, id ∉ s.deleted) →
    ∀ ids : List Uuid, (∀ id ∈ ids, ∃ ev ∈ p.2.evidence, id ∈ ev.eventIds) →
      (∀ row ∈ getMany s.rows ids, row ∈ s.rows.rows) ∧
        ((getMany s.rows ids).map (·.id)).Nodup ∧
          ∀ id, id ∈ (getMany s.rows ids).map (·.id) ↔ id ∈ ids

/-- The rows have the ids of their places, and the events of a run keep their places for
as long as their sources are there. -/
structure Inv (crates : RenderCrates) (s : Archive newV5) : Prop where
  identified : ∀ row ∈ s.rows.rows, Identified newV5 row.sourceId row
  kept : ∀ run ∈ s.stored, ∀ e ∈ run.input.events, e.sourceId ∉ s.deleted →
    ∃ row ∈ s.rows.rows, row.place = e.place
  rendered : ∀ p ∈ s.drafts, p.1 ∈ s.stored ∧ render crates p.1.input = .ok p.2

variable {s : Archive newV5}

/-- Two events of one place, both with the id of it. -/
theorem id_eq_of_place_eq {a b : ActivityEvent} (ha : Identified newV5 a.sourceId a)
    (hb : Identified newV5 b.sourceId b) (h : a.place = b.place) : a.id = b.id := by
  simp only [ActivityEvent.place, Prod.mk.injEq] at h
  rw [ha.2, hb.2, h.1, h.2.1, h.2.2]

theorem identified_of_hasOrigin {events : List ActivityEvent} (h : HasOrigin events e)
    (hall : ∀ a ∈ events, Identified newV5 a.sourceId a) : Identified newV5 e.sourceId e := by
  obtain ⟨a, ha, hid, hplace⟩ := h
  have hown := hall a ha
  simp only [ActivityEvent.place, Prod.mk.injEq] at hplace
  refine ⟨rfl, ?_⟩
  rw [← hid, hown.2, hplace.1, hplace.2.1, hplace.2.2]

theorem inv_empty : Inv crates (empty newV5) :=
  ⟨fun _ h => absurd h List.not_mem_nil, fun _ h => absurd h List.not_mem_nil,
    fun _ h => absurd h List.not_mem_nil⟩

/-- A batch that goes in. -/
theorem inv_store {rows : ActivityRows} (h : Inv crates s)
    (hrows : insertMany s.rows run.input.events = .ok rows) :
    Inv crates { s with rows := rows, stored := s.stored ++ [run] } := by
  obtain ⟨hfrom, hplaced⟩ := ActivityRepo.insertMany_ok hrows
  refine ⟨?_, ?_, ?_⟩
  · intro row hrow
    refine identified_of_hasOrigin (hfrom row hrow) fun a ha => ?_
    rcases List.mem_append.mp ha with ha | ha
    · exact h.identified a ha
    · exact (CompletedFanOut.identified_of_mem ha).2
  · intro r hr e he hsource
    rcases List.mem_append.mp hr with hr | hr
    · obtain ⟨old, hold, hplace⟩ := h.kept r hr e he hsource
      obtain ⟨row, hrow, hplace'⟩ := hplaced old (List.mem_append_left _ hold)
      exact ⟨row, hrow, hplace'.trans hplace⟩
    · rw [List.mem_singleton.mp hr] at he
      exact hplaced e (List.mem_append_right _ he)
  · intro p hp
    exact ⟨List.mem_append_left _ (h.rendered p hp).1, (h.rendered p hp).2⟩

theorem inv_step (h : Inv crates s) (a : Action newV5) : Inv crates (step crates s a) := by
  cases a with
  | store run =>
    unfold step
    dsimp only
    split_ifs
    · exact h
    split
    · next rows hrows => exact inv_store h hrows
    · exact h
  | persist n =>
    unfold step
    dsimp only
    split
    · exact h
    next run hrun =>
    split
    · next draft hdraft =>
      refine ⟨h.identified, h.kept, ?_⟩
      intro p hp
      rcases List.mem_append.mp hp with hp | hp
      · exact h.rendered p hp
      · rw [List.mem_singleton.mp hp]
        exact ⟨List.mem_of_getElem? hrun, hdraft⟩
    · exact h
  | deleteSource id =>
    refine ⟨fun row hrow => h.identified row (List.mem_filter.mp hrow).1, ?_, h.rendered⟩
    intro run hrun e he hsource
    have hsource : e.sourceId ∉ id :: s.deleted := hsource
    rw [List.mem_cons, not_or] at hsource
    obtain ⟨hne, hsource⟩ := hsource
    obtain ⟨row, hrow, hplace⟩ := h.kept run hrun e he hsource
    refine ⟨row, List.mem_filter.mpr ⟨hrow, decide_eq_true ?_⟩, hplace⟩
    rwa [show row.sourceId = e.sourceId from (Prod.mk.inj hplace).1]

theorem inv_after (crates : RenderCrates) (actions : List (Action newV5)) :
    Inv crates (after crates actions) := by
  suffices hall : ∀ s : Archive newV5, Inv crates s → Inv crates (actions.foldl (step crates) s) from
    hall _ inv_empty
  induction actions with
  | nil => exact fun _ h => h
  | cons a actions ih => exact fun s h => ih _ (inv_step h a)

end Archive

/-! ### The normalisers -/

/-- The events of a local-git sync have the ids of their places. -/
theorem identified_localGit {connector : LocalGitConnector} {fs : LocalGit.FileSystem}
    {crates : LocalGit.Crates} {identities : List SourceIdentity} {sourceId : Uuid}
    {day : NaiveDate} {createdAt : ℤ} {res : SyncResult}
    (h : connector.sync fs crates identities sourceId day createdAt = .ok res)
    (he : e ∈ res.events) : Identified crates.newV5 sourceId e := by
  obtain ⟨repo, commit, -, hevent⟩ := (LocalGitConnector.mem_events_sync h).mp he
  unfold LocalGitConnector.eventOf LocalGit.commitEvent at hevent
  obtain ⟨committed, -, hevent⟩ := Option.bind_eq_some_iff.mp hevent
  obtain ⟨email, -, hevent⟩ := Option.bind_eq_some_iff.mp hevent
  split_ifs at hevent
  · cases hevent
    exact ⟨rfl, rfl⟩
  · cases hevent
    exact ⟨rfl, rfl⟩

theorem identified_outlook {crates : Outlook.NormaliseCrates} {sourceId : Uuid} {actor : Actor}
    {event : GraphEvent} (h : Outlook.normaliseEvent crates sourceId actor event = .ok e) :
    Identified crates.newV5 sourceId e := by
  obtain ⟨occurredAt, -, rfl⟩ := Paging.exists_of_map_eq_ok h
  exact ⟨rfl, rfl⟩

theorem identified_jira {crates : Atlassian.Crates} {sourceId : Uuid} {workspaceUrl self : Text}
    {window : Connectors.DayWindow} {issue : Json} {events : List ActivityEvent}
    (h : Jira.normaliseIssue crates sourceId workspaceUrl self window issue = .ok events)
    (he : e ∈ events) : Identified crates.newV5 sourceId e := by
  obtain ⟨⟨info, fields⟩, -, rfl⟩ := Paging.exists_of_map_eq_ok h
  simp only [Jira.issueEvents, List.mem_append, List.mem_map, List.mem_filterMap,
    Option.mem_toList, Option.map_eq_some_iff] at he
  rcases he with ((⟨_, -, rfl⟩ | ⟨_, -, hevent⟩) | ⟨_, -, rfl⟩) | ⟨_, -, rfl⟩
  · exact ⟨rfl, rfl⟩
  · unfold Jira.assigneeEvent at hevent
    split_ifs at hevent
    · cases hevent
      exact ⟨rfl, rfl⟩
    · cases hevent
      exact ⟨rfl, rfl⟩
  · exact ⟨rfl, rfl⟩
  · exact ⟨rfl, rfl⟩

end Orchestrator
end Dayseam
