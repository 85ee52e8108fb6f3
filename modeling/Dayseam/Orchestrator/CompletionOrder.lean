import Dayseam.Orchestrator.FanOut
import Dayseam.Report.Evidence
import Dayseam.Report.RollupOrder
import Mathlib

/-!
# The report and the order in which sources come to their ends

The results of a run are put together in the order in which the sources come to
their ends, and the report is made of them in that order.  This module says when
the order leaves no trace in the sections and the evidence of the report.

## Main definitions

* `SyncResults` — the results of the sources of a run.
* `report` — the sections and the evidence of the report on them.
* `OrderFree` — the results of different sources do not meet where the order counts.

## Main results

* `collectMrArtifacts_perm` — the commits of the merge requests, in any order.
* `report_eq_of_perm` — **the report on results that do not meet, in any order.**
* `shared_repository_reordered` — two sources of one repository.
-/

namespace Dayseam
namespace Orchestrator

open Report KeyedMerge OrderedMap

/-! ### The report on some results -/

/-- The results of a run: each source has one, no two events have one id, and the
artifacts are commit sets. -/
structure SyncResults where
  perSource : List PerSourceResult
  sources_nodup : (perSource.map (·.sourceId)).Nodup
  ids_nodup : ((splitFanOut perSource).events.map (·.id)).Nodup
  commitSets : ∀ a ∈ (splitFanOut perSource).artifacts, a.kind = .commitSet ∧ isCommitSet a = true

theorem perSourceState_nodup (perSource : List PerSourceResult) :
    ((splitFanOut perSource).perSourceState.map (·.1)).Nodup :=
  distinct_iff_nodup_map.mp (distinct_mergeBy (fun _ _ _ => rfl) _)

/-- The input of a report on the results; the rest of it is that of `base`. -/
def reportInput (base : ReportInput) (perSource : List PerSourceResult) : ReportInput :=
  let split := splitFanOut perSource
  { base with
    events := pipeline split.events (collectMrArtifacts split.events)
    artifacts := split.artifacts
    perSourceState := split.perSourceState
    perSourceState_nodup := perSourceState_nodup perSource }

/-- The sections and the evidence of the report on the results. -/
def report (crates : RenderCrates) (base : ReportInput) (perSource : List PerSourceResult) :
    Except ReportError (List RenderedSection × List Evidence) :=
  (render crates (reportInput base perSource)).map fun draft => (draft.sections, draft.evidence)

/-- No two results tell of different commits for one merge request. -/
def MrsAgree (xs ys : List ActivityEvent) : Prop :=
  ∀ mr ∈ collectMrArtifacts xs, ∀ mr' ∈ collectMrArtifacts ys,
    mr.externalId = mr'.externalId → mr = mr'

instance : Std.Symm MrsAgree where
  symm _ _ h mr hmr mr' hmr' heq := (h mr' hmr' mr hmr heq.symm).symm

/-- The results of different sources do not meet where the order counts: the copies that
they have of a commit are merged alike, they tell of the same commits for a merge
request, and their commit sets claim different events and are of different repositories or
days and of different names. -/
structure OrderFree (perSource : List PerSourceResult) : Prop where
  commits : CommitsAlike (perSource.map (·.events))
  mergeRequests : perSource.Pairwise fun r s => MrsAgree r.events s.events
  artifacts : SetsApart ((splitFanOut perSource).events.map (·.id)) (perSource.map (·.artifacts))

variable {crates : RenderCrates} {base : ReportInput} {events : List ActivityEvent}
  {perSource perSource' : List PerSourceResult}

/-! ### The merge requests -/

theorem collectMrArtifacts_sorted (events : List ActivityEvent) :
    OrderedMap.Sorted (·.externalId) (collectMrArtifacts events) :=
  sorted_foldl_upsert (fun _ => ⟨rfl, fun _ _ => rfl⟩) List.Pairwise.nil

theorem distinct_collectMrArtifacts (events : List ActivityEvent) :
    Distinct (·.externalId) (collectMrArtifacts events) :=
  (collectMrArtifacts_sorted events).imp fun h => h.ne

/-- What is known of a merge request is what the last event about it tells. -/
theorem find?_collectMrArtifacts (events : List ActivityEvent) (number : Text) :
    (collectMrArtifacts events).find? (·.externalId = number) =
      ((events.filter fun e => commitShas e ≠ []).reverse.find? (·.externalId = number)).map
        fun e => ⟨e.externalId, commitShas e⟩ := by
  have h := @find?_foldl_replace ActivityEvent MergeRequestArtifact Text _ (·.externalId)
    (·.externalId) (events.filter fun e => commitShas e ≠ []) []
    (fun e => ⟨e.externalId, commitShas e⟩) (fun _ => rfl) List.Pairwise.nil number
  rw [List.find?_nil, Option.or_none] at h
  convert h
  rfl

/-- The result that comes later is heard first. -/
theorem find?_collect_flatten (blocks : List (List ActivityEvent)) (number : Text) :
    (collectMrArtifacts blocks.flatten).find? (·.externalId = number) =
      blocks.foldl (fun held block =>
        ((collectMrArtifacts block).find? (·.externalId = number)).or held) none := by
  induction blocks using List.reverseRecOn with
  | nil => rfl
  | append_singleton blocks block ih =>
    rw [List.foldl_append, List.foldl_cons, List.foldl_nil, ← ih, List.flatten_append,
      List.flatten_singleton, find?_collectMrArtifacts, find?_collectMrArtifacts,
      find?_collectMrArtifacts, List.filter_append, List.reverse_append, List.find?_append,
      Option.map_or]

/-- **The commits of the merge requests**, where no two results differ on one. -/
theorem collectMrArtifacts_perm {blocks blocks' : List (List ActivityEvent)}
    (h : blocks.Perm blocks') (hsame : blocks.Pairwise MrsAgree) :
    collectMrArtifacts blocks.flatten = collectMrArtifacts blocks'.flatten := by
  have hself : ∀ block ∈ blocks, MrsAgree block block := fun block _ mr hmr mr' hmr' heq =>
    (distinct_collectMrArtifacts block).eq_of_slot_eq hmr hmr' heq
  have hall := hsame.forall_of_forall hself
  have hfind : ∀ number, (collectMrArtifacts blocks.flatten).find? (·.externalId = number) =
      (collectMrArtifacts blocks'.flatten).find? (·.externalId = number) := by
    intro number
    rw [find?_collect_flatten, find?_collect_flatten]
    refine h.foldl_eq' (fun xs hxs ys hys held => ?_) none
    cases hx : (collectMrArtifacts xs).find? (·.externalId = number) with
    | none => rfl
    | some mr =>
      cases hy : (collectMrArtifacts ys).find? (·.externalId = number) with
      | none => rfl
      | some mr' =>
        have hnumber : mr.externalId = number := by simpa using List.find?_some hx
        have hnumber' : mr'.externalId = number := by simpa using List.find?_some hy
        rw [hall hxs hys mr (List.mem_of_find?_eq_some hx) mr' (List.mem_of_find?_eq_some hy)
          (hnumber.trans hnumber'.symm)]
  exact (collectMrArtifacts_sorted _).eq_of_perm (collectMrArtifacts_sorted _)
    ((distinct_collectMrArtifacts _).perm_of_find? (distinct_collectMrArtifacts _) hfind)

/-! ### The failed sources -/

/-- The failed sources are sorted by their kinds and their ids. -/
theorem failures_perm {input input' : ReportInput}
    (h : input.perSourceState.Perm input'.perSourceState)
    (hkinds : input.sourceKinds = input'.sourceKinds) : failures input = failures input' := by
  unfold failures
  rw [← hkinds]
  refine StableSort.sortBy_eq_of_perm
    (fun f : Option SourceKind × Uuid × DayseamError =>
      (toLex (kindPosition f.1, f.2.1) : ℕ ×ₗ Uuid)) (h.filterMap _) ?_
  intro f hf f' hf' hkey
  obtain ⟨entry, hentry, hf⟩ := List.mem_filterMap.mp hf
  obtain ⟨entry', hentry', hf'⟩ := List.mem_filterMap.mp hf'
  obtain ⟨err, herr, rfl⟩ := Option.map_eq_some_iff.mp hf
  obtain ⟨err', herr', rfl⟩ := Option.map_eq_some_iff.mp hf'
  have hid := (Prod.mk.inj (toLex_inj.mp hkey)).2
  obtain rfl := List.inj_on_of_nodup_map input.perSourceState_nodup hentry hentry' hid
  rw [Option.some.inj (herr.symm.trans herr')]

theorem perSourceState_eq (h : (perSource.map (·.sourceId)).Nodup) :
    (splitFanOut perSource).perSourceState = perSource.map fun res => (res.sourceId, res.state) :=
  mergeBy_of_distinct (distinct_iff_nodup_map.mpr (by rwa [List.map_map]))

/-! ### The report -/

theorem splitFanOut_events (perSource : List PerSourceResult) :
    (splitFanOut perSource).events = (perSource.map (·.events)).flatten := List.flatMap_def

theorem splitFanOut_artifacts (perSource : List PerSourceResult) :
    (splitFanOut perSource).artifacts = (perSource.map (·.artifacts)).flatten := List.flatMap_def

/-- The person's events, in any order. -/
theorem filterEventsBySelf_perm (base : ReportInput) (h : perSource.Perm perSource')
    (hn : ((splitFanOut perSource).events.map (·.id)).Nodup) (hfree : OrderFree perSource) :
    (filterEventsBySelf (reportInput base perSource)).Perm
      (filterEventsBySelf (reportInput base perSource')) := by
  have hmrs : collectMrArtifacts (splitFanOut perSource).events =
      collectMrArtifacts (splitFanOut perSource').events := by
    rw [splitFanOut_events, splitFanOut_events]
    exact collectMrArtifacts_perm (h.map _) (List.pairwise_map.mpr hfree.mergeRequests)
  have hdedup : (dedupCommitAuthored (splitFanOut perSource).events).Perm
      (dedupCommitAuthored (splitFanOut perSource').events) := by
    rw [splitFanOut_events, splitFanOut_events]
    exact dedupCommitAuthored_perm (h.map _) hfree.commits
  have hevents := pipeline_perm hdedup hn (collectMrArtifacts (splitFanOut perSource').events)
  show (List.filter _ (pipeline (splitFanOut perSource).events
      (collectMrArtifacts (splitFanOut perSource).events))).Perm
    (List.filter _ (pipeline (splitFanOut perSource').events
      (collectMrArtifacts (splitFanOut perSource').events)))
  rw [hmrs]
  exact hevents.filter _

/-- **The report on results that do not meet**, in any order. -/
theorem report_eq_of_perm (crates : RenderCrates) (base : ReportInput) (run run' : SyncResults)
    (h : run.perSource.Perm run'.perSource) (hfree : OrderFree run.perSource) :
    report crates base run.perSource = report crates base run'.perSource := by
  have hevents := filterEventsBySelf_perm base h run.ids_nodup hfree
  have hids : ∀ e ∈ filterEventsBySelf (reportInput base run.perSource),
      e.id ∈ (splitFanOut run.perSource).events.map (·.id) := fun e he => by
    have hid := List.mem_map_of_mem (f := (·.id)) (List.mem_of_mem_filter he)
    have hmem : e.id ∈ (pipeline (splitFanOut run.perSource).events
      (collectMrArtifacts (splitFanOut run.perSource).events)).map (·.id) := hid
    rw [map_id_pipeline] at hmem
    exact (ids_dedup_subperm _).subset hmem
  have hnodup : ((filterEventsBySelf (reportInput base run.perSource)).map (·.id)).Nodup := by
    refine filterEventsBySelf_nodup ?_
    show ((pipeline _ _).map (·.id)).Nodup
    rw [map_id_pipeline]
    exact nodup_ids_dedup run.ids_nodup
  have hsets : ∀ block ∈ run.perSource.map (·.artifacts), ∀ a ∈ block,
      a.kind = .commitSet ∧ isCommitSet a = true := fun block hblock a ha =>
    run.commitSets a (by
      rw [splitFanOut_artifacts]
      exact List.mem_flatten.mpr ⟨block, hblock, ha⟩)
  have hgroups : inputGroups crates (reportInput base run.perSource) =
      inputGroups crates (reportInput base run'.perSource) := by
    show rollUp crates.toCrates _ (splitFanOut run.perSource).artifacts base.date =
      rollUp crates.toCrates _ (splitFanOut run'.perSource).artifacts base.date
    rw [splitFanOut_artifacts, splitFanOut_artifacts]
    exact rollUp_perm hevents hnodup (h.map _) hsets hfree.artifacts hids
  have hfailures : failures (reportInput base run.perSource) =
      failures (reportInput base run'.perSource) := by
    refine failures_perm ?_ rfl
    show (splitFanOut run.perSource).perSourceState.Perm (splitFanOut run'.perSource).perSourceState
    rw [perSourceState_eq run.sources_nodup, perSourceState_eq run'.sources_nodup]
    exact h.map _
  have hissues : renderSyncIssues crates (reportInput base run.perSource) =
      renderSyncIssues crates (reportInput base run'.perSource) := by
    unfold renderSyncIssues
    rw [hfailures]
    rfl
  unfold report render
  rw [hgroups, hissues]
  rfl

/-! ### Two sources of one repository -/

/-- The commit `abc` as a source on the local repository reports it. -/
def engineCommit (sourceId : Uuid) : ActivityEvent where
  id := sourceId
  sourceId := sourceId
  externalId := "abc".toList
  kind := .commitAuthored
  occurredAt := 0
  actor := ⟨"Ada".toList, some "ada@engine".toList, none⟩
  title := "wip".toList
  body := none
  links := []
  entities := [⟨.repo, "/home/ada/engine".toList, none⟩]
  parentExternalId := none
  metadata := .null
  privacy := .normal

def engineSet (sourceId id : Uuid) : Artifact where
  id := id
  sourceId := sourceId
  kind := .commitSet
  externalId := "/home/ada/engine::1970-01-01".toList
  payload := .commitSet ⟨"/home/ada/engine".toList⟩ ⟨0⟩ [sourceId] ["abc".toList]
  createdAt := 0

def engineResult (sourceId id : Uuid) : PerSourceResult :=
  ⟨sourceId, 0, 1, .ok ⟨[engineCommit sourceId], [engineSet sourceId id]⟩⟩

/-- The first source comes to its end before the second. -/
def inOrder : SyncResults where
  perSource := [engineResult 1 11, engineResult 2 12]
  sources_nodup := by decide
  ids_nodup := by decide
  commitSets := by decide

def reordered : SyncResults where
  perSource := [engineResult 2 12, engineResult 1 11]
  sources_nodup := by decide
  ids_nodup := by decide
  commitSets := by decide

/-- A report for Ada. -/
def engineInput : ReportInput where
  id := 1
  date := ⟨0⟩
  templateId := DEV_EOD_TEMPLATE_ID
  templateVersion := DEV_EOD_TEMPLATE_VERSION
  personId := 1
  sourceIdentities := [⟨9, 1, none, .gitEmail, "ada@engine".toList⟩]
  events := []
  artifacts := []
  perSourceState := []
  perSourceState_nodup := List.nodup_nil
  sourceKinds := fun _ => some .localGit
  verboseMode := false
  generatedAt := 0
  renderOffset := .utc

/-- The SHA-256 of the keys of the two bullets, and no text to escape. -/
def engineCrates : RenderCrates where
  toCrates := plainCrates
  htmlEscape t := t
  sha256 k :=
    if k = bulletKey DEV_EOD_TEMPLATE_ID ReportSection.commits.id 11 [1] then
      digestBytes 0xff9593a7c29a3247e881184d7859c971bf751d324b22e3193131996702b54761
    else digestBytes 0x809baee039679d64406b02db926d8c8206ace23928d5e0413af616f7d8005755

/-- The local repository, and a forge that knows the same commit. -/
def localFirst : SyncResults where
  perSource := [engineResult 1 11, ⟨2, 0, 1, .ok ⟨[engineCommit 2], []⟩⟩]
  sources_nodup := by decide
  ids_nodup := by decide
  commitSets := by decide

def forgeFirst : SyncResults where
  perSource := [⟨2, 0, 1, .ok ⟨[engineCommit 2], []⟩⟩, engineResult 1 11]
  sources_nodup := by decide
  ids_nodup := by decide
  commitSets := by decide

theorem orderFree_localFirst : OrderFree localFirst.perSource where
  commits := by
    refine List.pairwise_pair.mpr ?_
    intro a ha b hb _ _ _
    rw [List.mem_singleton.mp ha, List.mem_singleton.mp hb]
    refine ⟨by decide, ?_⟩
    intro c hc _ _
    rcases List.mem_cons.mp hc with rfl | hc
    · rfl
    · rw [List.mem_singleton.mp hc]
      rfl
  mergeRequests := List.pairwise_pair.mpr fun _ hmr => nomatch hmr
  artifacts := {
    claims := List.pairwise_pair.mpr fun _ _ _ hb => absurd hb List.not_mem_nil
    slots := List.pairwise_pair.mpr fun _ _ _ hb => absurd hb List.not_mem_nil
    names := List.pairwise_pair.mpr fun _ _ _ hb => absurd hb List.not_mem_nil }

/-- A commit that a forge knows, too, is reported alike whichever comes to its end
first. -/
theorem forge_and_repository_reordered :
    report engineCrates engineInput localFirst.perSource =
      report engineCrates engineInput forgeFirst.perSource :=
  report_eq_of_perm engineCrates engineInput localFirst forgeFirst (List.Perm.swap ..)
    orderFree_localFirst

theorem pipeline_engineCommit {events : List ActivityEvent}
    (h : dedupCommitAuthored events = [engineCommit 1]) :
    pipeline events [] = [engineCommit 1] := by
  have hkeys : extractTicketKeys [engineCommit 1] = [engineCommit 1] := by
    have hscan : ticketKeys (engineCommit 1) = [] := by
      rw [ticketKeys, show (scannedTexts (engineCommit 1)).flatMap scanTicketKeys = [] from rfl,
        List.mergeSort_nil]
      rfl
    show [extractTicketKeysOf (engineCommit 1)] = _
    rw [extractTicketKeysOf, hscan]
    rfl
  rw [pipeline, h, hkeys]
  rfl

theorem inputGroups_inOrder : inputGroups engineCrates (reportInput engineInput inOrder.perSource) =
    [⟨engineSet 1 11, [engineCommit 1]⟩] := by
  have hself : filterEventsBySelf (reportInput engineInput inOrder.perSource) =
      [engineCommit 1] := by
    show (pipeline [engineCommit 1, engineCommit 2] []).filter _ = _
    rw [pipeline_engineCommit rfl]
    exact List.filter_cons_of_pos (by decide)
  have hclaim : claimGroups [engineSet 1 11, engineSet 2 12] [engineCommit 1] =
      ([⟨engineSet 1 11, [engineCommit 1]⟩, ⟨engineSet 2 12, []⟩], []) := by
    rw [claimGroups_cons, claimGroups_cons]
    simp [claimEvents, engineSet, ArtifactPayload.eventIds, engineCommit, sortEvents]
  have hmerge : mergeDuplicateCommitSets
      [⟨engineSet 1 11, [engineCommit 1]⟩, ⟨engineSet 2 12, []⟩] =
        [⟨engineSet 1 11, [engineCommit 1]⟩] := by
    show [mergeInto _ _] = _
    rw [mergeInto_of_commitSet rfl]
    simp [sortEvents, keepNew]
  show rollUp plainCrates _ [engineSet 1 11, engineSet 2 12] ⟨0⟩ = _
  rw [rollUp, groupsOf_eq, hself, show indexById [engineCommit 1] = [engineCommit 1] from rfl,
    hclaim]
  exact (congrArg sortGroups hmerge).trans (List.mergeSort_singleton _)

theorem inputGroups_reordered :
    inputGroups engineCrates (reportInput engineInput reordered.perSource) =
      [⟨engineSet 2 12, [engineCommit 1]⟩] := by
  have hself : filterEventsBySelf (reportInput engineInput reordered.perSource) =
      [engineCommit 1] := by
    show (pipeline [engineCommit 2, engineCommit 1] []).filter _ = _
    rw [pipeline_engineCommit rfl]
    exact List.filter_cons_of_pos (by decide)
  have hclaim : claimGroups [engineSet 2 12, engineSet 1 11] [engineCommit 1] =
      ([⟨engineSet 2 12, []⟩, ⟨engineSet 1 11, [engineCommit 1]⟩], []) := by
    rw [claimGroups_cons, claimGroups_cons]
    simp [claimEvents, engineSet, ArtifactPayload.eventIds, engineCommit, sortEvents]
  have hmerge : mergeDuplicateCommitSets
      [⟨engineSet 2 12, []⟩, ⟨engineSet 1 11, [engineCommit 1]⟩] =
        [⟨engineSet 2 12, [engineCommit 1]⟩] := by
    show [mergeInto _ _] = _
    rw [mergeInto_of_commitSet rfl]
    simp [sortEvents, keepNew]
  show rollUp plainCrates _ [engineSet 2 12, engineSet 1 11] ⟨0⟩ = _
  rw [rollUp, groupsOf_eq, hself, show indexById [engineCommit 1] = [engineCommit 1] from rfl,
    hclaim]
  exact (congrArg sortGroups hmerge).trans (List.mergeSort_singleton _)

/-- The ids of the bullets of a report on one group. -/
theorem bulletIds_report {artifact : Artifact}
    (h : inputGroups engineCrates (reportInput engineInput perSource) =
      [⟨artifact, [engineCommit 1]⟩]) :
    (report engineCrates engineInput perSource).toOption.map (·.2.map (·.bulletId)) =
      some ((renderedGroup engineCrates engineInput ⟨artifact, [engineCommit 1]⟩).map
        (·.2.bulletId)) := by
  have htemplate : ¬(reportInput engineInput perSource).templateId ≠ DEV_EOD_TEMPLATE_ID :=
    not_not.mpr rfl
  unfold report render
  rw [if_neg htemplate]
  dsimp only
  rw [h, if_neg (List.cons_ne_nil _ _)]
  show some (List.map _ (List.map _ _ ++ [])) = _
  rw [List.append_nil, List.map_map]
  rfl

/-- **Two sources of one repository**: the bullet of their commit has an id that depends on
which of them comes to its end first. -/
theorem shared_repository_reordered : ¬∀ (crates : RenderCrates) (base : ReportInput)
    (run run' : SyncResults), run.perSource.Perm run'.perSource →
      report crates base run.perSource = report crates base run'.perSource := by
  intro h
  have heq := h engineCrates engineInput inOrder reordered (List.Perm.swap ..)
  have hids := congrArg (fun r => r.toOption.map (·.2.map (·.bulletId))) heq
  rw [bulletIds_report inputGroups_inOrder, bulletIds_report inputGroups_reordered] at hids
  revert hids
  decide +kernel

end Orchestrator
end Dayseam
