import Dayseam.Report.Pipeline
import Dayseam.Report.Render
import Mathlib

/-!
# The fan-out over the sources

Every source of a run is fetched by a task of its own.  A task pushes its result
when it is done; a task that panics pushes nothing, and joining it throws the
panic away.

## Main definitions

* `TaskRun`, `runSource` — what a task does, and what it pushes.
* `fanOut`, `splitFanOut` — the results in completion order, and their four shapes.
* `collectMrArtifacts` — the merge requests that the events tell the commits of.

## Main results

* `map_perSourceState_splitFanOut` — the keys of the map of states.
* `every_source_accounted_iff` — **when every source is accounted for.**
* `panicked_source_is_missing` — a source that panics.
-/

namespace Dayseam
namespace Orchestrator

open Report (MergeRequestArtifact ReportInput RenderCrates renderSyncIssues syncIssueBullet)

structure SourceHandle where
  sourceId : Uuid
  kind : SourceKind
  deriving DecidableEq, Repr

structure SyncResult where
  events : List ActivityEvent
  artifacts : List Artifact

/-- The task of a source: the clock at its two ends, and what the `sync` of its
connector comes to; none where it panics. -/
structure TaskRun where
  startedAt : ℤ
  finishedAt : ℤ
  sync : Option (Except DayseamError SyncResult)

structure PerSourceResult where
  sourceId : Uuid
  startedAt : ℤ
  finishedAt : ℤ
  outcome : Except DayseamError SyncResult

def CONNECTOR_UNSUPPORTED_SYNC_REQUEST : Text := "connector.unsupported.sync_request".toList

/-- The `Debug` text of a kind. -/
def SourceKind.debug : SourceKind → Text
  | .gitLab => "GitLab".toList
  | .localGit => "LocalGit".toList
  | .jira => "Jira".toList
  | .confluence => "Confluence".toList
  | .gitHub => "GitHub".toList
  | .outlook => "Outlook".toList

/-- What the task of a source pushes.  The semaphore is never closed, so a task
always gets its permit. -/
def runSource (registered : SourceKind → Bool) (tasks : SourceHandle → TaskRun)
    (source : SourceHandle) : Option PerSourceResult :=
  let task := tasks source
  if registered source.kind then
    task.sync.map fun outcome => ⟨source.sourceId, task.startedAt, task.finishedAt, outcome⟩
  else some ⟨source.sourceId, task.startedAt, task.finishedAt,
    .error (.invalidConfig CONNECTOR_UNSUPPORTED_SYNC_REQUEST
      ("no connector registered for kind ".toList ++ SourceKind.debug source.kind))⟩

/-- The results, where the tasks come to their ends in the order of `completed`. -/
def fanOut (registered : SourceKind → Bool) (tasks : SourceHandle → TaskRun)
    (completed : List SourceHandle) : List PerSourceResult :=
  completed.filterMap (runSource registered tasks)

/-- The state of a source after its result. -/
def PerSourceResult.state (res : PerSourceResult) : SourceRunState :=
  match res.outcome with
  | .ok syncResult =>
    ⟨.succeeded, res.startedAt, some res.finishedAt, syncResult.events.length, none⟩
  | .error err => ⟨.failed, res.startedAt, some res.finishedAt, 0, some err⟩

/-- The same for the row of the run; its count has 32 bits. -/
def PerSourceResult.syncrun (res : PerSourceResult) : PerSourceState :=
  ⟨res.sourceId, res.state.status, res.state.startedAt, res.state.finishedAt,
    res.state.fetchedCount % 2 ^ 32, res.state.error⟩

def PerSourceResult.events (res : PerSourceResult) : List ActivityEvent :=
  match res.outcome with
  | .ok syncResult => syncResult.events
  | .error _ => []

def PerSourceResult.artifacts (res : PerSourceResult) : List Artifact :=
  match res.outcome with
  | .ok syncResult => syncResult.artifacts
  | .error _ => []

/-- The four shapes of the results.  The map of states has a source once; a later
entry replaces an earlier one. -/
structure SplitFanOut where
  events : List ActivityEvent
  artifacts : List Artifact
  perSourceState : List (Uuid × SourceRunState)
  perSourceSyncrun : List PerSourceState

def splitFanOut (perSource : List PerSourceResult) : SplitFanOut where
  events := perSource.flatMap (·.events)
  artifacts := perSource.flatMap (·.artifacts)
  perSourceState := KeyedMerge.mergeBy (·.1) (fun _ entry => entry)
    (perSource.map fun res => (res.sourceId, res.state))
  perSourceSyncrun := perSource.map (·.syncrun)

/-! ### Merge requests -/

/-- The commits that a merge request event tells of. -/
def commitShas (event : ActivityEvent) : List Text :=
  match event.kind with
  | .mrOpened | .mrMerged | .mrClosed | .mrApproved =>
    (((event.metadata.get "commit_shas".toList).bind Json.asArray).getD []).filterMap Json.asStr
  | _ => []

/-- The merge requests by their upstream ids; a later event replaces an earlier
one. -/
def collectMrArtifacts (events : List ActivityEvent) : List MergeRequestArtifact :=
  (events.filter fun e => commitShas e ≠ []).foldl (fun byId e =>
    OrderedMap.upsert (·.externalId) (fun _ => ⟨e.externalId, commitShas e⟩) e.externalId byId) []

/-! ### Which sources are accounted for -/

/-- The task of the source panics. -/
def Panics (registered : SourceKind → Bool) (tasks : SourceHandle → TaskRun)
    (source : SourceHandle) : Prop :=
  registered source.kind = true ∧ (tasks source).sync = none

instance (registered : SourceKind → Bool) (tasks : SourceHandle → TaskRun)
    (source : SourceHandle) : Decidable (Panics registered tasks source) :=
  decidable_of_iff (registered source.kind = true ∧ (tasks source).sync.isNone = true)
    (by simp [Panics])

/-- The `sync` of the source came back with its events. -/
def Succeeds (registered : SourceKind → Bool) (tasks : SourceHandle → TaskRun)
    (source : SourceHandle) : Prop :=
  ∃ res, runSource registered tasks source = some res ∧ res.outcome.isOk = true

/-- The section of the failed sources tells of the source. -/
def MentionedAsFailed (crates : RenderCrates) (input : ReportInput) (sourceId : Uuid) : Prop :=
  ∃ s ∈ renderSyncIssues crates input, ∃ err,
    syncIssueBullet crates input.templateId (input.sourceKinds sourceId, sourceId, err) ∈ s.bullets

/-- The map of states has an entry for each requested source and no other, and a
source that did not succeed, with an error or by a panic, is there as failed and is
mentioned by a report on the states. -/
structure Accounted (registered : SourceKind → Bool) (tasks : SourceHandle → TaskRun)
    (sources : List SourceHandle) (split : SplitFanOut) : Prop where
  entries : (split.perSourceState.map (·.1)).Perm (sources.map (·.sourceId))
  failed : ∀ source ∈ sources, ¬Succeeds registered tasks source →
    ∃ state, (source.sourceId, state) ∈ split.perSourceState ∧ state.status = .failed
  mentioned : ∀ source ∈ sources, ¬Succeeds registered tasks source → ∀ crates input,
    input.perSourceState = split.perSourceState → MentionedAsFailed crates input source.sourceId

variable {registered : SourceKind → Bool} {tasks : SourceHandle → TaskRun}
  {sources completed : List SourceHandle} {source : SourceHandle} {res : PerSourceResult}

theorem runSource_eq_none_iff :
    runSource registered tasks source = none ↔ Panics registered tasks source := by
  unfold runSource Panics
  dsimp only
  split <;> simp [*]

theorem sourceId_of_runSource (h : runSource registered tasks source = some res) :
    res.sourceId = source.sourceId := by
  unfold runSource at h
  dsimp only at h
  split at h
  · obtain ⟨outcome, -, rfl⟩ := Option.map_eq_some_iff.mp h
    rfl
  · rw [← Option.some.inj h]

/-- **The events of a run** are those of the tasks that succeed. -/
theorem mem_events_splitFanOut {event : ActivityEvent} :
    event ∈ (splitFanOut (fanOut registered tasks completed)).events ↔
      ∃ source ∈ completed, registered source.kind = true ∧
        ∃ syncResult, (tasks source).sync = some (.ok syncResult) ∧ event ∈ syncResult.events := by
  simp only [splitFanOut, fanOut, List.mem_flatMap, List.mem_filterMap]
  constructor
  · rintro ⟨res, ⟨source, hsource, hres⟩, hevent⟩
    unfold runSource at hres
    dsimp only at hres
    split at hres
    · next hkind =>
      obtain ⟨outcome, hsync, rfl⟩ := Option.map_eq_some_iff.mp hres
      cases outcome with
      | error err => exact absurd hevent List.not_mem_nil
      | ok syncResult => exact ⟨source, hsource, hkind, syncResult, hsync, hevent⟩
    · rw [← Option.some.inj hres] at hevent
      exact absurd hevent List.not_mem_nil
  · rintro ⟨source, hsource, hkind, syncResult, hsync, hevent⟩
    refine ⟨⟨source.sourceId, (tasks source).startedAt, (tasks source).finishedAt,
      .ok syncResult⟩, ⟨source, hsource, ?_⟩, hevent⟩
    rw [runSource, if_pos hkind, hsync]
    rfl

/-- The results are those of the tasks that do not panic. -/
theorem map_sourceId_fanOut (completed : List SourceHandle) :
    (fanOut registered tasks completed).map (·.sourceId) =
      (completed.filter fun source => decide ¬Panics registered tasks source).map
        (·.sourceId) := by
  induction completed with
  | nil => rfl
  | cons source completed ih =>
    unfold fanOut at ih ⊢
    cases h : runSource registered tasks source with
    | none =>
      have hp := runSource_eq_none_iff.mp h
      rw [List.filterMap_cons_none h, ih, List.filter_cons_of_neg (by simp [hp])]
    | some res =>
      have hp : ¬Panics registered tasks source := fun hp => by
        rw [runSource_eq_none_iff.mpr hp] at h
        cases h
      rw [List.filterMap_cons_some h, List.filter_cons_of_pos (by simp [hp]), List.map_cons,
        List.map_cons, ih, sourceId_of_runSource h]

/-- The keys of the map of states: the sources whose tasks do not panic. -/
theorem map_perSourceState_splitFanOut (hn : (completed.map (·.sourceId)).Nodup) :
    (splitFanOut (fanOut registered tasks completed)).perSourceState =
        (fanOut registered tasks completed).map (fun res => (res.sourceId, res.state)) ∧
      (splitFanOut (fanOut registered tasks completed)).perSourceState.map (·.1) =
        (completed.filter fun source => decide ¬Panics registered tasks source).map
          (·.sourceId) := by
  have hids : ((fanOut registered tasks completed).map fun res =>
      (res.sourceId, res.state)).map (·.1) = (completed.filter fun source =>
        decide ¬Panics registered tasks source).map (·.sourceId) := by
    rw [List.map_map]
    exact map_sourceId_fanOut completed
  have hd : KeyedMerge.Distinct (·.1) ((fanOut registered tasks completed).map fun res =>
      (res.sourceId, res.state)) := by
    rw [KeyedMerge.distinct_iff_nodup_map, hids]
    exact hn.sublist (List.filter_sublist.map _)
  have hsplit : (splitFanOut (fanOut registered tasks completed)).perSourceState = _ :=
    KeyedMerge.mergeBy_of_distinct hd
  exact ⟨hsplit, (congrArg _ hsplit).trans hids⟩

/-- A failed source is mentioned by a report on its state. -/
theorem mentionedAsFailed_of_mem (crates : RenderCrates) {input : ReportInput} {sourceId : Uuid}
    {state : SourceRunState} (h : (sourceId, state) ∈ input.perSourceState)
    (hf : state.status = .failed) : MentionedAsFailed crates input sourceId := by
  obtain ⟨err, herr⟩ : ∃ err, Report.failureOf state = some err := ⟨_, if_pos hf⟩
  have hmem : (input.sourceKinds sourceId, sourceId, err) ∈ Report.failures input := by
    rw [Report.failures, (List.mergeSort_perm _ _).mem_iff, List.mem_filterMap]
    exact ⟨(sourceId, state), h, by rw [herr, Option.map_some]⟩
  have hne : Report.failures input ≠ [] := List.ne_nil_of_mem hmem
  exact ⟨_, if_neg hne, err, List.mem_map_of_mem hmem⟩

/-- A source that comes to an end without success is there as failed. -/
theorem failed_of_not_succeeds (hn : (completed.map (·.sourceId)).Nodup)
    (hsource : source ∈ completed) (hp : ¬Panics registered tasks source)
    (hs : ¬Succeeds registered tasks source) : ∃ state, (source.sourceId, state) ∈
      (splitFanOut (fanOut registered tasks completed)).perSourceState ∧
        state.status = .failed := by
  obtain ⟨res, hres⟩ := Option.ne_none_iff_exists'.mp (mt runSource_eq_none_iff.mp hp)
  refine ⟨res.state, ?_, ?_⟩
  · rw [(map_perSourceState_splitFanOut hn).1, ← sourceId_of_runSource hres]
    exact List.mem_map_of_mem (List.mem_filterMap.mpr ⟨source, hsource, hres⟩)
  · cases hout : res.outcome with
    | ok syncResult => exact absurd ⟨res, hres, by rw [hout]; rfl⟩ hs
    | error err => rw [PerSourceResult.state, hout]

/-- **When every source is accounted for**: when no task panics. -/
theorem every_source_accounted_iff (hn : (sources.map (·.sourceId)).Nodup)
    (hc : completed.Perm sources) :
    Accounted registered tasks sources (splitFanOut (fanOut registered tasks completed)) ↔
      ∀ source ∈ sources, ¬Panics registered tasks source := by
  have hn' : (completed.map (·.sourceId)).Nodup := (hc.map _).nodup_iff.mpr hn
  obtain ⟨-, hkeys⟩ := @map_perSourceState_splitFanOut registered tasks completed hn'
  constructor
  · intro h source hsource
    have hlen := h.entries.length_eq
    rw [hkeys, List.length_map, List.length_map, ← hc.length_eq,
      List.length_filter_eq_length_iff] at hlen
    simpa using hlen source (hc.mem_iff.mpr hsource)
  · intro h
    refine ⟨?_, ?_, ?_⟩
    · rw [hkeys, List.filter_eq_self.mpr]
      · exact hc.map _
      · intro source hsource
        simpa using h source (hc.mem_iff.mp hsource)
    · intro source hsource hs
      exact failed_of_not_succeeds hn' (hc.mem_iff.mpr hsource) (h source hsource) hs
    · intro source hsource hs crates input hinput
      obtain ⟨state, hstate, hf⟩ :=
        failed_of_not_succeeds hn' (hc.mem_iff.mpr hsource) (h source hsource) hs
      exact mentionedAsFailed_of_mem crates (hinput ▸ hstate) hf

/-! ### Two sources -/

/-- A local repository and a forge. -/
def twoSources : List SourceHandle := [⟨1, .localGit⟩, ⟨2, .gitLab⟩]

/-- The forge ends in the given way, the local repository finds nothing. -/
def forgeEnds (sync : Option (Except DayseamError SyncResult)) (source : SourceHandle) : TaskRun :=
  ⟨0, 1, if source.kind = .gitLab then sync else some (.ok ⟨[], []⟩)⟩

/-- A forge that cannot be reached is accounted for, also when it comes to its end
first. -/
theorem unreachable_forge_accounted :
    Accounted (fun _ => true) (forgeEnds (some (.error (.network "gitlab.url.dns".toList
      "no such host".toList)))) twoSources (splitFanOut (fanOut (fun _ => true) (forgeEnds
        (some (.error (.network "gitlab.url.dns".toList "no such host".toList))))
          twoSources.reverse)) := by
  refine (every_source_accounted_iff (by decide) (List.reverse_perm _)).mpr ?_
  intro source hsource hp
  rcases List.mem_cons.mp hsource with rfl | hsource
  · cases hp.2
  · rw [List.mem_singleton.mp hsource] at hp
    cases hp.2

/-- **A source that panics** is missing from the map. -/
theorem panicked_source_is_missing :
    ¬Accounted (fun _ => true) (forgeEnds none) twoSources
      (splitFanOut (fanOut (fun _ => true) (forgeEnds none) twoSources)) := by
  intro h
  have hlen := h.entries.length_eq
  exact absurd hlen (by decide)

end Orchestrator
end Dayseam
