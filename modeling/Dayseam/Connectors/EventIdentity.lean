import Dayseam.Connectors.Github
import Dayseam.Connectors.Gitlab
import Dayseam.Db.ActivityRepo
import Mathlib

/-!
# The identity of events over a history of syncs

Every sync of a source normalises the rows that it fetched and inserts the events.
The evidence of an earlier report points at events by their ids, which are digests of
the upstream id and the kind.

## Main definitions

* `storeSyncs` — the table after a history of syncs.
* `ActionsSeparate` — distinct actions have distinct identities, and the row behind
  every event is of the same action.

## Main results

* `actionsSeparate_iff` — actions are separate where their keys are.
* `forges_separate_iff` — **when the actions of a forge are separate.**
* `merge_requests_of_two_projects` — two merge requests with one row.
-/

namespace Dayseam
namespace Connectors

open ActivityRepo (Addressed Holds hydrate insertMany)

variable {R A : Type} {normalise : R → Option ActivityEvent} {action : R → A}
  {newV5 : Uuid → List UInt8 → Uuid} {sourceId : Uuid}

/-! ### Histories -/

/-- The table after a history of syncs, each with the rows that it fetched. -/
def storeSyncs (normalise : R → Option ActivityEvent) (syncs : List (List R)) :
    Except DbError ActivityRows :=
  syncs.foldlM (fun t sync => insertMany t (sync.filterMap normalise)) ActivityRepo.empty

/-- Two rows about distinct actions get distinct identities and distinct ids. -/
def IdentitiesSeparate (normalise : R → Option ActivityEvent) (action : R → A)
    (rows : List R) : Prop :=
  ∀ a ∈ rows, ∀ b ∈ rows, action a ≠ action b → ∀ e ∈ normalise a, ∀ e' ∈ normalise b,
    (e.externalId, e.kind) ≠ (e'.externalId, e'.kind) ∧ e.id ≠ e'.id

/-- The row that the id of an event points at tells of the action of the event. -/
def EvidenceKept (normalise : R → Option ActivityEvent) (action : R → A)
    (syncs : List (List R)) : Prop :=
  ∃ t, storeSyncs normalise syncs = .ok t ∧ ∀ a ∈ syncs.flatten, ∀ e ∈ normalise a,
    ∃ b ∈ syncs.flatten, action b = action a ∧ ∃ row ∈ normalise b, hydrate t e.id = some row

def ActionsSeparate (normalise : R → Option ActivityEvent) (action : R → A)
    (syncs : List (List R)) : Prop :=
  IdentitiesSeparate normalise action syncs.flatten ∧ EvidenceKept normalise action syncs

/-- The digest tells the names of the events apart. -/
def NoIdCollision (newV5 : Uuid → List UInt8 → Uuid) (sourceId : Uuid)
    (events : List ActivityEvent) : Prop :=
  ∀ e ∈ events, ∀ e' ∈ events,
    ActivityEvent.deterministicId newV5 sourceId e.externalId e.kind =
      ActivityEvent.deterministicId newV5 sourceId e'.externalId e'.kind →
    eventName e.externalId e.kind = eventName e'.externalId e'.kind

/-- An event that a normaliser of the source makes. -/
def Identified (newV5 : Uuid → List UInt8 → Uuid) (sourceId : Uuid) (e : ActivityEvent) : Prop :=
  e.sourceId = sourceId ∧
    e.id = ActivityEvent.deterministicId newV5 sourceId e.externalId e.kind

theorem addressed_of_noIdCollision {events : List ActivityEvent}
    (hn : NoIdCollision newV5 sourceId events)
    (hid : ∀ e ∈ events, Identified newV5 sourceId e) : Addressed events := by
  intro e he e' he'
  obtain ⟨hs, hi⟩ := hid e he
  obtain ⟨hs', hi'⟩ := hid e' he'
  constructor
  · intro h
    rw [hi, hi'] at h
    obtain ⟨hext, hkind⟩ := eventName_inj (hn e he e' he' h)
    rw [ActivityEvent.place, ActivityEvent.place, hs, hs', hext, hkind]
  · intro h
    obtain ⟨-, h⟩ := Prod.mk.inj h
    obtain ⟨hext, hkind⟩ := Prod.mk.inj h
    rw [hi, hi', hext, hkind]

/-- A history whose events have the ids of their places goes into the table. -/
theorem storeSyncs_holds {syncs : List (List R)}
    (ha : Addressed (syncs.flatten.filterMap normalise)) :
    ∃ t, storeSyncs normalise syncs = .ok t ∧ Holds t (syncs.flatten.filterMap normalise) := by
  suffices h : ∀ (syncs : List (List R)) (t : ActivityRows) (done : List ActivityEvent),
      Holds t done → Addressed (done ++ syncs.flatten.filterMap normalise) →
      ∃ t', syncs.foldlM (fun t sync => insertMany t (sync.filterMap normalise)) t = .ok t' ∧
        Holds t' (done ++ syncs.flatten.filterMap normalise) from
    h syncs _ [] ActivityRepo.holds_empty ha
  clear ha
  intro syncs
  induction syncs with
  | nil => exact fun t done h _ => ⟨t, rfl, by simpa using h⟩
  | cons sync syncs ih =>
    intro t done hdone ha
    rw [List.flatten_cons, List.filterMap_append, ← List.append_assoc] at ha ⊢
    obtain ⟨t₁, ht₁, h₁⟩ := ActivityRepo.insertMany_addressed hdone fun a ha' b hb =>
      ha a (List.mem_append_left _ ha') b (List.mem_append_left _ hb)
    obtain ⟨t₂, ht₂, h₂⟩ := ih t₁ _ h₁ ha
    refine ⟨t₂, ?_, h₂⟩
    rw [List.foldlM_cons, ht₁]
    exact ht₂

/-- **Actions are separate where their keys are**: the keys of rows are what their
identities are determined by. -/
theorem actionsSeparate_iff {SameKey : R → R → Prop} {syncs : List (List R)}
    (hn : NoIdCollision newV5 sourceId (syncs.flatten.filterMap normalise))
    (hid : ∀ a, ∀ e ∈ normalise a, Identified newV5 sourceId e)
    (hkey : ∀ a b, ∀ e ∈ normalise a, ∀ e' ∈ normalise b,
      ((e.externalId, e.kind) = (e'.externalId, e'.kind) ↔ SameKey a b)) :
    ActionsSeparate normalise action syncs ↔
      ∀ a ∈ syncs.flatten, ∀ b ∈ syncs.flatten, (normalise a).isSome → (normalise b).isSome →
        SameKey a b → action a = action b := by
  have haddr : Addressed (syncs.flatten.filterMap normalise) := by
    refine addressed_of_noIdCollision hn fun e he => ?_
    obtain ⟨a, -, ha⟩ := List.mem_filterMap.mp he
    exact hid a e ha
  constructor
  · rintro ⟨hsep, -⟩ a ha b hb hsa hsb hsame
    obtain ⟨e, he⟩ := Option.isSome_iff_exists.mp hsa
    obtain ⟨e', he'⟩ := Option.isSome_iff_exists.mp hsb
    by_contra hne
    exact (hsep a ha b hb hne e he e' he').1 ((hkey a b e he e' he').mpr hsame)
  · intro h
    constructor
    · intro a ha b hb hne e he e' he'
      have hdiff : (e.externalId, e.kind) ≠ (e'.externalId, e'.kind) := fun heq =>
        hne (h a ha b hb (by rw [he]; rfl) (by rw [he']; rfl) ((hkey a b e he e' he').mp heq))
      refine ⟨hdiff, fun hids => hdiff ?_⟩
      have hplace := (haddr e (List.mem_filterMap.mpr ⟨a, ha, he⟩) e'
        (List.mem_filterMap.mpr ⟨b, hb, he'⟩)).mp hids
      exact (Prod.mk.inj hplace).2
    · obtain ⟨t, ht, hholds⟩ := storeSyncs_holds haddr
      refine ⟨t, ht, fun a ha e he => ?_⟩
      obtain ⟨row, hrow, hplace, hhyd⟩ :=
        hholds.hydrate haddr (List.mem_filterMap.mpr ⟨a, ha, he⟩)
      obtain ⟨b, hb, hbrow⟩ := List.mem_filterMap.mp hrow
      have hsame := (hkey b a row hbrow e he).mp (Prod.mk.inj hplace).2
      exact ⟨b, hb, h b hb a ha (by rw [hbrow]; rfl) (by rw [he]; rfl) hsame, row, hbrow, hhyd⟩

/-! ### The two forges -/

/-- A row with the paths of the projects that its walk has looked up. -/
abbrev GitlabRow := GitlabEvent × ProjectPaths

/-- What the user did: the project, the numbers, the row, its kind and its instant. -/
def gitlabAction (row : GitlabRow) :
    Option ℤ × Option ℤ × Option ℤ × ℤ × Option ActivityKind × ℤ :=
  (row.1.projectId, row.1.targetIid, row.1.targetId, row.1.id, Gitlab.kindOf row.1,
    row.1.createdAt)

/-- What the user did: the repository, the thread with the kind, the review or the
comment, the row and its instant. -/
def githubAction (event : GithubEvent) :
    Text × Option (ActivityKind × ℤ) × Option ℤ × Text × ℤ :=
  (event.repo, Github.keyOf event, event.payload.upstreamId, event.id, event.createdAt)

variable (newV5 sourceId) (baseUrl : Text)

def gitlabNormalise (row : GitlabRow) : Option ActivityEvent :=
  Gitlab.normaliseEvent row.1 newV5 sourceId baseUrl row.2

/-- **When the actions of a forge are separate**: no two rows about distinct actions
have one kind and one name among the rows of this kind.  The name is the number of the
merge request or the issue without its project on GitLab, and the thread on GitHub. -/
theorem forges_separate_iff (gitlab : List (List GitlabRow)) (github : List (List GithubEvent))
    (hl : NoIdCollision newV5 sourceId
      (gitlab.flatten.filterMap (gitlabNormalise newV5 sourceId baseUrl)))
    (hh : NoIdCollision newV5 sourceId
      (github.flatten.filterMap (Github.normaliseEvent newV5 sourceId))) :
    (ActionsSeparate (gitlabNormalise newV5 sourceId baseUrl) gitlabAction gitlab ↔
      ∀ a ∈ gitlab.flatten, ∀ b ∈ gitlab.flatten, (Gitlab.kindOf a.1).isSome →
        (Gitlab.kindOf b.1).isSome → Gitlab.SameKey a.1 b.1 →
        gitlabAction a = gitlabAction b) ∧
    (ActionsSeparate (Github.normaliseEvent newV5 sourceId) githubAction github ↔
      ∀ a ∈ github.flatten, ∀ b ∈ github.flatten, (Github.keyOf a).isSome →
        (Github.keyOf b).isSome → Github.SameKey a b → githubAction a = githubAction b) := by
  constructor
  · rw [actionsSeparate_iff hl (fun a e he => (Gitlab.normaliseEvent_eq_some he).2.2)
      fun a b e he e' he' => Gitlab.identity_eq_iff he he']
    simp only [gitlabNormalise, Gitlab.normaliseEvent, Option.isSome_map]
  · have hkey : ∀ a : GithubEvent,
        (Github.normaliseEvent newV5 sourceId a).isSome = (Github.keyOf a).isSome := by
      intro a
      unfold Github.normaliseEvent Github.keyOf
      cases a.payload <;> simp
    rw [actionsSeparate_iff hh (fun a e he => ?_)
      fun a b e he e' he' => Github.identity_eq_iff he he']
    · simp only [hkey]
    · obtain ⟨_, -, -, hid⟩ := Github.normaliseEvent_eq_some he
      exact hid

/-! ### Rows of a history -/

/-- The id of a GitLab source, and of the first of its events that is about `!5`. -/
def forgeSource : Uuid := ⟨0x11111111111111111111111111111111, by decide⟩

/-- The digests of the names of three events. -/
def forgeV5 (ns : Uuid) (name : List UInt8) : Uuid :=
  if ns = Uuid.NAMESPACE_OID then ⟨0xd3b5df3170b05227b6bb68bd730351d6, by decide⟩
  else if name = eventName "!5".toList .mrOpened then
    ⟨0x764d28b38adb56f7b413ba05c2db66ee, by decide⟩
  else if name = eventName "!5".toList .mrMerged then
    ⟨0x72a6782e67685786900cdef2c09a3dcf, by decide⟩
  else ⟨0xbb695132f228552d8cd7259c638ad530, by decide⟩

/-- A row about the merge request `!5` of a project. -/
def mergeRequestRow (id projectId : ℤ) (action : Text) : GitlabRow :=
  ({ id := id, actionName := action, targetType := some .mergeRequest, targetIid := some 5
     targetId := some (2000 + projectId), targetTitle := some "Add payments".toList
     projectId := some projectId, createdAt := 1776600000000000000, authorId := 17
     author := none, note := none, pushData := none }, fun _ => none)

/-- A pull request of GitHub that was opened. -/
def pullRequestRow : GithubEvent where
  id := "evt-1".toList
  actor := ⟨17, "vedanth".toList⟩
  repo := "company/foo".toList
  createdAt := 1776600000000000000
  payload := .pullRequest "opened".toList
    ⟨42, "Add payments".toList, "https://github.com/company/foo/pull/42".toList, false⟩

/-- The kinds and the upstream ids of the events decide whether their ids collide. -/
theorem noIdCollision_of_map {events : List ActivityEvent} (keys : List (Text × ActivityKind))
    (hmap : events.map (fun e => (e.externalId, e.kind)) = keys)
    (h : ∀ k ∈ keys, ∀ k' ∈ keys,
      ActivityEvent.deterministicId newV5 sourceId k.1 k.2 =
        ActivityEvent.deterministicId newV5 sourceId k'.1 k'.2 →
      eventName k.1 k.2 = eventName k'.1 k'.2) :
    NoIdCollision newV5 sourceId events := by
  intro e he e' he'
  exact h _ (hmap ▸ List.mem_map_of_mem he) _ (hmap ▸ List.mem_map_of_mem he')

/-- A merge request that was opened on one day and merged on the next, and a pull
request. -/
theorem one_merge_request_separate :
    ActionsSeparate (gitlabNormalise forgeV5 forgeSource "https://gitlab.com".toList) gitlabAction
      [[mergeRequestRow 1 7 "opened".toList], [mergeRequestRow 2 7 "merged".toList]] ∧
    ActionsSeparate (Github.normaliseEvent forgeV5 forgeSource) githubAction
      [[pullRequestRow]] := by
  have h := forges_separate_iff forgeV5 forgeSource "https://gitlab.com".toList
    [[mergeRequestRow 1 7 "opened".toList], [mergeRequestRow 2 7 "merged".toList]]
    [[pullRequestRow]]
    (noIdCollision_of_map _ _ [("!5".toList, .mrOpened), ("!5".toList, .mrMerged)]
      (by decide +kernel) (by decide +kernel))
    (noIdCollision_of_map _ _ [("company/foo#42".toList, .gitHubPullRequestOpened)]
      (by decide +kernel) (by decide +kernel))
  refine ⟨h.1.mpr ?_, h.2.mpr (by decide +kernel)⟩
  have hkeys : ¬Gitlab.SameKey (mergeRequestRow 1 7 "opened".toList).1
      (mergeRequestRow 2 7 "merged".toList).1 := by decide +kernel
  have hkeys' : ¬Gitlab.SameKey (mergeRequestRow 2 7 "merged".toList).1
      (mergeRequestRow 1 7 "opened".toList).1 := by decide +kernel
  intro a ha b hb _ _ hsame
  simp only [List.flatten_cons, List.flatten_nil, List.append_nil, List.cons_append,
    List.nil_append, List.mem_cons, List.not_mem_nil, or_false] at ha hb
  rcases ha with rfl | rfl <;> rcases hb with rfl | rfl
  · rfl
  · exact absurd hsame hkeys
  · exact absurd hsame hkeys'
  · rfl

/-- **Two merge requests with one row**: `!5` of one project and `!5` of another. -/
theorem merge_requests_of_two_projects :
    ¬ActionsSeparate (gitlabNormalise forgeV5 forgeSource "https://gitlab.com".toList) gitlabAction
      [[mergeRequestRow 1 7 "opened".toList], [mergeRequestRow 2 8 "opened".toList]] := by
  rintro ⟨hsep, -⟩
  obtain ⟨e, he⟩ := Option.isSome_iff_exists.mp (show (gitlabNormalise forgeV5 forgeSource
    "https://gitlab.com".toList (mergeRequestRow 1 7 "opened".toList)).isSome by decide +kernel)
  obtain ⟨e', he'⟩ := Option.isSome_iff_exists.mp (show (gitlabNormalise forgeV5 forgeSource
    "https://gitlab.com".toList (mergeRequestRow 2 8 "opened".toList)).isSome by decide +kernel)
  have hne := hsep (mergeRequestRow 1 7 "opened".toList) (by simp)
    (mergeRequestRow 2 8 "opened".toList) (by simp) (by decide +kernel) e he e' he'
  exact hne.1 ((Gitlab.identity_eq_iff he he').mpr (by decide +kernel))

end Connectors
end Dayseam
