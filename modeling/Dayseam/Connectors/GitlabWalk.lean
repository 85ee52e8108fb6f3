import Dayseam.Connectors.DayWindow
import Dayseam.Connectors.Gitlab
import Dayseam.Core.Runs
import Dayseam.Lib.Paging
import Mathlib

/-!
# The walk over GitLab events

The walk asks for numbered pages of a hundred rows.  It stops at a page with fewer
rows, at one with a row of the user from before the day, and after twenty pages.

## Main definitions

* `GitlabUpstream` — the pages that the upstream offers, newest rows first.
* `Gitlab.walkDay` — the walk of a day.
* `Gitlab.NoSilentTruncation`, `Gitlab.Exhausts`.

## Main results

* `Gitlab.noSilentTruncation_iff` — when the walk misses nothing without an error.
-/

namespace Dayseam

open Paging (Flow through Stops)
open Connectors (dayBoundsUtc InLastSecond identity sortByInstant)

/-- The pages of the events of a user: the newest row comes first. -/
structure GitlabUpstream where
  pages : List (List GitlabEvent)
  newestFirst : pages.flatten.Pairwise fun a b => b.createdAt ≤ a.createdAt

namespace Gitlab

def PAGE_SIZE : ℕ := 100

def MAX_PAGES : ℕ := 20

/-- What a walk is for. -/
structure WalkInput where
  newV5 : Uuid → List UInt8 → Uuid
  baseUrl : Text
  sourceId : Uuid
  sourceIdentities : List SourceIdentity
  day : NaiveDate
  localTz : FixedOffset

/-- What may go wrong: `fails i` when the request of page `i` is cancelled or refused,
and the lookup of the path of a project. -/
structure WalkEnv where
  fails : ℕ → Option DayseamError
  fetchProjectPath : ℤ → Except DayseamError (Option Text)

/-- The numeric ids of the user; rows of the table that do not parse are left out. -/
def identityUserIds (identities : List SourceIdentity) (sourceId : Uuid) : List ℤ :=
  (identities.filter fun si => si.kind = .gitLabUserId ∧
    (si.sourceId = none ∨ si.sourceId = some sourceId)).filterMap
      fun si => parseI64 si.externalActorId

variable (w : WalkInput)

/-- A row of the user; without any id every row counts. -/
def Mine (row : GitlabEvent) : Prop :=
  identityUserIds w.sourceIdentities w.sourceId = [] ∨
    row.authorId ∈ identityUserIds w.sourceIdentities w.sourceId

instance (row : GitlabEvent) : Decidable (Mine w row) := inferInstanceAs (Decidable (_ ∨ _))

/-- Where a row lies relative to the day. -/
def WalkInput.rowDate (row : GitlabEvent) : Connectors.RowDate :=
  Gitlab.rowDate (dayBoundsUtc w.day w.localTz).1 (dayBoundsUtc w.day w.localTz).2 row.createdAt

structure WalkState where
  events : List ActivityEvent
  projectPaths : ProjectPaths

/-- Look the project of a row up, where the walk has not met it yet. -/
def lookupProject (env : WalkEnv) (paths : ProjectPaths) (row : GitlabEvent) :
    Except DayseamError ProjectPaths :=
  match row.projectId with
  | none => .ok paths
  | some pid =>
    if (paths pid).isSome ∨ ¬Mine w row then .ok paths
    else (env.fetchProjectPath pid).map fun path => Function.update paths pid (some path)

/-- The event of a row, where the row is kept. -/
def keptEvent (paths : ProjectPaths) (row : GitlabEvent) : Option ActivityEvent :=
  if Mine w row ∧ w.rowDate row = .inside then
    normaliseEvent row w.newV5 w.sourceId (w.baseUrl.trimEndMatches (· == '/')) paths
  else none

/-- A page with a row of the user from before the day. -/
def reachedWindowFloor (page : List GitlabEvent) : Bool :=
  page.any fun row => Mine w row ∧ w.rowDate row = .before

/-- A page after which the walk asks for no other. -/
def shortPage (page : List GitlabEvent) : Bool := page.length < PAGE_SIZE

def stops (page : List GitlabEvent) : Bool := shortPage page || reachedWindowFloor w page

def readPage (env : WalkEnv) (s : WalkState) (page : List GitlabEvent) :
    Except DayseamError (Flow WalkState) :=
  if page = [] then .ok (.done s)
  else match page.foldlM (lookupProject w env) s.projectPaths with
    | .error err => .error err
    | .ok paths => .ok (.of (reachedWindowFloor w page || shortPage page)
        ⟨s.events ++ page.filterMap (keptEvent w paths), paths⟩)

/-- The walk of a day; pages after the last are empty. -/
def walkDay (env : WalkEnv) (upstream : GitlabUpstream) :
    Except DayseamError (List ActivityEvent) :=
  (Paging.walk env.fails (fun page => upstream.pages.getD page []) (fun page _ => some (page + 1))
    (readPage w env) MAX_PAGES 0 0 ⟨[], fun _ => none⟩).map fun r => sortByInstant r.1.events

/-! ### What the walk tells of -/

/-- The identity of the event of a row, where there is one. -/
def identityOf (row : GitlabEvent) : Option (Text × ActivityKind) :=
  (kindOf row).map fun kind => (eventExternalId row kind, kind)

theorem map_identity_normaliseEvent {row : GitlabEvent} {baseUrl : Text} {paths : ProjectPaths} :
    (normaliseEvent row w.newV5 w.sourceId baseUrl paths).map identity = identityOf row := by
  unfold normaliseEvent identityOf
  cases kindOf row <;> rfl

/-- A row that the walk keeps when it reads it, under an identity. -/
def Keeps (row : GitlabEvent) (x : Text × ActivityKind) : Prop :=
  Mine w row ∧ w.rowDate row = .inside ∧ identityOf row = some x

theorem mem_map_identity_filterMap {paths : ProjectPaths} {page : List GitlabEvent}
    {x : Text × ActivityKind} :
    x ∈ (page.filterMap (keptEvent w paths)).map identity ↔ ∃ row ∈ page, Keeps w row x := by
  rw [List.map_filterMap, List.mem_filterMap]
  refine exists_congr fun row => and_congr_right fun _ => ?_
  unfold keptEvent Keeps
  split_ifs with h
  · rw [map_identity_normaliseEvent]
    exact ⟨fun hx => ⟨h.1, h.2, hx⟩, fun hx => hx.2.2⟩
  · exact ⟨fun hx => by simp at hx, fun hx => absurd ⟨hx.1, hx.2.1⟩ h⟩

/-- What reading a page does, once the paths are looked up. -/
theorem readPage_eq_ok {env : WalkEnv} {s : WalkState} {page : List GitlabEvent}
    {flow : Flow WalkState} (h : readPage w env s page = .ok flow) :
    ∃ paths, flow = .of (stops w page) ⟨s.events ++ page.filterMap (keptEvent w paths), paths⟩ := by
  unfold readPage at h
  split_ifs at h with hpage
  · subst hpage
    obtain rfl := Except.ok.inj h
    exact ⟨s.projectPaths, by simp [stops, shortPage, PAGE_SIZE, Flow.of]⟩
  · split at h
    · cases h
    · next paths _ =>
      obtain rfl := Except.ok.inj h
      exact ⟨paths, by rw [stops, Bool.or_comm]⟩

theorem stops_readPage (env : WalkEnv) : Stops (readPage w env) (stops w) := by
  intro s page flow h
  obtain ⟨paths, rfl⟩ := readPage_eq_ok w h
  rw [Flow.state_of]

/-- The events of the state are those of the kept rows. -/
theorem readPage_keeps (env : WalkEnv) (seen : List (List GitlabEvent)) (s : WalkState)
    (page : List GitlabEvent) (flow : Flow WalkState)
    (hs : ∀ x, x ∈ s.events.map identity ↔ ∃ row ∈ seen.flatten, Keeps w row x)
    (h : readPage w env s page = .ok flow) :
    ∀ x, x ∈ flow.state.events.map identity ↔
      ∃ row ∈ (seen ++ [page]).flatten, Keeps w row x := by
  intro x
  obtain ⟨paths, rfl⟩ := readPage_eq_ok w h
  simp only [Flow.state_of, List.map_append, List.mem_append, hs, mem_map_identity_filterMap,
    List.flatten_append, List.flatten_cons, List.flatten_nil, List.append_nil, or_and_right,
    exists_or]

theorem walk_eq_walkList (env : WalkEnv) (upstream : GitlabUpstream) :
    (Paging.walk env.fails (fun page => upstream.pages.getD page []) (fun page _ => some (page + 1))
      (readPage w env) MAX_PAGES 0 0 ⟨[], fun _ => none⟩).map (fun r => (r.1, r.2.isSome)) =
    Paging.walkList env.fails (readPage w env) MAX_PAGES 0 (upstream.pages.drop 0 ++ [[]])
      ⟨[], fun _ => none⟩ := by
  have hblank : ∀ s, readPage w env s [] = .ok (.done s) := fun _ => if_pos rfl
  exact Paging.walk_numbered hblank _ _ _ _ _

/-- **What a walk that ends tells of**: the kept rows of the pages up to the first at
which it stops, as far as the cap allows. -/
theorem walkDay_ok {env : WalkEnv} {upstream : GitlabUpstream} {events : List ActivityEvent}
    (h : walkDay w env upstream = .ok events) (x : Text × ActivityKind) :
    x ∈ events.map identity ↔
      ∃ row ∈ ((through (stops w) upstream.pages).take MAX_PAGES).flatten, Keeps w row x := by
  obtain ⟨⟨s, left⟩, hwalk, rfl⟩ := Paging.exists_of_map_eq_ok h
  have hlist := walk_eq_walkList w env upstream
  rw [hwalk] at hlist
  have hread := (Paging.walkList_ok_nil (stops_readPage w env) (readPage_keeps w env)
    (by simp) hlist.symm).1 x
  rw [List.drop_zero, Paging.flatten_take_through_blank] at hread
  rw [← hread, List.mem_map, List.mem_map]
  simp only [Connectors.mem_sortByInstant]

/-! ### Silent truncation -/

/-- A row of the user in the day, under the identity of its event. -/
def InDay (row : GitlabEvent) (x : Text × ActivityKind) : Prop :=
  Mine w row ∧ Connectors.DayWalk.localGit.accepts w.localTz w.day row.createdAt ∧
    identityOf row = some x

/-- The upstream still offers a page when the walk has read as many as it may. -/
def CapReached (upstream : GitlabUpstream) : Prop :=
  MAX_PAGES < upstream.pages.length ∧ ∀ page ∈ upstream.pages.take MAX_PAGES, stops w page = false

/-- Whatever goes wrong, a walk that returns events has one for every row of the user in
the day, and a walk that reaches the cap returns an error. -/
def NoSilentTruncation (upstream : GitlabUpstream) : Prop :=
  ∀ env, (∀ events, walkDay w env upstream = .ok events → ∀ row ∈ upstream.pages.flatten,
      ∀ x, InDay w row x → ∃ e ∈ events, identity e = x) ∧
    (CapReached w upstream → ∃ err, walkDay w env upstream = .error err)

/-- Every row of the user in the day is told of by one that is not in the last second of
the day and lies on the pages up to the first with fewer than a hundred rows; and the
cap is not reached. -/
def Exhausts (upstream : GitlabUpstream) : Prop :=
  (∀ row ∈ upstream.pages.flatten, ∀ x, InDay w row x →
    ∃ row' ∈ (through shortPage upstream.pages).flatten,
      InDay w row' x ∧ ¬InLastSecond w.localTz row'.createdAt) ∧
    ¬CapReached w upstream

theorem keeps_iff {row : GitlabEvent} {x : Text × ActivityKind} :
    Keeps w row x ↔ InDay w row x ∧ ¬InLastSecond w.localTz row.createdAt := by
  have hinside : w.rowDate row = .inside ↔
      Connectors.DayWalk.localGit.accepts w.localTz w.day row.createdAt ∧
        ¬InLastSecond w.localTz row.createdAt := by
    rw [Connectors.accepts_iff_localDate _ _ _ (by decide), ← Connectors.gitlab_accepts_iff]
    exact decide_eq_true_iff.symm
  unfold Keeps InDay
  rw [hinside]
  tauto

/-- Below a page with a row from before the day every row is from before the day. -/
theorem not_keeps_of_reachedWindowFloor {upstream : GitlabUpstream}
    {pre post : List (List GitlabEvent)} {page : List GitlabEvent}
    (hpages : upstream.pages = pre ++ page :: post) (hfloor : reachedWindowFloor w page = true)
    (x : Text × ActivityKind) : ∀ row ∈ post.flatten, ¬Keeps w row x := by
  rintro row hrow ⟨-, hinside, -⟩
  obtain ⟨old, hold, hbefore⟩ := List.any_eq_true.mp hfloor
  have holder : row.createdAt ≤ old.createdAt := by
    have hsorted := upstream.newestFirst
    rw [hpages, List.flatten_append, List.flatten_cons] at hsorted
    have hsorted := (List.pairwise_append.mp hsorted).2.1
    exact (List.pairwise_append.mp hsorted).2.2 old hold row hrow
  have hlt : old.createdAt < (dayBoundsUtc w.day w.localTz).1 :=
    (Connectors.rowDate_gitlab_eq_before _ _ _).mp (of_decide_eq_true hbefore).2
  have hle := (Connectors.rowDate_gitlab_eq_inside _ _ _).mp hinside
  omega

/-- The rows that the walk keeps on the pages up to its stop are those on the pages up to
the first short one. -/
theorem exists_keeps_through_iff (upstream : GitlabUpstream) (x : Text × ActivityKind) :
    (∃ row ∈ (through (stops w) upstream.pages).flatten, Keeps w row x) ↔
      ∃ row ∈ (through shortPage upstream.pages).flatten, Keeps w row x :=
  Paging.exists_through_or_iff fun _ _ _ hpages hfloor =>
    not_keeps_of_reachedWindowFloor w hpages hfloor x

/-- Below the cap the cap cuts nothing off. -/
theorem take_through_of_not_capReached {upstream : GitlabUpstream}
    (h : ¬CapReached w upstream) :
    (through (stops w) upstream.pages).take MAX_PAGES = through (stops w) upstream.pages := by
  refine List.take_of_length_le (Paging.length_through_le ?_)
  by_contra hcap
  rw [not_or, not_le] at hcap
  exact h ⟨hcap.1, fun page hpage =>
    Bool.eq_false_iff.mpr fun hstop => hcap.2 ⟨page, hpage, hstop⟩⟩

/-- The environment in which nothing goes wrong. -/
def WalkEnv.calm : WalkEnv := ⟨fun _ => none, fun _ => .ok none⟩

theorem exists_readPage_calm (s : WalkState) (page : List GitlabEvent) :
    ∃ flow, readPage w .calm s page = .ok flow := by
  have hlookup : ∀ (rows : List GitlabEvent) (paths : ProjectPaths),
      ∃ paths', rows.foldlM (lookupProject w .calm) paths = .ok paths' := by
    intro rows
    induction rows with
    | nil => exact fun paths => ⟨paths, rfl⟩
    | cons row rows ih =>
      intro paths
      obtain ⟨paths', hpaths'⟩ : ∃ paths', lookupProject w .calm paths row = .ok paths' := by
        unfold lookupProject
        cases row.projectId with
        | none => exact ⟨paths, rfl⟩
        | some pid =>
          dsimp only
          split_ifs
          · exact ⟨paths, rfl⟩
          · exact ⟨_, rfl⟩
      rw [List.foldlM_cons, hpaths']
      exact ih paths'
  unfold readPage
  split_ifs
  · exact ⟨_, rfl⟩
  · obtain ⟨paths, hpaths⟩ := hlookup page s.projectPaths
    rw [hpaths]
    exact ⟨_, rfl⟩

theorem exists_walkDay_calm (upstream : GitlabUpstream) :
    ∃ events, walkDay w .calm upstream = .ok events := by
  have hread : ∀ s, ∀ page ∈ (upstream.pages.drop 0 ++ [[]]).take MAX_PAGES,
      ∃ flow, readPage w .calm s page = .ok flow := fun s page _ => exists_readPage_calm w s page
  have hcalm : ∀ i, WalkEnv.calm.fails i = none := fun _ => rfl
  obtain ⟨s, left, hlist⟩ := Paging.exists_walkList_ok hcalm hread
  rw [← walk_eq_walkList] at hlist
  obtain ⟨r, hwalk, -⟩ := Paging.exists_of_map_eq_ok hlist
  exact ⟨_, by rw [walkDay, hwalk]; rfl⟩

/-- **When the walk misses nothing without an error.** -/
theorem noSilentTruncation_iff (upstream : GitlabUpstream) :
    NoSilentTruncation w upstream ↔ Exhausts w upstream := by
  constructor
  · intro h
    obtain ⟨events, hevents⟩ := exists_walkDay_calm w upstream
    obtain ⟨hcover, herr⟩ := h .calm
    refine ⟨fun row hrow x hx => ?_, fun hcap => ?_⟩
    · obtain ⟨e, he, rfl⟩ := hcover events hevents row hrow x hx
      obtain ⟨row', hrow', hkeeps⟩ := (walkDay_ok w hevents _).mp (List.mem_map_of_mem he)
      have hread := ((List.take_sublist _ _).flatten).subset hrow'
      obtain ⟨row', hrow', hkeeps⟩ := (exists_keeps_through_iff w upstream _).mp ⟨row', hread, hkeeps⟩
      exact ⟨row', hrow', (keeps_iff w).mp hkeeps⟩
    · obtain ⟨err, herr⟩ := herr hcap
      rw [hevents] at herr
      exact nomatch herr
  · rintro ⟨hcover, hcap⟩ env
    refine ⟨fun events hevents row hrow x hx => ?_, fun h => absurd h hcap⟩
    obtain ⟨row', hrow', hx'⟩ := hcover row hrow x hx
    have hkept := (exists_keeps_through_iff w upstream x).mpr ⟨row', hrow', (keeps_iff w).mpr hx'⟩
    rw [← take_through_of_not_capReached w hcap] at hkept
    exact List.mem_map.mp ((walkDay_ok w hevents x).mpr hkept)

end Gitlab
end Dayseam
