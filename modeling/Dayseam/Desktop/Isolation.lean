import Dayseam.Desktop.Registry
import Mathlib

/-!
# Sources of one connector

The local-git connector walks the repositories of every LocalGit source for each source
that a report asks for.  A source is told apart from the others by its e-mail addresses
alone.

## Main definitions

* `Store.Disjoint` — no two sources have overlapping scan roots.
* `Isolated` — the repositories of a source are told for that source, and for no other.
* `NoSharedCommit` — no source has the addresses of a commit under another one's roots.

## Main results

* `isolated_iff` — **when the sources are isolated.**
* `not_isolated` — one address for two sources.
-/

namespace Dayseam

open LocalGit (DiscoveredRepo GitCommit)
open Orchestrator (SourceHandle)

namespace Store

/-- The scan roots of the source of an id. -/
def rootsOf (s : Store) (id : Uuid) : List PathBuf :=
  (s.sources.filter fun source => source.id = id).flatMap (·.scanRoots)

/-- The scan roots of two sources never overlap. -/
def Disjoint (s : Store) : Prop :=
  ∀ a ∈ s.sources, ∀ b ∈ s.sources, a.id ≠ b.id →
    ∀ r ∈ a.scanRoots, ∀ r' ∈ b.scanRoots, ¬r.overlaps r'

instance (s : Store) : Decidable s.Disjoint := inferInstanceAs (Decidable (∀ a ∈ s.sources,
  ∀ b ∈ s.sources, a.id ≠ b.id → ∀ r ∈ a.scanRoots, ∀ r' ∈ b.scanRoots, ¬r.overlaps r'))

variable {s : Store} {path path' : PathBuf} {id id' : Uuid}

theorem mem_rootsOf : path ∈ s.rootsOf id ↔ ∃ source ∈ s.sources, source.id = id ∧
    path ∈ source.scanRoots := by
  simp only [rootsOf, List.mem_flatMap, List.mem_filter, decide_eq_true_eq, and_assoc]

/-- A path is under the roots of one source at most. -/
theorem Disjoint.eq_of_startsWith (h : s.Disjoint)
    (ha : ∃ root ∈ s.rootsOf id, path.startsWith root)
    (hb : ∃ root ∈ s.rootsOf id', path'.startsWith root) (hpath : path.same path') : id = id' := by
  obtain ⟨root, hroot, hunder⟩ := ha
  obtain ⟨root', hroot', hunder'⟩ := hb
  obtain ⟨a, ha, rfl, hra⟩ := mem_rootsOf.mp hroot
  obtain ⟨b, hb, rfl, hrb⟩ := mem_rootsOf.mp hroot'
  by_contra hne
  refine h a ha b hb hne root hra root' hrb (PathBuf.overlaps_of_startsWith hunder ?_)
  exact PathBuf.startsWith_trans (PathBuf.startsWith_of_same hpath) hunder'

end Store

namespace ReportRun

variable (run : ReportRun) (s : Store) (tz : FixedOffset)

/-- The run tells a commit of a repository for a source. -/
def TellsFor (id : Uuid) (repo : DiscoveredRepo) (commit : GitCommit) : Prop :=
  ∃ source event, run.Tells (s.localGitConnector tz) source repo commit event ∧ source.sourceId = id

/-- What a source tells is under its own roots, a commit of the day that is the user's
by an address of the source and lies under its roots is told for it, and no commit of a
repository is told for two sources. -/
structure Isolated : Prop where
  own : ∀ id repo commit, run.TellsFor s tz id repo commit →
    ∃ root ∈ s.rootsOf id, repo.path.startsWith root
  every : ∀ source ∈ run.completed, source.kind = .localGit → ∀ repo commit,
    (∃ root ∈ s.rootsOf source.sourceId, repo.path.startsWith root) →
      (s.localGitConnector tz).Visits (run.fs source) (run.crates source) repo commit →
        (s.localGitConnector tz).IsTheirs (run.crates source) (run.identities source)
          source.sourceId run.day commit → run.TellsFor s tz source.sourceId repo commit
  once : ∀ id id' repo repo' commit commit', run.TellsFor s tz id repo commit →
    run.TellsFor s tz id' repo' commit' → repo.path.same repo'.path → commit.sha = commit'.sha →
      id = id'

/-- No commit of the day under the roots of another configured source is the user's by
an address of a requested source. -/
def NoSharedCommit : Prop :=
  ∀ source ∈ run.completed, source.kind = .localGit →
    ∀ other ∈ s.sources, other.id ≠ source.sourceId → ∀ repo commit,
      (∃ root ∈ other.scanRoots, repo.path.startsWith root) →
        (s.localGitConnector tz).Visits (run.fs source) (run.crates source) repo commit →
          ¬(s.localGitConnector tz).IsTheirs (run.crates source) (run.identities source)
            source.sourceId run.day commit

variable {run s tz}

/-- A commit is told for a requested source just when it is visited and theirs. -/
theorem tellsFor_iff {id : Uuid} {repo : DiscoveredRepo} {commit : GitCommit} :
    run.TellsFor s tz id repo commit ↔ ∃ source ∈ run.completed,
      source.kind = .localGit ∧ source.sourceId = id ∧
        (s.localGitConnector tz).Visits (run.fs source) (run.crates source) repo commit ∧
          (s.localGitConnector tz).IsTheirs (run.crates source) (run.identities source)
            source.sourceId run.day commit := by
  constructor
  · rintro ⟨source, event, ⟨⟨hsource, hkind⟩, hvisits, hevent⟩, hid⟩
    exact ⟨source, hsource, hkind, hid, hvisits,
      LocalGitConnector.exists_eventOf_iff.mp ⟨event, hevent⟩⟩
  · rintro ⟨source, hsource, hkind, hid, hvisits, htheirs⟩
    obtain ⟨event, hevent⟩ := (@LocalGitConnector.exists_eventOf_iff _ (run.fs source) _ _ _ _
      repo _).mpr htheirs
    exact ⟨source, event, ⟨⟨hsource, hkind⟩, hvisits, hevent⟩, hid⟩

/-- A visited repository is under the roots of some configured source. -/
theorem exists_source_of_visits {source : SourceHandle} {repo : DiscoveredRepo}
    {commit : GitCommit}
    (h : (s.localGitConnector tz).Visits (run.fs source) (run.crates source) repo commit) :
    ∃ other ∈ s.sources, ∃ root ∈ other.scanRoots, repo.path.startsWith root := by
  obtain ⟨⟨outcome, hdiscover, hrepo⟩, -⟩ := h
  obtain ⟨root, hroot, hunder⟩ := LocalGit.startsWith_of_mem_discoverRepos hdiscover hrepo
  obtain ⟨other, hother, hroot⟩ := List.mem_flatMap.mp hroot
  exact ⟨other, hother, root, hroot, hunder⟩

/-- **When the sources are isolated**: for sources with disjoint scan roots, just when no
source of the run has an address of a commit of the day under the roots of another
configured source. -/
theorem isolated_iff (hdisjoint : s.Disjoint) : run.Isolated s tz ↔ run.NoSharedCommit s tz := by
  constructor
  · intro h source hsource hkind other hother hne repo commit ⟨root, hroot, hunder⟩ hvisits htheirs
    have htells := tellsFor_iff.mpr ⟨source, hsource, hkind, rfl, hvisits, htheirs⟩
    have hother : ∃ root ∈ s.rootsOf other.id, repo.path.startsWith root :=
      ⟨root, Store.mem_rootsOf.mpr ⟨other, hother, rfl, hroot⟩, hunder⟩
    exact hne (hdisjoint.eq_of_startsWith hother (h.own _ _ _ htells) rfl)
  · intro h
    have hown : ∀ id repo commit, run.TellsFor s tz id repo commit →
        ∃ root ∈ s.rootsOf id, repo.path.startsWith root := by
      intro id repo commit htells
      obtain ⟨source, hsource, hkind, rfl, hvisits, htheirs⟩ := tellsFor_iff.mp htells
      obtain ⟨other, hother, root, hroot, hunder⟩ := exists_source_of_visits hvisits
      by_cases hid : other.id = source.sourceId
      · exact ⟨root, Store.mem_rootsOf.mpr ⟨other, hother, hid, hroot⟩, hunder⟩
      · exact absurd htheirs
          (h source hsource hkind other hother hid repo commit ⟨root, hroot, hunder⟩ hvisits)
    refine ⟨hown, ?_, ?_⟩
    · intro source hsource hkind repo commit _ hvisits htheirs
      exact tellsFor_iff.mpr ⟨source, hsource, hkind, rfl, hvisits, htheirs⟩
    · intro id id' repo repo' commit commit' htells htells' hpath _
      exact hdisjoint.eq_of_startsWith (hown _ _ _ htells) (hown _ _ _ htells') hpath

end ReportRun

namespace TwoRoots

/-- A report on one source, which owns the commit, is isolated where the other source is
not asked for. -/
theorem isolated_alone : (report [⟨1, .localGit⟩]).Isolated store .utc := by
  refine (ReportRun.isolated_iff (by decide)).mpr ?_
  rintro source hsource - other hother hne repo commit ⟨root, hroot, hunder⟩
    ⟨-, commits, hcommits, hmem⟩
  rw [List.mem_singleton.mp hsource] at hne
  simp only [store, List.mem_cons, List.not_mem_nil, or_false] at hother
  rcases hother with rfl | rfl
  · exact absurd rfl hne
  · rw [List.mem_singleton.mp hroot] at hunder
    -- the only repository with commits is not under that root
    change history.commits repo.path = .ok commits at hcommits
    unfold history at hcommits
    dsimp only at hcommits
    split_ifs at hcommits with htext
    · rw [show repo.path = ⟨"/a".toList⟩ from congrArg PathBuf.mk htext] at hunder
      exact absurd hunder (by decide)
    · cases hcommits
      exact absurd hmem List.not_mem_nil

/-- **One address for two sources**: the commit of the first is told for the second too. -/
theorem not_isolated : ¬∀ (s : Store) (tz : FixedOffset) (run : ReportRun), s.Disjoint →
    run.Isolated s tz := by
  intro h
  have hisolated := h store .utc (report [⟨1, .localGit⟩, ⟨2, .localGit⟩]) (by decide)
  have htells : (report [⟨1, .localGit⟩, ⟨2, .localGit⟩]).TellsFor store .utc 2 first commit :=
    ReportRun.tellsFor_iff.mpr ⟨⟨2, .localGit⟩, by simp [report], rfl, rfl, visits_first [], by decide⟩
  obtain ⟨root, hroot, hunder⟩ := hisolated.own _ _ _ htells
  revert root
  decide

end TwoRoots
end Dayseam
