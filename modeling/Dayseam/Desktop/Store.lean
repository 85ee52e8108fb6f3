import Dayseam.Connectors.LocalGit
import Dayseam.Core.Source
import Dayseam.Db.LocalRepos
import Mathlib

/-!
# The store of the commands

The commands of the desktop application read and write the sources and the local
repositories.  The row of a repository belongs to a LocalGit source, and goes with it.

## Main definitions

* `Store` — the sources and the local repositories.
* `Store.upsertDiscoveredRepos` — a scan of the roots of a source.
* `Store.call` — the writes of the commands.
-/

namespace Dayseam

open LocalGit (DiscoveryOutcome DiscoveredRepo)

/-- No two sources have one id, and the rows of the repositories belong to sources. -/
structure Store where
  sources : List Source
  repos : LocalRepoRows
  distinct : KeyedMerge.Distinct Source.id sources
  owned : ∀ r ∈ repos.rows, ∃ source ∈ sources, source.id = r.sourceId ∧ source.kind = .localGit

namespace Store

def empty : Store where
  sources := []
  repos := LocalRepoRepo.empty
  distinct := List.Pairwise.nil
  owned := fun _ hr => absurd hr List.not_mem_nil

variable (s : Store)

/-- The LocalGit source of an id. -/
def localGit (id : Uuid) : Option Source :=
  s.sources.find? fun source => decide (source.id = id ∧ source.kind = .localGit)

/-! ### Scans -/

/-- The rows that a scan found, all public. -/
def keep (repos : List DiscoveredRepo) (now : ℤ) : List LocalRepo :=
  repos.map fun repo => ⟨repo.path, repo.label, false, now⟩

/-- `upsert_discovered_repos`.  A scan that failed changes nothing, one that stopped at
the cap only adds, and an empty one does not empty the source. -/
def upsertDiscoveredRepos (id : Uuid) (scanRoots : List PathBuf)
    (found : Except DayseamError DiscoveryOutcome) (now : ℤ) : LocalRepoRows :=
  if scanRoots = [] then s.repos
  else match found with
    | .error _ => s.repos
    | .ok outcome =>
      let rows := keep outcome.repos now
      if outcome.truncated = true then LocalRepoRepo.upsertAll s.repos id rows
      else if rows = [] ∧ LocalRepoRepo.listForSource s.repos id ≠ [] then s.repos
      else LocalRepoRepo.reconcileForSource s.repos id rows

theorem sourceId_of_mem_upsertDiscoveredRepos {id : Uuid} {scanRoots : List PathBuf}
    {found : Except DayseamError DiscoveryOutcome} {now : ℤ} {r : LocalRepoRow}
    (h : r ∈ (s.upsertDiscoveredRepos id scanRoots found now).rows) :
    r.sourceId = id ∨ ∃ old ∈ s.repos.rows, old.sourceId = r.sourceId := by
  have hsame : r ∈ s.repos.rows → r.sourceId = id ∨ ∃ old ∈ s.repos.rows, old.sourceId = r.sourceId :=
    fun h => Or.inr ⟨r, h, rfl⟩
  unfold upsertDiscoveredRepos at h
  split_ifs at h
  · exact hsame h
  split at h
  · exact hsame h
  dsimp only at h
  split_ifs at h
  · exact LocalRepoRepo.sourceId_of_mem_upsertAll h
  · exact hsame h
  · exact LocalRepoRepo.sourceId_of_mem_upsertAll (List.mem_filter.mp h).1

/-! ### Commands -/

/-- A command: the user's mark, the scan that ends an added or updated LocalGit source,
and the writes of the sources. -/
inductive Call
  | setPrivate (path : PathBuf) (isPrivate : Bool)
  | rescan (id : Uuid) (scanRoots : List PathBuf) (found : Except DayseamError DiscoveryOutcome)
      (now : ℤ)
  | addSource (source : Source)
  | updateConfig (id : Uuid) (config : SourceConfig)
  | deleteSource (id : Uuid)

def setPrivate (path : PathBuf) (isPrivate : Bool) : Store where
  sources := s.sources
  repos := LocalRepoRepo.setIsPrivate s.repos path isPrivate
  distinct := s.distinct
  owned := by
    intro r hr
    obtain ⟨old, hold, rfl⟩ := List.mem_map.mp hr
    split_ifs <;> exact s.owned old hold

/-- A scan of a LocalGit source. -/
def rescan (id : Uuid) (scanRoots : List PathBuf) (found : Except DayseamError DiscoveryOutcome)
    (now : ℤ) (h : (s.localGit id).isSome = true) : Store where
  sources := s.sources
  repos := s.upsertDiscoveredRepos id scanRoots found now
  distinct := s.distinct
  owned := by
    intro r hr
    rcases s.sourceId_of_mem_upsertDiscoveredRepos hr with rfl | ⟨old, hold, hsource⟩
    · obtain ⟨source, hfind⟩ := Option.isSome_iff_exists.mp h
      exact ⟨source, List.mem_of_find?_eq_some hfind, by simpa using List.find?_some hfind⟩
    · rw [← hsource]
      exact s.owned old hold

/-- A source with an id of its own. -/
def addSource (source : Source) (h : ∀ old ∈ s.sources, old.id ≠ source.id) : Store where
  sources := s.sources ++ [source]
  repos := s.repos
  distinct := by
    refine List.pairwise_append.mpr ⟨s.distinct, List.pairwise_singleton _ _, ?_⟩
    intro old hold new hnew
    rw [List.mem_singleton.mp hnew]
    exact h old hold
  owned := by
    intro r hr
    obtain ⟨old, hold, hsource⟩ := s.owned r hr
    exact ⟨old, List.mem_append_left _ hold, hsource⟩

def updateConfig (id : Uuid) (config : SourceConfig) : Store where
  sources := s.sources.map fun source => source.updateConfig id config
  repos := s.repos
  distinct := List.pairwise_map.mpr (s.distinct.imp fun h => by simpa using h)
  owned := by
    intro r hr
    obtain ⟨old, hold, hsource⟩ := s.owned r hr
    exact ⟨_, List.mem_map_of_mem hold, by simpa using hsource⟩

/-- The rows of a source go with it. -/
def deleteSource (id : Uuid) : Store where
  sources := s.sources.filter fun source => source.id ≠ id
  repos := ⟨s.repos.rows.filter fun r => r.sourceId ≠ id, s.repos.distinct.filter _⟩
  distinct := s.distinct.filter _
  owned := by
    intro r hr
    obtain ⟨hmem, hne⟩ := List.mem_filter.mp hr
    obtain ⟨old, hold, hsource, hkind⟩ := s.owned r hmem
    exact ⟨old, List.mem_filter.mpr ⟨hold, by rw [hsource]; exact hne⟩, hsource, hkind⟩

def call : Call → Store
  | .setPrivate path isPrivate => s.setPrivate path isPrivate
  | .rescan id scanRoots found now =>
    if h : (s.localGit id).isSome = true then s.rescan id scanRoots found now h else s
  | .addSource source =>
    if h : ∀ old ∈ s.sources, old.id ≠ source.id then s.addSource source h else s
  | .updateConfig id config => s.updateConfig id config
  | .deleteSource id => s.deleteSource id

/-- `local_repos_set_private` returns the row, or an error where there is none. -/
def returnsOk : Call → Bool
  | .setPrivate path _ => (LocalRepoRepo.get s.repos path).isSome
  | _ => true

end Store
end Dayseam
