import Dayseam.Core.Source
import Dayseam.Lib.KeyedMerge
import Mathlib

/-!
# The repository of local repositories

A row has the path of a local git repository as its key.  Discovery refreshes
everything in a row but the private flag, which is the user's.

## Main definitions

* `LocalRepoRows` — the rows, no two of one path.
* `LocalRepoRepo.upsert`, `LocalRepoRepo.setIsPrivate`,
  `LocalRepoRepo.reconcileForSource` — the writes.

## Main results

* `LocalRepoRepo.isPrivate_upsertAll` — a batch keeps the flags of the rows.
* `LocalRepoRepo.row_reconcileForSource` — the row of a path after a reconciliation.
-/

namespace Dayseam

structure LocalRepo where
  path : PathBuf
  label : Text
  isPrivate : Bool
  discoveredAt : ℤ
  deriving DecidableEq

/-- A row of `local_repos`. -/
structure LocalRepoRow where
  repo : LocalRepo
  sourceId : Uuid
  deriving DecidableEq

def LocalRepoRow.path (r : LocalRepoRow) : PathBuf := r.repo.path

def LocalRepoRow.isPrivate (r : LocalRepoRow) : Bool := r.repo.isPrivate

/-- The row with another flag. -/
def LocalRepoRow.mark (r : LocalRepoRow) (isPrivate : Bool) : LocalRepoRow :=
  { r with repo := { r.repo with isPrivate := isPrivate } }

structure LocalRepoRows where
  rows : List LocalRepoRow
  distinct : KeyedMerge.Distinct LocalRepoRow.path rows

namespace LocalRepoRepo

open KeyedMerge (place Distinct distinct_place find?_place join Keeps)

def empty : LocalRepoRows := ⟨[], List.Pairwise.nil⟩

variable {t : LocalRepoRows} {source : Uuid} {repo : LocalRepo} {path : PathBuf}

/-! ### Reads -/

/-- The row of a path. -/
def row (t : LocalRepoRows) (path : PathBuf) : Option LocalRepoRow := t.rows.find? (·.path = path)

def get (t : LocalRepoRows) (path : PathBuf) : Option LocalRepo := (row t path).map (·.repo)

def listForSource (t : LocalRepoRows) (source : Uuid) : List LocalRepo :=
  (t.rows.filter (·.sourceId = source)).map (·.repo)

theorem row_eq_some_iff {r : LocalRepoRow} : row t path = some r ↔ r ∈ t.rows ∧ r.path = path := by
  constructor
  · intro h
    exact ⟨List.mem_of_find?_eq_some h, by simpa using List.find?_some h⟩
  · rintro ⟨hmem, rfl⟩
    exact t.distinct.find?_eq hmem

theorem row_path {r : LocalRepoRow} (h : row t path = some r) : r.path = path :=
  (row_eq_some_iff.mp h).2

theorem mem_listForSource :
    repo ∈ listForSource t source ↔ ∃ r, row t repo.path = some r ∧
      r.sourceId = source ∧ r.repo = repo := by
  simp only [listForSource, List.mem_map, List.mem_filter, decide_eq_true_eq]
  constructor
  · rintro ⟨r, ⟨hmem, hsource⟩, rfl⟩
    exact ⟨r, row_eq_some_iff.mpr ⟨hmem, rfl⟩, hsource, rfl⟩
  · rintro ⟨r, hrow, hsource, rfl⟩
    exact ⟨r, ⟨(row_eq_some_iff.mp hrow).1, hsource⟩, rfl⟩

/-! ### Upserts -/

/-- Every column is the new one but the private flag. -/
def refresh (old new : LocalRepoRow) : LocalRepoRow :=
  { new with repo := { new.repo with isPrivate := old.isPrivate } }

theorem keeps_refresh : Keeps LocalRepoRow.path refresh := fun _ _ _ => rfl

/-- `INSERT … ON CONFLICT(path) DO UPDATE`. -/
def upsert (t : LocalRepoRows) (source : Uuid) (repo : LocalRepo) : LocalRepoRows where
  rows := place LocalRepoRow.path refresh t.rows ⟨repo, source⟩
  distinct := distinct_place keeps_refresh t.distinct _

theorem row_upsert : row (upsert t source repo) path =
    if repo.path = path then some (join refresh (row t path) ⟨repo, source⟩) else row t path :=
  find?_place keeps_refresh t.rows _ path

/-- The rows after a batch of repositories that were discovered. -/
def upsertAll (t : LocalRepoRows) (source : Uuid) (repos : List LocalRepo) : LocalRepoRows :=
  repos.foldl (upsert · source) t

/-- A row of another source is as it was. -/
theorem sourceId_of_mem_upsertAll {repos : List LocalRepo} {r : LocalRepoRow}
    (h : r ∈ (upsertAll t source repos).rows) :
    r.sourceId = source ∨ ∃ old ∈ t.rows, old.sourceId = r.sourceId := by
  induction repos generalizing t with
  | nil => exact Or.inr ⟨r, h, rfl⟩
  | cons repo repos ih =>
    rw [upsertAll, List.foldl_cons, ← upsertAll] at h
    rcases ih h with hsource | ⟨old, hold, hsource⟩
    · exact Or.inl hsource
    · rcases KeyedMerge.mem_place hold with rfl | ⟨r', -, -, rfl⟩ | hold
      · exact Or.inl hsource.symm
      · exact Or.inl hsource.symm
      · exact Or.inr ⟨old, hold, hsource⟩

theorem row_upsertAll_of_notMem {repos : List LocalRepo} (h : path ∉ repos.map (·.path)) :
    row (upsertAll t source repos) path = row t path := by
  induction repos generalizing t with
  | nil => rfl
  | cons repo repos ih =>
    rw [List.map_cons, List.mem_cons, not_or] at h
    rw [upsertAll, List.foldl_cons, ← upsertAll, ih h.2, row_upsert, if_neg (Ne.symm h.1)]

/-- **A batch keeps the flag** of a row that it refreshes. -/
theorem isPrivate_upsertAll {repos : List LocalRepo} {r : LocalRepoRow} (h : row t path = some r) :
    ∃ r', row (upsertAll t source repos) path = some r' ∧ r'.isPrivate = r.isPrivate := by
  induction repos generalizing t r with
  | nil => exact ⟨r, h, rfl⟩
  | cons repo repos ih =>
    rw [upsertAll, List.foldl_cons, ← upsertAll]
    by_cases hpath : repo.path = path
    · have hrow : row (upsert t source repo) path = some (refresh r ⟨repo, source⟩) := by
        rw [row_upsert, if_pos hpath, h]
        rfl
      obtain ⟨r', hr', hflag⟩ := ih hrow
      exact ⟨r', hr', hflag⟩
    · have hrow : row (upsert t source repo) path = some r := by rw [row_upsert, if_neg hpath, h]
      exact ih hrow

/-- **A batch of public repositories** makes a new row of each path public. -/
theorem isPrivate_upsertAll_new {repos : List LocalRepo} (h : row t path = none)
    (hmem : path ∈ repos.map (·.path)) (hpublic : ∀ repo ∈ repos, repo.isPrivate = false) :
    ∃ r', row (upsertAll t source repos) path = some r' ∧ r'.isPrivate = false := by
  induction repos generalizing t with
  | nil => exact absurd hmem List.not_mem_nil
  | cons repo repos ih =>
    rw [upsertAll, List.foldl_cons, ← upsertAll]
    by_cases hpath : repo.path = path
    · have hrow : row (upsert t source repo) path = some ⟨repo, source⟩ := by
        rw [row_upsert, if_pos hpath, h]
        rfl
      obtain ⟨r', hr', hflag⟩ := @isPrivate_upsertAll _ source _ repos _ hrow
      exact ⟨r', hr', hflag.trans (hpublic repo List.mem_cons_self)⟩
    · have hrow : row (upsert t source repo) path = none := by rw [row_upsert, if_neg hpath, h]
      rcases List.mem_cons.mp hmem with heq | hmem
      · exact absurd heq.symm hpath
      · exact ih hrow hmem fun r hr => hpublic r (List.mem_cons_of_mem _ hr)

/-! ### The user's flag -/

/-- `UPDATE local_repos SET is_private = ? WHERE path = ?`. -/
def setIsPrivate (t : LocalRepoRows) (path : PathBuf) (isPrivate : Bool) : LocalRepoRows where
  rows := t.rows.map fun r => if r.path = path then r.mark isPrivate else r
  distinct := by
    refine List.pairwise_map.mpr (t.distinct.imp ?_)
    intro a b hab
    split_ifs <;> exact hab

theorem row_setIsPrivate {isPrivate : Bool} {path' : PathBuf} :
    row (setIsPrivate t path isPrivate) path' = (row t path').map fun r =>
      if path' = path then r.mark isPrivate else r := by
  unfold row setIsPrivate
  rw [List.find?_map]
  have hpath : ((fun r : LocalRepoRow => decide (r.path = path')) ∘ fun r =>
      if r.path = path then r.mark isPrivate else r) =
      fun r => decide (r.path = path') := by
    funext r
    dsimp only [Function.comp]
    split_ifs <;> rfl
  rw [hpath]
  cases hfind : t.rows.find? (fun r => decide (r.path = path')) with
  | none => rfl
  | some r =>
    have hr : r.path = path' := by simpa using List.find?_some hfind
    simp only [Option.map_some, hr]

/-! ### Reconciliation -/

/-- The rows of the source become those of the repositories to keep. -/
def reconcileForSource (t : LocalRepoRows) (source : Uuid) (keep : List LocalRepo) :
    LocalRepoRows where
  rows := (upsertAll t source keep).rows.filter fun r =>
    r.sourceId ≠ source ∨ r.path ∈ keep.map (·.path)
  distinct := (upsertAll t source keep).distinct.filter _

theorem row_reconcileForSource {keep : List LocalRepo} :
    row (reconcileForSource t source keep) path =
      (row (upsertAll t source keep) path).filter fun r =>
        r.sourceId ≠ source ∨ path ∈ keep.map (·.path) := by
  ext r
  rw [row_eq_some_iff, Option.filter_eq_some_iff, row_eq_some_iff, reconcileForSource,
    List.mem_filter]
  constructor
  · rintro ⟨⟨hmem, hkeep⟩, rfl⟩
    exact ⟨⟨hmem, rfl⟩, hkeep⟩
  · rintro ⟨⟨hmem, rfl⟩, hkeep⟩
    exact ⟨⟨hmem, hkeep⟩, rfl⟩

end LocalRepoRepo
end Dayseam
