import Dayseam.Desktop.Store
import Dayseam.Lib.Machine
import Mathlib

/-!
# Private repositories

The user marks a repository as private, and the scans of its source refresh or drop the
rows of the repositories.  The mark lives in the row: a repository that one scan misses
and a later one finds again comes back without it.

## Main definitions

* `PrivateRepos.Kept` — a repository that the user marked is private.
* `PrivateRepos.NotFoundAgain` — the calls that keep it so.

## Main results

* `PrivateRepos.kept_iff` — **when a repository that was marked stays private.**
* `PrivateRepos.found_again_public` — a repository that comes back public.
-/

namespace Dayseam

open LocalGit (DiscoveryOutcome DiscoveredRepo)

namespace PrivateRepos

open LocalRepoRepo (row upsertAll setIsPrivate reconcileForSource)

/-! ### Marks -/

/-- The store, and the paths that the user marked as private and has not set back. -/
structure State where
  store : Store
  marked : PathBuf → Bool

/-- The marks after a call. -/
def remark (s : State) : Store.Call → PathBuf → Bool
  | .setPrivate path isPrivate =>
    if s.store.returnsOk (.setPrivate path isPrivate) = true then
      Function.update s.marked path isPrivate
    else s.marked
  | _ => s.marked

def machine (store : Store) : Machine State Store.Call where
  init := ⟨store, fun _ => false⟩
  step := fun s call => some ⟨s.store.call call, remark s call⟩

/-- A repository that the user marked is private wherever the store has a row for it. -/
def Kept (s : State) : Prop :=
  ∀ path r, row s.store.repos path = some r → s.marked path = true → r.isPrivate = true

/-- No scan finds a marked repository whose row is gone. -/
def NotFoundAgain (s : State) : Store.Call → Prop
  | .rescan id scanRoots (.ok outcome) _ =>
    scanRoots ≠ [] → (s.store.localGit id).isSome = true → ∀ repo ∈ outcome.repos,
      s.marked repo.path = true → (row s.store.repos repo.path).isSome = true
  | _ => True

variable {s : State} {t : LocalRepoRows} {id : Uuid} {outcome : DiscoveryOutcome} {now : ℤ}
  {path : PathBuf} {r : LocalRepoRow}

theorem map_path_keep (repos : List DiscoveredRepo) (now : ℤ) :
    (Store.keep repos now).map (·.path) = repos.map (·.path) := by
  simp [Store.keep]

theorem isPrivate_of_mem_keep {repos : List DiscoveredRepo} {repo : LocalRepo}
    (h : repo ∈ Store.keep repos now) : repo.isPrivate = false := by
  obtain ⟨_, -, rfl⟩ := List.mem_map.mp h
  rfl

/-- The flags after a scan are those of before, where there were any. -/
theorem isPrivate_upsertDiscoveredRepos {store : Store} {scanRoots : List PathBuf}
    {found : Except DayseamError DiscoveryOutcome}
    (h : row (store.upsertDiscoveredRepos id scanRoots found now) path = some r) :
    (∃ old, row store.repos path = some old ∧ r.isPrivate = old.isPrivate) ∨
      (row store.repos path = none ∧ scanRoots ≠ [] ∧
        ∃ outcome, found = .ok outcome ∧ path ∈ outcome.repos.map (·.path)) := by
  have hsame : row store.repos path = some r →
      ∃ old, row store.repos path = some old ∧ r.isPrivate = old.isPrivate := fun h => ⟨r, h, rfl⟩
  unfold Store.upsertDiscoveredRepos at h
  split_ifs at h with hroots
  · exact Or.inl (hsame h)
  split at h
  · exact Or.inl (hsame h)
  next outcome =>
  have hall : row (upsertAll store.repos id (Store.keep outcome.repos now)) path = some r →
      (∃ old, row store.repos path = some old ∧ r.isPrivate = old.isPrivate) ∨
        (row store.repos path = none ∧ scanRoots ≠ [] ∧ ∃ outcome', Except.ok outcome =
          (Except.ok outcome' : Except DayseamError DiscoveryOutcome) ∧
            path ∈ outcome'.repos.map (·.path)) := by
    intro hrow
    cases hold : row store.repos path with
    | some old =>
      obtain ⟨r', hr', hflag⟩ := @LocalRepoRepo.isPrivate_upsertAll _ id _
        (Store.keep outcome.repos now) _ hold
      rw [hrow] at hr'
      cases hr'
      exact Or.inl ⟨old, rfl, hflag⟩
    | none =>
      refine Or.inr ⟨rfl, hroots, outcome, rfl, ?_⟩
      by_contra hno
      rw [LocalRepoRepo.row_upsertAll_of_notMem (by rwa [map_path_keep]), hold] at hrow
      cases hrow
  dsimp only at h
  split_ifs at h with htrunc hempty
  · exact hall h
  · exact Or.inl (hsame h)
  · rw [LocalRepoRepo.row_reconcileForSource] at h
    exact hall (Option.filter_eq_some_iff.mp h).1

/-- A repository without a row comes back public. -/
theorem isPrivate_upsertDiscoveredRepos_new {store : Store} {scanRoots : List PathBuf}
    (h : row store.repos path = none) (hroots : scanRoots ≠ [])
    (hmem : path ∈ outcome.repos.map (·.path)) :
    ∃ r, row (store.upsertDiscoveredRepos id scanRoots (.ok outcome) now) path = some r ∧
      r.isPrivate = false := by
  have hkeep : path ∈ (Store.keep outcome.repos now).map (·.path) := by rwa [map_path_keep]
  obtain ⟨r, hr, hflag⟩ := @LocalRepoRepo.isPrivate_upsertAll_new _ id _ _ h hkeep
    fun _ => isPrivate_of_mem_keep
  refine ⟨r, ?_, hflag⟩
  unfold Store.upsertDiscoveredRepos
  rw [if_neg hroots]
  dsimp only
  split_ifs with htrunc hempty
  · exact hr
  · rw [hempty.1] at hkeep
    exact absurd hkeep List.not_mem_nil
  · rw [LocalRepoRepo.row_reconcileForSource, hr]
    exact Option.filter_eq_some_iff.mpr ⟨rfl, by simp [hkeep]⟩

/-! ### Steps -/

/-- The user's call keeps every mark. -/
theorem kept_setPrivate {isPrivate : Bool} (h : Kept s) :
    Kept ⟨s.store.call (.setPrivate path isPrivate), remark s (.setPrivate path isPrivate)⟩ := by
  intro path' r hrow hmark
  change row (setIsPrivate s.store.repos path isPrivate) path' = some r at hrow
  rw [LocalRepoRepo.row_setIsPrivate, Option.map_eq_some_iff] at hrow
  obtain ⟨old, hold, rfl⟩ := hrow
  dsimp only [remark] at hmark
  by_cases hpath : path' = path
  · subst hpath
    have hok : s.store.returnsOk (.setPrivate path' isPrivate) = true := by
      simp [Store.returnsOk, LocalRepoRepo.get, hold]
    rw [if_pos hok, Function.update_self] at hmark
    rw [if_pos rfl]
    exact hmark
  · rw [if_neg hpath]
    refine h path' old hold ?_
    split_ifs at hmark
    · rwa [Function.update_of_ne hpath] at hmark
    · exact hmark

theorem kept_deleteSource (h : Kept s) :
    Kept ⟨s.store.call (.deleteSource id), remark s (.deleteSource id)⟩ := by
  intro path r hrow hmark
  obtain ⟨hmem, hpath⟩ := LocalRepoRepo.row_eq_some_iff.mp hrow
  exact h path r (LocalRepoRepo.row_eq_some_iff.mpr ⟨(List.mem_filter.mp hmem).1, hpath⟩) hmark

/-- A scan keeps the marks of the rows, and unmarks what it finds again. -/
theorem kept_rescan_iff {scanRoots : List PathBuf} {found : Except DayseamError DiscoveryOutcome}
    (h : Kept s) :
    Kept ⟨s.store.call (.rescan id scanRoots found now), remark s (.rescan id scanRoots found now)⟩ ↔
      NotFoundAgain s (.rescan id scanRoots found now) := by
  by_cases hsource : (s.store.localGit id).isSome = true
  swap
  · refine iff_of_true ?_ ?_
    · simpa only [Store.call, dif_neg hsource, remark] using h
    · cases found with
      | error _ => trivial
      | ok outcome => exact fun _ hsome => absurd hsome hsource
  have hrepos : (s.store.call (.rescan id scanRoots found now)).repos =
      s.store.upsertDiscoveredRepos id scanRoots found now := by
    rw [Store.call, dif_pos hsource, Store.rescan]
  unfold Kept
  dsimp only [remark]
  rw [hrepos]
  constructor
  · intro hkept
    cases found with
    | error _ => trivial
    | ok outcome =>
      intro hroots _ repo hrepo hmark
      by_contra hnone
      rw [Option.not_isSome_iff_eq_none] at hnone
      obtain ⟨r, hr, hflag⟩ := isPrivate_upsertDiscoveredRepos_new hnone hroots
        (List.mem_map_of_mem hrepo)
      rw [hkept _ r hr hmark] at hflag
      cases hflag
  · intro hfound path r hrow hmark
    rcases isPrivate_upsertDiscoveredRepos hrow with ⟨old, hold, hflag⟩ |
      ⟨hnone, hroots, outcome, rfl, hmem⟩
    · exact hflag.trans (h path old hold hmark)
    · obtain ⟨repo, hrepo, rfl⟩ := List.mem_map.mp hmem
      have hsome := hfound hroots hsource repo hrepo hmark
      rw [hnone] at hsome
      cases hsome

/-- What one call preserves. -/
theorem kept_step_iff (h : Kept s) (call : Store.Call) :
    Kept ⟨s.store.call call, remark s call⟩ ↔ NotFoundAgain s call := by
  cases call with
  | setPrivate path isPrivate => exact iff_of_true (kept_setPrivate h) trivial
  | rescan id scanRoots found now => exact kept_rescan_iff h
  | addSource source =>
    refine iff_of_true ?_ trivial
    dsimp only [Store.call]
    split_ifs <;> exact h
  | updateConfig id config => exact iff_of_true h trivial
  | deleteSource id => exact iff_of_true (kept_deleteSource h) trivial

/-! ### Runs -/

/-- **When marked repositories stay private**: throughout a run from any store just when
no scan finds again a marked repository whose row an earlier call has dropped. -/
theorem kept_iff (store : Store) (calls : List Store.Call) :
    (machine store).Throughout Kept (machine store).init calls ↔
      (machine store).Allowed NotFoundAgain (machine store).init calls := by
  refine Machine.throughout_iff_allowed (fun s call => ⟨_, rfl⟩) ?_ ?_
  · intro s call s' hs hstep
    cases hstep
    exact kept_step_iff hs call
  · intro path r _ hmark
    cases hmark

section FoundAgain

/-- Two repositories under one root; the disk of the second comes and goes. -/
def disk (paths : List Text) : Except DayseamError DiscoveryOutcome :=
  .ok ⟨paths.map fun path => .fromPath ⟨path⟩, false⟩

def diskStore : Store where
  sources := [⟨1, .localGit, "work".toList, .localGit [⟨"/w".toList⟩], none, rfl⟩]
  repos := LocalRepoRepo.empty
  distinct := List.pairwise_singleton _ _
  owned := fun _ hr => absurd hr List.not_mem_nil

def diskCalls : List Store.Call :=
  [.rescan 1 [⟨"/w".toList⟩] (disk ["/w/a".toList, "/w/b".toList]) 0,
    .setPrivate ⟨"/w/b".toList⟩ true,
    .rescan 1 [⟨"/w".toList⟩] (disk ["/w/a".toList]) 1,
    .rescan 1 [⟨"/w".toList⟩] (disk ["/w/a".toList, "/w/b".toList]) 2]

/-- **A repository that one scan missed is public again** when the next finds it. -/
theorem found_again_public : ¬∀ (store : Store) (calls : List Store.Call),
    (machine store).Throughout Kept (machine store).init calls := by
  intro h
  have hrun : (((machine diskStore).exec (machine diskStore).init diskCalls).any fun s =>
      decide (((row s.store.repos ⟨"/w/b".toList⟩).map (·.isPrivate)) = some false) &&
        s.marked ⟨"/w/b".toList⟩) = true := by decide +kernel
  obtain ⟨s, hs, hlast⟩ := (Option.any_eq_true ..).mp hrun
  rw [Bool.and_eq_true, decide_eq_true_eq, Option.map_eq_some_iff] at hlast
  obtain ⟨⟨r, hr, hflag⟩, hmark⟩ := hlast
  have hkept := Machine.Throughout.last (h diskStore diskCalls) hs
  rw [hkept _ r hr hmark] at hflag
  cases hflag

end FoundAgain

end PrivateRepos
end Dayseam
