import Dayseam.Db.LocalRepos
import Dayseam.Db.SyncRunRepo
import Mathlib

/-!
# The reconciliation of the local repositories of a source

One transaction refreshes the rows of the repositories to keep and deletes the others of the
source.  How it deletes them depends on how many there are to keep; any statement can fail,
and then nothing of the transaction is left.

## Main definitions

* `reconcileTx` — the statements of the transaction.
* `reconcile` — the call, from the start of the transaction to its commit.
* `Reconciled` — what a caller is promised.

## Main results

* `deleteStale_eq` — the four ways to delete come to one.
* `reconcile_exact` — **a call does exactly what it says, or nothing.**
-/

namespace Dayseam
namespace LocalRepoRepo

/-- The statements of a call. -/
inductive ReconcileStatement
  | begin
  | list
  | pathAsStr (index : ℕ)
  | upsert (index : ℕ)
  | delete (index : ℕ)
  | commit
  deriving DecidableEq, Repr

section

-- which statements fail, and with what; and in which order a hash set is read
variable (fails : ReconcileStatement → Option DbError) (shuffle : List PathBuf → List PathBuf)

def attempt (statement : ReconcileStatement) : Except DbError Unit :=
  match fails statement with
  | some e => .error e
  | none => .ok ()

def BATCHED_DELETE_MAX : ℕ := 900

/-! ### The statements -/

/-- `DELETE FROM local_repos WHERE …`, with the number of rows that it affects. -/
def deleteWhere (t : LocalRepoRows) (p : LocalRepoRow → Bool) : ℕ × LocalRepoRows where
  fst := (t.rows.filter p).length
  snd := ⟨t.rows.filter fun r => !p r, t.distinct.filter _⟩

/-- The paths of the rows of a source, as a set. -/
def currentPaths (t : LocalRepoRows) (source : Uuid) : List PathBuf :=
  ((t.rows.filter (·.sourceId = source)).map (·.path)).dedup

/-- Refresh the row of every repository to keep, and collect the paths. -/
def upsertKeep (source : Uuid) :
    ℕ → LocalRepoRows → List PathBuf → List LocalRepo →
      Except DbError (LocalRepoRows × List PathBuf)
  | _, t, keepPaths, [] => .ok (t, keepPaths)
  | i, t, keepPaths, repo :: keep => do
    attempt fails (.pathAsStr i)
    attempt fails (.upsert i)
    upsertKeep source (i + 1) (upsert t source repo) (keepPaths.insert repo.path) keep

/-- Delete one path after another. -/
def deleteEach (source : Uuid) : ℕ → LocalRepoRows → List PathBuf → Except DbError LocalRepoRows
  | _, t, [] => .ok t
  | i, t, path :: stale => do
    attempt fails (.delete i)
    deleteEach source (i + 1)
      (deleteWhere t fun r => decide (r.sourceId = source ∧ r.path = path)).2 stale

/-- Delete the rows of the source that are not to be kept. -/
def deleteStale (t : LocalRepoRows) (source : Uuid) (current keepPaths : List PathBuf) :
    Except DbError (ℕ × LocalRepoRows) :=
  if current ⊆ keepPaths then .ok (0, t)
  else if keepPaths = [] then do
    attempt fails (.delete 0)
    return deleteWhere t fun r => decide (r.sourceId = source)
  else if keepPaths.length ≤ BATCHED_DELETE_MAX then do
    attempt fails (.delete 0)
    return deleteWhere t fun r => decide (r.sourceId = source ∧ r.path ∉ keepPaths)
  else do
    let stale := shuffle (current.filter fun path => decide (path ∉ keepPaths))
    let rest ← deleteEach fails source 0 t stale
    return (stale.length, rest)

/-- The transaction, on its own copy of the rows. -/
def reconcileTx (t : LocalRepoRows) (source : Uuid) (keep : List LocalRepo) :
    Except DbError (ℕ × LocalRepoRows) := do
  attempt fails .list
  let current := currentPaths t source
  let (upserted, keepPaths) ← upsertKeep fails source 0 t [] keep
  deleteStale fails shuffle upserted source current keepPaths

/-- The call.  A transaction that is not committed is rolled back. -/
def reconcile (t : LocalRepoRows) (source : Uuid) (keep : List LocalRepo) :
    Except DbError ℕ × LocalRepoRows :=
  match attempt fails .begin with
  | .error e => (.error e, t)
  | .ok () => match reconcileTx fails shuffle t source keep with
    | .error e => (.error e, t)
    | .ok (deleted, working) => match attempt fails .commit with
      | .error e => (.error e, t)
      | .ok () => (.ok deleted, working)

end

/-- What a call promises that deletes `n` rows. -/
structure Reconciled (before after : LocalRepoRows) (source : Uuid) (keep : List LocalRepo)
    (n : ℕ) : Prop where
  /-- The rows of the source are those of the paths to keep, each once. -/
  paths : ((after.rows.filter (·.sourceId = source)).map (·.path)).Perm (keep.map (·.path)).dedup
  /-- A row keeps the flag of the user. -/
  isPrivate : ∀ path r r', row before path = some r → row after path = some r' →
    r'.isPrivate = r.isPrivate
  /-- The rows of the other sources are as before, but for the paths that come over. -/
  others : ∀ r, r.sourceId ≠ source →
    (r ∈ after.rows ↔ r ∈ before.rows ∧ r.path ∉ keep.map (·.path))
  /-- The rows of the source that were not to be kept are counted. -/
  deleted : n = (before.rows.filter fun r =>
    decide (r.sourceId = source ∧ r.path ∉ keep.map (·.path))).length

variable {fails : ReconcileStatement → Option DbError} {shuffle : List PathBuf → List PathBuf}
  {t : LocalRepoRows} {source : Uuid} {keep : List LocalRepo}

/-! ### What the statements do -/

theorem bind_attempt_eq_ok {β : Type} {statement : ReconcileStatement} {x : Except DbError β}
    {b : β} (h : (attempt fails statement >>= fun _ => x) = .ok b) : x = .ok b := by
  unfold attempt at h
  cases hf : fails statement with
  | none => rwa [hf] at h
  | some e =>
    rw [hf] at h
    cases h

theorem upsertKeep_eq_ok {i : ℕ} {paths paths' : List PathBuf} {t' : LocalRepoRows}
    (h : upsertKeep fails source i t paths keep = .ok (t', paths')) :
    t' = upsertAll t source keep ∧ ∀ p, p ∈ paths' ↔ p ∈ paths ∨ p ∈ keep.map (·.path) := by
  induction keep generalizing i t paths with
  | nil =>
    obtain ⟨rfl, rfl⟩ := Prod.mk.inj (Except.ok.inj h)
    exact ⟨rfl, fun p => by simp⟩
  | cons repo keep ih =>
    obtain ⟨ht, hpaths⟩ := ih (bind_attempt_eq_ok (bind_attempt_eq_ok h))
    refine ⟨ht, fun p => ?_⟩
    rw [hpaths, List.mem_insert_iff, List.map_cons, List.mem_cons]
    tauto

theorem deleteEach_eq_ok {i : ℕ} {stale : List PathBuf} {t' : LocalRepoRows}
    (h : deleteEach fails source i t stale = .ok t') :
    t'.rows = t.rows.filter fun r => !decide (r.sourceId = source ∧ r.path ∈ stale) := by
  induction stale generalizing i t with
  | nil =>
    obtain rfl := Except.ok.inj h
    exact (List.filter_eq_self.mpr fun r _ => by simp).symm
  | cons path stale ih =>
    rw [ih (bind_attempt_eq_ok h)]
    simp only [deleteWhere, List.filter_filter]
    apply List.filter_congr
    intro r _
    by_cases hs : r.sourceId = source <;> by_cases hp : r.path = path <;> simp [hs, hp]

/-- A row that is not refreshed is as before. -/
theorem mem_upsertAll_iff {r : LocalRepoRow} (h : r.path ∉ keep.map (·.path)) :
    r ∈ (upsertAll t source keep).rows ↔ r ∈ t.rows := by
  have hrow := @row_upsertAll_of_notMem t source r.path keep h
  have hiff : ∀ t : LocalRepoRows, r ∈ t.rows ↔ row t r.path = some r := fun t => by
    rw [row_eq_some_iff]
    simp
  rw [hiff, hiff, hrow]

/-- The refreshed rows are of the source. -/
theorem sourceId_upsertAll {r : LocalRepoRow} (hr : r ∈ (upsertAll t source keep).rows)
    (h : r.path ∈ keep.map (·.path)) : r.sourceId = source := by
  induction keep generalizing t with
  | nil => exact absurd h List.not_mem_nil
  | cons repo keep ih =>
    rw [upsertAll, List.foldl_cons, ← upsertAll] at hr
    by_cases hin : r.path ∈ keep.map (·.path)
    · exact ih hr hin
    · -- the last repository of the path is this one
      have hpath : repo.path = r.path := by
        rcases List.mem_cons.mp h with heq | hmem
        · exact heq.symm
        · exact absurd hmem hin
      have hrow := row_eq_some_iff.mpr ⟨(mem_upsertAll_iff hin).mp hr, rfl⟩
      rw [row_upsert, if_pos hpath] at hrow
      cases hold : row t r.path with
      | none =>
        rw [hold] at hrow
        rw [← Option.some.inj hrow]
        rfl
      | some old =>
        rw [hold] at hrow
        rw [← Option.some.inj hrow]
        rfl

/-- Every path to keep has a row. -/
theorem exists_row_upsertAll {path : PathBuf} (h : path ∈ keep.map (·.path)) :
    ∃ r, row (upsertAll t source keep) path = some r := by
  induction keep generalizing t with
  | nil => exact absurd h List.not_mem_nil
  | cons repo keep ih =>
    rw [upsertAll, List.foldl_cons, ← upsertAll]
    rcases List.mem_cons.mp h with heq | hmem
    · have hrow : row (upsert t source repo) path =
          some (KeyedMerge.join refresh (row t path) ⟨repo, source⟩) := by
        rw [row_upsert, if_pos heq.symm]
      obtain ⟨r, hr, -⟩ := @isPrivate_upsertAll _ source _ keep _ hrow
      exact ⟨r, hr⟩
    · exact ih hmem

/-! ### The ways to delete -/

/-- A row of the source that is not to be kept. -/
def isStale (source : Uuid) (keep : List LocalRepo) (r : LocalRepoRow) : Bool :=
  decide (r.sourceId = source ∧ r.path ∉ keep.map (·.path))

theorem nodup_rows (t : LocalRepoRows) : t.rows.Nodup :=
  t.distinct.imp fun hne heq => hne (congrArg _ heq)

/-- The refreshed rows do not change the stale ones. -/
theorem length_stale_upsertAll :
    ((upsertAll t source keep).rows.filter (isStale source keep)).length =
      (t.rows.filter (isStale source keep)).length := by
  apply List.Perm.length_eq
  rw [List.perm_ext_iff_of_nodup ((nodup_rows _).filter _) ((nodup_rows _).filter _)]
  intro r
  simp only [List.mem_filter, isStale, decide_eq_true_eq]
  constructor
  · rintro ⟨hr, hs, hp⟩
    exact ⟨(mem_upsertAll_iff hp).mp hr, hs, hp⟩
  · rintro ⟨hr, hs, hp⟩
    exact ⟨(mem_upsertAll_iff hp).mpr hr, hs, hp⟩

theorem rows_reconcileForSource :
    (reconcileForSource t source keep).rows =
      (upsertAll t source keep).rows.filter fun r => !isStale source keep r := by
  apply List.filter_congr
  intro r _
  by_cases hs : r.sourceId = source <;> by_cases hp : r.path ∈ keep.map (·.path) <;>
    simp [isStale, hs, hp]

theorem eq_of_rows {t t' : LocalRepoRows} (h : t.rows = t'.rows) : t = t' := by
  cases t
  cases t'
  cases h
  rfl

theorem mem_currentPaths {path : PathBuf} :
    path ∈ currentPaths t source ↔ ∃ r ∈ t.rows, r.sourceId = source ∧ r.path = path := by
  simp [currentPaths, and_assoc]

/-- The stale paths are as many as the stale rows. -/
theorem length_stale_paths {keepPaths : List PathBuf}
    (hkeep : ∀ p, p ∈ keepPaths ↔ p ∈ keep.map (·.path)) :
    ((currentPaths t source).filter fun path => decide (path ∉ keepPaths)).length =
      (t.rows.filter (isStale source keep)).length := by
  have hnodup : ((t.rows.filter (·.sourceId = source)).map LocalRepoRow.path).Nodup :=
    KeyedMerge.distinct_iff_nodup_map.mp (t.distinct.filter _)
  rw [currentPaths, List.Nodup.dedup hnodup, List.filter_map, List.length_map, List.filter_filter]
  congr 1
  apply List.filter_congr
  intro r _
  simp only [Function.comp_apply, isStale, hkeep, Bool.decide_and, Bool.and_comm]

/-- **The four ways to delete** leave the same rows and give the same number. -/
theorem deleteStale_eq {keepPaths : List PathBuf} {n : ℕ} {t' : LocalRepoRows}
    (hkeep : ∀ p, p ∈ keepPaths ↔ p ∈ keep.map (·.path))
    (hshuffle : ∀ paths, (shuffle paths).Perm paths)
    (h : deleteStale fails shuffle (upsertAll t source keep) source (currentPaths t source)
      keepPaths = .ok (n, t')) :
    t' = reconcileForSource t source keep ∧ n = (t.rows.filter (isStale source keep)).length := by
  have hstale : ∀ p : LocalRepoRow → Bool, (∀ r ∈ (upsertAll t source keep).rows,
      p r = isStale source keep r) →
      (deleteWhere (upsertAll t source keep) p).2 = reconcileForSource t source keep ∧
        (deleteWhere (upsertAll t source keep) p).1 =
          (t.rows.filter (isStale source keep)).length := by
    intro p hp
    refine ⟨eq_of_rows ?_, ?_⟩
    · rw [rows_reconcileForSource]
      exact List.filter_congr fun r hr => congrArg (!·) (hp r hr)
    · rw [← length_stale_upsertAll]
      exact congrArg List.length (List.filter_congr hp)
  unfold deleteStale at h
  split_ifs at h with hsub hempty hbatched
  · -- nothing is stale
    have hnone : ∀ r ∈ t.rows, ¬ isStale source keep r = true := by
      intro r hr hstale
      obtain ⟨hs, hp⟩ := of_decide_eq_true hstale
      exact hp ((hkeep _).mp (hsub (mem_currentPaths.mpr ⟨r, hr, hs, rfl⟩)))
    have hzero : (t.rows.filter (isStale source keep)).length = 0 := by
      rw [List.filter_eq_nil_iff.mpr hnone, List.length_nil]
    have hzero' := List.length_eq_zero_iff.mp (length_stale_upsertAll.trans hzero)
    obtain ⟨rfl, rfl⟩ := Prod.mk.inj (Except.ok.inj h)
    refine ⟨eq_of_rows ?_, hzero.symm⟩
    rw [rows_reconcileForSource]
    refine (List.filter_eq_self.mpr fun r hr => ?_).symm
    rw [Bool.not_eq_true']
    exact Bool.eq_false_iff.mpr (List.filter_eq_nil_iff.mp hzero' r hr)
  · obtain ⟨hn, ht⟩ := Prod.mk.inj (Except.ok.inj (bind_attempt_eq_ok h))
    have hp := hstale (fun r => decide (r.sourceId = source)) fun r _ => by
      have hnil : r.path ∉ keep.map (·.path) := fun hmem => by
        rw [← hkeep, hempty] at hmem
        exact absurd hmem List.not_mem_nil
      simp only [isStale, hnil, not_false_eq_true, and_true]
    exact ⟨ht.symm.trans hp.1, hn.symm.trans hp.2⟩
  · obtain ⟨hn, ht⟩ := Prod.mk.inj (Except.ok.inj (bind_attempt_eq_ok h))
    have hp := hstale (fun r => decide (r.sourceId = source ∧ r.path ∉ keepPaths)) fun r _ => by
      simp only [isStale, hkeep]
    exact ⟨ht.symm.trans hp.1, hn.symm.trans hp.2⟩
  · -- the paths to delete are read from a set, in any order
    set stale := shuffle ((currentPaths t source).filter fun path => decide (path ∉ keepPaths))
      with hdef
    have hperm := hshuffle ((currentPaths t source).filter fun path => decide (path ∉ keepPaths))
    cases hrest : deleteEach fails source 0 (upsertAll t source keep) stale with
    | error e => simp [hrest, bind, Except.bind] at h
    | ok rest =>
      simp only [hrest, bind, Except.bind, pure, Except.pure, Except.ok.injEq, Prod.mk.injEq] at h
      obtain ⟨rfl, rfl⟩ := h
      refine ⟨eq_of_rows ?_, hperm.length_eq.trans (length_stale_paths hkeep)⟩
      rw [deleteEach_eq_ok hrest, rows_reconcileForSource]
      apply List.filter_congr
      intro r hr
      congr 1
      rw [isStale, decide_eq_decide, hdef, hperm.mem_iff, List.mem_filter, decide_eq_true_eq,
        mem_currentPaths, hkeep]
      constructor
      · rintro ⟨hs, -, hp⟩
        exact ⟨hs, hp⟩
      · rintro ⟨hs, hp⟩
        exact ⟨hs, ⟨r, (mem_upsertAll_iff hp).mp hr, hs, rfl⟩, hp⟩

/-! ### The call -/

/-- The rows after a reconciliation are as promised. -/
theorem reconciled_reconcileForSource :
    Reconciled t (reconcileForSource t source keep) source keep
      (t.rows.filter (isStale source keep)).length where
  paths := by
    have hnodup : (((reconcileForSource t source keep).rows.filter (·.sourceId = source)).map
        LocalRepoRow.path).Nodup := KeyedMerge.distinct_iff_nodup_map.mp
      ((reconcileForSource t source keep).distinct.filter _)
    apply (List.perm_ext_iff_of_nodup hnodup (List.nodup_dedup _)).mpr
    intro path
    simp only [List.mem_map, List.mem_filter, reconcileForSource, decide_eq_true_eq,
      List.mem_dedup]
    constructor
    · rintro ⟨r, ⟨⟨hr, hkeep⟩, hs⟩, rfl⟩
      rcases hkeep with hne | hmem
      · exact absurd hs hne
      · exact hmem
    · intro hmem
      have hmem' : path ∈ keep.map (·.path) := List.mem_map.mpr hmem
      obtain ⟨r, hrow⟩ := @exists_row_upsertAll t source keep path hmem'
      obtain ⟨hr, rfl⟩ := row_eq_some_iff.mp hrow
      exact ⟨r, ⟨⟨hr, Or.inr hmem⟩, sourceId_upsertAll hr hmem'⟩, rfl⟩
  isPrivate := by
    intro path r r' hbefore hafter
    obtain ⟨r'', hrow, hflag⟩ := @isPrivate_upsertAll t source path keep r hbefore
    rw [row_reconcileForSource, hrow] at hafter
    obtain ⟨heq, -⟩ := Option.filter_eq_some_iff.mp hafter
    rw [← Option.some.inj heq, hflag]
  others := by
    intro r hs
    simp only [reconcileForSource, List.mem_filter, decide_eq_true_eq]
    constructor
    · rintro ⟨hr, -⟩
      have hp : r.path ∉ keep.map (·.path) := fun hp => hs (sourceId_upsertAll hr hp)
      exact ⟨(mem_upsertAll_iff hp).mp hr, hp⟩
    · rintro ⟨hr, hp⟩
      exact ⟨(mem_upsertAll_iff hp).mpr hr, Or.inl hs⟩
  deleted := rfl

/-- **A call does what it says, or nothing.**  Whatever statement fails, and however the rows
are deleted. -/
theorem reconcile_exact (fails : ReconcileStatement → Option DbError)
    (shuffle : List PathBuf → List PathBuf) (hshuffle : ∀ paths, (shuffle paths).Perm paths)
    (t : LocalRepoRows) (source : Uuid) (keep : List LocalRepo) :
    (∀ n, (reconcile fails shuffle t source keep).1 = .ok n →
      Reconciled t (reconcile fails shuffle t source keep).2 source keep n) ∧
    ∀ e, (reconcile fails shuffle t source keep).1 = .error e →
      (reconcile fails shuffle t source keep).2 = t := by
  unfold reconcile
  cases attempt fails .begin with
  | error e => exact ⟨fun n h => (by cases h), fun _ _ => rfl⟩
  | ok _ =>
    cases htx : reconcileTx fails shuffle t source keep with
    | error e => exact ⟨fun n h => (by cases h), fun _ _ => rfl⟩
    | ok result =>
      obtain ⟨deleted, working⟩ := result
      cases attempt fails .commit with
      | error e => exact ⟨fun n h => (by cases h), fun _ _ => rfl⟩
      | ok _ =>
        refine ⟨?_, fun e h => (by cases h)⟩
        rintro n ⟨⟩
        have hbody := bind_attempt_eq_ok htx
        cases hup : upsertKeep fails source 0 t [] keep with
        | error e => simp [hup, bind, Except.bind] at hbody
        | ok upserted =>
          obtain ⟨t', keepPaths⟩ := upserted
          obtain ⟨rfl, hpaths⟩ := upsertKeep_eq_ok hup
          simp only [hup, bind, Except.bind] at hbody
          obtain ⟨rfl, rfl⟩ := deleteStale_eq (fun p => by simp [hpaths]) hshuffle hbody
          exact reconciled_reconcileForSource

/-- A repository at a path. -/
def repoAt (path : String) : LocalRepo := ⟨⟨path.toList⟩, path.toList, false, 0⟩

/-- A source whose one repository moves from "/a" to "/b". -/
theorem reconcile_moved :
    Reconciled (upsert empty 1 (repoAt "/a"))
      (reconcile (fun _ => none) id (upsert empty 1 (repoAt "/a")) 1 [repoAt "/b"]).2
      1 [repoAt "/b"] 1 :=
  (reconcile_exact (fun _ => none) id (fun paths => List.Perm.refl paths) _ _ _).1 1
    (by decide +kernel)

end LocalRepoRepo
end Dayseam
