import Dayseam.Desktop.SourceCommands
import Mathlib

/-!
# Additions of sources that fail

A command that adds sources and fails undoes what it wrote.  The login session of an
Outlook source is not given back once its tokens are taken; and nothing is undone where the
scan of the local repositories, or the last look at the new row, fails.

## Main definitions

* `AtlassianIpc.Store.Grown` — a store with rows of new sources.
* `SourceIpc.AddCall` — the calls of the three commands.

## Main results

* `AtlassianIpc.Store.sourcesAdd_undone`, `SourceIpc.fails_sourcesAdd`,
  `SourceIpc.fails_outlookSourcesAdd` — what a failed command leaves behind.
* `SourceIpc.addition_undone` — **a failed addition** leaves the rows and the keychain as
  they were.
-/

namespace Dayseam

open Attempt (Ends Fails ends_bind_iff ends_check_iff ends_write_iff ends_orUndo_iff ends_pure_iff)

namespace AtlassianIpc

open Atlassian (Product)

namespace Store

/-! ### Rows of new sources -/

/-- No row of the store is of the source. -/
def IsNewId (s : Store) (id : Uuid) : Prop :=
  (∀ source ∈ s.sources, source.id ≠ id) ∧ ∀ row ∈ s.identities, row.sourceId ≠ some id

/-- Nothing but rows of some sources, and secrets, came to the store. -/
structure Grown (s : Store) (ids : List Uuid) (t : Store) : Prop where
  sources : ∃ new, t.sources = s.sources ++ new ∧ ∀ source ∈ new, source.id ∈ ids
  identities : ∃ new, t.identities = s.identities ++ new ∧
    ∀ row ∈ new, ∃ id ∈ ids, row.sourceId = some id
  selfPerson : t.selfPerson = s.selfPerson

def HasRow (t : Store) (id : Uuid) : Prop := ∃ source ∈ t.sources, source.id = id

variable {s t : Store} {id : Uuid} {ids : List Uuid} {ref : SecretRef} {token : Text}

theorem Grown.refl (s : Store) : Grown s [] s where
  sources := ⟨[], (List.append_nil _).symm, fun _ h => absurd h List.not_mem_nil⟩
  identities := ⟨[], (List.append_nil _).symm, fun _ h => absurd h List.not_mem_nil⟩
  selfPerson := rfl

/-- Growth is about the rows of the store only. -/
theorem Grown.of_eq {s' : Store} (h : Grown s' ids t) (hrows : s'.sources = s.sources ∧
    s'.identities = s.identities ∧ s'.selfPerson = s.selfPerson) : Grown s ids t where
  sources := by
    rw [← hrows.1]
    exact h.sources
  identities := by
    rw [← hrows.2.1]
    exact h.identities
  selfPerson := h.selfPerson.trans hrows.2.2

theorem Grown.insertSource (h : Grown s ids t) {source : Source} {id : Uuid}
    (hid : source.id = id) : Grown s (ids ++ [id]) (t.insertSource source) := by
  obtain ⟨⟨new, hnew, hids⟩, ⟨rows, hrows, hrowids⟩, hself⟩ := h
  refine ⟨⟨new ++ [source], ?_, ?_⟩, ⟨rows, hrows, ?_⟩, hself⟩
  · rw [Store.insertSource, hnew, List.append_assoc]
  · intro x hx
    rcases List.mem_append.mp hx with hx | hx
    · exact List.mem_append_left _ (hids x hx)
    · rw [List.mem_singleton.mp hx, hid]
      exact List.mem_append_right _ (List.mem_singleton_self _)
  · intro row hrow
    obtain ⟨i, hi, hsource⟩ := hrowids row hrow
    exact ⟨i, List.mem_append_left _ hi, hsource⟩

theorem Grown.ensureIdentity (h : Grown s ids t) {identity : SourceIdentity}
    (hid : id ∈ ids) (hsource : identity.sourceId = some id) :
    Grown s ids (t.ensureIdentity identity) := by
  unfold Store.ensureIdentity
  split_ifs
  · exact h
  obtain ⟨hsources, ⟨rows, hrows, hrowids⟩, hself⟩ := h
  refine ⟨hsources, ⟨rows ++ [identity], ?_, ?_⟩, hself⟩
  · dsimp only
    rw [hrows, List.append_assoc]
  · intro row hrow
    rcases List.mem_append.mp hrow with hrow | hrow
    · exact hrowids row hrow
    · rw [List.mem_singleton.mp hrow]
      exact ⟨id, hid, hsource⟩

theorem Grown.putSecret (h : Grown s ids t) : Grown s ids (t.putSecret ref token) :=
  ⟨h.sources, h.identities, h.selfPerson⟩

theorem Grown.deleteSecret (h : Grown s ids t) : Grown s ids (t.deleteSecret ref) :=
  ⟨h.sources, h.identities, h.selfPerson⟩

/-- The rows of one of the sources go. -/
theorem Grown.deleteSource (h : Grown s (id :: ids) t) (hnew : s.IsNewId id) :
    Grown s ids (t.deleteSource id) := by
  obtain ⟨⟨new, hsources, hids⟩, ⟨rows, hrows, hrowids⟩, hself⟩ := h
  refine ⟨⟨new.filter fun source => source.id ≠ id, ?_, ?_⟩,
    ⟨rows.filter fun row => row.sourceId ≠ some id, ?_, ?_⟩, hself⟩
  · rw [Store.deleteSource, hsources, List.filter_append]
    rw [List.filter_eq_self.mpr fun source hsource => decide_eq_true (hnew.1 source hsource)]
  · intro source hsource
    obtain ⟨hmem, hne⟩ := List.mem_filter.mp hsource
    exact (List.mem_cons.mp (hids source hmem)).resolve_left (of_decide_eq_true hne)
  · rw [Store.deleteSource, hrows, List.filter_append]
    rw [List.filter_eq_self.mpr fun row hrow => decide_eq_true (hnew.2 row hrow)]
  · intro row hrow
    obtain ⟨hmem, hne⟩ := List.mem_filter.mp hrow
    obtain ⟨i, hi, hsource⟩ := hrowids row hmem
    refine ⟨i, (List.mem_cons.mp hi).resolve_left ?_, hsource⟩
    rintro rfl
    exact of_decide_eq_true hne hsource

/-- Without new rows there is the old store, but for the secrets. -/
theorem Grown.eq (h : Grown s [] t) (hkeychain : t.keychain = s.keychain) : t = s := by
  obtain ⟨⟨new, hsources, hids⟩, ⟨rows, hrows, hrowids⟩, hself⟩ := h
  have hnew : new = [] := List.eq_nil_iff_forall_not_mem.mpr fun source hsource =>
    absurd (hids source hsource) List.not_mem_nil
  have hnone : rows = [] := List.eq_nil_iff_forall_not_mem.mpr fun row hrow => by
    obtain ⟨i, hi, -⟩ := hrowids row hrow
    exact absurd hi List.not_mem_nil
  rw [hnew, List.append_nil] at hsources
  rw [hnone, List.append_nil] at hrows
  obtain ⟨sources, identities, keychain, selfPerson⟩ := t
  cases hsources
  cases hrows
  cases hkeychain
  cases hself
  rfl

theorem keychain_deleteSource : (t.deleteSource id).keychain = t.keychain := rfl

/-- A secret that was put where there was none is deleted without a trace. -/
theorem keychain_put_delete (h : s.keychain (secretStoreKey ref) = none) :
    ((s.putSecret ref token).deleteSecret ref).keychain = s.keychain := by
  simp only [Store.deleteSecret, Store.putSecret, Function.update_idem]
  rw [← h, Function.update_eq_self]

/-! ### `atlassian_sources_add` -/

variable {crates : Crates} {faults : Faults} {fresh : Fresh} {input : AddInput} {url : Url}
  {slot : Slot} {inserted : List Product} {p : Product}

/-- Nothing that undoes another call fails. -/
def RollbackSucceeds (faults : Faults) : Prop :=
  (∀ p, faults (.deleteRow p) = none) ∧ faults .deleteKey = none

theorem IsNew.isNewId (h : s.IsNew fresh) (p : Product) : s.IsNewId (fresh.sourceId p) :=
  h.2.2 p (by cases p <;> decide)

theorem HasRow.insertSource {source : Source} (h : t.HasRow id) :
    (t.insertSource source).HasRow id := by
  obtain ⟨old, hold, hid⟩ := h
  exact ⟨old, List.mem_append_left _ hold, hid⟩

theorem hasRow_insertSource {source : Source} : (t.insertSource source).HasRow source.id :=
  ⟨source, List.mem_append_right _ (List.mem_singleton_self _), rfl⟩

theorem sources_ensureIdentity {identity : SourceIdentity} :
    (t.ensureIdentity identity).sources = t.sources := by
  unfold ensureIdentity
  split_ifs <;> rfl

theorem keychain_ensureIdentity {identity : SourceIdentity} :
    (t.ensureIdentity identity).keychain = t.keychain := by
  unfold ensureIdentity
  split_ifs <;> rfl

theorem HasRow.ensureIdentity {identity : SourceIdentity} (h : t.HasRow id) :
    (t.ensureIdentity identity).HasRow id := by
  unfold HasRow
  rw [sources_ensureIdentity]
  exact h

/-- What the insertion of some products leaves: their rows and identities, and nothing else. -/
structure Inserted (s : Store) (fresh : Fresh) (inserted : List Product) (t : Store) : Prop where
  grown : Grown s (inserted.map fresh.sourceId) t
  keychain : t.keychain = s.keychain
  rows : ∀ p ∈ inserted, t.HasRow (fresh.sourceId p)

theorem Inserted.insertSource (h : Inserted s fresh inserted t) (p : Product) :
    Inserted s fresh (inserted ++ [p])
      (t.insertSource (newSource url slot fresh input p)) where
  grown := by
    rw [List.map_append]
    exact h.grown.insertSource rfl
  keychain := h.keychain
  rows q hq := by
    rcases List.mem_append.mp hq with hq | hq
    · exact (h.rows q hq).insertSource
    · rw [List.mem_singleton.mp hq]
      exact @hasRow_insertSource t (newSource url slot fresh input p)

theorem Inserted.ensureIdentity (h : Inserted s fresh inserted t) (hp : p ∈ inserted)
    {identity : SourceIdentity} (hsource : identity.sourceId = some (fresh.sourceId p)) :
    Inserted s fresh inserted (t.ensureIdentity identity) where
  grown := h.grown.ensureIdentity (List.mem_map_of_mem hp) hsource
  keychain := keychain_ensureIdentity.trans h.keychain
  rows q hq := (h.rows q hq).ensureIdentity

/-- One product, whether its insertion fails or not. -/
theorem inserted_insertProduct (h : Inserted s fresh inserted t) (p : Product) :
    Inserted s fresh (t.insertProduct crates faults url slot fresh input inserted p).2.1
      (t.insertProduct crates faults url slot fresh input inserted p).1 := by
  unfold insertProduct
  split
  · exact h
  dsimp only
  have hrow : Inserted s fresh (inserted ++ [p])
      (t.insertSource (newSource url slot fresh input p)) := h.insertSource p
  cases hseed : (t.insertSource (newSource url slot fresh input p)).seedAtlassianIdentity crates
      fresh input p with
  | error e => exact hrow
  | ok identity =>
    dsimp only
    split
    · exact hrow
    · refine hrow.ensureIdentity (List.mem_append_right _ (List.mem_singleton_self p)) ?_
      unfold seedAtlassianIdentity at hseed
      split at hseed
      · cases hseed
      · cases hseed
        rfl

theorem inserted_insertProducts (ps : List Product) (h : Inserted s fresh inserted t) :
    Inserted s fresh (insertProducts crates faults url slot fresh input t inserted ps).2.1
      (insertProducts crates faults url slot fresh input t inserted ps).1 := by
  induction ps generalizing t inserted with
  | nil => exact h
  | cons p ps ih =>
    have hone : Inserted s fresh (t.insertProduct crates faults url slot fresh input inserted p).2.1
        (t.insertProduct crates faults url slot fresh input inserted p).1 :=
      inserted_insertProduct h p
    unfold insertProducts
    rcases hp : t.insertProduct crates faults url slot fresh input inserted p
      with ⟨t', inserted', e | u⟩ <;> rw [hp] at hone
    · exact hone
    · exact ih hone

theorem foldl_rollbackRow (hundo : RollbackSucceeds faults) (hnew : s.IsNew fresh)
    (h : Grown s (inserted.map fresh.sourceId) t) :
    Grown s [] (inserted.foldl (rollbackRow faults fresh) t) ∧
      (inserted.foldl (rollbackRow faults fresh) t).keychain = t.keychain := by
  induction inserted generalizing t with
  | nil => exact ⟨h, rfl⟩
  | cons p ps ih =>
    have hrow : rollbackRow faults fresh t p = t.deleteSource (fresh.sourceId p) := by
      rw [rollbackRow, hundo.1 p]
      rfl
    rw [List.foldl_cons, hrow]
    exact ih (h.deleteSource (hnew.isNewId p))

/-- The slot is empty before the call puts a token into it. -/
theorem slot_isNew (h : s.admitAdd crates faults fresh input = .ok (url, slot))
    (hnew : s.IsNew fresh) (hslot : slot.isNew = true) :
    s.keychain (secretStoreKey slot.ref) = none := by
  unfold admitAdd at h
  split at h
  · cases h
  split at h
  · cases h
  next hres =>
    cases h
    unfold resolveSlot at hres
    split at hres
    · -- a slot that is reused is not a new one
      split at hres
      · cases hres
      split at hres
      · cases hres
      · cases hres
        cases hslot
    · split at hres
      · cases hres
      split at hres
      · cases hres
      split at hres
      · cases hres
      · cases hres
        exact hnew.1

/-- The rollback leaves the store as it was before the token and the rows. -/
theorem rollbackSourcesAdd_eq (hundo : RollbackSucceeds faults) (hnew : s.IsNew fresh)
    (hslot : slot.isNew = true → s.keychain (secretStoreKey slot.ref) = none)
    (h : Grown s (inserted.map fresh.sourceId) t)
    (hkeychain : t.keychain = (if slot.isNew = true then s.putSecret slot.ref slot.token
      else s).keychain) :
    t.rollbackSourcesAdd faults fresh inserted slot = s := by
  obtain ⟨hgrown, hkept⟩ := foldl_rollbackRow hundo hnew h
  rw [hkeychain] at hkept
  unfold rollbackSourcesAdd
  by_cases hisnew : slot.isNew = true
  · rw [if_pos ⟨hisnew, hundo.2⟩]
    rw [if_pos hisnew] at hkept
    refine hgrown.deleteSecret.eq ?_
    simp only [Store.deleteSecret, hkept]
    exact keychain_put_delete (hslot hisnew)
  · rw [if_neg fun hboth => hisnew hboth.1]
    rw [if_neg hisnew] at hkept
    exact hgrown.eq hkept

/-- The rows that were inserted are read again. -/
theorem mapM_reread_ok (hget : ∀ p, faults (.get p) = none)
    (hrows : ∀ p ∈ inserted, t.HasRow (fresh.sourceId p)) :
    ∃ sources, inserted.mapM (t.reread faults fresh) = .ok sources := by
  induction inserted with
  | nil => exact ⟨[], rfl⟩
  | cons p ps ih =>
    obtain ⟨rest, hrest⟩ := ih fun q hq => hrows q (List.mem_cons_of_mem _ hq)
    obtain ⟨source, hsource, hid⟩ := hrows p List.mem_cons_self
    have hfound : ∃ source, t.sources.find? (·.id = fresh.sourceId p) = some source := by
      rw [← Option.isSome_iff_exists, List.find?_isSome]
      exact ⟨source, hsource, decide_eq_true hid⟩
    obtain ⟨found, hfound⟩ := hfound
    have hp : t.reread faults fresh p = .ok found := by
      unfold reread
      rw [hget p, hfound]
    refine ⟨found :: rest, ?_⟩
    rw [List.mapM_cons, hp, hrest]
    rfl

/-- **A failed addition of Atlassian sources** leaves the store as it was. -/
theorem sourcesAdd_undone (hundo : RollbackSucceeds faults) (hget : ∀ p, faults (.get p) = none)
    (hnew : s.IsNew fresh) {e : DayseamError}
    (he : (s.sourcesAdd crates faults fresh input).2 = .error e) :
    (s.sourcesAdd crates faults fresh input).1 = s := by
  unfold sourcesAdd at he ⊢
  cases hadmitted : s.admitAdd crates faults fresh input with
  | error err => rfl
  | ok admitted =>
    obtain ⟨url, slot⟩ := admitted
    rw [hadmitted] at he
    have hslot := slot_isNew hadmitted hnew
    dsimp only at he ⊢
    set begun := if slot.isNew = true then s.putSecret slot.ref slot.token else s with hbegun
    have hrows : begun.sources = s.sources ∧ begun.identities = s.identities ∧
        begun.selfPerson = s.selfPerson := by
      rw [hbegun]
      split_ifs <;> exact ⟨rfl, rfl, rfl⟩
    -- the person of the user, and then the rows
    cases hperson : faults .bootstrapSelf with
    | some err => exact rollbackSourcesAdd_eq hundo hnew hslot ((Grown.refl begun).of_eq hrows) rfl
    | none =>
      rw [hperson] at he
      dsimp only at he ⊢
      have hbase : Inserted begun fresh [] begun :=
        ⟨Grown.refl begun, rfl, fun _ h => absurd h List.not_mem_nil⟩
      have hdone : Inserted begun fresh
          (insertProducts crates faults url slot fresh input begun [] input.products).2.1
          (insertProducts crates faults url slot fresh input begun [] input.products).1 :=
        inserted_insertProducts input.products hbase
      rcases hrun : insertProducts crates faults url slot fresh input begun [] input.products
        with ⟨t, inserted, err | u⟩ <;> rw [hrun] at he hdone
      · exact rollbackSourcesAdd_eq hundo hnew hslot (hdone.grown.of_eq hrows) hdone.keychain
      · obtain ⟨sources, hok⟩ := mapM_reread_ok hget hdone.rows
        dsimp only at he
        rw [hok] at he
        cases he

end Store
end AtlassianIpc

namespace SourceIpc

open AtlassianIpc (secretStoreKey)
open AtlassianIpc.Store (HasRow)
open LocalGit (DiscoveryOutcome)

/-! ### Rows of a new source -/

/-- No row is of the source. -/
def State.IsNewId (s : State) (id : Uuid) : Prop :=
  s.accounts.IsNewId id ∧ ∀ r ∈ s.repos.rows, r.sourceId ≠ id

/-- Nothing but rows of a source, and secrets, came to the state. -/
structure Grown (s : State) (id : Uuid) (t : State) : Prop where
  accounts : s.accounts.Grown [id] t.accounts
  repos : t.repos = s.repos
  sessions : t.sessions = s.sessions

/-- Nothing that undoes another call fails. -/
def RollbackSucceeds (faults : Faults) : Prop :=
  faults .getForRollback = none ∧ faults .deleteRow = none ∧ faults .deleteKey = none ∧
    faults .deleteRefreshKey = none

/-- The rows of a scan are written, and the last look at the new row does not fail. -/
def LateCallsSucceed (faults : Faults) : Prop :=
  (∀ i, faults (.upsertRepo i) = none) ∧ faults .listRepos = none ∧ faults .reconcile = none ∧
    faults .get = none

variable {crates : Crates} {faults : Faults} {s t : State} {id : Uuid} {ref : SecretRef}
  {token : Text} {P : State → Prop}

theorem grown_insertSource {source : Source} (hid : source.id = id) :
    Grown s id (s.insertSource source) :=
  ⟨(AtlassianIpc.Store.Grown.refl s.accounts).insertSource hid, rfl, rfl⟩

theorem Grown.putSecret (h : Grown s id t) : Grown s id (t.putSecret ref token) :=
  ⟨h.accounts.putSecret, h.repos, h.sessions⟩

theorem Grown.deleteSecret (h : Grown s id t) : Grown s id (t.deleteSecret ref) :=
  ⟨h.accounts.deleteSecret, h.repos, h.sessions⟩

theorem Grown.ensureIdentity (h : Grown s id t) {identity : SourceIdentity}
    (hsource : identity.sourceId = some id) : Grown s id (t.ensureIdentity identity) :=
  ⟨h.accounts.ensureIdentity (List.mem_singleton_self id) hsource, h.repos, h.sessions⟩

/-- A write to the row of the source. -/
theorem Grown.updateSource (h : Grown s id t) (hnew : s.IsNewId id) {f : Source → Source}
    (hf : ∀ source, (f source).id = source.id) : Grown s id (t.updateSource id f) := by
  obtain ⟨⟨⟨new, hsources, hids⟩, hidentities, hself⟩, hrepos, hsessions⟩ := h
  refine ⟨⟨⟨new.map fun source => if source.id = id then f source else source, ?_, ?_⟩,
    hidentities, hself⟩, hrepos, hsessions⟩
  · -- the rows that were there before have other ids
    have hold : s.accounts.sources.map (fun source => if source.id = id then f source else source) =
        s.accounts.sources := by
      refine (List.map_congr_left fun source hsource => ?_).trans (List.map_id' _)
      exact if_neg (hnew.1.1 source hsource)
    simp only [State.updateSource, hsources, List.map_append, hold]
  · intro source hsource
    obtain ⟨old, holdmem, rfl⟩ := List.mem_map.mp hsource
    have hmem := hids old holdmem
    split_ifs
    · rwa [hf old]
    · exact hmem

theorem Grown.deleteSource_eq (h : Grown s id t) (hnew : s.IsNewId id)
    (hkeychain : t.accounts.keychain = s.accounts.keychain) : t.deleteSource id = s := by
  have haccounts : t.accounts.deleteSource id = s.accounts :=
    (h.accounts.deleteSource hnew.1).eq hkeychain
  have hrepos : s.repos.rows.filter (fun r => r.sourceId ≠ id) = s.repos.rows :=
    List.filter_eq_self.mpr fun r hr => decide_eq_true (hnew.2 r hr)
  obtain ⟨accounts, repos, sessions⟩ := t
  obtain ⟨-, hr, hs⟩ := h
  dsimp only at haccounts hr hs
  subst hr hs
  refine State.ext haccounts ?_ rfl
  rcases hold : s.repos with ⟨rows, distinct⟩
  rw [hold] at hrepos
  simp only [State.deleteSource, hrepos]

theorem HasRow.updateSource (h : HasRow t.accounts id) {f : Source → Source}
    (hf : ∀ source, (f source).id = source.id) {other : Uuid} :
    HasRow (t.updateSource other f).accounts id := by
  obtain ⟨source, hsource, hid⟩ := h
  refine ⟨_, List.mem_map_of_mem hsource, ?_⟩
  split_ifs
  · exact (hf source).trans hid
  · exact hid

theorem HasRow.ensureIdentity (h : HasRow t.accounts id) {identity : SourceIdentity} :
    HasRow (t.ensureIdentity identity).accounts id :=
  AtlassianIpc.Store.HasRow.ensureIdentity h

/-! ### `sources_add` -/

theorem bestEffort_of_none {op : Op} (h : faults op = none) (f : State → State) :
    bestEffort faults op f = f := by
  funext s
  rw [bestEffort, if_pos h]

theorem write_eq_none {op : Op} {code : Text} :
    (faults op).map (DayseamError.internal code) = none ↔ faults op = none :=
  Option.map_eq_none_iff

/-- A scan whose writes do not fault returns, and is on the repositories only. -/
theorem ends_upsertDiscoveredRepos (hlate : LateCallsSucceed faults) {scanRoots : List PathBuf}
    {found : Except DayseamError DiscoveryOutcome} {now : ℤ} :
    Ends (upsertDiscoveredRepos faults id scanRoots found now) t
      (fun _ u => u.accounts = t.accounts) P := by
  have hreconcile : ∀ rows : List LocalRepo, Ends (write faults .reconcile
      "local_repos.reconcile".toList fun s =>
        { s with repos := LocalRepoRepo.reconcileForSource s.repos id rows }) t
      (fun _ u => u.accounts = t.accounts) P := by
    intro rows
    rw [write, ends_write_iff, write_eq_none.mpr hlate.2.2.1]
    exact ⟨fun h => absurd rfl h, fun _ => rfl⟩
  have heach : ∀ (rows : List LocalRepo) (i : ℕ) (u : State), u.accounts = t.accounts →
      Ends (upsertEach faults id i rows) u (fun _ v => v.accounts = t.accounts) P := by
    intro rows
    induction rows with
    | nil => exact fun i u hu => hu
    | cons row rows ih =>
      intro i u hu
      rw [upsertEach, ends_bind_iff, write, ends_write_iff, write_eq_none.mpr (hlate.1 i)]
      exact ⟨fun h => absurd rfl h, fun _ => ih (i + 1) _ hu⟩
  unfold upsertDiscoveredRepos
  split_ifs
  · rfl
  split
  · rfl
  dsimp only
  split_ifs
  · exact heach _ 0 t rfl
  · rw [ends_bind_iff, read, ends_check_iff, hlate.2.1]
    refine ⟨fun ⟨e, he⟩ => (by cases he), fun prior _ => ?_⟩
    split_ifs
    · rfl
    · exact hreconcile _
  · exact hreconcile _

/-- The last look at a row that is there. -/
theorem ends_reread (hlate : LateCallsSucceed faults) {code what : Text}
    (h : HasRow t.accounts id) : Fails (reread faults code what id) t P := by
  obtain ⟨source, hsource, hid⟩ := h
  have hfound : ∃ source, t.get id = some source := by
    rw [← Option.isSome_iff_exists, State.get, List.find?_isSome]
    exact ⟨source, hsource, decide_eq_true hid⟩
  obtain ⟨found, hfound⟩ := hfound
  unfold Fails
  rw [reread, read, ends_check_iff, hlate.2.2.2]
  dsimp only
  rw [hfound]
  exact ⟨fun ⟨e, he⟩ => (by cases he), fun _ _ => trivial⟩

theorem undoRow_eq (hundo : RollbackSucceeds faults) (hnew : s.IsNewId id) (h : Grown s id t)
    (hkeychain : t.accounts.keychain = s.accounts.keychain) : undoRow faults id t = s := by
  rw [undoRow, bestEffort_of_none hundo.2.1]
  exact h.deleteSource_eq hnew hkeychain

theorem get_updateSource {f : Source → Source} (hf : ∀ source, (f source).id = source.id) :
    (t.updateSource id f).get id = (t.get id).map f := by
  have hsame : (fun source : Source => decide (source.id = id)) ∘
      (fun source => if source.id = id then f source else source) =
      fun source => decide (source.id = id) := by
    funext source
    dsimp only [Function.comp]
    split_ifs
    · rw [hf]
    · rfl
  simp only [State.get, State.updateSource, List.find?_map, hsame]
  cases hfind : t.accounts.sources.find? fun source => decide (source.id = id) with
  | none => rfl
  | some source => exact congrArg some (if_pos (by simpa using List.find?_some hfind))

theorem get_insertSource {source : Source} (hnew : s.IsNewId source.id) :
    (s.insertSource source).get source.id = some source := by
  have hold : s.accounts.sources.find? (fun old => decide (old.id = source.id)) = none := by
    rw [List.find?_eq_none]
    intro old holdmem
    simpa using hnew.1.1 old holdmem
  simp [State.get, State.insertSource, AtlassianIpc.Store.insertSource, List.find?_append, hold]

/-- The secret of a GitLab source, on top of its row: undone, or written. -/
theorem ends_addSecret (hundo : RollbackSucceeds faults) {input : AddInput} {fresh : AddFresh}
    (hnew : s.IsNewId fresh.sourceId)
    (hslot : s.accounts.keychain (secretStoreKey (gitlabSecretRef fresh.sourceId)) = none)
    (h : input.config.kind = input.kind) :
    Ends (addSecret faults input fresh) (s.insertSource (newSource input fresh.sourceId h))
      (fun _ t => HasRow t.accounts fresh.sourceId) (· = s) := by
  set row := newSource input fresh.sourceId h with hrow
  set ref := gitlabSecretRef fresh.sourceId with href
  have hrowid : row.id = fresh.sourceId := rfl
  have hinserted : Grown s fresh.sourceId (s.insertSource row) := grown_insertSource hrowid
  have hhas : HasRow (s.insertSource row).accounts fresh.sourceId := by
    rw [← hrowid]
    exact AtlassianIpc.Store.hasRow_insertSource
  unfold addSecret
  split
  · next userId pat hconfig hpat =>
    dsimp only
    -- the token
    rw [ends_bind_iff, ends_orUndo_iff, persistGitlabPat, ends_write_iff]
    refine ⟨fun _ => undoRow_eq hundo hnew hinserted rfl, fun _ => ?_⟩
    have hput := @Grown.putSecret s (s.insertSource row) fresh.sourceId ref pat hinserted
    have hkeychain : (((s.insertSource row).putSecret ref pat).deleteSecret ref).accounts.keychain =
        s.accounts.keychain :=
      @AtlassianIpc.Store.keychain_put_delete (s.insertSource row).accounts ref pat hslot
    -- the reference of the row
    rw [ends_bind_iff, ends_orUndo_iff, write, ends_write_iff]
    refine ⟨fun _ => ?_, fun _ => ?_⟩
    · rw [undoSecret, bestEffort_of_none hundo.2.2.1]
      exact undoRow_eq hundo hnew hput.deleteSecret hkeychain
    set stamped := ((s.insertSource row).putSecret ref pat).updateSecretRef fresh.sourceId ref
      with hstamped
    have hstamp : Grown s fresh.sourceId stamped := hput.updateSource hnew fun _ => rfl
    have hstampRow : HasRow stamped.accounts fresh.sourceId :=
      @HasRow.updateSource _ fresh.sourceId hhas
        (fun source => { source with secretRef := some ref }) (fun _ => rfl) fresh.sourceId
    have hget : stamped.get fresh.sourceId = some { row with secretRef := some ref } := by
      rw [hstamped, State.updateSecretRef, get_updateSource]
      · exact congrArg _ (@get_insertSource s row hnew)
      · exact fun _ => rfl
    have hundone : undoAdd faults fresh.sourceId stamped = s := by
      rw [undoAdd, if_pos hundo.1, hget]
      dsimp only [Option.bind_some]
      rw [undoSecret, bestEffort_of_none hundo.2.2.1]
      exact undoRow_eq hundo hnew hstamp.deleteSecret hkeychain
    -- the identity
    rw [ends_orUndo_iff, ensureGitlabSelfIdentity, ends_bind_iff, bootstrapSelf, read,
      ends_check_iff]
    refine ⟨fun _ => hundone, fun person _ => ?_⟩
    rw [write, ends_write_iff]
    exact ⟨fun _ => hundone, fun _ => HasRow.ensureIdentity hstampRow⟩
  · exact hhas

/-- **A failed addition** of a source leaves everything as it was. -/
theorem fails_sourcesAdd (hundo : RollbackSucceeds faults) (hlate : LateCallsSucceed faults)
    {input : AddInput} {fresh : AddFresh} (hnew : s.IsNewId fresh.sourceId)
    (hslot : s.accounts.keychain (secretStoreKey (gitlabSecretRef fresh.sourceId)) = none) :
    Fails (sourcesAdd crates faults input fresh) s (· = s) := by
  unfold Fails sourcesAdd
  rw [ends_bind_iff, ends_check_iff]
  refine ⟨fun _ => rfl, fun checked _ => ?_⟩
  obtain ⟨h⟩ := checked
  dsimp only
  rw [ends_bind_iff, write, ends_write_iff]
  refine ⟨fun _ => rfl, fun _ => ?_⟩
  rw [ends_bind_iff]
  refine (ends_addSecret hundo hnew hslot h).mono (fun _ t ht => ?_) fun _ ht => ht
  -- what follows does not fail
  rw [ends_bind_iff]
  have hrepos : Ends (addRepos faults input fresh) t (fun _ u => u.accounts = t.accounts)
      (· = s) := by
    unfold addRepos
    split
    · exact ends_upsertDiscoveredRepos hlate
    · rfl
  refine hrepos.mono (fun _ u hu => ends_reread hlate ?_) fun _ h => h
  rw [hu]
  exact ht

/-! ### `outlook_sources_add` -/

theorem ends_ensureEach {identities : List SourceIdentity}
    (hsource : ∀ identity ∈ identities, identity.sourceId = some id) (i : ℕ)
    (h : Grown s id t) (hrow : HasRow t.accounts id) :
    Ends (ensureEach faults i identities) t (fun _ u => HasRow u.accounts id)
      fun u => Grown s id u ∧ u.accounts.keychain = t.accounts.keychain := by
  induction identities generalizing t i with
  | nil => exact hrow
  | cons identity identities ih =>
    rw [ensureEach, ends_bind_iff, write, ends_write_iff]
    refine ⟨fun _ => ⟨h, rfl⟩, fun _ => ?_⟩
    have hkept : (t.ensureIdentity identity).accounts.keychain = t.accounts.keychain :=
      AtlassianIpc.Store.keychain_ensureIdentity
    rw [← hkept]
    exact ih (fun other hother => hsource other (List.mem_cons_of_mem _ hother)) (i + 1)
      (h.ensureIdentity (hsource identity List.mem_cons_self)) (HasRow.ensureIdentity hrow)

/-- The ids of an Outlook source are new, and its slots are empty. -/
def State.IsNewOutlook (s : State) (id : Uuid) : Prop :=
  s.IsNewId id ∧ s.accounts.keychain (secretStoreKey (outlookAccessRef id)) = none ∧
    s.accounts.keychain (secretStoreKey (outlookRefreshRef id)) = none

theorem outlookKeys_ne : secretStoreKey (outlookAccessRef id) ≠
    secretStoreKey (outlookRefreshRef id) := by
  intro h
  have hslots : Secrets.Slot.outlookAccess id = .outlookRefresh id := Secrets.Slot.key_injective h
  cases hslots

/-- The tokens of an Outlook source are in the keychain. -/
def State.withTokens (s : State) (id : Uuid) (pair : TokenPair) : State :=
  (s.putSecret (outlookAccessRef id) pair.accessToken).putSecret (outlookRefreshRef id)
    pair.refreshToken

theorem deleteSecret_putSecret (h : s.accounts.keychain (secretStoreKey ref) = none) :
    (s.putSecret ref token).deleteSecret ref = s := by
  have hkeychain : ((s.accounts.putSecret ref token).deleteSecret ref).keychain =
    s.accounts.keychain := AtlassianIpc.Store.keychain_put_delete h
  exact State.ext (((AtlassianIpc.Store.Grown.refl s.accounts).putSecret.deleteSecret).eq hkeychain)
    rfl rfl

/-- The first token goes, and leaves the second. -/
theorem deleteSecret_withTokens {pair : TokenPair} (hnew : s.IsNewOutlook id) :
    (s.withTokens id pair).deleteSecret (outlookAccessRef id) =
      s.putSecret (outlookRefreshRef id) pair.refreshToken := by
  have hkeychain : Function.update (Function.update (Function.update s.accounts.keychain
      (secretStoreKey (outlookAccessRef id)) (some pair.accessToken))
      (secretStoreKey (outlookRefreshRef id)) (some pair.refreshToken))
      (secretStoreKey (outlookAccessRef id)) none = Function.update s.accounts.keychain
      (secretStoreKey (outlookRefreshRef id)) (some pair.refreshToken) := by
    rw [Function.update_comm outlookKeys_ne.symm, Function.update_idem, ← hnew.2.1,
      Function.update_eq_self]
  refine State.ext ?_ rfl rfl
  simp only [State.withTokens, State.putSecret, State.deleteSecret, AtlassianIpc.Store.putSecret,
    AtlassianIpc.Store.deleteSecret, hkeychain]

theorem rollbackKeychain_withTokens {pair : TokenPair} (hundo : RollbackSucceeds faults)
    (hnew : s.IsNewOutlook id) :
    rollbackOutlookKeychain faults id true (s.withTokens id pair) = s := by
  rw [rollbackOutlookKeychain, bestEffort_of_none hundo.2.2.1, bestEffort_of_none hundo.2.2.2,
    deleteSecret_withTokens hnew]
  exact deleteSecret_putSecret hnew.2.2

/-- Rows on top of the tokens, and then the tokens, are undone. -/
theorem rollbackOutlook_eq {pair : TokenPair} (hundo : RollbackSucceeds faults)
    (hnew : s.IsNewOutlook id) (h : Grown (s.withTokens id pair) id t)
    (hkeychain : t.accounts.keychain = (s.withTokens id pair).accounts.keychain) :
    rollbackOutlook faults id true t = s := by
  have htokens : (s.withTokens id pair).IsNewId id := hnew.1
  rw [rollbackOutlook, if_pos rfl, undoRow_eq hundo htokens h hkeychain]
  exact rollbackKeychain_withTokens hundo hnew

/-- The session goes, whether it has tokens or not. -/
theorem ends_takeTokenPair {Q : TokenPair → State → Prop}
    (hQ : ∀ pair, Q pair (s.takeSession id)) (hP : P (s.takeSession id)) :
    Ends (takeTokenPair id) s Q P := by
  unfold Ends takeTokenPair
  cases (s.sessions id).bind (·.tokenPair) with
  | none => exact hP
  | some pair => exact hQ pair

theorem listIdentities_sourceId {info : OutlookUserInfo} {fresh : OutlookFresh} {person : Uuid}
    {identities : List SourceIdentity} (h : listIdentities info fresh person = .ok identities) :
    ∀ identity ∈ identities, identity.sourceId = some fresh.sourceId := by
  unfold listIdentities at h
  split_ifs at h
  cases h
  simp

/-- Where a failed Outlook addition leaves the state: without the session once its tokens
are taken. -/
def outlookLeft (faults : Faults) (input : OutlookInput) (fresh : OutlookFresh) (s : State) :
    State :=
  match checkOutlook faults input fresh s with
  | .error _ => s
  | .ok _ => s.takeSession input.sessionId

/-- **A failed addition** of an Outlook source leaves everything as it was but for the
session. -/
theorem fails_outlookSourcesAdd (hundo : RollbackSucceeds faults)
    (hlate : LateCallsSucceed faults) {input : OutlookInput} {fresh : OutlookFresh}
    (hnew : s.IsNewOutlook fresh.sourceId) :
    Fails (outlookSourcesAdd faults input fresh) s
      (· = outlookLeft faults input fresh s) := by
  unfold Fails outlookSourcesAdd
  rw [ends_bind_iff, ends_check_iff]
  refine ⟨fun ⟨e, he⟩ => ?_, fun checked hchecked => ?_⟩
  · rw [outlookLeft, he]
  obtain ⟨tenantId, info⟩ := checked
  have hleft : outlookLeft faults input fresh s = s.takeSession input.sessionId := by
    rw [outlookLeft, hchecked]
  rw [hleft]
  rw [ends_bind_iff]
  refine ends_takeTokenPair (fun pair => ?_) rfl
  -- from here on it is the state without the session that is to be left
  generalize hleftdef : s.takeSession input.sessionId = left
  have hnew : left.IsNewOutlook fresh.sourceId := by
    rw [← hleftdef]
    exact hnew
  set id := fresh.sourceId with hid
  dsimp only
  rw [ends_bind_iff, putToken, ends_write_iff]
  refine ⟨fun _ => rfl, fun _ => ?_⟩
  rw [ends_bind_iff, ends_orUndo_iff, putToken, ends_write_iff]
  refine ⟨fun _ => ?_, fun _ => ?_⟩
  · rw [rollbackOutlookKeychain, bestEffort_of_none hundo.2.2.1]
    exact deleteSecret_putSecret hnew.2.1
  have htokens : rollbackOutlook faults id false (left.withTokens id pair) = left :=
    rollbackKeychain_withTokens hundo hnew
  rw [ends_bind_iff, ends_orUndo_iff, bootstrapSelf, read, ends_check_iff]
  refine ⟨fun _ => htokens, fun person _ => ?_⟩
  rw [ends_bind_iff, ends_orUndo_iff, write, ends_write_iff]
  refine ⟨fun _ => htokens, fun _ => ?_⟩
  -- the row is there
  set row := newOutlookSource input id tenantId info with hrow
  have hgrown : Grown (left.withTokens id pair) id ((left.withTokens id pair).insertSource row) :=
    grown_insertSource rfl
  have hhas : HasRow ((left.withTokens id pair).insertSource row).accounts id :=
    @AtlassianIpc.Store.hasRow_insertSource (left.withTokens id pair).accounts row
  rw [ends_bind_iff, ends_orUndo_iff, ends_check_iff]
  refine ⟨fun _ => rollbackOutlook_eq hundo hnew hgrown rfl, fun identities hidentities => ?_⟩
  rw [ends_bind_iff, ends_orUndo_iff]
  refine (ends_ensureEach (listIdentities_sourceId hidentities) 0 hgrown hhas).mono
    (fun _ u hu => ends_reread hlate hu) fun u hu => ?_
  exact rollbackOutlook_eq hundo hnew hu.1 hu.2

/-! ### The three commands -/

/-- A call of a command that adds sources, with the ids that it makes up and the calls that
fail in it. -/
inductive AddCall
  | sources (input : AddInput) (fresh : AddFresh) (faults : Faults)
  | atlassian (input : AtlassianIpc.AddInput) (fresh : AtlassianIpc.Fresh)
      (faults : AtlassianIpc.Faults)
  | outlook (input : OutlookInput) (fresh : OutlookFresh) (faults : Faults)

namespace AddCall

/-- The command, which returns the rows that it added. -/
def run (crates : Crates) : AddCall → Command (List Source)
  | .sources input fresh faults => do
    let source ← sourcesAdd crates faults input fresh
    return [source]
  | .atlassian input fresh faults => fun s =>
    let (accounts, result) := s.accounts.sourcesAdd crates.urls faults fresh input
    ({ s with accounts := accounts }, result)
  | .outlook input fresh faults => do
    let source ← outlookSourcesAdd faults input fresh
    return [source]

/-- The ids that the call makes up are new. -/
def IsNew (s : State) : AddCall → Prop
  | .sources _ fresh _ => s.IsNewId fresh.sourceId ∧
      s.accounts.keychain (secretStoreKey (gitlabSecretRef fresh.sourceId)) = none
  | .atlassian _ fresh _ => s.accounts.IsNew fresh
  | .outlook _ fresh _ => s.IsNewOutlook fresh.sourceId

/-- The rollback of the call does not fail. -/
def RollbackSucceeds : AddCall → Prop
  | .sources _ _ faults => SourceIpc.RollbackSucceeds faults
  | .atlassian _ _ faults => AtlassianIpc.Store.RollbackSucceeds faults
  | .outlook _ _ faults => SourceIpc.RollbackSucceeds faults

/-- Neither the scan of the local repositories nor the last look at a new row fails. -/
def LateCallsSucceed : AddCall → Prop
  | .sources _ _ faults => SourceIpc.LateCallsSucceed faults
  | .atlassian _ _ faults => ∀ p, faults (.get p) = none
  | .outlook _ _ faults => SourceIpc.LateCallsSucceed faults

/-- The call changes nothing where it fails. -/
def AllOrNothing (crates : Crates) (s : State) (call : AddCall) : Prop :=
  ∀ e, (call.run crates s).2 = .error e → (call.run crates s).1 = s

/-- What a call that fails leaves: the old state, without the session of an Outlook call
that has taken the tokens. -/
def left (s : State) : AddCall → State
  | .outlook input fresh faults => outlookLeft faults input fresh s
  | _ => s

end AddCall

/-- **A failed addition** leaves the sources, the identities, the local repositories and the
keychain as they were, and the login sessions too but for one whose tokens were taken. -/
theorem addition_undone {call : AddCall} (hnew : call.IsNew s) (hundo : call.RollbackSucceeds)
    (hlate : call.LateCallsSucceed) {e : DayseamError}
    (he : (call.run crates s).2 = .error e) : (call.run crates s).1 = call.left s := by
  refine Attempt.fails_iff.mp (?_ : Fails (call.run crates) s (· = call.left s)) e he
  cases call with
  | sources input fresh faults =>
    rw [AddCall.run, Attempt.fails_bind_iff]
    exact Ends.mono (fails_sourcesAdd hundo hlate hnew.1 hnew.2) (fun _ _ _ => trivial)
      fun _ h => h
  | atlassian input fresh faults =>
    rw [Attempt.fails_iff]
    intro e he
    have haccounts := AtlassianIpc.Store.sourcesAdd_undone hundo hlate hnew he
    exact State.ext haccounts rfl rfl
  | outlook input fresh faults =>
    rw [AddCall.run, Attempt.fails_bind_iff]
    exact Ends.mono (fails_outlookSourcesAdd hundo hlate hnew) (fun _ _ _ => trivial)
      fun _ h => h

/-! ### A calendar whose second token is refused -/

def plainCrates : Crates where
  urls := ⟨fun _ => .error "relative URL without a base".toList, fun t => t⟩
  paths := ⟨fun path => path, PathBuf.text⟩

def signedInPair : TokenPair := ⟨"eyJ0aWQ".toList, "0.AXoA".toList, 0⟩

/-- The user has signed in, and there is nothing else. -/
def signedIn : State where
  accounts := ⟨[], [], fun _ => none, 1⟩
  repos := LocalRepoRepo.empty
  sessions := fun _ => some ⟨.completed, some signedInPair⟩

/-- The keychain takes the access token and not the refresh token. -/
def refusedCalendar : AddCall :=
  .outlook ⟨7, "Work".toList⟩
    ⟨2, 3, 4, fun _ => .ok ("contoso".toList, ⟨"11111111".toList, "vedanth@contoso.com".toList⟩)⟩
    fun op => if op = .putRefresh then some "errSecInteractionNotAllowed".toList else none

theorem refusedCalendar_fair : refusedCalendar.IsNew signedIn ∧
    refusedCalendar.RollbackSucceeds ∧ refusedCalendar.LateCallsSucceed := by
  refine ⟨⟨⟨⟨?_, ?_⟩, ?_⟩, rfl, rfl⟩, ⟨rfl, rfl, rfl, rfl⟩, fun _ => rfl, rfl, rfl, rfl⟩ <;>
    exact fun _ h => absurd h List.not_mem_nil

theorem refused_calendar_undone :
    (refusedCalendar.run plainCrates signedIn).1 = refusedCalendar.left signedIn :=
  addition_undone refusedCalendar_fair.1 refusedCalendar_fair.2.1 refusedCalendar_fair.2.2 rfl

/-- The session is gone although the addition failed. -/
theorem session_not_given_back : refusedCalendar.IsNew signedIn ∧
    refusedCalendar.RollbackSucceeds ∧
      ¬ refusedCalendar.AllOrNothing plainCrates signedIn := by
  refine ⟨refusedCalendar_fair.1, refusedCalendar_fair.2.1, fun h => ?_⟩
  have hsame := h _ rfl
  have hgone : (refusedCalendar.run plainCrates signedIn).1.sessions 7 = none := rfl
  rw [hsame] at hgone
  cases hgone

end SourceIpc
end Dayseam
