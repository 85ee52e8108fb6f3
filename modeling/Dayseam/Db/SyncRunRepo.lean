import Dayseam.Core.Runs
import Dayseam.Db.SyncRuns
import Mathlib

/-!
# The repository of sync runs

The statements that `SyncRunRepo` sends to the `sync_runs` table, with the checks
before them, the constraints of the table and the errors that a caller gets.

## Main definitions

* `SyncRunRows` — the rows, with their primary key.
* `SyncRunRepo.insert`, `SyncRunRepo.transition` and the `mark` functions.
* `SyncRunRepo.listRunning` — the rows that an unclean shutdown leaves behind.

## Main results

* `SyncRunRepo.insert_eq_ok`, `SyncRunRepo.transition_eq_ok` — what a write does.
* `SyncRunRepo.transition_of_terminal` — a terminal row refuses every transition.
* `SyncRunRepo.insert_table`, `SyncRunRepo.transition_table` — the writes are those of
  the table by its primary key.
-/

namespace Dayseam

/-- A call to the database that failed; what the database itself says about a
violated constraint is left out. -/
inductive DbError
  | conflict (what : Text)
  | sqlx (message : Text)
  | invalidData (column message : Text)
  deriving DecidableEq, Repr

def DbError.display : DbError → Text
  | .conflict what => "conflict: ".toList ++ what
  | .sqlx message => "sqlx: ".toList ++ message
  | .invalidData column message =>
    "invalid data in column `".toList ++ column ++ "`: ".toList ++ message

def SyncRunStatus.debug : SyncRunStatus → Text
  | .running => "Running".toList
  | .completed => "Completed".toList
  | .cancelled => "Cancelled".toList
  | .failed => "Failed".toList

/-- A row as it is stored. -/
abbrev SyncRunRow := SyncRun Uuid PerSourceState

/-- The rows of the table; `id` is the primary key. -/
@[ext] structure SyncRunRows where
  rows : List SyncRunRow
  nodup : (rows.map (·.id)).Nodup

namespace SyncRunRows

def ids (t : SyncRunRows) : List Uuid := t.rows.map (·.id)

def empty : SyncRunRows := ⟨[], List.nodup_nil⟩

/-- Change the row of a key; the key itself stays. -/
def update (t : SyncRunRows) (id : Uuid) (f : SyncRunRow → SyncRunRow)
    (hf : ∀ run, (f run).id = run.id) : SyncRunRows where
  rows := t.rows.map fun run => if run.id = id then f run else run
  nodup := by
    rw [List.map_map, List.map_congr_left (g := (·.id))]
    · exact t.nodup
    · intro run _
      show (if run.id = id then f run else run).id = run.id
      split
      · exact hf run
      · rfl

/-- The rows by their primary key. -/
def table (t : SyncRunRows) : SyncRunTable Uuid PerSourceState := fun id =>
  t.rows.find? (·.id = id)

end SyncRunRows

namespace SyncRunRepo

def get (t : SyncRunRows) (id : Uuid) : Option SyncRunRow := t.table id

/-- The foreign key of the column `superseded_by`. -/
def References (ids : List Uuid) (supersededBy : Option Uuid) : Prop :=
  ∀ r ∈ supersededBy, r ∈ ids

instance (ids : List Uuid) (supersededBy : Option Uuid) :
    Decidable (References ids supersededBy) :=
  match supersededBy with
  | none => isTrue fun r hr => by simp at hr
  | some r => decidable_of_iff (r ∈ ids) (by simp [References])

def insert (t : SyncRunRows) (run : SyncRunRow) : Except DbError SyncRunRows :=
  if run.status ≠ .running then
    .error (.invalidData "sync_runs.status".toList
      "new runs must start in status `Running`".toList)
  else if run.finishedAt.isSome then
    .error (.invalidData "sync_runs.finished_at".toList
      "new runs must have `finished_at == None`".toList)
  else if h : run.id ∈ t.ids then .error (.conflict "sync_runs.insert".toList)
  else if ¬References (run.id :: t.ids) run.supersededBy then
    .error (.conflict "sync_runs.insert".toList)
  else .ok {
    rows := t.rows ++ [run]
    nodup := by
      rw [List.map_append, List.map_singleton, ← List.concat_eq_append]
      exact List.Nodup.concat h t.nodup }

/-- `UPDATE … WHERE id = ? AND status = 'Running'`; when no row was touched, a second
look tells a missing row from a terminal one. -/
def transition (t : SyncRunRows) (id : Uuid) (toStatus : SyncRunStatus) (finishedAt : Option ℤ)
    (cancelReason : Option (SyncRunCancelReason Uuid)) (supersededBy : Option Uuid)
    (perSourceState : Option (List PerSourceState)) : Except DbError SyncRunRows :=
  match get t id with
  | none => .error (.invalidData "sync_runs.id".toList
      ("no sync_runs row for id ".toList ++ id.display))
  | some current =>
    if current.status ≠ .running then
      .error (.invalidData "sync_runs.status".toList
        ("illegal transition from ".toList ++ current.status.debug ++ " to ".toList ++
          toStatus.debug))
    else if ¬References t.ids supersededBy then
      .error (.sqlx "FOREIGN KEY constraint failed".toList)
    else .ok (t.update id (fun run => { run with
      status := toStatus
      finishedAt := finishedAt
      cancelReason := cancelReason
      supersededBy := supersededBy
      perSourceState := perSourceState.getD run.perSourceState }) fun _ => rfl)

def markFinished (t : SyncRunRows) (id : Uuid) (finishedAt : ℤ)
    (perSourceState : List PerSourceState) : Except DbError SyncRunRows :=
  transition t id .completed (some finishedAt) none none (some perSourceState)

def markCancelled (t : SyncRunRows) (id : Uuid) (finishedAt : ℤ)
    (reason : SyncRunCancelReason Uuid) (perSourceState : List PerSourceState) :
    Except DbError SyncRunRows :=
  let supersededBy := match reason with
    | .supersededBy runId => some runId
    | .user => none
  transition t id .cancelled (some finishedAt) (some reason) supersededBy (some perSourceState)

def markFailed (t : SyncRunRows) (id : Uuid) (finishedAt : ℤ)
    (perSourceState : List PerSourceState) : Except DbError SyncRunRows :=
  transition t id .failed (some finishedAt) none none (some perSourceState)

/-- The row is running and was not finished. -/
def isOpen (run : SyncRunRow) : Bool := run.status = .running && run.finishedAt.isNone

def listRunning (t : SyncRunRows) : List SyncRunRow :=
  (t.rows.filter isOpen).mergeSort fun a b => decide (a.startedAt ≤ b.startedAt)

/-! ### What the writes do -/

section Writes

variable {t t' : SyncRunRows} {id : Uuid} {run run' : SyncRunRow} {st : SyncRunStatus}
  {fin : Option ℤ} {reason : Option (SyncRunCancelReason Uuid)} {sup : Option Uuid}
  {ps : Option (List PerSourceState)}

/-- A key has one row. -/
theorem eq_of_id_eq (h : run ∈ t.rows) (h' : run' ∈ t.rows) (hid : run.id = run'.id) :
    run = run' :=
  List.inj_on_of_nodup_map t.nodup h h' hid

theorem get_eq_some_iff : get t id = some run ↔ run ∈ t.rows ∧ run.id = id := by
  constructor
  · intro h
    exact ⟨List.mem_of_find?_eq_some h, by simpa using List.find?_some h⟩
  · rintro ⟨hmem, hid⟩
    cases hg : get t id with
    | none => exact absurd hid (by simpa using List.find?_eq_none.mp hg run hmem)
    | some run' =>
      have hid' : run'.id = id := by simpa using List.find?_some hg
      rw [eq_of_id_eq (List.mem_of_find?_eq_some hg) hmem (hid'.trans hid.symm)]

theorem mem_listRunning_iff : run ∈ listRunning t ↔ run ∈ t.rows ∧ isOpen run = true := by
  rw [listRunning, (List.mergeSort_perm _ _).mem_iff, List.mem_filter]

theorem listRunning_nodup (t : SyncRunRows) : ((listRunning t).map (·.id)).Nodup := by
  rw [listRunning, ((List.mergeSort_perm _ _).map _).nodup_iff]
  exact t.nodup.sublist (List.filter_sublist.map _)

/-- A row is added running and unfinished, under a key of its own. -/
theorem insert_eq_ok (h : insert t run = .ok t') : run.status = .running ∧
    run.finishedAt = none ∧ run.id ∉ t.ids ∧ t'.rows = t.rows ++ [run] := by
  unfold insert at h
  split_ifs at h with hst hfin hid href
  obtain rfl := Except.ok.inj h
  exact ⟨not_not.mp hst, by simpa using hfin, hid, rfl⟩

/-- Only a running row is moved, and no other row is touched. -/
theorem transition_eq_ok (h : transition t id st fin reason sup ps = .ok t') :
    (∃ current ∈ t.rows, current.id = id ∧ current.status = .running) ∧
      t'.rows = t.rows.map fun run => if run.id = id then { run with
        status := st
        finishedAt := fin
        cancelReason := reason
        supersededBy := sup
        perSourceState := ps.getD run.perSourceState } else run := by
  unfold transition at h
  cases hg : get t id with
  | none => rw [hg] at h; cases h
  | some current =>
    rw [hg] at h
    simp only at h
    split_ifs at h with hst href
    obtain rfl := Except.ok.inj h
    obtain ⟨hmem, hid⟩ := get_eq_some_iff.mp hg
    exact ⟨⟨current, hmem, hid, not_not.mp hst⟩, rfl⟩

/-- A terminal row refuses every transition. -/
theorem transition_of_terminal (hmem : run ∈ t.rows) (hst : run.status ≠ .running) :
    transition t run.id st fin reason sup ps =
      .error (.invalidData "sync_runs.status".toList
        ("illegal transition from ".toList ++ run.status.debug ++ " to ".toList ++ st.debug)) := by
  rw [transition, get_eq_some_iff.mpr ⟨hmem, rfl⟩]
  exact if_pos hst

/-- A running row can be moved to a status without a foreign key. -/
theorem exists_transition (hmem : run ∈ t.rows) (hst : run.status = .running) :
    ∃ t', transition t run.id st fin reason none ps = .ok t' := by
  rw [transition, get_eq_some_iff.mpr ⟨hmem, rfl⟩]
  refine ⟨_, (if_neg (not_not.mpr hst)).trans (if_neg (not_not.mpr ?_))⟩
  intro r hr
  simp at hr

/-! ### The table by its primary key -/

/-- An added row is added to the table. -/
theorem insert_table (h : insert t run = .ok t') : t.table.insert run = some t'.table := by
  obtain ⟨hst, hfin, hid, hrows⟩ := insert_eq_ok h
  have hfree : t.table run.id = none := by
    refine List.find?_eq_none.mpr fun x hx hxid => hid ?_
    rw [← of_decide_eq_true hxid]
    exact List.mem_map_of_mem hx
  rw [SyncRunTable.insert, if_neg (not_not.mpr hst), if_neg (by simp [hfin]),
    if_neg (by simp [hfree])]
  congr 1
  funext id
  rw [SyncRunRows.table, hrows, List.find?_append]
  by_cases hx : id = run.id
  · subst hx
    rw [Function.update_self, ← SyncRunRows.table, hfree]
    simp
  · rw [Function.update_of_ne hx, SyncRunRows.table, List.find?_cons_of_neg (by simp [Ne.symm hx]),
      List.find?_nil, Option.or_none]

/-- A transition is that of the table. -/
theorem transition_table (h : transition t id st fin reason sup ps = .ok t') :
    t.table.transition id st fin reason sup ps = some t'.table := by
  obtain ⟨⟨current, hmem, hid, hst⟩, hrows⟩ := transition_eq_ok h
  have hget : t.table id = some current := get_eq_some_iff.mpr ⟨hmem, hid⟩
  rw [SyncRunTable.transition, hget]
  dsimp only
  rw [if_pos hst]
  congr 1
  funext id'
  have hkey : t.rows.find? ((fun run : SyncRunRow => decide (run.id = id')) ∘ fun run =>
      if run.id = id then { run with
        status := st
        finishedAt := fin
        cancelReason := reason
        supersededBy := sup
        perSourceState := ps.getD run.perSourceState } else run) = t.table id' := by
    refine congrArg (t.rows.find? ·) (funext fun run => ?_)
    rw [Function.comp_apply]
    split <;> rfl
  rw [SyncRunRows.table, hrows, List.find?_map, hkey]
  by_cases hx : id' = id
  · subst hx
    rw [Function.update_self, hget, Option.map_some, if_pos hid]
  · rw [Function.update_of_ne hx]
    cases hg : t.table id' with
    | none => rfl
    | some run =>
      have hid' : run.id = id' := (get_eq_some_iff.mp hg).2
      rw [Option.map_some, if_neg (hid' ▸ hx)]

end Writes

end SyncRunRepo

end Dayseam
