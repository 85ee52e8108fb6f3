import Dayseam.Core.Ids
import Dayseam.Db.SyncRunRepo
import Dayseam.Lib.KeyedMerge
import Mathlib

/-!
# The repository of activity events

A row has its id as the primary key, and no two rows share the source, the upstream
id and the kind.  Inserting an event whose place is taken refreshes everything in the
row but the id.  The foreign key to the source is left out.

## Main definitions

* `ActivityRows` — the rows, with their two keys.
* `ActivityRepo.insertMany` — a batch, in one transaction.
* `ActivityRepo.hydrate` — the row that an edge of evidence points at,
  `ActivityRepo.getMany` the rows of many.

## Main results

* `ActivityRepo.insertMany_addressed` — what the rows are after a batch of events
  whose ids are those of their places.
-/

namespace Dayseam

/-- The place of an event in the table. -/
def ActivityEvent.place (event : ActivityEvent) : Uuid × Text × ActivityKind :=
  (event.sourceId, event.externalId, event.kind)

structure ActivityRows where
  rows : List ActivityEvent
  distinct : KeyedMerge.Distinct ActivityEvent.place rows
  nodup : (rows.map (·.id)).Nodup

namespace ActivityRepo

open KeyedMerge (place Distinct distinct_place place_of_new mem_place exists_slot_place)

def empty : ActivityRows := ⟨[], List.Pairwise.nil, List.nodup_nil⟩

/-- Every column is the new one but the id. -/
def refresh (row event : ActivityEvent) : ActivityEvent := { event with id := row.id }

theorem keeps_refresh : KeyedMerge.Keeps ActivityEvent.place refresh := fun _ _ _ => rfl

variable {t : ActivityRows} {event row : ActivityEvent} {rows : List ActivityEvent}

theorem map_id_place (h : ∃ row ∈ rows, row.place = event.place) :
    (place ActivityEvent.place refresh rows event).map (·.id) = rows.map (·.id) := by
  induction rows with
  | nil =>
    obtain ⟨row, hrow, -⟩ := h
    exact absurd hrow List.not_mem_nil
  | cons row rows ih =>
    unfold place
    split_ifs with hrow
    · rfl
    · obtain ⟨r, hr, hplace⟩ := h
      rcases List.mem_cons.mp hr with rfl | hr
      · exact absurd hplace hrow
      · rw [List.map_cons, ih ⟨r, hr, hplace⟩, List.map_cons]

/-- `INSERT … ON CONFLICT(source_id, external_id, kind) DO UPDATE`. -/
def upsert (t : ActivityRows) (event : ActivityEvent) : Except DbError ActivityRows :=
  if h : (∃ row ∈ t.rows, row.place = event.place) ∨ event.id ∉ t.rows.map (·.id) then .ok {
    rows := place ActivityEvent.place refresh t.rows event
    distinct := distinct_place keeps_refresh t.distinct event
    nodup := by
      by_cases htaken : ∃ row ∈ t.rows, row.place = event.place
      · rw [map_id_place htaken]
        exact t.nodup
      · rw [place_of_new fun row hrow hplace => htaken ⟨row, hrow, hplace⟩, List.map_append,
          List.map_singleton, ← List.concat_eq_append]
        exact List.Nodup.concat (h.resolve_left htaken) t.nodup }
  else .error (.conflict "activity_events.insert_many".toList)

def insertMany (t : ActivityRows) (events : List ActivityEvent) : Except DbError ActivityRows :=
  events.foldlM upsert t

/-- The row of an id. -/
def hydrate (t : ActivityRows) (id : Uuid) : Option ActivityEvent := t.rows.find? (·.id = id)

/-- Take the rows of the ids out of a map, in the order of the ids. -/
def takeEach : List ActivityEvent → List Uuid → List ActivityEvent
  | _, [] => []
  | byId, id :: ids => match byId.find? (·.id = id) with
    | some row => row :: takeEach (byId.filter (·.id ≠ id)) ids
    | none => takeEach byId ids

/-- `get_many`. -/
def getMany (t : ActivityRows) (ids : List Uuid) : List ActivityEvent :=
  takeEach (t.rows.filter (·.id ∈ ids)) ids

/-- `ON DELETE CASCADE`. -/
def deleteForSource (t : ActivityRows) (sourceId : Uuid) : ActivityRows where
  rows := t.rows.filter (·.sourceId ≠ sourceId)
  distinct := t.distinct.filter _
  nodup := t.nodup.sublist (List.filter_sublist.map _)

/-- What is taken: rows of the map, no two of one id, one for each id that has any. -/
theorem takeEach_spec (byId : List ActivityEvent) (ids : List Uuid) :
    (∀ row ∈ takeEach byId ids, row ∈ byId) ∧ ((takeEach byId ids).map (·.id)).Nodup ∧
      ∀ id, id ∈ (takeEach byId ids).map (·.id) ↔ id ∈ ids ∧ id ∈ byId.map (·.id) := by
  induction ids generalizing byId with
  | nil => simp [takeEach]
  | cons id ids ih =>
    unfold takeEach
    split
    · next row hrow =>
      have hid : row.id = id := by simpa using List.find?_some hrow
      have hmem := List.mem_of_find?_eq_some hrow
      obtain ⟨hrows, hnodup, hids⟩ := ih (byId.filter (·.id ≠ id))
      refine ⟨?_, ?_, ?_⟩
      · rw [List.forall_mem_cons]
        exact ⟨hmem, fun r hr => (List.mem_filter.mp (hrows r hr)).1⟩
      · rw [List.map_cons, List.nodup_cons, hid]
        refine ⟨fun hin => ?_, hnodup⟩
        obtain ⟨r, hr, hrid⟩ := List.mem_map.mp ((hids id).mp hin).2
        exact absurd hrid (by simpa using (List.mem_filter.mp hr).2)
      · intro i
        rw [List.map_cons, List.mem_cons, List.mem_cons, hids, hid]
        by_cases hi : i = id
        · subst hi
          refine iff_of_true (Or.inl rfl) ⟨Or.inl rfl, ?_⟩
          rw [← hid]
          exact List.mem_map_of_mem hmem
        · simp only [hi, false_or, List.mem_map, List.mem_filter, decide_eq_true_eq]
          constructor
          · rintro ⟨hin, r, ⟨hr, -⟩, rfl⟩
            exact ⟨hin, r, hr, rfl⟩
          · rintro ⟨hin, r, hr, rfl⟩
            exact ⟨hin, r, ⟨hr, hi⟩, rfl⟩
    · next hnone =>
      obtain ⟨hrows, hnodup, hids⟩ := ih byId
      refine ⟨hrows, hnodup, fun i => ?_⟩
      rw [hids, List.mem_cons]
      have hno : id ∉ byId.map (·.id) := by
        simpa [List.find?_eq_none] using hnone
      constructor
      · exact fun h => ⟨Or.inr h.1, h.2⟩
      · rintro ⟨rfl | hin, hrow⟩
        · exact absurd hrow hno
        · exact ⟨hin, hrow⟩

/-- **`get_many` on ids that have rows**: one row for each distinct id. -/
theorem getMany_spec {ids : List Uuid} (h : ∀ id ∈ ids, id ∈ t.rows.map (·.id)) :
    (∀ row ∈ getMany t ids, row ∈ t.rows) ∧ ((getMany t ids).map (·.id)).Nodup ∧
      ∀ id, id ∈ (getMany t ids).map (·.id) ↔ id ∈ ids := by
  obtain ⟨hrows, hnodup, hids⟩ := takeEach_spec (t.rows.filter (·.id ∈ ids)) ids
  refine ⟨fun row hrow => (List.mem_filter.mp (hrows row hrow)).1, hnodup, fun id => ?_⟩
  rw [getMany, hids]
  refine and_iff_left_of_imp fun hid => ?_
  obtain ⟨row, hrow, rfl⟩ := List.mem_map.mp (h id hid)
  exact List.mem_map_of_mem (List.mem_filter.mpr ⟨hrow, decide_eq_true hid⟩)

/-! ### What a batch keeps -/

/-- The event has the id and the place of one of the events. -/
def HasOrigin (events : List ActivityEvent) (event : ActivityEvent) : Prop :=
  ∃ e ∈ events, e.id = event.id ∧ e.place = event.place

theorem HasOrigin.mono {events events' : List ActivityEvent} (h : HasOrigin events event)
    (hsub : ∀ e ∈ events, HasOrigin events' e) : HasOrigin events' event := by
  obtain ⟨e, he, hid, hplace⟩ := h
  obtain ⟨e', he', hid', hplace'⟩ := hsub e he
  exact ⟨e', he', hid'.trans hid, hplace'.trans hplace⟩

theorem hasOrigin_of_mem {events : List ActivityEvent} (h : event ∈ events) :
    HasOrigin events event := ⟨event, h, rfl, rfl⟩

/-- One more event: no id and no place is new but its own, and no place is lost. -/
theorem upsert_ok {t' : ActivityRows} (h : upsert t event = .ok t') :
    (∀ row ∈ t'.rows, HasOrigin (t.rows ++ [event]) row) ∧
      ∀ e ∈ t.rows ++ [event], ∃ row ∈ t'.rows, row.place = e.place := by
  unfold upsert at h
  split_ifs at h
  cases h
  constructor
  · intro row hrow
    rcases mem_place hrow with rfl | ⟨old, hold, hplace, rfl⟩ | hrow
    · exact hasOrigin_of_mem (List.mem_append_right _ List.mem_cons_self)
    · exact ⟨old, List.mem_append_left _ hold, rfl, hplace⟩
    · exact hasOrigin_of_mem (List.mem_append_left _ hrow)
  · intro e he
    apply exists_slot_place keeps_refresh
    rcases List.mem_append.mp he with he | he
    · exact Or.inl ⟨e, he, rfl⟩
    · rw [List.mem_singleton.mp he]
      exact Or.inr rfl

/-- **What a batch keeps**: no id and no place is new but those of its events, and no
place is lost. -/
theorem insertMany_ok {events : List ActivityEvent} {t' : ActivityRows}
    (h : insertMany t events = .ok t') : (∀ row ∈ t'.rows, HasOrigin (t.rows ++ events) row) ∧
      ∀ e ∈ t.rows ++ events, ∃ row ∈ t'.rows, row.place = e.place := by
  induction events generalizing t with
  | nil =>
    cases h
    simp only [List.append_nil]
    exact ⟨fun row hrow => hasOrigin_of_mem hrow, fun e he => ⟨e, he, rfl⟩⟩
  | cons event events ih =>
    rw [insertMany, List.foldlM_cons] at h
    cases hone : upsert t event with
    | error err =>
      rw [hone] at h
      cases h
    | ok t₁ =>
      rw [hone] at h
      obtain ⟨hfrom, hkept⟩ := upsert_ok hone
      obtain ⟨hfrom', hkept'⟩ := ih h
      constructor
      · intro row hrow
        refine (hfrom' row hrow).mono fun e he => ?_
        rcases List.mem_append.mp he with he | he
        · refine (hfrom e he).mono fun e' he' => hasOrigin_of_mem ?_
          rw [List.append_cons]
          exact List.mem_append_left _ he'
        · exact hasOrigin_of_mem (List.mem_append_right _ (List.mem_cons_of_mem _ he))
      · intro e he
        rw [List.append_cons] at he
        rcases List.mem_append.mp he with he | he
        · obtain ⟨row, hrow, hplace⟩ := hkept e he
          obtain ⟨row', hrow', hplace'⟩ := hkept' row (List.mem_append_left _ hrow)
          exact ⟨row', hrow', hplace'.trans hplace⟩
        · exact hkept' e (List.mem_append_right _ he)

/-! ### Events whose ids are those of their places -/

/-- Two events have the same id just when they have the same place. -/
def Addressed (events : List ActivityEvent) : Prop :=
  ∀ e ∈ events, ∀ e' ∈ events, e.id = e'.id ↔ e.place = e'.place

theorem hydrate_eq_some (h : row ∈ t.rows) : hydrate t row.id = some row := by
  have hdistinct : Distinct (·.id) t.rows := KeyedMerge.distinct_iff_nodup_map.mpr t.nodup
  exact hdistinct.find?_eq h

/-- What the rows of a table are, once the events `done` went into it. -/
structure Holds (t : ActivityRows) (done : List ActivityEvent) : Prop where
  inserted : ∀ row ∈ t.rows, row ∈ done
  placed : ∀ e ∈ done, ∃ row ∈ t.rows, row.place = e.place

theorem holds_empty : Holds empty [] :=
  ⟨fun _ h => absurd h List.not_mem_nil, fun _ h => absurd h List.not_mem_nil⟩

/-- One more event. -/
theorem upsert_addressed {done : List ActivityEvent} (h : Holds t done)
    (ha : Addressed (done ++ [event])) :
    ∃ t', upsert t event = .ok t' ∧ Holds t' (done ++ [event]) := by
  have hevent : event ∈ done ++ [event] := List.mem_append_right _ List.mem_cons_self
  have hdone : ∀ e ∈ done, e ∈ done ++ [event] := fun e he => List.mem_append_left _ he
  have hfits : (∃ row ∈ t.rows, row.place = event.place) ∨ event.id ∉ t.rows.map (·.id) := by
    by_contra hno
    obtain ⟨hplace, hid⟩ := not_or.mp hno
    obtain ⟨row, hrow, hrowid⟩ := List.mem_map.mp (not_not.mp hid)
    exact hplace ⟨row, hrow, (ha row (hdone _ (h.inserted row hrow)) event hevent).mp hrowid⟩
  refine ⟨_, dif_pos hfits, ?_, ?_⟩
  · intro row hrow
    rcases mem_place hrow with rfl | ⟨old, hold, hplace, rfl⟩ | hrow
    · exact hevent
    · -- a refreshed row is the event itself, for the id of its place is its own
      have hid := (ha old (hdone _ (h.inserted old hold)) event hevent).mpr hplace
      have hrefresh : refresh old event = event := by
        unfold refresh
        rw [hid]
      rw [hrefresh]
      exact hevent
    · exact hdone _ (h.inserted row hrow)
  · intro e he
    apply exists_slot_place keeps_refresh
    rcases List.mem_append.mp he with he | he
    · exact Or.inl (h.placed e he)
    · exact Or.inr (congrArg ActivityEvent.place (List.mem_singleton.mp he)).symm

/-- **A batch of events** whose ids are those of their places. -/
theorem insertMany_addressed {done events : List ActivityEvent} (h : Holds t done)
    (ha : Addressed (done ++ events)) :
    ∃ t', insertMany t events = .ok t' ∧ Holds t' (done ++ events) := by
  induction events generalizing t done with
  | nil => exact ⟨t, rfl, by rwa [List.append_nil]⟩
  | cons e events ih =>
    rw [List.append_cons] at ha ⊢
    obtain ⟨t₁, ht₁, hholds⟩ := upsert_addressed h fun a ha' b hb =>
      ha a (List.mem_append_left _ ha') b (List.mem_append_left _ hb)
    obtain ⟨t₂, ht₂, hholds₂⟩ := ih hholds ha
    refine ⟨t₂, ?_, hholds₂⟩
    rw [insertMany, List.foldlM_cons, ht₁]
    exact ht₂

/-- The row behind an event that went into the table: one of the events of its place. -/
theorem Holds.hydrate {events : List ActivityEvent} (h : Holds t events) (ha : Addressed events)
    {e : ActivityEvent} (he : e ∈ events) :
    ∃ row ∈ events, row.place = e.place ∧ hydrate t e.id = some row := by
  obtain ⟨row, hrow, hplace⟩ := h.placed e he
  refine ⟨row, h.inserted row hrow, hplace, ?_⟩
  rw [← (ha row (h.inserted row hrow) e he).mpr hplace]
  exact hydrate_eq_some hrow

end ActivityRepo
end Dayseam
