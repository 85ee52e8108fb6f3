import Dayseam.Report.Rollup
import Mathlib

/-!
# The groups of a rollup before the merge

Which events each group holds: an artifact holds the events that it claims and no
artifact before it does, a bucket of orphans holds the unclaimed events with its
key.  Together they hold every event once.

## Main results

* `indexById_perm` — with distinct ids, the index holds every event.
* `mem_claimEvents_iff`, `claimEvents_left` — what an artifact takes and leaves.
* `flatMap_claimGroups_perm`, `flatMap_orphanByKey_perm` — no event is lost.
* `flatMap_groupsOf_perm` — **the groups hold every event once.**
-/

namespace Dayseam
namespace Report

open KeyedMerge OrderedMap

variable {crates : Crates} {events index orphans : List ActivityEvent}
  {artifacts l r : List Artifact} {ids : List Uuid} {e : ActivityEvent} {date : NaiveDate}

/-! ### The index -/

theorem indexById_sorted (events : List ActivityEvent) :
    OrderedMap.Sorted (·.id) (indexById events) :=
  sorted_foldl_upsert (fun _ => ⟨rfl, fun _ _ => rfl⟩) List.Pairwise.nil

theorem indexById_nodup (events : List ActivityEvent) :
    ((indexById events).map (·.id)).Nodup := by
  rw [← distinct_iff_nodup_map]
  exact (indexById_sorted events).imp fun h => h.ne

/-- Of the events with an id, the index holds the last. -/
theorem find?_indexById (events : List ActivityEvent) (i : Uuid) :
    (indexById events).find? (fun e => decide (e.id = i)) =
      events.reverse.find? fun e => decide (e.id = i) := by
  have h := @find?_foldl_replace ActivityEvent ActivityEvent Uuid _ (·.id) (·.id) events [] id
    (fun _ => rfl) List.Pairwise.nil i
  rw [Option.map_id, List.find?_nil, Option.or_none] at h
  exact h

/-- The ids of the index are those of the events. -/
theorem exists_mem_indexById {P : Uuid → Prop} :
    (∃ e ∈ indexById events, P e.id) ↔ ∃ e ∈ events, P e.id := by
  have hlast {xs : List ActivityEvent} {e : ActivityEvent} (he : e ∈ xs) :
      ∃ f, xs.find? (fun f => decide (f.id = e.id)) = some f :=
    Option.isSome_iff_exists.mp (List.find?_isSome.mpr ⟨e, he, by simp⟩)
  constructor
  · rintro ⟨e, he, hP⟩
    obtain ⟨f, hf⟩ := hlast he
    rw [find?_indexById] at hf
    have hid : f.id = e.id := by simpa using List.find?_some hf
    exact ⟨f, List.mem_reverse.mp (List.mem_of_find?_eq_some hf), hid ▸ hP⟩
  · rintro ⟨e, he, hP⟩
    obtain ⟨f, hf⟩ := hlast (List.mem_reverse.mpr he)
    rw [← find?_indexById] at hf
    have hid : f.id = e.id := by simpa using List.find?_some hf
    exact ⟨f, List.mem_of_find?_eq_some hf, hid ▸ hP⟩

/-- With distinct ids, the index holds every event. -/
theorem indexById_perm (h : (events.map (·.id)).Nodup) : (indexById events).Perm events := by
  have hp : (indexById events).Perm ([] ++ events.map fun e => e) :=
    foldl_upsert_perm (fun _ => rfl) h (by simp)
  simpa using hp

/-! ### Claims -/

/-- The artifact claims the event. -/
def claims (artifact : Artifact) (e : ActivityEvent) : Bool := e.id ∈ artifact.payload.eventIds

/-- No artifact claims the event. -/
def Unclaimed (artifacts : List Artifact) (e : ActivityEvent) : Prop :=
  ∀ a ∈ artifacts, claims a e = false

instance (artifacts : List Artifact) (e : ActivityEvent) : Decidable (Unclaimed artifacts e) :=
  inferInstanceAs (Decidable (∀ a ∈ artifacts, claims a e = false))

/-- What is left after the events with the given ids are taken. -/
theorem claimEvents_left (ids : List Uuid) (index : List ActivityEvent) :
    (claimEvents ids index).2 = index.filter fun e => decide (e.id ∉ ids) := by
  induction ids generalizing index with
  | nil => simp [claimEvents]
  | cons id ids ih =>
    cases hf : index.find? (·.id = id) with
    | some found =>
      simp only [claimEvents, hf]
      rw [ih, List.filter_filter]
      apply List.filter_congr
      intro e _
      simp [Bool.and_comm]
    | none =>
      simp only [claimEvents, hf]
      rw [ih]
      apply List.filter_congr
      intro e he
      have hne : e.id ≠ id := by simpa using List.find?_eq_none.mp hf e he
      simp [hne]

/-- With distinct ids, what is taken and what is left is everything. -/
theorem claimEvents_perm (ids : List Uuid) (h : (index.map (·.id)).Nodup) :
    ((claimEvents ids index).1 ++ (claimEvents ids index).2).Perm index := by
  induction ids generalizing index with
  | nil => simp [claimEvents]
  | cons id ids ih =>
    cases hf : index.find? (·.id = id) with
    | some found =>
      have hid : found.id = id := by simpa using List.find?_some hf
      have hmem := List.mem_of_find?_eq_some hf
      have hleft : ((index.filter (·.id ≠ id)).map (·.id)).Nodup :=
        h.sublist (List.filter_sublist.map _)
      simp only [claimEvents, hf]
      refine ((ih hleft).cons found).trans ?_
      have honly := (distinct_iff_nodup_map.mpr h).filter_eq hmem
      have hsplit := List.filter_append_perm (fun x : ActivityEvent => decide (x.id = id)) index
      rw [← hid, honly] at hsplit
      rw [← hid]
      simpa using hsplit
    | none =>
      simp only [claimEvents, hf]
      exact ih h

/-- An artifact takes the events of its ids. -/
theorem mem_claimEvents_iff (h : (index.map (·.id)).Nodup) :
    e ∈ (claimEvents ids index).1 ↔ e ∈ index ∧ e.id ∈ ids := by
  have hperm := claimEvents_perm ids h
  have hleft : e ∈ (claimEvents ids index).2 ↔ e ∈ index ∧ e.id ∉ ids := by
    rw [claimEvents_left]
    simp
  have hnodup := (hperm.map (·.id)).nodup_iff.mpr h
  rw [List.map_append, List.nodup_append] at hnodup
  constructor
  · intro he
    have hmem : e ∈ index := hperm.mem_iff.mp (List.mem_append_left _ he)
    refine ⟨hmem, ?_⟩
    by_contra hid
    exact hnodup.2.2 _ (List.mem_map_of_mem he) _
      (List.mem_map_of_mem (hleft.mpr ⟨hmem, hid⟩)) rfl
  · rintro ⟨hmem, hid⟩
    rcases List.mem_append.mp (hperm.mem_iff.mpr hmem) with he | he
    · exact he
    · exact absurd hid (hleft.mp he).2

@[simp] theorem claimGroups_nil (index : List ActivityEvent) :
    claimGroups [] index = ([], index) := rfl

theorem claimGroups_cons (a : Artifact) (artifacts : List Artifact) (index : List ActivityEvent) :
    claimGroups (a :: artifacts) index =
      (⟨a, sortEvents (claimEvents a.payload.eventIds index).1⟩ ::
          (claimGroups artifacts (claimEvents a.payload.eventIds index).2).1,
        (claimGroups artifacts (claimEvents a.payload.eventIds index).2).2) := rfl

/-- The groups of the artifacts are in the order of the artifacts. -/
theorem map_artifact_claimGroups (artifacts : List Artifact) (index : List ActivityEvent) :
    (claimGroups artifacts index).1.map (·.artifact) = artifacts := by
  induction artifacts generalizing index with
  | nil => rfl
  | cons a artifacts ih => rw [claimGroups_cons, List.map_cons, ih]

theorem claimGroups_left (artifacts : List Artifact) (index : List ActivityEvent) :
    (claimGroups artifacts index).2 = index.filter fun e => decide (Unclaimed artifacts e) := by
  induction artifacts generalizing index with
  | nil => simp [Unclaimed]
  | cons a artifacts ih =>
    rw [claimGroups_cons, ih, claimEvents_left, List.filter_filter]
    apply List.filter_congr
    intro e _
    simp [Unclaimed, claims, Bool.and_comm]

theorem claimGroups_append (l r : List Artifact) (index : List ActivityEvent) :
    (claimGroups (l ++ r) index).1 =
      (claimGroups l index).1 ++ (claimGroups r (claimGroups l index).2).1 := by
  induction l generalizing index with
  | nil => rfl
  | cons a l ih => rw [List.cons_append, claimGroups_cons, claimGroups_cons, ih, List.cons_append]

theorem claimGroups_append_left (l r : List Artifact) (index : List ActivityEvent) :
    (claimGroups (l ++ r) index).2 = (claimGroups r (claimGroups l index).2).2 := by
  induction l generalizing index with
  | nil => rfl
  | cons a l ih => rw [List.cons_append, claimGroups_cons, claimGroups_cons, ih]

/-- The groups of the artifacts and the orphans hold every indexed event. -/
theorem flatMap_claimGroups_perm (artifacts : List Artifact) (h : (index.map (·.id)).Nodup) :
    ((claimGroups artifacts index).1.flatMap (·.events) ++ (claimGroups artifacts index).2).Perm
      index := by
  induction artifacts generalizing index with
  | nil => simp
  | cons a artifacts ih =>
    have hperm := claimEvents_perm a.payload.eventIds h
    have hleft : (((claimEvents a.payload.eventIds index).2).map (·.id)).Nodup := by
      rw [claimEvents_left]
      exact h.sublist (List.filter_sublist.map _)
    rw [claimGroups_cons, List.flatMap_cons, List.append_assoc]
    exact (((sortEvents_perm _).append_right _).trans ((ih hleft).append_left _)).trans hperm

/-- The place of a claimed event: the group of the first artifact that claims it. -/
theorem mem_claimGroups (h : (index.map (·.id)).Nodup) (he : e ∈ index) {a : Artifact}
    (ha : claims a e = true) (hl : Unclaimed l e) :
    ∃ g gs, (claimGroups (l ++ a :: r) index).1 = (claimGroups l index).1 ++ g :: gs ∧
      g.artifact = a ∧ e ∈ g.events := by
  refine ⟨⟨a, sortEvents (claimEvents a.payload.eventIds (claimGroups l index).2).1⟩,
    (claimGroups r (claimEvents a.payload.eventIds (claimGroups l index).2).2).1, ?_, rfl, ?_⟩
  · rw [claimGroups_append, claimGroups_cons]
  · have hleft : (((claimGroups l index).2).map (·.id)).Nodup := by
      rw [claimGroups_left]
      exact h.sublist (List.filter_sublist.map _)
    rw [mem_sortEvents, mem_claimEvents_iff hleft, claimGroups_left, List.mem_filter]
    exact ⟨⟨he, by simpa using hl⟩, by simpa [claims] using ha⟩

/-! ### Orphans -/

theorem orphanByKey_sorted (orphans : List ActivityEvent) :
    OrderedMap.Sorted (·.1.order) (orphanByKey orphans) := by
  refine sorted_foldl_upsert (fun e => ⟨rfl, ?_⟩) List.Pairwise.nil
  intro bucket hk
  exact hk

/-- A bucket is not empty, and its events have its key. -/
theorem orphanByKey_bucket {bucket : OrphanKey × List ActivityEvent}
    (h : bucket ∈ orphanByKey orphans) :
    bucket.2 ≠ [] ∧ ∀ e ∈ bucket.2, (orphanKey e).order = bucket.1.order := by
  refine forall_mem_foldl_upsert (P := fun b : OrphanKey × List ActivityEvent =>
    b.2 ≠ [] ∧ ∀ e ∈ b.2, (orphanKey e).order = b.1.order) ?_ ?_ (by simp) bucket h
  · intro a _
    simp
  · rintro a _ ⟨key, held⟩ hk ⟨-, hheld⟩
    refine ⟨by simp, ?_⟩
    intro e he
    rcases List.mem_append.mp he with he | he
    · exact hheld e he
    · rw [List.mem_singleton.mp he]
      exact hk.symm

theorem flatMap_orphanByKey_perm (orphans : List ActivityEvent) :
    ((orphanByKey orphans).flatMap (·.2)).Perm orphans := by
  have h : ((orphanByKey orphans).flatMap (·.2)).Perm
      (([] : List (OrphanKey × List ActivityEvent)).flatMap (·.2) ++ orphans.flatMap fun e => [e]) :=
    flatMap_foldl_upsert_perm (fun _ => rfl) fun _ _ _ => List.Perm.refl _
  simpa using h

theorem flatMap_map_orphanGroup_perm (buckets : List (OrphanKey × List ActivityEvent)) :
    ((buckets.map (orphanGroup crates date)).flatMap (·.events)).Perm (buckets.flatMap (·.2)) := by
  rw [List.flatMap_map]
  exact List.Perm.flatMap_left _ fun b _ => sortEvents_perm b.2

/-! ### All groups -/

theorem groupsOf_eq : groupsOf crates events artifacts date =
    (claimGroups artifacts (indexById events)).1 ++
      (orphanByKey (claimGroups artifacts (indexById events)).2).map (orphanGroup crates date) :=
  rfl

/-- The groups hold every event of the index once. -/
theorem flatMap_groupsOf_perm_index :
    ((groupsOf crates events artifacts date).flatMap (·.events)).Perm (indexById events) := by
  rw [groupsOf_eq, List.flatMap_append]
  refine List.Perm.trans ?_ (flatMap_claimGroups_perm artifacts (indexById_nodup events))
  exact ((flatMap_map_orphanGroup_perm _).trans (flatMap_orphanByKey_perm _)).append_left _

/-- **The groups hold every event once.** -/
theorem flatMap_groupsOf_perm (h : (events.map (·.id)).Nodup) :
    ((groupsOf crates events artifacts date).flatMap (·.events)).Perm events :=
  flatMap_groupsOf_perm_index.trans (indexById_perm h)

end Report
end Dayseam
