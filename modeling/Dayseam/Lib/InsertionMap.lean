import Dayseam.Lib.KeyedMerge
import Mathlib

/-!
# Maps in insertion order

A map lists its entries in the order in which their keys were first set, and setting a key
again changes the entry where it stands.  A list is cut by a key into one part for each key.

## Main definitions

* `InsertionMap.get`, `InsertionMap.set` — the entry of a key.

## Main results

* `get_set` — what is set is got, and nothing else changes.
* `flatMap_filter_perm` — the parts of a list together are the list.
-/

namespace InsertionMap

variable {κ ν α : Type*} [DecidableEq κ]

/-- The entries of a map. -/
abbrev Entries (κ ν : Type*) := List (κ × ν)

def get (m : Entries κ ν) (k : κ) : Option ν := (m.find? fun e => decide (e.1 = k)).map Prod.snd

def set (m : Entries κ ν) (k : κ) (v : ν) : Entries κ ν :=
  KeyedMerge.place Prod.fst (fun _ new => new) m (k, v)

omit [DecidableEq κ] in
theorem keeps_new : KeyedMerge.Keeps (Prod.fst : κ × ν → κ) fun _ new => new := fun _ _ _ => rfl

@[simp] theorem get_nil (k : κ) : get ([] : Entries κ ν) k = none := rfl

theorem get_set (m : Entries κ ν) (k l : κ) (v : ν) :
    get (set m k v) l = if k = l then some v else get m l := by
  rw [get, set, KeyedMerge.find?_place keeps_new]
  split_ifs with hkl
  · cases m.find? fun e => decide (e.1 = l) <;> rfl
  · rfl

theorem distinct_set {m : Entries κ ν} (h : KeyedMerge.Distinct Prod.fst m) (k : κ) (v : ν) :
    KeyedMerge.Distinct Prod.fst (set m k v) := KeyedMerge.distinct_place keeps_new h _

/-- An entry is what its key gets. -/
theorem mem_iff_get {m : Entries κ ν} (h : KeyedMerge.Distinct Prod.fst m) {k : κ} {v : ν} :
    (k, v) ∈ m ↔ get m k = some v := by
  constructor
  · intro hmem
    have hfind := h.find?_eq hmem
    rw [get]
    exact congrArg (Option.map Prod.snd) hfind
  · intro hget
    obtain ⟨⟨l, w⟩, hfind, rfl⟩ := Option.map_eq_some_iff.mp hget
    obtain rfl : l = k := by simpa using List.find?_some hfind
    exact List.mem_of_find?_eq_some hfind

/-- The parts of a list, one for each key, are together the list. -/
theorem flatMap_filter_perm (key : α → κ) {ks : List κ} (hks : ks.Nodup) (xs : List α) :
    (ks.flatMap fun k => xs.filter fun x => decide (key x = k)).Perm
      (xs.filter fun x => decide (key x ∈ ks)) := by
  induction ks with
  | nil => simp
  | cons k ks ih =>
    obtain ⟨hk, hks'⟩ := List.nodup_cons.mp hks
    rw [List.flatMap_cons]
    -- the part of the first key, and the others
    have hfirst : xs.filter (fun x => decide (key x = k)) =
        (xs.filter fun x => decide (key x ∈ k :: ks)).filter fun x => decide (key x = k) := by
      rw [List.filter_filter]
      apply List.filter_congr
      intro x _
      by_cases hx : key x = k <;> simp [hx]
    have hrest : xs.filter (fun x => decide (key x ∈ ks)) =
        (xs.filter fun x => decide (key x ∈ k :: ks)).filter fun x => !decide (key x = k) := by
      rw [List.filter_filter]
      apply List.filter_congr
      intro x _
      by_cases hx : key x = k
      · simp [hx, hk]
      · simp [hx]
    refine ((ih hks').append_left _).trans ?_
    rw [hrest]
    conv_lhs => rw [hfirst]
    exact List.filter_append_perm _ _

/-- When every key is there, nothing is left out. -/
theorem flatMap_filter_perm_self (key : α → κ) {ks : List κ} (hks : ks.Nodup) {xs : List α}
    (h : ∀ x ∈ xs, key x ∈ ks) :
    (ks.flatMap fun k => xs.filter fun x => decide (key x = k)).Perm xs := by
  refine (flatMap_filter_perm key hks xs).trans (List.Perm.of_eq ?_)
  exact List.filter_eq_self.mpr fun x hx => decide_eq_true (h x hx)

end InsertionMap
