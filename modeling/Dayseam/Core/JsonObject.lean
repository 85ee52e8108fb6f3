import Dayseam.Core.Activity
import Dayseam.Lib.OrderedMap
import Mathlib

/-!
# JSON objects

The program keeps the fields of an object in the order of their keys.  Such an object is
known by what it has under each key, and a field that is written leaves the others alone.

## Main definitions

* `Json.set` — write a field.
* `Json.Canonical` — an object, with its fields in order.

## Main results

* `Json.Canonical.get_set` — what an object has after a write.
* `Json.Canonical.ext` — an object is known by its fields.
-/

namespace Dayseam
namespace Json

/-- `value[key] = item`, which makes an object of `null`.  On any other value the program
panics; none is written to. -/
def set (value : Json) (key : Text) (item : Json) : Json :=
  match value with
  | .object fields => .object (OrderedMap.upsert (·.1) (fun _ => (key, item)) key fields)
  | .null => .object [(key, item)]
  | value => value

/-- An object, with its fields in the order of their keys. -/
def Canonical (value : Json) : Prop :=
  ∃ fields, value = .object fields ∧ OrderedMap.Sorted (·.1) fields

theorem keeps_set (key : Text) (item : Json) :
    OrderedMap.Keeps Prod.fst (fun _ => (key, item)) key :=
  ⟨rfl, fun _ _ => rfl⟩

variable {value : Json} {key : Text} {item : Json}

theorem Canonical.set (h : value.Canonical) : (value.set key item).Canonical := by
  obtain ⟨fields, rfl, hsorted⟩ := h
  exact ⟨_, rfl, OrderedMap.sorted_upsert (keeps_set key item) hsorted⟩

theorem Canonical.get_set (h : value.Canonical) (key' : Text) :
    (value.set key item).get key' = if key' = key then some item else value.get key' := by
  obtain ⟨fields, rfl, hsorted⟩ := h
  have hfind := OrderedMap.find?_upsert (keeps_set key item) hsorted key'
  rw [← OrderedMap.find?_beq, ← OrderedMap.find?_beq] at hfind
  have hget := congrArg (Option.map Prod.snd) hfind
  split_ifs at hget ⊢ <;> exact hget

/-- An object is known by its fields. -/
theorem Canonical.ext {value' : Json} (h : value.Canonical) (h' : value'.Canonical)
    (hget : ∀ key, value.get key = value'.get key) : value = value' := by
  obtain ⟨fields, rfl, hsorted⟩ := h
  obtain ⟨fields', rfl, hsorted'⟩ := h'
  refine congrArg object (OrderedMap.Sorted.ext hsorted hsorted' fun key => ?_)
  rw [← OrderedMap.find?_beq, ← OrderedMap.find?_beq]
  have hkey : (fields.find? (·.1 == key)).map (·.2) = (fields'.find? (·.1 == key)).map (·.2) :=
    hget key
  cases hx : fields.find? (·.1 == key) with
  | none =>
    cases hy : fields'.find? (·.1 == key) with
    | none => rfl
    | some y => simp [hx, hy] at hkey
  | some x =>
    cases hy : fields'.find? (·.1 == key) with
    | none => simp [hx, hy] at hkey
    | some y =>
      -- both entries have the key that was looked for
      have hkx : x.1 = key := by simpa using List.find?_some hx
      have hky : y.1 = key := by simpa using List.find?_some hy
      rw [hx, hy, Option.map_some, Option.map_some, Option.some.injEq] at hkey
      rw [Prod.ext (hkx.trans hky.symm) hkey]

end Json
end Dayseam
