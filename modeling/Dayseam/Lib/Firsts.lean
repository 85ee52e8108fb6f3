import Mathlib

/-!
# The first element of each key

A pass over a list keeps the keys that it has met and skips an element whose key is among
them.

## Main definitions

* `firsts` — the elements that such a pass keeps.

## Main results

* `mem_map_firsts_iff` — each key is kept once met, unless it was known before.
* `nodup_map_firsts` — no key is kept twice.
-/

namespace Firsts

variable {α κ : Type*} [DecidableEq κ] (key : α → κ)

/-- The elements whose keys are new; `seen` are the keys that are known. -/
def firsts : List κ → List α → List α
  | _, [] => []
  | seen, a :: as => if key a ∈ seen then firsts seen as else a :: firsts (key a :: seen) as

variable {key} {seen : List κ} {as : List α} {a : α} {k : κ}

/-- The keys that are known after a pass. -/
def known (key : α → κ) (seen : List κ) (as : List α) : List κ :=
  as.foldl (fun seen a => if key a ∈ seen then seen else key a :: seen) seen

theorem known_concat (a : α) : known key seen (as ++ [a]) =
    if key a ∈ known key seen as then known key seen as else key a :: known key seen as := by
  rw [known, known, List.foldl_concat]

theorem mem_known_iff : k ∈ known key seen as ↔ k ∈ seen ∨ k ∈ as.map key := by
  unfold known
  induction as generalizing seen with
  | nil => simp
  | cons a as ih =>
    rw [List.foldl_cons, ih, List.map_cons, List.mem_cons]
    split_ifs with ha
    · constructor
      · rintro (h | h)
        · exact Or.inl h
        · exact Or.inr (Or.inr h)
      · rintro (h | rfl | h)
        · exact Or.inl h
        · exact Or.inl ha
        · exact Or.inr h
    · rw [List.mem_cons]
      tauto

/-- Only the set of the known keys counts. -/
theorem firsts_congr {seen' : List κ} (h : ∀ k, k ∈ seen ↔ k ∈ seen') :
    firsts key seen as = firsts key seen' as := by
  induction as generalizing seen seen' with
  | nil => rfl
  | cons a as ih =>
    unfold firsts
    simp only [h (key a)]
    split_ifs
    · exact ih h
    · rw [ih]
      intro k
      rw [List.mem_cons, List.mem_cons, h k]

theorem firsts_append (bs : List α) :
    firsts key seen (as ++ bs) = firsts key seen as ++ firsts key (known key seen as) bs := by
  unfold known
  induction as generalizing seen with
  | nil => rfl
  | cons a as ih =>
    rw [List.cons_append, firsts, firsts, List.foldl_cons]
    split_ifs
    · exact ih
    · rw [ih, List.cons_append]

theorem firsts_sublist : (firsts key seen as).Sublist as := by
  induction as generalizing seen with
  | nil => exact List.Sublist.slnil
  | cons a as ih =>
    unfold firsts
    split_ifs
    · exact ih.cons a
    · exact ih.cons_cons a

/-- **The keys that are kept** are those that are met and were not known before. -/
theorem mem_map_firsts_iff :
    k ∈ (firsts key seen as).map key ↔ k ∈ as.map key ∧ k ∉ seen := by
  induction as generalizing seen with
  | nil => simp [firsts]
  | cons a as ih =>
    unfold firsts
    split_ifs with ha
    · rw [ih, List.map_cons, List.mem_cons]
      constructor
      · rintro ⟨hk, hnew⟩
        exact ⟨Or.inr hk, hnew⟩
      · rintro ⟨rfl | hk, hnew⟩
        · exact absurd ha hnew
        · exact ⟨hk, hnew⟩
    · rw [List.map_cons, List.map_cons, List.mem_cons, List.mem_cons, ih, List.mem_cons]
      constructor
      · rintro (rfl | ⟨hk, hnew⟩)
        · exact ⟨Or.inl rfl, ha⟩
        · exact ⟨Or.inr hk, fun h => hnew (Or.inr h)⟩
      · rintro ⟨rfl | hk, hnew⟩
        · exact Or.inl rfl
        · by_cases hka : k = key a
          · exact Or.inl hka
          · exact Or.inr ⟨hk, fun h => h.elim hka hnew⟩

/-- **No key is kept twice.** -/
theorem nodup_map_firsts : ((firsts key seen as).map key).Nodup := by
  induction as generalizing seen with
  | nil => exact List.nodup_nil
  | cons a as ih =>
    unfold firsts
    split_ifs
    · exact ih
    · rw [List.map_cons, List.nodup_cons]
      refine ⟨fun hmem => ?_, ih⟩
      exact (mem_map_firsts_iff.mp hmem).2 List.mem_cons_self

/-- An element is kept whose key is not known, when no other element has its key. -/
theorem mem_firsts_of_unique (ha : a ∈ as) (hnew : key a ∉ seen)
    (hone : ∀ b ∈ as, key b = key a → b = a) : a ∈ firsts key seen as := by
  have hkey := mem_map_firsts_iff.mpr ⟨List.mem_map_of_mem ha, hnew⟩
  obtain ⟨b, hb, hba⟩ := List.mem_map.mp hkey
  exact hone b (firsts_sublist.subset hb) hba ▸ hb

end Firsts
