import Mathlib

/-!
# What a stable sort depends on

A stable sort leaves elements that tie in the order in which they stand.  So its
result depends on the order of a list only through the order of those that tie.

## Main definitions

* `StableSort.sortBy` — the sort by a key.

## Main results

* `eq_of_filter_ties` — a sorted list is known by its ties.
* `sortBy_eq_of_ties` — **two lists with the same ties are sorted alike.**
* `sortBy_eq_of_perm` — where only equal elements tie, the order does not matter.
* `head?_sortBy_eq_some` — the first element has the least key.
-/

namespace StableSort

variable {α : Type*} {L : Type*} [LinearOrder L] {key : α → L} {xs ys : List α}

/-- The sort by a key. -/
def sortBy (key : α → L) (xs : List α) : List α :=
  xs.mergeSort fun a b => decide (key a ≤ key b)

theorem sortBy_perm (key : α → L) (xs : List α) : (sortBy key xs).Perm xs :=
  List.mergeSort_perm _ _

theorem decide_le_trans (a b c : α) (hab : decide (key a ≤ key b) = true)
    (hbc : decide (key b ≤ key c) = true) : decide (key a ≤ key c) = true := by
  rw [decide_eq_true_iff] at hab hbc ⊢
  exact hab.trans hbc

theorem decide_le_total (a b : α) : (decide (key a ≤ key b) || decide (key b ≤ key a)) = true := by
  simpa using le_total (key a) (key b)

theorem pairwise_sortBy (key : α → L) (xs : List α) :
    (sortBy key xs).Pairwise fun a b => key a ≤ key b :=
  (List.pairwise_mergeSort decide_le_trans decide_le_total xs).imp of_decide_eq_true

/-- The sort is stable. -/
theorem filter_sortBy (key : α → L) (xs : List α) (k : L) :
    (sortBy key xs).filter (key · = k) = xs.filter (key · = k) := by
  have htie : (xs.filter (key · = k)).Pairwise fun a b => decide (key a ≤ key b) = true := by
    refine List.Pairwise.imp_of_mem ?_ (List.pairwise_of_forall (R := fun _ _ => True)
      fun _ _ => trivial)
    intro a b ha hb _
    have hka : key a = k := of_decide_eq_true (List.mem_filter.mp ha).2
    have hkb : key b = k := of_decide_eq_true (List.mem_filter.mp hb).2
    exact decide_eq_true (hka.trans hkb.symm).le
  have hsub : (xs.filter (key · = k)).Sublist (sortBy key xs) :=
    List.sublist_mergeSort decide_le_trans decide_le_total htie List.filter_sublist
  have hfilter := hsub.filter fun a => decide (key a = k)
  rw [List.filter_filter] at hfilter
  simp only [Bool.and_self] at hfilter
  exact (hfilter.eq_of_length ((sortBy_perm key xs).filter _).length_eq.symm).symm

/-- A sorted list is known by its ties. -/
theorem eq_of_filter_ties (hx : xs.Pairwise fun a b => key a ≤ key b)
    (hy : ys.Pairwise fun a b => key a ≤ key b)
    (h : ∀ k, xs.filter (key · = k) = ys.filter (key · = k)) : xs = ys := by
  induction xs generalizing ys with
  | nil =>
    cases ys with
    | nil => rfl
    | cons y ys =>
      have hempty := h (key y)
      rw [List.filter_cons_of_pos (by simp)] at hempty
      exact nomatch hempty
  | cons x xs ih =>
    cases ys with
    | nil =>
      have hempty := h (key x)
      rw [List.filter_cons_of_pos (by simp)] at hempty
      exact nomatch hempty
    | cons y ys =>
      obtain ⟨hxs, hxtail⟩ := List.pairwise_cons.mp hx
      obtain ⟨hys, hytail⟩ := List.pairwise_cons.mp hy
      -- each head has the least key of its list, and is in the other list
      have hmem : ∀ {a b : α} {as bs : List α}, (a :: as).filter (key · = key a) =
          (b :: bs).filter (key · = key a) → (∀ z ∈ bs, key b ≤ key z) → key b ≤ key a := by
        intro a b as bs heq hle
        have hin : a ∈ (b :: bs).filter (key · = key a) := by
          rw [← heq, List.filter_cons_of_pos (by simp)]
          exact List.mem_cons_self
        rcases List.mem_cons.mp (List.mem_filter.mp hin).1 with rfl | hin
        · exact le_rfl
        · exact hle a hin
      have hkey : key x = key y :=
        le_antisymm (hmem (h (key y)).symm hxs) (hmem (h (key x)) hys)
      have hhead := h (key x)
      rw [List.filter_cons_of_pos (by simp), List.filter_cons_of_pos (by simp [hkey])] at hhead
      obtain rfl := (List.cons.inj hhead).1
      refine congrArg _ (ih hxtail hytail fun k => ?_)
      have hk := h k
      by_cases hxk : key x = k
      · rw [List.filter_cons_of_pos (by simpa using hxk),
          List.filter_cons_of_pos (by simpa using hxk)] at hk
        exact (List.cons.inj hk).2
      · rwa [List.filter_cons_of_neg (by simpa using hxk),
          List.filter_cons_of_neg (by simpa using hxk)] at hk

/-- **Two lists with the same ties are sorted alike.** -/
theorem sortBy_eq_of_ties (h : ∀ k, xs.filter (key · = k) = ys.filter (key · = k)) :
    sortBy key xs = sortBy key ys := by
  refine eq_of_filter_ties (pairwise_sortBy key xs) (pairwise_sortBy key ys) fun k => ?_
  rw [filter_sortBy, filter_sortBy, h]

/-- Where only equal elements tie, the order does not matter. -/
theorem sortBy_eq_of_perm (key : α → L) (h : xs.Perm ys)
    (hkey : ∀ a ∈ xs, ∀ b ∈ xs, key a = key b → a = b) : sortBy key xs = sortBy key ys := by
  have hperm := (sortBy_perm key xs).trans (h.trans (sortBy_perm key ys).symm)
  refine List.Perm.eq_of_pairwise ?_ (pairwise_sortBy key xs) (pairwise_sortBy key ys) hperm
  intro a b ha hb hab hba
  have hb' : b ∈ sortBy key xs := hperm.mem_iff.mpr hb
  exact hkey a ((sortBy_perm key xs).mem_iff.mp ha) b ((sortBy_perm key xs).mem_iff.mp hb')
    (le_antisymm hab hba)

/-- A sort by a coarser key in between does not matter. -/
theorem sortBy_sortBy_of_refines {M : Type*} [LinearOrder M] {key' : α → M}
    (hs : xs.Pairwise fun a b => key a ≤ key b)
    (hrefines : ∀ a b, key a = key b → key' a = key' b) :
    sortBy key (sortBy key' xs) = xs := by
  refine eq_of_filter_ties (pairwise_sortBy _ _) hs fun k => ?_
  rw [filter_sortBy]
  rcases (xs.filter (key · = k)).eq_nil_or_concat' with hnil | ⟨l, a, hl⟩
  · rw [hnil]
    exact List.perm_nil.mp (hnil ▸ (sortBy_perm key' xs).filter _)
  · have ha : a ∈ xs.filter (key · = k) := hl ▸ List.mem_concat_self
    -- those that tie by the key also tie by the coarser one
    have hak : key a = k := of_decide_eq_true (List.mem_filter.mp ha).2
    have hcoarse (l : List α) :
        (l.filter (key' · = key' a)).filter (key · = k) = l.filter (key · = k) := by
      rw [List.filter_filter]
      refine List.filter_congr fun b _ => ?_
      have hb : key b = k → key' b = key' a := fun hb => hrefines b a (hb.trans hak.symm)
      simp only [Bool.and_eq_decide, decide_eq_true_eq, decide_eq_decide]
      exact ⟨And.left, fun h => ⟨h, hb h⟩⟩
    rw [← hcoarse, filter_sortBy, hcoarse]

/-- The first element of a sorted list has the least key. -/
theorem head?_sortBy_eq_some {a : α} (h : (sortBy key xs).head? = some a) :
    a ∈ xs ∧ ∀ b ∈ xs, key a ≤ key b := by
  obtain ⟨rest, hsorted⟩ := List.head?_eq_some_iff.mp h
  have hpairwise := pairwise_sortBy key xs
  rw [hsorted] at hpairwise
  refine ⟨(sortBy_perm key xs).mem_iff.mp (hsorted ▸ List.mem_cons_self), fun b hb => ?_⟩
  have hb : b ∈ a :: rest := hsorted ▸ (sortBy_perm key xs).mem_iff.mpr hb
  rcases List.mem_cons.mp hb with rfl | hb
  · exact le_rfl
  · exact (List.pairwise_cons.mp hpairwise).1 b hb

theorem head?_sortBy_eq_none (h : (sortBy key xs).head? = none) : xs = [] := by
  rw [List.head?_eq_none_iff] at h
  exact List.perm_nil.mp (h ▸ (sortBy_perm key xs).symm)

end StableSort
