import Mathlib

/-!
# Duplicates of a sorted list

A list is sorted by one reading of its elements, and neighbours that agree in another reading,
their key, are merged into the first of them.  No two elements of one key are left exactly
when nothing else stands between two elements of one key.

## Main definitions

* `dedupSorted key l` — the list with the neighbours of one key merged.
* `Clustered value key s` — no other key lies between two elements of one key.

## Main results

* `exists_mem_dedupSorted` — every key is still there.
* `pairwise_dedupSorted_iff` — when no key is left twice.
-/

variable {α β κ : Type*}

/-- Merge neighbours of one key, as `dedup_by` does. -/
def dedupSorted [DecidableEq κ] (key : α → κ) (l : List α) : List α :=
  l.destutter fun a b => key a ≠ key b

/-- Between two elements of one key there is no other key. -/
def Clustered [LE β] (value : α → β) (key : α → κ) (s : α → Prop) : Prop :=
  ∀ a b c, s a → s b → s c → value a ≤ value b → value b ≤ value c → key a = key c → key b = key a

section

variable [DecidableEq κ] {key : α → κ} {l : List α} {a b : α}

theorem dedupSorted_sublist (key : α → κ) (l : List α) : (dedupSorted key l).Sublist l :=
  List.destutter_sublist _ l

/-- The keys that are left are those of the list. -/
theorem exists_mem_destutter' (h : b ∈ a :: l) :
    ∃ c ∈ l.destutter' (fun a b => key a ≠ key b) a, key c = key b := by
  induction l generalizing a b with
  | nil =>
    obtain rfl := List.mem_singleton.mp h
    exact ⟨b, List.mem_destutter' _ _ _, rfl⟩
  | cons d l ih =>
    by_cases had : key a = key d
    · rw [List.destutter'_cons_neg _ (not_not_intro had)]
      rcases List.mem_cons.mp h with rfl | hd
      · apply ih List.mem_cons_self
      rcases List.mem_cons.mp hd with rfl | hl
      · have hself : a ∈ a :: l := List.mem_cons_self
        obtain ⟨c, hc, hkey⟩ := ih hself
        exact ⟨c, hc, hkey.trans had⟩
      · exact ih (List.mem_cons_of_mem _ hl)
    · rw [List.destutter'_cons_pos _ had]
      rcases List.mem_cons.mp h with rfl | hd
      · exact ⟨b, List.mem_cons_self, rfl⟩
      · obtain ⟨c, hc, hkey⟩ := ih hd
        exact ⟨c, List.mem_cons_of_mem _ hc, hkey⟩

theorem exists_mem_dedupSorted (h : b ∈ l) : ∃ c ∈ dedupSorted key l, key c = key b := by
  cases l with
  | nil => exact absurd h List.not_mem_nil
  | cons a l => exact exists_mem_destutter' h

/-- A list without two elements of one key stays as it is. -/
theorem dedupSorted_of_pairwise (h : l.Pairwise fun a b => key a ≠ key b) :
    dedupSorted key l = l := List.destutter_of_isChain _ _ h.isChain

end

section Sorted

variable [PartialOrder β] {value : α → β} {key : α → κ} {l : List α} {a b : α}

-- the elements of one value have one key
variable (hvalue : ∀ a b, value a = value b → key a = key b)

include hvalue

/-- A neighbour of the same key does not matter. -/
theorem clustered_cons_cons_iff (hsorted : (a :: b :: l).Pairwise fun a b => value a ≤ value b)
    (hkey : key a = key b) :
    Clustered value key (· ∈ a :: b :: l) ↔ Clustered value key (· ∈ a :: l) := by
  have hab : value a ≤ value b := List.rel_of_pairwise_cons hsorted List.mem_cons_self
  have hbl : ∀ x ∈ l, value b ≤ value x := fun x hx =>
    List.rel_of_pairwise_cons hsorted.of_cons hx
  have hmem : ∀ x, x ∈ a :: l → x ∈ a :: b :: l := by
    intro x hx
    rcases List.mem_cons.mp hx with rfl | hx
    · exact List.mem_cons_self
    · exact List.mem_cons_of_mem _ (List.mem_cons_of_mem _ hx)
  -- what is at most the neighbour has its key
  have hlow : ∀ x ∈ a :: b :: l, value x ≤ value b → key x = key a := by
    intro x hx hxb
    rcases List.mem_cons.mp hx with rfl | hx
    · rfl
    rcases List.mem_cons.mp hx with rfl | hx
    · exact hkey.symm
    · exact (hvalue _ _ (le_antisymm hxb (hbl x hx))).trans hkey.symm
  constructor
  · exact fun h x y z hx hy hz => h x y z (hmem x hx) (hmem y hy) (hmem z hz)
  · intro h x y z hx hy hz hxy hyz hxz
    have hcase : ∀ w ∈ a :: b :: l, w = b ∨ w ∈ a :: l := by
      intro w hw
      simp only [List.mem_cons] at hw ⊢
      tauto
    rcases hcase y hy with rfl | hy'
    · rw [hlow x hx hxy, hkey]
    rcases hcase z hz with rfl | hz'
    · rw [hlow y hy hyz, hlow x hx (hxy.trans hyz)]
    rcases hcase x hx with rfl | hx'
    · rw [← hkey]
      exact h a y z List.mem_cons_self hy' hz' (hab.trans hxy) hyz (hkey.trans hxz)
    · exact h x y z hx' hy' hz' hxy hyz hxz

/-- A neighbour of another key starts anew. -/
theorem clustered_cons_cons_iff_of_ne
    (hsorted : (a :: b :: l).Pairwise fun a b => value a ≤ value b) (hkey : key a ≠ key b) :
    Clustered value key (· ∈ a :: b :: l) ↔
      (∀ x ∈ b :: l, key a ≠ key x) ∧ Clustered value key (· ∈ b :: l) := by
  have hfirst : ∀ x ∈ b :: l, value a ≤ value x := fun x hx => List.rel_of_pairwise_cons hsorted hx
  have hb : ∀ x ∈ b :: l, value b ≤ value x := by
    intro x hx
    rcases List.mem_cons.mp hx with rfl | hx
    · exact le_refl _
    · exact List.rel_of_pairwise_cons hsorted.of_cons hx
  constructor
  · intro h
    refine ⟨fun x hx hax => ?_, fun x y z hx hy hz => h x y z (List.mem_cons_of_mem _ hx)
      (List.mem_cons_of_mem _ hy) (List.mem_cons_of_mem _ hz)⟩
    exact hkey (h a b x List.mem_cons_self (List.mem_cons_of_mem _ List.mem_cons_self)
      (List.mem_cons_of_mem _ hx) (hfirst b List.mem_cons_self) (hb x hx) hax).symm
  · rintro ⟨hne, h⟩ x y z hx hy hz hxy hyz hxz
    -- what is at most the first element has its value
    have hlow : ∀ w ∈ a :: b :: l, value w ≤ value a → value w = value a := by
      intro w hw hwa
      rcases List.mem_cons.mp hw with rfl | hw
      · rfl
      · exact le_antisymm hwa (hfirst w hw)
    rcases List.mem_cons.mp hx with rfl | hx'
    · rcases List.mem_cons.mp hz with rfl | hz'
      · exact hvalue _ _ (hlow y hy hyz)
      · exact absurd hxz (hne z hz')
    rcases List.mem_cons.mp hz with rfl | hz'
    · exact absurd hxz.symm (hne x hx')
    rcases List.mem_cons.mp hy with rfl | hy'
    · exact (hvalue _ _ (hlow x hx hxy)).symm
    · exact h x y z hx' hy' hz' hxy hyz hxz

variable [DecidableEq κ]

theorem pairwise_destutter'_iff (hsorted : (a :: l).Pairwise fun a b => value a ≤ value b) :
    (l.destutter' (fun a b => key a ≠ key b) a).Pairwise (fun a b => key a ≠ key b) ↔
      Clustered value key (· ∈ a :: l) := by
  induction l generalizing a with
  | nil =>
    rw [List.destutter'_nil]
    refine ⟨fun _ x y z hx hy _ _ _ _ => ?_, fun _ => List.pairwise_singleton _ _⟩
    rw [List.mem_singleton.mp hx, List.mem_singleton.mp hy]
  | cons b l ih =>
    have hbl := hsorted.of_cons
    by_cases hkey : key a = key b
    · rw [List.destutter'_cons_neg _ (not_not_intro hkey),
        clustered_cons_cons_iff hvalue hsorted hkey]
      refine ih (List.pairwise_cons.mpr ⟨fun x hx => ?_, hbl.of_cons⟩)
      exact List.rel_of_pairwise_cons hsorted (List.mem_cons_of_mem _ hx)
    · rw [List.destutter'_cons_pos _ hkey, clustered_cons_cons_iff_of_ne hvalue hsorted hkey,
        List.pairwise_cons, ih hbl]
      refine and_congr_left fun _ => ⟨fun h x hx => ?_, fun h x hx => ?_⟩
      · obtain ⟨c, hc, hcx⟩ := @exists_mem_destutter' _ _ _ key _ _ _ hx
        exact hcx ▸ h c hc
      · exact h x ((List.destutter'_sublist _ _ _).subset hx)

/-- **No key is left twice** exactly when the keys are clustered. -/
theorem pairwise_dedupSorted_iff (hsorted : l.Pairwise fun a b => value a ≤ value b) :
    (dedupSorted key l).Pairwise (fun a b => key a ≠ key b) ↔ Clustered value key (· ∈ l) := by
  cases l with
  | nil =>
    exact ⟨fun _ x _ _ hx => absurd hx List.not_mem_nil, fun _ => List.Pairwise.nil⟩
  | cons a l => exact pairwise_destutter'_iff hvalue hsorted

end Sorted
