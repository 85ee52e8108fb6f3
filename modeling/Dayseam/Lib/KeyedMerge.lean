import Mathlib

/-!
# Merging by key

A list is merged by a key when the later entries of a slot are combined into the
first one, which keeps its place.

## Main definitions

* `KeyedMerge.mergeBy` — combine the entries of each slot.
* `KeyedMerge.keepNew` — the elements whose key was not seen before.

## Main results

* `mem_mergeBy_iff` — an entry of the result is the combination of its slot.
* `flatMap_mergeBy_subperm` — merging adds nothing to the contents.
* `mergeBy_append`, `mergeBy_flatten` — lists that are merged in turn.
* `mem_keepNew_iff` — an element is kept when it is the first of its key.
-/

namespace KeyedMerge

variable {α β γ κ : Type*}

/-! ### Combining the entries of a slot -/

section Merge

variable [DecidableEq κ] {slot : β → κ} {combine : β → β → β} {xs ys : List β} {v w x y : β}
  {s : κ}

/-- Add an entry: combine it into the one of its slot, or put it at the end. -/
def place (slot : β → κ) (combine : β → β → β) : List β → β → List β
  | [], x => [x]
  | y :: ys, x => if slot y = slot x then combine y x :: ys else y :: place slot combine ys x

def mergeBy (slot : β → κ) (combine : β → β → β) (xs : List β) : List β :=
  xs.foldl (place slot combine) []

/-- Combining two entries of one slot stays in the slot. -/
def Keeps (slot : β → κ) (combine : β → β → β) : Prop :=
  ∀ y x, slot y = slot x → slot (combine y x) = slot x

/-- No two entries share a slot. -/
def Distinct (slot : β → κ) (xs : List β) : Prop := xs.Pairwise fun x y => slot x ≠ slot y

instance (slot : β → κ) (xs : List β) : Decidable (Distinct slot xs) :=
  inferInstanceAs (Decidable (xs.Pairwise _))

/-- What a slot holds after one more entry of it. -/
def join (combine : β → β → β) (held : Option β) (x : β) : β := held.elim x (combine · x)

theorem slot_of_mem_place (hc : Keeps slot combine) (h : v ∈ place slot combine ys x) :
    slot v = slot x ∨ v ∈ ys := by
  induction ys with
  | nil => exact Or.inl (congrArg slot (List.mem_singleton.mp h))
  | cons y ys ih =>
    unfold place at h
    split_ifs at h with hs
    · rcases List.mem_cons.mp h with rfl | h
      · exact Or.inl (hc y x hs)
      · exact Or.inr (List.mem_cons_of_mem _ h)
    · rcases List.mem_cons.mp h with rfl | h
      · exact Or.inr List.mem_cons_self
      · exact (ih h).imp_right (List.mem_cons_of_mem _)

/-- An entry is new, a combination of two of one slot, or as it was. -/
theorem mem_place (h : v ∈ place slot combine ys x) :
    v = x ∨ (∃ y ∈ ys, slot y = slot x ∧ v = combine y x) ∨ v ∈ ys := by
  induction ys with
  | nil => exact Or.inl (List.mem_singleton.mp h)
  | cons y ys ih =>
    unfold place at h
    split_ifs at h with hs
    · rcases List.mem_cons.mp h with rfl | h
      · exact Or.inr (Or.inl ⟨y, List.mem_cons_self, hs, rfl⟩)
      · exact Or.inr (Or.inr (List.mem_cons_of_mem _ h))
    · rcases List.mem_cons.mp h with rfl | h
      · exact Or.inr (Or.inr List.mem_cons_self)
      · rcases ih h with hv | ⟨z, hz, hv⟩ | hv
        · exact Or.inl hv
        · exact Or.inr (Or.inl ⟨z, List.mem_cons_of_mem _ hz, hv⟩)
        · exact Or.inr (Or.inr (List.mem_cons_of_mem _ hv))

theorem distinct_place (hc : Keeps slot combine) (h : Distinct slot ys) (x : β) :
    Distinct slot (place slot combine ys x) := by
  induction ys with
  | nil => exact List.pairwise_singleton _ _
  | cons y ys ih =>
    obtain ⟨hy, hys⟩ := List.pairwise_cons.mp h
    unfold place
    split_ifs with hs
    · refine List.pairwise_cons.mpr ⟨?_, hys⟩
      intro z hz
      rw [hc y x hs, ← hs]
      exact hy z hz
    · refine List.pairwise_cons.mpr ⟨?_, ih hys⟩
      intro z hz
      rcases slot_of_mem_place hc hz with hz | hz
      · rw [hz]
        exact hs
      · exact hy z hz

theorem find?_place (hc : Keeps slot combine) (ys : List β) (x : β) (s : κ) :
    (place slot combine ys x).find? (slot · = s) =
      if slot x = s then some (join combine (ys.find? (slot · = s)) x)
      else ys.find? (slot · = s) := by
  induction ys with
  | nil => by_cases hx : slot x = s <;> simp [place, join, hx]
  | cons y ys ih =>
    unfold place
    split_ifs with hs hx hx
    · rw [List.find?_cons_of_pos (by simp [hc y x hs, hx]),
        List.find?_cons_of_pos (by simp [hs, hx])]
      rfl
    · rw [List.find?_cons_of_neg (by simp [hc y x hs, hx]),
        List.find?_cons_of_neg (by simp [hs, hx])]
    · have hy : slot y ≠ s := fun h => hs (h.trans hx.symm)
      rw [List.find?_cons_of_neg (by simp [hy]), List.find?_cons_of_neg (by simp [hy]), ih,
        if_pos hx]
    · by_cases hy : slot y = s
      · rw [List.find?_cons_of_pos (by simp [hy]), List.find?_cons_of_pos (by simp [hy])]
      · rw [List.find?_cons_of_neg (by simp [hy]), List.find?_cons_of_neg (by simp [hy]), ih,
          if_neg hx]

/-- No slot is lost, and that of the new entry is held. -/
theorem exists_slot_place (hc : Keeps slot combine)
    (h : (∃ y ∈ ys, slot y = s) ∨ slot x = s) : ∃ v ∈ place slot combine ys x, slot v = s := by
  have hfind : ((place slot combine ys x).find? (slot · = s)).isSome := by
    rw [find?_place hc]
    split_ifs with hx
    · rfl
    · obtain ⟨y, hy, hys⟩ := h.resolve_right hx
      exact List.find?_isSome.mpr ⟨y, hy, by simpa using hys⟩
  obtain ⟨v, hv, hvs⟩ := List.find?_isSome.mp hfind
  exact ⟨v, hv, by simpa using hvs⟩

theorem distinct_mergeBy (hc : Keeps slot combine) (xs : List β) :
    Distinct slot (mergeBy slot combine xs) := by
  suffices h : ∀ acc, Distinct slot acc → Distinct slot (xs.foldl (place slot combine) acc) from
    h [] List.Pairwise.nil
  induction xs with
  | nil => exact fun _ h => h
  | cons x xs ih => exact fun acc h => ih _ (distinct_place hc h x)

theorem place_of_new (h : ∀ y ∈ ys, slot y ≠ slot x) : place slot combine ys x = ys ++ [x] := by
  induction ys with
  | nil => rfl
  | cons y ys ih =>
    unfold place
    rw [if_neg (h y List.mem_cons_self), ih fun z hz => h z (List.mem_cons_of_mem _ hz),
      List.cons_append]

/-- A list with one entry a slot is not changed. -/
theorem mergeBy_of_distinct (h : Distinct slot xs) : mergeBy slot combine xs = xs := by
  suffices hacc : ∀ acc, Distinct slot (acc ++ xs) →
      xs.foldl (place slot combine) acc = acc ++ xs from hacc [] h
  clear h
  induction xs with
  | nil => exact fun acc _ => (List.append_nil acc).symm
  | cons x xs ih =>
    intro acc h
    have hnew : ∀ y ∈ acc, slot y ≠ slot x := fun y hy =>
      (List.pairwise_append.mp h).2.2 y hy x List.mem_cons_self
    rw [List.foldl_cons, place_of_new hnew, ih, List.append_assoc, List.singleton_append]
    rwa [List.append_assoc, List.singleton_append]

/-- A map of the entries that keeps their slots carries a merge to a merge. -/
theorem map_mergeBy {φ : β → β} (hslot : ∀ x, slot (φ x) = slot x)
    (hcombine : ∀ y x, φ (combine y x) = combine (φ y) (φ x)) (xs : List β) :
    (mergeBy slot combine xs).map φ = mergeBy slot combine (xs.map φ) := by
  have hplace : ∀ ys x, (place slot combine ys x).map φ = place slot combine (ys.map φ) (φ x) := by
    intro ys x
    induction ys with
    | nil => rfl
    | cons y ys ih =>
      rw [List.map_cons]
      unfold place
      rw [hslot, hslot]
      split_ifs
      · rw [List.map_cons, hcombine]
      · rw [List.map_cons, ih]
  suffices h : ∀ ys, (xs.foldl (place slot combine) ys).map φ =
      (xs.map φ).foldl (place slot combine) (ys.map φ) from h []
  induction xs with
  | nil => exact fun _ => rfl
  | cons x xs ih =>
    intro ys
    rw [List.foldl_cons, ih, hplace, List.map_cons, List.foldl_cons]

/-- What the result holds in a slot is the combination of the slot's entries. -/
theorem find?_mergeBy (hc : Keeps slot combine) (xs : List β) (s : κ) :
    (mergeBy slot combine xs).find? (slot · = s) =
      (xs.filter (slot · = s)).foldl (fun held x => some (join combine held x)) none := by
  suffices h : ∀ acc, (xs.foldl (place slot combine) acc).find? (slot · = s) =
      (xs.filter (slot · = s)).foldl (fun held x => some (join combine held x))
        (acc.find? (slot · = s)) from h []
  induction xs with
  | nil => exact fun _ => rfl
  | cons x xs ih =>
    intro acc
    rw [List.foldl_cons, ih, find?_place hc]
    by_cases hx : slot x = s
    · rw [if_pos hx, List.filter_cons_of_pos (by simp [hx]), List.foldl_cons]
    · rw [if_neg hx, List.filter_cons_of_neg (by simp [hx])]

theorem foldl_join (x : β) (rest : List β) :
    rest.foldl (fun held x => some (join combine held x)) (some x) =
      some (rest.foldl combine x) := by
  induction rest generalizing x with
  | nil => rfl
  | cons z rest ih => exact ih (combine x z)

/-- In a list with one entry a slot, an entry is what its slot holds. -/
theorem Distinct.find?_eq (h : Distinct slot xs) (hv : v ∈ xs) :
    xs.find? (slot · = slot v) = some v := by
  induction xs with
  | nil => exact absurd hv List.not_mem_nil
  | cons x xs ih =>
    obtain ⟨hx, hxs⟩ := List.pairwise_cons.mp h
    rcases List.mem_cons.mp hv with rfl | hv
    · exact List.find?_cons_of_pos (by simp)
    · rw [List.find?_cons_of_neg (by simp [hx v hv])]
      exact ih hxs hv

omit [DecidableEq κ] in
theorem distinct_iff_nodup_map : Distinct slot xs ↔ (xs.map slot).Nodup := by
  rw [List.Nodup, List.pairwise_map]
  rfl

/-- In a list with one entry a slot, an entry is alone in its slot. -/
theorem Distinct.filter_eq (h : Distinct slot xs) (hv : v ∈ xs) :
    xs.filter (slot · = slot v) = [v] := by
  induction xs with
  | nil => exact absurd hv List.not_mem_nil
  | cons x xs ih =>
    obtain ⟨hx, hxs⟩ := List.pairwise_cons.mp h
    rcases List.mem_cons.mp hv with rfl | hv
    · rw [List.filter_cons_of_pos (by simp), List.filter_eq_nil_iff.mpr]
      intro y hy
      simpa using (hx y hy).symm
    · rw [List.filter_cons_of_neg (by simp [hx v hv])]
      exact ih hxs hv

theorem Distinct.eq_of_slot_eq (h : Distinct slot xs) (hv : v ∈ xs) (hw : w ∈ xs)
    (hs : slot v = slot w) : v = w := by
  have hf := h.find?_eq hv
  rw [hs, h.find?_eq hw] at hf
  exact (Option.some.inj hf).symm

/-- Two lists with one entry a slot hold the same, if their slots do. -/
theorem Distinct.perm_of_find? (hx : Distinct slot xs) (hy : Distinct slot ys)
    (h : ∀ s, xs.find? (slot · = s) = ys.find? (slot · = s)) : xs.Perm ys := by
  have hn : xs.Nodup := hx.imp fun hne heq => hne (congrArg slot heq)
  have hn' : ys.Nodup := hy.imp fun hne heq => hne (congrArg slot heq)
  refine (List.perm_ext_iff_of_nodup hn hn').mpr fun v => ⟨fun hv => ?_, fun hv => ?_⟩
  · exact List.mem_of_find?_eq_some ((h (slot v)).symm.trans (hx.find?_eq hv))
  · exact List.mem_of_find?_eq_some ((h (slot v)).trans (hy.find?_eq hv))

/-- **An entry of the result is the combination of the entries of its slot.** -/
theorem mem_mergeBy_iff (hc : Keeps slot combine) : v ∈ mergeBy slot combine xs ↔
    ∃ x rest, xs.filter (slot · = slot v) = x :: rest ∧ v = rest.foldl combine x := by
  have hfind := find?_mergeBy hc xs (slot v)
  constructor
  · intro hv
    rw [(distinct_mergeBy hc xs).find?_eq hv] at hfind
    cases hf : xs.filter (slot · = slot v) with
    | nil => rw [hf] at hfind; cases hfind
    | cons x rest =>
      rw [hf, List.foldl_cons] at hfind
      exact ⟨x, rest, rfl, Option.some.inj (hfind.trans (foldl_join x rest))⟩
  · rintro ⟨x, rest, hf, hv⟩
    rw [hf, List.foldl_cons] at hfind
    have hfind := hfind.trans (foldl_join x rest)
    rw [← hv] at hfind
    exact List.mem_of_find?_eq_some hfind

omit [DecidableEq κ] in
/-- The combination of a slot stays in the slot. -/
theorem slot_foldl (hc : Keeps slot combine) {rest : List β} (h : ∀ z ∈ rest, slot z = slot x) :
    slot (rest.foldl combine x) = slot x := by
  induction rest generalizing x with
  | nil => rfl
  | cons z rest ih =>
    have hz : slot (combine x z) = slot x := by
      have h1 := h z List.mem_cons_self
      rw [hc x z h1.symm, h1]
    rw [List.foldl_cons, ih fun u hu => (h u (List.mem_cons_of_mem _ hu)).trans hz.symm, hz]

/-- The combination of a slot is in the result. -/
theorem foldl_mem_mergeBy (hc : Keeps slot combine) {rest : List β}
    (hf : xs.filter (slot · = s) = x :: rest) :
    rest.foldl combine x ∈ mergeBy slot combine xs ∧ slot (rest.foldl combine x) = s := by
  have hall : ∀ z ∈ x :: rest, slot z = s := fun z hz => by
    rw [← hf] at hz
    exact of_decide_eq_true (List.mem_filter.mp hz).2
  have hx : slot x = s := hall x List.mem_cons_self
  have hslot : slot (rest.foldl combine x) = s := by
    rw [slot_foldl hc fun z hz => (hall z (List.mem_cons_of_mem _ hz)).trans hx.symm, hx]
  refine ⟨(mem_mergeBy_iff hc).mpr ⟨x, rest, ?_, rfl⟩, hslot⟩
  rw [hslot]
  exact hf

/-- Every slot is in the result. -/
theorem exists_mem_mergeBy (hc : Keeps slot combine) (hx : x ∈ xs) :
    ∃ v ∈ mergeBy slot combine xs, slot v = slot x := by
  cases hf : xs.filter (slot · = slot x) with
  | nil =>
    have h : x ∈ xs.filter (slot · = slot x) := List.mem_filter.mpr ⟨hx, by simp⟩
    rw [hf] at h
    exact absurd h List.not_mem_nil
  | cons y rest => exact ⟨_, (foldl_mem_mergeBy hc hf).1, (foldl_mem_mergeBy hc hf).2⟩

/-- The slots of the result are those of the list. -/
theorem mem_map_slot_mergeBy (hc : Keeps slot combine) :
    s ∈ (mergeBy slot combine xs).map slot ↔ ∃ x ∈ xs, slot x = s := by
  rw [List.mem_map]
  constructor
  · rintro ⟨v, hv, rfl⟩
    obtain ⟨x, rest, hf, -⟩ := (mem_mergeBy_iff hc).mp hv
    have hx : x ∈ xs.filter (slot · = slot v) := hf ▸ List.mem_cons_self
    exact ⟨x, (List.mem_filter.mp hx).1, of_decide_eq_true (List.mem_filter.mp hx).2⟩
  · rintro ⟨x, hx, rfl⟩
    exact exists_mem_mergeBy hc hx

/-- **Merging adds nothing to the contents.** -/
theorem flatMap_mergeBy_subperm {content : β → List γ}
    (h : ∀ y x, (content (combine y x)).Subperm (content y ++ content x)) (xs : List β) :
    ((mergeBy slot combine xs).flatMap content).Subperm (xs.flatMap content) := by
  have hplace : ∀ (acc : List β) (x : β), ((place slot combine acc x).flatMap content).Subperm
      (acc.flatMap content ++ content x) := by
    intro acc x
    induction acc with
    | nil => simpa [place] using List.Subperm.refl _
    | cons y ys ih =>
      unfold place
      split_ifs
      · rw [List.flatMap_cons, List.flatMap_cons]
        refine ((List.subperm_append_right _).mpr (h y x)).trans (List.Perm.subperm ?_)
        rw [List.append_assoc, List.append_assoc]
        exact List.perm_append_comm.append_left _
      · rw [List.flatMap_cons, List.flatMap_cons, List.append_assoc]
        exact (List.subperm_append_left _).mpr ih
  suffices hacc : ∀ acc, ((xs.foldl (place slot combine) acc).flatMap content).Subperm
      (acc.flatMap content ++ xs.flatMap content) from hacc []
  induction xs with
  | nil => intro acc; simpa using List.Subperm.refl _
  | cons x xs ih =>
    intro acc
    rw [List.foldl_cons, List.flatMap_cons, ← List.append_assoc]
    exact (ih _).trans ((List.subperm_append_right _).mpr (hplace acc x))

/-! ### Lists that are merged in turn -/

theorem place_append_of_notMem (h : slot x ∉ xs.map slot) (ys : List β) :
    place slot combine (xs ++ ys) x = xs ++ place slot combine ys x := by
  induction xs with
  | nil => rfl
  | cons y xs ih =>
    rw [List.map_cons, List.mem_cons, not_or] at h
    rw [List.cons_append, place, if_neg (Ne.symm h.1), ih h.2, List.cons_append]

theorem place_append_of_mem (hd : Distinct slot xs) (h : slot x ∈ xs.map slot) (ys : List β) :
    place slot combine (xs ++ ys) x =
      (xs.map fun v => if slot v = slot x then combine v x else v) ++ ys := by
  induction xs with
  | nil => exact absurd h List.not_mem_nil
  | cons y xs ih =>
    obtain ⟨hy, hd⟩ := List.pairwise_cons.mp hd
    rw [List.cons_append, place, List.map_cons]
    by_cases hyx : slot y = slot x
    · have hrest : (xs.map fun v => if slot v = slot x then combine v x else v) = xs := by
        refine (List.map_congr_left fun v hv => if_neg ?_).trans (List.map_id' xs)
        rw [← hyx]
        exact (hy v hv).symm
      rw [if_pos hyx, if_pos hyx, hrest, List.cons_append]
    · have hmem : slot x ∈ xs.map slot :=
        (List.mem_cons.mp h).resolve_left fun heq => hyx heq.symm
      rw [if_neg hyx, if_neg hyx, ih hd hmem, List.cons_append]

/-- Merging into two lists: an entry goes to the first, if this has its slot. -/
theorem foldl_place_append (hc : Keeps slot combine) {held : List β} (hd : Distinct slot held)
    (added xs : List β) :
    xs.foldl (place slot combine) (held ++ added) =
      (held.map fun v => (xs.filter (slot · = slot v)).foldl combine v) ++
        (xs.filter fun x => slot x ∉ held.map slot).foldl (place slot combine) added := by
  induction xs generalizing held added with
  | nil => simp
  | cons x xs ih =>
    rw [List.foldl_cons]
    by_cases hx : slot x ∈ held.map slot
    · have hslot : ∀ v, slot (if slot v = slot x then combine v x else v) = slot v := fun v => by
        split_ifs with hv
        · rw [hc v x hv, hv]
        · rfl
      have hslots : (held.map fun v => if slot v = slot x then combine v x else v).map slot =
          held.map slot := by
        rw [List.map_map]
        exact List.map_congr_left fun v _ => hslot v
      rw [place_append_of_mem hd hx, ih (distinct_iff_nodup_map.mpr
        (hslots ▸ distinct_iff_nodup_map.mp hd)), hslots, List.map_map,
        List.filter_cons_of_neg (by simpa using hx)]
      refine congrArg (· ++ _) (List.map_congr_left fun v _ => ?_)
      rw [Function.comp_apply, hslot]
      by_cases hv : slot v = slot x
      · rw [if_pos hv, List.filter_cons_of_pos (by simp [hv]), List.foldl_cons]
      · rw [if_neg hv, List.filter_cons_of_neg (by simpa using Ne.symm hv)]
    · rw [place_append_of_notMem hx, ih hd, List.filter_cons_of_pos (by simpa using hx),
        List.foldl_cons]
      refine congrArg (· ++ _) (List.map_congr_left fun v hv => ?_)
      have hne : slot x ≠ slot v := fun heq => hx (heq ▸ List.mem_map_of_mem hv)
      rw [List.filter_cons_of_neg (by simpa using hne)]

/-- **A list that is merged after another** goes into the entries of the first, and what
has a new slot is merged behind them. -/
theorem mergeBy_append (hc : Keeps slot combine) (xs ys : List β) :
    mergeBy slot combine (xs ++ ys) =
      ((mergeBy slot combine xs).map fun v => (ys.filter (slot · = slot v)).foldl combine v) ++
        mergeBy slot combine (ys.filter fun y => slot y ∉ (mergeBy slot combine xs).map slot) := by
  have h := foldl_place_append hc (distinct_mergeBy hc xs) [] ys
  rw [List.append_nil] at h
  exact (List.foldl_append ..).trans h

/-- Lists without a common slot are merged apart. -/
theorem mergeBy_flatten (hc : Keeps slot combine) {blocks : List (List β)}
    (h : blocks.Pairwise fun xs ys => ∀ x ∈ xs, ∀ y ∈ ys, slot x ≠ slot y) :
    mergeBy slot combine blocks.flatten = (blocks.map (mergeBy slot combine)).flatten := by
  induction blocks with
  | nil => rfl
  | cons xs blocks ih =>
    obtain ⟨hxs, h⟩ := List.pairwise_cons.mp h
    have hnew : ∀ y ∈ blocks.flatten, slot y ∉ (mergeBy slot combine xs).map slot := by
      intro y hy hmem
      obtain ⟨block, hblock, hy⟩ := List.mem_flatten.mp hy
      obtain ⟨x, hx, heq⟩ := (mem_map_slot_mergeBy hc).mp hmem
      exact hxs block hblock x hx y hy heq
    have hfilter : (blocks.flatten.filter fun y =>
        slot y ∉ (mergeBy slot combine xs).map slot) = blocks.flatten :=
      List.filter_eq_self.mpr fun y hy => by simpa using hnew y hy
    have hkept : ((mergeBy slot combine xs).map fun v =>
        (blocks.flatten.filter (slot · = slot v)).foldl combine v) = mergeBy slot combine xs := by
      refine (List.map_congr_left fun v hv => ?_).trans (List.map_id' _)
      rw [List.filter_eq_nil_iff.mpr, List.foldl_nil]
      intro y hy heq
      rw [decide_eq_true_iff] at heq
      exact hnew y hy (heq ▸ List.mem_map_of_mem hv)
    rw [List.flatten_cons, mergeBy_append hc, hfilter, hkept, ih h, List.map_cons,
      List.flatten_cons]

end Merge

/-! ### Fibres -/

section Fibres

variable [DecidableEq κ] {f : α → κ} {keys : List κ} {xs : List α}

/-- A list is the concatenation of its fibres, up to the order. -/
theorem flatMap_filter_perm (hn : keys.Nodup) (hall : ∀ x ∈ xs, f x ∈ keys) :
    (keys.flatMap fun k => xs.filter (f · = k)).Perm xs := by
  induction keys generalizing xs with
  | nil =>
    have hnil : xs = [] := List.eq_nil_iff_forall_not_mem.mpr fun x hx =>
      absurd (hall x hx) List.not_mem_nil
    rw [hnil]
    exact List.Perm.refl _
  | cons k keys ih =>
    obtain ⟨hk, hn⟩ := List.nodup_cons.mp hn
    have hrest : (keys.flatMap fun k' => xs.filter (f · = k')) =
        keys.flatMap fun k' => (xs.filter (f · ≠ k)).filter (f · = k') := by
      refine List.flatMap_congr fun k' hk' => ?_
      rw [List.filter_filter]
      refine List.filter_congr fun x _ => ?_
      by_cases hx : f x = k'
      · have hne : f x ≠ k := fun h => hk (h ▸ hx ▸ hk')
        simp [hx, hx ▸ hne]
      · simp [hx]
    rw [List.flatMap_cons, hrest]
    refine ((ih hn ?_).append_left _).trans ?_
    · intro x hx
      obtain ⟨hx, hne⟩ := List.mem_filter.mp hx
      exact (List.mem_cons.mp (hall x hx)).resolve_left (by simpa using hne)
    · have hsplit := List.filter_append_perm (fun x => decide (f x = k)) xs
      simpa using hsplit

end Fibres

/-! ### The first entry that meets a condition -/

section First

variable {p : β → Bool} {xs l r : List β} {x : β}

/-- Behind an entry that meets the condition, an entry is not the first. -/
theorem mem_tail_filter (hx : p x = true) (hl : ∃ y ∈ l, p y = true) :
    x ∈ ((l ++ x :: r).filter p).tail := by
  obtain ⟨y, hy, hpy⟩ := hl
  rw [List.filter_append, List.filter_cons_of_pos hx]
  cases hf : l.filter p with
  | nil =>
    have h : y ∈ l.filter p := List.mem_filter.mpr ⟨hy, hpy⟩
    rw [hf] at h
    exact absurd h List.not_mem_nil
  | cons z zs => exact List.mem_append_right zs List.mem_cons_self

/-- With no such entry before it, an entry is the first. -/
theorem filter_append_cons (hx : p x = true) (hl : ¬∃ y ∈ l, p y = true) :
    (l ++ x :: r).filter p = x :: r.filter p := by
  rw [List.filter_append, List.filter_cons_of_pos hx, List.filter_eq_nil_iff.mpr]
  · rfl
  · intro y hy hpy
    exact hl ⟨y, hy, hpy⟩

end First

/-! ### Keeping what is new -/

section KeepNew

variable [DecidableEq κ] {key : α → κ} {seen : List κ} {xs ys : List α} {x : α}

/-- The elements whose key was not seen before. -/
def keepNew (key : α → κ) : List κ → List α → List α
  | _, [] => []
  | seen, x :: xs =>
    if key x ∈ seen then keepNew key seen xs else x :: keepNew key (key x :: seen) xs

theorem keepNew_cons_of_mem (h : key x ∈ seen) (xs : List α) :
    keepNew key seen (x :: xs) = keepNew key seen xs := if_pos h

theorem keepNew_cons_of_notMem (h : key x ∉ seen) (xs : List α) :
    keepNew key seen (x :: xs) = x :: keepNew key (key x :: seen) xs := if_neg h

/-- A map of the elements that keeps their keys. -/
theorem map_keepNew {φ : α → α} (hkey : ∀ x, key (φ x) = key x) (seen : List κ) (xs : List α) :
    (keepNew key seen xs).map φ = keepNew key seen (xs.map φ) := by
  induction xs generalizing seen with
  | nil => rfl
  | cons x xs ih =>
    rw [List.map_cons]
    unfold keepNew
    rw [hkey]
    split_ifs
    · exact ih seen
    · rw [List.map_cons, ih]

theorem keepNew_sublist (key : α → κ) (seen : List κ) (xs : List α) :
    (keepNew key seen xs).Sublist xs := by
  induction xs generalizing seen with
  | nil => exact List.Sublist.refl _
  | cons x xs ih =>
    unfold keepNew
    split_ifs
    · exact (ih seen).cons x
    · exact (ih _).cons_cons x

/-- Only which keys were seen matters. -/
theorem keepNew_congr {seen seen' : List κ} (h : ∀ k, k ∈ seen ↔ k ∈ seen') (xs : List α) :
    keepNew key seen xs = keepNew key seen' xs := by
  induction xs generalizing seen seen' with
  | nil => rfl
  | cons x xs ih =>
    unfold keepNew
    rw [if_congr (h (key x)) (ih h) (congrArg _ (ih _))]
    intro k
    rw [List.mem_cons, List.mem_cons, h k]

/-- Keeping the new elements of two lists in turn. -/
theorem keepNew_append (seen : List κ) (xs ys : List α) :
    keepNew key seen (xs ++ ys) =
      keepNew key seen xs ++ keepNew key (seen ++ (keepNew key seen xs).map key) ys := by
  induction xs generalizing seen with
  | nil => simp [keepNew]
  | cons x xs ih =>
    rw [List.cons_append]
    by_cases hs : key x ∈ seen
    · rw [keepNew_cons_of_mem hs, keepNew_cons_of_mem hs, ih]
    · rw [keepNew_cons_of_notMem hs, keepNew_cons_of_notMem hs, ih, List.cons_append, List.map_cons]
      congr 2
      apply keepNew_congr
      intro k
      simp only [List.mem_append, List.mem_cons]
      tauto

/-- **An element is kept when its key is new and it is the first of its key.** -/
theorem mem_keepNew_iff : x ∈ keepNew key seen xs ↔
    key x ∉ seen ∧ xs.find? (key · = key x) = some x := by
  induction xs generalizing seen with
  | nil => simp [keepNew]
  | cons y xs ih =>
    by_cases hk : key y = key x
    · rw [List.find?_cons_of_pos (by simp [hk])]
      by_cases hs : key y ∈ seen
      · rw [keepNew_cons_of_mem hs, ih]
        rw [hk] at hs
        exact ⟨fun h => absurd hs h.1, fun h => absurd hs h.1⟩
      · rw [keepNew_cons_of_notMem hs, List.mem_cons, ih]
        rw [hk] at hs ⊢
        constructor
        · rintro (rfl | h)
          · exact ⟨hs, rfl⟩
          · exact absurd List.mem_cons_self h.1
        · intro h
          exact Or.inl (Option.some.inj h.2).symm
    · have hne : x ≠ y := fun h => hk (congrArg key h.symm)
      have hkx : key x ≠ key y := fun h => hk h.symm
      rw [List.find?_cons_of_neg (by simp [hk])]
      by_cases hs : key y ∈ seen
      · rw [keepNew_cons_of_mem hs, ih]
      · rw [keepNew_cons_of_notMem hs, List.mem_cons, ih, List.mem_cons]
        tauto

end KeepNew

end KeyedMerge
