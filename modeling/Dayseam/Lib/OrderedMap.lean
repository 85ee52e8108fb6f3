import Mathlib

/-!
# Ordered maps

An ordered map as the list of its entries, in the order of their keys.  An entry
carries its own key.

## Main definitions

* `OrderedMap.upsert` — update the entry of a key, or insert one.
* `OrderedMap.Sorted` — the keys increase.

## Main results

* `sorted_upsert` — an update keeps the order.
* `flatMap_upsert_perm` — what an update adds to the contents of the map.
* `Sorted.eq_of_perm` — a map is determined by its entries.
* `find?_upsert` — what a map holds after an update.
* `foldl_upsert_perm` — updates at distinct keys.
* `find?_foldl_replace` — of the updates at one key, the last one stays.
* `sorted_foldl_upsert`, `forall_mem_foldl_upsert`, `flatMap_foldl_upsert_perm` — the
  same for a run of updates.
-/

namespace OrderedMap

variable {α β γ L : Type*} [LinearOrder L] {key : β → L} {f : Option β → β} {k : L} {xs ys : List β}

/-- Update the entry of the key `k`; `f none` is the entry where there is none. -/
def upsert (key : β → L) (f : Option β → β) (k : L) : List β → List β
  | [] => [f none]
  | x :: xs =>
    if k < key x then f none :: x :: xs
    else if k = key x then f (some x) :: xs
    else x :: upsert key f k xs

/-- The keys increase strictly. -/
def Sorted (key : β → L) (xs : List β) : Prop := xs.Pairwise fun x y => key x < key y

/-- The update `f` writes entries of the key `k` only. -/
def Keeps (key : β → L) (f : Option β → β) (k : L) : Prop :=
  key (f none) = k ∧ ∀ x, key x = k → key (f (some x)) = k

theorem mem_upsert {y : β} (h : y ∈ upsert key f k xs) :
    y = f none ∨ (∃ x ∈ xs, key x = k ∧ y = f (some x)) ∨ y ∈ xs := by
  induction xs with
  | nil => exact Or.inl (List.mem_singleton.mp h)
  | cons x xs ih =>
    unfold upsert at h
    split_ifs at h with hlt heq
    · rcases List.mem_cons.mp h with h | h
      · exact Or.inl h
      · exact Or.inr (Or.inr h)
    · rcases List.mem_cons.mp h with h | h
      · exact Or.inr (Or.inl ⟨x, List.mem_cons_self, heq.symm, h⟩)
      · exact Or.inr (Or.inr (List.mem_cons_of_mem _ h))
    · rcases List.mem_cons.mp h with rfl | h
      · exact Or.inr (Or.inr List.mem_cons_self)
      · rcases ih h with h | ⟨z, hz, hk, rfl⟩ | h
        · exact Or.inl h
        · exact Or.inr (Or.inl ⟨z, List.mem_cons_of_mem _ hz, hk, rfl⟩)
        · exact Or.inr (Or.inr (List.mem_cons_of_mem _ h))

/-- An entry after an update has the key `k` or was there before. -/
theorem key_of_mem_upsert (hf : Keeps key f k) {y : β} (h : y ∈ upsert key f k xs) :
    key y = k ∨ y ∈ xs := by
  rcases mem_upsert h with rfl | ⟨x, -, hk, rfl⟩ | h
  · exact Or.inl hf.1
  · exact Or.inl (hf.2 x hk)
  · exact Or.inr h

theorem sorted_upsert (hf : Keeps key f k) (h : Sorted key xs) : Sorted key (upsert key f k xs) := by
  induction xs with
  | nil => exact List.pairwise_singleton _ _
  | cons x xs ih =>
    obtain ⟨hx, hxs⟩ := List.pairwise_cons.mp h
    unfold upsert
    split_ifs with hlt heq
    · refine List.pairwise_cons.mpr ⟨?_, h⟩
      intro y hy
      rw [hf.1]
      rcases List.mem_cons.mp hy with rfl | hy
      · exact hlt
      · exact hlt.trans (hx y hy)
    · refine List.pairwise_cons.mpr ⟨?_, hxs⟩
      intro y hy
      rw [hf.2 x heq.symm, heq]
      exact hx y hy
    · refine List.pairwise_cons.mpr ⟨?_, ih hxs⟩
      intro y hy
      -- the key `k` lies behind `x`, since it is neither before nor at it
      rcases key_of_mem_upsert hf hy with hy | hy
      · rw [hy]
        exact lt_of_le_of_ne (not_lt.mp hlt) (Ne.symm heq)
      · exact hx y hy

/-- An update adds `extra` to the contents, where the update of one entry does. -/
theorem flatMap_upsert_perm {w : β → List γ} {extra : List γ} (h0 : w (f none) = extra)
    (h1 : ∀ x ∈ xs, key x = k → (w (f (some x))).Perm (w x ++ extra)) :
    ((upsert key f k xs).flatMap w).Perm (xs.flatMap w ++ extra) := by
  induction xs with
  | nil => simp [upsert, h0]
  | cons x xs ih =>
    have ih := ih fun y hy => h1 y (List.mem_cons_of_mem _ hy)
    unfold upsert
    split_ifs with hlt heq
    · rw [List.flatMap_cons, h0]
      exact List.perm_append_comm
    · rw [List.flatMap_cons, List.flatMap_cons]
      calc (w (f (some x)) ++ xs.flatMap w).Perm (w x ++ extra ++ xs.flatMap w) :=
            (h1 x List.mem_cons_self heq.symm).append_right _
        _ = w x ++ (extra ++ xs.flatMap w) := List.append_assoc ..
        _ |>.Perm (w x ++ (xs.flatMap w ++ extra)) := List.perm_append_comm.append_left _
        _ = w x ++ xs.flatMap w ++ extra := (List.append_assoc ..).symm
    · rw [List.flatMap_cons, List.flatMap_cons, List.append_assoc]
      exact ih.append_left _

/-- An update at a new key adds an entry. -/
theorem upsert_perm_of_new (h : ∀ x ∈ xs, key x ≠ k) : (upsert key f k xs).Perm (xs ++ [f none]) := by
  have hp : ((upsert key f k xs).flatMap fun x => [x]).Perm (xs.flatMap (fun x => [x]) ++ [f none]) :=
    flatMap_upsert_perm rfl fun x hx hk => absurd hk (h x hx)
  simpa using hp

/-- Two ordered maps with the same entries are equal. -/
theorem Sorted.eq_of_perm (hx : Sorted key xs) (hy : Sorted key ys) (h : xs.Perm ys) : xs = ys :=
  List.Perm.eq_of_pairwise (fun _ _ _ _ h1 h2 => absurd (h1.trans h2) (lt_irrefl _)) hx hy h

/-- The entry of a key, by whichever test of equality. -/
theorem find?_beq [BEq L] [LawfulBEq L] (key : β → L) (l : L) (xs : List β) :
    xs.find? (key · == l) = xs.find? (key · = l) := by
  refine congrArg (List.find? · xs) (funext fun x => ?_)
  rw [Bool.eq_iff_iff, beq_iff_eq, decide_eq_true_iff]

/-- An ordered map has an entry exactly if it holds it under its key. -/
theorem Sorted.mem_iff (h : Sorted key xs) (x : β) :
    x ∈ xs ↔ xs.find? (key · = key x) = some x := by
  refine ⟨fun hx => ?_, List.mem_of_find?_eq_some⟩
  induction xs with
  | nil => exact absurd hx List.not_mem_nil
  | cons y xs ih =>
    obtain ⟨hy, hxs⟩ := List.pairwise_cons.mp h
    rcases List.mem_cons.mp hx with rfl | hx
    · exact List.find?_cons_of_pos (by simp)
    · rw [List.find?_cons_of_neg (by simpa using (hy x hx).ne), ih hxs hx]

/-- The keys of an ordered map are distinct. -/
theorem Sorted.nodup_map (h : Sorted key xs) : (xs.map key).Nodup :=
  List.pairwise_map.mpr (h.imp fun hlt => hlt.ne)

/-- An ordered map is known by what it holds. -/
theorem Sorted.ext (hx : Sorted key xs) (hy : Sorted key ys)
    (h : ∀ l, xs.find? (key · = l) = ys.find? (key · = l)) : xs = ys := by
  have hnodup {m : List β} (hm : Sorted key m) : m.Nodup :=
    hm.imp fun hlt heq => hlt.ne (congrArg key heq)
  refine hx.eq_of_perm hy ((List.perm_ext_iff_of_nodup (hnodup hx) (hnodup hy)).mpr fun b => ?_)
  rw [hx.mem_iff, hy.mem_iff, h]

/-- A map of the entries that keeps their keys carries an update to an update. -/
theorem map_upsert {φ : β → β} {f' : Option β → β} (hkey : ∀ x, key (φ x) = key x)
    (hf : ∀ held : Option β, φ (f held) = f' (held.map φ)) :
    (upsert key f k xs).map φ = upsert key f' k (xs.map φ) := by
  induction xs with
  | nil => exact congrArg (fun x => [x]) (hf none)
  | cons x xs ih =>
    rw [List.map_cons]
    unfold upsert
    rw [hkey]
    split_ifs
    · rw [List.map_cons, List.map_cons, hf none, Option.map_none]
    · rw [List.map_cons, hf (some x), Option.map_some]
    · rw [List.map_cons, ih]

/-- What an ordered map holds under a key after an update. -/
theorem find?_upsert (hf : Keeps key f k) (h : Sorted key xs) (l : L) :
    (upsert key f k xs).find? (key · = l) =
      if l = k then some (f (xs.find? (key · = k))) else xs.find? (key · = l) := by
  induction xs with
  | nil =>
    by_cases hl : l = k
    · rw [if_pos hl]
      exact List.find?_cons_of_pos (by simp [hf.1, hl])
    · rw [if_neg hl]
      exact List.find?_cons_of_neg (by simp [hf.1, Ne.symm hl])
  | cons x xs ih =>
    obtain ⟨hx, hxs⟩ := List.pairwise_cons.mp h
    by_cases hl : l = k
    · subst hl
      rw [if_pos rfl]
      unfold upsert
      split_ifs with hlt heq
      · -- the new entry comes first, so the map held none under its key
        have hnone : (x :: xs).find? (key · = l) = none := by
          refine List.find?_eq_none.mpr fun y hy => ?_
          rcases List.mem_cons.mp hy with rfl | hy
          · simpa using hlt.ne'
          · simpa using (hlt.trans (hx y hy)).ne'
        rw [hnone]
        exact List.find?_cons_of_pos (by simp [hf.1])
      · rw [List.find?_cons_of_pos (by simp [hf.2 x heq.symm]),
          List.find?_cons_of_pos (by simp [heq])]
      · rw [List.find?_cons_of_neg (by simpa using Ne.symm heq), ih hxs, if_pos rfl,
          List.find?_cons_of_neg (by simpa using Ne.symm heq)]
    · rw [if_neg hl]
      unfold upsert
      split_ifs with hlt heq
      · exact List.find?_cons_of_neg (by simp [hf.1, Ne.symm hl])
      · rw [List.find?_cons_of_neg (by simp [hf.2 x heq.symm, Ne.symm hl]),
          List.find?_cons_of_neg (by simpa [← heq] using Ne.symm hl)]
      · by_cases hxl : key x = l
        · rw [List.find?_cons_of_pos (by simp [hxl]), List.find?_cons_of_pos (by simp [hxl])]
        · rw [List.find?_cons_of_neg (by simp [hxl]), ih hxs, if_neg hl,
            List.find?_cons_of_neg (by simp [hxl])]

/-! ### Runs of updates -/

section Run

variable {g : α → Option β → β} {ka : α → L} {as : List α} {m : List β}

theorem sorted_foldl_upsert (hg : ∀ a, Keeps key (g a) (ka a)) (h : Sorted key m) :
    Sorted key (as.foldl (fun m a => upsert key (g a) (ka a) m) m) := by
  induction as generalizing m with
  | nil => exact h
  | cons a as ih => exact ih (sorted_upsert (hg a) h)

/-- What every update establishes and keeps holds of every entry. -/
theorem forall_mem_foldl_upsert {P : β → Prop} (h0 : ∀ a ∈ as, P (g a none))
    (h1 : ∀ a ∈ as, ∀ y, key y = ka a → P y → P (g a (some y))) (hm : ∀ y ∈ m, P y) :
    ∀ y ∈ as.foldl (fun m a => upsert key (g a) (ka a) m) m, P y := by
  induction as generalizing m with
  | nil => exact hm
  | cons a as ih =>
    apply ih (fun b hb => h0 b (List.mem_cons_of_mem _ hb))
      (fun b hb => h1 b (List.mem_cons_of_mem _ hb))
    intro y hy
    rcases mem_upsert hy with rfl | ⟨x, hx, hk, rfl⟩ | hy
    · exact h0 a List.mem_cons_self
    · exact h1 a List.mem_cons_self x hk (hm x hx)
    · exact hm y hy

theorem flatMap_foldl_upsert_perm {w : β → List γ} {extra : α → List γ}
    (h0 : ∀ a, w (g a none) = extra a)
    (h1 : ∀ a y, key y = ka a → (w (g a (some y))).Perm (w y ++ extra a)) :
    ((as.foldl (fun m a => upsert key (g a) (ka a) m) m).flatMap w).Perm
      (m.flatMap w ++ as.flatMap extra) := by
  induction as generalizing m with
  | nil => simp
  | cons a as ih =>
    rw [List.foldl_cons, List.flatMap_cons, ← List.append_assoc]
    exact ih.trans ((flatMap_upsert_perm (h0 a) fun x _ hk => h1 a x hk).append_right _)

/-- Updates at distinct keys, all of them new, add an entry each. -/
theorem foldl_upsert_perm (hg : ∀ a, key (g a none) = ka a) (has : (as.map ka).Nodup)
    (hm : ∀ y ∈ m, ∀ a ∈ as, key y ≠ ka a) :
    (as.foldl (fun m a => upsert key (g a) (ka a) m) m).Perm (m ++ as.map fun a => g a none) := by
  induction as generalizing m with
  | nil => simp
  | cons a as ih =>
    obtain ⟨ha, has⟩ := List.nodup_cons.mp has
    have hadd : (upsert key (g a) (ka a) m).Perm (m ++ [g a none]) :=
      upsert_perm_of_new fun y hy => hm y hy a List.mem_cons_self
    rw [List.foldl_cons, List.map_cons, ← List.singleton_append, ← List.append_assoc]
    refine (ih has fun y hy b hb => ?_).trans (hadd.append_right _)
    rcases List.mem_append.mp (hadd.mem_iff.mp hy) with hy | hy
    · exact hm y hy b (List.mem_cons_of_mem _ hb)
    · rw [List.mem_singleton.mp hy, hg]
      exact fun heq => ha (heq ▸ List.mem_map_of_mem hb)

/-- Where each update replaces the entry of its key, the last one stays. -/
theorem find?_foldl_replace {v : α → β} (hv : ∀ a, key (v a) = ka a) (h : Sorted key m) (l : L) :
    (as.foldl (fun m a => upsert key (fun _ => v a) (ka a) m) m).find? (key · = l) =
      ((as.reverse.find? (ka · = l)).map v).or (m.find? (key · = l)) := by
  induction as generalizing m with
  | nil => rfl
  | cons a as ih =>
    have hkeeps : Keeps key (fun _ => v a) (ka a) := ⟨hv a, fun _ _ => hv a⟩
    rw [List.foldl_cons, ih (sorted_upsert hkeeps h), find?_upsert hkeeps h, List.reverse_cons,
      List.find?_append]
    by_cases hl : l = ka a
    · rw [if_pos hl, List.find?_cons_of_pos (by simp [hl])]
      cases as.reverse.find? (ka · = l) <;> rfl
    · rw [if_neg hl, List.find?_cons_of_neg (by simpa using Ne.symm hl), List.find?_nil,
        Option.or_none]

/-- A map of the updates and the entries that keeps the keys carries a run to a run. -/
theorem map_foldl_upsert {φ : β → β} {ψ : α → α} (hkey : ∀ x, key (φ x) = key x)
    (hka : ∀ a, ka (ψ a) = ka a) (hg : ∀ a held, φ (g a held) = g (ψ a) (held.map φ)) :
    (as.foldl (fun m a => upsert key (g a) (ka a) m) m).map φ =
      (as.map ψ).foldl (fun m a => upsert key (g a) (ka a) m) (m.map φ) := by
  induction as generalizing m with
  | nil => rfl
  | cons a as ih => rw [List.foldl_cons, ih, List.map_cons, List.foldl_cons, hka,
      map_upsert hkey (hg a)]

end Run

end OrderedMap
