import Dayseam.Lib.KeyedMerge
import Mathlib

/-!
# Filling the gaps of a table

Some rows of a table have a gap where the others of their group have a value, and a pass
over the table fills each gap with the first value that the group offers.  Any write of a
pass may fail.  The next pass sees what the passes before it have written.

## Main definitions

* `Filling` — the rows, their gaps and what they offer.
* `Filling.pass` — a pass, with the rows whose write fails.

## Main results

* `foldl_map_at` — updating a table row by row, from a listing of it.
* `Filling.findSome?_pass` — a pass leaves what a group offers.
* `Filling.foldl_pass` — **passes that fail here and there are one pass**, which fails only
  where each of them did.
-/

open KeyedMerge

variable {α κ γ β : Type*}

/-! ### Row by row -/

namespace FillGaps

theorem foldl_map (h : α → α → α) (xs ys : List α) :
    xs.foldl (fun t x => t.map (h x)) ys = ys.map fun y => xs.foldl (fun y x => h x y) y := by
  induction xs generalizing ys with
  | nil => simp
  | cons x xs ih =>
    rw [List.foldl_cons, ih, List.map_map]
    rfl

variable [DecidableEq κ] {key : α → κ} {f : α → α → α}

theorem foldl_of_key_ne {xs : List α} {y : α} (h : ∀ x ∈ xs, key x ≠ key y) :
    xs.foldl (fun y x => if key y = key x then f x y else y) y = y := by
  induction xs with
  | nil => rfl
  | cons x xs ih =>
    have hx : key y ≠ key x := (h x List.mem_cons_self).symm
    rw [List.foldl_cons, if_neg hx]
    exact ih fun z hz => h z (List.mem_cons_of_mem x hz)

/-- A row is updated when its own turn comes. -/
theorem foldl_of_mem (hf : ∀ x, key (f x x) = key x) {xs : List α} (hd : Distinct key xs) {y : α}
    (hy : y ∈ xs) : xs.foldl (fun y x => if key y = key x then f x y else y) y = f y y := by
  induction xs with
  | nil => cases hy
  | cons x xs ih =>
    obtain ⟨hx, hd⟩ := List.pairwise_cons.mp hd
    rcases List.mem_cons.mp hy with rfl | hy
    · rw [List.foldl_cons, if_pos rfl]
      refine foldl_of_key_ne fun z hz => ?_
      rw [hf]
      exact (hx z hz).symm
    · rw [List.foldl_cons, if_neg (hx y hy).symm]
      exact ih hd hy

/-- **Updating a table row by row**, from a listing of it. -/
theorem foldl_map_at (hf : ∀ x, key (f x x) = key x) {xs : List α} (hd : Distinct key xs) :
    xs.foldl (fun t x => t.map fun y => if key y = key x then f x y else y) xs =
      xs.map fun x => f x x := by
  rw [foldl_map fun x y => if key y = key x then f x y else y]
  exact List.map_congr_left fun y hy => foldl_of_mem hf hd hy

end FillGaps

/-! ### Gaps -/

/-- Rows with gaps: a row with a gap has nothing to offer, and one that is filled offers its
group what it was filled with. -/
structure Filling (α γ β : Type*) where
  /-- The group of a row with a gap. -/
  gap : α → Option γ
  offer : γ → α → Option β
  fill : α → β → α
  offer_gap : ∀ x g g', gap x = some g → offer g' x = none
  gap_fill : ∀ x g b, gap x = some g → gap (fill x b) = none
  offer_fill : ∀ x g b, gap x = some g → offer g (fill x b) = some b
  offer_fill_ne : ∀ x g g' b, gap x = some g → g' ≠ g → offer g' (fill x b) = none

namespace Filling

variable (F : Filling α γ β) (xs : List α)

/-- What a row is filled with. -/
def found (x : α) : Option β := (F.gap x).bind fun g => xs.findSome? (F.offer g)

/-- A row after a pass. -/
def repaired (skip : α → Bool) (x : α) : α :=
  match F.found xs x with
  | some b => if skip x then x else F.fill x b
  | none => x

def pass (skip : α → Bool) : List α := xs.map (F.repaired xs skip)

variable {F xs}

/-- Where each value is as it was, or has become the first of them, the first one is as it
was. -/
theorem findSome?_eq {f g : α → Option β} {v : Option β} (hv : xs.findSome? f = v)
    (h : ∀ x ∈ xs, g x = f x ∨ f x = none ∧ g x = v) : xs.findSome? g = v := by
  induction xs with
  | nil => exact hv
  | cons x xs ih =>
    have hrest := fun z hz => h z (List.mem_cons_of_mem x hz)
    rw [List.findSome?_cons] at hv ⊢
    cases hf : f x with
    | some b =>
      rw [hf] at hv
      rcases h x List.mem_cons_self with hx | ⟨hx, -⟩
      · rw [hx, hf]
        exact hv
      · rw [hf] at hx
        cases hx
    | none =>
      rw [hf] at hv
      rcases h x List.mem_cons_self with hx | ⟨-, hx⟩
      · rw [hx, hf]
        exact ih hv hrest
      · rw [hx]
        cases v with
        | some b => rfl
        | none => exact ih hv hrest

/-- **A pass leaves what a group offers.** -/
theorem findSome?_pass (skip : α → Bool) (g : γ) :
    (F.pass xs skip).findSome? (F.offer g) = xs.findSome? (F.offer g) := by
  rw [pass, List.findSome?_map]
  refine findSome?_eq rfl fun x hx => ?_
  unfold Function.comp repaired found
  cases hgap : F.gap x with
  | none => exact Or.inl rfl
  | some g' =>
    dsimp only [Option.bind_some]
    cases hfound : xs.findSome? (F.offer g') with
    | none => exact Or.inl rfl
    | some b =>
      dsimp only
      split_ifs with hskip
      · exact Or.inl rfl
      · by_cases hg : g = g'
        · subst hg
          exact Or.inr ⟨F.offer_gap x g g hgap, (F.offer_fill x g b hgap).trans hfound.symm⟩
        · -- a row that is filled has nothing for another group
          left
          rw [F.offer_fill_ne x g' g b hgap hg, F.offer_gap x g' g hgap]

theorem found_pass (skip : α → Bool) (x : α) : F.found (F.pass xs skip) x = F.found xs x := by
  unfold found
  cases F.gap x with
  | none => rfl
  | some g => exact findSome?_pass skip g

/-- A gap is filled once. -/
theorem found_fill {x : α} {b b' : β} (h : F.found xs x = some b) :
    F.found xs (F.fill x b') = none := by
  obtain ⟨g, hgap, -⟩ := Option.bind_eq_some_iff.mp h
  rw [found, F.gap_fill x g b' hgap]
  rfl

theorem pass_pass (skip skip' : α → Bool) :
    F.pass (F.pass xs skip) skip' = F.pass xs fun x => skip x && skip' x := by
  rw [pass, pass, List.map_map, pass]
  refine List.map_congr_left fun x _ => ?_
  show F.repaired (F.pass xs skip) skip' (F.repaired xs skip x) = _
  have hall : ∀ y, F.repaired (F.pass xs skip) skip' y = F.repaired xs skip' y := by
    intro y
    unfold repaired
    rw [found_pass]
  rw [hall]
  unfold repaired
  cases hfound : F.found xs x with
  | none => simp only [hfound]
  | some b =>
    dsimp only
    by_cases hskip : skip x
    · simp [hskip, hfound]
    · simp [hskip, found_fill hfound]

/-- The pass in which every write fails. -/
theorem pass_skip : F.pass xs (fun _ => true) = xs := by
  rw [pass]
  refine (List.map_congr_left fun x _ => ?_).trans xs.map_id
  unfold repaired
  cases F.found xs x <;> rfl

/-- **Passes that fail here and there are one pass**: a gap stays only where every one of them
failed. -/
theorem foldl_pass (skips : List (α → Bool)) :
    skips.foldl (fun xs skip => F.pass xs skip) xs = F.pass xs fun x => skips.all (· x) := by
  induction skips generalizing xs with
  | nil => exact pass_skip.symm
  | cons skip skips ih =>
    rw [List.foldl_cons, ih, pass_pass]
    rfl

end Filling
