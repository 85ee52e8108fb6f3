import Dayseam.Lib.KeyedMerge
import Mathlib

/-!
# Merging into the best

Two elements are merged into the better of them, which takes over what the other
adds.  What is added is a product in a left regular band: the first factor that
says something wins.  Such a merge is not associative, and this module says when a
list of elements is merged into one result whatever their order.

## Main definitions

* `LeftRegularBand` — an idempotent semigroup in which later repetitions add nothing.
* `BestMerge.Rule`, `Rule.merge` — a rank and what an element adds, and the merge.
* `Rule.Alike` — two elements are merged into what is held in either order.

## Main results

* `Rule.exists_base` — the element that stays.
* `Rule.merge_right_comm` — **from three elements to any number of them.**
* `Rule.gather_flatten_perm` — lists of elements in any order.
* `Rule.mergeBy_flatten_perm` — the same for a merge by key.
-/

/-- A semigroup of things that are added: what is there is not added again. -/
class LeftRegularBand (B : Type*) extends Semigroup B where
  mul_self : ∀ x : B, x * x = x
  mul_mul_self : ∀ x y : B, x * y * x = x * y

namespace LeftRegularBand

variable {B : Type*} [LeftRegularBand B] {x y a b : B}

/-- Two additions that can be swapped can be swapped later, too. -/
theorem swap_mul (h : x * a * b = x * b * a) (y : B) : x * y * a * b = x * y * b * a := by
  have hagain : ∀ u v : B, x * y * u * v = x * y * (x * u * v) := fun u v => by
    rw [← mul_assoc, ← mul_assoc, mul_mul_self]
  rw [hagain, h, ← hagain]

/-- The additions that can be swapped with a given one are closed under products. -/
theorem swap_of_mem_closure {s : Set B} (h : ∀ x ∈ s, a * x * b = a * b * x)
    (hx : x ∈ Subsemigroup.closure s) : a * x * b = a * b * x := by
  induction hx using Subsemigroup.closure_induction with
  | mem x hx => exact h x hx
  | mul x y _ _ ihx ihy =>
    calc a * (x * y) * b = a * x * y * b := by rw [mul_assoc a x y]
      _ = a * x * b * y := swap_mul ihy x
      _ = a * b * x * y := by rw [ihx]
      _ = a * b * (x * y) := mul_assoc _ _ _

end LeftRegularBand

namespace BestMerge

open LeftRegularBand KeyedMerge

/-- How elements are merged: the one with the smaller key stays, with what it adds
and then what the other adds. -/
structure Rule (α B L : Type*) where
  key : α → L
  extras : α → B
  withExtras : α → B → α
  key_withExtras : ∀ a x, key (withExtras a x) = key a
  extras_withExtras : ∀ a x, extras (withExtras a x) = x
  withExtras_withExtras : ∀ a x y, withExtras (withExtras a x) y = withExtras a y
  withExtras_extras : ∀ a, withExtras a (extras a) = a

variable {α B L κ : Type*} [LeftRegularBand B] [LinearOrder L] (R : Rule α B L)

namespace Rule

def merge (a b : α) : α :=
  if R.key a ≤ R.key b then R.withExtras a (R.extras a * R.extras b)
  else R.withExtras b (R.extras b * R.extras a)

variable {R} {a b c acc : α} {S C : Set α} {x : B}

theorem merge_of_le (h : R.key a ≤ R.key b) :
    R.merge a b = R.withExtras a (R.extras a * R.extras b) := if_pos h

theorem merge_of_lt (h : R.key b < R.key a) :
    R.merge a b = R.withExtras b (R.extras b * R.extras a) := if_neg h.not_ge

theorem merge_withExtras_of_le (h : R.key a ≤ R.key b) (x : B) :
    R.merge (R.withExtras a x) b = R.withExtras a (x * R.extras b) := by
  rw [merge_of_le (by rwa [R.key_withExtras]), R.withExtras_withExtras, R.extras_withExtras]

theorem merge_withExtras_of_lt (h : R.key b < R.key a) (x : B) :
    R.merge (R.withExtras a x) b = R.withExtras b (R.extras b * x) := by
  rw [merge_of_lt (by rwa [R.key_withExtras]), R.extras_withExtras]

theorem merge_comm (h : R.key a ≠ R.key b) : R.merge a b = R.merge b a := by
  rcases lt_or_gt_of_ne h with h | h
  · rw [merge_of_le h.le, merge_of_lt h]
  · rw [merge_of_lt h, merge_of_le h.le]

omit [LeftRegularBand B] [LinearOrder L] in
theorem withExtras_inj {y : B} (h : R.withExtras a x = R.withExtras a y) : x = y := by
  have he := congrArg R.extras h
  rwa [R.extras_withExtras, R.extras_withExtras] at he

/-! ### What is held after some merges -/

variable (R) in
/-- `acc` comes of merging the elements of `S`: it is the best of them, has what this
one adds first, and else only what they add. -/
structure Best (S : Set α) (acc : α) : Prop where
  winner : ∃ t ∈ S, R.key t = R.key acc ∧ R.extras t * R.extras acc = R.extras acc
  le : ∀ s ∈ S, R.key acc ≤ R.key s
  extras_mem : R.extras acc ∈ Subsemigroup.closure (R.extras '' S)

theorem best_singleton (a : α) : R.Best {a} a where
  winner := ⟨a, rfl, rfl, mul_self _⟩
  le := fun s hs => by rw [Set.mem_singleton_iff.mp hs]
  extras_mem := Subsemigroup.subset_closure ⟨a, rfl, rfl⟩

/-- One more merge. -/
theorem Best.merge (h : R.Best S acc) (a : α) : R.Best (insert a S) (R.merge acc a) := by
  have hmono : R.extras acc ∈ Subsemigroup.closure (R.extras '' insert a S) :=
    Subsemigroup.closure_mono (Set.image_mono (Set.subset_insert a S)) h.extras_mem
  have ha : R.extras a ∈ Subsemigroup.closure (R.extras '' insert a S) :=
    Subsemigroup.subset_closure ⟨a, Set.mem_insert a S, rfl⟩
  rcases le_or_gt (R.key acc) (R.key a) with hle | hlt
  · rw [merge_of_le hle]
    obtain ⟨t, ht, hkey, hfirst⟩ := h.winner
    refine ⟨⟨t, Set.mem_insert_of_mem a ht, ?_, ?_⟩, ?_, ?_⟩
    · rw [R.key_withExtras, hkey]
    · rw [R.extras_withExtras, ← mul_assoc, hfirst]
    · rintro s (rfl | hs)
      · rwa [R.key_withExtras]
      · rw [R.key_withExtras]
        exact h.le s hs
    · rw [R.extras_withExtras]
      exact mul_mem hmono ha
  · rw [merge_of_lt hlt]
    refine ⟨⟨a, Set.mem_insert a S, ?_, ?_⟩, ?_, ?_⟩
    · rw [R.key_withExtras]
    · rw [R.extras_withExtras, ← mul_assoc, mul_self]
    · rintro s (rfl | hs)
      · rw [R.key_withExtras]
      · rw [R.key_withExtras]
        exact hlt.le.trans (h.le s hs)
    · rw [R.extras_withExtras]
      exact mul_mem ha hmono

/-! ### The element that stays -/

/-- An element that no other one is better than stays, with what it adds first. -/
theorem foldl_merge_of_least {x : α} {rest : List α} (h : ∀ c ∈ rest, R.key x ≤ R.key c) :
    ∃ e, rest.foldl R.merge x = R.withExtras x e ∧ R.extras x * e = e := by
  induction rest generalizing x with
  | nil => exact ⟨R.extras x, (R.withExtras_extras x).symm, mul_self _⟩
  | cons c rest ih =>
    have hc := h c List.mem_cons_self
    rw [List.foldl_cons, merge_of_le hc]
    have hleast : ∀ d ∈ rest, R.key (R.withExtras x (R.extras x * R.extras c)) ≤ R.key d := by
      intro d hd
      rw [R.key_withExtras]
      exact h d (List.mem_cons_of_mem c hd)
    obtain ⟨e, hfold, he⟩ := ih hleast
    rw [R.withExtras_withExtras] at hfold
    rw [R.extras_withExtras] at he
    refine ⟨e, hfold, ?_⟩
    calc R.extras x * e = R.extras x * (R.extras x * R.extras c * e) := by rw [he]
      _ = R.extras x * R.extras c * e := by rw [← mul_assoc, ← mul_assoc, mul_self]
      _ = e := he

/-- **One of the best elements stays**, with what it adds first. -/
theorem exists_base (x : α) (rest : List α) :
    ∃ t ∈ x :: rest, (∀ c ∈ x :: rest, R.key t ≤ R.key c) ∧
      ∃ e, rest.foldl R.merge x = R.withExtras t e ∧ R.extras t * e = e := by
  induction rest using List.reverseRecOn with
  | nil =>
    refine ⟨x, List.mem_cons_self, fun c hc => ?_, R.extras x, (R.withExtras_extras x).symm,
      mul_self _⟩
    rw [List.mem_singleton.mp hc]
  | append_singleton rest y ih =>
    obtain ⟨t, ht, hleast, e, hfold, he⟩ := ih
    have hmem : ∀ c, c ∈ x :: (rest ++ [y]) ↔ c ∈ x :: rest ∨ c = y := fun c => by
      rw [← List.cons_append, List.mem_append, List.mem_singleton]
    rw [List.foldl_append, hfold, List.foldl_cons, List.foldl_nil]
    rcases le_or_gt (R.key t) (R.key y) with hle | hlt
    · refine ⟨t, (hmem t).mpr (Or.inl ht), fun c hc => ?_, e * R.extras y,
        merge_withExtras_of_le hle e, by rw [← mul_assoc, he]⟩
      rcases (hmem c).mp hc with hc | rfl
      · exact hleast c hc
      · exact hle
    · refine ⟨y, (hmem y).mpr (Or.inr rfl), fun c hc => ?_, R.extras y * e,
        merge_withExtras_of_lt hlt e, by rw [← mul_assoc, mul_self]⟩
      rcases (hmem c).mp hc with hc | rfl
      · exact hlt.le.trans (hleast c hc)
      · exact le_rfl

/-! ### Swapping two merges -/

variable (R) in
/-- Two elements do not tie, and any third element is merged with them in either
order. -/
def Alike (C : Set α) (a b : α) : Prop :=
  R.key a ≠ R.key b ∧ ∀ c ∈ C, R.merge (R.merge c a) b = R.merge (R.merge c b) a

theorem Alike.symm (h : R.Alike C a b) : R.Alike C b a :=
  ⟨h.1.symm, fun c hc => (h.2 c hc).symm⟩

/-- Where the better of two is worse than all that is held, it is their merges with one
element that count. -/
theorem merge_right_comm_of_lt (hbest : R.Best S acc) (hab : R.key a < R.key b)
    (hb : R.key b < R.key acc)
    (h : ∀ s ∈ S, R.merge (R.merge s a) b = R.merge (R.merge s b) a) :
    R.merge (R.merge acc a) b = R.merge (R.merge acc b) a := by
  have hswap : R.extras a * R.extras acc * R.extras b =
      R.extras a * R.extras b * R.extras acc := by
    refine swap_of_mem_closure ?_ hbest.extras_mem
    rintro _ ⟨s, hs, rfl⟩
    have hbs := hb.trans_le (hbest.le s hs)
    have heq := h s hs
    rw [merge_of_lt (hab.trans hbs), merge_withExtras_of_le hab.le, merge_of_lt hbs,
      merge_withExtras_of_lt hab] at heq
    rw [withExtras_inj heq, mul_assoc]
  rw [merge_of_lt (hab.trans hb), merge_withExtras_of_le hab.le, merge_of_lt hb,
    merge_withExtras_of_lt hab, hswap, mul_assoc]

/-- **From three elements to any number of them**: two elements that are merged in
either order with each of those held are so with their merge. -/
theorem merge_right_comm (hbest : R.Best S acc) (hne : R.key a ≠ R.key b)
    (h : ∀ s ∈ S, R.merge (R.merge s a) b = R.merge (R.merge s b) a) :
    R.merge (R.merge acc a) b = R.merge (R.merge acc b) a := by
  rcases le_or_gt (R.key acc) (R.key a) with ha | ha
  · rcases le_or_gt (R.key acc) (R.key b) with hb | hb
    · -- the winner stays, and what it adds first lets the two be swapped
      obtain ⟨t, ht, hkey, hfirst⟩ := hbest.winner
      have heq := h t ht
      rw [merge_of_le (hkey.trans_le ha), merge_withExtras_of_le (hkey.trans_le hb),
        merge_of_le (hkey.trans_le hb), merge_withExtras_of_le (hkey.trans_le ha)] at heq
      have hswap := swap_mul (withExtras_inj heq) (R.extras acc)
      rw [hfirst] at hswap
      rw [merge_of_le ha, merge_withExtras_of_le hb, merge_of_le hb, merge_withExtras_of_le ha,
        hswap]
    · rw [merge_of_le ha, merge_withExtras_of_lt hb, merge_of_lt hb,
        merge_withExtras_of_le (hb.le.trans ha), mul_assoc]
  · rcases le_or_gt (R.key acc) (R.key b) with hb | hb
    · rw [merge_of_lt ha, merge_withExtras_of_le (ha.le.trans hb), merge_of_le hb,
        merge_withExtras_of_lt ha, mul_assoc]
    · rcases lt_or_gt_of_ne hne with hab | hba
      · exact merge_right_comm_of_lt hbest hab hb h
      · exact (merge_right_comm_of_lt hbest hba ha fun s hs => (h s hs).symm).symm

/-! ### Lists of elements -/

variable (R) in
/-- Merge a list into what is held. -/
def gather (xs : List α) (held : Option α) : Option α :=
  xs.foldl (fun held x => some (join R.merge held x)) held

theorem gather_append (xs ys : List α) (held : Option α) :
    R.gather (xs ++ ys) held = R.gather ys (R.gather xs held) := List.foldl_append

variable (R) in
/-- What is held comes of merging elements of `C`. -/
def Reached (C : Set α) (held : Option α) : Prop := ∀ acc ∈ held, ∃ S ⊆ C, R.Best S acc

theorem reached_none : R.Reached C none := nofun

theorem Reached.join {held : Option α} (h : R.Reached C held) (ha : a ∈ C) :
    R.Reached C (some (join R.merge held a)) := by
  rintro _ ⟨⟩
  cases held with
  | none => exact ⟨{a}, Set.singleton_subset_iff.mpr ha, best_singleton a⟩
  | some acc =>
    obtain ⟨S, hS, hbest⟩ := h acc rfl
    exact ⟨insert a S, Set.insert_subset ha hS, hbest.merge a⟩

theorem Reached.gather {held : Option α} (h : R.Reached C held) {xs : List α}
    (hxs : ∀ x ∈ xs, x ∈ C) : R.Reached C (R.gather xs held) := by
  induction xs generalizing held with
  | nil => exact h
  | cons x xs ih =>
    exact ih (h.join (hxs x List.mem_cons_self)) fun y hy => hxs y (List.mem_cons_of_mem _ hy)

theorem join_right_comm {held : Option α} (h : R.Reached C held) (hab : R.Alike C a b) :
    join R.merge (some (join R.merge held a)) b = join R.merge (some (join R.merge held b)) a := by
  cases held with
  | none => exact merge_comm hab.1
  | some acc =>
    obtain ⟨S, hS, hbest⟩ := h acc rfl
    exact merge_right_comm hbest hab.1 fun s hs => hab.2 s (hS hs)

/-- One element before or behind a list. -/
theorem gather_cons_comm {held : Option α} {xs : List α} (h : R.Reached C held)
    (hxs : ∀ x ∈ xs, x ∈ C ∧ R.Alike C a x) :
    R.gather xs (some (join R.merge held a)) = some (join R.merge (R.gather xs held) a) := by
  induction xs generalizing held with
  | nil => rfl
  | cons x xs ih =>
    obtain ⟨hx, hax⟩ := hxs x List.mem_cons_self
    show R.gather xs (some (join R.merge (some (join R.merge held a)) x)) = _
    rw [join_right_comm h hax]
    exact ih (h.join hx) fun y hy => hxs y (List.mem_cons_of_mem _ hy)

/-- Two lists in either order. -/
theorem gather_append_comm {held : Option α} {xs ys : List α} (h : R.Reached C held)
    (hxs : ∀ x ∈ xs, x ∈ C) (hys : ∀ y ∈ ys, y ∈ C)
    (halike : ∀ x ∈ xs, ∀ y ∈ ys, R.Alike C x y) :
    R.gather (xs ++ ys) held = R.gather (ys ++ xs) held := by
  rw [gather_append, gather_append]
  induction xs generalizing held with
  | nil => rfl
  | cons x xs ih =>
    have hx := hxs x List.mem_cons_self
    calc R.gather ys (R.gather xs (some (join R.merge held x)))
        = R.gather xs (R.gather ys (some (join R.merge held x))) :=
          ih (h.join hx) (fun z hz => hxs z (List.mem_cons_of_mem _ hz))
            fun z hz => halike z (List.mem_cons_of_mem _ hz)
      _ = R.gather xs (some (join R.merge (R.gather ys held) x)) :=
          congrArg _ (gather_cons_comm h fun y hy =>
            ⟨hys y hy, halike x List.mem_cons_self y hy⟩)

/-- **Lists of elements in any order** come to the same, if elements of different lists
are merged alike. -/
theorem gather_flatten_perm {held : Option α} {blocks blocks' : List (List α)}
    (h : blocks.Perm blocks') (hheld : R.Reached C held)
    (hC : ∀ block ∈ blocks, ∀ x ∈ block, x ∈ C)
    (halike : blocks.Pairwise fun xs ys => ∀ x ∈ xs, ∀ y ∈ ys, R.Alike C x y) :
    R.gather blocks.flatten held = R.gather blocks'.flatten held := by
  induction h generalizing held with
  | nil => rfl
  | cons block _ ih =>
    rw [List.flatten_cons, List.flatten_cons, gather_append, gather_append]
    exact ih (hheld.gather (hC block List.mem_cons_self))
      (fun other hother => hC other (List.mem_cons_of_mem _ hother))
      (List.pairwise_cons.mp halike).2
  | swap ys xs blocks =>
    have hswap := gather_append_comm hheld (hC _ List.mem_cons_self)
      (hC _ (List.mem_cons_of_mem _ List.mem_cons_self))
      ((List.pairwise_cons.mp halike).1 _ List.mem_cons_self)
    rw [List.flatten_cons, List.flatten_cons, List.flatten_cons, List.flatten_cons,
      ← List.append_assoc, ← List.append_assoc, gather_append (xs ++ ys), hswap,
      ← gather_append]
  | trans h₁ _ ih₁ ih₂ =>
    refine (ih₁ hheld hC halike).trans
      (ih₂ hheld (fun block hblock => hC block (h₁.mem_iff.mpr hblock)) ?_)
    exact (h₁.pairwise_iff fun hxy y hy x hx => (hxy x hx y hy).symm).mp halike

/-- **The same for a merge by key.** -/
theorem mergeBy_flatten_perm [DecidableEq κ] {slot : α → κ} (hkeeps : Keeps slot R.merge)
    {blocks blocks' : List (List α)} (h : blocks.Perm blocks')
    (halike : blocks.Pairwise fun xs ys => ∀ x ∈ xs, ∀ y ∈ ys, slot x = slot y →
      R.Alike {c | c ∈ blocks.flatten ∧ slot c = slot x} x y) :
    (mergeBy slot R.merge blocks.flatten).Perm (mergeBy slot R.merge blocks'.flatten) := by
  refine (distinct_mergeBy hkeeps _).perm_of_find? (distinct_mergeBy hkeeps _) fun s => ?_
  rw [find?_mergeBy hkeeps, find?_mergeBy hkeeps, List.filter_flatten, List.filter_flatten]
  have hslot : ∀ {x : α} {block : List α}, x ∈ block.filter (slot · = s) →
      x ∈ block ∧ slot x = s := fun hx =>
    ⟨(List.mem_filter.mp hx).1, of_decide_eq_true (List.mem_filter.mp hx).2⟩
  refine gather_flatten_perm (C := {c | c ∈ blocks.flatten ∧ slot c = s}) (h.map _) reached_none
    ?_ ?_
  · intro _ hfiltered x hx
    obtain ⟨block, hblock, rfl⟩ := List.mem_map.mp hfiltered
    obtain ⟨hx, hs⟩ := hslot hx
    exact ⟨List.mem_flatten.mpr ⟨block, hblock, hx⟩, hs⟩
  · refine List.pairwise_map.mpr (halike.imp fun hxy x hx y hy => ?_)
    obtain ⟨hx, hxs⟩ := hslot hx
    obtain ⟨hy, hys⟩ := hslot hy
    have hpair := hxy x hx y hy (hxs.trans hys.symm)
    rwa [hxs] at hpair

end Rule

end BestMerge
