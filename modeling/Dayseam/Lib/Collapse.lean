import Mathlib

/-!
# Collapsing what comes close together

A list is read from the left.  An element that is near to the last of what was built is
put into it, and any other begins a new one.

## Main definitions

* `collapse` — the list of what was built.
* `Builds` — an element that was built out of a run of others.
* `Runs` — the maximal runs of neighbours.

## Main results

* `exists_mem_collapse`, `forall_mem_collapse` — every element is in some one of those that
  were built, and what holds of these.
* `forall₂_collapse` — where only the last element of a run tells what is near, the runs
  are those of `List.splitBy`.
* `runs_iff` — these are the maximal runs.
* `collapse_append` — a list can be cut where it is not near.
-/

namespace Collapse

variable {α β γ : Type*} (near : β → α → Bool) (single : α → β) (extend : β → α → β)

/-- Put an element into the last of a list, or behind it. -/
def push (out : List β) (a : α) : List β :=
  match out.getLast? with
  | some last => if near last a then out.dropLast ++ [extend last a] else out ++ [single a]
  | none => [single a]

def collapse (xs : List α) : List β := xs.foldl (push near single extend) []

/-- What comes of a list after `b` was begun. -/
def collapseFrom (b : β) : List α → List β
  | [] => [b]
  | a :: xs =>
    if near b a then collapseFrom (extend b a) xs else b :: collapseFrom (single a) xs

variable {near single extend}

@[simp] theorem collapse_nil : collapse near single extend [] = [] := rfl

theorem push_concat (out : List β) (b : β) (a : α) :
    push near single extend (out ++ [b]) a =
      out ++ if near b a then [extend b a] else [b, single a] := by
  unfold push
  rw [List.getLast?_concat]
  dsimp only
  split_ifs
  · rw [List.dropLast_concat]
  · rw [List.append_assoc]
    rfl

theorem foldl_push_concat (out : List β) (b : β) (xs : List α) :
    xs.foldl (push near single extend) (out ++ [b]) =
      out ++ collapseFrom near single extend b xs := by
  induction xs generalizing out b with
  | nil => rfl
  | cons a xs ih =>
    rw [List.foldl_cons, push_concat, collapseFrom]
    split_ifs
    · exact ih out _
    · rw [show out ++ [b, single a] = (out ++ [b]) ++ [single a] by simp, ih, List.append_assoc]
      rfl

theorem collapse_cons (a : α) (xs : List α) :
    collapse near single extend (a :: xs) = collapseFrom near single extend (single a) xs :=
  foldl_push_concat [] (single a) xs

/-! ### What is in a collapsed list -/

section Members

theorem collapse_concat (xs : List α) (a : α) :
    collapse near single extend (xs ++ [a]) =
      push near single extend (collapse near single extend xs) a := by
  unfold collapse
  rw [List.foldl_concat]

variable {out : List β} {a : α}

theorem mem_push {c : β} (h : c ∈ push near single extend out a) :
    c ∈ out ∨ c = single a ∨ ∃ b, near b a = true ∧ b ∈ out ∧ c = extend b a := by
  induction out using List.reverseRecOn with
  | nil => exact Or.inr (Or.inl (List.mem_singleton.mp h))
  | append_singleton out b _ =>
    rw [push_concat] at h
    split_ifs at h with hnear
    · rcases List.mem_append.mp h with hc | hc
      · exact Or.inl (List.mem_append_left _ hc)
      · exact Or.inr (Or.inr ⟨b, hnear, List.mem_concat_self, List.mem_singleton.mp hc⟩)
    · rw [List.append_cons] at h
      rcases List.mem_append.mp h with hc | hc
      · exact Or.inl hc
      · exact Or.inr (Or.inl (List.mem_singleton.mp hc))

/-- An element stays, or it is extended. -/
theorem mem_push_of_mem {b : β} (h : b ∈ out) :
    b ∈ push near single extend out a ∨
      near b a = true ∧ extend b a ∈ push near single extend out a := by
  induction out using List.reverseRecOn with
  | nil => exact absurd h List.not_mem_nil
  | append_singleton out c _ =>
    rw [push_concat]
    split_ifs with hnear
    · rcases List.mem_append.mp h with hb | hb
      · exact Or.inl (List.mem_append_left _ hb)
      · rw [List.mem_singleton.mp hb]
        exact Or.inr ⟨hnear, List.mem_concat_self⟩
    · rw [List.append_cons]
      exact Or.inl (List.mem_append_left _ h)

/-- The new element begins a run, or it extends one. -/
theorem new_mem_push :
    single a ∈ push near single extend out a ∨
      ∃ b, near b a = true ∧ b ∈ out ∧ extend b a ∈ push near single extend out a := by
  induction out using List.reverseRecOn with
  | nil => exact Or.inl (List.mem_singleton.mpr rfl)
  | append_singleton out b _ =>
    rw [push_concat]
    split_ifs with hnear
    · exact Or.inr ⟨b, hnear, List.mem_concat_self, List.mem_concat_self⟩
    · rw [List.append_cons]
      exact Or.inl List.mem_concat_self

/-- What holds of a run of one, and of a run that is extended, holds of every run. -/
theorem forall_mem_collapse {P : β → Prop} {xs : List α} (hsingle : ∀ a ∈ xs, P (single a))
    (hextend : ∀ b, ∀ a ∈ xs, near b a = true → P b → P (extend b a)) :
    ∀ c ∈ collapse near single extend xs, P c := by
  induction xs using List.reverseRecOn with
  | nil => exact fun c hc => nomatch hc
  | append_singleton xs a ih =>
    have hxs := ih (fun x hx => hsingle x (List.mem_append_left _ hx))
      (fun b x hx => hextend b x (List.mem_append_left _ hx))
    intro c hc
    rw [collapse_concat] at hc
    rcases mem_push hc with hc | rfl | ⟨b, hnear, hb, rfl⟩
    · exact hxs c hc
    · exact hsingle a List.mem_concat_self
    · exact hextend b a List.mem_concat_self hnear (hxs b hb)

/-- **Every element is told of** by one of those that were built, of which `P` holds. -/
theorem exists_mem_collapse {P : β → Prop} {Tells : β → α → Prop} {xs : List α}
    (hsingle : ∀ a ∈ xs, P (single a) ∧ Tells (single a) a)
    (hextend : ∀ b, ∀ a ∈ xs, near b a = true → P b → P (extend b a) ∧ Tells (extend b a) a)
    (hkeep : ∀ b, ∀ a ∈ xs, near b a = true → P b → ∀ x, Tells b x → Tells (extend b a) x) :
    ∀ x ∈ xs, ∃ c ∈ collapse near single extend xs, P c ∧ Tells c x := by
  induction xs using List.reverseRecOn with
  | nil => exact fun x hx => nomatch hx
  | append_singleton xs a ih =>
    have hxs := ih (fun x hx => hsingle x (List.mem_append_left _ hx))
      (fun b x hx => hextend b x (List.mem_append_left _ hx))
      (fun b x hx => hkeep b x (List.mem_append_left _ hx))
    have hP := forall_mem_collapse (fun x hx => (hsingle x (List.mem_append_left _ hx)).1)
      (fun b x hx hnear hb => (hextend b x (List.mem_append_left _ hx) hnear hb).1)
    intro x hx
    rw [collapse_concat]
    rcases List.mem_append.mp hx with hx | hx
    · obtain ⟨b, hb, hPb, htells⟩ := hxs x hx
      rcases mem_push_of_mem hb with hc | ⟨hnear, hc⟩
      · exact ⟨b, hc, hPb, htells⟩
      · exact ⟨_, hc, (hextend b a List.mem_concat_self hnear hPb).1,
          hkeep b a List.mem_concat_self hnear hPb x htells⟩
    · rw [List.mem_singleton.mp hx]
      rcases new_mem_push with hc | ⟨b, hnear, hb, hc⟩
      · exact ⟨_, hc, hsingle a List.mem_concat_self⟩
      · exact ⟨_, hc, hextend b a List.mem_concat_self hnear (hP b hb)⟩

end Members

/-! ### Runs -/

/-- `b` is what the elements of a run build. -/
def Builds (single : α → β) (extend : β → α → β) (run : List α) (b : β) : Prop :=
  ∃ a as, run = a :: as ∧ b = as.foldl extend (single a)

theorem builds_concat {run : List α} {b : β} (h : Builds single extend run b) (a : α) :
    Builds single extend (run ++ [a]) (extend b a) := by
  obtain ⟨x, xs, rfl, rfl⟩ := h
  exact ⟨x, xs ++ [a], rfl, by rw [List.foldl_concat]⟩

variable {τ : Type*} {at' : β → τ} {at₀ : α → τ} {r : τ → τ → Bool}

private theorem forall₂_collapseFrom (hnear : ∀ b a, near b a = r (at' b) (at₀ a))
    (hsingle : ∀ a, at' (single a) = at₀ a)
    (hextend : ∀ b a, near b a = true → at' (extend b a) = at₀ a)
    {xs : List α} {a : α} {b : β} {g : List α} {gs : List (List α)} {out : List β}
    (hb : Builds single extend (g.reverse ++ [a]) b) (hat : at' b = at₀ a)
    (hout : List.Forall₂ (Builds single extend) gs.reverse out) :
    List.Forall₂ (Builds single extend) (List.splitBy.loop (fun x y => r (at₀ x) (at₀ y)) xs a g gs)
      (out ++ collapseFrom near single extend b xs) := by
  induction xs generalizing a b g gs out with
  | nil =>
    unfold List.splitBy.loop collapseFrom
    rw [List.reverse_cons, List.reverse_cons]
    exact List.rel_append hout (.cons hb .nil)
  | cons x xs ih =>
    unfold List.splitBy.loop collapseFrom
    rw [hnear, hat]
    cases hr : r (at₀ a) (at₀ x) with
    | true =>
      refine ih ?_ (hextend b x (by rw [hnear, hat, hr])) hout
      rw [List.reverse_cons]
      exact builds_concat hb x
    | false =>
      have hnew : Builds single extend ([].reverse ++ [x]) (single x) := ⟨x, [], rfl, rfl⟩
      rw [if_neg (by simp), List.append_cons]
      refine ih hnew (hsingle x) ?_
      rw [List.reverse_cons, List.reverse_cons]
      exact List.rel_append hout (.cons hb .nil)

/-- **The runs of a collapsed list** are those of consecutive elements that are near. -/
theorem forall₂_collapse (hnear : ∀ b a, near b a = r (at' b) (at₀ a))
    (hsingle : ∀ a, at' (single a) = at₀ a)
    (hextend : ∀ b a, near b a = true → at' (extend b a) = at₀ a) (xs : List α) :
    List.Forall₂ (Builds single extend) (xs.splitBy fun x y => r (at₀ x) (at₀ y))
      (collapse near single extend xs) := by
  cases xs with
  | nil => exact .nil
  | cons a xs =>
    have hnew : Builds single extend ([].reverse ++ [a]) (single a) := ⟨a, [], rfl, rfl⟩
    rw [collapse_cons]
    have hnone : List.Forall₂ (Builds single extend) ([] : List (List α)).reverse [] := .nil
    exact forall₂_collapseFrom hnear hsingle hextend hnew (hsingle a) hnone

/-- A built element stands where the last of its run does. -/
theorem at_of_builds (hsingle : ∀ a, at' (single a) = at₀ a)
    (hextend : ∀ b a, at' (extend b a) = at₀ a) {run : List α} {b : β}
    (h : Builds single extend run b) : ∃ a, run.getLast? = some a ∧ at' b = at₀ a := by
  obtain ⟨x, xs, rfl, rfl⟩ := h
  induction xs using List.reverseRecOn with
  | nil => exact ⟨x, rfl, hsingle x⟩
  | append_singleton xs a _ =>
    refine ⟨a, ?_, by rw [List.foldl_concat, hextend]⟩
    rw [← List.cons_append, List.getLast?_concat]

theorem exists_right_of_mem {R : α → β → Prop} {l : List α} {l' : List β}
    (h : List.Forall₂ R l l') {a : α} (ha : a ∈ l) : ∃ b ∈ l', R a b := by
  induction h with
  | nil => exact absurd ha List.not_mem_nil
  | cons hab _ ih =>
    rcases List.mem_cons.mp ha with rfl | ha
    · exact ⟨_, List.mem_cons_self, hab⟩
    · obtain ⟨b, hb, hab⟩ := ih ha
      exact ⟨b, List.mem_cons_of_mem _ hb, hab⟩

theorem map_eq_of_forall₂ {R : α → β → Prop} {f : α → γ} {g : β → γ} {l : List α}
    {l' : List β} (h : List.Forall₂ R l l') (heq : ∀ a b, R a b → f a = g b) :
    l.map f = l'.map g := by
  induction h with
  | nil => rfl
  | cons hab _ ih => rw [List.map_cons, List.map_cons, heq _ _ hab, ih]

/-- What was built last stands where the list ends. -/
theorem at_getLast?_collapse (hsingle : ∀ a, at' (single a) = at₀ a)
    (hextend : ∀ b a, at' (extend b a) = at₀ a) {xs : List α} {b : β}
    (h : b ∈ (collapse near single extend xs).getLast?) : ∃ a ∈ xs.getLast?, at' b = at₀ a := by
  rcases List.eq_nil_or_concat' xs with rfl | ⟨xs, a, rfl⟩
  · cases h
  · refine ⟨a, by rw [List.getLast?_concat]; rfl, ?_⟩
    rw [collapse_concat] at h
    rcases List.eq_nil_or_concat' (collapse near single extend xs) with hnil | ⟨out, c, hout⟩
    · rw [hnil] at h
      rw [← Option.some.inj h]
      exact hsingle a
    · rw [hout, push_concat] at h
      split_ifs at h
      · rw [List.getLast?_concat] at h
        rw [← Option.some.inj h]
        exact hextend c a
      · rw [List.append_cons, List.getLast?_concat] at h
        rw [← Option.some.inj h]
        exact hsingle a

/-- Every element is in a run, out of which an element was built. -/
theorem exists_builds_of_mem (hnear : ∀ b a, near b a = r (at' b) (at₀ a))
    (hsingle : ∀ a, at' (single a) = at₀ a) (hextend : ∀ b a, at' (extend b a) = at₀ a)
    {xs : List α} {x : α} (hx : x ∈ xs) :
    ∃ run ∈ xs.splitBy fun x y => r (at₀ x) (at₀ y), x ∈ run ∧
      ∃ b ∈ collapse near single extend xs, Builds single extend run b := by
  rw [← List.flatten_splitBy (fun x y => r (at₀ x) (at₀ y)) xs] at hx
  obtain ⟨run, hrun, hxrun⟩ := List.mem_flatten.mp hx
  obtain ⟨b, hb, hbuilds⟩ := exists_right_of_mem
    (forall₂_collapse hnear hsingle (fun b a _ => hextend b a) xs) hrun
  exact ⟨run, hrun, hxrun, b, hb, hbuilds⟩

/-- What holds of a run of one, and of a run that goes on, holds of every run. -/
theorem builds_induction {P : List α → β → Prop} (hsingle : ∀ a, P [a] (single a))
    (hextend : ∀ run b a, P run b → P (run ++ [a]) (extend b a)) {run : List α} {b : β}
    (h : Builds single extend run b) : P run b := by
  obtain ⟨x, xs, rfl, rfl⟩ := h
  induction xs using List.reverseRecOn with
  | nil => exact hsingle x
  | append_singleton xs a ih =>
    rw [List.foldl_concat, ← List.cons_append]
    exact hextend _ _ _ ih

/-- The list is cut into runs of neighbours, as long as they can be. -/
structure Runs (link : α → α → Bool) (xs : List α) (runs : List (List α)) : Prop where
  flatten : runs.flatten = xs
  nonempty : [] ∉ runs
  linked : ∀ run ∈ runs, run.IsChain fun a b => link a b = true
  apart : runs.IsChain fun run next => ∃ (hr : run ≠ []) (hn : next ≠ []),
    link (run.getLast hr) (next.head hn) = false

/-- **The maximal runs** of a list are determined. -/
theorem runs_iff {link : α → α → Bool} {xs : List α} {runs : List (List α)} :
    Runs link xs runs ↔ runs = xs.splitBy link := by
  rw [eq_comm, List.splitBy_eq_iff]
  constructor
  · intro h
    exact ⟨h.flatten.symm, h.nonempty, h.linked, h.apart⟩
  · rintro ⟨h1, h2, h3, h4⟩
    exact ⟨h1.symm, h2, h3, h4⟩

/-- There are fewer runs than elements where some run has two. -/
theorem length_lt_length_flatten_iff {runs : List (List α)} (h : [] ∉ runs) :
    runs.length < runs.flatten.length ↔ ∃ run ∈ runs, 2 ≤ run.length := by
  have hpos : ∀ run ∈ runs, 1 ≤ run.length := fun run hrun =>
    List.length_pos_iff.mpr fun hnil => h (hnil ▸ hrun)
  clear h
  have hle : ∀ l : List (List α), (∀ run ∈ l, 1 ≤ run.length) → l.length ≤ l.flatten.length := by
    intro l hl
    induction l with
    | nil => exact Nat.le_refl _
    | cons run l ih =>
      have hrun := hl run List.mem_cons_self
      have ih := ih fun r hr => hl r (List.mem_cons_of_mem _ hr)
      rw [List.flatten_cons, List.length_append, List.length_cons]
      omega
  induction runs with
  | nil => simp
  | cons run runs ih =>
    have hrun := hpos run List.mem_cons_self
    have hrest : ∀ r ∈ runs, 1 ≤ r.length := fun r hr => hpos r (List.mem_cons_of_mem _ hr)
    have hlen := hle runs hrest
    rw [List.flatten_cons, List.length_append, List.length_cons]
    constructor
    · intro hlt
      rcases Nat.lt_or_ge run.length 2 with hone | htwo
      · obtain ⟨r, hr, hlong⟩ := (ih hrest).mp (by omega)
        exact ⟨r, List.mem_cons_of_mem _ hr, hlong⟩
      · exact ⟨run, List.mem_cons_self, htwo⟩
    · rintro ⟨r, hr, hlong⟩
      rcases List.mem_cons.mp hr with rfl | hr
      · omega
      · have hlt := (ih hrest).mpr ⟨r, hr, hlong⟩
        omega

/-- Runs of one are the elements. -/
theorem forall₂_singletons {runs : List (List α)} (h : ∀ run ∈ runs, run.length = 1) :
    List.Forall₂ (fun run a => run = [a]) runs runs.flatten := by
  induction runs with
  | nil => exact .nil
  | cons run runs ih =>
    obtain ⟨a, rfl⟩ := List.length_eq_one_iff.mp (h run List.mem_cons_self)
    exact .cons rfl (ih fun r hr => h r (List.mem_cons_of_mem _ hr))

/-- Numbers that are at most others, and add up to the same, are these. -/
theorem forall₂_eq_of_sum_eq {R : α → β → Prop} {f : α → ℕ} {g : β → ℕ} {l : List α} {l' : List β}
    (h : List.Forall₂ R l l') (hle : ∀ a b, R a b → g b ≤ f a)
    (hsum : (l'.map g).sum = (l.map f).sum) :
    List.Forall₂ (fun a b => R a b ∧ g b = f a) l l' := by
  have hsums : ∀ {l : List α} {l' : List β}, List.Forall₂ R l l' →
      (l'.map g).sum ≤ (l.map f).sum := by
    intro l l' h
    induction h with
    | nil => exact Nat.le_refl _
    | cons hab _ ih =>
      have hhead := hle _ _ hab
      rw [List.map_cons, List.map_cons, List.sum_cons, List.sum_cons]
      omega
  induction h with
  | nil => exact .nil
  | cons hab hrest ih =>
    have hhead := hle _ _ hab
    have htail := hsums hrest
    rw [List.map_cons, List.map_cons, List.sum_cons, List.sum_cons] at hsum
    exact .cons ⟨hab, by omega⟩ (ih (by omega))

private theorem splitByLoop_congr {r r' : α → α → Bool} {xs : List α} {a : α} {g : List α}
    {gs : List (List α)} (h : (a :: xs).IsChain fun x y => r x y = r' x y) :
    List.splitBy.loop r xs a g gs = List.splitBy.loop r' xs a g gs := by
  induction xs generalizing a g gs with
  | nil => rfl
  | cons x xs ih =>
    obtain ⟨hr, hxs⟩ := List.isChain_cons_cons.mp h
    unfold List.splitBy.loop
    rw [hr]
    cases r' a x <;> exact ih hxs

/-- The runs only ask about neighbours. -/
theorem splitBy_congr {r r' : α → α → Bool} {xs : List α}
    (h : xs.IsChain fun x y => r x y = r' x y) : xs.splitBy r = xs.splitBy r' := by
  cases xs with
  | nil => rfl
  | cons a xs => exact splitByLoop_congr h

private theorem forall₂_splitByLoop {R : α → γ → Prop} {r : α → α → Bool} {r' : γ → γ → Bool}
    (hr : ∀ a a' b b', R a a' → R b b' → r a b = r' a' b') {xs : List α} {xs' : List γ}
    (h : List.Forall₂ R xs xs') {a : α} {a' : γ} (ha : R a a') {g : List α} {g' : List γ}
    (hg : List.Forall₂ R g g') {gs : List (List α)} {gs' : List (List γ)}
    (hgs : List.Forall₂ (List.Forall₂ R) gs gs') :
    List.Forall₂ (List.Forall₂ R) (List.splitBy.loop r xs a g gs)
      (List.splitBy.loop r' xs' a' g' gs') := by
  have hrev {x : α} {x' : γ} {l : List α} {l' : List γ} (hx : R x x') (hl : List.Forall₂ R l l') :
      List.Forall₂ R (x :: l).reverse (x' :: l').reverse :=
    List.rel_reverse (.cons hx hl)
  induction h generalizing a a' g g' gs gs' with
  | nil =>
    unfold List.splitBy.loop
    exact List.rel_reverse (.cons (hrev ha hg) hgs)
  | @cons b b' _ _ hb _ ih =>
    unfold List.splitBy.loop
    rw [hr a a' b b' ha hb]
    cases r' a' b' with
    | true => exact ih hb (.cons ha hg) hgs
    | false => exact ih hb .nil (.cons (hrev ha hg) hgs)

/-- Lists that correspond are cut into runs that correspond. -/
theorem forall₂_splitBy {R : α → γ → Prop} {r : α → α → Bool} {r' : γ → γ → Bool}
    (hr : ∀ a a' b b', R a a' → R b b' → r a b = r' a' b') {xs : List α} {xs' : List γ}
    (h : List.Forall₂ R xs xs') :
    List.Forall₂ (List.Forall₂ R) (xs.splitBy r) (xs'.splitBy r') := by
  cases h with
  | nil => exact .nil
  | cons ha h => exact forall₂_splitByLoop hr h ha .nil .nil

section Sorted

variable {L : Type*} [Preorder L] {key : α → L} {link : α → α → Bool} {xs : List α}
  {runs : List (List α)}

/-- In a sorted list, there are unlinked neighbours between two runs. -/
theorem Runs.pairwise (h : Runs link xs runs) (hs : xs.Pairwise fun a b => key a ≤ key b) :
    runs.Pairwise fun run next => ∀ x ∈ run, ∀ y ∈ next, ∃ a ∈ xs, ∃ b ∈ xs, link a b = false ∧
      key x ≤ key a ∧ key a ≤ key b ∧ key b ≤ key y := by
  obtain ⟨rfl, hne, hlinked, hapart⟩ := h
  induction runs with
  | nil => exact .nil
  | cons run rest ih =>
    rw [List.flatten_cons, List.pairwise_append] at hs
    obtain ⟨hrun, hrest, hcross⟩ := hs
    have hmem {a : α} (ha : a ∈ rest.flatten) : a ∈ (run :: rest).flatten :=
      List.mem_append_right _ ha
    refine List.pairwise_cons.mpr ⟨?_, ?_⟩
    · intro next hnext x hx y hy
      obtain ⟨r, rs, rfl⟩ := List.exists_cons_of_ne_nil (List.ne_nil_of_mem hnext)
      obtain ⟨ha, hb, hlink⟩ := (List.isChain_cons_cons.mp hapart).1
      have hb' : r.head hb ∈ (r :: rs).flatten := List.mem_append_left _ (List.head_mem hb)
      have hy' : y ∈ (r :: rs).flatten := List.mem_flatten.mpr ⟨next, hnext, hy⟩
      refine ⟨run.getLast ha, List.mem_append_left _ (List.getLast_mem ha), r.head hb, hmem hb',
        hlink, ?_, hcross _ (List.getLast_mem ha) _ hb', ?_⟩
      · -- `x` comes before the last of its run, or is it
        rw [← List.dropLast_append_getLast ha, List.mem_append] at hx
        rcases hx with hx | hx
        · rw [← List.dropLast_append_getLast ha, List.pairwise_append] at hrun
          exact hrun.2.2 x hx _ (List.mem_singleton.mpr rfl)
        · rw [List.mem_singleton.mp hx]
      · obtain ⟨z, zs, rfl⟩ := List.exists_cons_of_ne_nil hb
        rw [List.flatten_cons, List.cons_append] at hrest hy'
        rcases List.mem_cons.mp hy' with rfl | hy'
        · exact le_refl _
        · exact (List.pairwise_cons.mp hrest).1 y hy'
    · refine (ih (fun hnil => hne (List.mem_cons_of_mem _ hnil))
        (fun r hr => hlinked r (List.mem_cons_of_mem _ hr)) hapart.tail hrest).imp ?_
      intro r next hpair x hx y hy
      obtain ⟨a, ha, b, hb, hrest⟩ := hpair x hx y hy
      exact ⟨a, hmem ha, b, hmem hb, hrest⟩

end Sorted

/-- A run of a sorted list holds all elements with one of its keys, where these are linked. -/
theorem Runs.filter_eq {L : Type*} [PartialOrder L] {key : α → L} {link : α → α → Bool}
    {xs run : List α} {runs : List (List α)} [DecidablePred fun a => key a ∈ run.map key]
    (h : Runs link xs runs) (hs : xs.Pairwise fun a b => key a ≤ key b) (hrun : run ∈ runs)
    (hlink : ∀ x ∈ run, ∀ a ∈ xs, ∀ b ∈ xs, key a = key x → key b = key x → link a b = true) :
    xs.filter (fun a => key a ∈ run.map key) = run := by
  have hapart {x y : α} (hx : x ∈ run) (hxy : key x = key y) :
      (¬ ∃ a ∈ xs, ∃ b ∈ xs, link a b = false ∧ key x ≤ key a ∧ key a ≤ key b ∧ key b ≤ key y) ∧
      ¬ ∃ a ∈ xs, ∃ b ∈ xs, link a b = false ∧ key y ≤ key a ∧ key a ≤ key b ∧ key b ≤ key x := by
    constructor
    · rintro ⟨a, ha, b, hb, hfalse, h1, h2, h3⟩
      have hax := le_antisymm (h2.trans (h3.trans hxy.ge)) h1
      have hbx := le_antisymm (h3.trans hxy.ge) (h1.trans h2)
      rw [hlink x hx a ha b hb hax hbx] at hfalse
      cases hfalse
    · rintro ⟨a, ha, b, hb, hfalse, h1, h2, h3⟩
      have hax := le_antisymm (h2.trans h3) (hxy.le.trans h1)
      have hbx := le_antisymm h3 (hxy.le.trans (h1.trans h2))
      rw [hlink x hx a ha b hb hax hbx] at hfalse
      cases hfalse
  obtain ⟨before, after, rfl⟩ := List.append_of_mem hrun
  have hpairs := h.pairwise hs
  rw [List.pairwise_append, List.pairwise_cons] at hpairs
  obtain ⟨-, ⟨hafter, -⟩, hbefore⟩ := hpairs
  -- no other run has an element with a key of this one
  have hother : ∀ l ∈ before ++ after, ∀ y ∈ l, key y ∉ run.map key := by
    intro l hl y hy hmem
    obtain ⟨x, hx, hxy⟩ := List.mem_map.mp hmem
    rcases List.mem_append.mp hl with hl | hl
    · exact (hapart hx hxy).2 (hbefore l hl run List.mem_cons_self y hy x hx)
    · exact (hapart hx hxy).1 (hafter l hl x hx y hy)
  have hnil {ls : List (List α)} (hls : ∀ l ∈ ls, l ∈ before ++ after) :
      ls.flatten.filter (fun a => key a ∈ run.map key) = [] := by
    refine List.filter_eq_nil_iff.mpr fun y hy => ?_
    obtain ⟨l, hl, hy⟩ := List.mem_flatten.mp hy
    simpa using hother l (hls l hl) y hy
  have hself : run.filter (fun a => key a ∈ run.map key) = run :=
    List.filter_eq_self.mpr fun x hx => decide_eq_true (List.mem_map_of_mem hx)
  rw [← h.flatten, List.flatten_append, List.flatten_cons, List.filter_append, List.filter_append,
    hnil fun l hl => List.mem_append_left _ hl, hnil fun l hl => List.mem_append_right _ hl, hself,
    List.append_nil]
  rfl

/-- Where nothing is near, nothing is put together. -/
theorem collapse_eq_self {near : α → α → Bool} {extend : α → α → α} {xs : List α}
    (h : xs.IsChain fun a b => near a b = false) : collapse near id extend xs = xs := by
  cases xs with
  | nil => rfl
  | cons a xs =>
    rw [collapse_cons]
    induction xs generalizing a with
    | nil => rfl
    | cons b xs ih =>
      obtain ⟨hab, hb⟩ := List.isChain_cons_cons.mp h
      rw [collapseFrom, if_neg (by simpa using hab)]
      exact congrArg _ (ih b hb)

theorem pairwise_of_forall₂ {R : α → β → Prop} {S : α → α → Prop} {T : β → β → Prop}
    (hST : ∀ a b a' b', R a a' → R b b' → S a b → T a' b') {l : List α} {l' : List β}
    (h : List.Forall₂ R l l') (hl : l.Pairwise S) : l'.Pairwise T := by
  induction h with
  | nil => exact .nil
  | @cons a a' l l' ha hrest ih =>
    obtain ⟨h1, h2⟩ := List.pairwise_cons.mp hl
    refine List.pairwise_cons.mpr ⟨fun b' hb' => ?_, ih h2⟩
    obtain ⟨b, hb, hR⟩ := exists_right_of_mem hrest.flip hb'
    exact hST a b a' b' ha hR (h1 b hb)

/-- A list can be cut where the next element is not near. -/
theorem collapse_append {xs ys : List α}
    (h : ∀ b ∈ (collapse near single extend xs).getLast?, ∀ a ∈ ys.head?, near b a = false) :
    collapse near single extend (xs ++ ys) =
      collapse near single extend xs ++ collapse near single extend ys := by
  cases ys with
  | nil => rw [List.append_nil, collapse_nil, List.append_nil]
  | cons a ys =>
    rcases List.eq_nil_or_concat' (collapse near single extend xs) with hnil | ⟨out, b, hout⟩
    · have hfold : collapse near single extend (xs ++ a :: ys) =
          (a :: ys).foldl (push near single extend) (collapse near single extend xs) :=
        List.foldl_append
      rw [hfold, hnil]
      rfl
    · have hnear : near b a = false := h b (by rw [hout, List.getLast?_concat]; rfl) a rfl
      have hfold : collapse near single extend (xs ++ a :: ys) =
          (a :: ys).foldl (push near single extend) (collapse near single extend xs) :=
        List.foldl_append
      rw [hfold, hout, foldl_push_concat, collapse_cons, collapseFrom, if_neg (by simp [hnear]),
        List.append_assoc]
      rfl

end Collapse
