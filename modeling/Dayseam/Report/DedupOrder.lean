import Dayseam.Lib.BestMerge
import Dayseam.Report.Dedup
import Mathlib

/-!
# One commit, in whatever order its copies come

The copies of a commit are merged in the order in which the sources come to their
ends.  The richer copy stays, but its links, its entities and its actor take over
what the others add, and there the order can show.

## Main definitions

* `Extras` — what a copy of a commit adds to another.
* `copyRule` — `mergeTwo` as a merge into the best.
* `CommitsAlike` — the copies of different sources are merged alike.

## Main results

* `dedupCommitAuthored_perm` — **copies that are merged alike are merged into one
  commit in any order.**
-/

namespace Dayseam
namespace Report

open KeyedMerge

/-! ### What a copy adds -/

section UnionNew

variable {α : Type} [DecidableEq α] {a b c : List α} {x : α}

theorem unionNew_append (a b : List α) (x : α) :
    unionNew a (b ++ [x]) = if x ∈ unionNew a b then unionNew a b else unionNew a b ++ [x] := by
  rw [unionNew, List.foldl_append]
  rfl

theorem mem_unionNew : x ∈ unionNew a b ↔ x ∈ a ∨ x ∈ b := by
  induction b using List.reverseRecOn with
  | nil => simp [unionNew]
  | append_singleton b y ih =>
    rw [unionNew_append]
    split_ifs with hy
    · rw [ih, List.mem_append, List.mem_singleton]
      constructor
      · tauto
      · rintro (h | h | rfl)
        · exact Or.inl h
        · exact Or.inr h
        · exact ih.mp hy
    · rw [List.mem_append, ih, List.mem_append, or_assoc]

/-- What is there is not added. -/
theorem unionNew_of_subset (h : ∀ x ∈ b, x ∈ a) : unionNew a b = a := by
  induction b using List.reverseRecOn with
  | nil => rfl
  | append_singleton b y ih =>
    have hb := ih fun x hx => h x (List.mem_append_left _ hx)
    rw [unionNew_append, hb, if_pos (h y (List.mem_append_right _ List.mem_cons_self))]

theorem unionNew_assoc (a b c : List α) :
    unionNew (unionNew a b) c = unionNew a (unionNew b c) := by
  induction c using List.reverseRecOn with
  | nil => rfl
  | append_singleton c x ih =>
    rw [unionNew_append, unionNew_append b]
    by_cases hx : x ∈ unionNew b c
    · rw [if_pos hx, ih, if_pos (mem_unionNew.mpr (Or.inr hx))]
    · rw [if_neg hx, unionNew_append, ih]

end UnionNew

/-- What a copy of a commit adds to another. -/
structure Extras where
  links : List Link
  entities : List EntityRef
  privacy : Privacy
  email : Option Text
  externalId : Option Text

theorem louderPrivacy_assoc (p q r : Privacy) :
    louderPrivacy (louderPrivacy p q) r = louderPrivacy p (louderPrivacy q r) := by
  cases p <;> cases q <;> cases r <;> rfl

instance : Mul Extras where
  mul x y := ⟨unionLinks x.links y.links, unionEntities x.entities y.entities,
    louderPrivacy x.privacy y.privacy, x.email.or y.email, x.externalId.or y.externalId⟩

theorem Extras.mul_def (x y : Extras) : x * y =
    ⟨unionLinks x.links y.links, unionEntities x.entities y.entities,
      louderPrivacy x.privacy y.privacy, x.email.or y.email, x.externalId.or y.externalId⟩ := rfl

theorem or_or_self {α : Type} (x y : Option α) : (x.or y).or x = x.or y := by
  cases x <;> cases y <;> rfl

instance : LeftRegularBand Extras where
  mul_assoc x y z := by
    simp only [Extras.mul_def, unionLinks, unionEntities, unionNew_assoc, louderPrivacy_assoc,
      Option.or_assoc]
  mul_self x := by
    simp only [Extras.mul_def, unionLinks, unionEntities, Option.or_self,
      unionNew_of_subset fun _ h => h]
    cases x with | mk links entities privacy => cases privacy <;> rfl
  mul_mul_self x y := by
    simp only [Extras.mul_def, unionLinks, unionEntities, or_or_self]
    rw [unionNew_of_subset fun _ h => mem_unionNew.mpr (Or.inl h),
      unionNew_of_subset fun _ h => mem_unionNew.mpr (Or.inl h)]
    cases x.privacy <;> cases y.privacy <;> rfl

/-! ### The merge of two copies -/

/-- The copies are merged into the one with the longest body and then the smallest
source id. -/
def copyRule : BestMerge.Rule ActivityEvent Extras (ℕᵒᵈ ×ₗ Uuid) where
  key e := toLex (OrderDual.toDual (bodyRank e), e.sourceId)
  extras e := ⟨e.links, e.entities, e.privacy, e.actor.email, e.actor.externalId⟩
  withExtras e x := { e with
    links := x.links
    entities := x.entities
    privacy := x.privacy
    actor := { e.actor with email := x.email, externalId := x.externalId } }
  key_withExtras _ _ := rfl
  extras_withExtras _ _ := rfl
  withExtras_withExtras _ _ _ := rfl
  withExtras_extras _ := rfl

variable {a b : ActivityEvent} {events : List ActivityEvent}
  {blocks blocks' : List (List ActivityEvent)}

theorem copyRule_key_le_iff :
    copyRule.key a ≤ copyRule.key b ↔ bodyRank b ≤ bodyRank a ∧ pickAOnTie a b = true := by
  unfold copyRule pickAOnTie
  dsimp only
  rw [Prod.Lex.toLex_le_toLex, OrderDual.toDual_lt_toDual, OrderDual.toDual_inj]
  split_ifs with hrank
  · simp only [hrank, false_and, or_false, and_true]
    omega
  · rw [not_not] at hrank
    simp [hrank]

theorem merge_copyRule : copyRule.merge = mergeTwo := by
  funext a b
  unfold BestMerge.Rule.merge mergeTwo
  rw [if_congr (copyRule_key_le_iff (a := a) (b := b)) rfl rfl]
  split_ifs <;> rfl

/-- Two copies of a commit do not tie, and each further copy is merged with the two in
either order. -/
def CopiesAlike (events : List ActivityEvent) (a b : ActivityEvent) : Prop :=
  ¬(bodyRank a = bodyRank b ∧ a.sourceId = b.sourceId) ∧
    ∀ c ∈ events, isCommit c = true → c.externalId = a.externalId →
      mergeTwo (mergeTwo c a) b = mergeTwo (mergeTwo c b) a

/-- The copies that different sources have of a commit are merged alike. -/
def CommitsAlike (blocks : List (List ActivityEvent)) : Prop :=
  blocks.Pairwise fun xs ys => ∀ a ∈ xs, ∀ b ∈ ys, isCommit a = true → isCommit b = true →
    a.externalId = b.externalId → CopiesAlike blocks.flatten a b

/-! ### The merge of all copies -/

/-- **Copies that are merged alike are merged into one commit in any order.** -/
theorem dedupCommitAuthored_perm (h : blocks.Perm blocks') (halike : CommitsAlike blocks) :
    (dedupCommitAuthored blocks.flatten).Perm (dedupCommitAuthored blocks'.flatten) := by
  have hkeeps : Keeps (·.externalId) copyRule.merge := merge_copyRule ▸ mergeTwo_keeps
  have hcommits : ((dedupCommitAuthored blocks.flatten).filter isCommit).Perm
      ((dedupCommitAuthored blocks'.flatten).filter isCommit) := by
    rw [filter_commits_dedup, filter_commits_dedup, List.filter_flatten, List.filter_flatten,
      ← merge_copyRule]
    refine BestMerge.Rule.mergeBy_flatten_perm hkeeps (h.map _) ?_
    refine List.pairwise_map.mpr (halike.imp fun hxy a ha b hb hab => ?_)
    obtain ⟨ha, hca⟩ := List.mem_filter.mp ha
    obtain ⟨hb, hcb⟩ := List.mem_filter.mp hb
    obtain ⟨htie, hmerge⟩ := hxy a ha b hb hca hcb hab
    refine ⟨fun hkey => htie ?_, ?_⟩
    · have hpair := Prod.mk.inj (toLex_inj.mp hkey)
      exact ⟨OrderDual.toDual_inj.mp hpair.1, hpair.2⟩
    · rintro c ⟨hc, hca⟩
      rw [← List.filter_flatten] at hc
      obtain ⟨hc, hcc⟩ := List.mem_filter.mp hc
      rw [merge_copyRule]
      exact hmerge c hc hcc hca
  have hothers : ((dedupCommitAuthored blocks.flatten).filter (!isCommit ·)).Perm
      ((dedupCommitAuthored blocks'.flatten).filter (!isCommit ·)) := by
    rw [filter_others_dedup, filter_others_dedup]
    exact (h.flatten).filter _
  exact (List.filter_append_perm isCommit _).symm.trans
    ((hcommits.append hothers).trans (List.filter_append_perm isCommit _))

/-- An id of a merged list is one of the list. -/
theorem ids_dedup_subperm (events : List ActivityEvent) :
    ((dedupCommitAuthored events).map (·.id)).Subperm (events.map (·.id)) := by
  have hcommits : (((dedupCommitAuthored events).filter isCommit).map (·.id)).Subperm
      ((events.filter isCommit).map (·.id)) := by
    have hcontent : ∀ y x, [(mergeTwo y x).id].Subperm ([y.id] ++ [x.id]) := fun y x => by
      rcases mergeTwo_id y x with h | h
      · rw [h]
        exact (List.sublist_append_left _ _).subperm
      · rw [h]
        exact (List.sublist_append_right _ _).subperm
    have h : ((mergeBy (·.externalId) mergeTwo (events.filter isCommit)).flatMap
        fun e => [e.id]).Subperm ((events.filter isCommit).flatMap fun e => [e.id]) :=
      flatMap_mergeBy_subperm hcontent _
    rwa [← filter_commits_dedup, ← List.map_eq_flatMap, ← List.map_eq_flatMap] at h
  have hothers : ((dedupCommitAuthored events).filter (!isCommit ·)).map (·.id) =
      (events.filter (!isCommit ·)).map (·.id) := by rw [filter_others_dedup]
  have hsplit : ∀ l : List ActivityEvent, ((l.filter isCommit).map (·.id) ++
      (l.filter (!isCommit ·)).map (·.id)).Perm (l.map (·.id)) := fun l => by
    rw [← List.map_append]
    exact (List.filter_append_perm isCommit l).map _
  exact (hsplit _).symm.subperm.trans
    ((hcommits.append (hothers ▸ List.Subperm.refl _)).trans (hsplit events).subperm)

theorem nodup_ids_dedup (hn : (events.map (·.id)).Nodup) :
    ((dedupCommitAuthored events).map (·.id)).Nodup := by
  obtain ⟨l, hperm, hsub⟩ := ids_dedup_subperm events
  exact hperm.nodup_iff.mp (hn.sublist hsub)

end Report
end Dayseam
