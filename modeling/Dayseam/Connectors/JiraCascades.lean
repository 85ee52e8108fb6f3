import Dayseam.Connectors.Jira
import Mathlib

/-!
# The cascades of an issue

The changes of an issue's status are read in their order, and a change that comes at
most a minute behind the one before it joins its cascade.  So the cascades are the
maximal runs of such changes, and each tells all statuses of its run.

## Main definitions

* `follows` — a change comes at most a minute behind another.
* `IsCascade` — a cascade tells of a run of changes.
* `CascadesOf` — the cascades of a list of changes.

## Main results

* `cascadesOf_collapse` — **the cascades are the maximal runs.**
* `saturated_count` — a cascade that is too long for its counter.
-/

namespace Dayseam
namespace Jira

open Atlassian (numSeconds)
open Collapse (Builds Runs)

/-- The second change comes at most a minute behind the first, in whole seconds. -/
def follows (a b : StatusTransition) : Bool :=
  decide (numSeconds (b.createdAt - a.createdAt) ≤ RAPID_TRANSITION_WINDOW_SECONDS)

/-- The cascade tells of the changes of the run.  The count is kept in 32 bits. -/
structure IsCascade (run : List StatusTransition) (c : CollapsedTransition) : Prop where
  first : ∃ a ∈ run.head?, c.fromStatus = a.fromStatus
  last : ∃ z ∈ run.getLast?, c.createdAt = z.createdAt ∧ c.toStatus = z.toStatus ∧
    c.statusCategory = z.statusCategory
  statuses : c.via ++ [c.toStatus] = run.map (·.toStatus)
  count : c.transitionCount = min run.length (2 ^ 32 - 1)

/-- The cascades of a list of changes: one for each maximal run, in order. -/
structure CascadesOf (transitions : List StatusTransition) (out : List CollapsedTransition) :
    Prop where
  runs : ∃! runs, Runs follows transitions runs ∧ List.Forall₂ IsCascade runs out
  via : ∀ c ∈ out, c.transitionCount = min (c.via.length + 1) (2 ^ 32 - 1)
  lengths : (out.map fun c => c.via.length + 1).sum = transitions.length
  statuses : out.flatMap (fun c => c.via ++ [c.toStatus]) = transitions.map (·.toStatus)
  /-- the list can be cut at every gap of 61 seconds or more -/
  cut : ∀ l r, transitions = l ++ r →
    (∀ a ∈ l.getLast?, ∀ b ∈ r.head?, 61 ≤ numSeconds (b.createdAt - a.createdAt)) →
      out = collapseRapidTransitions l ++ collapseRapidTransitions r

theorem isCascade_of_builds {run : List StatusTransition} {c : CollapsedTransition}
    (h : Builds singleton extendCascade run c) : IsCascade run c := by
  refine Collapse.builds_induction (P := IsCascade) ?_ ?_ h
  · intro a
    exact ⟨⟨a, rfl, rfl⟩, ⟨a, rfl, rfl, rfl, rfl⟩, rfl, by simp [singleton]⟩
  · intro run b a hb
    obtain ⟨x, hx, hfrom⟩ := hb.first
    refine ⟨⟨x, ?_, hfrom⟩, ⟨a, ?_, rfl, rfl, rfl⟩, ?_, ?_⟩
    · rw [List.head?_append, hx]
      rfl
    · rw [List.getLast?_concat]
      rfl
    · show (b.via ++ [b.toStatus]) ++ [a.toStatus] = _
      rw [hb.statuses, List.map_append]
      rfl
    · show min (b.transitionCount + 1) (2 ^ 32 - 1) = _
      rw [hb.count, List.length_append, List.length_singleton]
      omega

theorem numSeconds_nonneg {n : ℤ} (h : 0 ≤ n) : 0 ≤ numSeconds n :=
  Int.tdiv_nonneg h (by decide)

section Sorted

variable {transitions : List StatusTransition}
  (hsorted : transitions.Pairwise fun a b => a.createdAt ≤ b.createdAt)

include hsorted

/-- In a sorted list the window is a bound on the gap. -/
theorem splitBy_withinWindow : transitions.splitBy (fun a b => withinWindow a.createdAt b.createdAt) =
    transitions.splitBy follows := by
  refine Collapse.splitBy_congr (hsorted.isChain.imp fun a b hab => ?_)
  have hgap : 0 ≤ numSeconds (b.createdAt - a.createdAt) := numSeconds_nonneg (by omega)
  simp [withinWindow, follows, hgap]

theorem forall₂_isCascade :
    List.Forall₂ IsCascade (transitions.splitBy follows) (collapseRapidTransitions transitions) := by
  rw [← splitBy_withinWindow hsorted]
  have h := @Collapse.forall₂_collapse _ _ _ singleton extendCascade _
    CollapsedTransition.createdAt StatusTransition.createdAt withinWindow (fun _ _ => rfl)
    (fun _ => rfl) (fun _ _ _ => rfl) transitions
  exact h.imp fun _ _ hb => isCascade_of_builds hb

/-- **The cascades are the maximal runs** of changes that come a minute apart. -/
theorem cascadesOf_collapse :
    CascadesOf transitions (collapseRapidTransitions transitions) := by
  have hcascades := forall₂_isCascade hsorted
  have hruns : Collapse.Runs follows transitions _ := Collapse.runs_iff.mpr rfl
  have hstatuses : (collapseRapidTransitions transitions).flatMap (fun c => c.via ++ [c.toStatus]) =
      transitions.map (·.toStatus) := by
    conv_rhs => rw [← hruns.flatten, List.map_flatten]
    rw [List.flatMap_def, Collapse.map_eq_of_forall₂ hcascades fun run c h => h.statuses.symm]
  refine ⟨⟨_, ⟨hruns, hcascades⟩, fun runs h => Collapse.runs_iff.mp h.1⟩, ?_, ?_, hstatuses, ?_⟩
  · intro c hc
    obtain ⟨run, -, h⟩ := Collapse.exists_right_of_mem hcascades.flip hc
    have hlen := congrArg List.length h.statuses
    rw [List.length_append, List.length_singleton, List.length_map] at hlen
    rw [h.count, hlen]
  · have hlen := congrArg List.length hstatuses
    rw [List.length_flatMap, List.length_map] at hlen
    simpa using hlen
  · rintro l r rfl hgap
    refine Collapse.collapse_append fun c hc b hb => ?_
    -- the last cascade stands where the left part ends
    obtain ⟨a, ha, hat⟩ : ∃ a ∈ l.getLast?, c.createdAt = a.createdAt :=
      @Collapse.at_getLast?_collapse _ _ _ _ _ _ (·.createdAt) (·.createdAt)
        (fun _ => rfl) (fun _ _ => rfl) _ _ hc
    have h61 := hgap a ha b hb
    rw [← hat] at h61
    rw [withinWindow, RAPID_TRANSITION_WINDOW_SECONDS, Bool.and_eq_false_iff]
    right
    rw [decide_eq_false_iff_not]
    omega

end Sorted

/-! ### A cascade of three changes, and one that is too long for its counter -/

/-- Three changes within a minute, and one after it. -/
theorem morning_cascades :
    CascadesOf [⟨0, "Todo".toList, "Doing".toList, []⟩,
        ⟨60 * nanosPerSec, "Doing".toList, "Review".toList, []⟩,
        ⟨120 * nanosPerSec, "Review".toList, "Done".toList, []⟩,
        ⟨181 * nanosPerSec, "Done".toList, "Todo".toList, []⟩]
      [⟨120 * nanosPerSec, "Todo".toList, "Done".toList, [], 3, ["Doing".toList, "Review".toList]⟩,
        ⟨181 * nanosPerSec, "Done".toList, "Todo".toList, [], 1, []⟩] :=
  cascadesOf_collapse (by decide)

/-- As many changes as the counter has values, all at one instant. -/
def longRun : List StatusTransition := List.replicate (2 ^ 32) ⟨0, [], [], []⟩

/-- **The counter saturates**: the counts of a run of `2 ^ 32` changes do not sum to it,
and its cascade has a status more than it counts. -/
theorem saturated_count : longRun.Pairwise (fun a b => a.createdAt ≤ b.createdAt) ∧
    ((collapseRapidTransitions longRun).map (·.transitionCount)).sum ≠ longRun.length ∧
      ∃ c ∈ collapseRapidTransitions longRun, c.via.length ≠ c.transitionCount - 1 := by
  have hsorted : longRun.Pairwise fun a b => a.createdAt ≤ b.createdAt :=
    List.pairwise_replicate.mpr (Or.inr (le_refl _))
  have hlen : longRun.length = 2 ^ 32 := List.length_replicate
  have hne : longRun ≠ [] := by
    intro h
    rw [h, List.length_nil] at hlen
    omega
  have hone : longRun.splitBy follows = [longRun] :=
    List.splitBy_of_isChain hne (List.isChain_replicate_of_rel _ (by decide))
  have hcascades := forall₂_isCascade hsorted
  rw [hone] at hcascades
  obtain ⟨c, rest, hc, hrest, hout⟩ := List.forall₂_cons_left_iff.mp hcascades
  rw [List.forall₂_nil_left_iff.mp hrest] at hout
  have hcount := hc.count
  have hvia := congrArg List.length hc.statuses
  rw [List.length_append, List.length_singleton, List.length_map, hlen] at hvia
  rw [hlen] at hcount
  rw [hout, hlen]
  refine ⟨hsorted, ?_, c, List.mem_cons_self, ?_⟩
  · rw [List.map_singleton, List.sum_singleton, hcount]
    decide
  · omega

end Jira
end Dayseam
