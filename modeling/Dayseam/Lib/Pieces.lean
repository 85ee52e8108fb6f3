import Mathlib

/-!
# Pieces of a list

Lists occur in another one as disjoint pieces, in order.  What is written around the pieces
does not matter, and neither does an element taken from the end, as long as no piece ends
with it.

## Main definitions

* `Pieces ps l` — the lists `ps` occur in `l` one behind another.

## Main results

* `Pieces.append`, `Pieces.frame` — how pieces are put together.
* `Pieces.of_concat` — the last element can go.
-/

variable {α : Type*}

/-- The lists occur one behind another, without an overlap. -/
def Pieces : List (List α) → List α → Prop
  | [], _ => True
  | p :: ps, l => ∃ before behind, l = before ++ p ++ behind ∧ Pieces ps behind

namespace Pieces

variable {ps qs : List (List α)} {l m : List α}

theorem nil (l : List α) : Pieces [] l := trivial

theorem single (p : List α) : Pieces [p] p := ⟨[], [], by simp, trivial⟩

theorem frame_left (h : Pieces ps l) (before : List α) : Pieces ps (before ++ l) := by
  cases ps with
  | nil => trivial
  | cons p ps =>
    obtain ⟨first, behind, rfl, hps⟩ := h
    exact ⟨before ++ first, behind, by simp, hps⟩

theorem append (hp : Pieces ps l) (hq : Pieces qs m) : Pieces (ps ++ qs) (l ++ m) := by
  induction ps generalizing l with
  | nil => exact hq.frame_left l
  | cons p ps ih =>
    obtain ⟨before, behind, rfl, hps⟩ := hp
    exact ⟨before, behind ++ m, by simp, ih hps⟩

theorem frame (h : Pieces ps l) (before behind : List α) :
    Pieces ps (before ++ l ++ behind) := by
  have happend := (h.frame_left before).append (nil behind)
  rwa [List.append_nil] at happend

/-- A piece of a list that occurs is one itself. -/
theorem single_of_append (before p behind : List α) : Pieces [p] (before ++ p ++ behind) :=
  (single p).frame before behind

/-- The last element can go when no piece ends with it. -/
theorem of_concat {c : α} (h : Pieces ps (l ++ [c])) (hc : ∀ p ∈ ps, p.getLast? ≠ some c) :
    Pieces ps l := by
  induction ps generalizing l with
  | nil => trivial
  | cons p ps ih =>
    obtain ⟨before, behind, heq, hps⟩ := h
    have hc' : ∀ q ∈ ps, q.getLast? ≠ some c := fun q hq => hc q (List.mem_cons_of_mem _ hq)
    rcases List.eq_nil_or_concat behind with rfl | ⟨behind, d, rfl⟩
    · -- the element is the last one of the piece, or the piece is empty
      rcases List.eq_nil_or_concat p with rfl | ⟨p, d, rfl⟩
      · exact ⟨l, [], by simp, hps⟩
      · have hlast := congrArg List.getLast? heq
        rw [List.concat_eq_append, List.append_nil, ← List.append_assoc, List.getLast?_concat,
          List.getLast?_concat] at hlast
        refine absurd ?_ (hc _ List.mem_cons_self)
        rw [List.concat_eq_append, List.getLast?_concat, ← hlast]
    · rw [List.concat_eq_append] at heq hps
      rw [← List.append_assoc] at heq
      obtain ⟨hl, hcd⟩ := List.append_inj' heq rfl
      obtain rfl : c = d := by simpa using hcd
      exact ⟨before, behind, hl, ih hps hc'⟩

theorem dropLast {c : α} (h : Pieces ps l) (hl : l.getLast? = some c)
    (hc : ∀ p ∈ ps, p.getLast? ≠ some c) : Pieces ps l.dropLast := by
  obtain ⟨m, rfl⟩ := List.getLast?_eq_some_iff.mp hl
  rw [List.dropLast_concat]
  exact of_concat h hc

end Pieces
