import Mathlib

/-!
# Occurrences in a list, from left to right

A scanner reads a list once, from left to right, and answers with tokens.  What it
ought to answer with is given by a predicate on the places of the list, and this
module has the rules by which a run of a scanner is compared with that predicate:
a scanner that passes a stretch without an occurrence, or with a single one, is
right about the list when it is right about what follows.

## Main definitions

* `Occurrence` — a place in a list.
* `Finds P s n occ` — `occ` are the places at `n` or later that satisfy `P`, in order.

## Main results

* `Finds.done`, `Finds.round` — the rules of a scan.
* `run_unique` — a maximal run is determined by the list that it starts.
-/

variable {α : Type*}

/-- A place in a list, with what stands there. -/
structure Occurrence (α : Type*) where
  before : List α
  token : List α
  after : List α

namespace Occurrence

def text (o : Occurrence α) : List α := o.before ++ o.token ++ o.after

def start (o : Occurrence α) : ℕ := o.before.length

def stop (o : Occurrence α) : ℕ := o.before.length + o.token.length

/-- Two places of one list that start and stop together. -/
theorem eq_of_start {o p : Occurrence α} (htext : o.text = p.text) (hstart : o.start = p.start)
    (hstop : o.stop = p.stop) : o = p := by
  obtain ⟨b, t, a⟩ := o
  obtain ⟨b', t', a'⟩ := p
  change b ++ t ++ a = b' ++ t' ++ a' at htext
  change b.length = b'.length at hstart
  change b.length + t.length = b'.length + t'.length at hstop
  obtain ⟨hbt, rfl⟩ := List.append_inj htext (by simp only [List.length_append]; omega)
  obtain ⟨rfl, rfl⟩ := List.append_inj hbt hstart
  rfl

/-- A place behind a part of the list lies in the rest of it. -/
theorem exists_of_le_start {o : Occurrence α} {before rest : List α}
    (htext : o.text = before ++ rest) (hle : before.length ≤ o.start) :
    ∃ u, o.before = before ++ u ∧ rest = u ++ o.token ++ o.after := by
  obtain ⟨u, hu⟩ : before <+: o.before := by
    have hmem : o.before <+: before ++ rest := by
      rw [← htext, text, List.append_assoc]
      exact List.prefix_append _ _
    exact List.prefix_of_prefix_length_le (List.prefix_append before rest) hmem hle
  refine ⟨u, hu.symm, ?_⟩
  rw [text, ← hu, List.append_assoc, List.append_assoc] at htext
  rw [List.append_assoc]
  exact (List.append_cancel_left htext).symm

end Occurrence

/-- The places of `s`, at `n` or later, that satisfy `P`, in order. -/
structure Finds (P : Occurrence α → Prop) (s : List α) (n : ℕ) (occ : List (Occurrence α)) :
    Prop where
  ordered : occ.Pairwise fun o p => o.stop ≤ p.start
  mem_iff : ∀ o, o ∈ occ ↔ o.text = s ∧ P o ∧ n ≤ o.start

namespace Finds

variable {P : Occurrence α → Prop} {s : List α} {n m : ℕ} {occ : List (Occurrence α)}

/-- Nothing more is to be found. -/
theorem done (h : ∀ o, o.text = s → P o → o.start < n) : Finds P s n [] where
  ordered := List.Pairwise.nil
  mem_iff o := by
    refine ⟨fun ho => absurd ho List.not_mem_nil, ?_⟩
    rintro ⟨htext, hP, hle⟩
    exact absurd (h o htext hP) (Nat.not_lt.mpr hle)

/-- A stretch without an occurrence is passed. -/
theorem pass (hnm : n ≤ m) (h : ∀ o, o.text = s → P o → n ≤ o.start → m ≤ o.start)
    (hf : Finds P s m occ) : Finds P s n occ where
  ordered := hf.ordered
  mem_iff o := by
    rw [hf.mem_iff]
    refine and_congr_right fun htext => and_congr_right fun hP => ?_
    exact ⟨fun hm => hnm.trans hm, h o htext hP⟩

/-- A stretch with a single occurrence is passed. -/
theorem found {o : Occurrence α} (htext : o.text = s) (hP : P o) (hstart : n ≤ o.start)
    (hstop : o.stop ≤ m) (h : ∀ p, p.text = s → P p → n ≤ p.start → p = o ∨ m ≤ p.start)
    (hf : Finds P s m occ) : Finds P s n (o :: occ) where
  ordered := by
    refine List.pairwise_cons.mpr ⟨fun p hp => ?_, hf.ordered⟩
    exact hstop.trans ((hf.mem_iff p).mp hp).2.2
  mem_iff p := by
    have hnm : n ≤ m := hstart.trans ((Nat.le_add_right _ _).trans hstop)
    rw [List.mem_cons, hf.mem_iff]
    constructor
    · rintro (rfl | ⟨hp, hPp, hle⟩)
      · exact ⟨htext, hP, hstart⟩
      · exact ⟨hp, hPp, hnm.trans hle⟩
    · rintro ⟨hp, hPp, hle⟩
      rcases h p hp hPp hle with rfl | hm
      · exact .inl rfl
      · exact .inr ⟨hp, hPp, hm⟩

/-- **A round of a scanner** that answers with the one occurrence it passes, if any. -/
theorem round {out : Option (Occurrence α)} (hnm : n ≤ m)
    (hout : ∀ o ∈ out, o.text = s ∧ P o ∧ n ≤ o.start ∧ o.stop ≤ m)
    (hpassed : ∀ p : Occurrence α, p.text = s → P p → n ≤ p.start → p.start < m → out = some p)
    (hf : Finds P s m occ) : Finds P s n (out.toList ++ occ) := by
  cases out with
  | none =>
    refine hf.pass hnm fun p htext hP hstart => ?_
    by_contra hlt
    exact absurd (hpassed p htext hP hstart (Nat.lt_of_not_le hlt)) (by simp)
  | some o =>
    obtain ⟨htext, hP, hstart, hstop⟩ := hout o rfl
    refine hf.found htext hP hstart hstop fun p hp hPp hle => ?_
    rcases Nat.lt_or_ge p.start m with hlt | hge
    · exact .inl (Option.some.inj (hpassed p hp hPp hle hlt)).symm
    · exact .inr hge

end Finds

/-! ### Runs -/

/-- The list does not start with an element of the kind. -/
def HeadNot (p : α → Bool) (l : List α) : Prop := ∀ a ∈ l.head?, p a = false

theorem headNot_dropWhile (p : α → Bool) (l : List α) : HeadNot p (l.dropWhile p) := by
  intro a ha
  have h := List.head?_dropWhile_not p l
  rw [Option.mem_def] at ha
  rw [ha] at h
  simpa using h

theorem takeWhile_append_of_headNot {p : α → Bool} {l r : List α} (hl : ∀ a ∈ l, p a = true)
    (hr : HeadNot p r) : (l ++ r).takeWhile p = l := by
  rw [List.takeWhile_append_of_pos hl]
  cases r with
  | nil => simp
  | cons a r => rw [List.takeWhile_cons_of_neg (by simp [hr a rfl]), List.append_nil]

theorem dropWhile_append_of_headNot {p : α → Bool} {l r : List α} (hl : ∀ a ∈ l, p a = true)
    (hr : HeadNot p r) : (l ++ r).dropWhile p = r := by
  have h := List.takeWhile_append_dropWhile (p := p) (l := l ++ r)
  rw [takeWhile_append_of_headNot hl hr] at h
  exact List.append_cancel_left h

/-- **A maximal run is determined by the list that it starts.** -/
theorem run_unique {p : α → Bool} {l l' r r' : List α} (h : l ++ r = l' ++ r')
    (hl : ∀ a ∈ l, p a = true) (hr : HeadNot p r) (hl' : ∀ a ∈ l', p a = true)
    (hr' : HeadNot p r') : l = l' ∧ r = r' := by
  have htake := congrArg (List.takeWhile p) h
  rw [takeWhile_append_of_headNot hl hr, takeWhile_append_of_headNot hl' hr'] at htake
  subst htake
  exact ⟨rfl, List.append_cancel_left h⟩
