import Dayseam.Lib.Paging
import Mathlib

/-!
# Walks along the links of pages

A server answers a request with a page, which may carry the link of the next one.  The
walk asks whether it is cancelled, takes the link, requests the page, reads it, and goes
on unless the page makes it stop.  A cap bounds its requests; a link that it has not
followed at the cap is left over.

## Main definitions

* `follow`, `followAll` — the walk; the answer to a request may depend on when it is made.
* `Served` — the pages that a server hands out, one request after another.
* `Ends` — where a walk may come to rest.
* `Offered` — the pages behind a link, when the answer depends on the link alone.

## Main results

* `follow_eq_ok_iff` — a walk that ends has read what it was served.
* `followAll_eq_ok_iff` — the same where no link may be left over.
* `Served.eq_take`, `ServedAll.eq_through` — what a walk is served of the pages on offer.
-/

namespace Paging

variable {ε σ C P : Type*}

/-- Where a walk rests: behind a page that makes it stop, or before a link. -/
inductive Rest (C : Type*)
  | stopped
  | before (link : Option C)

/-- The link that is left over. -/
def Rest.link : Rest C → Option C
  | .stopped => none
  | .before link => link

section Follow

variable (cancelled : ℕ → Option ε) (fetch : ℕ → C → Except ε P) (next : P → Option C)
  (stops : P → Bool) (step : σ → P → σ)

/-- Follow the links for at most `fuel` requests, of which the first has the number `i`. -/
def follow : ℕ → ℕ → Option C → σ → Except ε (Option C × σ)
  | 0, _, link, s => .ok (link, s)
  | fuel + 1, i, link, s =>
    match cancelled i with
    | some err => .error err
    | none =>
      match link with
      | none => .ok (none, s)
      | some c =>
        match fetch i c with
        | .error err => .error err
        | .ok p =>
          if stops p then .ok (none, step s p)
          else follow fuel (i + 1) (next p) (step s p)

/-- A walk for which a link that is left over is an error. -/
def followAll (capTripped : ε) (fuel : ℕ) (c : C) (s : σ) : Except ε σ :=
  match follow cancelled fetch next stops step fuel 0 (some c) s with
  | .error err => .error err
  | .ok (some _, _) => .error capTripped
  | .ok (none, s') => .ok s'

/-- The pages that are handed out from request `i` on, and where the walk rests. -/
inductive Served : ℕ → Option C → List P → Rest C → Prop
  | rest {i : ℕ} {link : Option C} : Served i link [] (.before link)
  | stop {i : ℕ} {c : C} {p : P} : cancelled i = none → fetch i c = .ok p → stops p = true →
      Served i (some c) [p] .stopped
  | step {i : ℕ} {c : C} {p : P} {ps : List P} {r : Rest C} : cancelled i = none →
      fetch i c = .ok p → stops p = false → Served (i + 1) (next p) ps r →
      Served i (some c) (p :: ps) r

/-- A walk that was not stopped has made all its requests, or there is no link left and it
is not cancelled then. -/
def Ends (fuel i : ℕ) (ps : List P) : Rest C → Prop
  | .stopped => ps.length ≤ fuel
  | .before link => ps.length = fuel ∨
      ps.length < fuel ∧ link = none ∧ cancelled (i + ps.length) = none

/-- All that a walk along all links is served. -/
def ServedAll (fuel : ℕ) (c : C) (ps : List P) : Prop :=
  ∃ r, (Served cancelled fetch next stops 0 (some c) ps r ∧ Ends cancelled fuel 0 ps r) ∧
    r.link = none

/-- The pages behind a link, where every answer to it is the same page. -/
inductive Offered : C → List P → Prop
  | last {c : C} {p : P} : (∀ i q, fetch i c = .ok q → q = p) → next p = none → Offered c [p]
  | more {c c' : C} {p : P} {ps : List P} : (∀ i q, fetch i c = .ok q → q = p) →
      next p = some c' → Offered c' ps → Offered c (p :: ps)

end Follow

variable {cancelled : ℕ → Option ε} {fetch : ℕ → C → Except ε P} {next : P → Option C}
  {stops : P → Bool} {step : σ → P → σ}

theorem served_none_iff {i : ℕ} {ps : List P} {r : Rest C} :
    Served cancelled fetch next stops i none ps r ↔ ps = [] ∧ r = .before none := by
  constructor
  · intro h
    cases h
    exact ⟨rfl, rfl⟩
  · rintro ⟨rfl, rfl⟩
    exact .rest

theorem ends_nil_succ {fuel i : ℕ} {link : Option C} :
    Ends (P := P) cancelled (fuel + 1) i [] (.before link) ↔ link = none ∧ cancelled i = none := by
  simp [Ends]

theorem ends_cons_succ {fuel i : ℕ} {p : P} {ps : List P} {r : Rest C} :
    Ends cancelled (fuel + 1) i (p :: ps) r ↔ Ends cancelled fuel (i + 1) ps r := by
  have hi : i + (ps.length + 1) = i + 1 + ps.length := by omega
  cases r <;> simp [Ends, hi]

/-- A walk is served the rest of its pages by its next request. -/
theorem served_ends_iff {fuel i : ℕ} {c : C} {p : P} (hc : cancelled i = none)
    (hp : fetch i c = .ok p) {ps : List P} {r : Rest C} :
    Served cancelled fetch next stops i (some c) ps r ∧ Ends cancelled (fuel + 1) i ps r ↔
      (stops p = true ∧ ps = [p] ∧ r = .stopped) ∨
        (stops p = false ∧ ∃ rest, ps = p :: rest ∧
          Served cancelled fetch next stops (i + 1) (next p) rest r ∧
            Ends cancelled fuel (i + 1) rest r) := by
  constructor
  · rintro ⟨hserved, hends⟩
    cases hserved with
    | rest =>
      -- a walk does not rest before a link while it may still make a request
      cases (ends_nil_succ.mp hends).1
    | stop _ hq hstop =>
      rw [hp] at hq
      obtain rfl := Except.ok.inj hq
      exact Or.inl ⟨hstop, rfl, rfl⟩
    | step _ hq hstop hrest =>
      rw [hp] at hq
      obtain rfl := Except.ok.inj hq
      exact Or.inr ⟨hstop, _, rfl, hrest, ends_cons_succ.mp hends⟩
  · rintro (⟨hstop, rfl, rfl⟩ | ⟨hstop, rest, rfl, hrest, hends⟩)
    · exact ⟨.stop hc hp hstop, Nat.succ_le_succ (Nat.zero_le fuel)⟩
    · exact ⟨.step hc hp hstop hrest, ends_cons_succ.mpr hends⟩

/-- **What a walk has read** is what it was served, one request after another. -/
theorem follow_eq_ok_iff {fuel i : ℕ} {link left : Option C} {s s' : σ} :
    follow cancelled fetch next stops step fuel i link s = .ok (left, s') ↔
      ∃ ps r, (Served cancelled fetch next stops i link ps r ∧ Ends cancelled fuel i ps r) ∧
        left = r.link ∧ s' = ps.foldl step s := by
  induction fuel generalizing i link s with
  | zero =>
    simp only [follow, Except.ok.injEq, Prod.mk.injEq]
    constructor
    · rintro ⟨rfl, rfl⟩
      exact ⟨[], .before link, ⟨.rest, Or.inl rfl⟩, rfl, rfl⟩
    · rintro ⟨ps, r, ⟨hserved, hends⟩, rfl, rfl⟩
      cases hserved with
      | rest => exact ⟨rfl, rfl⟩
      | stop => simp [Ends] at hends
      | step => cases r <;> simp [Ends] at hends
  | succ fuel ih =>
    unfold follow
    cases hc : cancelled i with
    | some err =>
      simp only [reduceCtorEq, false_iff]
      rintro ⟨ps, r, ⟨hserved, hends⟩, -⟩
      cases hserved with
      | rest =>
        rw [ends_nil_succ, hc] at hends
        cases hends.2
      | stop hi =>
        rw [hc] at hi
        cases hi
      | step hi =>
        rw [hc] at hi
        cases hi
    | none =>
      cases link with
      | none =>
        simp only [served_none_iff, Except.ok.injEq, Prod.mk.injEq]
        constructor
        · rintro ⟨rfl, rfl⟩
          exact ⟨[], .before none, ⟨⟨rfl, rfl⟩, ends_nil_succ.mpr ⟨rfl, hc⟩⟩, rfl, rfl⟩
        · rintro ⟨ps, r, ⟨⟨rfl, rfl⟩, -⟩, rfl, rfl⟩
          exact ⟨rfl, rfl⟩
      | some c =>
        cases hp : fetch i c with
        | error err =>
          simp only [hp, reduceCtorEq, false_iff]
          rintro ⟨ps, r, ⟨hserved, hends⟩, -⟩
          cases hserved with
          | rest => cases (ends_nil_succ.mp hends).1
          | stop _ hq =>
            rw [hp] at hq
            cases hq
          | step _ hq =>
            rw [hp] at hq
            cases hq
        | ok p =>
          simp only [hp, served_ends_iff hc hp]
          cases hstop : stops p with
          | true =>
            simp only [if_true, Except.ok.injEq, Prod.mk.injEq, reduceCtorEq, false_and, or_false,
              true_and]
            constructor
            · rintro ⟨rfl, rfl⟩
              exact ⟨[p], .stopped, ⟨rfl, rfl⟩, rfl, rfl⟩
            · rintro ⟨ps, r, ⟨rfl, rfl⟩, rfl, rfl⟩
              exact ⟨rfl, rfl⟩
          | false =>
            simp only [Bool.false_eq_true, if_false, false_and, false_or, true_and]
            rw [ih]
            constructor
            · rintro ⟨ps, r, hrest, rfl, rfl⟩
              exact ⟨p :: ps, r, ⟨ps, rfl, hrest⟩, rfl, rfl⟩
            · rintro ⟨ps, r, ⟨rest, rfl, hrest⟩, rfl, rfl⟩
              exact ⟨rest, r, hrest, rfl, rfl⟩

/-- **A walk along all links ends with all that it was served.** -/
theorem followAll_eq_ok_iff {capTripped : ε} {fuel : ℕ} {c : C} {s s' : σ} :
    followAll cancelled fetch next stops step capTripped fuel c s = .ok s' ↔
      ∃ ps, ServedAll cancelled fetch next stops fuel c ps ∧ s' = ps.foldl step s := by
  have hfollow : followAll cancelled fetch next stops step capTripped fuel c s = .ok s' ↔
      follow cancelled fetch next stops step fuel 0 (some c) s = .ok (none, s') := by
    unfold followAll
    cases follow cancelled fetch next stops step fuel 0 (some c) s with
    | error err => simp
    | ok r =>
      obtain ⟨left, s''⟩ := r
      cases left <;> simp
  rw [hfollow, follow_eq_ok_iff]
  constructor
  · rintro ⟨ps, r, hserved, hlink, rfl⟩
    exact ⟨ps, ⟨r, hserved, hlink.symm⟩, rfl⟩
  · rintro ⟨ps, ⟨r, hserved, hlink⟩, rfl⟩
    exact ⟨ps, r, hserved, hlink.symm, rfl⟩

/-- A walk that rests before a link has tripped the cap. -/
theorem followAll_eq_error {capTripped : ε} {fuel : ℕ} {c c' : C} {ps : List P} {s : σ}
    (h : Served cancelled fetch next stops 0 (some c) ps (.before (some c')))
    (hends : Ends cancelled fuel 0 ps (.before (some c'))) :
    followAll cancelled fetch next stops step capTripped fuel c s = .error capTripped := by
  have hfollow : follow cancelled fetch next stops step fuel 0 (some c) s =
      .ok (some c', ps.foldl step s) := follow_eq_ok_iff.mpr ⟨ps, _, ⟨h, hends⟩, rfl, rfl⟩
  simp only [followAll, hfollow]

/-- A walk that was stopped was stopped by a page. -/
theorem Served.exists_stops {i : ℕ} {link : Option C} {ps : List P}
    (h : Served cancelled fetch next stops i link ps .stopped) : ∃ p ∈ ps, stops p = true := by
  generalize hr : Rest.stopped = r at h
  induction h with
  | rest => cases hr
  | stop _ _ hstop => exact ⟨_, List.mem_singleton_self _, hstop⟩
  | step _ _ _ _ ih =>
    obtain ⟨p, hp, hstop⟩ := ih hr
    exact ⟨p, List.mem_cons_of_mem _ hp, hstop⟩

theorem Offered.ne_nil {c : C} {ps : List P} (h : Offered fetch next c ps) : ps ≠ [] := by
  cases h <;> exact List.cons_ne_nil _ _

/-- **What a walk is served of the pages on offer**: those up to the first that makes it
stop, as far as the cap allows; a link is left over when the cap cuts them short. -/
theorem Served.eq_take {fuel i : ℕ} {c : C} {all ps : List P} {r : Rest C}
    (hall : Offered fetch next c all) (h : Served cancelled fetch next stops i (some c) ps r)
    (hends : Ends cancelled fuel i ps r) :
    ps = (through stops all).take fuel ∧
      (r.link = none ↔ (through stops all).length ≤ fuel) := by
  have hfirst : ∀ {c : C} {all : List P}, Offered fetch next c all →
      ∃ p rest, all = p :: rest ∧ (∀ i q, fetch i c = .ok q → q = p) ∧
        (rest = [] ∧ next p = none ∨ ∃ c', next p = some c' ∧ Offered fetch next c' rest) := by
    intro c all hall
    cases hall with
    | last hone hlast => exact ⟨_, [], rfl, hone, Or.inl ⟨rfl, hlast⟩⟩
    | more hone hnext hrest => exact ⟨_, _, rfl, hone, Or.inr ⟨_, hnext, hrest⟩⟩
  induction fuel generalizing i c all ps with
  | zero =>
    obtain ⟨p, rest, rfl, -, -⟩ := hfirst hall
    cases h with
    | rest => simp [through, Rest.link]
    | stop => simp [Ends] at hends
    | step => cases r <;> simp [Ends] at hends
  | succ fuel ih =>
    obtain ⟨p, rest, rfl, hone, hnext⟩ := hfirst hall
    cases h with
    | rest => cases (ends_nil_succ.mp hends).1
    | stop _ hq hstop =>
      obtain rfl := hone _ _ hq
      simp [through, hstop, Rest.link]
    | step _ hq hstop hserved =>
      obtain rfl := hone _ _ hq
      rcases hnext with ⟨rfl, hlast⟩ | ⟨c', hmore, hrest⟩
      · rw [hlast, served_none_iff] at hserved
        obtain ⟨rfl, rfl⟩ := hserved
        simp [through, hstop, Rest.link]
      · rw [hmore] at hserved
        obtain ⟨hps, hleft⟩ := ih hrest hserved (ends_cons_succ.mp hends)
        simp only [through, hstop, Bool.false_eq_true, if_false, List.take_succ_cons,
          List.length_cons, Nat.succ_le_succ_iff]
        exact ⟨by rw [hps], hleft⟩

/-- A walk along all links is served all pages on offer up to the first that makes it stop,
and there are no more of them than it may read. -/
theorem ServedAll.eq_through {fuel : ℕ} {c : C} {all ps : List P}
    (hall : Offered fetch next c all) (h : ServedAll cancelled fetch next stops fuel c ps) :
    ps = through stops all ∧ (through stops all).length ≤ fuel := by
  obtain ⟨r, ⟨hserved, hends⟩, hlink⟩ := h
  obtain ⟨rfl, hcap⟩ := hserved.eq_take hall hends
  have hlen := hcap.mp hlink
  exact ⟨List.take_of_length_le hlen, hlen⟩

/-- Where only the last page may make it stop, a walk reads every page. -/
theorem through_eq_self_of_dropLast {ps : List P} (h : ∀ p ∈ ps.dropLast, stops p = false) :
    through stops ps = ps := by
  induction ps with
  | nil => rfl
  | cons p ps ih =>
    unfold through
    cases ps with
    | nil => split_ifs <;> rfl
    | cons q ps =>
      rw [List.dropLast_cons_of_ne_nil (List.cons_ne_nil q ps)] at h
      rw [if_neg (by simp [h p List.mem_cons_self])]
      rw [ih fun r hr => h r (List.mem_cons_of_mem _ hr)]

end Paging
