import Mathlib

/-!
# Walks over the pages of an upstream

An upstream answers a cursor with a page, and a page may tell the cursor of the next
one.  A walk reads the pages one after another, carrying a state, until a page makes
it stop, the upstream offers no further page, or a cap is reached.

## Main definitions

* `Offers` — the pages that an upstream offers from a cursor on.
* `walk` — the walk along the cursors; it tells the cursor that was left over.
* `through` — the pages up to the first that makes a walk stop.

## Main results

* `walk_of_offers` — a walk along cursors is a walk over the offered pages.
* `walkList_ok` — what a walk that ends has read, and whether the cap cut it short.
* `exists_walkList_ok` — a walk ends where nothing fails.
* `walkList_more` — a walk over pages that never stop it.
* `foldlM_eq_ok_iff` — what reading the rows of a page makes of a state.
-/

namespace Paging

variable {ε σ C P : Type*}

/-! ### Walks along cursors -/

/-- What reading a page makes of a walk. -/
inductive Flow (σ : Type*)
  | more (s : σ)
  | done (s : σ)

def Flow.state : Flow σ → σ
  | more s => s
  | done s => s

/-- The walk stops, or goes on. -/
def Flow.of (stop : Bool) (s : σ) : Flow σ := if stop then .done s else .more s

@[simp] theorem Flow.state_of (stop : Bool) (s : σ) : (Flow.of stop s).state = s := by
  cases stop <;> rfl

theorem Flow.of_eq_done {stop : Bool} {s : σ} : Flow.of stop s = .done s ↔ stop = true := by
  cases stop <;> simp [Flow.of]

/-- The pages from a cursor on. -/
inductive Offers (page : C → P) (next : C → P → Option C) : C → List P → Prop
  | last {c : C} : next c (page c) = none → Offers page next c [page c]
  | step {c c' : C} {ps : List P} :
      next c (page c) = some c' → Offers page next c' ps → Offers page next c (page c :: ps)

section Walk

variable (fails : ℕ → Option ε) (page : C → P) (next : C → P → Option C)
  (read : σ → P → Except ε (Flow σ))

/-- Read at most `fuel` pages from the cursor on, where the request of number `i` fails
with `fails i`.  A cursor is left over when the cap is reached. -/
def walk : ℕ → ℕ → C → σ → Except ε (σ × Option C)
  | 0, _, c, s => .ok (s, some c)
  | fuel + 1, i, c, s =>
    match fails i with
    | some err => .error err
    | none =>
      match read s (page c) with
      | .error err => .error err
      | .ok (.done s') => .ok (s', none)
      | .ok (.more s') =>
        match next c (page c) with
        | none => .ok (s', none)
        | some c' => walk fuel (i + 1) c' s'

/-- The same over a list of pages. -/
def walkList : ℕ → ℕ → List P → σ → Except ε (σ × Bool)
  | _, _, [], s => .ok (s, false)
  | 0, _, _ :: _, s => .ok (s, true)
  | fuel + 1, i, p :: ps, s =>
    match fails i with
    | some err => .error err
    | none =>
      match read s p with
      | .error err => .error err
      | .ok (.done s') => .ok (s', false)
      | .ok (.more s') => walkList fuel (i + 1) ps s'

end Walk

theorem exists_of_map_eq_ok {α β : Type*} {f : α → β} {x : Except ε α} {b : β}
    (h : x.map f = .ok b) : ∃ a, x = .ok a ∧ f a = b := by
  cases x with
  | error err => exact nomatch h
  | ok a => exact ⟨a, rfl, Except.ok.inj h⟩

theorem exists_of_bind_eq_ok {ε α β : Type} {f : α → Except ε β} {x : Except ε α} {b : β}
    (h : (x >>= f) = .ok b) : ∃ a, x = .ok a ∧ f a = .ok b := by
  cases x with
  | error err => exact nomatch h
  | ok a => exact ⟨a, rfl, h⟩

variable {fails : ℕ → Option ε} {page : C → P} {next : C → P → Option C}
  {read : σ → P → Except ε (Flow σ)}

theorem walkList_nil (fuel i : ℕ) (s : σ) : walkList fails read fuel i [] s = .ok (s, false) := by
  cases fuel <;> rfl

theorem Offers.ne_nil {c : C} {ps : List P} (h : Offers page next c ps) : ps ≠ [] := by
  cases h <;> exact List.cons_ne_nil _ _

/-- A walk along cursors is a walk over the offered pages. -/
theorem walk_of_offers {c : C} {ps : List P} (h : Offers page next c ps) (fuel i : ℕ) (s : σ) :
    (walk fails page next read fuel i c s).map (fun r => (r.1, r.2.isSome)) =
      walkList fails read fuel i ps s := by
  induction h generalizing fuel i s with
  | last hnext =>
    cases fuel with
    | zero => rfl
    | succ fuel =>
      unfold walk walkList
      cases fails i with
      | some err => rfl
      | none =>
        cases read s (page _) with
        | error err => rfl
        | ok flow =>
          cases flow with
          | done s' => rfl
          | more s' =>
            simp only [hnext, walkList_nil]
            rfl
  | step hnext _ ih =>
    cases fuel with
    | zero => rfl
    | succ fuel =>
      unfold walk walkList
      cases fails i with
      | some err => rfl
      | none =>
        cases read s (page _) with
        | error err => rfl
        | ok flow =>
          cases flow with
          | done s' => rfl
          | more s' =>
            simp only [hnext]
            exact ih fuel (i + 1) s'

/-- Numbered pages, of which those after the last are blank, are the pages with one
blank page at their end, where a blank page makes the walk stop. -/
theorem walk_numbered {blank : P} (hblank : ∀ s, read s blank = .ok (.done s)) (ps : List P)
    (fuel i k : ℕ) (s : σ) :
    (walk fails (fun k => ps.getD k blank) (fun k _ => some (k + 1)) read fuel i k s).map
        (fun r => (r.1, r.2.isSome)) =
      walkList fails read fuel i (ps.drop k ++ [blank]) s := by
  induction fuel generalizing i k s with
  | zero =>
    unfold walk
    cases ps.drop k <;> rfl
  | succ fuel ih =>
    unfold walk
    rcases Nat.lt_or_ge k ps.length with hk | hk
    · rw [List.drop_eq_getElem_cons hk, List.cons_append, walkList, List.getD_eq_getElem _ _ hk]
      cases fails i with
      | some err => rfl
      | none =>
        cases read s ps[k] with
        | error err => rfl
        | ok flow =>
          cases flow with
          | done s' => rfl
          | more s' => exact ih (i + 1) (k + 1) s'
    · rw [List.drop_eq_nil_of_le hk, List.nil_append, walkList, List.getD_eq_default _ _ hk, hblank]
      cases fails i <;> rfl

/-! ### What a walk has read -/

/-- The pages up to the first that makes a walk stop, with that page. -/
def through (stops : P → Bool) : List P → List P
  | [] => []
  | p :: ps => p :: if stops p then [] else through stops ps

variable {stops : P → Bool} {ps : List P}

theorem through_isPrefix (stops : P → Bool) (ps : List P) : through stops ps <+: ps := by
  induction ps with
  | nil => exact List.prefix_rfl
  | cons p ps ih =>
    unfold through
    split
    · exact List.prefix_iff_eq_append.mpr rfl
    · exact (List.prefix_cons_inj p).mpr ih

theorem through_eq_self (h : ∀ p ∈ ps, stops p = false) : through stops ps = ps := by
  induction ps with
  | nil => rfl
  | cons p ps ih =>
    unfold through
    rw [if_neg (by simp [h p List.mem_cons_self]), ih fun q hq => h q (List.mem_cons_of_mem _ hq)]

theorem flatten_through_subset {α : Type*} {stops : List α → Bool} {ps : List (List α)} {x : α}
    (h : x ∈ (through stops ps).flatten) : x ∈ ps.flatten :=
  ((through_isPrefix stops ps).sublist.flatten).subset h

/-- A blank page at the end holds nothing. -/
theorem flatten_take_through_blank {α : Type*} (stops : List α → Bool) (ps : List (List α))
    (n : ℕ) : ((through stops (ps ++ [[]])).take n).flatten =
      ((through stops ps).take n).flatten := by
  induction ps generalizing n with
  | nil => cases n <;> simp [through]
  | cons p ps ih =>
    cases n with
    | zero => rfl
    | succ n =>
      rw [List.cons_append, through, through, List.take_succ_cons, List.take_succ_cons]
      split_ifs
      · rfl
      · rw [List.flatten_cons, List.flatten_cons, ih]

/-- No page is past the cap when one below it stops the walk. -/
theorem length_through_le {n : ℕ} (h : ps.length ≤ n ∨ ∃ p ∈ ps.take n, stops p = true) :
    (through stops ps).length ≤ n := by
  rcases h with h | ⟨p, hp, hstop⟩
  · exact Nat.le_trans (through_isPrefix stops ps).length_le h
  · induction ps generalizing n with
    | nil => exact Nat.zero_le _
    | cons q ps ih =>
      cases n with
      | zero => exact absurd hp (by simp)
      | succ n =>
        unfold through
        split_ifs with hq
        · simp
        · rcases List.mem_cons.mp hp with rfl | hp
          · exact absurd hstop hq
          · exact Nat.succ_le_succ (ih hp)

/-- A page that ends a walk for what comes after it need not be looked for. -/
theorem exists_through_or_iff {α : Type*} {R : α → Prop} {ends floor : List α → Bool}
    {ps : List (List α)}
    (hfloor : ∀ pre p post, ps = pre ++ p :: post → floor p = true → ∀ x ∈ post.flatten, ¬R x) :
    (∃ x ∈ (through (fun p => ends p || floor p) ps).flatten, R x) ↔
      ∃ x ∈ (through ends ps).flatten, R x := by
  induction ps with
  | nil => exact Iff.rfl
  | cons p ps ih =>
    have hrest := ih fun pre q post hps => hfloor (p :: pre) q post (by rw [hps, List.cons_append])
    unfold through
    by_cases he : ends p = true
    · simp [he]
    · by_cases hf : floor p = true
      · have hno : ∀ x ∈ (through ends ps).flatten, ¬R x := fun x hx =>
          hfloor [] p ps rfl hf x (flatten_through_subset hx)
        simp only [he, hf, Bool.or_true, if_true, Bool.false_eq_true, if_false,
          List.flatten_cons, List.flatten_nil, List.append_nil, List.mem_append]
        constructor
        · rintro ⟨x, hx, hR⟩
          exact ⟨x, Or.inl hx, hR⟩
        · rintro ⟨x, hx, hR⟩
          exact ⟨x, hx.resolve_right fun hx => hno x hx hR, hR⟩
      · simp only [he, hf, Bool.or_false, Bool.false_eq_true, if_false, List.flatten_cons,
          List.mem_append, or_and_right, exists_or, hrest]

/-- Whether a page stops a walk, whatever the state. -/
def Stops (read : σ → P → Except ε (Flow σ)) (stops : P → Bool) : Prop :=
  ∀ s p flow, read s p = .ok flow → flow = .of (stops p) flow.state

/-- **What a walk that ends has read**: the pages up to the first stop, as far as the
cap allows.  An invariant that the reading of a page keeps holds of the final state. -/
theorem walkList_ok {I : List P → σ → Prop} (hstops : Stops read stops)
    (hread : ∀ seen s p flow, I seen s → read s p = .ok flow → I (seen ++ [p]) flow.state)
    {fuel i : ℕ} {seen : List P} {s s' : σ} {left : Bool} (h0 : I seen s)
    (h : walkList fails read fuel i ps s = .ok (s', left)) :
    I (seen ++ (through stops ps).take fuel) s' ∧
      left = decide (fuel < (through stops ps).length) := by
  induction ps generalizing fuel i seen s with
  | nil =>
    rw [walkList_nil] at h
    obtain ⟨rfl, rfl⟩ := Prod.mk.inj (Except.ok.inj h)
    simpa [through] using h0
  | cons p ps ih =>
    cases fuel with
    | zero =>
      obtain ⟨rfl, rfl⟩ := Prod.mk.inj (Except.ok.inj h)
      simpa [through] using h0
    | succ fuel =>
      unfold walkList at h
      cases hf : fails i with
      | some err => rw [hf] at h; exact nomatch h
      | none =>
        cases hr : read s p with
        | error err => rw [hf, hr] at h; exact nomatch h
        | ok flow =>
          have hkeep := hread seen s p flow h0 hr
          have hstop := hstops s p flow hr
          rw [hf, hr] at h
          cases hp : stops p with
          | true =>
            rw [hp] at hstop
            rw [hstop] at h
            obtain ⟨rfl, rfl⟩ := Prod.mk.inj (Except.ok.inj h)
            simpa [through, hp] using hkeep
          | false =>
            rw [hp] at hstop
            rw [hstop] at h
            have hrest := ih hkeep h
            simpa [through, hp, List.append_assoc] using hrest

/-- The same for a whole walk. -/
theorem walkList_ok_nil {I : List P → σ → Prop} (hstops : Stops read stops)
    (hread : ∀ seen s p flow, I seen s → read s p = .ok flow → I (seen ++ [p]) flow.state)
    {fuel i : ℕ} {s s' : σ} {left : Bool} (h0 : I [] s)
    (h : walkList fails read fuel i ps s = .ok (s', left)) :
    I ((through stops ps).take fuel) s' ∧ left = decide (fuel < (through stops ps).length) :=
  walkList_ok hstops hread h0 h

/-- A walk ends where no request fails and every page can be read. -/
theorem exists_walkList_ok {fuel i : ℕ} {s : σ} (hfails : ∀ i, fails i = none)
    (hread : ∀ s, ∀ p ∈ ps.take fuel, ∃ flow, read s p = .ok flow) :
    ∃ s' left, walkList fails read fuel i ps s = .ok (s', left) := by
  induction ps generalizing fuel i s with
  | nil => exact ⟨s, false, walkList_nil _ _ _⟩
  | cons p ps ih =>
    cases fuel with
    | zero => exact ⟨s, true, rfl⟩
    | succ fuel =>
      unfold walkList
      obtain ⟨flow, hflow⟩ := hread s p (by simp)
      rw [hfails, hflow]
      cases flow with
      | done s' => exact ⟨s', false, rfl⟩
      | more s' => exact ih fun s q hq => hread s q (by simp [hq])

/-! ### Walks that read on -/

/-- A walk that ends is one in which no request fails. -/
theorem walkList_eq_of_ok {fuel i : ℕ} {s : σ} {r : σ × Bool}
    (h : walkList fails read fuel i ps s = .ok r) :
    walkList (fun _ => none) read fuel i ps s = .ok r := by
  induction ps generalizing fuel i s with
  | nil => rw [walkList_nil] at h ⊢; exact h
  | cons p ps ih =>
    cases fuel with
    | zero => exact h
    | succ fuel =>
      unfold walkList at h ⊢
      cases hf : fails i with
      | some err => rw [hf] at h; exact nomatch h
      | none =>
        rw [hf] at h
        dsimp only at h ⊢
        cases hr : read s p with
        | error err => rw [hr] at h; exact nomatch h
        | ok flow =>
          rw [hr] at h
          cases flow with
          | done s' => exact h
          | more s' => exact ih h

/-- Where no page stops the walk and no request fails, the pages up to the cap are read. -/
theorem walkList_more {step : σ → P → Except ε σ}
    (hread : ∀ s p, read s p = (step s p).map Flow.more) (fuel i : ℕ) (s : σ) :
    walkList (fun _ => none) read fuel i ps s =
      ((ps.take fuel).foldlM step s).map fun s' => (s', decide (fuel < ps.length)) := by
  induction ps generalizing fuel i s with
  | nil =>
    rw [walkList_nil, List.take_nil]
    rfl
  | cons p ps ih =>
    cases fuel with
    | zero => rfl
    | succ fuel =>
      unfold walkList
      rw [hread, List.take_succ_cons, List.foldlM_cons]
      cases step s p with
      | error err => rfl
      | ok s' =>
        refine (ih fuel (i + 1) s').trans ?_
        simp only [List.length_cons, Nat.add_lt_add_iff_right]
        rfl

/-! ### Reading what is on a page -/

section Rows

variable {α β : Type*} {R : α → β → Prop} {xs : List α}

/-- Rows that each have an outcome have a list of outcomes. -/
theorem exists_forall₂_iff : (∃ ys, List.Forall₂ R xs ys) ↔ ∀ x ∈ xs, ∃ y, R x y := by
  induction xs with
  | nil => exact ⟨fun _ _ hx => absurd hx List.not_mem_nil, fun _ => ⟨[], .nil⟩⟩
  | cons x xs ih =>
    rw [List.forall_mem_cons, ← ih]
    constructor
    · rintro ⟨ys, h⟩
      cases h with
      | cons hxy hrest => exact ⟨⟨_, hxy⟩, _, hrest⟩
    · rintro ⟨⟨y, hxy⟩, ys, hrest⟩
      exact ⟨y :: ys, .cons hxy hrest⟩

/-- What reading row after row makes of a state, when each row makes one step. -/
theorem foldlM_eq_ok_iff {step : σ → β → σ} {f : σ → α → Except ε σ}
    (hf : ∀ s x s', f s x = .ok s' ↔ ∃ y, R x y ∧ step s y = s') {s s' : σ} :
    xs.foldlM f s = .ok s' ↔ ∃ ys, List.Forall₂ R xs ys ∧ ys.foldl step s = s' := by
  induction xs generalizing s with
  | nil =>
    constructor
    · intro h
      exact ⟨[], .nil, Except.ok.inj h⟩
    · rintro ⟨ys, hys, rfl⟩
      cases hys
      rfl
  | cons x xs ih =>
    rw [List.foldlM_cons]
    constructor
    · intro h
      cases hx : f s x with
      | error err => rw [hx] at h; exact nomatch h
      | ok s₁ =>
        rw [hx] at h
        obtain ⟨y, hxy, rfl⟩ := (hf s x s₁).mp hx
        obtain ⟨ys, hys, rfl⟩ := ih.mp h
        exact ⟨y :: ys, .cons hxy hys, rfl⟩
    · rintro ⟨ys, hys, rfl⟩
      cases hys with
      | cons hxy hrest =>
        rw [(hf s x _).mpr ⟨_, hxy, rfl⟩]
        exact ih.mpr ⟨_, hrest, rfl⟩

end Rows

end Paging
