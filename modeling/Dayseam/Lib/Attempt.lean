import Mathlib

/-!
# Calls that fail half way

A call works on a state and returns a value or an error.  What it wrote before the error
stays written, unless the call undoes it.  Whether a failed call leaves no trace is
therefore a question about every place where it can fail.

## Main definitions

* `Attempt` — calls, as a monad.
* `Attempt.check`, `Attempt.write`, `Attempt.orUndo` — a look at the state, a write that
  may fault, and a call that undoes what came before it.
* `Attempt.Ends` — the weakest precondition for how a call ends.
* `Attempt.Fails` — what a failed call leaves behind.
* `Attempt.Stage`, `Attempt.FailsClean` — calls as a list of stages, where none fails once
  something is changed.

## Main results

* `Attempt.ends_bind_iff` — the end of two calls in a row.
* `Attempt.fails_iff` — a failed call, in terms of its result.
* `Attempt.fails_stage_iff` — one stage of a call that is to fail without a trace.
-/

/-- A call on a state, which leaves a state whether it returns or fails. -/
def Attempt (σ ε α : Type) : Type := σ → σ × Except ε α

namespace Attempt

variable {σ ε α β : Type}

instance : Monad (Attempt σ ε) where
  pure a := fun s => (s, .ok a)
  bind c f := fun s => match c s with
    | (s, .ok a) => f a s
    | (s, .error e) => (s, .error e)

/-- Look at the state, and fail or go on. -/
def check (f : σ → Except ε α) : Attempt σ ε α := fun s => (s, f s)

/-- A write.  It writes nothing where it faults. -/
def write (fault : Option ε) (f : σ → σ) : Attempt σ ε Unit := fun s =>
  match fault with
  | some e => (s, .error e)
  | none => (f s, .ok ())

/-- A call that is undone where it fails. -/
def orUndo (c : Attempt σ ε α) (undo : σ → σ) : Attempt σ ε α := fun s =>
  match c s with
  | (s, .ok a) => (s, .ok a)
  | (s, .error e) => (undo s, .error e)

/-- The call returns a value and a state of `Q`, or fails in a state of `P`. -/
def Ends (c : Attempt σ ε α) (s : σ) (Q : α → σ → Prop) (P : σ → Prop) : Prop :=
  match c s with
  | (t, .ok a) => Q a t
  | (t, .error _) => P t

/-- Where the call fails, it leaves a state of `P`. -/
def Fails (c : Attempt σ ε α) (s : σ) (P : σ → Prop) : Prop := Ends c s (fun _ _ => True) P

variable {c : Attempt σ ε α} {f : α → Attempt σ ε β} {s : σ} {Q Q' : α → σ → Prop}
  {R : β → σ → Prop} {P P' : σ → Prop}

/-! ### How a call ends -/

theorem Ends.mono (h : Ends c s Q P) (hQ : ∀ a t, Q a t → Q' a t) (hP : ∀ t, P t → P' t) :
    Ends c s Q' P' := by
  unfold Ends at h ⊢
  rcases hc : c s with ⟨t, e | a⟩ <;> rw [hc] at h
  · exact hP t h
  · exact hQ a t h

@[simp] theorem ends_pure_iff {a : α} :
    Ends (pure a : Attempt σ ε α) s Q P ↔ Q a s := Iff.rfl

/-- **Two calls in a row**: the second begins where the first returned. -/
theorem ends_bind_iff :
    Ends (c >>= f) s R P ↔ Ends c s (fun a t => Ends (f a) t R P) P := by
  unfold Ends
  simp only [bind]
  rcases c s with ⟨t, e | a⟩ <;> rfl

theorem ends_check_of_ok {g : σ → Except ε α} {a : α} (h : g s = .ok a) :
    Ends (check g) s Q P ↔ Q a s := by
  simp only [Ends, check, h]

theorem ends_check_of_error {g : σ → Except ε α} {e : ε} (h : g s = .error e) :
    Ends (check g) s Q P ↔ P s := by
  simp only [Ends, check, h]

theorem ends_check_iff {g : σ → Except ε α} :
    Ends (check g) s Q P ↔ ((∃ e, g s = .error e) → P s) ∧ ∀ a, g s = .ok a → Q a s := by
  cases h : g s with
  | error e => simp [ends_check_of_error h]
  | ok a => simp [ends_check_of_ok h]

theorem ends_write_iff {fault : Option ε} {g : σ → σ} {Q : Unit → σ → Prop} :
    Ends (write fault g) s Q P ↔ (fault ≠ none → P s) ∧ (fault = none → Q () (g s)) := by
  cases fault with
  | none => simp [Ends, write]
  | some e => simp [Ends, write]

theorem ends_orUndo_iff {undo : σ → σ} :
    Ends (orUndo c undo) s Q P ↔ Ends c s Q fun t => P (undo t) := by
  unfold Ends orUndo
  rcases c s with ⟨t, e | a⟩ <;> rfl

/-! ### What a failed call leaves behind -/

/-- **A failed call**, in terms of its result. -/
theorem fails_iff : Fails c s P ↔ ∀ e, (c s).2 = .error e → P (c s).1 := by
  unfold Fails Ends
  rcases c s with ⟨t, e | a⟩ <;> simp

theorem fails_bind_iff : Fails (c >>= f) s P ↔ Ends c s (fun a t => Fails (f a) t P) P :=
  ends_bind_iff

theorem bind_assoc {γ : Type} {g : β → Attempt σ ε γ} :
    (c >>= f) >>= g = c >>= fun a => f a >>= g := by
  funext s
  simp only [bind]
  rcases c s with ⟨t, e | a⟩ <;> rfl

/-! ### Stages -/

/-- A stage of a call: when it fails, and when what it writes is not what is there. -/
structure Stage where
  fails : Prop
  changes : Prop

/-- The first stage that fails, if any, does so before anything is changed. -/
def FailsClean (changed : Prop) : List Stage → Prop
  | [] => True
  | stage :: rest =>
    (stage.fails → ¬changed) ∧ (¬stage.fails → FailsClean (changed ∨ stage.changes) rest)

variable {stage : Stage} {stages : List Stage} {changed : Prop} {I : σ → Prop}
  {I' : α → σ → Prop}

/-- A call does what its stage says: it fails when the stage does and leaves a state of `I`,
and returns a state of `I'` otherwise. -/
def Follows (c : Attempt σ ε α) (s : σ) (stage : Stage) (I : σ → Prop) (I' : α → σ → Prop) :
    Prop :=
  Ends c s (fun a t => ¬stage.fails ∧ I' a t) fun t => stage.fails ∧ I t

theorem Follows.mono {J : σ → Prop} {J' : α → σ → Prop} (h : Follows c s stage I I')
    (hI : ∀ t, I t → J t) (hI' : ∀ a t, I' a t → J' a t) : Follows c s stage J J' :=
  Ends.mono h (fun a t ht => ⟨ht.1, hI' a t ht.2⟩) fun t ht => ⟨ht.1, hI t ht.2⟩

theorem Follows.of_iff {stage' : Stage} (h : Follows c s stage I I')
    (hfails : stage.fails ↔ stage'.fails) : Follows c s stage' I I' :=
  Ends.mono h (fun _ _ ht => ⟨mt hfails.mpr ht.1, ht.2⟩) fun _ ht => ⟨hfails.mp ht.1, ht.2⟩

theorem follows_pure {a : α} (hfails : ¬stage.fails) (h : I' a s) :
    Follows (pure a : Attempt σ ε α) s stage I I' :=
  ⟨hfails, h⟩

/-- **One stage** of a call that is to fail without a trace: what is left says whether
anything was changed, and the rest of the call is left to the other stages. -/
theorem fails_stage_iff (h : Follows c s stage I I') (hI : ∀ t, I t → (P t ↔ ¬changed))
    (hrest : ∀ a t, I' a t → (Fails (f a) t P ↔ FailsClean (changed ∨ stage.changes) stages)) :
    Fails (c >>= f) s P ↔ FailsClean changed (stage :: stages) := by
  rw [fails_bind_iff, FailsClean]
  unfold Follows Ends at h
  unfold Ends
  rcases hc : c s with ⟨t, e | a⟩ <;> rw [hc] at h
  · -- the rest does not run
    obtain ⟨hfails, ht⟩ := h
    simp only [hI t ht, hfails, not_true_eq_false, false_imp_iff, and_true, true_imp_iff]
  · obtain ⟨hreturns, ht⟩ := h
    simp only [hrest a t ht, hreturns, not_false_eq_true, false_imp_iff, true_and, true_imp_iff]

/-- The last stage. -/
theorem fails_last_iff (h : Follows c s stage I I') (hI : ∀ t, I t → (P t ↔ ¬changed)) :
    Fails c s P ↔ FailsClean changed [stage] := by
  simp only [FailsClean, implies_true, and_true]
  unfold Follows Ends at h
  unfold Fails Ends
  rcases hc : c s with ⟨t, e | a⟩ <;> rw [hc] at h
  · simp only [hI t h.2, h.1, true_imp_iff]
  · simp only [h.1, false_imp_iff]

end Attempt
