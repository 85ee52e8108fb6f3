import Dayseam.Lib.Machine
import Mathlib

/-!
# Locks by a sentinel file

A writer holds a lock while a sentinel exists that it has created, and the creation fails
where there is one already.  A writer that dies leaves its sentinel behind; a sweep removes
a sentinel that has reached some age, whoever created it.  A release removes the sentinel
that is there.  Under the lock a writer reads a shared content, composes a new one out of
what it has read, and puts it in place.

## Main definitions

* `State`, `Action`, `step`, `machine` — writers, their lock and the shared content.
* `Guarded` — every writer that believes itself in possession of the lock is.
* `Spares` — the steps that are no sweep of a living writer's sentinel.

## Main results

* `throughout_guarded_iff` — **the exact condition under which the lock guards a run.**
* `inv_of_reach` — the content is what the writes make of it one after another.
* `overtaken` — what a sweep of a living writer's sentinel may lead to.
-/

namespace SentinelLock

variable {ι C B : Type*}

/-- How far a writer is. -/
inductive Phase (C : Type*)
  | idle
  | locked
  | read (c : C)

/-- The sentinel; the file itself does not tell who created it. -/
structure Sentinel (ι : Type*) where
  owner : ι
  created : ℕ

structure State (ι C B : Type*) where
  clock : ℕ
  sentinel : Option (Sentinel ι)
  phase : ι → Phase C
  content : C
  /-- The writes that were put in place, in their order. -/
  committed : List B

/-- The clock may be set to any time. -/
inductive Action (ι B : Type*)
  | clock (t : ℕ)
  | acquire (i : ι)
  | read (i : ι)
  | commit (i : ι) (b : B)
  | release (i : ι)
  | crash (i : ι)
  | sweep

namespace State

variable [DecidableEq ι] (s : State ι C B)

def setPhase (i : ι) (p : Phase C) : State ι C B :=
  { s with phase := Function.update s.phase i p }

/-- The writer believes that it holds the lock. -/
def Live (i : ι) : Prop := s.phase i ≠ .idle

/-- A state in which nobody writes. -/
def Quiet : Prop := ∀ i, s.phase i = .idle

@[simp] theorem setPhase_sentinel (i : ι) (p : Phase C) : (s.setPhase i p).sentinel = s.sentinel :=
  rfl

@[simp] theorem setPhase_content (i : ι) (p : Phase C) : (s.setPhase i p).content = s.content := rfl

@[simp] theorem setPhase_committed (i : ι) (p : Phase C) :
    (s.setPhase i p).committed = s.committed := rfl

@[simp] theorem setPhase_clock (i : ι) (p : Phase C) : (s.setPhase i p).clock = s.clock := rfl

@[simp] theorem setPhase_phase_self (i : ι) (p : Phase C) : (s.setPhase i p).phase i = p :=
  Function.update_self ..

theorem setPhase_phase_of_ne {i j : ι} (h : j ≠ i) (p : Phase C) :
    (s.setPhase i p).phase j = s.phase j := Function.update_of_ne h _ _

end State

section Step

variable [DecidableEq ι] (compose : C → B → Option C) (staleAge : ℕ)

/-- A step; an action that is not possible changes nothing. -/
def step (s : State ι C B) : Action ι B → State ι C B
  | .clock t => { s with clock := t }
  | .acquire i =>
    match s.phase i, s.sentinel with
    | .idle, none => { s.setPhase i .locked with sentinel := some ⟨i, s.clock⟩ }
    | _, _ => s
  | .read i =>
    match s.phase i with
    | .locked => s.setPhase i (.read s.content)
    | _ => s
  | .commit i b =>
    match s.phase i with
    | .read c =>
      match compose c b with
      | some c' => { s.setPhase i .locked with content := c', committed := s.committed ++ [b] }
      | none => s
    | _ => s
  | .release i =>
    match s.phase i with
    | .idle => s
    | _ => { s.setPhase i .idle with sentinel := none }
  | .crash i => s.setPhase i .idle
  | .sweep =>
    match s.sentinel with
    | some x => if staleAge ≤ s.clock - x.created then { s with sentinel := none } else s
    | none => s

def machine (init : State ι C B) : Machine (State ι C B) (Action ι B) where
  init := init
  step s a := some (step compose staleAge s a)

/-- No sentinel of a living writer is swept. -/
def Spares (s : State ι C B) : Action ι B → Prop
  | .sweep => ∀ x ∈ s.sentinel, staleAge ≤ s.clock - x.created → ¬s.Live x.owner
  | _ => True

end Step

/-- Every writer that believes itself in possession of the lock is. -/
def Guarded (s : State ι C B) : Prop := ∀ i, s.Live i → ∃ x ∈ s.sentinel, x.owner = i

/-- The lock has one holder at most. -/
theorem Guarded.exclusive {s : State ι C B} (h : Guarded s) {i j : ι} (hi : s.Live i)
    (hj : s.Live j) : i = j := by
  obtain ⟨x, hx, rfl⟩ := h i hi
  obtain ⟨y, hy, rfl⟩ := h j hj
  rw [Option.mem_unique hx hy]

theorem State.Quiet.guarded {s : State ι C B} (h : s.Quiet) : Guarded s :=
  fun i hi => absurd (h i) hi

variable [DecidableEq ι] {compose : C → B → Option C} {staleAge : ℕ} {s s' : State ι C B}

/-! ### What a step does -/

/-- What a step does, with what it needs. -/
inductive Does (compose : C → B → Option C) (staleAge : ℕ) (s : State ι C B) :
    Action ι B → State ι C B → Prop
  | clock (t : ℕ) : Does compose staleAge s (.clock t) { s with clock := t }
  | acquire {i : ι} : s.phase i = .idle → s.sentinel = none →
      Does compose staleAge s (.acquire i)
        { s.setPhase i .locked with sentinel := some ⟨i, s.clock⟩ }
  | read {i : ι} : s.phase i = .locked →
      Does compose staleAge s (.read i) (s.setPhase i (.read s.content))
  | commit {i : ι} {b : B} {c c' : C} : s.phase i = .read c → compose c b = some c' →
      Does compose staleAge s (.commit i b)
        { s.setPhase i .locked with content := c', committed := s.committed ++ [b] }
  | release {i : ι} : s.Live i →
      Does compose staleAge s (.release i) { s.setPhase i .idle with sentinel := none }
  | crash (i : ι) : Does compose staleAge s (.crash i) (s.setPhase i .idle)
  | sweep {x : Sentinel ι} : s.sentinel = some x → staleAge ≤ s.clock - x.created →
      Does compose staleAge s .sweep { s with sentinel := none }
  /-- An action that is not possible, such as to take a lock that is taken. -/
  | nothing {a : Action ι B} :
      (a = .sweep → ∀ x ∈ s.sentinel, ¬staleAge ≤ s.clock - x.created) →
      Does compose staleAge s a s

theorem does_step (s : State ι C B) (a : Action ι B) :
    Does compose staleAge s a (step compose staleAge s a) := by
  cases a with
  | clock t => exact .clock t
  | acquire i =>
    cases hi : s.phase i <;> cases hx : s.sentinel <;> simp only [step, hi, hx]
    · exact .acquire hi hx
    all_goals exact .nothing (by simp)
  | read i =>
    cases hi : s.phase i <;> simp only [step, hi]
    · exact .nothing (by simp)
    · exact .read hi
    · exact .nothing (by simp)
  | commit i b =>
    cases hi : s.phase i with
    | idle | locked =>
      simp only [step, hi]
      exact .nothing (by simp)
    | read c =>
      cases hc : compose c b <;> simp only [step, hi, hc]
      · exact .nothing (by simp)
      · exact .commit hi hc
  | release i =>
    cases hi : s.phase i <;> simp only [step, hi]
    · exact .nothing (by simp)
    · exact .release (by simp [State.Live, hi])
    · exact .release (by simp [State.Live, hi])
  | crash i => exact .crash i
  | sweep =>
    cases hx : s.sentinel with
    | none =>
      simp only [step, hx]
      exact .nothing (by simp [hx])
    | some x =>
      by_cases hstale : staleAge ≤ s.clock - x.created
      · simp only [step, hx, if_pos hstale]
        exact .sweep hx hstale
      · simp only [step, hx, if_neg hstale]
        exact .nothing (by simpa [hx] using hstale)

/-! ### When the lock guards -/

/-- Moving one writer keeps the guard, when the writer had the lock or is idle then. -/
theorem Guarded.setPhase (h : Guarded s) {i : ι} {p : Phase C} (hi : s.Live i ∨ p = .idle) :
    Guarded (s.setPhase i p) := by
  intro j hj
  by_cases hji : j = i
  · subst hji
    rcases hi with hi | rfl
    · exact h j hi
    · exact absurd (s.setPhase_phase_self j _) hj
  · exact h j fun hidle => hj ((s.setPhase_phase_of_ne hji p).trans hidle)

/-- **A step keeps the lock's guard just when it spares the living.** -/
theorem guarded_step_iff (h : Guarded s) (a : Action ι B) :
    Guarded (step compose staleAge s a) ↔ Spares staleAge s a := by
  have hdoes := @does_step _ _ _ _ compose staleAge s a
  generalize step compose staleAge s a = t at hdoes
  cases hdoes with
  | clock t => exact iff_of_true h trivial
  | @acquire i hi hfree =>
    refine iff_of_true ?_ trivial
    intro j hj
    by_cases hji : j = i
    · exact ⟨_, rfl, hji.symm⟩
    · -- without a sentinel nobody lives, so the newcomer is alone
      have hlive : s.Live j := fun hidle => hj ((s.setPhase_phase_of_ne hji _).trans hidle)
      obtain ⟨x, hx, -⟩ := h j hlive
      rw [hfree] at hx
      cases hx
  | read hi => exact iff_of_true (h.setPhase (Or.inl (by simp [State.Live, hi]))) trivial
  | @commit i b c c' hi hc =>
    have hguard : Guarded (s.setPhase i .locked) := h.setPhase (Or.inl (by simp [State.Live, hi]))
    exact iff_of_true hguard trivial
  | @release i hi =>
    refine iff_of_true ?_ trivial
    intro j hj
    -- the one who lives is the one who releases
    by_cases hji : j = i
    · subst hji
      exact absurd (s.setPhase_phase_self j _) hj
    · have hlive : s.Live j := fun hidle => hj ((s.setPhase_phase_of_ne hji _).trans hidle)
      exact absurd (h.exclusive hlive hi) hji
  | crash i => exact iff_of_true (h.setPhase (Or.inr rfl)) trivial
  | @sweep x hx hstale =>
    constructor
    · intro hguard y hy _ hlive
      obtain ⟨z, hz, -⟩ := hguard y.owner hlive
      cases hz
    · intro hspares i hi
      obtain ⟨y, hy, rfl⟩ := h i hi
      have hyx : y = x := Option.mem_unique hy hx
      subst hyx
      exact absurd hi (hspares y hy hstale)
  | nothing hno =>
    refine iff_of_true h ?_
    cases a with
    | sweep => exact fun x hx hstale => absurd hstale (hno rfl x hx)
    | clock t | acquire i | read i | commit i b | release i | crash i => trivial

/-- **The lock guards a run just when none of its sweeps removes a sentinel of a living
writer.** -/
theorem throughout_guarded_iff {init : State ι C B} (h : Guarded s) {as : List (Action ι B)} :
    (machine compose staleAge init).Throughout Guarded s as ↔
      (machine compose staleAge init).Allowed (Spares staleAge) s as := by
  refine Machine.throughout_iff_allowed (fun s a => ⟨_, rfl⟩) ?_ h
  intro s a s' hs hstep
  obtain rfl := Option.some.inj hstep
  exact guarded_step_iff hs a

/-! ### One write after another -/

/-- What holds while the lock guards. -/
structure Inv (compose : C → B → Option C) (start : C) (s : State ι C B) : Prop where
  guarded : Guarded s
  /-- What a writer has read is still there. -/
  fresh : ∀ i c, s.phase i = .read c → c = s.content
  serial : s.committed.foldlM compose start = some s.content

omit [DecidableEq ι] in
/-- Where the content stays, a writer may only come to have read that. -/
theorem Inv.keep {start : C} (h : Inv compose start s) (hguard : Guarded s')
    (hcontent : s'.content = s.content) (hcommitted : s'.committed = s.committed)
    (hread : ∀ j c, s'.phase j = .read c → s.phase j = .read c ∨ c = s.content) :
    Inv compose start s' where
  guarded := hguard
  fresh j c hj := by
    rw [hcontent]
    exact (hread j c hj).elim (h.fresh j c) id
  serial := by
    rw [hcontent, hcommitted]
    exact h.serial

theorem read_of_setPhase {i j : ι} {p : Phase C} {c : C} (hp : p = .read c → c = s.content)
    (hj : (s.setPhase i p).phase j = .read c) : s.phase j = .read c ∨ c = s.content := by
  by_cases hji : j = i
  · subst hji
    rw [s.setPhase_phase_self] at hj
    exact Or.inr (hp hj)
  · rw [s.setPhase_phase_of_ne hji] at hj
    exact Or.inl hj

theorem inv_step {start : C} (h : Inv compose start s) {a : Action ι B}
    (ha : Spares staleAge s a) : Inv compose start (step compose staleAge s a) := by
  have hguard : Guarded (step compose staleAge s a) := (guarded_step_iff h.guarded a).mpr ha
  have hdoes := @does_step _ _ _ _ compose staleAge s a
  generalize step compose staleAge s a = t at hdoes hguard
  cases hdoes with
  | clock t => exact h.keep hguard rfl rfl fun j c hj => Or.inl hj
  | acquire => exact h.keep hguard rfl rfl fun j c hj => read_of_setPhase (by simp) hj
  | read =>
    refine h.keep hguard rfl rfl fun j c hj => read_of_setPhase (fun hc => ?_) hj
    cases hc
    rfl
  | @commit i b c c' hi hc =>
    refine ⟨hguard, fun j d hj => ?_, ?_⟩
    · -- no other writer has read anything: the lock has one holder
      exfalso
      by_cases hji : j = i
      · subst hji
        cases (s.setPhase_phase_self j .locked).symm.trans hj
      · have hj' : s.phase j = .read d := (s.setPhase_phase_of_ne hji _).symm.trans hj
        exact hji (h.guarded.exclusive (by simp [State.Live, hj']) (by simp [State.Live, hi]))
    · have hread := h.fresh i c hi
      show (s.committed ++ [b]).foldlM compose start = some c'
      rw [List.foldlM_append, h.serial, ← hread]
      simpa using hc
  | release => exact h.keep hguard rfl rfl fun j c hj => read_of_setPhase (by simp) hj
  | crash => exact h.keep hguard rfl rfl fun j c hj => read_of_setPhase (by simp) hj
  | sweep => exact h.keep hguard rfl rfl fun j c hj => Or.inl hj
  | nothing => exact h

/-- **Under the lock the writes are made one after another**: in a run that spares the living,
the content is what the committed writes make of it in their order. -/
theorem inv_of_reach {init : State ι C B} (hquiet : init.Quiet) (hnone : init.committed = [])
    (h : (machine compose staleAge init).Reach (Spares staleAge) s) :
    Inv compose init.content s := by
  refine h.invariant ⟨hquiet.guarded, fun i c hi => ?_, by rw [show
    (machine compose staleAge init).init.committed = [] from hnone]; rfl⟩ ?_
  · rw [show (machine compose staleAge init).init.phase i = _ from hquiet i] at hi
    cases hi
  · intro s a s' _ hs ha hstep
    obtain rfl := Option.some.inj hstep
    exact inv_step hs ha

/-! ### A sweep that does not spare the living -/

/-- **A write may be lost once a sweep removes a living writer's sentinel**: another writer
takes the lock and puts its write in place, and the first one puts its own over it. -/
theorem overtaken {i j : ι} {x : Sentinel ι} {c c' d : C} {b b' : B} (hji : j ≠ i)
    (hx : s.sentinel = some x) (hstale : staleAge ≤ s.clock - x.created)
    (hi : s.phase i = .read c) (hj : s.phase j = .idle) (hb : compose s.content b = some d)
    (hb' : compose c b' = some c') {init : State ι C B} :
    ∃ s', (machine compose staleAge init).exec s
        [.sweep, .acquire j, .read j, .commit j b, .commit i b'] = some s' ∧
      s'.content = c' ∧ s'.committed = s.committed ++ [b] ++ [b'] := by
  refine ⟨_, rfl, ?_⟩
  -- the four steps of the second writer, and the last of the first
  simp [step, State.setPhase, hx, hstale, hi, hj, hb, hb', hji.symm]

end SentinelLock
