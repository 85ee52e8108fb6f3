import Dayseam.Lib.Machine
import Dayseam.Schedule.Planner
import Mathlib

/-!
# The registry of the live runs

`report_generate` spawns the tasks of a run and a reaper that waits for them, and then
writes the run into a registry.  The reaper takes it out again when the tasks have ended.
The two go for the lock of the registry on their own.

## Main definitions

* `RunRegistry` — the entries, and what `insert` and `remove` do with them.
* `Runs.State`, `Runs.step` — the calls of `report_generate` and `report_cancel`, the
  tasks and the reapers.
* `Runs.Accounted` — the entries are those of the live runs.
* `Runs.InsertsFirst` — a run is written before its reaper is done.

## Main results

* `Runs.accounted_iff` — **when the registry does not leak.**
* `Runs.leaked_defers` — an entry that is left over stops the schedule.
-/

namespace Dayseam

/-! ### The registry -/

/-- A token that is shared by its clones, by the number it was made under. -/
abbrev CancellationToken := ℕ

structure RunHandle (R : Type) where
  runId : R
  cancel : CancellationToken
  deriving DecidableEq, Repr

/-- The entries; the order of a hash map is not looked at. -/
abbrev RunRegistry (R : Type) := List (RunHandle R)

namespace RunRegistry

variable {R : Type} [DecidableEq R] (registry : RunRegistry R)

def get (runId : R) : Option (RunHandle R) := registry.find? (·.runId = runId)

def remove (runId : R) : RunRegistry R := registry.filter (·.runId ≠ runId)

def insert (handle : RunHandle R) : RunRegistry R := handle :: registry.remove handle.runId

variable {registry} {r q : R} {handle : RunHandle R}

theorem get_remove : (registry.remove r).get r = none := by
  refine List.find?_eq_none.mpr fun handle hhandle => ?_
  have hne := (List.mem_filter.mp hhandle).2
  simpa using hne

theorem get_remove_of_ne (h : q ≠ r) : (registry.remove r).get q = registry.get q := by
  unfold get remove
  rw [← List.head?_filter, ← List.head?_filter, List.filter_filter]
  refine congrArg List.head? (List.filter_congr fun handle _ => ?_)
  by_cases hq : handle.runId = q
  · simp [hq, h]
  · simp [hq]

@[simp] theorem get_insert : (registry.insert handle).get handle.runId = some handle := by
  simp [get, insert]

theorem get_insert_of_ne (h : q ≠ handle.runId) :
    (registry.insert handle).get q = registry.get q := by
  have hne : handle.runId ≠ q := h.symm
  have hrest : (registry.insert handle).get q = (registry.remove handle.runId).get q := by
    simp [get, insert, hne]
  exact hrest.trans (get_remove_of_ne h)

theorem ne_nil_of_get (h : registry.get r = some handle) : registry ≠ [] := by
  rintro rfl
  exact nomatch h

end RunRegistry

/-! ### Calls, tasks and reapers -/

namespace Runs

/-- The tasks that `report_generate` spawns for a run. -/
inductive RunTask
  | progress
  | log
  | completion
  deriving DecidableEq, Repr

/-- A run: its token, the tasks that have not ended, those that the reaper has still to await,
whether the reaper is done, and whether the call has returned the run id. -/
structure Run where
  cancel : CancellationToken
  running : List RunTask
  awaited : List RunTask
  reaped : Bool
  returned : Bool
  deriving DecidableEq, Repr

structure State (R : Type) where
  runs : R → Option Run
  registry : RunRegistry R
  cancelled : List CancellationToken
  tokens : ℕ

inductive Action (R : Type)
  /-- `report_generate` has spawned the tasks of a run and its reaper -/
  | spawn (r : R)
  /-- `report_generate` has the lock, writes the run and returns -/
  | insert (r : R)
  /-- a task ends, or panics -/
  | finish (r : R) (task : RunTask)
  /-- the reaper is told that a task has ended -/
  | join (r : R)
  /-- the reaper has the lock, removes the run and is done -/
  | reap (r : R)
  /-- `report_cancel`; the orchestrator has the run in flight or not -/
  | cancel (r : R) (inFlight : Bool)
  deriving DecidableEq, Repr

variable {R : Type} [DecidableEq R]

def spawned (token : CancellationToken) : Run :=
  ⟨token, [.progress, .log, .completion], [.progress, .log, .completion], false, false⟩

namespace Run

variable (run : Run)

def finish (task : RunTask) : Run := { run with running := run.running.erase task }

/-- The reaper awaits the tasks one after the other. -/
def join : Run :=
  match run.awaited with
  | task :: rest => if task ∈ run.running then run else { run with awaited := rest }
  | [] => run

/-- The reaper goes for the lock. -/
def Reapable : Prop := run.awaited = [] ∧ run.reaped = false

instance : Decidable run.Reapable := inferInstanceAs (Decidable (_ ∧ _))

end Run

namespace State

variable (s : State R) (r : R)

/-- A change of one run. -/
def modify (change : Run → Run) : State R :=
  { s with runs := Function.update s.runs r ((s.runs r).map change) }

/-- A new run id is one that no run has. -/
def spawn : State R :=
  if (s.runs r).isSome then s
  else { s with
    runs := Function.update s.runs r (some (spawned s.tokens))
    tokens := s.tokens + 1 }

def insert : State R :=
  match s.runs r with
  | some run =>
    if run.returned then s
    -- nothing is asked of the reaper, which may be done
    else { s.modify r ({ · with returned := true }) with
      registry := s.registry.insert ⟨r, run.cancel⟩ }
  | none => s

def reap : State R :=
  match s.runs r with
  | some run =>
    if run.Reapable then
      { s.modify r ({ · with reaped := true }) with registry := s.registry.remove r }
    else s
  | none => s

def cancel (inFlight : Bool) : State R :=
  match s.runs r with
  | some run => if inFlight then { s with cancelled := run.cancel :: s.cancelled } else s
  | none => s

end State

def step (s : State R) : Action R → State R
  | .spawn r => s.spawn r
  | .insert r => s.insert r
  | .finish r task => s.modify r (·.finish task)
  | .join r => s.modify r (·.join)
  | .reap r => s.reap r
  | .cancel r inFlight => s.cancel r inFlight

/-- All calls, tasks and reapers, in any order. -/
def machine : Machine (State R) (Action R) where
  init := ⟨fun _ => none, [], [], 0⟩
  step := fun s a => some (step s a)

/-! ### The entries of the live runs -/

/-- **The entries are those of the live runs**: a run whose reaper is done has none, and one
that was returned and has not terminated has the one with its token. -/
def Accounted (s : State R) : Prop :=
  ∀ r run, s.runs r = some run →
    (run.reaped = true → s.registry.get r = none) ∧
      (run.returned = true → run.running ≠ [] → s.registry.get r = some ⟨r, run.cancel⟩)

/-- **A run is written before its reaper is done.** -/
def InsertsFirst (s : State R) : Action R → Prop
  | .insert r => ∀ run ∈ s.runs r, run.returned = false → run.reaped = false
  | _ => True

/-- The reaper is done when no task is left. -/
structure Run.Waits (run : Run) : Prop where
  awaited : ∀ task ∈ run.running, task ∈ run.awaited
  reaped : run.reaped = true → run.awaited = []

def Waits (s : State R) : Prop := ∀ r run, s.runs r = some run → run.Waits

namespace Run

variable {run : Run}

theorem Waits.running_of_reaped (h : run.Waits) (hreaped : run.reaped = true) :
    run.running = [] := by
  refine List.eq_nil_iff_forall_not_mem.mpr fun task htask => ?_
  have hmem := h.awaited task htask
  rw [h.reaped hreaped] at hmem
  exact absurd hmem List.not_mem_nil

theorem Waits.finish (h : run.Waits) (task : RunTask) : (run.finish task).Waits :=
  ⟨fun other hother => h.awaited other (List.mem_of_mem_erase hother), h.reaped⟩

theorem Waits.join (h : run.Waits) : run.join.Waits := by
  unfold Run.join
  split
  · next task rest hawaited =>
    split_ifs with hrunning
    · exact h
    · -- the task that was awaited is not running, so what runs is among the others
      refine ⟨fun other hother => ?_, fun hreaped => ?_⟩
      · have hmem := h.awaited other hother
        rw [hawaited] at hmem
        rcases List.mem_cons.mp hmem with rfl | hmem
        · exact absurd hother hrunning
        · exact hmem
      · have hnil := h.reaped hreaped
        rw [hawaited] at hnil
        exact nomatch hnil
  · exact h

/-- The reaper changes nothing but its own list. -/
theorem join_eq (run : Run) : ∃ awaited, run.join = { run with awaited := awaited } := by
  unfold Run.join
  split
  · split_ifs
    · exact ⟨run.awaited, rfl⟩
    · exact ⟨_, rfl⟩
  · exact ⟨run.awaited, rfl⟩

end Run

variable {s : State R} {r q : R} {change : Run → Run}

/-- A run after a change is the changed one, or as it was. -/
theorem runs_modify {run : Run} (h : (s.modify r change).runs q = some run) :
    (q = r ∧ ∃ old, s.runs r = some old ∧ run = change old) ∨ (q ≠ r ∧ s.runs q = some run) := by
  unfold State.modify at h
  dsimp only at h
  by_cases hq : q = r
  · subst hq
    rw [Function.update_self] at h
    obtain ⟨old, hold, rfl⟩ := Option.map_eq_some_iff.mp h
    exact Or.inl ⟨rfl, old, hold, rfl⟩
  · rw [Function.update_of_ne hq] at h
    exact Or.inr ⟨hq, h⟩

/-- A change that concerns neither the lock nor the call. -/
theorem accounted_modify (h : Accounted s) (hchange : ∀ run, (change run).reaped = run.reaped ∧
    (change run).returned = run.returned ∧ (change run).cancel = run.cancel ∧
      (run.running = [] → (change run).running = [])) : Accounted (s.modify r change) := by
  intro q run hrun
  rcases runs_modify hrun with ⟨rfl, old, hold, rfl⟩ | ⟨-, hold⟩
  · obtain ⟨hgone, hheld⟩ := h q old hold
    obtain ⟨hreaped, hreturned, hcancel, hrunning⟩ := hchange old
    rw [hreaped, hreturned, hcancel]
    exact ⟨hgone, fun hret hlive => hheld hret fun hnil => hlive (hrunning hnil)⟩
  · exact h q run hold

theorem waits_modify (h : Waits s) (hchange : ∀ run : Run, run.Waits → (change run).Waits) :
    Waits (s.modify r change) := by
  intro q run hrun
  rcases runs_modify hrun with ⟨rfl, old, hold, rfl⟩ | ⟨-, hold⟩
  · exact hchange old (h q old hold)
  · exact h q run hold

/-! ### Spawning, writing and reaping -/

theorem spawn_spec (hwaits : Waits s) (h : Accounted s) :
    Waits (s.spawn r) ∧ Accounted (s.spawn r) := by
  unfold State.spawn
  split_ifs with hold
  · exact ⟨hwaits, h⟩
  · have hnew : ∀ q run, Function.update s.runs r (some (spawned s.tokens)) q = some run →
        run = spawned s.tokens ∨ s.runs q = some run := by
      intro q run hrun
      by_cases hq : q = r
      · subst hq
        rw [Function.update_self] at hrun
        exact Or.inl (Option.some.inj hrun).symm
      · rw [Function.update_of_ne hq] at hrun
        exact Or.inr hrun
    constructor
    · intro q run hrun
      rcases hnew q run hrun with rfl | hrun
      · exact ⟨fun _ htask => htask, fun hreaped => nomatch hreaped⟩
      · exact hwaits q run hrun
    · intro q run hrun
      rcases hnew q run hrun with rfl | hrun
      · refine ⟨fun hreaped => ?_, fun hreturned => ?_⟩
        · exact nomatch hreaped
        · exact nomatch hreturned
      · exact h q run hrun

omit [DecidableEq R] in
theorem insertsFirst_iff {run : Run} (hrun : s.runs r = some run) :
    InsertsFirst s (.insert r) ↔ (run.returned = false → run.reaped = false) := by
  simp [InsertsFirst, hrun]

/-- **A run that is written** after its reaper is done stays. -/
theorem insert_spec (hwaits : Waits s) (h : Accounted s) :
    Waits (s.insert r) ∧ (Accounted (s.insert r) ↔ InsertsFirst s (.insert r)) := by
  unfold State.insert
  split
  · next run hrun =>
    rw [insertsFirst_iff hrun]
    split_ifs with hreturned
    · refine ⟨hwaits, iff_of_true h fun hfirst => ?_⟩
      exact absurd (hreturned.symm.trans hfirst) (by decide)
    · have hfirst : run.returned = false := Bool.eq_false_iff.mpr hreturned
      refine ⟨waits_modify hwaits fun _ hold => ⟨hold.awaited, hold.reaped⟩, ?_⟩
      have hnow : (s.modify r ({ · with returned := true })).runs r =
          some { run with returned := true } := by
        unfold State.modify
        dsimp only
        rw [Function.update_self, hrun]
        rfl
      constructor
      · -- the entry is there, so the reaper has not been
        intro hafter _
        refine Bool.eq_false_iff.mpr fun hreaped => ?_
        have hgone := (hafter r _ hnow).1 hreaped
        have hthere : (s.registry.insert ⟨r, run.cancel⟩).get r = some ⟨r, run.cancel⟩ :=
          RunRegistry.get_insert
        exact nomatch hgone.symm.trans hthere
      · -- a reaper that has not been will find the entry
        intro hordered q other hother
        rcases runs_modify hother with ⟨rfl, old, hold, rfl⟩ | ⟨hne, hold⟩
        · rw [hrun] at hold
          cases hold
          refine ⟨fun hreaped => ?_, fun _ _ => RunRegistry.get_insert⟩
          exact absurd ((hordered hfirst).symm.trans hreaped) (by decide)
        · show (_ → RunRegistry.get _ q = _) ∧ (_ → _ → RunRegistry.get _ q = _)
          rw [RunRegistry.get_insert_of_ne hne]
          exact h q other hold
  · next hrun =>
    refine ⟨hwaits, iff_of_true h fun run hmem => ?_⟩
    rw [hrun] at hmem
    exact nomatch hmem

theorem reap_spec (hwaits : Waits s) (h : Accounted s) :
    Waits (s.reap r) ∧ Accounted (s.reap r) := by
  unfold State.reap
  split
  · next run hrun =>
    split_ifs with hreapable
    · -- all tasks were awaited, so the run has terminated
      have hdone : run.running = [] := by
        refine List.eq_nil_iff_forall_not_mem.mpr fun task htask => ?_
        have hmem := (hwaits r run hrun).awaited task htask
        rw [hreapable.1] at hmem
        exact absurd hmem List.not_mem_nil
      constructor
      · intro q other hother
        rcases runs_modify hother with ⟨rfl, old, hold, rfl⟩ | ⟨-, hold⟩
        · rw [hrun] at hold
          cases hold
          exact ⟨(hwaits q run hrun).awaited, fun _ => hreapable.1⟩
        · exact hwaits q other hold
      · intro q other hother
        rcases runs_modify hother with ⟨rfl, old, hold, rfl⟩ | ⟨hne, hold⟩
        · rw [hrun] at hold
          cases hold
          exact ⟨fun _ => RunRegistry.get_remove, fun _ hlive => absurd hdone hlive⟩
        · show (_ → RunRegistry.get _ q = _) ∧ (_ → _ → RunRegistry.get _ q = _)
          rw [RunRegistry.get_remove_of_ne hne]
          exact h q other hold
    · exact ⟨hwaits, h⟩
  · exact ⟨hwaits, h⟩

/-- **What one step does** to a registry that is accounted for. -/
theorem step_spec (hwaits : Waits s) (h : Accounted s) (a : Action R) :
    Waits (step s a) ∧ (Accounted (step s a) ↔ InsertsFirst s a) := by
  have hkept : ∀ {t : State R}, Waits t ∧ Accounted t → Waits t ∧ (Accounted t ↔ True) :=
    fun ht => ⟨ht.1, iff_true_intro ht.2⟩
  cases a with
  | spawn r => exact hkept (spawn_spec hwaits h)
  | insert r => exact insert_spec hwaits h
  | finish r task =>
    refine hkept ⟨waits_modify hwaits fun run hrun => hrun.finish task, accounted_modify h ?_⟩
    exact fun run => ⟨rfl, rfl, rfl, fun hnil => by rw [Run.finish, hnil]; rfl⟩
  | join r =>
    refine hkept ⟨waits_modify hwaits fun run hrun => hrun.join, accounted_modify h fun run => ?_⟩
    obtain ⟨awaited, heq⟩ := run.join_eq
    rw [heq]
    exact ⟨rfl, rfl, rfl, id⟩
  | reap r => exact hkept (reap_spec hwaits h)
  | cancel r inFlight =>
    refine hkept ?_
    show Waits (s.cancel r inFlight) ∧ Accounted (s.cancel r inFlight)
    unfold State.cancel
    split
    · split_ifs <;> exact ⟨hwaits, h⟩
    · exact ⟨hwaits, h⟩

/-- **When the registry does not leak**: the entries are those of the live runs in every state of
a run of events just when each run is written before its reaper is done. -/
theorem accounted_iff (actions : List (Action R)) :
    machine.Throughout Accounted machine.init actions ↔
      machine.Allowed InsertsFirst machine.init actions := by
  refine Machine.throughout_iff_allowed_of_invariant (I := Waits) (fun s a => ⟨_, rfl⟩)
    ?_ ?_ nofun nofun
  · intro s a s' hwaits h hstep
    cases hstep
    exact (step_spec hwaits h a).1
  · intro s a s' hwaits h hstep
    cases hstep
    exact (step_spec hwaits h a).2

/-! ### An entry that is left over -/

/-- The reaper of the run is done, its call has returned, and it has an entry. -/
def Leaked (s : State R) (r : R) : Prop :=
  (∃ run, s.runs r = some run ∧ run.reaped = true ∧ run.returned = true) ∧
    (s.registry.get r).isSome = true

/-- A run that is over stays so under a change that does not revive it. -/
theorem over_modify {change : Run → Run}
    (h : ∃ run, s.runs r = some run ∧ run.reaped = true ∧ run.returned = true) (q : R)
    (hchange : ∀ run : Run, run.reaped = true → run.returned = true →
      (change run).reaped = true ∧ (change run).returned = true) :
    ∃ run, (s.modify q change).runs r = some run ∧ run.reaped = true ∧ run.returned = true := by
  obtain ⟨run, hrun, hreaped, hreturned⟩ := h
  unfold State.modify
  dsimp only
  by_cases hq : r = q
  · subst hq
    rw [Function.update_self, hrun]
    exact ⟨_, rfl, hchange run hreaped hreturned⟩
  · rw [Function.update_of_ne hq]
    exact ⟨run, hrun, hreaped, hreturned⟩

/-- Nothing takes the entry out again. -/
theorem leaked_step (h : Leaked s r) (a : Action R) : Leaked (step s a) r := by
  obtain ⟨hover, hentry⟩ := h
  obtain ⟨run, hrun, hreaped, hreturned⟩ := hover
  cases a with
  | spawn q =>
    show Leaked (s.spawn q) r
    unfold State.spawn
    split_ifs with hold
    · exact ⟨⟨run, hrun, hreaped, hreturned⟩, hentry⟩
    · -- a new id is not that of the run
      have hq : r ≠ q := by
        rintro rfl
        rw [hrun] at hold
        exact hold rfl
      refine ⟨⟨run, ?_, hreaped, hreturned⟩, hentry⟩
      exact (Function.update_of_ne hq _ _).trans hrun
  | insert q =>
    show Leaked (s.insert q) r
    unfold State.insert
    split
    · next other hother =>
      split_ifs with hdone
      · exact ⟨⟨run, hrun, hreaped, hreturned⟩, hentry⟩
      · have hq : r ≠ q := by
          rintro rfl
          rw [hrun] at hother
          cases hother
          exact hdone hreturned
        refine ⟨over_modify ⟨run, hrun, hreaped, hreturned⟩ q fun _ hr _ => ⟨hr, rfl⟩, ?_⟩
        show ((s.registry.insert ⟨q, other.cancel⟩).get r).isSome = true
        rw [RunRegistry.get_insert_of_ne hq]
        exact hentry
    · exact ⟨⟨run, hrun, hreaped, hreturned⟩, hentry⟩
  | finish q task =>
    exact ⟨over_modify ⟨run, hrun, hreaped, hreturned⟩ q fun _ hr ht => ⟨hr, ht⟩, hentry⟩
  | join q =>
    refine ⟨over_modify ⟨run, hrun, hreaped, hreturned⟩ q fun run hr ht => ?_, hentry⟩
    obtain ⟨awaited, heq⟩ := run.join_eq
    rw [heq]
    exact ⟨hr, ht⟩
  | reap q =>
    show Leaked (s.reap q) r
    unfold State.reap
    split
    · next other hother =>
      split_ifs with hreapable
      · have hq : r ≠ q := by
          rintro rfl
          rw [hrun] at hother
          cases hother
          exact absurd (hreaped.symm.trans hreapable.2) (by decide)
        refine ⟨over_modify ⟨run, hrun, hreaped, hreturned⟩ q fun _ _ ht => ⟨rfl, ht⟩, ?_⟩
        show ((s.registry.remove q).get r).isSome = true
        rw [RunRegistry.get_remove_of_ne hq]
        exact hentry
      · exact ⟨⟨run, hrun, hreaped, hreturned⟩, hentry⟩
    · exact ⟨⟨run, hrun, hreaped, hreturned⟩, hentry⟩
  | cancel q inFlight =>
    show Leaked (s.cancel q inFlight) r
    unfold State.cancel
    split
    · split_ifs <;> exact ⟨⟨run, hrun, hreaped, hreturned⟩, hentry⟩
    · exact ⟨⟨run, hrun, hreaped, hreturned⟩, hentry⟩

theorem leaked_exec {actions : List (Action R)} {s' : State R} (h : Leaked s r)
    (hexec : machine.exec s actions = some s') : Leaked s' r := by
  induction actions generalizing s with
  | nil =>
    cases hexec
    exact h
  | cons a actions ih => exact ih (leaked_step h a) hexec

open Schedule in
/-- **An entry that is left over stops the schedule**: from then on the planner only ever asks
the user to catch up. -/
theorem leaked_defers {actions : List (Action R)} {s' : State R} (h : Leaked s r)
    (hexec : machine.exec s actions = some s') (now : DateTime) (cfg : ScheduleConfig)
    (state : ScheduleState) (skipped : Finset NaiveDate) :
    ∀ action ∈ planNextActions now cfg (state.inSession skipped (!s'.registry.isEmpty)),
      ∃ dates, action = .catchUp dates := by
  have hbusy : (!s'.registry.isEmpty) = true := by
    obtain ⟨handle, hhandle⟩ := Option.isSome_iff_exists.mp (leaked_exec h hexec).2
    simpa using RunRegistry.ne_nil_of_get hhandle
  rw [hbusy]
  intro action haction
  cases action with
  | runToday date => exact nomatch (runToday_mem.mp haction).2.2.1
  | finalPassYesterday date => exact nomatch (finalPassYesterday_mem.mp haction).2.2.2.1
  | catchUp dates => exact ⟨dates, rfl⟩

/-! ### A run that ends at once -/

/-- The tasks end and the reaper has the lock before `report_generate` does. -/
def quick : List (Action ℕ) :=
  [.spawn 0, .finish 0 .progress, .finish 0 .log, .finish 0 .completion, .join 0, .join 0, .join 0,
    .reap 0, .insert 0]

/-- **The entry of a run that ends at once** is written after it was to be removed. -/
theorem entry_leaks : ¬∀ actions : List (Action ℕ),
    machine.Throughout Accounted machine.init actions := by
  intro h
  have hrun : (machine.exec machine.init quick).any (fun s => decide
      ((s.runs 0).map (·.reaped) = some true ∧ s.registry = [⟨0, 0⟩])) = true := by
    decide +kernel
  obtain ⟨s, hs, hlast⟩ := (Option.any_eq_true ..).mp hrun
  obtain ⟨hreaped, hregistry⟩ := of_decide_eq_true hlast
  obtain ⟨run, hlive, hdone⟩ := Option.map_eq_some_iff.mp hreaped
  have hgone := ((h quick).last hs 0 run hlive).1 hdone
  rw [hregistry] at hgone
  exact nomatch hgone

end Runs
end Dayseam
