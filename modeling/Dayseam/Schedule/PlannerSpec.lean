import Dayseam.Schedule.Planner
import Mathlib

/-!
# What a plan holds

The planner decides on today, on yesterday and on the days before by rules that look at
each other.  A plan is described here by what it holds, whatever the rules.

## Main definitions

* `Missed` — a day that is left for the user to catch up on.
* `PlanOf` — what a plan holds.

## Main results

* `mem_missedDays_iff` — the days that are left are the missed ones.
* `planOf_planNextActions` — **the planner plans this.**
-/

namespace Dayseam
namespace Schedule

/-- The days that an action is for. -/
def ScheduledAction.dates : ScheduledAction → List NaiveDate
  | .runToday date | .finalPassYesterday date => [date]
  | .catchUp dates => dates

/-- A scheduled day of the last days that has no report, was not skipped in this session
and is not the day of another action. -/
structure Missed (now : DateTime) (cfg : ScheduleConfig) (state : ScheduleState)
    (actions : List ScheduledAction) (d : NaiveDate) : Prop where
  past : d < now.dateNaive
  recent : now.dateNaive ≤ d.addDays (min cfg.catchUpDays CATCH_UP_DAYS_HARD_CAP : ℕ)
  scheduled : d.weekday ∈ cfg.daysOfWeek
  unsatisfied : state.satisfied d = none
  unskipped : d ∉ state.skippedThisSession
  uncovered : ScheduledAction.runToday d ∉ actions ∧ .finalPassYesterday d ∉ actions

/-- What a plan holds.  Days that were skipped in this session are left out of what is to
be caught up; today's report does not ask for them. -/
structure PlanOf (now : DateTime) (cfg : ScheduleConfig) (state : ScheduleState)
    (actions : List ScheduledAction) : Prop where
  /-- Nothing is planned while the schedule is off. -/
  enabled : actions ≠ [] → cfg.enabled = true
  /-- A day is the day of one action, once. -/
  once : (actions.flatMap ScheduledAction.dates).Nodup
  ascending : ∀ dates, .catchUp dates ∈ actions → dates ≠ [] ∧ dates.Pairwise (· < ·)
  catchUp : cfg.enabled = true →
    ∀ d, (∃ dates, .catchUp dates ∈ actions ∧ d ∈ dates) ↔ Missed now cfg state actions d
  runToday : ∀ d, .runToday d ∈ actions ↔
    now.dateNaive = d ∧ InWindow now cfg ∧ state.userRunInFlight = false ∧
      state.satisfied d = none
  finalPass : ∀ d, .finalPassYesterday d ∈ actions ↔
    now.dateNaive.addDays (-1) = d ∧ cfg.enabled = true ∧ d.weekday ∈ cfg.daysOfWeek ∧
      state.userRunInFlight = false ∧ state.satisfied d ≠ some .finalPass
  busy : state.userRunInFlight = true → ∀ action ∈ actions, ∃ dates, action = .catchUp dates

variable {now : DateTime} {cfg : ScheduleConfig} {state : ScheduleState} {d : NaiveDate}
  {dates : List NaiveDate}

/-! ### The days that are left -/

/-- The actions for today and for yesterday. -/
def ownActions (now : DateTime) (cfg : ScheduleConfig) (state : ScheduleState) :
    List ScheduledAction :=
  finalPassActions now cfg state ++ runTodayActions now cfg state

theorem finalPassActions_eq (now : DateTime) (cfg : ScheduleConfig) (state : ScheduleState) :
    finalPassActions now cfg state = [] ∨
      finalPassActions now cfg state = [.finalPassYesterday (now.dateNaive.addDays (-1))] := by
  unfold finalPassActions
  dsimp only
  split_ifs
  · exact Or.inr rfl
  · exact Or.inl rfl

theorem runTodayActions_eq (now : DateTime) (cfg : ScheduleConfig) (state : ScheduleState) :
    runTodayActions now cfg state = [] ∨
      runTodayActions now cfg state = [.runToday now.dateNaive] := by
  unfold runTodayActions
  dsimp only
  split_ifs
  · exact Or.inr rfl
  · exact Or.inl rfl

/-- The own actions: the final pass of yesterday and the run for today, or one of them, or
neither. -/
theorem mem_ownActions {action : ScheduledAction} (h : action ∈ ownActions now cfg state) :
    action = .finalPassYesterday (now.dateNaive.addDays (-1)) ∨
      action = .runToday now.dateNaive := by
  rcases List.mem_append.mp h with h | h
  · rcases finalPassActions_eq now cfg state with hf | hf
    · rw [hf] at h
      exact absurd h List.not_mem_nil
    · rw [hf] at h
      exact Or.inl (List.mem_singleton.mp h)
  · rcases runTodayActions_eq now cfg state with hr | hr
    · rw [hr] at h
      exact absurd h List.not_mem_nil
    · rw [hr] at h
      exact Or.inr (List.mem_singleton.mp h)

theorem yesterday_of_mem_ownActions (h : .finalPassYesterday d ∈ ownActions now cfg state) :
    d = now.dateNaive.addDays (-1) := by
  rcases mem_ownActions h with heq | heq
  · exact ScheduledAction.finalPassYesterday.inj heq
  · exact nomatch heq

theorem runToday_of_mem_ownActions (h : .runToday d ∈ ownActions now cfg state) :
    d = now.dateNaive := by
  rcases mem_ownActions h with heq | heq
  · exact nomatch heq
  · exact ScheduledAction.runToday.inj heq

theorem catchUp_notMem_ownActions : ScheduledAction.catchUp dates ∉ ownActions now cfg state := by
  intro h
  rcases mem_ownActions h with heq | heq
  · exact nomatch heq
  · exact nomatch heq

/-- The last `k` days before today, latest first. -/
def lastDays (today : NaiveDate) (k : ℕ) : List NaiveDate :=
  (List.range' 1 k).map fun offset : ℕ => today.addDays (-offset)

theorem missedDays_eq (actions : List ScheduledAction) : missedDays now cfg state actions =
    (lastDays now.dateNaive (min cfg.catchUpDays CATCH_UP_DAYS_HARD_CAP)).filter fun d =>
      cfg.daysOfWeek.contains d.weekday && (state.satisfied d).isNone
        && !decide (d ∈ state.skippedThisSession)
        && !(d == now.dateNaive.addDays (-1) &&
          actions.contains (.finalPassYesterday (now.dateNaive.addDays (-1)))) := by
  unfold missedDays lastDays
  dsimp only
  congr 1
  rw [List.bind_eq_flatMap]
  simp only [List.pure_def, ← List.map_eq_flatMap]
  exact List.map_map

theorem mem_lastDays_iff {today : NaiveDate} {k : ℕ} :
    d ∈ lastDays today k ↔ d < today ∧ today ≤ d.addDays k := by
  rw [lastDays, List.mem_map]
  constructor
  · rintro ⟨offset, hoffset, rfl⟩
    rw [List.mem_range'_1] at hoffset
    rw [NaiveDate.lt_iff, NaiveDate.le_iff]
    simp only [NaiveDate.day_addDays]
    omega
  · rintro ⟨hlt, hle⟩
    rw [NaiveDate.lt_iff] at hlt
    rw [NaiveDate.le_iff, NaiveDate.day_addDays] at hle
    refine ⟨(today.day - d.day).toNat, ?_, ?_⟩
    · rw [List.mem_range'_1]
      omega
    · apply NaiveDate.ext
      rw [NaiveDate.day_addDays]
      omega

theorem nodup_lastDays (today : NaiveDate) (k : ℕ) : (lastDays today k).Nodup := by
  refine List.Nodup.map_on (fun a _ b _ hab => ?_) List.nodup_range'
  have hday := congrArg NaiveDate.day hab
  simp only [NaiveDate.day_addDays] at hday
  omega

/-- **The days that are left are the missed ones**: of the own actions, only the final
pass of yesterday is for a day of the window. -/
theorem mem_missedDays_iff {actions : List ScheduledAction}
    (hown : ∀ action, action ∈ ownActions now cfg state → action ∈ actions)
    (hactions : ∀ action ∈ actions, action ∈ ownActions now cfg state ∨
      ∃ dates, action = .catchUp dates) :
    d ∈ missedDays now cfg state (ownActions now cfg state) ↔ Missed now cfg state actions d := by
  have hfinal : ∀ d, ScheduledAction.finalPassYesterday d ∈ actions ↔
      .finalPassYesterday d ∈ ownActions now cfg state := by
    refine fun d => ⟨fun h => (hactions _ h).resolve_right ?_, hown _⟩
    rintro ⟨_, heq⟩
    exact nomatch heq
  have htoday : ∀ d, ScheduledAction.runToday d ∈ actions → d = now.dateNaive := fun d hd =>
    runToday_of_mem_ownActions ((hactions _ hd).resolve_right fun ⟨_, heq⟩ => nomatch heq)
  rw [missedDays_eq, List.mem_filter, mem_lastDays_iff]
  simp only [Bool.and_eq_true, List.contains_iff_mem, Option.isNone_iff_eq_none,
    Bool.not_eq_true', decide_eq_false_iff_not, Bool.and_eq_false_iff, beq_eq_false_iff_ne]
  constructor
  · rintro ⟨⟨hpast, hrecent⟩, ⟨⟨hday, hsat⟩, hskip⟩, hfree⟩
    refine ⟨hpast, hrecent, hday, hsat, hskip, fun hrun => ?_, fun hpass => ?_⟩
    · exact absurd hpast (by rw [htoday d hrun]; exact lt_irrefl _)
    · -- a day with a final pass is yesterday, and yesterday with one was left out
      have hin := (hfinal d).mp hpass
      have heq := yesterday_of_mem_ownActions hin
      rcases hfree with hne | hno
      · exact hne heq
      · rw [← heq, ← Bool.not_eq_true, List.contains_iff_mem] at hno
        exact hno hin
  · rintro ⟨hpast, hrecent, hday, hsat, hskip, -, hpass⟩
    refine ⟨⟨hpast, hrecent⟩, ⟨⟨hday, hsat⟩, hskip⟩, ?_⟩
    by_cases heq : d = now.dateNaive.addDays (-1)
    · right
      rw [← heq, ← Bool.not_eq_true, List.contains_iff_mem, ← hfinal]
      exact hpass
    · exact Or.inl heq

theorem nodup_missedDays (actions : List ScheduledAction) :
    (missedDays now cfg state actions).Nodup := by
  rw [missedDays_eq]
  exact (nodup_lastDays _ _).filter _

/-! ### The plan -/

theorem planNextActions_of_enabled (h : cfg.enabled = true) :
    planNextActions now cfg state = ownActions now cfg state ++
      if missedDays now cfg state (ownActions now cfg state) = [] then []
      else [.catchUp ((missedDays now cfg state (ownActions now cfg state)).mergeSort
        fun a b => decide (a ≤ b))] := by
  unfold planNextActions
  rw [h]
  show (if missedDays now cfg state (ownActions now cfg state) = [] then _ else _) = _
  split_ifs
  · rw [List.append_nil]
    rfl
  · rfl

theorem catchUp_mem_iff (h : cfg.enabled = true) :
    .catchUp dates ∈ planNextActions now cfg state ↔
      missedDays now cfg state (ownActions now cfg state) ≠ [] ∧
        dates = (missedDays now cfg state (ownActions now cfg state)).mergeSort
          fun a b => decide (a ≤ b) := by
  rw [planNextActions_of_enabled h, List.mem_append,
    or_iff_right catchUp_notMem_ownActions]
  split_ifs with hm
  · simp [hm]
  · simp [hm]

theorem mem_catchUp_iff (h : cfg.enabled = true) :
    (∃ dates, .catchUp dates ∈ planNextActions now cfg state ∧ d ∈ dates) ↔
      d ∈ missedDays now cfg state (ownActions now cfg state) := by
  constructor
  · rintro ⟨dates, hin, hd⟩
    rw [((catchUp_mem_iff h).mp hin).2, List.mem_mergeSort] at hd
    exact hd
  · intro hd
    refine ⟨_, (catchUp_mem_iff h).mpr ⟨List.ne_nil_of_mem hd, rfl⟩, ?_⟩
    rw [List.mem_mergeSort]
    exact hd

theorem mem_planNextActions_cases (h : cfg.enabled = true) {action : ScheduledAction}
    (ha : action ∈ planNextActions now cfg state) :
    action ∈ ownActions now cfg state ∨ ∃ dates, action = .catchUp dates := by
  rw [planNextActions_of_enabled h, List.mem_append] at ha
  refine ha.imp_right fun ha => ?_
  split_ifs at ha
  · exact absurd ha List.not_mem_nil
  · exact ⟨_, List.mem_singleton.mp ha⟩

theorem mem_missedDays_planned (h : cfg.enabled = true) :
    d ∈ missedDays now cfg state (ownActions now cfg state) ↔
      Missed now cfg state (planNextActions now cfg state) d := by
  refine mem_missedDays_iff (fun action ha => ?_) fun action ha => mem_planNextActions_cases h ha
  rw [planNextActions_of_enabled h]
  exact List.mem_append_left _ ha

theorem nodup_dates_ownActions :
    ((ownActions now cfg state).flatMap ScheduledAction.dates).Nodup := by
  have hne : now.dateNaive.addDays (-1) ≠ now.dateNaive := fun he => by
    have hday := congrArg NaiveDate.day he
    rw [NaiveDate.day_addDays] at hday
    omega
  unfold ownActions
  rcases finalPassActions_eq now cfg state with hf | hf <;>
    rcases runTodayActions_eq now cfg state with hr | hr <;>
      simp [hf, hr, ScheduledAction.dates, hne]

/-- A missed day is not the day of another action. -/
theorem Missed.notMem_dates {actions : List ScheduledAction} (h : Missed now cfg state actions d)
    (hown : ∀ action, action ∈ ownActions now cfg state → action ∈ actions) :
    d ∉ (ownActions now cfg state).flatMap ScheduledAction.dates := by
  rw [List.mem_flatMap]
  rintro ⟨action, ha, hd⟩
  cases action with
  | runToday date =>
    rw [List.mem_singleton.mp hd] at h
    exact h.uncovered.1 (hown _ ha)
  | finalPassYesterday date =>
    rw [List.mem_singleton.mp hd] at h
    exact h.uncovered.2 (hown _ ha)
  | catchUp dates => exact catchUp_notMem_ownActions ha

theorem nodup_dates_planNextActions (h : cfg.enabled = true) :
    ((planNextActions now cfg state).flatMap ScheduledAction.dates).Nodup := by
  have hown : ∀ action, action ∈ ownActions now cfg state →
      action ∈ planNextActions now cfg state := fun action ha => by
    rw [planNextActions_of_enabled h]
    exact List.mem_append_left _ ha
  rw [planNextActions_of_enabled h]
  split_ifs with hm
  · rw [List.append_nil]
    exact nodup_dates_ownActions
  · rw [List.flatMap_append, List.flatMap_singleton]
    refine List.nodup_append.mpr ⟨nodup_dates_ownActions, ?_, ?_⟩
    · exact (List.mergeSort_perm _ _).nodup_iff.mpr (nodup_missedDays _)
    · -- a missed day is not the day of an own action
      rintro a ha b hb rfl
      have hb : a ∈ missedDays now cfg state (ownActions now cfg state) := by
        rw [ScheduledAction.dates, List.mem_mergeSort] at hb
        exact hb
      exact ((mem_missedDays_planned h).mp hb).notMem_dates hown ha

/-- The days to catch up on are sorted, and none is there twice. -/
theorem pairwise_lt_of_catchUp (h : cfg.enabled = true)
    (hin : .catchUp dates ∈ planNextActions now cfg state) : dates.Pairwise (· < ·) := by
  obtain ⟨-, rfl⟩ := (catchUp_mem_iff h).mp hin
  have hsorted := @List.pairwise_mergeSort NaiveDate (fun a b => decide (a ≤ b))
    (fun a b c hab hbc => decide_eq_true (le_trans (of_decide_eq_true hab) (of_decide_eq_true hbc)))
    (fun a b => by simpa using le_total a b)
    (missedDays now cfg state (ownActions now cfg state))
  have hnodup : ((missedDays now cfg state (ownActions now cfg state)).mergeSort
      fun a b => decide (a ≤ b)).Nodup :=
    (List.mergeSort_perm _ _).nodup_iff.mpr (nodup_missedDays _)
  exact (hsorted.and hnodup).imp fun hab => lt_of_le_of_ne (of_decide_eq_true hab.1) hab.2

/-- **The planner plans this**, for every configuration, state and time. -/
theorem planOf_planNextActions (now : DateTime) (cfg : ScheduleConfig) (state : ScheduleState) :
    PlanOf now cfg state (planNextActions now cfg state) := by
  have henabled : ∀ action, action ∈ planNextActions now cfg state → cfg.enabled = true :=
    fun action ha => (mem_planNextActions.mp ha).1
  refine ⟨fun hne => ?_, ?_, fun dates hin => ?_, fun h d => ?_, fun d => runToday_mem,
    fun d => finalPassYesterday_mem, fun hbusy action ha => ?_⟩
  · obtain ⟨action, ha⟩ := List.exists_mem_of_ne_nil _ hne
    exact henabled action ha
  · by_cases h : cfg.enabled = true
    · exact nodup_dates_planNextActions h
    · have hnil : planNextActions now cfg state = [] :=
        List.eq_nil_iff_forall_not_mem.mpr fun action ha => h (henabled action ha)
      rw [hnil]
      exact List.nodup_nil
  · -- no catch-up is planned for no day
    have h := henabled _ hin
    refine ⟨?_, pairwise_lt_of_catchUp h hin⟩
    obtain ⟨hne, rfl⟩ := (catchUp_mem_iff h).mp hin
    intro hnil
    exact hne (List.eq_nil_of_length_eq_zero
      (by rw [← @List.length_mergeSort NaiveDate (fun a b => decide (a ≤ b)), hnil]; rfl))
  · rw [mem_catchUp_iff h, mem_missedDays_planned h]
  · -- with a run of the user in flight the own actions are not planned
    cases action with
    | runToday d =>
      have hfree := (runToday_mem.mp ha).2.2.1
      rw [hbusy] at hfree
      exact nomatch hfree
    | finalPassYesterday d =>
      have hfree := (finalPassYesterday_mem.mp ha).2.2.2.1
      rw [hbusy] at hfree
      exact nomatch hfree
    | catchUp dates => exact ⟨dates, rfl⟩

/-! ### Today is skipped -/

/-- Noon of a Monday. -/
def mondayNoon : DateTime := ⟨20563 * nanosPerDay + 43200 * nanosPerSec, .utc⟩

/-- Reports on Mondays, from 09:00 to 18:00. -/
def onMondays : ScheduleConfig where
  enabled := true
  daysOfWeek := [.mon]
  targetTime := ⟨64800, 0⟩
  earliestStart := ⟨32400, 0⟩
  catchUpDays := 7

/-- Nothing is satisfied, and the user skipped the Monday. -/
def mondaySkipped : ScheduleState := ⟨fun _ => none, {mondayNoon.dateNaive}, false⟩

/-- **A day that was skipped is run** when it is today. -/
theorem skipped_today_is_run :
    ¬(.runToday mondayNoon.dateNaive ∈ planNextActions mondayNoon onMondays mondaySkipped ↔
      InWindow mondayNoon onMondays ∧ mondaySkipped.satisfied mondayNoon.dateNaive = none ∧
        mondayNoon.dateNaive ∉ mondaySkipped.skippedThisSession ∧
          mondaySkipped.userRunInFlight = false) := by
  have hrun : .runToday mondayNoon.dateNaive ∈
      planNextActions mondayNoon onMondays mondaySkipped :=
    runToday_mem.mpr ⟨rfl, by decide +kernel, rfl, rfl⟩
  intro h
  exact (h.mp hrun).2.2.1 (Finset.mem_singleton_self _)

end Schedule
end Dayseam
