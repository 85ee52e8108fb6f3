import Dayseam.Core.Activity
import Dayseam.Core.Time
import Mathlib

/-!
# The day windows of the connectors

A walk is for one local day.  Each connector turns the day into instants, and
keeps the events between them; the connector for local repositories compares
local dates instead.

## Main definitions

* `dayBoundsUtc` — the first and the last second of a local day.
* `DayWalk.accepts` — the filter of each walk.
* `OneDay` — every walk gives an instant to its local date, and to no other day.

## Main results

* `accepts_iff_localDate` — the walks that add the last second back.
* `gitlab_accepts_iff` — the walk that does not.
* `oneDay_iff` — the instants on which the walks agree.
-/

namespace Dayseam
namespace Connectors

/-! ### The bounds of a day -/

/-- The instant at a second of a local day. -/
def localInstant (day : NaiveDate) (tz : FixedOffset) (secs : ℤ) : ℤ :=
  day.day * nanosPerDay + secs * nanosPerSec - tz.localMinusUtc * nanosPerSec

/-- The instants of 00:00:00 and of 23:59:59 of a local day. -/
def dayBoundsUtc (day : NaiveDate) (tz : FixedOffset) : ℤ × ℤ :=
  (localInstant day tz 0, localInstant day tz 86399)

/-- The first instant after the last second of a local day. -/
def endUtcExclusive (day : NaiveDate) (tz : FixedOffset) : ℤ :=
  (dayBoundsUtc day tz).2 + nanosPerSec

/-- A range of instants that holds its start and not its end. -/
structure DayWindow where
  start : ℤ
  «end» : ℤ
  deriving DecidableEq

namespace DayWindow

def contains (window : DayWindow) (ts : ℤ) : Bool :=
  window.start ≤ ts && ts < window.end

theorem contains_iff {window : DayWindow} {ts : ℤ} :
    window.contains ts = true ↔ window.start ≤ ts ∧ ts < window.end := by
  simp [contains]

/-- The window that the walks over Atlassian products build. -/
def ofDay (day : NaiveDate) (tz : FixedOffset) : DayWindow :=
  ⟨(dayBoundsUtc day tz).1, endUtcExclusive day tz⟩

end DayWindow

/-- Where a row of an event stream lies; a walk stops at a row before its window. -/
inductive RowDate
  | before
  | inside
  | after
  deriving DecidableEq, Repr

end Connectors

open Connectors

namespace Gitlab

/-- The filter of the walk over the event stream: the end still belongs to the day. -/
def rowDate (startUtc endUtc occurred : ℤ) : RowDate :=
  if occurred < startUtc then .before else if endUtc < occurred then .after else .inside

end Gitlab

namespace Github

/-- The filter of the walk over the event stream: the end is outside the day. -/
def rowDate (startUtc endUtcExclusive createdAt : ℤ) : RowDate :=
  if createdAt < startUtc then .before
  else if endUtcExclusive ≤ createdAt then .after
  else .inside

/-- The filter on the instants of a search hit. -/
def inWindow (startUtc endUtcExclusive t : ℤ) : Bool :=
  startUtc ≤ t && t < endUtcExclusive

end Github

namespace Connectors

/-! ### The filters -/

/-- The walks that keep the events of a day. -/
inductive DayWalk
  | gitlab
  | github
  | githubSearch
  | jira
  | confluence
  | localGit
  deriving DecidableEq, Repr

/-- Whether the walk for `day` keeps an event that is stamped `t`. -/
def DayWalk.accepts (walk : DayWalk) (tz : FixedOffset) (day : NaiveDate) (t : ℤ) : Bool :=
  match walk with
  | .gitlab => Gitlab.rowDate (dayBoundsUtc day tz).1 (dayBoundsUtc day tz).2 t = .inside
  | .github => Github.rowDate (dayBoundsUtc day tz).1 (endUtcExclusive day tz) t = .inside
  | .githubSearch => Github.inWindow (dayBoundsUtc day tz).1 (endUtcExclusive day tz) t
  | .jira => (DayWindow.ofDay day tz).contains t
  | .confluence => (DayWindow.ofDay day tz).contains t
  | .localGit => localDate tz t = day

variable (tz : FixedOffset) (day : NaiveDate) (t : ℤ)

theorem rowDate_gitlab_eq_inside (s e : ℤ) :
    Gitlab.rowDate s e t = .inside ↔ s ≤ t ∧ t ≤ e := by
  unfold Gitlab.rowDate
  split_ifs <;> simp <;> omega

theorem rowDate_gitlab_eq_before (s e : ℤ) : Gitlab.rowDate s e t = .before ↔ t < s := by
  unfold Gitlab.rowDate
  split_ifs <;> simp <;> omega

theorem rowDate_github_eq_inside (s e : ℤ) :
    Github.rowDate s e t = .inside ↔ s ≤ t ∧ t < e := by
  unfold Github.rowDate
  split_ifs <;> simp <;> omega

theorem inWindow_iff (s e : ℤ) : Github.inWindow s e t = true ↔ s ≤ t ∧ t < e := by
  simp [Github.inWindow]

theorem endUtcExclusive_eq : endUtcExclusive day tz = localInstant day tz 86400 := by
  show localInstant day tz 86399 + nanosPerSec = localInstant day tz 86400
  unfold localInstant nanosPerSec
  omega

/-- A local day is the instants from its midnight up to the next. -/
theorem localDate_eq_iff :
    localDate tz t = day ↔ localInstant day tz 0 ≤ t ∧ t < localInstant day tz 86400 := by
  rw [NaiveDate.ext_iff]
  simp only [localDate, localNanos, localInstant, nanosPerDay, nanosPerSec]
  omega

/-- **The walks with the last second added back keep a local day.** -/
theorem accepts_iff_localDate {walk : DayWalk} (h : walk ≠ .gitlab) :
    walk.accepts tz day t = true ↔ localDate tz t = day := by
  rw [localDate_eq_iff, ← endUtcExclusive_eq]
  cases walk with
  | gitlab => exact absurd rfl h
  | github => exact decide_eq_true_iff.trans (rowDate_github_eq_inside t _ _)
  | githubSearch => exact inWindow_iff t _ _
  | jira | confluence => exact DayWindow.contains_iff
  | localGit =>
    rw [endUtcExclusive_eq, ← localDate_eq_iff]
    exact decide_eq_true_iff

/-- An instant past 23:59:59 of its local day, and before midnight. -/
def InLastSecond : Prop := (localTime tz t).secs = 86399 ∧ 0 < (localTime tz t).frac

instance : Decidable (InLastSecond tz t) := inferInstanceAs (Decidable (_ ∧ _))

theorem inLastSecond_iff :
    InLastSecond tz t ↔ 86399 * nanosPerSec < localNanos tz t % nanosPerDay := by
  simp only [InLastSecond, localTime, nanosPerDay, nanosPerSec]
  omega

/-- **The walk without the last second** keeps the rest of the local day. -/
theorem gitlab_accepts_iff :
    DayWalk.gitlab.accepts tz day t = true ↔ localDate tz t = day ∧ ¬ InLastSecond tz t := by
  simp only [DayWalk.accepts, decide_eq_true_eq, rowDate_gitlab_eq_inside, inLastSecond_iff]
  rw [NaiveDate.ext_iff]
  simp only [localDate, localNanos, dayBoundsUtc, localInstant, nanosPerDay, nanosPerSec]
  omega

/-! ### The order of a day -/

/-- The order of the events that a walk returns: by their instant, then by their id. -/
def sortByInstant (events : List ActivityEvent) : List ActivityEvent :=
  events.mergeSort fun a b => toLex (a.occurredAt, a.id) ≤ toLex (b.occurredAt, b.id)

theorem mem_sortByInstant {events : List ActivityEvent} {e : ActivityEvent} :
    e ∈ sortByInstant events ↔ e ∈ events :=
  (List.mergeSort_perm _ _).mem_iff

/-- What tells an event from the others of its source. -/
def identity (e : ActivityEvent) : Text × ActivityKind := (e.externalId, e.kind)

/-! ### One day for each instant -/

/-- Exactly one day has the instant, its local date, whatever the walk. -/
def OneDay : Prop :=
  ∃ d, d = localDate tz t ∧ ∀ (walk : DayWalk) (d' : NaiveDate),
    walk.accepts tz d' t = true ↔ d' = d

/-- **The walks agree on an instant** unless it lies in the last second of its
local day, which the walk over GitLab events gives to no day. -/
theorem oneDay_iff : OneDay tz t ↔ ¬ InLastSecond tz t := by
  constructor
  · rintro ⟨d, rfl, h⟩
    exact ((gitlab_accepts_iff tz _ t).mp ((h .gitlab _).mpr rfl)).2
  · intro hlast
    refine ⟨localDate tz t, rfl, fun walk d' => ?_⟩
    rw [eq_comm (a := d')]
    cases walk with
    | gitlab =>
      rw [gitlab_accepts_iff]
      exact and_iff_left hlast
    | github | githubSearch | jira | confluence | localGit =>
      exact accepts_iff_localDate tz d' t (by decide)

/-- Half a second before the midnight after 2026-04-18 in UTC. -/
theorem last_second_has_no_day :
    ¬ OneDay FixedOffset.utc (20561 * nanosPerDay + 86399500000000) := by
  rintro ⟨d, rfl, h⟩
  have hgitlab := (h .gitlab (localDate FixedOffset.utc _)).mpr rfl
  exact absurd hgitlab (by decide)

end Connectors
end Dayseam
