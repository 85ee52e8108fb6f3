import Dayseam.Core.Types
import Mathlib

/-!
# Local time

Instants are in nanoseconds since the epoch.  A fixed offset turns one into a
calendar date and a time of the day.

## Main definitions

* `FixedOffset`, `localDate`, `localTime` — the local view of an instant.
* `Weekday`, `NaiveDate.weekday` — the days of the week.
-/

namespace Dayseam

/-! ### Days -/

inductive Weekday
  | mon
  | tue
  | wed
  | thu
  | fri
  | sat
  | sun
  deriving DecidableEq, Repr

namespace NaiveDate

def addDays (d : NaiveDate) (n : ℤ) : NaiveDate := ⟨d.day + n⟩

@[simp] theorem day_addDays (d : NaiveDate) (n : ℤ) : (d.addDays n).day = d.day + n := rfl

/-- 1970-01-01 was a Thursday. -/
def weekday (d : NaiveDate) : Weekday :=
  match (d.day + 3) % 7 with
  | 0 => .mon
  | 1 => .tue
  | 2 => .wed
  | 3 => .thu
  | 4 => .fri
  | 5 => .sat
  | _ => .sun

/-- Dates are ordered as their days are. -/
instance : LinearOrder NaiveDate :=
  LinearOrder.lift' NaiveDate.day fun _ _ h => NaiveDate.ext h

theorem le_iff {a b : NaiveDate} : a ≤ b ↔ a.day ≤ b.day := Iff.rfl

theorem lt_iff {a b : NaiveDate} : a < b ↔ a.day < b.day := Iff.rfl

end NaiveDate

/-! ### Times of the day -/

/-- A time of the day: its second, and the nanoseconds in it, which exceed a
second in a leap second. -/
structure NaiveTime where
  secs : ℕ
  frac : ℕ
  deriving DecidableEq, Repr

/-- Times are compared by the second and then by the nanoseconds. -/
def NaiveTime.ble (a b : NaiveTime) : Bool :=
  a.secs < b.secs || (a.secs == b.secs && a.frac ≤ b.frac)

/-- An offset from UTC in seconds, less than a day either way. -/
structure FixedOffset where
  localMinusUtc : ℤ
  bounded : -86400 < localMinusUtc ∧ localMinusUtc < 86400
  deriving DecidableEq

def FixedOffset.utc : FixedOffset := ⟨0, by decide⟩

def nanosPerSec : ℤ := 1000000000

def nanosPerDay : ℤ := 86400 * nanosPerSec

/-- The local clock at an instant. -/
def localNanos (tz : FixedOffset) (instant : ℤ) : ℤ := instant + tz.localMinusUtc * nanosPerSec

def localDate (tz : FixedOffset) (instant : ℤ) : NaiveDate := ⟨localNanos tz instant / nanosPerDay⟩

def localTime (tz : FixedOffset) (instant : ℤ) : NaiveTime :=
  let n := localNanos tz instant % nanosPerDay
  ⟨(n / nanosPerSec).toNat, (n % nanosPerSec).toNat⟩

/-- An instant with the offset that it is read in. -/
structure DateTime where
  instant : ℤ
  offset : FixedOffset
  deriving DecidableEq

def DateTime.dateNaive (t : DateTime) : NaiveDate := localDate t.offset t.instant

def DateTime.time (t : DateTime) : NaiveTime := localTime t.offset t.instant

end Dayseam
