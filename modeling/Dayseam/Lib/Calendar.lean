import Dayseam.Lib.Text
import Mathlib

/-!
# The civil calendar and its texts

A day is its distance from 1970-01-01.  The proleptic Gregorian calendar names
it by a year, a month and a day of the month, and the extended ISO form writes
these out.  Both directions are computable, and reading what was written gives
the day back.

## Main results

* `daysOfCivil_civilOfDays` — a day is recovered from its civil name.
* `parseIso_isoText` — a day is recovered from its text.
-/

namespace Calendar

/-! ### Days and civil names -/

/-- A date of the proleptic Gregorian calendar. -/
structure Civil where
  year : ℤ
  month : ℤ
  day : ℤ
  deriving DecidableEq, Repr

/-- Days from 0000-03-01 to 1970-01-01: years are counted from March, so that
the leap day is the last day of its year. -/
def epochShift : ℤ := 719468

/-- The March-based year of a day and its position in that year. -/
def yearDayOfDays (s : ℤ) : ℤ × ℤ :=
  let era := s / 146097
  let dayOfEra := s % 146097
  let century := min (dayOfEra / 36524) 3
  let dayOfCentury := dayOfEra - 36524 * century
  let quad := dayOfCentury / 1461
  let dayOfQuad := dayOfCentury - 1461 * quad
  let year := min (dayOfQuad / 365) 3
  (400 * era + 100 * century + 4 * quad + year, dayOfQuad - 365 * year)

/-- The day at position `doy` of the March-based year `y`. -/
def daysOfYearDay (y doy : ℤ) : ℤ := 365 * y + y / 4 - y / 100 + y / 400 + doy

theorem yearDayOfDays_snd (s : ℤ) : 0 ≤ (yearDayOfDays s).2 ∧ (yearDayOfDays s).2 ≤ 365 := by
  simp only [yearDayOfDays]
  omega

theorem daysOfYearDay_eq {e c q r : ℤ} (hc : 0 ≤ c ∧ c ≤ 3) (hq : 0 ≤ q ∧ q ≤ 24)
    (hr : 0 ≤ r ∧ r ≤ 3) (doy : ℤ) :
    daysOfYearDay (400 * e + 100 * c + 4 * q + r) doy =
      146097 * e + 36524 * c + 1461 * q + 365 * r + doy := by
  have h4 : (400 * e + 100 * c + 4 * q + r) / 4 = 100 * e + 25 * c + q := by omega
  have h100 : (400 * e + 100 * c + 4 * q + r) / 100 = 4 * e + c := by omega
  have h400 : (400 * e + 100 * c + 4 * q + r) / 400 = e := by omega
  rw [daysOfYearDay, h4, h100, h400]
  omega

theorem daysOfYearDay_yearDayOfDays (s : ℤ) :
    daysOfYearDay (yearDayOfDays s).1 (yearDayOfDays s).2 = s := by
  simp only [yearDayOfDays]
  rw [daysOfYearDay_eq (by omega) (by omega) (by omega)]
  omega

/-- The civil name of a day. -/
def civilOfDays (z : ℤ) : Civil :=
  let (y, doy) := yearDayOfDays (z + epochShift)
  let mp := (5 * doy + 2) / 153
  { year := if mp < 10 then y else y + 1
    month := if mp < 10 then mp + 3 else mp - 9
    day := doy - (153 * mp + 2) / 5 + 1 }

/-- The day that a civil name stands for. -/
def daysOfCivil (c : Civil) : ℤ :=
  let mp := if c.month ≤ 2 then c.month + 9 else c.month - 3
  let y := if c.month ≤ 2 then c.year - 1 else c.year
  daysOfYearDay y ((153 * mp + 2) / 5 + c.day - 1) - epochShift

/-- **A day is recovered from its civil name.** -/
theorem daysOfCivil_civilOfDays (z : ℤ) : daysOfCivil (civilOfDays z) = z := by
  have hb := yearDayOfDays_snd (z + epochShift)
  have h := daysOfYearDay_yearDayOfDays (z + epochShift)
  rcases hp : yearDayOfDays (z + epochShift) with ⟨y, doy⟩
  rw [hp] at hb h
  simp only at hb h
  have hmp : 0 ≤ (5 * doy + 2) / 153 ∧ (5 * doy + 2) / 153 ≤ 11 := by omega
  have hday : ∀ mp : ℤ,
      (153 * mp + 2) / 5 + (doy - (153 * mp + 2) / 5 + 1) - 1 = doy := by intro mp; omega
  by_cases hm : (5 * doy + 2) / 153 < 10
  · have hm2 : ¬ (5 * doy + 2) / 153 + 3 ≤ 2 := by omega
    simp only [daysOfCivil, civilOfDays, hp, if_pos hm, if_neg hm2]
    rw [Int.add_sub_cancel, hday, h]
    omega
  · have hm2 : (5 * doy + 2) / 153 - 9 ≤ 2 := by omega
    simp only [daysOfCivil, civilOfDays, hp, if_neg hm, if_pos hm2]
    rw [Int.sub_add_cancel, hday, Int.add_sub_cancel, h]
    omega

theorem civilOfDays_pos (z : ℤ) : 1 ≤ (civilOfDays z).month ∧ 1 ≤ (civilOfDays z).day := by
  have hb := yearDayOfDays_snd (z + epochShift)
  rcases hp : yearDayOfDays (z + epochShift) with ⟨y, doy⟩
  rw [hp] at hb
  simp only at hb
  simp only [civilOfDays, hp]
  constructor
  · split <;> omega
  · omega

/-! ### Decimal texts -/

/-- A number in decimal, padded with zeros to `k` digits. -/
def padded (k n : ℕ) : Text :=
  List.replicate (k - (Nat.toDigits 10 n).length) '0' ++ Nat.toDigits 10 n

/-- The number that a non-empty text of decimal digits stands for. -/
def parseNat (t : Text) : Option ℕ :=
  if t ≠ [] ∧ t.all Char.isDigit then some (Nat.ofDigitChars 10 t 0) else none

theorem isDigit_of_mem_padded {k n : ℕ} {c : Char} (h : c ∈ padded k n) : c.isDigit = true := by
  rcases List.mem_append.mp h with h | h
  · rw [List.eq_of_mem_replicate h]
    decide
  · exact Nat.isDigit_of_mem_toDigits (by omega) (by omega) h

theorem padded_ne_nil (k n : ℕ) : padded k n ≠ [] := by
  simp [padded, Nat.toDigits_ne_nil]

theorem parseNat_padded (k n : ℕ) : parseNat (padded k n) = some n := by
  have hall : (padded k n).all Char.isDigit = true :=
    List.all_eq_true.mpr fun c hc => isDigit_of_mem_padded hc
  rw [parseNat, if_pos ⟨padded_ne_nil k n, hall⟩, padded, Nat.ofDigitChars_append,
    Nat.ofDigitChars_replicate_zero, Nat.mul_zero, Nat.ofDigitChars_ten_toDigits]

theorem parseNat_toDigits (n : ℕ) : parseNat (Nat.toDigits 10 n) = some n := by
  have h := parseNat_padded 0 n
  rw [padded, Nat.zero_sub, List.replicate_zero, List.nil_append] at h
  exact h

theorem notMem_padded {k n : ℕ} {c : Char} (h : c.isDigit = false) : c ∉ padded k n :=
  fun hc => by simp [isDigit_of_mem_padded hc] at h

/-! ### ISO texts -/

/-- A year: four digits, and an explicit sign when it is outside 0..9999. -/
def isoYear (y : ℤ) : Text :=
  if 0 ≤ y ∧ y ≤ 9999 then padded 4 y.natAbs
  else (if y < 0 then '-' else '+') :: padded 4 y.natAbs

/-- A day as `YYYY-MM-DD`. -/
def isoText (z : ℤ) : Text :=
  let c := civilOfDays z
  isoYear c.year ++ '-' :: (padded 2 c.month.natAbs ++ '-' :: padded 2 c.day.natAbs)

/-- The fields `Y-M-D` of an unsigned text, when they name a day of the calendar. -/
def parseFields (negative : Bool) (t : Text) : Option ℤ := do
  let (y, r) ← t.splitFirst '-'
  let (m, d) ← r.splitFirst '-'
  let y ← parseNat y
  let m ← parseNat m
  let d ← parseNat d
  let c : Civil := ⟨if negative then -(y : ℤ) else y, m, d⟩
  if civilOfDays (daysOfCivil c) = c then some (daysOfCivil c) else none

/-- The day that a text of the form `[+-]Y-M-D` names. -/
def parseIso : Text → Option ℤ
  | '-' :: t => parseFields true t
  | '+' :: t => parseFields false t
  | t => parseFields false t

theorem parseFields_padded {negative : Bool} {k n : ℕ} {z : ℤ}
    (hy : (civilOfDays z).year = if negative then -(n : ℤ) else n) :
    parseFields negative (padded k n ++ '-' :: (padded 2 (civilOfDays z).month.natAbs ++
      '-' :: padded 2 (civilOfDays z).day.natAbs)) = some z := by
  have hm : (((civilOfDays z).month.natAbs : ℕ) : ℤ) = (civilOfDays z).month := by
    have h := (civilOfDays_pos z).1
    omega
  have hd : (((civilOfDays z).day.natAbs : ℕ) : ℤ) = (civilOfDays z).day := by
    have h := (civilOfDays_pos z).2
    omega
  have hdash : ∀ k n, '-' ∉ padded k n := fun k n => notMem_padded (by decide)
  simp only [parseFields, Text.splitFirst_append (hdash _ _), parseNat_padded, hm, hd,
    Option.bind_eq_bind, Option.bind_some, ← hy]
  have hc : Civil.mk (civilOfDays z).year (civilOfDays z).month (civilOfDays z).day =
    civilOfDays z := rfl
  rw [hc, daysOfCivil_civilOfDays, if_pos rfl]

theorem parseIso_padded (k n : ℕ) (t : Text) :
    parseIso (padded k n ++ t) = parseFields false (padded k n ++ t) := by
  rcases hp : padded k n with _ | ⟨c, cs⟩
  · exact absurd hp (padded_ne_nil k n)
  · have hc : c.isDigit = true := isDigit_of_mem_padded (by rw [hp]; simp)
    have h1 : c ≠ '-' := by rintro rfl; revert hc; decide
    have h2 : c ≠ '+' := by rintro rfl; revert hc; decide
    rw [List.cons_append]
    unfold parseIso
    split
    · next h => exact absurd (List.cons.inj h).1 h1
    · next h => exact absurd (List.cons.inj h).1 h2
    · rfl

/-- **A day is recovered from its text.** -/
theorem parseIso_isoText (z : ℤ) : parseIso (isoText z) = some z := by
  simp only [isoText, isoYear]
  split
  · rw [parseIso_padded]
    refine parseFields_padded ?_
    simp only [Bool.false_eq_true, if_false]
    omega
  · split
    · refine @parseFields_padded true _ _ _ ?_
      simp only [if_true]
      omega
    · refine @parseFields_padded false _ _ _ ?_
      simp only [Bool.false_eq_true, if_false]
      omega

/-- The characters of a date: digits and the two signs. -/
theorem mem_isoText {z : ℤ} {c : Char} (h : c ∈ isoText z) :
    c.isDigit = true ∨ c = '-' ∨ c = '+' := by
  simp only [isoText, isoYear, List.mem_append, List.mem_cons] at h
  rcases h with h | h | h | h | h
  · split at h
    · exact Or.inl (isDigit_of_mem_padded h)
    · rcases List.mem_cons.mp h with h | h
      · right
        split at h
        · exact Or.inl h
        · exact Or.inr h
      · exact Or.inl (isDigit_of_mem_padded h)
  · exact Or.inr (Or.inl h)
  · exact Or.inl (isDigit_of_mem_padded h)
  · exact Or.inr (Or.inl h)
  · exact Or.inl (isDigit_of_mem_padded h)

example : isoText 20561 = "2026-04-18".toList := by decide

end Calendar
