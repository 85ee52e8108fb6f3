import Dayseam.Lib.Calendar
import Mathlib

/-!
# Timestamps as texts

An instant of UTC is written as its day, its time and as many digits of the second's
fraction as it takes: none, three, six or nine.  Two such texts may differ in length, so
their order is not that of two numbers.  It is still the order of the instants, as long
as the years have four digits: up to the fraction the fields have fixed widths, and after
it the sign of the offset sorts before the point, and the point and the sign before every
digit.  The texts are ASCII, where the order of the characters is that of the bytes.

## Main definitions

* `Instant` — an instant of UTC: the day, the second and the nanoseconds in it, which
  exceed a second in a leap second.
* `toRfc3339` — its text.

## Main results

* `civilOfDays_lt` — days and their civil names are in one order.
* `toRfc3339_lt_iff` — instants and their texts are in one order.
-/

namespace Calendar

/-! ### Days and their civil names -/

/-- The year that a day is counted in ends after it. -/
theorem lt_daysOfYearDay_succ (s : ℤ) : s < daysOfYearDay ((yearDayOfDays s).1 + 1) 0 := by
  simp only [yearDayOfDays]
  set e := s / 146097 with he
  set c := min (s % 146097 / 36524) 3 with hc
  set q := (s % 146097 - 36524 * c) / 1461 with hq
  set r := min ((s % 146097 - 36524 * c - 1461 * q) / 365) 3 with hr
  -- the next year is in the same four years, or begins four years, a century or an era
  rcases (by omega : r < 3 ∨ r = 3 ∧ q < 24 ∨ r = 3 ∧ q = 24 ∧ c < 3 ∨ r = 3 ∧ q = 24 ∧ c = 3)
    with hlt | ⟨hr3, hlt⟩ | ⟨hr3, hq24, hlt⟩ | ⟨hr3, hq24, hc3⟩
  · rw [Int.add_assoc, daysOfYearDay_eq (by omega) (by omega) (by omega)]
    omega
  · have hyear : 400 * e + 100 * c + 4 * q + r + 1 = 400 * e + 100 * c + 4 * (q + 1) + 0 := by
      omega
    rw [hyear, daysOfYearDay_eq (by omega) (by omega) (by omega)]
    omega
  · have hyear : 400 * e + 100 * c + 4 * q + r + 1 = 400 * e + 100 * (c + 1) + 4 * 0 + 0 := by
      omega
    rw [hyear, daysOfYearDay_eq (by omega) (by omega) (by omega)]
    omega
  · have hyear : 400 * e + 100 * c + 4 * q + r + 1 = 400 * (e + 1) + 100 * 0 + 4 * 0 + 0 := by
      omega
    rw [hyear, daysOfYearDay_eq (by omega) (by omega) (by omega)]
    omega

theorem daysOfYearDay_mono {y y' : ℤ} (h : y ≤ y') : daysOfYearDay y 0 ≤ daysOfYearDay y' 0 := by
  simp only [daysOfYearDay]
  omega

/-- A later day is in a later year, or at a later position of its year. -/
theorem yearDayOfDays_lt {s s' : ℤ} (h : s < s') :
    (yearDayOfDays s).1 < (yearDayOfDays s').1 ∨
      (yearDayOfDays s).1 = (yearDayOfDays s').1 ∧ (yearDayOfDays s).2 < (yearDayOfDays s').2 := by
  have hs := daysOfYearDay_yearDayOfDays s
  have hs' := daysOfYearDay_yearDayOfDays s'
  rcases lt_trichotomy (yearDayOfDays s).1 (yearDayOfDays s').1 with hlt | heq | hgt
  · exact Or.inl hlt
  · refine Or.inr ⟨heq, ?_⟩
    rw [heq] at hs
    simp only [daysOfYearDay] at hs hs'
    omega
  · -- the year of the later day would end before the earlier day's begins
    have hend := lt_daysOfYearDay_succ s'
    have hyear := daysOfYearDay_mono (Int.add_one_le_iff.mpr hgt)
    have hdoy := (yearDayOfDays_snd s).1
    simp only [daysOfYearDay] at hs hend hyear
    omega

/-- **Days and their civil names are in one order.** -/
theorem civilOfDays_lt {z z' : ℤ} (h : z < z') :
    (civilOfDays z).year < (civilOfDays z').year ∨
      (civilOfDays z).year = (civilOfDays z').year ∧
        ((civilOfDays z).month < (civilOfDays z').month ∨
          (civilOfDays z).month = (civilOfDays z').month ∧
            (civilOfDays z).day < (civilOfDays z').day) := by
  have hlt := yearDayOfDays_lt (Int.add_lt_add_right h epochShift)
  have hb := yearDayOfDays_snd (z + epochShift)
  have hb' := yearDayOfDays_snd (z' + epochShift)
  rcases hp : yearDayOfDays (z + epochShift) with ⟨y, doy⟩
  rcases hp' : yearDayOfDays (z' + epochShift) with ⟨y', doy'⟩
  rw [hp, hp'] at hlt
  rw [hp] at hb
  rw [hp'] at hb'
  simp only at hlt hb hb'
  simp only [civilOfDays, hp, hp']
  -- January and February, the last two months of a year from March, are of the next one
  split <;> split <;> omega

theorem civilOfDays_le (z : ℤ) : (civilOfDays z).month ≤ 12 ∧ (civilOfDays z).day ≤ 31 := by
  have hb := yearDayOfDays_snd (z + epochShift)
  rcases hp : yearDayOfDays (z + epochShift) with ⟨y, doy⟩
  rw [hp] at hb
  simp only at hb
  simp only [civilOfDays, hp]
  constructor
  · split <;> omega
  · omega

/-! ### Decimal texts of one width -/

theorem append_lt_append {p q : Text} (hlen : p.length = q.length) (h : p < q) (s t : Text) :
    p ++ s < q ++ t := by
  induction p generalizing q with
  | nil =>
    cases q with
    | nil => exact absurd h (lt_irrefl _)
    | cons b q => cases hlen
  | cons a p ih =>
    cases q with
    | nil => cases hlen
    | cons b q =>
      rw [List.cons_lt_cons_iff] at h
      rw [List.cons_append, List.cons_append, List.cons_lt_cons_iff]
      rcases h with hab | ⟨rfl, hpq⟩
      · exact Or.inl hab
      · exact Or.inr ⟨rfl, ih (Nat.succ.inj hlen) hpq⟩

theorem digitChar_lt {m n : ℕ} (h : m < n) (hn : n < 10) : m.digitChar < n.digitChar := by
  have hcode : m.digitChar.toNat < n.digitChar.toNat := by
    rw [Nat.toNat_digitChar_of_lt_ten (by omega), Nat.toNat_digitChar_of_lt_ten hn]
    omega
  exact hcode

/-- The last digit of a number. -/
theorem padded_succ {k : ℕ} (hk : 0 < k) (n : ℕ) :
    padded (k + 1) n = padded k (n / 10) ++ [(n % 10).digitChar] := by
  rcases Nat.lt_or_ge n 10 with hn | hn
  · have hzero : List.replicate k '0' = List.replicate (k - 1) '0' ++ ['0'] := by
      rw [← List.replicate_succ', Nat.sub_add_cancel hk]
    rw [padded, padded, Nat.toDigits_of_lt_base hn, Nat.div_eq_of_lt hn, Nat.mod_eq_of_lt hn,
      Nat.toDigits_zero]
    simp only [List.length_singleton, Nat.add_sub_cancel]
    rw [hzero]
  · have hlast := @Nat.toDigits_append_toDigits 10 (n / 10) (n % 10) (by omega) (by omega)
      (Nat.mod_lt _ (by omega))
    rw [Nat.toDigits_of_lt_base (Nat.mod_lt _ (by omega)), Nat.div_add_mod] at hlast
    rw [padded, padded, ← hlast, List.length_append, List.length_singleton,
      Nat.add_sub_add_right, List.append_assoc]

theorem length_padded {k n : ℕ} (hk : 0 < k) (hn : n < 10 ^ k) : (padded k n).length = k := by
  induction k, hk using Nat.le_induction generalizing n with
  | base =>
    rw [padded, Nat.toDigits_of_lt_base (by simpa using hn)]
    rfl
  | succ k hk ih =>
    have hdiv : n / 10 < 10 ^ k := by
      rw [Nat.pow_succ] at hn
      omega
    rw [padded_succ hk, List.length_append, ih hdiv]
    rfl

theorem padded_lt {k m n : ℕ} (hk : 0 < k) (hn : n < 10 ^ k) (h : m < n) :
    padded k m < padded k n := by
  induction k, hk using Nat.le_induction generalizing m n with
  | base =>
    have hten : n < 10 := by simpa using hn
    rw [padded, padded, Nat.toDigits_of_lt_base hten, Nat.toDigits_of_lt_base (by omega)]
    exact List.cons_lt_cons_iff.mpr (Or.inl (digitChar_lt h hten))
  | succ k hk ih =>
    rw [Nat.pow_succ] at hn
    have hdiv : n / 10 < 10 ^ k := by omega
    rw [padded_succ hk, padded_succ hk]
    rcases (by omega : m / 10 < n / 10 ∨ m / 10 = n / 10 ∧ m % 10 < n % 10)
      with hlt | ⟨heq, hlast⟩
    · refine append_lt_append ?_ (ih hdiv hlt) _ _
      rw [length_padded hk hdiv, length_padded hk (by omega)]
    · rw [heq]
      apply List.append_left_lt
      exact List.cons_lt_cons_iff.mpr (Or.inl (digitChar_lt hlast (Nat.mod_lt _ (by omega))))

/-- Numbers of one width with something after them. -/
theorem padded_append_lt {k m n : ℕ} (hk : 0 < k) (hm : m < 10 ^ k) (hn : n < 10 ^ k)
    {s t : Text} (h : m < n ∨ m = n ∧ s < t) : padded k m ++ s < padded k n ++ t := by
  rcases h with hlt | ⟨rfl, hst⟩
  · refine append_lt_append ?_ (padded_lt hk hn hlt) _ _
    rw [length_padded hk hm, length_padded hk hn]
  · exact List.append_left_lt hst

theorem padded_mul_pow {k : ℕ} (hk : 0 < k) (m j : ℕ) :
    padded (k + j) (m * 10 ^ j) = padded k m ++ List.replicate j '0' := by
  induction j with
  | zero => simp
  | succ j ih =>
    have hdiv : m * 10 ^ (j + 1) / 10 = m * 10 ^ j := by
      rw [Nat.pow_succ, ← Nat.mul_assoc, Nat.mul_div_cancel _ (by omega)]
    have hmod : m * 10 ^ (j + 1) % 10 = 0 := by
      rw [Nat.pow_succ, ← Nat.mul_assoc, Nat.mul_mod_left]
    rw [← Nat.add_assoc, padded_succ (by omega), hdiv, hmod, ih, List.append_assoc,
      List.replicate_succ']
    rfl

/-! ### The texts of days -/

/-- The year of the day is written with four digits and no sign. -/
def FourDigitYear (z : ℤ) : Prop := 0 ≤ (civilOfDays z).year ∧ (civilOfDays z).year ≤ 9999

instance : DecidablePred FourDigitYear := fun _ => inferInstanceAs (Decidable (_ ∧ _))

/-- Days with something after them. -/
theorem isoText_append_lt {a b : ℤ} (ha : FourDigitYear a) (hb : FourDigitYear b) {s t : Text}
    (h : a < b ∨ a = b ∧ s < t) : isoText a ++ s < isoText b ++ t := by
  rcases h with hlt | ⟨rfl, hst⟩
  · unfold FourDigitYear at ha hb
    have hcivil := civilOfDays_lt hlt
    have hpos := civilOfDays_pos a
    have hpos' := civilOfDays_pos b
    have hle := civilOfDays_le a
    have hle' := civilOfDays_le b
    simp only [isoText, isoYear, if_pos ha, if_pos hb, List.append_assoc, List.cons_append]
    -- year by year, then month by month, then day by day
    refine padded_append_lt (by omega) (by omega) (by omega) ?_
    rcases hcivil with hyear | ⟨hyear, hcivil⟩
    · exact Or.inl (by omega)
    refine Or.inr ⟨by rw [hyear], List.cons_lt_cons_iff.mpr (Or.inr ⟨rfl, ?_⟩)⟩
    refine padded_append_lt (by omega) (by omega) (by omega) ?_
    rcases hcivil with hmonth | ⟨hmonth, hday⟩
    · exact Or.inl (by omega)
    refine Or.inr ⟨by rw [hmonth], List.cons_lt_cons_iff.mpr (Or.inr ⟨rfl, ?_⟩)⟩
    exact padded_append_lt (by omega) (by omega) (by omega) (Or.inl (by omega))
  · exact List.append_left_lt hst

end Calendar

namespace Rfc3339

open Calendar

/-! ### Fractions of a second -/

/-- As many digits as the nanoseconds take, by threes. -/
def fraction (n : ℕ) : Text :=
  if n = 0 then []
  else if n % 1000000 = 0 then '.' :: padded 3 (n / 1000000)
  else if n % 1000 = 0 then '.' :: padded 6 (n / 1000)
  else '.' :: padded 9 n

/-- No digits sort before zeros. -/
theorem le_of_zeros {p : Text} (hp : ∀ c ∈ p, '0' ≤ c) :
    ¬ p < List.replicate p.length '0' := by
  induction p with
  | nil => exact lt_irrefl _
  | cons c p ih =>
    rw [List.length_cons, List.replicate_succ, List.cons_lt_cons_iff]
    rintro (hc | ⟨-, hp'⟩)
    · exact absurd hc (not_lt.mpr (hp c List.mem_cons_self))
    · exact ih (fun c hc => hp c (List.mem_cons_of_mem _ hc)) hp'

/-- Digits without their last zeros, before a sign that sorts before digits. -/
theorem stripped_lt {p q : Text} {i j : ℕ} (hp : ∀ c ∈ p, '0' ≤ c) (hq : ∀ c ∈ q, '0' ≤ c)
    (hlen : p.length + i = q.length + j)
    (h : p ++ List.replicate i '0' < q ++ List.replicate j '0') (s t : Text) :
    p ++ '+' :: s < q ++ '+' :: t := by
  induction p generalizing q with
  | nil =>
    cases q with
    | nil =>
      -- both are zeros, and one is not before the other
      rw [show i = j by simpa using hlen] at h
      exact absurd h (lt_irrefl _)
    | cons c q =>
      have hc : '+' < c := lt_of_lt_of_le (by decide) (hq c List.mem_cons_self)
      exact List.cons_lt_cons_iff.mpr (Or.inl hc)
  | cons b p ih =>
    cases q with
    | nil =>
      have hzeros := @le_of_zeros ((b :: p) ++ List.replicate i '0') fun c hc => by
        rcases List.mem_append.mp hc with hc | hc
        · exact hp c hc
        · exact (List.eq_of_mem_replicate hc).ge
      rw [List.length_append, List.length_replicate, hlen] at hzeros
      exact absurd (by simpa using h) (by simpa using hzeros)
    | cons c q =>
      rw [List.cons_append, List.cons_append, List.cons_lt_cons_iff] at h
      rw [List.cons_append, List.cons_append, List.cons_lt_cons_iff]
      rcases h with hbc | ⟨rfl, hpq⟩
      · exact Or.inl hbc
      · refine Or.inr ⟨rfl, ih (fun c hc => hp c (List.mem_cons_of_mem _ hc))
          (fun c hc => hq c (List.mem_cons_of_mem _ hc)) ?_ hpq⟩
        simp only [List.length_cons] at hlen
        omega

/-- A fraction that is not zero is a point and the nine digits without zeros at their end. -/
theorem exists_fraction {n : ℕ} (h0 : n ≠ 0) (hn : n < 1000000000) :
    ∃ p i, fraction n = '.' :: p ∧ (∀ c ∈ p, '0' ≤ c) ∧ p.length + i = 9 ∧
      padded 9 n = p ++ List.replicate i '0' := by
  have hdigits : ∀ k m, ∀ c ∈ padded k m, '0' ≤ c := by
    intro k m c hc
    have hdigit := isDigit_of_mem_padded hc
    simp only [Char.isDigit, Bool.and_eq_true, decide_eq_true_eq] at hdigit
    exact hdigit.1
  unfold fraction
  rw [if_neg h0]
  split_ifs with h6 h3
  · refine ⟨_, 6, rfl, hdigits _ _, ?_, ?_⟩
    · rw [length_padded (by omega) (by omega)]
    · have hcut : n / 1000000 * 10 ^ 6 = n := by omega
      rw [← padded_mul_pow (by omega), hcut]
  · refine ⟨_, 3, rfl, hdigits _ _, ?_, ?_⟩
    · rw [length_padded (by omega) (by omega)]
    · have hcut : n / 1000 * 10 ^ 3 = n := by omega
      rw [← padded_mul_pow (by omega), hcut]
  · refine ⟨_, 0, rfl, hdigits _ _, ?_, ?_⟩
    · rw [length_padded (by omega) (by omega)]
    · rw [List.replicate_zero, List.append_nil]

/-- **Fractions before the sign of the offset**, of any two precisions. -/
theorem fraction_append_lt {m n : ℕ} (hn : n < 1000000000) (h : m < n) (s t : Text) :
    fraction m ++ '+' :: s < fraction n ++ '+' :: t := by
  obtain ⟨q, j, hfrac, hq, hlen, hdigits⟩ := exists_fraction (by omega) hn
  rw [hfrac]
  rcases Nat.eq_zero_or_pos m with rfl | hm
  · -- the sign sorts before the point
    exact List.cons_lt_cons_iff.mpr (Or.inl (by decide))
  · obtain ⟨p, i, hfrac', hp, hlen', hdigits'⟩ := exists_fraction (by omega : m ≠ 0) (by omega)
    have hsum : p.length + i = q.length + j := by omega
    rw [hfrac']
    refine List.cons_lt_cons_iff.mpr (Or.inr ⟨rfl, stripped_lt hp hq hsum ?_ s t⟩)
    rw [← hdigits, ← hdigits']
    exact padded_lt (by omega) hn h

/-! ### Instants -/

/-- An instant of UTC.  Only the last second of a minute can be a leap second. -/
@[ext]
structure Instant where
  day : ℤ
  secs : ℕ
  frac : ℕ
  secs_lt : secs < 86400
  frac_lt : frac < 2000000000
  leap : 1000000000 ≤ frac → secs % 60 = 59
  deriving DecidableEq

namespace Instant

/-- The place of an instant in time. -/
def place (u : Instant) : ℤ ×ₗ ℕ ×ₗ ℕ := toLex (u.day, toLex (u.secs, u.frac))

theorem place_injective : Function.Injective place := by
  intro a b h
  simp only [place, EmbeddingLike.apply_eq_iff_eq, Prod.mk.injEq] at h
  exact Instant.ext h.1 h.2.1 h.2.2

/-- Earlier instants come first. -/
instance : LinearOrder Instant := LinearOrder.lift' place place_injective

theorem lt_iff {a b : Instant} : a < b ↔ a.day < b.day ∨
    a.day = b.day ∧ (a.secs < b.secs ∨ a.secs = b.secs ∧ a.frac < b.frac) := by
  rw [show a < b ↔ a.place < b.place from Iff.rfl, place, place, Prod.Lex.toLex_lt_toLex,
    Prod.Lex.toLex_lt_toLex]

/-- The first instant of a day. -/
def midnight (day : ℤ) : Instant := ⟨day, 0, 0, by omega, by omega, by omega⟩

/-- The instant that is some nanoseconds after the epoch. -/
def ofNanos (z : ℤ) : Instant where
  day := z / 86400000000000
  secs := (z % 86400000000000 / 1000000000).toNat
  frac := (z % 1000000000).toNat
  secs_lt := by omega
  frac_lt := by omega
  leap := by omega

theorem ofNanos_lt_iff {z z' : ℤ} : ofNanos z < ofNanos z' ↔ z < z' := by
  rw [lt_iff]
  simp only [ofNanos]
  omega

/-- An instant is in a day when it is not before the day's midnight and before the next. -/
theorem day_eq_iff {u : Instant} {day : ℤ} :
    u.day = day ↔ midnight day ≤ u ∧ u < midnight (day + 1) := by
  rw [← not_lt, lt_iff, lt_iff]
  simp only [midnight]
  omega

end Instant

/-- The text of an instant, as it is written with the offset of UTC. -/
def toRfc3339 (u : Instant) : Text :=
  isoText u.day ++ 'T' :: (padded 2 (u.secs / 3600) ++ ':' :: (padded 2 (u.secs / 60 % 60) ++
    ':' :: (padded 2 (u.secs % 60 + u.frac / 1000000000) ++
      (fraction (u.frac % 1000000000) ++ "+00:00".toList))))

/-- The text of a midnight. -/
theorem toRfc3339_midnight (day : ℤ) :
    toRfc3339 (Instant.midnight day) = isoText day ++ "T00:00:00+00:00".toList := by
  have hzero : padded 2 0 = "00".toList := by decide
  have hwhole : fraction 0 = [] := rfl
  simp only [toRfc3339, Instant.midnight, Nat.zero_div, Nat.zero_mod, Nat.add_zero, hzero, hwhole]
  rfl

theorem toRfc3339_lt {a b : Instant} (ha : FourDigitYear a.day) (hb : FourDigitYear b.day)
    (h : a < b) : toRfc3339 a < toRfc3339 b := by
  have hsecs := a.secs_lt
  have hsecs' := b.secs_lt
  have hfrac := a.frac_lt
  have hfrac' := b.frac_lt
  have hleap := a.leap
  have hleap' := b.leap
  refine isoText_append_lt ha hb ?_
  rcases Instant.lt_iff.mp h with hday | ⟨hday, htime⟩
  · exact Or.inl hday
  -- the hour, the minute and the second have two digits each, 60 in a leap second
  refine Or.inr ⟨hday, List.cons_lt_cons_iff.mpr (Or.inr ⟨rfl, ?_⟩)⟩
  refine padded_append_lt (by omega) (by omega) (by omega) ?_
  rcases (by omega : a.secs / 3600 < b.secs / 3600 ∨ a.secs / 3600 = b.secs / 3600)
    with hhour | hhour
  · exact Or.inl hhour
  refine Or.inr ⟨hhour, List.cons_lt_cons_iff.mpr (Or.inr ⟨rfl, ?_⟩)⟩
  refine padded_append_lt (by omega) (by omega) (by omega) ?_
  rcases (by omega : a.secs / 60 % 60 < b.secs / 60 % 60 ∨ a.secs / 60 % 60 = b.secs / 60 % 60)
    with hminute | hminute
  · exact Or.inl hminute
  refine Or.inr ⟨hminute, List.cons_lt_cons_iff.mpr (Or.inr ⟨rfl, ?_⟩)⟩
  refine padded_append_lt (by omega) (by omega) (by omega) ?_
  rcases (by omega : a.secs % 60 + a.frac / 1000000000 < b.secs % 60 + b.frac / 1000000000 ∨
    a.secs % 60 + a.frac / 1000000000 = b.secs % 60 + b.frac / 1000000000 ∧
      a.frac % 1000000000 < b.frac % 1000000000) with hsecond | ⟨hsecond, hnanos⟩
  · exact Or.inl hsecond
  · exact Or.inr ⟨hsecond, fraction_append_lt (Nat.mod_lt _ (by omega)) hnanos _ _⟩

/-- **Instants and their texts are in one order**, as long as their years have four
digits. -/
theorem toRfc3339_lt_iff {a b : Instant} (ha : FourDigitYear a.day) (hb : FourDigitYear b.day) :
    toRfc3339 a < toRfc3339 b ↔ a < b := by
  refine ⟨fun h => ?_, toRfc3339_lt ha hb⟩
  rcases lt_trichotomy a b with hlt | rfl | hgt
  · exact hlt
  · exact absurd h (lt_irrefl _)
  · exact absurd h (lt_asymm (toRfc3339_lt hb ha hgt))

/-- A year of five digits is written with a sign, which sorts before every digit. -/
theorem isoText_lt_of_long {a b : ℤ} (ha : 9999 < (civilOfDays a).year) (hb : FourDigitYear b)
    (s t : Text) : isoText a ++ s < isoText b ++ t := by
  have hlong : ¬ (0 ≤ (civilOfDays a).year ∧ (civilOfDays a).year ≤ 9999) := by omega
  unfold FourDigitYear at hb
  simp only [isoText, isoYear, if_neg hlong, if_pos hb,
    if_neg (by omega : ¬ (civilOfDays a).year < 0)]
  rcases hp : padded 4 (civilOfDays b).year.natAbs with _ | ⟨c, p⟩
  · exact absurd hp (padded_ne_nil _ _)
  · have hdigit : c.isDigit = true :=
      @isDigit_of_mem_padded 4 (civilOfDays b).year.natAbs c (by rw [hp]; exact List.mem_cons_self)
    simp only [Char.isDigit, Bool.and_eq_true, decide_eq_true_eq] at hdigit
    have hsign : '+' < c := lt_of_lt_of_le (by decide) hdigit.1
    exact List.cons_lt_cons_iff.mpr (Or.inl hsign)

example : toRfc3339 (Instant.ofNanos 1776679200123000000) =
    "2026-04-20T10:00:00.123+00:00".toList := by decide

end Rfc3339
