import Mathlib.Algebra.BigOperators.Intervals
import Mathlib.Algebra.Order.BigOperators.Group.Finset
import Mathlib.Data.Nat.Find
import Mathlib.Tactic.Lemma

/-!
The calendar of `gmtime`: the date and the time of day of a number of seconds since 1970.

The years and the months of a year are stretches of days, one after the other, each beginning where
the one before it ends. Looking up the last one that has begun gives the date, and adding the
lengths of the stretches before it gives the number of days back. So the broken-down time and the
number of seconds determine each other, and the one comes before the other just when the other does.
-/

namespace BinanceAggregator.Calendar

/-! ### The last stretch that has begun -/

section Lookup

variable {f : ℕ → ℕ} {last n k : ℕ}

/-- The last of the stretches that begin at `f 0`, `f 1`, …, `f last` that has begun at `n`. -/
def locate (f : ℕ → ℕ) (last n : ℕ) : ℕ := Nat.findGreatest (fun k => f k ≤ n) last

lemma locate_le : locate f last n ≤ last := Nat.findGreatest_le last

lemma apply_locate_le (h : f 0 ≤ n) : f (locate f last n) ≤ n :=
  Nat.findGreatest_spec (P := fun k => f k ≤ n) (Nat.zero_le last) h

/-- It has not ended. -/
lemma lt_apply_locate_succ (h : n < f (last + 1)) : n < f (locate f last n + 1) := by
  have hle : locate f last n ≤ last := locate_le
  rcases Nat.eq_or_lt_of_le hle with heq | hlt
  · rwa [heq]
  · by_contra hle
    exact Nat.findGreatest_is_greatest (Nat.lt_succ_self _) hlt (Nat.le_of_not_lt hle)

/-- Only one stretch has begun and not ended. -/
lemma locate_eq (hf : Monotone f) (hk : k ≤ last) (h1 : f k ≤ n) (h2 : n < f (k + 1)) :
    locate f last n = k := by
  refine (Nat.findGreatest_eq_iff).mpr ⟨hk, fun _ => h1, fun j hkj _ hj => ?_⟩
  have hmono := hf (show k + 1 ≤ j from hkj)
  omega

end Lookup

/-! ### Years and months -/

def isLeap (year : ℕ) : Bool := year % 4 = 0 && (year % 100 ≠ 0 || year % 400 = 0)

def yearLength (year : ℕ) : ℕ := if isLeap year then 366 else 365

/-- The number of leap years from the year 1 on, up to and including `year`. -/
def leapsThrough (year : ℕ) : ℕ := year / 4 - year / 100 + year / 400

/-- The days from the beginning of 1970 to the beginning of the year `1970 + k`. -/
def yearStart (k : ℕ) : ℕ := 365 * k + (leapsThrough (1969 + k) - leapsThrough 1969)

/-- The days of a month; January is 0. -/
def daysInMonth (year : ℕ) : ℕ → ℕ
  | 1 => if isLeap year then 29 else 28
  | 3 | 5 | 8 | 10 => 30
  | 0 | 2 | 4 | 6 | 7 | 9 | 11 => 31
  | _ => 0

/-- The days from the beginning of a year to that of a month. -/
def monthStart (year month : ℕ) : ℕ := ∑ m ∈ Finset.range month, daysInMonth year m

@[simp] lemma yearStart_zero : yearStart 0 = 0 := by decide

/-- Each year begins where the one before it ends. -/
lemma yearStart_succ (k : ℕ) : yearStart (k + 1) = yearStart k + yearLength (1970 + k) := by
  unfold yearStart yearLength isLeap leapsThrough
  grind

lemma yearStart_mono : Monotone yearStart :=
  monotone_nat_of_le_succ fun k => by rw [yearStart_succ]; exact Nat.le_add_right _ _

lemma le_yearStart (k : ℕ) : 365 * k ≤ yearStart k := Nat.le_add_right _ _

@[simp] lemma monthStart_zero (year : ℕ) : monthStart year 0 = 0 := rfl

/-- Each month begins where the one before it ends. -/
lemma monthStart_succ (year month : ℕ) :
    monthStart year (month + 1) = monthStart year month + daysInMonth year month :=
  Finset.sum_range_succ _ _

lemma monthStart_mono (year : ℕ) : Monotone (monthStart year) :=
  monotone_nat_of_le_succ fun m => by rw [monthStart_succ]; exact Nat.le_add_right _ _

/-- The twelve months make up the year. -/
lemma monthStart_twelve (year : ℕ) : monthStart year 12 = yearLength year := by
  unfold yearLength
  cases h : isLeap year <;> simp [monthStart, Finset.sum_range_succ, daysInMonth, h]

/-! ### Broken-down time -/

/-- The fields of a `struct tm` that tell the date and the time of day. -/
@[ext] structure Tm where
  tmSec : ℕ
  tmMin : ℕ
  tmHour : ℕ
  tmMday : ℕ
  tmMon : ℕ
  tmYear : ℕ
  deriving DecidableEq

namespace Tm

/-- Years are counted from 1900. -/
def year (t : Tm) : ℕ := t.tmYear + 1900

/-- A date from 1970 on, and a time of day. -/
structure Valid (t : Tm) : Prop where
  year : 70 ≤ t.tmYear
  month : t.tmMon < 12
  day : 1 ≤ t.tmMday ∧ t.tmMday ≤ daysInMonth t.year t.tmMon
  hour : t.tmHour < 24
  minute : t.tmMin < 60
  second : t.tmSec < 60

/-- The days since the beginning of 1970. -/
def days (t : Tm) : ℕ := yearStart (t.tmYear - 70) + (monthStart t.year t.tmMon + (t.tmMday - 1))

end Tm

/-- `timegm`: the seconds since the beginning of 1970. -/
def timegm (t : Tm) : ℕ := 86400 * t.days + (3600 * t.tmHour + 60 * t.tmMin + t.tmSec)

/-- The years since 1970 of a day. -/
def yearIndex (days : ℕ) : ℕ := locate yearStart (days / 365) days

/-- The month of a day of a year. -/
def monthIndex (year yday : ℕ) : ℕ := locate (monthStart year) 11 yday

/-- `gmtime`. -/
def gmtime (seconds : ℕ) : Tm :=
  let days := seconds / 86400
  let rem := seconds % 86400
  let k := yearIndex days
  let yday := days - yearStart k
  let month := monthIndex (1970 + k) yday
  { tmSec := rem % 60
    tmMin := rem % 3600 / 60
    tmHour := rem / 3600
    tmMday := yday - monthStart (1970 + k) month + 1
    tmMon := month
    tmYear := 70 + k }

lemma yearIndex_spec (days : ℕ) :
    yearStart (yearIndex days) ≤ days ∧ days < yearStart (yearIndex days + 1) := by
  refine ⟨apply_locate_le (by simp), lt_apply_locate_succ ?_⟩
  have hle := le_yearStart (days / 365 + 1)
  omega

lemma monthIndex_spec {year yday : ℕ} (h : yday < yearLength year) :
    monthStart year (monthIndex year yday) ≤ yday ∧
      yday < monthStart year (monthIndex year yday + 1) ∧ monthIndex year yday < 12 := by
  refine ⟨apply_locate_le (by simp), lt_apply_locate_succ ?_, Nat.lt_succ_of_le locate_le⟩
  rwa [monthStart_twelve]

/-- The day of the year is one of the year. -/
lemma yday_lt (days : ℕ) :
    days - yearStart (yearIndex days) < yearLength (1970 + yearIndex days) := by
  obtain ⟨h1, h2⟩ := yearIndex_spec days
  rw [yearStart_succ] at h2
  omega

lemma year_gmtime (seconds : ℕ) : (gmtime seconds).year = 1970 + yearIndex (seconds / 86400) := by
  simp only [Tm.year, gmtime]
  omega

/-- **The broken-down time is one.** -/
theorem valid_gmtime (seconds : ℕ) : (gmtime seconds).Valid := by
  obtain ⟨h1, h2, h3⟩ := monthIndex_spec (yday_lt (seconds / 86400))
  rw [monthStart_succ] at h2
  refine ⟨?_, ?_, ⟨?_, ?_⟩, ?_, ?_, ?_⟩
  case refine_4 =>
    rw [year_gmtime]
    simp only [gmtime]
    omega
  all_goals
    simp only [gmtime]
    omega

lemma days_gmtime (seconds : ℕ) : (gmtime seconds).days = seconds / 86400 := by
  obtain ⟨h1, -⟩ := yearIndex_spec (seconds / 86400)
  obtain ⟨h2, -, -⟩ := monthIndex_spec (yday_lt (seconds / 86400))
  rw [Tm.days, year_gmtime]
  simp only [gmtime, Nat.add_sub_cancel_left, Nat.add_sub_cancel]
  omega

/-- **No second is lost**: the broken-down time gives the seconds back. -/
theorem timegm_gmtime (seconds : ℕ) : timegm (gmtime seconds) = seconds := by
  rw [timegm, days_gmtime]
  simp only [gmtime]
  omega

/-- The year grows by one in 365 days at the least. -/
lemma tmYear_gmtime_le (seconds : ℕ) : (gmtime seconds).tmYear ≤ 70 + seconds / 86400 / 365 :=
  Nat.add_le_add_left locate_le 70

/-! ### Every date has its seconds, and dates are ordered as their seconds are -/

namespace Tm.Valid

variable {t t' : Tm}

/-- The day is one of its month. -/
lemma lt_monthStart_succ (h : t.Valid) :
    monthStart t.year t.tmMon + (t.tmMday - 1) < monthStart t.year (t.tmMon + 1) := by
  have hday := h.day
  rw [monthStart_succ]
  omega

/-- The day is one of its year. -/
lemma days_lt (h : t.Valid) : t.days < yearStart (t.tmYear - 70 + 1) := by
  have hmonth := h.lt_monthStart_succ
  have hmono := monthStart_mono t.year (show t.tmMon + 1 ≤ 12 from h.month)
  have hyear : 1970 + (t.tmYear - 70) = t.year := by
    have := h.year
    unfold Tm.year
    omega
  rw [monthStart_twelve] at hmono
  rw [yearStart_succ, hyear, Tm.days]
  omega

lemma time_lt (h : t.Valid) : 3600 * t.tmHour + 60 * t.tmMin + t.tmSec < 86400 := by
  have := h.hour
  have := h.minute
  have := h.second
  omega

lemma yearIndex_days (h : t.Valid) : yearIndex t.days = t.tmYear - 70 := by
  have hle : yearStart (t.tmYear - 70) ≤ t.days := Nat.le_add_right _ _
  refine locate_eq yearStart_mono ?_ hle h.days_lt
  have hyear := le_yearStart (t.tmYear - 70)
  omega

lemma monthIndex_yday (h : t.Valid) :
    monthIndex t.year (monthStart t.year t.tmMon + (t.tmMday - 1)) = t.tmMon :=
  locate_eq (monthStart_mono _) (Nat.le_of_lt_succ h.month) (Nat.le_add_right _ _)
    h.lt_monthStart_succ

end Tm.Valid

/-- **Every date is that of its seconds.** -/
theorem gmtime_timegm {t : Tm} (h : t.Valid) : gmtime (timegm t) = t := by
  have htime := h.time_lt
  have hdiv : timegm t / 86400 = t.days := by
    unfold timegm
    omega
  have hmod : timegm t % 86400 = 3600 * t.tmHour + 60 * t.tmMin + t.tmSec := by
    unfold timegm
    omega
  have hyear : 1970 + (t.tmYear - 70) = t.year := by
    have := h.year
    unfold Tm.year
    omega
  have hyday : t.days - yearStart (t.tmYear - 70) = monthStart t.year t.tmMon + (t.tmMday - 1) :=
    Nat.add_sub_cancel_left ..
  have hfields := And.intro h.year (And.intro h.day (And.intro h.minute h.second))
  ext <;>
    simp only [gmtime, hdiv, hmod, h.yearIndex_days, hyear, hyday, h.monthIndex_yday] <;> omega

/-- The fields in the order of their weight. -/
def Tm.key (t : Tm) : List ℕ := [t.tmYear, t.tmMon, t.tmMday, t.tmHour, t.tmMin, t.tmSec]

lemma timegm_lt_of_key_lt {t t' : Tm} (h : t.Valid) (h' : t'.Valid) (hlt : t.key < t'.key) :
    timegm t < timegm t' := by
  have htime := h.time_lt
  have hdays : t.days < t'.days ∨ t.days = t'.days ∧
      3600 * t.tmHour + 60 * t.tmMin + t.tmSec < 3600 * t'.tmHour + 60 * t'.tmMin + t'.tmSec := by
    have hday := h.day
    have hday' := h'.day
    have hminute := h.minute
    have hsecond := h.second
    simp only [Tm.key, List.cons_lt_cons_iff, List.not_lt_nil, and_false, or_false] at hlt
    rcases hlt with hlt | ⟨hyear, hlt⟩
    · -- an earlier year
      refine .inl ?_
      have hend := h.days_lt
      have hmono := yearStart_mono (show t.tmYear - 70 + 1 ≤ t'.tmYear - 70 by
        have := h.year
        omega)
      have hbegin : yearStart (t'.tmYear - 70) ≤ t'.days := Nat.le_add_right _ _
      omega
    · have hyear' : t.year = t'.year := by rw [Tm.year, hyear, Tm.year]
      have hmonth := h.lt_monthStart_succ
      rw [Tm.days, Tm.days, hyear, hyear']
      rw [hyear'] at hmonth
      rcases hlt with hlt | ⟨hmon, hlt⟩
      · -- an earlier month
        have hmono := monthStart_mono t'.year (show t.tmMon + 1 ≤ t'.tmMon from hlt)
        omega
      · rw [hmon]
        omega
  unfold timegm
  omega

/-- **The order of the seconds** is the order of the dates and times, the year first. -/
theorem key_gmtime_lt_iff {m n : ℕ} : (gmtime m).key < (gmtime n).key ↔ m < n := by
  have hlt {m n : ℕ} (h : (gmtime m).key < (gmtime n).key) : m < n := by
    simpa only [timegm_gmtime] using timegm_lt_of_key_lt (valid_gmtime m) (valid_gmtime n) h
  refine ⟨hlt, fun h => ?_⟩
  rcases lt_trichotomy (gmtime m).key (gmtime n).key with hkey | hkey | hkey
  · exact hkey
  · have hsame : gmtime m = gmtime n := by
      cases hm : gmtime m
      cases hn : gmtime n
      simpa [Tm.key, hm, hn, and_comm, and_left_comm, and_assoc] using hkey
    have hmn := congrArg timegm hsame
    rw [timegm_gmtime, timegm_gmtime] at hmn
    omega
  · have := hlt hkey
    omega

end BinanceAggregator.Calendar
