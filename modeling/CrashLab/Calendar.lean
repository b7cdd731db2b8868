import Mathlib.Data.Nat.Find
import Mathlib.Order.Monotone.Basic
import Mathlib.Tactic

namespace CrashLab.Calendar

/-! Days of the Gregorian calendar, counted from the first of January 1970; months are counted from 0. -/

section Tables

def isLeap (y : ℕ) : Bool := y % 4 = 0 && (y % 100 ≠ 0 || y % 400 = 0)

def leapsBefore (y : ℕ) : ℕ := (y - 1) / 4 - (y - 1) / 100 + (y - 1) / 400

def yearStart (y : ℕ) : ℕ := 365 * (y - 1970) + (leapsBefore y - leapsBefore 1970)

def monthStarts : List ℕ := [0, 31, 59, 90, 120, 151, 181, 212, 243, 273, 304, 334, 365]

def monthStart (leap : Bool) (m : ℕ) : ℕ := monthStarts.getD m 365 + if leap && 2 ≤ m then 1 else 0

theorem leapsBefore_succ {y : ℕ} (h : 0 < y) :
    leapsBefore (y + 1) = leapsBefore y + if isLeap y then 1 else 0 := by
  obtain ⟨n, rfl⟩ := Nat.exists_eq_succ_of_ne_zero h.ne'
  have hleap : isLeap (n + 1) = true ↔ 4 ∣ n + 1 ∧ (¬100 ∣ n + 1 ∨ 400 ∣ n + 1) := by
    simp [isLeap, Nat.dvd_iff_mod_eq_zero]
  have hfewer : n / 100 ≤ n / 4 := Nat.div_le_div_left (by decide) (by decide)
  have hcentury : 100 ∣ n + 1 → 4 ∣ n + 1 := fun h => Nat.dvd_trans (by decide) h
  have hfour : 400 ∣ n + 1 → 100 ∣ n + 1 := fun h => Nat.dvd_trans (by decide) h
  simp only [leapsBefore, Nat.succ_eq_add_one, hleap, Nat.add_sub_cancel, Nat.succ_div]
  generalize n / 4 = fourths at hfewer ⊢
  generalize n / 100 = centuries at hfewer ⊢
  generalize n / 400 = cycles
  by_cases hfourth : 4 ∣ n + 1
  · by_cases hhundred : 100 ∣ n + 1
    · by_cases hcycle : 400 ∣ n + 1
      · simp only [hfourth, hhundred, hcycle, if_true, not_true, false_or, and_true]
        omega
      · simp only [hfourth, hhundred, hcycle, if_true, if_false, not_true, or_false, and_false]
        omega
    · have hcycle : ¬400 ∣ n + 1 := fun h => hhundred (hfour h)
      simp only [hfourth, hhundred, hcycle, if_true, if_false, not_false_eq_true, true_or, and_true]
      omega
  · have hhundred : ¬100 ∣ n + 1 := fun h => hfourth (hcentury h)
    have hcycle : ¬400 ∣ n + 1 := fun h => hhundred (hfour h)
    simp only [hfourth, hhundred, hcycle, if_false, false_and, Nat.add_zero]

theorem leapsBefore_mono {y z : ℕ} (hy : 0 < y) (h : y ≤ z) : leapsBefore y ≤ leapsBefore z := by
  induction z, h using Nat.le_induction with
  | base => exact le_rfl
  | succ z hz ih =>
    rw [leapsBefore_succ (hy.trans_le hz)]
    omega

theorem yearStart_succ {y : ℕ} (h : 1970 ≤ y) : yearStart (y + 1) = yearStart y + monthStart (isLeap y) 12 := by
  have hend : monthStart (isLeap y) 12 = 365 + if isLeap y then 1 else 0 := by simp [monthStart, monthStarts]
  have hleaps := leapsBefore_mono (by omega) h
  have hyears : y + 1 - 1970 = (y - 1970) + 1 := Nat.sub_add_comm h
  rw [hend, yearStart, yearStart, leapsBefore_succ (by omega), hyears]
  omega

theorem yearStart_strictMono {y z : ℕ} (hy : 1970 ≤ y) (h : y < z) : yearStart y < yearStart z := by
  induction z, h using Nat.le_induction with
  | base =>
    have hpos : 0 < monthStart (isLeap y) 12 := by simp [monthStart, monthStarts]
    rw [yearStart_succ hy]
    omega
  | succ z hz ih =>
    have hle : y ≤ z := by omega
    rw [yearStart_succ (hy.trans hle)]
    omega

theorem le_yearStart (n : ℕ) : 365 * n ≤ yearStart (1970 + n) := by
  rw [yearStart, Nat.add_sub_cancel_left]
  exact Nat.le_add_right _ _

theorem monthStart_lt (leap : Bool) {m : ℕ} (h : m < 12) : monthStart leap m < monthStart leap (m + 1) := by
  revert m leap
  decide

theorem monthStart_mono (leap : Bool) {m n : ℕ} (h : m ≤ n) (hn : n ≤ 12) : monthStart leap m ≤ monthStart leap n := by
  induction n, h using Nat.le_induction with
  | base => exact le_rfl
  | succ n _ ih => exact (ih (by omega)).trans (monthStart_lt leap (by omega)).le

end Tables

section Fields

def yearOf (d : ℕ) : ℕ := Nat.findGreatest (fun y => yearStart y ≤ d) (1970 + d / 365)

def dayOfYear (d : ℕ) : ℕ := d - yearStart (yearOf d)

def monthOf (d : ℕ) : ℕ := Nat.findGreatest (fun m => monthStart (isLeap (yearOf d)) m ≤ dayOfYear d) 11

def dateOf (d : ℕ) : ℕ := dayOfYear d - monthStart (isLeap (yearOf d)) (monthOf d) + 1

def weekdayOf (d : ℕ) : ℕ := (d + 4) % 7

def dayNumber (y m date : ℕ) : ℕ := yearStart (y + m / 12) + monthStart (isLeap (y + m / 12)) (m % 12) + (date - 1)

theorem yearOf_spec (d : ℕ) : 1970 ≤ yearOf d ∧ yearStart (yearOf d) ≤ d ∧ d < yearStart (yearOf d + 1) := by
  have hstart : yearStart 1970 ≤ d := by
    rw [show yearStart 1970 = 0 by decide]
    exact Nat.zero_le d
  have hbound : 1970 ≤ 1970 + d / 365 := Nat.le_add_right _ _
  have hfrom : 1970 ≤ yearOf d := Nat.le_findGreatest hbound hstart
  refine ⟨hfrom, Nat.findGreatest_spec (P := fun y => yearStart y ≤ d) hbound hstart, ?_⟩
  by_contra hle
  rw [not_lt] at hle
  by_cases hin : yearOf d + 1 ≤ 1970 + d / 365
  · have := Nat.le_findGreatest (P := fun y => yearStart y ≤ d) hin hle
    have hself : Nat.findGreatest (fun y => yearStart y ≤ d) (1970 + d / 365) = yearOf d := rfl
    omega
  · have hlast := le_yearStart (d / 365 + 1)
    have hmono : yearStart (1970 + (d / 365 + 1)) ≤ yearStart (yearOf d + 1) := by
      rcases Nat.eq_or_lt_of_le (show 1970 + (d / 365 + 1) ≤ yearOf d + 1 by omega) with heq | hlt
      · rw [heq]
      · exact (yearStart_strictMono (by omega) hlt).le
    omega

theorem yearOf_eq {d y : ℕ} (hy : 1970 ≤ y) (hstart : yearStart y ≤ d) (hend : d < yearStart (y + 1)) :
    yearOf d = y := by
  obtain ⟨hfrom, hle, hlt⟩ := yearOf_spec d
  rcases lt_trichotomy (yearOf d) y with h | h | h
  · have hnext : yearStart (yearOf d + 1) ≤ yearStart y := by
      rcases Nat.eq_or_lt_of_le (show yearOf d + 1 ≤ y from h) with heq | hlater
      · rw [heq]
      · exact (yearStart_strictMono (by omega) hlater).le
    omega
  · exact h
  · have hnext : yearStart (y + 1) ≤ yearStart (yearOf d) := by
      rcases Nat.eq_or_lt_of_le (show y + 1 ≤ yearOf d from h) with heq | hlater
      · rw [heq]
      · exact (yearStart_strictMono (by omega) hlater).le
    omega

theorem dayOfYear_lt (d : ℕ) : dayOfYear d < monthStart (isLeap (yearOf d)) 12 := by
  obtain ⟨hfrom, hle, hlt⟩ := yearOf_spec d
  rw [yearStart_succ hfrom] at hlt
  unfold dayOfYear
  omega

theorem monthOf_spec (d : ℕ) : monthOf d ≤ 11 ∧ monthStart (isLeap (yearOf d)) (monthOf d) ≤ dayOfYear d ∧
    dayOfYear d < monthStart (isLeap (yearOf d)) (monthOf d + 1) := by
  have hstart : monthStart (isLeap (yearOf d)) 0 ≤ dayOfYear d := by simp [monthStart, monthStarts]
  have hle : monthOf d ≤ 11 := Nat.findGreatest_le 11
  refine ⟨hle, Nat.findGreatest_spec (P := fun m => monthStart (isLeap (yearOf d)) m ≤ dayOfYear d)
    (Nat.zero_le 11) hstart, ?_⟩
  by_contra hnext
  rw [not_lt] at hnext
  rcases Nat.eq_or_lt_of_le hle with heq | hlt
  · rw [heq] at hnext
    exact absurd (dayOfYear_lt d) (not_lt.mpr hnext)
  · have hlater := Nat.le_findGreatest (P := fun m => monthStart (isLeap (yearOf d)) m ≤ dayOfYear d)
      (show monthOf d + 1 ≤ 11 from hlt) hnext
    have hself : Nat.findGreatest (fun m => monthStart (isLeap (yearOf d)) m ≤ dayOfYear d) 11 = monthOf d := rfl
    omega

theorem monthOf_eq {d m : ℕ} (hm : m ≤ 11) (hstart : monthStart (isLeap (yearOf d)) m ≤ dayOfYear d)
    (hend : dayOfYear d < monthStart (isLeap (yearOf d)) (m + 1)) : monthOf d = m := by
  obtain ⟨hle, hfrom, hlt⟩ := monthOf_spec d
  rcases lt_trichotomy (monthOf d) m with h | h | h
  · have := monthStart_mono (isLeap (yearOf d)) (show monthOf d + 1 ≤ m from h) (by omega)
    omega
  · exact h
  · have := monthStart_mono (isLeap (yearOf d)) (show m + 1 ≤ monthOf d from h) (by omega)
    omega

end Fields

section NextMonth

def nextMonth (d : ℕ) : ℕ := dayNumber (yearOf d) (monthOf d + 1) 1

theorem nextMonth_eq (d : ℕ) :
    nextMonth d = yearStart (yearOf d) + monthStart (isLeap (yearOf d)) (monthOf d + 1) := by
  obtain ⟨hm, -, -⟩ := monthOf_spec d
  obtain ⟨hfrom, -, -⟩ := yearOf_spec d
  rw [nextMonth, dayNumber]
  rcases Nat.eq_or_lt_of_le hm with heq | hlt
  · rw [heq, show (11 + 1) / 12 = 1 from rfl, show (11 + 1) % 12 = 0 from rfl, yearStart_succ hfrom]
    simp [monthStart, monthStarts]
  · have hyear : yearOf d + (monthOf d + 1) / 12 = yearOf d := by omega
    have hmonth : (monthOf d + 1) % 12 = monthOf d + 1 := by omega
    rw [hyear, hmonth]
    omega

theorem lt_nextMonth (d : ℕ) : d < nextMonth d := by
  obtain ⟨-, -, hlt⟩ := monthOf_spec d
  obtain ⟨-, hle, -⟩ := yearOf_spec d
  rw [nextMonth_eq]
  unfold dayOfYear at hlt
  omega

theorem monthOf_of_lt_nextMonth {d d' : ℕ} (hle : d ≤ d') (hlt : d' < nextMonth d) : monthOf d' = monthOf d := by
  obtain ⟨hm, hstart, -⟩ := monthOf_spec d
  obtain ⟨hfrom, hyear, -⟩ := yearOf_spec d
  have hend := monthStart_mono (isLeap (yearOf d)) (show monthOf d + 1 ≤ 12 by omega) le_rfl
  rw [nextMonth_eq] at hlt
  have hsame : yearOf d' = yearOf d := by
    apply yearOf_eq hfrom (hyear.trans hle)
    rw [yearStart_succ hfrom]
    omega
  apply monthOf_eq hm
  · rw [hsame]
    unfold dayOfYear at *
    rw [hsame]
    omega
  · rw [hsame]
    unfold dayOfYear at *
    rw [hsame]
    omega

end NextMonth

section Dates

def monthLength (leap : Bool) (m : ℕ) : ℕ := monthStart leap (m + 1) - monthStart leap m

theorem monthLength_le_leap (leap : Bool) {m : ℕ} (h : m < 12) : monthLength leap m ≤ monthLength true m := by
  revert m leap
  decide

theorem week_le_monthLength (leap : Bool) {m : ℕ} (h : m < 12) : 7 ≤ monthLength leap m := by
  revert m leap
  decide

theorem fields_of_date {y m x : ℕ} (hy : 1970 ≤ y) (hm : m < 12) (hx : x < monthLength (isLeap y) m) :
    monthOf (yearStart y + monthStart (isLeap y) m + x) = m ∧
      dateOf (yearStart y + monthStart (isLeap y) m + x) = x + 1 := by
  have hnext : monthStart (isLeap y) m + x < monthStart (isLeap y) (m + 1) := by
    unfold monthLength at hx
    omega
  have hend := monthStart_mono (isLeap y) (show m + 1 ≤ 12 from hm) le_rfl
  have hyear : yearOf (yearStart y + monthStart (isLeap y) m + x) = y := by
    apply yearOf_eq hy
    · omega
    · rw [yearStart_succ hy]
      omega
  have hday : dayOfYear (yearStart y + monthStart (isLeap y) m + x) = monthStart (isLeap y) m + x := by
    rw [dayOfYear, hyear]
    omega
  have hmonth : monthOf (yearStart y + monthStart (isLeap y) m + x) = m := by
    apply monthOf_eq (Nat.lt_succ_iff.mp hm) <;> rw [hyear, hday]
    · exact Nat.le_add_right _ _
    · exact hnext
  refine ⟨hmonth, ?_⟩
  rw [dateOf, hmonth, hyear, hday, Nat.add_sub_cancel_left]

theorem dateOf_le (d : ℕ) : dateOf d ≤ monthLength (isLeap (yearOf d)) (monthOf d) := by
  obtain ⟨-, hstart, hend⟩ := monthOf_spec d
  unfold dateOf monthLength
  omega

theorem dateOf_nextMonth (d : ℕ) : dateOf (nextMonth d) = 1 := by
  obtain ⟨hfrom, -, -⟩ := yearOf_spec d
  have hy : 1970 ≤ yearOf d + (monthOf d + 1) / 12 := hfrom.trans (Nat.le_add_right _ _)
  have hm : (monthOf d + 1) % 12 < 12 := Nat.mod_lt _ (by decide)
  have hpos := week_le_monthLength (isLeap (yearOf d + (monthOf d + 1) / 12)) hm
  exact (fields_of_date hy hm (show 0 < _ by omega)).2

theorem exists_leap (y : ℕ) : ∃ z, y < z ∧ z ≤ y + 8 ∧ isLeap z = true := by
  have hfirst : 4 * (y / 4 + 1) % 4 = 0 := Nat.mul_mod_right 4 _
  have hsecond : 4 * (y / 4 + 2) % 4 = 0 := Nat.mul_mod_right 4 _
  by_cases hcentury : 4 * (y / 4 + 1) % 100 = 0
  · refine ⟨4 * (y / 4 + 2), by omega, by omega, ?_⟩
    have h : 4 * (y / 4 + 2) % 100 ≠ 0 := by omega
    simp [isLeap, hsecond, h]
  · refine ⟨4 * (y / 4 + 1), by omega, by omega, ?_⟩
    simp [isLeap, hfirst, hcentury]

theorem yearStart_add_le {y : ℕ} (hy : 1970 ≤ y) (n : ℕ) : yearStart (y + n) ≤ yearStart y + 366 * n := by
  induction n with
  | zero => simp
  | succ n ih =>
    have hyear : ∀ leap, monthStart leap 12 ≤ 366 := by
      rintro (_ | _) <;> simp [monthStart, monthStarts]
    have := hyear (isLeap (y + n))
    rw [← Nat.add_assoc, yearStart_succ (hy.trans (Nat.le_add_right y n))]
    omega

def longestWait : ℕ := 366 * 9

theorem exists_leapYear (d : ℕ) : ∃ y, 1970 ≤ y ∧ isLeap y = true ∧ ∀ m x, m < 12 → x < monthLength true m →
    d < yearStart y + monthStart true m + x ∧ yearStart y + monthStart true m + x ≤ d + longestWait := by
  obtain ⟨hfrom, hstart, hend⟩ := yearOf_spec d
  obtain ⟨y, hlt, hle, hleap⟩ := exists_leap (yearOf d)
  have hy : 1970 ≤ y := hfrom.trans hlt.le
  refine ⟨y, hy, hleap, ?_⟩
  intro m x hm hx
  have hlater : yearStart (yearOf d + 1) ≤ yearStart y := by
    rcases Nat.eq_or_lt_of_le (show yearOf d + 1 ≤ y from hlt) with heq | hlater
    · rw [heq]
    · exact (yearStart_strictMono (by omega) hlater).le
  have hwait : yearStart (y + 1) ≤ yearStart (yearOf d) + longestWait := by
    refine le_trans ?_ (yearStart_add_le hfrom 9)
    rcases Nat.eq_or_lt_of_le (show y + 1 ≤ yearOf d + 9 by omega) with heq | hlater
    · rw [heq]
    · exact (yearStart_strictMono (by omega) hlater).le
  rw [yearStart_succ hy, hleap] at hwait
  have hmonth := monthStart_mono true (show m + 1 ≤ 12 from hm) le_rfl
  unfold monthLength at hx
  omega

theorem exists_date (d d' : ℕ) :
    ∃ e, d < e ∧ e ≤ d + longestWait ∧ monthOf e = monthOf d' ∧ dateOf e = dateOf d' := by
  obtain ⟨y, hy, hleap, hwait⟩ := exists_leapYear d
  have hm : monthOf d' < 12 := Nat.lt_succ_iff.mpr (monthOf_spec d').1
  have hpos : 0 < dateOf d' := Nat.succ_pos _
  have hx : dateOf d' - 1 < monthLength true (monthOf d') := by
    have := (dateOf_le d').trans (monthLength_le_leap _ hm)
    omega
  obtain ⟨hlt, hle⟩ := hwait _ _ hm hx
  rw [← hleap] at hx hlt hle
  obtain ⟨hmonth, hdate⟩ := fields_of_date hy hm hx
  exact ⟨_, hlt, hle, hmonth, by omega⟩

theorem exists_weekday (d d' : ℕ) :
    ∃ e, d < e ∧ e ≤ d + longestWait ∧ monthOf e = monthOf d' ∧ weekdayOf e = weekdayOf d' := by
  obtain ⟨y, hy, hleap, hwait⟩ := exists_leapYear d
  have hm : monthOf d' < 12 := Nat.lt_succ_iff.mpr (monthOf_spec d').1
  have hweek := week_le_monthLength true hm
  -- of the first seven days of the month one is the day asked for
  obtain ⟨x, hx, hday⟩ : ∃ x, x < 7 ∧ weekdayOf (yearStart y + monthStart true (monthOf d') + x) = weekdayOf d' := by
    generalize yearStart y + monthStart true (monthOf d') = first
    refine ⟨(weekdayOf d' + 7 - weekdayOf first) % 7, Nat.mod_lt _ (by decide), ?_⟩
    unfold weekdayOf
    omega
  have hx' : x < monthLength true (monthOf d') := hx.trans_le hweek
  obtain ⟨hlt, hle⟩ := hwait _ _ hm hx'
  rw [← hleap] at hx' hlt hle hday
  exact ⟨_, hlt, hle, (fields_of_date hy hm hx').1, hday⟩

end Dates

section IsoText

def padded (width n : ℕ) : List Char :=
  let digits := Nat.toDigits 10 n
  List.replicate (width - digits.length) '0' ++ digits

def yearText (y : ℕ) : List Char := if y ≤ 9999 then padded 4 y else '+' :: padded 6 y

/-- `Date.prototype.toISOString` of the milliseconds since the epoch. -/
def isoText (ms : ℕ) : List Char :=
  let d := ms / 86400000
  yearText (yearOf d) ++ '-' :: padded 2 (monthOf d + 1) ++ '-' :: padded 2 (dateOf d) ++
    'T' :: padded 2 (ms / 3600000 % 24) ++ ':' :: padded 2 (ms / 60000 % 60) ++
    ':' :: padded 2 (ms / 1000 % 60) ++ '.' :: padded 3 (ms % 1000) ++ ['Z']

example : isoText 1772323200000 = "2026-03-01T00:00:00.000Z".toList := by decide +kernel

end IsoText

end CrashLab.Calendar
