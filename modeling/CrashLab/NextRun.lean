import CrashLab.Calendar
import CrashLab.CronParser
import CrashLab.LeastWalks

namespace CrashLab.Cron

open Calendar LeastWalks

def maxIterations : ℕ := 10000

def minuteMs : ℕ := 60000

def hourMs : ℕ := 3600000

def dayMs : ℕ := 86400000

/-- The last instant a `Date` can hold. -/
def maxTime : ℕ := 8640000000000000

def minuteOf (t : ℕ) : ℕ := t / minuteMs % 60

def hourOf (t : ℕ) : ℕ := t / hourMs % 24

def dayOf (t : ℕ) : ℕ := t / dayMs

def dayMatches (expr : CronExpression) (t : ℕ) : Bool :=
  let dom := dateOf (dayOf t)
  let dow := weekdayOf (dayOf t)
  if expr.dayOfMonthRestricted && expr.dayOfWeekRestricted then
    expr.dayOfMonth.contains dom || expr.dayOfWeek.contains dow
  else if expr.dayOfMonthRestricted then expr.dayOfMonth.contains dom
  else if expr.dayOfWeekRestricted then expr.dayOfWeek.contains dow
  else true

def monthMatches (expr : CronExpression) (t : ℕ) : Bool := expr.month.contains (monthOf (dayOf t) + 1)

def hourMatches (expr : CronExpression) (t : ℕ) : Bool := expr.hour.contains (hourOf t)

def minuteMatches (expr : CronExpression) (t : ℕ) : Bool := expr.minute.contains (minuteOf t)

/-- `setUTCHours(0, 0, 0, 0)` once the date has been moved; past `maxTime` that date is invalid, and stays so. -/
def midnight (moved : ℕ) : ℕ := if maxTime < moved then moved else dayOf moved * dayMs

def jump (expr : CronExpression) (cursor : ℕ) : Option ℕ :=
  if monthMatches expr cursor = false then some (midnight (nextMonth (dayOf cursor) * dayMs + cursor % dayMs))
  else if dayMatches expr cursor = false then some (midnight (cursor + dayMs))
  else if hourMatches expr cursor = false then some ((cursor / hourMs + 1) * hourMs)
  else if minuteMatches expr cursor = false then some ((cursor / minuteMs + 1) * minuteMs)
  else none

/-- Past `maxTime` the cursor is an invalid date, which no field matches. -/
def search (expr : CronExpression) : ℕ → ℕ → Option ℕ
  | 0, _ => none
  | iterations + 1, cursor =>
    if maxTime < cursor then none
    else
      match jump expr cursor with
      | none => some cursor
      | some next => search expr iterations next

def startAfter (after : ℕ) : ℕ := (after / minuteMs + 1) * minuteMs

/-- `none` where `nextRun` throws. -/
def nextRun (expr : CronExpression) (after : ℕ) : Option ℕ := search expr maxIterations (startAfter after)

structure Matches (expr : CronExpression) (t : ℕ) : Prop where
  aligned : minuteMs ∣ t
  month : monthMatches expr t = true
  day : dayMatches expr t = true
  hour : hourMatches expr t = true
  minute : minuteMatches expr t = true

instance (expr : CronExpression) : DecidablePred (Matches expr) := fun t =>
  decidable_of_iff (minuteMs ∣ t ∧ monthMatches expr t = true ∧ dayMatches expr t = true ∧
      hourMatches expr t = true ∧ minuteMatches expr t = true)
    ⟨fun ⟨ha, hmo, hd, hh, hmi⟩ => ⟨ha, hmo, hd, hh, hmi⟩, fun ⟨ha, hmo, hd, hh, hmi⟩ => ⟨ha, hmo, hd, hh, hmi⟩⟩

section Jumps

variable {expr : CronExpression} {cursor next t : ℕ}

theorem monthMatches_congr {s : ℕ} (h : monthOf (dayOf s) = monthOf (dayOf t)) :
    monthMatches expr s = monthMatches expr t := by
  rw [monthMatches, monthMatches, h]

theorem dayMatches_congr {s : ℕ} (h : dayOf s = dayOf t) : dayMatches expr s = dayMatches expr t := by
  rw [dayMatches, dayMatches, h]

theorem div_eq_of_lt_next {unit : ℕ} (hle : cursor ≤ t) (hlt : t < (cursor / unit + 1) * unit) :
    t / unit = cursor / unit :=
  le_antisymm (Nat.lt_succ_iff.mp (Nat.div_lt_of_lt_mul (by rwa [Nat.mul_comm]))) (Nat.div_le_div_right hle)

theorem lt_next_unit {unit : ℕ} (h : 0 < unit) (cursor : ℕ) : cursor < (cursor / unit + 1) * unit := by
  rw [Nat.mul_comm]
  exact Nat.lt_mul_div_succ cursor h

theorem midnight_of_le (h : midnight t ≤ maxTime) : midnight t = dayOf t * dayMs := by
  unfold midnight at h ⊢
  split_ifs at h ⊢ with hlt
  · exact absurd h (not_le.mpr hlt)
  · rfl

theorem dayOf_nextMonth (cursor : ℕ) :
    dayOf (nextMonth (dayOf cursor) * dayMs + cursor % dayMs) = nextMonth (dayOf cursor) := by
  generalize nextMonth (dayOf cursor) = d
  unfold dayOf dayMs
  omega

theorem dayOf_add_dayMs (cursor : ℕ) : dayOf (cursor + dayMs) = dayOf cursor + 1 := by
  unfold dayOf dayMs
  omega

theorem search_of_lt (h : maxTime < cursor) (iterations : ℕ) : search expr iterations cursor = none := by
  cases iterations with
  | zero => rfl
  | succ iterations => rw [search, if_pos h]

theorem jump_some (h : jump expr cursor = some next) (hle : next ≤ maxTime) :
    cursor < next ∧ minuteMs ∣ next ∧ ∀ t, cursor ≤ t → t < next → ¬ Matches expr t := by
  unfold jump at h
  split_ifs at h with hmonth hday hhour hminute <;> obtain rfl := Option.some.inj h
  · rw [midnight_of_le hle, dayOf_nextMonth]
    have hlt := Nat.mul_le_mul_right dayMs (show dayOf cursor + 1 ≤ nextMonth (dayOf cursor) from lt_nextMonth _)
    refine ⟨(lt_next_unit (by decide) cursor).trans_le hlt, Dvd.dvd.mul_left (by decide) _, ?_⟩
    intro t hle htn hmatch
    have hday : dayOf t < nextMonth (dayOf cursor) := Nat.div_lt_of_lt_mul (by rwa [Nat.mul_comm])
    have hsame := monthOf_of_lt_nextMonth (show dayOf cursor ≤ dayOf t from Nat.div_le_div_right hle) hday
    rw [← monthMatches_congr hsame, hmatch.month] at hmonth
    cases hmonth
  · rw [midnight_of_le hle, dayOf_add_dayMs]
    refine ⟨lt_next_unit (by decide) cursor, Dvd.dvd.mul_left (by decide) _, ?_⟩
    intro t hle htn hmatch
    have hsame : dayOf t = dayOf cursor := div_eq_of_lt_next hle htn
    rw [← dayMatches_congr hsame, hmatch.day] at hday
    cases hday
  · refine ⟨lt_next_unit (by decide) cursor, Dvd.dvd.mul_left (by decide) _, ?_⟩
    intro t hle htn hmatch
    have hsame : t / hourMs = cursor / hourMs := div_eq_of_lt_next hle htn
    rw [hourMatches, hourOf, ← hsame, ← hourOf, ← hourMatches, hmatch.hour] at hhour
    cases hhour
  · refine ⟨lt_next_unit (by decide) cursor, Dvd.dvd.mul_left (by decide) _, ?_⟩
    intro t hle htn hmatch
    have hsame : t / minuteMs = cursor / minuteMs := div_eq_of_lt_next hle htn
    rw [minuteMatches, minuteOf, ← hsame, ← minuteOf, ← minuteMatches, hmatch.minute] at hminute
    cases hminute

theorem matches_of_jump_none (haligned : minuteMs ∣ cursor) (h : jump expr cursor = none) : Matches expr cursor := by
  unfold jump at h
  split_ifs at h with hmonth hday hhour hminute
  exact ⟨haligned, Bool.eq_true_of_not_eq_false hmonth, Bool.eq_true_of_not_eq_false hday,
    Bool.eq_true_of_not_eq_false hhour, Bool.eq_true_of_not_eq_false hminute⟩

theorem search_some {iterations : ℕ} (haligned : minuteMs ∣ cursor) (h : search expr iterations cursor = some t) :
    cursor ≤ t ∧ Matches expr t ∧ ∀ u, cursor ≤ u → u < t → ¬ Matches expr u := by
  induction iterations generalizing cursor with
  | zero => cases h
  | succ iterations ih =>
    rw [search] at h
    split_ifs at h with hmax
    cases hjump : jump expr cursor with
    | none =>
      rw [hjump] at h
      cases h
      exact ⟨le_rfl, matches_of_jump_none haligned hjump, fun u hle hlt => absurd hle (not_le.mpr hlt)⟩
    | some next =>
      rw [hjump] at h
      have hvalid : next ≤ maxTime := by
        by_contra hlt
        have hnone : search expr iterations next = none := search_of_lt (not_le.mp hlt) iterations
        cases hnone.symm.trans h
      obtain ⟨hlt, hnext, hskip⟩ := jump_some hjump hvalid
      obtain ⟨hle, hmatch, hleast⟩ := ih hnext h
      refine ⟨hlt.le.trans hle, hmatch, ?_⟩
      intro u hcu hut
      rcases lt_or_ge u next with hun | hun
      · exact hskip u hcu hun
      · exact hleast u hun hut

end Jumps

theorem startAfter_le {after t : ℕ} (hlt : after < t) (h : minuteMs ∣ t) : startAfter after ≤ t := by
  obtain ⟨k, rfl⟩ := h
  rw [startAfter, Nat.mul_comm minuteMs k]
  exact Nat.mul_le_mul_right _ (Nat.div_lt_of_lt_mul hlt)

theorem lt_startAfter (after : ℕ) : after < startAfter after := lt_next_unit (by decide) after

theorem nextRun_findsLeast (expr : CronExpression) : FindsLeast (Matches expr) (nextRun expr) := by
  have haligned : ∀ after, minuteMs ∣ startAfter after := fun after => Dvd.intro_left _ rfl
  refine ⟨?_, ?_, ?_⟩
  · intro after t h
    exact (lt_startAfter after).trans_le (search_some (haligned after) h).1
  · intro after t h
    exact (search_some (haligned after) h).2.1
  · intro after t u h hlt hmatch
    by_contra hle
    exact (search_some (haligned after) h).2.2 u (startAfter_le hlt hmatch.aligned) (not_le.mp hle) hmatch

def slots (expr : CronExpression) (a b : ℕ) : Finset ℕ := (Finset.Ioc a b).filter (Matches expr)

@[simp] theorem mem_slots {expr : CronExpression} {a b t : ℕ} :
    t ∈ slots expr a b ↔ a < t ∧ t ≤ b ∧ Matches expr t := by
  rw [slots, Finset.mem_filter, Finset.mem_Ioc, and_assoc]

theorem slots_union {expr : CronExpression} {a b c : ℕ} (hab : a ≤ b) (hbc : b ≤ c) :
    slots expr a c = slots expr a b ∪ slots expr b c := by
  rw [slots, slots, slots, ← Finset.filter_union, Finset.Ioc_union_Ioc_eq_Ioc hab hbc]

theorem card_slots {expr : CronExpression} {a b c : ℕ} (hab : a ≤ b) (hbc : b ≤ c) :
    (slots expr a c).card = (slots expr a b).card + (slots expr b c).card := by
  rw [slots_union hab hbc, Finset.card_union_of_disjoint]
  rw [Finset.disjoint_left]
  intro t hfirst hsecond
  rw [mem_slots] at hfirst hsecond
  exact absurd hsecond.1 (not_lt.mpr hfirst.2.1)

end CrashLab.Cron
