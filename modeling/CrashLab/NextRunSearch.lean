import CrashLab.CronGrammar
import CrashLab.NextRun

namespace CrashLab.Cron

open Calendar JsStrings

section Times

theorem Term.exists_denotes {spec : CronFieldSpec} (hspec : spec.min ≤ spec.max) {term : Term}
    (h : term.Valid spec) : ∃ u, term.Denotes spec u ∧ u ≤ spec.max := by
  have hself : ∀ n lo hi, lo ≤ hi → Every n lo hi lo := fun n lo hi hle => ⟨le_rfl, hle, by simp⟩
  obtain ⟨_ | a | ⟨a, b⟩, step⟩ := term
  · exact ⟨spec.min, hself _ _ _ hspec, hspec⟩
  · cases step with
    | none => exact ⟨a, rfl, h.1.2⟩
    | some n => exact ⟨a, Or.inl rfl, h.1.2⟩
  · obtain ⟨-, hle, hmax⟩ := h.1
    exact ⟨a, hself _ _ _ hle, hle.trans hmax⟩

theorem FieldReads.exists_denotes {spec : CronFieldSpec} (hspec : spec.min ≤ spec.max) {text : JsString}
    {terms : List Term} (h : FieldReads spec text terms) : ∃ u, FieldDenotes spec terms u ∧ u ≤ spec.max := by
  have hvalid := h.valid
  obtain ⟨texts, hne, -, hall⟩ := h
  cases hall with
  | nil => exact absurd rfl hne
  | cons hfirst _ =>
    obtain ⟨u, hu, hmax⟩ := Term.exists_denotes hspec hfirst.2
    exact ⟨u, ⟨_, List.mem_cons_self, hu⟩, hmax⟩

structure Timed (expr : CronExpression) : Prop where
  hour : ∃ h ∈ expr.hour, h < 24
  minute : ∃ m ∈ expr.minute, m < 60

theorem timed_of_parseCron {source : JsString} {expr : CronExpression} (h : parseCron source = .ok expr) :
    Timed expr := by
  obtain ⟨fields, hreads⟩ := (parseCron_accepts source).mp ⟨expr, h⟩
  have hmem := mem_of_parseCron h hreads
  obtain ⟨_, _, _, _, _, -, hminute, hhour, -⟩ := hreads
  obtain ⟨m, hm, hm'⟩ := hminute.exists_denotes (by decide)
  obtain ⟨k, hk, hk'⟩ := hhour.exists_denotes (by decide)
  exact ⟨⟨k, (hmem k).2.1.mpr hk, Nat.lt_succ_iff.mpr hk'⟩, ⟨m, (hmem m).1.mpr hm, Nat.lt_succ_iff.mpr hm'⟩⟩

variable {expr : CronExpression}

theorem Timed.matches_of_hour (timed : Timed expr) {c : ℕ} (hc : hourMs ∣ c) (hmonth : monthMatches expr c = true)
    (hday : dayMatches expr c = true) (hhour : hourMatches expr c = true) :
    ∃ u, c ≤ u ∧ u / hourMs = c / hourMs ∧ Matches expr u := by
  obtain ⟨m, hm, hlt⟩ := timed.minute
  obtain ⟨k, rfl⟩ := hc
  have hsame : (hourMs * k + m * minuteMs) / hourMs = hourMs * k / hourMs := by
    unfold hourMs minuteMs
    omega
  have hdays : dayOf (hourMs * k + m * minuteMs) = dayOf (hourMs * k) := by
    unfold dayOf dayMs hourMs minuteMs
    omega
  refine ⟨hourMs * k + m * minuteMs, Nat.le_add_right _ _, hsame, ?_, ?_, ?_, ?_, ?_⟩
  · exact dvd_add (Dvd.dvd.mul_right (by decide) k) (Dvd.intro_left m rfl)
  · rwa [monthMatches_congr (congrArg monthOf hdays)]
  · rwa [dayMatches_congr hdays]
  · rwa [hourMatches, hourOf, hsame]
  · have hminute : minuteOf (hourMs * k + m * minuteMs) = m := by
      unfold minuteOf hourMs minuteMs
      omega
    rw [minuteMatches, hminute]
    exact List.contains_iff_mem.mpr hm

theorem Timed.matches_of_day (timed : Timed expr) {d : ℕ} (hmonth : monthMatches expr (d * dayMs) = true)
    (hday : dayMatches expr (d * dayMs) = true) : ∃ u, dayOf u = d ∧ Matches expr u := by
  obtain ⟨k, hk, hlt⟩ := timed.hour
  have hdays : dayOf (d * dayMs + k * hourMs) = dayOf (d * dayMs) := by
    unfold dayOf dayMs hourMs
    omega
  have hhour : hourMatches expr (d * dayMs + k * hourMs) = true := by
    have h : hourOf (d * dayMs + k * hourMs) = k := by
      unfold hourOf dayMs hourMs
      omega
    rw [hourMatches, h]
    exact List.contains_iff_mem.mpr hk
  rw [← monthMatches_congr (congrArg monthOf hdays)] at hmonth
  rw [← dayMatches_congr hdays] at hday
  have hdvd : hourMs ∣ d * dayMs + k * hourMs := dvd_add (Dvd.dvd.mul_left (by decide) d) (Dvd.intro_left k rfl)
  obtain ⟨u, -, hu, hmatch⟩ := timed.matches_of_hour hdvd hmonth hday hhour
  refine ⟨u, ?_, hmatch⟩
  unfold dayOf dayMs hourMs at *
  omega

end Times

section Iterations

variable {expr : CronExpression} {c c' t n m : ℕ}

def Finds (expr : CronExpression) (n c : ℕ) : Prop := ∃ t, search expr n c = some t

theorem search_mono (h : search expr n c = some t) (hle : n ≤ m) : search expr m c = some t := by
  induction n generalizing c m with
  | zero => cases h
  | succ n ih =>
    obtain ⟨m, rfl⟩ := Nat.exists_eq_succ_of_ne_zero (show m ≠ 0 by omega)
    rw [search] at h ⊢
    split_ifs at h ⊢ with hmax
    cases hjump : jump expr c with
    | none =>
      rw [hjump] at h
      exact h
    | some next =>
      rw [hjump] at h
      exact ih h (Nat.succ_le_succ_iff.mp hle)

theorem Finds.mono (h : Finds expr n c) (hle : n ≤ m) : Finds expr m c := by
  obtain ⟨t, ht⟩ := h
  exact ⟨t, search_mono ht hle⟩

theorem Finds.step (hjump : jump expr c = some c') (hc : c ≤ maxTime) (h : Finds expr n c') :
    Finds expr (n + 1) c := by
  obtain ⟨t, ht⟩ := h
  refine ⟨t, ?_⟩
  rw [search, if_neg (not_lt.mpr hc), hjump]
  exact ht

theorem jump_of_month (h : monthMatches expr c = false) :
    jump expr c = some (midnight (nextMonth (dayOf c) * dayMs + c % dayMs)) := by
  simp [jump, h]

theorem jump_of_day (hmonth : monthMatches expr c = true) (h : dayMatches expr c = false) :
    jump expr c = some (midnight (c + dayMs)) := by
  simp [jump, hmonth, h]

theorem jump_of_hour (hmonth : monthMatches expr c = true) (hday : dayMatches expr c = true)
    (h : hourMatches expr c = false) : jump expr c = some ((c / hourMs + 1) * hourMs) := by
  simp [jump, hmonth, hday, h]

theorem jump_of_minute (hmonth : monthMatches expr c = true) (hday : dayMatches expr c = true)
    (hhour : hourMatches expr c = true) (h : minuteMatches expr c = false) :
    jump expr c = some ((c / minuteMs + 1) * minuteMs) := by
  simp [jump, hmonth, hday, hhour, h]

theorem jump_of_matches (h : Matches expr c) : jump expr c = none := by
  simp [jump, h.month, h.day, h.hour, h.minute]

theorem finds_of_matches (h : Matches expr c) (hc : c ≤ maxTime) : Finds expr 1 c := by
  refine ⟨c, ?_⟩
  rw [search, if_neg (not_lt.mpr hc), jump_of_matches h]

theorem div_between {unit a b c : ℕ} (hab : a ≤ b) (hbc : b ≤ c) (h : a / unit = c / unit) : b / unit = c / unit :=
  le_antisymm (Nat.div_le_div_right hbc) (h ▸ Nat.div_le_div_right hab)

theorem lt_of_div_lt (unit : ℕ) {a b : ℕ} (h : a / unit < b / unit) : a < b := by
  by_contra hge
  exact absurd (Nat.div_le_div_right (not_lt.mp hge)) (not_le.mpr h)

theorem next_unit_of_dvd {unit : ℕ} (h : unit ∣ c) : (c / unit + 1) * unit = c + unit := by
  rw [Nat.add_mul, Nat.one_mul, Nat.div_mul_cancel h]

structure Ahead (expr : CronExpression) (c t : ℕ) : Prop where
  aligned : minuteMs ∣ c
  le : c ≤ t
  holds : Matches expr t
  valid : t ≤ maxTime
  first : ∀ u, c ≤ u → u < t → ¬ Matches expr u

namespace Ahead

theorem cursor_le (h : Ahead expr c t) : c ≤ maxTime := h.le.trans h.valid

theorem advance (h : Ahead expr c t) (haligned : minuteMs ∣ c') (hfrom : c ≤ c') (hto : c' ≤ t) : Ahead expr c' t :=
  ⟨haligned, hto, h.holds, h.valid, fun u hle hlt => h.first u (hfrom.trans hle) hlt⟩

theorem month_of_day (h : Ahead expr c t) (hday : dayOf c = dayOf t) : monthMatches expr c = true := by
  rw [monthMatches_congr (congrArg monthOf hday)]
  exact h.holds.month

theorem day_of_day (h : Ahead expr c t) (hday : dayOf c = dayOf t) : dayMatches expr c = true := by
  rw [dayMatches_congr hday]
  exact h.holds.day

theorem finds_in_hour {k : ℕ} (h : Ahead expr c t) (hk : t = c + k * minuteMs) (hhour : c / hourMs = t / hourMs) :
    Finds expr (k + 1) c := by
  induction k generalizing c with
  | zero =>
    rw [Nat.zero_mul, Nat.add_zero] at hk
    exact finds_of_matches (hk ▸ h.holds) h.cursor_le
  | succ k ih =>
    have hday : dayOf c = dayOf t := by
      unfold dayOf dayMs hourMs at *
      omega
    have hhours : hourMatches expr c = true := by
      rw [hourMatches, hourOf, hhour]
      exact h.holds.hour
    have hminute : minuteMatches expr c = false := by
      by_contra hminute
      rw [Bool.not_eq_false] at hminute
      have hlt : c < t := by
        unfold minuteMs at hk
        omega
      exact h.first c le_rfl hlt ⟨h.aligned, h.month_of_day hday, h.day_of_day hday, hhours, hminute⟩
    have hjump := jump_of_minute (h.month_of_day hday) (h.day_of_day hday) hhours hminute
    rw [next_unit_of_dvd h.aligned] at hjump
    rw [Nat.add_mul, Nat.one_mul] at hk
    have hahead : Ahead expr (c + minuteMs) t :=
      h.advance (dvd_add h.aligned dvd_rfl) (Nat.le_add_right _ _) (by omega)
    exact Finds.step hjump h.cursor_le (ih hahead (by omega) (div_between (Nat.le_add_right _ _) hahead.le hhour))

theorem finds_in_day {k : ℕ} (timed : Timed expr) (h : Ahead expr c t) (hc : hourMs ∣ c)
    (hk : t / hourMs = c / hourMs + k) (hday : dayOf c = dayOf t) : Finds expr (k + 60) c := by
  induction k generalizing c with
  | zero =>
    obtain ⟨j, rfl⟩ := Nat.exists_eq_add_of_le h.le
    obtain ⟨i, rfl⟩ : minuteMs ∣ j := (Nat.dvd_add_right h.aligned).mp h.holds.aligned
    refine Finds.mono (h.finds_in_hour (k := i) (by rw [Nat.mul_comm]) (by omega)) ?_
    obtain ⟨q, rfl⟩ := hc
    unfold hourMs minuteMs at hk
    omega
  | succ k ih =>
    have hmonth := h.month_of_day hday
    have hdays := h.day_of_day hday
    have hhour : hourMatches expr c = false := by
      by_contra hhour
      rw [Bool.not_eq_false] at hhour
      obtain ⟨u, hle, hu, hmatch⟩ := timed.matches_of_hour hc hmonth hdays hhour
      exact h.first u hle (lt_of_div_lt hourMs (by omega)) hmatch
    have hjump := jump_of_hour hmonth hdays hhour
    have hle : (c / hourMs + 1) * hourMs ≤ t := (Nat.le_div_iff_mul_le (by decide)).mp (by omega)
    have hahead := h.advance (Dvd.dvd.mul_left (by decide) _) (lt_next_unit (by decide) c).le hle
    have hnext : (c / hourMs + 1) * hourMs / hourMs = c / hourMs + 1 := Nat.mul_div_cancel _ (by decide)
    have hfinds := ih hahead (Dvd.intro_left _ rfl) (by omega)
      (div_between (lt_next_unit (by decide) c).le hle hday)
    exact Finds.mono (Finds.step hjump h.cursor_le hfinds) (by omega)

theorem nextDay_le (hday : dayOf c < dayOf t) : (dayOf c + 1) * dayMs ≤ t :=
  (Nat.mul_le_mul_right dayMs hday).trans (Nat.div_mul_le_self t dayMs)

theorem nextMonth_le (h : Ahead expr c t) (hmonth : monthMatches expr c = false) :
    nextMonth (dayOf c) * dayMs ≤ t := by
  refine (Nat.mul_le_mul_right dayMs ?_).trans (Nat.div_mul_le_self t dayMs)
  by_contra hlt
  have hsame := monthOf_of_lt_nextMonth (Nat.div_le_div_right (c := dayMs) h.le) (not_le.mp hlt)
  have hmatch : monthMatches expr c = monthMatches expr t := monthMatches_congr hsame.symm
  rw [hmatch, h.holds.month] at hmonth
  cases hmonth

theorem finds_from_midnight {d k : ℕ} (timed : Timed expr) (h : Ahead expr (d * dayMs) t) (hk : dayOf t = d + k) :
    Finds expr (k + 83) (d * dayMs) := by
  induction k using Nat.strong_induction_on generalizing d with
  | _ k ih =>
    have hd : dayOf (d * dayMs) = d := Nat.mul_div_cancel d (by decide)
    have hdvd : hourMs ∣ d * dayMs := Dvd.dvd.mul_left (by decide) d
    have hrest : d * dayMs % dayMs = 0 := Nat.mul_mod_left d dayMs
    rcases Nat.eq_zero_or_pos k with rfl | hpos
    · have hhours : t / hourMs ≤ d * dayMs / hourMs + 23 := by
        unfold dayOf dayMs hourMs at *
        omega
      obtain ⟨j, hj⟩ := Nat.exists_eq_add_of_le (Nat.div_le_div_right (c := hourMs) h.le)
      exact Finds.mono (h.finds_in_day timed hdvd hj (by omega)) (by omega)
    -- a midnight reached by a jump, with the match still ahead of it
    have hgo : ∀ e, d < e → e * dayMs ≤ t → jump expr (d * dayMs) = some (e * dayMs) →
        Finds expr (k + 83) (d * dayMs) := by
      intro e hlt hle hjump
      have hahead := h.advance (Dvd.dvd.mul_left (by decide) e) (Nat.mul_le_mul_right dayMs hlt.le) hle
      have hday : e ≤ dayOf t := (Nat.le_div_iff_mul_le (by decide)).mpr hle
      obtain ⟨j, hj⟩ := Nat.exists_eq_add_of_le hday
      exact Finds.mono (Finds.step hjump h.cursor_le (ih j (by omega) hahead hj)) (by omega)
    have hvalid : ∀ e, e * dayMs ≤ t → midnight (e * dayMs) = e * dayMs := by
      intro e hle
      rw [midnight, if_neg (not_lt.mpr (hle.trans h.valid)), dayOf, Nat.mul_div_cancel e (by decide)]
    by_cases hmonth : monthMatches expr (d * dayMs) = true
    · by_cases hday : dayMatches expr (d * dayMs) = true
      · obtain ⟨u, hu, hmatch⟩ := timed.matches_of_day hmonth hday
        refine absurd hmatch (h.first u ?_ (lt_of_div_lt dayMs ?_))
        · rw [← hu]
          exact Nat.div_mul_le_self u dayMs
        · unfold dayOf at hu hk
          omega
      · have hle := nextDay_le (c := d * dayMs) (t := t) (by omega)
        rw [hd] at hle
        apply hgo (d + 1) (Nat.lt_succ_self d) hle
        have hmoved : d * dayMs + dayMs = (d + 1) * dayMs := by ring
        rw [jump_of_day hmonth (Bool.eq_false_of_not_eq_true hday), hmoved, hvalid (d + 1) hle]
    · rw [Bool.not_eq_true] at hmonth
      have hle := h.nextMonth_le hmonth
      rw [hd] at hle
      apply hgo (nextMonth d) (lt_nextMonth d) hle
      rw [jump_of_month hmonth, hd, hrest, Nat.add_zero, hvalid (nextMonth d) hle]

theorem finds_from_day (timed : Timed expr) (h : Ahead expr c t) (hday : dayOf c < dayOf t)
    (hvalid : dayMatches expr c = false → c + dayMs ≤ maxTime)
    (hoff : monthMatches expr c = false ∨ dayMatches expr c = false) :
    Finds expr (dayOf t - dayOf c + 83) c := by
  have hgo : ∀ e, dayOf c < e → e * dayMs ≤ t → jump expr c = some (e * dayMs) →
      Finds expr (dayOf t - dayOf c + 83) c := by
    intro e hlt hle hjump
    have hfrom : c ≤ e * dayMs := (lt_next_unit (by decide) c).le.trans (Nat.mul_le_mul_right dayMs hlt)
    have hahead := h.advance (Dvd.dvd.mul_left (by decide) e) hfrom hle
    have hto : e ≤ dayOf t := (Nat.le_div_iff_mul_le (by decide)).mpr hle
    obtain ⟨j, hj⟩ := Nat.exists_eq_add_of_le hto
    exact Finds.mono (Finds.step hjump h.cursor_le (hahead.finds_from_midnight timed hj)) (by omega)
  by_cases hmonth : monthMatches expr c = true
  · have hdays : dayMatches expr c = false := by simpa [hmonth] using hoff
    apply hgo (dayOf c + 1) (Nat.lt_succ_self _) (nextDay_le hday)
    rw [jump_of_day hmonth hdays, midnight, if_neg (not_lt.mpr (hvalid hdays)), dayOf_add_dayMs]
  · rw [Bool.not_eq_true] at hmonth
    have hle := h.nextMonth_le hmonth
    apply hgo (nextMonth (dayOf c)) (lt_nextMonth _) hle
    rw [jump_of_month hmonth, midnight, dayOf_nextMonth, if_neg]
    -- the last instant is not in a month that starts after it
    intro hlt
    have hlast : dayOf maxTime = nextMonth (dayOf c) := by
      have h := Nat.div_le_div_right (c := dayMs) (hle.trans h.valid)
      rw [Nat.mul_div_cancel _ (show 0 < dayMs by decide)] at h
      have h' := Nat.div_le_div_right (c := dayMs) hlt.le
      rw [show (_ : ℕ) / dayMs = nextMonth (dayOf c) from dayOf_nextMonth c] at h'
      exact le_antisymm h' h
    have hdate := dateOf_nextMonth (dayOf c)
    rw [← hlast] at hdate
    exact absurd hdate (by decide +kernel)

theorem finds_from_hour {k : ℕ} (timed : Timed expr) (h : Ahead expr c t) (hc : hourMs ∣ c)
    (hvalid : dayMatches expr c = false → c + dayMs ≤ maxTime) (hk : hourOf c + k = 24) :
    Finds expr (dayOf t - dayOf c + 84 + k) c := by
  induction k generalizing c with
  | zero =>
    have hlt : hourOf c < 24 := Nat.mod_lt _ (by decide)
    omega
  | succ k ih =>
    rcases Nat.eq_or_lt_of_le (Nat.div_le_div_right (c := dayMs) h.le) with hday | hday
    · have hhours : t / hourMs ≤ c / hourMs + 23 := by
        unfold dayMs hourMs at *
        omega
      obtain ⟨j, hj⟩ := Nat.exists_eq_add_of_le (Nat.div_le_div_right (c := hourMs) h.le)
      exact Finds.mono (h.finds_in_day timed hc hj hday) (by omega)
    · by_cases hoff : monthMatches expr c = false ∨ dayMatches expr c = false
      · exact Finds.mono (h.finds_from_day timed hday hvalid hoff) (by omega)
      · simp only [not_or, Bool.not_eq_false] at hoff
        obtain ⟨hmonth, hdays⟩ := hoff
        have hhour : hourMatches expr c = false := by
          by_contra hhour
          rw [Bool.not_eq_false] at hhour
          obtain ⟨u, hle, hu, hmatch⟩ := timed.matches_of_hour hc hmonth hdays hhour
          refine h.first u hle (lt_of_div_lt dayMs ?_) hmatch
          unfold dayMs hourMs at *
          omega
        have hjump := jump_of_hour hmonth hdays hhour
        rw [next_unit_of_dvd hc] at hjump
        have hle : c + hourMs ≤ t := by
          have := nextDay_le (c := c) (t := t) hday
          obtain ⟨q, rfl⟩ := hc
          unfold dayOf dayMs hourMs at *
          omega
        have hahead := h.advance (dvd_add h.aligned (by decide)) (Nat.le_add_right c hourMs) hle
        rcases Nat.eq_zero_or_pos k with rfl | hpos
        · -- the last hour of the day is followed by a midnight
          obtain ⟨d, hd⟩ : dayMs ∣ c + hourMs := by
            obtain ⟨q, rfl⟩ := hc
            unfold hourOf at hk
            unfold dayMs hourMs at *
            omega
          rw [Nat.mul_comm] at hd
          rw [hd] at hahead hjump hle
          have hto : d ≤ dayOf t := (Nat.le_div_iff_mul_le (by decide)).mpr hle
          obtain ⟨j, hj⟩ := Nat.exists_eq_add_of_le hto
          have hfrom : dayOf c + 1 = d := by
            unfold dayOf dayMs hourMs at *
            omega
          exact Finds.mono (Finds.step hjump h.cursor_le (hahead.finds_from_midnight timed hj)) (by omega)
        · have hsame : dayOf (c + hourMs) = dayOf c := by
            unfold hourOf at hk
            unfold dayOf dayMs hourMs at *
            omega
          have hnext : hourOf (c + hourMs) + k = 24 := by
            unfold hourOf at hk ⊢
            unfold hourMs at *
            omega
          have hoff : dayMatches expr (c + hourMs) = false → c + hourMs + dayMs ≤ maxTime := by
            intro hfalse
            rw [dayMatches_congr hsame, hdays] at hfalse
            cases hfalse
          have hfinds := ih hahead (dvd_add hc dvd_rfl) hoff hnext
          rw [hsame] at hfinds
          exact Finds.mono (Finds.step hjump h.cursor_le hfinds) (by omega)

theorem finds_after_hour (timed : Timed expr) (h : Ahead expr c' t) (hc : c' = (c / hourMs + 1) * hourMs)
    (hdays : dayMatches expr c = true) : Finds expr (dayOf t - dayOf c + 108) c' := by
  have hdvd : hourMs ∣ c' := hc ▸ Dvd.intro_left _ rfl
  have hlt : hourOf c' < 24 := Nat.mod_lt _ (by decide)
  have hle : dayOf c ≤ dayOf c' := Nat.div_le_div_right (hc ▸ (lt_next_unit (by decide) c).le)
  by_cases hsame : dayOf c' = dayOf c
  · obtain ⟨k, hk⟩ := Nat.exists_eq_add_of_le hlt.le
    have hvalid : dayMatches expr c' = false → c' + dayMs ≤ maxTime := by
      intro hfalse
      rw [dayMatches_congr hsame, hdays] at hfalse
      cases hfalse
    exact Finds.mono (h.finds_from_hour timed hdvd hvalid hk.symm) (by omega)
  · obtain ⟨d, hd⟩ : dayMs ∣ c' := by
      unfold dayOf dayMs hourMs at *
      omega
    rw [Nat.mul_comm] at hd
    subst hd
    have hto : d ≤ dayOf t := (Nat.le_div_iff_mul_le (by decide)).mpr h.le
    obtain ⟨j, hj⟩ := Nat.exists_eq_add_of_le hto
    rw [show dayOf (d * dayMs) = d from Nat.mul_div_cancel d (by decide)] at hle
    exact Finds.mono (h.finds_from_midnight timed hj) (by omega)

theorem finds {k : ℕ} (timed : Timed expr) (h : Ahead expr c t)
    (hvalid : dayOf c < dayOf t → dayMatches expr c = false → c + dayMs ≤ maxTime) (hk : minuteOf c + k = 60) :
    Finds expr (dayOf t - dayOf c + 109 + k) c := by
  induction k generalizing c with
  | zero =>
    have hlt : minuteOf c < 60 := Nat.mod_lt _ (by decide)
    omega
  | succ k ih =>
    have hdayle : dayOf c ≤ dayOf t := Nat.div_le_div_right h.le
    by_cases hoff : monthMatches expr c = false ∨ dayMatches expr c = false
    · have hday : dayOf c < dayOf t := by
        rcases Nat.lt_or_eq_of_le hdayle with hlt | heq
        · exact hlt
        · rw [h.month_of_day heq, h.day_of_day heq] at hoff
          simp at hoff
      exact Finds.mono (h.finds_from_day timed hday (hvalid hday) hoff) (by omega)
    · simp only [not_or, Bool.not_eq_false] at hoff
      obtain ⟨hmonth, hdays⟩ := hoff
      by_cases hhour : hourMatches expr c = true
      · by_cases hminute : minuteMatches expr c = true
        · exact Finds.mono (finds_of_matches ⟨h.aligned, hmonth, hdays, hhour, hminute⟩ h.cursor_le) (by omega)
        · rw [Bool.not_eq_true] at hminute
          have hjump := jump_of_minute hmonth hdays hhour hminute
          rw [next_unit_of_dvd h.aligned] at hjump
          have hne : c ≠ t := by
            rintro rfl
            rw [h.holds.minute] at hminute
            cases hminute
          have hle : c + minuteMs ≤ t := by
            have hlt := lt_of_le_of_ne h.le hne
            obtain ⟨i, rfl⟩ := h.aligned
            obtain ⟨j, rfl⟩ := h.holds.aligned
            unfold minuteMs at *
            omega
          have hahead := h.advance (dvd_add h.aligned dvd_rfl) (Nat.le_add_right c minuteMs) hle
          have haligned := h.aligned
          by_cases hsame : k = 0
          · have hnext : c + minuteMs = (c / hourMs + 1) * hourMs := by
              unfold minuteOf at hk
              unfold hourMs minuteMs at *
              omega
            have hfinds := hahead.finds_after_hour timed hnext hdays
            exact Finds.mono (Finds.step hjump h.cursor_le hfinds) (by omega)
          · have hday : dayOf (c + minuteMs) = dayOf c := by
              unfold minuteOf at hk
              unfold dayOf dayMs minuteMs at *
              omega
            have hnext : minuteOf (c + minuteMs) + k = 60 := by
              unfold minuteOf at hk ⊢
              unfold minuteMs at *
              omega
            have hfinds := ih hahead (fun _ hfalse => by
              rw [dayMatches_congr hday, hdays] at hfalse
              cases hfalse) hnext
            rw [hday] at hfinds
            exact Finds.mono (Finds.step hjump h.cursor_le hfinds) (by omega)
      · rw [Bool.not_eq_true] at hhour
        have hlt : c / hourMs < t / hourMs := by
          rcases Nat.lt_or_eq_of_le (Nat.div_le_div_right (c := hourMs) h.le) with hlt | heq
          · exact hlt
          · rw [hourMatches, hourOf, heq, ← hourOf, ← hourMatches, h.holds.hour] at hhour
            cases hhour
        have hle : (c / hourMs + 1) * hourMs ≤ t := (Nat.le_div_iff_mul_le (by decide)).mp hlt
        have hahead := h.advance (Dvd.dvd.mul_left (by decide) _) (lt_next_unit (by decide) c).le hle
        have hfinds := hahead.finds_after_hour timed rfl hdays
        exact Finds.mono (Finds.step (jump_of_hour hmonth hdays hhour) h.cursor_le hfinds) (by omega)

end Ahead

end Iterations

section Horizon

variable {source : JsString} {expr : CronExpression} {after t : ℕ}

theorem exists_day (d : ℕ) (hmonth : monthMatches expr t = true) (hday : dayMatches expr t = true) :
    ∃ e, d < e ∧ e ≤ d + longestWait ∧ monthMatches expr (e * dayMs) = true ∧ dayMatches expr (e * dayMs) = true := by
  have hdayOf : ∀ e, dayOf (e * dayMs) = e := fun e => Nat.mul_div_cancel e (by decide)
  obtain ⟨e, hlt, hle, hsame, hdate⟩ := exists_date d (dayOf t)
  obtain ⟨w, hlt', hle', hsame', hweekday⟩ := exists_weekday d (dayOf t)
  have hmonthe : monthMatches expr (e * dayMs) = true := by
    rwa [monthMatches_congr ((congrArg monthOf (hdayOf e)).trans hsame)]
  have hmonthw : monthMatches expr (w * dayMs) = true := by
    rwa [monthMatches_congr ((congrArg monthOf (hdayOf w)).trans hsame')]
  unfold dayMatches at hday ⊢
  simp only [hdayOf]
  cases hdom : expr.dayOfMonthRestricted <;> cases hdow : expr.dayOfWeekRestricted <;> simp only [hdom, hdow] at hday
  · exact ⟨e, hlt, hle, hmonthe, by simp⟩
  · exact ⟨w, hlt', hle', hmonthw, by simpa [hweekday] using hday⟩
  · exact ⟨e, hlt, hle, hmonthe, by simpa [hdate] using hday⟩
  · rcases (Bool.or_eq_true _ _).mp hday with hday | hday
    · exact ⟨e, hlt, hle, hmonthe, by simp [hdate, List.contains_iff_mem.mp hday]⟩
    · exact ⟨w, hlt', hle', hmonthw, by simp [hweekday, List.contains_iff_mem.mp hday]⟩

/-- The last instant is on the schedule and the day before it is not, and the search starts on that day. -/
structure Overruns (expr : CronExpression) (after : ℕ) : Prop where
  start : maxTime - dayMs ≤ after
  stop : after + minuteMs < maxTime
  last : Matches expr maxTime
  day : dayMatches expr (maxTime - dayMs) = false

/-- What is asked of `nextRun`: the least instant of the expression, or a throw where there is none. -/
structure FindsNext (expr : CronExpression) (after : ℕ) : Prop where
  least : ∀ t, nextRun expr after = some t → IsLeast {u | after < u ∧ u ≤ maxTime ∧ Matches expr u} t
  throws : nextRun expr after = none ↔ ¬ ∃ u, after < u ∧ u ≤ maxTime ∧ Matches expr u

theorem le_of_search {n c : ℕ} (h : search expr n c = some t) : t ≤ maxTime := by
  induction n generalizing c with
  | zero => cases h
  | succ n ih =>
    rw [search] at h
    split_ifs at h with hmax
    cases hjump : jump expr c with
    | none =>
      rw [hjump] at h
      cases h
      exact not_lt.mp hmax
    | some next =>
      rw [hjump] at h
      exact ih h

theorem nextRun_isLeast (h : nextRun expr after = some t) :
    IsLeast {u | after < u ∧ u ≤ maxTime ∧ Matches expr u} t := by
  have find := nextRun_findsLeast expr
  exact ⟨⟨find.lt h, le_of_search h, find.holds h⟩, fun u hu => find.le h hu.1 hu.2.2⟩

theorem finds_startAfter (timed : Timed expr) (hsome : ∃ u, after < u ∧ u ≤ maxTime ∧ Matches expr u)
    (hover : ¬ Overruns expr after) : Finds expr maxIterations (startAfter after) := by
  classical
  obtain ⟨v, hav, hv, hmatchv⟩ := hsome
  have hexists : ∃ u, startAfter after ≤ u ∧ Matches expr u := ⟨v, startAfter_le hav hmatchv.aligned, hmatchv⟩
  obtain ⟨hle, hmatch⟩ := Nat.find_spec hexists
  have hleast : ∀ u, startAfter after ≤ u → Matches expr u → Nat.find hexists ≤ u :=
    fun u hu hmatch => Nat.find_min' hexists ⟨hu, hmatch⟩
  generalize Nat.find hexists = t at hle hmatch hleast
  have htmax : t ≤ maxTime := (hleast v (startAfter_le hav hmatchv.aligned) hmatchv).trans hv
  have hahead : Ahead expr (startAfter after) t :=
    ⟨Dvd.intro_left _ rfl, hle, hmatch, htmax, fun u hu hlt hmatchu => absurd (hleast u hu hmatchu) (not_le.mpr hlt)⟩
  have hwait : dayOf t ≤ dayOf (startAfter after) + longestWait := by
    obtain ⟨e, hlt, hwait, hmonth, hday⟩ := exists_day (dayOf (startAfter after)) hmatch.month hmatch.day
    obtain ⟨u, hu, hmatchu⟩ := timed.matches_of_day hmonth hday
    have hlater : startAfter after ≤ u := (lt_of_div_lt dayMs (by unfold dayOf at hlt hu; omega)).le
    have h : dayOf t ≤ dayOf u := Nat.div_le_div_right (hleast u hlater hmatchu)
    omega
  have hvalid : dayOf (startAfter after) < dayOf t → dayMatches expr (startAfter after) = false →
      startAfter after + dayMs ≤ maxTime := by
    intro hday hfalse
    by_contra hlt
    have hlast : t = maxTime ∧ dayOf (maxTime - dayMs) = dayOf (startAfter after) := by
      unfold dayOf dayMs maxTime at *
      omega
    refine hover ⟨?_, ?_, hlast.1 ▸ hmatch, ?_⟩
    · unfold startAfter minuteMs dayMs maxTime at *
      omega
    · have := hday.trans_le (Nat.div_le_div_right htmax)
      unfold startAfter dayOf minuteMs dayMs maxTime at *
      omega
    · rw [dayMatches_congr hlast.2, hfalse]
  have hlt : minuteOf (startAfter after) < 60 := Nat.mod_lt _ (by decide)
  obtain ⟨k, hk⟩ := Nat.exists_eq_add_of_le hlt.le
  refine Finds.mono (hahead.finds timed hvalid hk.symm) ?_
  unfold maxIterations longestWait at *
  omega

theorem nextRun_eq_none_of_overruns (h : Overruns expr after) : nextRun expr after = none := by
  have hdays : dayOf (startAfter after) = dayOf (maxTime - dayMs) := by
    have := h.start
    have := h.stop
    unfold startAfter dayOf minuteMs dayMs maxTime at *
    omega
  have hlt : maxTime < startAfter after + dayMs := by
    have := h.start
    unfold startAfter minuteMs dayMs maxTime at *
    omega
  have hmonth : monthMatches expr (startAfter after) = true := by
    have hsame : monthOf (dayOf (startAfter after)) = monthOf (dayOf maxTime) := by
      rw [hdays]
      decide +kernel
    rw [monthMatches_congr hsame]
    exact h.last.month
  have hday : dayMatches expr (startAfter after) = false := by
    rw [dayMatches_congr hdays]
    exact h.day
  have hle : ¬ maxTime < startAfter after := by
    have := h.stop
    unfold startAfter minuteMs maxTime at *
    omega
  rw [nextRun, show maxIterations = 9999 + 1 from rfl, search, if_neg hle, jump_of_day hmonth hday, midnight, if_pos hlt]
  exact search_of_lt hlt 9999

theorem not_findsNext_of_overruns (h : Overruns expr after) : ¬ FindsNext expr after := by
  intro hfinds
  refine hfinds.throws.mp (nextRun_eq_none_of_overruns h) ⟨maxTime, ?_, le_rfl, h.last⟩
  exact (Nat.lt_add_of_pos_right (by decide)).trans h.stop

theorem nextRun_findsNext_iff (h : parseCron source = .ok expr) (after : ℕ) :
    FindsNext expr after ↔ ¬ Overruns expr after := by
  constructor
  · exact fun hfinds hover => not_findsNext_of_overruns hover hfinds
  · intro hover
    refine ⟨fun t => nextRun_isLeast, ?_⟩
    constructor
    · intro hnone hsome
      obtain ⟨t, ht⟩ := finds_startAfter (timed_of_parseCron h) hsome hover
      cases hnone.symm.trans ht
    · intro hnone
      by_contra hsome
      obtain ⟨t, ht⟩ := Option.ne_none_iff_exists'.mp hsome
      exact hnone ⟨t, (nextRun_isLeast ht).1⟩

theorem nextRun_overruns : ∃ expr, parseCron (ofString "0 0 13 9 *") = .ok expr ∧
    ¬ FindsNext expr (maxTime - dayMs + 1800000) := by
  -- half an hour into the day before the last instant, which is a thirteenth of September
  refine ⟨⟨ofString "0 0 13 9 *", [0], [0], [13], [9], [0, 1, 2, 3, 4, 5, 6], true, false⟩, by decide +kernel, ?_⟩
  exact not_findsNext_of_overruns ⟨by decide, by decide, by decide +kernel, by decide +kernel⟩

theorem nextRun_findsNext_leap : ∃ expr, parseCron (ofString "0 0 29 2 *") = .ok expr ∧
    (FindsNext expr 3981312000000 ↔ ¬ Overruns expr 3981312000000) := by
  obtain ⟨expr, h⟩ := cronErrorMessage_eq_none.mp
    (show cronErrorMessage (ofString "0 0 29 2 *") = none by decide +kernel)
  exact ⟨expr, h, nextRun_findsNext_iff h _⟩

end Horizon

end CrashLab.Cron
