import Mathlib.Data.List.TakeWhile
import CrashLab.CronParser
import CrashLab.Fallible

namespace CrashLab.Cron

open Fallible JsStrings Sorting

section Grammar

/-- The terms of the grammar: `*`, `a` and `a-b`, each with or without a step. -/
inductive Base where
  | all
  | value (a : ℕ)
  | range (a b : ℕ)
deriving DecidableEq, Repr

structure Term where
  base : Base
  step : Option ℕ
deriving DecidableEq, Repr

def Numeral (token : JsString) (n : ℕ) : Prop := isDigits token = true ∧ numberOf token = n

def Base.Reads (text : JsString) : Base → Prop
  | all => text = star
  | value a => Numeral text a
  | range a b => ∃ low high, text = low ++ dash :: high ∧ Numeral low a ∧ Numeral high b

def Term.Reads (text : JsString) : Term → Prop
  | ⟨base, none⟩ => base.Reads text
  | ⟨base, some n⟩ =>
    ∃ rangePart stepPart, text = rangePart ++ slash :: stepPart ∧ base.Reads rangePart ∧ Numeral stepPart n

def Base.Within (spec : CronFieldSpec) : Base → Prop
  | all => True
  | value a => spec.min ≤ a ∧ a ≤ spec.max
  | range a b => spec.min ≤ a ∧ a ≤ b ∧ b ≤ spec.max

def Term.Valid (spec : CronFieldSpec) (term : Term) : Prop := term.base.Within spec ∧ ∀ n, term.step = some n → 0 < n

def Every (n lo hi u : ℕ) : Prop := lo ≤ u ∧ u ≤ hi ∧ n ∣ u - lo

/-- `a/n` is `a` and every nth value from it up to the maximum of the field. -/
def Term.Denotes (spec : CronFieldSpec) : Term → ℕ → Prop
  | ⟨.all, step⟩, u => Every (step.getD 1) spec.min spec.max u
  | ⟨.value a, none⟩, u => u = a
  | ⟨.value a, some n⟩, u => u = a ∨ Every n a spec.max u
  | ⟨.range a b, step⟩, u => Every (step.getD 1) a b u

def FieldReads (spec : CronFieldSpec) (text : JsString) (terms : List Term) : Prop :=
  ∃ texts, texts ≠ [] ∧ text = [comma].intercalate texts ∧
    List.Forall₂ (fun text (term : Term) => term.Reads text ∧ term.Valid spec) texts terms

def FieldDenotes (spec : CronFieldSpec) (terms : List Term) (u : ℕ) : Prop := ∃ term ∈ terms, term.Denotes spec u

inductive Spaced : JsString → List JsString → Prop
  | blank {gap : JsString} : gap.all isSpace = true → Spaced gap []
  | word {gap word rest : JsString} {words : List JsString} : gap.all isSpace = true → word ≠ [] →
      word.any isSpace = false → rest.head?.all isSpace = true → Spaced rest words →
      Spaced (gap ++ (word ++ rest)) (word :: words)

/-- `CRON_FIELDS.dayOfWeek`. -/
def documentedDayOfWeek : CronFieldSpec := ⟨"day-of-week", 0, 6⟩

structure Fields where
  minute : List Term
  hour : List Term
  dayOfMonth : List Term
  month : List Term
  dayOfWeek : List Term

def Fields.Reads (source : JsString) (fields : Fields) : Prop :=
  ∃ minute hour dayOfMonth month dayOfWeek,
    Spaced source [minute, hour, dayOfMonth, month, dayOfWeek] ∧ FieldReads minuteSpec minute fields.minute ∧
      FieldReads hourSpec hour fields.hour ∧ FieldReads dayOfMonthSpec dayOfMonth fields.dayOfMonth ∧
        FieldReads monthSpec month fields.month ∧ FieldReads dayOfWeekSpec dayOfWeek fields.dayOfWeek

def sunday (v : ℕ) : ℕ := if v = 7 then 0 else v

def DayOfWeekDenotes (terms : List Term) (u : ℕ) : Prop :=
  ∃ v, FieldDenotes documentedDayOfWeek terms v ∧ u = sunday v

/-- `parseCron` takes a source exactly when the grammar has it, and reads it as the grammar does. -/
structure Faithful (source : JsString) : Prop where
  accepts : (∃ expr, parseCron source = .ok expr) ↔ ∃ fields : Fields, fields.Reads source
  minute : ∀ (expr : CronExpression) (fields : Fields), parseCron source = .ok expr → fields.Reads source →
    ∀ u, u ∈ expr.minute ↔ FieldDenotes minuteSpec fields.minute u
  hour : ∀ (expr : CronExpression) (fields : Fields), parseCron source = .ok expr → fields.Reads source →
    ∀ u, u ∈ expr.hour ↔ FieldDenotes hourSpec fields.hour u
  dayOfMonth : ∀ (expr : CronExpression) (fields : Fields), parseCron source = .ok expr → fields.Reads source →
    ∀ u, u ∈ expr.dayOfMonth ↔ FieldDenotes dayOfMonthSpec fields.dayOfMonth u
  month : ∀ (expr : CronExpression) (fields : Fields), parseCron source = .ok expr → fields.Reads source →
    ∀ u, u ∈ expr.month ↔ FieldDenotes monthSpec fields.month u
  dayOfWeek : ∀ (expr : CronExpression) (fields : Fields), parseCron source = .ok expr → fields.Reads source →
    ∀ u, u ∈ expr.dayOfWeek ↔ DayOfWeekDenotes fields.dayOfWeek u

end Grammar

section Texts

theorem notMem_of_numeral {token : JsString} {n : ℕ} {u : UInt16} (h : Numeral token n) (hu : isDigit u = false) :
    u ∉ token := by
  intro hmem
  have hall := (Bool.and_eq_true_iff.mp h.1).2
  rw [List.all_eq_true.mp hall u hmem] at hu
  cases hu

theorem ne_nil_of_numeral {token : JsString} {n : ℕ} (h : Numeral token n) : token ≠ [] :=
  of_decide_eq_true (Bool.and_eq_true_iff.mp h.1).1

def isTermUnit (u : UInt16) : Bool := isDigit u || u = 0x2A || u = dash || u = slash

theorem Base.notMem_of_reads {base : Base} {text : JsString} {u : UInt16} (h : base.Reads text)
    (hu : isDigit u = false) (hstar : u ≠ 0x2A) (hdash : u ≠ dash) : u ∉ text := by
  cases base with
  | all =>
    cases (show text = star from h)
    simpa [star] using hstar
  | value a => exact notMem_of_numeral h hu
  | range a b =>
    obtain ⟨low, high, rfl, hlow, hhigh⟩ := h
    simp only [List.mem_append, List.mem_cons, not_or]
    exact ⟨notMem_of_numeral hlow hu, hdash, notMem_of_numeral hhigh hu⟩

theorem Base.ne_nil_of_reads {base : Base} {text : JsString} (h : base.Reads text) : text ≠ [] := by
  cases base with
  | all =>
    cases (show text = star from h)
    simp [star]
  | value a => exact ne_nil_of_numeral h
  | range a b =>
    obtain ⟨low, high, rfl, -⟩ := h
    simp

theorem Term.notMem_of_reads {term : Term} {text : JsString} {u : UInt16} (h : term.Reads text)
    (hu : isTermUnit u = false) : u ∉ text := by
  simp only [isTermUnit, Bool.or_eq_false_iff, decide_eq_false_iff_not] at hu
  obtain ⟨⟨⟨hdigit, hstar⟩, hdash⟩, hslash⟩ := hu
  obtain ⟨base, _ | n⟩ := term
  · exact Base.notMem_of_reads h hdigit hstar hdash
  · obtain ⟨rangePart, stepPart, rfl, hrange, hstep⟩ := h
    simp only [List.mem_append, List.mem_cons, not_or]
    exact ⟨Base.notMem_of_reads hrange hdigit hstar hdash, hslash, notMem_of_numeral hstep hdigit⟩

theorem Term.ne_nil_of_reads {term : Term} {text : JsString} (h : term.Reads text) : text ≠ [] := by
  obtain ⟨base, _ | n⟩ := term
  · exact Base.ne_nil_of_reads h
  · obtain ⟨rangePart, stepPart, rfl, -⟩ := h
    simp

theorem intercalate_pair {α : Type*} (sep : α) (low high : List α) :
    [sep].intercalate [low, high] = low ++ sep :: high := by
  simp [List.intercalate]

theorem splitOn_pair {u : UInt16} {low high : JsString} (hlow : u ∉ low) (hhigh : u ∉ high) :
    (low ++ u :: high).splitOn u = [low, high] := by
  rw [List.splitOn_append_cons_self_of_not_mem hlow, List.splitOn_eq_singleton hhigh]

theorem eq_of_splitOn_singleton {text part : JsString} {u : UInt16} (h : text.splitOn u = [part]) : text = part := by
  have hjoin := @List.intercalate_splitOn _ text _ _ u
  rw [h] at hjoin
  simpa using hjoin.symm

theorem eq_of_splitOn_pair {text low high : JsString} {u : UInt16} (h : text.splitOn u = [low, high]) :
    text = low ++ u :: high := by
  have hjoin := @List.intercalate_splitOn _ text _ _ u
  rw [h, intercalate_pair] at hjoin
  exact hjoin.symm

theorem mem_intercalate_of_mem {α : Type*} {sep : List α} {texts : List (List α)} {text : List α} {u : α}
    (htext : text ∈ texts) (hu : u ∈ text) : u ∈ sep.intercalate texts := by
  induction texts with
  | nil => cases htext
  | cons first texts ih =>
    cases texts with
    | nil =>
      rw [List.mem_singleton] at htext
      subst htext
      simpa [List.intercalate] using hu
    | cons second texts =>
      rw [List.intercalate_cons_cons, List.mem_append, List.mem_append]
      rcases List.mem_cons.mp htext with rfl | htext
      · exact Or.inl (Or.inl hu)
      · exact Or.inr (ih htext)

theorem trim_eq_self {text : JsString} (h : text.any isSpace = false) : trim text = text := by
  have hdrop : ∀ s : JsString, s.any isSpace = false → s.dropWhile isSpace = s := by
    intro s hs
    apply (List.dropWhile_eq_self_iff).mpr
    intro hlength
    rw [List.any_eq_false] at hs
    exact hs _ (List.getElem_mem hlength)
  rw [trim, hdrop text h, hdrop text.reverse (by rwa [List.any_reverse]), List.reverse_reverse]

end Texts

section Terms

variable {spec : CronFieldSpec} {text term : JsString} {n : ℕ}

theorem parseNumber_eq_ok :
    parseNumber text spec term = .ok n ↔ Numeral text n ∧ spec.min ≤ n ∧ n ≤ spec.max := by
  unfold parseNumber Numeral
  split_ifs with hdigits hrange
  · simp [hdigits]
  · constructor
    · intro h
      cases h
    · rintro ⟨⟨-, rfl⟩, hmin, hmax⟩
      omega
  · rw [Except.ok.injEq]
    constructor
    · rintro rfl
      exact ⟨⟨Bool.eq_true_of_not_eq_false hdigits, rfl⟩, by omega, by omega⟩
    · exact fun h => h.1.2

theorem parseStep_eq_ok : parseStep text spec term = .ok n ↔ Numeral text n ∧ 0 < n := by
  unfold parseStep Numeral
  split_ifs with hdigits hzero
  · simp [hdigits]
  · constructor
    · intro h
      cases h
    · rintro ⟨⟨-, rfl⟩, hpos⟩
      omega
  · rw [Except.ok.injEq]
    constructor
    · rintro rfl
      exact ⟨⟨Bool.eq_true_of_not_eq_false hdigits, rfl⟩, Nat.pos_of_ne_zero hzero⟩
    · exact fun h => h.1.2

def Base.bounds (spec : CronFieldSpec) (stepped : Bool) : Base → ℕ × ℕ
  | all => (spec.min, spec.max)
  | value a => (a, if stepped then spec.max else a)
  | range a b => (a, b)

theorem parseRange_of_reads {base : Base} {stepped : Bool} (hreads : base.Reads text) (hwithin : base.Within spec) :
    parseRange text stepped spec term = .ok (base.bounds spec stepped) := by
  have hne := Base.ne_nil_of_reads hreads
  unfold parseRange
  rw [if_neg hne]
  cases base with
  | all => rw [if_pos (show text = star from hreads), Base.bounds]
  | value a =>
    have hnumeral : Numeral text a := hreads
    have hstar : text ≠ star := by
      rintro rfl
      exact absurd hnumeral.1 (by decide)
    rw [if_neg hstar, if_neg (notMem_of_numeral hnumeral (by decide)),
      parseNumber_eq_ok.mpr ⟨hnumeral, hwithin.1, hwithin.2⟩]
    rfl
  | range a b =>
    obtain ⟨low, high, rfl, hlow, hhigh⟩ := hreads
    obtain ⟨hmin, hle, hmax⟩ := hwithin
    have hstar : low ++ dash :: high ≠ star := by
      intro h
      have hmem : dash ∈ star := h ▸ List.mem_append_right low List.mem_cons_self
      exact absurd hmem (by decide)
    rw [if_neg hstar, if_pos (List.mem_append_right low List.mem_cons_self),
      splitOn_pair (notMem_of_numeral hlow (by decide)) (notMem_of_numeral hhigh (by decide))]
    simp only [ne_nil_of_numeral hlow, ne_nil_of_numeral hhigh, or_self, ↓reduceIte,
      parseNumber_eq_ok.mpr ⟨hlow, hmin, hle.trans hmax⟩, parseNumber_eq_ok.mpr ⟨hhigh, hmin.trans hle, hmax⟩]
    show (if b < a then _ else _) = _
    rw [if_neg (not_lt.mpr hle), Base.bounds]

theorem reads_of_parseRange {stepped : Bool} {bounds : ℕ × ℕ} (h : parseRange text stepped spec term = .ok bounds) :
    ∃ base : Base, base.Reads text ∧ base.Within spec ∧ bounds = base.bounds spec stepped := by
  unfold parseRange at h
  by_cases hnil : text = []
  · rw [if_pos hnil] at h
    cases h
  rw [if_neg hnil] at h
  by_cases hstar : text = star
  · rw [if_pos hstar] at h
    cases h
    exact ⟨.all, hstar, trivial, rfl⟩
  rw [if_neg hstar] at h
  by_cases hdash : dash ∈ text
  · rw [if_pos hdash] at h
    dsimp only at h
    split at h
    · rename_i low high hsplit
      split_ifs at h
      obtain ⟨lo, hlo, h⟩ := bind_eq_ok.mp h
      obtain ⟨hi, hhi, h⟩ := bind_eq_ok.mp h
      obtain ⟨hlow, hmin, -⟩ := parseNumber_eq_ok.mp hlo
      obtain ⟨hhigh, -, hmax⟩ := parseNumber_eq_ok.mp hhi
      split_ifs at h with hlt
      cases h
      exact ⟨.range lo hi, ⟨low, high, eq_of_splitOn_pair hsplit, hlow, hhigh⟩, ⟨hmin, not_lt.mp hlt, hmax⟩, rfl⟩
    · cases h
  · rw [if_neg hdash] at h
    obtain ⟨a, ha, h⟩ := bind_eq_ok.mp h
    obtain ⟨hnumeral, hmin, hmax⟩ := parseNumber_eq_ok.mp ha
    cases h
    exact ⟨.value a, hnumeral, ⟨hmin, hmax⟩, rfl⟩

theorem mem_stepThrough {lo hi u : ℕ} (hn : 0 < n) : u ∈ stepThrough lo hi n ↔ Every n lo hi u := by
  unfold stepThrough Every
  simp only [List.mem_map, List.mem_range]
  constructor
  · rintro ⟨k, hk, rfl⟩
    have hmul : (k + 1) * n ≤ hi + n - lo := (Nat.le_div_iff_mul_le hn).mp hk
    rw [Nat.add_mul, Nat.one_mul, Nat.mul_comm] at hmul
    exact ⟨Nat.le_add_right _ _, by omega, by simp⟩
  · rintro ⟨hle, hmax, k, hk⟩
    refine ⟨k, (Nat.le_div_iff_mul_le hn).mpr ?_, by omega⟩
    rw [Nat.succ_eq_add_one, Nat.add_mul, Nat.one_mul, Nat.mul_comm]
    omega

theorem every_one {lo u : ℕ} : Every 1 lo lo u ↔ u = lo := by
  unfold Every
  simp only [one_dvd, and_true]
  omega

def Term.values (spec : CronFieldSpec) (term : Term) : List ℕ :=
  let (lo, hi) := term.base.bounds spec term.step.isSome
  stepThrough lo hi (term.step.getD 1)

theorem Term.mem_values {t : Term} (h : t.Valid spec) {u : ℕ} : u ∈ t.values spec ↔ t.Denotes spec u := by
  obtain ⟨base, step⟩ := t
  obtain ⟨hwithin, hstep⟩ := h
  have hpos : 0 < step.getD 1 := by
    cases step with
    | none => decide
    | some n => exact hstep n rfl
  unfold Term.values
  cases base with
  | all => exact mem_stepThrough hpos
  | range a b => exact mem_stepThrough hpos
  | value a =>
    cases step with
    | none => exact (mem_stepThrough one_pos).trans every_one
    | some n =>
      refine (mem_stepThrough hpos).trans ?_
      show Every n a spec.max u ↔ u = a ∨ Every n a spec.max u
      constructor
      · exact Or.inr
      · rintro (rfl | h)
        · exact ⟨le_rfl, hwithin.2, by simp⟩
        · exact h

theorem parseTerm_of_reads {t : Term} (hreads : t.Reads text) (hvalid : t.Valid spec) :
    parseTerm text spec = .ok (t.values spec) := by
  obtain ⟨base, _ | n⟩ := t
  · have hslash : slash ∉ text := Base.notMem_of_reads hreads (by decide) (by decide) (by decide)
    rw [parseTerm, List.splitOn_eq_singleton hslash]
    simp only [parseRange_of_reads hreads hvalid.1]
    rfl
  · obtain ⟨rangePart, stepPart, rfl, hrange, hstep⟩ := hreads
    have hslash : slash ∉ rangePart := Base.notMem_of_reads hrange (by decide) (by decide) (by decide)
    rw [parseTerm, splitOn_pair hslash (notMem_of_numeral hstep (by decide))]
    simp only [parseStep_eq_ok.mpr ⟨hstep, hvalid.2 n rfl⟩, parseRange_of_reads hrange hvalid.1]
    rfl

theorem reads_of_parseTerm {values : List ℕ} (h : parseTerm text spec = .ok values) :
    ∃ t : Term, t.Reads text ∧ t.Valid spec ∧ values = t.values spec := by
  unfold parseTerm at h
  split at h
  · rename_i rangePart hsplit
    obtain ⟨bounds, hbounds, h⟩ := bind_eq_ok.mp h
    obtain ⟨base, hreads, hwithin, rfl⟩ := reads_of_parseRange hbounds
    cases h
    rw [← eq_of_splitOn_singleton hsplit] at hreads
    exact ⟨⟨base, none⟩, hreads, ⟨hwithin, nofun⟩, rfl⟩
  · rename_i rangePart stepPart hsplit
    obtain ⟨n, hn, h⟩ := bind_eq_ok.mp h
    obtain ⟨bounds, hbounds, h⟩ := bind_eq_ok.mp h
    obtain ⟨base, hreads, hwithin, rfl⟩ := reads_of_parseRange hbounds
    obtain ⟨hnumeral, hpos⟩ := parseStep_eq_ok.mp hn
    cases h
    refine ⟨⟨base, some n⟩, ⟨rangePart, stepPart, eq_of_splitOn_pair hsplit, hreads, hnumeral⟩, ⟨hwithin, ?_⟩, rfl⟩
    intro m hm
    cases hm
    exact hpos
  · cases h

end Terms

section Fields

variable {spec : CronFieldSpec} {text raw : JsString} {terms : List Term}

theorem isTermUnit_of_isSpace {u : UInt16} (h : isSpace u = true) : isTermUnit u = false := by
  by_contra hunit
  rw [Bool.not_eq_false] at hunit
  simp only [isTermUnit, Bool.or_eq_true, decide_eq_true_eq] at hunit
  rcases hunit with ((hdigit | rfl) | rfl) | rfl
  · simp only [isDigit, Bool.and_eq_true, decide_eq_true_eq] at hdigit
    simp [isSpace] at h
    omega
  · exact absurd h (by decide)
  · exact absurd h (by decide)
  · exact absurd h (by decide)

theorem Term.notSpace_of_reads {term : Term} (h : term.Reads text) : text.any isSpace = false := by
  rw [List.any_eq_false]
  intro u hu hspace
  exact Term.notMem_of_reads h (isTermUnit_of_isSpace hspace) hu

theorem FieldReads.notSpace (h : FieldReads spec text terms) : text.any isSpace = false := by
  obtain ⟨texts, -, rfl, hall⟩ := h
  induction hall with
  | nil => rfl
  | @cons first term texts terms hfirst hall ih =>
    have hspace := Term.notSpace_of_reads hfirst.1
    cases texts with
    | nil => simpa [List.intercalate] using hspace
    | cons second texts =>
      rw [List.intercalate_cons_cons, List.any_append, List.any_append, hspace, ih]
      decide

theorem FieldReads.ne_nil (h : FieldReads spec text terms) : text ≠ [] := by
  obtain ⟨texts, hne, rfl, hall⟩ := h
  cases hall with
  | nil => exact absurd rfl hne
  | @cons first term texts terms hfirst hall =>
    obtain ⟨u, rest, rfl⟩ := List.exists_cons_of_ne_nil (Term.ne_nil_of_reads hfirst.1)
    intro hnil
    have hmem := @mem_intercalate_of_mem _ [comma] ((u :: rest) :: texts) _ u List.mem_cons_self List.mem_cons_self
    rw [hnil] at hmem
    cases hmem

theorem FieldReads.valid (h : FieldReads spec text terms) : ∀ term ∈ terms, term.Valid spec := by
  obtain ⟨texts, -, -, hall⟩ := h
  induction hall with
  | nil => nofun
  | cons hfirst _ ih => exact List.forall_mem_cons.mpr ⟨hfirst.2, ih⟩

/-- What `parseField` makes of the terms of a field. -/
def fieldOf (spec : CronFieldSpec) (text : JsString) (terms : List Term) : ParsedField :=
  ⟨sortDedup (terms.map (Term.values spec)).flatten, text ≠ star⟩

theorem FieldReads.mem_values (h : FieldReads spec text terms) {u : ℕ} :
    u ∈ (fieldOf spec text terms).values ↔ FieldDenotes spec terms u := by
  unfold fieldOf FieldDenotes
  simp only [mem_sortDedup, List.mem_flatten, List.mem_map]
  constructor
  · rintro ⟨values, ⟨term, hterm, rfl⟩, hu⟩
    exact ⟨term, hterm, (Term.mem_values (h.valid term hterm)).mp hu⟩
  · rintro ⟨term, hterm, hu⟩
    exact ⟨_, ⟨term, hterm, rfl⟩, (Term.mem_values (h.valid term hterm)).mpr hu⟩

theorem parseField_of_reads (h : FieldReads spec raw terms) : parseField raw spec = .ok (fieldOf spec raw terms) := by
  have htrim := trim_eq_self h.notSpace
  have hnil := h.ne_nil
  obtain ⟨texts, hne, hraw, hall⟩ := h
  have hcomma : ∀ text ∈ texts, comma ∉ text := by
    clear htrim hnil hne hraw
    induction hall with
    | nil => nofun
    | cons hfirst _ ih => exact List.forall_mem_cons.mpr ⟨Term.notMem_of_reads hfirst.1 (by decide), ih⟩
  have hsplit : raw.splitOn comma = texts := by rw [hraw, List.splitOn_intercalate comma hcomma hne]
  unfold parseField
  rw [htrim, if_neg hnil, hsplit]
  refine bind_eq_ok.mpr ⟨terms.map (Term.values spec), mapM_eq_ok.mpr ?_, rfl⟩
  clear htrim hnil hne hraw hsplit hcomma
  induction hall with
  | nil => exact .nil
  | @cons first term texts terms hfirst hall ih =>
    refine .cons ?_ ih
    rw [trim_eq_self (Term.notSpace_of_reads hfirst.1), if_neg (Term.ne_nil_of_reads hfirst.1), parseTerm_of_reads hfirst.1 hfirst.2]

theorem reads_of_parseField {field : ParsedField} (hspace : raw.any isSpace = false)
    (h : parseField raw spec = .ok field) : ∃ terms, FieldReads spec raw terms ∧ field = fieldOf spec raw terms := by
  unfold parseField at h
  rw [trim_eq_self hspace] at h
  by_cases hnil : raw = []
  · rw [if_pos hnil] at h
    cases h
  rw [if_neg hnil] at h
  obtain ⟨values, hvalues, h⟩ := bind_eq_ok.mp h
  rw [mapM_eq_ok] at hvalues
  have hjoin := @List.intercalate_splitOn _ raw _ _ comma
  have hspaces : ∀ text ∈ raw.splitOn comma, text.any isSpace = false := by
    intro text htext
    rw [List.any_eq_false] at hspace ⊢
    intro u hu
    apply hspace
    rw [← hjoin]
    exact mem_intercalate_of_mem htext hu
  have hne := List.splitOn_ne_nil comma raw
  generalize raw.splitOn comma = texts at hvalues hjoin hspaces hne
  have hterms : ∃ terms, List.Forall₂ (fun text (term : Term) => term.Reads text ∧ term.Valid spec)
      texts terms ∧ values = terms.map (Term.values spec) := by
    clear hjoin hne h
    induction hvalues with
    | nil => exact ⟨[], .nil, rfl⟩
    | @cons first value texts values hfirst _ ih =>
      rw [List.forall_mem_cons] at hspaces
      obtain ⟨terms, hterms, rfl⟩ := ih hspaces.2
      rw [trim_eq_self hspaces.1] at hfirst
      dsimp only at hfirst
      split_ifs at hfirst
      obtain ⟨term, hreads, hvalid, rfl⟩ := reads_of_parseTerm hfirst
      exact ⟨term :: terms, .cons ⟨hreads, hvalid⟩ hterms, rfl⟩
  obtain ⟨terms, hterms, rfl⟩ := hterms
  cases h
  exact ⟨terms, ⟨texts, hne, hjoin.symm, hterms⟩, rfl⟩

end Fields

section Words

variable {text : JsString} {words : List JsString}

theorem splitFields_append_cons {u : UInt16} (hu : isSpace u = true) (s t : JsString) :
    splitFields (s ++ u :: t) = splitFields s ++ splitFields t := by
  rw [splitFields, List.splitOnP_append_cons s t hu, List.filter_append]
  rfl

theorem splitFields_cons {u : UInt16} (hu : isSpace u = true) (s : JsString) :
    splitFields (u :: s) = splitFields s := by
  have h := splitFields_append_cons hu [] s
  rwa [List.nil_append] at h

theorem splitFields_gap {gap : JsString} (h : gap.all isSpace = true) (s : JsString) :
    splitFields (gap ++ s) = splitFields s := by
  induction gap with
  | nil => rfl
  | cons u gap ih =>
    rw [List.all_cons, Bool.and_eq_true] at h
    rw [List.cons_append, splitFields_cons h.1, ih h.2]

theorem splitFields_append_gap {gap : JsString} (h : gap.all isSpace = true) (s : JsString) :
    splitFields (s ++ gap) = splitFields s := by
  cases gap with
  | nil => rw [List.append_nil]
  | cons u gap =>
    rw [List.all_cons, Bool.and_eq_true] at h
    have hgap := splitFields_gap h.2 []
    rw [List.append_nil] at hgap
    rw [splitFields_append_cons h.1, hgap]
    exact List.append_nil _

theorem splitFields_word {word : JsString} (hne : word ≠ []) (h : word.any isSpace = false) :
    splitFields word = [word] := by
  rw [List.any_eq_false] at h
  rw [splitFields, List.splitOnP_eq_singleton (fun u hu => Bool.eq_false_of_not_eq_true (h u hu))]
  simp [hne]

theorem Spaced.splitFields_eq (h : Spaced text words) : splitFields text = words := by
  induction h with
  | @blank gap hgap =>
    have h := splitFields_gap hgap []
    rwa [List.append_nil] at h
  | @word gap word rest words hgap hne hword hrest _ ih =>
    rw [splitFields_gap hgap]
    cases rest with
    | nil =>
      rw [← ih, List.append_nil, splitFields_word hne hword]
      rfl
    | cons u rest =>
      have hu : isSpace u = true := hrest
      rw [splitFields_append_cons hu, splitFields_word hne hword, ← ih, splitFields_cons hu]
      rfl

theorem head?_dropWhile_space (text : JsString) : (text.dropWhile fun u => !isSpace u).head?.all isSpace = true := by
  have h := List.head?_dropWhile_not (fun u => !isSpace u) text
  cases hhead : (text.dropWhile fun u => !isSpace u).head? with
  | none => rfl
  | some u =>
    rw [hhead] at h
    simpa using h

theorem spaced_splitFields (text : JsString) : Spaced text (splitFields text) := by
  have hgap : ∀ s : JsString, (s.takeWhile isSpace).all isSpace = true := fun s => List.all_takeWhile
  obtain ⟨n, hn⟩ : ∃ n, text.length ≤ n := ⟨_, le_rfl⟩
  induction n generalizing text with
  | zero =>
    rw [Nat.le_zero, List.length_eq_zero_iff] at hn
    subst hn
    exact .blank rfl
  | succ n ih =>
    have hsplit := @List.takeWhile_append_dropWhile _ isSpace text
    cases hdrop : text.dropWhile isSpace with
    | nil =>
      rw [hdrop, List.append_nil] at hsplit
      have hblank : text.all isSpace = true := hsplit ▸ hgap text
      have h : Spaced text [] := .blank hblank
      rwa [← h.splitFields_eq] at h
    | cons u rest =>
      -- the word goes on to the next space, which starts the rest
      have hu : isSpace u = false := by
        have hhead := List.head?_dropWhile_not isSpace text
        rw [hdrop] at hhead
        simpa using hhead
      have hword := @List.takeWhile_append_dropWhile _ (fun v => !isSpace v) (u :: rest)
      set word := (u :: rest).takeWhile fun v => !isSpace v with hdef
      set after := (u :: rest).dropWhile fun v => !isSpace v with hafter
      have hne : word ≠ [] := by simp [hdef, hu]
      have hnone : word.any isSpace = false := by
        rw [List.any_eq_not_all_not, hdef, List.all_takeWhile]
        rfl
      have hhead : after.head?.all isSpace = true := head?_dropWhile_space (u :: rest)
      have hlength : after.length ≤ n := by
        have h := congrArg List.length hword
        have h' := congrArg List.length hsplit
        rw [List.length_append] at h h'
        have := List.length_pos_of_ne_nil hne
        rw [hdrop] at h'
        omega
      have h := Spaced.word (hgap text) hne hnone hhead (ih after hlength)
      rw [hword, ← hdrop, hsplit] at h
      rwa [← h.splitFields_eq] at h

theorem splitFields_eq_iff : splitFields text = words ↔ Spaced text words := by
  constructor
  · rintro rfl
    exact spaced_splitFields text
  · exact Spaced.splitFields_eq

theorem splitFields_trim (text : JsString) : splitFields (trim text) = splitFields text := by
  have hgap : ∀ s : JsString, (s.takeWhile isSpace).all isSpace = true := fun s => List.all_takeWhile
  have hback : splitFields (trim text) = splitFields (text.dropWhile isSpace) := by
    have hsplit := @List.takeWhile_append_dropWhile _ isSpace (text.dropWhile isSpace).reverse
    have hrev := congrArg List.reverse hsplit
    rw [List.reverse_append, List.reverse_reverse] at hrev
    have hall : (((text.dropWhile isSpace).reverse).takeWhile isSpace).reverse.all isSpace = true := by
      rw [List.all_reverse]
      exact hgap _
    have hgone := splitFields_append_gap hall (trim text)
    rwa [trim, hrev, ← trim, eq_comm] at hgone
  have hfront := splitFields_gap (hgap text) (text.dropWhile isSpace)
  rw [List.takeWhile_append_dropWhile] at hfront
  rw [hback, hfront]

theorem Spaced.notSpace (h : Spaced text words) : ∀ word ∈ words, word.any isSpace = false := by
  induction h with
  | blank => nofun
  | word _ _ hword _ _ ih => exact List.forall_mem_cons.mpr ⟨hword, ih⟩

end Words

section Sources

variable {source : JsString} {fields : Fields} {expr : CronExpression}

/-- What `parseCron` makes of the words and terms of a source. -/
def expressionOf (source minute hour dayOfMonth month dayOfWeek : JsString) (fields : Fields) : CronExpression where
  source := trim source
  minute := (fieldOf minuteSpec minute fields.minute).values
  hour := (fieldOf hourSpec hour fields.hour).values
  dayOfMonth := (fieldOf dayOfMonthSpec dayOfMonth fields.dayOfMonth).values
  month := (fieldOf monthSpec month fields.month).values
  dayOfWeek := sortDedup ((fieldOf dayOfWeekSpec dayOfWeek fields.dayOfWeek).values.map sunday)
  dayOfMonthRestricted := (fieldOf dayOfMonthSpec dayOfMonth fields.dayOfMonth).restricted
  dayOfWeekRestricted := (fieldOf dayOfWeekSpec dayOfWeek fields.dayOfWeek).restricted

theorem parseCron_of_words {minute hour dayOfMonth month dayOfWeek : JsString}
    (hwords : Spaced source [minute, hour, dayOfMonth, month, dayOfWeek])
    (hminute : FieldReads minuteSpec minute fields.minute) (hhour : FieldReads hourSpec hour fields.hour)
    (hdayOfMonth : FieldReads dayOfMonthSpec dayOfMonth fields.dayOfMonth)
    (hmonth : FieldReads monthSpec month fields.month)
    (hdayOfWeek : FieldReads dayOfWeekSpec dayOfWeek fields.dayOfWeek) :
    parseCron source = .ok (expressionOf source minute hour dayOfMonth month dayOfWeek fields) := by
  have hsplit := hwords.splitFields_eq
  rw [← splitFields_trim] at hsplit
  have hne : trim source ≠ [] := by
    intro hnil
    rw [hnil] at hsplit
    cases hsplit
  unfold parseCron
  rw [if_neg hne, hsplit]
  simp only [parseField_of_reads hminute, parseField_of_reads hhour, parseField_of_reads hdayOfMonth,
    parseField_of_reads hmonth, parseField_of_reads hdayOfWeek]
  rfl

theorem words_of_parseCron (h : parseCron source = .ok expr) :
    ∃ minute hour dayOfMonth month dayOfWeek, ∃ fields : Fields,
      Spaced source [minute, hour, dayOfMonth, month, dayOfWeek] ∧ FieldReads minuteSpec minute fields.minute ∧
        FieldReads hourSpec hour fields.hour ∧ FieldReads dayOfMonthSpec dayOfMonth fields.dayOfMonth ∧
          FieldReads monthSpec month fields.month ∧ FieldReads dayOfWeekSpec dayOfWeek fields.dayOfWeek := by
  unfold parseCron at h
  dsimp only at h
  by_cases hnil : trim source = []
  · rw [if_pos hnil] at h
    cases h
  rw [if_neg hnil, splitFields_trim] at h
  split at h
  · rename_i minute hour dayOfMonth month dayOfWeek hsplit
    have hwords := splitFields_eq_iff.mp hsplit
    have hspace := hwords.notSpace
    simp only [List.forall_mem_cons] at hspace
    obtain ⟨hminute, hhour, hdayOfMonth, hmonth, hdayOfWeek, -⟩ := hspace
    obtain ⟨minuteField, hparse, h⟩ := bind_eq_ok.mp h
    obtain ⟨minuteTerms, hminute, -⟩ := reads_of_parseField hminute hparse
    obtain ⟨hourField, hparse, h⟩ := bind_eq_ok.mp h
    obtain ⟨hourTerms, hhour, -⟩ := reads_of_parseField hhour hparse
    obtain ⟨dayOfMonthField, hparse, h⟩ := bind_eq_ok.mp h
    obtain ⟨dayOfMonthTerms, hdayOfMonth, -⟩ := reads_of_parseField hdayOfMonth hparse
    obtain ⟨monthField, hparse, h⟩ := bind_eq_ok.mp h
    obtain ⟨monthTerms, hmonth, -⟩ := reads_of_parseField hmonth hparse
    obtain ⟨dayOfWeekField, hparse, h⟩ := bind_eq_ok.mp h
    obtain ⟨dayOfWeekTerms, hdayOfWeek, -⟩ := reads_of_parseField hdayOfWeek hparse
    exact ⟨minute, hour, dayOfMonth, month, dayOfWeek,
      ⟨minuteTerms, hourTerms, dayOfMonthTerms, monthTerms, dayOfWeekTerms⟩,
      hwords, hminute, hhour, hdayOfMonth, hmonth, hdayOfWeek⟩
  · cases h

theorem parseCron_accepts (source : JsString) :
    (∃ expr, parseCron source = .ok expr) ↔ ∃ fields : Fields, fields.Reads source := by
  constructor
  · rintro ⟨expr, h⟩
    obtain ⟨minute, hour, dayOfMonth, month, dayOfWeek, fields, h⟩ := words_of_parseCron h
    exact ⟨fields, minute, hour, dayOfMonth, month, dayOfWeek, h⟩
  · rintro ⟨fields, minute, hour, dayOfMonth, month, dayOfWeek, hwords, hmi, hh, hdom, hmo, hdow⟩
    exact ⟨_, parseCron_of_words hwords hmi hh hdom hmo hdow⟩

theorem mem_map_sunday {days : List ℕ} {u : ℕ} : u ∈ sortDedup (days.map sunday) ↔ ∃ v ∈ days, u = sunday v := by
  rw [mem_sortDedup, List.mem_map]
  exact exists_congr fun v => and_congr_right fun _ => eq_comm

theorem mem_of_parseCron (h : parseCron source = .ok expr) (hreads : fields.Reads source) (u : ℕ) :
    (u ∈ expr.minute ↔ FieldDenotes minuteSpec fields.minute u) ∧
      (u ∈ expr.hour ↔ FieldDenotes hourSpec fields.hour u) ∧
      (u ∈ expr.dayOfMonth ↔ FieldDenotes dayOfMonthSpec fields.dayOfMonth u) ∧
      (u ∈ expr.month ↔ FieldDenotes monthSpec fields.month u) ∧
      (u ∈ expr.dayOfWeek ↔ ∃ v, FieldDenotes dayOfWeekSpec fields.dayOfWeek v ∧ u = sunday v) := by
  obtain ⟨minute, hour, dayOfMonth, month, dayOfWeek, hwords, hmi, hh, hdom, hmo, hdow⟩ := hreads
  rw [parseCron_of_words hwords hmi hh hdom hmo hdow] at h
  cases h
  refine ⟨hmi.mem_values, hh.mem_values, hdom.mem_values, hmo.mem_values, mem_map_sunday.trans ?_⟩
  exact exists_congr fun v => and_congr_left fun _ => hdow.mem_values

end Sources

section Sundays

/-- The terms whose steps run into the 7 that `parseCron` adds to the days. -/
def RunsIntoSeven (term : Term) : Prop := ∃ a n, term = ⟨.value a, some n⟩ ∧ a < 7 ∧ n ∣ 7 - a

theorem Every.mono {n lo hi hi' u : ℕ} (h : Every n lo hi u) (hle : hi ≤ hi') : Every n lo hi' u :=
  ⟨h.1, h.2.1.trans hle, h.2.2⟩

theorem denotes_of_documented {term : Term} {v : ℕ} (h : term.Denotes documentedDayOfWeek v) :
    term.Denotes dayOfWeekSpec v := by
  have hle : documentedDayOfWeek.max ≤ dayOfWeekSpec.max := by decide
  obtain ⟨_ | a | ⟨a, b⟩, step⟩ := term
  · exact Every.mono h hle
  · cases step with
    | none => exact h
    | some n => exact h.imp id fun h => h.mono hle
  · exact h

theorem documented_of_denotes {term : Term} {v : ℕ} (hvalid : term.Valid dayOfWeekSpec)
    (h : term.Denotes dayOfWeekSpec v) (hsteps : ¬ RunsIntoSeven term) :
    ∃ w, term.Denotes documentedDayOfWeek w ∧ sunday v = sunday w := by
  obtain ⟨_ | a | ⟨a, b⟩, step⟩ := term
  · obtain ⟨-, hmax, hdvd⟩ := h
    rcases Nat.lt_or_eq_of_le hmax with hlt | heq
    · exact ⟨v, ⟨Nat.zero_le v, Nat.lt_succ_iff.mp hlt, hdvd⟩, rfl⟩
    · exact ⟨0, ⟨le_rfl, Nat.zero_le _, by simp⟩, by rw [heq]; decide⟩
  · cases step with
    | none => exact ⟨v, h, rfl⟩
    | some n =>
      rcases h with rfl | ⟨hle, hmax, hdvd⟩
      · exact ⟨v, Or.inl rfl, rfl⟩
      · rcases Nat.lt_or_eq_of_le hmax with hlt | heq
        · exact ⟨v, Or.inr ⟨hle, Nat.lt_succ_iff.mp hlt, hdvd⟩, rfl⟩
        · have hseven : v = 7 := heq
          subst hseven
          have ha : ¬ a < 7 := fun hlt => hsteps ⟨a, n, rfl, hlt, hdvd⟩
          exact ⟨7, Or.inl (by omega), rfl⟩
  · exact ⟨v, h, rfl⟩

variable {source : JsString} {fields : Fields}

theorem Fields.Reads.validDays (h : fields.Reads source) : ∀ term ∈ fields.dayOfWeek, term.Valid dayOfWeekSpec := by
  obtain ⟨_, _, _, _, _, -, -, -, -, -, hdow⟩ := h
  exact hdow.valid

theorem Faithful.sunday (h : Faithful source) (hreads : fields.Reads source)
    (hsteps : ∃ term ∈ fields.dayOfWeek, RunsIntoSeven term) : DayOfWeekDenotes fields.dayOfWeek 0 := by
  obtain ⟨expr, hparse⟩ := h.accepts.mpr ⟨fields, hreads⟩
  obtain ⟨term, hterm, a, n, rfl, hlt, hdvd⟩ := hsteps
  apply (h.dayOfWeek expr fields hparse hreads 0).mp
  apply (mem_of_parseCron hparse hreads 0).2.2.2.2.mpr
  exact ⟨7, ⟨_, hterm, Or.inr ⟨hlt.le, le_rfl, hdvd⟩⟩, rfl⟩

theorem parseCron_faithful_iff (source : JsString) :
    Faithful source ↔ ∀ fields : Fields, fields.Reads source →
      (∃ term ∈ fields.dayOfWeek, RunsIntoSeven term) → DayOfWeekDenotes fields.dayOfWeek 0 := by
  constructor
  · exact fun h fields hreads hsteps => h.sunday hreads hsteps
  · intro hsunday
    refine ⟨parseCron_accepts source, ?_, ?_, ?_, ?_, ?_⟩ <;> intro expr fields hparse hreads u
    · exact (mem_of_parseCron hparse hreads u).1
    · exact (mem_of_parseCron hparse hreads u).2.1
    · exact (mem_of_parseCron hparse hreads u).2.2.1
    · exact (mem_of_parseCron hparse hreads u).2.2.2.1
    · rw [(mem_of_parseCron hparse hreads u).2.2.2.2]
      constructor
      · rintro ⟨v, ⟨term, hterm, hv⟩, rfl⟩
        by_cases hruns : RunsIntoSeven term
        · -- the days past the documented range are all the 7 that stands for Sunday
          have hzero := hsunday fields hreads ⟨term, hterm, hruns⟩
          obtain ⟨a, n, rfl, hlt, -⟩ := hruns
          rcases hv with rfl | ⟨hle, hmax, hdvd⟩
          · exact ⟨v, ⟨_, hterm, Or.inl rfl⟩, rfl⟩
          · rcases Nat.lt_or_eq_of_le hmax with hv | heq
            · exact ⟨v, ⟨_, hterm, Or.inr ⟨hle, Nat.lt_succ_iff.mp hv, hdvd⟩⟩, rfl⟩
            · rw [show v = 7 from heq]
              exact hzero
        · obtain ⟨w, hw, hsame⟩ := documented_of_denotes (hreads.validDays term hterm) hv hruns
          exact ⟨w, ⟨term, hterm, hw⟩, hsame⟩
      · rintro ⟨v, ⟨term, hterm, hv⟩, rfl⟩
        exact ⟨v, ⟨term, hterm, denotes_of_documented hv⟩, rfl⟩

theorem fieldReads_singleton {spec : CronFieldSpec} {text : JsString} {term : Term} (hreads : term.Reads text)
    (hvalid : term.Valid spec) : FieldReads spec text [term] :=
  ⟨[text], by simp, by simp [List.intercalate], .cons ⟨hreads, hvalid⟩ .nil⟩

theorem parseCron_adds_sunday : ¬ Faithful (ofString "0 9 * * 5/2") := by
  -- `5/2` is Friday alone, and is read as Friday and Sunday
  intro h
  have hwords := spaced_splitFields (ofString "0 9 * * 5/2")
  have hsplit : splitFields (ofString "0 9 * * 5/2") =
      [ofString "0", ofString "9", star, star, ofString "5/2"] := by decide +kernel
  rw [hsplit] at hwords
  have hall : ∀ spec : CronFieldSpec, FieldReads spec star [⟨.all, none⟩] :=
    fun spec => fieldReads_singleton rfl ⟨trivial, nofun⟩
  have hreads : Fields.Reads (ofString "0 9 * * 5/2")
      ⟨[⟨.value 0, none⟩], [⟨.value 9, none⟩], [⟨.all, none⟩], [⟨.all, none⟩], [⟨.value 5, some 2⟩]⟩ := by
    refine ⟨_, _, _, _, _, hwords, ?_, ?_, hall _, hall _, ?_⟩
    · exact fieldReads_singleton ⟨by decide +kernel, by decide +kernel⟩ ⟨⟨by decide, by decide⟩, nofun⟩
    · exact fieldReads_singleton ⟨by decide +kernel, by decide +kernel⟩ ⟨⟨by decide, by decide⟩, nofun⟩
    · refine fieldReads_singleton ⟨ofString "5", ofString "2", by decide +kernel, ?_, ?_⟩ ⟨⟨by decide, by decide⟩, ?_⟩
      · exact ⟨by decide +kernel, by decide +kernel⟩
      · exact ⟨by decide +kernel, by decide +kernel⟩
      · rintro n ⟨⟩
        decide
  have hzero := h.sunday hreads ⟨_, List.mem_singleton_self _, 5, 2, rfl, by decide, by decide⟩
  obtain ⟨v, ⟨term, hterm, hv⟩, hsunday⟩ := hzero
  cases List.mem_singleton.mp hterm
  rcases hv with rfl | ⟨hle, hmax, -⟩
  · exact absurd hsunday (by decide)
  · have hlt : v ≤ 6 := hmax
    unfold Cron.sunday at hsunday
    split_ifs at hsunday <;> omega

end Sundays

end CrashLab.Cron
