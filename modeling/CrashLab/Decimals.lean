import Mathlib.Data.List.DropRight
import Mathlib.Tactic

namespace CrashLab.Decimals

/-- A finite number as the shortest decimal that stands for it: `0.d₁d₂… × 10 ^ point`. Zero has no digits. -/
structure Decimal where
  negative : Bool
  digits : List Char
  point : ℤ
  digits_isDigit : ∀ c ∈ digits, c.isDigit = true
  head_ne_zero : digits.head? ≠ some '0'
  last_ne_zero : digits.getLast? ≠ some '0'
  zero_eq : digits = [] → negative = false ∧ point = 0
deriving DecidableEq

def Decimal.zero : Decimal := ⟨false, [], 0, by simp, by simp, by simp, by simp⟩

section Text

def exponentText (e : ℤ) : List Char :=
  'e' :: (if 0 ≤ e then '+' else '-') :: Nat.toDigits 10 e.natAbs

def fractionText (digits : List Char) : List Char := if digits = [] then [] else '.' :: digits

/-- `Number::toString` of the magnitude, with its bounds on what is written without an exponent. -/
def Decimal.magnitude (d : Decimal) : List Char :=
  match d.digits with
  | [] => ['0']
  | c :: rest =>
    if (d.digits.length : ℤ) ≤ d.point ∧ d.point ≤ 21 then
      d.digits ++ List.replicate (d.point.toNat - d.digits.length) '0'
    else if 0 < d.point ∧ d.point ≤ 21 then
      d.digits.take d.point.toNat ++ '.' :: d.digits.drop d.point.toNat
    else if -6 < d.point ∧ d.point ≤ 0 then
      '0' :: '.' :: List.replicate (-d.point).toNat '0' ++ d.digits
    else c :: fractionText rest ++ exponentText (d.point - 1)

def Decimal.text (d : Decimal) : List Char := (if d.negative then ['-'] else []) ++ d.magnitude

end Text

section Read

def strip (digits : List Char) : List Char := (digits.dropWhile (· = '0')).rdropWhile (· = '0')

theorem mem_of_mem_strip {digits : List Char} {c : Char} (h : c ∈ strip digits) : c ∈ digits :=
  (List.dropWhile_suffix _).subset ((List.rdropWhile_prefix _ _).subset h)

theorem head_strip (digits : List Char) : (strip digits).head? ≠ some '0' := by
  intro h
  obtain ⟨tail, htail⟩ := List.rdropWhile_prefix (fun c : Char => decide (c = '0')) (digits.dropWhile (· = '0'))
  rw [← strip] at htail
  cases hstrip : strip digits with
  | nil => simp [hstrip] at h
  | cons c rest =>
    rw [hstrip, List.cons_append] at htail
    have hne : digits.dropWhile (· = '0') ≠ [] := by simp [← htail]
    have hhead := List.head_dropWhile_not (fun c : Char => decide (c = '0')) hne
    simp only [← htail, List.head_cons] at hhead
    rw [hstrip, List.head?_cons, Option.some_inj] at h
    simp [h] at hhead

theorem last_strip (digits : List Char) : (strip digits).getLast? ≠ some '0' := by
  intro h
  have hne : strip digits ≠ [] := by
    intro hnil
    simp [hnil] at h
  have hlast := List.rdropWhile_last_not (fun c : Char => decide (c = '0')) (digits.dropWhile (· = '0')) hne
  rw [List.getLast?_eq_some_getLast hne, Option.some_inj] at h
  exact hlast (decide_eq_true h)

def ofParts (negative : Bool) (whole fraction : List Char) (exponent : ℤ)
    (hdigits : ∀ c ∈ whole ++ fraction, c.isDigit = true) : Decimal :=
  if h : strip (whole ++ fraction) = [] then .zero
  else
    { negative
      digits := strip (whole ++ fraction)
      point := whole.length - ((whole ++ fraction).takeWhile (· = '0')).length + exponent
      digits_isDigit := fun c hc => hdigits c (mem_of_mem_strip hc)
      head_ne_zero := head_strip _
      last_ne_zero := last_strip _
      zero_eq := fun h' => absurd h' h }

theorem toDigits_isDigit (n : ℕ) : ∀ c ∈ Nat.toDigits 10 n ++ [], c.isDigit = true := by
  intro c hc
  rw [List.append_nil] at hc
  exact Nat.isDigit_of_mem_toDigits (by norm_num) (by norm_num) hc

def Decimal.ofNat (n : ℕ) : Decimal := ofParts false (Nat.toDigits 10 n) [] 0 (toDigits_isDigit n)

def readNat (digits : List Char) : Option ℕ :=
  if digits ≠ [] ∧ digits.all Char.isDigit then some (Nat.ofDigitChars 10 digits 0) else none

def readExponent : List Char → Option ℤ
  | [] => some 0
  | _ :: '+' :: digits => (readNat digits).map fun n : ℕ => (n : ℤ)
  | _ :: '-' :: digits => (readNat digits).map fun n : ℕ => -(n : ℤ)
  | _ :: digits => (readNat digits).map fun n : ℕ => (n : ℤ)

def readFraction : List Char → Option (List Char)
  | [] => some []
  | _ :: digits => if digits = [] then none else some digits

def isExponentMark (c : Char) : Bool := c = 'e' || c = 'E'

def readMagnitude (negative : Bool) (text : List Char) : Option Decimal := do
  let exponent ← readExponent (text.dropWhile fun c => !isExponentMark c)
  let mantissa := text.takeWhile fun c => !isExponentMark c
  let fraction ← readFraction (mantissa.dropWhile (· ≠ '.'))
  let whole := mantissa.takeWhile (· ≠ '.')
  if h : (whole ++ fraction).all Char.isDigit = true ∧ whole ≠ [] ∧ (whole.head? = some '0' → whole = ['0']) then
    some (ofParts negative whole fraction exponent (List.all_eq_true.mp h.1))
  else none

def read : List Char → Option Decimal
  | '-' :: text => readMagnitude true text
  | text => readMagnitude false text

end Read

section RoundTrip

theorem ofParts_eq {d : Decimal} {whole fraction : List Char} {exponent : ℤ} {before after : ℕ}
    (hdigits : ∀ c ∈ whole ++ fraction, c.isDigit = true)
    (hparts : whole ++ fraction = List.replicate before '0' ++ d.digits ++ List.replicate after '0')
    (hne : d.digits ≠ []) (hpoint : d.point = whole.length - before + exponent) :
    ofParts d.negative whole fraction exponent hdigits = d := by
  have hhead : ∀ c ∈ d.digits.head?, decide (c = '0') = false := by
    intro c hc
    have := d.head_ne_zero
    rw [Option.mem_def.mp hc] at this
    simpa using this
  obtain ⟨c, rest, hcons⟩ := List.exists_cons_of_ne_nil hne
  have hc : decide (c = '0') = false := hhead c (by rw [hcons]; rfl)
  have hdrop : (whole ++ fraction).dropWhile (· = '0') = d.digits ++ List.replicate after '0' := by
    rw [hparts, List.append_assoc, List.dropWhile_append_of_pos (by simp), hcons, List.cons_append,
      List.dropWhile_cons_of_neg (by simpa using hc)]
  have htake : (whole ++ fraction).takeWhile (· = '0') = List.replicate before '0' := by
    rw [hparts, List.append_assoc, List.takeWhile_append_of_pos (by simp), hcons, List.cons_append,
      List.takeWhile_cons_of_neg (by simpa using hc), List.append_nil]
  have hstrip : strip (whole ++ fraction) = d.digits := by
    rw [strip, hdrop, List.rdropWhile, List.reverse_append, List.reverse_replicate,
      List.dropWhile_append_of_pos (by simp)]
    have hlast : ∀ c ∈ d.digits.reverse.head?, decide (c = '0') = false := by
      intro c hc
      rw [List.head?_reverse] at hc
      have := d.last_ne_zero
      rw [Option.mem_def.mp hc] at this
      simpa using this
    cases hrev : d.digits.reverse with
    | nil => exact absurd (List.reverse_eq_nil_iff.mp hrev) hne
    | cons c rest =>
      have hc : decide (c = '0') = false := hlast c (by rw [hrev]; rfl)
      rw [List.dropWhile_cons_of_neg (by simpa using hc), ← hrev, List.reverse_reverse]
  have hfull : strip (whole ++ fraction) ≠ [] := by rwa [hstrip]
  rw [ofParts, dif_neg hfull]
  cases d
  simp only [Decimal.mk.injEq, true_and] at hstrip hpoint ⊢
  rw [htake, List.length_replicate]
  exact ⟨hstrip, hpoint.symm⟩

theorem readNat_toDigits (n : ℕ) : readNat (Nat.toDigits 10 n) = some n := by
  rw [readNat, if_pos, Nat.ofDigitChars_ten_toDigits]
  refine ⟨Nat.toDigits_ne_nil, List.all_eq_true.mpr ?_⟩
  intro c hc
  exact Nat.isDigit_of_mem_toDigits (by norm_num) (by norm_num) hc

theorem readExponent_exponentText (e : ℤ) : readExponent (exponentText e) = some e := by
  unfold exponentText
  split_ifs with h
  · rw [readExponent, readNat_toDigits, Option.map_some]
    exact congrArg some (Int.natAbs_of_nonneg h)
  · rw [readExponent, readNat_toDigits, Option.map_some]
    congr 1
    omega

theorem isDigit_ne {c d : Char} (hc : c.isDigit = true) (hd : d.isDigit = false) : c ≠ d := by
  rintro rfl
  rw [hc] at hd
  cases hd

theorem readMagnitude_parts {d : Decimal} {whole fraction point suffix : List Char} {exponent : ℤ}
    {before after : ℕ} (hdigits : ∀ c ∈ whole ++ fraction, c.isDigit = true) (hwhole : whole ≠ [])
    (hzero : whole.head? = some '0' → whole = ['0'])
    (hpoint : point = [] ∧ fraction = [] ∨ fraction ≠ [] ∧ point = '.' :: fraction)
    (hsuffix : readExponent suffix = some exponent) (hmark : ∀ c ∈ suffix.head?, isExponentMark c = true)
    (hparts : whole ++ fraction = List.replicate before '0' ++ d.digits ++ List.replicate after '0')
    (hne : d.digits ≠ []) (hat : d.point = whole.length - before + exponent) :
    readMagnitude d.negative (whole ++ point ++ suffix) = some d := by
  have hdigit : ∀ c ∈ whole ++ point, c.isDigit = true ∨ c = '.' := by
    intro c hc
    rcases List.mem_append.mp hc with hc | hc
    · exact Or.inl (hdigits c (List.mem_append_left _ hc))
    · rcases hpoint with ⟨rfl, _⟩ | ⟨_, rfl⟩
      · simp at hc
      · rcases List.mem_cons.mp hc with rfl | hc
        · exact Or.inr rfl
        · exact Or.inl (hdigits c (List.mem_append_right _ hc))
  have hbody : ∀ c ∈ whole ++ point, (!isExponentMark c) = true := by
    intro c hc
    rcases hdigit c hc with h | rfl
    · have he := isDigit_ne h (show 'e'.isDigit = false by decide)
      have hE := isDigit_ne h (show 'E'.isDigit = false by decide)
      simp [isExponentMark, he, hE]
    · decide
  have hstop : suffix.takeWhile (fun c => !isExponentMark c) = [] ∧
      suffix.dropWhile (fun c => !isExponentMark c) = suffix := by
    cases suffix with
    | nil => exact ⟨rfl, rfl⟩
    | cons c rest =>
      have hc : isExponentMark c = true := hmark c rfl
      simp [hc]
  have hmantissa : (whole ++ point ++ suffix).takeWhile (fun c => !isExponentMark c) = whole ++ point := by
    rw [List.takeWhile_append_of_pos hbody, hstop.1, List.append_nil]
  have hexponent : (whole ++ point ++ suffix).dropWhile (fun c => !isExponentMark c) = suffix := by
    rw [List.dropWhile_append_of_pos hbody, hstop.2]
  have hwholeDigit : ∀ c ∈ whole, decide (c ≠ '.') = true := by
    intro c hc
    have := isDigit_ne (hdigits c (List.mem_append_left _ hc)) (show '.'.isDigit = false by decide)
    simpa using this
  have hcut : (whole ++ point).takeWhile (· ≠ '.') = whole ∧
      readFraction ((whole ++ point).dropWhile (· ≠ '.')) = some fraction := by
    rw [List.takeWhile_append_of_pos hwholeDigit, List.dropWhile_append_of_pos hwholeDigit]
    rcases hpoint with ⟨rfl, rfl⟩ | ⟨hfraction, rfl⟩
    · simp [readFraction]
    · simp [readFraction, hfraction]
  simp only [readMagnitude, hexponent, hsuffix, hmantissa, hcut, Option.bind_eq_bind, Option.bind_some]
  rw [dif_pos ⟨List.all_eq_true.mpr hdigits, hwhole, hzero⟩, ofParts_eq hdigits hparts hne hat]

theorem read_text_of_magnitude {d : Decimal} (h : readMagnitude d.negative d.magnitude = some d)
    (hhead : d.magnitude.head? ≠ some '-') : read d.text = some d := by
  unfold Decimal.text
  cases hsign : d.negative with
  | true =>
    rw [hsign] at h
    exact h
  | false =>
    rw [hsign] at h
    rw [if_neg Bool.false_ne_true, List.nil_append, read]
    · exact h
    · intro text htext
      rw [htext] at hhead
      exact hhead rfl

theorem isDigit_of_mem_replicate {n : ℕ} {c : Char} (h : c ∈ List.replicate n '0') : c.isDigit = true := by
  rw [List.eq_of_mem_replicate h]
  decide

theorem Decimal.readMagnitude_magnitude (d : Decimal) : readMagnitude d.negative d.magnitude = some d := by
  have hdigit := d.digits_isDigit
  have hhead := d.head_ne_zero
  unfold magnitude
  split
  next hnil =>
    obtain ⟨hnegative, hpoint⟩ := d.zero_eq hnil
    have hd : d = .zero := by
      cases d
      simp_all [zero]
    subst hd
    decide
  next c rest hcons =>
    have hne : d.digits ≠ [] := by rw [hcons]; simp
    have hlength : 0 < d.digits.length := List.length_pos_iff.mpr hne
    split_ifs with hwhole hpoint hfraction
    · have h := @readMagnitude_parts d (d.digits ++ List.replicate (d.point.toNat - d.digits.length) '0') [] [] [] 0
        0 (d.point.toNat - d.digits.length) ?_ (by simp [hne]) ?_ (Or.inl ⟨rfl, rfl⟩) rfl (by simp) (by simp) hne ?_
      · simpa using h
      · intro c hc
        rw [List.append_nil, List.mem_append] at hc
        exact hc.elim (hdigit c) isDigit_of_mem_replicate
      · rw [List.head?_append_of_ne_nil _ hne]
        exact fun h => absurd h hhead
      · simp only [List.length_append, List.length_replicate]
        omega
    · have htake : d.digits.take d.point.toNat ≠ [] := by
        rw [Ne, List.take_eq_nil_iff, not_or]
        exact ⟨by omega, hne⟩
      have h := @readMagnitude_parts d (d.digits.take d.point.toNat) (d.digits.drop d.point.toNat)
        ('.' :: d.digits.drop d.point.toNat) [] 0 0 0 ?_ htake ?_ (Or.inr ⟨?_, rfl⟩) rfl (by simp) (by simp) hne ?_
      · simpa using h
      · rw [List.take_append_drop]
        exact hdigit
      · intro h
        rw [List.head?_take] at h
        split_ifs at h
        exact absurd h hhead
      · rw [Ne, List.drop_eq_nil_iff]
        omega
      · rw [List.length_take]
        omega
    · have h := @readMagnitude_parts d ['0'] (List.replicate (-d.point).toNat '0' ++ d.digits)
        ('.' :: (List.replicate (-d.point).toNat '0' ++ d.digits)) [] 0 ((-d.point).toNat + 1) 0 ?_ (by simp)
        (fun _ => rfl) (Or.inr ⟨by simp [hne], rfl⟩) rfl (by simp) ?_ hne ?_
      · simpa using h
      · intro c hc
        simp only [List.mem_append, List.mem_singleton] at hc
        rcases hc with rfl | hc | hc
        · decide
        · exact isDigit_of_mem_replicate hc
        · exact hdigit c hc
      · rw [List.replicate_succ]
        simp
      · rw [List.length_singleton]
        push_cast
        omega
    · have h := @readMagnitude_parts d [c] rest (fractionText rest) (exponentText (d.point - 1))
        (d.point - 1) 0 0 ?_ (by simp) ?_ ?_ (readExponent_exponentText _) ?_ ?_ hne ?_
      · simpa using h
      · rw [List.singleton_append, ← hcons]
        exact hdigit
      · intro h
        rw [hcons] at hhead
        exact absurd h hhead
      · by_cases hrest : rest = []
        · simp [fractionText, hrest]
        · simp [fractionText, hrest]
      · simp [exponentText, isExponentMark]
      · simp [hcons]
      · rw [List.length_singleton]
        push_cast
        omega

theorem Decimal.head_magnitude (d : Decimal) : ∃ c rest, d.magnitude = c :: rest ∧ c.isDigit = true := by
  unfold magnitude
  split
  next hnil => exact ⟨'0', [], rfl, by decide⟩
  next c rest hcons =>
    have hc : c.isDigit = true := d.digits_isDigit c (by rw [hcons]; exact List.mem_cons_self)
    split_ifs with hwhole hpoint hfraction
    · exact ⟨c, rest ++ _, by rw [hcons]; rfl, hc⟩
    · obtain ⟨n, hn⟩ : ∃ n, d.point.toNat = n + 1 := ⟨d.point.toNat - 1, by omega⟩
      exact ⟨c, _, by rw [hcons, hn, List.take_succ_cons]; rfl, hc⟩
    · exact ⟨'0', _, rfl, by decide⟩
    · exact ⟨c, _, rfl, hc⟩

theorem Decimal.head_text (d : Decimal) : ∃ c rest, d.text = c :: rest ∧ (c.isDigit = true ∨ c = '-') := by
  unfold text
  cases d.negative with
  | true => exact ⟨'-', d.magnitude, rfl, Or.inr rfl⟩
  | false =>
    obtain ⟨c, rest, h, hc⟩ := d.head_magnitude
    exact ⟨c, rest, by rw [h]; rfl, Or.inl hc⟩

theorem Decimal.mem_text {d : Decimal} {c : Char} (h : c ∈ d.text) :
    c.isDigit = true ∨ c ∈ ['-', '+', '.', 'e'] := by
  have hdigit := d.digits_isDigit
  have hzeros : ∀ {n : ℕ}, c ∈ List.replicate n '0' → c.isDigit = true := isDigit_of_mem_replicate
  rw [text, List.mem_append] at h
  rcases h with h | h
  · cases hsign : d.negative with
    | true =>
      rw [hsign] at h
      exact Or.inr (by simpa using Or.inl h)
    | false => simp [hsign] at h
  · unfold magnitude at h
    split at h
    next hnil =>
      rw [List.mem_singleton] at h
      exact Or.inl (by rw [h]; decide)
    next first rest hcons =>
      rw [hcons] at hdigit
      split_ifs at h with hwhole hpoint hfraction
      · rw [hcons, List.mem_append] at h
        exact Or.inl (h.elim (hdigit c) hzeros)
      · rw [List.mem_append, List.mem_cons] at h
        rcases h with h | rfl | h
        · exact Or.inl (hdigit c (by rw [← hcons]; exact List.mem_of_mem_take h))
        · exact Or.inr (by decide)
        · exact Or.inl (hdigit c (by rw [← hcons]; exact List.mem_of_mem_drop h))
      · simp only [List.cons_append, List.mem_cons, List.mem_append] at h
        rcases h with rfl | rfl | h | h
        · exact Or.inl (by decide)
        · exact Or.inr (by decide)
        · exact Or.inl (hzeros h)
        · exact Or.inl (hdigit c (by rw [← hcons]; exact h))
      · simp only [List.cons_append, List.mem_cons, List.mem_append, fractionText, exponentText] at h
        rcases h with rfl | h | rfl | h | h
        · exact Or.inl (hdigit c List.mem_cons_self)
        · split_ifs at h with hrest
          · simp at h
          · rcases List.mem_cons.mp h with rfl | h
            · exact Or.inr (by decide)
            · exact Or.inl (hdigit c (List.mem_cons_of_mem _ h))
        · exact Or.inr (by decide)
        · right
          split_ifs at h <;> simp [h]
        · exact Or.inl (Nat.isDigit_of_mem_toDigits (by norm_num) (by norm_num) h)

theorem Decimal.read_text (d : Decimal) : read d.text = some d := by
  apply read_text_of_magnitude d.readMagnitude_magnitude
  obtain ⟨c, rest, h, hc⟩ := d.head_magnitude
  have := isDigit_ne hc (show '-'.isDigit = false by decide)
  rw [h, List.head?_cons]
  simpa using this

end RoundTrip

section Value

def Decimal.value (d : Decimal) : ℚ :=
  (if d.negative then -1 else 1) * Nat.ofDigitChars 10 d.digits 0 * 10 ^ (d.point - d.digits.length)

theorem strip_spec (digits : List Char) : ∃ after,
    digits = digits.takeWhile (· = '0') ++ strip digits ++ List.replicate after '0' ∧
      digits.takeWhile (· = '0') = List.replicate (digits.takeWhile (· = '0')).length '0' := by
  have hzeros : ∀ l : List Char, (∀ c ∈ l, c = '0') → l = List.replicate l.length '0' := by
    intro l hl
    exact List.eq_replicate_iff.mpr ⟨rfl, hl⟩
  have hfirst : ∀ c ∈ digits.takeWhile (· = '0'), c = '0' := by
    intro c hc
    simpa using List.mem_takeWhile_imp hc
  have hlast : ∀ c ∈ (digits.dropWhile (· = '0')).rtakeWhile (· = '0'), c = '0' := by
    intro c hc
    simpa using List.mem_rtakeWhile_imp hc
  refine ⟨((digits.dropWhile (· = '0')).rtakeWhile (· = '0')).length, ?_, hzeros _ hfirst⟩
  rw [← hzeros _ hlast, List.append_assoc, strip, List.rdropWhile_append_rtakeWhile, List.takeWhile_append_dropWhile]

theorem value_ofParts {negative : Bool} {whole fraction : List Char} {exponent : ℤ}
    (hdigits : ∀ c ∈ whole ++ fraction, c.isDigit = true) :
    (ofParts negative whole fraction exponent hdigits).value =
      (if negative then -1 else 1) * Nat.ofDigitChars 10 (whole ++ fraction) 0 * 10 ^ (exponent - fraction.length) := by
  obtain ⟨after, hparts, hbefore⟩ := strip_spec (whole ++ fraction)
  have hnumber : Nat.ofDigitChars 10 (whole ++ fraction) 0 =
      10 ^ after * Nat.ofDigitChars 10 (strip (whole ++ fraction)) 0 := by
    conv_lhs => rw [hparts, hbefore]
    rw [Nat.ofDigitChars_append, Nat.ofDigitChars_append, Nat.ofDigitChars_replicate_zero,
      Nat.ofDigitChars_replicate_zero, Nat.mul_zero]
  have hlength : (whole.length + fraction.length : ℤ) =
      ((whole ++ fraction).takeWhile (· = '0')).length + (strip (whole ++ fraction)).length + after := by
    have := congrArg List.length hparts
    simp only [List.length_append, List.length_replicate] at this
    exact_mod_cast this
  unfold ofParts
  by_cases hnil : strip (whole ++ fraction) = []
  · rw [dif_pos hnil, hnumber, hnil]
    simp [Decimal.value, Decimal.zero]
  · rw [dif_neg hnil]
    simp only [Decimal.value, hnumber]
    have hpoint : (whole.length : ℤ) - ((whole ++ fraction).takeWhile (· = '0')).length + exponent -
        (strip (whole ++ fraction)).length = after + (exponent - fraction.length) := by omega
    rw [hpoint, zpow_add₀ (by norm_num), zpow_natCast]
    push_cast
    ring

@[simp] theorem Decimal.value_ofNat (n : ℕ) : (Decimal.ofNat n).value = n := by
  rw [Decimal.ofNat, value_ofParts, List.append_nil, Nat.ofDigitChars_ten_toDigits]
  simp

end Value

end CrashLab.Decimals
