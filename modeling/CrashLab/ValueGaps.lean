import CrashLab.SanitizedWindows
import Mathlib.Data.List.TakeWhile

namespace CrashLab.ValueGaps

open FixtureSanitize SanitizedWindows SignatureHash

theorem lowercase_rule {p : UInt8 → UInt8 → Prop} (same : ∀ b, p b b)
    (letter : ∀ n : Fin 26, p (UInt8.ofNat (0x41 + n)) (UInt8.ofNat (0x61 + n))) (b : UInt8) :
    p b (toAsciiLowercase b) := by
  unfold toAsciiLowercase
  split
  · next hupper =>
    have hlow := UInt8.le_iff_toNat_le.mp hupper.1
    have hhigh := UInt8.le_iff_toNat_le.mp hupper.2
    change 0x41 ≤ b.toNat at hlow
    change b.toNat ≤ 0x5A at hhigh
    have hb : UInt8.ofNat (0x41 + (b.toNat - 0x41)) = b := by
      rw [Nat.add_sub_cancel' hlow]
      exact UInt8.ofNat_toNat
    have hlower : UInt8.ofNat (0x61 + (b.toNat - 0x41)) = b + 0x20 := by
      apply UInt8.toNat.inj
      rw [UInt8.toNat_ofNat', UInt8.toNat_add]
      change _ % 256 = (b.toNat + 0x20) % 256
      omega
    have hletter := letter ⟨b.toNat - 0x41, by omega⟩
    rwa [hb, hlower] at hletter
  · exact same b

def lowered (w : List UInt8) : List UInt8 := w.map toAsciiLowercase

theorem lowered_append (v w : List UInt8) : lowered (v ++ w) = lowered v ++ lowered w := List.map_append

theorem lowered_drop (w : List UInt8) (n : ℕ) : lowered (w.drop n) = (lowered w).drop n := List.map_drop

theorem length_lowered (w : List UInt8) : (lowered w).length = w.length := List.length_map _

theorem patternAt_iff {w pat : List UInt8} : patternAt w pat = true ↔ lowered pat <+: lowered w := by
  rw [patternAt, Bool.and_eq_true, decide_eq_true_eq, eqIgnoreAsciiCase, beq_iff_eq, List.prefix_iff_eq_take,
    length_lowered, lowered, lowered, List.map_take]
  constructor
  · rintro ⟨-, h⟩
    exact h.symm
  · intro h
    have hlen := congrArg List.length h
    rw [List.length_take, List.length_map, List.length_map] at hlen
    exact ⟨by omega, h.symm⟩

def inert (b : UInt8) : Bool := b == quotation || isAsciiWhitespace b || b == 0x3D || b == 0x3A

theorem bearer_bytes : asBytes "bearer " = [0x62, 0x65, 0x61, 0x72, 0x65, 0x72, 0x20] := by decide +kernel

theorem inert_lower (b : UInt8) : inert (toAsciiLowercase b) = inert b := by
  apply @lowercase_rule (fun b c => inert c = inert b) fun _ => rfl
  decide

theorem isValueDelimiter_lower (b : UInt8) : isValueDelimiter (toAsciiLowercase b) = isValueDelimiter b := by
  apply @lowercase_rule (fun b c => isValueDelimiter c = isValueDelimiter b) fun _ => rfl
  decide

theorem isCredentialTokenChar_lower (b : UInt8) :
    isCredentialTokenChar (toAsciiLowercase b) = isCredentialTokenChar b := by
  apply @lowercase_rule (fun b c => isCredentialTokenChar c = isCredentialTokenChar b) fun _ => rfl
  decide

def dropQuote (r : List UInt8) : List UInt8 := if r.head? = some quotation then r.tail else r

def dropBearer (r : List UInt8) : List UInt8 :=
  if eqIgnoreAsciiCase (r.take 7) (asBytes "bearer ") then r.drop 8 else r

def isAuthorization (name : List UInt8) : Bool := eqIgnoreAsciiCase name (asBytes "authorization")

/-- What stands from the value on, when `r` is what stands behind the key. -/
def valueTail (scheme : Bool) (r : List UInt8) : Option (List UInt8) :=
  match (dropQuote r).dropWhile isAsciiWhitespace with
  | [] => none
  | c :: r =>
    if c = 0x3D ∨ c = 0x3A then
      let r := dropQuote (r.dropWhile isAsciiWhitespace)
      some (if scheme then dropBearer r else r)
    else none

theorem drop_length_takeWhile (p : UInt8 → Bool) (w : List UInt8) :
    w.drop (w.takeWhile p).length = w.dropWhile p := by
  have hsplit := congrArg (List.drop (w.takeWhile p).length) (List.takeWhile_append_dropWhile (p := p) (l := w))
  rw [List.drop_left] at hsplit
  exact hsplit.symm

theorem drop_skipWhitespace (w : List UInt8) (index : ℕ) :
    w.drop (skipWhitespace w index) = (w.drop index).dropWhile isAsciiWhitespace := by
  rw [skipWhitespace, ← List.drop_drop, drop_length_takeWhile]

theorem drop_skipQuote (w : List UInt8) (index : ℕ) : w.drop (skipQuote w index).1 = dropQuote (w.drop index) := by
  unfold skipQuote dropQuote
  rw [List.head?_drop, List.tail_drop]
  split <;> rfl

theorem drop_skipBearer (w : List UInt8) (index : ℕ) : w.drop (skipBearer w index) = dropBearer (w.drop index) := by
  unfold skipBearer dropBearer
  split
  · rw [List.drop_drop]
    split
    · rfl
    · rw [List.drop_of_length_le (by omega), List.drop_of_length_le (by omega)]
  · rfl

theorem separatedValue_tail (w : List UInt8) (index : ℕ) (name : List UInt8) :
    (separatedValue w index name).map (fun found => w.drop found.1) =
      valueTail (isAuthorization name) (w.drop index) := by
  unfold separatedValue valueTail
  rw [← drop_skipQuote, ← drop_skipWhitespace]
  dsimp only
  rw [← List.head?_drop]
  cases hr : w.drop (skipWhitespace w (skipQuote w index).1) with
  | nil => rfl
  | cons c r =>
    have hnext : w.drop (skipWhitespace w (skipQuote w index).1 + 1) = r := by
      rw [← List.drop_drop, hr]
      rfl
    simp only [List.head?_cons, Option.some_inj]
    split
    · rw [Option.map_some, ← hnext, ← drop_skipWhitespace, ← drop_skipQuote, ← drop_skipBearer]
      unfold isAuthorization
      split <;> rfl
    · rfl

theorem parseValueStart_tail {w key : List UInt8} (h : patternAt w key = true) :
    (parseValueStart w key).map (fun found => w.drop found.1) =
      valueTail (isAuthorization key) (w.drop key.length) := by
  rw [patternAt, Bool.and_eq_true, eqIgnoreAsciiCase, beq_iff_eq] at h
  have hname : isAuthorization (w.take key.length) = isAuthorization key := by
    rw [isAuthorization, isAuthorization, eqIgnoreAsciiCase, eqIgnoreAsciiCase, h.2]
  rw [parseValueStart, Option.map_map, ← hname, ← separatedValue_tail]
  rfl

def plain (b : UInt8) : Bool := !isValueDelimiter b

theorem valueEnd_eq (w : List UInt8) (start : ℕ) (quoted : Bool) :
    valueEnd w start quoted = start + ((w.drop start).takeWhile plain).length := by
  have hquotation : isValueDelimiter quotation = true := by decide
  have hplain : (fun b => !isValueDelimiter b && !(quoted && b == quotation)) = plain := by
    funext b
    by_cases hb : b = quotation
    · rw [hb, plain, hquotation]
      rfl
    · rw [beq_eq_false_iff_ne.mpr hb, Bool.and_false, plain]
      exact Bool.and_true _
  rw [valueEnd, hplain]

theorem drop_valueEnd (w : List UInt8) (start : ℕ) (quoted : Bool) :
    w.drop (valueEnd w start quoted) = (w.drop start).dropWhile plain := by
  rw [valueEnd_eq, ← List.drop_drop, drop_length_takeWhile]

/-- The two lists end a gap in the same way: both are empty, begin with one delimiter, or with a byte of the
value in the one and its mask in the other. -/
inductive Alike : List UInt8 → List UInt8 → Prop
  | nil : Alike [] []
  | delimiter {d : UInt8} {t t' : List UInt8} (hd : isValueDelimiter d = true) : Alike (d :: t) (d :: t')
  | masked {c : UInt8} {t t' : List UInt8} (hc : isValueDelimiter c = false) : Alike (c :: t) (redacted :: t')

theorem Alike.cases {t t' : List UInt8} (h : Alike t t') : (t = [] ∧ t' = []) ∨
    ∃ c s c' s', t = c :: s ∧ t' = c' :: s' ∧ (isValueDelimiter c = true ∧ c' = c ∨ c' = redacted) := by
  cases h with
  | nil => exact .inl ⟨rfl, rfl⟩
  | delimiter hd => exact .inr ⟨_, _, _, _, rfl, rfl, .inl ⟨hd, rfl⟩⟩
  | masked => exact .inr ⟨_, _, _, _, rfl, rfl, .inr rfl⟩

theorem dropQuote_quotation (r : List UInt8) : dropQuote (quotation :: r) = r := if_pos rfl

theorem dropQuote_cons {b : UInt8} (h : b ≠ quotation) (r : List UInt8) : dropQuote (b :: r) = b :: r :=
  if_neg fun heq => h (Option.some_inj.mp heq)

theorem dropQuote_alike {t t' : List UInt8} (h : Alike t t') (g : List UInt8)
    (hlen : t.length ≤ (dropQuote (g ++ t)).length) :
    ∃ g', dropQuote (g ++ t) = g' ++ t ∧ dropQuote (g ++ t') = g' ++ t' := by
  cases g with
  | cons b g =>
    by_cases hb : b = quotation
    · subst hb
      exact ⟨g, dropQuote_quotation _, dropQuote_quotation _⟩
    · exact ⟨b :: g, dropQuote_cons hb _, dropQuote_cons hb _⟩
  | nil =>
    rcases h.cases with ⟨rfl, rfl⟩ | ⟨c, s, c', s', rfl, rfl, hc⟩
    · exact ⟨[], rfl, rfl⟩
    · have hne : c ≠ quotation := by
        rintro rfl
        rw [List.nil_append, dropQuote_quotation, List.length_cons] at hlen
        omega
      have hne' : c' ≠ quotation := by
        rcases hc with ⟨-, rfl⟩ | rfl
        · exact hne
        · decide
      exact ⟨[], dropQuote_cons hne s, dropQuote_cons hne' s'⟩

theorem dropBlanks_alike {t t' : List UInt8} (h : Alike t t') (g : List UInt8)
    (hlen : t.length ≤ ((g ++ t).dropWhile isAsciiWhitespace).length) :
    ∃ g', (g ++ t).dropWhile isAsciiWhitespace = g' ++ t ∧ (g ++ t').dropWhile isAsciiWhitespace = g' ++ t' := by
  induction g with
  | cons b g ih =>
    rw [List.cons_append] at hlen
    by_cases hb : isAsciiWhitespace b = true
    · rw [List.dropWhile_cons_of_pos hb] at hlen
      obtain ⟨g', h₁, h₂⟩ := ih hlen
      exact ⟨g', (List.dropWhile_cons_of_pos hb).trans h₁, (List.dropWhile_cons_of_pos hb).trans h₂⟩
    · exact ⟨b :: g, List.dropWhile_cons_of_neg hb, List.dropWhile_cons_of_neg hb⟩
  | nil =>
    rcases h.cases with ⟨rfl, rfl⟩ | ⟨c, s, c', s', rfl, rfl, hc⟩
    · exact ⟨[], rfl, rfl⟩
    · have hne : ¬isAsciiWhitespace c = true := by
        intro hblank
        have hdrop := (List.dropWhile_suffix isAsciiWhitespace (l := s)).length_le
        rw [List.nil_append, List.dropWhile_cons_of_pos hblank, List.length_cons] at hlen
        omega
      have hne' : ¬isAsciiWhitespace c' = true := by
        rcases hc with ⟨-, rfl⟩ | rfl
        · exact hne
        · decide
      exact ⟨[], List.dropWhile_cons_of_neg hne, List.dropWhile_cons_of_neg hne'⟩

theorem dropBearer_cons {b : UInt8} (hb : toAsciiLowercase b ≠ 0x62) (r : List UInt8) :
    dropBearer (b :: r) = b :: r := by
  refine if_neg fun heq => hb ?_
  rw [eqIgnoreAsciiCase, beq_iff_eq, bearer_bytes] at heq
  have := List.cons_eq_cons.mp heq
  rw [this.1]
  decide

theorem dropBearer_alike {t t' : List UInt8} (h : Alike t t') (g : List UInt8)
    (heq : dropBearer (g ++ t) = t) : dropBearer (g ++ t') = t' := by
  by_cases hb : eqIgnoreAsciiCase ((g ++ t).take 7) (asBytes "bearer ") = true
  · have hseven : 7 ≤ (g ++ t).length := by
      have hlen := congrArg List.length (beq_iff_eq.mp hb)
      rw [List.length_map, List.length_map, bearer_bytes, List.length_take] at hlen
      change min 7 _ = 7 at hlen
      omega
    rw [dropBearer, if_pos hb] at heq
    have hlen := congrArg List.length heq
    rw [List.length_drop] at hlen
    rw [List.length_append] at hlen hseven
    have htake : (g ++ t').take 7 = (g ++ t).take 7 := by
      rw [List.take_append_of_le_length (by omega), List.take_append_of_le_length (by omega)]
    rw [dropBearer, htake, if_pos hb]
    by_cases ht : t = []
    · subst ht
      have ht' : t' = [] := by
        rcases h.cases with ⟨-, ht'⟩ | ⟨_, _, _, _, hcons, -, -⟩
        · exact ht'
        · cases hcons
      rw [ht', List.append_nil, List.drop_eq_nil_iff]
      omega
    · have hpos := List.length_pos_of_ne_nil ht
      have hg : g.length = 8 := by omega
      rw [← hg, List.drop_left]
  · rw [dropBearer, if_neg hb] at heq
    have hg : g = [] := List.append_left_eq_self.mp heq
    subst hg
    rcases h.cases with ⟨-, rfl⟩ | ⟨c, s, c', s', rfl, rfl, hc⟩
    · rfl
    · refine dropBearer_cons (fun hlower => ?_) s'
      rcases hc with ⟨hd, rfl⟩ | rfl
      · rw [← isValueDelimiter_lower, hlower] at hd
        exact absurd hd (by decide)
      · exact absurd hlower (by decide)

theorem dropQuote_suffix (r : List UInt8) : dropQuote r <:+ r := by
  unfold dropQuote
  split
  · exact List.tail_suffix r
  · exact List.suffix_refl r

theorem dropBearer_suffix (r : List UInt8) : dropBearer r <:+ r := by
  unfold dropBearer
  split
  · exact List.drop_suffix 8 r
  · exact List.suffix_refl r

theorem valueTail_eq_some {scheme : Bool} {r t : List UInt8} (h : valueTail scheme r = some t) :
    ∃ c rest, (dropQuote r).dropWhile isAsciiWhitespace = c :: rest ∧ (c = 0x3D ∨ c = 0x3A) ∧
      t = (if scheme then dropBearer (dropQuote (rest.dropWhile isAsciiWhitespace))
        else dropQuote (rest.dropWhile isAsciiWhitespace)) := by
  unfold valueTail at h
  split at h
  · cases h
  · next c rest heq =>
    split at h
    · next hc => exact ⟨c, rest, heq, hc, (Option.some_inj.mp h).symm⟩
    · cases h

theorem valueTail_alike {scheme : Bool} {g t t' : List UInt8} (h : Alike t t')
    (htail : valueTail scheme (g ++ t) = some t) : valueTail scheme (g ++ t') = some t' := by
  obtain ⟨c, rest, hrest, hc, ht⟩ := valueTail_eq_some htail
  have hquoted : t.length ≤ (dropQuote (rest.dropWhile isAsciiWhitespace)).length := by
    nth_rewrite 1 [ht]
    split
    · exact (dropBearer_suffix _).length_le
    · exact Nat.le_refl _
  have hblanks := hquoted.trans (dropQuote_suffix _).length_le
  have hafter : t.length ≤ rest.length := hblanks.trans (List.dropWhile_suffix _).length_le
  have hbefore : t.length ≤ ((dropQuote (g ++ t)).dropWhile isAsciiWhitespace).length := by
    rw [hrest, List.length_cons]
    omega
  obtain ⟨g₁, h₁, h₁'⟩ := dropQuote_alike h g (hbefore.trans (List.dropWhile_suffix _).length_le)
  rw [h₁] at hrest hbefore
  obtain ⟨g₂, h₂, h₂'⟩ := dropBlanks_alike h g₁ hbefore
  rw [h₂] at hrest
  cases g₂ with
  | nil =>
    rw [List.nil_append] at hrest
    rw [hrest, List.length_cons] at hafter
    omega
  | cons b g₃ =>
    rw [List.cons_append] at hrest
    obtain ⟨rfl, hrest'⟩ := List.cons_eq_cons.mp hrest
    rw [← hrest'] at ht hquoted hblanks
    obtain ⟨g₄, h₄, h₄'⟩ := dropBlanks_alike h g₃ hblanks
    rw [h₄] at ht hquoted
    obtain ⟨g₅, h₅, h₅'⟩ := dropQuote_alike h g₄ hquoted
    rw [h₅] at ht
    unfold valueTail
    rw [h₁', h₂', List.cons_append]
    dsimp only
    rw [if_pos hc, h₄', h₅', Option.some_inj]
    cases scheme with
    | false =>
      have hnil : g₅ = [] := List.append_left_eq_self.mp ht.symm
      rw [hnil]
      rfl
    | true => exact dropBearer_alike h g₅ ht.symm

theorem dropQuote_split (r : List UInt8) : ∃ q, (∀ b ∈ q, inert b = true) ∧ r = q ++ dropQuote r := by
  unfold dropQuote
  split
  · next hquote =>
    cases r with
    | nil => cases hquote
    | cons b rest =>
      cases Option.some_inj.mp hquote
      exact ⟨[quotation], List.forall_mem_singleton.mpr (by decide), rfl⟩
  · exact ⟨[], nofun, rfl⟩

theorem dropBlanks_split (r : List UInt8) :
    ∃ q, (∀ b ∈ q, inert b = true) ∧ r = q ++ r.dropWhile isAsciiWhitespace := by
  refine ⟨r.takeWhile isAsciiWhitespace, fun b hb => ?_, List.takeWhile_append_dropWhile.symm⟩
  rw [inert, List.mem_takeWhile_imp hb, Bool.or_true]
  rfl

/-- The scheme of an `authorization` value, and the one byte of the value that is skipped with it. -/
structure Bearer (g t : List UInt8) : Prop where
  scheme : lowered (g.take 7) = asBytes "bearer "
  length : g.length = 8 ∨ g.length = 7 ∧ t = []

theorem dropBearer_split (r : List UInt8) :
    ∃ g, r = g ++ dropBearer r ∧ (g = [] ∨ Bearer g (dropBearer r)) := by
  have hlower : lowered (asBytes "bearer ") = asBytes "bearer " := by
    rw [bearer_bytes]
    decide
  have hbearer : (asBytes "bearer ").length = 7 := by rw [bearer_bytes]; rfl
  unfold dropBearer
  split
  · next heq =>
    have hlow : lowered (r.take 7) = asBytes "bearer " := (beq_iff_eq.mp heq).trans hlower
    have hlen := congrArg List.length hlow
    rw [length_lowered, hbearer, List.length_take] at hlen
    refine ⟨r.take 8, (List.take_append_drop 8 r).symm, .inr ⟨?_, ?_⟩⟩
    · rw [List.take_take]
      exact hlow
    · rw [List.length_take, List.drop_eq_nil_iff]
      omega
  · exact ⟨[], rfl, .inl rfl⟩

structure Gap (g t : List UInt8) : Prop where
  parts : ∃ blank scheme, g = blank ++ scheme ∧ blank ≠ [] ∧ (∀ b ∈ blank, inert b = true) ∧
    (scheme = [] ∨ Bearer scheme t)

theorem valueTail_gap {scheme : Bool} {r t : List UInt8} (h : valueTail scheme r = some t) :
    ∃ g, r = g ++ t ∧ Gap g t := by
  obtain ⟨c, rest, hrest, hc, ht⟩ := valueTail_eq_some h
  obtain ⟨q₁, hq₁, hr⟩ := dropQuote_split r
  obtain ⟨q₂, hq₂, hblank⟩ := dropBlanks_split (dropQuote r)
  obtain ⟨q₃, hq₃, hafter⟩ := dropBlanks_split rest
  obtain ⟨q₄, hq₄, hquote⟩ := dropQuote_split (rest.dropWhile isAsciiWhitespace)
  obtain ⟨g, hg, hbearer⟩ : ∃ g, dropQuote (rest.dropWhile isAsciiWhitespace) = g ++ t ∧ (g = [] ∨ Bearer g t) := by
    cases scheme with
    | false => exact ⟨[], ht.symm, .inl rfl⟩
    | true => exact ht ▸ dropBearer_split _
  have hinert : inert c = true := by
    rcases hc with rfl | rfl <;> decide
  refine ⟨(q₁ ++ q₂ ++ c :: q₃ ++ q₄) ++ g, ?_, ⟨_, g, rfl, by simp, ?_, hbearer⟩⟩
  · rw [hr, hblank, hrest, hafter, hquote, hg]
    simp only [List.append_assoc, List.cons_append]
  · intro b hb
    simp only [List.mem_append, List.mem_cons] at hb
    rcases hb with ((hb | hb) | rfl | hb) | hb
    · exact hq₁ b hb
    · exact hq₂ b hb
    · exact hinert
    · exact hq₃ b hb
    · exact hq₄ b hb

theorem valueTail_opens {scheme : Bool} {r t : List UInt8} (h : valueTail scheme r = some t) :
    ∃ c rest, r = c :: rest ∧ inert c = true := by
  obtain ⟨g, rfl, ⟨blank, tail, rfl, hne, hinert, -⟩⟩ := valueTail_gap h
  obtain ⟨c, blank, rfl⟩ := List.exists_cons_of_ne_nil hne
  exact ⟨c, _, rfl, hinert c List.mem_cons_self⟩

def InertHead (w : List UInt8) : Prop := ∃ c rest, w = c :: rest ∧ inert c = true

theorem Gap.opens {g t : List UInt8} (hg : Gap g t) (r : List UInt8) : InertHead (g ++ r) := by
  obtain ⟨blank, scheme, rfl, hne, hinert, -⟩ := hg.parts
  obtain ⟨c, blank, rfl⟩ := List.exists_cons_of_ne_nil hne
  exact ⟨c, _, rfl, hinert c List.mem_cons_self⟩

def SameGaps (R : List UInt8 → List UInt8 → Prop) : Prop :=
  ∀ w p, R w p → (∃ c w' p', inert c = true ∧ w = c :: w' ∧ p = c :: p' ∧ R w' p') ∨
    ¬InertHead w ∧ ¬InertHead p

section Related

variable {R : List UInt8 → List UInt8 → Prop} (same : SameGaps R)
include same

theorem dropQuote_related {w p : List UInt8} (h : R w p) : R (dropQuote w) (dropQuote p) := by
  rcases same w p h with ⟨c, w', p', -, rfl, rfl, hrest⟩ | ⟨hw, hp⟩
  · by_cases hc : c = quotation
    · subst hc
      rwa [dropQuote_quotation, dropQuote_quotation]
    · rwa [dropQuote_cons hc, dropQuote_cons hc]
  · have hkeep : ∀ l, ¬InertHead l → dropQuote l = l := by
      intro l hl
      refine if_neg fun hquote => hl ?_
      cases l with
      | nil => cases hquote
      | cons b rest => exact ⟨b, rest, rfl, Option.some_inj.mp hquote ▸ by decide⟩
    rwa [hkeep w hw, hkeep p hp]

theorem dropBlanks_related {w p : List UInt8} (h : R w p) :
    R (w.dropWhile isAsciiWhitespace) (p.dropWhile isAsciiWhitespace) := by
  induction w generalizing p with
  | nil =>
    rcases same [] p h with ⟨c, w', p', -, hnil, -, -⟩ | ⟨-, hp⟩
    · cases hnil
    · cases p with
      | nil => exact h
      | cons b rest =>
        have hb : ¬isAsciiWhitespace b = true := fun hb =>
          hp ⟨b, rest, rfl, by rw [inert, hb, Bool.or_true]; rfl⟩
        rwa [List.dropWhile_nil, List.dropWhile_cons_of_neg hb]
  | cons a w ih =>
    rcases same (a :: w) p h with ⟨c, w', p', -, heq, rfl, hrest⟩ | ⟨hw, hp⟩
    · obtain ⟨rfl, rfl⟩ := List.cons_eq_cons.mp heq
      by_cases ha : isAsciiWhitespace a = true
      · rw [List.dropWhile_cons_of_pos ha, List.dropWhile_cons_of_pos ha]
        exact ih hrest
      · rwa [List.dropWhile_cons_of_neg ha, List.dropWhile_cons_of_neg ha]
    · have hkeep : ∀ l, ¬InertHead l → l.dropWhile isAsciiWhitespace = l := by
        intro l hl
        cases l with
        | nil => rfl
        | cons b rest =>
          exact List.dropWhile_cons_of_neg fun hb => hl ⟨b, rest, rfl, by rw [inert, hb, Bool.or_true]; rfl⟩
      rwa [hkeep _ hw, hkeep _ hp]

theorem valueTail_related {w p : List UInt8} (h : R w p) :
    (valueTail false w = none ∧ valueTail false p = none) ∨
      ∃ t t', valueTail false w = some t ∧ valueTail false p = some t' ∧ R t t' := by
  have hread : ∀ l c rest, (dropQuote l).dropWhile isAsciiWhitespace = c :: rest → (c = 0x3D ∨ c = 0x3A) →
      valueTail false l = some (dropQuote (rest.dropWhile isAsciiWhitespace)) := by
    intro l c rest hl hc
    unfold valueTail
    rw [hl]
    exact if_pos hc
  have hstuck : ∀ l, (∀ c rest, (dropQuote l).dropWhile isAsciiWhitespace = c :: rest → ¬(c = 0x3D ∨ c = 0x3A)) →
      valueTail false l = none := by
    intro l hl
    unfold valueTail
    split
    · rfl
    · next c rest heq => exact if_neg (hl c rest heq)
  have hblank := dropBlanks_related same (dropQuote_related same h)
  rcases same _ _ hblank with ⟨c, w', p', -, hw, hp, hrest⟩ | ⟨hw, hp⟩
  · by_cases hc : c = 0x3D ∨ c = 0x3A
    · exact .inr ⟨_, _, hread w c w' hw hc, hread p c p' hp hc,
        dropQuote_related same (dropBlanks_related same hrest)⟩
    · refine .inl ⟨hstuck w fun d rest hd => ?_, hstuck p fun d rest hd => ?_⟩
      · rw [hw] at hd
        exact (List.cons_eq_cons.mp hd).1 ▸ hc
      · rw [hp] at hd
        exact (List.cons_eq_cons.mp hd).1 ▸ hc
  · have hopen : ∀ c, (c = 0x3D ∨ c = 0x3A) → inert c = true := by
      rintro c (rfl | rfl) <;> decide
    exact .inl ⟨hstuck w fun c rest heq hc => hw ⟨c, rest, heq, hopen c hc⟩,
      hstuck p fun c rest heq hc => hp ⟨c, rest, heq, hopen c hc⟩⟩

end Related

end CrashLab.ValueGaps
