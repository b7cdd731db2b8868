import CrashLab.SettledPayloads

namespace CrashLab.RedactedReadings

open FixtureSanitize SanitizedWindows SecretSplices ValueGaps SettledPayloads SignatureHash

def marks : List (List UInt8) := SanitizationContext.new.rules.map (lowered ·.pattern) ++ inlineCredentialPrefixes

/-- In `k` no mark begins, and none that `k` ends in goes on with a byte of a gap. -/
def Safe (k : List UInt8) : Prop :=
  0x78 ∉ k ∧ ∀ y ∈ k.tails, y ≠ [] → ∀ q ∈ marks, ¬q <+: y ∧ (y <+: q → ∀ c ∈ (q.drop y.length).head?, inert c = false)

instance (k : List UInt8) : Decidable (Safe k) := inferInstanceAs (Decidable (_ ∧ _))

theorem Safe.tail {a : UInt8} {k : List UInt8} (h : Safe (a :: k)) : Safe k := by
  refine ⟨fun hmem => h.1 (List.mem_cons_of_mem a hmem), fun y hy => h.2 y ?_⟩
  rw [List.mem_tails] at hy ⊢
  exact hy.trans (List.suffix_cons a k)

theorem Safe.not_mark {k q w : List UInt8} (h : Safe k) (hne : k ≠ []) (hq : q ∈ marks) (hk : k <+: lowered w)
    (hopen : InertHead (w.drop k.length)) : ¬q <+: lowered w := by
  obtain ⟨hfree, hnext⟩ := h.2 k ((List.mem_tails k k).mpr (List.suffix_refl k)) hne q hq
  obtain ⟨d, rest, hd, hinert⟩ := hopen
  intro hpre
  rcases List.prefix_or_prefix_of_prefix hpre hk with hqk | hkq
  · exact hfree hqk
  · obtain ⟨r, rfl⟩ := hkq
    obtain ⟨t, ht⟩ := hpre
    have hdrop : r ++ t = toAsciiLowercase d :: lowered rest := by
      have := congrArg (List.drop k.length) ht
      rw [List.append_assoc, List.drop_left, ← lowered_drop, hd] at this
      exact this
    cases r with
    | nil => exact hfree (by rw [List.append_nil])
    | cons c r =>
      have hc := hnext (List.prefix_append k _) c (by rw [List.drop_left]; rfl)
      rw [(List.cons_eq_cons.mp hdrop).1, inert_lower, hinert] at hc
      cases hc

theorem credentialAt_of_live {w : List UInt8} {stop : ℕ} (h : liveTokenEnd w = some stop) : credentialAt w = true := by
  by_contra hnone
  rw [liveTokenEnd_of_noCredential (Bool.not_eq_true _ ▸ hnone)] at h
  cases h

theorem patternAt_of_valueRange {rule : SanitizationRule} {w : List UInt8} {range : ℕ × ℕ}
    (h : valueRange rule w = some range) : patternAt w rule.pattern = true := by
  unfold valueRange at h
  split at h
  · assumption
  · cases h

theorem mark_of_rule {w : List UInt8} {rule : SanitizationRule} {start stop : ℕ}
    (h : matchingRule .new w = some (rule, start, stop)) :
    lowered rule.pattern ∈ marks ∧ lowered rule.pattern <+: lowered w ∧
      lowered rule.pattern <+: lowered (w.take start) := by
  obtain ⟨hmem, hrange⟩ := matchingRule_some h
  have hpre := patternAt_iff.mp (patternAt_of_valueRange hrange)
  refine ⟨List.mem_append_left _ (List.mem_map_of_mem hmem), hpre, ?_⟩
  obtain ⟨hstart, hle, hstop⟩ := valueRange_bounds hrange
  refine List.prefix_of_prefix_length_le hpre ((List.take_prefix start w).map _) ?_
  rw [length_lowered, length_lowered, List.length_take]
  omega

theorem rewrites_cases {w o : List UInt8} (h : Rewrites .new w o) : (w = [] ∧ o = []) ∨
    (∃ b w' o', w = b :: w' ∧ o = b :: o' ∧ Rewrites .new w' o') ∨
    ∃ q ∈ marks, q <+: lowered w ∧ (q <+: lowered o ∨ ∃ o', o = redacted :: o') := by
  have hrule : ∀ {rule : SanitizationRule} {start stop : ℕ} (l : List UInt8),
      matchingRule .new w = some (rule, start, stop) →
      ∃ q ∈ marks, q <+: lowered w ∧ (q <+: lowered (w.take start ++ l) ∨ ∃ o', w.take start ++ l = redacted :: o') := by
    intro rule start stop l hmatch
    obtain ⟨hmem, hpre, hkept⟩ := mark_of_rule hmatch
    rw [lowered_append]
    exact ⟨_, hmem, hpre, .inl (hkept.trans (List.prefix_append _ _))⟩
  cases h with
  | done => exact .inl ⟨rfl, rfl⟩
  | @token _ o stop live rest =>
    obtain ⟨p, hp, hpre⟩ := credentialAt_iff.mp (credentialAt_of_live live)
    obtain ⟨n, rfl⟩ := Nat.exists_eq_add_of_le' (liveTokenEnd_bounds live).1
    exact .inr (.inr ⟨p, List.mem_append_right _ hp, hpre, .inr ⟨_, rfl⟩⟩)
  | idle _ _ rest => exact .inr (.inl ⟨_, _, _, rfl, rfl, rest⟩)
  | value _ matched =>
    rw [List.append_assoc]
    exact .inr (.inr (hrule _ matched))
  | canonical _ matched =>
    rw [List.append_assoc]
    exact .inr (.inr (hrule _ matched))
  | canonicalCut _ matched =>
    rw [List.append_assoc]
    exact .inr (.inr (hrule _ matched))

/-- The sanitized payload reads `p` where the pass found `w`, `hidden` if inside an inline credential. -/
def Reads (hidden : Bool) (w p : List UInt8) : Prop := ∃ o, Rewrites .new w o ∧ p = redactFrom hidden o

def still (b : UInt8) : Bool := inert b || isValueDelimiter b

theorem still_of_inert {b : UInt8} (h : inert b = true) : still b = true := by
  rw [still, h, Bool.true_or]

theorem still_of_delimiter {b : UInt8} (h : isValueDelimiter b = true) : still b = true := by
  rw [still, h, Bool.or_true]

theorem mark_head : ∀ q ∈ marks, ∃ a ∈ q.head?, still a = false := by decide +kernel

theorem not_mark_at_still {b : UInt8} {w q : List UInt8} (hb : still b = true) (hq : q ∈ marks) :
    ¬q <+: lowered (b :: w) := by
  obtain ⟨a, ha, hstill⟩ := mark_head q hq
  obtain ⟨q, rfl⟩ := List.head?_eq_some_iff.mp (Option.mem_def.mp ha)
  intro hpre
  rw [(List.cons_prefix_cons.mp hpre).1, still, inert_lower, isValueDelimiter_lower, ← still, hb] at hstill
  cases hstill

theorem credentialAt_still {b : UInt8} (hb : still b = true) (w : List UInt8) : credentialAt (b :: w) = false := by
  rw [← Bool.not_eq_true, credentialAt_iff]
  rintro ⟨p, hp, hpre⟩
  exact not_mark_at_still hb (List.mem_append_right _ hp) hpre

theorem not_tokenChar_of_still {b : UInt8} (hb : still b = true) : isCredentialTokenChar b = false := by
  simp only [still, inert, isAsciiWhitespace, isValueDelimiter, Bool.or_eq_true, beq_iff_eq, List.contains_cons,
    List.contains_nil, Bool.or_false] at hb
  rcases hb with (((rfl | (((rfl | rfl) | rfl) | rfl) | rfl) | rfl) | rfl) | rfl | rfl | rfl | rfl | rfl | rfl |
    rfl | rfl | rfl | rfl | rfl | rfl <;> decide

theorem redactFrom_still {b : UInt8} (hb : still b = true) (hidden : Bool) (w : List UInt8) :
    redactFrom hidden (b :: w) = b :: redactFrom false w := by
  apply redactFrom_shown
  rw [not_tokenChar_of_still hb, credentialAt_still hb, Bool.and_false]
  rfl

theorem reads_inert {hidden : Bool} {w p : List UInt8} (h : Reads hidden w p) :
    (∃ c w' p', inert c = true ∧ w = c :: w' ∧ p = c :: p' ∧ Reads false w' p') ∨
      ¬InertHead w ∧ ¬InertHead p := by
  obtain ⟨o, ho, rfl⟩ := h
  have hmask : ∀ l, ¬InertHead (redacted :: l) := by
    rintro l ⟨c, rest, heq, hc⟩
    rw [← (List.cons_eq_cons.mp heq).1] at hc
    exact absurd hc (by decide)
  rcases rewrites_cases ho with ⟨rfl, rfl⟩ | ⟨b, w', o', rfl, rfl, hrest⟩ | ⟨q, hq, hw, ho'⟩
  · exact .inr ⟨fun ⟨_, _, h, _⟩ => (List.cons_ne_nil _ _ h.symm).elim,
      fun ⟨_, _, h, _⟩ => (List.cons_ne_nil _ _ h.symm).elim⟩
  · by_cases hb : inert b = true
    · exact .inl ⟨b, w', _, hb, rfl, redactFrom_still (still_of_inert hb) hidden o', o', hrest, rfl⟩
    · refine .inr ⟨?_, ?_⟩
      · rintro ⟨c, rest, heq, hc⟩
        exact hb ((List.cons_eq_cons.mp heq).1 ▸ hc)
      · rw [redactFrom]
        split
        · exact hmask _
        · rintro ⟨c, rest, heq, hc⟩
          exact hb ((List.cons_eq_cons.mp heq).1 ▸ hc)
  · refine .inr ⟨?_, ?_⟩
    · rintro ⟨c, rest, rfl, hc⟩
      exact not_mark_at_still (still_of_inert hc) hq hw
    · rintro ⟨c, rest, heq, hc⟩
      have hmasked := redactFrom_masked hidden o
      rw [heq] at hmasked
      cases o with
      | nil => cases hmasked
      | cons a o =>
        cases hmasked with
        | cons ha _ =>
          rcases ha with rfl | rfl
          · rcases ho' with ho' | ⟨o', ho'⟩
            · exact not_mark_at_still (still_of_inert hc) hq ho'
            · exact hmask o ⟨c, o, by rw [(List.cons_eq_cons.mp ho').1], hc⟩
          · exact absurd hc (by decide)

theorem sameGaps_reads : SameGaps (Reads false) := fun _ _ h => reads_inert h

theorem inertHead_reads {hidden : Bool} {w p : List UInt8} (h : Reads hidden w p) : InertHead w ↔ InertHead p := by
  rcases reads_inert h with ⟨c, w', p', hc, rfl, rfl, -⟩ | ⟨hw, hp⟩
  · exact ⟨fun _ => ⟨c, p', rfl, hc⟩, fun _ => ⟨c, w', rfl, hc⟩⟩
  · exact ⟨fun h => absurd h hw, fun h => absurd h hp⟩

theorem masked_back {k o p : List UInt8} (h : Masked o p) (hk : 0x78 ∉ k) (hpre : k <+: lowered p)
    (hopen : InertHead (p.drop k.length)) : k <+: lowered o ∧ InertHead (o.drop k.length) := by
  refine ⟨prefix_of_masked h hk hpre, ?_⟩
  obtain ⟨d, rest, hd, hinert⟩ := hopen
  have hdrop := List.forall₂_drop k.length h
  rw [hd] at hdrop
  cases ho : o.drop k.length with
  | nil =>
    rw [ho] at hdrop
    cases hdrop
  | cons a l =>
    rw [ho] at hdrop
    cases hdrop with
    | cons ha _ =>
      rcases ha with rfl | rfl
      · exact ⟨_, l, rfl, hinert⟩
      · exact absurd hinert (by decide)

theorem reads_back {k : List UInt8} (hsafe : Safe k) {hidden : Bool} {w p : List UInt8} (h : Reads hidden w p)
    (hshown : k = [] → hidden = false) (hpre : k <+: lowered p) (hopen : InertHead (p.drop k.length)) :
    k <+: lowered w ∧ Reads false (w.drop k.length) (p.drop k.length) := by
  induction k generalizing hidden w p with
  | nil =>
    rw [hshown rfl] at h
    exact ⟨List.nil_prefix, h⟩
  | cons c k ih =>
    have hmasked : ∀ l, p ≠ redacted :: l := by
      rintro l rfl
      exact hsafe.1 (List.mem_cons.mpr (.inl (List.cons_prefix_cons.mp hpre).1.symm))
    obtain ⟨o, ho, rfl⟩ := h
    rcases rewrites_cases ho with ⟨rfl, rfl⟩ | ⟨b, w', o', rfl, rfl, hrest⟩ | ⟨q, hq, -, ho'⟩
    · exact absurd (List.prefix_nil.mp hpre) nofun
    · cases hb : ((hidden && isCredentialTokenChar b) || credentialAt (b :: o')) with
      | true => exact absurd (redactFrom_hidden hb) (hmasked _)
      | false =>
        rw [redactFrom_shown hb] at hpre hopen ⊢
        obtain ⟨hc, hpre'⟩ := List.cons_prefix_cons.mp hpre
        obtain ⟨hw, hreads⟩ := ih hsafe.tail ⟨o', hrest, rfl⟩ (fun _ => rfl) hpre' hopen
        exact ⟨List.cons_prefix_cons.mpr ⟨hc, hw⟩, hreads⟩
    · exfalso
      rcases ho' with ho' | ⟨o', rfl⟩
      · obtain ⟨hback, hgap⟩ := masked_back (redactFrom_masked hidden o) hsafe.1 hpre hopen
        exact hsafe.not_mark nofun hq hback hgap ho'
      · cases hb : ((hidden && isCredentialTokenChar redacted) || credentialAt (redacted :: o')) with
        | true => exact hmasked _ (redactFrom_hidden hb)
        | false => exact hmasked _ (redactFrom_shown hb)

theorem reads_on {k : List UInt8} (hsafe : Safe k) {w p : List UInt8} (h : Reads false w p)
    (hpre : k <+: lowered w) (hopen : InertHead (w.drop k.length)) :
    k <+: lowered p ∧ Reads false (w.drop k.length) (p.drop k.length) := by
  induction k generalizing w p with
  | nil => exact ⟨List.nil_prefix, h⟩
  | cons c k ih =>
    obtain ⟨o, ho, rfl⟩ := h
    rcases rewrites_cases ho with ⟨rfl, rfl⟩ | ⟨b, w', o', rfl, rfl, hrest⟩ | ⟨q, hq, hw, -⟩
    · exact absurd (List.prefix_nil.mp hpre) nofun
    · obtain ⟨hc, hpre'⟩ := List.cons_prefix_cons.mp hpre
      obtain ⟨hk, hreads⟩ := ih hsafe.tail ⟨o', hrest, rfl⟩ hpre' hopen
      obtain ⟨hback, hgap⟩ := masked_back (redactFrom_masked false o') hsafe.tail.1 hk
        ((inertHead_reads hreads).mp hopen)
      have hkept : c :: k <+: lowered (b :: o') := List.cons_prefix_cons.mpr ⟨hc, hback⟩
      have hshown : credentialAt (b :: o') = false := by
        rw [← Bool.not_eq_true, credentialAt_iff]
        rintro ⟨p, hp, hpre⟩
        exact hsafe.not_mark nofun (List.mem_append_right _ hp) hkept hgap hpre
      rw [redactFrom_shown (by rw [hshown]; rfl)]
      exact ⟨List.cons_prefix_cons.mpr ⟨hc, hk⟩, hreads⟩
    · exact absurd hw (hsafe.not_mark nofun hq hpre hopen)

theorem credentialPrefix_strict : ∀ p ∈ inlineCredentialPrefixes, ∀ y ∈ p.tail.tails, y ≠ [] →
    0x78 ∉ y ∧ ∀ q ∈ marks, Apart q y := by
  decide +kernel

theorem rewrites_prefix_iff {k : List UInt8} (h : ∀ y ∈ k.tails, y ≠ [] → 0x78 ∉ y ∧ ∀ q ∈ marks, Apart q y)
    {w o : List UInt8} (ho : Rewrites .new w o) : k <+: lowered w ↔ k <+: lowered o := by
  induction k generalizing w o with
  | nil => exact ⟨fun _ => List.nil_prefix, fun _ => List.nil_prefix⟩
  | cons c k ih =>
    obtain ⟨hfree, hapart⟩ := h (c :: k) ((List.mem_tails _ _).mpr (List.suffix_refl _)) nofun
    rcases rewrites_cases ho with ⟨rfl, rfl⟩ | ⟨b, w', o', rfl, rfl, hrest⟩ | ⟨q, hq, hw, ho'⟩
    · exact Iff.rfl
    · have hk := ih (fun y hy => h y ((List.mem_tails _ _).mpr
        (((List.mem_tails _ _).mp hy).trans (List.suffix_cons c k)))) hrest
      exact List.cons_prefix_cons.trans ((and_congr_right fun _ => hk).trans List.cons_prefix_cons.symm)
    · refine ⟨fun hk => absurd hw ((hapart q hq).absent hk), fun hk => ?_⟩
      rcases ho' with ho' | ⟨o', rfl⟩
      · exact absurd ho' ((hapart q hq).absent hk)
      · exact absurd (List.mem_cons.mpr (.inl (List.cons_prefix_cons.mp hk).1.symm)) hfree

theorem credentialAt_idle {b : UInt8} {w o : List UInt8} (ho : Rewrites .new w o) :
    credentialAt (b :: o) = credentialAt (b :: w) := by
  rw [Bool.eq_iff_iff, credentialAt_iff, credentialAt_iff]
  apply exists_congr
  intro p
  apply and_congr_right
  intro hp
  obtain ⟨a, c, rest, rfl, -⟩ := (credentialPrefix_word hp).shape
  exact List.cons_prefix_cons.trans ((and_congr_right fun _ =>
    (rewrites_prefix_iff (credentialPrefix_strict _ hp) ho).symm).trans List.cons_prefix_cons.symm)

theorem redactFrom_kept {y r : List UInt8} (h : ∀ t, t <:+ y → t ≠ [] → credentialAt (t ++ r) = false) :
    redactFrom false (y ++ r) = y ++ redactFrom false r := by
  induction y with
  | nil => rfl
  | cons b y ih =>
    have hb : credentialAt (b :: (y ++ r)) = false := h (b :: y) (List.suffix_refl _) nofun
    rw [List.cons_append, redactFrom_shown (by rw [hb]; rfl), ih fun t ht => h t (ht.trans (List.suffix_cons b y))]
    rfl

theorem credentialAt_mask (w : List UInt8) : credentialAt (redacted :: w) = false := by
  rw [← Bool.not_eq_true, credentialAt_iff]
  rintro ⟨p, hp, hpre⟩
  obtain ⟨a, c, rest, rfl, -⟩ := (credentialPrefix_word hp).shape
  exact (credentialPrefix_bytes _ hp).2.1 (List.mem_cons.mpr (.inl (List.cons_prefix_cons.mp hpre).1.symm))

theorem redactFrom_masks (hidden : Bool) (n : ℕ) (w : List UInt8) :
    redactFrom hidden (List.replicate n redacted ++ w) = List.replicate n redacted ++ redactFrom hidden w := by
  induction n with
  | zero => rfl
  | succ n ih =>
    rw [List.replicate_succ, List.cons_append, List.cons_append, ← ih]
    cases hidden with
    | true => exact redactFrom_hidden rfl
    | false => exact redactFrom_shown (by rw [credentialAt_mask]; rfl)

theorem credentialAt_of_no_word {w : List UInt8} (h : ∀ k, Word k → ¬k <+: lowered w) : credentialAt w = false := by
  rw [← Bool.not_eq_true, credentialAt_iff]
  rintro ⟨p, hp, hpre⟩
  exact h p (credentialPrefix_word hp) hpre

theorem redactFrom_gap {g t : List UInt8} (hg : Gap g t) (ht : ∀ c ∈ t.head?, quiet c = true) (hidden : Bool) :
    redactFrom hidden (g ++ t) = g ++ redactFrom false t := by
  obtain ⟨blank, scheme, rfl, hne, hinert, hscheme⟩ := hg.parts
  obtain ⟨c, blank, rfl⟩ := List.exists_cons_of_ne_nil hne
  have hblank : redactFrom false (blank ++ (scheme ++ t)) = blank ++ redactFrom false (scheme ++ t) := by
    apply redactFrom_kept
    intro s hs hne
    obtain ⟨b, s, rfl⟩ := List.exists_cons_of_ne_nil hne
    exact credentialAt_still (still_of_inert (hinert b (List.mem_cons_of_mem c (hs.subset List.mem_cons_self)))) _
  have hbearer : redactFrom false (scheme ++ t) = scheme ++ redactFrom false t := by
    apply redactFrom_kept
    intro s hs hne
    rcases hscheme with rfl | hscheme
    · exact absurd (List.suffix_nil.mp hs) hne
    · exact credentialAt_of_no_word fun k word => word.not_at_bearer hscheme hs hne ht
  rw [List.append_assoc, List.cons_append, redactFrom_still (still_of_inert (hinert c List.mem_cons_self)), hblank,
    hbearer]
  simp only [List.cons_append, List.append_assoc]

structure Listed (q : List UInt8) : Prop where
  key : q ∈ sensitiveKeys
  token : ∀ c ∈ q, isCredentialTokenChar c = true
  free : ∀ y ∈ q.tails, y ≠ [] → ∀ p ∈ inlineCredentialPrefixes, ¬p <+: y

structure Marked (q s : List UInt8) : Prop where
  apart : ∀ y ∈ (q ++ s).tails, y ≠ [] → (∀ p ∈ inlineCredentialPrefixes, Apart p y) ∧ ∀ k ∈ sensitiveKeys, Apart k y
  free : ∀ y ∈ q.tails, y ≠ [] → ∀ p ∈ inlineCredentialPrefixes, Apart p y
  breaks : ∃ c ∈ (q.dropWhile isCredentialTokenChar).head?, isValueDelimiter c = false
  plain : ∃ a ∈ q.head?, isValueDelimiter a = false ∧ a ≠ 0x78

theorem rule_table : ∀ rule ∈ SanitizationContext.new.rules,
    (rule.expectSeparator = true ∧ rule.strategy = .replaceWithX ∧ rule.pattern ∈ sensitiveKeys ∧
      (∀ c ∈ rule.pattern, isCredentialTokenChar c = true) ∧
      ∀ y ∈ rule.pattern.tails, y ≠ [] → ∀ p ∈ inlineCredentialPrefixes, ¬p <+: y) ∨
    (rule.expectSeparator = false ∧ ∃ s ∈ ["[HOST]", "[PATH]"], rule.strategy = .replaceWithCanonical s ∧
      (∀ y ∈ (lowered rule.pattern ++ lowered (asBytes s)).tails, y ≠ [] →
        (∀ p ∈ inlineCredentialPrefixes, Apart p y) ∧ ∀ k ∈ sensitiveKeys, Apart k y) ∧
      (∀ y ∈ (lowered rule.pattern).tails, y ≠ [] → ∀ p ∈ inlineCredentialPrefixes, Apart p y) ∧
      (∃ c ∈ ((lowered rule.pattern).dropWhile isCredentialTokenChar).head?, isValueDelimiter c = false) ∧
      ∃ a ∈ (lowered rule.pattern).head?, isValueDelimiter a = false ∧ a ≠ 0x78) := by
  decide +kernel

theorem listed_of_rule {rule : SanitizationRule} (h : rule ∈ SanitizationContext.new.rules)
    (hstrategy : rule.strategy = .replaceWithX) : rule.expectSeparator = true ∧ Listed rule.pattern := by
  rcases rule_table rule h with ⟨hsep, -, hkey, htoken, hfree⟩ | ⟨-, s, -, hs, -⟩
  · exact ⟨hsep, hkey, htoken, hfree⟩
  · rw [hstrategy] at hs
    cases hs

theorem marked_of_rule {rule : SanitizationRule} (h : rule ∈ SanitizationContext.new.rules) {s : String}
    (hstrategy : rule.strategy = .replaceWithCanonical s) :
    rule.expectSeparator = false ∧ Marked (lowered rule.pattern) (lowered (asBytes s)) := by
  rcases rule_table rule h with ⟨-, hs, -⟩ | ⟨hsep, s', -, hs, hapart, hfree, hbreaks, hplain⟩
  · rw [hstrategy] at hs
    cases hs
  · rw [hstrategy] at hs
    cases hs
    exact ⟨hsep, hapart, hfree, hbreaks, hplain⟩

structure ValueAt (w : List UInt8) (start stop : ℕ) (q u g v : List UInt8) : Prop where
  whole : w = u ++ (g ++ (v ++ w.drop stop))
  name : lowered u = lowered q
  tail : valueTail (isAuthorization q) (g ++ (v ++ w.drop stop)) = some (v ++ w.drop stop)
  plain : ∀ b ∈ v, plain b = true
  delimited : ∀ d ∈ (w.drop stop).head?, isValueDelimiter d = true
  taken : w.take start = u ++ g
  count : stop - start = v.length

theorem valueAt_of_valueRange {rule : SanitizationRule} {w : List UInt8} {start stop : ℕ}
    (h : valueRange rule w = some (start, stop)) (hsep : rule.expectSeparator = true) :
    ∃ u g v, ValueAt w start stop rule.pattern u g v := by
  have hpattern := patternAt_of_valueRange h
  rw [valueRange, if_pos hpattern, if_pos hsep] at h
  obtain ⟨⟨begins, quotedKey, quoted⟩, hfound, heq⟩ := Option.map_eq_some_iff.mp h
  obtain ⟨rfl, rfl⟩ := Prod.mk.inj heq
  have htail := separatedValue_tail w rule.pattern.length rule.pattern
  rw [hfound, Option.map_some] at htail
  obtain ⟨g, hg, -⟩ := valueTail_gap htail.symm
  have hv : w.drop begins = (w.drop begins).takeWhile ValueGaps.plain ++ w.drop (valueEnd w begins quoted) := by
    rw [drop_valueEnd, List.takeWhile_append_dropWhile]
  have hu : lowered (w.take rule.pattern.length) = lowered rule.pattern := by
    have := List.prefix_iff_eq_take.mp (patternAt_iff.mp hpattern)
    rw [lowered, List.map_take, ← lowered, this, length_lowered]
  have hwhole : w = w.take rule.pattern.length ++ (g ++ w.drop begins) := by
    rw [← hg, List.take_append_drop]
  refine ⟨w.take rule.pattern.length, g, (w.drop begins).takeWhile ValueGaps.plain, ?_, hu, ?_, ?_, ?_, ?_, ?_⟩
  · rw [← hv]
    exact hwhole
  · rw [← hv, ← hg]
    exact htail.symm
  · exact fun b hb => List.mem_takeWhile_imp hb
  · rw [drop_valueEnd]
    exact head?_dropWhile_plain _
  · have hsplit := List.take_append_drop begins w
    nth_rewrite 3 [hwhole] at hsplit
    rw [← List.append_assoc] at hsplit
    exact List.append_cancel_right hsplit
  · rw [valueEnd_eq]
    exact Nat.add_sub_cancel_left _ _

inductive ReadOn : List UInt8 → List UInt8 → Prop
  | nil : ReadOn [] []
  | delimiter {d : UInt8} {w p : List UInt8} (hd : isValueDelimiter d = true) : ReadOn (d :: w) (d :: p)

theorem readOn_rewrites {w o : List UInt8} (h : Rewrites .new w o)
    (hw : ∀ d ∈ w.head?, isValueDelimiter d = true) : ReadOn w o := by
  rcases rewrites_cases h with ⟨rfl, rfl⟩ | ⟨b, w', o', rfl, rfl, -⟩ | ⟨q, hq, hpre, -⟩
  · exact .nil
  · exact .delimiter (hw b rfl)
  · cases w with
    | nil =>
      obtain ⟨a, ha, -⟩ := mark_head q hq
      rw [List.prefix_nil.mp hpre] at ha
      cases ha
    | cons b w => exact absurd hpre (not_mark_at_still (still_of_delimiter (hw b rfl)) hq)

theorem ReadOn.inline {w o : List UInt8} (h : ReadOn w o) : ReadOn w (redactFrom false o) := by
  cases h with
  | nil => exact .nil
  | delimiter hd =>
    rw [redactFrom_still (still_of_delimiter hd)]
    exact .delimiter hd

theorem ReadOn.delimited {w p : List UInt8} (h : ReadOn w p) : ∀ d ∈ p.head?, isValueDelimiter d = true := by
  cases h with
  | nil => exact nofun
  | delimiter hd =>
    rintro d ⟨⟩
    exact hd

theorem ReadOn.alike {w p v : List UInt8} (h : ReadOn w p) (hv : ∀ b ∈ v, plain b = true) :
    Alike (v ++ w) (List.replicate v.length redacted ++ p) := by
  cases v with
  | nil =>
    cases h with
    | nil => exact .nil
    | delimiter hd => exact .delimiter hd
  | cons c v =>
    have hc := hv c List.mem_cons_self
    rw [plain, Bool.not_eq_true'] at hc
    exact .masked hc

theorem quiet_masked {p : List UInt8} (h : ∀ d ∈ p.head?, isValueDelimiter d = true) (n : ℕ) :
    ∀ c ∈ (List.replicate n redacted ++ p).head?, quiet c = true := by
  intro c hc
  cases n with
  | zero => rw [quiet, h c hc, Bool.or_true]; rfl
  | succ n => cases hc; decide

theorem headSettled_masks {n : ℕ} {p : List UInt8} (h : ∀ c ∈ p.head?, toAsciiLowercase c ≠ 0x2D) :
    HeadSettled (List.replicate (n + 1) redacted ++ p) := by
  apply headSettled_of_no_word
  intro k word
  cases n with
  | zero => exact word.not_at_mask h
  | succ n =>
    refine word.not_at_mask fun c hc => ?_
    cases hc
    decide

namespace ValueAt

variable {w q u g v : List UInt8} {start stop : ℕ} (found : ValueAt w start stop q u g v)
include found

theorem tail_masked {p : List UInt8} (h : ReadOn (w.drop stop) p) :
    valueTail (isAuthorization q) (g ++ (List.replicate v.length redacted ++ p)) =
      some (List.replicate v.length redacted ++ p) :=
  valueTail_alike (h.alike found.plain) found.tail

theorem gap_masked {p : List UInt8} (h : ReadOn (w.drop stop) p) : Gap g (List.replicate v.length redacted ++ p) := by
  obtain ⟨g', hg, hgap⟩ := valueTail_gap (found.tail_masked h)
  rwa [List.append_cancel_right hg]

theorem gap_head : ∃ c g', g = c :: g' ∧ inert c = true := by
  obtain ⟨g', hg, hgap⟩ := valueTail_gap found.tail
  rw [List.append_cancel_right hg]
  have hopen := hgap.opens []
  rwa [List.append_nil] at hopen

theorem opens (p : List UInt8) : InertHead (g ++ p) := by
  obtain ⟨g', hg, hgap⟩ := valueTail_gap found.tail
  rw [List.append_cancel_right hg]
  exact hgap.opens p

theorem opens_plainly (p : List UInt8) : ∀ c ∈ (g ++ p).head?, toAsciiLowercase c ≠ 0x2D := by
  obtain ⟨c, rest, hopen, hinert⟩ := found.opens p
  rw [hopen]
  rintro d ⟨⟩ hlower
  rw [← inert_lower, hlower] at hinert
  exact absurd hinert (by decide)

theorem lowered_name (hq : Listed q) : lowered u = q := found.name.trans (key_word hq.key).lower

theorem token_name (hq : Listed q) : ∀ b ∈ u, isCredentialTokenChar b = true := by
  intro b hb
  rw [← isCredentialTokenChar_lower]
  exact hq.token _ (found.lowered_name hq ▸ List.mem_map_of_mem hb)

theorem no_credential (hq : Listed q) {t : List UInt8} (ht : t <:+ u) (hne : t ≠ []) (p : List UInt8) :
    credentialAt (t ++ (g ++ p)) = false := by
  rw [← Bool.not_eq_true, credentialAt_iff]
  rintro ⟨k, hk, hpre⟩
  refine (credentialPrefix_word hk).not_across (hq.free _ ?_ ?_ k hk) (found.opens p) hpre
  · rw [List.mem_tails, ← found.lowered_name hq]
    exact ht.map _
  · exact fun hnil => hne (List.map_eq_nil_iff.mp hnil)

theorem emitted (hq : Listed q) {o : List UInt8} (ho : Rewrites .new (w.drop stop) o) (hidden : Bool) :
    redactFrom hidden (w.take start ++ List.replicate (stop - start) redacted ++ o) =
      (if hidden then List.replicate u.length redacted else u) ++
        (g ++ (List.replicate v.length redacted ++ redactFrom false o)) := by
  have hread := readOn_rewrites ho found.delimited
  have hgap : ∀ hidden, redactFrom hidden (g ++ (List.replicate v.length redacted ++ o)) =
      g ++ (List.replicate v.length redacted ++ redactFrom false o) := by
    intro hidden
    rw [redactFrom_gap (found.gap_masked hread) (quiet_masked hread.delimited v.length), redactFrom_masks]
  rw [found.taken, found.count, List.append_assoc, List.append_assoc]
  cases hidden with
  | true => rw [redactFrom_tokenChars (found.token_name hq), hgap, if_pos rfl]
  | false =>
    rw [redactFrom_kept fun t ht hne => found.no_credential hq ht hne _, hgap]
    rfl

theorem settled_emitted (hq : Listed q) {o : List UInt8} (ho : Rewrites .new (w.drop stop) o) (hidden : Bool) :
    Settled (redactFrom hidden (w.take start ++ List.replicate (stop - start) redacted ++ o)) ↔
      Settled (redactFrom false o) := by
  have hread := (readOn_rewrites ho found.delimited).inline
  have hmasked : ∀ u', lowered u' <:+ q → (Settled (u' ++ (g ++ (List.replicate v.length redacted ++
      redactFrom false o))) ↔ Settled (redactFrom false o)) := fun u' hu' =>
    settled_masked hq.key hu' (found.tail_masked hread) hread.delimited
  rw [found.emitted hq ho hidden]
  cases hidden with
  | false => exact hmasked u (found.lowered_name hq ▸ List.suffix_refl _)
  | true =>
    rw [if_pos rfl, settled_append]
    · exact hmasked [] (List.nil_suffix)
    · intro t ht hne
      obtain ⟨n, rfl⟩ := masks_of_suffix ht hne
      exact headSettled_masks (found.opens_plainly _)

end ValueAt

theorem dropWhile_token_lowered (u : List UInt8) :
    (lowered u).dropWhile isCredentialTokenChar = lowered (u.dropWhile isCredentialTokenChar) := by
  have hcomp : isCredentialTokenChar ∘ toAsciiLowercase = isCredentialTokenChar := by
    funext b
    exact isCredentialTokenChar_lower b
  rw [lowered, List.dropWhile_map, hcomp]
  rfl

theorem dropWhile_token_suffix (u s : List UInt8) : u.dropWhile isCredentialTokenChar ++ s <:+ u ++ s :=
  ⟨u.takeWhile isCredentialTokenChar, by rw [← List.append_assoc, List.takeWhile_append_dropWhile]⟩

namespace Marked

variable {u s : List UInt8} (h : Marked (lowered u) (lowered s))
include h

theorem breaks_at : ∃ c rest, u.dropWhile isCredentialTokenChar = c :: rest ∧ isCredentialTokenChar c = false ∧
    isValueDelimiter c = false := by
  obtain ⟨c, hc, hplain⟩ := h.breaks
  rw [dropWhile_token_lowered] at hc
  cases hu : u.dropWhile isCredentialTokenChar with
  | nil =>
    rw [hu] at hc
    cases hc
  | cons d rest =>
    rw [hu] at hc
    cases hc
    have hnot := List.head?_dropWhile_not isCredentialTokenChar u
    rw [hu] at hnot
    exact ⟨d, rest, rfl, by simpa using hnot, isValueDelimiter_lower d ▸ hplain⟩

theorem apart_at {t p : List UInt8} (ht : t <:+ u ++ s) (hne : t ≠ []) :
    (∀ k ∈ inlineCredentialPrefixes, ¬k <+: lowered (t ++ p)) ∧ ∀ k ∈ sensitiveKeys, ¬k <+: lowered (t ++ p) := by
  have hmem : lowered t ∈ (lowered u ++ lowered s).tails := by
    rw [List.mem_tails, ← lowered_append]
    exact ht.map _
  obtain ⟨hprefixes, hkeys⟩ := h.apart _ hmem fun hnil => hne (List.map_eq_nil_iff.mp hnil)
  rw [lowered_append]
  exact ⟨fun k hk => (hprefixes k hk).absent (List.prefix_append _ _),
    fun k hk => (hkeys k hk).absent (List.prefix_append _ _)⟩

theorem no_credential {t : List UInt8} (ht : t <:+ u) (hne : t ≠ []) (r : List UInt8) :
    credentialAt (t ++ r) = false := by
  rw [← Bool.not_eq_true, credentialAt_iff, lowered_append]
  rintro ⟨p, hp, hpre⟩
  exact (h.free _ ((List.mem_tails _ _).mpr (ht.map _)) (fun hnil => hne (List.map_eq_nil_iff.mp hnil)) p hp).absent
    (List.prefix_append _ _) hpre

theorem kept {t o : List UInt8} (ht : t <:+ u ++ s) : redactFrom false (t ++ o) = t ++ redactFrom false o := by
  apply redactFrom_kept
  intro r hr hne
  rw [← Bool.not_eq_true, credentialAt_iff]
  rintro ⟨p, hp, hpre⟩
  exact (h.apart_at (hr.trans ht) hne).1 p hp hpre

theorem settled_kept {t p : List UInt8} (ht : t <:+ u ++ s) : Settled (t ++ p) ↔ Settled p := by
  apply settled_append
  intro r hr hne key hkey hpattern
  exact absurd ((patternAt_key hkey).mp hpattern) ((h.apart_at (hr.trans ht) hne).2 key hkey)

theorem emitted_hidden (o : List UInt8) : redactFrom true (u ++ s ++ o) =
    List.replicate (u.takeWhile isCredentialTokenChar).length redacted ++
      (u.dropWhile isCredentialTokenChar ++ s ++ redactFrom false o) := by
  obtain ⟨c, rest, hc, htoken, -⟩ := h.breaks_at
  have hsplit : u ++ s ++ o = u.takeWhile isCredentialTokenChar ++ (u.dropWhile isCredentialTokenChar ++ s ++ o) := by
    simp only [← List.append_assoc, List.takeWhile_append_dropWhile]
  rw [hsplit, redactFrom_tokenChars fun b hb => List.mem_takeWhile_imp hb, redactFrom_true_of_head,
    h.kept (dropWhile_token_suffix u s)]
  rw [hc]
  rintro d ⟨⟩
  exact htoken

theorem head_breaks (p : List UInt8) :
    ∀ c ∈ (u.dropWhile isCredentialTokenChar ++ s ++ p).head?, toAsciiLowercase c ≠ 0x2D := by
  obtain ⟨c, rest, hc, htoken, -⟩ := h.breaks_at
  rw [hc]
  rintro d ⟨⟩ hlower
  rw [← isCredentialTokenChar_lower, hlower] at htoken
  exact absurd htoken (by decide)

theorem settled_emitted (hidden : Bool) (o : List UInt8) :
    Settled (redactFrom hidden (u ++ s ++ o)) ↔ Settled (redactFrom false o) := by
  cases hidden with
  | false => rw [h.kept (List.suffix_refl _), h.settled_kept (List.suffix_refl _)]
  | true =>
    rw [h.emitted_hidden, settled_append, h.settled_kept (dropWhile_token_suffix u s)]
    intro t ht hne
    obtain ⟨n, rfl⟩ := masks_of_suffix ht hne
    exact headSettled_masks (h.head_breaks _)

end Marked

theorem lowered_taken {rule : SanitizationRule} {w : List UInt8} {start stop : ℕ} {s : String}
    (h : matchingRule .new w = some (rule, start, stop)) (hs : rule.strategy = .replaceWithCanonical s) :
    lowered (w.take start) = lowered rule.pattern := by
  obtain ⟨hmem, hrange⟩ := matchingRule_some h
  obtain ⟨hsep, -⟩ := marked_of_rule hmem hs
  have hpattern := patternAt_of_valueRange hrange
  rw [valueRange, if_pos hpattern, if_neg (by rw [hsep]; exact nofun)] at hrange
  obtain ⟨rfl, -⟩ := Prod.mk.inj (Option.some_inj.mp hrange)
  have hpre := List.prefix_iff_eq_take.mp (patternAt_iff.mp hpattern)
  rw [length_lowered] at hpre
  rw [lowered, List.map_take, ← lowered, ← hpre]

theorem marked_of_match {rule : SanitizationRule} {w : List UInt8} {start stop : ℕ} {s : String}
    (h : matchingRule .new w = some (rule, start, stop)) (hs : rule.strategy = .replaceWithCanonical s) :
    Marked (lowered (w.take start)) (lowered (asBytes s)) := by
  rw [lowered_taken h hs]
  exact (marked_of_rule (matchingRule_some h).1 hs).2

end CrashLab.RedactedReadings
