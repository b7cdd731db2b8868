import CrashLab.FixtureSanitize
import CrashLab.RedactedReadings

namespace CrashLab.SanitizerAgreement

open FixtureSanitize FixtureCompat SanitizedWindows SecretSplices ValueGaps SettledPayloads RedactedReadings
open SignatureHash

/-- Whether the pass masks the whole value at the head of `v`: mask bytes, `sk_live_` and `sk_test_` tokens and
inline credentials only. `hidden` tells that an inline credential has begun before `v`. -/
def blank (hidden : Bool) (v : List UInt8) : Bool :=
  match v with
  | [] => true
  | b :: rest =>
    match _h : liveTokenEnd (b :: rest) with
    | some stop => blank hidden ((b :: rest).drop stop)
    | none =>
      if isValueDelimiter b then true
      else if (hidden && isCredentialTokenChar b) || credentialAt (b :: rest) then blank true rest
      else b == redacted && blank false rest
termination_by v.length
decreasing_by
  · have := liveTokenEnd_bounds _h
    rw [List.length_drop, List.length_cons]
    omega
  · exact Nat.lt_succ_self _
  · exact Nat.lt_succ_self _

attribute [grind =] blank

/-- If `key` stands at the head of `w` with a value behind it, the value is masked. -/
def covered (key w : List UInt8) : Bool :=
  !patternAt w key ||
    match parseValueStart w key with
    | some (start, _) => blank false (w.drop start)
    | none => true

/-- What the pass finds ahead when it has replaced the value of `rule` from `start` to `stop`. -/
def leftAhead (rule : SanitizationRule) (w : List UInt8) (start stop : ℕ) : List UInt8 :=
  match rule.strategy with
  | .replaceWithX => w.drop stop
  | .replaceWithCanonical s =>
    if (asBytes s).length < stop - start then (w.drop (start + (asBytes s).length)).take (w.length - stop)
    else w.drop stop

theorem length_leftAhead {w : List UInt8} {rule : SanitizationRule} {start stop : ℕ}
    (h : matchingRule .new w = some (rule, start, stop)) : (leftAhead rule w start stop).length < w.length := by
  obtain ⟨hmem, hrange⟩ := matchingRule_some h
  obtain ⟨hstart, hle, hstop⟩ := valueRange_bounds hrange
  obtain ⟨a, ha, -⟩ := mark_head _ (mark_of_rule h).1
  have hpos : 0 < rule.pattern.length := by
    rw [← length_lowered]
    exact List.length_pos_of_ne_nil fun hnil => by rw [hnil] at ha; cases ha
  unfold leftAhead
  split
  · rw [List.length_drop]
    omega
  · split
    · rw [List.length_take, List.length_drop]
      omega
    · rw [List.length_drop]
      omega

/-- Whether the pass over the payload, from `w` on, leaves no value behind a key that only the checker knows:
behind `webhook_key`, `private_key`, or behind the end of an `x-api-key` whose first letter is the mask of a token
just before it. A key that is `hidden` in an inline credential is masked itself. -/
def settles (hidden : Bool) (w : List UInt8) : Bool :=
  match w with
  | [] => true
  | b :: rest =>
    match _hlive : liveTokenEnd (b :: rest) with
    | some stop =>
      (hidden || covered (asBytes "-api-key") ((b :: rest).drop stop)) && settles hidden ((b :: rest).drop stop)
    | none =>
      match _hrule : matchingRule .new (b :: rest) with
      | some (rule, start, stop) => settles false (leftAhead rule (b :: rest) start stop)
      | none =>
        if (hidden && isCredentialTokenChar b) || credentialAt (b :: rest) then settles true rest
        else covered (asBytes "webhook_key") (b :: rest) && covered (asBytes "private_key") (b :: rest) &&
          settles false rest
termination_by w.length
decreasing_by
  · have := liveTokenEnd_bounds _hlive
    rw [List.length_drop, List.length_cons]
    omega
  · exact length_leftAhead _hrule
  · exact Nat.lt_succ_self _
  · exact Nat.lt_succ_self _

def Masks (p : List UInt8) : Prop := ∀ b ∈ p.takeWhile plain, b = redacted

theorem masks_replicate (n : ℕ) (p : List UInt8) : Masks (List.replicate n redacted ++ p) ↔ Masks p := by
  rw [Masks, List.takeWhile_append_of_pos plain_of_mem_replicate]
  constructor
  · intro h b hb
    exact h b (List.mem_append_right _ hb)
  · intro h b hb
    rcases List.mem_append.mp hb with hb | hb
    · exact List.eq_of_mem_replicate hb
    · exact h b hb

theorem masks_delimiter {d : UInt8} (hd : isValueDelimiter d = true) (p : List UInt8) : Masks (d :: p) := by
  intro b hb
  rw [List.takeWhile_cons_of_neg (by rw [plain, hd]; decide)] at hb
  cases hb

theorem masks_cons {b : UInt8} (hb : isValueDelimiter b = false) (p : List UInt8) :
    Masks (b :: p) ↔ b = redacted ∧ Masks p := by
  rw [Masks, List.takeWhile_cons_of_pos (by rw [plain, hb]; rfl)]
  exact List.forall_mem_cons

theorem blank_token {w : List UInt8} {stop : ℕ} (h : liveTokenEnd w = some stop) (hidden : Bool) :
    blank hidden w = blank hidden (w.drop stop) := by
  cases w with
  | nil =>
    have := liveTokenEnd_bounds h
    rw [List.length_nil] at this
    omega
  | cons b rest => rw [blank, h]

theorem blank_delimiter {d : UInt8} (hd : isValueDelimiter d = true) (hidden : Bool) (w : List UInt8) :
    blank hidden (d :: w) = true := by
  rw [blank, liveTokenEnd_of_noCredential (credentialAt_still (still_of_delimiter hd) w)]
  exact if_pos hd

theorem blank_hidden {b : UInt8} {w : List UInt8} {hidden : Bool} (hlive : liveTokenEnd (b :: w) = none)
    (hb : isValueDelimiter b = false)
    (hhidden : ((hidden && isCredentialTokenChar b) || credentialAt (b :: w)) = true) :
    blank hidden (b :: w) = blank true w := by
  rw [blank, hlive]
  dsimp only
  rw [if_neg (by rw [hb]; exact nofun), if_pos hhidden]

theorem blank_shown {b : UInt8} {w : List UInt8} {hidden : Bool} (hlive : liveTokenEnd (b :: w) = none)
    (hb : isValueDelimiter b = false)
    (hshown : ((hidden && isCredentialTokenChar b) || credentialAt (b :: w)) = false) :
    blank hidden (b :: w) = (b == redacted && blank false w) := by
  rw [blank, hlive]
  dsimp only
  rw [if_neg (by rw [hb]; exact nofun), if_neg (by rw [hshown]; exact nofun)]

theorem not_delimiter_of_token {b : UInt8} (h : isCredentialTokenChar b = true) : isValueDelimiter b = false := by
  by_contra hd
  rw [not_tokenChar_of_still (still_of_delimiter (Bool.not_eq_false _ ▸ hd))] at h
  cases h

theorem blank_tokenChars {u r : List UInt8} (htoken : ∀ b ∈ u, isCredentialTokenChar b = true)
    (hfree : ∀ t, t <:+ u → t ≠ [] → credentialAt (t ++ r) = false) : blank true (u ++ r) = blank true r := by
  induction u with
  | nil => rfl
  | cons b u ih =>
    have hb := htoken b List.mem_cons_self
    have hcred := hfree (b :: u) (List.suffix_refl _) nofun
    rw [List.cons_append] at hcred ⊢
    rw [blank_hidden (liveTokenEnd_of_noCredential hcred) (not_delimiter_of_token hb) (by rw [hb]; rfl)]
    exact ih (fun c hc => htoken c (List.mem_cons_of_mem b hc)) fun t ht => hfree t (ht.trans (List.suffix_cons b u))

theorem blank_stop {c : UInt8} {w : List UInt8} {hidden : Bool} (hc : isValueDelimiter c = false)
    (hmask : c ≠ redacted) (htoken : (hidden && isCredentialTokenChar c) = false)
    (hcred : credentialAt (c :: w) = false) : blank hidden (c :: w) = false := by
  rw [blank_shown (liveTokenEnd_of_noCredential hcred) hc (by rw [htoken, hcred]; rfl), beq_eq_false_iff_ne.mpr hmask]
  rfl

theorem ne_redacted_of_inert {c : UInt8} (hc : inert c = true) : c ≠ redacted := by
  rintro rfl
  exact absurd hc (by decide)

theorem blank_listed {w q u g v : List UInt8} {start stop : ℕ} (found : ValueAt w start stop q u g v)
    (hq : Listed q) {o : List UInt8} (ho : Rewrites .new (w.drop stop) o) (hidden : Bool) :
    Masks (redactFrom hidden (w.take start ++ List.replicate (stop - start) redacted ++ o)) ↔
      blank hidden w = true := by
  have hwhole : blank hidden w = blank hidden (u ++ (g ++ (v ++ w.drop stop))) := congrArg _ found.whole
  rw [found.emitted hq ho, hwhole]
  have hfree : ∀ t, t <:+ u → t ≠ [] → credentialAt (t ++ (g ++ (v ++ w.drop stop))) = false :=
    fun t ht hne => found.no_credential hq ht hne _
  cases hidden with
  | true =>
    obtain ⟨c, g, rfl, hc⟩ := found.gap_head
    rw [if_pos rfl, masks_replicate, blank_tokenChars (found.token_name hq) hfree, List.cons_append, List.cons_append]
    by_cases hd : isValueDelimiter c = true
    · exact ⟨fun _ => blank_delimiter hd true _, fun _ => masks_delimiter hd _⟩
    · rw [Bool.not_eq_true] at hd
      rw [masks_cons hd, blank_stop hd (ne_redacted_of_inert hc)
        (by rw [not_tokenChar_of_still (still_of_inert hc)]; rfl) (credentialAt_still (still_of_inert hc) _)]
      exact ⟨fun h => absurd h.1 (ne_redacted_of_inert hc), nofun⟩
  | false =>
    obtain ⟨a, b, u, rfl, ha, hb⟩ : ∃ a b u', u = a :: b :: u' ∧ isCredentialTokenChar a = true ∧
        isCredentialTokenChar b = true ∧ b ≠ redacted := by
      obtain ⟨a, b, k, hk, hquiet, -⟩ := (key_word hq.key).shape
      have hname := (found.lowered_name hq).trans hk
      have htoken := found.token_name hq
      match u, hname, htoken with
      | a' :: b' :: u', hname, htoken =>
        refine ⟨a', b', u', rfl, htoken a' List.mem_cons_self,
          htoken b' (List.mem_cons_of_mem _ List.mem_cons_self), ?_⟩
        rintro rfl
        rw [← (List.cons_eq_cons.mp (List.cons_eq_cons.mp hname).2).1] at hquiet
        exact absurd hquiet (by decide)
    have hhead := hfree _ (List.suffix_refl _) nofun
    have hnext := hfree _ (List.suffix_cons a _) nofun
    rw [List.cons_append, List.cons_append] at hhead
    rw [List.cons_append] at hnext
    rw [if_neg nofun, List.cons_append, List.cons_append, List.cons_append, masks_cons (not_delimiter_of_token ha),
      masks_cons (not_delimiter_of_token hb.1), List.cons_append,
      blank_shown (liveTokenEnd_of_noCredential hhead) (not_delimiter_of_token ha) (by rw [hhead]; rfl),
      blank_stop (not_delimiter_of_token hb.1) hb.2 rfl hnext, Bool.and_false]
    exact ⟨fun h => absurd h.2.1 hb.2, nofun⟩

theorem blank_marked {u s r o : List UInt8} (h : Marked (lowered u) (lowered s)) (hidden : Bool) :
    Masks (redactFrom hidden (u ++ s ++ o)) ↔ blank hidden (u ++ r) = true := by
  cases hidden with
  | true =>
    obtain ⟨c, rest, hc, htoken, hplain⟩ := h.breaks_at
    have hsplit : u = u.takeWhile isCredentialTokenChar ++ c :: rest := by
      rw [← hc, List.takeWhile_append_dropWhile]
    have hmask : c ≠ redacted := by
      rintro rfl
      exact absurd htoken (by decide)
    have hcred := @Marked.no_credential u s h (c :: rest) (hc ▸ List.dropWhile_suffix _) nofun r
    have hrun : blank true (u ++ r) = blank true (c :: rest ++ r) := by
      nth_rewrite 1 [hsplit]
      rw [List.append_assoc]
      apply blank_tokenChars fun b hb => List.mem_takeWhile_imp hb
      intro t ht hne
      have hends : t ++ c :: rest <:+ u := by
        obtain ⟨l, hl⟩ := ht
        refine ⟨l, ?_⟩
        rw [← List.append_assoc, hl]
        exact hsplit.symm
      have hfree := h.no_credential hends (List.append_ne_nil_of_left_ne_nil hne _) r
      rwa [List.append_assoc] at hfree
    rw [List.cons_append] at hcred
    rw [h.emitted_hidden, masks_replicate, hc, hrun, List.cons_append, List.cons_append, List.cons_append,
      masks_cons hplain, blank_stop hplain hmask (by rw [htoken]; rfl) hcred]
    exact ⟨fun h => absurd h.1 hmask, nofun⟩
  | false =>
    obtain ⟨a, ha, hplain, hmask⟩ := h.plain
    obtain ⟨b, u, rfl, rfl⟩ : ∃ b u', u = b :: u' ∧ a = toAsciiLowercase b := by
      cases u with
      | nil => cases ha
      | cons b u => exact ⟨b, u, rfl, (Option.some_inj.mp ha).symm⟩
    rw [isValueDelimiter_lower] at hplain
    have hne : b ≠ redacted := by
      rintro rfl
      exact hmask rfl
    have hcred := h.no_credential (List.suffix_refl _) nofun r
    rw [List.cons_append] at hcred
    rw [h.kept (List.suffix_refl _), List.cons_append, List.cons_append, List.cons_append, masks_cons hplain,
      blank_stop hplain hne rfl hcred]
    exact ⟨fun h => absurd h.1 hne, nofun⟩

theorem masks_iff_blank {w o : List UInt8} (h : Rewrites .new w o) (hidden : Bool) :
    Masks (redactFrom hidden o) ↔ blank hidden w = true := by
  induction h generalizing hidden with
  | done =>
    rw [blank]
    exact ⟨fun _ => rfl, fun _ => nofun⟩
  | token live _ ih => rw [redactFrom_masks, masks_replicate, ih, blank_token live]
  | @idle b w o live _ rest ih =>
    by_cases hd : isValueDelimiter b = true
    · rw [redactFrom_still (still_of_delimiter hd), blank_delimiter hd]
      exact ⟨fun _ => rfl, fun _ => masks_delimiter hd _⟩
    · rw [Bool.not_eq_true] at hd
      have hcred := credentialAt_idle (b := b) rest
      cases hb : ((hidden && isCredentialTokenChar b) || credentialAt (b :: o)) with
      | true =>
        rw [redactFrom_hidden hb, blank_hidden live hd (hcred ▸ hb), ← ih]
        exact masks_replicate 1 _
      | false =>
        rw [redactFrom_shown hb, blank_shown live hd (hcred ▸ hb), masks_cons hd, ih, Bool.and_eq_true, beq_iff_eq]
  | value live matched strategy rest =>
    obtain ⟨hmem, hrange⟩ := matchingRule_some matched
    obtain ⟨hsep, hlisted⟩ := listed_of_rule hmem strategy
    obtain ⟨u, g, v, found⟩ := valueAt_of_valueRange hrange hsep
    exact blank_listed found hlisted rest hidden
  | @canonical w o _ start _ _ _ matched strategy =>
    have hblank := @blank_marked _ _ (w.drop start) o (marked_of_match matched strategy) hidden
    rwa [List.take_append_drop] at hblank
  | @canonicalCut w o _ start _ _ _ matched strategy =>
    have hblank := @blank_marked _ _ (w.drop start) o (marked_of_match matched strategy) hidden
    rwa [List.take_append_drop] at hblank

def KeySettled (k p : List UInt8) : Prop :=
  k <+: lowered p → ∀ tail, valueTail false (p.drop k.length) = some tail → Masks tail

theorem covered_eq_true {k w : List UInt8} (hlower : lowered k = k) (hscheme : isAuthorization k = false) :
    covered k w = true ↔
      (k <+: lowered w → ∀ tail, valueTail false (w.drop k.length) = some tail → blank false tail = true) := by
  rw [covered, Bool.or_eq_true, Bool.not_eq_true']
  by_cases hpattern : patternAt w k = true
  · have htail := parseValueStart_tail hpattern
    rw [hscheme] at htail
    rw [← hlower, ← patternAt_iff, hlower, ← htail]
    simp only [hpattern, Bool.true_eq_false, false_or, true_imp_iff]
    cases parseValueStart w k with
    | none => simp
    | some found => simp
  · rw [patternAt_iff, hlower] at hpattern
    refine ⟨fun _ hpre => absurd hpre hpattern, fun _ => .inl ?_⟩
    rw [← Bool.not_eq_true, patternAt_iff, hlower]
    exact hpattern

theorem keySettled_iff {k w p : List UInt8} (hsafe : Safe k) (h : Reads false w p) : KeySettled k p ↔
    (k <+: lowered w → ∀ tail, valueTail false (w.drop k.length) = some tail → blank false tail = true) := by
  have hvalue : ∀ {w p}, Reads false w p → (Masks p ↔ blank false w = true) := by
    rintro w _ ⟨o, ho, rfl⟩
    exact masks_iff_blank ho false
  constructor
  · intro hkey hpre tail htail
    obtain ⟨hp, hreads⟩ := reads_on hsafe h hpre (valueTail_opens htail)
    rcases valueTail_related sameGaps_reads hreads with ⟨hnone, -⟩ | ⟨t, t', ht, ht', hread⟩
    · rw [hnone] at htail
      cases htail
    · rw [ht] at htail
      cases htail
      exact (hvalue hread).mp (hkey hp t' ht')
  · intro hkey hpre tail htail
    obtain ⟨hw, hreads⟩ := reads_back hsafe h (fun _ => rfl) hpre (valueTail_opens htail)
    rcases valueTail_related sameGaps_reads hreads with ⟨-, hnone⟩ | ⟨t, t', ht, ht', hread⟩
    · rw [hnone] at htail
      cases htail
    · rw [ht'] at htail
      cases htail
      exact (hvalue hread).mpr (hkey hw t ht)

def RuleHas (key : List UInt8) : Prop :=
  ∃ rule ∈ SanitizationContext.new.rules, rule.pattern = key ∧ rule.expectSeparator = true

instance (key : List UInt8) : Decidable (RuleHas key) := inferInstanceAs (Decidable (∃ _ ∈ _, _))

theorem key_kinds : ∀ key ∈ sensitiveKeys, (Safe key.tail ∧ RuleHas key) ∨
    (∃ j ∈ List.range key.length, 0 < j ∧ key.drop j ∈ sensitiveKeys) ∨
    key = asBytes "webhook_key" ∨ key = asBytes "private_key" := by
  decide +kernel

theorem unlisted_key : ∀ key ∈ ["webhook_key", "private_key"].map asBytes,
    key ∈ sensitiveKeys ∧ lowered key = key ∧ isAuthorization key = false ∧ Safe key.tail := by
  decide +kernel

theorem masked_key : Safe (asBytes "-api-key") ∧ lowered (asBytes "-api-key") = asBytes "-api-key" ∧
    isAuthorization (asBytes "-api-key") = false ∧ 0x78 :: asBytes "-api-key" ∈ sensitiveKeys ∧
    ∀ key ∈ sensitiveKeys, key.head? = some 0x78 → key = 0x78 :: asBytes "-api-key" ∧ isAuthorization key = false := by
  decide +kernel

theorem valueTail_isSome (r : List UInt8) : (valueTail true r).isSome = (valueTail false r).isSome := by
  unfold valueTail
  split
  · rfl
  · split <;> rfl

theorem not_unmatched {rule : SanitizationRule} {w : List UInt8} (hmem : rule ∈ SanitizationContext.new.rules)
    (hsep : rule.expectSeparator = true) (hpattern : patternAt w rule.pattern = true)
    (htail : (valueTail (isAuthorization rule.pattern) (w.drop rule.pattern.length)).isSome = true) :
    matchingRule .new w ≠ none := by
  intro hnone
  have hrule := List.findSome?_eq_none_iff.mp hnone rule hmem
  rw [Option.map_eq_none_iff, valueRange, if_pos hpattern, if_pos hsep, Option.map_eq_none_iff] at hrule
  have hsome := separatedValue_tail w rule.pattern.length rule.pattern
  rw [hrule] at hsome
  rw [← hsome] at htail
  cases htail

theorem keyHead_listed {b : UInt8} {w p key : List UInt8} (hkey : key ∈ sensitiveKeys) (hsafe : Safe key.tail)
    (hrule : RuleHas key) (hunmatched : matchingRule .new (b :: w) = none) (h : Reads false w p)
    (hpre : key <+: lowered (b :: p)) {tail : List UInt8} :
    valueTail (isAuthorization key) ((b :: p).drop key.length) ≠ some tail := by
  intro htail
  obtain ⟨a, c, k, rfl, -⟩ := (key_word hkey).shape
  obtain ⟨rule, hmem, hpattern, hsep⟩ := hrule
  obtain ⟨ha, hpre'⟩ := List.cons_prefix_cons.mp hpre
  obtain ⟨hw, hreads⟩ := reads_back hsafe h (fun _ => rfl) hpre' (valueTail_opens htail)
  refine not_unmatched hmem hsep ?_ ?_ hunmatched
  · rw [hpattern, patternAt_key hkey]
    exact List.cons_prefix_cons.mpr ⟨ha, hw⟩
  · have hsome : (valueTail false ((b :: p).drop (a :: c :: k).length)).isSome = true := by
      have := congrArg Option.isSome htail
      cases hs : isAuthorization (a :: c :: k) with
      | true => rw [hs, valueTail_isSome] at this; exact this
      | false => rw [hs] at this; exact this
    have hback : (valueTail false ((b :: w).drop (a :: c :: k).length)).isSome = true := by
      rcases valueTail_related sameGaps_reads hreads with ⟨-, hnone⟩ | ⟨t, t', ht, -, -⟩
      · have hnone' : valueTail false ((b :: p).drop (a :: c :: k).length) = none := hnone
        rw [hnone'] at hsome
        cases hsome
      · exact congrArg Option.isSome ht
    rw [hpattern]
    cases isAuthorization (a :: c :: k) with
    | true => rw [valueTail_isSome]; exact hback
    | false => exact hback

theorem keyHead_compound {b : UInt8} {p key : List UInt8} {j : ℕ} (hkey : key ∈ sensitiveKeys) (hpos : 0 < j)
    (hj : j < key.length) (hend : key.drop j ∈ sensitiveKeys)
    (hsettled : ∀ t, t <:+ p → t ≠ [] → patternAt t (key.drop j) = true → ∀ tail,
      valueTail (isAuthorization (key.drop j)) (t.drop (key.drop j).length) = some tail → Masks tail)
    (hpre : key <+: lowered (b :: p)) {tail : List UInt8}
    (htail : valueTail (isAuthorization key) ((b :: p).drop key.length) = some tail) : Masks tail := by
  have hdrop : key.drop j <+: lowered ((b :: p).drop j) := by
    rw [lowered_drop]
    exact hpre.drop j
  obtain ⟨i, rfl⟩ := Nat.exists_eq_succ_of_ne_zero hpos.ne'
  have hne : p.drop i ≠ [] := by
    intro hnil
    rw [List.drop_succ_cons, hnil] at hdrop
    exact (key_word hend).not_at_nil hdrop
  refine hsettled _ (List.drop_suffix i p) hne ((patternAt_key hend).mpr hdrop) tail ?_
  have hlen : i + (key.drop (i + 1)).length = key.length - 1 := by
    rw [List.length_drop]
    omega
  have hwhole : (b :: p).drop key.length = p.drop (key.length - 1) := by
    obtain ⟨m, hm⟩ := Nat.exists_eq_succ_of_ne_zero (Nat.ne_of_gt (Nat.zero_lt_of_lt hj))
    rw [hm]
    rfl
  rw [key_scheme hkey hend (List.drop_suffix _ _), List.drop_drop, Nat.succ_eq_add_one, hlen, ← hwhole]
  exact htail

theorem keyHead_unlisted {b : UInt8} {w p key : List UInt8} (hkey : key ∈ ["webhook_key", "private_key"].map asBytes)
    (h : Reads false w p) : KeySettled key (b :: p) ↔ covered key (b :: w) = true := by
  obtain ⟨hmem, hlower, hscheme, hsafe⟩ := unlisted_key key hkey
  obtain ⟨a, c, k, rfl, -⟩ := (key_word hmem).shape
  rw [covered_eq_true hlower hscheme]
  have htail := keySettled_iff hsafe h
  constructor
  · intro hsettled hpre
    obtain ⟨ha, hpre'⟩ := List.cons_prefix_cons.mp hpre
    exact htail.mp (fun hp => hsettled (List.cons_prefix_cons.mpr ⟨ha, hp⟩)) hpre'
  · intro hcovered hpre
    obtain ⟨ha, hpre'⟩ := List.cons_prefix_cons.mp hpre
    exact htail.mpr (fun hw => hcovered (List.cons_prefix_cons.mpr ⟨ha, hw⟩)) hpre'

theorem headSettled_idle {b : UInt8} {w p : List UInt8} (hunmatched : matchingRule .new (b :: w) = none)
    (h : Reads false w p) (hsettled : Settled p) : HeadSettled (b :: p) ↔
      covered (asBytes "webhook_key") (b :: w) = true ∧ covered (asBytes "private_key") (b :: w) = true := by
  have hwebhook : asBytes "webhook_key" ∈ ["webhook_key", "private_key"].map asBytes := List.mem_cons_self
  have hprivate : asBytes "private_key" ∈ ["webhook_key", "private_key"].map asBytes :=
    List.mem_cons_of_mem _ List.mem_cons_self
  have hkey : HeadSettled (b :: p) → ∀ key ∈ ["webhook_key", "private_key"].map asBytes, KeySettled key (b :: p) := by
    intro hhead key hmem hpre tail htail
    obtain ⟨hkey, -, hscheme, -⟩ := unlisted_key key hmem
    exact hhead key hkey ((patternAt_key hkey).mpr hpre) tail (hscheme.symm ▸ htail)
  rw [← keyHead_unlisted hwebhook h, ← keyHead_unlisted hprivate h]
  constructor
  · intro hhead
    exact ⟨hkey hhead _ hwebhook, hkey hhead _ hprivate⟩
  · rintro ⟨hw, hp⟩ key hmem hpattern tail htail
    have hpre := (patternAt_key hmem).mp hpattern
    rcases key_kinds key hmem with ⟨hsafe, hrule⟩ | ⟨j, hj, hpos, hend⟩ | rfl | rfl
    · exact absurd htail (keyHead_listed hmem hsafe hrule hunmatched h hpre)
    · exact keyHead_compound hmem hpos (List.mem_range.mp hj) hend (fun t ht hne => hsettled t ht hne _ hend) hpre htail
    · rw [(unlisted_key _ hwebhook).2.2.1] at htail
      exact hw hpre tail htail
    · rw [(unlisted_key _ hprivate).2.2.1] at htail
      exact hp hpre tail htail

theorem head_hidden (o : List UInt8) : ∀ c ∈ (redactFrom true o).head?, toAsciiLowercase c ≠ 0x2D := by
  intro c hc hlower
  cases o with
  | nil => cases hc
  | cons b o =>
    cases hb : ((true && isCredentialTokenChar b) || credentialAt (b :: o)) with
    | true =>
      rw [redactFrom_hidden hb] at hc
      cases hc
      exact absurd hlower (by decide)
    | false =>
      rw [redactFrom_shown hb] at hc
      cases hc
      rw [Bool.true_and, Bool.or_eq_false_iff, ← isCredentialTokenChar_lower, hlower] at hb
      exact absurd hb.1 (by decide)

theorem headSettled_token {hidden : Bool} {w o : List UInt8} (h : Rewrites .new w o) :
    HeadSettled (redacted :: redactFrom hidden o) ↔ (hidden || covered (asBytes "-api-key") w) = true := by
  obtain ⟨hsafe, hlower, hscheme, hmem, honly⟩ := masked_key
  cases hidden with
  | true => exact ⟨fun _ => rfl, fun _ => @headSettled_masks 0 _ (head_hidden o)⟩
  | false =>
    rw [Bool.false_or, covered_eq_true hlower hscheme, ← keySettled_iff hsafe ⟨o, h, rfl⟩]
    have hfull : isAuthorization (0x78 :: asBytes "-api-key") = false := (honly _ hmem rfl).2
    constructor
    · intro hhead hpre tail htail
      refine hhead _ hmem ((patternAt_key hmem).mpr (List.cons_prefix_cons.mpr ⟨rfl, hpre⟩)) tail ?_
      rw [hfull]
      exact htail
    · intro hkey key hin hpattern tail htail
      have hpre := (patternAt_key hin).mp hpattern
      obtain ⟨a, c, k, hshape, -⟩ := (key_word hin).shape
      have ha : key.head? = some 0x78 := by
        rw [hshape] at hpre ⊢
        exact congrArg some (List.cons_prefix_cons.mp hpre).1
      obtain ⟨rfl, hnone⟩ := honly key hin ha
      rw [hnone] at htail
      exact hkey (List.cons_prefix_cons.mp hpre).2 tail htail

theorem settles_matched {w : List UInt8} {rule : SanitizationRule} {start stop : ℕ} (hlive : liveTokenEnd w = none)
    (h : matchingRule .new w = some (rule, start, stop)) (hidden : Bool) :
    settles hidden w = settles false (leftAhead rule w start stop) := by
  have hlt := length_leftAhead h
  obtain ⟨b, rest, rfl⟩ := List.exists_cons_of_length_pos (Nat.zero_lt_of_lt hlt)
  rw [settles, hlive]
  dsimp only
  rw [h]

theorem settled_iff {w o : List UInt8} (h : Rewrites .new w o) (hidden : Bool) :
    Settled (redactFrom hidden o) ↔ settles hidden w = true := by
  induction h generalizing hidden with
  | done =>
    rw [settles]
    exact ⟨fun _ => rfl, fun _ t ht hne => absurd (List.suffix_nil.mp ht) hne⟩
  | @token w o stop live rest ih =>
    obtain ⟨hpos, hle⟩ := liveTokenEnd_bounds live
    obtain ⟨m, rfl⟩ := Nat.exists_eq_succ_of_ne_zero (Nat.ne_of_gt (Nat.lt_of_lt_of_le (by decide) hpos))
    obtain ⟨b, w, rfl⟩ := List.exists_cons_of_length_pos (Nat.lt_of_lt_of_le (Nat.succ_pos m) hle)
    have hrun : Settled (List.replicate m redacted ++ (redacted :: redactFrom hidden o)) ↔
        Settled (redacted :: redactFrom hidden o) := by
      apply settled_append
      intro t ht hne
      obtain ⟨n, rfl⟩ := masks_of_suffix ht hne
      apply headSettled_masks
      rintro c ⟨⟩
      decide
    rw [redactFrom_masks, Nat.succ_eq_add_one, List.replicate_succ', List.append_assoc, List.singleton_append, hrun,
      settled_cons, headSettled_token rest, ih, settles, live, Bool.and_eq_true]
  | @idle b w o live unmatched rest ih =>
    have hcred := credentialAt_idle (b := b) rest
    rw [settles, live]
    dsimp only
    rw [unmatched]
    dsimp only
    cases hb : ((hidden && isCredentialTokenChar b) || credentialAt (b :: o)) with
    | true =>
      rw [redactFrom_hidden hb, if_pos (hcred ▸ hb), settled_cons, ih]
      exact and_iff_right (@headSettled_masks 0 _ (head_hidden o))
    | false =>
      rw [redactFrom_shown hb, if_neg (by rw [← hcred, hb]; exact nofun), settled_cons, Bool.and_eq_true,
        Bool.and_eq_true, ← ih]
      exact and_congr_left fun hsettled => headSettled_idle unmatched ⟨o, rest, rfl⟩ hsettled
  | @value w o rule start stop live matched strategy rest ih =>
    obtain ⟨hmem, hrange⟩ := matchingRule_some matched
    obtain ⟨hsep, hlisted⟩ := listed_of_rule hmem strategy
    obtain ⟨u, g, v, found⟩ := valueAt_of_valueRange hrange hsep
    rw [found.settled_emitted hlisted rest, ih, settles_matched live matched, leftAhead, strategy]
  | @canonical w o rule start stop s live matched strategy fits rest ih =>
    rw [(marked_of_match matched strategy).settled_emitted, ih, settles_matched live matched, leftAhead, strategy]
    dsimp only
    rw [if_neg (Nat.not_lt.mpr fits)]
  | @canonicalCut w o rule start stop s live matched strategy longer rest ih =>
    rw [(marked_of_match matched strategy).settled_emitted, ih, settles_matched live matched, leftAhead, strategy]
    dsimp only
    rw [if_pos longer]

theorem new_pattern_ne : ∀ rule ∈ SanitizationContext.new.rules, rule.pattern ≠ [] := by
  intro rule hrule hnil
  obtain ⟨a, ha, -⟩ := mark_head _ (List.mem_append_left _ (List.mem_map_of_mem hrule))
  rw [hnil] at ha
  cases ha

theorem sanitized_seed_accepted_iff (seed : CaseSeed) : ∃ shared, sanitizeSeedForSharing seed = some shared ∧
    ((checkSeedSanitization [shared]).warnings = [] ↔ settles false seed.payload = true) := by
  obtain ⟨out, report, hout⟩ := sanitize_returns new_pattern_ne seed.payload
  obtain ⟨o, ho, rfl⟩ := sanitize_rewrites hout
  refine ⟨⟨seed.id, redactInlineCredentialTokens o⟩, ?_, ?_⟩
  · rw [sanitizeSeedForSharing, sanitizeSeedWithContext, hout]
    rfl
  · rw [checkSeedSanitization_warnings_iff, List.forall_mem_singleton, redactInlineCredentialTokens_eq,
      sanitizePayloadFragments_eq_iff (noCredential_redactFrom false o), settled_iff ho]

theorem private_key_still_warned :
    (sanitizeSeedForSharing ⟨7, asBytes "private_key=abc"⟩).map (fun shared =>
      (checkSeedSanitization [shared]).isCompatible) = some false := by
  decide +kernel

end CrashLab.SanitizerAgreement
