import CrashLab.SanitizerAgreement

namespace CrashLab.SanitizerFixpoint

open FixtureSanitize SanitizedWindows SecretSplices ValueGaps SettledPayloads RedactedReadings SanitizerAgreement
open SignatureHash

/-- Whether a second pass finds nothing to do in the payload, from `w` on, when the first has gone over it: no
pattern with a sentinel behind it stays in sight, and no value is left behind an `x-api-key` whose first letter is
the mask of a token just before it. -/
def stable (hidden : Bool) (w : List UInt8) : Bool :=
  match w with
  | [] => true
  | b :: rest =>
    match _hlive : liveTokenEnd (b :: rest) with
    | some stop =>
      (hidden || covered (asBytes "-api-key") ((b :: rest).drop stop)) && stable hidden ((b :: rest).drop stop)
    | none =>
      match _hrule : matchingRule .new (b :: rest) with
      | some (rule, start, stop) =>
        (rule.strategy == .replaceWithX || (hidden && isCredentialTokenChar b)) &&
          stable false (leftAhead rule (b :: rest) start stop)
      | none => stable ((hidden && isCredentialTokenChar b) || credentialAt (b :: rest)) rest
termination_by w.length
decreasing_by
  · have := liveTokenEnd_bounds _hlive
    rw [List.length_drop, List.length_cons]
    omega
  · exact length_leftAhead _hrule
  · exact Nat.lt_succ_self _

structure Sign (q : List UInt8) : Prop where
  mark : q ∈ marks
  fresh : 0x78 ∉ q
  head : ∃ a ∈ q.head?, a ∉ asBytes "bearer "
  second : ∃ b ∈ q.tail.head?, isValueDelimiter b = false
  closed : ∀ y ∈ q.tail.tails, y ≠ [] → ∀ m ∈ marks, ¬m <+: y
  names : ∀ rule ∈ SanitizationContext.new.rules, rule.strategy = .replaceWithX → ∀ y ∈ (lowered rule.pattern).tails,
    y ≠ [] → ¬q <+: y ∧ (y <+: q → ∀ c ∈ (q.drop y.length).head?, inert c = false)
  sentinels : ∀ rule ∈ SanitizationContext.new.rules, ∀ s ∈ ["[HOST]", "[PATH]"],
    rule.strategy = .replaceWithCanonical s →
      ∀ y ∈ (lowered rule.pattern ++ lowered (asBytes s)).tail.tails, y ≠ [] → Apart q y

section Table

variable {rule : SanitizationRule} (h : rule ∈ SanitizationContext.new.rules) (hstrategy : rule.strategy ≠ .replaceWithX)
include h hstrategy

theorem sign_bytes : lowered rule.pattern ∈ marks ∧ 0x78 ∉ lowered rule.pattern ∧
    (∃ a ∈ (lowered rule.pattern).head?, a ∉ asBytes "bearer ") ∧
    ∃ b ∈ (lowered rule.pattern).tail.head?, isValueDelimiter b = false := by
  revert rule
  decide +kernel

theorem sign_closed : ∀ y ∈ (lowered rule.pattern).tail.tails, y ≠ [] → ∀ m ∈ marks, ¬m <+: y := by
  revert rule
  decide +kernel

theorem sign_names : ∀ name ∈ SanitizationContext.new.rules, name.strategy = .replaceWithX →
    ∀ y ∈ (lowered name.pattern).tails, y ≠ [] → ¬lowered rule.pattern <+: y ∧
      (y <+: lowered rule.pattern → ∀ c ∈ ((lowered rule.pattern).drop y.length).head?, inert c = false) := by
  revert rule
  decide +kernel

theorem sign_sentinels : ∀ other ∈ SanitizationContext.new.rules, ∀ s ∈ ["[HOST]", "[PATH]"],
    other.strategy = .replaceWithCanonical s →
      ∀ y ∈ (lowered other.pattern ++ lowered (asBytes s)).tail.tails, y ≠ [] → Apart (lowered rule.pattern) y := by
  revert rule
  decide +kernel

theorem sign_of_rule : Sign (lowered rule.pattern) := by
  obtain ⟨hmark, hfresh, hhead, hsecond⟩ := sign_bytes h hstrategy
  exact ⟨hmark, hfresh, hhead, hsecond, sign_closed h hstrategy, sign_names h hstrategy, sign_sentinels h hstrategy⟩

end Table

namespace Sign

variable {q : List UInt8} (sign : Sign q)
include sign

theorem shape : ∃ a b rest, q = a :: b :: rest ∧ a ≠ redacted ∧ a ∉ asBytes "bearer " ∧ b ≠ redacted ∧
    isValueDelimiter b = false := by
  obtain ⟨a, ha, hbearer⟩ := sign.head
  obtain ⟨b, hb, hplain⟩ := sign.second
  have hfresh := sign.fresh
  obtain ⟨q, rfl⟩ := List.head?_eq_some_iff.mp (Option.mem_def.mp ha)
  obtain ⟨rest, rfl⟩ := List.head?_eq_some_iff.mp (Option.mem_def.mp hb)
  refine ⟨a, b, rest, rfl, ?_, hbearer, ?_, hplain⟩
  · rintro rfl
    exact hfresh List.mem_cons_self
  · rintro rfl
    exact hfresh (List.mem_cons_of_mem a List.mem_cons_self)

theorem not_at_mask (p : List UInt8) : ¬q <+: lowered (redacted :: p) := by
  obtain ⟨a, b, rest, rfl, ha, -⟩ := sign.shape
  intro hpre
  exact ha (List.cons_prefix_cons.mp hpre).1

theorem not_at_still {b : UInt8} (hb : still b = true) (p : List UInt8) : ¬q <+: lowered (b :: p) :=
  not_mark_at_still hb sign.mark

theorem not_before_mask {d : UInt8} {p : List UInt8} (h : ∀ c ∈ p.head?, c = redacted ∨ isValueDelimiter c = true) :
    ¬q <+: lowered (d :: p) := by
  obtain ⟨a, b, rest, rfl, -, -, hb, hplain⟩ := sign.shape
  intro hpre
  have hrest := (List.cons_prefix_cons.mp hpre).2
  cases p with
  | nil => exact absurd (List.prefix_nil.mp hrest) nofun
  | cons c p =>
    have hc := (List.cons_prefix_cons.mp hrest).1
    rcases h c rfl with rfl | hd
    · exact hb hc
    · rw [hc, isValueDelimiter_lower, hd] at hplain
      cases hplain

theorem not_at_bearer {g r t : List UInt8} (hg : Bearer g r) (ht : t <:+ g) (hne : t ≠ [])
    (hr : ∀ c ∈ r.head?, c = redacted ∨ isValueDelimiter c = true) : ¬q <+: lowered (t ++ r) := by
  rcases bearer_suffix hg ht hne with ⟨y, hy, hy', hpre⟩ | ⟨b, rfl⟩
  · obtain ⟨a, b, rest, rfl, -, ha, -⟩ := sign.shape
    obtain ⟨c, y, rfl⟩ := List.exists_cons_of_ne_nil hy'
    obtain ⟨d, t, rfl⟩ := List.exists_cons_of_ne_nil hne
    have hc := ((List.mem_tails _ _).mp hy).subset (List.mem_cons_self (a := c))
    intro hq
    rw [(List.cons_prefix_cons.mp hpre).1, ← (List.cons_prefix_cons.mp hq).1] at hc
    exact ha hc
  · exact sign.not_before_mask hr

theorem not_at_name {rule : SanitizationRule} (hrule : rule ∈ SanitizationContext.new.rules)
    (hstrategy : rule.strategy = .replaceWithX) {u t r : List UInt8} (hu : lowered u = lowered rule.pattern)
    (ht : t <:+ u) (hne : t ≠ []) (hr : InertHead r) : ¬q <+: lowered (t ++ r) := by
  have hmem : lowered t ∈ (lowered rule.pattern).tails := by
    rw [List.mem_tails, ← hu]
    exact ht.map _
  obtain ⟨hfree, hnext⟩ := sign.names rule hrule hstrategy _ hmem fun hnil => hne (List.map_eq_nil_iff.mp hnil)
  obtain ⟨c, rest, rfl, hc⟩ := hr
  rw [lowered_append]
  intro hpre
  rcases List.prefix_or_prefix_of_prefix hpre (List.prefix_append _ _) with hqt | ⟨l, rfl⟩
  · exact hfree hqt
  · cases l with
    | nil => exact hfree (by rw [List.append_nil])
    | cons a l =>
      have ha := hnext (List.prefix_append _ _) a (by rw [List.drop_left]; rfl)
      rw [(List.cons_prefix_cons.mp ((List.prefix_append_right_inj _).mp hpre)).1, inert_lower, hc] at ha
      cases ha

end Sign

/-- A rule that matches at the head of `t` finds its value masked. -/
def HeadStays (t : List UInt8) : Prop :=
  ∀ rule ∈ SanitizationContext.new.rules, patternAt t rule.pattern = true → rule.strategy = .replaceWithX ∧
    ∀ tail, valueTail (isAuthorization rule.pattern) (t.drop rule.pattern.length) = some tail → Masks tail

def Stays (p : List UInt8) : Prop := ∀ t, t <:+ p → t ≠ [] → HeadStays t

theorem stays_cons {b : UInt8} {p : List UInt8} : Stays (b :: p) ↔ HeadStays (b :: p) ∧ Stays p := forall_suffix_cons

theorem stays_append {s p : List UInt8} (h : ∀ t, t <:+ s → t ≠ [] → HeadStays (t ++ p)) :
    Stays (s ++ p) ↔ Stays p := forall_suffix_append h

theorem headStays_of_settled {t : List UInt8} (hsettled : HeadSettled t) (hsign : ∀ q, Sign q → ¬q <+: lowered t) :
    HeadStays t := by
  intro rule hrule hpattern
  by_cases hstrategy : rule.strategy = .replaceWithX
  · exact ⟨hstrategy, hsettled _ (listed_of_rule hrule hstrategy).2.key hpattern⟩
  · exact absurd (patternAt_iff.mp hpattern) (hsign _ (sign_of_rule hrule hstrategy))

theorem stays_masked {rule : SanitizationRule} (hrule : rule ∈ SanitizationContext.new.rules)
    (hstrategy : rule.strategy = .replaceWithX) {u u' g after : List UInt8} {n : ℕ}
    (hu : lowered u = lowered rule.pattern) (hu' : u' <:+ u)
    (htail : valueTail (isAuthorization rule.pattern) (g ++ (List.replicate n redacted ++ after)) =
      some (List.replicate n redacted ++ after))
    (hafter : ∀ d ∈ after.head?, isValueDelimiter d = true) :
    Stays (u' ++ (g ++ (List.replicate n redacted ++ after))) ↔ Stays after := by
  have hkey := (listed_of_rule hrule hstrategy).2.key
  have hname : lowered u' <:+ rule.pattern := by
    rw [← (key_word hkey).lower, ← hu]
    exact hu'.map _
  have hquiet : ∀ c ∈ (List.replicate n redacted ++ after).head?, c = redacted ∨ isValueDelimiter c = true := by
    intro c hc
    cases n with
    | zero => exact .inr (hafter c hc)
    | succ n =>
      cases hc
      exact .inl rfl
  obtain ⟨g', hg', hgap⟩ := valueTail_gap htail
  obtain rfl : g = g' := List.append_cancel_right hg'
  rw [← List.append_assoc g, ← List.append_assoc u']
  apply stays_append
  intro t ht hne
  apply headStays_of_settled (headSettled_masked hkey hname htail hafter ht hne)
  intro q sign
  rcases masked_cases hgap ht hne with ⟨m, rfl⟩ | ⟨b, t, rfl, hb⟩ | ⟨scheme, y, hbearer, hy, hy', rfl⟩ |
    ⟨y, hy, hy', rfl⟩
  · exact sign.not_at_mask _
  · exact sign.not_at_still (still_of_inert hb) _
  · rw [List.append_assoc]
    exact sign.not_at_bearer hbearer hy hy' hquiet
  · rw [List.append_assoc, List.append_assoc]
    exact sign.not_at_name hrule hstrategy hu (hy.trans hu') hy' (hgap.opens _)

theorem stays_masks {p : List UInt8} (h : ∀ c ∈ p.head?, toAsciiLowercase c ≠ 0x2D) (n : ℕ) :
    Stays (List.replicate n redacted ++ p) ↔ Stays p := by
  apply stays_append
  intro t ht hne
  obtain ⟨m, rfl⟩ := masks_of_suffix ht hne
  exact headStays_of_settled (headSettled_masks h) fun q sign => sign.not_at_mask _

theorem stays_at_value {w u g v : List UInt8} {rule : SanitizationRule} {start stop : ℕ}
    (hrule : rule ∈ SanitizationContext.new.rules) (hstrategy : rule.strategy = .replaceWithX)
    (found : ValueAt w start stop rule.pattern u g v) :
    Stays w ↔ v = List.replicate v.length redacted ∧ Stays (w.drop stop) := by
  have hkey := (listed_of_rule hrule hstrategy).2.key
  have hlen : rule.pattern.length = u.length := by
    rw [← length_lowered rule.pattern, ← found.name, length_lowered]
  have hbehind : w.drop rule.pattern.length = g ++ (v ++ w.drop stop) := by
    conv_lhs => rw [found.whole]
    rw [hlen, List.drop_left]
  have hpattern : patternAt w rule.pattern = true := by
    rw [patternAt_iff, ← found.name, found.whole, lowered_append]
    exact List.prefix_append _ _
  have hvalue : Stays w → v = List.replicate v.length redacted := by
    intro h
    have hne : w ≠ [] := by
      rintro rfl
      exact (key_word hkey).not_at_nil ((patternAt_key hkey).mp hpattern)
    obtain ⟨-, hmasks⟩ := h w (List.suffix_refl w) hne rule hrule hpattern
    have hmask := hmasks _ (hbehind ▸ found.tail)
    rw [Masks, takeWhile_plain found.plain found.delimited] at hmask
    exact List.eq_replicate_of_mem hmask
  have hmasked : v = List.replicate v.length redacted → (Stays w ↔ Stays (w.drop stop)) := by
    intro hmask
    have htail := found.tail
    have hwhole := found.whole
    rw [hmask] at htail hwhole
    have hiff := stays_masked hrule hstrategy found.name (List.suffix_refl u) htail found.delimited
    rwa [← hwhole] at hiff
  constructor
  · intro h
    exact ⟨hvalue h, (hmasked (hvalue h)).mp h⟩
  · rintro ⟨hmask, hrest⟩
    exact (hmasked hmask).mpr hrest

theorem valueRange_none {rule : SanitizationRule} {w : List UInt8} (hmem : rule ∈ SanitizationContext.new.rules)
    (h : matchingRule .new w = none) : valueRange rule w = none :=
  Option.map_eq_none_iff.mp (List.findSome?_eq_none_iff.mp h rule hmem)

theorem sign_unmatched {rule : SanitizationRule} {w : List UInt8} (hmem : rule ∈ SanitizationContext.new.rules)
    (hstrategy : rule.strategy ≠ .replaceWithX) (h : matchingRule .new w = none) :
    patternAt w rule.pattern = false := by
  obtain ⟨s, hs⟩ : ∃ s, rule.strategy = .replaceWithCanonical s := by
    cases hstrat : rule.strategy with
    | replaceWithX => exact absurd hstrat hstrategy
    | replaceWithCanonical s => exact ⟨s, rfl⟩
  have hnone := valueRange_none hmem h
  by_contra hpattern
  rw [Bool.not_eq_false] at hpattern
  rw [valueRange, if_pos hpattern, if_neg (ne_true_of_eq_false (marked_of_rule hmem hs).1)] at hnone
  cases hnone

theorem headStays_unmatched {w : List UInt8} (h : matchingRule .new w = none) : HeadStays w := by
  intro rule hrule hpattern
  by_cases hstrategy : rule.strategy = .replaceWithX
  · refine ⟨hstrategy, fun tail htail => ?_⟩
    exact absurd h (not_unmatched hrule (listed_of_rule hrule hstrategy).1 hpattern (by rw [htail]; rfl))
  · rw [sign_unmatched hrule hstrategy h] at hpattern
    cases hpattern

theorem sentinel_bytes : ∀ s ∈ ["[HOST]", "[PATH]"], (asBytes s).takeWhile plain ++ [0x5D] = asBytes s := by
  decide +kernel

theorem sentinel_of_rule {rule : SanitizationRule} (h : rule ∈ SanitizationContext.new.rules) {s : String}
    (hstrategy : rule.strategy = .replaceWithCanonical s) : s ∈ ["[HOST]", "[PATH]"] := by
  rcases rule_table rule h with ⟨-, hs, -⟩ | ⟨-, s', hmem, hs, -⟩
  · rw [hstrategy] at hs
    cases hs
  · rw [hstrategy] at hs
    cases hs
    exact hmem

theorem rewrites_bracket_ne {r o : List UInt8} (h : Rewrites .new r o) : 0x5D :: redactFrom false o ≠ r := by
  have hbracket : still 0x5D = true := by decide
  induction r generalizing o with
  | nil => exact nofun
  | cons b r ih =>
    intro heq
    obtain ⟨rfl, hrest⟩ := List.cons_eq_cons.mp heq
    rcases rewrites_cases h with ⟨hnil, -⟩ | ⟨c, r', o', hcons, rfl, ho⟩ | ⟨q, hq, hpre, -⟩
    · cases hnil
    · obtain ⟨rfl, rfl⟩ := List.cons_eq_cons.mp hcons
      rw [redactFrom_still hbracket] at hrest
      exact ih ho hrest
    · exact not_mark_at_still hbracket hq hpre

theorem canonical_ne {w o : List UInt8} {rule : SanitizationRule} {start stop : ℕ} {s : String}
    (hmatch : matchingRule .new w = some (rule, start, stop)) (hs : rule.strategy = .replaceWithCanonical s)
    (ho : stop - start ≤ (asBytes s).length → Rewrites .new (w.drop stop) o) :
    redactFrom false (w.take start ++ asBytes s ++ o) ≠ w := by
  obtain ⟨hmem, hrange⟩ := matchingRule_some hmatch
  obtain ⟨quoted, hstop⟩ := valueRange_stop hrange
  rw [(marked_of_match hmatch hs).kept (List.suffix_refl _)]
  intro heq
  have hvalue : asBytes s ++ redactFrom false o = w.drop start := by
    nth_rewrite 2 [← List.take_append_drop start w] at heq
    rw [List.append_assoc] at heq
    exact List.append_cancel_left heq
  have hplain : ∀ b ∈ (asBytes s).takeWhile plain, plain b = true := fun b hb => List.mem_takeWhile_imp hb
  have hsplit : w.drop start = (asBytes s).takeWhile plain ++ 0x5D :: redactFrom false o := by
    rw [← hvalue, ← List.singleton_append, ← List.append_assoc, sentinel_bytes s (sentinel_of_rule hmem hs)]
  have htaken : (w.drop start).takeWhile plain = (asBytes s).takeWhile plain := by
    rw [hsplit]
    exact takeWhile_plain hplain (by rintro d ⟨⟩; decide)
  have hleft : w.drop stop = 0x5D :: redactFrom false o := by
    rw [hstop, valueEnd_eq, ← List.drop_drop, htaken, hsplit, List.drop_left]
  refine rewrites_bracket_ne (ho ?_) hleft.symm
  rw [hstop, valueEnd_eq, htaken, Nat.add_sub_cancel_left]
  exact (List.takeWhile_prefix _).length_le

theorem unchanged_iff {p o : List UInt8} (h : Rewrites .new p o) (hno : NoCredential p) :
    redactFrom false o = p ↔ Stays p := by
  have hmarked : ∀ {w : List UInt8} {rule : SanitizationRule} {start stop : ℕ} {s : String},
      matchingRule .new w = some (rule, start, stop) → rule.strategy = .replaceWithCanonical s → ¬Stays w := by
    intro w rule start stop s hmatch hs h
    obtain ⟨hmem, hrange⟩ := matchingRule_some hmatch
    have hne : w ≠ [] := List.ne_nil_of_length_pos (Nat.zero_lt_of_lt (length_leftAhead hmatch))
    obtain ⟨hx, -⟩ := h w (List.suffix_refl w) hne rule hmem (patternAt_of_valueRange hrange)
    rw [hs] at hx
    cases hx
  induction h with
  | done => exact ⟨fun _ t ht hne => absurd (List.suffix_nil.mp ht) hne, fun _ => rfl⟩
  | token live =>
    have hcred := credentialAt_of_live live
    rw [hno _ (List.suffix_refl _)] at hcred
    cases hcred
  | @idle b w o live unmatched rest ih =>
    have hcred : credentialAt (b :: o) = false := (credentialAt_idle rest).trans (hno _ (List.suffix_refl _))
    have hrest : redactFrom false o = w ↔ Stays w := ih fun t ht => hno t (ht.trans (List.suffix_cons b w))
    rw [redactFrom_shown (by rw [hcred]; rfl), stays_cons, List.cons_inj_right, hrest]
    exact (and_iff_right (headStays_unmatched unmatched)).symm
  | @value w o rule start stop live matched strategy rest ih =>
    obtain ⟨hmem, hrange⟩ := matchingRule_some matched
    obtain ⟨hsep, hlisted⟩ := listed_of_rule hmem strategy
    obtain ⟨u, g, v, found⟩ := valueAt_of_valueRange hrange hsep
    have hrest : redactFrom false o = w.drop stop ↔ Stays (w.drop stop) := ih fun t ht =>
      hno t (ht.trans (List.drop_suffix stop w))
    rw [stays_at_value hmem strategy found, ← hrest, found.emitted hlisted rest false, if_neg nofun]
    nth_rewrite 1 [found.whole]
    rw [List.append_cancel_left_eq, List.append_cancel_left_eq]
    constructor
    · intro heq
      obtain ⟨hmask, hafter⟩ := List.append_inj heq List.length_replicate
      exact ⟨hmask.symm, hafter⟩
    · rintro ⟨hmask, hafter⟩
      rw [← hmask, hafter]
  | canonical live matched strategy fits rest =>
    exact ⟨fun heq => absurd heq (canonical_ne matched strategy fun _ => rest),
      fun h => absurd h (hmarked matched strategy)⟩
  | canonicalCut live matched strategy longer rest =>
    exact ⟨fun heq => absurd heq (canonical_ne matched strategy fun fits => absurd longer (Nat.not_lt.mpr fits)),
      fun h => absurd h (hmarked matched strategy)⟩

theorem name_kinds : ∀ rule ∈ SanitizationContext.new.rules, rule.strategy = .replaceWithX → Safe rule.pattern.tail ∨
    ∃ j ∈ List.range rule.pattern.length, 0 < j ∧
      ∃ last ∈ SanitizationContext.new.rules, last.strategy = .replaceWithX ∧ last.pattern = rule.pattern.drop j := by
  decide +kernel

theorem masked_key_rule : ∃ rule ∈ SanitizationContext.new.rules, rule.pattern = 0x78 :: asBytes "-api-key" := by
  decide +kernel

theorem rewrites_prefix_back {k : List UInt8} (h : ∀ y ∈ k.tails, y ≠ [] → ∀ m ∈ marks, ¬m <+: y) (hfresh : 0x78 ∉ k)
    {w o : List UInt8} (ho : Rewrites .new w o) (hpre : k <+: lowered o) : k <+: lowered w := by
  induction k generalizing w o with
  | nil => exact List.nil_prefix
  | cons c k ih =>
    have hfree := h (c :: k) ((List.mem_tails _ _).mpr (List.suffix_refl _)) nofun
    rcases rewrites_cases ho with ⟨rfl, rfl⟩ | ⟨b, w', o', rfl, rfl, hrest⟩ | ⟨m, hm, hw, ho'⟩
    · exact hpre
    · obtain ⟨hc, hpre'⟩ := List.cons_prefix_cons.mp hpre
      refine List.cons_prefix_cons.mpr ⟨hc, ih (fun y hy => h y ?_) (fun hmem => hfresh (List.mem_cons_of_mem c hmem))
        hrest hpre'⟩
      rw [List.mem_tails] at hy ⊢
      exact hy.trans (List.suffix_cons c k)
    · rcases ho' with ho' | ⟨o', rfl⟩
      · rcases List.prefix_or_prefix_of_prefix hpre ho' with hkm | hmk
        · exact hkm.trans hw
        · exact absurd hmk (hfree m hm)
      · exact absurd (List.mem_cons.mpr (.inl (List.cons_prefix_cons.mp hpre).1.symm)) hfresh

theorem headStays_shown {b : UInt8} {w o : List UInt8} (hunmatched : matchingRule .new (b :: w) = none)
    (ho : Rewrites .new w o) (hstays : Stays (redactFrom false o)) : HeadStays (b :: redactFrom false o) := by
  intro rule hrule hpattern
  by_cases hstrategy : rule.strategy = .replaceWithX
  · obtain ⟨hsep, hlisted⟩ := listed_of_rule hrule hstrategy
    have hpre := (patternAt_key hlisted.key).mp hpattern
    refine ⟨hstrategy, fun tail htail => ?_⟩
    rcases name_kinds rule hrule hstrategy with hsafe | ⟨j, hj, hpos, last, hlast, hlast', hend⟩
    · exact absurd htail (keyHead_listed hlisted.key hsafe ⟨rule, hrule, rfl, hsep⟩ hunmatched ⟨o, ho, rfl⟩ hpre)
    · have hkey : rule.pattern.drop j ∈ sensitiveKeys := hend ▸ (listed_of_rule hlast hlast').2.key
      refine keyHead_compound hlisted.key hpos (List.mem_range.mp hj) hkey (fun t ht hne => ?_) hpre htail
      rw [← hend]
      exact fun hname => (hstays t ht hne last hlast hname).2
  · exfalso
    have sign := sign_of_rule hrule hstrategy
    have hnone := sign_unmatched hrule hstrategy hunmatched
    have hpre := patternAt_iff.mp hpattern
    obtain ⟨a, c, q, hq, -⟩ := sign.shape
    have hfresh := sign.fresh
    have hclosed := sign.closed
    rw [hq] at hpre hfresh hclosed
    obtain ⟨ha, hrest⟩ := List.cons_prefix_cons.mp hpre
    have hfresh' : 0x78 ∉ c :: q := fun hmem => hfresh (List.mem_cons_of_mem a hmem)
    have hback := rewrites_prefix_back hclosed hfresh' ho (prefix_of_masked (redactFrom_masked false o) hfresh' hrest)
    have hfound : patternAt (b :: w) rule.pattern = true := by
      rw [patternAt_iff, hq]
      exact List.cons_prefix_cons.mpr ⟨ha, hback⟩
    rw [hnone] at hfound
    cases hfound

theorem headStays_mask {p : List UInt8} : HeadStays (redacted :: p) ↔ HeadSettled (redacted :: p) := by
  constructor
  · intro h key hkey hpattern
    have hpre := (patternAt_key hkey).mp hpattern
    obtain ⟨a, c, k, hshape, -⟩ := (key_word hkey).shape
    have ha : key.head? = some 0x78 := by
      rw [hshape] at hpre ⊢
      exact congrArg some (List.cons_prefix_cons.mp hpre).1
    obtain ⟨rule, hrule, hname⟩ := masked_key_rule
    obtain ⟨rfl, -⟩ := masked_key.2.2.2.2 key hkey ha
    rw [← hname] at hpattern ⊢
    exact (h rule hrule hpattern).2
  · intro h
    exact headStays_of_settled h fun q sign => sign.not_at_mask p

theorem stays_marked {b : UInt8} {w : List UInt8} {rule : SanitizationRule} {start stop : ℕ} {s : String}
    (hmatch : matchingRule .new (b :: w) = some (rule, start, stop)) (hs : rule.strategy = .replaceWithCanonical s)
    (hidden : Bool) (o : List UInt8) : Stays (redactFrom hidden ((b :: w).take start ++ asBytes s ++ o)) ↔
      (hidden && isCredentialTokenChar b) = true ∧ Stays (redactFrom false o) := by
  have marked := marked_of_match hmatch hs
  have hname := lowered_taken hmatch hs
  obtain ⟨hmem, hrange⟩ := matchingRule_some hmatch
  have hstrategy : rule.strategy ≠ .replaceWithX := by rw [hs]; exact nofun
  obtain ⟨n, rfl⟩ : ∃ n, start = n + 1 := by
    have hpos := List.length_pos_of_ne_nil (new_pattern_ne rule hmem)
    exact Nat.exists_eq_add_of_le' (hpos.trans_le (valueRange_bounds hrange).1)
  rw [List.take_succ_cons] at marked hname ⊢
  cases hb : (hidden && isCredentialTokenChar b) with
  | false =>
    have hkept : redactFrom hidden (b :: w.take n ++ asBytes s ++ o) =
        b :: w.take n ++ asBytes s ++ redactFrom false o := by
      rw [← marked.kept (List.suffix_refl _)]
      cases hidden with
      | false => rfl
      | true =>
        apply redactFrom_true_of_head
        rintro c ⟨⟩
        exact hb
    have hpattern : patternAt (b :: w.take n ++ asBytes s ++ redactFrom false o) rule.pattern = true := by
      rw [patternAt_iff, lowered_append, lowered_append, hname, List.append_assoc]
      exact List.prefix_append _ _
    rw [hkept]
    constructor
    · intro h
      exact absurd (h _ (List.suffix_refl _) nofun rule hmem hpattern).1 hstrategy
    · exact fun h => absurd h.1 nofun
  | true =>
    obtain ⟨rfl, htoken⟩ := Bool.and_eq_true_iff.mp hb
    rw [marked.emitted_hidden, stays_masks (marked.head_breaks _), stays_append, eq_self, true_and]
    intro t ht hne
    apply headStays_of_settled
    · intro key hkey hpattern
      have hwithin := ht.trans (dropWhile_token_suffix _ _)
      exact absurd ((patternAt_key hkey).mp hpattern) ((marked.apart_at hwithin hne).2 key hkey)
    · intro q sign
      have hinside : t <:+ (b :: w.take n ++ asBytes s).tail := by
        rw [List.dropWhile_cons_of_pos htoken] at ht
        exact ht.trans (dropWhile_token_suffix _ _)
      have hmem' : lowered t ∈ (lowered rule.pattern ++ lowered (asBytes s)).tail.tails := by
        rw [List.mem_tails, ← hname, ← lowered_append, lowered, lowered, ← List.map_tail]
        exact hinside.map _
      have hapart := sign.sentinels rule hmem s (sentinel_of_rule hmem hs) hs _ hmem' fun hnil =>
        hne (List.map_eq_nil_iff.mp hnil)
      rw [lowered_append]
      exact hapart.absent (List.prefix_append _ _)

theorem stays_value {w u g v : List UInt8} {rule : SanitizationRule} {start stop : ℕ}
    (hrule : rule ∈ SanitizationContext.new.rules) (hstrategy : rule.strategy = .replaceWithX)
    (found : ValueAt w start stop rule.pattern u g v) {o : List UInt8} (ho : Rewrites .new (w.drop stop) o)
    (hidden : Bool) : Stays (redactFrom hidden (w.take start ++ List.replicate (stop - start) redacted ++ o)) ↔
      Stays (redactFrom false o) := by
  have hread := (readOn_rewrites ho found.delimited).inline
  have hmasked : ∀ u', u' <:+ u → (Stays (u' ++ (g ++ (List.replicate v.length redacted ++ redactFrom false o))) ↔
      Stays (redactFrom false o)) := fun u' hu' =>
    stays_masked hrule hstrategy found.name hu' (found.tail_masked hread) hread.delimited
  rw [found.emitted (listed_of_rule hrule hstrategy).2 ho hidden]
  cases hidden with
  | false => exact hmasked u (List.suffix_refl u)
  | true =>
    rw [if_pos rfl, stays_masks]
    · exact hmasked [] List.nil_suffix
    · exact found.opens_plainly _

theorem stable_matched {b : UInt8} {w : List UInt8} {rule : SanitizationRule} {start stop : ℕ}
    (hlive : liveTokenEnd (b :: w) = none) (h : matchingRule .new (b :: w) = some (rule, start, stop)) (hidden : Bool) :
    stable hidden (b :: w) = ((rule.strategy == .replaceWithX || (hidden && isCredentialTokenChar b)) &&
      stable false (leftAhead rule (b :: w) start stop)) := by
  rw [stable, hlive]
  dsimp only
  rw [h]

theorem stable_marked {w o : List UInt8} {rule : SanitizationRule} {start stop : ℕ} {s : String}
    (hlive : liveTokenEnd w = none) (hmatch : matchingRule .new w = some (rule, start, stop))
    (hs : rule.strategy = .replaceWithCanonical s)
    (hrest : Stays (redactFrom false o) ↔ stable false (leftAhead rule w start stop) = true) (hidden : Bool) :
    Stays (redactFrom hidden (w.take start ++ asBytes s ++ o)) ↔ stable hidden w = true := by
  obtain ⟨b, w, rfl⟩ := List.exists_cons_of_length_pos (Nat.zero_lt_of_lt (length_leftAhead hmatch))
  have hne : (rule.strategy == .replaceWithX) = false := by
    rw [hs]
    rfl
  rw [stays_marked hmatch hs, hrest, stable_matched hlive hmatch, hne, Bool.false_or, ← Bool.and_eq_true]

theorem stays_iff {w o : List UInt8} (h : Rewrites .new w o) (hidden : Bool) :
    Stays (redactFrom hidden o) ↔ stable hidden w = true := by
  induction h generalizing hidden with
  | done =>
    rw [stable]
    exact ⟨fun _ => rfl, fun _ t ht hne => absurd (List.suffix_nil.mp ht) hne⟩
  | @token w o stop live rest ih =>
    obtain ⟨hpos, hle⟩ := liveTokenEnd_bounds live
    obtain ⟨m, rfl⟩ := Nat.exists_eq_succ_of_ne_zero (Nat.ne_of_gt (Nat.lt_of_lt_of_le (by decide) hpos))
    obtain ⟨b, w, rfl⟩ := List.exists_cons_of_length_pos (Nat.lt_of_lt_of_le (Nat.succ_pos m) hle)
    rw [redactFrom_masks, Nat.succ_eq_add_one, List.replicate_succ', List.append_assoc, List.singleton_append,
      stays_masks (by rintro c ⟨⟩; decide), stays_cons, headStays_mask, headSettled_token rest, ih, stable, live,
      Bool.and_eq_true]
  | @idle b w o live unmatched rest ih =>
    have hcred := credentialAt_idle (b := b) rest
    have hstep : stable hidden (b :: w) = stable ((hidden && isCredentialTokenChar b) || credentialAt (b :: w)) w := by
      rw [stable, live]
      dsimp only
      rw [unmatched]
    rw [hstep, ← hcred]
    cases hb : ((hidden && isCredentialTokenChar b) || credentialAt (b :: o)) with
    | true =>
      rw [redactFrom_hidden hb, stays_cons, headStays_mask, ih]
      exact and_iff_right (@headSettled_masks 0 _ (head_hidden o))
    | false =>
      rw [redactFrom_shown hb, stays_cons, ← ih]
      exact and_iff_right_of_imp (headStays_shown unmatched rest)
  | @value w o rule start stop live matched strategy rest ih =>
    obtain ⟨hmem, hrange⟩ := matchingRule_some matched
    obtain ⟨u, g, v, found⟩ := valueAt_of_valueRange hrange (listed_of_rule hmem strategy).1
    obtain ⟨b, w, rfl⟩ := List.exists_cons_of_length_pos (Nat.zero_lt_of_lt (length_leftAhead matched))
    rw [stays_value hmem strategy found rest, ih, stable_matched live matched, leftAhead, strategy]
    rfl
  | canonical live matched strategy fits rest ih =>
    refine stable_marked live matched strategy ?_ hidden
    rw [ih, leftAhead, strategy]
    dsimp only
    rw [if_neg (Nat.not_lt.mpr fits)]
  | canonicalCut live matched strategy longer rest ih =>
    refine stable_marked live matched strategy ?_ hidden
    rw [ih, leftAhead, strategy]
    dsimp only
    rw [if_pos longer]

theorem sanitized_again_iff (seed : CaseSeed) : ∃ shared again, sanitizeSeedForSharing seed = some shared ∧
    sanitizeSeedForSharing shared = some again ∧ (again = shared ↔ stable false seed.payload = true) := by
  obtain ⟨out, report, hout⟩ := sanitize_returns new_pattern_ne seed.payload
  obtain ⟨o, ho, rfl⟩ := sanitize_rewrites hout
  obtain ⟨out', report', hout'⟩ := sanitize_returns new_pattern_ne (redactInlineCredentialTokens o)
  obtain ⟨o', ho', rfl⟩ := sanitize_rewrites hout'
  refine ⟨⟨seed.id, redactInlineCredentialTokens o⟩, ⟨seed.id, redactInlineCredentialTokens o'⟩, ?_, ?_, ?_⟩
  · rw [sanitizeSeedForSharing, sanitizeSeedWithContext, hout]
    rfl
  · rw [sanitizeSeedForSharing, sanitizeSeedWithContext, hout']
    rfl
  · rw [CaseSeed.mk.injEq, eq_self, true_and]
    rw [redactInlineCredentialTokens_eq] at ho' ⊢
    rw [redactInlineCredentialTokens_eq, unchanged_iff ho' (noCredential_redactFrom false o), stays_iff ho]

theorem host_grows_each_time :
    sanitizeSeedForSharing ⟨1, asBytes "host=x"⟩ = some ⟨1, asBytes "host=[HOST]"⟩ ∧
      sanitizeSeedForSharing ⟨1, asBytes "host=[HOST]"⟩ = some ⟨1, asBytes "host=[HOST]]"⟩ ∧
      CaseSeed.mk 1 (asBytes "host=[HOST]]") ≠ ⟨1, asBytes "host=[HOST]"⟩ := by
  decide +kernel

end CrashLab.SanitizerFixpoint
