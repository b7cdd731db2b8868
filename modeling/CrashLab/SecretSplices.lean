import CrashLab.SanitizedWindows

namespace CrashLab.SecretSplices

open FixtureSanitize SanitizedWindows SignatureHash

variable {context : SanitizationContext}

def Masked : List UInt8 → List UInt8 → Prop := List.Forall₂ fun a b => b = a ∨ b = redacted

theorem masked_refl (l : List UInt8) : Masked l l := by
  induction l with
  | nil => exact .nil
  | cons a l ih => exact .cons (.inl rfl) ih

theorem masked_replicate (l : List UInt8) : Masked l (List.replicate l.length redacted) := by
  induction l with
  | nil => exact .nil
  | cons a l ih => exact .cons (.inr rfl) ih

theorem masked_redactInlineCredentialTokens (bytes : List UInt8) :
    Masked bytes (redactInlineCredentialTokens bytes) := by
  induction bytes using redactInlineCredentialTokens.induct with
  | case1 =>
    rw [redactInlineCredentialTokens]
    exact .nil
  | case2 b rest hn ih =>
    rw [redactInlineCredentialTokens, hn]
    exact .cons (.inl rfl) ih
  | case3 b rest n hn ih =>
    have hlen : ((b :: rest).take n).length = n := List.length_take_of_le (credentialLength_le hn)
    have htoken : Masked ((b :: rest).take n) (List.replicate n redacted) := by
      simpa only [hlen] using masked_replicate ((b :: rest).take n)
    rw [redactInlineCredentialTokens, hn]
    simpa only [Masked, List.take_append_drop] using List.rel_append htoken ih

theorem masked_getElem? {l m : List UInt8} (h : Masked l m) (i : ℕ) {a b : UInt8} (ha : l[i]? = some a)
    (hb : m[i]? = some b) : b = a ∨ b = redacted := by
  induction h generalizing i with
  | nil => cases ha
  | @cons x y l m hxy hrest ih =>
    cases i with
    | zero =>
      cases ha
      cases hb
      exact hxy
    | succ i => exact ih i ha hb

def Idle (context : SanitizationContext) (w : List UInt8) : Prop :=
  liveTokenEnd w = none ∧ matchingRule context w = none

/-- The pass acts at `index` for the first time, and there on a match of `rule`. -/
structure FirstMatch (context : SanitizationContext) (payload : List UInt8) (index : ℕ)
    (rule : SanitizationRule) (start stop : ℕ) : Prop where
  idle : ∀ i < index, Idle context (payload.drop i)
  live : liveTokenEnd (payload.drop index) = none
  matched : matchingRule context (payload.drop index) = some (rule, start, stop)

def NoMatch (context : SanitizationContext) (rest : List UInt8) : Prop :=
  ∀ t ∈ rest.tails, ∀ rule ∈ context.rules, patternAt t rule.pattern = false

theorem pattern_ne_of_noMatch {rest : List UInt8} (h : NoMatch context rest) :
    ∀ rule ∈ context.rules, rule.pattern ≠ [] := by
  intro rule hrule hnil
  have hfalse := h rest ((List.mem_tails rest rest).mpr (List.suffix_refl rest)) rule hrule
  rw [hnil] at hfalse
  cases hfalse

theorem rewrites_idle {b : UInt8} {w o : List UInt8} (h : Rewrites context (b :: w) o)
    (hidle : Idle context (b :: w)) : ∃ o', o = b :: o' ∧ Rewrites context w o' := by
  obtain ⟨hlive, hrule⟩ := hidle
  cases h with
  | token live => rw [hlive] at live; cases live
  | idle _ _ rest => exact ⟨_, rfl, rest⟩
  | value _ matched => rw [hrule] at matched; cases matched
  | canonical _ matched => rw [hrule] at matched; cases matched
  | canonicalCut _ matched => rw [hrule] at matched; cases matched

theorem rewrites_upTo {w o : List UInt8} (h : Rewrites context w o) {index : ℕ} (hindex : index ≤ w.length)
    (hidle : ∀ i < index, Idle context (w.drop i)) :
    ∃ o', o = w.take index ++ o' ∧ Rewrites context (w.drop index) o' := by
  induction index generalizing w o with
  | zero => exact ⟨o, rfl, h⟩
  | succ n ih =>
    cases w with
    | nil => cases hindex
    | cons b w =>
      obtain ⟨o', rfl, hrest⟩ := rewrites_idle h (hidle 0 (Nat.succ_pos n))
      obtain ⟨o'', rfl, hlast⟩ := ih hrest (Nat.le_of_succ_le_succ hindex) fun i hi =>
        hidle (i + 1) (Nat.succ_lt_succ hi)
      exact ⟨o'', rfl, hlast⟩

theorem rewrites_cut {w o : List UInt8} (h : Rewrites context w o) {rule : SanitizationRule} {start stop : ℕ}
    {s : String} (hlive : liveTokenEnd w = none) (hrule : matchingRule context w = some (rule, start, stop))
    (hs : rule.strategy = .replaceWithCanonical s) (hlonger : (asBytes s).length < stop - start) :
    ∃ o', o = w.take start ++ asBytes s ++ o' ∧
      Rewrites context ((w.drop (start + (asBytes s).length)).take (w.length - stop)) o' := by
  cases h with
  | done =>
    have hstop := (valueRange_bounds (matchingRule_some hrule).2).2.2
    rw [List.length_nil] at hstop
    omega
  | token live => rw [hlive] at live; cases live
  | idle _ unmatched => rw [hrule] at unmatched; cases unmatched
  | value _ matched strategy =>
    rw [hrule] at matched
    cases matched
    rw [hs] at strategy
    cases strategy
  | canonical _ matched strategy fits =>
    rw [hrule] at matched
    cases matched
    rw [hs] at strategy
    cases strategy
    omega
  | canonicalCut _ matched strategy _ rest =>
    rw [hrule] at matched
    cases matched
    rw [hs] at strategy
    cases strategy
    exact ⟨_, rfl, rest⟩

theorem rewrites_head {b : UInt8} {w o : List UInt8} (hne : ∀ rule ∈ context.rules, rule.pattern ≠ [])
    (h : Rewrites context (b :: w) o) : ∃ a o', o = a :: o' ∧ (a = b ∨ a = redacted) := by
  have hkept : ∀ (start : ℕ) (l : List UInt8), 0 < start →
      ∃ a o', (b :: w).take start ++ l = a :: o' ∧ (a = b ∨ a = redacted) := by
    intro start l hpos
    obtain ⟨n, rfl⟩ := Nat.exists_eq_succ_of_ne_zero hpos.ne'
    exact ⟨b, _, rfl, .inl rfl⟩
  have hstart : ∀ {rule start stop}, matchingRule context (b :: w) = some (rule, start, stop) → 0 < start := by
    intro rule start stop hmatch
    obtain ⟨hmem, hrange⟩ := matchingRule_some hmatch
    exact (List.length_pos_of_ne_nil (hne rule hmem)).trans_le (valueRange_bounds hrange).1
  cases h with
  | @token _ o stop live rest =>
    obtain ⟨n, rfl⟩ := Nat.exists_eq_add_of_le' (liveTokenEnd_bounds live).1
    exact ⟨redacted, _, rfl, .inr rfl⟩
  | idle => exact ⟨b, _, rfl, .inl rfl⟩
  | value _ matched =>
    rw [List.append_assoc]
    exact hkept _ _ (hstart matched)
  | canonical _ matched =>
    rw [List.append_assoc]
    exact hkept _ _ (hstart matched)
  | canonicalCut _ matched =>
    rw [List.append_assoc]
    exact hkept _ _ (hstart matched)

theorem valueRange_stop {rule : SanitizationRule} {w : List UInt8} {start stop : ℕ}
    (h : valueRange rule w = some (start, stop)) : ∃ quoted, stop = valueEnd w start quoted := by
  unfold valueRange at h
  split at h
  · split at h
    · obtain ⟨⟨begins, quotedKey, quoted⟩, -, heq⟩ := Option.map_eq_some_iff.mp h
      obtain ⟨rfl, rfl⟩ := Prod.mk.inj heq
      exact ⟨quoted, rfl⟩
    · obtain ⟨rfl, rfl⟩ := Prod.mk.inj (Option.some_inj.mp h)
      exact ⟨false, rfl⟩
  · cases h

theorem valueEnd_of_delimited {w v rest : List UInt8} {d : UInt8} {start : ℕ} (quoted : Bool)
    (hw : w.drop start = v ++ d :: rest) (hv : ∀ b ∈ v, isValueDelimiter b = false)
    (hd : isValueDelimiter d = true) : valueEnd w start quoted = start + v.length := by
  have hquotation : isValueDelimiter quotation = true := by decide +kernel
  have hin : ∀ b ∈ v, (!isValueDelimiter b && !(quoted && b == quotation)) = true := by
    intro b hb
    have hne : (b == quotation) = false := by
      rw [beq_eq_false_iff_ne]
      rintro rfl
      rw [hv _ hb] at hquotation
      cases hquotation
    rw [hv b hb, hne, Bool.and_false]
    rfl
  rw [valueEnd, hw, List.takeWhile_append_of_pos hin, List.takeWhile_cons_of_neg (by rw [hd]; exact nofun),
    List.append_nil]

theorem canonical_splice_fails (k v rest : List UInt8) (d : UInt8) (rule : SanitizationRule) (s : String)
    (index start stop : ℕ) (hrule : rule.strategy = .replaceWithCanonical s)
    (hfirst : FirstMatch context (k ++ v ++ d :: rest) index rule start stop)
    (hk : k.length = index + start) (hv : ∀ b ∈ v, isValueDelimiter b = false)
    (hlonger : (asBytes s).length < v.length) (hd : isValueDelimiter d = true) (hrest : NoMatch context rest) :
    ∃ out report, sanitizePayloadWithContext (k ++ v ++ d :: rest) context = some (out, report) ∧
      out ≠ k ++ asBytes s ++ d :: rest := by
  have hne := pattern_ne_of_noMatch hrest
  obtain ⟨out, report, hout⟩ := sanitize_returns hne (k ++ v ++ d :: rest)
  refine ⟨out, report, hout, ?_⟩
  rintro rfl
  obtain ⟨o, ho, hredacted⟩ := sanitize_rewrites hout
  let w := (k ++ v ++ d :: rest).drop index
  have hvalue : w.drop start = v ++ d :: rest := by
    rw [List.drop_drop, ← hk, List.append_assoc, List.drop_left]
  obtain ⟨quoted, hstop⟩ := valueRange_stop (matchingRule_some hfirst.matched).2
  have hend : stop = start + v.length := hstop.trans (valueEnd_of_delimited quoted hvalue hv hd)
  obtain ⟨o₁, rfl, ho₁⟩ := rewrites_upTo ho (by rw [List.append_assoc, List.length_append]; omega) hfirst.idle
  obtain ⟨o₂, rfl, ho₂⟩ := rewrites_cut ho₁ hfirst.live hfirst.matched hrule (by omega)
  -- the first byte of the value that the sentinel does not cover
  obtain ⟨c, tail, hc⟩ : ∃ c tail, v.drop (asBytes s).length = c :: tail := by
    refine List.exists_cons_of_length_pos ?_
    rw [List.length_drop]
    omega
  have hleft : w.length - stop = rest.length + 1 := by
    have hlen := congrArg List.length hvalue
    rw [List.length_drop, List.length_append, List.length_cons] at hlen
    omega
  have hahead : (w.drop (start + (asBytes s).length)).take (w.length - stop) =
      c :: (tail ++ d :: rest).take rest.length := by
    rw [← List.drop_drop, hvalue, List.drop_append_of_le_length hlonger.le, hc, hleft]
    rfl
  rw [hahead] at ho₂
  obtain ⟨a, o₃, rfl, ha⟩ := rewrites_head hne ho₂
  have hbefore : (k ++ v ++ d :: rest).take index ++ (w.take start ++ asBytes s ++ a :: o₃) =
      k ++ asBytes s ++ a :: o₃ := by
    rw [List.append_assoc (w.take start), ← List.append_assoc, ← List.take_add, ← hk, List.append_assoc k v,
      List.take_left, List.append_assoc]
  have hmasked := masked_redactInlineCredentialTokens (k ++ asBytes s ++ a :: o₃)
  rw [← hbefore, ← hredacted, hbefore] at hmasked
  have hplace : ∀ (x : UInt8) (l : List UInt8), (k ++ asBytes s ++ x :: l)[(k ++ asBytes s).length]? = some x := by
    intro x l
    rw [List.getElem?_append_right (le_refl _), Nat.sub_self]
    rfl
  have hplain : isValueDelimiter a = false := by
    rcases ha with rfl | rfl
    · exact hv a (List.mem_of_mem_drop (hc ▸ List.mem_cons_self))
    · decide +kernel
  rcases masked_getElem? hmasked _ (hplace a o₃) (hplace d rest) with rfl | rfl
  · rw [hplain] at hd
    cases hd
  · have hx : isValueDelimiter redacted = false := by decide +kernel
    rw [hx] at hd
    cases hd

theorem host_splice_fails : ∃ out report,
    sanitizePayloadWithContext (asBytes "host=" ++ asBytes "validator-7" ++ 0x26 :: asBytes "id=3") .new =
      some (out, report) ∧ out ≠ asBytes "host=" ++ asBytes "[HOST]" ++ 0x26 :: asBytes "id=3" :=
  canonical_splice_fails (asBytes "host=") (asBytes "validator-7") (asBytes "id=3") 0x26
    (SanitizationContext.hostname "host=") "[HOST]" 0 5 16 rfl
    ⟨fun _ h => absurd h (Nat.not_lt_zero _), by decide +kernel, by decide +kernel⟩ (by decide +kernel)
    (by decide +kernel) (by decide +kernel) (by decide +kernel) (by unfold NoMatch; decide +kernel)

theorem host_splice_keeps_the_value :
    let sanitized := sanitizePayloadWithContext (asBytes "host=" ++ asBytes "validator-7" ++ 0x26 :: asBytes "id=3") .new
    sanitized.map Prod.fst = some (asBytes "host=" ++ asBytes "[HOST]" ++ asBytes "tor-7") ∧
      sanitized.map Prod.fst ≠ some (asBytes "host=" ++ asBytes "[HOST]" ++ 0x26 :: asBytes "id=3") := by
  decide +kernel

end CrashLab.SecretSplices
