import CrashLab.SecretSplices
import CrashLab.ValueGaps

namespace CrashLab.SettledPayloads

open FixtureSanitize SecretSplices ValueGaps SignatureHash

def credentialAt (w : List UInt8) : Bool := inlineCredentialPrefixes.any (patternAt w)

theorem credentialLength_eq_none_iff {w : List UInt8} : credentialLength w = none ↔ credentialAt w = false := by
  rw [credentialLength, Option.map_eq_none_iff, List.find?_eq_none, credentialAt, List.any_eq_false]

/-- The redaction of inline credentials one byte at a time; `hidden` tells that the byte before is part of one. -/
def redactFrom : Bool → List UInt8 → List UInt8
  | _, [] => []
  | hidden, b :: rest =>
    if (hidden && isCredentialTokenChar b) || credentialAt (b :: rest) then redacted :: redactFrom true rest
    else b :: redactFrom false rest

theorem redactFrom_hidden {b : UInt8} {rest : List UInt8} {hidden : Bool}
    (h : ((hidden && isCredentialTokenChar b) || credentialAt (b :: rest)) = true) :
    redactFrom hidden (b :: rest) = redacted :: redactFrom true rest := if_pos h

theorem redactFrom_shown {b : UInt8} {rest : List UInt8} {hidden : Bool}
    (h : ((hidden && isCredentialTokenChar b) || credentialAt (b :: rest)) = false) :
    redactFrom hidden (b :: rest) = b :: redactFrom false rest := if_neg (by rw [h]; exact nofun)

theorem redactFrom_tokenChars {run rest : List UInt8} (h : ∀ b ∈ run, isCredentialTokenChar b = true) :
    redactFrom true (run ++ rest) = List.replicate run.length redacted ++ redactFrom true rest := by
  induction run with
  | nil => rfl
  | cons b run ih =>
    have hb : (true && isCredentialTokenChar b || credentialAt (b :: (run ++ rest))) = true := by
      rw [h b List.mem_cons_self]
      rfl
    rw [List.cons_append, redactFrom_hidden hb, ih fun c hc => h c (List.mem_cons_of_mem b hc)]
    rfl

theorem redactFrom_true_of_head {w : List UInt8} (h : ∀ b ∈ w.head?, isCredentialTokenChar b = false) :
    redactFrom true w = redactFrom false w := by
  cases w with
  | nil => rfl
  | cons b rest => rw [redactFrom, redactFrom, h b rfl, Bool.and_false, Bool.and_false]

def quiet (b : UInt8) : Bool := b == redacted || isValueDelimiter b || inert b

theorem quiet_lower {b : UInt8} (h : quiet b = true) : quiet (toAsciiLowercase b) = true := by
  revert h
  apply @lowercase_rule (fun b c => quiet b = true → quiet c = true) fun _ => id
  decide

def Apart (k l : List UInt8) : Prop := ¬k <+: l ∧ ¬l <+: k

instance (k l : List UInt8) : Decidable (Apart k l) := inferInstanceAs (Decidable (_ ∧ _))

theorem Apart.absent {k l w : List UInt8} (h : Apart k l) (hl : l <+: w) : ¬k <+: w := by
  intro hk
  rcases List.prefix_or_prefix_of_prefix hk hl with hkl | hlk
  · exact h.1 hkl
  · exact h.2 hlk

theorem bearer_suffix {g r t : List UInt8} (hg : Bearer g r) (ht : t <:+ g) (hne : t ≠ []) :
    (∃ y ∈ (asBytes "bearer ").tails, y ≠ [] ∧ y <+: lowered t) ∨ ∃ b, t = [b] := by
  obtain ⟨s, rfl⟩ := ht
  have hpos := List.length_pos_of_ne_nil hne
  have hlen := hg.length
  rw [List.length_append] at hlen
  by_cases hs : s.length < 7
  · have hbearer : (asBytes "bearer ").length = 7 := by rw [bearer_bytes]; rfl
    refine .inl ⟨_, (List.mem_tails _ _).mpr (List.drop_suffix s.length _), ?_, ?_⟩
    · rw [ne_eq, List.drop_eq_nil_iff, hbearer]
      omega
    · rw [← hg.scheme, ← lowered_drop, List.take_append, List.drop_append_of_le_length,
        List.take_of_length_le hs.le, List.drop_length, List.nil_append]
      · exact (List.take_prefix _ t).map _
      · rw [List.take_of_length_le hs.le]
  · exact .inr (List.length_eq_one_iff.mp (by omega))

structure Word (k : List UInt8) : Prop where
  lower : lowered k = k
  closed : ∀ b ∈ k, inert b = false
  second : ∃ a ∈ k.head?, ∃ b ∈ k.tail.head?, quiet b = false ∧ (a = 0x78 → b = 0x2D)
  bearer : ∀ y ∈ (asBytes "bearer ").tails, y ≠ [] → Apart k y

namespace Word

variable {k : List UInt8} (word : Word k)
include word

theorem shape : ∃ a b rest, k = a :: b :: rest ∧ quiet b = false ∧ (a = 0x78 → b = 0x2D) := by
  obtain ⟨a, ha, b, hb, hquiet, hx⟩ := word.second
  obtain ⟨k, rfl⟩ := List.head?_eq_some_iff.mp (Option.mem_def.mp ha)
  obtain ⟨rest, rfl⟩ := List.head?_eq_some_iff.mp (Option.mem_def.mp hb)
  exact ⟨a, b, rest, rfl, hquiet, hx⟩

theorem not_at_nil : ¬k <+: lowered [] := by
  obtain ⟨a, b, rest, rfl, -⟩ := word.shape
  exact fun hpre => absurd (List.prefix_nil.mp hpre) nofun

theorem not_before_quiet {b : UInt8} {t : List UInt8} (h : ∀ c ∈ t.head?, quiet c = true) :
    ¬k <+: lowered (b :: t) := by
  obtain ⟨a, c, rest, rfl, hc, -⟩ := word.shape
  intro hpre
  have hrest := (List.cons_prefix_cons.mp hpre).2
  cases t with
  | nil => exact absurd (List.prefix_nil.mp hrest) nofun
  | cons d t =>
    have hd := quiet_lower (h d rfl)
    rw [← (List.cons_prefix_cons.mp hrest).1, hc] at hd
    cases hd

theorem not_at_mask {t : List UInt8} (h : ∀ c ∈ t.head?, toAsciiLowercase c ≠ 0x2D) :
    ¬k <+: lowered (redacted :: t) := by
  obtain ⟨a, c, rest, rfl, -, hx⟩ := word.shape
  intro hpre
  obtain ⟨ha, hrest⟩ := List.cons_prefix_cons.mp hpre
  cases t with
  | nil => exact absurd (List.prefix_nil.mp hrest) nofun
  | cons d t => exact h d rfl ((List.cons_prefix_cons.mp hrest).1.symm.trans (hx ha))

theorem not_at_inert {b : UInt8} {t : List UInt8} (h : inert b = true) : ¬k <+: lowered (b :: t) := by
  obtain ⟨a, c, rest, rfl, -, -⟩ := word.shape
  intro hpre
  have ha := word.closed a List.mem_cons_self
  rw [(List.cons_prefix_cons.mp hpre).1, inert_lower, h] at ha
  cases ha

theorem not_at_bearer {g r t : List UInt8} (hg : Bearer g r) (ht : t <:+ g) (hne : t ≠ [])
    (hr : ∀ c ∈ r.head?, quiet c = true) : ¬k <+: lowered (t ++ r) := by
  rcases bearer_suffix hg ht hne with ⟨y, hy, hy', hpre⟩ | ⟨b, rfl⟩
  · refine (word.bearer y hy hy').absent ?_
    rw [lowered_append]
    exact hpre.trans (List.prefix_append _ _)
  · exact word.not_before_quiet hr

theorem not_across {u r : List UInt8} (hu : ¬k <+: lowered u) (hr : InertHead r) : ¬k <+: lowered (u ++ r) := by
  obtain ⟨c, rest, rfl, hc⟩ := hr
  rw [lowered_append]
  intro hpre
  rcases List.prefix_or_prefix_of_prefix hpre (List.prefix_append _ _) with hku | huk
  · exact hu hku
  · obtain ⟨l, rfl⟩ := huk
    cases l with
    | nil => exact hu (by rw [List.append_nil])
    | cons a l =>
      have hrest := (List.prefix_append_right_inj _).mp hpre
      have ha := word.closed a (List.mem_append_right _ List.mem_cons_self)
      rw [(List.cons_prefix_cons.mp hrest).1, inert_lower, hc] at ha
      cases ha

end Word

theorem credentialPrefix_bytes : ∀ p ∈ inlineCredentialPrefixes,
    (lowered p = p ∧ (∀ b ∈ p, inert b = false) ∧
      (∃ a ∈ p.head?, ∃ b ∈ p.tail.head?, quiet b = false ∧ (a = 0x78 → b = 0x2D)) ∧
      ∀ y ∈ (asBytes "bearer ").tails, y ≠ [] → Apart p y) ∧
    0x78 ∉ p ∧ ∀ c ∈ p, isCredentialTokenChar c = true := by
  decide +kernel

theorem credentialPrefix_word {p : List UInt8} (h : p ∈ inlineCredentialPrefixes) : Word p := by
  obtain ⟨⟨hlower, hclosed, hsecond, hbearer⟩, -⟩ := credentialPrefix_bytes p h
  exact ⟨hlower, hclosed, hsecond, hbearer⟩

theorem credential_tokenChars {w p : List UInt8} (hp : p ∈ inlineCredentialPrefixes) (h : patternAt w p = true) :
    ∀ b ∈ w.take p.length, isCredentialTokenChar b = true := by
  have htoken := (credentialPrefix_bytes p hp).2.2
  intro b hb
  rw [patternAt, Bool.and_eq_true, eqIgnoreAsciiCase, beq_iff_eq] at h
  have hmem : toAsciiLowercase b ∈ lowered p := by
    rw [lowered, ← h.2]
    exact List.mem_map_of_mem hb
  rw [(credentialPrefix_word hp).lower] at hmem
  rw [← isCredentialTokenChar_lower]
  exact htoken _ hmem

theorem redactInlineCredentialTokens_eq (w : List UInt8) : redactInlineCredentialTokens w = redactFrom false w := by
  induction w using redactInlineCredentialTokens.induct with
  | case1 =>
    rw [redactInlineCredentialTokens]
    rfl
  | case2 b rest hn ih =>
    rw [redactInlineCredentialTokens, hn, redactFrom_shown (by rw [credentialLength_eq_none_iff.mp hn]; rfl)]
    exact congrArg _ ih
  | case3 b rest n hn ih =>
    have hsome : credentialAt (b :: rest) = true := by
      by_contra hnone
      rw [credentialLength_eq_none_iff.mpr (Bool.not_eq_true _ ▸ hnone)] at hn
      cases hn
    obtain ⟨p, hfind, hlen⟩ := Option.map_eq_some_iff.mp hn
    have hp := List.mem_of_find?_eq_some hfind
    have hrun : (b :: rest).take n = (b :: rest).take p.length ++
        ((b :: rest).drop p.length).takeWhile isCredentialTokenChar := by
      rw [← hlen, List.take_add, ← List.prefix_iff_eq_take.mp (List.takeWhile_prefix _)]
    have htoken : ∀ c ∈ (b :: rest).take n, isCredentialTokenChar c = true := by
      intro c hc
      rw [hrun, List.mem_append] at hc
      rcases hc with hc | hc
      · exact credential_tokenChars hp (List.find?_some hfind) c hc
      · exact List.mem_takeWhile_imp hc
    have hstop : ∀ c ∈ ((b :: rest).drop n).head?, isCredentialTokenChar c = false := by
      intro c hc
      rw [← hlen, ← List.drop_drop, drop_length_takeWhile] at hc
      have hnot := List.head?_dropWhile_not isCredentialTokenChar ((b :: rest).drop p.length)
      rw [Option.mem_def.mp hc] at hnot
      simpa using hnot
    obtain ⟨m, rfl⟩ := Nat.exists_eq_succ_of_ne_zero (credentialLength_pos hn).ne'
    have hle := SanitizedWindows.credentialLength_le hn
    have hrest := @redactFrom_tokenChars (rest.take m) (rest.drop m) fun c hc =>
      htoken c (List.mem_cons_of_mem b hc)
    rw [List.take_append_drop, List.length_take_of_le (Nat.le_of_succ_le_succ hle)] at hrest
    rw [redactInlineCredentialTokens, hn, redactFrom_hidden (by rw [hsome, Bool.or_true]), hrest]
    dsimp only
    rw [ih, ← redactFrom_true_of_head hstop]
    rfl

theorem redactFrom_masked (hidden : Bool) (w : List UInt8) : Masked w (redactFrom hidden w) := by
  induction w generalizing hidden with
  | nil => exact .nil
  | cons b rest ih =>
    rw [redactFrom]
    split
    · exact .cons (.inr rfl) (ih true)
    · exact .cons (.inl rfl) (ih false)

theorem masked_antisymm {l m : List UInt8} (h : Masked l m) (h' : Masked m l) : l = m := by
  induction h with
  | nil => rfl
  | cons hab _ ih =>
    cases h' with
    | cons hba hrest =>
      rw [ih hrest]
      rcases hab with rfl | rfl
      · rfl
      · rcases hba with rfl | rfl <;> rfl

theorem prefix_of_masked {k l m : List UInt8} (h : Masked l m) (hk : 0x78 ∉ k) (hpre : k <+: lowered m) :
    k <+: lowered l := by
  induction h generalizing k with
  | nil => exact hpre
  | @cons a b l m hab _ ih =>
    cases k with
    | nil => exact List.nil_prefix
    | cons c k =>
      obtain ⟨hc, hrest⟩ := List.cons_prefix_cons.mp hpre
      rw [List.mem_cons, not_or] at hk
      rcases hab with rfl | rfl
      · exact List.cons_prefix_cons.mpr ⟨hc, ih hk.2 hrest⟩
      · exact absurd hc.symm hk.1

def NoCredential (p : List UInt8) : Prop := ∀ t, t <:+ p → credentialAt t = false

theorem credentialAt_iff {w : List UInt8} :
    credentialAt w = true ↔ ∃ p ∈ inlineCredentialPrefixes, p <+: lowered w := by
  rw [credentialAt, List.any_eq_true]
  apply exists_congr
  intro p
  apply and_congr_right
  intro hp
  rw [patternAt_iff, (credentialPrefix_word hp).lower]

theorem noCredential_cons {b : UInt8} {rest : List UInt8} (h : credentialAt (b :: rest) = false)
    (hrest : NoCredential rest) : NoCredential (b :: rest) := by
  intro t ht
  rcases List.suffix_cons_iff.mp ht with rfl | ht
  · exact h
  · exact hrest t ht

theorem noCredential_redactFrom (hidden : Bool) (w : List UInt8) : NoCredential (redactFrom hidden w) := by
  have hplain : ∀ p ∈ inlineCredentialPrefixes, 0x78 ∉ p := fun p hp => (credentialPrefix_bytes p hp).2.1
  induction w generalizing hidden with
  | nil =>
    intro t ht
    rw [List.suffix_nil.mp ht, ← Bool.not_eq_true, credentialAt_iff]
    rintro ⟨p, hp, hpre⟩
    exact (credentialPrefix_word hp).not_at_nil hpre
  | cons b rest ih =>
    by_cases hb : ((hidden && isCredentialTokenChar b) || credentialAt (b :: rest)) = true
    · rw [redactFrom_hidden hb]
      refine noCredential_cons ?_ (ih true)
      by_contra hcred
      obtain ⟨p, hp, hpre⟩ := credentialAt_iff.mp (Bool.not_eq_false _ ▸ hcred)
      have hpos : 0 < p.length := by
        rw [length_credentialPrefix hp]
        decide
      obtain ⟨c, p, rfl⟩ := List.exists_cons_of_length_pos hpos
      have hc := (List.cons_prefix_cons.mp hpre).1
      exact hplain _ hp (List.mem_cons.mpr (.inl hc.symm))
    · rw [Bool.not_eq_true] at hb
      rw [redactFrom_shown hb]
      refine noCredential_cons ?_ (ih false)
      rw [Bool.or_eq_false_iff] at hb
      by_contra hcred
      obtain ⟨p, hp, hpre⟩ := credentialAt_iff.mp (Bool.not_eq_false _ ▸ hcred)
      have hbefore : p <+: lowered (b :: rest) :=
        prefix_of_masked (.cons (.inl rfl) (redactFrom_masked false rest)) (hplain p hp) hpre
      rw [credentialAt_iff.mpr ⟨p, hp, hbefore⟩] at hb
      cases hb.2

theorem redactFrom_of_noCredential {p : List UInt8} (h : NoCredential p) : redactFrom false p = p := by
  induction p with
  | nil => rfl
  | cons b rest ih =>
    rw [redactFrom_shown (by rw [h _ (List.suffix_refl _)]; rfl), ih fun t ht => h t (ht.trans (List.suffix_cons b rest))]

def HeadSettled (t : List UInt8) : Prop :=
  ∀ key ∈ sensitiveKeys, patternAt t key = true → ∀ tail,
    valueTail (isAuthorization key) (t.drop key.length) = some tail → ∀ b ∈ tail.takeWhile plain, b = redacted

def Settled (p : List UInt8) : Prop := ∀ t, t <:+ p → t ≠ [] → HeadSettled t

theorem forall_suffix_cons {P : List UInt8 → Prop} {b : UInt8} {p : List UInt8} :
    (∀ t, t <:+ b :: p → t ≠ [] → P t) ↔ P (b :: p) ∧ ∀ t, t <:+ p → t ≠ [] → P t := by
  constructor
  · intro h
    exact ⟨h _ (List.suffix_refl _) nofun, fun t ht => h t (ht.trans (List.suffix_cons b p))⟩
  · rintro ⟨hhead, hrest⟩ t ht hne
    rcases List.suffix_cons_iff.mp ht with rfl | ht
    · exact hhead
    · exact hrest t ht hne

theorem forall_suffix_append {P : List UInt8 → Prop} {s p : List UInt8} (h : ∀ t, t <:+ s → t ≠ [] → P (t ++ p)) :
    (∀ t, t <:+ s ++ p → t ≠ [] → P t) ↔ ∀ t, t <:+ p → t ≠ [] → P t := by
  induction s with
  | nil => exact Iff.rfl
  | cons b s ih =>
    rw [List.cons_append, forall_suffix_cons, ih fun t ht => h t (ht.trans (List.suffix_cons b s))]
    exact and_iff_right (h (b :: s) (List.suffix_refl _) nofun)

theorem settled_cons {b : UInt8} {p : List UInt8} : Settled (b :: p) ↔ HeadSettled (b :: p) ∧ Settled p :=
  forall_suffix_cons

theorem settled_append {s p : List UInt8} (h : ∀ t, t <:+ s → t ≠ [] → HeadSettled (t ++ p)) :
    Settled (s ++ p) ↔ Settled p := forall_suffix_append h

theorem key_bytes : ∀ k ∈ sensitiveKeys, (lowered k = k ∧ (∀ b ∈ k, inert b = false) ∧
      (∃ a ∈ k.head?, ∃ b ∈ k.tail.head?, quiet b = false ∧ (a = 0x78 → b = 0x2D)) ∧
      ∀ y ∈ (asBytes "bearer ").tails, y ≠ [] → Apart k y) ∧
    ∀ l ∈ sensitiveKeys, (l <+: k → l = k) ∧ (l <:+ k → isAuthorization l = isAuthorization k) := by
  decide +kernel

section Key

variable {key : List UInt8} (h : key ∈ sensitiveKeys)
include h

theorem key_word : Word key := by
  obtain ⟨⟨hlower, hclosed, hsecond, hbearer⟩, -⟩ := key_bytes key h
  exact ⟨hlower, hclosed, hsecond, hbearer⟩

theorem patternAt_key {t : List UInt8} : patternAt t key = true ↔ key <+: lowered t := by
  rw [patternAt_iff, (key_word h).lower]

theorem key_unique {l : List UInt8} (hl : l ∈ sensitiveKeys) (hpre : l <+: key) : l = key :=
  ((key_bytes key h).2 l hl).1 hpre

theorem key_scheme {l : List UInt8} (hl : l ∈ sensitiveKeys) (hend : l <:+ key) :
    isAuthorization l = isAuthorization key := ((key_bytes key h).2 l hl).2 hend

end Key

theorem headSettled_of_no_word {t : List UInt8} (h : ∀ k, Word k → ¬k <+: lowered t) : HeadSettled t :=
  fun _ hkey hpattern => absurd ((patternAt_key hkey).mp hpattern) (h _ (key_word hkey))

theorem headSettled_of_key {q u r : List UInt8} (hq : q ∈ sensitiveKeys) (hu : lowered u <:+ q)
    (hr : InertHead r)
    (hvalue : ∀ tail, valueTail (isAuthorization q) r = some tail → ∀ b ∈ tail.takeWhile plain, b = redacted) :
    HeadSettled (u ++ r) := by
  intro key hkey hpattern tail htail
  have hpre := (patternAt_key hkey).mp hpattern
  rw [lowered_append] at hpre
  obtain ⟨c, rest, rfl, hc⟩ := hr
  rcases lt_trichotomy key.length u.length with hlt | heq | hgt
  · -- the key ends inside `u`, where no gap opens
    obtain ⟨d, tail', hd, hinert⟩ := valueTail_opens htail
    rw [List.drop_append_of_le_length hlt.le] at hd
    have hmem : d ∈ u := by
      cases hdrop : u.drop key.length with
      | nil => exact absurd (List.drop_eq_nil_iff.mp hdrop) (by omega)
      | cons a l =>
        rw [hdrop] at hd
        have ha : a ∈ u.drop key.length := by
          rw [hdrop]
          exact List.mem_cons_self
        rw [← (List.cons_eq_cons.mp hd).1]
        exact List.mem_of_mem_drop ha
    have hnot := (key_word hq).closed _ (hu.subset (List.mem_map_of_mem hmem))
    rw [inert_lower, hinert] at hnot
    cases hnot
  · have hkeyu : key = lowered u := by
      have := List.prefix_iff_eq_take.mp hpre
      rwa [heq, ← length_lowered u, List.take_left] at this
    have hscheme : isAuthorization key = isAuthorization q := key_scheme hq hkey (hkeyu ▸ hu)
    rw [heq, List.drop_left, hscheme] at htail
    exact hvalue tail htail
  · -- the key reaches into the gap
    have hmem : toAsciiLowercase c ∈ key := by
      have hlonger : lowered u ++ [toAsciiLowercase c] <+: key := by
        refine List.prefix_of_prefix_length_le ?_ hpre ?_
        · exact (List.prefix_append_right_inj _).mpr (List.cons_prefix_cons.mpr ⟨rfl, List.nil_prefix⟩)
        · rw [List.length_append, length_lowered]
          exact hgt
      exact hlonger.subset (List.mem_append_right _ (List.mem_singleton_self _))
    have hnot := (key_word hkey).closed _ hmem
    rw [inert_lower, hc] at hnot
    cases hnot

theorem takeWhile_plain {v after : List UInt8} (hv : ∀ b ∈ v, plain b = true)
    (hafter : ∀ d ∈ after.head?, isValueDelimiter d = true) : (v ++ after).takeWhile plain = v := by
  rw [List.takeWhile_append_of_pos hv]
  cases after with
  | nil => exact List.append_nil v
  | cons d rest =>
    rw [List.takeWhile_cons_of_neg (by rw [plain, hafter d rfl]; decide), List.append_nil]

theorem plain_of_mem_replicate {n : ℕ} : ∀ b ∈ List.replicate n redacted, plain b = true := by
  intro b hb
  rw [List.eq_of_mem_replicate hb]
  decide

theorem suffix_append_cases {s r t : List UInt8} (h : t <:+ s ++ r) :
    t <:+ r ∨ ∃ y, y <:+ s ∧ y ≠ [] ∧ t = y ++ r := by
  induction s with
  | nil => exact .inl h
  | cons b s ih =>
    rcases List.suffix_cons_iff.mp h with rfl | h
    · exact .inr ⟨b :: s, List.suffix_refl _, nofun, rfl⟩
    · rcases ih h with h | ⟨y, hy, hne, rfl⟩
      · exact .inl h
      · exact .inr ⟨y, hy.trans (List.suffix_cons b s), hne, rfl⟩

theorem masks_of_suffix {n : ℕ} {t : List UInt8} (ht : t <:+ List.replicate n redacted) (hne : t ≠ []) :
    ∃ m, t = List.replicate (m + 1) redacted := by
  obtain ⟨b, t, rfl⟩ := List.exists_cons_of_ne_nil hne
  exact ⟨t.length, List.eq_replicate_of_mem fun c hc => List.eq_of_mem_replicate (ht.subset hc)⟩

theorem masked_cases {u g after t : List UInt8} {n : ℕ} (hgap : Gap g (List.replicate n redacted ++ after))
    (ht : t <:+ u ++ (g ++ List.replicate n redacted)) (hne : t ≠ []) :
    (∃ m, t = List.replicate (m + 1) redacted) ∨ (∃ b t', t = b :: t' ∧ inert b = true) ∨
      (∃ scheme y, Bearer scheme (List.replicate n redacted ++ after) ∧ y <:+ scheme ∧ y ≠ [] ∧
        t = y ++ List.replicate n redacted) ∨
      ∃ y, y <:+ u ∧ y ≠ [] ∧ t = y ++ (g ++ List.replicate n redacted) := by
  obtain ⟨blank, scheme, rfl, -, hinert, hscheme⟩ := hgap.parts
  rcases suffix_append_cases ht with ht | hname
  · rcases suffix_append_cases ht with ht | ⟨y, hy, hy', rfl⟩
    · exact .inl (masks_of_suffix ht hne)
    · rcases suffix_append_cases hy with hy | ⟨z, hz, hz', rfl⟩
      · rcases hscheme with rfl | hbearer
        · exact absurd (List.suffix_nil.mp hy) hy'
        · exact .inr (.inr (.inl ⟨scheme, y, hbearer, hy, hy', rfl⟩))
      · obtain ⟨b, z, rfl⟩ := List.exists_cons_of_ne_nil hz'
        exact .inr (.inl ⟨b, _, rfl, hinert b (hz.subset List.mem_cons_self)⟩)
  · exact .inr (.inr (.inr hname))

theorem headSettled_masked {q u g after t : List UInt8} {n : ℕ} (hq : q ∈ sensitiveKeys) (hu : lowered u <:+ q)
    (htail : valueTail (isAuthorization q) (g ++ (List.replicate n redacted ++ after)) =
      some (List.replicate n redacted ++ after))
    (hafter : ∀ d ∈ after.head?, isValueDelimiter d = true)
    (ht : t <:+ u ++ (g ++ List.replicate n redacted)) (hne : t ≠ []) : HeadSettled (t ++ after) := by
  have hquiet : ∀ m, ∀ c ∈ (List.replicate m redacted ++ after).head?, quiet c = true := by
    intro m c hc
    cases m with
    | zero => rw [quiet, hafter c hc, Bool.or_true]; rfl
    | succ m => cases hc; decide
  obtain ⟨g', hg', hgap⟩ := valueTail_gap htail
  obtain rfl : g = g' := List.append_cancel_right hg'
  rcases masked_cases hgap ht hne with ⟨m, rfl⟩ | ⟨b, t, rfl, hb⟩ | ⟨scheme, y, hbearer, hy, hy', rfl⟩ |
    ⟨y, hy, hy', rfl⟩
  · exact headSettled_of_no_word fun k word => word.not_before_quiet (hquiet m)
  · exact headSettled_of_no_word fun k word => word.not_at_inert hb
  · rw [List.append_assoc]
    exact headSettled_of_no_word fun k word => word.not_at_bearer hbearer hy hy' (hquiet n)
  · rw [List.append_assoc, List.append_assoc]
    refine headSettled_of_key hq ((List.IsSuffix.map _ hy).trans hu) (hgap.opens _) ?_
    intro tail heq b hb
    rw [htail] at heq
    rw [← Option.some_inj.mp heq, takeWhile_plain plain_of_mem_replicate hafter] at hb
    exact List.eq_of_mem_replicate hb

theorem settled_masked {q u g after : List UInt8} {n : ℕ} (hq : q ∈ sensitiveKeys) (hu : lowered u <:+ q)
    (htail : valueTail (isAuthorization q) (g ++ (List.replicate n redacted ++ after)) =
      some (List.replicate n redacted ++ after))
    (hafter : ∀ d ∈ after.head?, isValueDelimiter d = true) :
    Settled (u ++ (g ++ (List.replicate n redacted ++ after))) ↔ Settled after := by
  rw [← List.append_assoc g, ← List.append_assoc u]
  exact settled_append fun t ht hne => headSettled_masked hq hu htail hafter ht hne

theorem head?_dropWhile_plain (w : List UInt8) : ∀ d ∈ (w.dropWhile plain).head?, isValueDelimiter d = true := by
  intro d hd
  have hnot := List.head?_dropWhile_not plain w
  rw [Option.mem_def.mp hd] at hnot
  simpa [plain] using hnot

theorem liveTokenEnd_of_noCredential {w : List UInt8} (h : credentialAt w = false) : liveTokenEnd w = none := by
  refine if_neg fun hlive => ?_
  have hpre : ∀ p ∈ inlineCredentialPrefixes, w.take 8 = p → credentialAt w = true := by
    rintro p hp rfl
    refine credentialAt_iff.mpr ⟨_, hp, ?_⟩
    rw [← (credentialPrefix_word hp).lower]
    exact (List.take_prefix 8 w).map _
  have hsome : credentialAt w = true := by
    rcases hlive with hlive | hlive
    · exact hpre _ (List.mem_map_of_mem (by simp)) hlive
    · exact hpre _ (List.mem_map_of_mem (by simp)) hlive
  rw [h] at hsome
  cases hsome

theorem fragmentAt_some {w : List UInt8} {start stop : ℕ} (hlive : liveTokenEnd w = none)
    (h : fragmentAt w = some (start, stop)) : ∃ key ∈ sensitiveKeys, patternAt w key = true ∧ key.length ≤ start ∧
      valueTail (isAuthorization key) (w.drop key.length) = some (w.drop start) ∧
      stop = start + ((w.drop start).takeWhile plain).length ∧ w.drop stop = (w.drop start).dropWhile plain := by
  rw [fragmentAt, hlive] at h
  obtain ⟨key, hkey, h⟩ := Option.bind_eq_some_iff.mp h
  obtain ⟨⟨begins, quoted⟩, hparse, h⟩ := Option.bind_eq_some_iff.mp h
  obtain ⟨rfl, rfl⟩ := Prod.mk.inj (Option.some_inj.mp h)
  have hpattern := List.find?_some hkey
  have htail := parseValueStart_tail hpattern
  rw [hparse, Option.map_some] at htail
  obtain ⟨⟨index, flags⟩, hsep, heq⟩ := Option.map_eq_some_iff.mp hparse
  obtain ⟨rfl, -⟩ := Prod.mk.inj heq
  exact ⟨key, List.mem_of_find?_eq_some hkey, hpattern, (separatedValue_gt hsep).le, htail.symm,
    valueEnd_eq w index quoted, drop_valueEnd w index quoted⟩

theorem fragmentAt_none {w : List UInt8} (hlive : liveTokenEnd w = none) (h : fragmentAt w = none) :
    HeadSettled w := by
  intro key hkey hpattern tail htail
  rw [fragmentAt, hlive] at h
  cases hmatch : keyMatch w with
  | none =>
    have hnone := List.find?_eq_none.mp hmatch key hkey
    exact absurd hpattern hnone
  | some first =>
    have hfirst := List.mem_of_find?_eq_some hmatch
    have hpre := (patternAt_key hfirst).mp (List.find?_some hmatch)
    have hsame : first = key := by
      rcases List.prefix_or_prefix_of_prefix hpre ((patternAt_key hkey).mp hpattern) with hle | hle
      · exact key_unique hkey hfirst hle
      · exact (key_unique hfirst hkey hle).symm
    subst hsame
    have hparse := parseValueStart_tail hpattern
    rw [htail] at hparse
    obtain ⟨found, hfound, -⟩ := Option.map_eq_some_iff.mp hparse
    rw [hmatch] at h
    dsimp only [Option.bind_eq_bind, Option.bind_some] at h
    rw [hfound] at h
    cases h

theorem settled_at_key {p key : List UInt8} {start : ℕ} (hkey : key ∈ sensitiveKeys)
    (hpattern : patternAt p key = true)
    (htail : valueTail (isAuthorization key) (p.drop key.length) = some (p.drop start)) :
    Settled p ↔ (p.drop start).takeWhile plain = List.replicate ((p.drop start).takeWhile plain).length redacted ∧
      Settled ((p.drop start).dropWhile plain) := by
  have hvalue : Settled p →
      (p.drop start).takeWhile plain = List.replicate ((p.drop start).takeWhile plain).length redacted := by
    intro h
    have hne : p ≠ [] := by
      rintro rfl
      exact (key_word hkey).not_at_nil ((patternAt_key hkey).mp hpattern)
    exact List.eq_replicate_of_mem (h p (List.suffix_refl p) hne key hkey hpattern _ htail)
  obtain ⟨g, hg, -⟩ := valueTail_gap htail
  have hmasked : (p.drop start).takeWhile plain =
      List.replicate ((p.drop start).takeWhile plain).length redacted →
      (Settled p ↔ Settled ((p.drop start).dropWhile plain)) := by
    intro hmask
    have hsplit : p.drop start = List.replicate ((p.drop start).takeWhile plain).length redacted ++
        (p.drop start).dropWhile plain := by
      rw [← hmask, List.takeWhile_append_dropWhile]
    have hu : lowered (p.take key.length) <:+ key := by
      have := List.prefix_iff_eq_take.mp ((patternAt_key hkey).mp hpattern)
      rw [lowered, List.map_take, ← lowered, ← this]
    rw [hg] at htail
    have hwhole := settled_masked hkey hu (g := g) (hsplit ▸ htail) (head?_dropWhile_plain (p.drop start))
    rw [← hsplit, ← hg, List.take_append_drop] at hwhole
    exact hwhole
  constructor
  · intro h
    exact ⟨hvalue h, (hmasked (hvalue h)).mp h⟩
  · rintro ⟨hmask, hrest⟩
    exact (hmasked hmask).mpr hrest

theorem redactFragments_eq_iff {p : List UInt8} (hno : NoCredential p) : redactFragments p = p ↔ Settled p := by
  induction p using redactFragments.induct with
  | case1 =>
    rw [redactFragments]
    exact ⟨fun _ t ht hne => absurd (List.suffix_nil.mp ht) hne, fun _ => rfl⟩
  | case2 b rest hnone ih =>
    have hlive := liveTokenEnd_of_noCredential (hno _ (List.suffix_refl _))
    have hrest := ih fun t ht => hno t (ht.trans (List.suffix_cons b rest))
    rw [redactFragments, hnone, settled_cons, ← hrest, List.cons_inj_right]
    exact (and_iff_right (fragmentAt_none hlive hnone)).symm
  | case3 b rest start stop hsome ih =>
    have hlive := liveTokenEnd_of_noCredential (hno _ (List.suffix_refl _))
    obtain ⟨key, hkey, hpattern, -, htail, hstop, hdrop⟩ := fragmentAt_some hlive hsome
    have hrest := ih fun t ht => hno t (ht.trans (List.drop_suffix stop _))
    rw [redactFragments, hsome, settled_at_key hkey hpattern htail, ← hdrop, ← hrest]
    have hsplit : b :: rest = (b :: rest).take start ++ (((b :: rest).drop start).takeWhile plain ++
        (b :: rest).drop stop) := by
      rw [hdrop, List.takeWhile_append_dropWhile, List.take_append_drop]
    have hcount : stop - start = (((b :: rest).drop start).takeWhile plain).length := by omega
    dsimp only
    nth_rewrite 3 [hsplit]
    rw [hcount, List.append_assoc, List.append_cancel_left_eq]
    constructor
    · intro heq
      obtain ⟨hmask, hafter⟩ := List.append_inj heq List.length_replicate
      exact ⟨hmask.symm, hafter⟩
    · rintro ⟨hmask, hafter⟩
      rw [← hmask, hafter]

theorem masked_redactFragments {p : List UInt8} (hno : NoCredential p) : Masked p (redactFragments p) := by
  induction p using redactFragments.induct with
  | case1 =>
    rw [redactFragments]
    exact .nil
  | case2 b rest hnone ih =>
    rw [redactFragments, hnone]
    exact .cons (.inl rfl) (ih fun t ht => hno t (ht.trans (List.suffix_cons b rest)))
  | case3 b rest start stop hsome ih =>
    have hlive := liveTokenEnd_of_noCredential (hno _ (List.suffix_refl _))
    obtain ⟨key, -, -, -, -, hstop, hdrop⟩ := fragmentAt_some hlive hsome
    have hcount : stop - start = (((b :: rest).drop start).takeWhile plain).length := by omega
    have hrest := ih fun t ht => hno t (ht.trans (List.drop_suffix stop _))
    have hvalue := masked_replicate (((b :: rest).drop start).takeWhile plain)
    rw [redactFragments, hsome]
    dsimp only
    rw [hcount, List.append_assoc]
    have hall := List.rel_append (masked_refl ((b :: rest).take start)) (List.rel_append hvalue hrest)
    simpa only [Masked, hdrop, List.takeWhile_append_dropWhile, List.take_append_drop] using hall

theorem sanitizePayloadFragments_eq_iff {p : List UInt8} (hno : NoCredential p) :
    sanitizePayloadFragments p = p ↔ Settled p := by
  rw [← redactFragments_eq_iff hno, sanitizePayloadFragments, redactInlineCredentialTokens_eq]
  constructor
  · intro h
    have hback := redactFrom_masked false (redactFragments p)
    rw [h] at hback
    exact (masked_antisymm (masked_redactFragments hno) hback).symm
  · intro h
    rw [h, redactFrom_of_noCredential hno]

end CrashLab.SettledPayloads
