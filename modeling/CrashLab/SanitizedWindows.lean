import CrashLab.FixtureSanitize

namespace CrashLab.SanitizedWindows

open FixtureSanitize SignatureHash Splices

variable {w out done : List UInt8}

theorem skipWhitespace_le {index : ℕ} (h : index ≤ w.length) : skipWhitespace w index ≤ w.length := by
  have htake : ((w.drop index).takeWhile isAsciiWhitespace).length ≤ (w.drop index).length :=
    (List.takeWhile_prefix _).length_le
  rw [List.length_drop] at htake
  unfold skipWhitespace
  omega

theorem skipQuote_le {index : ℕ} (h : index ≤ w.length) : (skipQuote w index).1 ≤ w.length := by
  unfold skipQuote
  split
  · next hquote =>
    obtain ⟨hlt, -⟩ := List.getElem?_eq_some_iff.mp hquote
    exact hlt
  · exact h

theorem skipBearer_le {index : ℕ} (h : index ≤ w.length) : skipBearer w index ≤ w.length := by
  unfold skipBearer
  split
  · next hbearer =>
    have hlen := congrArg List.length (beq_iff_eq.mp hbearer)
    have hseven : (asBytes "bearer ").length = 7 := by decide +kernel
    rw [List.length_map, List.length_map, hseven, List.length_take, List.length_drop] at hlen
    split <;> omega
  · exact h

theorem separatedValue_le {name : List UInt8} {index start : ℕ} {flags : Bool × Bool}
    (h : separatedValue w index name = some (start, flags)) : start ≤ w.length := by
  unfold separatedValue at h
  dsimp only at h
  split at h
  · next hsep =>
    obtain ⟨rfl, -⟩ := Prod.mk.inj (Option.some_inj.mp h)
    have hlt : skipWhitespace w (skipQuote w index).1 < w.length := by
      rcases hsep with hsep | hsep <;> exact (List.getElem?_eq_some_iff.mp hsep).1
    have hvalue := skipQuote_le (skipWhitespace_le (Nat.succ_le_of_lt hlt))
    split
    · exact skipBearer_le hvalue
    · exact hvalue
  · cases h

theorem valueEnd_le {start : ℕ} (quoted : Bool) (h : start ≤ w.length) : valueEnd w start quoted ≤ w.length := by
  have htake : ((w.drop start).takeWhile fun b => !isValueDelimiter b && !(quoted && b == quotation)).length ≤
      (w.drop start).length := (List.takeWhile_prefix _).length_le
  rw [List.length_drop] at htake
  unfold valueEnd
  omega

theorem valueRange_bounds {rule : SanitizationRule} {start stop : ℕ} (h : valueRange rule w = some (start, stop)) :
    rule.pattern.length ≤ start ∧ start ≤ stop ∧ stop ≤ w.length := by
  unfold valueRange at h
  split at h
  · next hpattern =>
    split at h
    · obtain ⟨⟨begins, flags⟩, hsep, heq⟩ := Option.map_eq_some_iff.mp h
      obtain ⟨rfl, rfl⟩ := Prod.mk.inj heq
      exact ⟨(separatedValue_gt hsep).le, le_valueEnd w _ _, valueEnd_le _ (separatedValue_le hsep)⟩
    · obtain ⟨rfl, rfl⟩ := Prod.mk.inj (Option.some_inj.mp h)
      rw [patternAt, Bool.and_eq_true, decide_eq_true_eq] at hpattern
      exact ⟨le_refl _, le_valueEnd w _ _, valueEnd_le _ hpattern.1⟩
  · cases h

theorem matchingRule_some {context : SanitizationContext} {rule : SanitizationRule} {start stop : ℕ}
    (h : matchingRule context w = some (rule, start, stop)) :
    rule ∈ context.rules ∧ valueRange rule w = some (start, stop) := by
  obtain ⟨candidate, hmem, hmap⟩ := List.exists_of_findSome?_eq_some h
  obtain ⟨range, hrange, heq⟩ := Option.map_eq_some_iff.mp hmap
  obtain ⟨rfl, rfl⟩ := Prod.mk.inj heq
  exact ⟨hmem, hrange⟩

theorem liveTokenEnd_bounds {stop : ℕ} (h : liveTokenEnd w = some stop) : 8 ≤ stop ∧ stop ≤ w.length := by
  unfold liveTokenEnd at h
  split at h
  · next hprefix =>
    have hlen : (w.take 8).length = 8 := by
      rcases hprefix with h | h <;> rw [h] <;> decide +kernel
    have htake : ((w.drop 8).takeWhile isAsciiAlphanumeric).length ≤ (w.drop 8).length :=
      (List.takeWhile_prefix _).length_le
    rw [List.length_take] at hlen
    rw [List.length_drop] at htake
    have := Option.some_inj.mp h
    omega
  · cases h

theorem credentialLength_le {n : ℕ} (h : credentialLength w = some n) : n ≤ w.length := by
  obtain ⟨p, hfind, rfl⟩ := Option.map_eq_some_iff.mp h
  have hpattern := List.find?_some hfind
  rw [patternAt, Bool.and_eq_true, decide_eq_true_eq] at hpattern
  have htake : ((w.drop p.length).takeWhile isCredentialTokenChar).length ≤ (w.drop p.length).length :=
    (List.takeWhile_prefix _).length_le
  rw [List.length_drop] at htake
  omega

theorem copyFromSlice_eq (out : List UInt8) (start : ℕ) (s : List UInt8) :
    copyFromSlice out start s = out.take start ++ s ++ out.drop (start + s.length) := rfl

theorem length_copyFromSlice {source : List UInt8} {start : ℕ} (h : start + source.length ≤ out.length) :
    (copyFromSlice out start source).length = out.length := by
  have hinside : (Splice.mk start source.length source).Inside out := h
  exact Nat.add_right_cancel (Splice.length_run hinside)

theorem replaceWithX_append {start stop : ℕ} (hstart : start ≤ stop) :
    replaceWithX (done ++ w) (done.length + start) (done.length + stop) =
      done ++ (w.take start ++ List.replicate (stop - start) redacted ++ w.drop stop) := by
  have hcount : done.length + stop - (done.length + start) = stop - start := by omega
  have hstop : done.length + start + (stop - start) = done.length + stop := by omega
  simp only [replaceWithX, copyFromSlice, Splice.run, hcount, List.length_replicate, hstop]
  rw [List.take_length_add_append, List.drop_length_add_append, List.append_assoc, List.append_assoc,
    List.append_assoc]

theorem copyWithin_self {start stop : ℕ} (hstart : start ≤ stop) (hstop : stop ≤ out.length) :
    copyWithin out start stop start = out := by
  have hlen : ((out.take stop).drop start).length = stop - start := by
    rw [List.length_drop, List.length_take]
    omega
  have hend : start + (stop - start) = stop := by omega
  have htake : out.take start = (out.take stop).take start := by rw [List.take_take, min_eq_left hstart]
  simp only [copyWithin, copyFromSlice, Splice.run, hlen, hend]
  rw [htake, List.take_append_drop, List.take_append_drop]

theorem replaceWithCanonical_fits {start stop : ℕ} {s : List UInt8} (hstart : start ≤ stop)
    (hstop : stop ≤ out.length) (hs : stop - start ≤ s.length) :
    replaceWithCanonical out start stop s = (Splice.mk start (stop - start) s).run out := by
  unfold replaceWithCanonical
  dsimp only
  by_cases heq : s.length = stop - start
  · rw [if_pos heq, copyFromSlice, heq]
  · rw [if_neg heq, if_neg (by omega)]
    let grown := out ++ List.replicate (s.length - (stop - start)) 0
    have hgrown : grown.length = out.length + (s.length - (stop - start)) := by
      rw [List.length_append, List.length_replicate]
    have htail : (grown.take out.length).drop stop = out.drop stop := by rw [List.take_left]
    have hmoved : copyWithin grown stop out.length (start + s.length) =
        grown.take (start + s.length) ++ out.drop stop := by
      have hend : grown.length ≤ start + s.length + (out.drop stop).length := by
        rw [hgrown, List.length_drop]
        omega
      rw [copyWithin, htail, copyFromSlice_eq, List.drop_of_length_le hend, List.append_nil]
    have hhead : (grown.take (start + s.length)).length = start + s.length := by
      rw [List.length_take, hgrown]
      omega
    have hend : start + (stop - start) = stop := by omega
    rw [hmoved, copyFromSlice_eq, List.drop_left' hhead, List.take_append_of_le_length (by omega),
      List.take_take, min_eq_left (by omega), List.take_append_of_le_length (by omega)]
    simp only [Splice.run, hend]

theorem replaceWithCanonical_cuts {start stop : ℕ} {s : List UInt8} (hstop : stop ≤ out.length)
    (hs : s.length < stop - start) :
    replaceWithCanonical out start stop s =
      out.take start ++ s ++ (out.drop (start + s.length)).take (out.length - stop) := by
  have hlen : (copyFromSlice out start s).length = out.length := length_copyFromSlice (by omega)
  have hhead : (out.take start ++ s).length = start + s.length := by
    rw [List.length_append, List.length_take]
    omega
  unfold replaceWithCanonical
  dsimp only
  have hleft : out.length - (stop - start - s.length) - (start + s.length) = out.length - stop := by omega
  rw [if_neg (by omega), if_pos hs, copyWithin_self (by omega) (by omega), hlen, copyFromSlice_eq,
    List.take_append, hhead, List.take_of_length_le (by omega), hleft]

theorem replaceWithCanonical_fits_append {start stop : ℕ} {s : List UInt8} (hstart : start ≤ stop)
    (hstop : stop ≤ w.length) (hs : stop - start ≤ s.length) :
    replaceWithCanonical (done ++ w) (done.length + start) (done.length + stop) s =
      done ++ (w.take start ++ s ++ w.drop stop) := by
  have hend : done.length + start + (done.length + stop - (done.length + start)) = done.length + stop := by omega
  rw [replaceWithCanonical_fits (by omega) (by rw [List.length_append]; omega) (by omega), Splice.run, hend,
    List.take_length_add_append, List.drop_length_add_append, List.append_assoc, List.append_assoc,
    List.append_assoc]

theorem replaceWithCanonical_cuts_append {start stop : ℕ} {s : List UInt8} (hstop : stop ≤ w.length)
    (hs : s.length < stop - start) :
    replaceWithCanonical (done ++ w) (done.length + start) (done.length + stop) s =
      done ++ (w.take start ++ s ++ (w.drop (start + s.length)).take (w.length - stop)) := by
  have hleft : (done ++ w).length - (done.length + stop) = w.length - stop := by
    rw [List.length_append]
    omega
  rw [replaceWithCanonical_cuts (by rw [List.length_append]; omega) (by omega), hleft, Nat.add_assoc,
    List.take_length_add_append, List.drop_length_add_append, List.append_assoc, List.append_assoc,
    List.append_assoc]

/-- `Rewrites context w o`: the pass leaves `o` where it finds `w` ahead. -/
inductive Rewrites (context : SanitizationContext) : List UInt8 → List UInt8 → Prop
  | done : Rewrites context [] []
  | token {w o : List UInt8} {stop : ℕ} (live : liveTokenEnd w = some stop)
      (rest : Rewrites context (w.drop stop) o) : Rewrites context w (List.replicate stop redacted ++ o)
  | idle {b : UInt8} {w o : List UInt8} (live : liveTokenEnd (b :: w) = none)
      (unmatched : matchingRule context (b :: w) = none) (rest : Rewrites context w o) :
      Rewrites context (b :: w) (b :: o)
  | value {w o : List UInt8} {rule : SanitizationRule} {start stop : ℕ} (live : liveTokenEnd w = none)
      (matched : matchingRule context w = some (rule, start, stop)) (strategy : rule.strategy = .replaceWithX)
      (rest : Rewrites context (w.drop stop) o) :
      Rewrites context w (w.take start ++ List.replicate (stop - start) redacted ++ o)
  | canonical {w o : List UInt8} {rule : SanitizationRule} {start stop : ℕ} {s : String}
      (live : liveTokenEnd w = none) (matched : matchingRule context w = some (rule, start, stop))
      (strategy : rule.strategy = .replaceWithCanonical s) (fits : stop - start ≤ (asBytes s).length)
      (rest : Rewrites context (w.drop stop) o) : Rewrites context w (w.take start ++ asBytes s ++ o)
  | canonicalCut {w o : List UInt8} {rule : SanitizationRule} {start stop : ℕ} {s : String}
      (live : liveTokenEnd w = none) (matched : matchingRule context w = some (rule, start, stop))
      (strategy : rule.strategy = .replaceWithCanonical s) (longer : (asBytes s).length < stop - start)
      (rest : Rewrites context ((w.drop (start + (asBytes s).length)).take (w.length - stop)) o) :
      Rewrites context w (w.take start ++ asBytes s ++ o)

def passAt (behind w : List UInt8) (report : SanitizationReport) : Pass := ⟨behind ++ w, behind.length, report⟩

theorem ahead_passAt (behind w : List UInt8) (report : SanitizationReport) : (passAt behind w report).ahead = w :=
  List.drop_left

theorem eq_passAt {behind emitted w : List UInt8} {pass : Pass} (hout : pass.out = behind ++ (emitted ++ w))
    (hindex : pass.index = behind.length + emitted.length) :
    pass = passAt (behind ++ emitted) w pass.report := by
  cases pass
  rw [passAt, List.length_append, List.append_assoc]
  exact congrArg₂ (fun out index => Pass.mk out index _) hout hindex

structure Emits (context : SanitizationContext) (w emitted next : List UInt8) : Prop where
  rewrites : ∀ o, Rewrites context next o → Rewrites context w (emitted ++ o)
  shorter : (∀ rule ∈ context.rules, rule.pattern ≠ []) → next.length < w.length

theorem step_passAt (context : SanitizationContext) (behind : List UInt8) {w : List UInt8} (h : w ≠ [])
    (report : SanitizationReport) : ∃ emitted next report', Emits context w emitted next ∧
      (passAt behind w report).step context = passAt (behind ++ emitted) next report' := by
  have hindex : (passAt behind w report).index = behind.length := rfl
  have hout : (passAt behind w report).out = behind ++ w := rfl
  unfold Pass.step
  rw [ahead_passAt, hindex, hout]
  cases hlive : liveTokenEnd w with
  | some stop =>
    have hbounds := liveTokenEnd_bounds hlive
    refine ⟨List.replicate stop redacted, w.drop stop, _, ⟨fun o => Rewrites.token hlive, fun _ => ?_⟩,
      eq_passAt ?_ ?_⟩
    · rw [List.length_drop]
      omega
    · have := @replaceWithX_append w behind 0 stop (Nat.zero_le stop)
      simpa only [Nat.add_zero, List.take_zero, List.nil_append, Nat.sub_zero] using this
    · rw [List.length_replicate]
  | none =>
    cases hrule : matchingRule context w with
    | none =>
      obtain ⟨b, rest, rfl⟩ := List.exists_cons_of_ne_nil h
      refine ⟨[b], rest, _, ⟨fun o => Rewrites.idle hlive hrule, fun _ => Nat.lt_succ_self _⟩, eq_passAt rfl rfl⟩
    | some found =>
      obtain ⟨rule, start, stop⟩ := found
      obtain ⟨hmem, hrange⟩ := matchingRule_some hrule
      obtain ⟨hpattern, hstart, hstop⟩ := valueRange_bounds hrange
      have htaken : (w.take start).length = start := by
        rw [List.length_take]
        omega
      have hpositive : (∀ rule ∈ context.rules, rule.pattern ≠ []) → 0 < start := fun hne =>
        (List.length_pos_of_ne_nil (hne rule hmem)).trans_le hpattern
      dsimp only
      cases hstrategy : rule.strategy with
      | replaceWithX =>
        dsimp only
        have hend : behind.length + stop = behind.length + (start + (stop - start)) := by omega
        refine ⟨_, _, _, ⟨fun o => Rewrites.value hlive hrule hstrategy, fun hne => ?_⟩, eq_passAt ?_ ?_⟩
        · have := hpositive hne
          rw [List.length_drop]
          omega
        · exact replaceWithX_append hstart
        · rw [List.length_append, htaken, List.length_replicate]
          exact hend
      | replaceWithCanonical s =>
        dsimp only
        by_cases hfits : stop - start ≤ (asBytes s).length
        · refine ⟨_, _, _, ⟨fun o => Rewrites.canonical hlive hrule hstrategy hfits, fun hne => ?_⟩,
            eq_passAt ?_ ?_⟩
          · have := hpositive hne
            rw [List.length_drop]
            omega
          · exact replaceWithCanonical_fits_append hstart hstop hfits
          · rw [List.length_append, htaken, Nat.add_assoc]
        · have hlonger : (asBytes s).length < stop - start := by omega
          refine ⟨_, _, _, ⟨fun o => Rewrites.canonicalCut hlive hrule hstrategy hlonger, fun hne => ?_⟩,
            eq_passAt ?_ ?_⟩
          · have := hpositive hne
            rw [List.length_take, List.length_drop]
            omega
          · exact replaceWithCanonical_cuts_append hstop hlonger
          · rw [List.length_append, htaken, Nat.add_assoc]

theorem run_rewrites (context : SanitizationContext) (behind w : List UInt8) (report : SanitizationReport)
    {final : Pass} (h : Pass.run context (passAt behind w report) = some final) :
    ∃ o, Rewrites context w o ∧ final.out = behind ++ o := by
  induction hn : w.length using Nat.strong_induction_on generalizing behind w report with
  | _ n ih =>
    rw [Pass.run] at h
    by_cases hw : w = []
    · subst hw
      rw [if_neg (by simp [passAt])] at h
      exact ⟨[], Rewrites.done, by rw [← Option.some_inj.mp h]; rfl⟩
    · obtain ⟨emitted, next, report', hemits, hstep⟩ := step_passAt context behind hw report
      have hlt : (passAt behind w report).index < (passAt behind w report).out.length := by
        simpa [passAt] using List.length_pos_of_ne_nil hw
      rw [if_pos hlt, hstep, ahead_passAt, ahead_passAt] at h
      split at h
      · next hshorter =>
        obtain ⟨o, ho, hfinal⟩ := ih next.length (hn ▸ hshorter) _ next _ h rfl
        exact ⟨emitted ++ o, hemits.rewrites o ho, by rw [hfinal, List.append_assoc]⟩
      · cases h

theorem run_returns {context : SanitizationContext} (hne : ∀ rule ∈ context.rules, rule.pattern ≠ [])
    (behind w : List UInt8) (report : SanitizationReport) :
    ∃ final, Pass.run context (passAt behind w report) = some final := by
  induction hn : w.length using Nat.strong_induction_on generalizing behind w report with
  | _ n ih =>
    rw [Pass.run]
    by_cases hw : w = []
    · subst hw
      exact ⟨_, if_neg (by simp [passAt])⟩
    · obtain ⟨emitted, next, report', hemits, hstep⟩ := step_passAt context behind hw report
      have hlt : (passAt behind w report).index < (passAt behind w report).out.length := by
        simpa [passAt] using List.length_pos_of_ne_nil hw
      have hshorter := hemits.shorter hne
      rw [if_pos hlt, hstep, ahead_passAt, ahead_passAt, if_pos hshorter]
      exact ih next.length (hn ▸ hshorter) _ next _ rfl

theorem sanitize_rewrites {context : SanitizationContext} {payload out : List UInt8} {report : SanitizationReport}
    (h : sanitizePayloadWithContext payload context = some (out, report)) :
    ∃ o, Rewrites context payload o ∧ out = redactInlineCredentialTokens o := by
  obtain ⟨final, hrun, heq⟩ := Option.map_eq_some_iff.mp h
  obtain ⟨o, ho, hfinal⟩ := run_rewrites context [] payload .empty hrun
  obtain ⟨rfl, -⟩ := Prod.mk.inj heq
  exact ⟨o, ho, by rw [hfinal, List.nil_append]⟩

theorem sanitize_returns {context : SanitizationContext} (hne : ∀ rule ∈ context.rules, rule.pattern ≠ [])
    (payload : List UInt8) : ∃ out report, sanitizePayloadWithContext payload context = some (out, report) := by
  obtain ⟨final, hrun⟩ := run_returns hne [] payload .empty
  exact ⟨_, _, Option.map_eq_some_iff.mpr ⟨final, hrun, rfl⟩⟩

end CrashLab.SanitizedWindows
