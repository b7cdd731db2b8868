import CrashLab.Digest
import CrashLab.RegressionGrouping

namespace CrashLab.RegressionGrouping

open BundlePersist Digest OrderedMaps Taxonomy Texts

variable {Environment Envelope : Type}

section Names

variable {a b : List Char}

abbrev Letter := {c : Char // c.isAlphanum = true}

def letterOf (c : Char) : Option Letter := if h : c.isAlphanum = true then some ⟨c, h⟩ else none

def ink (label : List Char) : List (Option Letter) :=
  ((label.map letterOf).dropWhile Option.isNone).rdropWhile Option.isNone

def named (label : List Char) : List (Option Letter) := if ink label = [] then ink "unknown".toList else ink label

def shown : Option Letter → Char
  | some letter => letter
  | none => '_'

theorem shown_injective : Function.Injective shown := by
  have hletter : ∀ letter : Letter, letter.1 ≠ '_' := by
    rintro ⟨_, h⟩ rfl
    exact absurd h (by decide)
  rintro (_ | a) (_ | b) h
  · rfl
  · exact absurd h.symm (hletter b)
  · exact absurd h (hletter a)
  · exact congrArg some (Subtype.ext h)

theorem shown_letterOf (c : Char) :
    shown (letterOf c) = if c.isAlphanum then c else if c = '-' ∨ c = '.' then '_' else '_' := by
  rw [ite_self, letterOf]
  split <;> rfl

theorem shown_gap (letter : Option Letter) : decide (shown letter = '_') = letter.isNone := by
  cases letter with
  | none => rfl
  | some letter => exact decide_eq_false fun h => nomatch (shown_injective h : some letter = none)

theorem trimUnderscores_shown (text : List (Option Letter)) :
    trimUnderscores (text.map shown) = ((text.dropWhile Option.isNone).rdropWhile Option.isNone).map shown := by
  have hgap : ((fun c => decide (c = '_')) ∘ shown) = Option.isNone := funext shown_gap
  rw [trimUnderscores, List.dropWhile_map, hgap, List.rdropWhile, ← List.map_reverse, List.dropWhile_map, hgap,
    ← List.map_reverse]
  rfl

theorem ink_head {label : List Char} {gap : Option Letter} {rest : List (Option Letter)} (h : ink label = gap :: rest) :
    gap.isNone = false := by
  have hstarts : ink label <+: (label.map letterOf).dropWhile Option.isNone := List.rdropWhile_prefix _ _
  obtain ⟨tail, htail⟩ := hstarts
  rw [h, List.cons_append] at htail
  have hhead := List.head_dropWhile_not Option.isNone (l := label.map letterOf) (by rw [← htail]; exact List.cons_ne_nil _ _)
  simpa [← htail] using hhead

theorem named_eq_cons (label : List Char) : ∃ letter rest, named label = some letter :: rest := by
  rw [named]
  split_ifs with hnil
  · exact ⟨_, _, rfl⟩
  · obtain ⟨gap, rest, hink⟩ := List.exists_cons_of_ne_nil hnil
    have hgap := ink_head hink
    obtain _ | letter := gap
    · cases hgap
    · exact ⟨letter, rest, hink⟩

def started (text : List Char) : List Char := if text.head?.any Char.isDigit then '_' :: text else text

theorem sanitizeIdentSegment_eq (label : List Char) : sanitizeIdentSegment label = started ((named label).map shown) := by
  have htrim : trimUnderscores (label.map fun c => if c.isAlphanum then c else if c = '-' ∨ c = '.' then '_' else '_') =
      (ink label).map shown := by
    rw [ink, ← trimUnderscores_shown, List.map_map]
    exact congrArg trimUnderscores (List.map_congr_left fun c _ => (shown_letterOf c).symm)
  have hsegment : (if (ink label).map shown = [] then "unknown".toList else (ink label).map shown) =
      (named label).map shown := by
    rw [named, apply_ite (List.map shown)]
    simp only [List.map_eq_nil_iff]
    rfl
  rw [sanitizeIdentSegment, htrim]
  simp only [hsegment]
  rfl

theorem sanitizeIdentSegment_eq_iff : sanitizeIdentSegment a = sanitizeIdentSegment b ↔ named a = named b := by
  rw [sanitizeIdentSegment_eq, sanitizeIdentSegment_eq]
  obtain ⟨letterA, restA, hA⟩ := named_eq_cons a
  obtain ⟨letterB, restB, hB⟩ := named_eq_cons b
  have hgapA : letterA.1 ≠ '_' := fun h => nomatch (shown_injective h : some letterA = none)
  have hgapB : letterB.1 ≠ '_' := fun h => nomatch (shown_injective h : some letterB = none)
  have hmap : (named a).map shown = (named b).map shown ↔ named a = named b :=
    (List.map_injective_iff.mpr shown_injective).eq_iff
  refine ⟨fun h => ?_, fun h => by rw [h]⟩
  rw [started, started] at h
  split_ifs at h
  · exact hmap.mp (List.cons.inj h).2
  · rw [hB] at h
    exact absurd (List.cons.inj h).1.symm hgapB
  · rw [hA] at h
    exact absurd (List.cons.inj h).1 hgapA
  · exact hmap.mp h

def seedClasses : List FailureClass :=
  [.emptyInput, .oversizedInput, .invalidEnumTag, .xdr, .state, .budget, .auth]

theorem classifyFailure_mem (seed : CaseSeed) : classifyFailure seed ∈ seedClasses := by
  rw [classifyFailure]
  split
  · decide
  · split_ifs <;> decide

theorem segment_heads : ∀ c ∈ seedClasses, ∀ d ∈ seedClasses,
    (sanitizeIdentSegment c.asStr.toList).head? = (sanitizeIdentSegment d.asStr.toList).head? → c = d := by
  have hdistinct : (seedClasses.map fun c => (sanitizeIdentSegment c.asStr.toList).head?).Nodup := by decide +kernel
  exact fun c hc d hd h => List.inj_on_of_nodup_map hdistinct hc hd h

theorem segment_ne_nil (label : List Char) : sanitizeIdentSegment label ≠ [] := by
  obtain ⟨letter, rest, hnamed⟩ := named_eq_cons label
  rw [sanitizeIdentSegment_eq, started, hnamed]
  split <;> exact List.cons_ne_nil _ _

theorem moduleIdent_eq_iff {k l : RegressionGroupKey} (hk : k.domain ∈ seedClasses) (hl : l.domain ∈ seedClasses) :
    regressionGroupModuleIdent k = regressionGroupModuleIdent l ↔
      k.domain = l.domain ∧ named k.failureMode.toList = named l.failureMode.toList := by
  rw [← sanitizeIdentSegment_eq_iff]
  unfold regressionGroupModuleIdent
  simp only [List.append_assoc, List.append_right_inj]
  constructor
  · intro h
    have hdomain : k.domain = l.domain := by
      apply segment_heads _ hk _ hl
      have hheads := congrArg List.head? h
      rwa [List.head?_append_of_ne_nil _ (segment_ne_nil _), List.head?_append_of_ne_nil _ (segment_ne_nil _)] at hheads
    rw [hdomain, List.append_right_inj, List.append_right_inj] at h
    exact ⟨hdomain, h⟩
  · rintro ⟨hdomain, hmode⟩
    rw [hdomain, hmode]

theorem defaultTestName_eq_iff {bundle other : CaseBundle Environment Envelope} :
    defaultTestName bundle = defaultTestName other ↔ bundle.seed.id = other.seed.id := by
  unfold defaultTestName
  rw [List.append_right_inj]
  exact ⟨toDigits_injective, fun h => by rw [h]⟩

end Names

section Lines

variable {text more : List Char}

def Inline (text : List Char) : Prop := '\n' ∉ text ∧ '\r' ∉ text

instance (text : List Char) : Decidable (Inline text) := inferInstanceAs (Decidable (_ ∧ _))

theorem Inline.append (h : Inline text) (hmore : Inline more) : Inline (text ++ more) := by
  simp only [Inline, List.mem_append, not_or]
  exact ⟨⟨h.1, hmore.1⟩, h.2, hmore.2⟩

theorem inline_literal {l : List Char} (h : Inline l) : Inline (String.ofList l).toList := by
  rwa [String.toList_ofList]

theorem inline_flatMap {α : Type} {f : α → List Char} (h : ∀ a, Inline (f a)) (l : List α) : Inline (l.flatMap f) := by
  simp only [Inline, List.mem_flatMap, not_exists, not_and]
  exact ⟨fun a _ => (h a).1, fun a _ => (h a).2⟩

theorem inline_digitChar {n : ℕ} (h : n < 16) : Inline [n.digitChar] := by
  interval_cases n <;> decide

theorem inline_toDigits {base : ℕ} (hbase : 1 < base) (hle : base ≤ 16) (n : ℕ) : Inline (Nat.toDigits base n) := by
  induction n using Nat.strong_induction_on with
  | _ n ih =>
    rw [Nat.toDigits_eq_if hbase]
    split_ifs with hsmall
    · exact inline_digitChar (hsmall.trans_le hle)
    · have hlast : n % base < 16 := (Nat.mod_lt n (by omega)).trans_le hle
      exact (ih (n / base) (Nat.div_lt_self (by omega) hbase)).append (inline_digitChar hlast)

theorem inline_of_valid (h : isValidRustIdent text = true) : Inline text := by
  have hident : ∀ c ∈ text, c = '_' ∨ c.isAlphanum = true := by
    cases text with
    | nil => nofun
    | cons first rest =>
      simp only [isValidRustIdent, Bool.and_eq_true, Bool.or_eq_true, decide_eq_true_eq, List.all_eq_true] at h
      rw [List.forall_mem_cons]
      refine ⟨?_, h.2⟩
      rw [Char.isAlphanum, Bool.or_eq_true]
      tauto
  constructor
  all_goals
    intro hmem
    exact absurd (hident _ hmem) (by decide)

theorem inline_debugChar (printable : Char → Bool) (c : Char) : Inline (debugChar printable c) := by
  rw [debugChar]
  split_ifs with _ _ hreturn hnewline
  · decide
  · decide
  · decide
  · decide
  · decide
  · decide
  · simpa [Inline] using ⟨Ne.symm hnewline, Ne.symm hreturn⟩
  · exact ((inline_literal (by decide)).append (inline_toDigits (by decide) (by decide) _)).append (inline_literal (by decide))

theorem inline_payloadLiteral (payload : List UInt8) : Inline (payloadLiteral payload) := by
  have hbyte : ∀ b, Inline (byteLiteral b) := by
    intro b
    have hhigh : b.toNat / 16 < 16 := by
      have hlt := b.toNat_lt
      omega
    have hlow : b.toNat % 16 < 16 := by omega
    exact ((by decide : Inline "0x".toList).append (inline_digitChar hhigh)).append (inline_digitChar hlow)
  induction payload with
  | nil => decide
  | cons b payload ih =>
    cases payload with
    | nil => exact hbyte b
    | cons _ _ =>
      unfold payloadLiteral
      rw [List.map_cons, List.map_cons, List.intercalate_cons_cons]
      exact ((hbyte b).append (by decide)).append ih

variable {printable : Char → Bool} {bundle : CaseBundle Environment Envelope}

def LineBut (first : Char) (line : List Char) : Prop := Inline line ∧ line.head? ≠ some first

instance (first : Char) (line : List Char) : Decidable (LineBut first line) := inferInstanceAs (Decidable (_ ∧ _))

variable {first : Char}

theorem lineBut_literal {l : List Char} (h : LineBut first l) : LineBut first (String.ofList l).toList := by
  rwa [String.toList_ofList]

theorem lineBut_around {c : Char} {front behind : List Char} (hfront : LineBut first (c :: front)) (htext : Inline text)
    (hbehind : Inline behind) :
    LineBut first ((String.ofList (c :: front)).toList ++ text ++ (String.ofList behind).toList) := by
  rw [String.toList_ofList, String.toList_ofList]
  exact ⟨(hfront.1.append htext).append hbehind, hfront.2⟩

theorem testBody_lines : ∀ line ∈ testBody printable bundle, LineBut 'f' line := by
  have hdigits : ∀ n, Inline (Nat.toDigits 10 n) := inline_toDigits (by decide) (by decide)
  have hpayload := inline_payloadLiteral bundle.seed.payload
  have hcategory : Inline (debugText printable bundle.signature.category.toList) :=
    ((by decide : Inline ['"']).append (inline_flatMap (inline_debugChar printable) _)).append (by decide)
  simp only [testBody, List.forall_mem_cons, List.not_mem_nil, false_implies, implies_true, and_true]
  refine ⟨lineBut_literal (by decide), lineBut_literal (by decide), lineBut_literal (by decide), lineBut_literal (by decide),
    lineBut_around (by decide) (hdigits _) (by decide), lineBut_around (by decide) hpayload (by decide),
    lineBut_literal (by decide), lineBut_literal (by decide), lineBut_around (by decide) hcategory (by decide),
    lineBut_around (by decide) (hdigits _) (by decide), lineBut_around (by decide) (hdigits _) (by decide),
    lineBut_literal (by decide), lineBut_literal (by decide), lineBut_literal (by decide), lineBut_literal (by decide),
    lineBut_literal (by decide), lineBut_literal (by decide), lineBut_around (by decide) hcategory (by decide),
    lineBut_around (by decide) (hdigits _) (by decide), lineBut_around (by decide) (hdigits _) (by decide),
    lineBut_literal (by decide), lineBut_literal (by decide)⟩

theorem valid_append {front rest : List Char} (hvalid : isValidRustIdent front = true)
    (hrest : ∀ c ∈ rest, c = '_' ∨ c.isAlphanum = true) : isValidRustIdent (front ++ rest) = true := by
  cases front with
  | nil => cases hvalid
  | cons first more =>
    simp only [isValidRustIdent, List.cons_append, Bool.and_eq_true, Bool.or_eq_true, decide_eq_true_eq,
      List.all_eq_true, List.mem_append] at hvalid ⊢
    exact ⟨hvalid.1, fun c hc => hc.elim (hvalid.2 c) (hrest c)⟩

theorem defaultTestName_valid : isValidRustIdent (defaultTestName bundle) = true := by
  apply valid_append (by decide)
  intro c hc
  have hdigit := Nat.isDigit_of_mem_toDigits (by decide) (by decide) hc
  exact .inr (by rw [Char.isAlphanum, hdigit, Bool.or_true])

theorem segment_plain (label : List Char) : ∀ c ∈ sanitizeIdentSegment label, c = '_' ∨ c.isAlphanum = true := by
  have hshown : ∀ c ∈ (named label).map shown, c = '_' ∨ c.isAlphanum = true := by
    rw [List.forall_mem_map]
    rintro (_ | letter) -
    · exact .inl rfl
    · exact .inr letter.2
  rw [sanitizeIdentSegment_eq, started]
  split_ifs
  · exact List.forall_mem_cons.mpr ⟨.inl rfl, hshown⟩
  · exact hshown

theorem moduleIdent_valid (key : RegressionGroupKey) : isValidRustIdent (regressionGroupModuleIdent key) = true := by
  unfold regressionGroupModuleIdent
  rw [List.append_assoc, List.append_assoc]
  apply valid_append (by decide)
  simp only [List.forall_mem_append, List.forall_mem_singleton]
  exact ⟨segment_plain _, .inl trivial, segment_plain _⟩

end Lines

section Reading

structure Submodule where
  name : List Char
  tests : List (List Char)
deriving DecidableEq

def between (before after line : List Char) : Option (List Char) :=
  if before.isPrefixOf line && after.isSuffixOf line then
    some ((line.drop before.length).take (line.length - before.length - after.length))
  else none

def moduleOf (line : List Char) : Option (List Char) := between "    pub mod ".toList " \x7b".toList line

def testOf (line : List Char) : Option (List Char) := between "        fn ".toList "() \x7b".toList line

def readLine (line : List Char) (rest : List (List Char) × List Submodule) : List (List Char) × List Submodule :=
  match moduleOf line with
  | some name => ([], ⟨name, rest.1⟩ :: rest.2)
  | none =>
    match testOf line with
    | some test => (test :: rest.1, rest.2)
    | none => rest

def readSuite (text : List Char) : List Submodule := ((lines text).foldr readLine ([], [])).2

variable {rest : List (List Char) × List Submodule} {line : List Char}

theorem between_append (before name after : List Char) : between before after (before ++ name ++ after) = some name := by
  have hstarts : before.isPrefixOf (before ++ name ++ after) = true := by
    apply List.isPrefixOf_iff_prefix.mpr
    rw [List.append_assoc]
    exact List.prefix_append _ _
  have hends : after.isSuffixOf (before ++ name ++ after) = true := by
    apply List.isSuffixOf_iff_suffix.mpr
    exact List.suffix_append _ _
  have hlength : (before ++ name ++ after).length - before.length - after.length = name.length := by
    simp only [List.length_append]
    omega
  rw [between, hstarts, hends, hlength, List.append_assoc, List.drop_left, List.take_left]
  rfl

theorem between_eq_none {before after : List Char} (h : before.isPrefixOf line = false) :
    between before after line = none := by
  rw [between, h]
  rfl

theorem readLine_module (name : List Char) :
    readLine ("    pub mod ".toList ++ name ++ " \x7b".toList) rest = ([], ⟨name, rest.1⟩ :: rest.2) := by
  rw [readLine, moduleOf, between_append]

theorem foldr_readLine_margin {texts : List (List Char)} (h : ∀ line ∈ texts, LineBut ' ' line) :
    texts.foldr readLine rest = rest := by
  have hone : ∀ line, LineBut ' ' line → readLine line rest = rest := by
    intro line hline
    have hnone : ∀ before after, before.head? = some ' ' → between before after line = none := by
      intro before after hbefore
      apply between_eq_none
      obtain ⟨before, rfl⟩ := List.head?_eq_some_iff.mp hbefore
      cases line with
      | nil => rfl
      | cons c line =>
        have hc : (' ' == c) = false := beq_false_of_ne fun heq => hline.2 (congrArg some heq.symm)
        rw [List.isPrefixOf_cons_cons, hc, Bool.false_and]
    have hmodule : moduleOf line = none := hnone _ _ rfl
    have htest : testOf line = none := hnone _ _ rfl
    rw [readLine, hmodule, htest]
  induction texts with
  | nil => rfl
  | cons line texts ih =>
    rw [List.forall_mem_cons] at h
    rw [List.foldr_cons, ih h.2, hone line h.1]

theorem readLine_indented (h : line.head? ≠ some 'f') : readLine ("        ".toList ++ line) rest = rest := by
  have hmodule : moduleOf ("        ".toList ++ line) = none := between_eq_none rfl
  have htest : testOf ("        ".toList ++ line) = none := by
    apply between_eq_none
    cases line with
    | nil => rfl
    | cons c line =>
      have hc : ('f' == c) = false := beq_false_of_ne fun heq => h (congrArg some heq.symm)
      change ('f' == c && ['n', ' '].isPrefixOf line) = false
      rw [hc, Bool.false_and]
  rw [readLine, hmodule, htest]

theorem readLine_test (name : List Char) :
    readLine ("        ".toList ++ ("fn ".toList ++ name ++ "() \x7b".toList)) rest = (name :: rest.1, rest.2) := by
  have hmodule : moduleOf ("        ".toList ++ ("fn ".toList ++ name ++ "() \x7b".toList)) = none :=
    between_eq_none rfl
  have htest : testOf ("        ".toList ++ ("fn ".toList ++ name ++ "() \x7b".toList)) = some name :=
    between_append "        fn ".toList name _
  rw [readLine, hmodule, htest]

theorem foldr_readLine_indented {texts : List (List Char)} (h : ∀ line ∈ texts, line.head? ≠ some 'f') :
    (texts.map ("        ".toList ++ ·)).foldr readLine rest = rest := by
  induction texts with
  | nil => rfl
  | cons line texts ih =>
    rw [List.forall_mem_cons] at h
    rw [List.map_cons, List.foldr_cons, ih h.2, readLine_indented h.1]

end Reading

section Suites

variable (printable : Char → Bool) {rootModule text : List Char} {bundles : List (CaseBundle Environment Envelope)}

def indented (bundle : CaseBundle Environment Envelope) : List (List Char) :=
  (testLines printable bundle (defaultTestName bundle)).map ("        ".toList ++ ·) ++ [[]]

def groupLines (group : RegressionGroupKey × List (CaseBundle Environment Envelope)) : List (List Char) :=
  ("    pub mod ".toList ++ regressionGroupModuleIdent group.1 ++ " \x7b".toList) ::
    (group.2.flatMap (indented printable) ++ ["    \x7d".toList, []])

def headLines (rootModule : List Char) : List (List Char) :=
  [suiteTitle, "//! Run a single group: `cargo test ".toList ++ rootModule ++ "::regression_<domain>_<mode>`".toList, [],
    "pub mod ".toList ++ rootModule ++ " \x7b".toList]

theorem inline_testLines (bundle : CaseBundle Environment Envelope) :
    ∀ line ∈ testLines printable bundle (defaultTestName bundle), Inline line := by
  rw [testLines, List.forall_mem_cons, List.forall_mem_cons]
  refine ⟨inline_literal (by decide), ?_, fun line hline => (testBody_lines line hline).1⟩
  exact ((inline_literal (by decide)).append (inline_of_valid defaultTestName_valid)).append (inline_literal (by decide))

theorem pushTest_unlines (before : List (List Char)) (bundle : CaseBundle Environment Envelope) :
    pushTest printable (unlines before) bundle = .ok (unlines (before ++ indented printable bundle)) := by
  have hblock : formatRustRegressionTestFn printable bundle (defaultTestName bundle) =
      .ok (unlines (testLines printable bundle (defaultTestName bundle))) := by
    rw [formatRustRegressionTestFn, if_neg (not_not.mpr defaultTestName_valid)]
  have hpush : ∀ (texts before : List (List Char)),
      texts.foldl (fun out line => out ++ "        ".toList ++ line ++ ['\n']) (unlines before) =
        unlines (before ++ texts.map ("        ".toList ++ ·)) := by
    intro texts
    induction texts with
    | nil => exact fun before => congrArg unlines (List.append_nil _).symm
    | cons line texts ih =>
      intro before
      have hone : unlines before ++ "        ".toList ++ line ++ ['\n'] =
          unlines (before ++ ["        ".toList ++ line]) := by
        rw [unlines_append, List.append_assoc, List.append_assoc]
        simp [unlines]
      rw [List.foldl_cons, hone, ih, List.append_assoc, List.map_cons]
      rfl
  rw [pushTest, hblock]
  change Except.ok (pushIndented _ _ ++ ['\n']) = _
  rw [pushIndented, lines_unlines (inline_testLines printable bundle), hpush, indented, ← List.append_assoc, unlines_append _ [[]]]
  rfl

theorem foldlM_unlines {α : Type} {push : List Char → α → Except String (List Char)} {written : α → List (List Char)}
    (h : ∀ before a, push (unlines before) a = .ok (unlines (before ++ written a))) (before : List (List Char))
    (l : List α) : l.foldlM push (unlines before) = .ok (unlines (before ++ l.flatMap written)) := by
  induction l generalizing before with
  | nil => exact congrArg (Except.ok ∘ unlines) (List.append_nil _).symm
  | cons a l ih =>
    rw [List.foldlM_cons, h]
    change List.foldlM _ _ _ = _
    rw [ih, List.flatMap_cons, List.append_assoc]

theorem pushGroup_unlines (before : List (List Char))
    (group : RegressionGroupKey × List (CaseBundle Environment Envelope)) :
    pushGroup printable (unlines before) group = .ok (unlines (before ++ groupLines printable group)) := by
  have hopen : unlines before ++ "    pub mod ".toList ++ regressionGroupModuleIdent group.1 ++ " \x7b".toList ++ ['\n'] =
      unlines (before ++ ["    pub mod ".toList ++ regressionGroupModuleIdent group.1 ++ " \x7b".toList]) := by
    rw [unlines_append, List.append_assoc, List.append_assoc, List.append_assoc]
    simp only [unlines, List.flatMap_cons, List.flatMap_nil, List.append_assoc, List.append_nil]
  have hclose : ∀ texts, unlines texts ++ "    \x7d".toList ++ ['\n', '\n'] = unlines (texts ++ ["    \x7d".toList, []]) := by
    intro texts
    rw [unlines_append, List.append_assoc]
    simp only [unlines, List.flatMap_cons, List.flatMap_nil, List.append_assoc, List.cons_append, List.nil_append]
  have htests := foldlM_unlines (pushTest_unlines printable)
    (before ++ ["    pub mod ".toList ++ regressionGroupModuleIdent group.1 ++ " \x7b".toList]) group.2
  rw [pushGroup]
  simp only [moduleIdent_valid, not_true_eq_false, if_false, hopen]
  change (List.foldlM _ _ _ >>= _) = _
  rw [htests]
  change Except.ok (unlines _ ++ "    \x7d".toList ++ ['\n', '\n']) = _
  rw [hclose, groupLines, List.append_assoc, List.append_assoc]
  rfl

theorem suiteHead_eq (rootModule : List Char) : suiteHead rootModule = unlines (headLines rootModule) := by
  unfold suiteHead headLines unlines
  simp only [List.flatMap_cons, List.flatMap_nil, List.append_assoc, List.nil_append, List.cons_append]

theorem export_eq (hroot : isValidRustIdent rootModule = true) (hbundles : bundles ≠ []) :
    exportRustRegressionSuite printable rootModule bundles =
      .ok (unlines (headLines rootModule ++
        (groupBundlesByRegressionGroup bundles).toList.flatMap (groupLines printable) ++ ["\x7d".toList])) := by
  have hclose : ∀ texts, unlines texts ++ "\x7d".toList ++ ['\n'] = unlines (texts ++ ["\x7d".toList]) := by
    intro texts
    rw [unlines_append, List.append_assoc]
    simp only [unlines, List.flatMap_cons, List.flatMap_nil, List.append_nil]
  rw [exportRustRegressionSuite, if_neg (not_not.mpr hroot), if_neg (by simpa using hbundles), suiteHead_eq,
    foldlM_unlines (pushGroup_unlines printable)]
  change Except.ok (unlines _ ++ "\x7d".toList ++ ['\n']) = _
  rw [hclose]

theorem foldr_readLine_test (bundle : CaseBundle Environment Envelope)
    (rest : List (List Char) × List Submodule) :
    (indented printable bundle).foldr readLine rest = (defaultTestName bundle :: rest.1, rest.2) := by
  have hbody : ∀ line ∈ testBody printable bundle, line.head? ≠ some 'f' := fun line hline => (testBody_lines line hline).2
  have hblank : readLine [] rest = rest := rfl
  have hattribute : readLine ("        ".toList ++ "#[test]".toList) = id := rfl
  rw [indented, testLines, List.foldr_append, List.map_cons, List.map_cons, List.foldr_cons, List.foldr_cons,
    List.foldr_cons, List.foldr_nil, hblank, foldr_readLine_indented hbody, readLine_test, hattribute]
  rfl

theorem foldr_readLine_tests (members : List (CaseBundle Environment Envelope))
    (rest : List (List Char) × List Submodule) :
    (members.flatMap (indented printable)).foldr readLine rest = (members.map defaultTestName ++ rest.1, rest.2) := by
  induction members with
  | nil => rfl
  | cons bundle members ih =>
    rw [List.flatMap_cons, List.foldr_append, ih, foldr_readLine_test]
    rfl

def submoduleOf (group : RegressionGroupKey × List (CaseBundle Environment Envelope)) : Submodule where
  name := regressionGroupModuleIdent group.1
  tests := group.2.map defaultTestName

theorem foldr_readLine_groups (groups : List (RegressionGroupKey × List (CaseBundle Environment Envelope))) :
    (groups.flatMap (groupLines printable)).foldr readLine ([], []) = ([], groups.map submoduleOf) := by
  induction groups with
  | nil => rfl
  | cons group groups ih =>
    have hclose : ∀ rest, ["    \x7d".toList, []].foldr readLine rest = rest := fun _ => rfl
    rw [List.flatMap_cons, List.foldr_append, ih, groupLines, List.foldr_cons, List.foldr_append, hclose,
      foldr_readLine_tests, readLine_module, List.append_nil]
    rfl

def submodules (bundles : List (CaseBundle Environment Envelope)) : List Submodule :=
  (groupBundlesByRegressionGroup bundles).toList.map submoduleOf

theorem inline_groupLines (group : RegressionGroupKey × List (CaseBundle Environment Envelope)) :
    ∀ line ∈ groupLines printable group, Inline line := by
  have hindented : ∀ bundle ∈ group.2, ∀ line ∈ indented printable bundle, Inline line := by
    intro bundle _
    rw [indented, List.forall_mem_append, List.forall_mem_map, List.forall_mem_singleton]
    refine ⟨fun line hline => ?_, by decide⟩
    exact (by decide : Inline "        ".toList).append (inline_testLines printable bundle line hline)
  rw [groupLines, List.forall_mem_cons, List.forall_mem_append, List.forall_mem_flatMap]
  refine ⟨?_, hindented, by decide⟩
  exact ((by decide : Inline "    pub mod ".toList).append (inline_of_valid (moduleIdent_valid _))).append (by decide)

set_option maxRecDepth 1000 in
theorem headLines_margin (h : Inline rootModule) : ∀ line ∈ headLines rootModule, LineBut ' ' line := by
  have htitle : LineBut ' ' suiteTitle := lineBut_literal (by decide +kernel)
  simp only [headLines, List.forall_mem_cons, List.not_mem_nil, false_implies, implies_true, and_true]
  exact ⟨htitle, lineBut_around (by decide) h (by decide), by decide, lineBut_around (by decide) h (by decide)⟩

theorem readSuite_export (h : exportRustRegressionSuite printable rootModule bundles = .ok text) :
    readSuite text = submodules bundles := by
  have hroot : isValidRustIdent rootModule = true := by
    by_contra hinvalid
    rw [exportRustRegressionSuite, if_pos hinvalid] at h
    cases h
  have hinline := inline_of_valid hroot
  by_cases hbundles : bundles = []
  · subst hbundles
    have hnone : submodules ([] : List (CaseBundle Environment Envelope)) = [] := by
      rw [submodules, groupBundlesByRegressionGroup, groupBy, List.foldl_nil, toList_empty]
      rfl
    have htext : text = unlines ["//! Auto-generated regression suite (empty).".toList, [],
        "pub mod ".toList ++ rootModule ++ " \x7b\x7d".toList] := by
      rw [exportRustRegressionSuite, if_neg (not_not.mpr hroot), if_pos List.isEmpty_nil] at h
      rw [← Except.ok.inj h]
      simp only [unlines, List.flatMap_cons, List.flatMap_nil, List.append_assoc, List.nil_append, List.cons_append]
    have hlines : ∀ line ∈ ["//! Auto-generated regression suite (empty).".toList, [],
        "pub mod ".toList ++ rootModule ++ " \x7b\x7d".toList], LineBut ' ' line := by
      simp only [List.forall_mem_cons, List.not_mem_nil, false_implies, implies_true, and_true]
      exact ⟨lineBut_literal (by decide), by decide, lineBut_around (by decide) hinline (by decide)⟩
    rw [hnone, htext, readSuite, lines_unlines fun line hline => (hlines line hline).1, foldr_readLine_margin hlines]
  · rw [export_eq printable hroot hbundles] at h
    obtain rfl := Except.ok.inj h
    have hhead := headLines_margin hinline
    have hlines : ∀ line ∈ headLines rootModule ++
        (groupBundlesByRegressionGroup bundles).toList.flatMap (groupLines printable) ++ ["\x7d".toList], Inline line := by
      rw [List.forall_mem_append, List.forall_mem_append, List.forall_mem_flatMap]
      exact ⟨⟨fun line hline => (hhead line hline).1, fun group _ => inline_groupLines printable group⟩, by decide⟩
    have hclose : ∀ rest, ["\x7d".toList].foldr readLine rest = rest := fun _ => rfl
    rw [readSuite, lines_unlines hlines, List.foldr_append, List.foldr_append, hclose, foldr_readLine_groups,
      foldr_readLine_margin hhead]
    rfl

end Suites

section Names

variable {bundles : List (CaseBundle Environment Envelope)} {a b : CaseBundle Environment Envelope}

def testPaths (suite : List Submodule) : List (List Char × List Char) :=
  suite.flatMap fun submodule => submodule.tests.map (submodule.name, ·)

structure WellFormed (bundles : List (CaseBundle Environment Envelope)) (suite : List Submodule) : Prop where
  modules : (suite.map Submodule.name).Nodup
  tests : ∀ submodule ∈ suite, submodule.tests.Nodup
  once : ∀ bundle ∈ bundles,
    (testPaths suite).count (regressionGroupModuleIdent (regressionGroupKey bundle), defaultTestName bundle) = 1

/-- Two bundles of one domain have different seeds in one failure mode, and otherwise modes that do not read alike. -/
def Apart (a b : CaseBundle Environment Envelope) : Prop :=
  classifyFailure a.seed = classifyFailure b.seed →
    if a.signature.category = b.signature.category then a.seed.id ≠ b.seed.id
    else named a.signature.category.toList ≠ named b.signature.category.toList

instance : DecidableRel (@Apart Environment Envelope) :=
  fun _ _ => inferInstanceAs (Decidable (_ → _))

theorem Apart.symm (h : Apart a b) : Apart b a := by
  intro hdomain
  have hab := h hdomain.symm
  simp only [eq_comm, ne_eq] at hab ⊢
  exact hab

instance : Std.Symm (@Apart Environment Envelope) := ⟨fun _ _ => Apart.symm⟩

theorem regressionGroupKey_eq_iff :
    regressionGroupKey a = regressionGroupKey b ↔
      classifyFailure a.seed = classifyFailure b.seed ∧ a.signature.category = b.signature.category :=
  RegressionGroupKey.mk.injEq .. ▸ Iff.rfl

theorem moduleIdent_key_iff :
    regressionGroupModuleIdent (regressionGroupKey a) = regressionGroupModuleIdent (regressionGroupKey b) ↔
      classifyFailure a.seed = classifyFailure b.seed ∧
        named a.signature.category.toList = named b.signature.category.toList :=
  moduleIdent_eq_iff (classifyFailure_mem _) (classifyFailure_mem _)

theorem mem_groups {group : RegressionGroupKey × List (CaseBundle Environment Envelope)} :
    group ∈ (groupBundlesByRegressionGroup bundles).toList ↔
      (∃ bundle ∈ bundles, regressionGroupKey bundle = group.1) ∧
        group.2 = bundles.filter (regressionGroupKey · = group.1) := by
  rw [groupBundlesByRegressionGroup, mem_groupBy_toList, and_comm]
  refine and_congr_left fun h => ?_
  rw [h, ne_eq, List.filter_eq_nil_iff]
  simp

theorem nodup_testPaths {suite : List Submodule} (hmodules : (suite.map Submodule.name).Nodup)
    (htests : ∀ submodule ∈ suite, submodule.tests.Nodup) : (testPaths suite).Nodup := by
  rw [testPaths, List.nodup_flatMap]
  constructor
  · intro submodule hsubmodule
    exact (htests submodule hsubmodule).map (Prod.mk_right_injective _)
  · apply (List.pairwise_map.mp hmodules).imp
    intro first second hne path hfirst hsecond
    obtain ⟨_, _, rfl⟩ := List.mem_map.mp hfirst
    obtain ⟨_, _, hpath⟩ := List.mem_map.mp hsecond
    exact hne (congrArg Prod.fst hpath).symm

theorem WellFormed.of_apart (h : bundles.Pairwise Apart) : WellFormed bundles (submodules bundles) := by
  have hapart : ∀ a ∈ bundles, ∀ b ∈ bundles, a ≠ b → Apart a b :=
    fun a ha b hb hne => h.forall ha hb hne
  have hmodules : ((submodules bundles).map Submodule.name).Nodup := by
    rw [submodules, List.map_map]
    apply (nodup_toList _).map_on
    intro first hfirst second hsecond hname
    obtain ⟨⟨a, ha, hkeyA⟩, hmembersA⟩ := mem_groups.mp hfirst
    obtain ⟨⟨b, hb, hkeyB⟩, hmembersB⟩ := mem_groups.mp hsecond
    have hkeys : first.1 = second.1 := by
      by_cases hab : a = b
      · rw [← hkeyA, ← hkeyB, hab]
      · change regressionGroupModuleIdent first.1 = regressionGroupModuleIdent second.1 at hname
        rw [← hkeyA, ← hkeyB, moduleIdent_key_iff] at hname
        have hmodes := hapart a ha b hb hab hname.1
        split_ifs at hmodes with hmode
        · rw [← hkeyA, ← hkeyB, regressionGroupKey_eq_iff]
          exact ⟨hname.1, hmode⟩
        · exact absurd hname.2 hmodes
    exact Prod.ext hkeys (by rw [hmembersA, hmembersB, hkeys])
  have htests : ∀ submodule ∈ submodules bundles, submodule.tests.Nodup := by
    rw [submodules, List.forall_mem_map]
    intro group hgroup
    rw [submoduleOf, (mem_groups.mp hgroup).2]
    apply List.pairwise_map.mpr
    apply (h.filter _).imp_of_mem
    intro a b ha hb hab
    have hkeyA := of_decide_eq_true (List.mem_filter.mp ha).2
    have hkeyB := of_decide_eq_true (List.mem_filter.mp hb).2
    obtain ⟨hdomain, hmode⟩ := regressionGroupKey_eq_iff.mp (hkeyA.trans hkeyB.symm)
    have hids := hab hdomain
    rw [if_pos hmode] at hids
    exact fun hname => hids (defaultTestName_eq_iff.mp hname)
  refine ⟨hmodules, htests, fun bundle hbundle => ?_⟩
  apply List.count_eq_one_of_mem (nodup_testPaths hmodules htests)
  have hgroup : (regressionGroupKey bundle, bundles.filter (regressionGroupKey · = regressionGroupKey bundle)) ∈
      (groupBundlesByRegressionGroup bundles).toList := mem_groups.mpr ⟨⟨bundle, hbundle, rfl⟩, rfl⟩
  apply List.mem_flatMap.mpr
  refine ⟨_, List.mem_map_of_mem hgroup, ?_⟩
  apply List.mem_map_of_mem
  apply List.mem_map_of_mem
  exact List.mem_filter.mpr ⟨hbundle, decide_eq_true rfl⟩

theorem WellFormed.apart (h : WellFormed bundles (submodules bundles)) : bundles.Pairwise Apart := by
  rw [List.pairwise_iff_forall_sublist]
  intro a b hsub hdomain
  have ha : a ∈ bundles := hsub.subset (by simp)
  have hb : b ∈ bundles := hsub.subset (by simp)
  have hgroup : ∀ bundle ∈ bundles,
      (regressionGroupKey bundle, bundles.filter (regressionGroupKey · = regressionGroupKey bundle)) ∈
        (groupBundlesByRegressionGroup bundles).toList :=
    fun bundle hbundle => mem_groups.mpr ⟨⟨bundle, hbundle, rfl⟩, rfl⟩
  split_ifs with hmode
  · intro hid
    have hkey : regressionGroupKey a = regressionGroupKey b := regressionGroupKey_eq_iff.mpr ⟨hdomain, hmode⟩
    have hfilter : [a, b].filter (regressionGroupKey · = regressionGroupKey a) = [a, b] := by simp [hkey]
    have htests := h.tests _ (List.mem_map_of_mem (hgroup a ha))
    have hnames := ((hsub.filter (regressionGroupKey · = regressionGroupKey a)).map defaultTestName).nodup htests
    rw [hfilter] at hnames
    simp [defaultTestName_eq_iff.mpr hid] at hnames
  · intro hnamed
    have hname := moduleIdent_key_iff.mpr ⟨hdomain, hnamed⟩
    have hmodules := h.modules
    rw [submodules, List.map_map] at hmodules
    have hsame := List.inj_on_of_nodup_map hmodules (hgroup a ha) (hgroup b hb) hname
    exact hmode (regressionGroupKey_eq_iff.mp (congrArg Prod.fst hsame)).2

theorem wellFormed_submodules_iff : WellFormed bundles (submodules bundles) ↔ bundles.Pairwise Apart :=
  ⟨WellFormed.apart, WellFormed.of_apart⟩

theorem suite_wellFormed_iff {printable : Char → Bool} {rootModule text : List Char}
    (h : exportRustRegressionSuite printable rootModule bundles = .ok text) :
    WellFormed bundles (readSuite text) ↔ bundles.Pairwise Apart := by
  rw [readSuite_export printable h]
  exact wellFormed_submodules_iff

def failedBundle (id : ℕ) (category : String) : CaseBundle Unit Unit where
  seed := ⟨id, [0x10]⟩
  signature := ⟨category, 0, 0⟩
  environment := none
  failurePayload := []
  rpcEnvelope := none
  engineVersion := BundlePersist.engineVersion

theorem two_modes_exported :
    ∃ text, exportRustRegressionSuite (fun _ => true) "suite".toList
        [failedBundle 1 "runtime-failure", failedBundle 1 "empty-input", failedBundle 2 "empty-input"] = .ok text ∧
      WellFormed [failedBundle 1 "runtime-failure", failedBundle 1 "empty-input", failedBundle 2 "empty-input"]
        (readSuite text) := by
  have hexport := @export_eq _ _ (fun _ => true) "suite".toList
    [failedBundle 1 "runtime-failure", failedBundle 1 "empty-input", failedBundle 2 "empty-input"] (by decide)
    (List.cons_ne_nil _ _)
  exact ⟨_, hexport, (suite_wellFormed_iff hexport).mpr (by decide +kernel)⟩

theorem alike_exported :
    (∃ text, exportRustRegressionSuite (fun _ => true) "suite".toList
        [failedBundle 1 "runtime-failure", failedBundle 2 "runtime.failure"] = .ok text ∧
      ¬WellFormed [failedBundle 1 "runtime-failure", failedBundle 2 "runtime.failure"] (readSuite text)) ∧
    ∃ text, exportRustRegressionSuite (fun _ => true) "suite".toList
        [failedBundle 1 "runtime-failure", failedBundle 1 "runtime-failure"] = .ok text ∧
      ¬WellFormed [failedBundle 1 "runtime-failure", failedBundle 1 "runtime-failure"] (readSuite text) := by
  -- modes that differ in their punctuation give two submodules one name; one seed gives two tests one name
  have hmodes := @export_eq _ _ (fun _ => true) "suite".toList
    [failedBundle 1 "runtime-failure", failedBundle 2 "runtime.failure"] (by decide) (List.cons_ne_nil _ _)
  have hseeds := @export_eq _ _ (fun _ => true) "suite".toList
    [failedBundle 1 "runtime-failure", failedBundle 1 "runtime-failure"] (by decide) (List.cons_ne_nil _ _)
  refine ⟨⟨_, hmodes, ?_⟩, _, hseeds, ?_⟩
  · rw [readSuite_export _ hmodes, wellFormed_submodules_iff]
    decide +kernel
  · rw [readSuite_export _ hseeds, wellFormed_submodules_iff]
    decide +kernel

end Names

end CrashLab.RegressionGrouping
