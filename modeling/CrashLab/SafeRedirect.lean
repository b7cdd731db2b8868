import CrashLab.UrlStandard
import Mathlib.Data.List.TakeWhile

namespace CrashLab.SafeRedirect

open JsStrings UriTexts UrlStandard

structure SafeRedirectOptions where
  allowedPrefixes : Option (List JsString) := none
  fallback : Option JsString := none

structure SafeRedirectResult where
  path : JsString
  ok : Bool
  reason : Option String := none

section Checks

def defaultSafeRedirect : JsString := ofString "/"

/-- `[\u0000-\u001f\u007f-\u009f]` -/
def isControl (u : UInt16) : Bool := u.toNat ≤ 0x1F || (0x7F ≤ u.toNat && u.toNat ≤ 0x9F)

def isUnicodeSlash (u : UInt16) : Bool := (0x2044 ≤ u.toNat && u.toNat ≤ 0x20FF) || u.toNat = 0x2215 || u.toNat = 0x2216

/-- Whether an expression of plain characters, with `i`, is found. -/
def findsIgnoringCase (text part : JsString) : Bool := includes (lowerAscii text) part

def hasTraversalSegment (path : JsString) : Bool :=
  match decodeURIComponent path with
  | none => true
  | some decoded => (decoded.splitOn 0x2F ++ path.splitOn 0x2F).any (· = ofString "..")

def isSafeRelativePath (path : JsString) : Option String :=
  if path.length = 0 then some "empty"
  else if path.head? ≠ some 0x2F then some "not_root_relative"
  else if ofString "//" <+: path then some "protocol_relative"
  else if includes path (ofString "\\") || findsIgnoringCase path (ofString "%5c") then some "backslash"
  else if path.any isControl then some "control_char"
  else if path.any isUnicodeSlash then some "unicode_slash"
  else if findsIgnoringCase path (ofString "%252f") then some "encoded_slash"
  else if findsIgnoringCase path (ofString "@%40") || findsIgnoringCase path (ofString "%40") then some "at_sign"
  else if hasTraversalSegment path then some "traversal"
  else none

def rejected (options : SafeRedirectOptions) (reason : String) : SafeRedirectResult where
  path := options.fallback.getD defaultSafeRedirect
  ok := false
  reason := some reason

def matchesPrefix (prefixes : List JsString) (candidate : JsString) : Bool :=
  prefixes.any fun start => start <+: candidate

def safeRedirect (input : Option JsString) (options : SafeRedirectOptions) : SafeRedirectResult :=
  match input with
  | none => rejected options "missing"
  | some input =>
    if input = [] then rejected options "missing"
    else if trim input ≠ input then rejected options "whitespace"
    else
      match isSafeRelativePath input with
      | some reason => rejected options reason
      | none =>
        if options.allowedPrefixes.any fun prefixes => prefixes ≠ [] && !matchesPrefix prefixes input then
          rejected options "prefix_not_allowed"
        else { path := input, ok := true }

end Checks

section Acceptance

structure Accepted (path : JsString) : Prop where
  trimmed : trim path = path
  rooted : ∃ rest, path = 0x2F :: rest ∧ rest.head? ≠ some 0x2F
  backslash : 0x5C ∉ path
  control : ∀ u ∈ path, isControl u = false
  traversal : hasTraversalSegment path = false

theorem accepted_of_isSafe {path : JsString} (htrim : trim path = path) (h : isSafeRelativePath path = none) :
    Accepted path := by
  unfold isSafeRelativePath at h
  split_ifs at h with hempty hroot hprotocol hback hcontrol hslash hencoded hat htraversal
  refine ⟨htrim, ?_, ?_, ?_, by simpa using htraversal⟩
  · cases path with
    | nil => exact absurd rfl hempty
    | cons u rest =>
      have hu : u = 0x2F := by simpa using hroot
      subst hu
      refine ⟨rest, rfl, fun hhead => hprotocol ?_⟩
      cases rest with
      | nil => cases hhead
      | cons v rest =>
        obtain rfl := Option.some.inj hhead
        exact ⟨rest, rfl⟩
  · intro hmem
    apply hback
    obtain ⟨a, b, rfl⟩ := List.append_of_mem hmem
    have hin : includes (a ++ 0x5C :: b) (ofString "\\") = true := by
      rw [includes, decide_eq_true_iff]
      exact ⟨a, b, by simp [show ofString "\\" = [0x5C] from rfl]⟩
    rw [hin]
    rfl
  · intro u hu
    have hnone := hcontrol
    rw [List.any_eq_true] at hnone
    cases hcontrolled : isControl u with
    | false => rfl
    | true => exact absurd ⟨u, hu, hcontrolled⟩ hnone

theorem safeRedirect_ok {input : Option JsString} {options : SafeRedirectOptions}
    (h : (safeRedirect input options).ok = true) : Accepted (safeRedirect input options).path ∧
      ∀ prefixes, options.allowedPrefixes = some prefixes → prefixes ≠ [] →
        ∃ start ∈ prefixes, start <+: (safeRedirect input options).path := by
  have hrejected : ∀ reason, ¬(rejected options reason).ok = true := fun _ => nofun
  cases input with
  | none => exact absurd h (hrejected _)
  | some input =>
    unfold safeRedirect at h ⊢
    dsimp only at h ⊢
    by_cases hempty : input = []
    · rw [if_pos hempty] at h
      exact absurd h (hrejected _)
    rw [if_neg hempty] at h ⊢
    by_cases htrim : trim input ≠ input
    · rw [if_pos htrim] at h
      exact absurd h (hrejected _)
    rw [if_neg htrim] at h ⊢
    cases hsafe : isSafeRelativePath input with
    | some reason =>
      rw [hsafe] at h
      exact absurd h (hrejected _)
    | none =>
      rw [hsafe] at h
      dsimp only at h ⊢
      split_ifs at h ⊢ with hallowed
      · exact absurd h (hrejected _)
      · refine ⟨accepted_of_isSafe (not_not.mp htrim) hsafe, fun prefixes hprefixes hne => ?_⟩
        rw [hprefixes] at hallowed
        simpa [hne, matchesPrefix] using hallowed

end Acceptance

section Reading

theorem getLast_not_space {text : JsString} {u : UInt16} (htrim : trim text = text)
    (hlast : text.getLast? = some u) : isSpace u = false := by
  have hhead : (trim text).reverse.head? = some u := by rw [htrim, List.head?_reverse, hlast]
  rw [trim, List.reverse_reverse] at hhead
  have hnot := List.head?_dropWhile_not isSpace (text.dropWhile isSpace).reverse
  rw [hhead] at hnot
  simpa using hnot

variable {path : JsString} (accepted : Accepted path)
include accepted

theorem Accepted.clean_path : clean (scalars path) = scalars path := by
  obtain ⟨rest, rfl, -⟩ := accepted.rooted
  have hcontrol : ∀ u ∈ (0x2F :: rest : JsString), ¬u.toNat ≤ 0x1F := by
    intro u hu
    have hnone := accepted.control u hu
    simp only [isControl, Bool.or_eq_false_iff, decide_eq_false_iff_not] at hnone
    exact hnone.1
  apply clean_eq_self
  · intro c hc
    rw [scalars_plain rfl, List.head?_cons, Option.some.injEq] at hc
    rw [← hc]
    decide
  · intro c hc
    obtain ⟨u, hu, heq⟩ | hfar := getLast?_scalars hc
    · have hlow := hcontrol u (List.mem_of_getLast? hu)
      have hspace := getLast_not_space accepted.trimmed hu
      have hne : u.toNat ≠ 0x20 := by
        intro h
        rw [isSpace, h] at hspace
        exact absurd hspace (by decide)
      omega
    · omega
  · intro c hc
    obtain ⟨u, hu, -, heq⟩ | hfar := mem_scalars hc
    · have hlow := hcontrol u hu
      omega
    · omega

theorem Accepted.resolves {Host : Type} (foreign : List Char → Option (Url Host)) (base : Url Host) :
    ∃ rest, path = 0x2F :: rest ∧
      resolve foreign base (scalars path) = some (base.withTail (pathState [] [] (scalars rest))) := by
  have hclean := accepted.clean_path
  obtain ⟨rest, rfl, hnext⟩ := accepted.rooted
  refine ⟨rest, rfl, ?_⟩
  rw [scalars_plain rfl] at hclean ⊢
  apply resolve_rooted foreign base hclean
  rw [Option.any_eq_false]
  intro c hc
  obtain ⟨tail, htail⟩ := List.head?_eq_some_iff.mp hc
  have hplain : ∀ u : UInt16, u ∉ rest ∨ rest.head? ≠ some u → u.toNat < 0xFFFD → c.toNat ≠ u.toNat := by
    intro u hu hnear heq
    obtain ⟨v, tail, rfl, -, hv, -⟩ := scalars_eq_cons htail (by omega)
    obtain rfl : v = u := UInt16.toNat_inj.mp (hv.trans heq)
    rcases hu with hu | hu
    · exact hu List.mem_cons_self
    · exact hu rfl
  have hslash := hplain 0x2F (.inr hnext) (by decide)
  have hback := hplain 0x5C (.inl fun hmem => accepted.backslash (List.mem_cons_of_mem _ hmem)) (by decide)
  simp only [isSlash, Bool.or_eq_false_iff, decide_eq_false_iff_not]
  constructor
  · rintro rfl
    exact hslash rfl
  · rintro rfl
    exact hback rfl

end Reading

section Traversal

theorem splitOn_front {x : UInt16} {t : JsString} (a b : JsString) (h : t ∈ (a.splitOn x).dropLast) :
    t ∈ (a ++ b).splitOn x := by
  induction hn : a.length using Nat.strong_induction_on generalizing a with
  | _ n ih =>
    subst hn
    by_cases hmem : x ∈ a
    · obtain ⟨c, d, rfl⟩ := List.append_of_mem hmem
      rw [List.splitOn_append_cons_self, List.dropLast_append_of_ne_nil (List.splitOn_ne_nil _ _), List.mem_append] at h
      rw [List.append_assoc, List.cons_append, List.splitOn_append_cons_self, List.mem_append]
      rcases h with h | h
      · exact .inl h
      · exact .inr (ih d.length (by simp only [List.length_append, List.length_cons]; omega) d h rfl)
    · rw [List.splitOn_eq_singleton hmem] at h
      cases h

theorem decode_segment {path decoded t : JsString} (h : decodeURIComponent path = some decoded)
    (ht : t ∈ path.splitOn 0x2F) : ∃ text, decodeURIComponent t = some text ∧
      ∀ s ∈ text.splitOn 0x2F, s ∈ decoded.splitOn 0x2F := by
  induction hn : path.length using Nat.strong_induction_on generalizing path decoded with
  | _ n ih =>
    subst hn
    by_cases hmem : (0x2F : UInt16) ∈ path
    · obtain ⟨a, b, rfl⟩ := List.append_of_mem hmem
      rw [decodeURIComponent_append_cons (by decide) (by decide)] at h
      obtain ⟨x, hx, h⟩ := Option.bind_eq_some_iff.mp h
      obtain ⟨y, hy, rfl⟩ := Option.map_eq_some_iff.mp h
      rw [List.splitOn_append_cons_self, List.mem_append] at ht
      rw [List.splitOn_append_cons_self]
      rcases ht with ht | ht
      · obtain ⟨text, htext, hin⟩ := ih a.length (by simp only [List.length_append, List.length_cons]; omega) hx ht rfl
        exact ⟨text, htext, fun s hs => List.mem_append_left _ (hin s hs)⟩
      · obtain ⟨text, htext, hin⟩ := ih b.length (by simp only [List.length_append, List.length_cons]; omega) hy ht rfl
        exact ⟨text, htext, fun s hs => List.mem_append_right _ (hin s hs)⟩
    · rw [List.splitOn_eq_singleton hmem, List.mem_singleton] at ht
      subst ht
      exact ⟨decoded, h, fun s hs => hs⟩

theorem decode_plain {u : UInt16} (hu : u ≠ 0x25) (s : JsString) :
    decodeURIComponent (u :: s) = (decodeURIComponent s).map (u :: ·) := by
  unfold decodeURIComponent
  rw [octets_plain hu]
  cases octets s <;> simp [decodeOctets]

theorem decode_dots {t : JsString} {n : ℕ} (h : dots (scalars t) = some n) :
    decodeURIComponent t = some (List.replicate n 0x2E) := by
  generalize hs : scalars t = text at h
  induction text using dots.induct generalizing t n with
  | case1 =>
    rw [dots] at h
    rw [scalars_eq_nil hs, ← Option.some.inj h]
    rfl
  | case2 rest ih =>
    rw [dots] at h
    obtain ⟨k, hk, rfl⟩ := Option.map_eq_some_iff.mp h
    obtain ⟨u, tail, rfl, -, hu, htail⟩ := scalars_eq_cons hs (by decide)
    obtain rfl : u = 0x2E := UInt16.toNat_inj.mp hu
    rw [decode_plain (by decide), ih htail hk]
    rfl
  | case3 high low rest hdigits ih =>
    rw [dots, if_pos hdigits] at h
    obtain ⟨k, hk, rfl⟩ := Option.map_eq_some_iff.mp h
    obtain ⟨rfl, hlow⟩ := hdigits
    obtain ⟨u, first, rfl, -, hu, hfirst⟩ := scalars_eq_cons hs (by decide)
    obtain ⟨v, second, rfl, -, hv, hsecond⟩ := scalars_eq_cons hfirst (by decide)
    have hnear : low.toNat < 0xFFFD := by
      obtain rfl | rfl := eq_of_toLower_e hlow <;> decide
    obtain ⟨w, tail, rfl, -, hw, htail⟩ := scalars_eq_cons hsecond hnear
    obtain rfl : u = 0x25 := UInt16.toNat_inj.mp hu
    obtain rfl : v = 0x32 := UInt16.toNat_inj.mp hv
    have hhex : hexValue w = some 14 := by
      obtain rfl | rfl := eq_of_toLower_e hlow
      · obtain rfl : w = 0x65 := UInt16.toNat_inj.mp hw
        rfl
      · obtain rfl : w = 0x45 := UInt16.toNat_inj.mp hw
        rfl
    have hrest := ih htail hk
    unfold decodeURIComponent at hrest ⊢
    rw [octets_escape, hhex]
    obtain ⟨tokens, htokens, hdecoded⟩ := Option.bind_eq_some_iff.mp hrest
    have htwo : hexValue 0x32 = some 2 := rfl
    simp [htwo, htokens, decodeOctets, hdecoded, List.replicate_succ]
  | case4 high low rest hdigits =>
    rw [dots, if_neg hdigits] at h
    cases h
  | case5 text hnil hdot hescape =>
    rw [dots] at h
    · cases h
    · exact hnil
    · exact hdot
    · exact hescape

end Traversal

section Containment

def pathSegments (path : JsString) : Segments := (pathPart (scalars path).tail).splitOn '/'

theorem pathPart_scalars (rest : JsString) :
    pathPart (scalars rest) = scalars (rest.takeWhile fun u => u ≠ 0x3F && u ≠ 0x23) := by
  apply takeWhile_scalars
  · intro u _ hu
    rw [Bool.and_eq_false_iff, decide_eq_false_iff_not, decide_eq_false_iff_not, not_not, not_not] at hu
    rcases hu with rfl | rfl <;> decide
  · intro c hc
    have hstops : ∀ u : UInt16, isSurrogate u = false → u.toNat < 0xFFFD → (u = 0x3F ∨ u = 0x23) →
        c ≠ charOfUnit u := by
      rintro u hu hnear hstop rfl
      have hkept := List.mem_takeWhile_imp (unit_of_mem_scalars hu hnear hc)
      rcases hstop with rfl | rfl <;> exact absurd hkept (by decide)
    have hquery := hstops 0x3F (by decide) (by decide) (.inl rfl)
    have hfragment := hstops 0x23 (by decide) (by decide) (.inr rfl)
    rw [Bool.and_eq_true, decide_eq_true_eq, decide_eq_true_eq]
    exact ⟨hquery, hfragment⟩

theorem Accepted.no_double_dot {path : JsString} (accepted : Accepted path) :
    ∀ segment ∈ (pathSegments path).dropLast, isDoubleDot segment = false := by
  obtain ⟨rest, rfl, -⟩ := accepted.rooted
  have hslash : charOfUnit 0x2F = '/' := rfl
  intro segment hsegment
  rw [pathSegments, scalars_plain rfl, List.tail_cons, pathPart_scalars, ← hslash,
    splitOn_scalars (by decide) (by decide), ← List.map_dropLast] at hsegment
  obtain ⟨t, ht, rfl⟩ := List.mem_map.mp hsegment
  have hrest : t ∈ rest.splitOn 0x2F := by
    have := splitOn_front _ (rest.dropWhile fun u => u ≠ 0x3F && u ≠ 0x23) ht
    rwa [List.takeWhile_append_dropWhile] at this
  have hpath : t ∈ (0x2F :: rest).splitOn 0x2F := by
    rw [← List.nil_append (0x2F :: rest), List.splitOn_append_cons_self, List.mem_append]
    exact .inr hrest
  by_contra hdouble
  rw [Bool.not_eq_false] at hdouble
  have htraversal := accepted.traversal
  unfold hasTraversalSegment at htraversal
  cases hdecoded : decodeURIComponent (0x2F :: rest) with
  | none =>
    rw [hdecoded] at htraversal
    cases htraversal
  | some decoded =>
    obtain ⟨text, htext, hin⟩ := decode_segment hdecoded hpath
    rw [decode_dots (dots_of_isDoubleDot hdouble)] at htext
    obtain rfl := Option.some.inj htext
    have hdots := hin (ofString "..") (by decide)
    rw [hdecoded] at htraversal
    dsimp only at htraversal
    have hnone := List.any_eq_false.mp htraversal (ofString "..") (List.mem_append_left _ hdots)
    exact hnone (decide_eq_true rfl)

theorem scalars_kept {start rest : JsString} (h : ∀ c ∈ scalars start, inPathSet c = false) :
    scalars (start ++ rest) = scalars start ++ scalars rest := by
  have hfar : ∀ c : Char, 0xFFFD ≤ c.toNat → inPathSet c = true := by
    intro c hc
    have hlong : decide (0x7E < c.toNat) = true := decide_eq_true (by omega)
    simp [inPathSet, inQuerySet, inControlSet, hlong]
  induction start using scalars.induct with
  | case1 => rfl
  | case2 u hu =>
    have := h (Char.ofNat 0xFFFD) (by simp [scalars, hu])
    exact absurd this (by decide)
  | case3 u hu =>
    have hplain : isSurrogate u = false := by simpa using hu
    rw [List.singleton_append, scalars_plain hplain, scalars_plain hplain]
    rfl
  | case4 u v us hu ih =>
    rw [scalars_plain hu, List.forall_mem_cons] at h
    rw [List.cons_append, scalars_plain hu, scalars_plain hu, ih h.2, List.cons_append]
  | case5 u v us hu hpair ih =>
    have := h (charOfPair u v) (by simp [scalars, hu, hpair])
    rw [hfar _ (far_charOfPair hpair.1 hpair.2)] at this
    cases this
  | case6 u v us hu hpair ih =>
    have := h (Char.ofNat 0xFFFD) (by rw [scalars, if_neg hu, if_neg hpair]; exact List.mem_cons_self)
    exact absurd this (by decide)

theorem pathSegments_rooted (rest : JsString) :
    pathSegments (0x2F :: rest) = (pathPart (scalars rest)).splitOn '/' := by
  rw [pathSegments, scalars_plain rfl, List.tail_cons]

theorem prefix_pathSegments {start rest : JsString} (hpre : start <+: 0x2F :: rest)
    (hkept : ∀ c ∈ scalars start, inPathSet c = false) :
    scalars start <+: (pathSegments (0x2F :: rest)).flatMap ('/' :: ·) := by
  obtain ⟨more, hmore⟩ := hpre
  have hwhole : scalars start ++ scalars more = '/' :: scalars rest := by
    rw [← scalars_kept hkept, hmore, scalars_plain rfl]
    rfl
  have hplain : ∀ c ∈ scalars start, (c ≠ '?' && c ≠ '#') = true := by
    intro c hc
    have hnone := hkept c hc
    rw [Bool.and_eq_true, decide_eq_true_eq, decide_eq_true_eq]
    constructor
    · rintro rfl
      exact absurd hnone (by decide)
    · rintro rfl
      exact absurd hnone (by decide)
  have htake : '/' :: pathPart (scalars rest) = ('/' :: scalars rest).takeWhile fun c => c ≠ '?' && c ≠ '#' := rfl
  rw [pathSegments_rooted, flatMap_splitOn, htake, ← hwhole, List.takeWhile_append_of_pos hplain]
  exact List.prefix_append _ _

theorem Accepted.prefix_stays {start rest : JsString} (accepted : Accepted (0x2F :: rest))
    (hpre : start <+: 0x2F :: rest) (hkept : ∀ c ∈ scalars start, inPathSet c = false)
    (hlast : isDoubleDot ((pathSegments (0x2F :: rest)).getLastD []) = false)
    (hclears : clears (scalars start).length (pathSegments (0x2F :: rest)) = true) :
    scalars start <+: (pathState [] [] (scalars rest)).path.flatMap ('/' :: ·) := by
  have hbegins := prefix_pathSegments hpre hkept
  have hfront := accepted.no_double_dot
  have hsplit : pathSegments (0x2F :: rest) =
      (pathSegments (0x2F :: rest)).dropLast ++ [(pathSegments (0x2F :: rest)).getLastD []] := by
    have hsome : pathSegments (0x2F :: rest) ≠ [] := List.splitOn_ne_nil _ _
    rw [List.getLastD_eq_getLast?, List.getLast?_eq_some_getLast hsome, Option.getD_some, List.dropLast_concat_getLast]
  have hback : '\\' ∉ scalars rest := by
    intro hmem
    have hunit := unit_of_mem_scalars (u := 0x5C) (by decide) (by decide) hmem
    exact accepted.backslash (List.mem_cons_of_mem _ hunit)
  rw [hsplit] at hbegins hclears
  obtain ⟨kept, hclosed, hin⟩ := prefix_closeAll hfront hlast hkept hclears hbegins
  have hresolved : (pathState [] [] (scalars rest)).path = kept := by
    have hid : ∀ segments : Segments, segments.modifyHead ([] ++ ·) = segments := by
      intro segments
      cases segments <;> rfl
    rw [pathState_path hback, hid, ← pathSegments_rooted, hsplit, hclosed, List.nil_append]
  rwa [hresolved]

theorem accepted_path_stays {Host : Type} (foreign : List Char → Option (Url Host)) (base : Url Host)
    (input : Option JsString) (options : SafeRedirectOptions) (hok : (safeRedirect input options).ok = true) :
    let path := (safeRedirect input options).path
    ∃ url, resolve foreign base (scalars path) = some url ∧ url.origin = base.origin ∧
      ∀ prefixes, options.allowedPrefixes = some prefixes → prefixes ≠ [] →
        ∃ start ∈ prefixes, start <+: path ∧
          ((∀ c ∈ scalars start, inPathSet c = false) → isDoubleDot ((pathSegments path).getLastD []) = false →
            clears (scalars start).length (pathSegments path) = true → scalars start <+: url.pathname) := by
  obtain ⟨accepted, hprefixes⟩ := safeRedirect_ok hok
  obtain ⟨rest, hpath, hresolve⟩ := accepted.resolves foreign base
  refine ⟨_, hresolve, rfl, fun prefixes hsome hne => ?_⟩
  obtain ⟨start, hstart, hpre⟩ := hprefixes prefixes hsome hne
  refine ⟨start, hstart, hpre, fun hkept hlast hclears => ?_⟩
  rw [hpath] at accepted hpre hlast hclears
  exact accepted.prefix_stays hpre hkept hlast hclears

def exampleBase : Url (List Char) := ⟨"https".toList, "example.org".toList, none, [[]], none, none⟩

theorem run_path_stays :
    let options : SafeRedirectOptions := { allowedPrefixes := some [ofString "/runs/"] }
    let path := (safeRedirect (some (ofString "/runs/7?tab=log")) options).path
    ∃ url, resolve (fun _ => none) exampleBase (scalars path) = some url ∧ url.origin = exampleBase.origin ∧
      scalars (ofString "/runs/") <+: url.pathname := by
  have hok : (safeRedirect (some (ofString "/runs/7?tab=log"))
      { allowedPrefixes := some [ofString "/runs/"] }).ok = true := by decide +kernel
  obtain ⟨url, hurl, horigin, hprefixes⟩ := accepted_path_stays (fun _ => none) exampleBase _ _ hok
  obtain ⟨start, hstart, -, hin⟩ := hprefixes _ rfl nofun
  cases List.mem_singleton.mp hstart
  have hkept : ((scalars (ofString "/runs/")).all fun c => inPathSet c == false) = true := by decide +kernel
  refine ⟨url, hurl, horigin, hin ?_ (by decide +kernel) (by decide +kernel)⟩
  exact fun c hc => beq_iff_eq.mp (List.all_eq_true.mp hkept c hc)

theorem spaced_prefix_lost :
    let options : SafeRedirectOptions := { allowedPrefixes := some [ofString "/a b/"] }
    let result := safeRedirect (some (ofString "/a b/c")) options
    result.ok = true ∧
      (resolve (fun _ => none) exampleBase (scalars result.path)).map Url.pathname = some "/a%20b/c".toList ∧
      ¬scalars (ofString "/a b/") <+: "/a%20b/c".toList := by
  decide +kernel

end Containment

end CrashLab.SafeRedirect
