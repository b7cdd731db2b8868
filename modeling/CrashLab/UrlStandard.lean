import CrashLab.UriTexts

namespace CrashLab.UrlStandard

open JsStrings UriTexts

section Encoding

def scalars : JsString → List Char
  | [] => []
  | [u] => if isSurrogate u then [Char.ofNat 0xFFFD] else [charOfUnit u]
  | u :: v :: us =>
    if isSurrogate u = false then charOfUnit u :: scalars (v :: us)
    else if isHigh u ∧ isLow v then charOfPair u v :: scalars us
    else Char.ofNat 0xFFFD :: scalars (v :: us)

attribute [grind =] scalars

def inControlSet (c : Char) : Bool := c.toNat ≤ 0x1F || 0x7E < c.toNat

def inFragmentSet (c : Char) : Bool := inControlSet c || [0x20, 0x22, 0x3C, 0x3E, 0x60].contains c.toNat

def inQuerySet (c : Char) : Bool := inControlSet c || [0x20, 0x22, 0x23, 0x3C, 0x3E].contains c.toNat

def inSpecialQuerySet (c : Char) : Bool := inQuerySet c || c.toNat = 0x27

def inPathSet (c : Char) : Bool := inQuerySet c || [0x3F, 0x5E, 0x60, 0x7B, 0x7D].contains c.toNat

def percentEncode (set : Char → Bool) (c : Char) : List Char :=
  if set c then (String.utf8EncodeChar c).flatMap percentByte else [c]

def encodeSegment (segment : List Char) : List Char := segment.flatMap (percentEncode inPathSet)

end Encoding

section Paths

abbrev Segments := List (List Char)

def isSingleDot (segment : List Char) : Bool :=
  [['.'], ['%', '2', 'e']].contains (segment.map Char.toLower)

def isDoubleDot (segment : List Char) : Bool :=
  [['.', '.'], ['.', '%', '2', 'e'], ['%', '2', 'e', '.'], ['%', '2', 'e', '%', '2', 'e']].contains
    (segment.map Char.toLower)

def closeSegment (path : Segments) (buffer : List Char) (slash : Bool) : Segments :=
  if isDoubleDot buffer then if slash then path.dropLast else path.dropLast ++ [[]]
  else if isSingleDot buffer then if slash then path else path ++ [[]]
  else path ++ [buffer]

def fragmentState (rest : List Char) : List Char := rest.flatMap (percentEncode inFragmentSet)

def queryState (rest : List Char) : List Char × Option (List Char) :=
  ((rest.takeWhile (· ≠ '#')).flatMap (percentEncode inSpecialQuerySet),
    match rest.dropWhile (· ≠ '#') with
    | [] => none
    | _ :: rest => some (fragmentState rest))

structure Tail where
  path : Segments
  query : Option (List Char)
  fragment : Option (List Char)
deriving DecidableEq, Repr

def pathState (path : Segments) (buffer : List Char) : List Char → Tail
  | [] => ⟨closeSegment path buffer false, none, none⟩
  | c :: rest =>
    if c = '/' ∨ c = '\\' then pathState (closeSegment path buffer true) [] rest
    else if c = '?' then
      let (query, fragment) := queryState rest
      ⟨closeSegment path buffer false, some query, fragment⟩
    else if c = '#' then ⟨closeSegment path buffer false, none, some (fragmentState rest)⟩
    else pathState path (buffer ++ percentEncode inPathSet c) rest

end Paths

section Urls

structure Url (Host : Type) where
  scheme : List Char
  host : Host
  port : Option ℕ
  path : Segments
  query : Option (List Char)
  fragment : Option (List Char)

variable {Host : Type}

def Url.origin (url : Url Host) : List Char × Host × Option ℕ := (url.scheme, url.host, url.port)

def Url.pathname (url : Url Host) : List Char := url.path.flatMap ('/' :: ·)

def Url.withTail (base : Url Host) (tail : Tail) : Url Host :=
  { base with path := tail.path, query := tail.query, fragment := tail.fragment }

def isSlash (c : Char) : Bool := c = '/' || c = '\\'

def clean (input : List Char) : List Char :=
  let isOuter := fun c : Char => c.toNat ≤ 0x20
  (((input.dropWhile isOuter).reverse.dropWhile isOuter).reverse).filter fun c => ¬ [0x09, 0x0A, 0x0D].contains c.toNat

def schemeOf (input : List Char) : Option (List Char × List Char) :=
  match input with
  | [] => none
  | first :: _ =>
    let isMember := fun c : Char => c.isAlphanum || ['+', '-', '.'].contains c
    match input.dropWhile isMember with
    | ':' :: rest => if first.isAlpha then some ((input.takeWhile isMember).map Char.toLower, rest) else none
    | _ => none

/-- A reference without a scheme of its own; `foreign` reads an authority. -/
def relative (foreign : Option (Url Host)) (base : Url Host) : List Char → Option (Url Host)
  | [] => some { base with fragment := none }
  | c :: rest =>
    if isSlash c then
      if rest.head?.any isSlash then foreign
      else some (base.withTail (pathState [] [] rest))
    else if c = '?' then
      let (query, fragment) := queryState rest
      some { base with query := some query, fragment }
    else if c = '#' then some { base with fragment := some (fragmentState rest) }
    else some (base.withTail (pathState base.path.dropLast [] (c :: rest)))

/-- Resolution against a base; `foreign` parses what has an authority or a scheme of its own. -/
def resolve (foreign : List Char → Option (Url Host)) (base : Url Host) (input : List Char) : Option (Url Host) :=
  let input := clean input
  match schemeOf input with
  | none => relative (foreign input) base input
  | some (scheme, rest) =>
    if scheme = base.scheme ∧ ¬(['/', '/'] : List Char) <+: rest then relative (foreign input) base rest
    else foreign input

end Urls

section Resolving

def pathPart (rest : List Char) : List Char := rest.takeWhile fun c => c ≠ '?' && c ≠ '#'

def closeAll (path : Segments) : Segments → Segments
  | [] => path
  | [last] => closeSegment path last false
  | segment :: next :: rest => closeAll (closeSegment path segment true) (next :: rest)

theorem closeAll_cons {path : Segments} {segment : List Char} {rest : Segments} (h : rest ≠ []) :
    closeAll path (segment :: rest) = closeAll (closeSegment path segment true) rest := by
  cases rest with
  | nil => exact absurd rfl h
  | cons next rest => rfl

theorem pathState_path {rest : List Char} (hslash : '\\' ∉ rest) (path : Segments) (buffer : List Char) :
    (pathState path buffer rest).path =
      closeAll path ((((pathPart rest).splitOn '/').map encodeSegment).modifyHead (buffer ++ ·)) := by
  induction rest generalizing path buffer with
  | nil => simp [pathState, pathPart, closeAll, encodeSegment, List.splitOn_nil]
  | cons c rest ih =>
    have hnext : '\\' ∉ rest := fun hmem => hslash (List.mem_cons_of_mem c hmem)
    have hback : c ≠ '\\' := fun hc => hslash (hc ▸ List.mem_cons_self)
    unfold pathState
    by_cases hc : c = '/'
    · subst hc
      have hpart : pathPart ('/' :: rest) = '/' :: pathPart rest := by simp [pathPart]
      rw [if_pos (.inl rfl), hpart, List.splitOn_cons_eq_if_modifyHead, if_pos (by simp), List.map_cons,
        List.modifyHead_cons, closeAll_cons (by simp [List.splitOn_ne_nil]), ih hnext]
      cases (pathPart rest).splitOn '/' with
      | nil => simp [encodeSegment]
      | cons segment segments => simp [encodeSegment]
    · rw [if_neg (by simp [hc, hback])]
      by_cases hquery : c = '?'
      · subst hquery
        simp [pathPart, closeAll, encodeSegment, List.splitOn_nil]
      · rw [if_neg hquery]
        by_cases hfragment : c = '#'
        · subst hfragment
          simp [pathPart, closeAll, encodeSegment, List.splitOn_nil]
        · have hpart : pathPart (c :: rest) = c :: pathPart rest := by simp [pathPart, hquery, hfragment]
          rw [if_neg hfragment, hpart, List.splitOn_cons_eq_if_modifyHead, if_neg (by simpa using hc), ih hnext]
          congr 1
          cases (pathPart rest).splitOn '/' with
          | nil => rfl
          | cons segment segments => simp [encodeSegment]

theorem schemeOf_slash (rest : List Char) : schemeOf ('/' :: rest) = none := by
  simp [schemeOf]

theorem dropWhile_eq_self {p : Char → Bool} {text : List Char} (h : ∀ c, text.head? = some c → p c = false) :
    text.dropWhile p = text := by
  cases text with
  | nil => rfl
  | cons c text => simp [h c rfl]

theorem clean_eq_self {input : List Char} (hfirst : ∀ c, input.head? = some c → 0x20 < c.toNat)
    (hlast : ∀ c, input.getLast? = some c → 0x20 < c.toNat)
    (hinner : ∀ c ∈ input, c.toNat ≠ 0x09 ∧ c.toNat ≠ 0x0A ∧ c.toNat ≠ 0x0D) : clean input = input := by
  have hback : input.reverse.dropWhile (fun c => c.toNat ≤ 0x20) = input.reverse := by
    apply dropWhile_eq_self
    intro c hc
    rw [List.head?_reverse] at hc
    simpa using hlast c hc
  have hfront : input.dropWhile (fun c => c.toNat ≤ 0x20) = input := by
    apply dropWhile_eq_self
    intro c hc
    simpa using hfirst c hc
  unfold clean
  dsimp only
  rw [hfront, hback, List.reverse_reverse, List.filter_eq_self]
  intro c hc
  simpa using hinner c hc

theorem resolve_rooted {Host : Type} (foreign : List Char → Option (Url Host)) (base : Url Host) {rest : List Char}
    (hclean : clean ('/' :: rest) = '/' :: rest) (hslash : rest.head?.any isSlash = false) :
    resolve foreign base ('/' :: rest) = some (base.withTail (pathState [] [] rest)) := by
  simp [resolve, hclean, schemeOf_slash, relative, isSlash, hslash]

end Resolving

section Dots

def dots : List Char → Option ℕ
  | [] => some 0
  | '.' :: rest => (dots rest).map (· + 1)
  | '%' :: high :: low :: rest => if high = '2' ∧ low.toLower = 'e' then (dots rest).map (· + 1) else none
  | _ => none

attribute [grind =] dots

theorem head_utf8EncodeChar {c : Char} (h : c ≠ '.') :
    ∃ b bytes, String.utf8EncodeChar c = b :: bytes ∧ b.toNat ≠ 0x2E := by
  have hc : c.toNat = c.val.toNat := rfl
  have hne : c.toNat ≠ 0x2E := fun hsame => h (Char.toNat_inj.mp hsame)
  unfold String.utf8EncodeChar
  dsimp only
  split_ifs with h1 h2 h3
  · refine ⟨_, _, rfl, ?_⟩
    rw [UInt8.toNat_ofNat']
    omega
  · refine ⟨_, _, rfl, ?_⟩
    rw [UInt8.toNat_ofNat']
    omega
  · refine ⟨_, _, rfl, ?_⟩
    rw [UInt8.toNat_ofNat']
    omega
  · refine ⟨_, _, rfl, ?_⟩
    rw [UInt8.toNat_ofNat']
    omega

theorem dots_percentEncode {c : Char} (hc : inPathSet c = true) (rest : List Char) :
    dots (percentEncode inPathSet c ++ rest) = none := by
  have hne : c ≠ '.' := by
    rintro rfl
    exact absurd hc (by decide)
  obtain ⟨b, bytes, hbytes, hb⟩ := head_utf8EncodeChar hne
  have hlt := b.toNat_lt
  have hdigits : ∀ n : Fin 256, n.val ≠ 0x2E →
      ¬(upperHex (n.val / 16) = '2' ∧ (upperHex (n.val % 16)).toLower = 'e') := by
    decide +kernel
  have hdigit := hdigits ⟨b.toNat, hlt⟩ hb
  simp [percentEncode, hc, hbytes, percentByte, dots, hdigit]

theorem percentEncode_cons {c d : Char} {rest text : List Char} (hd : d ≠ '%')
    (h : percentEncode inPathSet c ++ rest = d :: text) : c = d ∧ rest = text := by
  unfold percentEncode at h
  split_ifs at h with hc
  · obtain ⟨b, bytes, hbytes⟩ := List.exists_cons_of_ne_nil (String.utf8EncodeChar_ne_nil (c := c))
    rw [hbytes, List.flatMap_cons, percentByte] at h
    exact absurd (List.cons.inj h).1.symm hd
  · exact List.cons.inj h

theorem encodeSegment_of_dots {n : ℕ} {raw : List Char} (h : dots (encodeSegment raw) = some n) :
    encodeSegment raw = raw := by
  induction hn : raw.length using Nat.strong_induction_on generalizing raw n with
  | _ m ih =>
    subst hn
    cases raw with
    | nil => rfl
    | cons c rest =>
      have hcons : ∀ (d : Char) (text : List Char), encodeSegment (d :: text) =
          percentEncode inPathSet d ++ encodeSegment text :=
        fun d text => List.flatMap_cons
      rw [hcons] at h ⊢
      cases hc : inPathSet c with
      | true =>
        rw [dots_percentEncode hc] at h
        cases h
      | false =>
        have hplain : percentEncode inPathSet c = [c] := by simp [percentEncode, hc]
        rw [hplain, List.singleton_append] at h ⊢
        unfold dots at h
        split at h
        · rename_i heq
          cases heq
        · rename_i tail heq
          obtain ⟨rfl, rfl⟩ := List.cons.inj heq
          obtain ⟨k, hk, -⟩ := Option.map_eq_some_iff.mp h
          rw [ih rest.length (by simp) hk rfl]
        · rename_i high low tail heq
          obtain ⟨rfl, hrest⟩ := List.cons.inj heq
          by_cases hdigits : high = '2' ∧ low.toLower = 'e'
          · rw [if_pos hdigits] at h
            obtain ⟨k, hk, -⟩ := Option.map_eq_some_iff.mp h
            obtain ⟨rfl, hlow⟩ := hdigits
            cases rest with
            | nil => cases hrest
            | cons first rest =>
              rw [hcons] at hrest
              obtain ⟨rfl, hnext⟩ := percentEncode_cons (by decide) hrest
              cases rest with
              | nil => cases hnext
              | cons second rest =>
                rw [hcons] at hnext
                have hne : low ≠ '%' := by
                  rintro rfl
                  exact absurd hlow (by decide)
                obtain ⟨rfl, rfl⟩ := percentEncode_cons hne hnext
                rw [heq, ih rest.length (by simp only [List.length_cons]; omega) hk rfl]
          · rw [if_neg hdigits] at h
            cases h
        · cases h

theorem eq_or_upper_of_toLower {c d : Char} (h : c.toLower = d) :
    c = d ∨ (c.toNat + 0x20 = d.toNat ∧ 0x61 ≤ d.toNat ∧ d.toNat ≤ 0x7A) := by
  unfold Char.toLower at h
  split at h
  · rename_i hupper
    have hlow : 'A'.val.toNat ≤ c.val.toNat := UInt32.le_iff_toNat_le.mp hupper.1
    have hhigh : c.val.toNat ≤ 'Z'.val.toNat := UInt32.le_iff_toNat_le.mp hupper.2
    have hshift : d.toNat = (c.val + ('a'.val - 'A'.val)).toNat := by rw [← h]; rfl
    have hA : 'A'.val.toNat = 0x41 := rfl
    have hZ : 'Z'.val.toNat = 0x5A := rfl
    have hstep : ('a'.val - 'A'.val).toNat = 0x20 := rfl
    have hc : c.toNat = c.val.toNat := rfl
    rw [UInt32.toNat_add, hstep] at hshift
    right
    omega
  · exact .inl h

theorem eq_of_toLower {c d : Char} (hd : ¬(0x61 ≤ d.toNat ∧ d.toNat ≤ 0x7A)) (h : c.toLower = d) : c = d := by
  obtain heq | ⟨-, hrange⟩ := eq_or_upper_of_toLower h
  · exact heq
  · exact absurd hrange hd

theorem eq_of_toLower_e {c : Char} (h : c.toLower = 'e') : c = 'e' ∨ c = 'E' := by
  obtain heq | ⟨hupper, -⟩ := eq_or_upper_of_toLower h
  · exact .inl heq
  · have hE : c.toNat = 'E'.toNat := by
      have he : 'e'.toNat = 0x65 := rfl
      have hE : 'E'.toNat = 0x45 := rfl
      omega
    exact .inr (Char.toNat_inj.mp hE)

theorem cut_dot {text rest : List Char} (h : text.map Char.toLower = '.' :: rest) :
    ∃ tail, text = '.' :: tail ∧ tail.map Char.toLower = rest := by
  obtain ⟨c, tail, rfl, hc, htail⟩ := List.map_eq_cons_iff.mp h
  obtain rfl := eq_of_toLower (by decide) hc
  exact ⟨tail, rfl, htail⟩

theorem cut_escape {text rest : List Char} (h : text.map Char.toLower = '%' :: '2' :: 'e' :: rest) :
    ∃ low tail, text = '%' :: '2' :: low :: tail ∧ low.toLower = 'e' ∧ tail.map Char.toLower = rest := by
  obtain ⟨c, first, rfl, hc, hfirst⟩ := List.map_eq_cons_iff.mp h
  obtain ⟨high, second, rfl, hhigh, hsecond⟩ := List.map_eq_cons_iff.mp hfirst
  obtain ⟨low, tail, rfl, hlow, htail⟩ := List.map_eq_cons_iff.mp hsecond
  obtain rfl := eq_of_toLower (by decide) hc
  obtain rfl := eq_of_toLower (by decide) hhigh
  exact ⟨low, tail, rfl, hlow, htail⟩

theorem dots_of_isDoubleDot {text : List Char} (h : isDoubleDot text = true) : dots text = some 2 := by
  have hspelled : text.map Char.toLower = ['.', '.'] ∨ text.map Char.toLower = ['.', '%', '2', 'e'] ∨
      text.map Char.toLower = ['%', '2', 'e', '.'] ∨ text.map Char.toLower = ['%', '2', 'e', '%', '2', 'e'] := by
    simpa only [isDoubleDot, List.contains_iff_mem, List.mem_cons, List.not_mem_nil, or_false] using h
  rcases hspelled with h | h | h | h
  · obtain ⟨first, rfl, hfirst⟩ := cut_dot h
    obtain ⟨second, rfl, hsecond⟩ := cut_dot hfirst
    simp [dots, List.map_eq_nil_iff.mp hsecond]
  · obtain ⟨first, rfl, hfirst⟩ := cut_dot h
    obtain ⟨low, second, rfl, hlow, hsecond⟩ := cut_escape hfirst
    simp [dots, hlow, List.map_eq_nil_iff.mp hsecond]
  · obtain ⟨low, first, rfl, hlow, hfirst⟩ := cut_escape h
    obtain ⟨second, rfl, hsecond⟩ := cut_dot hfirst
    simp [dots, hlow, List.map_eq_nil_iff.mp hsecond]
  · obtain ⟨low, first, rfl, hlow, hfirst⟩ := cut_escape h
    obtain ⟨next, second, rfl, hnext, hsecond⟩ := cut_escape hfirst
    simp [dots, hlow, hnext, List.map_eq_nil_iff.mp hsecond]

theorem dots_of_isSingleDot {text : List Char} (h : isSingleDot text = true) : dots text = some 1 := by
  have hspelled : text.map Char.toLower = ['.'] ∨ text.map Char.toLower = ['%', '2', 'e'] := by
    simpa only [isSingleDot, List.contains_iff_mem, List.mem_cons, List.not_mem_nil, or_false] using h
  rcases hspelled with h | h
  · obtain ⟨first, rfl, hfirst⟩ := cut_dot h
    simp [dots, List.map_eq_nil_iff.mp hfirst]
  · obtain ⟨low, first, rfl, hlow, hfirst⟩ := cut_escape h
    simp [dots, hlow, List.map_eq_nil_iff.mp hfirst]

theorem encodeSegment_dots {n : ℕ} {text : List Char} (h : dots text = some n) : encodeSegment text = text := by
  induction text using dots.induct generalizing n with
  | case1 => rfl
  | case2 rest ih =>
    obtain ⟨k, hk, -⟩ := Option.map_eq_some_iff.mp h
    have hplain : percentEncode inPathSet '.' = ['.'] := by decide
    rw [encodeSegment, List.flatMap_cons, hplain, ← encodeSegment, ih hk]
    rfl
  | case3 high low rest hdigits ih =>
    rw [dots, if_pos hdigits] at h
    obtain ⟨k, hk, -⟩ := Option.map_eq_some_iff.mp h
    obtain ⟨rfl, hlow⟩ := hdigits
    have hpercent : percentEncode inPathSet '%' = ['%'] := by decide
    have htwo : percentEncode inPathSet '2' = ['2'] := by decide
    have hlast : percentEncode inPathSet low = [low] := by
      obtain rfl | rfl := eq_of_toLower_e hlow <;> decide
    rw [encodeSegment, List.flatMap_cons, List.flatMap_cons, List.flatMap_cons, hpercent, htwo, hlast,
      ← encodeSegment, ih hk]
    rfl
  | case4 high low rest hdigits =>
    rw [dots, if_neg hdigits] at h
    cases h
  | case5 text hnil hdot hescape =>
    rw [dots] at h
    · cases h
    · exact hnil
    · exact hdot
    · exact hescape

theorem isSingleDot_encodeSegment (raw : List Char) : isSingleDot (encodeSegment raw) = isSingleDot raw := by
  rw [Bool.eq_iff_iff]
  constructor
  · intro h
    rwa [encodeSegment_of_dots (dots_of_isSingleDot h)] at h
  · intro h
    rwa [encodeSegment_dots (dots_of_isSingleDot h)]

theorem isDoubleDot_encodeSegment (raw : List Char) : isDoubleDot (encodeSegment raw) = isDoubleDot raw := by
  rw [Bool.eq_iff_iff]
  constructor
  · intro h
    rwa [encodeSegment_of_dots (dots_of_isDoubleDot h)] at h
  · intro h
    rwa [encodeSegment_dots (dots_of_isDoubleDot h)]

end Dots

section Units

theorem scalars_plain {u : UInt16} (hu : isSurrogate u = false) (s : JsString) :
    scalars (u :: s) = charOfUnit u :: scalars s := by
  cases s with
  | nil => simp [scalars, hu]
  | cons v s => simp [scalars, hu]

theorem charOfUnit_eq_iff {u : UInt16} (hu : isSurrogate u = false) (c : Char) :
    charOfUnit u = c ↔ u.toNat = c.toNat := by
  rw [← toNat_charOfUnit hu, Char.toNat_inj]

theorem far_charOfPair {high low : UInt16} (hhigh : isHigh high = true) (hlow : isLow low = true) :
    0xFFFD ≤ (charOfPair high low).toNat := by
  rw [toNat_charOfPair hhigh hlow, Nat.add_assoc]
  exact le_trans (by norm_num) (Nat.le_add_right _ _)

theorem mem_scalars {s : JsString} {c : Char} (h : c ∈ scalars s) :
    (∃ u ∈ s, isSurrogate u = false ∧ c.toNat = u.toNat) ∨ 0xFFFD ≤ c.toNat := by
  induction s using scalars.induct with
  | case1 => cases h
  | case2 u hu =>
    simp only [scalars, hu, if_true, List.mem_singleton] at h
    subst h
    exact .inr (by decide)
  | case3 u hu =>
    have hplain : isSurrogate u = false := by simpa using hu
    simp only [scalars, hplain, Bool.false_eq_true, if_false, List.mem_singleton] at h
    subst h
    exact .inl ⟨u, List.mem_singleton_self u, hplain, toNat_charOfUnit hplain⟩
  | case4 u v us hu ih =>
    rw [scalars_plain hu, List.mem_cons] at h
    obtain rfl | h := h
    · exact .inl ⟨u, List.mem_cons_self, hu, toNat_charOfUnit hu⟩
    · obtain ⟨w, hw, hrest⟩ | hfar := ih h
      · exact .inl ⟨w, List.mem_cons_of_mem _ hw, hrest⟩
      · exact .inr hfar
  | case5 u v us hu hpair ih =>
    rw [scalars, if_neg hu, if_pos hpair, List.mem_cons] at h
    rcases h with heq | h
    · rw [heq]
      exact .inr (far_charOfPair hpair.1 hpair.2)
    · obtain ⟨w, hw, hrest⟩ | hfar := ih h
      · exact .inl ⟨w, List.mem_cons_of_mem _ (List.mem_cons_of_mem _ hw), hrest⟩
      · exact .inr hfar
  | case6 u v us hu hpair ih =>
    rw [scalars, if_neg hu, if_neg hpair, List.mem_cons] at h
    obtain rfl | h := h
    · exact .inr (by decide)
    · obtain ⟨w, hw, hrest⟩ | hfar := ih h
      · exact .inl ⟨w, List.mem_cons_of_mem _ hw, hrest⟩
      · exact .inr hfar

theorem isLow_of_plain {u : UInt16} (h : isSurrogate u = false) : isLow u = false := by
  simp only [isSurrogate, Bool.or_eq_false_iff] at h
  exact h.2

theorem scalars_append_cons {u : UInt16} (hu : isSurrogate u = false) (a b : JsString) :
    scalars (a ++ u :: b) = scalars a ++ charOfUnit u :: scalars b := by
  have hlow := isLow_of_plain hu
  induction a using scalars.induct with
  | case1 => exact scalars_plain hu b
  | case2 v hv => simp [scalars, hv, hlow, scalars_plain hu]
  | case3 v hv =>
    have hplain : isSurrogate v = false := by simpa using hv
    simp [scalars, hplain, scalars_plain hu]
  | case4 v w us hv ih =>
    rw [List.cons_append, scalars_plain hv, ih, scalars_plain hv, List.cons_append]
  | case5 v w us hv hpair ih =>
    rw [List.cons_append, List.cons_append, scalars, if_neg hv, if_pos hpair, ih, scalars, if_neg hv, if_pos hpair,
      List.cons_append]
  | case6 v w us hv hpair ih =>
    rw [List.cons_append, List.cons_append, scalars, if_neg hv, if_neg hpair, ← List.cons_append, ih, scalars,
      if_neg hv, if_neg hpair, List.cons_append]

theorem scalars_eq_cons {s : JsString} {c : Char} {rest : List Char} (h : scalars s = c :: rest)
    (hnear : c.toNat < 0xFFFD) :
    ∃ u tail, s = u :: tail ∧ isSurrogate u = false ∧ u.toNat = c.toNat ∧ scalars tail = rest := by
  have hreplaced : Char.ofNat 0xFFFD ≠ c := by
    rintro rfl
    exact absurd hnear (by decide)
  cases s with
  | nil => cases h
  | cons u tail =>
    cases hu : isSurrogate u with
    | false =>
      rw [scalars_plain hu] at h
      obtain ⟨hc, hrest⟩ := List.cons.inj h
      exact ⟨u, tail, rfl, hu, (charOfUnit_eq_iff hu c).mp hc, hrest⟩
    | true =>
      exfalso
      cases tail with
      | nil =>
        simp only [scalars, hu, if_true] at h
        exact hreplaced (List.cons.inj h).1
      | cons v tail =>
        rw [scalars, if_neg (by simp [hu])] at h
        split_ifs at h with hpair
        · have hfar := far_charOfPair hpair.1 hpair.2
          rw [(List.cons.inj h).1] at hfar
          omega
        · exact hreplaced (List.cons.inj h).1

theorem scalars_eq_nil {s : JsString} (h : scalars s = []) : s = [] := by
  cases s with
  | nil => rfl
  | cons u s =>
    cases s with
    | nil =>
      unfold scalars at h
      split_ifs at h
    | cons v s =>
      unfold scalars at h
      split_ifs at h

theorem getLast?_cons_of_ne_nil {α : Type} {a : α} {l : List α} (h : l ≠ []) : (a :: l).getLast? = l.getLast? := by
  obtain ⟨b, l, rfl⟩ := List.exists_cons_of_ne_nil h
  exact List.getLast?_cons_cons

theorem getLast?_scalars {s : JsString} {c : Char} (h : (scalars s).getLast? = some c) :
    (∃ u, s.getLast? = some u ∧ c.toNat = u.toNat) ∨ 0xFFFD ≤ c.toNat := by
  induction s using scalars.induct with
  | case1 => cases h
  | case2 u hu =>
    simp only [scalars, hu, if_true, List.getLast?_singleton, Option.some.injEq] at h
    subst h
    exact .inr (by decide)
  | case3 u hu =>
    have hplain : isSurrogate u = false := by simpa using hu
    simp only [scalars, hplain, Bool.false_eq_true, if_false, List.getLast?_singleton, Option.some.injEq] at h
    subst h
    exact .inl ⟨u, rfl, toNat_charOfUnit hplain⟩
  | case4 u v us hu ih =>
    have hrest : scalars (v :: us) ≠ [] := fun hnil => by cases scalars_eq_nil hnil
    rw [scalars_plain hu, getLast?_cons_of_ne_nil hrest] at h
    rw [List.getLast?_cons_cons]
    exact ih h
  | case5 u v us hu hpair ih =>
    rw [scalars, if_neg hu, if_pos hpair] at h
    cases us with
    | nil =>
      simp only [scalars, List.getLast?_singleton, Option.some.injEq] at h
      subst h
      exact .inr (far_charOfPair hpair.1 hpair.2)
    | cons w us =>
      have hrest : scalars (w :: us) ≠ [] := fun hnil => by cases scalars_eq_nil hnil
      rw [getLast?_cons_of_ne_nil hrest] at h
      rw [List.getLast?_cons_cons, List.getLast?_cons_cons]
      exact ih h
  | case6 u v us hu hpair ih =>
    have hrest : scalars (v :: us) ≠ [] := fun hnil => by cases scalars_eq_nil hnil
    rw [scalars, if_neg hu, if_neg hpair, getLast?_cons_of_ne_nil hrest] at h
    rw [List.getLast?_cons_cons]
    exact ih h

theorem unit_of_mem_scalars {s : JsString} {u : UInt16} (hu : isSurrogate u = false) (hnear : u.toNat < 0xFFFD)
    (h : charOfUnit u ∈ scalars s) : u ∈ s := by
  obtain ⟨w, hw, -, heq⟩ | hfar := mem_scalars h
  · rw [toNat_charOfUnit hu] at heq
    rwa [UInt16.toNat_inj.mp heq]
  · rw [toNat_charOfUnit hu] at hfar
    omega

theorem splitOn_scalars {u : UInt16} (hu : isSurrogate u = false) (hnear : u.toNat < 0xFFFD) (s : JsString) :
    (scalars s).splitOn (charOfUnit u) = (s.splitOn u).map scalars := by
  induction hn : s.length using Nat.strong_induction_on generalizing s with
  | _ n ih =>
    subst hn
    by_cases hmem : u ∈ s
    · obtain ⟨a, b, rfl⟩ := List.append_of_mem hmem
      rw [scalars_append_cons hu, List.splitOn_append_cons_self, List.splitOn_append_cons_self, List.map_append,
        ih a.length (by simp) a rfl, ih b.length (by simp only [List.length_append, List.length_cons]; omega) b rfl]
    · rw [List.splitOn_eq_singleton hmem,
        List.splitOn_eq_singleton fun hin => hmem (unit_of_mem_scalars hu hnear hin)]
      rfl

theorem takeWhile_scalars {p : Char → Bool} {q : UInt16 → Bool} {s : JsString}
    (hplain : ∀ u ∈ s, q u = false → isSurrogate u = false ∧ p (charOfUnit u) = false)
    (hkept : ∀ c ∈ scalars (s.takeWhile q), p c = true) :
    (scalars s).takeWhile p = scalars (s.takeWhile q) := by
  cases hdrop : s.dropWhile q with
  | nil =>
    have hall : s.takeWhile q = s := by
      conv_rhs => rw [← List.takeWhile_append_dropWhile (p := q) (l := s), hdrop, List.append_nil]
    rw [hall] at hkept ⊢
    have hself := @List.takeWhile_append_of_pos _ p (scalars s) [] hkept
    simpa using hself
  | cons u rest =>
    have hsplit : s = s.takeWhile q ++ u :: rest := by rw [← hdrop, List.takeWhile_append_dropWhile]
    have hstop : q u = false := by
      have hhead := List.head?_dropWhile_not q s
      simpa [hdrop] using hhead
    obtain ⟨hu, hp⟩ := hplain u (by rw [hsplit]; simp) hstop
    conv_lhs => rw [hsplit, scalars_append_cons hu]
    rw [List.takeWhile_append_of_pos hkept, List.takeWhile_cons_of_neg (by simp [hp]), List.append_nil]

end Units

section Prefixes

/-- No single-dot segment begins within the first `n` characters of a path with these segments. -/
def clears (n : ℕ) : Segments → Bool
  | [] => true
  | segment :: rest => (!isSingleDot segment || n ≤ 1) && clears (n - (segment.length + 1)) rest

theorem flatMap_splitOn (text : List Char) : (text.splitOn '/').flatMap ('/' :: ·) = '/' :: text := by
  induction text with
  | nil => simp [List.splitOn_nil]
  | cons c text ih =>
    rw [List.splitOn_cons_eq_if_modifyHead]
    obtain ⟨head, rest, hsplit⟩ := List.exists_cons_of_ne_nil (List.splitOn_ne_nil '/' text)
    rw [hsplit] at ih ⊢
    split_ifs with hc
    · have hslash : c = '/' := by simpa using hc
      rw [List.flatMap_cons, ih, hslash]
      rfl
    · rw [List.flatMap_cons, List.cons_append] at ih
      rw [List.modifyHead_cons, List.flatMap_cons, List.cons_append, List.cons_append, (List.cons.inj ih).2]

theorem encode_kept {text : List Char} (h : ∀ c ∈ text, inPathSet c = false) : encodeSegment text = text := by
  induction text with
  | nil => rfl
  | cons c text ih =>
    rw [List.forall_mem_cons] at h
    rw [encodeSegment, List.flatMap_cons, ← encodeSegment, ih h.2]
    simp [percentEncode, h.1]

theorem prefix_encode {start text : List Char} (hkept : ∀ c ∈ start, inPathSet c = false) (hpre : start <+: text) :
    start <+: encodeSegment text := by
  obtain ⟨rest, rfl⟩ := hpre
  have hstart := encode_kept hkept
  rw [encodeSegment] at hstart ⊢
  rw [List.flatMap_append, hstart]
  exact List.prefix_append _ _

theorem encode_slash (segment : List Char) : encodeSegment ('/' :: segment) = '/' :: encodeSegment segment := by
  have hslash : percentEncode inPathSet '/' = ['/'] := by decide
  rw [encodeSegment, List.flatMap_cons, hslash]
  rfl

theorem prefix_slash {start text rest : List Char} (hshort : start.length ≤ 1) (hpre : start <+: '/' :: text) :
    start <+: '/' :: rest := by
  have hone : start <+: ['/'] :=
    List.prefix_of_prefix_length_le hpre (List.cons_prefix_cons.mpr ⟨rfl, List.nil_prefix⟩) hshort
  exact hone.trans (List.cons_prefix_cons.mpr ⟨rfl, List.nil_prefix⟩)

theorem clears_of_le_one {n : ℕ} (hn : n ≤ 1) (segments : Segments) : clears n segments = true := by
  induction segments generalizing n with
  | nil => rfl
  | cons segment rest ih => simp [clears, hn, ih (n := n - (segment.length + 1)) (by omega)]

theorem prefix_closeAll {front : Segments} {last start : List Char}
    (hfront : ∀ segment ∈ front, isDoubleDot segment = false) (hlast : isDoubleDot last = false)
    (hkept : ∀ c ∈ start, inPathSet c = false) (hclears : clears start.length (front ++ [last]) = true)
    (hpre : start <+: (front ++ [last]).flatMap ('/' :: ·)) :
    ∃ kept, (∀ path, closeAll path ((front ++ [last]).map encodeSegment) = path ++ kept) ∧
      start <+: kept.flatMap ('/' :: ·) := by
  induction front generalizing start with
  | nil =>
    rw [List.nil_append, List.flatMap_singleton] at hpre
    rw [List.nil_append, clears, Bool.and_eq_true, Bool.or_eq_true, Bool.not_eq_true', decide_eq_true_eq] at hclears
    have hdouble : isDoubleDot (encodeSegment last) = false := (isDoubleDot_encodeSegment last).trans hlast
    have hsame := isSingleDot_encodeSegment last
    cases hsingle : isSingleDot last with
    | true =>
      rw [hsingle] at hsame hclears
      refine ⟨[[]], fun path => ?_, ?_⟩
      · simp [closeAll, closeSegment, hdouble, hsame]
      · rw [List.flatMap_singleton]
        exact prefix_slash (by simpa using hclears.1) hpre
    | false =>
      rw [hsingle] at hsame
      refine ⟨[encodeSegment last], fun path => ?_, ?_⟩
      · simp [closeAll, closeSegment, hdouble, hsame]
      · rw [List.flatMap_singleton, ← encode_slash]
        exact prefix_encode hkept hpre
  | cons segment front ih =>
    rw [List.forall_mem_cons] at hfront
    rw [List.cons_append, List.flatMap_cons] at hpre
    rw [List.cons_append, clears, Bool.and_eq_true, Bool.or_eq_true, Bool.not_eq_true', decide_eq_true_eq] at hclears
    obtain ⟨hdot, hrest⟩ := hclears
    have hdouble : isDoubleDot (encodeSegment segment) = false := (isDoubleDot_encodeSegment segment).trans hfront.1
    have hsame := isSingleDot_encodeSegment segment
    have hstep : ∀ path, closeAll path ((segment :: (front ++ [last])).map encodeSegment) =
        closeAll (closeSegment path (encodeSegment segment) true) ((front ++ [last]).map encodeSegment) := fun path =>
      closeAll_cons (by simp)
    cases hsingle : isSingleDot segment with
    | true =>
      -- the prefix is at most the slash, which the next segment has as well
      rw [hsingle] at hsame hdot
      have hshort : start.length ≤ 1 := by simpa using hdot
      obtain ⟨next, more, hnext⟩ := List.exists_cons_of_ne_nil (show front ++ [last] ≠ [] by simp)
      have hpre' : start <+: (front ++ [last]).flatMap ('/' :: ·) := by
        rw [hnext, List.flatMap_cons]
        exact prefix_slash hshort hpre
      obtain ⟨kept, hkept', hstart⟩ := ih hfront.2 hkept (clears_of_le_one hshort _) hpre'
      refine ⟨kept, fun path => ?_, hstart⟩
      rw [List.cons_append, hstep, hkept']
      simp [closeSegment, hdouble, hsame]
    | false =>
      rw [hsingle] at hsame
      have hlen : (start.drop (segment.length + 1)).length = start.length - (segment.length + 1) := List.length_drop
      have hdrop : start.drop (segment.length + 1) <+: (front ++ [last]).flatMap ('/' :: ·) := by
        have := hpre.drop (segment.length + 1)
        rwa [show segment.length + 1 = ('/' :: segment).length from rfl, List.drop_left] at this
      obtain ⟨kept, hkept', hstart⟩ := ih hfront.2 (fun c hc => hkept c (List.mem_of_mem_drop hc)) (hlen ▸ hrest) hdrop
      refine ⟨encodeSegment segment :: kept, fun path => ?_, ?_⟩
      · rw [List.cons_append, hstep, hkept']
        simp [closeSegment, hdouble, hsame]
      · rw [List.flatMap_cons, ← encode_slash]
        rcases List.prefix_or_prefix_of_prefix hpre (List.prefix_append _ _) with hwithin | ⟨rest, rfl⟩
        · exact (prefix_encode hkept hwithin).trans (List.prefix_append _ _)
        · have hsegment := encode_kept fun c hc => hkept c (List.mem_append_left rest hc)
          rw [show segment.length + 1 = ('/' :: segment).length from rfl, List.drop_left] at hstart
          rw [hsegment]
          exact (List.prefix_append_right_inj _).mpr hstart

end Prefixes

end CrashLab.UrlStandard
