import CrashLab.Texts

namespace CrashLab.Cors

open Texts

inductive CorsError where
  | invalidOriginPattern (message : String)
  | invalidOriginFormat (message : String)
deriving DecidableEq, Repr

inductive OriginPattern where
  | any
  | exact (origin : String)
  | subdomain (scheme : Option String) (baseDomain : String) (port : Option ℕ)
deriving DecidableEq, Repr

section Cuts

def splitOnce (separator : List Char) : List Char → Option (List Char × List Char)
  | [] => none
  | c :: text =>
    if separator.isPrefixOf (c :: text) then some ([], (c :: text).drop separator.length)
    else (splitOnce separator text).map fun (before, after) => (c :: before, after)

def rsplitOnce (c : Char) (text : List Char) : Option (List Char × List Char) :=
  if c ∈ text then some ((text.rdropWhile (· ≠ c)).dropLast, text.rtakeWhile (· ≠ c)) else none

/-- `str::parse::<u16>`. -/
def parseU16 (text : List Char) : Option ℕ := (parseU64 text).filter (· < 2 ^ 16)

theorem splitOnce_eq_some {separator text before after : List Char}
    (h : splitOnce separator text = some (before, after)) : text = before ++ separator ++ after := by
  induction text generalizing before with
  | nil => cases h
  | cons c text ih =>
    rw [splitOnce] at h
    split_ifs at h with hprefix
    · obtain ⟨rest, hrest⟩ := List.isPrefixOf_iff_prefix.mp hprefix
      rw [← hrest, List.drop_left] at h
      rw [← hrest]
      cases h
      rfl
    · obtain ⟨⟨before', after'⟩, hsplit, heq⟩ := Option.map_eq_some_iff.mp h
      cases heq
      rw [ih hsplit, List.cons_append, List.cons_append]

theorem splitOnce_append {c : Char} {separator before : List Char} (h : c ∉ before) (after : List Char) :
    splitOnce (c :: separator) (before ++ (c :: separator) ++ after) = some (before, after) := by
  induction before with
  | nil =>
    rw [List.nil_append, List.cons_append, splitOnce, if_pos]
    · rw [← List.cons_append, List.drop_left]
    · exact List.isPrefixOf_iff_prefix.mpr (List.prefix_append ..)
  | cons d before ih =>
    rw [List.mem_cons, not_or] at h
    rw [List.cons_append, List.cons_append, splitOnce, if_neg]
    · rw [ih h.2]
      rfl
    · rw [List.isPrefixOf_iff_prefix]
      intro hprefix
      exact h.1 (List.cons_prefix_cons.mp hprefix).1

theorem rsplitOnce_eq_none {c : Char} {text : List Char} (h : c ∉ text) : rsplitOnce c text = none := by
  rw [rsplitOnce, if_neg h]

theorem rsplitOnce_append {c : Char} {after : List Char} (h : c ∉ after) (before : List Char) :
    rsplitOnce c (before ++ c :: after) = some (before, after) := by
  have hcut : (before ++ c :: after).rdropWhile (· ≠ c) = before ++ [c] ∧
      (before ++ c :: after).rtakeWhile (· ≠ c) = after := by
    induction after using List.reverseRecOn with
    | nil =>
      constructor
      · exact List.rdropWhile_concat_neg _ _ _ (by simp)
      · exact List.rtakeWhile_concat_neg _ _ _ (by simp)
    | append_singleton after d ih =>
      rw [List.mem_append, List.mem_singleton, not_or] at h
      have hd : decide (d ≠ c) = true := by simpa using Ne.symm h.2
      obtain ⟨hdrop, htake⟩ := ih h.1
      rw [← List.cons_append, ← List.append_assoc]
      constructor
      · rw [List.rdropWhile_concat_pos (fun x => decide (x ≠ c)) _ _ hd, hdrop]
      · rw [List.rtakeWhile_concat_pos (fun x => decide (x ≠ c)) _ _ hd, htake]
  rw [rsplitOnce, if_pos (by simp), hcut.1, hcut.2, List.dropLast_concat]

theorem rsplitOnce_cases (c : Char) (text : List Char) :
    c ∉ text ∧ rsplitOnce c text = none ∨
      ∃ before after, text = before ++ c :: after ∧ c ∉ after ∧ rsplitOnce c text = some (before, after) := by
  by_cases h : c ∈ text
  · right
    induction text with
    | nil => cases h
    | cons d text ih =>
      by_cases hlater : c ∈ text
      · obtain ⟨before, after, rfl, hafter, -⟩ := ih hlater
        exact ⟨d :: before, after, rfl, hafter, rsplitOnce_append hafter (d :: before)⟩
      · obtain rfl | hmem := List.mem_cons.mp h
        · exact ⟨[], text, rfl, hlater, rsplitOnce_append hlater []⟩
        · exact absurd hmem hlater
  · exact Or.inl ⟨h, rsplitOnce_eq_none h⟩

theorem append_cons_inj {c : Char} {before after before' after' : List Char} (h : c ∉ after) (h' : c ∉ after')
    (heq : before ++ c :: after = before' ++ c :: after') : before = before' ∧ after = after' := by
  have hsplit := rsplitOnce_append h before
  rw [heq, rsplitOnce_append h'] at hsplit
  cases hsplit
  exact ⟨rfl, rfl⟩

end Cuts

-- `str::to_lowercase` follows the Unicode tables.
variable (toLowercase : String → String)

section Parse

def patternScheme (pattern : List Char) : Except CorsError (Option String × List Char) :=
  match splitOnce "://".toList pattern with
  | some (scheme, rest) =>
    if scheme ≠ "http".toList ∧ scheme ≠ "https".toList then
      .error (.invalidOriginPattern ("Unsupported scheme in pattern: " ++ String.ofList scheme))
    else .ok (some (toLowercase (String.ofList scheme)), rest)
  | none => .ok (none, pattern)

def patternPort (rest : List Char) : Except CorsError (List Char × Option ℕ) :=
  match rsplitOnce ':' rest with
  | some (host, port) =>
    match parseU16 port with
    | some p => .ok (host, some p)
    | none => .error (.invalidOriginPattern ("Invalid port in pattern: " ++ String.ofList port))
  | none => .ok (rest, none)

def patternBase (hostPart : List Char) : Except CorsError String :=
  if ¬"*.".toList.isPrefixOf hostPart then
    .error (.invalidOriginPattern "Wildcard origin must start with '*.' in domain portion")
  else
    let base := hostPart.drop 2
    if base = [] ∨ '*' ∈ base then
      .error (.invalidOriginPattern ("Invalid base domain in wildcard pattern: " ++ String.ofList base))
    else .ok (toLowercase (String.ofList base))

def parseSubdomainPattern (pattern : List Char) : Except CorsError OriginPattern := do
  let (scheme, rest) ← patternScheme toLowercase pattern
  let (hostPart, port) ← patternPort rest
  let base ← patternBase toLowercase hostPart
  return .subdomain scheme base port

def validateOriginFormat (origin : List Char) : Except CorsError Unit := do
  if ¬"http://".toList.isPrefixOf origin ∧ ¬"https://".toList.isPrefixOf origin then
    throw (.invalidOriginFormat "Origin must start with http:// or https://")
  if origin.getLast? = some '/' then
    throw (.invalidOriginFormat "Origin must not contain a trailing slash")
  if '?' ∈ origin ∨ '#' ∈ origin then
    throw (.invalidOriginFormat "Origin must not contain query or fragment components")

def OriginPattern.parse (pattern : String) : Except CorsError OriginPattern := do
  let trimmed := trim pattern.toList
  if trimmed = [] then throw (.invalidOriginPattern "Pattern cannot be empty")
  if trimmed = ['*'] then return .any
  if '*' ∈ trimmed then parseSubdomainPattern toLowercase trimmed
  else
    validateOriginFormat trimmed
    return .exact (toLowercase (String.ofList trimmed))

end Parse

section Matching

def eqIgnoreAsciiCase (a b : String) : Bool := a.map Char.toLower = b.map Char.toLower

def cleaned (requestOrigin : String) : String := toLowercase (String.ofList (trim requestOrigin.toList))

def OriginPattern.matches (pattern : OriginPattern) (requestOrigin : String) : Bool :=
  let reqClean := cleaned toLowercase requestOrigin
  match pattern with
  | .any => true
  | .exact origin => eqIgnoreAsciiCase origin reqClean
  | .subdomain scheme baseDomain port =>
    match splitOnce "://".toList reqClean.toList with
    | none => false
    | some (reqScheme, rest) =>
      if scheme.any fun expected => reqScheme ≠ expected.toList then false
      else
        let (reqHost, reqPort) :=
          match rsplitOnce ':' rest with
          -- what is no number counts as no port
          | some (host, port) => (host, parseU16 port)
          | none => (rest, none)
        if port ≠ reqPort then false
        else decide (reqHost = baseDomain.toList) || ('.' :: baseDomain.toList).isSuffixOf reqHost

def reserved : List Char := [':', '/', '?', '#']

def HostOf (base host : List Char) : Prop := host = base ∨ '.' :: base <:+ host

/-- The whole origin is a scheme, which is the expected one, and an authority, which is the base host or ends in it
behind a dot; no character of it starts a port, a path, a query or a fragment. -/
def SameSite (scheme : Option String) (baseDomain requestOrigin : String) : Prop :=
  ∃ reqScheme authority, (cleaned toLowercase requestOrigin).toList = reqScheme ++ "://".toList ++ authority ∧
    (∀ expected ∈ scheme, reqScheme = expected.toList) ∧ HostOf baseDomain.toList authority ∧
      ∀ c ∈ reqScheme ++ authority, c ∉ reserved

/-- What stands behind the last colon is a port number, or what stands before it is no host of the base; and where
there is no colon, a host of the base comes without a path, a query or a fragment. -/
def PlainlySplit (scheme : Option String) (baseDomain requestOrigin : String) : Prop :=
  ∀ reqScheme rest, splitOnce "://".toList (cleaned toLowercase requestOrigin).toList = some (reqScheme, rest) →
    (∀ expected ∈ scheme, reqScheme = expected.toList) →
      (∀ host port, rest = host ++ ':' :: port → ':' ∉ port → parseU16 port = none → ¬HostOf baseDomain.toList host) ∧
        (':' ∉ rest → HostOf baseDomain.toList rest → ∀ c ∈ reqScheme ++ rest, c ∉ reserved)

theorem sameSite_iff (scheme : Option String) (baseDomain requestOrigin : String) :
    SameSite toLowercase scheme baseDomain requestOrigin ↔ ∃ reqScheme authority,
      splitOnce "://".toList (cleaned toLowercase requestOrigin).toList = some (reqScheme, authority) ∧
        (∀ expected ∈ scheme, reqScheme = expected.toList) ∧ HostOf baseDomain.toList authority ∧
          ∀ c ∈ reqScheme ++ authority, c ∉ reserved := by
  constructor
  · rintro ⟨reqScheme, authority, heq, hscheme, hhost, hplain⟩
    have hcolon : ':' ∉ reqScheme := fun h => hplain ':' (List.mem_append_left _ h) (by decide)
    refine ⟨reqScheme, authority, ?_, hscheme, hhost, hplain⟩
    rw [heq]
    exact splitOnce_append hcolon authority
  · rintro ⟨reqScheme, authority, hsplit, hrest⟩
    exact ⟨reqScheme, authority, splitOnce_eq_some hsplit, hrest⟩

theorem hostOf_iff (base host : List Char) :
    (decide (host = base) || ('.' :: base).isSuffixOf host) = true ↔ HostOf base host := by
  rw [Bool.or_eq_true, decide_eq_true_iff, List.isSuffixOf_iff_suffix, HostOf]

theorem matches_subdomain (scheme : Option String) (baseDomain : String) (port : Option ℕ)
    {requestOrigin : String} {reqScheme rest : List Char}
    (hsplit : splitOnce "://".toList (cleaned toLowercase requestOrigin).toList = some (reqScheme, rest)) :
    (OriginPattern.subdomain scheme baseDomain port).matches toLowercase requestOrigin = true ↔
      (∀ expected ∈ scheme, reqScheme = expected.toList) ∧
        (':' ∉ rest ∧ port = none ∧ HostOf baseDomain.toList rest ∨ ∃ host reqPort,
          rest = host ++ ':' :: reqPort ∧ ':' ∉ reqPort ∧ port = parseU16 reqPort ∧ HostOf baseDomain.toList host) := by
  have hscheme : (scheme.any fun expected => reqScheme ≠ expected.toList) = true ↔
      ¬∀ expected ∈ scheme, reqScheme = expected.toList := by
    cases scheme <;> simp
  simp only [OriginPattern.matches, hsplit, hscheme]
  by_cases hexpected : ∀ expected ∈ scheme, reqScheme = expected.toList
  · rw [if_neg (not_not.mpr hexpected), and_iff_right hexpected]
    obtain ⟨hcolon, hlast⟩ | ⟨host, reqPort, hrest, hcolon, hlast⟩ := rsplitOnce_cases ':' rest
    · have hnone : ¬∃ host reqPort, rest = host ++ ':' :: reqPort ∧ ':' ∉ reqPort ∧ port = parseU16 reqPort ∧
          HostOf baseDomain.toList host := by
        rintro ⟨host, reqPort, hrest, -⟩
        exact hcolon (by simp [hrest])
      rw [or_iff_left hnone, and_iff_right hcolon]
      simp only [hlast]
      by_cases hport : port = none
      · rw [if_neg (not_not.mpr hport), hostOf_iff, and_iff_right hport]
      · rw [if_pos hport]
        exact iff_of_false Bool.false_ne_true fun h => hport h.1
    · have hnone : ¬(':' ∉ rest ∧ port = none ∧ HostOf baseDomain.toList rest) := fun h => h.1 (by simp [hrest])
      rw [or_iff_right hnone]
      simp only [hlast]
      by_cases hport : port = parseU16 reqPort
      · rw [if_neg (not_not.mpr hport), hostOf_iff]
        constructor
        · intro hhost
          exact ⟨host, reqPort, hrest, hcolon, hport, hhost⟩
        · rintro ⟨host', reqPort', hrest', hcolon', -, hhost⟩
          obtain ⟨rfl, -⟩ := append_cons_inj hcolon hcolon' (hrest.symm.trans hrest')
          exact hhost
      · rw [if_pos hport]
        apply iff_of_false Bool.false_ne_true
        rintro ⟨host', reqPort', hrest', hcolon', hport', -⟩
        obtain ⟨-, rfl⟩ := append_cons_inj hcolon hcolon' (hrest.symm.trans hrest')
        exact hport hport'
  · rw [if_pos hexpected]
    exact iff_of_false Bool.false_ne_true fun h => hexpected h.1

theorem not_matches_subdomain (scheme : Option String) (baseDomain : String) (port : Option ℕ)
    {requestOrigin : String} (hsplit : splitOnce "://".toList (cleaned toLowercase requestOrigin).toList = none) :
    (OriginPattern.subdomain scheme baseDomain port).matches toLowercase requestOrigin = false := by
  simp only [OriginPattern.matches, hsplit]

theorem subdomain_sound_iff (scheme : Option String) (baseDomain requestOrigin : String) :
    ((OriginPattern.subdomain scheme baseDomain none).matches toLowercase requestOrigin = true →
        SameSite toLowercase scheme baseDomain requestOrigin) ↔
      PlainlySplit toLowercase scheme baseDomain requestOrigin := by
  rw [sameSite_iff, PlainlySplit]
  cases hsplit : splitOnce "://".toList (cleaned toLowercase requestOrigin).toList with
  | none =>
    rw [not_matches_subdomain toLowercase _ _ _ hsplit]
    exact iff_of_true nofun nofun
  | some parts =>
    obtain ⟨reqScheme, rest⟩ := parts
    rw [matches_subdomain toLowercase _ _ _ hsplit]
    constructor
    · intro hsound reqScheme' rest' hparts hscheme
      cases hparts
      constructor
      · intro host port hrest hcolon hport hhost
        obtain ⟨_, _, hparts, -, -, hplain⟩ :=
          hsound ⟨hscheme, Or.inr ⟨host, port, hrest, hcolon, hport.symm, hhost⟩⟩
        cases hparts
        exact hplain ':' (by simp [hrest]) (by decide)
      · intro hcolon hhost
        obtain ⟨_, _, hparts, -, -, hplain⟩ := hsound ⟨hscheme, Or.inl ⟨hcolon, rfl, hhost⟩⟩
        cases hparts
        exact hplain
    · rintro hplainly ⟨hscheme, hmatch⟩
      obtain ⟨hport, hplain⟩ := hplainly reqScheme rest rfl hscheme
      obtain ⟨hcolon, -, hhost⟩ | ⟨host, port, hrest, hcolon, hnone, hhost⟩ := hmatch
      · exact ⟨reqScheme, rest, rfl, hscheme, hhost, hplain hcolon hhost⟩
      · exact absurd hhost (hport host port hrest hcolon hnone.symm)

def lowerAscii (text : String) : String := text.map Char.toLower

def pathOrigin : String := "https://evil.com/x.example.com"

theorem pathOrigin_split : splitOnce "://".toList (cleaned lowerAscii pathOrigin).toList =
    some ("https".toList, "evil.com/x.example.com".toList) := by decide +kernel

theorem path_matches_subdomain :
    OriginPattern.parse lowerAscii "https://*.example.com" = .ok (.subdomain (some "https") "example.com" none) ∧
      ¬((OriginPattern.subdomain (some "https") "example.com" none).matches lowerAscii pathOrigin = true →
        SameSite lowerAscii (some "https") "example.com" pathOrigin) := by
  -- the dot and the base stand in the path of another host
  refine ⟨by decide +kernel, ?_⟩
  intro hsound
  have hmatches : (OriginPattern.subdomain (some "https") "example.com" none).matches lowerAscii pathOrigin = true := by
    decide +kernel
  obtain ⟨reqScheme, authority, hsplit, -, -, hplain⟩ := (sameSite_iff lowerAscii _ _ _).mp (hsound hmatches)
  rw [pathOrigin_split] at hsplit
  obtain ⟨rfl, rfl⟩ := Prod.mk.inj (Option.some.inj hsplit)
  exact hplain '/' (by decide +kernel) (by decide)

end Matching

section Allowlist

end Allowlist

end CrashLab.Cors
