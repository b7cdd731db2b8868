import CrashLab.JsStrings

namespace CrashLab.UriTexts

open JsStrings

section Encoding

def characters : JsString → Option (List Char)
  | [] => some []
  | [u] => if isSurrogate u then none else some [charOfUnit u]
  | u :: v :: us =>
    if isSurrogate u = false then (charOfUnit u :: ·) <$> characters (v :: us)
    else if isHigh u ∧ isLow v then (charOfPair u v :: ·) <$> characters us
    else none

def isUnreserved (c : Char) : Bool := c.isAlphanum || "-_.!~*'()".toList.contains c

def upperHex (n : ℕ) : Char := "0123456789ABCDEF".toList.getD n '0'

def percentByte (b : UInt8) : List Char := ['%', upperHex (b.toNat / 16), upperHex (b.toNat % 16)]

def percentChar (c : Char) : List Char :=
  if isUnreserved c then [c] else (String.utf8EncodeChar c).flatMap percentByte

/-- A lone surrogate is a `URIError`. -/
def encodeURIComponent (s : JsString) : Option JsString :=
  (characters s).map fun chars => ofString (String.ofList (chars.flatMap percentChar))

end Encoding

theorem units_characters {s : JsString} {chars : List Char} (h : characters s = some chars) :
    chars.flatMap units = s := by
  induction s using characters.induct generalizing chars with
  | case1 =>
    cases h
    rfl
  | case2 u hlone => simp [characters, hlone] at h
  | case3 u hlone =>
    have hu : isSurrogate u = false := by simpa using hlone
    simp only [characters, hu, Bool.false_eq_true, ↓reduceIte, Option.some.injEq] at h
    subst h
    simp [units_charOfUnit hu]
  | case4 u v us hu ih =>
    rw [characters, if_pos hu, Option.map_eq_map, Option.map_eq_some_iff] at h
    obtain ⟨rest, hrest, rfl⟩ := h
    rw [List.flatMap_cons, units_charOfUnit hu, ih hrest, List.singleton_append]
  | case5 u v us hu hpair ih =>
    rw [characters, if_neg hu, if_pos hpair, Option.map_eq_map, Option.map_eq_some_iff] at h
    obtain ⟨rest, hrest, rfl⟩ := h
    rw [List.flatMap_cons, units_charOfPair hpair.1 hpair.2, ih hrest]
    rfl
  | case6 u v us hu hpair => simp [characters, hu, hpair] at h

section Bytes

def hexOf (c : Char) : ℕ := "0123456789ABCDEF".toList.idxOf c

theorem hexOf_upperHex {n : ℕ} (h : n < 16) : hexOf (upperHex n) = n := by
  interval_cases n <;> rfl

def bytesOf : List Char → List UInt8
  | '%' :: high :: low :: rest => UInt8.ofNat (16 * hexOf high + hexOf low) :: bytesOf rest
  | c :: rest => UInt8.ofNat c.toNat :: bytesOf rest
  | [] => []

theorem bytesOf_percentByte (b : UInt8) (rest : List Char) :
    bytesOf (percentByte b ++ rest) = b :: bytesOf rest := by
  have hlt := b.toNat_lt
  rw [percentByte, List.cons_append, List.cons_append, List.singleton_append, bytesOf,
    hexOf_upperHex (by omega), hexOf_upperHex (by omega), Nat.div_add_mod, UInt8.ofNat_toNat]

theorem bytesOf_percentBytes (bytes : List UInt8) (rest : List Char) :
    bytesOf (bytes.flatMap percentByte ++ rest) = bytes ++ bytesOf rest := by
  induction bytes with
  | nil => rfl
  | cons b bytes ih =>
    rw [List.flatMap_cons, List.append_assoc, bytesOf_percentByte, ih, List.cons_append]

theorem toNat_lt_of_isUnreserved {c : Char} (h : isUnreserved c = true) : c.toNat < 128 ∧ c ≠ '%' := by
  have hc : c.toNat = c.val.toNat := rfl
  constructor
  · change ((decide (c.val ≥ 'A'.val ∧ c.val ≤ 'Z'.val) || (decide (c.val ≥ 'a'.val) && decide (c.val ≤ 'z'.val))) ||
      (decide (c.val ≥ '0'.val) && decide (c.val ≤ '9'.val)) || "-_.!~*'()".toList.contains c) = true at h
    simp only [Bool.or_eq_true, Bool.and_eq_true, decide_eq_true_eq, ge_iff_le, UInt32.le_iff_toNat_le] at h
    rcases h with ((h | h) | h) | h
    · exact hc ▸ h.2.trans_lt (by decide)
    · exact hc ▸ h.2.trans_lt (by decide)
    · exact hc ▸ h.2.trans_lt (by decide)
    · have hmem : c ∈ ['-', '_', '.', '!', '~', '*', '\'', '(', ')'] := List.contains_iff_mem.mp h
      fin_cases hmem <;> decide
  · rintro rfl
    exact absurd h (by decide)

theorem utf8EncodeChar_of_lt {c : Char} (h : c.toNat < 128) :
    String.utf8EncodeChar c = [UInt8.ofNat c.toNat] := by
  have hc : c.toNat = c.val.toNat := rfl
  rw [String.utf8EncodeChar, if_pos (by omega)]
  rfl

theorem bytesOf_percentChar (c : Char) (rest : List Char) :
    bytesOf (percentChar c ++ rest) = String.utf8EncodeChar c ++ bytesOf rest := by
  rw [percentChar]
  split_ifs with hc
  · obtain ⟨hlt, hne⟩ := toNat_lt_of_isUnreserved hc
    rw [utf8EncodeChar_of_lt hlt, List.singleton_append, List.singleton_append, bytesOf]
    rintro high low tail rfl
    contradiction
  · exact bytesOf_percentBytes _ _

theorem bytesOf_percentChars (chars : List Char) :
    bytesOf (chars.flatMap percentChar) = chars.flatMap String.utf8EncodeChar := by
  induction chars with
  | nil => rfl
  | cons c chars ih => rw [List.flatMap_cons, bytesOf_percentChar, ih, List.flatMap_cons]

end Bytes

theorem encodeURIComponent_injective {s t text : JsString} (hs : encodeURIComponent s = some text)
    (ht : encodeURIComponent t = some text) : s = t := by
  simp only [encodeURIComponent, Option.map_eq_some_iff] at hs ht
  obtain ⟨schars, hschars, hs⟩ := hs
  obtain ⟨tchars, htchars, ht⟩ := ht
  have htexts : schars.flatMap percentChar = tchars.flatMap percentChar :=
    String.ofList_injective (ofString_injective (hs.trans ht.symm))
  have hbytes : schars.utf8Encode = tchars.utf8Encode := by
    have h := congrArg bytesOf htexts
    rw [bytesOf_percentChars, bytesOf_percentChars] at h
    rw [List.utf8Encode, List.utf8Encode, h]
  have hchars : schars = tchars := by
    have h := congrArg ByteArray.utf8Decode? hbytes
    rw [List.utf8Decode?_utf8Encode, List.utf8Decode?_utf8Encode, Option.some.injEq] at h
    simpa using congrArg Array.toList h
  rw [← units_characters hschars, ← units_characters htchars, hchars]

section Decoding

def hexValue (u : UInt16) : Option ℕ :=
  if 0x30 ≤ u.toNat ∧ u.toNat ≤ 0x39 then some (u.toNat - 0x30)
  else if 0x41 ≤ u.toNat ∧ u.toNat ≤ 0x46 then some (u.toNat - 0x37)
  else if 0x61 ≤ u.toNat ∧ u.toNat ≤ 0x66 then some (u.toNat - 0x57)
  else none

def octets : JsString → Option (List (UInt16 ⊕ ℕ))
  | [] => some []
  | u :: rest =>
    if u ≠ 0x25 then (.inl u :: ·) <$> octets rest
    else
      match rest with
      | high :: low :: rest => do
        let h ← hexValue high
        let l ← hexValue low
        (.inr (16 * h + l) :: ·) <$> octets rest
      | _ => none

structure Pending where
  missing : ℕ
  least : ℕ
  value : ℕ

def lead (a : ℕ) : Option Pending :=
  if 0xC0 ≤ a ∧ a < 0xE0 then some ⟨1, 0x80, a % 0x20⟩
  else if 0xE0 ≤ a ∧ a < 0xF0 then some ⟨2, 0x800, a % 0x10⟩
  else if 0xF0 ≤ a ∧ a < 0xF8 then some ⟨3, 0x10000, a % 0x08⟩
  else none

def Pending.trail (pending : Pending) (b : ℕ) : Option Pending :=
  if 0x80 ≤ b ∧ b < 0xC0 then some ⟨pending.missing - 1, pending.least, pending.value * 0x40 + b % 0x40⟩ else none

def Pending.character (pending : Pending) : Option Char :=
  if pending.least ≤ pending.value ∧ pending.value < 0x110000 ∧ ¬(0xD800 ≤ pending.value ∧ pending.value < 0xE000) then
    some (Char.ofNat pending.value)
  else none

def decodeOctets : Option Pending → List (UInt16 ⊕ ℕ) → Option JsString
  | none, [] => some []
  | some _, [] => none
  | none, .inl u :: rest => (u :: ·) <$> decodeOctets none rest
  | some _, .inl _ :: _ => none
  | none, .inr a :: rest =>
    if a < 0x80 then (UInt16.ofNat a :: ·) <$> decodeOctets none rest
    else (lead a).bind fun pending => decodeOctets (some pending) rest
  | some pending, .inr b :: rest => (pending.trail b).bind fun pending =>
    if 0 < pending.missing then decodeOctets (some pending) rest
    else pending.character.bind fun c => (units c ++ ·) <$> decodeOctets none rest

/-- A malformed escape and octets that are not UTF-8 are a `URIError`. -/
def decodeURIComponent (s : JsString) : Option JsString := (octets s).bind (decodeOctets none)

theorem octets_plain {u : UInt16} (hu : u ≠ 0x25) (rest : JsString) :
    octets (u :: rest) = (octets rest).map (.inl u :: ·) := by
  rw [octets.eq_def]
  simp [hu]

theorem octets_escape (high low : UInt16) (rest : JsString) :
    octets (0x25 :: high :: low :: rest) = (hexValue high).bind fun h => (hexValue low).bind fun l =>
      (octets rest).map (.inr (16 * h + l) :: ·) := by
  rw [octets.eq_def]
  simp

theorem octets_append_cons {u : UInt16} (hu : u ≠ 0x25) (hhex : hexValue u = none) (a b : JsString) :
    octets (a ++ u :: b) = (octets a).bind fun x => (octets b).map fun y => x ++ .inl u :: y := by
  induction hn : a.length using Nat.strong_induction_on generalizing a with
  | _ n ih =>
    subst hn
    cases a with
    | nil => simp [octets_plain hu, octets]
    | cons v a =>
      by_cases hv : v = 0x25
      · subst hv
        cases a with
        | nil =>
          rw [List.singleton_append]
          cases b with
          | nil => simp [octets]
          | cons w b => simp [hhex, octets]
        | cons high a =>
          cases a with
          | nil => simp [hhex, octets]
          | cons low rest =>
            rw [List.cons_append, List.cons_append, List.cons_append, octets_escape, octets_escape,
              ih rest.length (by simp only [List.length_cons]; omega) rest rfl]
            cases hexValue high <;> cases hexValue low <;> cases octets rest <;> simp [Function.comp_def]
      · rw [List.cons_append, octets_plain hv, octets_plain hv, ih a.length (by simp) a rfl]
        cases octets a <;> simp [Function.comp_def]

theorem decodeOctets_append_inl (u : UInt16) (a b : List (UInt16 ⊕ ℕ)) (pending : Option Pending) :
    decodeOctets pending (a ++ .inl u :: b) =
      (decodeOctets pending a).bind fun x => (decodeOctets none b).map fun y => x ++ u :: y := by
  induction a generalizing pending with
  | nil => cases pending <;> simp [decodeOctets]
  | cons token a ih =>
    cases token with
    | inl v =>
      cases pending with
      | none => simp [decodeOctets, ih, Option.map_bind, Option.bind_map, Function.comp_def]
      | some pending => simp [decodeOctets]
    | inr v =>
      cases pending with
      | none =>
        by_cases hv : v < 0x80
        · simp [decodeOctets, hv, ih, Option.map_bind, Option.bind_map, Function.comp_def]
        · cases hlead : lead v <;> simp [decodeOctets, hv, hlead, ih]
      | some pending =>
        cases htrail : pending.trail v with
        | none => simp [decodeOctets, htrail]
        | some next =>
          by_cases hmissing : 0 < next.missing
          · simp [decodeOctets, htrail, hmissing, ih]
          · cases hchar : next.character with
            | none => simp [decodeOctets, htrail, hmissing, hchar]
            | some c =>
              simp [decodeOctets, htrail, hmissing, hchar, ih, Option.map_bind, Option.bind_map, Function.comp_def]

theorem decodeURIComponent_append_cons {u : UInt16} (hu : u ≠ 0x25) (hhex : hexValue u = none) (a b : JsString) :
    decodeURIComponent (a ++ u :: b) =
      (decodeURIComponent a).bind fun x => (decodeURIComponent b).map fun y => x ++ u :: y := by
  unfold decodeURIComponent
  rw [octets_append_cons hu hhex]
  cases octets a with
  | none => rfl
  | some x =>
    cases octets b with
    | none => simp
    | some y => simp [decodeOctets_append_inl]

end Decoding

end CrashLab.UriTexts
