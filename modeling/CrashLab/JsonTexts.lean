import CrashLab.Decimals
import CrashLab.JsStrings

namespace CrashLab.JsonTexts

open Decimals JsStrings

inductive Json where
  | null
  | bool (b : Bool)
  | number (n : Decimal)
  | string (s : JsString)
  | array (items : List Json)
  | object (members : List (JsString × Json))

section Stringify

def hexDigit (n : ℕ) : Char := if n < 10 then Char.ofNat (48 + n) else Char.ofNat (87 + n)

def hex4 (n : ℕ) : List Char :=
  [hexDigit (n / 4096 % 16), hexDigit (n / 256 % 16), hexDigit (n / 16 % 16), hexDigit (n % 16)]

def shortEscapes : List (ℕ × Char) :=
  [(0x08, 'b'), (0x09, 't'), (0x0A, 'n'), (0x0C, 'f'), (0x0D, 'r'), (0x22, '\x22'), (0x5C, '\\')]

def quoteUnit (u : UInt16) : List Char :=
  match shortEscapes.lookup u.toNat with
  | some letter => ['\\', letter]
  | none => if u.toNat < 0x20 ∨ isSurrogate u = true then '\\' :: 'u' :: hex4 u.toNat else [charOfUnit u]

/-- `QuoteJSONString` without the quotes: a surrogate is escaped unless it is half of a pair. -/
def quoteBody : JsString → List Char
  | [] => []
  | [u] => quoteUnit u
  | u :: v :: rest =>
    if isHigh u && isLow v then charOfPair u v :: quoteBody rest else quoteUnit u ++ quoteBody (v :: rest)

def quote (s : JsString) : List Char := '\x22' :: quoteBody s ++ ['\x22']

mutual

def stringify : Json → List Char
  | .null => ['n', 'u', 'l', 'l']
  | .bool true => ['t', 'r', 'u', 'e']
  | .bool false => ['f', 'a', 'l', 's', 'e']
  | .number n => n.text
  | .string s => quote s
  | .array [] => ['[', ']']
  | .array (item :: items) => '[' :: (stringify item ++ stringifyItems items)
  | .object [] => ['\x7b', '\x7d']
  | .object ((key, value) :: members) => '\x7b' :: (quote key ++ ':' :: (stringify value ++ stringifyMembers members))

def stringifyItems : List Json → List Char
  | [] => [']']
  | item :: items => ',' :: (stringify item ++ stringifyItems items)

def stringifyMembers : List (JsString × Json) → List Char
  | [] => ['\x7d']
  | (key, value) :: members => ',' :: (quote key ++ ':' :: (stringify value ++ stringifyMembers members))

end

end Stringify

section Parse

def skipSpace (text : List Char) : List Char := text.dropWhile fun c => [' ', '\t', '\n', '\r'].contains c

def hexValue (c : Char) : Option ℕ :=
  if '0' ≤ c ∧ c ≤ '9' then some (c.toNat - 48)
  else if 'a' ≤ c ∧ c ≤ 'f' then some (c.toNat - 87)
  else if 'A' ≤ c ∧ c ≤ 'F' then some (c.toNat - 55)
  else none

def unitOfHex (a b c d : Char) : Option UInt16 := do
  return UInt16.ofNat ((← hexValue a) * 4096 + (← hexValue b) * 256 + (← hexValue c) * 16 + (← hexValue d))

def unescape (letter : Char) : Option UInt16 :=
  if letter = '/' then some (UInt16.ofNat 0x2F)
  else ((shortEscapes.map Prod.swap).lookup letter).map UInt16.ofNat

def parseString : List Char → Option (JsString × List Char)
  | [] => none
  | '\x22' :: rest => some ([], rest)
  | '\\' :: 'u' :: a :: b :: c :: d :: rest => do
    let u ← unitOfHex a b c d
    let (s, rest) ← parseString rest
    return (u :: s, rest)
  | '\\' :: letter :: rest => do
    let u ← unescape letter
    let (s, rest) ← parseString rest
    return (u :: s, rest)
  | c :: rest =>
    if c.toNat < 0x20 ∨ c = '\\' then none
    else do
      let (s, rest) ← parseString rest
      return (units c ++ s, rest)

def isNumberChar (c : Char) : Bool := c.isDigit || ['-', '+', '.', 'e', 'E'].contains c

def parseNumber (text : List Char) : Option (Json × List Char) :=
  (read (text.takeWhile isNumberChar)).map fun n => (.number n, text.dropWhile isNumberChar)

mutual

/-- `JSON.parse` on what is left of a text; `fuel` bounds its length. A number keeps the decimal it is written as. -/
def parseValue : ℕ → List Char → Option (Json × List Char)
  | 0, _ => none
  | fuel + 1, text =>
    match skipSpace text with
    | 'n' :: 'u' :: 'l' :: 'l' :: rest => some (.null, rest)
    | 't' :: 'r' :: 'u' :: 'e' :: rest => some (.bool true, rest)
    | 'f' :: 'a' :: 'l' :: 's' :: 'e' :: rest => some (.bool false, rest)
    | '\x22' :: rest => (parseString rest).map fun parsed => (.string parsed.1, parsed.2)
    | '[' :: rest =>
      match skipSpace rest with
      | ']' :: rest => some (.array [], rest)
      | rest => do
        let (item, rest) ← parseValue fuel rest
        let (items, rest) ← parseItems fuel rest
        return (.array (item :: items), rest)
    | '\x7b' :: rest =>
      match skipSpace rest with
      | '\x7d' :: rest => some (.object [], rest)
      | rest => do
        let (member, rest) ← parseMember fuel rest
        let (members, rest) ← parseMembers fuel rest
        return (.object (member :: members), rest)
    | rest => parseNumber rest

def parseItems : ℕ → List Char → Option (List Json × List Char)
  | 0, _ => none
  | fuel + 1, text =>
    match skipSpace text with
    | ']' :: rest => some ([], rest)
    | ',' :: rest => do
      let (item, rest) ← parseValue fuel rest
      let (items, rest) ← parseItems fuel rest
      return (item :: items, rest)
    | _ => none

def parseMember : ℕ → List Char → Option ((JsString × Json) × List Char)
  | 0, _ => none
  | fuel + 1, text =>
    match skipSpace text with
    | '\x22' :: rest => do
      let (key, rest) ← parseString rest
      match skipSpace rest with
      | ':' :: rest => do
        let (value, rest) ← parseValue fuel rest
        return ((key, value), rest)
      | _ => none
    | _ => none

def parseMembers : ℕ → List Char → Option (List (JsString × Json) × List Char)
  | 0, _ => none
  | fuel + 1, text =>
    match skipSpace text with
    | '\x7d' :: rest => some ([], rest)
    | ',' :: rest => do
      let (member, rest) ← parseMember fuel rest
      let (members, rest) ← parseMembers fuel rest
      return (member :: members, rest)
    | _ => none

end

def parse (text : List Char) : Option Json := do
  let (value, rest) ← parseValue (text.length + 1) text
  if skipSpace rest = [] then some value else none

def Json.get (key : JsString) : Json → Option Json
  | .object members => (members.reverse.find? fun member => member.1 = key).map Prod.snd
  | _ => none

end Parse

attribute [grind =] parseString parseValue

section RoundTrip

theorem hexValue_hexDigit {n : ℕ} (h : n < 16) : hexValue (hexDigit n) = some n := by
  interval_cases n <;> decide

theorem unitOfHex_hex4 {n : ℕ} (h : n < 65536) :
    unitOfHex (hexDigit (n / 4096 % 16)) (hexDigit (n / 256 % 16)) (hexDigit (n / 16 % 16)) (hexDigit (n % 16)) =
      some (UInt16.ofNat n) := by
  have hsum : n / 4096 % 16 * 4096 + n / 256 % 16 * 256 + n / 16 % 16 * 16 + n % 16 = n := by omega
  simp only [unitOfHex, hexValue_hexDigit (Nat.mod_lt _ (show 0 < 16 by decide)), Option.bind_eq_bind,
    Option.bind_some, Option.pure_def, hsum]

def withUnits (us : JsString) (parsed : Option (JsString × List Char)) : Option (JsString × List Char) :=
  parsed.map fun p => (us ++ p.1, p.2)

theorem parseString_escape {letter : Char} {u : UInt16} (hletter : letter ≠ 'u')
    (h : unescape letter = some u) (text : List Char) :
    parseString ('\\' :: letter :: text) = withUnits [u] (parseString text) := by
  rw [parseString]
  · rw [h]
    cases parseString text <;> rfl
  · rintro a b c d rest hu
    exact absurd hu hletter

theorem parseString_char {c : Char} (hspace : 0x20 ≤ c.toNat) (hquote : c ≠ '\x22') (hslash : c ≠ '\\')
    (text : List Char) : parseString (c :: text) = withUnits (units c) (parseString text) := by
  rw [parseString]
  · rw [if_neg (by simp [hslash]; omega)]
    cases parseString text <;> rfl
  · exact hquote
  · intro a b c' d rest h
    exact absurd h hslash
  · intro letter rest h
    exact absurd h hslash

theorem parseString_quoteUnit (u : UInt16) (text : List Char) :
    parseString (quoteUnit u ++ text) = withUnits [u] (parseString text) := by
  unfold quoteUnit
  split
  next letter hlookup =>
    have hcases : ∀ entry ∈ shortEscapes, entry.2 ≠ 'u' ∧ unescape entry.2 = some (UInt16.ofNat entry.1) := by
      decide
    obtain ⟨before, after, hentries, _⟩ := List.lookup_eq_some_iff.mp hlookup
    obtain ⟨hletter, hunescape⟩ := hcases (u.toNat, letter) (by rw [hentries]; simp)
    rw [UInt16.ofNat_toNat] at hunescape
    exact parseString_escape hletter hunescape text
  next hlookup =>
    split_ifs with hescape
    · have hhex := unitOfHex_hex4 u.toNat_lt
      rw [UInt16.ofNat_toNat] at hhex
      simp only [hex4, List.cons_append, List.nil_append, parseString, hhex]
      cases parseString text <;> rfl
    · rw [not_or, Bool.not_eq_true] at hescape
      have hchar := toNat_charOfUnit hescape.2
      have hmissing := List.lookup_eq_none_iff.mp hlookup
      rw [List.singleton_append, parseString_char, units_charOfUnit hescape.2]
      · omega
      · intro h
        have := hmissing (0x22, '\x22') (by decide)
        rw [h] at hchar
        exact absurd hchar.symm (by simpa using this)
      · intro h
        have := hmissing (0x5C, '\\') (by decide)
        rw [h] at hchar
        exact absurd hchar.symm (by simpa using this)

theorem parseString_quoteBody (s : JsString) (rest : List Char) :
    parseString (quoteBody s ++ '\x22' :: rest) = some (s, rest) := by
  fun_induction quoteBody s with
  | case1 => rw [List.nil_append, parseString]
  | case2 u =>
    rw [parseString_quoteUnit, parseString]
    rfl
  | case3 u v tail hpair ih =>
    rw [Bool.and_eq_true] at hpair
    have hchar := toNat_charOfPair hpair.1 hpair.2
    rw [List.cons_append, parseString_char, ih, units_charOfPair hpair.1 hpair.2]
    · rfl
    · omega
    · intro h
      rw [h] at hchar
      have : ('\x22').toNat = 34 := rfl
      omega
    · intro h
      rw [h] at hchar
      have : ('\\').toNat = 92 := rfl
      omega
  | case4 u v tail hpair ih =>
    rw [List.append_assoc, parseString_quoteUnit, ih]
    rfl

def Stops (rest : List Char) : Prop := ∀ c ∈ rest.head?, isNumberChar c = false

theorem parseNumber_text (d : Decimal) {rest : List Char} (hrest : Stops rest) :
    parseNumber (d.text ++ rest) = some (.number d, rest) := by
  have hall : ∀ c ∈ d.text, isNumberChar c = true := by
    intro c hc
    rcases d.mem_text hc with h | h
    · rw [isNumberChar, h, Bool.true_or]
    · fin_cases h <;> decide
  have hstop : rest.takeWhile isNumberChar = [] ∧ rest.dropWhile isNumberChar = rest := by
    cases rest with
    | nil => exact ⟨rfl, rfl⟩
    | cons c tail =>
      have hc : isNumberChar c = false := hrest c rfl
      simp [hc]
  rw [parseNumber, List.takeWhile_append_of_pos hall, List.dropWhile_append_of_pos hall, hstop.1, hstop.2,
    List.append_nil, d.read_text, Option.map_some]

theorem skipSpace_cons {c : Char} (h : [' ', '\t', '\n', '\r'].contains c = false) (text : List Char) :
    skipSpace (c :: text) = c :: text := List.dropWhile_cons_of_neg (by simpa using h)

theorem head_stringify (v : Json) :
    ∃ c rest, stringify v = c :: rest ∧ [' ', '\t', '\n', '\r', ']', '\x7d'].contains c = false := by
  unfold stringify
  split
  case h_4 n =>
    obtain ⟨c, rest, h, hc⟩ := n.head_text
    refine ⟨c, rest, h, ?_⟩
    rcases hc with hc | rfl
    · have hne : ∀ d : Char, d.isDigit = false → c ≠ d := fun d hd => isDigit_ne hc hd
      simp [hne ' ' (by decide), hne '\t' (by decide), hne '\n' (by decide), hne '\r' (by decide),
        hne ']' (by decide), hne '\x7d' (by decide)]
    · decide
  all_goals exact ⟨_, _, rfl, by decide⟩

theorem parseValue_number {c : Char} (hc : c.isDigit = true ∨ c = '-') (fuel : ℕ) (text : List Char) :
    parseValue (fuel + 1) (c :: text) = parseNumber (c :: text) := by
  have hne : ∀ d : Char, d.isDigit = false → d ≠ '-' → c ≠ d := by
    rintro d hd hminus rfl
    rcases hc with h | h
    · rw [hd] at h
      cases h
    · exact hminus h
  have hspace : skipSpace (c :: text) = c :: text := by
    apply skipSpace_cons
    simp [hne ' ' (by decide) (by decide), hne '\t' (by decide) (by decide), hne '\n' (by decide) (by decide),
      hne '\r' (by decide) (by decide)]
  rw [parseValue, hspace]
  split
  case h_7 => rfl
  all_goals
    rename_i heq
    exact absurd (List.cons.inj heq).1 (hne _ (by decide) (by decide))

theorem parseValue_array {c : Char} (hc : [' ', '\t', '\n', '\r', ']', '\x7d'].contains c = false) (fuel : ℕ)
    (text : List Char) : parseValue (fuel + 1) ('[' :: c :: text) = (do
      let (item, rest) ← parseValue fuel (c :: text)
      let (items, rest) ← parseItems fuel rest
      return (.array (item :: items), rest)) := by
  have hspace : skipSpace (c :: text) = c :: text := by
    apply skipSpace_cons
    simp at hc ⊢
    tauto
  have hend : c ≠ ']' := by
    rintro rfl
    exact absurd hc (by decide)
  simp only [parseValue, skipSpace_cons (show [' ', '\t', '\n', '\r'].contains '[' = false by decide), hspace]
  split
  next heq => exact absurd (List.cons.inj heq).1 hend
  next => rfl

theorem parseValue_object (fuel : ℕ) (text : List Char) :
    parseValue (fuel + 1) ('\x7b' :: '\x22' :: text) = (do
      let (member, rest) ← parseMember fuel ('\x22' :: text)
      let (members, rest) ← parseMembers fuel rest
      return (.object (member :: members), rest)) := rfl

theorem stops_items (items : List Json) (rest : List Char) : Stops (stringifyItems items ++ rest) := by
  cases items <;> simp [stringifyItems, Stops, isNumberChar]

theorem stops_members (members : List (JsString × Json)) (rest : List Char) :
    Stops (stringifyMembers members ++ rest) := by
  rcases members with _ | ⟨⟨key, value⟩, members⟩ <;> simp [stringifyMembers, Stops, isNumberChar]

mutual

theorem parseValue_stringify (v : Json) (fuel : ℕ) (rest : List Char) (hfuel : (stringify v).length < fuel)
    (hrest : Stops rest) : parseValue fuel (stringify v ++ rest) = some (v, rest) := by
  match v, fuel, hfuel with
  | .null, fuel + 1, _ => rfl
  | .bool true, fuel + 1, _ => rfl
  | .bool false, fuel + 1, _ => rfl
  | .number n, fuel + 1, _ =>
    obtain ⟨c, tail, htext, hc⟩ := n.head_text
    have hnumber := parseNumber_text n hrest
    rw [stringify]
    rw [htext, List.cons_append] at hnumber ⊢
    rw [parseValue_number hc, hnumber]
  | .string s, fuel + 1, _ =>
    have hread := parseString_quoteBody s rest
    simp [stringify, quote, parseValue, skipSpace, hread]
  | .array [], fuel + 1, _ => rfl
  | .array (item :: items), fuel + 1, hfuel =>
    rw [stringify, List.length_cons, List.length_append] at hfuel
    have hitem := parseValue_stringify item fuel (stringifyItems items ++ rest) (by omega) (stops_items items rest)
    have hitems := parseItems_stringifyItems items fuel rest (by omega)
    obtain ⟨c, tail, htext, hc⟩ := head_stringify item
    rw [htext, List.cons_append] at hitem
    rw [stringify, htext, List.cons_append, List.cons_append, List.cons_append, List.append_assoc,
      parseValue_array hc, hitem]
    simp [hitems]
  | .object [], fuel + 1, _ => rfl
  | .object ((key, value) :: members), fuel + 1, hfuel =>
    simp only [stringify, List.length_cons, List.length_append] at hfuel
    have hmember := parseMember_stringify key value fuel (stringifyMembers members ++ rest)
      (by simp only [List.length_append, List.length_cons]; omega) (stops_members members rest)
    have hmembers := parseMembers_stringifyMembers members fuel rest (by omega)
    simp only [quote, List.cons_append, List.append_assoc] at hmember
    simp only [stringify, quote, List.cons_append, List.append_assoc, parseValue_object, hmember]
    simp [hmembers]

theorem parseItems_stringifyItems (items : List Json) (fuel : ℕ) (rest : List Char)
    (hfuel : (stringifyItems items).length < fuel) :
    parseItems fuel (stringifyItems items ++ rest) = some (items, rest) := by
  match items, fuel, hfuel with
  | [], fuel + 1, _ => rfl
  | item :: items, fuel + 1, hfuel =>
    rw [stringifyItems, List.length_cons, List.length_append] at hfuel
    have hitem := parseValue_stringify item fuel (stringifyItems items ++ rest) (by omega) (stops_items items rest)
    have hitems := parseItems_stringifyItems items fuel rest (by omega)
    simp [stringifyItems, parseItems, skipSpace, hitem, hitems]

theorem parseMember_stringify (key : JsString) (value : Json) (fuel : ℕ) (rest : List Char)
    (hfuel : (quote key ++ ':' :: stringify value).length < fuel) (hrest : Stops rest) :
    parseMember fuel (quote key ++ ':' :: (stringify value ++ rest)) = some ((key, value), rest) := by
  match fuel, hfuel with
  | fuel + 1, hfuel =>
    have hvalue := parseValue_stringify value fuel rest
      (by simp only [List.length_append, List.length_cons] at hfuel; omega) hrest
    have hkey := parseString_quoteBody key (':' :: (stringify value ++ rest))
    simp [quote, parseMember, skipSpace, hkey, hvalue]

theorem parseMembers_stringifyMembers (members : List (JsString × Json)) (fuel : ℕ) (rest : List Char)
    (hfuel : (stringifyMembers members).length < fuel) :
    parseMembers fuel (stringifyMembers members ++ rest) = some (members, rest) := by
  match members, fuel, hfuel with
  | [], fuel + 1, _ => rfl
  | (key, value) :: members, fuel + 1, hfuel =>
    simp only [stringifyMembers, List.length_cons, List.length_append] at hfuel
    have hmember := parseMember_stringify key value fuel (stringifyMembers members ++ rest)
      (by simp only [List.length_append, List.length_cons]; omega) (stops_members members rest)
    have hmembers := parseMembers_stringifyMembers members fuel rest (by omega)
    simp [stringifyMembers, parseMembers, skipSpace, hmember, hmembers]

end

theorem parse_stringify (v : Json) : parse (stringify v) = some v := by
  have h := parseValue_stringify v ((stringify v).length + 1) [] (by omega) (by simp [Stops])
  rw [List.append_nil] at h
  rw [parse, h]
  rfl

theorem stringify_injective : Function.Injective stringify := by
  intro v w h
  have hread := parse_stringify v
  rw [h, parse_stringify] at hread
  exact (Option.some_inj.mp hread).symm

end RoundTrip

end CrashLab.JsonTexts
