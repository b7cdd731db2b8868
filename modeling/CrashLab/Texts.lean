import Mathlib.Data.List.DropRight
import Mathlib.Tactic

namespace CrashLab.Texts

def isWhitespace (c : Char) : Bool :=
  (0x09 ≤ c.toNat && c.toNat ≤ 0x0D) || (0x2000 ≤ c.toNat && c.toNat ≤ 0x200A) ||
    [0x20, 0x85, 0xA0, 0x1680, 0x2028, 0x2029, 0x202F, 0x205F, 0x3000].contains c.toNat

def trim (text : List Char) : List Char :=
  ((text.dropWhile isWhitespace).reverse.dropWhile isWhitespace).reverse

/-- `str::parse::<u64>`. -/
def parseU64 (text : List Char) : Option ℕ :=
  let digits := if text.head? = some '+' then text.tail else text
  if digits ≠ [] ∧ digits.all Char.isDigit then
    let value := digits.foldl (fun acc c => acc * 10 + (c.toNat - '0'.toNat)) 0
    if value < 2 ^ 64 then some value else none
  else none

theorem isWhitespace_of_trim_eq_nil {text : List Char} (h : trim text = []) :
    ∀ c ∈ text, isWhitespace c = true := by
  rw [trim, List.reverse_eq_nil_iff, List.dropWhile_eq_nil_iff] at h
  by_cases hnil : text.dropWhile isWhitespace = []
  · exact List.dropWhile_eq_nil_iff.mp hnil
  · have hhead := h _ (List.mem_reverse.mpr (List.head_mem hnil))
    rw [List.head_dropWhile_not isWhitespace] at hhead
    cases hhead

theorem trim_append_return (text : List Char) : trim (text ++ ['\r']) = trim text := by
  have hreturn : isWhitespace '\r' = true := by decide
  rw [trim, trim, List.dropWhile_append]
  split_ifs with hnil
  · rw [List.isEmpty_iff.mp hnil]
    rfl
  · rw [List.reverse_append, List.reverse_singleton, List.singleton_append, List.dropWhile_cons_of_pos hreturn]

theorem trim_of_ink {text : List Char} (h : ∀ c ∈ text, isWhitespace c = false) : trim text = text := by
  have hdrop (l : List Char) (hl : ∀ c ∈ l, isWhitespace c = false) : l.dropWhile isWhitespace = l := by
    cases l with
    | nil => rfl
    | cons c l => exact List.dropWhile_cons_of_neg (by simp [hl])
  rw [trim, hdrop text h, hdrop _ (by simpa using h), List.reverse_reverse]

section Lines

def splitInclusive : List Char → List (List Char)
  | [] => []
  | c :: text =>
    if c = '\n' then [c] :: splitInclusive text
    else
      match splitInclusive text with
      | [] => [[c]]
      | line :: lines => (c :: line) :: lines

def chomp (line : List Char) : List Char :=
  if line.getLast? = some '\n' then
    if line.dropLast.getLast? = some '\r' then line.dropLast.dropLast else line.dropLast
  else line

/-- `str::lines`. -/
def lines (text : List Char) : List (List Char) := (splitInclusive text).map chomp

def complete (text : List Char) : List Char := text.rdropWhile (· ≠ '\n')

def torn (text : List Char) : List Char := text.rtakeWhile (· ≠ '\n')

def Closed (text : List Char) : Prop := text = [] ∨ text.getLast? = some '\n'

theorem complete_append_torn (text : List Char) : complete text ++ torn text = text :=
  List.rdropWhile_append_rtakeWhile

theorem newline_not_mem_torn (text : List Char) : '\n' ∉ torn text := by
  intro h
  have hne := List.mem_rtakeWhile_imp h
  simp at hne

theorem complete_closed (text : List Char) : Closed (complete text) := by
  by_cases hnil : complete text = []
  · exact Or.inl hnil
  · have hlast := List.rdropWhile_last_not _ _ hnil
    rw [decide_eq_true_iff, ne_eq, not_not] at hlast
    right
    rw [List.getLast?_eq_some_getLast hnil]
    exact congrArg some hlast

theorem complete_of_closed {text : List Char} (closed : Closed text) : complete text = text := by
  obtain rfl | hlast := closed
  · rfl
  · obtain ⟨before, rfl⟩ := List.getLast?_eq_some_iff.mp hlast
    exact List.rdropWhile_concat_neg _ _ _ (by decide)

theorem complete_append_bare {text line : List Char} (closed : Closed text) (h : '\n' ∉ line) :
    complete (text ++ line) = text := by
  induction line using List.reverseRecOn with
  | nil => rw [List.append_nil, complete_of_closed closed]
  | append_singleton line c ih =>
    rw [List.mem_append, List.mem_singleton, not_or] at h
    rw [complete, ← List.append_assoc, List.rdropWhile_concat_pos _ _ _ (by simpa using Ne.symm h.2)]
    exact ih h.1

theorem torn_append_bare {text line : List Char} (closed : Closed text) (h : '\n' ∉ line) :
    torn (text ++ line) = line := by
  have hparts := complete_append_torn (text ++ line)
  rwa [complete_append_bare closed h, List.append_cancel_left_eq] at hparts

attribute [grind =] splitInclusive

theorem splitInclusive_ne_nil {text : List Char} (h : text ≠ []) : splitInclusive text ≠ [] := by
  cases text with
  | nil => exact absurd rfl h
  | cons c text =>
    rw [splitInclusive]
    split_ifs
    · exact List.cons_ne_nil _ _
    · split <;> exact List.cons_ne_nil _ _

theorem splitInclusive_append {text : List Char} (closed : Closed text) (rest : List Char) :
    splitInclusive (text ++ rest) = splitInclusive text ++ splitInclusive rest := by
  induction text with
  | nil => rfl
  | cons c text ih =>
    by_cases hnil : text = []
    · subst hnil
      obtain h | h := closed
      · cases h
      · have hc : c = '\n' := by simpa using h
        rw [hc]
        rfl
    · have hclosed : Closed text := by
        obtain h | h := closed
        · cases h
        · exact Or.inr (by rwa [List.getLast?_cons_of_ne_nil hnil] at h)
      rw [List.cons_append, splitInclusive, splitInclusive, ih hclosed]
      split_ifs
      · rfl
      · cases hsplit : splitInclusive text with
        | nil => exact absurd hsplit (splitInclusive_ne_nil hnil)
        | cons line lines => rfl

theorem splitInclusive_line {line : List Char} (h : '\n' ∉ line) :
    splitInclusive (line ++ ['\n']) = [line ++ ['\n']] := by
  induction line with
  | nil => rfl
  | cons c line ih =>
    rw [List.mem_cons, not_or] at h
    rw [List.cons_append, splitInclusive, if_neg (Ne.symm h.1), ih h.2]

theorem splitInclusive_bare {line : List Char} (h : '\n' ∉ line) :
    splitInclusive line = if line = [] then [] else [line] := by
  induction line with
  | nil => rfl
  | cons c line ih =>
    rw [List.mem_cons, not_or] at h
    rw [splitInclusive, if_neg (Ne.symm h.1), ih h.2, if_neg (List.cons_ne_nil _ _)]
    split_ifs with hnil
    · rw [hnil]
    · rfl

theorem chomp_bare {line : List Char} (h : '\n' ∉ line) : chomp line = line := by
  rw [chomp, if_neg]
  exact fun hlast => h (List.mem_of_getLast? hlast)

theorem chomp_line {line : List Char} (h : line.getLast? ≠ some '\r') : chomp (line ++ ['\n']) = line := by
  rw [chomp, List.getLast?_concat, if_pos rfl, List.dropLast_concat, if_neg h]

theorem lines_append_line {text line : List Char} (closed : Closed text) (hnewline : '\n' ∉ line)
    (hreturn : line.getLast? ≠ some '\r') : lines (text ++ (line ++ ['\n'])) = lines text ++ [line] := by
  rw [lines, splitInclusive_append closed, splitInclusive_line hnewline, List.map_append, List.map_singleton,
    chomp_line hreturn, lines]

theorem lines_append_bare {text line : List Char} (closed : Closed text) (h : '\n' ∉ line) :
    lines (text ++ line) = lines text ++ if line = [] then [] else [line] := by
  rw [lines, splitInclusive_append closed, splitInclusive_bare h, List.map_append, lines]
  split_ifs
  · rfl
  · rw [List.map_singleton, chomp_bare h]

def unlines (texts : List (List Char)) : List Char := texts.flatMap (· ++ ['\n'])

theorem unlines_append (texts more : List (List Char)) : unlines (texts ++ more) = unlines texts ++ unlines more :=
  List.flatMap_append

theorem unlines_closed (texts : List (List Char)) : Closed (unlines texts) := by
  induction texts using List.reverseRecOn with
  | nil => exact .inl rfl
  | append_singleton texts line _ =>
    right
    rw [unlines_append]
    simp [unlines]

theorem lines_unlines {texts : List (List Char)} (h : ∀ line ∈ texts, '\n' ∉ line ∧ '\r' ∉ line) :
    lines (unlines texts) = texts := by
  induction texts using List.reverseRecOn with
  | nil => rfl
  | append_singleton texts line ih =>
    rw [List.forall_mem_append, List.forall_mem_singleton] at h
    have hone : unlines [line] = line ++ ['\n'] := List.append_nil _
    rw [unlines_append, hone, lines_append_line (unlines_closed texts) h.2.1, ih h.1]
    exact fun hlast => h.2.2 (List.mem_of_getLast? hlast)

theorem lines_eq (text : List Char) :
    lines text = lines (complete text) ++ if torn text = [] then [] else [torn text] := by
  conv_lhs => rw [← complete_append_torn text]
  exact lines_append_bare (complete_closed text) (newline_not_mem_torn text)

end Lines

section Bytes

theorem fromUTF8?_toByteArray (text : String) : String.fromUTF8? text.toByteArray = some text := by
  rw [String.fromUTF8?, dif_pos text.isValidUTF8]
  rfl

theorem toByteArray_of_fromUTF8? {bytes : ByteArray} {text : String} (h : String.fromUTF8? bytes = some text) :
    text.toByteArray = bytes := by
  rw [String.fromUTF8?] at h
  split_ifs at h
  rw [← Option.some_inj.mp h]
  rfl

theorem isValidUTF8_of_append {bytes : ByteArray} {text : String}
    (h : (bytes ++ text.toByteArray).IsValidUTF8) : bytes.IsValidUTF8 := by
  set whole : String := ⟨bytes ++ text.toByteArray, h⟩ with hwhole
  have hbytes : whole.toByteArray = bytes ++ text.toByteArray := rfl
  have hsize : whole.utf8ByteSize = bytes.size + text.utf8ByteSize := by
    rw [← String.size_toByteArray, hbytes, ByteArray.size_append, String.size_toByteArray]
  have hvalid : (String.Pos.Raw.mk bytes.size).IsValid whole := by
    rw [String.Pos.Raw.isValid_iff_isValidUTF8_extract_utf8ByteSize]
    constructor
    · rw [String.Pos.Raw.le_iff, String.byteIdx_rawEndPos, hsize]
      exact Nat.le_add_right ..
    · rw [hbytes, hsize]
      rw [ByteArray.extract_append_eq_right rfl (by simp)]
      exact text.isValidUTF8
  have hextract := hvalid.isValidUTF8_extract_zero
  rw [hbytes] at hextract
  rwa [ByteArray.extract_append_eq_left rfl] at hextract

theorem fromUTF8?_append (bytes : ByteArray) (text : String) :
    String.fromUTF8? (bytes ++ text.toByteArray) = (String.fromUTF8? bytes).map (· ++ text) := by
  by_cases h : bytes.IsValidUTF8
  · set head : String := ⟨bytes, h⟩
    have hhead : bytes = head.toByteArray := rfl
    rw [hhead, ← String.toByteArray_append, fromUTF8?_toByteArray, fromUTF8?_toByteArray, Option.map_some]
  · have hwhole : ¬(bytes ++ text.toByteArray).IsValidUTF8 := fun hvalid => h (isValidUTF8_of_append hvalid)
    rw [String.fromUTF8?, dif_neg hwhole, String.fromUTF8?, dif_neg h, Option.map_none]

end Bytes

end CrashLab.Texts
