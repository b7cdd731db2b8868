import CrashLab.SearchGrammar

namespace CrashLab.SearchGrammar

open JsStrings

section Printing

def QueryNode.isComposite : QueryNode → Bool
  | .and _ | .or _ | .not _ => true
  | .field .. | .text .. => false

def quoted (value : JsString) : JsString := [0x22] ++ value ++ [0x22]

def bracketed (composite : Bool) (text : JsString) : JsString := if composite then [0x28] ++ text ++ [0x29] else text

mutual

def QueryNode.print : QueryNode → JsString
  | .and children => List.intercalate [0x20] (printAll children)
  | .or children => List.intercalate ([0x20] ++ ofString "OR" ++ [0x20]) (printAll children)
  | .not child => [0x2D] ++ bracketed child.isComposite child.print
  | .field field operator value _ => field ++ operator.text ++ quoted value
  | .text value _ => quoted value

def printAll : List QueryNode → List JsString
  | [] => []
  | child :: children => bracketed child.isComposite child.print :: printAll children

end

mutual

def QueryNode.unplaced : QueryNode → QueryNode
  | .and children => .and (unplacedAll children)
  | .or children => .or (unplacedAll children)
  | .not child => .not child.unplaced
  | .field field operator value _ => .field field operator value 0
  | .text value _ => .text value 0

def unplacedAll : List QueryNode → List QueryNode
  | [] => []
  | child :: children => child.unplaced :: unplacedAll children

end

structure FieldName (field : JsString) : Prop where
  nonempty : field ≠ []
  plain : ∀ char ∈ field, char ∉ delimiters ∧ isSpace char = false
  notOr : field ≠ ofString "OR"
  undashed : field.head? ≠ some 0x2D

inductive Printable : QueryNode → Prop
  | and {children : List QueryNode} (many : 2 ≤ children.length) (each : ∀ child ∈ children, Printable child) :
      Printable (.and children)
  | or {children : List QueryNode} (many : 2 ≤ children.length) (each : ∀ child ∈ children, Printable child) :
      Printable (.or children)
  | not {child : QueryNode} (each : Printable child) : Printable (.not child)
  | field {field value : JsString} {operator : ComparisonOperator} {position : ℕ} (name : FieldName field)
      (unquoted : 0x22 ∉ value) : Printable (.field field operator value position)
  | text {value : JsString} {position : ℕ} (unquoted : 0x22 ∉ value) : Printable (.text value position)

abbrev Lexeme := TokenType × JsString

def Token.lexeme (token : Token) : Lexeme := (token.type, token.value)

def ComparisonOperator.tokenType : ComparisonOperator → TokenType
  | .eq => .colon
  | .gt => .gt
  | .gte => .gte
  | .lt => .lt
  | .lte => .lte

def orLexeme : Lexeme := (.or, ofString "OR")

def bracketedLexemes (composite : Bool) (lexemes : List Lexeme) : List Lexeme :=
  if composite then [(.lparen, [0x28])] ++ lexemes ++ [(.rparen, [0x29])] else lexemes

mutual

def QueryNode.lexemes : QueryNode → List Lexeme
  | .and children => List.intercalate [] (lexemesAll children)
  | .or children => List.intercalate [orLexeme] (lexemesAll children)
  | .not child => [(.minus, [0x2D])] ++ bracketedLexemes child.isComposite child.lexemes
  | .field field operator value _ => [(.word, field), (operator.tokenType, operator.text), (.phrase, value)]
  | .text value _ => [(.phrase, value)]

def lexemesAll : List QueryNode → List (List Lexeme)
  | [] => []
  | child :: children => bracketedLexemes child.isComposite child.lexemes :: lexemesAll children

end

end Printing

section Reading

variable {front text more : JsString} {char : UInt16} {lexemes others : List Lexeme}

def ReadAs (front text : JsString) (lexemes : List Lexeme) : Prop :=
  ∀ rest, ∃ tokens : List Token, tokens.map Token.lexeme = lexemes ∧
    tokenizeFrom (front ++ text ++ rest) front.length =
      (tokenizeFrom (front ++ text ++ rest) (front ++ text).length).map (tokens ++ ·)

theorem ReadAs.append (h : ReadAs front text lexemes) (hmore : ReadAs (front ++ text) more others) :
    ReadAs front (text ++ more) (lexemes ++ others) := by
  intro rest
  obtain ⟨tokens, htokens, hread⟩ := h (more ++ rest)
  obtain ⟨tokens', htokens', hread'⟩ := hmore rest
  refine ⟨tokens ++ tokens', by rw [List.map_append, htokens, htokens'], ?_⟩
  simp only [← List.append_assoc] at hread hread' ⊢
  rw [hread, hread']
  cases tokenizeFrom (front ++ text ++ more ++ rest) (front ++ text ++ more).length with
  | error error => rfl
  | ok later => exact congrArg Except.ok (List.append_assoc ..).symm

theorem readAs_nil (front : JsString) : ReadAs front [] [] := by
  intro rest
  refine ⟨[], rfl, ?_⟩
  rw [List.append_nil]
  cases tokenizeFrom (front ++ rest) front.length <;> rfl

theorem readAs_of_step {lexeme : Lexeme} (token : Token) (hlexeme : token.lexeme = lexeme)
    (h : ∀ rest, tokenizeFrom (front ++ text ++ rest) front.length =
      (tokenizeFrom (front ++ text ++ rest) (front ++ text).length >>= fun tokens => pure (token :: tokens))) :
    ReadAs front text [lexeme] := by
  intro rest
  refine ⟨[token], congrArg (fun lexeme => [lexeme]) hlexeme, ?_⟩
  rw [h rest]
  cases tokenizeFrom (front ++ text ++ rest) (front ++ text).length <;> rfl

theorem getElem_front (front rest : JsString) (char : UInt16) :
    ∃ h : front.length < (front ++ char :: rest).length, (front ++ char :: rest)[front.length] = char := by
  refine ⟨by simp, ?_⟩
  rw [List.getElem_append_right le_rfl]
  simp

theorem readAs_space (h : isSpace char = true) (front : JsString) : ReadAs front [char] [] := by
  intro rest
  refine ⟨[], rfl, ?_⟩
  rw [List.append_assoc, List.singleton_append]
  obtain ⟨hlt, hchar⟩ := getElem_front front rest char
  rw [tokenizeFrom, dif_pos hlt]
  simp only [hchar, h, if_true]
  rw [List.length_append, List.length_singleton]
  cases tokenizeFrom (front ++ char :: rest) (front.length + 1) <;> rfl

theorem readAs_lparen (front : JsString) : ReadAs front [0x28] [(.lparen, [0x28])] := by
  apply readAs_of_step ⟨.lparen, [0x28], front.length, front.length + 1⟩ rfl
  intro rest
  rw [List.append_assoc, List.singleton_append]
  obtain ⟨hlt, hchar⟩ := getElem_front front rest 0x28
  rw [tokenizeFrom, dif_pos hlt]
  simp only [hchar]
  rw [if_neg (by decide), if_pos trivial, List.length_append, List.length_singleton]

theorem readAs_rparen (front : JsString) : ReadAs front [0x29] [(.rparen, [0x29])] := by
  apply readAs_of_step ⟨.rparen, [0x29], front.length, front.length + 1⟩ rfl
  intro rest
  rw [List.append_assoc, List.singleton_append]
  obtain ⟨hlt, hchar⟩ := getElem_front front rest 0x29
  rw [tokenizeFrom, dif_pos hlt]
  simp only [hchar]
  rw [if_neg (by decide), if_neg (by decide), if_pos trivial, List.length_append, List.length_singleton]

def TermStart (front : JsString) : Prop := front = [] ∨ ∃ before, front = before ++ [0x28]

theorem readAs_minus (h : TermStart front) : ReadAs front [0x2D] [(.minus, [0x2D])] := by
  apply readAs_of_step ⟨.minus, [0x2D], front.length, front.length + 1⟩ rfl
  intro rest
  rw [List.append_assoc, List.singleton_append]
  have hstart : startsTerm (front ++ 0x2D :: rest) front.length = true := by
    obtain rfl | ⟨before, rfl⟩ := h
    · rfl
    · rw [startsTerm, if_neg (by simp)]
      simp
  obtain ⟨hlt, hchar⟩ := getElem_front front rest 0x2D
  rw [tokenizeFrom, dif_pos hlt]
  simp only [hchar, hstart]
  rw [if_neg (by decide), if_neg (by decide), if_neg (by decide), if_neg (by decide), if_neg (by decide),
    if_pos ⟨trivial, trivial⟩, List.length_append, List.length_singleton]

theorem idxOf_closing {value : JsString} (h : 0x22 ∉ value) (rest : JsString) :
    (value ++ 0x22 :: rest).idxOf? 0x22 = some value.length := by
  induction value with
  | nil => rfl
  | cons char value ih =>
    rw [List.mem_cons, not_or] at h
    rw [List.cons_append, List.idxOf?_cons, if_neg (by simpa using Ne.symm h.1), ih h.2]
    rfl

theorem readAs_quoted {value : JsString} (h : 0x22 ∉ value) (front : JsString) :
    ReadAs front (quoted value) [(.phrase, value)] := by
  apply readAs_of_step ⟨.phrase, value, front.length, front.length + 1 + value.length + 1⟩ rfl
  intro rest
  have hinput : front ++ quoted value ++ rest = front ++ 0x22 :: (value ++ 0x22 :: rest) := by simp [quoted]
  have hend : (front ++ quoted value).length = front.length + 1 + value.length + 1 := by
    simp only [quoted, List.length_append, List.length_singleton]
    omega
  rw [hinput, hend]
  obtain ⟨hlt, hchar⟩ := getElem_front front (value ++ 0x22 :: rest) 0x22
  have hdrop : (front ++ 0x22 :: (value ++ 0x22 :: rest)).drop (front.length + 1) = value ++ 0x22 :: rest := by
    rw [← List.drop_drop, List.drop_left]
    rfl
  rw [tokenizeFrom, dif_pos hlt]
  simp only [hchar, hdrop, idxOf_closing h]
  rw [if_neg (by decide), if_neg (by decide), if_neg (by decide), if_neg (by decide), if_neg (by decide),
    if_neg (fun h => absurd h.1 (by decide)), if_pos trivial, List.take_left]

theorem ReadAs.behind {lexeme : Lexeme} (hmore : ReadAs (front ++ text) more others) (token : Token)
    (hlexeme : token.lexeme = lexeme)
    (h : ∀ rest, tokenizeFrom (front ++ text ++ (more ++ rest)) front.length =
      (tokenizeFrom (front ++ text ++ (more ++ rest)) (front ++ text).length >>=
        fun tokens => pure (token :: tokens))) : ReadAs front (text ++ more) (lexeme :: others) := by
  intro rest
  obtain ⟨tokens, htokens, hread⟩ := hmore rest
  refine ⟨token :: tokens, by rw [List.map_cons, hlexeme, htokens], ?_⟩
  have hstep := h rest
  simp only [← List.append_assoc] at hread hstep ⊢
  rw [hstep, hread]
  cases tokenizeFrom (front ++ text ++ more ++ rest) (front ++ text ++ more).length <;> rfl

theorem readAs_word {first delimiter : UInt16} {word : JsString} (hfirst : isSpace first = false) (hdash : first ≠ 0x2D)
    (hplain : ∀ char ∈ first :: word, char ∉ delimiters) (hdelimiter : delimiter ∈ delimiters) {type : TokenType}
    (htype : (if first :: word = ofString "OR" then TokenType.or else .word) = type)
    (hmore : ReadAs (front ++ first :: word) (delimiter :: more) others) :
    ReadAs front (first :: word ++ delimiter :: more) ((type, first :: word) :: others) := by
  apply hmore.behind ⟨type, first :: word, front.length, front.length + (first :: word).length⟩ rfl
  intro rest
  have hinput : front ++ first :: word ++ (delimiter :: more ++ rest) =
      front ++ first :: (word ++ delimiter :: (more ++ rest)) := by simp
  rw [hinput]
  have hwordAt : wordAt (front ++ first :: (word ++ delimiter :: (more ++ rest))) front.length = first :: word := by
    rw [wordAt, List.drop_left, ← List.cons_append, List.takeWhile_append_of_pos (by simpa using hplain),
      List.takeWhile_cons_of_neg (by simpa using hdelimiter), List.append_nil]
  obtain ⟨hlt, hchar⟩ := getElem_front front (word ++ delimiter :: (more ++ rest)) first
  have hdelimiters := hplain first List.mem_cons_self
  simp only [delimiters, List.mem_cons, List.not_mem_nil, or_false, not_or] at hdelimiters
  obtain ⟨-, -, -, hcolon, hgt, hlt', hlparen, hrparen, hquote⟩ := hdelimiters
  rw [tokenizeFrom, dif_pos hlt]
  simp only [hchar, hfirst, hwordAt, htype, List.length_append]
  rw [if_neg (by decide), if_neg hlparen, if_neg hrparen, if_neg hcolon, if_neg (not_or.mpr ⟨hgt, hlt'⟩),
    if_neg (fun h => hdash h.1), if_neg hquote, dif_neg (by simp)]

theorem readAs_operator (operator : ComparisonOperator) {value : JsString} (h : 0x22 ∉ value) (front : JsString) :
    ReadAs front (operator.text ++ quoted value) [(operator.tokenType, operator.text), (.phrase, value)] := by
  have hmore := readAs_quoted h (front ++ operator.text)
  apply hmore.behind ⟨operator.tokenType, operator.text, front.length, front.length + operator.text.length⟩ rfl
  intro rest
  have hinput : ∀ text : JsString, front ++ text ++ (quoted value ++ rest) = front ++ (text ++ quoted value ++ rest) := by
    simp
  rw [hinput, List.length_append]
  cases operator with
  | eq =>
    obtain ⟨hlt, hchar⟩ := getElem_front front (quoted value ++ rest) 0x3A
    change tokenizeFrom (front ++ 0x3A :: (quoted value ++ rest)) front.length = _
    rw [tokenizeFrom, dif_pos hlt]
    simp only [hchar]
    rw [if_neg (by decide), if_neg (by decide), if_neg (by decide), if_pos trivial]
    rfl
  | gt =>
    obtain ⟨hlt, hchar⟩ := getElem_front front (quoted value ++ rest) 0x3E
    change tokenizeFrom (front ++ 0x3E :: (quoted value ++ rest)) front.length = _
    have hnext : (front ++ 0x3E :: (quoted value ++ rest))[front.length + 1]? ≠ some 0x3D := by
      rw [List.getElem?_append_right (Nat.le_succ _)]
      simp [quoted]
    rw [tokenizeFrom, dif_pos hlt]
    simp only [hchar]
    rw [if_neg (by decide), if_neg (by decide), if_neg (by decide), if_neg (by decide), if_pos (.inl trivial),
      if_neg hnext, if_pos trivial]
    rfl
  | lt =>
    obtain ⟨hlt, hchar⟩ := getElem_front front (quoted value ++ rest) 0x3C
    change tokenizeFrom (front ++ 0x3C :: (quoted value ++ rest)) front.length = _
    have hnext : (front ++ 0x3C :: (quoted value ++ rest))[front.length + 1]? ≠ some 0x3D := by
      rw [List.getElem?_append_right (Nat.le_succ _)]
      simp [quoted]
    rw [tokenizeFrom, dif_pos hlt]
    simp only [hchar]
    rw [if_neg (by decide), if_neg (by decide), if_neg (by decide), if_neg (by decide), if_pos (.inr trivial),
      if_neg hnext, if_neg (by decide)]
    rfl
  | gte =>
    obtain ⟨hlt, hchar⟩ := getElem_front front (0x3D :: (quoted value ++ rest)) 0x3E
    change tokenizeFrom (front ++ 0x3E :: 0x3D :: (quoted value ++ rest)) front.length = _
    have hnext : (front ++ 0x3E :: 0x3D :: (quoted value ++ rest))[front.length + 1]? = some 0x3D := by
      rw [List.getElem?_append_right (Nat.le_succ _)]
      simp
    rw [tokenizeFrom, dif_pos hlt]
    simp only [hchar]
    rw [if_neg (by decide), if_neg (by decide), if_neg (by decide), if_neg (by decide), if_pos (.inl trivial),
      if_pos hnext, if_pos trivial]
    rfl
  | lte =>
    obtain ⟨hlt, hchar⟩ := getElem_front front (0x3D :: (quoted value ++ rest)) 0x3C
    change tokenizeFrom (front ++ 0x3C :: 0x3D :: (quoted value ++ rest)) front.length = _
    have hnext : (front ++ 0x3C :: 0x3D :: (quoted value ++ rest))[front.length + 1]? = some 0x3D := by
      rw [List.getElem?_append_right (Nat.le_succ _)]
      simp
    rw [tokenizeFrom, dif_pos hlt]
    simp only [hchar]
    rw [if_neg (by decide), if_neg (by decide), if_neg (by decide), if_neg (by decide), if_pos (.inr trivial),
      if_pos hnext, if_neg (by decide)]
    rfl

theorem readAs_field {field value : JsString} (operator : ComparisonOperator) (hname : FieldName field)
    (h : 0x22 ∉ value) (front : JsString) :
    ReadAs front (field ++ operator.text ++ quoted value)
      [(.word, field), (operator.tokenType, operator.text), (.phrase, value)] := by
  obtain ⟨hnonempty, hplain, hnotOr, hundashed⟩ := hname
  cases field with
  | nil => exact absurd rfl hnonempty
  | cons first word =>
    have hmore := readAs_operator operator h (front ++ first :: word)
    obtain ⟨delimiter, more, htext, hdelimiter⟩ : ∃ delimiter more, operator.text ++ quoted value = delimiter :: more ∧
        delimiter ∈ delimiters := by
      cases operator <;> exact ⟨_, _, rfl, by decide⟩
    rw [List.append_assoc]
    rw [htext] at hmore ⊢
    refine readAs_word (hplain first List.mem_cons_self).2 ?_ (fun char hchar => (hplain char hchar).1) hdelimiter
      (if_neg hnotOr) hmore
    rintro rfl
    exact hundashed rfl

theorem forall_of_all {P : UInt16 → Prop} [DecidablePred P] {text : JsString} (h : text.all (P ·) = true) :
    ∀ char ∈ text, P char := fun char hchar => of_decide_eq_true (List.all_eq_true.mp h char hchar)

theorem readAs_or (front : JsString) : ReadAs front ([0x20] ++ ofString "OR" ++ [0x20]) [orLexeme] := by
  have hspace := readAs_space (show isSpace 0x20 = true by decide) front
  have hend := readAs_space (show isSpace 0x20 = true by decide) (front ++ [0x20] ++ ofString "OR")
  have hor : ReadAs (front ++ [0x20]) (ofString "OR" ++ [0x20]) [orLexeme] :=
    @readAs_word (front ++ [0x20]) [] [] 0x4F 0x20 [0x52] (by decide) (by decide) (forall_of_all (by decide)) (by decide)
      _ rfl hend
  have hboth := hspace.append hor
  rwa [← List.append_assoc] at hboth

theorem readAs_intercalate {separator : JsString} {mark : List Lexeme} (hseparator : ∀ front, ReadAs front separator mark)
    {texts : List JsString} {marks : List (List Lexeme)}
    (h : List.Forall₂ (fun text lexemes => ∀ front, ReadAs front text lexemes) texts marks) (front : JsString) :
    ReadAs front (separator.intercalate texts) (mark.intercalate marks) := by
  induction h generalizing front with
  | nil => exact readAs_nil front
  | @cons text lexemes texts marks htext hrest ih =>
    cases hrest with
    | nil =>
      rw [List.intercalate_singleton, List.intercalate_singleton]
      exact htext front
    | cons _ _ =>
      rw [List.intercalate_cons_cons, List.intercalate_cons_cons]
      exact ((htext front).append (hseparator _)).append (ih _)

theorem readAs_bracketed {composite : Bool} (hplain : composite = false → ∀ front, ReadAs front text lexemes)
    (hstart : ∀ front, TermStart front → ReadAs front text lexemes) (front : JsString) :
    ReadAs front (bracketed composite text) (bracketedLexemes composite lexemes) := by
  cases composite with
  | false => exact hplain rfl front
  | true =>
    have hopen := readAs_lparen front
    have hinner := hstart (front ++ [0x28]) (.inr ⟨front, rfl⟩)
    exact (hopen.append hinner).append (readAs_rparen _)

theorem readAs_children {children : List QueryNode}
    (h : ∀ child ∈ children, (child.isComposite = false → ∀ front, ReadAs front child.print child.lexemes) ∧
      ∀ front, TermStart front → ReadAs front child.print child.lexemes) :
    List.Forall₂ (fun text lexemes => ∀ front, ReadAs front text lexemes) (printAll children) (lexemesAll children) := by
  induction children with
  | nil => exact .nil
  | cons child children ih =>
    rw [List.forall_mem_cons] at h
    exact .cons (readAs_bracketed h.1.1 h.1.2) (ih h.2)

theorem readAs_print {node : QueryNode} (h : Printable node) :
    (node.isComposite = false → ∀ front, ReadAs front node.print node.lexemes) ∧
      ∀ front, TermStart front → ReadAs front node.print node.lexemes := by
  induction h with
  | @and children many each ih =>
    have hall := readAs_intercalate (readAs_space (show isSpace 0x20 = true by decide)) (readAs_children ih)
    exact ⟨nofun, fun front _ => hall front⟩
  | @or children many each ih =>
    have hall := readAs_intercalate readAs_or (readAs_children ih)
    exact ⟨nofun, fun front _ => hall front⟩
  | not each ih =>
    refine ⟨nofun, fun front hstart => ?_⟩
    exact (readAs_minus hstart).append (readAs_bracketed ih.1 ih.2 _)
  | @field field value operator position name unquoted =>
    have hfield := readAs_field operator name unquoted
    exact ⟨fun _ => hfield, fun front _ => hfield front⟩
  | text unquoted =>
    have htext := readAs_quoted unquoted
    exact ⟨fun _ => htext, fun front _ => htext front⟩

theorem tokenize_print {node : QueryNode} (h : Printable node) :
    ∃ tokens : List Token, tokens.map Token.lexeme = node.lexemes ∧
      tokenize node.print = .ok (tokens ++ [⟨.eof, [], node.print.length, node.print.length⟩]) := by
  obtain ⟨tokens, htokens, hread⟩ := (readAs_print h).2 [] (.inl rfl) []
  refine ⟨tokens, htokens, ?_⟩
  rw [List.append_nil, List.nil_append, List.length_nil] at hread
  have hend : tokenizeFrom node.print node.print.length = .ok [⟨.eof, [], node.print.length, node.print.length⟩] := by
    rw [tokenizeFrom, dif_neg (lt_irrefl _)]
  rw [tokenize, hread, hend]
  rfl

end Reading

section Parsing

variable {tokens rest after tail : List Token} {token : Token} {node child first : QueryNode}
  {children others : List QueryNode}

def Gives (parser : (tokens : List Token) → Parsed tokens) (tokens after : List Token) (node : QueryNode) : Prop :=
  ∃ result h, parser tokens = .ok (result, ⟨after, h⟩) ∧ result.unplaced = node.unplaced

def GivesAll (loop : (tokens : List Token) → Except QueryError (List QueryNode × Rest tokens))
    (tokens after : List Token) (children : List QueryNode) : Prop :=
  ∃ results h, loop tokens = .ok (results, ⟨after, h⟩) ∧ unplacedAll results = unplacedAll children

theorem length_unplacedAll (children : List QueryNode) : (unplacedAll children).length = children.length := by
  induction children with
  | nil => rfl
  | cons child children ih => rw [unplacedAll, List.length_cons, ih, List.length_cons]

theorem length_of_unplacedAll {results : List QueryNode} (h : unplacedAll results = unplacedAll others) :
    results.length = others.length := by
  rw [← length_unplacedAll, h, length_unplacedAll]

theorem Gives.parseAnd (h : Gives parseUnary tokens rest first) (hmore : GivesAll andLoop rest after others) :
    Gives SearchGrammar.parseAnd tokens after (group .and first others) := by
  obtain ⟨result, hlt, hresult, hfirst⟩ := h
  obtain ⟨results, hle, hresults, hothers⟩ := hmore
  refine ⟨group .and result results, hle.trans_lt hlt, ?_, ?_⟩
  · rw [SearchGrammar.parseAnd, hresult]
    simp only [hresults]
  · simp only [group, length_of_unplacedAll hothers]
    split
    · exact hfirst
    · rw [QueryNode.unplaced, QueryNode.unplaced, unplacedAll, unplacedAll, hfirst, hothers]

theorem Gives.parseOr (h : Gives SearchGrammar.parseAnd tokens rest first) (hmore : GivesAll orLoop rest after others) :
    Gives SearchGrammar.parseOr tokens after (group .or first others) := by
  obtain ⟨result, hlt, hresult, hfirst⟩ := h
  obtain ⟨results, hle, hresults, hothers⟩ := hmore
  refine ⟨group .or result results, hle.trans_lt hlt, ?_, ?_⟩
  · rw [SearchGrammar.parseOr, hresult]
    simp only [hresults]
  · simp only [group, length_of_unplacedAll hothers]
    split
    · exact hfirst
    · rw [QueryNode.unplaced, QueryNode.unplaced, unplacedAll, unplacedAll, hfirst, hothers]

theorem andLoop_stop (h : startsPrimary token = false) (tail : List Token) :
    GivesAll andLoop (token :: tail) (token :: tail) [] := by
  refine ⟨[], le_rfl, ?_, rfl⟩
  rw [andLoop, if_neg (Bool.eq_false_iff.mp h)]

theorem andLoop_cons (hstarts : startsPrimary token = true) (h : Gives parseUnary (token :: tail) rest child)
    (hmore : GivesAll andLoop rest after children) : GivesAll andLoop (token :: tail) after (child :: children) := by
  obtain ⟨result, hlt, hresult, hchild⟩ := h
  obtain ⟨results, hle, hresults, hchildren⟩ := hmore
  refine ⟨result :: results, hle.trans hlt.le, ?_, ?_⟩
  · rw [andLoop, if_pos hstarts, hresult]
    simp only [hresults]
  · rw [unplacedAll, unplacedAll, hchild, hchildren]

theorem orLoop_stop (h : token.type ≠ .or) (tail : List Token) :
    GivesAll orLoop (token :: tail) (token :: tail) [] := by
  refine ⟨[], le_rfl, ?_, rfl⟩
  rw [orLoop, if_neg h]

theorem orLoop_cons (htype : token.type = .or) (h : Gives parseAnd tail rest child)
    (hmore : GivesAll orLoop rest after children) : GivesAll orLoop (token :: tail) after (child :: children) := by
  obtain ⟨result, hlt, hresult, hchild⟩ := h
  obtain ⟨results, hle, hresults, hchildren⟩ := hmore
  refine ⟨result :: results, (hle.trans hlt.le).trans (Nat.le_succ _), ?_, ?_⟩
  · rw [orLoop, if_pos htype, hresult]
    simp only [hresults]
  · rw [unplacedAll, unplacedAll, hchild, hchildren]

theorem Gives.not (htype : token.type = .minus) (h : Gives parseUnary tail after child) :
    Gives parseUnary (token :: tail) after (.not child) := by
  obtain ⟨result, hlt, hresult, hchild⟩ := h
  refine ⟨.not result, hlt.trans (Nat.lt_succ_self _), ?_, ?_⟩
  · rw [parseUnary, if_pos htype, hresult]
  · rw [QueryNode.unplaced, QueryNode.unplaced, hchild]

theorem Gives.grouped {closing : Token} (hopening : token.type = .lparen) (hclosing : closing.type = .rparen)
    (h : Gives SearchGrammar.parseOr tail (closing :: after) node) : Gives parseUnary (token :: tail) after node := by
  obtain ⟨result, hlt, hresult, hnode⟩ := h
  rw [List.length_cons] at hlt
  refine ⟨result, by rw [List.length_cons]; omega, ?_, hnode⟩
  rw [parseUnary, if_neg (by simp [hopening]), parsePrimary.eq_def]
  simp only [hopening, if_true, hresult, hclosing, ne_eq, not_true_eq_false, if_false]

def Operand (node : QueryNode) : Prop :=
  ∀ tokens after, tokens.map Token.lexeme = bracketedLexemes node.isComposite node.lexemes →
    Gives parseUnary (tokens ++ after) after node

theorem operand_text {value : JsString} {position : ℕ} : Operand (.text value position) := by
  intro tokens after htokens
  obtain ⟨token, rfl, hvalue⟩ := List.map_eq_singleton_iff.mp htokens
  obtain ⟨htype, hvalue⟩ := Prod.mk.inj hvalue
  refine ⟨.text token.value token.start, Nat.lt_succ_self _, ?_, ?_⟩
  · change parseUnary (token :: after) = _
    rw [parseUnary, if_neg (by simp [htype]), parsePrimary.eq_def]
    dsimp only
    rw [if_neg (by simp [htype]), if_pos htype]
  · rw [QueryNode.unplaced, QueryNode.unplaced, hvalue]

theorem operatorOf_tokenType (operator : ComparisonOperator) : operatorOf operator.tokenType = some operator := by
  cases operator <;> rfl

theorem operand_field {field value : JsString} {operator : ComparisonOperator} {position : ℕ} :
    Operand (.field field operator value position) := by
  intro tokens after htokens
  obtain ⟨token, behind, rfl, hfield, hbehind⟩ := List.map_eq_cons_iff.mp htokens
  obtain ⟨operatorToken, last, rfl, hoperator, hlast⟩ := List.map_eq_cons_iff.mp hbehind
  obtain ⟨valueToken, rfl, hvalue⟩ := List.map_eq_singleton_iff.mp hlast
  obtain ⟨htype, hfield⟩ := Prod.mk.inj hfield
  obtain ⟨hoperatorType, -⟩ := Prod.mk.inj hoperator
  obtain ⟨hvalueType, hvalue⟩ := Prod.mk.inj hvalue
  refine ⟨.field token.value operator valueToken.value token.start, by simp; omega, ?_, ?_⟩
  · change parseUnary (token :: operatorToken :: valueToken :: after) = _
    rw [parseUnary, if_neg (by simp [htype]), parsePrimary.eq_def]
    dsimp only
    rw [if_neg (by simp [htype]), if_neg (by simp [htype]), if_pos htype]
    simp only [hoperatorType, operatorOf_tokenType]
    rw [if_neg (by simp [hvalueType])]
  · rw [QueryNode.unplaced, QueryNode.unplaced, hfield, hvalue]

def Closes (token : Token) : Prop := startsPrimary token = false ∧ token.type ≠ .or

def Whole (node : QueryNode) : Prop :=
  ∀ tokens token tail, tokens.map Token.lexeme = node.lexemes → Closes token →
    Gives parseOr (tokens ++ token :: tail) (token :: tail) node

theorem Whole.operand (h : Whole node) (hcomposite : node.isComposite = true) : Operand node := by
  intro tokens after htokens
  rw [hcomposite] at htokens
  obtain ⟨opening, behind, rfl, hopening, hbehind⟩ := List.map_eq_cons_iff.mp htokens
  obtain ⟨inner, last, rfl, hinner, hlast⟩ := List.map_eq_append_iff.mp hbehind
  obtain ⟨closing, rfl, hclosing⟩ := List.map_eq_singleton_iff.mp hlast
  have hopens : opening.type = .lparen := congrArg Prod.fst hopening
  have hcloses : closing.type = .rparen := congrArg Prod.fst hclosing
  rw [List.cons_append, List.append_assoc, List.singleton_append]
  apply Gives.grouped hopens hcloses
  apply h inner closing after hinner
  simp [Closes, startsPrimary, hcloses]

theorem Gives.alone (h : Gives parseUnary tokens (token :: tail) node) (hcloses : Closes token) :
    Gives SearchGrammar.parseOr tokens (token :: tail) node :=
  (h.parseAnd (andLoop_stop hcloses.1 tail)).parseOr (orLoop_stop hcloses.2 tail)

theorem Operand.whole (h : Operand node) (hcomposite : node.isComposite = false) : Whole node := by
  intro tokens token tail htokens hcloses
  have hunary := h tokens (token :: tail) (by rw [hcomposite]; exact htokens)
  exact hunary.alone hcloses

theorem whole_not (h : Operand child) : Whole (.not child) := by
  intro tokens token tail htokens hcloses
  obtain ⟨minus, operand, rfl, hminus, hoperand⟩ := List.map_eq_cons_iff.mp htokens
  have hchild := h operand (token :: tail) hoperand
  exact (hchild.not (congrArg Prod.fst hminus)).alone hcloses

theorem starts_operand (h : Printable node) :
    ∃ lexeme rest, bracketedLexemes node.isComposite node.lexemes = lexeme :: rest ∧
      (lexeme.1 = .word ∨ lexeme.1 = .phrase ∨ lexeme.1 = .lparen) := by
  cases h with
  | and _ _ => exact ⟨_, _, rfl, .inr (.inr rfl)⟩
  | or _ _ => exact ⟨_, _, rfl, .inr (.inr rfl)⟩
  | not _ => exact ⟨_, _, rfl, .inr (.inr rfl)⟩
  | field _ _ => exact ⟨_, _, rfl, .inl rfl⟩
  | text _ => exact ⟨_, _, rfl, .inr (.inl rfl)⟩

theorem startsPrimary_operand (h : Printable node)
    (htokens : tokens.map Token.lexeme = bracketedLexemes node.isComposite node.lexemes) :
    ∃ first rest, tokens = first :: rest ∧ startsPrimary first = true := by
  obtain ⟨lexeme, lexemes, heq, htype⟩ := starts_operand h
  rw [heq, List.map_eq_cons_iff] at htokens
  obtain ⟨first, rest, rfl, rfl, -⟩ := htokens
  refine ⟨first, rest, rfl, ?_⟩
  change first.type = _ ∨ first.type = _ ∨ first.type = _ at htype
  obtain h | h | h := htype <;> simp [startsPrimary, h]

theorem intercalate_nil_cons {α : Type} (lexemes : List α) (others : List (List α)) :
    List.intercalate [] (lexemes :: others) = lexemes ++ List.intercalate [] others := by
  cases others <;> simp

theorem andLoop_children (hprintable : ∀ child ∈ children, Printable child) (h : ∀ child ∈ children, Operand child)
    (hstop : startsPrimary token = false) (tokens tail : List Token)
    (htokens : tokens.map Token.lexeme = List.intercalate [] (lexemesAll children)) :
    GivesAll andLoop (tokens ++ token :: tail) (token :: tail) children := by
  induction children generalizing tokens with
  | nil =>
    rw [lexemesAll, List.intercalate_nil, List.map_eq_nil_iff] at htokens
    subst htokens
    exact andLoop_stop hstop tail
  | cons child children ih =>
    rw [List.forall_mem_cons] at hprintable h
    rw [lexemesAll, intercalate_nil_cons, List.map_eq_append_iff] at htokens
    obtain ⟨operand, others, rfl, hoperand, hothers⟩ := htokens
    have hmore := ih hprintable.2 h.2 others hothers
    have hchild := h.1 operand (others ++ token :: tail) hoperand
    obtain ⟨first, rest, rfl, hfirst⟩ := startsPrimary_operand hprintable.1 hoperand
    rw [List.append_assoc]
    exact andLoop_cons hfirst hchild hmore

theorem whole_and (hmany : 2 ≤ children.length) (hprintable : ∀ child ∈ children, Printable child)
    (h : ∀ child ∈ children, Operand child) : Whole (.and children) := by
  intro tokens token tail htokens hcloses
  cases children with
  | nil => contradiction
  | cons first others =>
    rw [List.forall_mem_cons] at hprintable h
    rw [QueryNode.lexemes, lexemesAll, intercalate_nil_cons, List.map_eq_append_iff] at htokens
    obtain ⟨operand, behind, rfl, hoperand, hbehind⟩ := htokens
    have hmore := andLoop_children hprintable.2 h.2 hcloses.1 behind tail hbehind
    have hfirst := h.1 operand (behind ++ token :: tail) hoperand
    rw [List.append_assoc]
    have hboth := (hfirst.parseAnd hmore).parseOr (orLoop_stop hcloses.2 tail)
    have hgroup : group .and first others = .and (first :: others) := by
      rw [group, if_neg]
      rw [List.length_cons] at hmany
      omega
    rwa [hgroup] at hboth

theorem intercalate_singleton_cons {α : Type} (mark : α) (lexemes : List α) (others : List (List α)) :
    List.intercalate [mark] (lexemes :: others) = lexemes ++ others.flatMap (mark :: ·) := by
  induction others generalizing lexemes with
  | nil => simp
  | cons other others ih =>
    rw [List.intercalate_cons_cons, ih]
    simp

theorem orLoop_children (h : ∀ child ∈ children, Operand child) (hstop : Closes token) (tokens tail : List Token)
    (htokens : tokens.map Token.lexeme = (lexemesAll children).flatMap (orLexeme :: ·)) :
    (∃ next rest, tokens ++ token :: tail = next :: rest ∧ startsPrimary next = false) ∧
      GivesAll orLoop (tokens ++ token :: tail) (token :: tail) children := by
  induction children generalizing tokens with
  | nil =>
    rw [lexemesAll, List.flatMap_nil, List.map_eq_nil_iff] at htokens
    subst htokens
    exact ⟨⟨token, tail, rfl, hstop.1⟩, orLoop_stop hstop.2 tail⟩
  | cons child children ih =>
    rw [List.forall_mem_cons] at h
    rw [lexemesAll, List.flatMap_cons, List.cons_append, List.map_eq_cons_iff] at htokens
    obtain ⟨orToken, behind, rfl, hor, hbehind⟩ := htokens
    obtain ⟨operand, others, rfl, hoperand, hothers⟩ := List.map_eq_append_iff.mp hbehind
    have htype : orToken.type = .or := congrArg Prod.fst hor
    refine ⟨⟨orToken, operand ++ others ++ token :: tail, rfl, by simp [startsPrimary, htype]⟩, ?_⟩
    obtain ⟨⟨next, rest, hnext, hstarts⟩, hmore⟩ := ih h.2 others hothers
    have hchild := h.1 operand (others ++ token :: tail) hoperand
    rw [hnext] at hchild hmore
    rw [List.cons_append, List.append_assoc, hnext]
    exact orLoop_cons htype (hchild.parseAnd (andLoop_stop hstarts rest)) hmore

theorem whole_or (hmany : 2 ≤ children.length) (h : ∀ child ∈ children, Operand child) : Whole (.or children) := by
  intro tokens token tail htokens hcloses
  cases children with
  | nil => contradiction
  | cons first others =>
    rw [List.forall_mem_cons] at h
    rw [QueryNode.lexemes, lexemesAll, intercalate_singleton_cons, List.map_eq_append_iff] at htokens
    obtain ⟨operand, behind, rfl, hoperand, hbehind⟩ := htokens
    obtain ⟨⟨next, rest, hnext, hstarts⟩, hmore⟩ := orLoop_children h.2 hcloses behind tail hbehind
    have hfirst := h.1 operand (behind ++ token :: tail) hoperand
    rw [hnext] at hfirst hmore
    rw [List.append_assoc, hnext]
    have hboth : Gives parseOr _ _ (group .or first others) := (hfirst.parseAnd (andLoop_stop hstarts rest)).parseOr hmore
    have hgroup : group .or first others = .or (first :: others) := by
      rw [group, if_neg]
      rw [List.length_cons] at hmany
      omega
    rwa [hgroup] at hboth

theorem whole_and_operand (h : Printable node) : Whole node ∧ Operand node := by
  induction h with
  | @and children many each ih =>
    have hwhole := whole_and many each (fun child hchild => (ih child hchild).2)
    exact ⟨hwhole, hwhole.operand rfl⟩
  | @or children many each ih =>
    have hwhole := whole_or many (fun child hchild => (ih child hchild).2)
    exact ⟨hwhole, hwhole.operand rfl⟩
  | not each ih =>
    have hwhole := whole_not ih.2
    exact ⟨hwhole, hwhole.operand rfl⟩
  | field name unquoted => exact ⟨operand_field.whole rfl, operand_field⟩
  | text unquoted => exact ⟨operand_text.whole rfl, operand_text⟩

theorem parseQuery_print (h : Printable node) :
    ∃ result, parseQuery node.print = .ok result ∧ result.unplaced = node.unplaced := by
  obtain ⟨tokens, htokens, htokenize⟩ := tokenize_print h
  have hgives := (whole_and_operand h).1 tokens ⟨.eof, [], node.print.length, node.print.length⟩ [] htokens
    ⟨rfl, nofun⟩
  obtain ⟨result, hlt, hresult, hsame⟩ := hgives
  refine ⟨result, ?_, hsame⟩
  rw [parseQuery, htokenize]
  change parse _ = _
  rw [parse, hresult]
  rfl

def negatedStatusOrSeed : QueryNode :=
  .or [.not (.field (ofString "status") .gte (ofString "a OR b") 0),
    .and [.text (ofString "-(x") 0, .not (.not (.field (ofString "seed") .eq [] 0))]]

theorem negatedStatusOrSeed_printed :
    negatedStatusOrSeed.print = ofString "(-status>=\"a OR b\") OR (\"-(x\" (-(-seed:\"\")))" ∧
      ∃ result, parseQuery negatedStatusOrSeed.print = .ok result ∧ result.unplaced = negatedStatusOrSeed.unplaced := by
  have hstatus : FieldName (ofString "status") :=
    ⟨by decide, forall_of_all (by decide), by decide, by decide⟩
  have hseed : FieldName (ofString "seed") :=
    ⟨by decide, forall_of_all (by decide), by decide, by decide⟩
  have hprintable : Printable negatedStatusOrSeed := by
    apply Printable.or le_rfl
    simp only [List.mem_cons, List.not_mem_nil, or_false, forall_eq_or_imp, forall_eq]
    refine ⟨.not (.field hstatus (by decide)), .and le_rfl ?_⟩
    simp only [List.mem_cons, List.not_mem_nil, or_false, forall_eq_or_imp, forall_eq]
    exact ⟨.text (by decide), .not (.not (.field hseed (by decide)))⟩
  exact ⟨by decide +kernel, parseQuery_print hprintable⟩

end Parsing

end CrashLab.SearchGrammar
