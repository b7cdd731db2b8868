import CrashLab.JsStrings

namespace CrashLab.SearchGrammar

open JsStrings

section Lexer

inductive TokenType where
  | word
  | phrase
  | colon
  | gt
  | gte
  | lt
  | lte
  | lparen
  | rparen
  | minus
  | or
  | eof
deriving DecidableEq, Repr

structure Token where
  type : TokenType
  value : JsString
  start : ℕ
  stop : ℕ
deriving DecidableEq, Repr

/-- `undefinedToken` is the type error of a look behind the last token. -/
inductive QueryError where
  | unterminatedPhrase (position : ℕ)
  | unexpectedCharacter (char : UInt16) (position : ℕ)
  | unexpectedToken (token : Token)
  | unclosedGroup (position : ℕ)
  | missingValue (field operator : JsString) (position : ℕ)
  | missingTerm (token : Token)
  | undefinedToken
deriving DecidableEq, Repr

/-- `JSON.stringify` of a character that ends a word. -/
def delimiterText (char : UInt16) : JsString :=
  if char = 0x22 then ofString "\"\\\"\""
  else if char = 0x09 then ofString "\"\\t\""
  else if char = 0x0A then ofString "\"\\n\""
  else [0x22, char, 0x22]

def describe (token : Token) : JsString :=
  if token.type = .eof then ofString "the end of the query" else [0x22] ++ token.value ++ [0x22]

def QueryError.message : QueryError → JsString
  | unterminatedPhrase _ => ofString "Unterminated quoted phrase."
  | unexpectedCharacter char _ => ofString "Unexpected character " ++ delimiterText char ++ ofString "."
  | unexpectedToken token => ofString "Unexpected " ++ describe token ++ ofString "."
  | unclosedGroup _ => ofString "Unclosed group."
  | missingValue field operator _ => ofString "Expected a value after \"" ++ field ++ operator ++ ofString "\"."
  | missingTerm token => ofString "Expected a search term but found " ++ describe token ++ ofString "."
  | undefinedToken => ofString "Cannot read properties of undefined (reading 'type')"

def QueryError.position : QueryError → Option ℕ
  | unterminatedPhrase position | unexpectedCharacter _ position | unclosedGroup position | missingValue _ _ position =>
    some position
  | unexpectedToken token | missingTerm token => some token.start
  | undefinedToken => none

def QueryError.expected : QueryError → List String
  | unterminatedPhrase _ => ["closing \""]
  | unexpectedToken _ => ["end of query", "OR", "a search term"]
  | unclosedGroup _ => [")"]
  | missingValue .. => ["a value", "a quoted phrase"]
  | missingTerm _ => ["a search term", "a quoted phrase", "("]
  | unexpectedCharacter .. | undefinedToken => []

def delimiters : List UInt16 := [0x20, 0x09, 0x0A, 0x3A, 0x3E, 0x3C, 0x28, 0x29, 0x22]

def startsTerm (input : JsString) (index : ℕ) : Bool :=
  if index = 0 then true
  else
    match input[index - 1]? with
    | some previous => isSpace previous || previous = 0x28
    | none => false

def wordAt (input : JsString) (index : ℕ) : JsString := (input.drop index).takeWhile (· ∉ delimiters)

def tokenizeFrom (input : JsString) (index : ℕ) : Except QueryError (List Token) :=
  if h : index < input.length then
    let char := input[index]
    if isSpace char then tokenizeFrom input (index + 1)
    else if char = 0x28 then do
      let tokens ← tokenizeFrom input (index + 1)
      return ⟨.lparen, [0x28], index, index + 1⟩ :: tokens
    else if char = 0x29 then do
      let tokens ← tokenizeFrom input (index + 1)
      return ⟨.rparen, [0x29], index, index + 1⟩ :: tokens
    else if char = 0x3A then do
      let tokens ← tokenizeFrom input (index + 1)
      return ⟨.colon, [0x3A], index, index + 1⟩ :: tokens
    else if char = 0x3E ∨ char = 0x3C then
      if input[index + 1]? = some 0x3D then do
        let tokens ← tokenizeFrom input (index + 2)
        return ⟨if char = 0x3E then .gte else .lte, [char, 0x3D], index, index + 2⟩ :: tokens
      else do
        let tokens ← tokenizeFrom input (index + 1)
        return ⟨if char = 0x3E then .gt else .lt, [char], index, index + 1⟩ :: tokens
    else if char = 0x2D ∧ startsTerm input index then do
      let tokens ← tokenizeFrom input (index + 1)
      return ⟨.minus, [0x2D], index, index + 1⟩ :: tokens
    else if char = 0x22 then
      match (input.drop (index + 1)).idxOf? 0x22 with
      | none => .error (.unterminatedPhrase index)
      | some length => do
        let tokens ← tokenizeFrom input (index + 1 + length + 1)
        return ⟨.phrase, (input.drop (index + 1)).take length, index, index + 1 + length + 1⟩ :: tokens
    else if hword : (wordAt input index).length = 0 then .error (.unexpectedCharacter char index)
    else do
      let tokens ← tokenizeFrom input (index + (wordAt input index).length)
      return ⟨if wordAt input index = ofString "OR" then .or else .word, wordAt input index, index,
        index + (wordAt input index).length⟩ :: tokens
  else .ok [⟨.eof, [], input.length, input.length⟩]
termination_by input.length - index

def tokenize (input : JsString) : Except QueryError (List Token) := tokenizeFrom input 0

end Lexer

section Parser

inductive ComparisonOperator where
  | eq
  | gt
  | gte
  | lt
  | lte
deriving DecidableEq, Repr

def ComparisonOperator.text : ComparisonOperator → JsString
  | .eq => ofString ":"
  | .gt => ofString ">"
  | .gte => ofString ">="
  | .lt => ofString "<"
  | .lte => ofString "<="

def operatorOf : TokenType → Option ComparisonOperator
  | .colon => some .eq
  | .gt => some .gt
  | .gte => some .gte
  | .lt => some .lt
  | .lte => some .lte
  | _ => none

inductive QueryNode where
  | and (children : List QueryNode)
  | or (children : List QueryNode)
  | not (child : QueryNode)
  | field (field : JsString) (operator : ComparisonOperator) (value : JsString) (position : ℕ)
  | text (value : JsString) (position : ℕ)

def startsPrimary (token : Token) : Bool :=
  token.type = .word || token.type = .phrase || token.type = .lparen || token.type = .minus

abbrev Rest (tokens : List Token) := {rest : List Token // rest.length ≤ tokens.length}

abbrev Shorter (tokens : List Token) := {rest : List Token // rest.length < tokens.length}

abbrev Parsed (tokens : List Token) := Except QueryError (QueryNode × Shorter tokens)

def group (node : List QueryNode → QueryNode) (first : QueryNode) (others : List QueryNode) : QueryNode :=
  if others.length = 0 then first else node (first :: others)

mutual

def parseOr (tokens : List Token) : Parsed tokens :=
  match parseAnd tokens with
  | .error error => .error error
  | .ok (first, ⟨rest, hrest⟩) =>
    match orLoop rest with
    | .error error => .error error
    | .ok (others, ⟨later, hlater⟩) => .ok (group .or first others, ⟨later, hlater.trans_lt hrest⟩)
termination_by (tokens.length, 5)

def orLoop (tokens : List Token) : Except QueryError (List QueryNode × Rest tokens) :=
  match tokens with
  | [] => .error .undefinedToken
  | token :: tail =>
    if token.type = .or then
      match parseAnd tail with
      | .error error => .error error
      | .ok (child, ⟨rest, hrest⟩) =>
        match orLoop rest with
        | .error error => .error error
        | .ok (others, ⟨later, hlater⟩) => .ok (child :: others, ⟨later, by rw [List.length_cons]; omega⟩)
    else .ok ([], ⟨token :: tail, le_rfl⟩)
termination_by (tokens.length, 5)
decreasing_by
  · exact Prod.Lex.left _ _ (Nat.lt_succ_self _)
  · exact Prod.Lex.left _ _ (hrest.trans (Nat.lt_succ_self _))

def parseAnd (tokens : List Token) : Parsed tokens :=
  match parseUnary tokens with
  | .error error => .error error
  | .ok (first, ⟨rest, hrest⟩) =>
    match andLoop rest with
    | .error error => .error error
    | .ok (others, ⟨later, hlater⟩) => .ok (group .and first others, ⟨later, hlater.trans_lt hrest⟩)
termination_by (tokens.length, 4)

def andLoop (tokens : List Token) : Except QueryError (List QueryNode × Rest tokens) :=
  match tokens with
  | [] => .error .undefinedToken
  | token :: tail =>
    if startsPrimary token then
      match parseUnary (token :: tail) with
      | .error error => .error error
      | .ok (child, ⟨rest, hrest⟩) =>
        match andLoop rest with
        | .error error => .error error
        | .ok (others, ⟨later, hlater⟩) => .ok (child :: others, ⟨later, hlater.trans hrest.le⟩)
    else .ok ([], ⟨token :: tail, le_rfl⟩)
termination_by (tokens.length, 4)

def parseUnary (tokens : List Token) : Parsed tokens :=
  match tokens with
  | [] => .error .undefinedToken
  | token :: tail =>
    if token.type = .minus then
      match parseUnary tail with
      | .error error => .error error
      | .ok (child, ⟨rest, hrest⟩) => .ok (.not child, ⟨rest, hrest.trans (Nat.lt_succ_self _)⟩)
    else parsePrimary (token :: tail)
termination_by (tokens.length, 3)

def parsePrimary (tokens : List Token) : Parsed tokens :=
  match tokens with
  | [] => .error .undefinedToken
  | token :: tail =>
    if token.type = .lparen then
      match parseOr tail with
      | .error error => .error error
      | .ok (_, ⟨[], _⟩) => .error .undefinedToken
      | .ok (inner, ⟨closing :: rest, hrest⟩) =>
        if closing.type ≠ .rparen then .error (.unclosedGroup closing.start)
        else .ok (inner, ⟨rest, by simp only [List.length_cons] at hrest ⊢; omega⟩)
    else if token.type = .phrase then .ok (.text token.value token.start, ⟨tail, Nat.lt_succ_self _⟩)
    else if token.type = .word then
      match tail with
      | [] => .error .undefinedToken
      | operatorToken :: behind =>
        match operatorOf operatorToken.type with
        | none => .ok (.text token.value token.start, ⟨operatorToken :: behind, Nat.lt_succ_self _⟩)
        | some operator =>
          match behind with
          | [] => .error .undefinedToken
          | valueToken :: rest =>
            if valueToken.type ≠ .word ∧ valueToken.type ≠ .phrase then
              .error (.missingValue token.value operatorToken.value valueToken.start)
            else
              .ok (.field token.value operator valueToken.value token.start,
                ⟨rest, by simp only [List.length_cons]; omega⟩)
    else .error (.missingTerm token)
termination_by (tokens.length, 2)

end

def parse (tokens : List Token) : Except QueryError QueryNode :=
  match parseOr tokens with
  | .error error => .error error
  | .ok (_, ⟨[], _⟩) => .error .undefinedToken
  | .ok (node, ⟨token :: _, _⟩) => if token.type ≠ .eof then .error (.unexpectedToken token) else .ok node

def parseQuery (input : JsString) : Except QueryError QueryNode := do
  let tokens ← tokenize input
  parse tokens

end Parser

end CrashLab.SearchGrammar
