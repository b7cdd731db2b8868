import CrashLab.BucketMaps
import CrashLab.Histories
import CrashLab.JsStrings
import CrashLab.KeyedLists
import CrashLab.Occurrences

namespace CrashLab.SearchIndex

open BucketMaps Histories JsStrings KeyedLists Occurrences

/-- Lower case, and the letters and numbers among the code points, as the platform's Unicode tables have them. -/
structure Unicode where
  toLowerCase : JsString → JsString
  letterOrNumber : JsString → Bool

structure SearchField where
  value : JsString

structure SearchDocument where
  id : JsString
  fields : List SearchField

structure IndexedDocument where
  document : SearchDocument
  tokens : List JsString

structure RunSearchIndex where
  documents : List IndexedDocument := []
  postings : JsString → Option (List JsString) := fun _ => none
  tokensByLength : ℚ → Option (List JsString) := fun _ => none
  prefixBuckets : JsString → Option (List JsString) := fun _ => none
  allTokens : List JsString := []

def IndexedDocument.key (indexed : IndexedDocument) : JsString := indexed.document.id

section Tokens

def codePoints : JsString → List JsString
  | [] => []
  | [u] => [[u]]
  | u :: v :: rest => if isHigh u && isLow v then [u, v] :: codePoints rest else [u] :: codePoints (v :: rest)

/-- The longest runs of code points of one kind, `current` being the one under way. -/
def runsOf (kind : JsString → Bool) (current : JsString) : List JsString → List JsString
  | [] => if current = [] then [] else [current]
  | point :: rest =>
    if kind point then runsOf kind (current ++ point) rest
    else if current = [] then runsOf kind [] rest
    else current :: runsOf kind [] rest

variable (unicode : Unicode)

def normalizeText (value : JsString) : JsString := trim (unicode.toLowerCase value)

-- `/[\p\x7bL\x7d\p\x7bN\x7d_]+/gu`
def tokenize (value : JsString) : List JsString :=
  runsOf (fun point => unicode.letterOrNumber point || point = [0x5F]) [] (codePoints (normalizeText unicode value))

def uniqueTokens (document : SearchDocument) : List JsString :=
  document.fields.foldl (fun tokens field => addAllNew tokens (tokenize unicode field.value))
    (addAllNew [] (tokenize unicode document.id))

def maxQueryTerms : ℕ := 12

def collectTerms (terms : List JsString) : List JsString → List JsString
  | [] => terms
  | token :: rest =>
    if token ∈ terms then collectTerms terms rest
    else if maxQueryTerms ≤ (terms ++ [token]).length then terms ++ [token]
    else collectTerms (terms ++ [token]) rest

def queryTerms (query : JsString) : List JsString := collectTerms [] (tokenize unicode query)

end Tokens

section Distance

def maxEditDistanceFor (term : JsString) (override : Option ℚ) : ℚ :=
  match override with
  | some distance => max 0 distance
  | none => if term.length ≤ 2 then 0 else if term.length ≤ 4 then 1 else 2

/-- The cells of a row after `left`, from the row above it. -/
def fillRow (unit : UInt16) (left : ℕ) : List ℕ → JsString → List ℕ
  | diagonal :: above :: previous, other :: b =>
    let cell := min (diagonal + if unit = other then 0 else 1) (min (left + 1) (above + 1))
    cell :: fillRow unit cell (above :: previous) b
  | _, _ => []

/-- The last row, or `none` where every cell of some row is above the bound. -/
def lastRow (b : JsString) (maxDistance : ℚ) (i : ℕ) (previous : List ℕ) : JsString → Option (List ℕ)
  | [] => some previous
  | unit :: a =>
    let current := (i + 1) :: fillRow unit (i + 1) previous b
    if ∀ cell ∈ current, maxDistance < cell then none else lastRow b maxDistance (i + 1) current a

def boundedEditDistance (a b : JsString) (maxDistance : ℚ) : ℚ :=
  if a = b then 0
  else if maxDistance ≤ 0 then maxDistance + 1
  else if maxDistance < |(a.length : ℚ) - b.length| then maxDistance + 1
  else
    match lastRow b maxDistance 0 (List.range (b.length + 1)) a with
    | none => maxDistance + 1
    | some previous =>
      if (previous.getLastD 0 : ℚ) ≤ maxDistance then previous.getLastD 0 else maxDistance + 1

end Distance

section Updates

def prefixKey (token : JsString) : JsString := token.take (min 3 token.length)

def registerToken (index : RunSearchIndex) (token : JsString) : RunSearchIndex :=
  { index with
    tokensByLength := push index.tokensByLength token.length token
    prefixBuckets := push index.prefixBuckets (prefixKey token) token
    allTokens := index.allTokens ++ [token] }

def unregisterToken (index : RunSearchIndex) (token : JsString) : RunSearchIndex :=
  { index with
    tokensByLength := pull index.tokensByLength token.length token
    prefixBuckets := pull index.prefixBuckets (prefixKey token) token
    allTokens := index.allTokens.erase token }

def addPosting (index : RunSearchIndex) (token id : JsString) : RunSearchIndex :=
  match index.postings token with
  | some posting => { index with postings := Function.update index.postings token (some (posting ++ [id])) }
  | none => registerToken { index with postings := Function.update index.postings token (some [id]) } token

def removePosting (index : RunSearchIndex) (token id : JsString) : RunSearchIndex :=
  match index.postings token with
  | none => index
  | some posting =>
    if posting.erase id ≠ [] then
      { index with postings := Function.update index.postings token (some (posting.erase id)) }
    else unregisterToken { index with postings := Function.update index.postings token none } token

def removeDocument (index : RunSearchIndex) (id : JsString) : RunSearchIndex :=
  match get IndexedDocument.key id index.documents with
  | none => index
  | some existing =>
    existing.tokens.foldl (fun index token => removePosting index token id)
      { index with documents := remove IndexedDocument.key id index.documents }

def getDocument (index : RunSearchIndex) (id : JsString) : Option SearchDocument :=
  (get IndexedDocument.key id index.documents).map IndexedDocument.document

variable (unicode : Unicode)

def upsertDocument (index : RunSearchIndex) (document : SearchDocument) : RunSearchIndex :=
  let index := removeDocument index document.id
  let tokens := uniqueTokens unicode document
  tokens.foldl (fun index token => addPosting index token document.id)
    { index with documents := put IndexedDocument.key ⟨document, tokens⟩ index.documents }

def addDocuments (index : RunSearchIndex) (documents : List SearchDocument) : RunSearchIndex :=
  documents.foldl (upsertDocument unicode) index

def createRunSearchIndex (documents : List SearchDocument) : RunSearchIndex := addDocuments unicode {} documents

end Updates

section Search

def lengthsWithin (term : JsString) (distance : ℚ) : List ℚ :=
  let minimumLength := max 1 (term.length - distance)
  let maximumLength := term.length + distance
  (List.range (⌊maximumLength - minimumLength⌋ + 1).toNat).map fun i => minimumLength + i

def fuzzyTokens (term : JsString) (distance : ℚ) (found tokens : List JsString) : List JsString :=
  tokens.foldl (fun found token =>
    if token ∈ found then found
    else if boundedEditDistance term token distance ≤ distance then addNew found token
    else found) found

def literalTokens (index : RunSearchIndex) (term : JsString) : List JsString :=
  let exact := if (index.postings term).isSome then [term] else []
  let bucket := (index.prefixBuckets (prefixKey term)).getD []
  let found := addAllNew exact (bucket.filter fun token => token ≠ term ∧ term <+: token)
  if 2 ≤ term.length then
    addAllNew found (index.allTokens.filter fun token =>
      ¬(token.length < term.length ∨ token = term ∨ term <+: token) ∧ term <:+: token)
  else found

def fuzzyLength (index : RunSearchIndex) (term : JsString) (distance : ℚ) (found : List JsString) (length : ℚ) :
    List JsString :=
  match index.tokensByLength length with
  | none => found
  | some tokens => fuzzyTokens term distance found tokens

def matchingTokens (index : RunSearchIndex) (term : JsString) (maxEditDistance : Option ℚ) : List JsString :=
  let found := literalTokens index term
  if found ≠ [] then found
  else
    let distance := maxEditDistanceFor term maxEditDistance
    if distance ≤ 0 then found
    else (lengthsWithin term distance).foldl (fuzzyLength index term distance) found

def addPosted (index : RunSearchIndex) (ids : List JsString) (token : JsString) : List JsString :=
  match index.postings token with
  | none => ids
  | some posting => addAllNew ids posting

def termIds (index : RunSearchIndex) (maxEditDistance : Option ℚ) (term : JsString) : List JsString :=
  (matchingTokens index term maxEditDistance).foldl (addPosted index) []

def termCandidates (index : RunSearchIndex) (maxEditDistance : Option ℚ) : List JsString → Option (List (List JsString))
  | [] => some []
  | term :: terms =>
    let ids := termIds index maxEditDistance term
    if ids.length = 0 then none else (termCandidates index maxEditDistance terms).map (ids :: ·)

def intersect (ids : List JsString) (others : List (List JsString)) : List JsString :=
  others.foldl (fun ids other => if 0 < ids.length then ids.filter (· ∈ other) else ids) ids

variable (unicode : Unicode)

def searchCandidates (index : RunSearchIndex) (query : JsString) (maxEditDistance : Option ℚ) :
    List SearchDocument :=
  let terms := queryTerms unicode query
  if terms.length = 0 then []
  else
    match termCandidates index maxEditDistance terms with
    | none => []
    | some sets =>
      match sets.mergeSort fun a b => a.length ≤ b.length with
      | [] => []
      | first :: others => (intersect first others).filterMap (getDocument index)

end Search

end CrashLab.SearchIndex
