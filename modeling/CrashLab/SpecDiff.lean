import CrashLab.JsonTexts

namespace CrashLab.OpenApi

open JsStrings JsonTexts

inductive Kind where
  | breaking
  | additive
deriving DecidableEq

structure SpecDiffFinding where
  kind : Kind
  message : JsString
deriving DecidableEq

/-- What a read can give: a value of a document, nothing, or what every object inherits, which is functions and
`Object.prototype` itself. -/
inductive Value where
  | undefined
  | json (value : Json)
  | function
  | prototype

section Reads

def inheritedNames : List JsString :=
  ["constructor", "__defineGetter__", "__defineSetter__", "hasOwnProperty", "__lookupGetter__", "__lookupSetter__",
    "isPrototypeOf", "propertyIsEnumerable", "toString", "valueOf", "toLocaleString"].map ofString

def protoName : JsString := ofString "__proto__"

namespace Value

def isObject : Value → Bool
  | json (.object _) => true
  | prototype => true
  | _ => false

def asJson (v : Value) : Value := if v.isObject then v else json (.object [])

def members : Value → List (JsString × Json)
  | json (.object members) => members
  | _ => []

def keys (v : Value) : List JsString := v.members.map Prod.fst

def get (v : Value) (key : JsString) : Value :=
  match Json.get key (.object v.members) with
  | some value => json value
  | none =>
    if v.isObject = false then undefined
    else if key ∈ inheritedNames then function
    else if key = protoName then (match v with | prototype => json .null | _ => prototype)
    else undefined

/-- `key in v` -/
def has (v : Value) (key : JsString) : Bool := key ∈ v.keys || key ∈ inheritedNames || key = protoName

def text : Value → Option JsString
  | json (.string s) => some s
  | _ => none

def items : Value → Option (List Json)
  | json (.array items) => some items
  | _ => none

def isUndefined : Value → Bool
  | undefined => true
  | _ => false

def truthy : Value → Bool
  | undefined => false
  | json .null => false
  | json (.bool b) => b
  | json (.number n) => !n.digits.isEmpty
  | json (.string s) => !s.isEmpty
  | _ => true

end Value

end Reads

section References

/-- `text.replace(/~x/g, y)` -/
def replaceTilde (x y : UInt16) : JsString → JsString
  | t :: u :: rest => if t = 0x7E ∧ u = x then y :: replaceTilde x y rest else t :: replaceTilde x y (u :: rest)
  | rest => rest

def readSegment (node : Value) (rawSegment : JsString) : Value :=
  if node.isObject then node.get (replaceTilde 0x30 0x7E (replaceTilde 0x31 0x2F rawSegment)) else .undefined

def resolveRef (ref : JsString) (spec : Value) : Value :=
  if ofString "#/" <+: ref then ((ref.drop 2).splitOn 0x2F).foldl readSegment spec else .undefined

def refOf (v : Value) : Option JsString := if v.isObject then (v.get (ofString "$ref")).text else none

def deref (v spec : Value) : Value :=
  match refOf v with
  | some ref => if (resolveRef ref spec).isUndefined then v else resolveRef ref spec
  | none => v

end References

section Texts

def stableKey : Value → Option (List Char)
  | .json value => some (stringify value)
  | .prototype => some ['\x7b', '\x7d']
  | _ => none

def ofChars (chars : List Char) : JsString := chars.flatMap units

def nameText : Json → JsString
  | .null => ofString "null"
  | .bool b => ofString (if b then "true" else "false")
  | .number n => ofChars n.text
  | .string s => s
  | .array items => nameTexts items
  | .object _ => ofString "[object Object]"
where
  nameTexts : List Json → JsString
    | [] => []
    | [.null] => []
    | [item] => nameText item
    | .null :: rest => 0x2C :: nameTexts rest
    | item :: rest => nameText item ++ 0x2C :: nameTexts rest

/-- Whether a set of values of the other document has this one: arrays and objects of two documents are never the
same. -/
def sameValue : Json → Json → Bool
  | .null, .null => true
  | .bool b, .bool c => b = c
  | .number m, .number n => m = n
  | .string s, .string t => s = t
  | _, _ => false

end Texts

inductive Step where
  | add (kind : Kind) (message : JsString)
  | compare (base next : Value) (label : JsString)

def addIf (condition : Bool) (kind : Kind) (message : JsString) : List Step :=
  if condition then [.add kind message] else []

section Schemas

def typesDiffer (baseType nextType : Value) : Bool :=
  match baseType.text, nextType.text with
  | some baseText, some nextText => baseText ≠ nextText
  | _, _ => false

def isMissing (values : List Json) (value : Json) : Bool := stringify value ∉ values.map stringify

def listed (values : List Json) : JsString := ofChars ((values.map stringify).intersperse [',', ' ']).flatten

def enumSteps (base next : Value) (label : JsString) : List Step :=
  match (base.get (ofString "enum")).items, (next.get (ofString "enum")).items with
  | some baseValues, some nextValues =>
    let removed := baseValues.filter (isMissing nextValues)
    let added := nextValues.filter (isMissing baseValues)
    addIf (0 < removed.length) .breaking (label ++ ofString ": enum value(s) removed: " ++ listed removed) ++
      addIf (0 < added.length) .additive (label ++ ofString ": enum value(s) added: " ++ listed added)
  | _, _ => []

def variants (resolved : Value) : List Value :=
  match (resolved.asJson.get (ofString "anyOf")).items with
  | some items => items.map Value.json
  | none => [resolved]

def isUnion (resolved : Value) : Bool := (resolved.asJson.get (ofString "anyOf")).items.isSome

def matchOf (nextList : List Value) (variant : Value) : Option Value :=
  nextList.find? fun candidate => stableKey candidate = stableKey variant

def unionSteps (baseResolved nextResolved : Value) (label : JsString) : List Step :=
  let baseList := variants baseResolved
  let nextList := variants nextResolved
  addIf (baseList.any fun v => stableKey v ∉ nextList.map stableKey) .breaking
      (label ++ ofString ": union variant(s) removed") ++
    addIf (nextList.any fun v => stableKey v ∉ baseList.map stableKey) .additive
      (label ++ ofString ": union variant(s) added") ++
    baseList.flatMap fun variant =>
      match matchOf nextList variant with
      | some candidate => if candidate.isUndefined then [] else [.compare variant candidate label]
      | none => []

def itemSteps (base next : Value) (label : JsString) : List Step :=
  let items := base.get (ofString "items")
  if items.items.isSome || items.isObject then [.compare items (next.get (ofString "items")) (label ++ ofString "[]")]
  else []

def field (label key : JsString) : JsString := label ++ ofString "." ++ key

def requiredSteps (base next baseProps : Value) (label : JsString) : List Step :=
  let baseRequired := ((base.get (ofString "required")).items).getD []
  let nextRequired := ((next.get (ofString "required")).items).getD []
  (baseRequired.flatMap fun key =>
    addIf (!nextRequired.any (sameValue key) && baseProps.has (nameText key)) .additive
      (field label (nameText key) ++ ofString ": field became optional")) ++
    nextRequired.flatMap fun key =>
      addIf (!baseRequired.any (sameValue key) && baseProps.has (nameText key)) .breaking
        (field label (nameText key) ++ ofString ": field became required")

def comparesFields (base next : Value) : Bool :=
  (base.get (ofString "type")).text = some (ofString "object") ||
    (next.get (ofString "type")).text = some (ofString "object") ||
    (base.get (ofString "properties")).truthy || (next.get (ofString "properties")).truthy

def fieldSteps (base next : Value) (label : JsString) : List Step :=
  if comparesFields base next then
    let baseProps := (base.get (ofString "properties")).asJson
    let nextProps := (next.get (ofString "properties")).asJson
    (baseProps.keys.flatMap fun key =>
      if nextProps.has key then [.compare (baseProps.get key) (nextProps.get key) (field label key)]
      else [.add .breaking (field label key ++ ofString ": field removed")]) ++
    (nextProps.keys.flatMap fun key =>
      addIf (!baseProps.has key) .additive (field label key ++ ofString ": field added")) ++
    requiredSteps base next baseProps label
  else []

/-- The body of `compareSchema`. -/
def schemaSteps (baseSpec nextSpec base next : Value) (label : JsString) : List Step :=
  let baseResolved := deref base baseSpec
  let nextResolved := deref next nextSpec
  if baseResolved.isUndefined && nextResolved.isUndefined then []
  else if baseResolved.isUndefined then [.add .additive (label ++ ofString ": schema added")]
  else if nextResolved.isUndefined then [.add .breaking (label ++ ofString ": schema removed")]
  else if (refOf base).isSome && refOf base = refOf next then []
  else
    let baseObj := baseResolved.asJson
    let nextObj := nextResolved.asJson
    let baseType := baseObj.get (ofString "type")
    let nextType := nextObj.get (ofString "type")
    if typesDiffer baseType nextType then
      [.add .breaking (label ++ ofString ": type narrowed from " ++ baseType.text.getD [] ++ ofString " to " ++
        nextType.text.getD [])]
    else
      enumSteps baseObj nextObj label ++
        if isUnion baseResolved || isUnion nextResolved then unionSteps baseResolved nextResolved label
        else itemSteps baseObj nextObj label ++ fieldSteps baseObj nextObj label

end Schemas

section Documents

def responseSchema (response : Value) : Value :=
  (((response.asJson.get (ofString "content")).asJson.get (ofString "application/json")).asJson).get
    (ofString "schema")

def operationSteps (baseOp nextOp : Value) (route : JsString) : List Step :=
  let baseResponses := (baseOp.get (ofString "responses")).asJson
  let nextResponses := (nextOp.get (ofString "responses")).asJson
  (baseResponses.keys.flatMap fun status =>
    if nextResponses.has status then
      [.compare (responseSchema (baseResponses.get status)) (responseSchema (nextResponses.get status))
        (route ++ ofString " response " ++ status)]
    else [.add .breaking (route ++ ofString ": response " ++ status ++ ofString " removed")]) ++
  nextResponses.keys.flatMap fun status =>
    addIf (!baseResponses.has status) .additive (route ++ ofString ": response " ++ status ++ ofString " added")

def httpMethods : List (JsString × JsString) :=
  [("get", "GET"), ("put", "PUT"), ("post", "POST"), ("delete", "DELETE"), ("options", "OPTIONS"), ("head", "HEAD"),
    ("patch", "PATCH"), ("trace", "TRACE")].map fun names => (ofString names.1, ofString names.2)

def routeName (method pathKey : JsString) : JsString := method ++ ofString " " ++ pathKey

def pathSteps (basePaths nextPaths : Value) (pathKey : JsString) : List Step :=
  let baseOps := (basePaths.get pathKey).asJson
  let nextOps := (nextPaths.get pathKey).asJson
  httpMethods.flatMap fun method =>
    let route := routeName method.2 pathKey
    if !baseOps.has method.1 then []
    else if !nextOps.has method.1 then [.add .breaking (route ++ ofString ": route removed")]
    else operationSteps (baseOps.get method.1).asJson (nextOps.get method.1).asJson route

def addedRoutes (basePaths nextPaths : Value) (pathKey : JsString) : List Step :=
  if basePaths.has pathKey then []
  else
    httpMethods.flatMap fun method =>
      addIf ((nextPaths.get pathKey).asJson.has method.1) .additive
        (routeName method.2 pathKey ++ ofString ": route added")

def schemaName (name : JsString) : JsString := ofString "components.schemas." ++ name

def schemas (spec : Value) : Value := ((spec.get (ofString "components")).asJson.get (ofString "schemas")).asJson

def componentSteps (baseSpec nextSpec : Value) : List Step :=
  let baseSchemas := schemas baseSpec
  let nextSchemas := schemas nextSpec
  (baseSchemas.keys.flatMap fun name =>
    if nextSchemas.has name then [.compare (baseSchemas.get name) (nextSchemas.get name) (schemaName name)]
    else [.add .breaking (schemaName name ++ ofString ": schema removed")]) ++
  nextSchemas.keys.flatMap fun name =>
    addIf (!baseSchemas.has name) .additive (schemaName name ++ ofString ": schema added")

def specSteps (baseSpec nextSpec : Value) : List Step :=
  let basePaths := (baseSpec.get (ofString "paths")).asJson
  let nextPaths := (nextSpec.get (ofString "paths")).asJson
  basePaths.keys.flatMap (pathSteps basePaths nextPaths) ++
    nextPaths.keys.flatMap (addedRoutes basePaths nextPaths) ++ componentSteps baseSpec nextSpec

end Documents

section Runs

def addFinding (findings : List SpecDiffFinding) (finding : SpecDiffFinding) : List SpecDiffFinding :=
  if finding ∈ findings then findings else findings ++ [finding]

variable (baseSpec nextSpec : Value)

/-- `none` where `fuel` nested calls are not enough. -/
def compareSchema (fuel : ℕ) (base next : Value) (label : JsString) (out : List SpecDiffFinding) :
    Option (List SpecDiffFinding) :=
  match fuel with
  | 0 => none
  | fuel + 1 =>
    (schemaSteps baseSpec nextSpec base next label).foldlM (fun out step =>
      match step with
      | .add kind message => some (addFinding out ⟨kind, message⟩)
      | .compare base next label => compareSchema fuel base next label out) out

def runStep (fuel : ℕ) (out : List SpecDiffFinding) : Step → Option (List SpecDiffFinding)
  | .add kind message => some (addFinding out ⟨kind, message⟩)
  | .compare base next label => compareSchema baseSpec nextSpec fuel base next label out

structure SpecDiff where
  breaking : List SpecDiffFinding
  additive : List SpecDiffFinding
  hasBreaking : Bool

/-- `before` is the order of `localeCompare`. -/
def diffOpenApiSpecs (before : JsString → JsString → Bool) (fuel : ℕ) (base next : Json) : Option SpecDiff := do
  let baseSpec := (Value.json base).asJson
  let nextSpec := (Value.json next).asJson
  let findings ← (specSteps baseSpec nextSpec).foldlM (runStep baseSpec nextSpec fuel) []
  let sorted := fun kind =>
    (findings.filter (·.kind = kind)).mergeSort fun a b => before a.message b.message
  return ⟨sorted .breaking, sorted .additive, 0 < (sorted .breaking).length⟩

end Runs

end CrashLab.OpenApi
