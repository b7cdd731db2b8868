import CrashLab.CursorWalks

namespace CrashLab.WasmParse

open CursorWalks

inductive WasmError where
  | moduleSize (length : ℕ)
  | headerSize
  | magic (value : BitVec 32)
  | version (value : BitVec 32)
  | sectionSizeEnd
  | sectionSizeOverflow
  | sectionBounds (id : Option UInt8) (size : ℤ)
  | ulebEnd
  | ulebOverflow
  | slebEnd
  | slebOverflow
deriving DecidableEq, Repr

def maxModuleSize : ℕ := 16 * 1024 * 1024

def hexText (n : ℤ) : String :=
  (if n < 0 then "-" else "") ++ String.ofList (Nat.toDigits 16 n.natAbs)

def WasmError.message : WasmError → String
  | moduleSize length => "Module size " ++ toString length ++ " bytes exceeds " ++ toString maxModuleSize ++ " byte limit"
  | headerSize => "Module header: buffer too small"
  | magic value => "Invalid magic number: 0x" ++ hexText value.toInt
  | version value => "Unsupported WASM version: " ++ toString value.toInt
  | sectionSizeEnd => "Section size: unexpected end of buffer"
  | sectionSizeOverflow => "Section size: integer overflow"
  | sectionBounds id size =>
    "Section " ++ (id.map fun id => toString id.toNat).getD "undefined" ++ ": size " ++ toString size ++
      " exceeds buffer bounds"
  | ulebEnd => "ULEB128: unexpected end of buffer"
  | ulebOverflow => "ULEB128: integer overflow (shift > 63)"
  | slebEnd => "SLEB128: unexpected end of buffer"
  | slebOverflow => "SLEB128: integer overflow"

section Leb128

/-- `(byte & 0x7f) << shift`: a shift counts modulo 32. -/
def lebBits (byte : UInt8) (shift : ℕ) : BitVec 32 := (byte &&& 0x7f).toBitVec.setWidth 32 <<< (shift % 32)

def continues (byte : UInt8) : Bool := byte &&& 0x80 ≠ 0

structure LebStyle where
  atEnd : Option WasmError
  limit : Option (ℕ × WasmError)

def LebStyle.overflow (style : LebStyle) (shift : ℕ) : Option WasmError :=
  match style.limit with
  | some (limit, error) => if limit < shift then some error else none
  | none => none

structure Leb where
  value : BitVec 32
  offset : ℤ
  shift : ℕ
  last : Option UInt8
deriving DecidableEq, Repr

def lebLoop (style : LebStyle) (data : List UInt8) :
    List UInt8 → ℤ → BitVec 32 → ℕ → Option UInt8 → Walk WasmError Leb
  | [], offset, value, shift, last =>
    match style.atEnd with
    | some error => .thrown error
    | none => pure { value, offset, shift, last }
  | byte :: rest, offset, value, shift, _ => do
    let (_, offset) ← readNext data offset
    let value := value ||| lebBits byte shift
    match style.overflow (shift + 7) with
    | some error => .thrown error
    | none =>
      if continues byte then lebLoop style data rest offset value (shift + 7) (some byte)
      else pure { value, offset, shift := shift + 7, last := some byte }

/-- The loop from a cursor on; before the array's start it reads `undefined`, which has no bits. -/
def readLeb (style : LebStyle) (data : List UInt8) (offset : ℤ) : Walk WasmError Leb :=
  if offset < 0 then do
    let (_, offset) ← readNext data offset
    pure { value := 0, offset, shift := 7, last := none }
  else lebLoop style data (data.drop offset.toNat) offset 0 0 none

def stopping : LebStyle := { atEnd := none, limit := none }

def sectionSize : LebStyle := { atEnd := some .sectionSizeEnd, limit := some (32, .sectionSizeOverflow) }

def uleb128 : LebStyle := { atEnd := some .ulebEnd, limit := some (63, .ulebOverflow) }

def sleb128 : LebStyle := { atEnd := some .slebEnd, limit := some (64, .slebOverflow) }

def readULEB128 (buffer : List UInt8) (offset : ℤ) : Walk WasmError (ℤ × ℤ) := do
  let leb ← readLeb uleb128 buffer offset
  pure (leb.value.toInt, leb.offset)

def readSLEB128 (buffer : List UInt8) (offset : ℤ) : Walk WasmError (ℤ × ℤ) := do
  let leb ← readLeb sleb128 buffer offset
  let negative := leb.last.any fun byte => byte &&& 0x40 ≠ 0
  let value := if negative && leb.shift < 64 then leb.value ||| (BitVec.allOnes 32 <<< (leb.shift % 32)) else leb.value
  pure (value.toInt, leb.offset)

end Leb128

/-- `new TextDecoder().decode`: a leading byte order mark is dropped; how bytes that are no UTF-8 are read is the
platform's. -/
def decodeText (replaceInvalid : List UInt8 → List Char) (bytes : List UInt8) : List Char :=
  let bytes := if [0xEF, 0xBB, 0xBF].isPrefixOf bytes then bytes.drop 3 else bytes
  match (ByteArray.mk bytes.toArray).utf8Decode? with
  | some chars => chars.toList
  | none => replaceInvalid bytes

structure WasmSection where
  id : Option UInt8
  name : List Char
  start : ℤ
  size : ℤ
  data : List UInt8

structure WasmModule where
  magic : BitVec 32
  version : BitVec 32
  sections : List WasmSection

structure ExportEntry where
  name : List Char
  kind : Option UInt8
  index : ℤ

structure FuncType where
  params : List (Option UInt8)
  results : List (Option UInt8)

structure NameMap where
  moduleName : Option (List Char) := none
  functionNames : List (ℤ × List Char) := []

section Sections

variable (replaceInvalid : List UInt8 → List Char)

def wordByte (byte : Option UInt8) (shift : ℕ) : BitVec 32 := (byte.getD 0).toBitVec.setWidth 32 <<< shift

def readWord (buffer : List UInt8) (offset : ℤ) : Walk WasmError (BitVec 32) := do
  let (a, offset) ← readNext buffer offset
  let (b, offset) ← readNext buffer offset
  let (c, offset) ← readNext buffer offset
  let (d, _) ← readNext buffer offset
  pure (wordByte a 0 ||| wordByte b 8 ||| wordByte c 16 ||| wordByte d 24)

def parseModuleHeader (buffer : List UInt8) : Walk WasmError (WasmModule × ℤ) :=
  if buffer.length < 8 then .thrown .headerSize
  else do
    let magic ← readWord buffer 0
    if magic ≠ 0x6d736100 then .thrown (.magic magic)
    else do
      let version ← readWord buffer 4
      if version ≠ 1 then .thrown (.version version)
      else pure ({ magic, version, sections := [] }, 8)

def sectionName (data : List UInt8) : Walk WasmError (List Char) := do
  let nameLength ← readLeb stopping data 0
  let stop := nameLength.offset + nameLength.value.toInt
  if stop ≤ data.length then pure (decodeText replaceInvalid (slice data nameLength.offset stop)) else pure []

def nameOf (sectionId : Option UInt8) (data : List UInt8) : Walk WasmError (List Char) :=
  if sectionId = some 0 then sectionName replaceInvalid data else pure []

def walkSections (buffer : List UInt8) : ℕ → ℤ → Walk WasmError (List WasmSection)
  | 0, _ => .unfinished
  | fuel + 1, offset =>
    if (buffer.length : ℤ) ≤ offset then pure []
    else do
      let (sectionId, offset) ← readNext buffer offset
      let size ← readLeb sectionSize buffer offset
      let start := size.offset
      let size := size.value.toInt
      if (buffer.length : ℤ) < start + size then .thrown (.sectionBounds sectionId size)
      else do
        let data := slice buffer start (start + size)
        let offset ← advance start size
        let name ← nameOf replaceInvalid sectionId data
        let sections ← walkSections buffer fuel offset
        pure ({ id := sectionId, name, start, size, data } :: sections)

def exportLoop (data : List UInt8) : ℕ → ℤ → Walk WasmError (List ExportEntry)
  | 0, _ => pure []
  | count + 1, offset => do
    let nameLen ← readLeb stopping data offset
    let stop := nameLen.offset + nameLen.value.toInt
    if (data.length : ℤ) < stop then pure []
    else do
      let name := decodeText replaceInvalid (slice data nameLen.offset stop)
      let offset ← advance nameLen.offset nameLen.value.toInt
      if (data.length : ℤ) ≤ offset then pure []
      else do
        let (kind, offset) ← readNext data offset
        let index ← readLeb stopping data offset
        let exports ← exportLoop data count index.offset
        pure ({ name, kind, index := index.value.toInt } :: exports)

def parseExportSection (data : List UInt8) : Walk WasmError (List ExportEntry) := do
  let count ← readLeb stopping data 0
  exportLoop replaceInvalid data count.value.toInt.toNat count.offset

def valtypeLoop (data : List UInt8) : ℕ → ℤ → Walk WasmError (List (Option UInt8) × ℤ)
  | 0, offset => pure ([], offset)
  | count + 1, offset =>
    if (data.length : ℤ) ≤ offset then pure ([], offset)
    else do
      let (valtype, offset) ← readNext data offset
      let (valtypes, offset) ← valtypeLoop data count offset
      pure (valtype :: valtypes, offset)

def readValtypes (data : List UInt8) (offset : ℤ) : Walk WasmError (List (Option UInt8) × ℤ) := do
  let count ← readLeb stopping data offset
  valtypeLoop data count.value.toInt.toNat count.offset

def typeLoop (data : List UInt8) : ℕ → ℤ → Walk WasmError (List FuncType)
  | 0, _ => pure []
  | count + 1, offset =>
    if (data.length : ℤ) ≤ offset then pure []
    else do
      -- the form byte is passed over
      let offset ← advance offset 1
      let (params, offset) ← readValtypes data offset
      let (results, offset) ← readValtypes data offset
      let types ← typeLoop data count offset
      pure ({ params, results } :: types)

def parseTypeSection (data : List UInt8) : Walk WasmError (List FuncType) := do
  let count ← readLeb stopping data 0
  typeLoop data count.value.toInt.toNat count.offset

def functionNameLoop (subData : List UInt8) : ℕ → ℤ → NameMap → Walk WasmError NameMap
  | 0, _, result => pure result
  | count + 1, subOffset, result => do
    let funcIdx ← readLeb stopping subData subOffset
    let nameLen ← readLeb stopping subData funcIdx.offset
    let stop := nameLen.offset + nameLen.value.toInt
    if stop ≤ subData.length then do
      let name := decodeText replaceInvalid (slice subData nameLen.offset stop)
      let subOffset ← advance nameLen.offset nameLen.value.toInt
      functionNameLoop subData count subOffset
        { result with functionNames := (funcIdx.value.toInt, name) :: result.functionNames }
    else functionNameLoop subData count nameLen.offset result

def parseFunctionNames (subData : List UInt8) (result : NameMap) : Walk WasmError NameMap := do
  let count ← readLeb stopping subData 0
  functionNameLoop replaceInvalid subData count.value.toInt.toNat count.offset result

def parseModuleName (subData : List UInt8) (result : NameMap) : Walk WasmError NameMap := do
  let nameLen ← readLeb stopping subData 0
  let stop := nameLen.offset + nameLen.value.toInt
  if stop ≤ subData.length then
    pure { result with moduleName := some (decodeText replaceInvalid (slice subData nameLen.offset stop)) }
  else pure result

def parseSubsection (subsectionType : Option UInt8) (subData : List UInt8) (result : NameMap) :
    Walk WasmError NameMap :=
  if subsectionType = some 1 then parseFunctionNames replaceInvalid subData result
  else if subsectionType = some 0 then parseModuleName replaceInvalid subData result
  else pure result

def subsectionLoop (data : List UInt8) : ℕ → ℤ → NameMap → Walk WasmError NameMap
  | 0, _, _ => .unfinished
  | fuel + 1, offset, result =>
    if (data.length : ℤ) ≤ offset then pure result
    else do
      let (subsectionType, offset) ← readNext data offset
      let size ← readLeb stopping data offset
      let subData := slice data size.offset (size.offset + size.value.toInt)
      let offset ← advance size.offset size.value.toInt
      let result ← parseSubsection replaceInvalid subsectionType subData result
      subsectionLoop data fuel offset result

def parseNameSection (fuel : ℕ) (data : List UInt8) : Walk WasmError NameMap :=
  subsectionLoop replaceInvalid data fuel 0 { }

end Sections

section Contract

variable (replaceInvalid : List UInt8 → List Char)

structure ExportedFunction where
  name : List Char
  exportIndex : ℕ
  funcIndex : ℤ
  paramTypes : List (Option UInt8)
  resultTypes : List (Option UInt8)
  paramNames : List (List Char)

structure ParsedContract where
  wasmModule : WasmModule
  exports : List ExportEntry := []
  types : List FuncType := []
  nameMap : NameMap := { }
  exportedFunctions : List ExportedFunction := []

def heuristicParamName (valtype : Option UInt8) (index : ℕ) : List Char :=
  let stem :=
    if valtype = some 0x7f then "i32_"
    else if valtype = some 0x7e then "i64_"
    else if valtype = some 0x7d then "f32_"
    else if valtype = some 0x7c then "f64_"
    else if valtype = some 0x7b then "v128_"
    else if valtype = some 0x70 then "funcref_"
    else if valtype = some 0x6f then "externref_"
    else "param_"
  stem.toList ++ Nat.toDigits 10 index

def paramName (nameMap : NameMap) (funcIndex : ℤ) (valtype : Option UInt8) (index : ℕ) : List Char :=
  match nameMap.functionNames.lookup (funcIndex + index) with
  | some [] => "param".toList ++ Nat.toDigits 10 index
  | some name => name
  | none => heuristicParamName valtype index

def funcTypeAt (types : List FuncType) (index : ℤ) : FuncType :=
  (if 0 ≤ index then types[index.toNat]? else none).getD { params := [], results := [] }

def exportedFunctions (contract : ParsedContract) : List ExportedFunction :=
  (contract.exports.zipIdx.filter fun entry => entry.1.kind = some 0).map fun entry =>
    let funcType := funcTypeAt contract.types entry.1.index
    { name := entry.1.name
      exportIndex := entry.2
      funcIndex := entry.1.index
      paramTypes := funcType.params
      resultTypes := funcType.results
      paramNames := funcType.params.zipIdx.map fun param => paramName contract.nameMap entry.1.index param.1 param.2 }

def parseSection (fuel : ℕ) (current : WasmSection) (contract : ParsedContract) : Walk WasmError ParsedContract :=
  if current.id = some 7 then do
    let exports ← parseExportSection replaceInvalid current.data
    pure { contract with exports }
  else if current.id = some 1 then do
    let types ← parseTypeSection current.data
    pure { contract with types }
  else if current.id = some 0 ∧ current.name = "name".toList then do
    let nameMap ← parseNameSection replaceInvalid fuel current.data
    pure { contract with nameMap }
  else pure contract

def parseSections (fuel : ℕ) : List WasmSection → ParsedContract → Walk WasmError ParsedContract
  | [], contract => pure contract
  | current :: rest, contract => do
    let contract ← parseSection replaceInvalid fuel current contract
    parseSections fuel rest contract

/-- The fuel bounds the turns of each loop that nothing else bounds. -/
def parseContractWasm (fuel : ℕ) (buffer : List UInt8) : Walk WasmError ParsedContract :=
  if maxModuleSize < buffer.length then .thrown (.moduleSize buffer.length)
  else do
    let (wasmModule, offset) ← parseModuleHeader buffer
    let sections ← walkSections replaceInvalid buffer fuel offset
    let contract ← parseSections replaceInvalid fuel sections { wasmModule := { wasmModule with sections } }
    pure { contract with exportedFunctions := exportedFunctions contract }

end Contract

end CrashLab.WasmParse
