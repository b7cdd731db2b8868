import CrashLab.Cursor

namespace CrashLab.ScVal

open Cursor

def maxMutationDepth : ℕ := 8

/-- `[u8; 16]`. -/
structure Bytes16 where
  bytes : List UInt8
  length_eq : bytes.length = 16
deriving DecidableEq, Repr

inductive ScValNode where
  | void
  | bool (v : Bool)
  | u32 (v : UInt32)
  | i32 (v : Int32)
  | u64 (v : UInt64)
  | i64 (v : Int64)
  | timePoint (v : UInt64)
  | duration (v : UInt64)
  | u128 (b : Bytes16)
  | i128 (b : Bytes16)
  | bytes (data : List UInt8)
  | string (data : List UInt8)
  | symbol (data : List UInt8)
  | vec (items : List ScValNode)
  | map (entries : List (ScValNode × ScValNode))
  | opaque_ (rest : List UInt8)

inductive ScValDecodeError where
  | decode (message : String)
  | encode (message : String)
deriving DecidableEq, Repr

def scvVoid : UInt32 := 0
def scvBool : UInt32 := 1
def scvU32 : UInt32 := 2
def scvI32 : UInt32 := 3
def scvU64 : UInt32 := 4
def scvI64 : UInt32 := 5
def scvTimePoint : UInt32 := 6
def scvDuration : UInt32 := 7
def scvU128 : UInt32 := 14
def scvI128 : UInt32 := 15
def scvBytes : UInt32 := 18
def scvString : UInt32 := 20
def scvSymbol : UInt32 := 21
def scvVec : UInt32 := 22
def scvMap : UInt32 := 23

section Decode

variable (bytes : List UInt8)

def readFixed (n : ℕ) : Reader ScValDecodeError (List UInt8) := do
  let pos ← get
  if bytes.length < pos + n then throw (.reject (.decode "unexpected end of input"))
  let v ← slice bytes pos (pos + n)
  set (pos + n)
  return v

def readU32 : Reader ScValDecodeError UInt32 := do
  let buf ← readFixed bytes 4
  return UInt32.ofNat (beValue buf)

def readU64 : Reader ScValDecodeError UInt64 := do
  let buf ← readFixed bytes 8
  return UInt64.ofNat (beValue buf)

/-- `copy_from_slice` into an array of 16 bytes. -/
def copyArray (b : List UInt8) : Reader ScValDecodeError Bytes16 :=
  if h : b.length = 16 then pure ⟨b, h⟩ else throw .outOfRange

def padding (len : ℕ) : ℕ := (4 - len % 4) % 4

def readBytes : Reader ScValDecodeError (List UInt8) := do
  let len ← readU32 bytes
  let data ← readFixed bytes len.toNat
  modify (· + padding len.toNat)
  return data

def readOpaque : Reader ScValDecodeError (List UInt8) := do
  let pos ← get
  let rest ← slice bytes pos bytes.length
  set bytes.length
  return rest

def readArray : Reader ScValDecodeError Bytes16 := do
  let b ← readFixed bytes 16
  copyArray b

def readEntry (read : Reader ScValDecodeError ScValNode) : Reader ScValDecodeError (ScValNode × ScValNode) := do
  let key ← read
  let val ← read
  return (key, val)

def decodeVariant (child : Reader ScValDecodeError ScValNode) (tag : UInt32) :
    Reader ScValDecodeError ScValNode :=
  if tag = scvVoid then return .void
  else if tag = scvBool then return .bool ((← readU32 bytes) != 0)
  else if tag = scvU32 then return .u32 (← readU32 bytes)
  else if tag = scvI32 then return .i32 (← readU32 bytes).toInt32
  else if tag = scvU64 then return .u64 (← readU64 bytes)
  else if tag = scvI64 then return .i64 (← readU64 bytes).toInt64
  else if tag = scvTimePoint then return .timePoint (← readU64 bytes)
  else if tag = scvDuration then return .duration (← readU64 bytes)
  else if tag = scvU128 then return .u128 (← readArray bytes)
  else if tag = scvI128 then return .i128 (← readArray bytes)
  else if tag = scvBytes then return .bytes (← readBytes bytes)
  else if tag = scvString then return .string (← readBytes bytes)
  else if tag = scvSymbol then return .symbol (← readBytes bytes)
  else if tag = scvVec then do
    let count ← readU32 bytes
    return .vec (← repeatRead child count.toNat)
  else if tag = scvMap then do
    let count ← readU32 bytes
    return .map (← repeatRead (readEntry child) count.toNat)
  else return .opaque_ (← readOpaque bytes)

/-- `levels` counts the depths left, from `maxMutationDepth + 1` at the root. -/
def decodeNode : ℕ → Reader ScValDecodeError ScValNode
  | 0 => throw (.reject (.decode "max depth exceeded"))
  | levels + 1 => do
    let tag ← readU32 bytes
    decodeVariant bytes (decodeNode levels) tag

def decodeFrom : Reader ScValDecodeError ScValNode := decodeNode bytes (maxMutationDepth + 1)

def decode : Except (Fault ScValDecodeError) ScValNode :=
  if bytes = [] then .error (.reject (.decode "empty payload"))
  else (decodeFrom bytes 0).map (·.1)

end Decode

section Encode

def writeU32 (v : UInt32) : List UInt8 := beBytes 4 v.toNat

def writeU64 (v : UInt64) : List UInt8 := beBytes 8 v.toNat

def writeBytes (data : List UInt8) : List UInt8 :=
  writeU32 (UInt32.ofNat data.length) ++ data ++ List.replicate (padding data.length) 0

mutual

def encodeNode : ScValNode → List UInt8
  | .void => writeU32 scvVoid
  | .bool v => writeU32 scvBool ++ writeU32 (if v then 1 else 0)
  | .u32 v => writeU32 scvU32 ++ writeU32 v
  | .i32 v => writeU32 scvI32 ++ writeU32 v.toUInt32
  | .u64 v => writeU32 scvU64 ++ writeU64 v
  | .i64 v => writeU32 scvI64 ++ writeU64 v.toUInt64
  | .timePoint v => writeU32 scvTimePoint ++ writeU64 v
  | .duration v => writeU32 scvDuration ++ writeU64 v
  | .u128 b => writeU32 scvU128 ++ b.bytes
  | .i128 b => writeU32 scvI128 ++ b.bytes
  | .bytes data => writeU32 scvBytes ++ writeBytes data
  | .string data => writeU32 scvString ++ writeBytes data
  | .symbol data => writeU32 scvSymbol ++ writeBytes data
  | .vec items => writeU32 scvVec ++ (writeU32 (UInt32.ofNat items.length) ++ encodeItems items)
  | .map entries => writeU32 scvMap ++ (writeU32 (UInt32.ofNat entries.length) ++ encodeEntries entries)
  | .opaque_ rest => rest

def encodeItems : List ScValNode → List UInt8
  | [] => []
  | item :: items => encodeNode item ++ encodeItems items

def encodeEntries : List (ScValNode × ScValNode) → List UInt8
  | [] => []
  | (key, val) :: entries => encodeNode key ++ encodeNode val ++ encodeEntries entries

end

def encode (node : ScValNode) : Except ScValDecodeError (List UInt8) := .ok (encodeNode node)

end Encode

end CrashLab.ScVal

namespace CrashLab.ScVal

def goldenGamma : UInt64 := 0x9E3779B97F4A7C15

def mix (state : UInt64) : UInt64 :=
  let z := (state ^^^ (state >>> 30)) * 0xBF58476D1CE4E5B9
  let z := (z ^^^ (z >>> 27)) * 0x94D049BB133111EB
  z ^^^ (z >>> 31)

def advanceRng (state : UInt64) : UInt64 := mix (state + goldenGamma)

structure ScValMutatorConfig where
  maxLen : ℕ
  maxGrowth : ℕ
deriving DecidableEq, Repr

def bumpLast (data : List UInt8) : List UInt8 := data.modify (data.length - 1) (· + 1)

def Bytes16.modifyFirst (f : UInt8 → UInt8) (b : Bytes16) : Bytes16 :=
  ⟨b.bytes.modifyHead f, by rw [List.length_modifyHead, b.length_eq]⟩

def mutateNode (seed : UInt64) : ScValNode → ScValNode
  | .bool v => .bool (!v)
  | .u32 v => .u32 (v + 1)
  | .i32 v => .i32 (v - 1)
  | .u64 v => .u64 (v + seed)
  | .i64 v => .i64 (v - seed.toInt64)
  | .timePoint v => .timePoint (v + 1)
  | .duration v => .duration (v + 1)
  | .u128 b => .u128 (b.modifyFirst (· + 1))
  | .i128 b => .i128 (b.modifyFirst (· - 1))
  | .bytes data => .bytes (bumpLast data)
  | .string data => .string (bumpLast data)
  | .symbol data => .symbol (bumpLast data)
  | .vec (first :: items) => .vec (mutateNode seed first :: items)
  | .map ((key, val) :: entries) => .map ((key, mutateNode seed val) :: entries)
  | .vec [] => .vec []
  | .map [] => .map []
  | .opaque_ rest => .opaque_ rest
  | .void => .void

def byteFlip (payload : List UInt8) (rng : UInt64) : List UInt8 :=
  if payload = [] then [rng.toUInt8] else payload.modify (rng.toNat % payload.length) (· + 1)

def mutateXdrPayload (payload : List UInt8) (config : ScValMutatorConfig) (rng : UInt64) :
    Except ScValDecodeError (List UInt8) × UInt64 :=
  let rng := advanceRng rng
  match decode payload with
  | .ok node =>
    match encode (mutateNode rng node) with
    | .ok encoded =>
      if encoded.length ≤ max config.maxLen (payload.length + config.maxGrowth) then (.ok encoded, rng)
      else (.ok (byteFlip payload rng), rng)
    | .error e => (.error e, rng)
  | .error _ => (.ok (byteFlip payload rng), rng)

end CrashLab.ScVal
