import CrashLab.Seeds

namespace CrashLab.SignatureHash

def fnvOffset : ℕ := 14695981039346656037

def fnvPrime : ℕ := 1099511628211

def fieldSep : UInt8 := 0x1E

def fnv1aByte (hash : ℕ) (byte : UInt8) : ℕ := (hash ^^^ byte.toNat) * fnvPrime % 2 ^ 64

def asBytes (s : String) : List UInt8 := s.toUTF8.data.toList

def hexDigit (n : ℕ) : Char := "0123456789abcdef".toList.getD n '0'

def hexEncode (bytes : List UInt8) : String :=
  String.ofList (bytes.flatMap fun b => [hexDigit (b.toNat / 16), hexDigit (b.toNat % 16)])

structure SignatureHasher where
  categoryStack : List String
  fields : List (String × String)
deriving DecidableEq, Repr

namespace SignatureHasher

def new : SignatureHasher := ⟨[], []⟩

def pushCategory (h : SignatureHasher) (category : String) : SignatureHasher :=
  { h with categoryStack := h.categoryStack ++ [category] }

def insertField (key value : String) : List (String × String) → List (String × String)
  | [] => [(key, value)]
  | field :: fields =>
    if key < field.1 then (key, value) :: field :: fields
    else if key = field.1 then (key, value) :: fields
    else field :: insertField key value fields

def addField (h : SignatureHasher) (key value : String) : SignatureHasher :=
  { h with fields := insertField key value h.fields }

def preimage (h : SignatureHasher) : List UInt8 :=
  [fieldSep].intercalate (h.categoryStack.map asBytes) ++ [fieldSep] ++
    [fieldSep].intercalate (h.fields.map fun field => asBytes field.1 ++ [fieldSep] ++ asBytes field.2)

def finish (h : SignatureHasher) : ℕ := h.preimage.foldl fnv1aByte fnvOffset

end SignatureHasher

def hashCategoryPayload (category : String) (payload : List UInt8) : ℕ :=
  let hasher := SignatureHasher.new.pushCategory category
  (hasher.addField "__payload__" (hexEncode payload)).finish

def computeSignatureHash (category : String) (payload : List UInt8) : ℕ :=
  hashCategoryPayload category payload

def hashNormalizedSignature (category normalized : String) : ℕ :=
  let hasher := SignatureHasher.new.pushCategory category
  (hasher.addField "__normalized__" normalized).finish

def hex16 (hash : ℕ) : String :=
  String.ofList ((List.range 16).reverse.map fun i => hexDigit (hash / 16 ^ i % 16))

end CrashLab.SignatureHash
