import CrashLab.BitGroups
import CrashLab.Digest
import CrashLab.ShiftRegisters

namespace CrashLab.StellarAddress

open BitGroups SignatureHash ShiftRegisters

inductive AddressType where
  | account
  | contract
  | muxed
deriving DecidableEq, Repr

def AddressType.char : AddressType → Char
  | .account => 'G'
  | .contract => 'C'
  | .muxed => 'M'

def AddressType.validLength : AddressType → ℕ
  | .account => 56
  | .contract => 56
  | .muxed => 69

/-- `[u8; 32]`. -/
structure Bytes32 where
  bytes : List UInt8
  length_eq : bytes.length = 32
deriving DecidableEq, Repr

def base32Alphabet : List Char := "ABCDEFGHIJKLMNOPQRSTUVWXYZ234567".toList

def base32Digit (n : ℕ) : Char := base32Alphabet.getD n 'A'

def base32Value (b : UInt8) : Option UInt8 :=
  if 0x41 ≤ b ∧ b ≤ 0x5A then some (b - 0x41)
  else if 0x32 ≤ b ∧ b ≤ 0x37 then some (b - 0x32 + 26)
  else none

section Extract

def typeOf (b : UInt8) : Option AddressType :=
  if b = 0x47 then some .account else if b = 0x43 then some .contract else if b = 0x4D then some .muxed else none

def collectKey (win : Window) (out : List UInt8) : List UInt8 → Option (List UInt8)
  | [] => some out
  | b :: rest => do
    let v ← base32Value b
    let win := win.push 5 v.toNat
    if 8 ≤ win.bits then
      let out := out ++ [UInt8.ofNat (win.top 8)]
      if out.length = 32 then some out else collectKey (win.pop 8) out rest
    else collectKey win out rest

def extractKeyBytes (addr : String) : Option Bytes32 :=
  match asBytes addr with
  | [] => none
  | first :: rest => do
    let addrType ← typeOf first
    if (first :: rest).length ≠ addrType.validLength then none
    else
      let out ← collectKey .empty [] rest
      if h : out.length = 32 then some ⟨out, h⟩ else none

end Extract

section Encode

def crcOf (key : Bytes32) : ℕ := feedAll 0xEDB88320 8 UInt8.toNat 0xFFFFFFFF key.bytes

/-- `u32::to_le_bytes`. -/
def crcBytes (crc : ℕ) : List ℕ := (List.range 4).map fun i => crc / 256 ^ i % 256

def padding (win : Window) : List ℕ :=
  if 0 < win.bits then [((win.acc <<< (5 - win.bits)) % 2 ^ 32) &&& 0x1F] else []

def payloadGroups (key : Bytes32) : List ℕ :=
  let (body, win) := Window.regroup 8 5 .empty (key.bytes.map UInt8.toNat)
  let (crc, _) := Window.regroup 8 5 win (crcBytes (crcOf key))
  body ++ padding win ++ crc

def encodeChars (key : Bytes32) (addrType : AddressType) : List Char :=
  let result := addrType.char :: (payloadGroups key).map base32Digit
  (result ++ List.replicate (addrType.validLength - result.length) 'A').take addrType.validLength

def encodeKeyBytes (key : Bytes32) (addrType : AddressType) : String := String.ofList (encodeChars key addrType)

def swapAddressType (addr : String) (target : AddressType) : Option String := do
  let key ← extractKeyBytes addr
  return encodeKeyBytes key target

end Encode

end CrashLab.StellarAddress
