import CrashLab.MachineInts
import CrashLab.ScVal
import CrashLab.SignatureHash
import CrashLab.Splices
import CrashLab.Taxonomy

namespace CrashLab

namespace Havoc

open MachineInts ScVal SignatureHash Splices Taxonomy

inductive HavocOp where
  | byteFlip
  | blockCopy
  | blockInsert
  | blockDelete
  | chunkRepeat
  | xdrTagFlip
  | scvalMutate
deriving DecidableEq, Repr

structure HavocConfig where
  minLen : ℕ
  maxLen : ℕ
  maxGrowth : ℕ
  weightByteFlip : ℕ
  weightBlockCopy : ℕ
  weightBlockInsert : ℕ
  weightBlockDelete : ℕ
  weightChunkRepeat : ℕ
  weightXdrTagFlip : ℕ
  weightScvalMutate : ℕ
deriving DecidableEq, Repr

namespace HavocConfig

def default : HavocConfig where
  minLen := 1
  maxLen := 4096
  maxGrowth := 32
  weightByteFlip := 20
  weightBlockCopy := 15
  weightBlockInsert := 15
  weightBlockDelete := 15
  weightChunkRepeat := 15
  weightXdrTagFlip := 20
  weightScvalMutate := 30

def totalWeight (config : HavocConfig) : ℕ :=
  config.weightByteFlip + config.weightBlockCopy + config.weightBlockInsert + config.weightBlockDelete +
    config.weightChunkRepeat + config.weightXdrTagFlip + config.weightScvalMutate

end HavocConfig

/-- `rng_state: &mut u64`. -/
abbrev Rng (α : Type) := StateM UInt64 α

def nextU64 : Rng UInt64 := do
  modify (· + goldenGamma)
  return mix (← get)

def nextUsize : Rng ℕ := return (← nextU64).toNat

/-- `next_usize(rng_state) % n`. -/
def nextIndex (n : ℕ) : Rng ℕ := return (← nextUsize) % n

/-- `(next_u64(rng_state) & 1) == 1`. -/
def nextBit : Rng Bool := return (← nextU64) &&& 1 == 1

def nextRange (min max : ℕ) : Rng ℕ :=
  if max ≤ min then return min else return min + (← nextIndex (max - min + 1))

def nextByte : Rng UInt8 := return ((← nextU64) >>> 56).toUInt8

def nextBytes : ℕ → Rng (List UInt8)
  | 0 => return []
  | n + 1 => do
    let b ← nextByte
    let bs ← nextBytes n
    return b :: bs

def opFor (config : HavocConfig) (pick : ℕ) : HavocOp :=
  let acc := config.weightByteFlip
  if pick < acc then .byteFlip else
  let acc := acc + config.weightBlockCopy
  if pick < acc then .blockCopy else
  let acc := acc + config.weightBlockInsert
  if pick < acc then .blockInsert else
  let acc := acc + config.weightBlockDelete
  if pick < acc then .blockDelete else
  let acc := acc + config.weightChunkRepeat
  if pick < acc then .chunkRepeat else
  let acc := acc + config.weightXdrTagFlip
  if pick < acc then .xdrTagFlip else .scvalMutate

def selectOp (config : HavocConfig) : Rng HavocOp :=
  if config.totalWeight = 0 then return .byteFlip
  else return opFor config (← nextIndex config.totalWeight)

/-- What an operation does to the payload in the end: one edit of the vector `base`, which is the payload
itself but for a block copied before. -/
structure Edit where
  base : List UInt8
  splice : Splice UInt8
deriving DecidableEq, Repr

namespace Edit

def run (edit : Edit) : List UInt8 := edit.splice.run edit.base

def Inside (edit : Edit) : Prop := edit.splice.Inside edit.base

end Edit

section Operations

open Splice

variable (payload : List UInt8) (config : HavocConfig)

def flippedByte (old : UInt8) : Rng UInt8 := do
  match ← nextIndex 4 with
  | 0 =>
    let bit ← nextIndex 8
    return old ^^^ (1 <<< UInt8.ofNat bit)
  | 1 => return old ^^^ 0xFF
  | 2 =>
    let delta : UInt8 := if ← nextBit then 1 else 0xFF
    return old + delta
  | _ =>
    let newB ← nextByte
    return if newB = old then old ^^^ 0xAA else newB

def applyByteFlip : Rng Edit :=
  if payload = [] then return ⟨payload, insertAt 0 [← nextByte]⟩
  else do
    let idx ← nextIndex payload.length
    return ⟨payload, putAt idx (← flippedByte (payload.getD idx 0))⟩

/-- Equal source and target move apart by one where there is room. -/
def copyTarget (len copyLen src dst : ℕ) : ℕ :=
  if src = dst then
    if src + copyLen < len then src + 1 else if 0 < src then src - 1 else dst
  else dst

def copyBlock (copyLen src dst : ℕ) : List UInt8 :=
  (Splice.mk dst copyLen ((payload.drop src).take copyLen)).run payload

def applyBlockCopy : Rng Edit :=
  if payload.length < 2 then applyByteFlip payload
  else do
    let maxLen := max (min (payload.length / 2) config.maxGrowth) 1
    let copyLen ← nextRange 1 maxLen
    let src ← nextIndex (payload.length - copyLen + 1)
    let dst ← nextIndex (payload.length - copyLen + 1)
    let dst := copyTarget payload.length copyLen src dst
    applyByteFlip (copyBlock payload copyLen src dst)

def insertedData (insLen : ℕ) : Rng (List UInt8) := do
  if ← nextBit then return List.replicate insLen (← nextByte)
  else nextBytes insLen

def insertPosition : Rng ℕ := if payload = [] then return 0 else nextIndex (payload.length + 1)

def applyBlockInsert : Rng Edit :=
  if config.maxLen ≤ payload.length then applyByteFlip payload
  else do
    let room := config.maxLen - payload.length
    let insLen ← nextRange 1 (min room config.maxGrowth)
    let pos ← insertPosition payload
    return ⟨payload, insertAt pos (← insertedData insLen)⟩

def applyBlockDelete : Rng Edit :=
  if payload.length ≤ config.minLen then applyBlockInsert payload config
  else do
    let excess := payload.length - config.minLen
    let delLen ← nextRange 1 (min excess config.maxGrowth)
    let pos ← nextIndex (payload.length - delLen + 1)
    return ⟨payload, removeAt pos delLen⟩

def applyChunkRepeat : Rng Edit :=
  if payload = [] ∨ config.maxLen ≤ payload.length then applyBlockInsert payload config
  else do
    let room := config.maxLen - payload.length
    let maxChunk := max (min payload.length config.maxGrowth) 1
    let chunkLen ← nextRange 1 maxChunk
    let pos ← nextIndex (payload.length - chunkLen + 1)
    let chunk := (payload.drop pos).take chunkLen
    let maxRepeats := max (min (room / chunkLen) 4) 1
    let count ← nextRange 1 maxRepeats
    return ⟨payload, insertAt (pos + chunkLen) (List.replicate count chunk).flatten⟩

def drawTag (tags : List UInt8) : Rng UInt8 := return tags.getD (← nextIndex tags.length) 0

def otherValidTag (currentTag : UInt8) : Rng UInt8 := do
  let idx ← nextIndex validTags.length
  let idx := if validTags.getD idx 0 = currentTag then (idx + 1) % validTags.length else idx
  return validTags.getD idx 0

def flippedTag (currentTag : UInt8) : Rng UInt8 := do
  if ← nextBit then drawTag invalidTags else otherValidTag currentTag

def flipTag (pos : ℕ) : Rng Edit := return ⟨payload, putAt (pos + 1) (← flippedTag (payload.getD (pos + 1) 0))⟩

def insertedTag : Rng UInt8 := do
  if ← nextBit then drawTag invalidTags else drawTag validTags

def insertTag : Rng Edit := do
  let tag ← insertedTag
  if payload.length + 2 ≤ config.maxLen then
    let insertPos ← insertPosition payload
    return ⟨payload, insertAt insertPos [enumMarker, tag]⟩
  else if 2 ≤ payload.length then return ⟨payload, ⟨0, 2, [enumMarker, tag]⟩⟩
  else return ⟨payload, ⟨0, payload.length, [enumMarker, tag]⟩⟩

def markedTag : Option ℕ :=
  match payload.findIdx? (· == enumMarker) with
  | some pos => if pos + 1 < payload.length then some pos else none
  | none => none

def applyXdrTagFlip : Rng Edit :=
  match markedTag payload with
  | some pos => flipTag payload pos
  | none => insertTag payload config

def applyScvalMutate : Rng Edit := do
  let (mutated, rngState) := mutateXdrPayload payload ⟨config.maxLen, config.maxGrowth⟩ (← get)
  set rngState
  match mutated with
  | .ok mutated => return ⟨payload, ⟨0, payload.length, mutated⟩⟩
  | .error _ => applyByteFlip payload

def applyOp (op : HavocOp) : Rng Edit :=
  match op with
  | .byteFlip => applyByteFlip payload
  | .blockCopy => applyBlockCopy payload config
  | .blockInsert => applyBlockInsert payload config
  | .blockDelete => applyBlockDelete payload config
  | .chunkRepeat => applyChunkRepeat payload config
  | .xdrTagFlip => applyXdrTagFlip payload config
  | .scvalMutate => applyScvalMutate payload config

def enforceBounds : Rng (List UInt8) :=
  if payload.length < config.minLen then return payload ++ (← nextBytes (config.minLen - payload.length))
  else if config.maxLen < payload.length then return payload.take config.maxLen
  else return payload

def applySpecificOp (op : HavocOp) : Rng (List UInt8) := do
  let edit ← applyOp payload config op
  enforceBounds edit.run config

def applyHavocMutation : Rng (List UInt8 × HavocOp) := do
  let op ← selectOp config
  let payload ← applySpecificOp payload config op
  return (payload, op)

end Operations

def deriveSeedState (seed : CaseSeed) : UInt64 :=
  let hash := (toLeBytes seed.id ++ seed.payload).foldl fnv1aByte fnvOffset
  mix (UInt64.ofNat hash + goldenGamma)

end Havoc

open Havoc in
def mutateSeed (seed : CaseSeed) : CaseSeed where
  id := seed.id
  payload := (applyHavocMutation seed.payload .default (deriveSeedState seed)).1.1

end CrashLab
