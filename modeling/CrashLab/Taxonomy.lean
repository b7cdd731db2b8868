import CrashLab.Seeds

namespace CrashLab.Taxonomy

inductive FailureClass where
  | auth
  | budget
  | state
  | xdr
  | invalidEnumTag
  | emptyInput
  | oversizedInput
  | unknown
  | timeout
  | internalPanic
  | rpcTransport
  | rpcRateLimited
  | rpcSequence
  | rpcResource
  | rpcContract
  | rpcNotFound
  | budgetExhaustedCpu
  | budgetExhaustedMem
  | hostError
  | trapContract
deriving DecidableEq, Repr

namespace FailureClass

def asStr : FailureClass → String
  | auth => "auth"
  | budget => "budget"
  | state => "state"
  | xdr => "xdr"
  | invalidEnumTag => "invalid-enum-tag"
  | emptyInput => "empty-input"
  | oversizedInput => "oversized-input"
  | unknown => "unknown"
  | timeout => "timeout"
  | internalPanic => "internal-panic"
  | rpcTransport => "rpc-transport"
  | rpcRateLimited => "rpc-rate-limited"
  | rpcSequence => "rpc-sequence"
  | rpcResource => "rpc-resource"
  | rpcContract => "rpc-contract"
  | rpcNotFound => "rpc-not-found"
  | budgetExhaustedCpu => "budget_exhausted_cpu"
  | budgetExhaustedMem => "budget_exhausted_mem"
  | hostError => "host_error"
  | trapContract => "trap_contract"

def fromCategoryLabel : String → Option FailureClass
  | "auth" => some auth
  | "budget" => some budget
  | "state" => some state
  | "xdr" => some xdr
  | "invalid-enum-tag" => some invalidEnumTag
  | "empty-input" => some emptyInput
  | "oversized-input" => some oversizedInput
  | "unknown" => some unknown
  | "timeout" => some timeout
  | "internal-panic" => some internalPanic
  | "rpc-transport" => some rpcTransport
  | "rpc-rate-limited" => some rpcRateLimited
  | "rpc-sequence" => some rpcSequence
  | "rpc-resource" => some rpcResource
  | "rpc-contract" => some rpcContract
  | "rpc-not-found" => some rpcNotFound
  | "budget_exhausted_cpu" => some budgetExhaustedCpu
  | "budget_exhausted_mem" => some budgetExhaustedMem
  | "host_error" => some hostError
  | "trap_contract" => some trapContract
  | _ => none

@[simp] theorem fromCategoryLabel_asStr (c : FailureClass) : fromCategoryLabel c.asStr = some c := by
  cases c <;> rfl

instance : Ord FailureClass := ⟨compareOn (·.ctorIdx)⟩

instance : Std.TransOrd FailureClass := inferInstanceAs (Std.TransCmp (compareOn _))

instance : Std.LawfulEqOrd FailureClass where
  eq_of_compare {c d} h := by
    have hidx : compare c.ctorIdx d.ctorIdx = .eq := h
    rw [Std.LawfulEqOrd.compare_eq_iff_eq] at hidx
    cases c <;> cases d <;> first | rfl | exact absurd hidx (by decide)

end FailureClass

def enumMarker : UInt8 := 0xE0

def validTags : List UInt8 := [0x00, 0x01, 0x02, 0x03]

def invalidTags : List UInt8 := [0x7F, 0x80, 0xFE, 0xFF]

def isInvalidEnumTagPayload : List UInt8 → Bool
  | marker :: tag :: _ => marker == enumMarker && !validTags.contains tag
  | _ => false

def classifyFailure (seed : CaseSeed) : FailureClass :=
  match seed.payload with
  | [] => .emptyInput
  | first :: _ =>
    if 64 < seed.payload.length then .oversizedInput
    else if isInvalidEnumTagPayload seed.payload then .invalidEnumTag
    else if first ≤ 0x1F then .xdr
    else if first ≤ 0x5F then .state
    else if first ≤ 0x9F then .budget
    else .auth

end CrashLab.Taxonomy
