import Mathlib.Tactic

namespace CrashLab

structure CaseSeed where
  id : ℕ
  payload : List UInt8
deriving DecidableEq, Repr

structure CrashSignature where
  category : String
  digest : ℕ
  signatureHash : ℕ
deriving DecidableEq, Repr

end CrashLab
