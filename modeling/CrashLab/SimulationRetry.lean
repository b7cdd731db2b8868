import Mathlib.Tactic

namespace CrashLab.Retry

inductive SimulationError where
  | transient (message : String)
  | nonTransient (message : String)
deriving DecidableEq, Repr

def SimulationError.isTransient : SimulationError → Bool
  | transient _ => true
  | nonTransient _ => false

/-- The delays of the source only say how long a retry sleeps. -/
structure RetryConfig where
  maxAttempts : ℕ
deriving DecidableEq, Repr

def RetryConfig.default : RetryConfig := ⟨3⟩

abbrev Call (σ α : Type) := σ → Except SimulationError α × σ

variable {σ α : Type}

/-- `retries` is how often `attempt + 1 < max_attempts` holds from here on. -/
def retryLoop (f : Call σ α) : ℕ → ℕ → σ → (Except SimulationError α × ℕ) × σ
  | 0, calls, s =>
    let (result, s) := f s
    ((result, calls + 1), s)
  | retries + 1, calls, s =>
    match f s with
    | (.ok val, s) => ((.ok val, calls + 1), s)
    | (.error e, s) =>
      if e.isTransient then retryLoop f retries (calls + 1) s else ((.error e, calls + 1), s)

def executeWithRetryCounting (config : RetryConfig) (f : Call σ α) (s : σ) :
    (Except SimulationError α × ℕ) × σ := retryLoop f (config.maxAttempts - 1) 0 s

def executeWithRetry (config : RetryConfig) (f : Call σ α) : Call σ α := fun s =>
  let ((result, _), s) := executeWithRetryCounting config f s
  (result, s)

theorem retryLoop_of_ok {f : Call σ α} {s t : σ} {val : α} (h : f s = (.ok val, t))
    (retries calls : ℕ) : retryLoop f retries calls s = ((.ok val, calls + 1), t) := by
  cases retries <;> simp [retryLoop, h]

theorem executeWithRetry_of_ok (config : RetryConfig) {f : Call σ α} {s t : σ} {val : α}
    (h : f s = (.ok val, t)) : executeWithRetry config f s = (.ok val, t) := by
  simp only [executeWithRetry, executeWithRetryCounting, retryLoop_of_ok h]

end CrashLab.Retry
