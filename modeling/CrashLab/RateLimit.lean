import CrashLab.Histories
import CrashLab.JsStrings

namespace CrashLab.RateLimit

open JsStrings Histories

section FixedWindow

structure FixedWindowOptions where
  limit : ℕ
  windowMs : ℕ
  windowMs_pos : 0 < windowMs

structure FixedWindowDecision where
  allowed : Bool
  remaining : ℕ
  retryAfterSeconds : ℤ
deriving DecidableEq, Repr

structure Bucket where
  count : ℕ
  resetAt : ℤ
deriving DecidableEq, Repr

abbrev Buckets := JsString → Option Bucket

def Bucket.isLive (now : ℤ) (bucket : Bucket) : Bool := now < bucket.resetAt

def openBucket (options : FixedWindowOptions) (now : ℤ) (key : JsString) (buckets : Buckets) : Bucket × Buckets :=
  match (buckets key).filter (Bucket.isLive now) with
  | some bucket => (bucket, buckets)
  | none => ({ count := 0, resetAt := now + options.windowMs }, fun k => (buckets k).filter (Bucket.isLive now))

/-- `Math.ceil(ms / 1000)`. -/
def ceilSeconds (ms : ℤ) : ℤ := -(-ms / 1000)

def decideOn (options : FixedWindowOptions) (now : ℤ) (bucket : Bucket) : FixedWindowDecision :=
  let allowed := decide (bucket.count ≤ options.limit)
  { allowed
    remaining := options.limit - bucket.count
    retryAfterSeconds := max (ceilSeconds (bucket.resetAt - now)) (if allowed then 0 else 1) }

def take (options : FixedWindowOptions) (now : ℤ) (key : JsString) (buckets : Buckets) :
    FixedWindowDecision × Buckets :=
  let (bucket, buckets) := openBucket options now key buckets
  let bucket := { bucket with count := bucket.count + 1 }
  (decideOn options now bucket, Function.update buckets key (some bucket))

end FixedWindow

section Classes

inductive RouteClass where
  | default
  | auth
  | fuzzTrigger
  | artifactUpload
  | replay
deriving DecidableEq, Repr

structure RateLimitPolicy extends FixedWindowOptions where
  cost : ℕ

def policyOf (limit cost : ℕ) : RateLimitPolicy := { limit, windowMs := 60000, windowMs_pos := by decide, cost }

def rateLimitPolicies : RouteClass → RateLimitPolicy
  | .default => policyOf 300 1
  | .auth => policyOf 20 1
  | .fuzzTrigger => policyOf 30 2
  | .artifactUpload => policyOf 60 3
  | .replay => policyOf 30 2

structure RouteClassRule where
  methods : List JsString
  pattern : JsString → Bool
  className : RouteClass

def startsWith (front : String) (pathname : JsString) : Bool := (ofString front).isPrefixOf pathname

def aroundSegment (front back : String) (pathname : JsString) : Bool :=
  let rest := pathname.drop (ofString front).length
  let segment := rest.take (rest.length - (ofString back).length)
  startsWith front pathname && (ofString back).isSuffixOf rest && !segment.isEmpty &&
    segment.all (fun u => !(ofString "/").contains u)

def routeClassRules : List RouteClassRule :=
  [⟨[ofString "POST", ofString "GET"], startsWith "/api/auth/", .auth⟩,
    ⟨[ofString "POST"], fun pathname => pathname = ofString "/api/runs", .fuzzTrigger⟩,
    ⟨[ofString "POST"], aroundSegment "/api/runs/" "/replay", .fuzzTrigger⟩,
    ⟨[ofString "POST"], startsWith "/api/campaigns", .fuzzTrigger⟩,
    ⟨[ofString "POST"], aroundSegment "/api/runs/" "/issues", .replay⟩,
    ⟨[ofString "POST", ofString "PUT"], startsWith "/api/artifacts", .artifactUpload⟩,
    ⟨[ofString "POST"], startsWith "/api/uploadthing", .artifactUpload⟩]

def resolveRouteClass (toUpperCase : JsString → JsString) (method pathname : JsString) : RouteClass :=
  match routeClassRules.find? fun rule => rule.methods.contains (toUpperCase method) && rule.pattern pathname with
  | some rule => rule.className
  | none => .default

end Classes

section Principals

structure Limiters where
  options : RouteClass → FixedWindowOptions
  buckets : RouteClass → Buckets

def Limiters.create (policies : RouteClass → RateLimitPolicy) : Limiters where
  options className := (policies className).toFixedWindowOptions
  buckets _ _ := none

structure PrincipalRateLimitDecision where
  allowed : Bool
  policyClass : RouteClass
  remaining : ℕ
  resetAtMs : ℤ
  retryAfterSeconds : ℤ
  principalSubject : JsString
deriving DecidableEq, Repr

/-- The first `take` and the extra ones of a cost; the last one decides. -/
def takeTimes (options : FixedWindowOptions) (now : ℤ) (key : JsString) : ℕ → Buckets → FixedWindowDecision × Buckets
  | 0, buckets => take options now key buckets
  | extra + 1, buckets => take options now key (takeTimes options now key extra buckets).2

def applyPrincipalRateLimit (toUpperCase : JsString → JsString) (policies : RouteClass → RateLimitPolicy)
    (limiters : Limiters) (principalSubject method pathname : JsString) (now : ℤ) :
    PrincipalRateLimitDecision × Limiters :=
  let className := resolveRouteClass toUpperCase method pathname
  let (decision, buckets) := takeTimes (limiters.options className) now principalSubject
    ((policies className).cost - 1) (limiters.buckets className)
  ({ allowed := decision.allowed
     policyClass := className
     remaining := decision.remaining
     resetAtMs := now + decision.retryAfterSeconds * 1000
     retryAfterSeconds := decision.retryAfterSeconds
     principalSubject },
    { limiters with buckets := Function.update limiters.buckets className buckets })

end Principals

section Traffic

structure RateCall where
  policies : RouteClass → RateLimitPolicy
  principalSubject : JsString
  method : JsString
  pathname : JsString
  now : ℤ

structure Admission where
  principalSubject : JsString
  className : RouteClass
  cost : ℕ
  now : ℤ
deriving DecidableEq, Repr

structure Traffic where
  limiters : Limiters
  admitted : List Admission

variable (toUpperCase : JsString → JsString)

def RateCall.className (call : RateCall) : RouteClass := resolveRouteClass toUpperCase call.method call.pathname

def RateCall.cost (call : RateCall) : ℕ := (call.policies (call.className toUpperCase)).cost

def RateCall.admission (call : RateCall) : Admission where
  principalSubject := call.principalSubject
  className := call.className toUpperCase
  cost := call.cost toUpperCase
  now := call.now

def Traffic.start (policies : RouteClass → RateLimitPolicy) : Traffic := { limiters := .create policies, admitted := [] }

def Traffic.step (traffic : Traffic) (call : RateCall) : Traffic :=
  let (decision, limiters) := applyPrincipalRateLimit toUpperCase call.policies traffic.limiters
    call.principalSubject call.method call.pathname call.now
  { limiters
    admitted := if decision.allowed then traffic.admitted ++ [call.admission toUpperCase] else traffic.admitted }

end Traffic

end CrashLab.RateLimit
