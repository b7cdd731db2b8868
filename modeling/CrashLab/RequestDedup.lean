import CrashLab.Histories
import CrashLab.JsonTexts

namespace CrashLab.RequestDedup

open JsStrings JsonTexts

section Errors

inductive ErrorKind where
  | http
  | malformed
  | abort
  | timeout
  | network
  | other
deriving DecidableEq, Repr

inductive FetchError (U S : Type) where
  | httpError (status : ℕ)
  | timeoutError (url : U) (timeoutMs : ℕ)
  | networkError (url : U) (cause : FetchError U S)
  | raised (kind : ErrorKind)
  | reason (signal : S) (kind : ErrorKind)

variable {U S : Type}

def FetchError.kind : FetchError U S → ErrorKind
  | httpError _ => .http
  | timeoutError _ _ => .timeout
  | networkError _ _ => .network
  | raised kind => kind
  | reason _ kind => kind

def FetchError.abortedBy : FetchError U S → Option S
  | reason signal _ => some signal
  | networkError _ cause => cause.abortedBy
  | _ => none

def isRetryable (err : FetchError U S) : Bool := err.kind = .timeout || err.kind = .network

end Errors

section Requests

variable {U S : Type}

structure FetchPolicy where
  timeoutMs : ℕ
  maxAttempts : ℕ

def defaultFetchPolicy (apiFetchTimeoutMs : ℕ) : FetchPolicy := { timeoutMs := apiFetchTimeoutMs, maxAttempts := 2 }

/-- A fetch in flight; `combined` is the reason of its signal once that is aborted. -/
structure Attempt (U S : Type) where
  number : ℕ
  responded : Bool := false
  deadlinePassed : Bool := false
  combined : Option (FetchError U S) := none

inductive Phase (U S : Type) where
  | fetching (attempt : Attempt U S)
  | sleeping (number : ℕ)
  | settled (outcome : Except (FetchError U S) Json)

structure Request (U S : Type) where
  url : U
  signal : Option S
  policy : FetchPolicy
  callers : List (Option S)
  phase : Phase U S
  handled : Bool := false
  timer : Bool := false

def aborted (reasons : S → Option ErrorKind) (signal : Option S) : Bool := (signal.bind reasons).isSome

def startAttempt (reasons : S → Option ErrorKind) (signal : Option S) (number : ℕ) : Attempt U S where
  number
  combined := signal.bind fun signal => (reasons signal).map (.reason signal)

/-- `{ data, total }` is unwrapped. -/
def unwrapEnvelope (json : Json) : Json :=
  match json with
  | .object members =>
    match json.get (ofString "data") with
    | none => json
    | some (.object data) =>
      match Json.get (ofString "total") (.object members), Json.get (ofString "total") (.object data) with
      | some total, none => .object (data ++ [(ofString "total", total)])
      | _, _ => .object data
    | some data => data
  | _ => json

/-- The `catch` block of an attempt. -/
def catchError (reasons : S → Option ErrorKind) (request : Request U S) (attempt : Attempt U S)
    (err : FetchError U S) : FetchError U S :=
  if err.kind = .http then err
  else if err.kind = .malformed then err
  else if err.kind = .abort ∧ attempt.deadlinePassed then .timeoutError request.url request.policy.timeoutMs
  else if aborted reasons request.signal then err
  else .networkError request.url err

def afterFailure (policy : FetchPolicy) (number : ℕ) (err : FetchError U S) : Phase U S :=
  if number < policy.maxAttempts ∧ isRetryable err then .sleeping number else .settled (.error err)

def Request.fails (reasons : S → Option ErrorKind) (err : FetchError U S) (request : Request U S) : Request U S :=
  match request.phase with
  | .fetching attempt =>
    { request with phase := afterFailure request.policy attempt.number (catchError reasons request attempt err) }
  | _ => request

def Request.aborts (reasons : S → Option ErrorKind) (request : Request U S) : Request U S :=
  match request.phase with
  | .fetching attempt =>
    match attempt.combined with
    | some err => request.fails reasons err
    | none => request
  | _ => request

/-- `res.ok` holds from 200 to 299; the timer is cleared at the response. -/
def Request.responds (reasons : S → Option ErrorKind) (status : ℕ) (request : Request U S) : Request U S :=
  match request.phase with
  | .fetching attempt =>
    if attempt.responded then request
    else if 200 ≤ status ∧ status ≤ 299 then { request with phase := .fetching { attempt with responded := true } }
    else request.fails reasons (.httpError status)
  | _ => request

def Request.body (json : Json) (request : Request U S) : Request U S :=
  match request.phase with
  | .fetching attempt =>
    if attempt.responded then { request with phase := .settled (.ok (unwrapEnvelope json)) } else request
  | _ => request

def Request.deadline (request : Request U S) : Request U S :=
  match request.phase with
  | .fetching attempt =>
    if attempt.responded then request
    else { request with phase := .fetching { attempt with
      deadlinePassed := true
      combined := attempt.combined.or (some (.timeoutError request.url request.policy.timeoutMs)) } }
  | _ => request

def Request.wakes (reasons : S → Option ErrorKind) (request : Request U S) : Request U S :=
  match request.phase with
  | .sleeping number => { request with phase := .fetching (startAttempt reasons request.signal (number + 1)) }
  | _ => request

def Request.hears [DecidableEq S] (signal : S) (kind : ErrorKind) (request : Request U S) : Request U S :=
  match request.phase with
  | .fetching attempt =>
    if request.signal = some signal then
      { request with phase := .fetching { attempt with
        combined := attempt.combined.or (some (.reason signal kind)) } }
    else request
  | _ => request

/-- The first attempt starts at once; without any attempt the loop throws what it never set. -/
def fetchWithRetry (reasons : S → Option ErrorKind) (url : U) (signal : Option S) (policy : FetchPolicy) :
    Request U S where
  url
  signal
  policy
  callers := [signal]
  phase := if policy.maxAttempts = 0 then .settled (.error (.raised .other))
    else .fetching (startAttempt reasons signal 1)

end Requests

section States

variable {U S : Type} [DecidableEq U] [DecidableEq S]

/-- The requests by number, the map of the entries and the reasons of the aborted signals. -/
structure State (U S : Type) where
  requests : ℕ → Option (Request U S)
  next : ℕ
  inFlightRequests : U → Option ℕ
  reasons : S → Option ErrorKind

def State.empty : State U S where
  requests _ := none
  next := 0
  inFlightRequests _ := none
  reasons _ := none

def State.modify (s : State U S) (n : ℕ) (change : Request U S → Request U S) : State U S :=
  { s with requests := Function.update s.requests n ((s.requests n).map change) }

def dedupedFetchJson (s : State U S) (url : U) (signal : Option S) (policy : FetchPolicy) : State U S :=
  match s.inFlightRequests url with
  | some n => s.modify n fun request => { request with callers := request.callers ++ [signal] }
  | none =>
    { s with
      requests := Function.update s.requests s.next (some (fetchWithRetry s.reasons url signal policy))
      next := s.next + 1
      inFlightRequests := Function.update s.inFlightRequests url (some s.next) }

def State.abort (s : State U S) (signal : S) (kind : ErrorKind) : State U S :=
  match s.reasons signal with
  | some _ => s
  | none =>
    { s with
      requests := fun n => (s.requests n).map (Request.hears signal kind)
      reasons := Function.update s.reasons signal (some kind) }

def State.forget (s : State U S) (url : U) : State U S :=
  match s.inFlightRequests url with
  | none => s
  | some n =>
    { s.modify n fun request => { request with timer := false } with
      inFlightRequests := Function.update s.inFlightRequests url none }

def State.settles (s : State U S) (n : ℕ) : State U S :=
  match s.requests n with
  | none => s
  | some request =>
    if request.handled then s
    else
      match request.phase with
      | .settled (.ok _) =>
        s.modify n fun request =>
          { request with handled := true, timer := s.inFlightRequests request.url = some n }
      | .settled (.error _) =>
        let handled := s.modify n fun request => { request with handled := true }
        if s.inFlightRequests request.url = some n then handled.forget request.url else handled
      | _ => s

def State.expires (s : State U S) (n : ℕ) : State U S :=
  match s.requests n with
  | none => s
  | some request =>
    if request.timer then
      let fired := s.modify n fun request => { request with timer := false }
      if s.inFlightRequests request.url = some n then
        { fired with inFlightRequests := Function.update s.inFlightRequests request.url none }
      else fired
    else s

inductive Event (U S : Type) where
  | call (url : U) (signal : Option S) (policy : FetchPolicy)
  | abort (signal : S) (kind : ErrorKind)
  | deadline (n : ℕ)
  | responds (n status : ℕ)
  | body (n : ℕ) (json : Json)
  | fails (n : ℕ) (kind : ErrorKind)
  | aborts (n : ℕ)
  | wakes (n : ℕ)
  | settles (n : ℕ)
  | expires (n : ℕ)

def State.step (s : State U S) : Event U S → State U S
  | .call url signal policy => dedupedFetchJson s url signal policy
  | .abort signal kind => s.abort signal kind
  | .deadline n => s.modify n Request.deadline
  | .responds n status => s.modify n (Request.responds s.reasons status)
  | .body n json => s.modify n (Request.body json)
  | .fails n kind => s.modify n (Request.fails s.reasons (.raised kind))
  | .aborts n => s.modify n (Request.aborts s.reasons)
  | .wakes n => s.modify n (Request.wakes s.reasons)
  | .settles n => s.settles n
  | .expires n => s.expires n

end States

end CrashLab.RequestDedup
