import Dayseam.Core.Sink
import Dayseam.Core.Ids
import Mathlib

/-!
# The retrying HTTP client

`HttpClient::send` sends a request until it is answered, with a pause between two
attempts.  Durations are in nanoseconds; `f64`, the random source and the crates below the
client are parameters.

## Main definitions

* `RetryPolicy`, `Outcome` — the tuning of the retries, and what one attempt brings.
* `Run` — a policy, and what the upstream, the random source and the token do in a call.
* `computeBackoff` — the pause before the next attempt.
* `sendLoop`, `send` — the loop, with the pauses it makes.

## Main results

* `cappedBackoff_eq` — the shift does not overflow, and the ceiling hides the saturation.
-/

namespace Dayseam.Http

/-! ### Durations and policies -/

def U32_MAX : ℕ := 2 ^ 32 - 1

/-- The longest `Duration`, in nanoseconds. -/
def DURATION_MAX : ℕ := 2 ^ 64 * 10 ^ 9 - 1

def fromSecs (secs : ℕ) : ℕ := secs * 10 ^ 9

def fromMillis (millis : ℕ) : ℕ := millis * 10 ^ 6

/-- `Duration::saturating_mul`. -/
def saturatingMul (d k : ℕ) : ℕ := min (d * k) DURATION_MAX

structure RetryPolicy (F64 : Type) where
  maxAttempts : ℕ
  baseBackoff : ℕ
  maxBackoff : ℕ
  jitterFrac : F64
  maxAttempts_le : maxAttempts ≤ U32_MAX
  baseBackoff_le : baseBackoff ≤ DURATION_MAX
  maxBackoff_le : maxBackoff ≤ DURATION_MAX

/-- The operations on `f64` that the jitter uses. -/
structure Floats (F64 : Type) where
  /-- `clamp(0.0, 1.0)`. -/
  clampUnit : F64 → F64
  /-- `== 0.0`. -/
  isZero : F64 → Bool
  /-- `1.0 + delta`. -/
  onePlus : F64 → F64
  /-- `max(0.0)`. -/
  maxZero : F64 → F64
  mul : F64 → F64 → F64
  asSecsF64 : ℕ → F64
  /-- `Duration::from_secs_f64`; `none` where it panics. -/
  fromSecsF64 : F64 → Option ℕ

/-! ### What an attempt brings -/

def HTTP_RETRY_BUDGET_EXHAUSTED : Text := "http.retry.budget_exhausted".toList
def HTTP_TRANSPORT : Text := "http.transport".toList
def HTTP_TRANSPORT_DNS : Text := "http.transport.dns".toList
def HTTP_TRANSPORT_TLS : Text := "http.transport.tls".toList
def HTTP_TRANSPORT_CONNECT : Text := "http.transport.connect".toList
def HTTP_TRANSPORT_TIMEOUT : Text := "http.transport.timeout".toList
def RUN_CANCELLED_BY_USER : Text := "run.cancelled.by_user".toList

/-- The host of a URL; an address with its text. -/
inductive Host
  | domain (d : Text)
  | ipv4 (addr : Text)
  | ipv6 (addr : Text)
  deriving DecidableEq, Repr

/-- A `reqwest::Error`: its own text, those of its `source()` chain, and the host of its
URL where it has both. -/
structure TransportError where
  isTimeout : Bool
  isConnect : Bool
  isRequest : Bool
  display : Text
  sources : List Text
  host : Option Host
  deriving DecidableEq, Repr

structure Response where
  status : ℕ
  /-- The `Retry-After` header, where it is visible ASCII. -/
  retryAfter : Option Text
  deriving DecidableEq, Repr

inductive Outcome
  | response (res : Response)
  | transport (err : TransportError)
  deriving DecidableEq, Repr

def Outcome.isResponse : Outcome → Bool
  | .response _ => true
  | .transport _ => false

def isSuccess (status : ℕ) : Bool := decide (200 ≤ status ∧ status < 300)

def TOO_MANY_REQUESTS : ℕ := 429

def isRetriableStatus (status : ℕ) : Bool :=
  status == TOO_MANY_REQUESTS || status == 500 || status == 502 || status == 503 ||
    status == 504

def isRetriableTransport (err : TransportError) : Bool :=
  err.isTimeout || err.isConnect || err.isRequest

/-- `str::parse::<u64>`. -/
def parseU64 (t : Text) : Option ℕ :=
  let value := match t with
    | '+' :: digits => Calendar.parseNat digits
    | digits => Calendar.parseNat digits
  value.filter fun n => decide (n < 2 ^ 64)

def retryAfterHeader (res : Response) : Option ℕ := (res.retryAfter.bind parseU64).map fromSecs

/-- The server's hint at a pause; a transport error brings none. -/
def Outcome.hint : Outcome → Option ℕ
  | .response res => retryAfterHeader res
  | .transport _ => none

/-- Whether an outcome is one to retry. -/
def Outcome.retriable : Outcome → Bool
  | .response res => isRetriableStatus res.status
  | .transport err => isRetriableTransport err

/-! ### Naming a transport error -/

/-- The crates below the client. -/
structure Crates where
  toLowercase : Text → Text
  /-- A status code with its reason. -/
  statusText : ℕ → Text

variable (crates : Crates)

/-- The texts of an error and of its sources, the first eight of them. -/
def errorChainDisplay (chain : List Text) : Text :=
  (chain.take 8).flatMap fun e => crates.toLowercase e ++ [' ']

def innerErrorChainDisplay (err : TransportError) : Text := errorChainDisplay crates err.sources

def contains (chain : Text) (fragment : String) : Bool := decide (fragment.toList <:+: chain)

def classifyChain (chain : Text) : Text :=
  if contains chain "failed to lookup" || contains chain "dns" ||
      contains chain "name resolution" || contains chain "nodename nor servname" ||
      contains chain "no such host" then
    HTTP_TRANSPORT_DNS
  else if contains chain "tls" || contains chain "ssl" || contains chain "handshake" ||
      contains chain "certificate" then
    HTTP_TRANSPORT_TLS
  else
    HTTP_TRANSPORT_CONNECT

def classifyTransportError (err : TransportError) : Text :=
  if err.isTimeout then HTTP_TRANSPORT_TIMEOUT
  else if !err.isConnect then HTTP_TRANSPORT
  else classifyChain (innerErrorChainDisplay crates err)

def chainMentionsProxy (err : TransportError) : Bool :=
  let chain := errorChainDisplay crates (err.display :: err.sources)
  contains chain "proxy connect " || contains chain "http proxy " ||
    contains chain "https proxy " || contains chain "socks" ||
    contains chain "proxy authentication" || contains chain "proxy-authorization" ||
    contains chain "bad proxy response"

def formatHostForMessage : Host → Text
  | .domain d => d
  | .ipv4 addr => addr
  | .ipv6 addr => ['['] ++ addr ++ [']']

def formatTransportError (err : TransportError) (attempt : ℕ) : Text :=
  let plain := "http error after ".toList ++ Nat.toDigits 10 attempt ++ " attempts: ".toList ++
    err.display
  if err.isConnect || err.isTimeout then
    match err.host.map formatHostForMessage with
    | some host =>
      let detail := err.sources.head?.getD err.display
      let viaProxy := if chainMentionsProxy crates err then " (via proxy)".toList else []
      "couldn't reach ".toList ++ ['`'] ++ host ++ ['`'] ++ viaProxy ++ " after ".toList ++
        Nat.toDigits 10 attempt ++ " attempts: ".toList ++ detail
    | none => plain
  else plain

/-! ### The pause before the next attempt -/

def MAX_RETRY_AFTER : ℕ := fromSecs (5 * 60)

variable {F64 : Type}

/-- A pause: what it was before jitter, and how long it is. -/
structure Backoff where
  capped : ℕ
  wait : ℕ
  deriving DecidableEq, Repr

/-- The exponential backoff under its ceiling. -/
def cappedBackoff (policy : RetryPolicy F64) (attempt : ℕ) : ℕ :=
  min (saturatingMul policy.baseBackoff ((1 <<< min attempt 16) % 2 ^ 32)) policy.maxBackoff

/-- A duration scaled by `1 + delta`; `none` where the product is no duration. -/
def scaled (floats : Floats F64) (base : ℕ) (delta : F64) : Option ℕ :=
  let multiplier := floats.maxZero (floats.onePlus delta)
  let secs := floats.mul (floats.asSecsF64 base) multiplier
  floats.fromSecsF64 (floats.maxZero secs)

/-- The jitter; `genRange frac` draws from `-frac..frac`, with `none` where it panics. -/
def applyJitter (floats : Floats F64) (policy : RetryPolicy F64) (genRange : F64 → Option F64)
    (base : ℕ) : Option ℕ :=
  let frac := floats.clampUnit policy.jitterFrac
  if floats.isZero frac then some base
  else (genRange frac).bind (scaled floats base)

/-- The pause after `attempt` attempts, with the server's hint; `none` where it panics. -/
def computeBackoff (floats : Floats F64) (policy : RetryPolicy F64)
    (genRange : F64 → Option F64) (attempt : ℕ) (retryAfter : Option ℕ) : Option Backoff :=
  match retryAfter with
  | some ra => some ⟨min ra MAX_RETRY_AFTER, min ra MAX_RETRY_AFTER⟩
  | none =>
    if policy.baseBackoff = 0 then some ⟨0, 0⟩
    else
      let capped := cappedBackoff policy attempt
      (applyJitter floats policy genRange capped).map fun wait => ⟨capped, wait⟩

/-- The shift does not overflow, and the ceiling hides the saturation of the product. -/
theorem cappedBackoff_eq (policy : RetryPolicy F64) (attempt : ℕ) :
    cappedBackoff policy attempt
      = min (policy.baseBackoff * 2 ^ min attempt 16) policy.maxBackoff := by
  have hshift : 2 ^ min attempt 16 < 2 ^ 32 :=
    Nat.pow_lt_pow_right (by omega) (by omega)
  unfold cappedBackoff saturatingMul
  rw [Nat.shiftLeft_eq, Nat.one_mul, Nat.mod_eq_of_lt hshift]
  have := policy.maxBackoff_le
  omega

theorem computeBackoff_some {floats : Floats F64} {policy : RetryPolicy F64}
    {genRange : F64 → Option F64} {attempt ra : ℕ} :
    computeBackoff floats policy genRange attempt (some ra)
      = some ⟨min ra MAX_RETRY_AFTER, min ra MAX_RETRY_AFTER⟩ := rfl

/-! ### The loop -/

/-- What a call returns: a response, an error or nothing, for a panic. -/
inductive Result
  | returned (res : Response)
  | failed (e : DayseamError)
  | panicked
  deriving DecidableEq

/-- The notices of a pause: to the progress stream and to the log. -/
structure Notice where
  completed : ℕ
  total : ℕ
  message : Text
  logMessage : Text
  backoffMs : ℕ
  /-- The error and its class, for a transport error. -/
  transportError : Option (Text × Text)
  deriving DecidableEq, Repr

/-- The sends of a call, its pauses with their notices, and its result. -/
structure Trace where
  sends : ℕ
  pauses : List (Backoff × Notice)
  result : Result
  deriving DecidableEq

/-- One more send and a pause, before the rest of a call. -/
def Trace.after (rest : Trace) (pause : Backoff × Notice) : Trace :=
  ⟨rest.sends + 1, pause :: rest.pauses, rest.result⟩

/-- A call: its policy, whether the request's body can be cloned, and what each attempt
meets. -/
structure Run (F64 : Type) where
  policy : RetryPolicy F64
  cloneable : Bool
  outcome : ℕ → Outcome
  /-- What the random source draws for the pause after an attempt. -/
  genRange : ℕ → F64 → Option F64
  cancelledBefore : ℕ → Bool
  cancelledInFlight : ℕ → Bool
  cancelledInBackoff : ℕ → Bool

def asMillis (d : ℕ) : ℕ := d / 10 ^ 6

/-- What is sent to the progress stream and to the log before a pause. -/
def notice (policy : RetryPolicy F64) (outcome : Outcome) (attempt wait : ℕ) : Notice :=
  let tail := ", retrying in ".toList ++ Nat.toDigits 10 (asMillis wait) ++ "ms…".toList
  match outcome with
  | .response res =>
    { completed := attempt, total := policy.maxAttempts,
      message := "Upstream returned ".toList ++ crates.statusText res.status ++ tail,
      logMessage := "retrying after status ".toList ++ crates.statusText res.status,
      backoffMs := asMillis wait, transportError := none }
  | .transport err =>
    { completed := attempt, total := policy.maxAttempts,
      message := "Transport error (".toList ++ err.display ++ [')'] ++ tail,
      logMessage := "retrying after transport error".toList,
      backoffMs := asMillis wait,
      transportError := some (err.display, classifyTransportError crates err) }

def cancelled (message : String) : Result :=
  .failed (.cancelled RUN_CANCELLED_BY_USER message.toList)

def uncloneable : Result :=
  .failed (.internal "connectors_sdk.http.uncloneable_request".toList
    "request body is not cloneable; retries disabled".toList)

/-- The message of `sleep_cancellable`. -/
def sleepMessage (wait : ℕ) : String :=
  if wait = 0 then "cancelled between retries" else "cancelled during retry backoff"

/-- What a call makes of an outcome that it does not retry. -/
def settle (attempt : ℕ) (lastStatus : Option ℕ) : Outcome → Result
  | .response res =>
    if isSuccess res.status then .returned res
    else if res.status = TOO_MANY_REQUESTS then
      .failed (.rateLimited HTTP_RETRY_BUDGET_EXHAUSTED
        ((retryAfterHeader res).getD 0 / 10 ^ 9))
    else if isRetriableStatus res.status then
      .failed (.network HTTP_RETRY_BUDGET_EXHAUSTED
        ("upstream returned ".toList ++ crates.statusText res.status ++ " after ".toList ++
          Nat.toDigits 10 attempt ++ " attempts".toList))
    else .returned res
  | .transport err =>
    let code := if lastStatus.isSome then HTTP_RETRY_BUDGET_EXHAUSTED
      else classifyTransportError crates err
    .failed (.network code (formatTransportError crates err attempt))

/-- The status a call remembers. -/
def Outcome.status (lastStatus : Option ℕ) : Outcome → Option ℕ
  | .response res => some res.status
  | .transport _ => lastStatus

variable (floats : Floats F64) (R : Run F64)

/-- The loop, at the head of its body after `attempt` attempts. -/
def sendLoop (attempt : ℕ) (lastStatus : Option ℕ) : Trace :=
  if R.cancelledBefore attempt then ⟨0, [], cancelled "HTTP call cancelled before send"⟩
  else if !R.cloneable then ⟨0, [], uncloneable⟩
  else if R.cancelledInFlight attempt then
    ⟨1, [], cancelled "HTTP call cancelled in-flight"⟩
  else
    let outcome := R.outcome attempt
    let lastStatus := outcome.status lastStatus
    let done := min (attempt + 1) U32_MAX
    -- no status of success is one to retry: one test stands for the three branches
    if outcome.retriable = true ∧ done < R.policy.maxAttempts then
      match computeBackoff floats R.policy (R.genRange attempt) done outcome.hint with
      | none => ⟨1, [], .panicked⟩
      | some b =>
        let pause := (b, notice crates R.policy outcome done b.wait)
        if R.cancelledInBackoff attempt then ⟨1, [pause], cancelled (sleepMessage b.wait)⟩
        else (sendLoop done lastStatus).after pause
    else ⟨1, [], settle crates done lastStatus outcome⟩
termination_by R.policy.maxAttempts - attempt
decreasing_by
  have := R.policy.maxAttempts_le
  omega

/-- `HttpClient::send`. -/
def send : Trace := sendLoop crates floats R 0 none

end Dayseam.Http
