import Mathlib.Algebra.Order.Field.Rat
import Mathlib.Data.List.Infix
import Memmy.Lib.Text

/-! # Providers: fallbacks and retries

A request is sent to the primary provider and, when that fails, to the fallbacks in turn; all of it is
tried again when the error is a passing one. All attempts share one object of arguments, and one callback
for the content.

* `shouldFallback`, `isTransientResponse`: which errors lead to a fallback, which to a retry.
* `Circuit`: after enough failures the primary is left out for a while.
* `tryWithFallback`, `chatStream`: one round over the providers.
* `chatStreamWithRetry`: the rounds of a request.

What the providers do is given as the outcomes of the attempts, in order; a run that needs more of them has
no result. -/

namespace Memmy.Providers

open Lib.Text

/-! ### Responses -/

inductive ErrorCategory
  | quotaExhausted
  | imageInputUnsupported
  | imageAnalysisFailed
deriving DecidableEq

structure Response where
  content : Option String
  finishReason : String := "stop"
  retryAfter : Option ℚ := none
  errorStatusCode : Option ℕ := none
  errorKind : Option String := none
  errorType : Option String := none
  errorCode : Option String := none
  errorRetryAfterS : Option ℚ := none
  errorShouldRetry : Option Bool := none
  errorCategory : Option ErrorCategory := none
  actualProvider : Option String := none
  actualModel : Option String := none
deriving DecidableEq

/-- An attempt gives a response or throws; an abort is thrown on by everyone. -/
inductive Reply
  | returned (response : Response)
  | thrown (message : String) (isAbort : Bool)
deriving DecidableEq

/-- What happens in one attempt: the content deltas, and how it ends. -/
structure Outcome where
  deltas : List String
  reply : Reply
deriving DecidableEq

/-! ### Arguments -/

/-- The arguments that an attempt may change: a property is missing, or is null, or has a value. -/
structure Args where
  model : Option (Option String)
  maxTokens : Option (Option ℕ)
  temperature : Option (Option ℚ)
  reasoningEffort : Option (Option String)
deriving DecidableEq

structure GenerationSettings where
  maxTokens : ℕ
  temperature : ℚ
  reasoningEffort : Option String

structure FallbackPreset where
  model : String
  maxTokens : Option ℕ := none
  temperature : Option ℚ := none
  reasoningEffort : Option String := none
deriving DecidableEq

structure Provider where
  providerName : Option String
  defaultModel : String

/-- `args.model = fallback.model` and the properties after it. -/
def FallbackPreset.apply (preset : FallbackPreset) : Args where
  model := some (some preset.model)
  maxTokens := some preset.maxTokens
  temperature := some preset.temperature
  reasoningEffort := preset.reasoningEffort.map some

/-! ### The circuit -/

def primaryFailureThreshold : ℕ := 3

def primaryCooldownMs : ℤ := 60000

/-- What a provider remembers between rounds; it has tripped only after enough failures. -/
structure Circuit where
  primaryFailures : ℕ
  primaryTrippedAt : Option ℤ
  tripped : primaryTrippedAt.isSome → primaryFailureThreshold ≤ primaryFailures

def Circuit.fresh : Circuit := ⟨0, none, fun h => by cases h⟩

/-- One more failure, at the time `now`. -/
def Circuit.fail (c : Circuit) (now : ℤ) : Circuit where
  primaryFailures := c.primaryFailures + 1
  primaryTrippedAt :=
    if primaryFailureThreshold ≤ c.primaryFailures + 1 then some now else c.primaryTrippedAt
  tripped := fun h => by
    by_cases hle : primaryFailureThreshold ≤ c.primaryFailures + 1
    · exact hle
    · rw [if_neg hle] at h
      exact (c.tripped h).trans (Nat.le_succ _)

/-- `primaryAvailable` -/
def Circuit.isAvailable (c : Circuit) (now : ℤ) : Bool :=
  match c.primaryTrippedAt with
  | none => true
  | some trippedAt => primaryCooldownMs ≤ now - trippedAt

/-! ### The environment -/

/-- What does not change during a request. The classification of image errors, the modalities of models and
the reading of texts are given. -/
structure Env where
  primary : Provider
  fallbackPresets : List FallbackPreset
  /-- No provider if the factory throws. -/
  providerFactory : FallbackPreset → Option Provider
  generation : GenerationSettings
  /-- `Date.now()`, by the number of times it was read. -/
  clock : ℕ → ℤ
  hasImageInput : Bool
  classifyImageInputUnsupported : Response → Option ErrorCategory
  coversInputModalities : String → Bool
  toLowerCase : String → String
  rejectsToolDefinition : String → Bool
  extractRetryAfter : String → Option ℚ

variable (env : Env)

def includes (text part : String) : Bool := decide (part.toList <:+: text.toList)

def Env.lower (value : Option String) : String := env.toLowerCase (value.getD "")

/-- `LLMProvider.classifyImageInputUnsupportedResponse` -/
def classifyImageInputUnsupportedResponse (response : Response) : Response :=
  if response.finishReason ≠ "error" ∨ response.errorCategory = some .quotaExhausted then response
  else if !env.hasImageInput then
    if response.errorCategory = some .imageInputUnsupported then { response with errorCategory := none }
    else response
  else match env.classifyImageInputUnsupported response with
    | none => response
    | some category => { response with errorCategory := some category }

def annotateExecution (response : Response) (provider : Provider) (model : Option String) : Response :=
  let name (value : Option String) : Option String := (value.map trim).bind fun v =>
    if v = "" then none else some v
  { response with
    actualProvider := name provider.providerName
    actualModel := some ((name model).getD provider.defaultModel) }

def fallbackErrorKinds : List String := ["timeout", "connection", "server_error", "rate_limit", "overloaded"]

def nonFallbackErrorKinds : List String :=
  ["authentication", "auth", "permission", "content_filter", "refusal", "context_length", "invalid_request"]

def fallbackErrorTokens : List String :=
  ["rate_limit", "rate limit", "too_many_requests", "too many requests", "overloaded", "server_error",
    "server error", "temporarily unavailable", "timeout", "timed out", "connection"]

/-- `FallbackProvider.shouldFallback` -/
def shouldFallback (response : Response) : Bool :=
  if response.errorCategory = some .imageInputUnsupported then false
  else if response.errorCategory = some .quotaExhausted then true
  else if response.errorShouldRetry = some false then false
  else
    let status := response.errorStatusCode
    let kind := env.lower response.errorKind
    let errorType := env.lower response.errorType
    let code := env.lower response.errorCode
    let text := env.lower response.content
    if status.any (· ∈ [400, 401, 403, 404, 422]) then false
    else if kind ∈ nonFallbackErrorKinds then false
    else if [kind, errorType, code].any (fun value => nonFallbackErrorKinds.any (includes value)) then false
    else if response.errorShouldRetry = some true then true
    else if status.any (fun s => s = 408 || s = 409 || s = 429 || 500 ≤ s) then true
    else if kind ∈ fallbackErrorKinds then true
    else [kind, errorType, code, text].any (fun value => fallbackErrorTokens.any (includes value))

def transientErrorMarkers : List String :=
  ["429", "rate limit", "500", "502", "503", "504", "overloaded", "timeout", "timed out", "connection",
    "server error", "temporarily unavailable", "速率限制", "访问量过大"]

/-- `LLMProvider.isTransientError` -/
def isTransientError (content : Option String) : Bool :=
  transientErrorMarkers.any (includes (env.lower content))

/-- `LLMProvider.isTransientResponse`; every response with the status 429 is one that may be retried. -/
def isTransientResponse (response : Response) : Bool :=
  if env.rejectsToolDefinition (response.content.getD "") then false
  else if response.errorCategory.isSome then false
  else match response.errorShouldRetry with
    | some retry => retry
    | none =>
      if response.errorStatusCode.any (fun s => s = 429 || s = 408 || s = 409 || 500 ≤ s) then true
      else if env.toLowerCase (trim (response.errorKind.getD "")) ∈ ["timeout", "connection"] then true
      else isTransientError env response.content

/-- `LLMProvider.extractRetryAfterFromResponse` -/
def extractRetryAfterFromResponse (response : Response) : Option ℚ :=
  (response.errorRetryAfterS.filter (0 < ·)).or
    ((response.retryAfter.filter (0 < ·)).or (env.extractRetryAfter (env.lower response.content)))

/-! ### One round -/

/-- What happens to the circuit. -/
inductive CircuitEvent
  | skipped (now : ℤ)
  | failed
  | tripped (now : ℤ)
  | succeeded
deriving DecidableEq

structure State where
  circuit : Circuit
  args : Args
  hasStreamed : Bool
  delivered : List String
  outcomes : List Outcome
  reads : ℕ
  /-- The attempts so far: the fallback or the primary, and what it was given. -/
  calls : List (Option FallbackPreset × Args)
  circuitEvents : List CircuitEvent

/-- One attempt. The callbacks of earlier rounds are called by that of this round, and only hand on. -/
def call (preset : Option FallbackPreset) (s : State) : Option (Reply × State) :=
  match s.outcomes with
  | [] => none
  | o :: outcomes => some (o.reply,
      { s with
        hasStreamed := s.hasStreamed || o.deltas.any (· ≠ "")
        delivered := s.delivered ++ o.deltas
        outcomes := outcomes
        calls := s.calls ++ [(preset, s.args)] })

/-- A round has a result, or goes on to the fallbacks. -/
inductive Next
  | done (reply : Reply)
  | goOn (lastResponse : Option Response)

def Env.now (s : State) : ℤ := env.clock s.reads

/-- A failure of the primary that leads to the fallbacks. -/
def primaryFailed (s : State) : State :=
  let circuit := s.circuit.fail (env.now s)
  if primaryFailureThreshold ≤ circuit.primaryFailures then
    { s with
      circuit := circuit
      reads := s.reads + 1
      circuitEvents := s.circuitEvents ++ [.failed, .tripped (env.now s)] }
  else
    { s with
      circuit := circuit
      circuitEvents := s.circuitEvents ++ [.failed] }

/-- The attempt of the primary. -/
def tryPrimary (s : State) : Option (Next × State) :=
  match call none s with
  | none => none
  | some (.thrown message isAbort, s) => some (.done (.thrown message isAbort), s)
  | some (.returned response, s) =>
    let response := classifyImageInputUnsupportedResponse env
      (annotateExecution response env.primary ((s.args.model.bind id).or (some env.primary.defaultModel)))
    if response.finishReason ≠ "error" then
      some (.done (.returned response),
        { s with
          circuit := .fresh
          circuitEvents := s.circuitEvents ++ [.succeeded] })
    else if s.hasStreamed then some (.done (.returned response), s)
    else if !shouldFallback env response then some (.done (.returned response), s)
    else if response.errorCategory = some .quotaExhausted then some (.goOn (some response), s)
    else some (.goOn (some response), primaryFailed env s)

/-- The response when no provider was asked. -/
def circuitOpenResponse (primaryModel : String) : Response where
  content := some ("Primary model '" ++ primaryModel ++ "' circuit open and no fallbacks available")
  finishReason := "error"

/-- The loop over the fallbacks. -/
def tryFallbacks (primaryModel : String) : Option Response → List FallbackPreset → State →
    Option (Reply × State)
  | last, [], s => some (.returned (last.getD (circuitOpenResponse primaryModel)), s)
  | last, preset :: presets, s =>
    if s.hasStreamed then some (.returned (last.getD (circuitOpenResponse primaryModel)), s)
    else if !env.coversInputModalities preset.model then tryFallbacks primaryModel last presets s
    else match env.providerFactory preset with
      | none => tryFallbacks primaryModel last presets s
      | some provider =>
        match call (some preset) { s with args := preset.apply } with
        | none => none
        | some (reply, s') =>
          -- `restoreArg`, of each of the four properties
          let restored := { s' with args := s.args }
          match reply with
          | .thrown message isAbort => some (.thrown message isAbort, restored)
          | .returned response =>
            let response := classifyImageInputUnsupportedResponse env
              (annotateExecution response provider (some preset.model))
            if response.finishReason ≠ "error" then some (.returned response, restored)
            else if response.errorCategory = some .imageInputUnsupported then
              some (.returned response, restored)
            else tryFallbacks primaryModel (some response) presets restored

/-- The clock is read only if the circuit has tripped. -/
def readAvailable (s : State) : Bool × State :=
  match s.circuit.primaryTrippedAt with
  | none => (true, s)
  | some _ =>
    let available := s.circuit.isAvailable (env.now s)
    (available,
      { s with
        reads := s.reads + 1
        circuitEvents :=
          if available then s.circuitEvents else s.circuitEvents ++ [.skipped (env.now s)] })

def tryWithFallback (s : State) : Option (Reply × State) :=
  let primaryModel := (s.args.model.bind id).getD env.primary.defaultModel
  let (available, s) := readAvailable env s
  if available then
    match tryPrimary env s with
    | none => none
    | some (.done reply, s) => some (reply, s)
    | some (.goOn last, s) => tryFallbacks env primaryModel last env.fallbackPresets s
  else tryFallbacks env primaryModel none env.fallbackPresets s

/-- `FallbackProvider.chatStream` -/
def chatStream (s : State) : Option (Reply × State) :=
  if env.fallbackPresets = [] then
    match call none s with
    | none => none
    | some (.thrown message isAbort, s) => some (.thrown message isAbort, s)
    | some (.returned response, s) =>
      some (.returned (annotateExecution response env.primary (s.args.model.bind id)), s)
  else tryWithFallback env { s with hasStreamed := false }

/-! ### The rounds of a request -/

inductive RetryMode
  | standard
  | persistent
deriving DecidableEq

def chatRetryDelays : List ℚ := [1, 2, 4]

def persistentMaxDelay : ℚ := 60

def persistentIdenticalErrorLimit : ℕ := 10

/-- `safeChatStream`: what is thrown becomes an error response, unless it is an abort. -/
def safeChatStream (s : State) : Option (Reply × State) :=
  match chatStream env s with
  | some (.thrown message false, s) => some (.returned
      { content := some ("Error calling LLM: " ++ message)
        finishReason := "error" }, s)
  | result => result

def buildRetryArgs (args : Args) : Args :=
  { args with
    maxTokens := some ((args.maxTokens.bind id).or (some env.generation.maxTokens))
    temperature := some ((args.temperature.bind id).or (some env.generation.temperature))
    reasoningEffort := some ((args.reasoningEffort.bind id).or env.generation.reasoningEffort) }

def errorKey (response : Response) : String :=
  let status := (response.errorStatusCode.map toString).getD ""
  status ++ "|" ++ response.errorKind.getD "" ++ "|" ++ response.errorType.getD "" ++ "|" ++
    response.errorCode.getD "" ++ "|" ++ response.content.getD ""

/-- What the loop remembers of the rounds before. -/
structure Retry where
  identicalErrors : ℕ := 0
  lastError : String := ""
  attempt : ℕ := 0

/-- The delay before the next round, none if the loop gives up. -/
def retryDelay (mode : RetryMode) (attempt : ℕ) (response : Response) : Option ℚ :=
  (extractRetryAfterFromResponse env response).or (match mode with
    | .persistent => (chatRetryDelays[min attempt (chatRetryDelays.length - 1)]?).map (min persistentMaxDelay)
    | .standard => chatRetryDelays[attempt]?)

/-- The loop of `runWithRetry`, with a bound on its rounds. -/
def runWithRetry (mode : RetryMode) : ℕ → Retry → State → Option (Reply × State)
  | 0, _, _ => none
  | fuel + 1, retry, s =>
    match safeChatStream env s with
    | none => none
    | some (.thrown message isAbort, s) => some (.thrown message isAbort, s)
    | some (.returned response, s) =>
      if response.finishReason ≠ "error" then some (.returned response, s)
      else if response.errorCategory = some .quotaExhausted then some (.returned response, s)
      else
        let response := classifyImageInputUnsupportedResponse env response
        if response.errorCategory = some .imageInputUnsupported then some (.returned response, s)
        else if !isTransientResponse env response then some (.returned response, s)
        else
          let identicalErrors := if errorKey response = retry.lastError then retry.identicalErrors + 1 else 1
          if mode = .persistent ∧ persistentIdenticalErrorLimit ≤ identicalErrors then
            some (.returned response, s)
          else match retryDelay env mode retry.attempt response with
            | none => some (.returned response, s)
            | some _ => runWithRetry mode fuel
                { identicalErrors := identicalErrors
                  lastError := errorKey response
                  attempt := retry.attempt + 1 } s

/-- The state that a request begins in. -/
def State.start (circuit : Circuit) (args : Args) (outcomes : List Outcome) : State where
  circuit := circuit
  args := buildRetryArgs env args
  hasStreamed := false
  delivered := []
  outcomes := outcomes
  reads := 0
  calls := []
  circuitEvents := []

def chatStreamWithRetry (mode : RetryMode) (fuel : ℕ) (circuit : Circuit) (args : Args)
    (outcomes : List Outcome) : Option (Reply × State) :=
  runWithRetry env mode fuel {} (.start env circuit args outcomes)

end Memmy.Providers
