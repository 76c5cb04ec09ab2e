import ReactRuntime.Agent.Transcript
import ReactRuntime.Core.Retry
import ReactRuntime.Session.Observed

/-!
# Model calls of an agent

Every chat goes through one gateway. It checks the cancel flag, charges the meter,
races the provider against cancellation and the timeout of the call, and retries
transient errors. Where a thread is observed, the call is bracketed by log steps.
-/
namespace ReactRuntime.Agent
open Library Serde ReactRuntime.Core Session

def LLM_TRANSIENT_RETRY_DELAYS_MS : List Nat := [2000, 4000]

inductive LlmExpectedFormat where
  | text
  | jsonObject
  | jsonSchema (schemaId : String)
deriving DecidableEq, Repr

structure LlmCallOptions where
  promptId : String
  threadId : Option String
  expectedFormat : LlmExpectedFormat
  timeoutSecs : Option Nat
deriving DecidableEq, Repr

structure PartInput where
  name : String
  text : String
deriving DecidableEq, Repr

structure BuiltParts where
  parts : List Json
  partHashes : SortedMap String String
deriving DecidableEq

structure CompleteEnvelope where
  kind : String
  payload : Json
  display : Option String
deriving DecidableEq

inductive AgentStep where
  | tool (name : String) (args : Json)
  | complete (completeEnv : CompleteEnvelope)
deriving DecidableEq

inductive InterruptKind where
  | awaitUser
  | awaitApproval
deriving DecidableEq, Repr

def InterruptKind.asStr : InterruptKind → String
  | .awaitUser => "await_user"
  | .awaitApproval => "await_approval"

inductive RunOutcome where
  | complete (threadId : String) (result : ThreadResult)
  | interrupt (threadId : String) (kind : InterruptKind) (prompt : String)
deriving DecidableEq

inductive CompleteDecision where
  | accept (result : ThreadResult)
  | reject (reason : String)
deriving DecidableEq

/-- How a future ends that is raced against cancellation and a timeout. -/
inductive Raced (α : Type) where
  | cancelled
  | elapsed
  | finished (a : α)
deriving DecidableEq

/-- How a future ends that is raced against cancellation alone. -/
inductive Cancellable (α : Type) where
  | cancelled
  | finished (a : α)
deriving DecidableEq

structure AgentCtx where
  perStepTimeoutSecs : Nat
  threadId : Option String
  agentName : Option String
  threadStore : Bool
  execCtx : Option ExecutionContext
  resolvedConfig : Option LlmResolved
deriving DecidableEq

namespace AgentCtx
variable (ctx : AgentCtx)

def agentNameOrDefault : String := ctx.agentName.getD "unknown"

def promptBudget : PromptBudget :=
  match ctx.resolvedConfig with
  | some c => .fromResolved c
  | none => .fromModel PromptBudget.DEFAULT_CONTEXT PromptBudget.DEFAULT_MAX_OUTPUT

def resolvedModelName : String := (ctx.resolvedConfig.bind LlmResolved.reasonModel).getD "unknown"

end AgentCtx

/-- What an agent asks of its meter, its flag, its clock, the provider, the tools, the policy and
the thread store. Of a tool outcome the policy sees `obs`; the outcome itself is for the record. -/
inductive AgentCall where
  | charge (c : Charge)
  | isCancelled
  | now
  | genUuid
  | llmCallsEnabled
  | llmResponseTextEnabled
  | nextCallId (threadId : String)
  | buildPartsForThread (threadId : String) (parts : List PartInput)
  | getLog (threadId : String)
  | appendStep (threadId : String) (step : ThreadStep)
  | chat (messages : List ChatMessage) (options : LlmCallOptions)
  | chatWithin (secs : Nat) (messages : List ChatMessage) (options : LlmCallOptions)
  | toolStamp
  | callToolWithin (secs : Nat) (name : String) (args : Json)
  | armGuard (step : ThreadStep)
  | disarmGuard
  | preludeEntries (threadId : String)
  | interruptForAction (name : String) (args : Json) (outcome : ToolOutcome) (obs : Json)
  | timeoutForTool (name : String)
  | cleanToolName (name : String) (args : Json)
  | handleComplete (transcript : Transcript) (threadId : String) (env : CompleteEnvelope)
  | fallback (transcript : Transcript) (threadId : String)

/-- The policy may change the transcript when it handles a completion. -/
@[reducible] def AgentCall.Answer : AgentCall → Type
  | .charge _ => Except BudgetExhausted Unit
  | .isCancelled => Bool
  | .now | .genUuid => String
  | .llmCallsEnabled | .llmResponseTextEnabled => Bool
  | .nextCallId _ => UInt64
  | .buildPartsForThread _ _ => BuiltParts
  | .getLog _ => Except CoreError ThreadLog
  | .appendStep _ _ => Except CoreError Unit
  | .chat _ _ => Cancellable (Except LlmError String)
  | .chatWithin _ _ _ => Raced (Except LlmError String)
  | .toolStamp => ToolStamp
  | .callToolWithin _ _ _ => Raced ToolOutcome
  | .armGuard _ | .disarmGuard => Unit
  | .preludeEntries _ => List Entry
  | .interruptForAction _ _ _ _ => Option (InterruptKind × String)
  | .timeoutForTool _ => Option Nat
  | .cleanToolName _ _ => String
  | .handleComplete _ _ _ => Transcript × Except String CompleteDecision
  | .fallback _ _ => Except String RunOutcome

abbrev AgentProgram (α : Type) := Program AgentCall AgentCall.Answer α

def AgentCall.ask (c : AgentCall) : AgentProgram c.Answer := Program.perform c

/-- Functions on text that the agent takes from other modules. -/
structure TextKit where
  jsonText : Json → String
  parseAgentStep : String → Except CoreError AgentStep
  sha256HexStr : String → String
  promptHashForMessages : List ChatMessage → String
  redactCommonSecrets : String → String
  hashStr : String → UInt64
  renderFailureContext : ToolObservation → Nat → String

structure ObservabilityContext where
  callId : Option UInt64
  phase : String
  promptHash : String
  partsBuilt : Option BuiltParts

/-- The last phase with a name. -/
def observedPhase (steps : List ThreadStep) : String :=
  (steps.reverse.findSome? fun step => match step with
    | .phase phase _ _ _ _ _ _ => if (trim phase).isEmpty then none else some (trim phase)
    | _ => none).getD "suite_llm"

namespace AgentCtx
variable (kit : TextKit) (ctx : AgentCtx)

/-- The phase that a model call is counted under. -/
def phaseOfCall (tid : String) : AgentProgram String := do
  if ctx.threadStore then
    match ← (AgentCall.getLog tid).ask with
    | .ok log => return observedPhase log.steps
    | .error _ => return "suite_llm"
  else return "suite_llm"

def prepareObservability (messages : List ChatMessage) : AgentProgram ObservabilityContext := do
  match ← AgentCall.llmCallsEnabled.ask, ctx.threadId with
  | true, some tid => do
    let callId ← (AgentCall.nextCallId tid).ask
    let promptHash := kit.promptHashForMessages messages
    let phase ← ctx.phaseOfCall tid
    let inputs := messages.zipIdx.map fun e =>
      ⟨e.1.role.display ++ "." ++ toString e.2, e.1.content⟩
    let built ← (AgentCall.buildPartsForThread tid inputs).ask
    return ⟨some callId, phase, promptHash, some built⟩
  | _, _ => return ⟨none, "suite_llm", "", none⟩

/-- Append a step of an observed call, if there is a thread and a store to append it to. -/
def emitStep (callId : Option UInt64) (step : UInt64 → String → ThreadStep) :
    AgentProgram (Except CoreError Unit) := do
  match callId, ctx.threadId, ctx.threadStore with
  | some callId, some tid, true => do
    let ts ← AgentCall.now.ask
    (AgentCall.appendStep tid (step callId ts)).ask
  | _, _, _ => return .ok ()

def emitLlmStartStep (callId : Option UInt64) (phase : String) :
    AgentProgram (Except CoreError Unit) :=
  ctx.emitStep callId fun callId ts =>
    .llmStart callId (some ctx.resolvedModelName) phase ctx.execCtx ts ctx.agentNameOrDefault

def emitLlmEndStep (callId : Option UInt64) (phase : String) (res : Except CoreError String) :
    AgentProgram (Except CoreError Unit) :=
  ctx.emitStep callId fun callId ts =>
    .llmEnd callId (some ctx.resolvedModelName) phase
      (match res with | .ok _ => .ok | .error _ => .failed)
      (match res with | .ok _ => none | .error e => some e.display)
      ctx.execCtx ts ctx.agentNameOrDefault

def recordLlmObservation (obs : ObservabilityContext) (res : Except CoreError String) :
    AgentProgram (Except CoreError Unit) := do
  match obs.callId, ctx.threadId, ctx.threadStore, obs.partsBuilt with
  | some callId, some tid, true, some built => do
    let responseRaw := match res with
      | .ok text => text
      | .error e => e.display
    let textEnabled ← AgentCall.llmResponseTextEnabled.ask
    let responseText := if textEnabled then some (kit.redactCommonSecrets responseRaw) else none
    let ts ← AgentCall.now.ask
    (AgentCall.appendStep tid (.llmCall callId ctx.resolvedModelName obs.phase obs.promptHash
      built.parts built.partHashes (kit.sha256HexStr responseRaw) responseText
      (match res with | .ok _ => .okay | .error _ => .fail ["llm_call_failed"]) ts
      ctx.agentNameOrDefault)).ask
  | _, _, _, _ => return .ok ()

/-- Race the provider against cancellation and, where the call has one, its timeout. -/
def raceChat (messages : List ChatMessage) (options : LlmCallOptions) :
    AgentProgram (Except LlmError String) := do
  match options.timeoutSecs with
  | some secs => do
    match ← (AgentCall.chatWithin secs messages options).ask with
    | .cancelled => return .error .cancelled
    | .elapsed => return .error (.timeout secs)
    | .finished result => return result
  | none => do
    match ← (AgentCall.chat messages options).ask with
    | .cancelled => return .error .cancelled
    | .finished result => return result

def invokeLlmOnce (messages : List ChatMessage) (options : LlmCallOptions) :
    AgentProgram (Except LlmError String) := do
  match ← AgentCall.isCancelled.ask with
  | true => return .error .cancelled
  | false => do
    match ← (AgentCall.charge .llmCall).ask with
    | .error e => return .error (.budget e)
    | .ok () => raceChat messages options

def invokeLlm (messages : List ChatMessage) (options : LlmCallOptions) :
    AgentProgram (Except CoreError String) := do
  let res ← retryClassified LLM_TRANSIENT_RETRY_DELAYS_MS (invokeLlmOnce messages options)
  return res.mapError .llm

def llmChat (messages : List ChatMessage) (options : LlmCallOptions) :
    AgentProgram (Except CoreError String) := do
  let obs ← ctx.prepareObservability kit messages
  (ctx.emitLlmStartStep obs.callId obs.phase).andThen fun _ => do
    let options := { options with threadId := options.threadId.or ctx.threadId }
    let res ← invokeLlm messages options
    (ctx.emitLlmEndStep obs.callId obs.phase res).andThen fun _ =>
      (ctx.recordLlmObservation kit obs res).andThen fun _ => return res

end AgentCtx
end ReactRuntime.Agent
