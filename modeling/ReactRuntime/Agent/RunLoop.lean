import ReactRuntime.Agent.Gateway

/-!
# The agent loop

Each iteration charges one agent step, asks the model for its next step and acts on
it. The loop itself has no bound: it ends because a charge is refused, an action
fails too often, the policy interrupts or accepts, or a call fails. Here it runs on
fuel, and `none` says that the fuel is used up.
-/
namespace ReactRuntime.Agent
open Library Serde ReactRuntime.Core Session

/-- The schema id of a model step. -/
def AGENT_STEP_V1 : String := "agent.step.v1"

inductive RunLoopStop where
  | rejectedComplete (reason : String)
  | stepLimitExceeded
  | policyBlocked (reason : String)
deriving DecidableEq, Repr

def RunLoopStop.kindAndReason : RunLoopStop → RunLoopStopKind × String
  | .rejectedComplete reason => (.rejectedComplete, reason)
  | .stepLimitExceeded =>
    (.stepLimitExceeded, "agent reached max_steps without an accepted completion")
  | .policyBlocked reason => (.policyBlocked, reason)

def isRetriableParseError : CoreError → Bool
  | .parse p => p.retriable
  | .schema _ => true
  | _ => false

def parseErrorLabel : CoreError → String
  | .parse p => p.label
  | .schema _ => "schema_validation_failed"
  | _ => "invalid_json_from_model"

/-- Whether the loop goes round again. -/
inductive Turn where
  | done (result : Except CoreError RunOutcome)
  | again (transcript : Transcript) (ledger : ActionLedger)

section Loop
variable (kit : TextKit) (ctx : AgentCtx)

def recordRunLoopStop (threadId : String) (stop : RunLoopStop) :
    AgentProgram (Except CoreError Unit) := do
  if ctx.threadStore then
    let ts ← AgentCall.now.ask
    (AgentCall.appendStep threadId (.runLoopStop stop.kindAndReason.1 stop.kindAndReason.2 .okay ts
      ctx.agentNameOrDefault)).ask
  else return .ok ()

/-- Record that the step limit is reached, and let the policy produce the outcome. -/
def stopWithFallback (threadId : String) (transcript : Transcript) :
    AgentProgram (Except CoreError RunOutcome) :=
  (recordRunLoopStop ctx threadId .stepLimitExceeded).andThen fun _ => do
    let outcome ← (AgentCall.fallback transcript threadId).ask
    return outcome.mapError .generic

def promptMessages (transcript : Transcript) : List ChatMessage :=
  transcript.render kit.jsonText ctx.promptBudget

/-- The transcript after a first answer that does not parse. -/
def rejectParse (transcript : Transcript) (raw : String) (e : CoreError) : Transcript :=
  ((transcript.recordError (parseErrorLabel e) e.display).push
    (.parseRejected (parseErrorLabel e ++ " " ++ e.display ++ " hash=" ++ kit.sha256HexStr raw ++
      " bytes=" ++ toString raw.utf8ByteSize))).push
    (.user ("IMPORTANT: Your previous response did not match schema " ++ AGENT_STEP_V1 ++
      ". Error: " ++ e.display ++ ". Return ONLY one JSON object that matches the schema."))

/-- The transcript after a second answer that does not parse. -/
def rejectParseRetry (transcript : Transcript) (e : CoreError) : Transcript :=
  (transcript.recordError "parse_retry" e.display).push
    (.user ("Return ONLY one JSON object matching schema " ++ AGENT_STEP_V1 ++ ". Error: " ++
      e.display ++ "."))

/-- The step of an answer, with the answer and the transcript it was found with. -/
def parseWithRetry (options : LlmCallOptions) (raw : String) (transcript : Transcript) :
    AgentProgram (Except CoreError (AgentStep × String × Transcript)) :=
  match kit.parseAgentStep raw with
  | .ok step => return .ok (step, raw, transcript)
  | .error e =>
    if !isRetriableParseError e then return .error e
    else
      let transcript := rejectParse kit transcript raw e
      (ctx.llmChat kit (promptMessages kit ctx transcript) options).andThen fun raw =>
        match kit.parseAgentStep raw with
        | .ok step => return .ok (step, raw, transcript)
        | .error e =>
          if !isRetriableParseError e then return .error e
          else
            let transcript := rejectParseRetry transcript e
            (ctx.llmChat kit (promptMessages kit ctx transcript) options).andThen fun raw =>
              match kit.parseAgentStep raw with
              | .ok step => return .ok (step, raw, transcript)
              | .error e => return .error e

/-- A call that ends otherwise is a failure, as `ToolOutcome.fromResult` makes of an error. -/
def boundedToolResult (timeoutSecs : Nat) (name : String) (args : Json) :
    AgentProgram ToolOutcome := do
  match ← (AgentCall.callToolWithin timeoutSecs name args).ask with
  | .cancelled => return .failed ⟨"cancelled"⟩
  | .elapsed => return .failed ⟨"tool timeout"⟩
  | .finished outcome => return outcome

/-- The log steps around a tool call. -/
def observer (threadId : String) : Observer AgentCall AgentCall.Answer where
  appendStep step := (AgentCall.appendStep threadId step).ask
  arm step := (AgentCall.armGuard step).ask
  disarm := AgentCall.disarmGuard.ask

/-- The call that is bracketed by log steps. -/
def toolOperation (timeoutSecs : Nat) (name : String) (args : Json) :
    AgentProgram (Except String Json) := do
  match ← boundedToolResult timeoutSecs name args with
  | .ok v => return .ok v
  | .failed e => return .error e.message

def observedToolCall (threadId : String) (timeoutSecs : Nat) (name : String) (args : Json) :
    AgentProgram ToolOutcome := do
  let cleanName ← (AgentCall.cleanToolName name args).ask
  let info : ToolStepMeta :=
    ⟨ctx.agentNameOrDefault, "agent_loop", name, cleanName, args, ctx.execCtx⟩
  let stamp ← AgentCall.toolStamp.ask
  match ← (observer threadId).runObserved info stamp (toolOperation timeoutSecs name args)
      (fun raw => .ok raw) with
  | .ok v => return .ok v
  | .error e => return .failed ⟨e⟩

def executeToolCall (threadId name : String) (args : Json) : AgentProgram ToolOutcome := do
  match ← AgentCall.isCancelled.ask with
  | true => return .failed ⟨"cancelled"⟩
  | false => do
    match ← (AgentCall.charge .toolCall).ask with
    | .error e => return .failed ⟨e.display⟩
    | .ok () => do
      let timeout ← (AgentCall.timeoutForTool name).ask
      let timeoutSecs := max (timeout.getD ctx.perStepTimeoutSecs) 1
      if ctx.threadStore then observedToolCall ctx threadId timeoutSecs name args
      else boundedToolResult timeoutSecs name args

def appendObservationToTranscript (transcript : Transcript) (raw tool : String) :
    ToolOutcome → Transcript
  | .ok v => (transcript.push (.assistant raw)).push (.observation tool (.ok v))
  | .failed e =>
    let rendered := kit.renderFailureContext (ToolOutcome.failed e).observation
      ctx.promptBudget.perEntryChars
    ((transcript.push (.assistant raw)).recordError tool e.message).push
      (.observation tool (.failed ⟨rendered⟩))

def hashArgs (args : Json) : UInt64 := kit.hashStr (kit.jsonText args)

/-- A rejected completion goes round again. -/
def completeTurn (threadId : String) (transcript : Transcript) (ledger : ActionLedger)
    (env : CompleteEnvelope) : AgentProgram Turn := do
  match ← (AgentCall.handleComplete transcript threadId env).ask with
  | (_, .error e) => return .done (.error (.generic e))
  | (_, .ok (.accept result)) => return .done (.ok (.complete threadId result))
  | (transcript, .ok (.reject reason)) => do
    let transcript := transcript.recordError "complete" reason
    match ← recordRunLoopStop ctx threadId (.rejectedComplete reason) with
    | .error e => return .done (.error e)
    | .ok () => return .again transcript ledger

/-- A failed action goes round again, unless it has failed too often. -/
def toolTurn (threadId : String) (transcript : Transcript) (ledger : ActionLedger)
    (raw name : String) (args : Json) : AgentProgram Turn := do
  let outcome ← executeToolCall ctx threadId name args
  match ← (AgentCall.interruptForAction name args outcome outcome.asInterruptValue).ask with
  | some (kind, prompt) => do
    match ← recordRunLoopStop ctx threadId (.policyBlocked (kind.asStr ++ ": " ++ prompt)) with
    | .error e => return .done (.error e)
    | .ok () => return .done (.ok (.interrupt threadId kind prompt))
  | none => do
    let transcript := appendObservationToTranscript kit ctx transcript raw name outcome
    if outcome.isOk then return .again transcript ledger
    else
      match ledger.recordFailure (hashArgs kit) name args with
      | (_, .error _) => do
        let r ← stopWithFallback ctx threadId transcript
        return .done r
      | (ledger, .ok _) => return .again transcript ledger

def actTurn (options : LlmCallOptions) (threadId : String) (transcript : Transcript)
    (ledger : ActionLedger) : AgentProgram Turn := do
  match ← ctx.llmChat kit (promptMessages kit ctx transcript) options with
  | .error e => return .done (.error e)
  | .ok raw => do
    match ← parseWithRetry kit ctx options raw transcript with
    | .error e => return .done (.error e)
    | .ok (.complete env, _, transcript) => completeTurn ctx threadId transcript ledger env
    | .ok (.tool name args, raw, transcript) =>
      toolTurn kit ctx threadId transcript ledger raw name args

def turn (options : LlmCallOptions) (threadId : String) (transcript : Transcript)
    (ledger : ActionLedger) : AgentProgram Turn := do
  match ← (AgentCall.charge .agentStep).ask with
  | .error .agentSteps => do
    let r ← stopWithFallback ctx threadId transcript
    return .done r
  | .error e => return .done (.error (.budget e))
  | .ok () => do
    match ← AgentCall.isCancelled.ask with
    | true => return .done (.error (.llm .cancelled))
    | false => actTurn kit ctx options threadId transcript ledger

def runLoop (options : LlmCallOptions) (threadId : String) :
    Nat → Transcript → ActionLedger → AgentProgram (Option (Except CoreError RunOutcome))
  | 0, _, _ => return none
  | fuel + 1, transcript, ledger => do
    match ← turn kit ctx options threadId transcript ledger with
    | .done result => return some result
    | .again transcript ledger => runLoop options threadId fuel transcript ledger

def threadIdOrNew : AgentProgram String :=
  match ctx.threadId with
  | some tid => return tid
  | none => AgentCall.genUuid.ask

def runUntilBlock (systemPrompt toolsCard question : String) (options : LlmCallOptions)
    (fuel : Nat) : AgentProgram (Option (Except CoreError RunOutcome)) := do
  let options := { options with expectedFormat := .jsonSchema AGENT_STEP_V1 }
  let tid ← threadIdOrNew ctx
  let outputContract := "OUTPUT_CONTRACT schema_id=" ++ AGENT_STEP_V1 ++
    ". Return exactly one JSON object matching this schema_id."
  let preludeEntries ← (AgentCall.preludeEntries tid).ask
  let transcript := Transcript.start kit.jsonText systemPrompt toolsCard outputContract
    preludeEntries question
  runLoop kit ctx options tid fuel transcript .default

end Loop
end ReactRuntime.Agent
