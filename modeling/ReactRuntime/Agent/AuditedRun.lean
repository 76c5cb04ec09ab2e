import ReactRuntime.Agent.Permits

/-!
# The record of a run

With a thread store, the log of the thread tells what a run did: each provider call stands between the
start and the end of a recorded model call, each tool call in a bracket of its own, and what is
recorded is what was answered. If the store refuses a step of a model call, the run ends.
-/
namespace ReactRuntime.Agent
open Library Serde ReactRuntime.Core Session

/-- A model call that has been started: what the provider has been asked, and how the last attempt
ended. -/
structure Asking where
  callId : UInt64
  phase : String
  prompts : List (List ChatMessage)
  last : Option (Except LlmError String)

/-- What a run is in the middle of. -/
inductive Stage where
  | idle
  | asking (call : Asking)
  | asked (call : Asking) (res : Except LlmError String)
  | acting (toolId name : String) (args : Json) (outcome : Option ToolOutcome)
  | halted (e : CoreError)

section Answers

def recordedText : Except LlmError String → String
  | .ok text => text
  | .error e => (CoreError.llm e).display

def recordedEnd : Except LlmError String → LlmStepStatus × Option String
  | .ok _ => (.ok, none)
  | .error e => (.failed, some (CoreError.llm e).display)

def recordedObservation : Except LlmError String → Observation
  | .ok _ => .okay
  | .error _ => .fail ["llm_call_failed"]

def chatResult : Cancellable (Except LlmError String) → Except LlmError String
  | .cancelled => .error .cancelled
  | .finished result => result

def chatWithinResult (secs : Nat) : Raced (Except LlmError String) → Except LlmError String
  | .cancelled => .error .cancelled
  | .elapsed => .error (.timeout secs)
  | .finished result => result

def toolResult : Raced ToolOutcome → ToolOutcome
  | .cancelled => .failed ⟨"cancelled"⟩
  | .elapsed => .failed ⟨"tool timeout"⟩
  | .finished outcome => outcome

def operationResult : ToolOutcome → Except String Json
  | .ok v => .ok v
  | .failed e => .error e.message

end Answers

/-- Another attempt asks the same, and only after a transient error. -/
def Asking.attempt (call : Asking) (messages : List ChatMessage) (result : Except LlmError String) :
    Option Stage :=
  let transient : Bool := match call.last with
    | none => true
    | some (.ok _) => false
    | some (.error e) => Classify.retry e
  if transient ∧ call.prompts.length ≤ LLM_TRANSIENT_RETRY_DELAYS_MS.length ∧
      ∀ prompt ∈ call.prompts, prompt = messages then
    some (.asking { call with prompts := messages :: call.prompts, last := some result })
  else none

/-- A run does not go on without the step. -/
def Stage.orHalt (next : Stage) : Except CoreError Unit → Stage
  | .ok () => next
  | .error e => .halted e

/-- The steps of the thread, each with the store's answer. A tool whose start is not recorded is not
called, and the run goes on. -/
def Stage.record (kit : TextKit) : Stage → ThreadStep → Except CoreError Unit → Option Stage
  | .idle, .llmStart callId _ phase _ _ _, r => some (orHalt (.asking ⟨callId, phase, [], none⟩) r)
  | .asking call, .llmEnd callId _ phase status error _ _ _, r => match call.last with
    | none => none
    | some res =>
      if callId = call.callId ∧ phase = call.phase ∧ (status, error) = recordedEnd res then
        some (orHalt (.asked call res) r)
      else none
  | .asked call res, .llmCall callId _ phase promptHash _ _ responseHash responseText obs _ _, r =>
    if callId = call.callId ∧ phase = call.phase ∧
        (∀ prompt ∈ call.prompts, promptHash = kit.promptHashForMessages prompt) ∧
        responseHash = kit.sha256HexStr (recordedText res) ∧
        (∀ text ∈ responseText, text = kit.redactCommonSecrets (recordedText res)) ∧
        obs = recordedObservation res then
      some (orHalt .idle r)
    else none
  | .idle, .toolStart toolId name _ args _ _ _ _ _, r => some (match r with
    | .ok () => .acting toolId name args none
    | .error _ => .idle)
  | .acting toolId name args (some outcome), .toolEnd toolId' name' _ args' status _ _ obs _ _, _ =>
    if toolId' = toolId ∧ name' = name ∧ args' = args ∧
        status = (if outcome.isOk then .ok else .failed) ∧ obs = outcome.observation then
      some .idle
    else none
  | .idle, .runLoopStop _ _ _ _ _, r => some (orHalt .idle r)
  | _, _, _ => none

/-- The calls that wait until nothing is left to record: the charge of an iteration, and all that the
policy is asked. -/
def AgentCall.waits : AgentCall → Bool
  | .charge .agentStep | .preludeEntries _ | .interruptForAction _ _ _ _ | .handleComplete _ _ _
  | .fallback _ _ | .cleanToolName _ _ | .timeoutForTool _ => true
  | _ => false

/-- The provider is called only for a started model call, and a tool only in its own bracket. After a
refused step nothing is called at all. -/
def Stage.next (kit : TextKit) (tid : String) : Monitor AgentCall AgentCall.Answer Stage
  | .halted _, _, _ => none
  | stage, .appendStep threadId step, r => if threadId = tid then stage.record kit step r else none
  | .asking call, .chat messages _, r => call.attempt messages (chatResult r)
  | .asking call, .chatWithin secs messages _, r => call.attempt messages (chatWithinResult secs r)
  | .asking call, .isCancelled, flag =>
    some (.asking (if flag then { call with last := some (.error .cancelled) } else call))
  | .asking call, .charge .llmCall, r => some (.asking (match r with
    | .ok () => call
    | .error e => { call with last := some (.error (.budget e)) }))
  | .acting toolId name args none, .callToolWithin _ name' args', r =>
    if name' = name ∧ args' = args then
      some (.acting toolId name args (some (toolResult r)))
    else none
  | .idle, c, _ => if c.cost = none then some .idle else none
  | stage, c, _ => if c.cost = none ∧ c.waits = false then some stage else none

/-- Every model call is to be recorded. -/
def Recording : (c : AgentCall) → c.Answer → Prop
  | .llmCallsEnabled, enabled => enabled = true
  | _, _ => True

/-- Nothing is left to record, or the run ends with the error of a refused step. -/
def Ends {α : Type} (r : Except CoreError α) (stage : Stage) : Prop :=
  stage = .idle ∨ ∃ e, stage = .halted e ∧ r = .error e

section
variable {kit : TextKit} {tid : String} {stage : Stage}

/-- A call that changes nothing. -/
theorem follows_ask_same (c : AgentCall) (hc : ∀ a, Stage.next kit tid stage c a = some stage) :
    c.ask.Follows (Stage.next kit tid) Recording (fun _ w => w = stage) stage :=
  fun a _ => ⟨stage, hc a, rfl⟩

theorem Ends.idle {α : Type} (r : Except CoreError α) : Ends r .idle := .inl rfl

theorem Ends.idle_of_ok {α : Type} {a : α} (h : Ends (.ok a) stage) : stage = .idle := by
  rcases h with h | ⟨e, -, he⟩
  · exact h
  · cases he

theorem Ends.error {α β : Type} {e : CoreError} (h : Ends (.error e : Except CoreError α) stage) :
    Ends (.error e : Except CoreError β) stage := by
  rcases h with h | ⟨e', hstage, he⟩
  · exact .inl h
  · cases he
    exact .inr ⟨e, hstage, rfl⟩

/-- A step that is needed is recorded, or its error ends the run. -/
theorem Ends.orHalt (r : Except CoreError Unit) : Ends r (Stage.orHalt .idle r) := by
  cases r with
  | ok u => exact .inl rfl
  | error e => exact .inr ⟨e, rfl, rfl⟩

end

section Gateway
variable {kit : TextKit} {ctx : AgentCtx} {tid : String}

/-- A started model call that has been asked for `messages` alone, with at least `n` attempts
left. -/
structure Asking.Of (call : Asking) (callId : UInt64) (phase : String)
    (messages : List ChatMessage) (n : Nat) : Prop where
  callId_eq : call.callId = callId
  phase_eq : call.phase = phase
  prompts : ∀ prompt ∈ call.prompts, prompt = messages
  few : call.prompts.length + n ≤ LLM_TRANSIENT_RETRY_DELAYS_MS.length + 1

variable {callId : UInt64} {phase : String} {messages : List ChatMessage}

/-- The next attempt may start. -/
def Ready (callId : UInt64) (phase : String) (messages : List ChatMessage) (n : Nat)
    (stage : Stage) : Prop :=
  ∃ call, stage = .asking call ∧ call.Of callId phase messages (n + 1) ∧
    (call.last = none ∨ ∃ e, call.last = some (.error e) ∧ Classify.retry e = true)

/-- An attempt has ended with `r`. -/
def Answered (callId : UInt64) (phase : String) (messages : List ChatMessage) (n : Nat)
    (r : Except LlmError String) (stage : Stage) : Prop :=
  ∃ call, stage = .asking call ∧ call.Of callId phase messages n ∧ call.last = some r

theorem Ready.attempt {n : Nat} {call : Asking} (h : Ready callId phase messages n (.asking call))
    (r : Except LlmError String) :
    ∃ stage, call.attempt messages r = some stage ∧ Answered callId phase messages n r stage := by
  obtain ⟨call', hcall, hof, hlast⟩ := h
  cases hcall
  have hfew := hof.few
  refine ⟨.asking { call with prompts := messages :: call.prompts, last := some r }, ?_, _, rfl,
    ⟨hof.callId_eq, hof.phase_eq, ?_, ?_⟩, rfl⟩
  · rw [Asking.attempt]
    apply if_pos
    refine ⟨?_, by omega, hof.prompts⟩
    rcases hlast with h | ⟨e, h, he⟩
    · simp only [h]
    · simp only [h, he]
  · exact List.forall_mem_cons.mpr ⟨rfl, hof.prompts⟩
  · rw [List.length_cons]
    omega

theorem Ready.answered {n : Nat} {call : Asking} (h : Ready callId phase messages n (.asking call))
    (r : Except LlmError String) :
    Answered callId phase messages n r (.asking { call with last := some r }) := by
  obtain ⟨call', hcall, hof, -⟩ := h
  cases hcall
  have hfew := hof.few
  exact ⟨_, rfl, ⟨hof.callId_eq, hof.phase_eq, hof.prompts, by dsimp only; omega⟩, rfl⟩

theorem follows_raceChat_audited {n : Nat} {stage : Stage}
    (h : Ready callId phase messages n stage) (options : LlmCallOptions) :
    (AgentCtx.raceChat messages options).Follows (Stage.next kit tid) Recording
      (Answered callId phase messages n) stage := by
  obtain ⟨call, rfl, hof, hlast⟩ := id h
  unfold AgentCtx.raceChat
  cases options.timeoutSecs with
  | some secs =>
    intro a _
    obtain ⟨stage, hstage, hanswered⟩ := h.attempt (chatWithinResult secs a)
    refine ⟨stage, hstage, ?_⟩
    cases a <;> exact Program.Follows.ret hanswered
  | none =>
    intro a _
    obtain ⟨stage, hstage, hanswered⟩ := h.attempt (chatResult a)
    refine ⟨stage, hstage, ?_⟩
    cases a <;> exact Program.Follows.ret hanswered

theorem follows_invokeLlmOnce {n : Nat} {stage : Stage} (h : Ready callId phase messages n stage)
    (options : LlmCallOptions) :
    (AgentCtx.invokeLlmOnce messages options).Follows (Stage.next kit tid) Recording
      (Answered callId phase messages n) stage := by
  obtain ⟨call, rfl, hof, hlast⟩ := id h
  intro flag _
  cases flag with
  | true => exact ⟨_, rfl, Program.Follows.ret (h.answered _)⟩
  | false =>
    refine ⟨.asking call, rfl, ?_⟩
    intro r _
    cases r with
    | error e => exact ⟨_, rfl, Program.Follows.ret (h.answered _)⟩
    | ok u => exact ⟨.asking call, rfl, follows_raceChat_audited h options⟩

theorem follows_invokeLlm (options : LlmCallOptions) :
    (AgentCtx.invokeLlm messages options).Follows (Stage.next kit tid) Recording
      (fun r stage => ∃ n res, r = Except.mapError CoreError.llm res ∧
        Answered callId phase messages n res stage) (.asking ⟨callId, phase, [], none⟩) := by
  have hstart : Ready callId phase messages LLM_TRANSIENT_RETRY_DELAYS_MS.length
      (.asking ⟨callId, phase, [], none⟩) :=
    ⟨_, rfl, ⟨rfl, rfl, fun _ h => absurd h List.not_mem_nil, Nat.le_refl 3⟩, .inl rfl⟩
  have hagain : ∀ n (e : LlmError) stage, Classify.retry e = true →
      Answered callId phase messages (n + 1) (.error e) stage → Ready callId phase messages n stage := by
    rintro n e stage he ⟨call, rfl, hof, hlast⟩
    exact ⟨call, rfl, hof, .inr ⟨e, hlast, he⟩⟩
  have honce : ∀ n stage, Ready callId phase messages n stage →
      (AgentCtx.invokeLlmOnce messages options).Follows (Stage.next kit tid) Recording
        (Answered callId phase messages n) stage :=
    fun n stage h => follows_invokeLlmOnce h options
  refine (follows_retryClassified honce hagain LLM_TRANSIENT_RETRY_DELAYS_MS hstart).bind
    fun res stage hres => Program.Follows.ret ?_
  obtain ⟨n, hres⟩ := hres
  exact ⟨n, res, rfl, hres⟩

theorem next_appendStep {stage : Stage} (h : ∀ e, stage ≠ .halted e) (step : ThreadStep)
    (r : Except CoreError Unit) :
    Stage.next kit tid stage (.appendStep tid step) r = stage.record kit step r := by
  cases stage with
  | halted e => exact absurd rfl (h e)
  | idle => exact if_pos rfl
  | asking call => exact if_pos rfl
  | asked call res => exact if_pos rfl
  | acting toolId name args outcome => cases outcome <;> exact if_pos rfl

theorem next_now {stage : Stage} (h : ∀ e, stage ≠ .halted e) (ts : String) :
    Stage.next kit tid stage .now ts = some stage := by
  cases stage with
  | halted e => exact absurd rfl (h e)
  | idle => rfl
  | asking call => rfl
  | asked call res => rfl
  | acting toolId name args outcome => cases outcome <;> rfl

/-- A step with the time it is built at. -/
theorem follows_appendNow {stage : Stage} {Q : Except CoreError Unit → Stage → Prop}
    (hstage : ∀ e, stage ≠ .halted e) {step : String → ThreadStep}
    (hstep : ∀ ts r, ∃ w, stage.record kit (step ts) r = some w ∧ Q r w) :
    (AgentCall.now.ask.bind fun ts => (AgentCall.appendStep tid (step ts)).ask).Follows
      (Stage.next kit tid) Recording Q stage := by
  refine (follows_ask_same .now (next_now hstage)).bind fun ts w hw => ?_
  subst hw
  intro r _
  obtain ⟨w, hw, hr⟩ := hstep ts r
  exact ⟨w, (next_appendStep hstage _ r).trans hw, hr⟩

variable (hthread : ctx.threadId = some tid) (hstore : ctx.threadStore = true)
include hthread hstore

theorem follows_emitStep {step : UInt64 → String → ThreadStep} {stage : Stage}
    {Q : Except CoreError Unit → Stage → Prop} (hstage : ∀ e, stage ≠ .halted e)
    (hstep : ∀ ts r, ∃ w, stage.record kit (step callId ts) r = some w ∧ Q r w) :
    (ctx.emitStep (some callId) step).Follows (Stage.next kit tid) Recording Q stage := by
  unfold AgentCtx.emitStep
  rw [hthread, hstore]
  exact follows_appendNow hstage hstep

theorem follows_prepareObservability :
    (ctx.prepareObservability kit messages).Follows (Stage.next kit tid) Recording
      (fun obs stage => stage = .idle ∧ ∃ callId phase built,
        obs = ⟨some callId, phase, kit.promptHashForMessages messages, some built⟩) .idle := by
  unfold AgentCtx.prepareObservability
  rw [hthread]
  intro enabled henabled
  cases (henabled : enabled = true)
  refine ⟨.idle, rfl, ?_⟩
  refine (follows_ask_same (.nextCallId tid) fun _ => rfl).bind fun callId w hw => ?_
  subst hw
  refine Program.Follows.bind (Q := fun _ stage => stage = .idle) ?_ fun phase w hw => ?_
  · unfold AgentCtx.phaseOfCall
    split_ifs
    refine (follows_ask_same (.getLog tid) fun _ => rfl).bind fun log w hw => ?_
    cases log <;> exact Program.Follows.ret hw
  · subst hw
    refine (follows_ask_same (.buildPartsForThread tid _) fun _ => rfl).bind fun built w hw => ?_
    exact Program.Follows.ret ⟨hw, callId, phase, built, rfl⟩

theorem follows_recordLlmObservation {call : Asking} {n : Nat}
    (hof : call.Of callId phase messages n) (built : BuiltParts) (res : Except LlmError String) :
    (ctx.recordLlmObservation kit
      ⟨some callId, phase, kit.promptHashForMessages messages, some built⟩
      (res.mapError .llm)).Follows (Stage.next kit tid) Recording Ends (.asked call res) := by
  unfold AgentCtx.recordLlmObservation
  rw [hthread, hstore]
  refine (follows_ask_same .llmResponseTextEnabled fun _ => rfl).bind fun textEnabled w hw => ?_
  subst hw
  refine follows_appendNow ?_ fun ts r => ⟨_, if_pos ⟨hof.callId_eq.symm, hof.phase_eq.symm,
    fun prompt hprompt => ?_, ?_, ?_, ?_⟩, Ends.orHalt r⟩
  · exact nofun
  · rw [hof.prompts prompt hprompt]
  · cases res <;> rfl
  · cases res <;> cases textEnabled <;> simp [Except.mapError, recordedText]
  · cases res <;> rfl

theorem follows_emitLlmStartStep :
    (ctx.emitLlmStartStep (some callId) phase).Follows (Stage.next kit tid) Recording
      (fun r stage => stage = Stage.orHalt (.asking ⟨callId, phase, [], none⟩) r) .idle := by
  refine follows_emitStep hthread hstore ?_ fun ts r => ⟨_, rfl, rfl⟩
  exact nofun

theorem follows_emitLlmEndStep {call : Asking} {n : Nat} (hof : call.Of callId phase messages n)
    {res : Except LlmError String} (hlast : call.last = some res) :
    (ctx.emitLlmEndStep (some callId) phase (res.mapError .llm)).Follows (Stage.next kit tid)
      Recording (fun r stage => stage = Stage.orHalt (.asked call res) r) (.asking call) := by
  refine follows_emitStep hthread hstore ?_ fun ts r => ⟨_, ?_, rfl⟩
  · exact nofun
  · simp only [Stage.record, hlast]
    apply if_pos
    refine ⟨hof.callId_eq.symm, hof.phase_eq.symm, ?_⟩
    cases res <;> rfl

/-- A model call is recorded from its start to its answer. -/
theorem follows_llmChat (options : LlmCallOptions) :
    (ctx.llmChat kit messages options).Follows (Stage.next kit tid) Recording Ends .idle := by
  refine (follows_prepareObservability hthread hstore).bind fun obs w hobs => ?_
  obtain ⟨rfl, callId, phase, built, rfl⟩ := hobs
  refine (follows_emitLlmStartStep hthread hstore).andThen (fun _ w hw => ?_)
    fun e w hw => .inr ⟨e, hw, rfl⟩
  cases (hw : w = .asking ⟨callId, phase, [], none⟩)
  refine (follows_invokeLlm _).bind fun r w hw => ?_
  obtain ⟨n, res, rfl, call, rfl, hof, hlast⟩ := hw
  refine (follows_emitLlmEndStep hthread hstore hof hlast).andThen (fun _ w hw => ?_)
    fun e w hw => .inr ⟨e, hw, rfl⟩
  cases (hw : w = .asked call res)
  refine (follows_recordLlmObservation hthread hstore hof built res).andThen (fun _ w hw => ?_)
    fun e w hw => hw.error
  exact Program.Follows.ret (.inl hw.idle_of_ok)

end Gateway

section Tools
variable {kit : TextKit} {ctx : AgentCtx} {tid : String}

theorem follows_boundedToolResult_audited (toolId : String) (secs : Nat) (name : String)
    (args : Json) :
    (boundedToolResult secs name args).Follows (Stage.next kit tid) Recording
      (fun outcome stage => stage = .acting toolId name args (some outcome))
      (.acting toolId name args none) := by
  intro a _
  refine ⟨_, if_pos ⟨rfl, rfl⟩, ?_⟩
  cases a <;> exact Program.Follows.ret rfl

/-- The tool runs in a bracket of its own, and the bracket is closed with its outcome. -/
theorem follows_observedToolCall_audited (secs : Nat) (name : String) (args : Json) :
    (observedToolCall ctx tid secs name args).Follows (Stage.next kit tid) Recording
      (fun _ stage => stage = .idle) .idle := by
  refine (follows_ask_same (.cleanToolName name args) fun _ => rfl).bind fun cleanName w hw => ?_
  subst hw
  refine (follows_ask_same .toolStamp fun _ => rfl).bind fun stamp w hw => ?_
  subst hw
  refine Program.Follows.bind (Q := fun _ stage => stage = .idle) ?_ fun r w hw => ?_
  · refine Observer.follows_runObserved (S := fun w => w = .acting stamp.toolId name args none)
      (P := fun result w => ∃ outcome, w = .acting stamp.toolId name args (some outcome) ∧
        result = operationResult outcome)
      (D := fun _ w => w = .idle) ?_ ?_ ?_ ?_
    · intro r _
      cases r with
      | ok u => exact ⟨_, if_pos rfl, rfl⟩
      | error e => exact ⟨_, if_pos rfl, rfl⟩
    · rintro w rfl
      refine (follows_ask_same (.armGuard _) fun _ => rfl).bind fun _ w hw => ?_
      subst hw
      refine (follows_boundedToolResult_audited stamp.toolId secs name args).bind
        fun outcome w hw => ?_
      cases outcome <;> exact Program.Follows.ret ⟨_, hw, rfl⟩
    · rintro result w ⟨outcome, rfl, rfl⟩
      intro r _
      refine ⟨.idle, ?_, ?_⟩
      · refine (if_pos rfl).trans ?_
        cases outcome <;> exact if_pos ⟨rfl, rfl, rfl, rfl, rfl⟩
      · cases r <;> rfl
    · rintro result w rfl
      exact follows_ask_same .disarmGuard fun _ => rfl
  · cases r <;> exact Program.Follows.ret hw

theorem follows_executeToolCall (hstore : ctx.threadStore = true) (name : String) (args : Json) :
    (executeToolCall ctx tid name args).Follows (Stage.next kit tid) Recording
      (fun _ stage => stage = .idle) .idle := by
  refine (follows_ask_same .isCancelled fun _ => rfl).bind fun cancelled w hw => ?_
  subst hw
  cases cancelled with
  | true => exact Program.Follows.ret rfl
  | false =>
    refine (follows_ask_same (.charge .toolCall) fun _ => rfl).bind fun r w hw => ?_
    subst hw
    cases r with
    | error e => exact Program.Follows.ret rfl
    | ok u =>
      refine (follows_ask_same (.timeoutForTool name) fun _ => rfl).bind fun timeout w hw => ?_
      subst hw
      dsimp only
      rw [if_pos hstore]
      exact follows_observedToolCall_audited _ name args

end Tools

section Loop
variable {kit : TextKit} {ctx : AgentCtx} {tid : String} (hthread : ctx.threadId = some tid)
  (hstore : ctx.threadStore = true)

section Stops
include hstore

theorem follows_recordRunLoopStop (stop : RunLoopStop) :
    (recordRunLoopStop ctx tid stop).Follows (Stage.next kit tid) Recording Ends .idle := by
  unfold recordRunLoopStop
  rw [if_pos hstore]
  refine follows_appendNow ?_ fun ts r => ⟨_, rfl, Ends.orHalt r⟩
  exact nofun

theorem follows_stopWithFallback (transcript : Transcript) :
    (stopWithFallback ctx tid transcript).Follows (Stage.next kit tid) Recording Ends .idle := by
  refine (follows_recordRunLoopStop hstore _).andThen (fun _ w hw => ?_) fun e w hw => hw.error
  cases hw.idle_of_ok
  refine (follows_ask_same (.fallback transcript tid) fun _ => rfl).bind fun outcome w hw => ?_
  exact Program.Follows.ret (.inl hw)

end Stops

/-- An iteration ends the run, or goes round again with nothing left to record. -/
def TurnEnds : Turn → Stage → Prop
  | .done r, stage => Ends r stage
  | .again _ _, stage => stage = .idle

section Turns
include hstore

theorem follows_completeTurn (transcript : Transcript) (ledger : ActionLedger)
    (env : CompleteEnvelope) :
    (completeTurn ctx tid transcript ledger env).Follows (Stage.next kit tid) Recording TurnEnds
      .idle := by
  refine (follows_ask_same (.handleComplete transcript tid env) fun _ => rfl).bind fun r w hw => ?_
  subst hw
  split
  · exact Program.Follows.ret (Ends.idle _)
  · exact Program.Follows.ret (Ends.idle _)
  · refine (follows_recordRunLoopStop hstore _).bind fun recorded w hw => ?_
    cases recorded with
    | error e => exact Program.Follows.ret hw.error
    | ok u => exact Program.Follows.ret hw.idle_of_ok

theorem follows_toolTurn (transcript : Transcript) (ledger : ActionLedger) (raw name : String)
    (args : Json) :
    (toolTurn kit ctx tid transcript ledger raw name args).Follows (Stage.next kit tid) Recording
      TurnEnds .idle := by
  refine (follows_executeToolCall hstore name args).bind fun outcome w hw => ?_
  subst hw
  refine (follows_ask_same (.interruptForAction name args outcome _) fun _ => rfl).bind
    fun r w hw => ?_
  subst hw
  cases r with
  | some interrupt =>
    refine (follows_recordRunLoopStop hstore _).bind fun recorded w hw => ?_
    cases recorded with
    | error e => exact Program.Follows.ret hw.error
    | ok u => exact Program.Follows.ret (.inl hw.idle_of_ok)
  | none =>
    dsimp only
    split_ifs
    · exact Program.Follows.ret rfl
    · split
      · exact (follows_stopWithFallback hstore _).bind fun r w hw => Program.Follows.ret hw
      · exact Program.Follows.ret rfl

end Turns

include hthread hstore

theorem follows_parseWithRetry (options : LlmCallOptions) (raw : String) (transcript : Transcript) :
    (parseWithRetry kit ctx options raw transcript).Follows (Stage.next kit tid) Recording Ends
      .idle := by
  unfold parseWithRetry
  split
  · exact Program.Follows.ret (Ends.idle _)
  · split_ifs
    · exact Program.Follows.ret (Ends.idle _)
    · refine (follows_llmChat hthread hstore _).andThen (fun second w hw => ?_)
        fun e w hw => hw.error
      cases hw.idle_of_ok
      split
      · exact Program.Follows.ret (Ends.idle _)
      · split_ifs
        · exact Program.Follows.ret (Ends.idle _)
        · refine (follows_llmChat hthread hstore _).andThen (fun third w hw => ?_)
            fun e w hw => hw.error
          cases hw.idle_of_ok
          split <;> exact Program.Follows.ret (Ends.idle _)

theorem follows_actTurn (options : LlmCallOptions) (transcript : Transcript)
    (ledger : ActionLedger) :
    (actTurn kit ctx options tid transcript ledger).Follows (Stage.next kit tid) Recording TurnEnds
      .idle := by
  refine (follows_llmChat hthread hstore options).bind fun answer w hw => ?_
  cases answer with
  | error e => exact Program.Follows.ret hw.error
  | ok raw =>
    cases hw.idle_of_ok
    refine (follows_parseWithRetry hthread hstore options raw transcript).bind fun r w hw => ?_
    rcases r with e | ⟨step, raw, transcript⟩
    · exact Program.Follows.ret hw.error
    · cases hw.idle_of_ok
      cases step with
      | complete env => exact follows_completeTurn hstore transcript ledger env
      | tool name args => exact follows_toolTurn hstore transcript ledger raw name args

theorem follows_turn (options : LlmCallOptions) (transcript : Transcript) (ledger : ActionLedger) :
    (turn kit ctx options tid transcript ledger).Follows (Stage.next kit tid) Recording TurnEnds
      .idle := by
  refine (follows_ask_same (.charge .agentStep) fun _ => rfl).bind fun r w hw => ?_
  subst hw
  split
  · exact (follows_stopWithFallback hstore _).bind fun r w hw => Program.Follows.ret hw
  · exact Program.Follows.ret (Ends.idle _)
  · refine (follows_ask_same .isCancelled fun _ => rfl).bind fun cancelled w hw => ?_
    subst hw
    cases cancelled with
    | true => exact Program.Follows.ret (Ends.idle _)
    | false => exact follows_actTurn hthread hstore options transcript ledger

/-- What a run that may still go on leaves behind. -/
def RunEnds (r : Option (Except CoreError RunOutcome)) (stage : Stage) : Prop :=
  stage = .idle ∨ ∃ e, stage = .halted e ∧ r = some (.error e)

theorem follows_runLoop (options : LlmCallOptions) (fuel : Nat) :
    ∀ (transcript : Transcript) (ledger : ActionLedger),
      (runLoop kit ctx options tid fuel transcript ledger).Follows (Stage.next kit tid) Recording
        RunEnds .idle := by
  induction fuel with
  | zero => exact fun _ _ => Program.Follows.ret (.inl rfl)
  | succ fuel ih =>
    intro transcript ledger
    refine (follows_turn hthread hstore options transcript ledger).bind fun t w hw => ?_
    cases t with
    | done r =>
      rcases hw with hw | ⟨e, hw, rfl⟩
      · exact Program.Follows.ret (.inl hw)
      · exact Program.Follows.ret (.inr ⟨e, hw, rfl⟩)
    | again transcript ledger =>
      cases (hw : w = .idle)
      exact ih transcript ledger

/-- Whatever is answered, the thread's log tells what the run did: the rules accept every call, and
when it returns nothing is left to record, or its error is that of the step that was refused. -/
theorem agent_run_audited {σ : Type} {h : (c : AgentCall) → σ → σ × c.Answer}
    (hrecording : ∀ s, (h .llmCallsEnabled s).2 = true) (systemPrompt toolsCard question : String)
    (options : LlmCallOptions) (fuel : Nat) (s : σ) :
    ∃ stage, Monitor.run (Stage.next kit tid) .idle
        ((runUntilBlock kit ctx systemPrompt toolsCard question options fuel).trace h s) =
          some stage ∧
      (stage = .idle ∨ ∃ e, stage = .halted e ∧
        ((runUntilBlock kit ctx systemPrompt toolsCard question options fuel).eval h s).2 =
          some (.error e)) := by
  have hfollows : (runUntilBlock kit ctx systemPrompt toolsCard question options fuel).Follows
      (Stage.next kit tid) Recording RunEnds .idle := by
    unfold runUntilBlock threadIdOrNew
    rw [hthread]
    refine (follows_ask_same (.preludeEntries tid) fun _ => rfl).bind fun entries w hw => ?_
    subst hw
    exact follows_runLoop hthread hstore _ fuel _ .default
  apply hfollows.run_trace
  intro c s
  cases c
  case llmCallsEnabled => exact hrecording s
  all_goals exact trivial

end Loop

/-- The provider answers and the tool fails, and every model call is recorded. -/
def recordedRun : (c : AgentCall) → Unit → Unit × c.Answer
  | .llmCallsEnabled, _ => ((), true)
  | c, _ => ((), (failingTool.answer c ()).2)

/-- Three chats and three tool calls, all of them recorded. -/
theorem agent_run_audited_failingTool :
    let program := runUntilBlock searchKit searchCtx "" "" "" ⟨"", none, .text, none⟩ 11
    (outgoing (program.trace recordedRun ())).length = 6 ∧
    ∃ stage, Monitor.run (Stage.next searchKit "thread") .idle (program.trace recordedRun ()) =
        some stage ∧
      (stage = .idle ∨ ∃ e, stage = .halted e ∧
        (program.eval recordedRun ()).2 = some (.error e)) := by
  refine ⟨by decide +kernel, ?_⟩
  exact agent_run_audited rfl rfl (fun _ => rfl) "" "" "" _ 11 ()

end ReactRuntime.Agent
