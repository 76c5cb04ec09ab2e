import ReactRuntime.Agent.BoundedRun
import ReactRuntime.Library.Monitor

/-!
# Leave to call

Every call of the provider and of a tool has leave of its own: the cancel flag is read, then the call
is charged, and only then it is made. The leave is used up by the call.
-/
namespace ReactRuntime.Agent
open Library Serde ReactRuntime.Core Session

abbrev AgentEvent := Library.Event AgentCall AgentCall.Answer

/-- The charge of a call that leaves the process. -/
def AgentCall.cost : AgentCall → Option Charge
  | .chat _ _ | .chatWithin _ _ _ => some .llmCall
  | .callToolWithin _ _ _ => some .toolCall
  | _ => none

/-- What the run has leave for. -/
inductive Permit where
  | missing
  | cleared
  | granted (k : Charge)
deriving DecidableEq

/-- The permit after a call. A charge for a provider or tool call needs a flag that was seen down, and
the call itself needs the charge. -/
def Permit.next : Monitor AgentCall AgentCall.Answer Permit
  | _, .isCancelled, flag => some (if flag then .missing else .cleared)
  | _, .charge .agentStep, _ => some .missing
  | .cleared, .charge k, .ok () => some (.granted k)
  | .cleared, .charge _, .error _ => some .missing
  | p, c, _ => match c.cost with
    | some k => if p = .granted k then some .missing else none
    | none => some p

/-- Only calls that stay in the process. -/
def Quiet (es : List AgentEvent) : Prop := ∀ e ∈ es, e.1.cost = none

/-- Since the flag was last seen down, no call has left the process. -/
def Cleared (es : List AgentEvent) : Prop :=
  ∃ before after, es = before ++ ⟨.isCancelled, false⟩ :: after ∧ Quiet after

/-- A charge of kind `k` was granted after the flag was seen down, and no call has left the process
since. -/
def Granted (k : Charge) (es : List AgentEvent) : Prop :=
  ∃ before after, es = before ++ ⟨.charge k, .ok ()⟩ :: after ∧ Quiet after ∧ Cleared before

def Permit.Earned : Permit → List AgentEvent → Prop
  | .missing, _ => True
  | .cleared, es => Cleared es
  | .granted k, es => Granted k es

theorem Quiet.concat {es : List AgentEvent} (h : Quiet es) {e : AgentEvent} (he : e.1.cost = none) :
    Quiet (es ++ [e]) := by
  intro x hx
  rcases List.mem_append.mp hx with hx | hx
  · exact h x hx
  · rw [List.mem_singleton.mp hx]
    exact he

theorem Permit.Earned.concat {p : Permit} {es : List AgentEvent} (h : p.Earned es) {e : AgentEvent}
    (he : e.1.cost = none) : p.Earned (es ++ [e]) := by
  cases p with
  | missing => trivial
  | cleared =>
    obtain ⟨before, after, rfl, hquiet⟩ := h
    exact ⟨before, after ++ [e], by simp, hquiet.concat he⟩
  | granted k =>
    obtain ⟨before, after, rfl, hquiet, hcleared⟩ := h
    exact ⟨before, after ++ [e], by simp, hquiet.concat he, hcleared⟩

theorem Quiet.nil : Quiet [] := fun _ he => absurd he List.not_mem_nil

/-- What one accepted call does to a permit. -/
inductive Permit.Effect (p : Permit) : (c : AgentCall) → c.Answer → Permit → Prop
  | check : Effect p .isCancelled false .cleared
  | charge (k : Charge) : p = .cleared → Effect p (.charge k) (.ok ()) (.granted k)
  | lapse {c : AgentCall} {a : c.Answer} : (∀ k, c.cost = some k → p = .granted k) →
    Effect p c a .missing
  | keep {c : AgentCall} {a : c.Answer} : c.cost = none → Effect p c a p

theorem Permit.next_effect {p p' : Permit} {c : AgentCall} {a : c.Answer}
    (h : Permit.next p c a = some p') : Permit.Effect p c a p' := by
  unfold Permit.next at h
  split at h
  · rename_i flag
    cases flag with
    | true =>
      cases h
      exact .lapse nofun
    | false =>
      cases h
      exact .check
  · cases h
    exact .lapse nofun
  · cases h
    exact .charge _ rfl
  · cases h
    exact .lapse nofun
  · split at h
    · rename_i k hcost
      split_ifs at h with hp
      cases h
      refine .lapse fun k' hk' => ?_
      cases hcost.symm.trans hk'
      exact hp
    · rename_i hcost
      cases h
      exact .keep hcost

/-- One call earns what the new permit says. -/
theorem Permit.Effect.earned {p p' : Permit} {c : AgentCall} {a : c.Answer} {es : List AgentEvent}
    (he : Permit.Effect p c a p') (h : p.Earned es) : p'.Earned (es ++ [⟨c, a⟩]) := by
  cases he with
  | check => exact ⟨es, [], rfl, Quiet.nil⟩
  | charge k hp =>
    subst hp
    exact ⟨es, [], rfl, Quiet.nil, h⟩
  | lapse hcost => trivial
  | keep hcost => exact h.concat hcost

theorem Permit.earned_run {p p' : Permit} {es : List AgentEvent} (fs : List AgentEvent)
    (h : p.Earned es) (hrun : Monitor.run Permit.next p fs = some p') : p'.Earned (es ++ fs) := by
  induction fs generalizing p es with
  | nil =>
    cases hrun
    rwa [List.append_nil]
  | cons f fs ih =>
    obtain ⟨q, hq, hrest⟩ := Option.bind_eq_some_iff.mp hrun
    have hfs := ih ((Permit.next_effect hq).earned h) hrest
    rwa [List.append_assoc] at hfs

/-- Each call that leaves the process comes after a granted charge of its own kind. -/
theorem Permit.granted_of_run {p' : Permit} {before after : List AgentEvent} {c : AgentCall}
    {a : c.Answer} {k : Charge}
    (hrun : Monitor.run Permit.next .missing (before ++ ⟨c, a⟩ :: after) = some p')
    (hcost : c.cost = some k) : Granted k before := by
  rw [Monitor.run_append] at hrun
  obtain ⟨q, hq, hrest⟩ := Option.bind_eq_some_iff.mp hrun
  obtain ⟨q', hq', -⟩ := Option.bind_eq_some_iff.mp hrest
  have hearned : q.Earned ([] ++ before) := Permit.earned_run before (by trivial) hq
  cases Permit.next_effect hq' with
  | check => cases hcost
  | charge => cases hcost
  | lapse h => rwa [h k hcost] at hearned
  | keep h => cases h.symm.trans hcost

/-- The flag is read and seen down. -/
def seenDown : AgentEvent → Bool
  | ⟨.isCancelled, flag⟩ => !flag
  | _ => false

/-- The flag is up whenever it is read. -/
def Raised (es : List AgentEvent) : Prop := ∀ e ∈ es, seenDown e = false

instance : DecidablePred Raised := fun _ => inferInstanceAs (Decidable (∀ e ∈ _, _))

/-- The calls that leave the process. -/
def outgoing (es : List AgentEvent) : List AgentEvent := es.filter fun e => e.1.cost.isSome

/-- How many calls may still leave while the flag is up. -/
def Permit.left : Permit → Nat
  | .missing => 0
  | .cleared | .granted _ => 1

theorem Permit.Effect.left_le {p p' : Permit} {c : AgentCall} {a : c.Answer}
    (h : Permit.Effect p c a p') (hup : seenDown ⟨c, a⟩ = false) :
    (if c.cost.isSome then 1 else 0) + p'.left ≤ p.left := by
  cases h with
  | check => cases hup
  | charge k hp =>
    subst hp
    exact Nat.le_refl 1
  | lapse hcost =>
    cases hc : c.cost with
    | none => exact Nat.zero_le _
    | some k =>
      rw [hcost k hc]
      exact Nat.le_refl 1
  | keep hcost =>
    rw [hcost]
    exact (Nat.zero_add _).le

theorem Permit.length_outgoing_le {p p' : Permit} {es : List AgentEvent} (hraised : Raised es)
    (hrun : Monitor.run Permit.next p es = some p') : (outgoing es).length ≤ p.left := by
  induction es generalizing p with
  | nil => exact Nat.zero_le _
  | cons e es ih =>
    obtain ⟨q, hq, hrest⟩ := Option.bind_eq_some_iff.mp hrun
    have hstep := (Permit.next_effect hq).left_le (hraised e List.mem_cons_self)
    have hlater := ih (fun f hf => hraised f (List.mem_cons_of_mem e hf)) hrest
    simp only [outgoing, List.filter_cons] at hlater ⊢
    split_ifs at hstep ⊢
    · rw [List.length_cons]
      omega
    · omega

section Loop
variable {α β : Type}

/-- Whatever it has leave for and whatever is answered, the program makes no call without leave. -/
def Heeds (p : AgentProgram α) : Prop :=
  ∀ w, p.Follows Permit.next (fun _ _ => True) (fun _ _ => True) w

theorem Heeds.ret {a : α} : Heeds (.ret a : AgentProgram α) := fun _ => Program.Follows.ret trivial

theorem Heeds.bind {p : AgentProgram α} {f : α → AgentProgram β} (hp : Heeds p)
    (hf : ∀ a, Heeds (f a)) : Heeds (p.bind f) :=
  fun w => (hp w).bind fun a w _ => hf a w

theorem Heeds.andThen {ε : Type} {p : AgentProgram (Except ε α)}
    {f : α → AgentProgram (Except ε β)} (hp : Heeds p) (hf : ∀ a, Heeds (f a)) :
    Heeds (p.andThen f) :=
  fun w => (hp w).andThen (fun a w _ => hf a w) fun _ _ _ => trivial

theorem Permit.next_of_free (w : Permit) {c : AgentCall} (hc : c.cost = none) (a : c.Answer) :
    ∃ w', Permit.next w c a = some w' := by
  unfold Permit.next
  split
  · exact ⟨_, rfl⟩
  · exact ⟨_, rfl⟩
  · exact ⟨_, rfl⟩
  · exact ⟨_, rfl⟩
  · rw [hc]
    exact ⟨_, rfl⟩

/-- A call that stays in the process needs no leave. -/
theorem heeds_ask {c : AgentCall} (hc : c.cost = none) : Heeds c.ask := by
  intro w
  apply Program.Follows.perform
  intro a _
  obtain ⟨w', hw⟩ := w.next_of_free hc a
  exact ⟨w', hw, trivial⟩

theorem follows_isCancelled (w : Permit) : AgentCall.isCancelled.ask.Follows Permit.next
    (fun _ _ => True) (fun flag w => flag = false → w = .cleared) w := by
  intro flag _
  refine ⟨if flag then .missing else .cleared, rfl, ?_⟩
  rintro rfl
  rfl

theorem follows_charge (k : Charge) (hk : k ≠ .agentStep) : (AgentCall.charge k).ask.Follows
    Permit.next (fun _ _ => True) (fun r w => r = .ok () → w = .granted k) .cleared := by
  intro r _
  cases r with
  | error e => cases k <;> exact ⟨.missing, rfl, nofun⟩
  | ok u => cases k with
    | agentStep => exact absurd rfl hk
    | llmCall => exact ⟨_, rfl, fun _ => rfl⟩
    | toolCall => exact ⟨_, rfl, fun _ => rfl⟩

/-- A permit lasts over calls that neither read the flag nor charge. -/
theorem follows_ask_granted {k : Charge} (c : AgentCall) (hc : c.cost = none)
    (hflag : c ≠ .isCancelled) (hcharge : ∀ k, c ≠ .charge k) :
    c.ask.Follows Permit.next (fun _ _ => True) (fun _ w => w = .granted k) (.granted k) := by
  intro a _
  refine ⟨.granted k, ?_, rfl⟩
  unfold Permit.next
  split
  · exact absurd rfl hflag
  · exact absurd rfl (hcharge _)
  · exact absurd rfl (hcharge _)
  · exact absurd rfl (hcharge _)
  · rw [hc]

variable (kit : TextKit) (ctx : AgentCtx)

theorem follows_raceChat (messages : List ChatMessage) (options : LlmCallOptions) :
    (AgentCtx.raceChat messages options).Follows Permit.next (fun _ _ => True) (fun _ _ => True)
      (.granted .llmCall) := by
  unfold AgentCtx.raceChat
  cases options.timeoutSecs with
  | some secs =>
    refine Program.Follows.bind (Q := fun _ _ => True) (fun a _ => ⟨.missing, rfl, trivial⟩)
      fun r w _ => ?_
    cases r <;> exact Heeds.ret w
  | none =>
    refine Program.Follows.bind (Q := fun _ _ => True) (fun a _ => ⟨.missing, rfl, trivial⟩)
      fun r w _ => ?_
    cases r <;> exact Heeds.ret w

/-- Every attempt asks for leave. -/
theorem heeds_invokeLlmOnce (messages : List ChatMessage) (options : LlmCallOptions) :
    Heeds (AgentCtx.invokeLlmOnce messages options) := by
  intro w
  refine (follows_isCancelled w).bind fun cancelled w hcleared => ?_
  cases cancelled with
  | true => exact Heeds.ret w
  | false =>
    rw [hcleared rfl]
    refine (follows_charge .llmCall nofun).bind fun r w hgranted => ?_
    cases r with
    | error e => exact Heeds.ret w
    | ok u =>
      rw [hgranted rfl]
      exact follows_raceChat messages options

theorem heeds_invokeLlm (messages : List ChatMessage) (options : LlmCallOptions) :
    Heeds (AgentCtx.invokeLlm messages options) := by
  intro w
  have hretry := follows_retryClassified (I := fun _ _ => True) (Q := fun _ _ _ => True)
    (fun _ w _ => heeds_invokeLlmOnce messages options w) (fun _ _ _ _ _ => trivial)
    LLM_TRANSIENT_RETRY_DELAYS_MS (m := w) trivial
  exact hretry.bind fun _ w _ => Heeds.ret w

theorem heeds_emitStep (callId : Option UInt64) (step : UInt64 → String → ThreadStep) :
    Heeds (ctx.emitStep callId step) := by
  unfold AgentCtx.emitStep
  split
  · exact (heeds_ask rfl).bind fun _ => heeds_ask rfl
  · exact Heeds.ret

theorem heeds_prepareObservability (messages : List ChatMessage) :
    Heeds (ctx.prepareObservability kit messages) := by
  refine Heeds.bind (heeds_ask rfl) fun enabled => ?_
  split
  · refine Heeds.bind (heeds_ask rfl) fun callId => ?_
    refine Heeds.bind ?_ fun phase => ?_
    · unfold AgentCtx.phaseOfCall
      split_ifs
      · refine Heeds.bind (heeds_ask rfl) fun log => ?_
        cases log <;> exact Heeds.ret
      · exact Heeds.ret
    · exact Heeds.bind (heeds_ask rfl) fun built => Heeds.ret
  · exact Heeds.ret

theorem heeds_recordLlmObservation (obs : ObservabilityContext) (res : Except CoreError String) :
    Heeds (ctx.recordLlmObservation kit obs res) := by
  unfold AgentCtx.recordLlmObservation
  split
  · refine Heeds.bind (heeds_ask rfl) fun enabled => ?_
    exact Heeds.bind (heeds_ask rfl) fun ts => heeds_ask rfl
  · exact Heeds.ret

theorem heeds_llmChat (messages : List ChatMessage) (options : LlmCallOptions) :
    Heeds (ctx.llmChat kit messages options) := by
  refine Heeds.bind (heeds_prepareObservability kit ctx messages) fun obs => ?_
  refine Heeds.andThen (heeds_emitStep ctx _ _) fun _ => ?_
  refine Heeds.bind (heeds_invokeLlm messages _) fun res => ?_
  refine Heeds.andThen (heeds_emitStep ctx _ _) fun _ => ?_
  exact Heeds.andThen (heeds_recordLlmObservation kit ctx obs res) fun _ => Heeds.ret

theorem heeds_parseWithRetry (options : LlmCallOptions) (raw : String) (transcript : Transcript) :
    Heeds (parseWithRetry kit ctx options raw transcript) := by
  unfold parseWithRetry
  split
  · exact Heeds.ret
  · split_ifs
    · exact Heeds.ret
    · refine Heeds.andThen (heeds_llmChat kit ctx _ _) fun second => ?_
      split
      · exact Heeds.ret
      · split_ifs
        · exact Heeds.ret
        · refine Heeds.andThen (heeds_llmChat kit ctx _ _) fun third => ?_
          split <;> exact Heeds.ret

theorem follows_boundedToolResult (secs : Nat) (name : String) (args : Json) :
    (boundedToolResult secs name args).Follows Permit.next (fun _ _ => True) (fun _ _ => True)
      (.granted .toolCall) := by
  refine Program.Follows.bind (Q := fun _ _ => True) (fun a _ => ⟨.missing, rfl, trivial⟩)
    fun r w _ => ?_
  cases r <;> exact Heeds.ret w

theorem follows_observedToolCall (threadId : String) (secs : Nat) (name : String) (args : Json) :
    (observedToolCall ctx threadId secs name args).Follows Permit.next (fun _ _ => True)
      (fun _ _ => True) (.granted .toolCall) := by
  refine (follows_ask_granted (.cleanToolName name args) rfl nofun nofun).bind fun cleanName w hw => ?_
  subst hw
  refine (follows_ask_granted .toolStamp rfl nofun nofun).bind fun stamp w hw => ?_
  subst hw
  refine Program.Follows.bind (Q := fun _ _ => True) ?_ fun r w _ => ?_
  · refine Observer.follows_runObserved (S := fun w => w = .granted .toolCall)
      (P := fun _ _ => True) (D := fun _ _ => True) ?_ ?_ ?_ ?_
    · refine (follows_ask_granted (.appendStep threadId _) rfl nofun nofun).mono fun r w hw => ?_
      cases r with
      | ok u => exact hw
      | error e => trivial
    · rintro w rfl
      refine (follows_ask_granted (.armGuard _) rfl nofun nofun).bind fun _ w hw => ?_
      subst hw
      refine (follows_boundedToolResult secs name args).bind fun outcome w _ => ?_
      cases outcome <;> exact Heeds.ret w
    · intro result w _
      refine (heeds_ask rfl w).mono fun r w _ => ?_
      cases r <;> trivial
    · exact fun result w _ => heeds_ask rfl w
  · cases r <;> exact Heeds.ret w

theorem heeds_executeToolCall (threadId name : String) (args : Json) :
    Heeds (executeToolCall ctx threadId name args) := by
  intro w
  refine (follows_isCancelled w).bind fun cancelled w hcleared => ?_
  cases cancelled with
  | true => exact Heeds.ret w
  | false =>
    rw [hcleared rfl]
    refine (follows_charge .toolCall nofun).bind fun r w hgranted => ?_
    cases r with
    | error e => exact Heeds.ret w
    | ok u =>
      rw [hgranted rfl]
      refine (follows_ask_granted (.timeoutForTool name) rfl nofun nofun).bind fun timeout w hw => ?_
      subst hw
      dsimp only
      split_ifs
      · exact follows_observedToolCall ctx threadId _ name args
      · exact follows_boundedToolResult _ name args

theorem heeds_recordRunLoopStop (threadId : String) (stop : RunLoopStop) :
    Heeds (recordRunLoopStop ctx threadId stop) := by
  unfold recordRunLoopStop
  split_ifs
  · exact Heeds.bind (heeds_ask rfl) fun ts => heeds_ask rfl
  · exact Heeds.ret

theorem heeds_stopWithFallback (threadId : String) (transcript : Transcript) :
    Heeds (stopWithFallback ctx threadId transcript) := by
  refine Heeds.andThen (heeds_recordRunLoopStop ctx threadId _) fun _ => ?_
  exact Heeds.bind (heeds_ask rfl) fun outcome => Heeds.ret

theorem heeds_completeTurn (threadId : String) (transcript : Transcript) (ledger : ActionLedger)
    (env : CompleteEnvelope) : Heeds (completeTurn ctx threadId transcript ledger env) := by
  refine Heeds.bind (heeds_ask rfl) fun r => ?_
  split
  · exact Heeds.ret
  · exact Heeds.ret
  · refine Heeds.bind (heeds_recordRunLoopStop ctx threadId _) fun recorded => ?_
    cases recorded <;> exact Heeds.ret

theorem heeds_toolTurn (threadId : String) (transcript : Transcript) (ledger : ActionLedger)
    (raw name : String) (args : Json) :
    Heeds (toolTurn kit ctx threadId transcript ledger raw name args) := by
  refine Heeds.bind (heeds_executeToolCall ctx threadId name args) fun outcome => ?_
  refine Heeds.bind (heeds_ask rfl) fun r => ?_
  cases r with
  | some interrupt =>
    refine Heeds.bind (heeds_recordRunLoopStop ctx threadId _) fun recorded => ?_
    cases recorded <;> exact Heeds.ret
  | none =>
    dsimp only
    split_ifs
    · exact Heeds.ret
    · split
      · exact Heeds.bind (heeds_stopWithFallback ctx threadId _) fun r => Heeds.ret
      · exact Heeds.ret

theorem heeds_turn (options : LlmCallOptions) (threadId : String) (transcript : Transcript)
    (ledger : ActionLedger) : Heeds (turn kit ctx options threadId transcript ledger) := by
  refine Heeds.bind (heeds_ask rfl) fun r => ?_
  split
  · exact Heeds.bind (heeds_stopWithFallback ctx threadId _) fun r => Heeds.ret
  · exact Heeds.ret
  · refine Heeds.bind (heeds_ask rfl) fun cancelled => ?_
    cases cancelled with
    | true => exact Heeds.ret
    | false =>
      refine Heeds.bind (heeds_llmChat kit ctx _ options) fun answer => ?_
      cases answer with
      | error e => exact Heeds.ret
      | ok raw =>
        refine Heeds.bind (heeds_parseWithRetry kit ctx options raw transcript) fun r => ?_
        rcases r with e | ⟨step, raw, transcript⟩
        · exact Heeds.ret
        · cases step with
          | complete env' => exact heeds_completeTurn ctx threadId transcript ledger env'
          | tool name args => exact heeds_toolTurn kit ctx threadId transcript ledger raw name args

theorem heeds_runLoop (options : LlmCallOptions) (threadId : String) (fuel : Nat) :
    ∀ (transcript : Transcript) (ledger : ActionLedger),
      Heeds (runLoop kit ctx options threadId fuel transcript ledger) := by
  induction fuel with
  | zero => exact fun _ _ => Heeds.ret
  | succ fuel ih =>
    intro transcript ledger
    refine Heeds.bind (heeds_turn kit ctx options threadId transcript ledger) fun t => ?_
    cases t with
    | done r => exact Heeds.ret
    | again transcript ledger => exact ih transcript ledger

theorem heeds_runUntilBlock (systemPrompt toolsCard question : String) (options : LlmCallOptions)
    (fuel : Nat) : Heeds (runUntilBlock kit ctx systemPrompt toolsCard question options fuel) := by
  refine Heeds.bind ?_ fun tid => ?_
  · unfold threadIdOrNew
    split
    · exact Heeds.ret
    · exact heeds_ask rfl
  · refine Heeds.bind (heeds_ask rfl) fun entries => ?_
    exact heeds_runLoop kit ctx _ tid fuel _ .default

section Run
variable {σ : Type} {h : (c : AgentCall) → σ → σ × c.Answer}

/-- Whatever is answered, each call of the provider or of a tool has leave of its own: before it, and
after any other such call, a charge of its kind was granted, and before the charge the flag was seen
down. -/
theorem agent_calls_permitted (systemPrompt toolsCard question : String)
    (options : LlmCallOptions) (fuel : Nat) (s : σ) {before after : List AgentEvent}
    {c : AgentCall} {a : c.Answer} {k : Charge}
    (htrace : (runUntilBlock kit ctx systemPrompt toolsCard question options fuel).trace h s =
      before ++ ⟨c, a⟩ :: after) (hcost : c.cost = some k) : Granted k before := by
  obtain ⟨w, hw, -⟩ := (heeds_runUntilBlock kit ctx systemPrompt toolsCard question options fuel
    .missing).run_trace (h := h) (fun _ _ => trivial) s
  rw [htrace] at hw
  exact Permit.granted_of_run hw hcost

/-- Once the flag is up for good, at most one call more leaves the process, and none after the flag
has been read. -/
theorem agent_stops_when_cancelled (systemPrompt toolsCard question : String)
    (options : LlmCallOptions) (fuel : Nat) (s : σ) {before after : List AgentEvent}
    (htrace : (runUntilBlock kit ctx systemPrompt toolsCard question options fuel).trace h s =
      before ++ after) (hraised : Raised after) :
    (outgoing after).length ≤ 1 ∧
    ∀ mid rest, after = mid ++ ⟨.isCancelled, true⟩ :: rest → outgoing rest = [] := by
  obtain ⟨w, hw, -⟩ := (heeds_runUntilBlock kit ctx systemPrompt toolsCard question options fuel
    .missing).run_trace (h := h) (fun _ _ => trivial) s
  rw [htrace, Monitor.run_append] at hw
  obtain ⟨p, hp, hafter⟩ := Option.bind_eq_some_iff.mp hw
  constructor
  · have hle := Permit.length_outgoing_le hraised hafter
    cases p <;> simp only [Permit.left] at hle <;> omega
  · rintro mid rest rfl
    rw [Monitor.run_append] at hafter
    obtain ⟨q, hq, hrest⟩ := Option.bind_eq_some_iff.mp hafter
    -- The read that sees the flag up takes the leave away.
    have hmissing : Monitor.run Permit.next .missing rest = some w := hrest
    have hup : Raised rest := fun e he =>
      hraised e (List.mem_append_right mid (List.mem_cons_of_mem _ he))
    exact List.length_eq_zero_iff.mp (Nat.le_zero.mp (Permit.length_outgoing_le hup hmissing))

end Run
end Loop

/-- The provider asks for a tool that fails, and the flag goes up before its fourth read. -/
def cancelledRun : (c : AgentCall) → Nat → Nat × c.Answer
  | .isCancelled, n => (n + 1, decide (3 ≤ n))
  | c, n => (n, (failingTool.answer c ()).2)

def cancelledTrace : List AgentEvent :=
  (runUntilBlock searchKit searchCtx "" "" "" ⟨"", none, .text, none⟩ 11).trace cancelledRun 0

theorem eq_take_cons_drop {α : Type} {es : List α} {n : Nat} {e : α} (h : es[n]? = some e) :
    es = es.take n ++ e :: es.drop (n + 1) := by
  obtain ⟨hlt, rfl⟩ := List.getElem?_eq_some_iff.mp h
  rw [List.getElem_cons_drop, List.take_append_drop]

theorem agent_calls_permitted_cancelled : ∃ before after, ∃ (c : AgentCall) (a : c.Answer),
    cancelledTrace = before ++ ⟨c, a⟩ :: after ∧ c.cost = some .toolCall ∧
      Granted .toolCall before := by
  have hcost : cancelledTrace[14]?.map (·.1.cost) = some (some .toolCall) := by decide +kernel
  obtain ⟨⟨c, a⟩, he, hcost⟩ := Option.map_eq_some_iff.mp hcost
  have htrace := eq_take_cons_drop he
  exact ⟨_, _, c, a, htrace, hcost, agent_calls_permitted searchKit searchCtx "" "" "" _ 11 0
    htrace hcost⟩

/-- The last call had its leave before the flag went up. -/
theorem agent_stops_when_cancelled_cancelled :
    ∃ before after, cancelledTrace = before ++ after ∧ Raised after ∧
      outgoing after ≠ [] ∧ (outgoing after).length ≤ 1 ∧
      ∀ mid rest, after = mid ++ ⟨.isCancelled, true⟩ :: rest → outgoing rest = [] := by
  have htrace : cancelledTrace = cancelledTrace.take 8 ++ cancelledTrace.drop 8 :=
    (List.take_append_drop 8 cancelledTrace).symm
  have hraised : Raised (cancelledTrace.drop 8) := by decide +kernel
  have hsome : (outgoing (cancelledTrace.drop 8)).isEmpty = false := by decide +kernel
  exact ⟨_, _, htrace, hraised, List.isEmpty_eq_false_iff.mp hsome,
    agent_stops_when_cancelled searchKit searchCtx "" "" "" _ 11 0 htrace hraised⟩

end ReactRuntime.Agent
