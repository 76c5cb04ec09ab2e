import ReactRuntime.Agent.RunLoop

/-!
# Bounds of an agent run

The environment answers every call as it likes, and whatever it runs may charge the
same meter. The meter, the action ledger and the order of the calls bound the run.
-/
namespace ReactRuntime.Agent
open Library Serde ReactRuntime.Core Session

variable {ω : Type}

/-- What a run has done so far. -/
structure Tally where
  iterations : Nat
  chats : Nat
  toolCalls : Nat
  failures : List (String × Json)

/-- An iteration starts when its charge is granted. A failure is seen when the policy is asked about
it, which the loop does once for each tool outcome. -/
def Tally.note (t : Tally) : (c : AgentCall) → c.Answer → Tally
  | .charge .agentStep, .ok () => { t with iterations := t.iterations + 1 }
  | .chat _ _, _ | .chatWithin _ _ _, _ => { t with chats := t.chats + 1 }
  | .callToolWithin _ _ _, _ => { t with toolCalls := t.toolCalls + 1 }
  | .interruptForAction name args (.failed _) _, _ =>
    { t with failures := (name, args) :: t.failures }
  | _, _ => t

/-- The provider, the tools, the policy, the store and the rest, with a state of their own. While a
call is answered, `charges` may be made on the shared meter. -/
structure Environment (ω : Type) where
  answer : (c : AgentCall) → ω → ω × c.Answer
  charges : AgentCall → ω → List Charge

structure Run (ω : Type) where
  meter : BudgetMeter
  env : ω
  tally : Tally

def Run.start (budget : RunBudget) (env : ω) : Run ω := ⟨.new budget, env, ⟨0, 0, 0, []⟩⟩

/-- The meter answers the charges of the loop, and the environment every other call. -/
def settle : (c : AgentCall) → BudgetMeter → c.Answer → BudgetMeter × c.Answer
  | .charge k, m, _ => m.charge k
  | _, m, a => (m, a)

def Environment.handle (env : Environment ω) (c : AgentCall) (s : Run ω) : Run ω × c.Answer :=
  let e := env.answer c s.env
  let r := settle c (s.meter.charges (env.charges c s.env)) e.2
  (⟨r.1, e.1, s.tally.note c r.2⟩, r.2)

section Call
variable (env : Environment ω) (c : AgentCall) (s : Run ω)

theorem later_settle (m : BudgetMeter) (a : c.Answer) : m.Later (settle c m a).1 := by
  cases c
  case charge k => exact BudgetMeter.later_charge m k
  all_goals exact BudgetMeter.Later.refl m

theorem later_handle : s.meter.Later (env.handle c s).1.meter :=
  (BudgetMeter.later_charges _ _).trans (later_settle c _ _)

/-- A granted charge moves its counter. -/
theorem counter_lt_handle {k : Charge} (h : (env.handle (.charge k) s).2 = .ok ()) :
    (s.meter.counter k).toNat < ((env.handle (.charge k) s).1.meter.counter k).toNat := by
  have hlater := (BudgetMeter.later_charges s.meter (env.charges (.charge k) s.env)).counters k
  obtain ⟨hlt, hm⟩ := BudgetMeter.charge_ok h
  change _ < ((BudgetMeter.charge _ k).1.counter k).toNat
  rw [hm, BudgetMeter.counter_setCounter_self, BudgetMeter.toNat_succ_of_lt hlt]
  have := UInt32.le_iff_toNat_le.mp hlater
  omega

/-- A refused charge says which budget is used up. -/
theorem exhausted_of_handle {k : Charge} {e : BudgetExhausted}
    (h : (env.handle (.charge k) s).2 = .error e) : e = k.exhausted :=
  (BudgetMeter.charge_error h).2.2

/-- The calls that a tally looks at. -/
def AgentCall.counted : AgentCall → Bool
  | .charge .agentStep | .chat _ _ | .chatWithin _ _ _ | .callToolWithin _ _ _
  | .interruptForAction _ _ _ _ => true
  | _ => false

theorem Tally.note_of_not_counted {t : Tally} {c : AgentCall} (h : c.counted = false)
    (a : c.Answer) : t.note c a = t := by
  cases c
  case charge k => cases k <;> first | rfl | cases h
  all_goals first | rfl | cases h

end Call

/-- Every counted call has been charged, `steps` iterations have been charged at least, and the
failures so far are `failures`. -/
structure Running (budget : RunBudget) (steps : Nat) (failures : List (String × Json))
    (s : Run ω) : Prop where
  budget_eq : s.meter.budget = budget
  within : s.meter.Within
  iterations : s.tally.iterations ≤ s.meter.agentSteps.toNat
  chats : s.tally.chats ≤ s.meter.llmCalls.toNat
  toolCalls : s.tally.toolCalls ≤ s.meter.toolCalls.toNat
  steps_le : steps ≤ s.meter.agentSteps.toNat
  failures_eq : s.tally.failures = failures

/-- The bounds that the budget and the action ledger promise. -/
structure Bounded (budget : RunBudget) (s : Run ω) : Prop where
  iterations : s.tally.iterations ≤ budget.maxAgentSteps.toNat
  chats : s.tally.chats ≤ budget.maxLlmCalls.toNat
  toolCalls : s.tally.toolCalls ≤ budget.maxToolCalls.toNat
  failures : ∀ action, s.tally.failures.count action ≤ MAX_REPEATED_ACTION_FAILURES

section Invariant
variable {env : Environment ω} {budget : RunBudget} {steps : Nat}
  {failures : List (String × Json)} {s : Run ω}

theorem Running.toNat_counter_le (h : Running budget steps failures s) (k : Charge) :
    (s.meter.counter k).toNat ≤ (budget.ceiling k).toNat := by
  rw [← h.budget_eq]
  exact UInt32.le_iff_toNat_le.mp (h.within k)

theorem Running.bounded (h : Running budget steps failures s)
    (hf : ∀ action, failures.count action ≤ MAX_REPEATED_ACTION_FAILURES) : Bounded budget s where
  iterations := h.iterations.trans (h.toNat_counter_le .agentStep)
  chats := h.chats.trans (h.toNat_counter_le .llmCall)
  toolCalls := h.toolCalls.trans (h.toNat_counter_le .toolCall)
  failures := by
    rw [h.failures_eq]
    exact hf

/-- A later meter with a tally that it still covers. -/
theorem Running.noted {s' : Run ω} {steps' : Nat} {failures' : List (String × Json)}
    (h : Running budget steps failures s) (hm : s.meter.Later s'.meter)
    (hi : s'.tally.iterations ≤ s'.meter.agentSteps.toNat)
    (hc : s'.tally.chats ≤ s'.meter.llmCalls.toNat)
    (ht : s'.tally.toolCalls ≤ s'.meter.toolCalls.toNat)
    (hs : steps' ≤ s'.meter.agentSteps.toNat) (hf : s'.tally.failures = failures') :
    Running budget steps' failures' s' :=
  ⟨hm.budget.trans h.budget_eq, hm.within h.within, hi, hc, ht, hs, hf⟩

/-- A later meter with the same tally. -/
theorem Running.later {s' : Run ω} (h : Running budget steps failures s)
    (hm : s.meter.Later s'.meter) (ht : s'.tally = s.tally) :
    Running budget steps failures s' := by
  refine h.noted hm ?_ ?_ ?_ (h.steps_le.trans (hm.toNat_le .agentStep)) ?_ <;> rw [ht]
  · exact h.iterations.trans (hm.toNat_le .agentStep)
  · exact h.chats.trans (hm.toNat_le .llmCall)
  · exact h.toolCalls.trans (hm.toNat_le .toolCall)
  · exact h.failures_eq

theorem Running.handle (h : Running budget steps failures s) {c : AgentCall}
    (hc : c.counted = false) : Running budget steps failures (env.handle c s).1 :=
  h.later (later_handle env c s) (Tally.note_of_not_counted hc _)

/-- A call that is not counted keeps the invariant. -/
theorem keeps_ask {c : AgentCall} (hc : c.counted = false) :
    c.ask.Keeps env.handle (Running budget steps failures) :=
  Program.Keeps.perform fun _ hs => hs.handle hc

/-- A charged chat. -/
theorem Running.chat (h : Running budget steps failures s)
    (hlt : s.tally.chats < s.meter.llmCalls.toNat) {c : AgentCall}
    (hc : ∀ a, s.tally.note c a = { s.tally with chats := s.tally.chats + 1 }) :
    Running budget steps failures (env.handle c s).1 := by
  have hm := later_handle env c s
  have ht : (env.handle c s).1.tally = { s.tally with chats := s.tally.chats + 1 } := hc _
  refine h.noted hm ?_ ?_ ?_ (h.steps_le.trans (hm.toNat_le .agentStep)) ?_ <;> rw [ht]
  · exact h.iterations.trans (hm.toNat_le .agentStep)
  · exact (Nat.succ_le_of_lt hlt).trans (hm.toNat_le .llmCall)
  · exact h.toolCalls.trans (hm.toNat_le .toolCall)
  · exact h.failures_eq

/-- A charged tool call. -/
theorem Running.callTool (h : Running budget steps failures s)
    (hlt : s.tally.toolCalls < s.meter.toolCalls.toNat) (secs : Nat) (name : String)
    (args : Json) :
    Running budget steps failures (env.handle (.callToolWithin secs name args) s).1 := by
  have hm := later_handle env (.callToolWithin secs name args) s
  refine h.noted hm ?_ ?_ ?_ (h.steps_le.trans (hm.toNat_le .agentStep)) h.failures_eq
  · exact h.iterations.trans (hm.toNat_le .agentStep)
  · exact h.chats.trans (hm.toNat_le .llmCall)
  · exact (Nat.succ_le_of_lt hlt).trans (hm.toNat_le .toolCall)

/-- A granted iteration. -/
theorem Running.iterate (h : Running budget steps failures s)
    (hok : (env.handle (.charge .agentStep) s).2 = .ok ()) :
    Running budget (steps + 1) failures (env.handle (.charge .agentStep) s).1 := by
  have hm := later_handle env (.charge .agentStep) s
  have hlt := counter_lt_handle env s hok
  have ht : (env.handle (.charge .agentStep) s).1.tally =
      { s.tally with iterations := s.tally.iterations + 1 } := by
    change s.tally.note (.charge .agentStep) (env.handle (.charge .agentStep) s).2 = _
    rw [hok]
    rfl
  refine h.noted hm ?_ ?_ ?_ ((Nat.succ_le_succ h.steps_le).trans hlt) ?_ <;> rw [ht]
  · exact (Nat.succ_le_succ h.iterations).trans hlt
  · exact h.chats.trans (hm.toNat_le .llmCall)
  · exact h.toolCalls.trans (hm.toNat_le .toolCall)
  · exact h.failures_eq

/-- A refused iteration. -/
theorem Running.refused (h : Running budget steps failures s) {e : BudgetExhausted}
    (he : (env.handle (.charge .agentStep) s).2 = .error e) :
    Running budget steps failures (env.handle (.charge .agentStep) s).1 := by
  refine h.later (later_handle env (.charge .agentStep) s) ?_
  change s.tally.note (.charge .agentStep) (env.handle (.charge .agentStep) s).2 = _
  rw [he]
  rfl

/-- The policy sees an outcome. -/
theorem Running.interruptForAction (h : Running budget steps failures s) (name : String)
    (args : Json) (outcome : ToolOutcome) (obs : Json) :
    Running budget steps (if outcome.isOk then failures else (name, args) :: failures)
      (env.handle (.interruptForAction name args outcome obs) s).1 := by
  have hm := later_handle env (.interruptForAction name args outcome obs) s
  have hsteps := h.steps_le.trans (hm.toNat_le .agentStep)
  have hiterations := h.iterations.trans (hm.toNat_le .agentStep)
  have hchats := h.chats.trans (hm.toNat_le .llmCall)
  have htools := h.toolCalls.trans (hm.toNat_le .toolCall)
  cases outcome with
  | ok v => exact h.noted hm hiterations hchats htools hsteps h.failures_eq
  | failed e =>
    exact h.noted hm hiterations hchats htools hsteps
      (congrArg ((name, args) :: ·) h.failures_eq)

end Invariant

section Gateway
variable {env : Environment ω} {budget : RunBudget} {steps : Nat}
  {failures : List (String × Json)} (kit : TextKit) (ctx : AgentCtx)

/-- After a granted charge one more call of its kind is covered. -/
theorem ensures_charge_llmCall : (AgentCall.charge .llmCall).ask.Ensures env.handle
    (Running budget steps failures) fun r s => Running budget steps failures s ∧
      (r = .ok () → s.tally.chats < s.meter.llmCalls.toNat) := by
  intro s hs
  refine ⟨hs.handle rfl, fun hok => ?_⟩
  exact hs.chats.trans_lt (counter_lt_handle env s hok)

theorem ensures_raceChat (messages : List ChatMessage) (options : LlmCallOptions) :
    (AgentCtx.raceChat messages options).Ensures env.handle
      (fun s => Running budget steps failures s ∧ s.tally.chats < s.meter.llmCalls.toNat)
      fun _ => Running budget steps failures := by
  unfold AgentCtx.raceChat
  cases options.timeoutSecs with
  | some secs =>
    refine Program.Ensures.bind (Q := fun _ => Running budget steps failures) ?_ fun r => ?_
    · exact fun s hs => hs.1.chat hs.2 fun _ => rfl
    · cases r <;> exact Program.Keeps.ret
  | none =>
    refine Program.Ensures.bind (Q := fun _ => Running budget steps failures) ?_ fun r => ?_
    · exact fun s hs => hs.1.chat hs.2 fun _ => rfl
    · cases r <;> exact Program.Keeps.ret

/-- Every attempt is charged before it is made. -/
theorem keeps_invokeLlmOnce (messages : List ChatMessage) (options : LlmCallOptions) :
    (AgentCtx.invokeLlmOnce messages options).Keeps env.handle
      (Running budget steps failures) := by
  refine Program.Keeps.bind (keeps_ask rfl) fun cancelled => ?_
  cases cancelled with
  | true => exact Program.Keeps.ret
  | false =>
    refine Program.Ensures.bind ensures_charge_llmCall fun r => ?_
    cases r with
    | error e => exact Program.Ensures.ret fun s hs => hs.1
    | ok u => exact (ensures_raceChat messages options).of_imp fun s hs => ⟨hs.1, hs.2 rfl⟩

theorem keeps_invokeLlm (messages : List ChatMessage) (options : LlmCallOptions) :
    (AgentCtx.invokeLlm messages options).Keeps env.handle (Running budget steps failures) :=
  (keeps_retryClassified (keeps_invokeLlmOnce messages options) _).bind fun _ =>
    Program.Keeps.ret

theorem keeps_emitStep (callId : Option UInt64) (step : UInt64 → String → ThreadStep) :
    (ctx.emitStep callId step).Keeps env.handle (Running budget steps failures) := by
  unfold AgentCtx.emitStep
  split
  · exact (keeps_ask rfl).bind fun _ => keeps_ask rfl
  · exact Program.Keeps.ret

theorem keeps_prepareObservability (messages : List ChatMessage) :
    (ctx.prepareObservability kit messages).Keeps env.handle
      (Running budget steps failures) := by
  refine Program.Keeps.bind (keeps_ask rfl) fun enabled => ?_
  split
  · refine Program.Keeps.bind (keeps_ask rfl) fun callId => ?_
    refine Program.Keeps.bind ?_ fun phase => ?_
    · unfold AgentCtx.phaseOfCall
      split_ifs
      · refine Program.Keeps.bind (keeps_ask rfl) fun log => ?_
        cases log <;> exact Program.Keeps.ret
      · exact Program.Keeps.ret
    · exact Program.Keeps.bind (keeps_ask rfl) fun built => Program.Keeps.ret
  · exact Program.Keeps.ret

theorem keeps_recordLlmObservation (obs : ObservabilityContext) (res : Except CoreError String) :
    (ctx.recordLlmObservation kit obs res).Keeps env.handle (Running budget steps failures) := by
  unfold AgentCtx.recordLlmObservation
  split
  · refine Program.Keeps.bind (keeps_ask rfl) fun enabled => ?_
    exact Program.Keeps.bind (keeps_ask rfl) fun ts => keeps_ask rfl
  · exact Program.Keeps.ret

theorem keeps_llmChat (messages : List ChatMessage) (options : LlmCallOptions) :
    (ctx.llmChat kit messages options).Keeps env.handle (Running budget steps failures) := by
  refine Program.Keeps.bind (keeps_prepareObservability kit ctx messages) fun obs => ?_
  refine Program.Keeps.andThen (keeps_emitStep ctx _ _) fun _ => ?_
  refine Program.Keeps.bind (keeps_invokeLlm messages _) fun res => ?_
  refine Program.Keeps.andThen (keeps_emitStep ctx _ _) fun _ => ?_
  exact Program.Keeps.andThen (keeps_recordLlmObservation kit ctx obs res) fun _ =>
    Program.Keeps.ret

end Gateway

section Turn
variable {env : Environment ω} {budget : RunBudget} {steps : Nat}
  {failures : List (String × Json)} (kit : TextKit) (ctx : AgentCtx)

theorem keeps_recordRunLoopStop (threadId : String) (stop : RunLoopStop) :
    (recordRunLoopStop ctx threadId stop).Keeps env.handle (Running budget steps failures) := by
  unfold recordRunLoopStop
  split_ifs
  · exact Program.Keeps.bind (keeps_ask rfl) fun ts => keeps_ask rfl
  · exact Program.Keeps.ret

theorem keeps_stopWithFallback (threadId : String) (transcript : Transcript) :
    (stopWithFallback ctx threadId transcript).Keeps env.handle
      (Running budget steps failures) := by
  refine Program.Keeps.andThen (keeps_recordRunLoopStop ctx threadId _) fun _ => ?_
  exact Program.Keeps.bind (keeps_ask rfl) fun outcome => Program.Keeps.ret

/-- The answer may be asked for twice more. -/
theorem keeps_parseWithRetry (options : LlmCallOptions) (raw : String) (transcript : Transcript) :
    (parseWithRetry kit ctx options raw transcript).Keeps env.handle
      (Running budget steps failures) := by
  unfold parseWithRetry
  split
  · exact Program.Keeps.ret
  · split_ifs
    · exact Program.Keeps.ret
    · refine Program.Keeps.andThen (keeps_llmChat kit ctx _ _) fun second => ?_
      split
      · exact Program.Keeps.ret
      · split_ifs
        · exact Program.Keeps.ret
        · refine Program.Keeps.andThen (keeps_llmChat kit ctx _ _) fun third => ?_
          split <;> exact Program.Keeps.ret

/-- One more tool call is charged than made. -/
def ToolCharged (budget : RunBudget) (steps : Nat) (failures : List (String × Json))
    (s : Run ω) : Prop :=
  Running budget steps failures s ∧ s.tally.toolCalls < s.meter.toolCalls.toNat

theorem keeps_ask_toolCharged {c : AgentCall} (hc : c.counted = false) :
    c.ask.Keeps env.handle (ToolCharged budget steps failures) := by
  intro s hs
  refine ⟨hs.1.handle hc, ?_⟩
  have htally : (env.handle c s).1.tally = s.tally := Tally.note_of_not_counted hc _
  change (env.handle c s).1.tally.toolCalls < (env.handle c s).1.meter.toolCalls.toNat
  rw [htally]
  exact hs.2.trans_le ((later_handle env c s).toNat_le .toolCall)

theorem ensures_charge_toolCall : (AgentCall.charge .toolCall).ask.Ensures env.handle
    (Running budget steps failures) fun r s => Running budget steps failures s ∧
      (r = .ok () → ToolCharged budget steps failures s) := by
  intro s hs
  refine ⟨hs.handle rfl, fun hok => ⟨hs.handle rfl, ?_⟩⟩
  exact hs.toolCalls.trans_lt (counter_lt_handle env s hok)

/-- The tool runs at most once, after its charge. -/
theorem ensures_boundedToolResult (secs : Nat) (name : String) (args : Json) :
    (boundedToolResult secs name args).Ensures env.handle (ToolCharged budget steps failures)
      fun _ => Running budget steps failures := by
  refine Program.Ensures.bind (Q := fun _ => Running budget steps failures) ?_ fun r => ?_
  · exact fun s hs => hs.1.callTool hs.2 secs name args
  · cases r <;> exact Program.Keeps.ret

theorem ensures_observedToolCall (threadId : String) (secs : Nat) (name : String) (args : Json) :
    (observedToolCall ctx threadId secs name args).Ensures env.handle
      (ToolCharged budget steps failures) fun _ => Running budget steps failures := by
  refine Program.Ensures.bind (keeps_ask_toolCharged rfl) fun cleanName => ?_
  refine Program.Ensures.bind (keeps_ask_toolCharged rfl) fun stamp => ?_
  refine Program.Ensures.bind (Q := fun _ => Running budget steps failures) ?_ fun r => ?_
  · refine Observer.ensures_runObserved (fun step => keeps_ask_toolCharged rfl)
      (fun step => keeps_ask_toolCharged rfl) ?_ (fun step => keeps_ask rfl) (keeps_ask rfl)
      fun s hs => hs.1
    refine Program.Ensures.bind (ensures_boundedToolResult secs name args) fun outcome => ?_
    cases outcome <;> exact Program.Keeps.ret
  · cases r <;> exact Program.Keeps.ret

theorem keeps_executeToolCall (threadId name : String) (args : Json) :
    (executeToolCall ctx threadId name args).Keeps env.handle
      (Running budget steps failures) := by
  refine Program.Keeps.bind (keeps_ask rfl) fun cancelled => ?_
  cases cancelled with
  | true => exact Program.Keeps.ret
  | false =>
    refine Program.Ensures.bind ensures_charge_toolCall fun r => ?_
    cases r with
    | error e => exact Program.Ensures.ret fun s hs => hs.1
    | ok u =>
      refine Program.Ensures.of_imp ?_ fun s hs => hs.2 rfl
      refine Program.Ensures.bind (keeps_ask_toolCharged rfl) fun timeout => ?_
      split_ifs
      · exact ensures_observedToolCall ctx threadId _ name args
      · exact ensures_boundedToolResult _ name args

/-- No action has been counted three times, and none has failed more often than it is counted. -/
def LedgerCovers (ledger : ActionLedger) (failures : List (String × Json)) : Prop :=
  ∀ tool args, failures.count (tool, args) ≤ ledger.seen (tool, hashArgs kit args) ∧
    ledger.seen (tool, hashArgs kit args) < MAX_REPEATED_ACTION_FAILURES

variable {kit}

theorem ledgerCovers_default : LedgerCovers kit .default [] :=
  fun _ _ => ⟨Nat.le_refl 0, Nat.zero_lt_succ 2⟩

theorem LedgerCovers.count_le {ledger : ActionLedger} (h : LedgerCovers kit ledger failures) :
    ∀ action, failures.count action ≤ MAX_REPEATED_ACTION_FAILURES
  | (tool, args) => (h tool args).1.trans (h tool args).2.le

/-- The next failure is still within the bound. -/
theorem LedgerCovers.count_cons_le {ledger : ActionLedger} (h : LedgerCovers kit ledger failures)
    (failed : String × Json) :
    ∀ action, (failed :: failures).count action ≤ MAX_REPEATED_ACTION_FAILURES
  | (tool, args) => by
    have hcount := (h tool args).1.trans_lt (h tool args).2
    rw [List.count_cons]
    split_ifs <;> omega

/-- A failure that the ledger lets pass is covered by its new state. -/
theorem LedgerCovers.recordFailure {ledger ledger' : ActionLedger} {n : Nat} {tool : String}
    {args : Json} (h : LedgerCovers kit ledger failures)
    (hok : ledger.recordFailure (hashArgs kit) tool args = (ledger', .ok n)) :
    LedgerCovers kit ledger' ((tool, args) :: failures) := by
  obtain ⟨hlt, hn, hseen⟩ := ActionLedger.recordFailure_ok hok
  have hold := (h tool args).2
  have hcap : MAX_REPEATED_ACTION_FAILURES ≤ 255 := by decide
  intro tool' args'
  rw [hseen, Function.update_apply, List.count_cons]
  have hprev := h tool' args'
  by_cases hkey : (tool', hashArgs kit args') = (tool, hashArgs kit args)
  · -- Arguments with the same fingerprint share one count.
    rw [if_pos hkey]
    rw [hkey] at hprev
    refine ⟨?_, hlt⟩
    split_ifs <;> omega
  · rw [if_neg hkey]
    refine ⟨?_, hprev.2⟩
    have hne : ¬ ((tool, args) == (tool', args')) = true := by
      intro he
      cases eq_of_beq he
      exact hkey rfl
    rw [if_neg hne]
    exact hprev.1

variable (kit)

/-- An iteration ends the run within its bounds, or goes round again with one more step charged and
a ledger that covers all failures. -/
def TurnEnd (budget : RunBudget) (steps : Nat) : Turn → Run ω → Prop
  | .done _, s => Bounded budget s
  | .again _ ledger, s =>
    ∃ failures, Running budget (steps + 1) failures s ∧ LedgerCovers kit ledger failures

theorem Running.turnEnd_done {s : Run ω} (h : Running budget steps failures s)
    (hf : ∀ action, failures.count action ≤ MAX_REPEATED_ACTION_FAILURES)
    (r : Except CoreError RunOutcome) (n : Nat) : TurnEnd kit budget n (.done r) s :=
  h.bounded hf

theorem ensures_completeTurn (threadId : String) (transcript : Transcript)
    {ledger : ActionLedger} (hcover : LedgerCovers kit ledger failures) (env' : CompleteEnvelope) :
    (completeTurn ctx threadId transcript ledger env').Ensures env.handle
      (Running budget (steps + 1) failures) (TurnEnd kit budget steps) := by
  refine Program.Ensures.bind (keeps_ask rfl) fun r => ?_
  split
  · exact Program.Ensures.ret fun s hs => hs.turnEnd_done kit hcover.count_le _ steps
  · exact Program.Ensures.ret fun s hs => hs.turnEnd_done kit hcover.count_le _ steps
  · refine Program.Ensures.bind (keeps_recordRunLoopStop ctx threadId _) fun recorded => ?_
    cases recorded with
    | error e => exact Program.Ensures.ret fun s hs => hs.turnEnd_done kit hcover.count_le _ steps
    | ok u => exact Program.Ensures.ret fun s hs => ⟨failures, hs, hcover⟩

theorem ensures_stopTurn (threadId : String) (transcript : Transcript)
    (hf : ∀ action, failures.count action ≤ MAX_REPEATED_ACTION_FAILURES) (n : Nat) :
    ((stopWithFallback ctx threadId transcript).bind fun r => .ret (Turn.done r)).Ensures
      env.handle (Running budget steps failures) (TurnEnd kit budget n) := by
  refine Program.Ensures.bind (keeps_stopWithFallback ctx threadId transcript) fun r => ?_
  exact Program.Ensures.ret fun s hs => hs.turnEnd_done kit hf r n

/-- The failure that ends the run is the last one that the policy is asked about. -/
theorem ensures_toolTurn (threadId : String) (transcript : Transcript) {ledger : ActionLedger}
    (hcover : LedgerCovers kit ledger failures) (raw name : String) (args : Json) :
    (toolTurn kit ctx threadId transcript ledger raw name args).Ensures env.handle
      (Running budget (steps + 1) failures) (TurnEnd kit budget steps) := by
  refine Program.Ensures.bind (keeps_executeToolCall ctx threadId name args) fun outcome => ?_
  have hseen : ∀ action,
      (if outcome.isOk then failures else (name, args) :: failures).count action ≤
        MAX_REPEATED_ACTION_FAILURES := by
    split_ifs
    · exact hcover.count_le
    · exact hcover.count_cons_le (name, args)
  refine Program.Ensures.bind (Q := fun _ => Running budget (steps + 1)
    (if outcome.isOk then failures else (name, args) :: failures))
    (fun s hs => hs.interruptForAction name args outcome outcome.asInterruptValue) fun r => ?_
  cases r with
  | some interrupt =>
    refine Program.Ensures.bind (keeps_recordRunLoopStop ctx threadId _) fun recorded => ?_
    cases recorded <;>
      exact Program.Ensures.ret fun s hs => hs.turnEnd_done kit hseen _ steps
  | none =>
    cases outcome with
    | ok v => exact Program.Ensures.ret fun s hs => ⟨failures, hs, hcover⟩
    | failed e =>
      simp only [ToolOutcome.isOk, Bool.false_eq_true, if_false]
      split
      · exact ensures_stopTurn kit ctx threadId _ hseen steps
      · rename_i ledger' n hok
        exact Program.Ensures.ret fun s hs => ⟨_, hs, hcover.recordFailure hok⟩

theorem ensures_actTurn (options : LlmCallOptions) (threadId : String) (transcript : Transcript)
    {ledger : ActionLedger} (hcover : LedgerCovers kit ledger failures) :
    (actTurn kit ctx options threadId transcript ledger).Ensures env.handle
      (Running budget (steps + 1) failures) (TurnEnd kit budget steps) := by
  refine Program.Ensures.bind (keeps_llmChat kit ctx _ options) fun answer => ?_
  cases answer with
  | error e => exact Program.Ensures.ret fun s hs => hs.turnEnd_done kit hcover.count_le _ steps
  | ok raw =>
    refine Program.Ensures.bind (keeps_parseWithRetry kit ctx options raw transcript) fun r => ?_
    rcases r with e | ⟨step, raw, transcript⟩
    · exact Program.Ensures.ret fun s hs => hs.turnEnd_done kit hcover.count_le _ steps
    · cases step with
      | complete env' => exact ensures_completeTurn kit ctx threadId transcript hcover env'
      | tool name args =>
        exact ensures_toolTurn kit ctx threadId transcript hcover raw name args

theorem ensures_turn (options : LlmCallOptions) (threadId : String) (transcript : Transcript)
    {ledger : ActionLedger} (hcover : LedgerCovers kit ledger failures) :
    (turn kit ctx options threadId transcript ledger).Ensures env.handle
      (Running budget steps failures) (TurnEnd kit budget steps) := by
  refine Program.Ensures.bind (Q := fun r s => match r with
    | .ok () => Running budget (steps + 1) failures s
    | .error e => Running budget steps failures s ∧ e = .agentSteps) ?_ fun r => ?_
  · intro s hs
    change match (env.handle (.charge .agentStep) s).2 with
      | .ok () => Running budget (steps + 1) failures (env.handle (.charge .agentStep) s).1
      | .error e => Running budget steps failures (env.handle (.charge .agentStep) s).1 ∧
          e = .agentSteps
    split
    · rename_i hok
      exact hs.iterate hok
    · rename_i e he
      exact ⟨hs.refused he, exhausted_of_handle env s he⟩
  · rcases r with e | ⟨⟩
    · rintro s ⟨hs, rfl⟩
      exact ensures_stopTurn kit ctx threadId transcript hcover.count_le steps s hs
    · refine Program.Ensures.bind (keeps_ask rfl) fun cancelled => ?_
      cases cancelled with
      | true =>
        exact Program.Ensures.ret fun s hs => hs.turnEnd_done kit hcover.count_le _ steps
      | false => exact ensures_actTurn kit ctx options threadId transcript hcover

/-- With more fuel than steps are left, the loop returns within its bounds: each round that goes on
has charged one more step. -/
theorem ensures_runLoop (options : LlmCallOptions) (threadId : String) (fuel : Nat) :
    ∀ (steps : Nat) (failures : List (String × Json)) (transcript : Transcript)
      (ledger : ActionLedger), budget.maxAgentSteps.toNat < steps + fuel →
      LedgerCovers kit ledger failures →
      (runLoop kit ctx options threadId fuel transcript ledger).Ensures env.handle
        (Running budget steps failures) fun r s => r.isSome ∧ Bounded budget s := by
  induction fuel with
  | zero =>
    intro steps failures transcript ledger hfuel hcover s hs
    have hsteps := hs.steps_le.trans (hs.toNat_counter_le .agentStep)
    exact absurd hfuel (Nat.not_lt.mpr hsteps)
  | succ fuel ih =>
    intro steps failures transcript ledger hfuel hcover
    refine Program.Ensures.bind
      (ensures_turn kit ctx options threadId transcript hcover) fun t => ?_
    cases t with
    | done r => exact Program.Ensures.ret fun s hs => ⟨rfl, hs⟩
    | again transcript ledger =>
      rintro s ⟨failures, hs, hcover⟩
      exact ih (steps + 1) failures transcript ledger (by omega) hcover s hs

theorem running_start (budget : RunBudget) (env : ω) : Running budget 0 [] (Run.start budget env) where
  budget_eq := rfl
  within := BudgetMeter.within_new budget
  iterations := Nat.le_refl 0
  chats := Nat.le_refl 0
  toolCalls := Nat.le_refl 0
  steps_le := Nat.zero_le _
  failures_eq := rfl

/-- A loop that has returned has no use for more fuel. -/
theorem eval_runLoop_more {σ : Type} {h : (c : AgentCall) → σ → σ × c.Answer}
    (options : LlmCallOptions) (threadId : String) {r : Except CoreError RunOutcome} {s' : σ}
    {fuel fuel' : Nat} (hfuel : fuel ≤ fuel') :
    ∀ (transcript : Transcript) (ledger : ActionLedger) (s : σ),
      (runLoop kit ctx options threadId fuel transcript ledger).eval h s = (s', some r) →
      (runLoop kit ctx options threadId fuel' transcript ledger).eval h s = (s', some r) := by
  induction fuel generalizing fuel' with
  | zero =>
    intro transcript ledger s hs
    cases (Prod.mk.inj hs).2
  | succ fuel ih =>
    intro transcript ledger s hs
    obtain ⟨fuel', rfl⟩ := Nat.exists_eq_add_of_le' (Nat.le_trans (Nat.succ_pos fuel) hfuel)
    rw [runLoop, Program.bind_eq, Program.eval_bind] at hs ⊢
    generalize (turn kit ctx options threadId transcript ledger).eval h s = e at hs ⊢
    obtain ⟨m, t⟩ := e
    cases t with
    | done r => exact hs
    | again transcript ledger => exact ih (Nat.le_of_succ_le_succ hfuel) transcript ledger m hs

/-- Whatever the environment answers, a run that starts with an unused meter returns, and it stays
within its budget: started iterations, chats and tool calls within their ceilings, and no action
seen to fail more than three times. -/
theorem runUntilBlock_bounded (env : Environment ω) (start : ω) (budget : RunBudget)
    (systemPrompt toolsCard question : String) (options : LlmCallOptions) :
    ∃ (s : Run ω) (outcome : Except CoreError RunOutcome),
      (∀ fuel, budget.maxAgentSteps.toNat < fuel →
        (runUntilBlock kit ctx systemPrompt toolsCard question options fuel).eval env.handle
          (.start budget start) = (s, some outcome)) ∧ Bounded budget s := by
  let program (fuel : Nat) := runUntilBlock kit ctx systemPrompt toolsCard question options fuel
  have hkeep : (threadIdOrNew ctx).Keeps env.handle (Running budget 0 []) := by
    unfold threadIdOrNew
    split
    · exact Program.Keeps.ret
    · exact keeps_ask rfl
  have hrun : (program (budget.maxAgentSteps.toNat + 1)).Ensures env.handle (Running budget 0 [])
      fun r s => r.isSome ∧ Bounded budget s := by
    refine Program.Ensures.bind hkeep fun tid => ?_
    refine Program.Ensures.bind (keeps_ask rfl) fun entries => ?_
    exact ensures_runLoop kit ctx _ tid _ 0 [] _ .default (by omega) ledgerCovers_default
  obtain ⟨hsome, hbounded⟩ := hrun _ (running_start budget start)
  obtain ⟨outcome, houtcome⟩ := Option.isSome_iff_exists.mp hsome
  refine ⟨_, outcome, fun fuel hfuel => ?_, hbounded⟩
  have hend : (program (budget.maxAgentSteps.toNat + 1)).eval env.handle (.start budget start) =
      (_, some outcome) := Prod.ext rfl houtcome
  simp only [program, runUntilBlock, Program.bind_eq, Program.eval_bind] at hend ⊢
  exact eval_runLoop_more kit ctx _ _ hfuel _ _ _ hend

end Turn

/-- Every answer asks for the same tool. -/
def searchKit : TextKit where
  jsonText _ := "null"
  parseAgentStep _ := .ok (.tool "search" .null)
  sha256HexStr := id
  promptHashForMessages _ := ""
  redactCommonSecrets := id
  hashStr _ := 0
  renderFailureContext o _ := "\n".intercalate o.errors

/-- The provider answers, and the tool fails. -/
def failingTool : Environment Unit where
  answer c _ := ((), match c with
    | .charge _ => .ok ()
    | .isCancelled => false
    | .now | .genUuid => "id"
    | .llmCallsEnabled | .llmResponseTextEnabled => false
    | .nextCallId _ => 1
    | .buildPartsForThread _ _ => ⟨[], .empty⟩
    | .getLog _ => .ok .default
    | .appendStep _ _ => .ok ()
    | .chat _ _ => .finished (.ok "search")
    | .chatWithin _ _ _ => .finished (.ok "search")
    | .toolStamp => ⟨"tool", "", "", ""⟩
    | .callToolWithin _ _ _ => .finished (.failed ⟨"no index"⟩)
    | .armGuard _ | .disarmGuard => ()
    | .preludeEntries _ => []
    | .interruptForAction _ _ _ _ => none
    | .timeoutForTool _ => none
    | .cleanToolName name _ => name
    | .handleComplete transcript _ _ => (transcript, .ok (.reject ""))
    | .fallback _ tid => .ok (.interrupt tid .awaitUser "retry"))
  charges _ _ := []

def searchCtx : AgentCtx := ⟨30, some "thread", none, true, none, none⟩

/-- The third failure ends a run that has seven of its ten steps left. -/
theorem runUntilBlock_bounded_failingTool :
    ∃ (s : Run Unit) (outcome : Except CoreError RunOutcome),
      (runUntilBlock searchKit searchCtx "" "" "" ⟨"", none, .text, none⟩ 11).eval
        failingTool.handle (.start (.agentSteps 10) ()) = (s, some outcome) ∧
      outcome = .ok (.interrupt "thread" .awaitUser "retry") ∧
      s.tally.iterations = 3 ∧ s.tally.failures.count ("search", .null) = 3 ∧
      Bounded (.agentSteps 10) s := by
  obtain ⟨s, outcome, hrun, hbounded⟩ := runUntilBlock_bounded searchKit searchCtx failingTool ()
    (.agentSteps 10) "" "" "" ⟨"", none, .text, none⟩
  have heval := hrun 11 (by decide)
  have hvalue : (fun r : Run Unit × Option (Except CoreError RunOutcome) => (r.2,
      r.1.tally.iterations, r.1.tally.failures.count ("search", .null)))
      ((runUntilBlock searchKit searchCtx "" "" "" ⟨"", none, .text, none⟩ 11).eval
        failingTool.handle (.start (.agentSteps 10) ())) =
      (some (.ok (.interrupt "thread" .awaitUser "retry")), 3, 3) := by
    decide +kernel
  rw [heval] at hvalue
  simp only [Prod.mk.injEq, Option.some.injEq] at hvalue
  exact ⟨s, outcome, heval, hvalue.1, hvalue.2.1, hvalue.2.2, hbounded⟩

end ReactRuntime.Agent
