import ReactRuntime.Library.Machine
import ReactRuntime.Session.ControlState
import ReactRuntime.Session.Pushes
import ReactRuntime.Session.RoundTrip
import ReactRuntime.Transport.ConnState

/-!
# The selection of a thread

Requests of several connections select a suite and an agent for a thread. A request logs a switch
only where its connection takes the thread to have another value, and a suite that runs names
itself in the control state, which comes before the log when a fresh connection looks.
-/
namespace ReactRuntime.Transport
open Library Serde ReactRuntime.Core Session

inductive AgentType where
  | ask
  | agent
  | review
  | kb
deriving DecidableEq, Repr

/-- `normalize_agent_new` and `normalize_agent_open`. -/
def normalizeAgent : AgentType → String
  | .ask => "ask"
  | .agent => "agent"
  | .review => "review"
  | .kb => "kb"

/-- The id of a suite that is asked for. -/
structure SuiteId where
  value : String
  not_blank : blank value = false
deriving DecidableEq

/-- How a request ends: an append of a switch fails, though it may have taken place, or the suite
fails, or nothing does. -/
inductive Outcome where
  | suiteAppendFailed (landed : Bool)
  | agentAppendFailed (landed : Bool)
  | runFailed
  | ok
deriving DecidableEq

/-- The switches to a suite and to an agent that a request logs before it ends, if it can end like
that. -/
def Outcome.logged (suiteStep agentStep : Option ThreadStep) : Outcome → Option (List ThreadStep)
  | .suiteAppendFailed landed => suiteStep.map fun step => if landed then [step] else []
  | .agentAppendFailed landed => agentStep.map fun step =>
    suiteStep.toList ++ if landed then [step] else []
  | .runFailed | .ok => some (suiteStep.toList ++ agentStep.toList)

/-- A switch to the suite is in the log when a request ends like that, if it needs one. -/
def Outcome.logsSuite : Outcome → Bool
  | .suiteAppendFailed landed => landed
  | _ => true

def Outcome.logsAgent : Outcome → Bool
  | .suiteAppendFailed _ => false
  | .agentAppendFailed landed => landed
  | _ => true

/-- The errors of the two reads of a resolution. -/
structure Reads where
  control : Option CoreError
  log : Option CoreError

/-- The log and the control state of a thread, what the connections remember, the suites that may
run, and what the last request selected that succeeded. -/
structure SelectionState (Conn : Type) where
  log : Option ThreadLog
  control : Option Json
  conns : Conn → ConnState
  started : List SuiteId
  selected : Option (SuiteId × AgentType)

inductive SelectionAction (Conn : Type) where
  | newRequest (conn : Conn) (suite : SuiteId) (agentType : AgentType) (ts : String)
      (outcome : Outcome)
  | openRequest (conn : Conn) (suite : SuiteId) (agentType : AgentType) (ts : String)
      (reads : Reads) (outcome : Outcome)
  /-- Any other request resolves the thread. -/
  | resolve (conn : Conn) (reads : Reads)
  /-- A suite writes its control state, by `save` or `mutate`. -/
  | save (suite : SuiteId) (payload : Json)
  /-- A step that is no switch is appended. -/
  | append (step : ThreadStep)

def isSwitch : ThreadStep → Bool
  | .switchSuite .. | .switchAgent .. => true
  | _ => false

/-- The switch that an open request logs, unless its connection takes the suite to be that. -/
def switchSuiteStep (current requested ts agent : String) : Option ThreadStep :=
  if current = requested then none
  else some (.switchSuite (some current) requested .okay ts agent)

def switchAgentStep (current requested ts agent : String) : Option ThreadStep :=
  if current = requested then none
  else some (.switchAgent (some current) requested .okay ts agent)

/-- What `load_suite_id` finds in the control state. -/
def suiteIdIn (control : Option Json) : Option String :=
  (control.bind fun raw => (ControlStateEnvelope.fromValue raw).toOption.map
    ControlStateEnvelope.suiteId).filter fun s => !(trim s).isEmpty

section
variable {Conn : Type} [DecidableEq Conn] (listIds : List String) (threadId : String)

namespace SelectionState

def start : SelectionState Conn := ⟨none, none, fun _ => .new, [], none⟩

def loadSuiteId (s : SelectionState Conn) (error : Option CoreError) :
    Except CoreError (Option String) :=
  match error with
  | some e => .error e
  | none => .ok (suiteIdIn s.control)

def getLog (s : SelectionState Conn) (error : Option CoreError) : Except CoreError ThreadLog :=
  match error, s.log with
  | some e, _ => .error e
  | none, some log => .ok log
  | none, none => .error (.session ("get('" ++ threadId ++ "'): not found"))

def resolve (s : SelectionState Conn) (state : ConnState) (reads : Reads) :
    (String × String) × ConnState :=
  resolveThreadContext listIds state threadId (s.loadSuiteId reads.control)
    (s.getLog threadId reads.log)

/-- The part of a request that selects: the switches that it logs and what its connection remembers
then. A request that succeeds has selected its suite and its agent. -/
def select (s : SelectionState Conn) (conn : Conn) (state : ConnState) (suite : SuiteId)
    (agentType : AgentType) (outcome : Outcome) (steps : List ThreadStep) : SelectionState Conn :=
  let withSuite := state.insertSuite threadId suite.value
  let withAgent := withSuite.insertAgent threadId (normalizeAgent agentType)
  let s := { s with log := pushed s.log steps }
  match outcome with
  | .suiteAppendFailed _ => { s with conns := Function.update s.conns conn state }
  | .agentAppendFailed _ => { s with conns := Function.update s.conns conn withSuite }
  | .runFailed => { s with
      conns := Function.update s.conns conn withAgent
      started := suite :: s.started }
  | .ok => { s with
      conns := Function.update s.conns conn withAgent
      started := suite :: s.started
      selected := some (suite, agentType) }

/-- The switches that an open request logs. -/
def openSteps (s : SelectionState Conn) (conn : Conn) (suite : SuiteId) (agentType : AgentType)
    (ts : String) (reads : Reads) (outcome : Outcome) : Option (List ThreadStep) :=
  let agent := normalizeAgent agentType
  let current := (s.resolve listIds threadId (s.conns conn) reads).1
  outcome.logged (switchSuiteStep current.1 suite.value ts agent)
    (switchAgentStep current.2 agent ts agent)

/-- A new request takes an id that is not in use, and remembers what it asks for before it logs
that. -/
def step? (s : SelectionState Conn) : SelectionAction Conn → Option (SelectionState Conn)
  | .newRequest conn suite agentType ts outcome =>
    let agent := normalizeAgent agentType
    let state :=
      ((s.conns conn).insertSuite threadId suite.value).insertAgent threadId agent
    if s.log = none ∧ s.control = none ∧ s.selected.isNone then
      (outcome.logged (some (.switchSuite none suite.value .okay ts agent))
        (some (.switchAgent none agent .okay ts agent))).map
          (s.select threadId conn state suite agentType outcome)
    else none
  | .openRequest conn suite agentType ts reads outcome =>
    let state := (s.resolve listIds threadId (s.conns conn) reads).2
    (s.openSteps listIds threadId conn suite agentType ts reads outcome).map
      (s.select threadId conn state suite agentType outcome)
  | .resolve conn reads =>
    let state := (s.resolve listIds threadId (s.conns conn) reads).2
    some { s with conns := Function.update s.conns conn state }
  | .save suite payload =>
    if suite ∈ s.started then
      some { s with control := some (ControlStateStore.encode suite.value payload) }
    else none
  | .append step => if isSwitch step then none else some { s with log := pushed s.log [step] }

/-- What a fresh connection resolves when no read fails. -/
def fresh (s : SelectionState Conn) : String × String :=
  (s.resolve listIds threadId .new ⟨none, none⟩).1

/-- A fresh connection resolves what the last request selected that succeeded. -/
def Survives (s : SelectionState Conn) : Prop :=
  ∀ suite agentType, s.selected = some (suite, agentType) →
    s.fresh listIds threadId = (suite.value, normalizeAgent agentType)

/-- The suite that the control state names. -/
def controlSuite (s : SelectionState Conn) : Option String :=
  Transport.controlSuite (s.loadSuiteId none)

/-- The suite of the last switch in the log, or the default. -/
def loggedSuite (s : SelectionState Conn) : String :=
  Transport.loggedSuite listIds (s.getLog threadId none)

def loggedAgent (s : SelectionState Conn) : String :=
  Transport.loggedAgent (s.getLog threadId none)

/-- What the connection takes the suite of the thread to be: what it remembers, or what it finds. -/
def knownSuite (s : SelectionState Conn) (conn : Conn) (reads : Reads) : String :=
  suiteOf listIds ((s.conns conn).currentSuite threadId) (s.loadSuiteId reads.control)
    (s.getLog threadId reads.log)

def knownAgent (s : SelectionState Conn) (conn : Conn) (reads : Reads) : String :=
  agentOf ((s.conns conn).currentAgent threadId) (s.getLog threadId reads.log)

/-- An open request that succeeds asks for the suite that the control state names, if it names one,
and where its connection takes the thread to have what it asks for, the log says so too. A request
that fails logs no switch away from the selection, and a suite that saves is the selected one. -/
def Keeps (s : SelectionState Conn) : SelectionAction Conn → Prop
  | .openRequest conn suite agentType _ reads .ok =>
    (∀ id, s.controlSuite = some id → id = suite.value) ∧
      (s.controlSuite = none → s.knownSuite listIds threadId conn reads = suite.value →
        s.loggedSuite listIds threadId = suite.value) ∧
      (s.knownAgent threadId conn reads = normalizeAgent agentType →
        s.loggedAgent threadId = normalizeAgent agentType)
  | .openRequest conn suite agentType _ reads outcome => ∀ selected, s.selected = some selected →
      (s.controlSuite = none → outcome.logsSuite = true →
        s.knownSuite listIds threadId conn reads ≠ suite.value →
          suite.value = selected.1.value) ∧
      (outcome.logsAgent = true →
        s.knownAgent threadId conn reads ≠ normalizeAgent agentType →
          normalizeAgent agentType = normalizeAgent selected.2)
  | .save suite _ => ∀ selected, s.selected = some selected → trim suite.value = selected.1.value
  | _ => True

end SelectionState

def selectionMachine : Machine (SelectionState Conn) (SelectionAction Conn) where
  step := SelectionState.step? listIds threadId

end

section
variable {Conn : Type} {listIds : List String} {threadId : String} {s : SelectionState Conn}

namespace SelectionState

theorem fresh_eq : s.fresh listIds threadId =
    (s.controlSuite.getD (s.loggedSuite listIds threadId), s.loggedAgent threadId) :=
  (resolveThreadContext_eq listIds .new threadId (s.loadSuiteId none) (s.getLog threadId none)).1

theorem toOption_getLog : (s.getLog threadId none).toOption = s.log := by
  unfold getLog
  cases s.log <;> rfl

theorem loggedSuite_eq : s.loggedSuite listIds threadId =
    (lastSuite (s.log.getD ThreadLog.default)).getD ((defaultSuiteId listIds).getD "") := by
  rw [loggedSuite, Transport.loggedSuite, toOption_getLog]
  cases s.log <;> rfl

theorem loggedAgent_eq : s.loggedAgent threadId =
    (lastAgent (s.log.getD ThreadLog.default)).getD DEFAULT_AGENT_TYPE := by
  rw [loggedAgent, Transport.loggedAgent, toOption_getLog]
  cases s.log <;> rfl

/-- What the log says after more steps. -/
theorem loggedSuite_pushed {s' : SelectionState Conn} {steps : List ThreadStep}
    (hlog : s'.log = pushed s.log steps) : s'.loggedSuite listIds threadId =
      (steps.reverse.findSome? switchedSuite).getD (s.loggedSuite listIds threadId) := by
  rw [loggedSuite_eq, loggedSuite_eq, hlog, lastSuite, pushed_steps, List.reverse_append,
    List.findSome?_append, ← lastSuite]
  cases steps.reverse.findSome? switchedSuite <;> rfl

theorem loggedAgent_pushed {s' : SelectionState Conn} {steps : List ThreadStep}
    (hlog : s'.log = pushed s.log steps) : s'.loggedAgent threadId =
      (steps.reverse.findSome? switchedAgent).getD (s.loggedAgent threadId) := by
  rw [loggedAgent_eq, loggedAgent_eq, hlog, lastAgent, pushed_steps, List.reverse_append,
    List.findSome?_append, ← lastAgent]
  cases steps.reverse.findSome? switchedAgent <;> rfl

/-- A log and a control state that stay as they are say what they said. -/
theorem fresh_congr {s' : SelectionState Conn} (hlog : s'.log = s.log)
    (hcontrol : s'.control = s.control) : s'.fresh listIds threadId = s.fresh listIds threadId := by
  rw [fresh_eq, fresh_eq, loggedSuite_eq, loggedSuite_eq, loggedAgent_eq, loggedAgent_eq, hlog,
    controlSuite, controlSuite, loadSuiteId, loadSuiteId, hcontrol]

theorem fresh_pushed {s' : SelectionState Conn} {steps : List ThreadStep}
    (hlog : s'.log = pushed s.log steps) (hcontrol : s'.control = s.control) :
    s'.fresh listIds threadId =
      (s.controlSuite.getD
        ((steps.reverse.findSome? switchedSuite).getD (s.loggedSuite listIds threadId)),
      (steps.reverse.findSome? switchedAgent).getD (s.loggedAgent threadId)) := by
  rw [fresh_eq, loggedSuite_pushed hlog, loggedAgent_pushed hlog, controlSuite, loadSuiteId, hcontrol]
  rfl

/-- A suite that saves is named by the control state. -/
theorem controlSuite_save (suite : SuiteId) (payload : Json) :
    ({ s with control := some (ControlStateStore.encode suite.value payload) } :
      SelectionState Conn).controlSuite = some (trim suite.value) := by
  have hblank : blank (trim suite.value) = false := by
    rw [blank, trim_trim]
    exact suite.not_blank
  have hfound : suiteIdIn (some (ControlStateStore.encode suite.value payload)) =
      some (trim suite.value) := by
    rw [suiteIdIn, Option.bind_some, ControlStateStore.encode,
      ControlStateEnvelope.fromValue_toValue]
    exact Option.filter_some_pos (by simpa [blank] using hblank)
  simp only [controlSuite, loadSuiteId, Transport.controlSuite, hfound, Except.toOption,
    Option.join_some, Option.bind_some, present_eq_some hblank]

theorem fresh_save (suite : SuiteId) (payload : Json) :
    ({ s with control := some (ControlStateStore.encode suite.value payload) } :
      SelectionState Conn).fresh listIds threadId = (trim suite.value, s.loggedAgent threadId) := by
  rw [fresh_eq, controlSuite_save]
  rfl

theorem fresh_append {step : ThreadStep} (h : ¬ isSwitch step = true) :
    ({ s with log := pushed s.log [step] } : SelectionState Conn).fresh listIds threadId =
      s.fresh listIds threadId := by
  have hsuite : switchedSuite step = none := by
    cases step with
    | switchSuite source target observation ts agent => exact absurd rfl h
    | _ => rfl
  have hagent : switchedAgent step = none := by
    cases step with
    | switchAgent source target observation ts agent => exact absurd rfl h
    | _ => rfl
  rw [@fresh_pushed Conn listIds threadId s { s with log := pushed s.log [step] } [step] rfl rfl,
    fresh_eq]
  simp [hsuite, hagent]

end SelectionState

theorem not_blank_normalizeAgent (agentType : AgentType) :
    blank (normalizeAgent agentType) = false := by
  cases agentType <;> decide

theorem suite_of_switchSuiteStep (current ts agent : String) (suite : SuiteId) :
    ((switchSuiteStep current suite.value ts agent).bind switchedSuite) =
      if current = suite.value then none else some suite.value := by
  rw [switchSuiteStep]
  split_ifs
  · rfl
  · rw [Option.bind_some, switchedSuite, present_eq_some suite.not_blank]

theorem agent_of_switchAgentStep (current ts agent : String) (agentType : AgentType) :
    ((switchAgentStep current (normalizeAgent agentType) ts agent).bind switchedAgent) =
      if current = normalizeAgent agentType then none else some (normalizeAgent agentType) := by
  rw [switchAgentStep]
  split_ifs
  · rfl
  · rw [Option.bind_some, switchedAgent, present_eq_some (not_blank_normalizeAgent agentType)]

theorem agent_of_switchSuiteStep (current requested ts agent : String) :
    (switchSuiteStep current requested ts agent).bind switchedAgent = none := by
  rw [switchSuiteStep]
  split_ifs <;> rfl

theorem suite_of_switchAgentStep (current requested ts agent : String) :
    (switchAgentStep current requested ts agent).bind switchedSuite = none := by
  rw [switchAgentStep]
  split_ifs <;> rfl

/-- The switches of a request, by how it ends. -/
theorem Outcome.logged_eq {suiteStep agentStep : Option ThreadStep} {outcome : Outcome}
    {steps : List ThreadStep} (h : outcome.logged suiteStep agentStep = some steps) :
    steps = (if outcome.logsSuite then suiteStep else none).toList ++
      (if outcome.logsAgent then agentStep else none).toList := by
  cases outcome with
  | suiteAppendFailed landed =>
    obtain ⟨step, rfl, rfl⟩ := Option.map_eq_some_iff.mp h
    cases landed <;> rfl
  | agentAppendFailed landed =>
    obtain ⟨step, rfl, rfl⟩ := Option.map_eq_some_iff.mp h
    cases landed <;> rfl
  | runFailed => exact (Option.some.inj h).symm
  | ok => exact (Option.some.inj h).symm

/-- The last switches among one to a suite and one to an agent. -/
theorem findSome?_switches (suiteStep agentStep : Option ThreadStep)
    (hsuite : suiteStep.bind switchedAgent = none) (hagent : agentStep.bind switchedSuite = none) :
    (suiteStep.toList ++ agentStep.toList).reverse.findSome? switchedSuite =
        suiteStep.bind switchedSuite ∧
      (suiteStep.toList ++ agentStep.toList).reverse.findSome? switchedAgent =
        agentStep.bind switchedAgent := by
  have hlist : ∀ f : ThreadStep → Option String,
      (suiteStep.toList ++ agentStep.toList).reverse.findSome? f =
        (agentStep.bind f).or (suiteStep.bind f) := by
    intro f
    rw [List.reverse_append, List.findSome?_append]
    cases suiteStep <;> cases agentStep <;> simp
  rw [hlist, hlist, hsuite, hagent, Option.none_or, Option.or_none]
  exact ⟨rfl, rfl⟩

/-- What the switches of a request say, by how it ends. -/
theorem Outcome.findSome?_logged {suiteStep agentStep : Option ThreadStep} {outcome : Outcome}
    {steps : List ThreadStep} (h : outcome.logged suiteStep agentStep = some steps)
    (hsuite : suiteStep.bind switchedAgent = none) (hagent : agentStep.bind switchedSuite = none) :
    steps.reverse.findSome? switchedSuite =
        (if outcome.logsSuite then suiteStep.bind switchedSuite else none) ∧
      steps.reverse.findSome? switchedAgent =
        (if outcome.logsAgent then agentStep.bind switchedAgent else none) := by
  have hswitches := findSome?_switches (if outcome.logsSuite then suiteStep else none)
    (if outcome.logsAgent then agentStep else none)
    (by split_ifs; exacts [hsuite, rfl]) (by split_ifs; exacts [hagent, rfl])
  rw [← Outcome.logged_eq h] at hswitches
  rw [hswitches.1, hswitches.2]
  cases outcome.logsSuite <;> cases outcome.logsAgent <;> exact ⟨rfl, rfl⟩

/-- A switch that is logged only where it is needed leads to the value, unless the log does not have
the value that it is taken to have. -/
theorem switch_reaches_iff (known requested logged : String) :
    (if known = requested then none else some requested).getD logged = requested ↔
      (known = requested → logged = requested) := by
  split_ifs with hknown
  · exact ⟨fun h _ => h, fun h => h hknown⟩
  · exact ⟨fun _ h => absurd h hknown, fun _ => rfl⟩

/-- A switch does not lead away from the value that is logged. -/
theorem switch_stays_iff {known requested logged selected : String} (landed : Bool)
    (hlogged : logged = selected) :
    (if landed then if known = requested then none else some requested else none).getD logged =
        selected ↔ (landed = true → known ≠ requested → requested = selected) := by
  cases landed with
  | false => exact ⟨fun _ h => (nomatch h), fun _ => hlogged⟩
  | true =>
    rw [if_pos rfl]
    split_ifs with hknown
    · exact ⟨fun _ _ h => absurd hknown h, fun _ => hlogged⟩
    · exact ⟨fun h _ _ => h, fun h => h rfl hknown⟩

namespace SelectionState

theorem survives_iff {suite : SuiteId} {agentType : AgentType}
    (h : s.selected = some (suite, agentType)) : s.Survives listIds threadId ↔
      s.fresh listIds threadId = (suite.value, normalizeAgent agentType) := by
  constructor
  · exact fun hsurvives => hsurvives suite agentType h
  · intro hfresh suite' agentType' h'
    cases h.symm.trans h'
    exact hfresh

/-- After a suite has saved, its name is what is stored. -/
theorem survives_save (h : s.Survives listIds threadId) {suite : SuiteId} (payload : Json) :
    ({ s with control := some (ControlStateStore.encode suite.value payload) } :
      SelectionState Conn).Survives listIds threadId ↔
      s.Keeps listIds threadId (.save suite payload) := by
  constructor
  · intro hafter selected hselected
    have hstored := hafter selected.1 selected.2 hselected
    rw [fresh_save] at hstored
    exact (Prod.mk.inj hstored).1
  · intro hkeeps selected selectedAgent hselected
    have hbefore := h selected selectedAgent hselected
    rw [fresh_eq] at hbefore
    rw [fresh_save]
    exact Prod.ext (hkeeps (selected, selectedAgent) hselected) (Prod.mk.inj hbefore).2

section Select
variable [DecidableEq Conn] {conn : Conn} {state : ConnState} {suite : SuiteId}
  {agentType : AgentType} {outcome : Outcome} {steps : List ThreadStep}

theorem log_select : (s.select threadId conn state suite agentType outcome steps).log =
    pushed s.log steps := by
  cases outcome <;> rfl

theorem control_select : (s.select threadId conn state suite agentType outcome steps).control =
    s.control := by
  cases outcome <;> rfl

theorem selected_select : (s.select threadId conn state suite agentType outcome steps).selected =
    if outcome = .ok then some (suite, agentType) else s.selected := by
  cases outcome <;> rfl

/-- What is stored after an open request. -/
theorem fresh_open {ts : String} {reads : Reads}
    (hsteps : s.openSteps listIds threadId conn suite agentType ts reads outcome = some steps) :
    (s.select threadId conn state suite agentType outcome steps).fresh listIds threadId =
      (s.controlSuite.getD ((if outcome.logsSuite then
          if s.knownSuite listIds threadId conn reads = suite.value then none else some suite.value
          else none).getD (s.loggedSuite listIds threadId)),
        (if outcome.logsAgent then
          if s.knownAgent threadId conn reads = normalizeAgent agentType then none
          else some (normalizeAgent agentType)
          else none).getD (s.loggedAgent threadId)) := by
  have hcurrent : (s.resolve listIds threadId (s.conns conn) reads).1 =
      (s.knownSuite listIds threadId conn reads, s.knownAgent threadId conn reads) :=
    (resolveThreadContext_eq listIds (s.conns conn) threadId (s.loadSuiteId reads.control)
      (s.getLog threadId reads.log)).1
  obtain ⟨hsuite, hagent⟩ := Outcome.findSome?_logged hsteps
    (agent_of_switchSuiteStep _ _ _ _) (suite_of_switchAgentStep _ _ _ _)
  rw [fresh_pushed log_select control_select, hsuite, hagent, suite_of_switchSuiteStep,
    agent_of_switchAgentStep, hcurrent]

/-- After a request that succeeds, what is stored is what it asks for. -/
theorem survives_open_ok {ts : String} {reads : Reads}
    (hsteps : s.openSteps listIds threadId conn suite agentType ts reads .ok = some steps) :
    (s.select threadId conn state suite agentType .ok steps).Survives listIds threadId ↔
      s.Keeps listIds threadId (.openRequest conn suite agentType ts reads .ok) := by
  have hselected : (s.select threadId conn state suite agentType .ok steps).selected =
      some (suite, agentType) := rfl
  have hsuite : Outcome.ok.logsSuite = true := rfl
  have hagent : Outcome.ok.logsAgent = true := rfl
  rw [survives_iff hselected, fresh_open hsteps, Prod.mk.injEq, if_pos hsuite, if_pos hagent,
    switch_reaches_iff, Keeps, ← and_assoc]
  refine and_congr_left' ?_
  cases s.controlSuite with
  | none =>
    rw [Option.getD_none, switch_reaches_iff]
    exact ⟨fun h => ⟨fun _ h => (nomatch h), fun _ => h⟩, fun h => h.2 rfl⟩
  | some id =>
    exact ⟨fun h => ⟨fun _ hid => Option.some.inj hid ▸ h, fun h => (nomatch h)⟩, fun h => h.1 id rfl⟩

/-- After a request that fails, what is stored is what it was. -/
theorem survives_open_failed (h : s.Survives listIds threadId) {ts : String} {reads : Reads}
    (hsteps : s.openSteps listIds threadId conn suite agentType ts reads outcome = some steps)
    (hfailed : outcome ≠ .ok) :
    (s.select threadId conn state suite agentType outcome steps).Survives listIds threadId ↔
      s.Keeps listIds threadId (.openRequest conn suite agentType ts reads outcome) := by
  have hkeeps : s.Keeps listIds threadId (.openRequest conn suite agentType ts reads outcome) ↔
      ∀ selected, s.selected = some selected →
        (s.controlSuite = none → outcome.logsSuite = true →
          s.knownSuite listIds threadId conn reads ≠ suite.value →
            suite.value = selected.1.value) ∧
        (outcome.logsAgent = true →
          s.knownAgent threadId conn reads ≠ normalizeAgent agentType →
            normalizeAgent agentType = normalizeAgent selected.2) := by
    cases outcome with
    | ok => exact absurd rfl hfailed
    | _ => exact Iff.rfl
  have hselected : (s.select threadId conn state suite agentType outcome steps).selected =
      s.selected := by
    rw [selected_select, if_neg hfailed]
  rw [hkeeps]
  cases hprevious : s.selected with
  | none =>
    rw [hprevious] at hselected
    refine ⟨fun _ _ h => (nomatch h), fun _ selected selectedAgent h => ?_⟩
    rw [hselected] at h
    cases h
  | some selected =>
    obtain ⟨previousSuite, previousAgent⟩ := selected
    have hstored := (survives_iff hprevious).mp h
    rw [fresh_eq, Prod.mk.injEq] at hstored
    obtain ⟨hsuite, hagent⟩ := hstored
    rw [survives_iff (hselected.trans hprevious), fresh_open hsteps, Prod.mk.injEq,
      switch_stays_iff outcome.logsAgent hagent]
    simp only [Option.some.injEq, forall_eq']
    refine and_congr_left' ?_
    cases hcontrol : s.controlSuite with
    | none =>
      rw [hcontrol, Option.getD_none] at hsuite
      rw [Option.getD_none, switch_stays_iff outcome.logsSuite hsuite]
      exact ⟨fun h _ => h, fun h => h rfl⟩
    | some id =>
      rw [hcontrol, Option.getD_some] at hsuite
      exact ⟨fun _ h => (nomatch h), fun _ => hsuite⟩

end Select

variable [DecidableEq Conn] {s' : SelectionState Conn}

/-- A new thread has what it was created with. -/
theorem survives_new {conn : Conn} {suite : SuiteId} {agentType : AgentType} {ts : String}
    {outcome : Outcome}
    (hstep : s.step? listIds threadId (.newRequest conn suite agentType ts outcome) = some s') :
    s'.Survives listIds threadId := by
  obtain ⟨⟨hlog, hcontrol, hnone⟩, hsteps⟩ := Option.ite_none_right_eq_some.mp hstep
  obtain ⟨steps, hlogged, rfl⟩ := Option.map_eq_some_iff.mp hsteps
  by_cases hok : outcome = .ok
  · subst hok
    cases hlogged
    rw [survives_iff (selected_select.trans (if_pos rfl)), fresh_pushed log_select control_select]
    have hunnamed : s.controlSuite = none := by
      rw [controlSuite, loadSuiteId, hcontrol]
      rfl
    rw [hunnamed, (findSome?_switches _ _ rfl rfl).1, (findSome?_switches _ _ rfl rfl).2]
    simp only [Option.bind_some, switchedSuite, switchedAgent, present_eq_some suite.not_blank,
      present_eq_some (not_blank_normalizeAgent agentType), Option.getD_none, Option.getD_some]
  · intro selected selectedAgent h
    rw [selected_select, if_neg hok, Option.isNone_iff_eq_none.mp hnone] at h
    cases h

/-- A step keeps the selection readable exactly if it meets the condition. -/
theorem survives_step_iff (h : s.Survives listIds threadId) {a : SelectionAction Conn}
    (hstep : s.step? listIds threadId a = some s') :
    s'.Survives listIds threadId ↔ s.Keeps listIds threadId a := by
  have hsame : s'.selected = s.selected → s'.fresh listIds threadId = s.fresh listIds threadId →
      s'.Survives listIds threadId := by
    intro hselected hfresh suite agentType hs
    rw [hfresh]
    exact h suite agentType (hselected ▸ hs)
  cases a with
  | newRequest conn suite agentType ts outcome => exact iff_of_true (survives_new hstep) trivial
  | openRequest conn suite agentType ts reads outcome =>
    obtain ⟨steps, hsteps, rfl⟩ := Option.map_eq_some_iff.mp hstep
    by_cases hok : outcome = .ok
    · subst hok
      exact survives_open_ok hsteps
    · exact survives_open_failed h hsteps hok
  | resolve conn reads =>
    cases hstep
    exact iff_of_true (hsame rfl (fresh_congr rfl rfl)) trivial
  | save suite payload =>
    obtain ⟨-, heq⟩ := Option.ite_none_right_eq_some.mp hstep
    cases heq
    exact survives_save h payload
  | append step =>
    obtain ⟨hswitch, heq⟩ := Option.ite_none_left_eq_some.mp hstep
    cases heq
    exact iff_of_true (hsame rfl (fresh_append hswitch)) trivial

end SelectionState

/-- In every run of requests of any connections and of suites that save, a fresh connection resolves
what the last request selected that succeeded, in every state, exactly if every step keeps the
stores in line with it. -/
theorem selection_survives_iff [DecidableEq Conn] (listIds : List String) (threadId : String)
    (actions : List (SelectionAction Conn)) (s : SelectionState Conn)
    (hrun : (selectionMachine listIds threadId).run .start actions = some s) :
    (∀ front m, front <+: actions →
        (selectionMachine listIds threadId).run .start front = some m →
          m.Survives listIds threadId) ↔
      (selectionMachine listIds threadId).Along (SelectionState.Keeps listIds threadId) .start
        actions :=
  Machine.forall_prefix_iff_along (fun _ _ _ h hstep => SelectionState.survives_step_iff h hstep)
    (fun _ _ h => (nomatch h)) hrun

/-! Two connections, of which the first asks for its suite once more after the second has switched
to another one. -/

def kbSuite : SuiteId := ⟨"kb", by decide⟩

def etlSuite : SuiteId := ⟨"etl", by decide⟩

def switchOnce : List (SelectionAction Bool) :=
  [.newRequest true kbSuite .ask "1" .ok, .openRequest false etlSuite .review "2" ⟨none, none⟩ .ok]

theorem selection_survives_switchOnce :
    ∃ s, (selectionMachine ["etl", "kb"] "t").run .start switchOnce = some s ∧
      s.fresh ["etl", "kb"] "t" = ("etl", "review") := by
  refine ⟨_, rfl, ?_⟩
  have halong : (selectionMachine ["etl", "kb"] "t").Along
      (SelectionState.Keeps ["etl", "kb"] "t") .start switchOnce := by
    refine ⟨trivial, fun s hs => ⟨?_, fun _ _ => trivial⟩⟩
    cases hs
    refine ⟨fun _ h => (nomatch h), fun _ h => absurd h ?_, fun h => absurd h ?_⟩
    · decide +kernel
    · decide +kernel
  exact (selection_survives_iff ["etl", "kb"] "t" switchOnce _ rfl).mpr halong switchOnce _
    List.prefix_rfl rfl etlSuite .review rfl

theorem selection_lost_back :
    ∃ s, (selectionMachine ["etl", "kb"] "t").run .start
        (switchOnce ++ [.openRequest true kbSuite .ask "3" ⟨none, none⟩ .ok]) = some s ∧
      s.selected = some (kbSuite, .ask) ∧ s.fresh ["etl", "kb"] "t" = ("etl", "review") ∧
      ¬ s.Survives ["etl", "kb"] "t" := by
  refine ⟨_, rfl, rfl, by decide, fun h => ?_⟩
  have hfresh := h kbSuite .ask rfl
  revert hfresh
  decide

end
end ReactRuntime.Transport
