import ReactRuntime.Core.Error
import ReactRuntime.Core.Text
import ReactRuntime.Session.Types
import Mathlib.Logic.Function.Basic

/-!
# The suite and the agent of a thread

A connection remembers the suite and the agent of its threads. What it does not know it looks up:
the suite in the control state, then both in the log, which holds a step for every switch, and what
is nowhere is a default.
-/
namespace ReactRuntime.Transport
open ReactRuntime.Core Session

def DEFAULT_AGENT_TYPE : String := "ask"

/-- The string is empty or white space. -/
def blank (s : String) : Bool := (trim s).isEmpty

/-- What a connection remembers of its threads. -/
structure ConnState where
  currentSuite : String → Option String
  currentAgent : String → Option String

/-- A fresh connection. -/
def ConnState.new : ConnState := ⟨fun _ => none, fun _ => none⟩

def ConnState.insertSuite (state : ConnState) (threadId suiteId : String) : ConnState :=
  { state with currentSuite := Function.update state.currentSuite threadId (some suiteId) }

def ConnState.insertAgent (state : ConnState) (threadId agentType : String) : ConnState :=
  { state with currentAgent := Function.update state.currentAgent threadId (some agentType) }

/-- The first of the suites that are registered, in order of their ids. -/
def defaultSuiteId (listIds : List String) : Option String := listIds.head?

/-- What a step of the log adds to what is known. -/
def learnSwitch (step : ThreadStep) (suiteId agentType : String) : String × String :=
  match step with
  | .switchSuite _ target .. =>
    (if blank suiteId && !blank target then target else suiteId, agentType)
  | .switchAgent _ target .. =>
    (suiteId, if blank agentType && !blank target then target else agentType)
  | _ => (suiteId, agentType)

/-- The steps in order, until both the suite and the agent are known. -/
def scanSwitches : List ThreadStep → String × String → String × String
  | [], known => known
  | step :: steps, (suiteId, agentType) =>
    let known := learnSwitch step suiteId agentType
    if !blank known.1 && !blank known.2 then known else scanSwitches steps known

/-- The suite and the agent of a thread, and the connection that now remembers them. A read that
fails finds nothing. -/
def resolveThreadContext (listIds : List String) (state : ConnState) (threadId : String)
    (loadSuiteId : Except CoreError (Option String)) (getLog : Except CoreError ThreadLog) :
    (String × String) × ConnState :=
  let cached := do
    let suiteId ← state.currentSuite threadId
    let agentType ← state.currentAgent threadId
    if !blank suiteId && !blank agentType then some (suiteId, agentType) else none
  match cached with
  | some known => (known, state)
  | none =>
    let suiteId := (state.currentSuite threadId).getD ""
    let agentType := (state.currentAgent threadId).getD ""
    let suiteId := if blank suiteId then match loadSuiteId with
      | .ok (some id) => if blank id then suiteId else id
      | _ => suiteId
      else suiteId
    let (suiteId, agentType) := if blank suiteId || blank agentType then match getLog with
      | .ok log => scanSwitches log.steps.reverse (suiteId, agentType)
      | .error _ => (suiteId, agentType)
      else (suiteId, agentType)
    let suiteId := if blank suiteId then (defaultSuiteId listIds).getD "" else suiteId
    let agentType := if blank agentType then DEFAULT_AGENT_TYPE else agentType
    ((suiteId, agentType), (state.insertSuite threadId suiteId).insertAgent threadId agentType)

/-- A value that is not blank. -/
def present (s : String) : Option String := if blank s then none else some s

def switchedSuite : ThreadStep → Option String
  | .switchSuite _ target .. => present target
  | _ => none

def switchedAgent : ThreadStep → Option String
  | .switchAgent _ target .. => present target
  | _ => none

/-- The last switch to a suite. -/
def lastSuite (log : ThreadLog) : Option String := log.steps.reverse.findSome? switchedSuite

def lastAgent (log : ThreadLog) : Option String := log.steps.reverse.findSome? switchedAgent

/-- The suite that the control state names. -/
def controlSuite (loadSuiteId : Except CoreError (Option String)) : Option String :=
  loadSuiteId.toOption.join.bind present

/-- The suite of the last switch, or the default. -/
def loggedSuite (listIds : List String) (getLog : Except CoreError ThreadLog) : String :=
  (getLog.toOption.bind lastSuite).getD ((defaultSuiteId listIds).getD "")

def loggedAgent (getLog : Except CoreError ThreadLog) : String :=
  (getLog.toOption.bind lastAgent).getD DEFAULT_AGENT_TYPE

/-- The suite that a connection knows, and else what is stored: the control state comes before the
log. -/
def suiteOf (listIds : List String) (cached : Option String)
    (loadSuiteId : Except CoreError (Option String)) (getLog : Except CoreError ThreadLog) : String :=
  ((cached.bind present).or (controlSuite loadSuiteId)).getD (loggedSuite listIds getLog)

def agentOf (cached : Option String) (getLog : Except CoreError ThreadLog) : String :=
  (cached.bind present).getD (loggedAgent getLog)

theorem present_eq_none {s : String} (h : blank s = true) : present s = none := if_pos h

theorem present_eq_some {s : String} (h : blank s = false) : present s = some s := by
  rw [present, h]
  exact if_neg Bool.false_ne_true

theorem blank_of_present {s v : String} (h : present s = some v) : blank v = false := by
  obtain ⟨hblank, heq⟩ := Option.ite_none_left_eq_some.mp h
  rw [← Option.some.inj heq]
  exact Bool.eq_false_of_not_eq_true hblank

theorem blank_empty : blank "" = true := by decide

/-- A value is kept unless it is blank, and then replaced by what is found. -/
def orFound (s : String) (found : Option String) : String := (present s).getD (found.getD s)

theorem orFound_of_not_blank {s : String} (h : blank s = false) (found : Option String) :
    orFound s found = s := by
  rw [orFound, present_eq_some h, Option.getD_some]

theorem orFound_of_blank {s : String} (h : blank s = true) (found : Option String) :
    orFound s found = found.getD s := by
  rw [orFound, present_eq_none h, Option.getD_none]

theorem orFound_none (s : String) : orFound s none = s := by
  cases h : blank s with
  | true => rw [orFound_of_blank h, Option.getD_none]
  | false => exact orFound_of_not_blank h none

/-- A value that is found is kept. -/
theorem orFound_orFound {s : String} {found : Option String}
    (h : ∀ v, found = some v → blank v = false) (more : Option String) :
    orFound (orFound s found) more = orFound s (found.or more) := by
  cases hs : blank s with
  | false => rw [orFound_of_not_blank hs, orFound_of_not_blank hs, orFound_of_not_blank hs]
  | true =>
    rw [orFound_of_blank hs, orFound_of_blank hs]
    cases found with
    | none => exact orFound_of_blank hs more
    | some v => exact orFound_of_not_blank (h v rfl) more

theorem switchedSuite_not_blank {step : ThreadStep} {v : String} (h : switchedSuite step = some v) :
    blank v = false := by
  cases step with
  | switchSuite source target observation ts agent => exact blank_of_present h
  | _ => cases h

theorem switchedAgent_not_blank {step : ThreadStep} {v : String} (h : switchedAgent step = some v) :
    blank v = false := by
  cases step with
  | switchAgent source target observation ts agent => exact blank_of_present h
  | _ => cases h

theorem learnSwitch_eq (step : ThreadStep) (suiteId agentType : String) :
    learnSwitch step suiteId agentType =
      (orFound suiteId (switchedSuite step), orFound agentType (switchedAgent step)) := by
  have hlearn : ∀ s target, (if blank s && !blank target then target else s) =
      orFound s (present target) := by
    intro s target
    cases hs : blank s with
    | false => rw [orFound_of_not_blank hs, Bool.false_and, if_neg Bool.false_ne_true]
    | true =>
      rw [orFound_of_blank hs]
      cases ht : blank target with
      | true => simp [present_eq_none ht]
      | false => simp [present_eq_some ht]
  cases step with
  | switchSuite source target observation ts agent =>
    simp only [learnSwitch, switchedSuite, switchedAgent, hlearn, orFound_none]
  | switchAgent source target observation ts agent =>
    simp only [learnSwitch, switchedSuite, switchedAgent, hlearn, orFound_none]
  | _ => simp only [learnSwitch, switchedSuite, switchedAgent, orFound_none]

/-- The scan finds the first switch of each kind that has a value. -/
theorem scanSwitches_eq (steps : List ThreadStep) (suiteId agentType : String) :
    scanSwitches steps (suiteId, agentType) =
      (orFound suiteId (steps.findSome? switchedSuite),
        orFound agentType (steps.findSome? switchedAgent)) := by
  induction steps generalizing suiteId agentType with
  | nil => rw [scanSwitches, List.findSome?_nil, List.findSome?_nil, orFound_none, orFound_none]
  | cons step steps ih =>
    have hcons : ∀ f : ThreadStep → Option String,
        (step :: steps).findSome? f = (f step).or (steps.findSome? f) := by
      intro f
      rw [List.findSome?_cons]
      cases f step <;> rfl
    rw [scanSwitches, learnSwitch_eq, hcons, hcons,
      ← orFound_orFound fun _ => switchedSuite_not_blank,
      ← orFound_orFound fun _ => switchedAgent_not_blank]
    dsimp only
    split_ifs with hknown
    · rw [Bool.and_eq_true, Bool.not_eq_true', Bool.not_eq_true'] at hknown
      rw [orFound_of_not_blank hknown.1, orFound_of_not_blank hknown.2]
    · exact ih _ _

theorem lastSuite_not_blank {log : ThreadLog} {v : String} (h : lastSuite log = some v) :
    blank v = false := by
  obtain ⟨step, -, hstep⟩ := List.exists_of_findSome?_eq_some h
  exact switchedSuite_not_blank hstep

theorem lastAgent_not_blank {log : ThreadLog} {v : String} (h : lastAgent log = some v) :
    blank v = false := by
  obtain ⟨step, -, hstep⟩ := List.exists_of_findSome?_eq_some h
  exact switchedAgent_not_blank hstep

theorem controlSuite_not_blank {loadSuiteId : Except CoreError (Option String)} {v : String}
    (h : controlSuite loadSuiteId = some v) : blank v = false := by
  obtain ⟨id, -, hid⟩ := Option.bind_eq_some_iff.mp h
  exact blank_of_present hid

/-- The default takes the place of a value that is blank after all. -/
theorem default_orFound {s : String} {found : Option String}
    (h : ∀ v, found = some v → blank v = false) (default : String) :
    (if blank (orFound s found) then default else orFound s found) =
      ((present s).or found).getD default := by
  cases hs : blank s with
  | false =>
    rw [orFound_of_not_blank hs, hs, present_eq_some hs]
    rfl
  | true =>
    rw [orFound_of_blank hs, present_eq_none hs, Option.none_or]
    cases found with
    | none => exact if_pos hs
    | some v => exact if_neg (by rw [Option.getD_some, h v rfl]; exact Bool.false_ne_true)

/-- The look at the control state. -/
theorem look_controlSuite (suiteId : String) (loadSuiteId : Except CoreError (Option String)) :
    (if blank suiteId then match loadSuiteId with
      | .ok (some id) => if blank id then suiteId else id
      | _ => suiteId
      else suiteId) = orFound suiteId (controlSuite loadSuiteId) := by
  cases hs : blank suiteId with
  | false => exact (orFound_of_not_blank hs _).symm
  | true =>
    rw [orFound_of_blank hs, if_pos rfl]
    rcases loadSuiteId with e | (_ | id)
    · rfl
    · rfl
    · cases hid : blank id with
      | true => simp [controlSuite, Except.toOption, present_eq_none hid, hid]
      | false => simp [controlSuite, Except.toOption, present_eq_some hid, hid]

/-- The look at the log. -/
theorem look_log (suiteId agentType : String) (getLog : Except CoreError ThreadLog) :
    (if blank suiteId || blank agentType then match getLog with
      | .ok log => scanSwitches log.steps.reverse (suiteId, agentType)
      | .error _ => (suiteId, agentType)
      else (suiteId, agentType)) =
      (orFound suiteId (getLog.toOption.bind lastSuite),
        orFound agentType (getLog.toOption.bind lastAgent)) := by
  split_ifs with hunknown
  · cases getLog with
    | error e => simp only [Except.toOption, Option.bind_none, orFound_none]
    | ok log =>
      simp only [scanSwitches_eq]
      rfl
  · rw [Bool.or_eq_true, not_or, Bool.not_eq_true, Bool.not_eq_true] at hunknown
    rw [orFound_of_not_blank hunknown.1, orFound_of_not_blank hunknown.2]

theorem present_getD (cached : Option String) : present (cached.getD "") = cached.bind present := by
  cases cached with
  | none => rw [Option.getD_none, present_eq_none blank_empty, Option.bind_none]
  | some s => rw [Option.getD_some, Option.bind_some]

section
variable (listIds : List String) (state : ConnState) (threadId : String)
  (loadSuiteId : Except CoreError (Option String)) (getLog : Except CoreError ThreadLog)

/-- What is looked up. -/
theorem resolveThreadContext_uncached
    (h : ∀ s a, state.currentSuite threadId = some s → state.currentAgent threadId = some a →
      (!blank s && !blank a) = false) :
    let suiteId := suiteOf listIds (state.currentSuite threadId) loadSuiteId getLog
    let agentType := agentOf (state.currentAgent threadId) getLog
    resolveThreadContext listIds state threadId loadSuiteId getLog =
      ((suiteId, agentType), (state.insertSuite threadId suiteId).insertAgent threadId agentType) := by
  intro suiteId agentType
  have hfound : ∀ v, (controlSuite loadSuiteId).or (getLog.toOption.bind lastSuite) = some v →
      blank v = false := by
    intro v hv
    rcases Option.or_eq_some_iff.mp hv with hv | ⟨-, hv⟩
    · exact controlSuite_not_blank hv
    · obtain ⟨log, -, hlog⟩ := Option.bind_eq_some_iff.mp hv
      exact lastSuite_not_blank hlog
  have hfound' : ∀ v, getLog.toOption.bind lastAgent = some v → blank v = false := by
    intro v hv
    obtain ⟨log, -, hlog⟩ := Option.bind_eq_some_iff.mp hv
    exact lastAgent_not_blank hlog
  have hsuite := default_orFound (s := (state.currentSuite threadId).getD "") hfound
    ((defaultSuiteId listIds).getD "")
  have hagent := default_orFound (s := (state.currentAgent threadId).getD "") hfound'
    DEFAULT_AGENT_TYPE
  rw [← orFound_orFound fun _ => controlSuite_not_blank, present_getD] at hsuite
  rw [present_getD] at hagent
  have hsuiteOf : suiteId = ((Option.bind (state.currentSuite threadId) present).or
      ((controlSuite loadSuiteId).or (getLog.toOption.bind lastSuite))).getD
        ((defaultSuiteId listIds).getD "") := by
    simp only [suiteId, suiteOf, loggedSuite, ← Option.or_assoc]
    cases (Option.bind (state.currentSuite threadId) present).or (controlSuite loadSuiteId) <;> rfl
  have hagentOf : agentType = ((Option.bind (state.currentAgent threadId) present).or
      (getLog.toOption.bind lastAgent)).getD DEFAULT_AGENT_TYPE := by
    simp only [agentType, agentOf, loggedAgent]
    cases Option.bind (state.currentAgent threadId) present <;> rfl
  have hcached : (do
      let suiteId ← state.currentSuite threadId
      let agentType ← state.currentAgent threadId
      if !blank suiteId && !blank agentType then some (suiteId, agentType) else none) = none := by
    cases hs : state.currentSuite threadId with
    | none => rfl
    | some s =>
      cases ha : state.currentAgent threadId with
      | none => rfl
      | some a => simpa using h s a hs ha
  simp only [resolveThreadContext, hcached, look_controlSuite, look_log, hsuite, hagent, ← hsuiteOf,
    ← hagentOf]

/-- What is resolved, and that the connection remembers it. -/
theorem resolveThreadContext_eq :
    let suiteId := suiteOf listIds (state.currentSuite threadId) loadSuiteId getLog
    let agentType := agentOf (state.currentAgent threadId) getLog
    let resolved := resolveThreadContext listIds state threadId loadSuiteId getLog
    resolved.1 = (suiteId, agentType) ∧
      resolved.2.currentSuite threadId = some suiteId ∧
      resolved.2.currentAgent threadId = some agentType := by
  intro suiteId agentType resolved
  by_cases hcached : ∃ s a, state.currentSuite threadId = some s ∧
      state.currentAgent threadId = some a ∧ blank s = false ∧ blank a = false
  · obtain ⟨s, a, hs, ha, hsblank, hablank⟩ := hcached
    have heq : resolved = ((s, a), state) := by
      simp [resolved, resolveThreadContext, hs, ha, hsblank, hablank]
    have hsuite : suiteId = s := by simp [suiteId, suiteOf, hs, present_eq_some hsblank]
    have hagent : agentType = a := by simp [agentType, agentOf, ha, present_eq_some hablank]
    rw [heq, hsuite, hagent]
    exact ⟨rfl, hs, ha⟩
  · have heq : resolved = ((suiteId, agentType),
        (state.insertSuite threadId suiteId).insertAgent threadId agentType) := by
      refine resolveThreadContext_uncached listIds state threadId loadSuiteId getLog
        fun s a hs ha => Bool.eq_false_of_not_eq_true fun hknown => hcached ⟨s, a, hs, ha, ?_⟩
      simpa using hknown
    rw [heq]
    exact ⟨rfl, Function.update_self _ _ _, Function.update_self _ _ _⟩

end
end ReactRuntime.Transport
