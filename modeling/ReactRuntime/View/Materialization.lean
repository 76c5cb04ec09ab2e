import Mathlib.Algebra.GroupWithZero.Nat
import ReactRuntime.Core.Text
import ReactRuntime.Session.Types

/-!
# The materialized view of a thread

A view is folded from the steps of a log. It holds one item for each phase that a step names, and
the item of the current phase changes its status as the steps say. `millisBetween` has the signed
milliseconds from one RFC 3339 text to another, if both can be read.
-/
namespace ReactRuntime.View
open Library Serde ReactRuntime.Core Session

def THREAD_STATE_SCHEMA_VERSION : UInt32 := 2

inductive ThreadItemKind where
  | phase
  | tool
  | task
deriving DecidableEq, Repr

def ThreadItemKind.asStr : ThreadItemKind → String
  | .phase => "phase"
  | .tool => "tool"
  | .task => "task"

inductive ThreadItemStatus where
  | queued
  | running
  | ok
  | failed
  | blocked
deriving DecidableEq, Repr

structure ThreadItemError where
  summary : String
  toolStepIdx : Option Nat
  stepTs : Option String
deriving DecidableEq, Repr

structure ThreadItemState where
  kind : ThreadItemKind
  status : ThreadItemStatus
  startedAt : Option String
  finishedAt : Option String
  runtimeMs : Option Nat
  lastError : Option ThreadItemError
  outputs : Option Json
deriving DecidableEq

namespace ThreadItemState

def phaseRunning (ts : String) : ThreadItemState :=
  ⟨.phase, .running, some ts, none, none, none, none⟩

def phaseFinished (ts : String) : ThreadItemState :=
  ⟨.phase, .ok, none, some ts, none, none, none⟩

def phaseBlocked (ts : String) : ThreadItemState :=
  ⟨.phase, .blocked, some ts, none, none, none, none⟩

end ThreadItemState

structure ThreadLogViewCache where
  threadStateSchemaVersion : UInt32
  threadId : String
  suiteId : Option String
  agentType : Option String
  currentPhase : Option String
  lastMaterializedStepCount : Nat
  totalRuntimeMs : Nat
  items : SortedMap String ThreadItemState

/-- A text without the whitespace around it, if anything is left. -/
def trimmed (text : String) : Option String := if (trim text).isEmpty then none else some (trim text)

def phaseKey (phase : String) : String := "phase:" ++ phase

namespace ThreadLogViewCache

/-- Change an item, which is put in first if it is not there. -/
def updateItem (st : ThreadLogViewCache) (key : String) (fresh : ThreadItemState)
    (update : ThreadItemState → ThreadItemState) : ThreadLogViewCache :=
  { st with items := st.items.insert key (update ((st.items.get key).getD fresh)) }

def blockCurrentPhase (st : ThreadLogViewCache) (msg ts : String) : ThreadLogViewCache :=
  match st.currentPhase with
  | none => st
  | some ph => st.updateItem (phaseKey ph) (.phaseBlocked ts) fun item =>
    { item with kind := .phase, status := .blocked, lastError := some ⟨msg, none, some ts⟩ }

section
variable (millisBetween : String → String → Option Int)

def durationMs (startTs endTs : String) : Option Nat :=
  (millisBetween startTs endTs).map fun ms => if ms ≤ 0 then 0 else ms.toNat

/-- Fill in the runtime of a finished item that has none. -/
def withRuntime (item : ThreadItemState) : ThreadItemState :=
  match item.runtimeMs, item.startedAt, item.finishedAt with
  | none, some started, some finished =>
    { item with runtimeMs := durationMs millisBetween started finished }
  | _, _, _ => item

/-- The item of the phase that a phase step leaves. -/
def leavePhase (st : ThreadLogViewCache) (fromPhase : Option String) (ts : String) :
    ThreadLogViewCache :=
  match fromPhase.bind trimmed with
  | none => st
  | some prev => st.updateItem (phaseKey prev) (.phaseFinished ts) fun item =>
    withRuntime millisBetween
      { item with kind := .phase, status := .ok, finishedAt := item.finishedAt.or (some ts) }

def applyStepToState (st : ThreadLogViewCache) (_stepIdx : Nat) (step : ThreadStep) :
    ThreadLogViewCache :=
  match step with
  | .switchSuite _ target .. =>
    if (trim target).isEmpty then st else { st with suiteId := some target }
  | .switchAgent _ target .. =>
    if (trim target).isEmpty then st else { st with agentType := some target }
  | .phase phase fromPhase _ _ _ ts _ =>
    match trimmed phase with
    | none => st
    | some ph =>
      let st := st.leavePhase millisBetween fromPhase ts
      let st := st.updateItem (phaseKey ph) (.phaseRunning ts) fun item =>
        { item with
          kind := .phase, status := .running, startedAt := item.startedAt.or (some ts) }
      { st with currentPhase := some ph }
  | .complete _ _ _ observation ts _ =>
    match st.currentPhase.bind trimmed with
    | none => st
    | some ph => st.updateItem (phaseKey ph) (.phaseRunning ts) fun item =>
      withRuntime millisBetween { item with
        kind := .phase
        status := if observation.ok then .ok else .failed
        finishedAt := some ts }
  | .checkpoint _ _ display _ ts _ =>
    match st.currentPhase with
    | none => st
    | some ph => st.updateItem (phaseKey ph) (.phaseRunning ts) fun item =>
      match display with
      | some d => { item with lastError := some ⟨d, none, some ts⟩ }
      | none => item
  | .interrupt _ prompt _ ts _ => st.blockCurrentPhase prompt ts
  | .guardBlock _ _ reason _ ts _ => st.blockCurrentPhase reason ts
  | .runLoopStop _ reason _ ts _ => st.blockCurrentPhase reason ts
  | .toolStart .. | .toolEnd .. | .llmStart .. | .llmEnd .. | .user .. | .llmCall ..
  | .artifactFocus .. | .artifactSaved .. | .reviewResponse .. => st

/-- The view of a thread before its first step. -/
def start (threadId : String) : ThreadLogViewCache :=
  ⟨THREAD_STATE_SCHEMA_VERSION, threadId, none, none, none, 0, 0, .empty⟩

def materializeStateFromLog (threadId : String) (log : ThreadLog) : ThreadLogViewCache :=
  let st := log.steps.zipIdx.foldl (fun st step => st.applyStepToState millisBetween step.2 step.1)
    (start threadId)
  { st with
    lastMaterializedStepCount := log.steps.length
    totalRuntimeMs := ((st.items.entries.map Prod.snd).filterMap fun item =>
      if item.kind.asStr = "phase" then item.runtimeMs else none).sum }

end

/-- Some item has failed. -/
def hasFailedItem (st : ThreadLogViewCache) : Bool :=
  st.items.entries.any fun item => item.2.status = .failed

end ThreadLogViewCache
end ReactRuntime.View
