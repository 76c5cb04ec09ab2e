import ReactRuntime.Core.Text
import ReactRuntime.Session.Types

/-!
# The timeline of a thread

The tool and model steps of a log become events. A tool step is only shown with its other half,
and an event carries the phase of the event before it.
-/
namespace ReactRuntime.View
open Library Serde ReactRuntime.Core Session

inductive ThreadEventKind where
  | toolStart
  | toolEnd
  | llmStart
  | llmEnd
deriving DecidableEq, Repr

inductive ThreadEventStatus where
  | running
  | ok
  | failed
deriving DecidableEq, Repr

structure ThreadEvent where
  stepIdx : Nat
  eventKind : ThreadEventKind
  ts : String
  toolId : Option String
  name : Option String
  cleanName : Option String
  status : Option ThreadEventStatus
  runtimeMs : Option Nat
  payload : Option Json
  error : Option String
  callId : Option UInt64
  model : Option String
  phase : Option String
  ctx : Option ExecutionContext
deriving DecidableEq

namespace ToolObservation

def nonEmptyStringField (extra : SortedMap String Json) (key : String) : Option String :=
  (((extra.get key).bind Json.asStr).map trim).filter fun s => !s.isEmpty

def firstErrorOrContext (observation : ToolObservation) : Option String :=
  observation.errors.head?.or
    (["message", "reason", "detail"].findSome? (nonEmptyStringField observation.extra))

end ToolObservation

/-- The event of a step, with the phase of the event before it. -/
def stepToTimelineEvent (stepIdx : Nat) (step : ThreadStep) (currentPhase : Option String) :
    Option ThreadEvent :=
  match step with
  | .toolStart toolId name cleanName _ _ payload ctx ts _ => some
    { stepIdx, eventKind := .toolStart, ts, toolId := some toolId, name := some name
      cleanName := some cleanName, status := some .running, runtimeMs := none, payload
      error := none, callId := none, model := none
      phase := some (currentPhase.getD "unknown"), ctx }
  | .toolEnd toolId name cleanName _ status payload ctx observation ts _ => some
    { stepIdx, eventKind := .toolEnd, ts, toolId := some toolId, name := some name
      cleanName := some cleanName
      status := some (if status = .failed then .failed else .ok), runtimeMs := none, payload
      error := if observation.ok then none else ToolObservation.firstErrorOrContext observation
      callId := none, model := none, phase := some (currentPhase.getD "unknown"), ctx }
  | .llmStart callId model phase ctx ts _ => some
    { stepIdx, eventKind := .llmStart, ts, toolId := none, name := none, cleanName := none
      status := some .running, runtimeMs := none, payload := none, error := none
      callId := some callId, model, phase := some phase, ctx }
  | .llmEnd callId model phase status error ctx ts _ => some
    { stepIdx, eventKind := .llmEnd, ts, toolId := none, name := none, cleanName := none
      status := some (if status = .failed then .failed else .ok), runtimeMs := none
      payload := none, error, callId := some callId, model, phase := some phase, ctx }
  | _ => none

/-- Both halves of a tool call are in the log. -/
def pairedToolId (log : ThreadLog) (toolId : String) : Bool :=
  (log.steps.any fun step => match step with
    | .toolStart id .. => id = toolId
    | _ => false) &&
  log.steps.any fun step => match step with
    | .toolEnd id .. => id = toolId
    | _ => false

/-- A tool step without its other half is skipped. -/
def unpaired (log : ThreadLog) : ThreadStep → Bool
  | .toolStart toolId .. | .toolEnd toolId .. => !pairedToolId log toolId
  | _ => false

def currentPhaseOf (events : List ThreadEvent) : ThreadStep → Option String
  | .phase phase .. => some phase
  | _ => (events.reverse.findSome? ThreadEvent.phase).or (some "unknown")

def appendTimelineEvent (log : ThreadLog) (events : List ThreadEvent) (step : ThreadStep × Nat) :
    List ThreadEvent :=
  if unpaired log step.1 then events
  else events ++ (stepToTimelineEvent step.2 step.1 (currentPhaseOf events step.1)).toList

def buildThreadEventsFromLog (log : ThreadLog) (maxEvents : Nat) : List ThreadEvent :=
  let events := log.steps.zipIdx.foldl (appendTimelineEvent log) []
  if maxEvents < events.length then events.drop (events.length - maxEvents) else events

end ReactRuntime.View
