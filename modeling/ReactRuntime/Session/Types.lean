import ReactRuntime.Serde.Json

/-!
# The thread log

The log of a thread is a list of steps together with the result of the last
completion and a title. Steps are only ever appended.
-/
namespace ReactRuntime.Session
open Library Serde

def THREAD_SCHEMA_VERSION : UInt32 := 4
def CONTROL_STATE_ENVELOPE_SCHEMA_VERSION : UInt32 := 1

structure VersionedValue (E T : Type) where
  etag : Option E
  value : T
deriving DecidableEq

inductive LoadState (E T : Type) where
  | missing
  | loaded (v : VersionedValue E T)
deriving DecidableEq

/-- Thread-level control state; the payload belongs to the suite. -/
structure ControlStateEnvelope where
  schemaVersion : UInt32
  suiteId : String
  payload : Json
deriving DecidableEq

inductive ToolStepStatus where
  | running
  | ok
  | failed
deriving DecidableEq, Repr

inductive RunLoopStopKind where
  | rejectedComplete
  | stepLimitExceeded
  | policyBlocked
deriving DecidableEq, Repr

inductive LlmStepStatus where
  | ok
  | failed
deriving DecidableEq, Repr

inductive ArtifactSaveStatus where
  | added
  | modified
  | ok
  | failed
  | other (s : String)
deriving DecidableEq, Repr

/-- Opaque execution context: suites own the keys, the kernel only stores them. -/
structure ExecutionContext where
  data : SortedMap String Json
deriving DecidableEq

structure Observation where
  ok : Bool
  errors : List String
  warnings : List String
deriving DecidableEq, Repr

/-- The observation of a step that only reports that it happened. -/
def Observation.okay : Observation := ⟨true, [], []⟩

def Observation.fail (errors : List String) : Observation := ⟨false, errors, []⟩

/-- The observation of a tool: the three fields of the kernel next to the keys of the tool. -/
structure ToolObservation where
  ok : Bool
  errors : List String
  warnings : List String
  extra : SortedMap String Json
deriving DecidableEq

namespace ToolObservation

def okay (extra : SortedMap String Json) : ToolObservation := ⟨true, [], [], extra⟩

def fail (errors : List String) (extra : SortedMap String Json) : ToolObservation :=
  ⟨false, errors, [], extra⟩

def extraFromValue : Json → SortedMap String Json
  | .obj m => SortedMap.ofList m
  | other => SortedMap.empty.insert "value" other

def fromSuccess (v : Json) : ToolObservation := okay (extraFromValue v)

def fromFailure (message : String) : ToolObservation := fail [message] SortedMap.empty

end ToolObservation

inductive ThreadStep where
  | switchSuite (source : Option String) (target : String) (observation : Observation)
      (ts agent : String)
  | switchAgent (source : Option String) (target : String) (observation : Observation)
      (ts agent : String)
  | user (text : String) (observation : Observation) (ts agent : String)
  | toolStart (toolId name cleanName : String) (args : Json) (status : ToolStepStatus)
      (payload : Option Json) (ctx : Option ExecutionContext) (ts agent : String)
  | toolEnd (toolId name cleanName : String) (args : Json) (status : ToolStepStatus)
      (payload : Option Json) (ctx : Option ExecutionContext) (observation : ToolObservation)
      (ts agent : String)
  | llmStart (callId : UInt64) (model : Option String) (phase : String)
      (ctx : Option ExecutionContext) (ts agent : String)
  | llmEnd (callId : UInt64) (model : Option String) (phase : String) (status : LlmStepStatus)
      (error : Option String) (ctx : Option ExecutionContext) (ts agent : String)
  | llmCall (callId : UInt64) (model phase promptHash : String) (parts : List Json)
      (partHashes : SortedMap String String) (responseHash : String)
      (responseText : Option String) (observation : Observation) (ts agent : String)
  | phase (phase : String) (fromPhase : Option String) (reasonCode : Option String)
      (reasonDetail : Option Json) (observation : Observation) (ts agent : String)
  | guardBlock (phase kind reason : String) (observation : Observation) (ts agent : String)
  | runLoopStop (kind : RunLoopStopKind) (reason : String) (observation : Observation)
      (ts agent : String)
  | artifactFocus (kind name : String) (entityId : Option String) (exist : Bool)
      (observation : Observation) (ts agent : String)
  | artifactSaved (kind name : String) (entityId : Option String) (key : String)
      (status : ArtifactSaveStatus) (linesAdded linesRemoved : UInt64)
      (observation : Observation) (ts agent : String)
  | interrupt (kind prompt : String) (observation : Observation) (ts agent : String)
  | reviewResponse (text : String) (extraMeta : Option Json) (observation : Observation)
      (ts agent : String)
  | complete (kind : String) (payload : Json) (display : Option String)
      (observation : Observation) (ts agent : String)
  | checkpoint (kind : String) (payload : Json) (display : Option String)
      (observation : Observation) (ts agent : String)
deriving DecidableEq

structure ThreadResult where
  kind : String
  payload : Json
  display : Option String
deriving DecidableEq

structure ThreadLog where
  schemaVersion : UInt32
  steps : List ThreadStep
  result : Option ThreadResult
  title : Option String
  titleLocked : Bool
deriving DecidableEq

def ThreadLog.default : ThreadLog := ⟨THREAD_SCHEMA_VERSION, [], none, none, false⟩

namespace ThreadStep

def ts : ThreadStep → String
  | .switchSuite _ _ _ ts _ | .switchAgent _ _ _ ts _ | .user _ _ ts _ => ts
  | .toolStart _ _ _ _ _ _ _ ts _ | .toolEnd _ _ _ _ _ _ _ _ ts _ => ts
  | .llmStart _ _ _ _ ts _ | .llmEnd _ _ _ _ _ _ ts _ | .llmCall _ _ _ _ _ _ _ _ _ ts _ => ts
  | .phase _ _ _ _ _ ts _ | .guardBlock _ _ _ _ ts _ | .runLoopStop _ _ _ ts _ => ts
  | .artifactFocus _ _ _ _ _ ts _ | .artifactSaved _ _ _ _ _ _ _ _ ts _ => ts
  | .interrupt _ _ _ ts _ | .reviewResponse _ _ _ ts _ => ts
  | .complete _ _ _ _ ts _ | .checkpoint _ _ _ _ ts _ => ts

def isPhase : ThreadStep → Bool
  | .phase .. => true
  | _ => false

/-- What a completion reports to the log, and nothing for every other step. -/
def result : ThreadStep → Option ThreadResult
  | .complete kind payload display _ _ _ => some ⟨kind, payload, display⟩
  | _ => none

end ThreadStep
end ReactRuntime.Session
