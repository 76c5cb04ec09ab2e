import ReactRuntime.Session.Types

/-!
# The stored form of the thread log

`ThreadLog` is written with `serde_json::to_value` and read with
`serde_json::from_value`. A step is an internally tagged enum that denies unknown
fields; a tool observation flattens the keys of the tool after its own fields.
The wording of an error belongs to serde and is abbreviated here.
-/
namespace ReactRuntime.Session
open Library Serde

def strs (xs : List String) : Json := .arr (xs.map .str)

namespace Observation

def toValue (o : Observation) : Json :=
  .object [("ok", .bool o.ok), ("errors", strs o.errors), ("warnings", strs o.warnings)]

def fromValue (j : Json) : Except String Observation := do
  let fs ← De.fields j
  De.denyUnknown ["ok", "errors", "warnings"] fs
  let ok ← De.field "ok" De.bool fs
  let errors ← De.field "errors" (De.list De.str) fs
  let warnings ← De.defaultField "warnings" [] (De.list De.str) fs
  .ok ⟨ok, errors, warnings⟩

end Observation

namespace ToolObservation

/-- The kernel's own fields, which a flattened key of the tool can overwrite. -/
def ownKeys : List String := ["ok", "errors", "warnings"]

def toValue (o : ToolObservation) : Json :=
  .object ([("ok", .bool o.ok), ("errors", strs o.errors), ("warnings", strs o.warnings)] ++
    o.extra.entries)

def fromValue (j : Json) : Except String ToolObservation := do
  let fs ← De.fields j
  let ok ← De.field "ok" De.bool fs
  let errors ← De.field "errors" (De.list De.str) fs
  let warnings ← De.defaultField "warnings" [] (De.list De.str) fs
  .ok ⟨ok, errors, warnings, SortedMap.ofList (fs.filter fun f => !ownKeys.contains f.1)⟩

end ToolObservation

namespace ExecutionContext

def toValue (c : ExecutionContext) : Json := .obj c.data.entries

def fromValue (j : Json) : Except String ExecutionContext := do
  let fs ← De.fields j
  .ok ⟨SortedMap.ofList fs⟩

end ExecutionContext

def ToolStepStatus.asStr : ToolStepStatus → String
  | .running => "running"
  | .ok => "ok"
  | .failed => "failed"

def ToolStepStatus.fromValue : Json → Except String ToolStepStatus
  | .str "running" => .ok .running
  | .str "ok" => .ok .ok
  | .str "failed" => .ok .failed
  | _ => .error "unknown variant of ToolStepStatus"

def RunLoopStopKind.asStr : RunLoopStopKind → String
  | .rejectedComplete => "rejected_complete"
  | .stepLimitExceeded => "step_limit_exceeded"
  | .policyBlocked => "policy_blocked"

def RunLoopStopKind.fromValue : Json → Except String RunLoopStopKind
  | .str "rejected_complete" => .ok .rejectedComplete
  | .str "step_limit_exceeded" => .ok .stepLimitExceeded
  | .str "policy_blocked" => .ok .policyBlocked
  | _ => .error "unknown variant of RunLoopStopKind"

def LlmStepStatus.asStr : LlmStepStatus → String
  | .ok => "ok"
  | .failed => "failed"

def LlmStepStatus.fromValue : Json → Except String LlmStepStatus
  | .str "ok" => .ok .ok
  | .str "failed" => .ok .failed
  | _ => .error "unknown variant of LlmStepStatus"

def ArtifactSaveStatus.asStr : ArtifactSaveStatus → String
  | .added => "added"
  | .modified => "modified"
  | .ok => "ok"
  | .failed => "failed"
  | .other s => s

def ArtifactSaveStatus.ofStr : String → ArtifactSaveStatus
  | "added" => .added
  | "modified" => .modified
  | "ok" => .ok
  | "failed" => .failed
  | s => .other s

namespace ThreadStep

/-- The tag and the fields of a step, in the order of the declaration. -/
def toFields : ThreadStep → Fields
  | .switchSuite source target observation ts agent =>
    [("type", .str "switch_suite"), ("from", De.option .str source), ("to", .str target),
      ("observation", observation.toValue), ("ts", .str ts), ("agent", .str agent)]
  | .switchAgent source target observation ts agent =>
    [("type", .str "switch_agent"), ("from", De.option .str source), ("to", .str target),
      ("observation", observation.toValue), ("ts", .str ts), ("agent", .str agent)]
  | .user text observation ts agent =>
    [("type", .str "user"), ("text", .str text), ("observation", observation.toValue),
      ("ts", .str ts), ("agent", .str agent)]
  | .toolStart toolId name cleanName args status payload ctx ts agent =>
    [("type", .str "tool_start"), ("tool_id", .str toolId), ("name", .str name),
      ("clean_name", .str cleanName), ("args", args), ("status", .str status.asStr),
      ("payload", De.option id payload), ("ctx", De.option ExecutionContext.toValue ctx),
      ("ts", .str ts), ("agent", .str agent)]
  | .toolEnd toolId name cleanName args status payload ctx observation ts agent =>
    [("type", .str "tool_end"), ("tool_id", .str toolId), ("name", .str name),
      ("clean_name", .str cleanName), ("args", args), ("status", .str status.asStr),
      ("payload", De.option id payload), ("ctx", De.option ExecutionContext.toValue ctx),
      ("observation", observation.toValue), ("ts", .str ts), ("agent", .str agent)]
  | .llmStart callId model phaseName ctx ts agent =>
    [("type", .str "llm_start"), ("call_id", .num (.posInt callId)),
      ("model", De.option .str model), ("phase", .str phaseName),
      ("ctx", De.option ExecutionContext.toValue ctx), ("ts", .str ts), ("agent", .str agent)]
  | .llmEnd callId model phaseName status error ctx ts agent =>
    [("type", .str "llm_end"), ("call_id", .num (.posInt callId)),
      ("model", De.option .str model), ("phase", .str phaseName), ("status", .str status.asStr),
      ("error", De.option .str error), ("ctx", De.option ExecutionContext.toValue ctx),
      ("ts", .str ts), ("agent", .str agent)]
  | .llmCall callId model phaseName promptHash parts partHashes responseHash responseText observation
      ts agent =>
    [("type", .str "llm_call"), ("call_id", .num (.posInt callId)), ("model", .str model),
      ("phase", .str phaseName), ("prompt_hash", .str promptHash), ("parts", .arr parts),
      ("part_hashes", .obj (partHashes.entries.map fun e => (e.1, .str e.2))),
      ("response_hash", .str responseHash), ("response_text", De.option .str responseText),
      ("observation", observation.toValue), ("ts", .str ts), ("agent", .str agent)]
  | .phase phaseName fromPhase reasonCode reasonDetail observation ts agent =>
    [("type", .str "phase"), ("phase", .str phaseName), ("from_phase", De.option .str fromPhase),
      ("reason_code", De.option .str reasonCode), ("reason_detail", De.option id reasonDetail),
      ("observation", observation.toValue), ("ts", .str ts), ("agent", .str agent)]
  | .guardBlock phaseName kind reason observation ts agent =>
    [("type", .str "guard_block"), ("phase", .str phaseName), ("kind", .str kind),
      ("reason", .str reason), ("observation", observation.toValue), ("ts", .str ts),
      ("agent", .str agent)]
  | .runLoopStop kind reason observation ts agent =>
    [("type", .str "run_loop_stop"), ("kind", .str kind.asStr), ("reason", .str reason),
      ("observation", observation.toValue), ("ts", .str ts), ("agent", .str agent)]
  | .artifactFocus kind name entityId exist observation ts agent =>
    [("type", .str "artifact_focus"), ("kind", .str kind), ("name", .str name),
      ("entity_id", De.option .str entityId), ("exists", .bool exist),
      ("observation", observation.toValue), ("ts", .str ts), ("agent", .str agent)]
  | .artifactSaved kind name entityId key status linesAdded linesRemoved observation ts agent =>
    [("type", .str "artifact_saved"), ("kind", .str kind), ("name", .str name),
      ("entity_id", De.option .str entityId), ("key", .str key), ("status", .str status.asStr),
      ("lines_added", .num (.posInt linesAdded)), ("lines_removed", .num (.posInt linesRemoved)),
      ("observation", observation.toValue), ("ts", .str ts), ("agent", .str agent)]
  | .interrupt kind prompt observation ts agent =>
    [("type", .str "interrupt"), ("kind", .str kind), ("prompt", .str prompt),
      ("observation", observation.toValue), ("ts", .str ts), ("agent", .str agent)]
  | .reviewResponse text extraMeta observation ts agent =>
    [("type", .str "review_response"), ("text", .str text), ("meta", De.option id extraMeta),
      ("observation", observation.toValue), ("ts", .str ts), ("agent", .str agent)]
  | .complete kind payload display observation ts agent =>
    [("type", .str "complete"), ("kind", .str kind), ("payload", payload),
      ("display", De.option .str display), ("observation", observation.toValue), ("ts", .str ts),
      ("agent", .str agent)]
  | .checkpoint kind payload display observation ts agent =>
    [("type", .str "checkpoint"), ("kind", .str kind), ("payload", payload),
      ("display", De.option .str display), ("observation", observation.toValue), ("ts", .str ts),
      ("agent", .str agent)]

def toValue (s : ThreadStep) : Json := .object s.toFields

/-! The readers of the variants. -/

@[simp] def readTs (fs : Fields) : Except String String := De.field "ts" De.str fs
@[simp] def readAgent (fs : Fields) : Except String String := De.field "agent" De.str fs

@[simp] def readObservation (fs : Fields) : Except String Observation :=
  De.field "observation" Observation.fromValue fs

@[simp] def readCtx (fs : Fields) : Except String (Option ExecutionContext) :=
  De.optField "ctx" ExecutionContext.fromValue fs

def readSwitchSuite (fs : Fields) : Except String ThreadStep := do
  De.denyUnknown ["type", "from", "to", "observation", "ts", "agent"] fs
  .ok (.switchSuite (← De.optField "from" De.str fs) (← De.field "to" De.str fs)
    (← readObservation fs) (← readTs fs) (← readAgent fs))

def readSwitchAgent (fs : Fields) : Except String ThreadStep := do
  De.denyUnknown ["type", "from", "to", "observation", "ts", "agent"] fs
  .ok (.switchAgent (← De.optField "from" De.str fs) (← De.field "to" De.str fs)
    (← readObservation fs) (← readTs fs) (← readAgent fs))

def readUser (fs : Fields) : Except String ThreadStep := do
  De.denyUnknown ["type", "text", "observation", "ts", "agent"] fs
  .ok (.user (← De.field "text" De.str fs) (← readObservation fs) (← readTs fs) (← readAgent fs))

def readToolStart (fs : Fields) : Except String ThreadStep := do
  De.denyUnknown ["type", "tool_id", "name", "clean_name", "args", "status", "payload", "ctx",
    "ts", "agent"] fs
  .ok (.toolStart (← De.field "tool_id" De.str fs) (← De.field "name" De.str fs)
    (← De.defaultField "clean_name" "" De.str fs) (← De.field "args" .ok fs)
    (← De.field "status" ToolStepStatus.fromValue fs) (← De.optField "payload" .ok fs)
    (← readCtx fs) (← readTs fs) (← readAgent fs))

def readToolEnd (fs : Fields) : Except String ThreadStep := do
  De.denyUnknown ["type", "tool_id", "name", "clean_name", "args", "status", "payload", "ctx",
    "observation", "ts", "agent"] fs
  .ok (.toolEnd (← De.field "tool_id" De.str fs) (← De.field "name" De.str fs)
    (← De.defaultField "clean_name" "" De.str fs) (← De.defaultField "args" .null .ok fs)
    (← De.field "status" ToolStepStatus.fromValue fs) (← De.optField "payload" .ok fs)
    (← readCtx fs) (← De.field "observation" ToolObservation.fromValue fs) (← readTs fs)
    (← readAgent fs))

def readLlmStart (fs : Fields) : Except String ThreadStep := do
  De.denyUnknown ["type", "call_id", "model", "phase", "ctx", "ts", "agent"] fs
  .ok (.llmStart (← De.field "call_id" De.u64 fs) (← De.optField "model" De.str fs)
    (← De.field "phase" De.str fs) (← readCtx fs) (← readTs fs) (← readAgent fs))

def readLlmEnd (fs : Fields) : Except String ThreadStep := do
  De.denyUnknown ["type", "call_id", "model", "phase", "status", "error", "ctx", "ts", "agent"]
    fs
  .ok (.llmEnd (← De.field "call_id" De.u64 fs) (← De.optField "model" De.str fs)
    (← De.field "phase" De.str fs) (← De.field "status" LlmStepStatus.fromValue fs)
    (← De.optField "error" De.str fs) (← readCtx fs) (← readTs fs) (← readAgent fs))

def readLlmCall (fs : Fields) : Except String ThreadStep := do
  De.denyUnknown ["type", "call_id", "model", "phase", "prompt_hash", "parts", "part_hashes",
    "response_hash", "response_text", "observation", "ts", "agent"] fs
  .ok (.llmCall (← De.field "call_id" De.u64 fs) (← De.field "model" De.str fs)
    (← De.field "phase" De.str fs) (← De.field "prompt_hash" De.str fs)
    (← De.field "parts" (De.list .ok) fs) (← De.field "part_hashes" (De.map De.str) fs)
    (← De.field "response_hash" De.str fs) (← De.optField "response_text" De.str fs)
    (← readObservation fs) (← readTs fs) (← readAgent fs))

def readPhase (fs : Fields) : Except String ThreadStep := do
  De.denyUnknown ["type", "phase", "from_phase", "reason_code", "reason_detail", "observation",
    "ts", "agent"] fs
  .ok (.phase (← De.field "phase" De.str fs) (← De.optField "from_phase" De.str fs)
    (← De.optField "reason_code" De.str fs) (← De.optField "reason_detail" .ok fs)
    (← readObservation fs) (← readTs fs) (← readAgent fs))

def readGuardBlock (fs : Fields) : Except String ThreadStep := do
  De.denyUnknown ["type", "phase", "kind", "reason", "observation", "ts", "agent"] fs
  .ok (.guardBlock (← De.field "phase" De.str fs) (← De.field "kind" De.str fs)
    (← De.field "reason" De.str fs) (← readObservation fs) (← readTs fs) (← readAgent fs))

def readRunLoopStop (fs : Fields) : Except String ThreadStep := do
  De.denyUnknown ["type", "kind", "reason", "observation", "ts", "agent"] fs
  .ok (.runLoopStop (← De.field "kind" RunLoopStopKind.fromValue fs)
    (← De.field "reason" De.str fs) (← readObservation fs) (← readTs fs) (← readAgent fs))

def readArtifactFocus (fs : Fields) : Except String ThreadStep := do
  De.denyUnknown ["type", "kind", "name", "entity_id", "exists", "observation", "ts", "agent"] fs
  .ok (.artifactFocus (← De.field "kind" De.str fs) (← De.field "name" De.str fs)
    (← De.optField "entity_id" De.str fs) (← De.field "exists" De.bool fs) (← readObservation fs)
    (← readTs fs) (← readAgent fs))

def readArtifactSaved (fs : Fields) : Except String ThreadStep := do
  De.denyUnknown ["type", "kind", "name", "entity_id", "key", "status", "lines_added",
    "lines_removed", "observation", "ts", "agent"] fs
  .ok (.artifactSaved (← De.field "kind" De.str fs) (← De.field "name" De.str fs)
    (← De.optField "entity_id" De.str fs) (← De.field "key" De.str fs)
    (← De.field "status" (fun j => (De.str j).map ArtifactSaveStatus.ofStr) fs)
    (← De.field "lines_added" De.u64 fs) (← De.field "lines_removed" De.u64 fs)
    (← readObservation fs) (← readTs fs) (← readAgent fs))

def readInterrupt (fs : Fields) : Except String ThreadStep := do
  De.denyUnknown ["type", "kind", "prompt", "observation", "ts", "agent"] fs
  .ok (.interrupt (← De.field "kind" De.str fs) (← De.field "prompt" De.str fs)
    (← readObservation fs) (← readTs fs) (← readAgent fs))

def readReviewResponse (fs : Fields) : Except String ThreadStep := do
  De.denyUnknown ["type", "text", "meta", "observation", "ts", "agent"] fs
  .ok (.reviewResponse (← De.field "text" De.str fs) (← De.optField "meta" .ok fs)
    (← readObservation fs) (← readTs fs) (← readAgent fs))

def readComplete (fs : Fields) : Except String ThreadStep := do
  De.denyUnknown ["type", "kind", "payload", "display", "observation", "ts", "agent"] fs
  .ok (.complete (← De.field "kind" De.str fs) (← De.field "payload" .ok fs)
    (← De.optField "display" De.str fs) (← readObservation fs) (← readTs fs) (← readAgent fs))

def readCheckpoint (fs : Fields) : Except String ThreadStep := do
  De.denyUnknown ["type", "kind", "payload", "display", "observation", "ts", "agent"] fs
  .ok (.checkpoint (← De.field "kind" De.str fs) (← De.field "payload" .ok fs)
    (← De.optField "display" De.str fs) (← readObservation fs) (← readTs fs) (← readAgent fs))

/-- Read the fields of the variant that the tag names. -/
def fromFields (tag : String) (fs : Fields) : Except String ThreadStep :=
  match tag with
  | "switch_suite" => readSwitchSuite fs
  | "switch_agent" => readSwitchAgent fs
  | "user" => readUser fs
  | "tool_start" => readToolStart fs
  | "tool_end" => readToolEnd fs
  | "llm_start" => readLlmStart fs
  | "llm_end" => readLlmEnd fs
  | "llm_call" => readLlmCall fs
  | "phase" => readPhase fs
  | "guard_block" => readGuardBlock fs
  | "run_loop_stop" => readRunLoopStop fs
  | "artifact_focus" => readArtifactFocus fs
  | "artifact_saved" => readArtifactSaved fs
  | "interrupt" => readInterrupt fs
  | "review_response" => readReviewResponse fs
  | "complete" => readComplete fs
  | "checkpoint" => readCheckpoint fs
  | other => .error ("unknown variant " ++ other)

def fromValue (j : Json) : Except String ThreadStep := do
  let fs ← De.fields j
  let tag ← De.field "type" De.str fs
  fromFields tag fs

end ThreadStep

namespace ThreadResult

def toValue (r : ThreadResult) : Json :=
  .object [("kind", .str r.kind), ("payload", r.payload), ("display", De.option .str r.display)]

def fromValue (j : Json) : Except String ThreadResult := do
  let fs ← De.fields j
  De.denyUnknown ["kind", "payload", "display"] fs
  .ok ⟨← De.field "kind" De.str fs, ← De.field "payload" .ok fs, ← De.optField "display" De.str fs⟩

end ThreadResult

namespace ThreadLog

def toValue (log : ThreadLog) : Json :=
  .object [("schema_version", .num (.posInt log.schemaVersion.toUInt64)),
    ("steps", .arr (log.steps.map ThreadStep.toValue)),
    ("result", De.option ThreadResult.toValue log.result), ("title", De.option .str log.title),
    ("title_locked", .bool log.titleLocked)]

def fromValue (j : Json) : Except String ThreadLog := do
  let fs ← De.fields j
  De.denyUnknown ["schema_version", "steps", "result", "title", "title_locked"] fs
  .ok ⟨← De.field "schema_version" De.u32 fs, ← De.field "steps" (De.list ThreadStep.fromValue) fs,
    ← De.optField "result" ThreadResult.fromValue fs, ← De.optField "title" De.str fs,
    ← De.field "title_locked" De.bool fs⟩

end ThreadLog

namespace ControlStateEnvelope

def toValue (e : ControlStateEnvelope) : Json :=
  .object [("schema_version", .num (.posInt e.schemaVersion.toUInt64)), ("suite_id", .str e.suiteId),
    ("payload", e.payload)]

def fromValue (j : Json) : Except String ControlStateEnvelope := do
  let fs ← De.fields j
  De.denyUnknown ["schema_version", "suite_id", "payload"] fs
  .ok ⟨← De.field "schema_version" De.u32 fs, ← De.field "suite_id" De.str fs,
    ← De.field "payload" .ok fs⟩

end ControlStateEnvelope
end ReactRuntime.Session
