import Mathlib.Algebra.Order.Ring.Int
import Mathlib.Data.Finset.Insert
import Mathlib.Data.String.Basic
import ReactRuntime.Core.Redaction
import ReactRuntime.Transport.Headless
import ReactRuntime.Transport.PhaseTiming
import ReactRuntime.Transport.PlanChanges

/-!
# The state behind the terminal

The terminal thread receives the events of all threads of the server and keeps one view for each
thread. An event changes the view of its own thread and selects it; the progress of a subprocess goes
to the thread that is selected.
-/
namespace ReactRuntime.Transport.TerminalUi
open ReactRuntime.Core Library Serde

/-- `text::truncate_chars_fit`. -/
def truncateCharsFit (s : String) (maxChars : Nat) : String :=
  if maxChars = 0 then ""
  else if s.toList.length ≤ maxChars then s
  else truncateChars s (maxChars - 1) ++ "…"

def splitWhitespace (s : List Char) : List (List Char) :=
  (s.splitOnP isWhitespace).filter (· ≠ [])

def condenseOneLine (s : String) (maxLen : Nat) : String :=
  let spaced := (trim s).toList.flatMap fun c =>
    if c = '\n' then " ; ".toList else if c = '\r' then [' '] else [c]
  truncateCharsFit (joinChar ' ' ((splitWhitespace spaced).map .ofList)) maxLen

/-- The loop over the lines; `out` are the lines that are kept so far. -/
def keepLines (maxLines : Nat) : List (List Char) → (out : List String) → List String
  | [], out => out
  | line :: rest, out =>
    let t := String.ofList (line.rdropWhile isWhitespace)
    if trim t = "" then
      if out.getLast? = some "" then keepLines maxLines rest out else keepLines maxLines rest (out ++ [""])
    else if (out ++ [t]).length ≥ maxLines then out ++ [t]
    else keepLines maxLines rest (out ++ [t])

def cleanMultiline (s : String) (maxLines maxChars : Nat) : String :=
  let kept := keepLines maxLines (lines (s.toList.filter (· ≠ '\r'))) []
  truncateCharsFit (joinChar '\n' ((kept.dropWhile (· = "")).rdropWhile (· = ""))) maxChars

def firstNonemptyLine (s : String) : Option String :=
  ((lines s.toList).map fun line => trim (.ofList line)).find? (· ≠ "")

def capitalize (part : String) : String :=
  match part.toList with
  | [] => ""
  | first :: rest => .ofList (first.toUpper :: rest)

def llmLabelForPhase (phase : String) : String :=
  let p := trim phase
  if p = "" then "LLM" else "LLM · " ++ joinChar ' ' ((splitChar '_' p).map capitalize)

def planKindKey (kind : String) : String := toAsciiLowercase (trim kind)

def DBT_VALIDATE_TOOL_NAME : String := "dbt_validate"

inductive DbtValidateKind where
  | compile
  | build
  | full
deriving DecidableEq, Repr

def dbtValidateKindFromLabel (label : String) : Option DbtValidateKind :=
  let s := toAsciiLowercase (trim label)
  if ¬ containsText s "validate dbt" then none
  else if containsText s "compile" then some .compile
  else if containsText s "build" then some .build
  else some .full

def isDbtValidateLabel (label : String) : Bool :=
  containsText (toAsciiLowercase (trim label)) "validate dbt"

inductive SpanStatus where
  | running
  | ok
  | failed
deriving DecidableEq, Repr

structure ExecutionContext where
  planKind : Option String
  planKey : Option String
  workgroupId : Option String
  taskId : Option String
  checklistItemId : Option String
deriving DecidableEq, Repr

structure WorkItemKey where
  planKind : Option String
  planKey : Option String
  workgroupId : Option String
  taskId : Option String
  checklistItemId : Option String
deriving DecidableEq, Repr

def keyFromCtx : Option ExecutionContext → WorkItemKey
  | none => ⟨none, none, none, none, none⟩
  | some c => ⟨c.planKind, c.planKey, c.workgroupId, c.taskId, c.checklistItemId⟩

/-- The times are what the clock shows. -/
structure SpanState where
  label : String
  detail : Option String
  description : Option String
  status : SpanStatus
  startedAt : Nat
  endedAt : Option Nat
  phase : Option String
  ctx : Option ExecutionContext
deriving DecidableEq, Repr

structure ThreadStateItemError where
  summary : String
  toolStepIdx : Option Int
  stepTs : Option String
deriving DecidableEq, Repr

structure ThreadStateItem where
  itemId : String
  kind : String
  status : String
  startedAt : Option String
  finishedAt : Option String
  runtimeMs : Option Int
  lastError : Option ThreadStateItemError
  outputs : Option (SortedMap String Json)
deriving DecidableEq

def ThreadStateItem.new (itemId kind status : String) : ThreadStateItem :=
  ⟨itemId, kind, status, none, none, none, none, none⟩

structure ThreadView where
  threadId : String
  suiteId : Option String
  agentType : Option String
  currentPhase : Option String
  phases : List String
  completedPhases : List String
  totalRuntimeMs : Option Int
  items : SortedMap String ThreadStateItem
  plansByKind : SortedMap String PlanSnapshot
  planAnchorPhaseByKind : SortedMap String String
  toolSpans : SortedMap String SpanState
  llmSpans : SortedMap Int SpanState
  focusByKind : SortedMap String WorkItemKey
  expandedWorkItems : Finset WorkItemKey
  phaseReasonCode : SortedMap String String
  phaseReasonDetail : SortedMap String Json
  lastUpdate : Nat

def ThreadView.new (threadId : String) (now : Nat) : ThreadView where
  threadId := threadId
  suiteId := none
  agentType := none
  currentPhase := none
  phases := []
  completedPhases := []
  totalRuntimeMs := none
  items := .empty
  plansByKind := .empty
  planAnchorPhaseByKind := .empty
  toolSpans := .empty
  llmSpans := .empty
  focusByKind := .empty
  expandedWorkItems := ∅
  phaseReasonCode := .empty
  phaseReasonDetail := .empty
  lastUpdate := now

structure Model where
  threads : SortedMap String ThreadView
  selected : Option String

def Model.default : Model := ⟨.empty, none⟩

structure ThreadStateSnapshot where
  threadId : String
  suiteId : Option String
  agentType : Option String
  currentPhase : Option String
  totalRuntimeMs : Int
  phases : List String
  completedPhases : List String
  items : List ThreadStateItem

structure PlansChangedResponse where
  threadId : String
  changed : List String
  changedPlanKeys : Option (List String)

/-- `reasonDetail` is the value that the detail serialises to. -/
structure PhaseResponse where
  threadId : String
  phase : String
  fromPhase : Option String
  reasonCode : Option String
  reasonDetail : Option Json
  ts : String
  runs : List PhaseRun
  totalRuntimeMs : Int
  fromPhaseTotalRuntimeMs : Option Int

structure ToolStartResponse where
  threadId : String
  toolId : String
  name : String
  cleanName : Option String
  phase : Option String
  ctx : Option ExecutionContext

structure ToolEndResponse where
  threadId : String
  toolId : String
  name : String
  cleanName : Option String
  phase : Option String
  status : SpanStatus
  payload : Option (SortedMap String Json)
  error : Option String
  ctx : Option ExecutionContext

structure LlmStartResponse where
  threadId : String
  callId : Int
  phase : String
  ctx : Option ExecutionContext

structure LlmEndResponse where
  threadId : String
  callId : Int
  phase : String
  failed : Bool
  ctx : Option ExecutionContext

inductive TerminalEvent where
  | info (text : String)
  | shutdown
  | threadState (snap : ThreadStateSnapshot)
  | plans (threadId : String) (plans : List PlanSnapshot)
  | subprocessProgress (label detail : String)
  | plansChanged (ev : PlansChangedResponse)
  | phase (ev : PhaseResponse)
  | toolStart (ev : ToolStartResponse)
  | toolEnd (ev : ToolEndResponse)
  | llmStart (ev : LlmStartResponse)
  | llmEnd (ev : LlmEndResponse)
  | rawJson (text : String)

/-- `push`, unless it is there. -/
def pushNew (xs : List String) (x : String) : List String := if x ∈ xs then xs else xs ++ [x]

namespace ThreadView

def clearSpansForPhase (phase : String) (tv : ThreadView) : ThreadView :=
  { tv with
    toolSpans := tv.toolSpans.retain fun _ s => s.phase ≠ some phase
    llmSpans := tv.llmSpans.retain fun _ s => s.phase ≠ some phase }

def spans (tv : ThreadView) : List SpanState :=
  tv.toolSpans.entries.map Prod.snd ++ tv.llmSpans.entries.map Prod.snd

def hasRunningSpanForKey (tv : ThreadView) (k : WorkItemKey) : Bool :=
  tv.spans.any fun s => s.status = .running ∧ keyFromCtx s.ctx = k

def shouldUpdateFocus (planKind : String) (nextKey : WorkItemKey) (tv : ThreadView) : Bool :=
  match tv.focusByKind.get planKind with
  | some prevKey => if prevKey ≠ nextKey then !tv.hasRunningSpanForKey prevKey else true
  | none => true

/-- The focus stays while the work item in focus still has a running span. -/
def updateFocusWithStickiness (planKind : String) (nextKey : WorkItemKey) (tv : ThreadView) : ThreadView :=
  if tv.shouldUpdateFocus planKind nextKey then
    { tv with focusByKind := tv.focusByKind.insert planKind nextKey }
  else tv

/-- The plan kind of a context that names a work item in full. -/
def concreteKind (ctx : ExecutionContext) : Option String :=
  match ctx.planKind, ctx.planKey, ctx.workgroupId, ctx.taskId, ctx.checklistItemId with
  | some pk, some _, some _, some _, some _ => some pk
  | _, _, _, _, _ => none

def focusOn (ctx : Option ExecutionContext) (tv : ThreadView) : ThreadView :=
  match ctx.bind concreteKind with
  | some pk =>
    let tv := tv.updateFocusWithStickiness (planKindKey pk) (keyFromCtx ctx)
    { tv with expandedWorkItems := insert (keyFromCtx ctx) tv.expandedWorkItems }
  | none => tv

/-- The phase is one that was there before: its spans are those of an earlier attempt. -/
def movesBack (phases : List String) (prev cur : Option String) : Option String :=
  match prev, cur with
  | some prev, some cur =>
    if prev ≠ cur then
      match phases.idxOf? prev, phases.idxOf? cur with
      | some pi, some ci => if ci ≤ pi then some cur else none
      | _, _ => none
    else none
  | _, _ => none

/-- The phases of a snapshot come first; those that it leaves out do not disappear. -/
def mergePhases (new old : List String) : List String :=
  if new = [] then old else (new ++ old).foldl pushNew []

def applyThreadState (snap : ThreadStateSnapshot) (tv : ThreadView) : ThreadView :=
  let prevPhase := tv.currentPhase
  let tv := { tv with
    suiteId := snap.suiteId, agentType := snap.agentType, currentPhase := snap.currentPhase
    phases := mergePhases snap.phases tv.phases }
  let tv := match movesBack tv.phases prevPhase snap.currentPhase with
    | some cur => tv.clearSpansForPhase cur
    | none => tv
  { tv with
    completedPhases := snap.completedPhases.foldl pushNew tv.completedPhases
    totalRuntimeMs := some snap.totalRuntimeMs
    items := snap.items.foldl (fun items it => items.insert it.itemId it) tv.items }

def applyPlan (tv : ThreadView) (p : PlanSnapshot) : ThreadView :=
  let kind := trim p.planKind
  if kind = "" then tv
  else { tv with
    plansByKind := tv.plansByKind.insert kind p
    planAnchorPhaseByKind := if (tv.planAnchorPhaseByKind.get kind).isSome then tv.planAnchorPhaseByKind
      else tv.planAnchorPhaseByKind.insert kind (kind ++ "_plan") }

def applyPlans (plans : List PlanSnapshot) (tv : ThreadView) : ThreadView := plans.foldl applyPlan tv

/-- A plan under another key than the new one is stale. -/
def dropStalePlan (plans : SortedMap String PlanSnapshot) (change : String × String) :
    SortedMap String PlanSnapshot :=
  match plans.get change.1 with
  | some p => if p.planKey ≠ change.2 then plans.erase change.1 else plans
  | none => plans

def applyPlansChanged (ev : PlansChangedResponse) (tv : ThreadView) : ThreadView :=
  match ev.changedPlanKeys with
  | some keys => { tv with plansByKind := (ev.changed.zip keys).foldl dropStalePlan tv.plansByKind }
  | none => tv

/-- The phase that is left is completed. -/
def leavePhase (ev : PhaseResponse) (tv : ThreadView) : ThreadView :=
  match ev.fromPhase with
  | some from_ =>
    if trim from_ = "" then tv
    else
      let key := "phase:" ++ trim from_
      { tv with
        completedPhases := pushNew tv.completedPhases (trim from_)
        items := tv.items.insert key { ThreadStateItem.new key "phase" "ok" with
          finishedAt := some ev.ts, runtimeMs := ev.fromPhaseTotalRuntimeMs } }
  | none => tv

def enterPhase (ev : PhaseResponse) (tv : ThreadView) : ThreadView :=
  let key := "phase:" ++ ev.phase
  { tv with
    currentPhase := some ev.phase
    phaseReasonCode := match ev.reasonCode with
      | some rc => tv.phaseReasonCode.insert ev.phase rc
      | none => tv.phaseReasonCode
    phaseReasonDetail := match ev.reasonDetail with
      | some v => tv.phaseReasonDetail.insert ev.phase v
      | none => tv.phaseReasonDetail
    items := tv.items.insert key { ThreadStateItem.new key "phase" "running" with
      startedAt := some ev.ts
      runtimeMs := if ev.runs.isEmpty then none else some ev.totalRuntimeMs }
    phases := pushNew tv.phases ev.phase }

def applyPhase (ev : PhaseResponse) (tv : ThreadView) : ThreadView := (tv.leavePhase ev).enterPhase ev

/-- A validation span that stays when one of the kind starts in the phase. -/
def keepsValidation (phase : String) (kind : DbtValidateKind) (s : SpanState) : Bool :=
  if s.phase ≠ some phase then true
  else if !isDbtValidateLabel s.label then true
  else if kind = .compile then false
  else dbtValidateKindFromLabel s.label ≠ some kind

/-- The spans that stay when a tool starts: a validation replaces the earlier ones of its phase. -/
def keptSpans (ev : ToolStartResponse) (tv : ThreadView) : SortedMap String SpanState :=
  if ev.name = DBT_VALIDATE_TOOL_NAME then
    match ev.phase <|> tv.currentPhase, dbtValidateKindFromLabel (ev.cleanName.getD ev.name) with
    | some ph, some kind => tv.toolSpans.retain fun _ s => keepsValidation ph kind s
    | _, _ => tv.toolSpans
  else tv.toolSpans

def showTool (toolId : String) (span : SpanState) (tv : ThreadView) : ThreadView :=
  focusOn span.ctx { tv with toolSpans := tv.toolSpans.insert toolId span }

def showLlm (callId : Int) (span : SpanState) (tv : ThreadView) : ThreadView :=
  focusOn span.ctx { tv with llmSpans := tv.llmSpans.insert callId span }

def applyToolStart (now : Nat) (ev : ToolStartResponse) (tv : ThreadView) : ThreadView :=
  { tv with toolSpans := tv.keptSpans ev }.showTool ev.toolId
    { label := ev.cleanName.getD ev.name, detail := none, description := none, status := .running
      startedAt := now, endedAt := none, phase := ev.phase <|> tv.currentPhase, ctx := ev.ctx }

/-- The one-line detail and the description of a span that ended. -/
def failureTexts (ev : ToolEndResponse) : Option String × Option String :=
  if ev.name = DBT_VALIDATE_TOOL_NAME ∧ ev.status = .failed then
    let fromPayload := (ev.payload.bind (·.get "error_summary")).bind Json.asStr
    let description := (fromPayload.map (cleanMultiline · 14 4000)).filter (trim · ≠ "")
    let detailSource := (fromPayload.bind firstNonemptyLine) <|> ev.error
    let detail := (detailSource.map (condenseOneLine · 180)).filter (trim · ≠ "")
    (detail, description)
  else (none, none)

def applyToolEnd (now : Nat) (ev : ToolEndResponse) (tv : ThreadView) : ThreadView :=
  tv.showTool ev.toolId
    { label := ev.cleanName.getD ev.name, detail := (failureTexts ev).1
      description := (failureTexts ev).2, status := ev.status
      startedAt := ((tv.toolSpans.get ev.toolId).map (·.startedAt)).getD now
      endedAt := some now, phase := ev.phase <|> tv.currentPhase, ctx := ev.ctx }

def applyLlmStart (now : Nat) (ev : LlmStartResponse) (tv : ThreadView) : ThreadView :=
  tv.showLlm ev.callId
    { label := llmLabelForPhase ev.phase, detail := none, description := none, status := .running
      startedAt := now, endedAt := none, phase := some ev.phase, ctx := ev.ctx }

def applyLlmEnd (now : Nat) (ev : LlmEndResponse) (tv : ThreadView) : ThreadView :=
  tv.showLlm ev.callId
    { label := llmLabelForPhase ev.phase, detail := none, description := none
      status := if ev.failed then .failed else .ok
      startedAt := ((tv.llmSpans.get ev.callId).map (·.startedAt)).getD now
      endedAt := some now, phase := some ev.phase, ctx := ev.ctx }

section
variable (lower : String → String)

/-- The progress is shown with the running validation spans of its kind. -/
def takesProgress (want : String) (s : SpanState) : Bool :=
  let base := lower s.label
  s.status = .running && containsText base "validate dbt" &&
    !(want = "build" && !containsText base "build") &&
    !(want = "compile" && !containsText base "compile")

def applyProgress (now : Nat) (label detail : String) (tv : ThreadView) : ThreadView :=
  let want := lower (trim label)
  let detail := trim detail
  if detail = "" then tv
  else { tv with
    toolSpans := tv.toolSpans.mapValues fun s =>
      if takesProgress lower want s then { s with detail := some detail } else s
    lastUpdate := now }

end
end ThreadView

/-- The thread of an event, and what the event does to its view. -/
def TerminalEvent.about (now : Nat) : TerminalEvent → Option (String × (ThreadView → ThreadView))
  | .threadState snap => some (snap.threadId, ThreadView.applyThreadState snap)
  | .plans threadId ps => some (threadId, ThreadView.applyPlans ps)
  | .plansChanged ev => some (ev.threadId, ThreadView.applyPlansChanged ev)
  | .phase ev => some (ev.threadId, ThreadView.applyPhase ev)
  | .toolStart ev => some (ev.threadId, ThreadView.applyToolStart now ev)
  | .toolEnd ev => some (ev.threadId, ThreadView.applyToolEnd now ev)
  | .llmStart ev => some (ev.threadId, ThreadView.applyLlmStart now ev)
  | .llmEnd ev => some (ev.threadId, ThreadView.applyLlmEnd now ev)
  | .info _ => none
  | .shutdown => none
  | .subprocessProgress _ _ => none
  | .rawJson _ => none

namespace Model

/-- The view of a thread is made when its first event comes; the thread is selected. -/
def touch (now : Nat) (threadId : String) (f : ThreadView → ThreadView) (m : Model) : Model :=
  let tv := f ((m.threads.get threadId).getD (.new threadId now))
  ⟨m.threads.insert threadId { tv with lastUpdate := now }, some threadId⟩

/-- `apply_event`, at the time `now`; `lower` is `str::to_lowercase`. -/
def applyEvent (lower : String → String) (now : Nat) (ev : TerminalEvent) (m : Model) : Model :=
  match ev with
  | .subprocessProgress label detail =>
    match m.selected with
    | none => m
    | some threadId => match m.threads.get threadId with
      | none => m
      | some tv => { m with threads := m.threads.insert threadId (tv.applyProgress lower now label detail) }
  | ev => match ev.about now with
    | some (threadId, f) => m.touch now threadId f
    | none => m

/-- The events of a run with the times at which they are applied. -/
def applyAll (lower : String → String) (m : Model) (events : List (Nat × TerminalEvent)) : Model :=
  events.foldl (fun m e => m.applyEvent lower e.1 e.2) m

end Model
end ReactRuntime.Transport.TerminalUi
