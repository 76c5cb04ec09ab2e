import Mathlib.Order.OrderDual
import ReactRuntime.Core.Text
import ReactRuntime.Library.Sorting
import ReactRuntime.Session.Types

/-!
# The analysis of a log

A summary of a thread has its phases, its tools and the issues that are found in the log. Maps are
read in the order of their hashes, which is not fixed.
-/
namespace ReactRuntime.Session
open Library ReactRuntime.Core

structure PhaseSummary where
  name : String
  steps : Nat
  durationMs : Option Int
deriving DecidableEq, Repr

structure ToolCallSummary where
  name : String
  count : Nat
  successes : Nat
  failures : Nat
deriving DecidableEq, Repr

inductive IssueKind where
  | loop
  | stall
  | highErrorRate
  | excessiveLlmCalls
  | phaseRegression
deriving DecidableEq, Repr

structure Issue where
  kind : IssueKind
  description : String
  stepRange : Nat × Nat
deriving DecidableEq, Repr

structure ThreadSummary where
  totalSteps : Nat
  phases : List PhaseSummary
  llmCalls : Nat
  toolCalls : List ToolCallSummary
  totalDurationMs : Option Int
  issues : List Issue
  result : Option String
deriving DecidableEq, Repr

/-- What the map of `summarize` has for a tool. -/
structure ToolCounts where
  count : Nat
  ok : Nat
  failed : Nat
deriving DecidableEq, Repr

/-- The order in which a hash map is read. -/
structure HashOrder (α : Type) where
  read : List α → List α
  perm : ∀ entries, (read entries).Perm entries

def HashOrder.sorted (α : Type) : HashOrder α := ⟨id, fun _ => .refl _⟩

/-- What comes from outside: times are parsed to nanoseconds, milliseconds are printed as seconds
with one digit, and each map has its own order. -/
structure AnalysisEnv where
  parseTs : String → Option Int
  secondsText : Int → String
  toolOrder : HashOrder (String × ToolCounts)
  windowOrder : Nat → HashOrder (String × Nat)

namespace ThreadStep

def phaseEntered : ThreadStep → Option String
  | .phase name _ _ _ _ _ _ => some name
  | _ => none

def toolEnded : ThreadStep → Option (String × ToolStepStatus)
  | .toolEnd _ name _ _ status _ _ _ _ _ => some (name, status)
  | _ => none

end ThreadStep

/-- Whole milliseconds between two times, if both are known. -/
def elapsedMs : Option Int → Option Int → Option Int
  | some s, some e => some ((e - s).tdiv 1000000)
  | _, _ => none

structure OpenPhase where
  name : String
  startIdx : Nat
  startTs : Option Int
deriving DecidableEq, Repr

def OpenPhase.close (self : OpenPhase) (endIdx : Nat) (endTs : Option Int) : PhaseSummary :=
  ⟨self.name, endIdx - self.startIdx, elapsedMs self.startTs endTs⟩

def ToolCounts.bump (self : ToolCounts) : ToolStepStatus → ToolCounts
  | .ok => ⟨self.count + 1, self.ok + 1, self.failed⟩
  | .failed => ⟨self.count + 1, self.ok, self.failed + 1⟩
  | .running => ⟨self.count + 1, self.ok, self.failed⟩

structure Summarizer where
  phases : List PhaseSummary
  current : Option OpenPhase
  llmCalls : Nat
  toolMap : SortedMap String ToolCounts

namespace Summarizer

def start : Summarizer := ⟨[], none, 0, .empty⟩

def step (env : AnalysisEnv) (self : Summarizer) (idx : Nat) : ThreadStep → Summarizer
  | .phase name _ _ _ _ ts _ =>
    { self with
      phases := self.phases ++ (self.current.map fun p => p.close idx (env.parseTs ts)).toList
      current := some ⟨name, idx, env.parseTs ts⟩ }
  | .llmEnd _ _ _ status _ _ _ _ =>
    if status = .ok then { self with llmCalls := self.llmCalls + 1 } else self
  | .toolEnd _ name _ _ status _ _ _ _ _ =>
    let entry := (self.toolMap.get name).getD ⟨0, 0, 0⟩
    { self with toolMap := self.toolMap.insert name (entry.bump status) }
  | _ => self

def run (env : AnalysisEnv) (steps : List ThreadStep) : Summarizer :=
  steps.zipIdx.foldl (fun acc s => acc.step env s.2 s.1) start

end Summarizer

def LOOP_WINDOW : Nat := 10
def LOOP_THRESHOLD : Nat := 3

/-- How many windows are looked at. -/
def loopIterations (len : Nat) : Nat := min (max (len - LOOP_WINDOW) 1) len

def windowEnd (len start : Nat) : Nat := min (start + LOOP_WINDOW) len

/-- The tools that end in a window, with how often they do. -/
def windowCounts (steps : List ThreadStep) (start stop : Nat) : SortedMap String Nat :=
  ((steps.take stop).drop start).foldl (fun counts step =>
    match step.toolEnded with
    | some (name, _) => counts.insert name ((counts.get name).getD 0 + 1)
    | none => counts) .empty

def loopDescription (name : String) (count : Nat) : String :=
  "Tool '" ++ name ++ "' called " ++ toString count ++ " times in " ++ toString LOOP_WINDOW ++ " steps"

/-- An issue keeps the tool from being reported for the window. -/
def Issue.covers (name : String) (start : Nat) (issue : Issue) : Bool :=
  issue.kind = .loop ∧ containsText issue.description name ∧ issue.stepRange.2 ≥ start

def reportLoop (start stop : Nat) (issues : List Issue) (entry : String × Nat) : List Issue :=
  if entry.2 ≥ LOOP_THRESHOLD then
    if issues.any (Issue.covers entry.1 start) then issues
    else issues ++ [⟨.loop, loopDescription entry.1 entry.2, (start, stop)⟩]
  else issues

def detectLoops (env : AnalysisEnv) (steps : List ThreadStep) (issues : List Issue) : List Issue :=
  (List.range (loopIterations steps.length)).foldl (fun issues start =>
    let stop := windowEnd steps.length start
    ((env.windowOrder start).read (windowCounts steps start stop).entries).foldl
      (reportLoop start stop) issues) issues

def STALL_THRESHOLD_MS : Int := 60000

def detectStalls (env : AnalysisEnv) (steps : List ThreadStep) (issues : List Issue) : List Issue :=
  issues ++ (steps.zip steps.tail).zipIdx.filterMap fun ((prev, cur), i) =>
    match elapsedMs (env.parseTs prev.ts) (env.parseTs cur.ts) with
    | some gap =>
      if gap > STALL_THRESHOLD_MS then
        some ⟨.stall, "Gap of " ++ env.secondsText gap ++ "s between steps", (i, i + 1)⟩
      else none
    | none => none

structure PhaseErrors where
  currentPhase : String
  phaseStart : Nat
  okCount : Nat
  failCount : Nat
deriving DecidableEq, Repr

/-- More than half of the calls failed. -/
def PhaseErrors.flush (self : PhaseErrors) (stop : Nat) : Option Issue :=
  let total := self.okCount + self.failCount
  if total ≥ 4 ∧ 2 * self.failCount > total then
    some ⟨.highErrorRate, "Phase '" ++ self.currentPhase ++ "': " ++ toString self.failCount ++ "/" ++
      toString total ++ " tool calls failed", (self.phaseStart, stop)⟩
  else none

def PhaseErrors.step (acc : PhaseErrors × List Issue) (idx : Nat) : ThreadStep → PhaseErrors × List Issue
  | .phase name _ _ _ _ _ _ => (⟨name, idx, 0, 0⟩, acc.2 ++ (acc.1.flush idx).toList)
  | .toolEnd _ _ _ _ .ok _ _ _ _ _ => ({ acc.1 with okCount := acc.1.okCount + 1 }, acc.2)
  | .toolEnd _ _ _ _ .failed _ _ _ _ _ => ({ acc.1 with failCount := acc.1.failCount + 1 }, acc.2)
  | _ => acc

def detectHighErrorRate (steps : List ThreadStep) (issues : List Issue) : List Issue :=
  let acc := steps.zipIdx.foldl (fun acc s => PhaseErrors.step acc s.2 s.1) (⟨"", 0, 0, 0⟩, issues)
  acc.2 ++ (acc.1.flush steps.length).toList

def LLM_CALLS_THRESHOLD : Nat := 10

structure LlmRun where
  consecutiveLlm : Nat
  runStart : Nat
deriving DecidableEq, Repr

def LlmRun.next (self : LlmRun) (idx : Nat) : ThreadStep → LlmRun
  | .llmEnd _ _ _ _ _ _ _ _ =>
    ⟨self.consecutiveLlm + 1, if self.consecutiveLlm = 0 then idx else self.runStart⟩
  | .toolEnd _ _ _ _ .ok _ _ _ _ _ => { self with consecutiveLlm := 0 }
  | _ => self

def LlmRun.step (acc : LlmRun × List Issue) (idx : Nat) (step : ThreadStep) : LlmRun × List Issue :=
  let run := acc.1.next idx step
  if run.consecutiveLlm ≥ LLM_CALLS_THRESHOLD then
    ({ run with consecutiveLlm := 0 }, acc.2 ++ [⟨.excessiveLlmCalls,
      toString run.consecutiveLlm ++ " LLM calls without a successful tool call", (run.runStart, idx)⟩])
  else (run, acc.2)

def detectExcessiveLlmCalls (steps : List ThreadStep) (issues : List Issue) : List Issue :=
  (steps.zipIdx.foldl (fun acc s => LlmRun.step acc s.2 s.1) (⟨0, 0⟩, issues)).2

/-- The phases in the order in which they are entered; a phase that is entered again at once is one. -/
def phaseOrder (steps : List ThreadStep) : List String :=
  steps.foldl (fun order step =>
    match step.phaseEntered with
    | some phase => if order.getLast? ≠ some phase then order ++ [phase] else order
    | none => order) []

/-- The place of the second phase step with the name. -/
def secondPhaseStep (steps : List ThreadStep) (phase : String) : Nat :=
  ((steps.zipIdx.filter fun s => s.1.phaseEntered = some phase)[1]?.map Prod.snd).getD 0

/-- The phase at a place of the order was entered before. -/
def phaseRevisit (steps : List ThreadStep) (order : List String) (i : Nat) : Option Issue :=
  match order[i]? with
  | none => none
  | some cur =>
    match (order.take i).findIdx? (· == cur) with
    | none => none
    | some firstSeen =>
      if firstSeen < i - 1 then
        let stepIdx := secondPhaseStep steps cur
        some ⟨.phaseRegression, "Phase '" ++ cur ++ "' revisited (first at position " ++
          toString firstSeen ++ ", again at " ++ toString i ++ ")", (stepIdx, stepIdx)⟩
      else none

def detectPhaseRegression (steps : List ThreadStep) (issues : List Issue) : List Issue :=
  let order := phaseOrder steps
  issues ++ (List.range' 1 (order.length - 1)).filterMap (phaseRevisit steps order)

def detectIssues (env : AnalysisEnv) (log : ThreadLog) : List Issue :=
  let issues := detectLoops env log.steps []
  let issues := detectStalls env log.steps issues
  let issues := detectHighErrorRate log.steps issues
  let issues := detectExcessiveLlmCalls log.steps issues
  detectPhaseRegression log.steps issues

def summarize (env : AnalysisEnv) (log : ThreadLog) : ThreadSummary :=
  let acc := Summarizer.run env log.steps
  let lastTs := log.steps.getLast?.bind fun s => env.parseTs s.ts
  { totalSteps := log.steps.length
    phases := acc.phases ++ (acc.current.map fun p => p.close log.steps.length lastTs).toList
    llmCalls := acc.llmCalls
    toolCalls := sortBy (fun t => OrderDual.toDual t.count)
      ((env.toolOrder.read acc.toolMap.entries).map fun e => ⟨e.1, e.2.count, e.2.ok, e.2.failed⟩)
    totalDurationMs := elapsedMs (log.steps.head?.bind fun s => env.parseTs s.ts) lastTs
    issues := detectIssues env log
    result := log.result.map ThreadResult.kind }

end ReactRuntime.Session
