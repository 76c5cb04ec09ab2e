import ReactRuntime.Session.Edit

/-!
# Reports

A suite reports its completions and interrupts through `append_step_if_new`, which
looks for an equal report in the log before it appends. The look is a `get` of its
own, outside the write lock of the append, and a failed look finds nothing.
-/
namespace ReactRuntime.Session
open Library Serde ReactRuntime.Core

/-- What makes two reports equal: a completion reports its kind and payload, an interrupt its kind
and prompt. Payloads are compared as documents of serde_json. -/
inductive ReportKey where
  | complete (kind : String) (payload : Json)
  | interrupt (kind prompt : String)
deriving DecidableEq

def ThreadStep.reportKey : ThreadStep → Option ReportKey
  | .complete kind payload _ _ _ _ => some (.complete kind payload.compared)
  | .interrupt kind prompt _ _ _ => some (.interrupt kind prompt)
  | _ => none

/-- Some step of the log is the report. -/
def ThreadLog.hasReport (log : ThreadLog) (report : ReportKey) : Bool :=
  log.steps.reverse.any fun s => s.reportKey = some report

namespace ThreadStore
variable {C : Type} {A : C → Type} {B E : Type} [DecidableEq E] (self : ThreadStore C A B E)
  (showEtag : Option E → String)

/-- The look for an equal report. Every other step is new. -/
def isDup (threadId : String) (step : ThreadStep) : Program C A Bool :=
  match step.reportKey with
  | some report => do
    let log ← self.get threadId
    return (log.toOption.map fun log => log.hasReport report).getD false
  | none => return false

def appendStepIfNew (threadId : String) (step : ThreadStep) :
    Program C A (Except CoreError Unit) := do
  if ← self.isDup threadId step then return .ok ()
  else self.appendStep showEtag threadId step

end ThreadStore

inductive FlowFrame where
  | complete (kind : String) (payload : Json) (display : Option String)
  | review (text : String) (extraMeta : Option Json)
  | checkpoint (kind : String) (payload : Json) (display : Option String)
  | interrupt (kind prompt : String)
deriving DecidableEq

def flowFrameToStep (agentType ts : String) : FlowFrame → ThreadStep
  | .complete kind payload display => .complete kind payload display .okay ts agentType
  | .review text extraMeta => .reviewResponse text extraMeta .okay ts agentType
  | .checkpoint kind payload display => .checkpoint kind payload display .okay ts agentType
  | .interrupt kind prompt => .interrupt kind prompt .okay ts agentType

/-- Record the frames in order, each with what the clock shows when its step is built; the first
error ends it. -/
def ThreadStore.recordFlowFrames {C : Type} {A : C → Type} {B E : Type} [DecidableEq E]
    (self : ThreadStore C A B E) (showEtag : Option E → String) (threadId agentType : String) :
    List (FlowFrame × String) → Program C A (Except CoreError Unit)
  | [] => return .ok ()
  | (frame, ts) :: frames =>
    let step := flowFrameToStep agentType ts frame
    let append := match step with
      | .complete .. | .interrupt .. => self.appendStepIfNew showEtag threadId step
      | _ => self.appendStep showEtag threadId step
    append.andThen fun _ => recordFlowFrames self showEtag threadId agentType frames

/-- The log after a report: a report that is already there changes nothing. -/
def ThreadLog.report (log : ThreadLog) (step : ThreadStep) : ThreadLog :=
  match step.reportKey with
  | some report => if log.hasReport report then log else log.push step
  | none => log.push step

theorem ThreadLog.hasReport_iff {log : ThreadLog} {report : ReportKey} :
    log.hasReport report = true ↔ ∃ s ∈ log.steps, s.reportKey = some report := by
  simp [ThreadLog.hasReport]

theorem ThreadStep.reportKey_of_result {step : ThreadStep} {r : ThreadResult}
    (h : step.result = some r) :
    step.reportKey = some (.complete r.kind r.payload.compared) := by
  cases step with
  | complete kind payload display observation ts agent =>
    cases h
    rfl
  | _ => cases h

/-- The key of a report, read off its document. -/
def documentKey (lookup : String → Option Json) : Option ReportKey :=
  match lookup "type", lookup "kind" with
  | some (.str "complete"), some (.str kind) =>
    (lookup "payload").map fun payload => .complete kind payload.compared
  | some (.str "interrupt"), some (.str kind) => match lookup "prompt" with
    | some (.str prompt) => some (.interrupt kind prompt)
    | _ => none
  | _, _ => none

theorem ThreadStep.reportKey_eq_documentKey (s : ThreadStep) :
    s.reportKey = documentKey fun k => s.toFields.reverse.lookup k := by
  cases s <;> rfl

theorem ThreadStep.reportKey_of_toValue {s s' : ThreadStep} (h : s.toValue = s'.toValue) :
    s.reportKey = s'.reportKey := by
  have hlookup : (fun k => s.toFields.reverse.lookup k) = fun k => s'.toFields.reverse.lookup k :=
    funext (lookup_of_object_eq h)
  rw [reportKey_eq_documentKey, reportKey_eq_documentKey, hlookup]

namespace ThreadLog
variable {log log' : ThreadLog}

/-- Two logs with one document hold the same reports. -/
theorem Alike.hasReport (h : Alike log log') (report : ReportKey) :
    log.hasReport report = log'.hasReport report := by
  have hmap : log.steps.map ThreadStep.reportKey = log'.steps.map ThreadStep.reportKey :=
    map_eq_of_map_eq (fun _ _ => ThreadStep.reportKey_of_toValue) h.steps
  have hany : ∀ steps : List ThreadStep, (steps.reverse.any fun s => s.reportKey = some report) =
      (steps.map ThreadStep.reportKey).reverse.any fun k => k = some report := by
    intro steps
    rw [← List.map_reverse, List.any_map]
    rfl
  rw [ThreadLog.hasReport, ThreadLog.hasReport, hany, hany, hmap]

end ThreadLog
end ReactRuntime.Session
