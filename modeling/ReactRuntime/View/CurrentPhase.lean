import ReactRuntime.View.Materialization

/-!
# The phase in force

The phase that a thread is in is the last one that a step names. The log finds it from the end, and
the view carries it along from the start.
-/
namespace ReactRuntime.Session
open ReactRuntime.Core View

/-- The phase that a step names. -/
def ThreadStep.phaseName : ThreadStep → Option String
  | .phase name .. => trimmed name
  | _ => none

/-- The last phase that a step names. -/
def phaseInForce (steps : List ThreadStep) : Option String :=
  (steps.filterMap ThreadStep.phaseName).getLast?

/-- The loop of the scans that look from the end. -/
def scanPhase : List ThreadStep → Option String
  | [] => none
  | .phase phase _ _ _ _ _ _ :: rest =>
    if (trim phase).isEmpty then scanPhase rest else some (trim phase)
  | _ :: rest => scanPhase rest

def ThreadLog.currentPhase (log : ThreadLog) : Option String := scanPhase log.steps.reverse

theorem scanPhase_cons (step : ThreadStep) (rest : List ThreadStep) :
    scanPhase (step :: rest) = step.phaseName.or (scanPhase rest) := by
  cases step with
  | phase phase =>
    simp only [scanPhase, ThreadStep.phaseName, trimmed]
    split_ifs <;> rfl
  | _ => simp [scanPhase, ThreadStep.phaseName]

theorem scanPhase_eq_head? (steps : List ThreadStep) :
    scanPhase steps = (steps.filterMap ThreadStep.phaseName).head? := by
  induction steps with
  | nil => rfl
  | cons step rest ih =>
    rw [scanPhase_cons, ih]
    cases hname : step.phaseName <;> simp [hname]

/-- The scans from the end find the phase in force. -/
theorem scanPhase_reverse (steps : List ThreadStep) :
    scanPhase steps.reverse = phaseInForce steps := by
  rw [scanPhase_eq_head?, List.filterMap_reverse, List.head?_reverse, phaseInForce]

theorem phaseInForce_concat (steps : List ThreadStep) (step : ThreadStep) :
    phaseInForce (steps ++ [step]) = step.phaseName.or (phaseInForce steps) := by
  rw [phaseInForce, List.filterMap_append]
  cases hname : step.phaseName <;> simp [phaseInForce, hname]

end ReactRuntime.Session

namespace ReactRuntime.View
open ReactRuntime.Core Session
namespace ThreadLogViewCache
variable (millisBetween : String → String → Option Int)

@[simp] theorem currentPhase_updateItem (st : ThreadLogViewCache) (key : String)
    (fresh : ThreadItemState) (update : ThreadItemState → ThreadItemState) :
    (st.updateItem key fresh update).currentPhase = st.currentPhase := rfl

@[simp] theorem currentPhase_blockCurrentPhase (st : ThreadLogViewCache) (msg ts : String) :
    (st.blockCurrentPhase msg ts).currentPhase = st.currentPhase := by
  unfold blockCurrentPhase
  split <;> rfl

@[simp] theorem currentPhase_leavePhase (st : ThreadLogViewCache) (fromPhase : Option String)
    (ts : String) : (st.leavePhase millisBetween fromPhase ts).currentPhase = st.currentPhase := by
  unfold leavePhase
  split <;> rfl

/-- Only a phase step with a name moves the view to another phase. -/
theorem currentPhase_applyStepToState (st : ThreadLogViewCache) (stepIdx : Nat)
    (step : ThreadStep) : (st.applyStepToState millisBetween stepIdx step).currentPhase =
      step.phaseName.or st.currentPhase := by
  cases step with
  | phase phase fromPhase =>
    simp only [applyStepToState, ThreadStep.phaseName]
    cases trimmed phase <;> rfl
  | switchSuite source target =>
    simp only [applyStepToState]
    split_ifs <;> rfl
  | switchAgent source target =>
    simp only [applyStepToState]
    split_ifs <;> rfl
  | complete =>
    simp only [applyStepToState]
    split <;> rfl
  | checkpoint =>
    simp only [applyStepToState]
    split <;> rfl
  | interrupt | guardBlock | runLoopStop =>
    simp [applyStepToState, ThreadStep.phaseName]
  | _ => rfl

/-- The view of a log, folded over its steps alone. -/
def viewOf (threadId : String) (steps : List ThreadStep) : ThreadLogViewCache :=
  steps.foldl (fun st step => st.applyStepToState millisBetween 0 step) (start threadId)

theorem foldl_zipIdx (st : ThreadLogViewCache) (steps : List ThreadStep) (i : Nat) :
    (steps.zipIdx i).foldl (fun st step => st.applyStepToState millisBetween step.2 step.1) st =
      steps.foldl (fun st step => st.applyStepToState millisBetween 0 step) st := by
  induction steps generalizing st i with
  | nil => rfl
  | cons step steps ih =>
    rw [List.zipIdx_cons, List.foldl_cons, List.foldl_cons, ih]
    rfl

theorem viewOf_concat (threadId : String) (steps : List ThreadStep) (step : ThreadStep) :
    viewOf millisBetween threadId (steps ++ [step]) =
      (viewOf millisBetween threadId steps).applyStepToState millisBetween 0 step := by
  rw [viewOf, List.foldl_concat]
  rfl

/-- The view is in the phase in force. -/
theorem currentPhase_viewOf (threadId : String) (steps : List ThreadStep) :
    (viewOf millisBetween threadId steps).currentPhase = phaseInForce steps := by
  induction steps using List.reverseRecOn with
  | nil => rfl
  | append_singleton steps step ih =>
    rw [viewOf_concat, currentPhase_applyStepToState, ih, phaseInForce_concat]

theorem items_materializeStateFromLog (threadId : String) (log : ThreadLog) :
    (materializeStateFromLog millisBetween threadId log).items =
      (viewOf millisBetween threadId log.steps).items := by
  rw [viewOf, ← foldl_zipIdx millisBetween _ _ 0]
  rfl

theorem currentPhase_materializeStateFromLog (threadId : String) (log : ThreadLog) :
    (materializeStateFromLog millisBetween threadId log).currentPhase = phaseInForce log.steps := by
  rw [← currentPhase_viewOf millisBetween threadId, viewOf, ← foldl_zipIdx millisBetween _ _ 0]
  rfl

end ThreadLogViewCache
end ReactRuntime.View
