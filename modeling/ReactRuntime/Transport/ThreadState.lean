import ReactRuntime.Agent.Gateway
import ReactRuntime.View.CurrentPhase

/-!
# The phases of a thread, as clients see them

The transport layer derives the current phase and the runs of every phase from the steps of the
log. A run of a phase starts with the step that enters it and ends with the step that leaves it.
-/
namespace ReactRuntime.Transport
open Library ReactRuntime.Core Session View

def DEFAULT_INITIAL_PHASE : String := "preflight"

def deriveCurrentPhaseFromSteps (steps : List ThreadStep) : String :=
  (scanPhase steps.reverse).getD DEFAULT_INITIAL_PHASE

def phaseAtStepIdx (steps : List ThreadStep) (idx : Nat) : Option String :=
  if steps.isEmpty then none
  else
    let last := min idx (steps.length - 1)
    some (deriveCurrentPhaseFromSteps (steps.take (last + 1)))

theorem deriveCurrentPhaseFromSteps_eq (steps : List ThreadStep) :
    deriveCurrentPhaseFromSteps steps = (phaseInForce steps).getD DEFAULT_INITIAL_PHASE := by
  rw [deriveCurrentPhaseFromSteps, scanPhase_reverse]

theorem phaseAtStepIdx_eq {steps : List ThreadStep} {idx : Nat} (h : idx < steps.length) :
    phaseAtStepIdx steps idx =
      some ((phaseInForce (steps.take (idx + 1))).getD DEFAULT_INITIAL_PHASE) := by
  have hne : steps.isEmpty = false := by
    cases steps with
    | nil => simp at h
    | cons step steps => rfl
  have hlast : min idx (steps.length - 1) = idx := by omega
  simp only [phaseAtStepIdx, hne, Bool.false_eq_true, if_false, hlast,
    deriveCurrentPhaseFromSteps_eq]

theorem observedPhase_eq (steps : List ThreadStep) :
    Agent.observedPhase steps = (phaseInForce steps).getD "suite_llm" := by
  rw [Agent.observedPhase, ← scanPhase_reverse]
  congr 1
  induction steps.reverse with
  | nil => rfl
  | cons step rest ih =>
    rw [List.findSome?_cons, ih, scanPhase_cons]
    cases step with
    | phase phase =>
      simp only [ThreadStep.phaseName, trimmed]
      split_ifs <;> rfl
    | _ => rfl

/-- Every reader of the log finds the same phase: the log itself, the view, the clients, for every
step of the log, and the agent. -/
theorem currentPhase_readers_agree (millisBetween : String → String → Option Int)
    (threadId : String) (log : ThreadLog) :
    log.currentPhase = phaseInForce log.steps ∧
      (ThreadLogViewCache.materializeStateFromLog millisBetween threadId log).currentPhase =
        phaseInForce log.steps ∧
      deriveCurrentPhaseFromSteps log.steps =
        (phaseInForce log.steps).getD DEFAULT_INITIAL_PHASE ∧
      Agent.observedPhase log.steps = (phaseInForce log.steps).getD "suite_llm" ∧
      ∀ i < log.steps.length, phaseAtStepIdx log.steps i =
        some ((phaseInForce (log.steps.take (i + 1))).getD DEFAULT_INITIAL_PHASE) :=
  ⟨scanPhase_reverse log.steps,
    ThreadLogViewCache.currentPhase_materializeStateFromLog millisBetween threadId log,
    deriveCurrentPhaseFromSteps_eq log.steps, observedPhase_eq log.steps,
    fun _ hi => phaseAtStepIdx_eq hi⟩

end ReactRuntime.Transport
