import ReactRuntime.Transport.ThreadState
import ReactRuntime.View.Timeline

/-!
# The phase of a tool event

The live stream reports a tool step under the phase in force at the step. The timeline carries the
label of the last model step to it, since a phase step has no event of its own.
-/
namespace ReactRuntime.Transport
open ReactRuntime.Core Session View

/-- The start or the end of a tool call. -/
def isToolStep (step : ThreadStep) : Bool := step.startedTool.isSome || step.endedTool.isSome

def isToolEvent (event : ThreadEvent) : Bool :=
  event.eventKind = .toolStart || event.eventKind = .toolEnd

/-- The phase in force at a step, as the live stream reports it. -/
def livePhase (steps : List ThreadStep) (idx : Nat) : String :=
  (phaseInForce (steps.take (idx + 1))).getD DEFAULT_INITIAL_PHASE

/-- Every tool step that is shown comes behind a model step that is labelled with the phase in
force, or before all of them where that phase is the unknown one. -/
def PhasesCarried (log : ThreadLog) (maxEvents : Nat) : Prop :=
  ∀ step ∈ newestSteps log maxEvents, isToolStep step.1 = true →
    carriedPhase log.steps step.2 = livePhase log.steps step.2

/-- The event of a tool step has the phase that is carried to it. -/
theorem phase_of_shownAs {log : ThreadLog} {step : ThreadStep × Nat} {event : ThreadEvent}
    (h : ShownAs log step event) : isToolEvent event = isToolStep step.1 ∧
      (isToolStep step.1 = true → event.phase = some (carriedPhase log.steps step.2)) := by
  obtain ⟨step, idx⟩ := step
  unfold ShownAs at h
  cases step <;> simp [stepToTimelineEvent] at h <;>
    simp [← h, isToolEvent, isToolStep, ThreadStep.startedTool, ThreadStep.endedTool]

/-- The tool events of the timeline have the phases that the live stream reports exactly if the
labels of the model steps carry these phases to them. -/
theorem event_phases_agree_iff (log : ThreadLog) (maxEvents : Nat) :
    (∀ event ∈ buildThreadEventsFromLog log maxEvents, isToolEvent event = true →
        event.phase = phaseAtStepIdx log.steps event.stepIdx) ↔ PhasesCarried log maxEvents := by
  have hrelated := forall₂_buildThreadEventsFromLog log maxEvents
  have hlive {step : ThreadStep × Nat} (hmem : step ∈ newestSteps log maxEvents) :
      phaseAtStepIdx log.steps step.2 = some (livePhase log.steps step.2) := by
    have hat := (mem_timelineSteps.mp (older_or_newest.mpr (.inr hmem))).1
    exact phaseAtStepIdx_eq (List.getElem?_eq_some_iff.mp hat).1
  constructor
  · intro h step hstep htool
    obtain ⟨event, hevent, hshown⟩ := exists_event_of_mem hrelated hstep
    obtain ⟨hkind, hphase⟩ := phase_of_shownAs hshown
    have hagree := h event hevent (hkind.trans htool)
    rw [hphase htool, hshown.stepIdx, hlive hstep] at hagree
    exact Option.some.inj hagree
  · intro h event hevent htool
    obtain ⟨step, hstep, hshown⟩ := exists_step_of_mem hrelated hevent
    obtain ⟨hkind, hphase⟩ := phase_of_shownAs hshown
    have hstepTool := hkind.symm.trans htool
    rw [hphase hstepTool, hshown.stepIdx, hlive hstep, h step hstep hstepTool]

/-- A tool call in the planning phase. -/
def plannedCallLog : ThreadLog :=
  { callLog with steps := .phase "plan" none none none Observation.okay "t0" "a" :: callLog.steps }

/-- Without a model step the call is shown under an unknown phase. -/
theorem event_phase_unknown : ¬ ∀ event ∈ buildThreadEventsFromLog plannedCallLog 500,
    isToolEvent event = true →
      event.phase = phaseAtStepIdx plannedCallLog.steps event.stepIdx := by
  decide +kernel

end ReactRuntime.Transport
