import Mathlib.Data.List.Forall2
import ReactRuntime.View.Projection

/-!
# What the timeline shows

The events of the timeline stand for the model steps and the paired tool steps of the log, in order.
They are numbered by their steps, and only the newest of them are kept.
-/
namespace ReactRuntime.Session

/-- The phase that a model step is labelled with. -/
def ThreadStep.llmPhase : ThreadStep → Option String
  | .llmStart _ _ label .. | .llmEnd _ _ label .. => some label
  | _ => none

/-- The tool call that a step starts. -/
def ThreadStep.startedTool : ThreadStep → Option String
  | .toolStart toolId .. => some toolId
  | _ => none

/-- The tool call that a step ends. -/
def ThreadStep.endedTool : ThreadStep → Option String
  | .toolEnd toolId .. => some toolId
  | _ => none

/-- The label of the last model step. -/
def lastLlmPhase (steps : List ThreadStep) : Option String :=
  (steps.filterMap ThreadStep.llmPhase).getLast?

theorem lastLlmPhase_concat (steps : List ThreadStep) (step : ThreadStep) :
    lastLlmPhase (steps ++ [step]) = step.llmPhase.or (lastLlmPhase steps) := by
  rw [lastLlmPhase, List.filterMap_append]
  cases hlabel : step.llmPhase <;> simp [lastLlmPhase, hlabel]

end ReactRuntime.Session

namespace ReactRuntime.View
open Library Serde ReactRuntime.Core Session

/-- A model step, or a tool step whose other half is in the log. -/
def isTimelineStep (log : ThreadLog) (step : ThreadStep) : Bool :=
  match step with
  | .toolStart .. | .toolEnd .. => !unpaired log step
  | .llmStart .. | .llmEnd .. => true
  | _ => false

/-- The steps that the timeline stands for, with their indices. -/
def timelineSteps (log : ThreadLog) : List (ThreadStep × Nat) :=
  log.steps.zipIdx.filter fun step => isTimelineStep log step.1

/-- The phase that is carried to a step: the label of the last model step before it. -/
def carriedPhase (steps : List ThreadStep) (idx : Nat) : String :=
  (lastLlmPhase (steps.take idx)).getD "unknown"

/-- The event of a step. -/
def ShownAs (log : ThreadLog) (step : ThreadStep × Nat) (event : ThreadEvent) : Prop :=
  stepToTimelineEvent step.2 step.1 (some (carriedPhase log.steps step.2)) = some event

theorem ShownAs.stepIdx {log : ThreadLog} {step : ThreadStep × Nat} {event : ThreadEvent}
    (h : ShownAs log step event) : event.stepIdx = step.2 := by
  obtain ⟨step, idx⟩ := step
  unfold ShownAs at h
  cases step <;> simp [stepToTimelineEvent] at h <;> rw [← h]

/-- The events so far carry the label of the last model step. -/
def Carries (events : List ThreadEvent) (steps : List ThreadStep) : Prop :=
  (events.reverse.findSome? ThreadEvent.phase).or (some "unknown") =
    some ((lastLlmPhase steps).getD "unknown")

/-- One step of the log. -/
theorem appendTimelineEvent_spec (log : ThreadLog) {front : List ThreadStep}
    {events : List ThreadEvent} (step : ThreadStep) (hcarries : Carries events front)
    (hfront : log.steps.take front.length = front) :
    ∃ new, appendTimelineEvent log events (step, front.length) = events ++ new ∧
      List.Forall₂ (ShownAs log)
        ([(step, front.length)].filter fun step => isTimelineStep log step.1) new ∧
      Carries (events ++ new) (front ++ [step]) := by
  have hlabel : carriedPhase log.steps front.length = (lastLlmPhase front).getD "unknown" := by
    rw [carriedPhase, hfront]
  unfold Carries at hcarries ⊢
  rw [lastLlmPhase_concat]
  cases hshown : isTimelineStep log step with
  | false =>
    refine ⟨[], ?_, by simp [hshown], ?_⟩
    · unfold appendTimelineEvent
      cases step <;> simp_all [isTimelineStep, stepToTimelineEvent]
    · cases step <;> simp_all [isTimelineStep, ThreadStep.llmPhase]
  | true =>
    cases step with
    | toolStart | toolEnd =>
      simp_all [isTimelineStep, appendTimelineEvent, ShownAs, stepToTimelineEvent, currentPhaseOf,
        ThreadStep.llmPhase, -exists_and_left, List.forall₂_cons_left_iff]
    | llmStart | llmEnd =>
      simp_all [isTimelineStep, appendTimelineEvent, ShownAs, stepToTimelineEvent,
        ThreadStep.llmPhase, unpaired]
    | _ => simp [isTimelineStep] at hshown

/-- The events of a log before any are dropped. -/
def timelineEvents (log : ThreadLog) : List ThreadEvent :=
  log.steps.zipIdx.foldl (appendTimelineEvent log) []

theorem forall₂_timeline_front (log : ThreadLog) {front : List ThreadStep}
    (hfront : front <+: log.steps) :
    List.Forall₂ (ShownAs log) (front.zipIdx.filter fun step => isTimelineStep log step.1)
        (front.zipIdx.foldl (appendTimelineEvent log) []) ∧
      Carries (front.zipIdx.foldl (appendTimelineEvent log) []) front := by
  induction front using List.reverseRecOn with
  | nil => exact ⟨.nil, rfl⟩
  | append_singleton front step ih =>
    have hbefore : front <+: log.steps := (List.prefix_append front [step]).trans hfront
    obtain ⟨hevents, hcarries⟩ := ih hbefore
    obtain ⟨new, heq, hnew, hcarries'⟩ :=
      appendTimelineEvent_spec log step hcarries (List.prefix_iff_eq_take.mp hbefore).symm
    rw [List.zipIdx_append, List.foldl_append, List.filter_append, Nat.zero_add]
    change List.Forall₂ _ _ (appendTimelineEvent log _ (step, front.length)) ∧
      Carries (appendTimelineEvent log _ (step, front.length)) _
    rw [heq]
    exact ⟨List.rel_append hevents hnew, hcarries'⟩

/-- Every event stands for a step of the timeline, in order. -/
theorem forall₂_timeline (log : ThreadLog) :
    List.Forall₂ (ShownAs log) (timelineSteps log) (timelineEvents log) :=
  (forall₂_timeline_front log (List.prefix_refl log.steps)).1

theorem buildThreadEventsFromLog_eq (log : ThreadLog) (maxEvents : Nat) :
    buildThreadEventsFromLog log maxEvents =
      (timelineEvents log).drop ((timelineEvents log).length - maxEvents) := by
  rw [buildThreadEventsFromLog, ← timelineEvents]
  split_ifs with hlong
  · rfl
  · rw [Nat.sub_eq_zero_of_le (by omega), List.drop_zero]

/-- How many steps of the timeline are not shown. -/
def droppedSteps (log : ThreadLog) (maxEvents : Nat) : Nat := (timelineSteps log).length - maxEvents

/-- The newest steps of the timeline. -/
def newestSteps (log : ThreadLog) (maxEvents : Nat) : List (ThreadStep × Nat) :=
  (timelineSteps log).drop (droppedSteps log maxEvents)

/-- The steps of the timeline that are too old to be shown. -/
def olderSteps (log : ThreadLog) (maxEvents : Nat) : List (ThreadStep × Nat) :=
  (timelineSteps log).take (droppedSteps log maxEvents)

/-- The events that are shown stand for the newest steps. -/
theorem forall₂_buildThreadEventsFromLog (log : ThreadLog) (maxEvents : Nat) :
    List.Forall₂ (ShownAs log) (newestSteps log maxEvents)
      (buildThreadEventsFromLog log maxEvents) := by
  rw [buildThreadEventsFromLog_eq, ← (forall₂_timeline log).length_eq]
  exact List.forall₂_drop _ (forall₂_timeline log)

theorem exists_of_forall₂ {α β : Type} {R : α → β → Prop} {xs : List α} {ys : List β} {x : α}
    (h : List.Forall₂ R xs ys) (hx : x ∈ xs) : ∃ y ∈ ys, R x y := by
  induction h with
  | nil => cases hx
  | cons hxy _ ih =>
    rcases List.mem_cons.mp hx with rfl | hx
    · exact ⟨_, List.mem_cons_self, hxy⟩
    · obtain ⟨y, hy, hR⟩ := ih hx
      exact ⟨y, List.mem_cons_of_mem _ hy, hR⟩

section Related
variable {log : ThreadLog} {steps : List (ThreadStep × Nat)} {events : List ThreadEvent}
  (h : List.Forall₂ (ShownAs log) steps events)
include h

theorem exists_event_of_mem {step : ThreadStep × Nat} (hmem : step ∈ steps) :
    ∃ event ∈ events, ShownAs log step event := exists_of_forall₂ h hmem

theorem exists_step_of_mem {event : ThreadEvent} (hmem : event ∈ events) :
    ∃ step ∈ steps, ShownAs log step event := by
  have hflip : List.Forall₂ (flip (ShownAs log)) events steps := List.Forall₂.flip h
  exact exists_of_forall₂ hflip hmem

theorem map_stepIdx_eq : events.map ThreadEvent.stepIdx = steps.map Prod.snd := by
  induction h with
  | nil => rfl
  | cons hshown _ ih => rw [List.map_cons, List.map_cons, ih, hshown.stepIdx]

end Related

theorem mem_timelineSteps {log : ThreadLog} {step : ThreadStep × Nat} :
    step ∈ timelineSteps log ↔
      log.steps[step.2]? = some step.1 ∧ isTimelineStep log step.1 = true := by
  rw [timelineSteps, List.mem_filter, List.mem_zipIdx_iff_getElem?]

theorem pairwise_timelineSteps (log : ThreadLog) :
    (timelineSteps log).Pairwise fun a b => a.2 < b.2 := by
  have hidx : (log.steps.zipIdx.map Prod.snd).Pairwise (· < ·) := by
    rw [List.zipIdx_map_snd]
    exact List.pairwise_lt_range' 1
  exact (List.pairwise_map.mp hidx).filter _

/-- An older step comes before every newest one. -/
theorem lt_of_older_newest {log : ThreadLog} {maxEvents : Nat} {older newest : ThreadStep × Nat}
    (holder : older ∈ olderSteps log maxEvents) (hnewest : newest ∈ newestSteps log maxEvents) :
    older.2 < newest.2 := by
  have hpairs := pairwise_timelineSteps log
  rw [← List.take_append_drop (droppedSteps log maxEvents) (timelineSteps log),
    List.pairwise_append] at hpairs
  exact hpairs.2.2 older holder newest hnewest

theorem older_or_newest {log : ThreadLog} {maxEvents : Nat} {step : ThreadStep × Nat} :
    step ∈ timelineSteps log ↔
      step ∈ olderSteps log maxEvents ∨ step ∈ newestSteps log maxEvents := by
  rw [olderSteps, newestSteps, ← List.mem_append, List.take_append_drop]

namespace ThreadEvent

def startsTool (event : ThreadEvent) (toolId : String) : Prop :=
  event.eventKind = .toolStart ∧ event.toolId = some toolId

def endsTool (event : ThreadEvent) (toolId : String) : Prop :=
  event.eventKind = .toolEnd ∧ event.toolId = some toolId

end ThreadEvent

theorem ShownAs.startsTool_iff {log : ThreadLog} {step : ThreadStep × Nat} {event : ThreadEvent}
    (h : ShownAs log step event) (toolId : String) :
    event.startsTool toolId ↔ step.1.startedTool = some toolId := by
  obtain ⟨step, idx⟩ := step
  unfold ShownAs at h
  cases step <;> simp [stepToTimelineEvent] at h <;>
    simp [← h, ThreadEvent.startsTool, ThreadStep.startedTool]

theorem ShownAs.endsTool_iff {log : ThreadLog} {step : ThreadStep × Nat} {event : ThreadEvent}
    (h : ShownAs log step event) (toolId : String) :
    event.endsTool toolId ↔ step.1.endedTool = some toolId := by
  obtain ⟨step, idx⟩ := step
  unfold ShownAs at h
  cases step <;> simp [stepToTimelineEvent] at h <;>
    simp [← h, ThreadEvent.endsTool, ThreadStep.endedTool]

/-- An event with a tool id starts the call or ends it. -/
theorem ShownAs.starts_or_ends {log : ThreadLog} {step : ThreadStep × Nat} {event : ThreadEvent}
    (h : ShownAs log step event) {toolId : String} (hid : event.toolId = some toolId) :
    step.1.startedTool = some toolId ∨ step.1.endedTool = some toolId := by
  obtain ⟨step, idx⟩ := step
  unfold ShownAs at h
  cases step <;> simp [stepToTimelineEvent] at h <;> simp [← h] at hid <;>
    simp [ThreadStep.startedTool, ThreadStep.endedTool, hid]

/-- Both halves of a call that the timeline stands for are in the timeline. -/
theorem exists_halves {log : ThreadLog} {step : ThreadStep × Nat} (hmem : step ∈ timelineSteps log)
    {toolId : String}
    (hid : step.1.startedTool = some toolId ∨ step.1.endedTool = some toolId) :
    (∃ start ∈ timelineSteps log, start.1.startedTool = some toolId) ∧
      ∃ stop ∈ timelineSteps log, stop.1.endedTool = some toolId := by
  obtain ⟨step, idx⟩ := step
  have hpaired : pairedToolId log toolId = true := by
    have hshown := (mem_timelineSteps.mp hmem).2
    cases step <;> simp [ThreadStep.startedTool, ThreadStep.endedTool] at hid <;>
      simpa [isTimelineStep, unpaired, hid] using hshown
  obtain ⟨hstart, hstop⟩ := Bool.and_eq_true_iff.mp hpaired
  constructor
  · obtain ⟨start, hmem, hstart⟩ := List.any_eq_true.mp hstart
    obtain ⟨i, hi⟩ := List.mem_iff_getElem?.mp hmem
    cases start <;> simp at hstart
    subst hstart
    exact ⟨(_, i), mem_timelineSteps.mpr ⟨hi, by simpa [isTimelineStep, unpaired]⟩, rfl⟩
  · obtain ⟨stop, hmem, hstop⟩ := List.any_eq_true.mp hstop
    obtain ⟨i, hi⟩ := List.mem_iff_getElem?.mp hmem
    cases stop <;> simp at hstop
    subst hstop
    exact ⟨(_, i), mem_timelineSteps.mpr ⟨hi, by simpa [isTimelineStep, unpaired]⟩, rfl⟩

/-- Each call is started at most once and ended at most once, and started first. -/
structure ToolsOnce (log : ThreadLog) : Prop where
  starts : ∀ (i j : Nat) (toolId : String),
    (log.steps[i]?).bind ThreadStep.startedTool = some toolId →
    (log.steps[j]?).bind ThreadStep.startedTool = some toolId → i = j
  ends : ∀ (i j : Nat) (toolId : String),
    (log.steps[i]?).bind ThreadStep.endedTool = some toolId →
    (log.steps[j]?).bind ThreadStep.endedTool = some toolId → i = j
  ordered : ∀ (i j : Nat) (toolId : String),
    (log.steps[i]?).bind ThreadStep.startedTool = some toolId →
    (log.steps[j]?).bind ThreadStep.endedTool = some toolId → i < j

section
variable {log : ThreadLog} {a b : ThreadStep × Nat} {toolId : String}

theorem ToolsOnce.start_eq (h : ToolsOnce log) (ha : a ∈ timelineSteps log)
    (hb : b ∈ timelineSteps log) (hstart : a.1.startedTool = some toolId)
    (hstart' : b.1.startedTool = some toolId) : a.2 = b.2 := by
  apply h.starts _ _ toolId
  · rwa [(mem_timelineSteps.mp ha).1]
  · rwa [(mem_timelineSteps.mp hb).1]

theorem ToolsOnce.end_eq (h : ToolsOnce log) (ha : a ∈ timelineSteps log)
    (hb : b ∈ timelineSteps log) (hend : a.1.endedTool = some toolId)
    (hend' : b.1.endedTool = some toolId) : a.2 = b.2 := by
  apply h.ends _ _ toolId
  · rwa [(mem_timelineSteps.mp ha).1]
  · rwa [(mem_timelineSteps.mp hb).1]

theorem ToolsOnce.start_lt_end (h : ToolsOnce log) (ha : a ∈ timelineSteps log)
    (hb : b ∈ timelineSteps log) (hstart : a.1.startedTool = some toolId)
    (hend : b.1.endedTool = some toolId) : a.2 < b.2 := by
  apply h.ordered _ _ toolId
  · rwa [(mem_timelineSteps.mp ha).1]
  · rwa [(mem_timelineSteps.mp hb).1]

end

/-- The newest events of a log, at most so many and in order, and each tool call with both of its
halves or not at all. -/
structure PairedTimeline (log : ThreadLog) (maxEvents : Nat) (events : List ThreadEvent) :
    Prop where
  bounded : events.length ≤ maxEvents
  increasing : (events.map ThreadEvent.stepIdx).Pairwise (· < ·)
  newest : events <:+ buildThreadEventsFromLog log log.steps.length
  full : events.length = min maxEvents (buildThreadEventsFromLog log log.steps.length).length
  paired : ∀ event ∈ events, ∀ toolId, event.toolId = some toolId →
    (∃ start ∈ events, start.startsTool toolId) ∧ ∃ stop ∈ events, stop.endsTool toolId

/-- A call is started by a step that is too old to be shown, and ended by one that is shown. -/
def SplitsCall (log : ThreadLog) (maxEvents : Nat) : Prop :=
  ∃ start ∈ olderSteps log maxEvents, ∃ stop ∈ newestSteps log maxEvents, ∃ toolId,
    start.1.startedTool = some toolId ∧ stop.1.endedTool = some toolId

/-- No log has more events than steps. -/
theorem buildThreadEventsFromLog_all (log : ThreadLog) :
    buildThreadEventsFromLog log log.steps.length = timelineEvents log := by
  have hle : (timelineEvents log).length ≤ log.steps.length := by
    rw [← (forall₂_timeline log).length_eq, timelineSteps]
    exact (List.length_filter_le ..).trans_eq List.length_zipIdx
  rw [buildThreadEventsFromLog_eq, Nat.sub_eq_zero_of_le hle, List.drop_zero]

/-- What is true of the events of every log. -/
theorem timeline_newest (log : ThreadLog) (maxEvents : Nat)
    (hpaired : ∀ event ∈ buildThreadEventsFromLog log maxEvents, ∀ toolId,
      event.toolId = some toolId →
      (∃ start ∈ buildThreadEventsFromLog log maxEvents, start.startsTool toolId) ∧
        ∃ stop ∈ buildThreadEventsFromLog log maxEvents, stop.endsTool toolId) :
    PairedTimeline log maxEvents (buildThreadEventsFromLog log maxEvents) where
  bounded := by
    rw [buildThreadEventsFromLog_eq, List.length_drop]
    omega
  increasing := by
    rw [map_stepIdx_eq (forall₂_buildThreadEventsFromLog log maxEvents), List.pairwise_map]
    exact (pairwise_timelineSteps log).drop
  newest := by
    rw [buildThreadEventsFromLog_all, buildThreadEventsFromLog_eq]
    exact List.drop_suffix ..
  full := by
    rw [buildThreadEventsFromLog_all, buildThreadEventsFromLog_eq, List.length_drop]
    omega
  paired := hpaired

/-- The timeline shows each tool call whole or not at all exactly if no call is cut in two where the
older events are dropped. -/
theorem timeline_paired_iff (log : ThreadLog) (maxEvents : Nat) (honce : ToolsOnce log) :
    PairedTimeline log maxEvents (buildThreadEventsFromLog log maxEvents) ↔
      ¬ SplitsCall log maxEvents := by
  have hrelated := forall₂_buildThreadEventsFromLog log maxEvents
  have hnew {step : ThreadStep × Nat} (h : step ∈ newestSteps log maxEvents) :
      step ∈ timelineSteps log := older_or_newest.mpr (.inr h)
  constructor
  · rintro h ⟨start, holder, stop, hnewest, toolId, hstart, hstop⟩
    obtain ⟨event, hevent, hshown⟩ := exists_event_of_mem hrelated hnewest
    have hends := (hshown.endsTool_iff toolId).mpr hstop
    obtain ⟨⟨other, hother, hstarts⟩, -⟩ := h.paired event hevent toolId hends.2
    obtain ⟨again, hagain, hshown'⟩ := exists_step_of_mem hrelated hother
    have hstart' := (hshown'.startsTool_iff toolId).mp hstarts
    -- The call has one start only, which cannot be older and among the newest steps.
    have heq := honce.start_eq (older_or_newest.mpr (.inl holder)) (hnew hagain) hstart hstart'
    have hlt := lt_of_older_newest holder hagain
    omega
  · intro hsplit
    refine timeline_newest log maxEvents fun event hevent toolId hid => ?_
    obtain ⟨step, hstep, hshown⟩ := exists_step_of_mem hrelated hevent
    obtain ⟨⟨start, hstart, hstarted⟩, stop, hstop, hended⟩ :=
      exists_halves (hnew hstep) (hshown.starts_or_ends hid)
    have hordered := honce.start_lt_end hstart hstop hstarted hended
    have hstopNewest : stop ∈ newestSteps log maxEvents := by
      rcases older_or_newest.mp hstop with holder | hnewest
      · -- An older end has an older start, and then neither half is shown.
        have hlt := lt_of_older_newest holder hstep
        rcases hshown.starts_or_ends hid with hstarted' | hended'
        · have heq := honce.start_eq hstart (hnew hstep) hstarted hstarted'
          omega
        · have heq := honce.end_eq hstop (hnew hstep) hended hended'
          omega
      · exact hnewest
    have hstartNewest : start ∈ newestSteps log maxEvents := by
      rcases older_or_newest.mp hstart with holder | hnewest
      · exact absurd ⟨start, holder, stop, hstopNewest, toolId, hstarted, hended⟩ hsplit
      · exact hnewest
    obtain ⟨first, hfirst, hfirstShown⟩ := exists_event_of_mem hrelated hstartNewest
    obtain ⟨last, hlast, hlastShown⟩ := exists_event_of_mem hrelated hstopNewest
    exact ⟨⟨first, hfirst, (hfirstShown.startsTool_iff toolId).mpr hstarted⟩,
      last, hlast, (hlastShown.endsTool_iff toolId).mpr hended⟩

/-! A log of one tool call. -/

def callLog : ThreadLog :=
  { ThreadLog.default with
    steps := [.toolStart "id" "sql" "Run SQL" .null .running none none "t1" "a",
      .toolEnd "id" "sql" "Run SQL" .null .ok none none (.okay .empty) "t2" "a"] }

theorem toolsOnce_callLog : ToolsOnce callLog := by
  refine ⟨fun i j toolId hi hj => ?_, fun i j toolId hi hj => ?_, fun i j toolId hi hj => ?_⟩ <;>
    rcases i with _ | _ | i <;> rcases j with _ | _ | j <;>
    simp_all [callLog, ThreadStep.startedTool, ThreadStep.endedTool]

theorem timeline_paired_whole :
    PairedTimeline callLog 2 (buildThreadEventsFromLog callLog 2) := by
  refine (timeline_paired_iff callLog 2 toolsOnce_callLog).mpr ?_
  rintro ⟨start, holder, -⟩
  have hnone : olderSteps callLog 2 = [] := by decide
  rw [hnone] at holder
  cases holder

/-- With room for one event the end of the call is shown without its start. -/
theorem timeline_splits_call : ToolsOnce callLog ∧
    ¬ PairedTimeline callLog 1 (buildThreadEventsFromLog callLog 1) := by
  refine ⟨toolsOnce_callLog, fun h => ?_⟩
  have hstarts : ∀ event ∈ buildThreadEventsFromLog callLog 1, event.toolId = some "id" ∧
      event.eventKind ≠ .toolStart := by
    decide
  obtain ⟨event, hevent⟩ : ∃ event, event ∈ buildThreadEventsFromLog callLog 1 :=
    List.exists_mem_of_length_pos (by decide)
  obtain ⟨⟨start, hstart, hkind, -⟩, -⟩ := h.paired event hevent "id" (hstarts event hevent).1
  exact (hstarts start hstart).2 hkind

end ReactRuntime.View
