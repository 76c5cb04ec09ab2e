import ReactRuntime.Transport.TerminalRuns

/-!
# What a view remembers

Snapshots and single events report the phases, the items and the spans of a thread in any order. The
view shows all that was ever reported of phases and items, and every span as its last event left it.
-/
namespace ReactRuntime.Transport.TerminalUi
open ReactRuntime.Core Library Serde

namespace TerminalEvent

def threadId (ev : TerminalEvent) : Option String := (ev.about 0).map Prod.fst

/-- The phases that an event reports as completed. -/
def completes : TerminalEvent → List String
  | .threadState snap => snap.completedPhases
  | .phase ev => match ev.fromPhase with
    | some from_ => if trim from_ = "" then [] else [trim from_]
    | none => []
  | _ => []

/-- The phases that an event reports at all. -/
def enters : TerminalEvent → List String
  | .threadState snap => snap.phases
  | .phase ev => [ev.phase]
  | _ => []

def leftItem (ev : PhaseResponse) (from_ : String) : String × ThreadStateItem :=
  let key := "phase:" ++ from_
  (key, { ThreadStateItem.new key "phase" "ok" with
    finishedAt := some ev.ts, runtimeMs := ev.fromPhaseTotalRuntimeMs })

def enteredItem (ev : PhaseResponse) : String × ThreadStateItem :=
  let key := "phase:" ++ ev.phase
  (key, { ThreadStateItem.new key "phase" "running" with
    startedAt := some ev.ts, runtimeMs := if ev.runs.isEmpty then none else some ev.totalRuntimeMs })

def itemWrites : TerminalEvent → List (String × ThreadStateItem)
  | .threadState snap => snap.items.map fun it => (it.itemId, it)
  | .phase ev => (completes (.phase ev)).map (leftItem ev) ++ [enteredItem ev]
  | _ => []

def toolWrites : TerminalEvent → List (String × SpanStatus)
  | .toolStart ev => [(ev.toolId, .running)]
  | .toolEnd ev => [(ev.toolId, ev.status)]
  | _ => []

def llmWrites : TerminalEvent → List (Int × SpanStatus)
  | .llmStart ev => [(ev.callId, .running)]
  | .llmEnd ev => [(ev.callId, if ev.failed then .failed else .ok)]
  | _ => []

end TerminalEvent
open TerminalEvent

/-- What the events of one thread report, in their order. -/
def reported {α : Type} (f : TerminalEvent → List α) (threadId : String)
    (events : List (Nat × TerminalEvent)) : List α :=
  events.flatMap fun e => if e.2.threadId = some threadId then f e.2 else []

theorem mem_pushNew {xs : List String} {x y : String} : y ∈ pushNew xs x ↔ y ∈ xs ∨ y = x := by
  unfold pushNew
  split
  case isTrue hmem =>
    constructor
    · exact .inl
    · rintro (h | rfl)
      · exact h
      · exact hmem
  case isFalse => rw [List.mem_append, List.mem_singleton]

theorem nodup_pushNew {xs : List String} (h : xs.Nodup) (x : String) : (pushNew xs x).Nodup := by
  unfold pushNew
  split
  case isTrue => exact h
  case isFalse hnew =>
    rw [← List.concat_eq_append]
    exact h.concat hnew

theorem mem_foldl_pushNew {xs ys : List String} {y : String} :
    y ∈ ys.foldl pushNew xs ↔ y ∈ xs ∨ y ∈ ys := by
  induction ys generalizing xs with
  | nil => simp
  | cons x ys ih => rw [List.foldl_cons, ih, mem_pushNew, List.mem_cons, or_assoc]

theorem nodup_foldl_pushNew {xs : List String} (h : xs.Nodup) (ys : List String) :
    (ys.foldl pushNew xs).Nodup := by
  induction ys generalizing xs with
  | nil => exact h
  | cons x ys ih => exact ih (nodup_pushNew h x)

/-- The span was there with this status, or the event has just written it. -/
def SpanFrom {κ : Type} [LinearOrder κ] (writes : List (κ × SpanStatus)) (old new : SortedMap κ SpanState) :
    Prop :=
  ∀ id s, new.get id = some s → writes.lookup id = some s.status ∨
    writes.lookup id = none ∧ ∃ s₀, old.get id = some s₀ ∧ s₀.status = s.status

theorem SpanFrom.of_kept {κ : Type} [LinearOrder κ] {old new : SortedMap κ SpanState}
    (h : ∀ id s, new.get id = some s → ∃ s₀, old.get id = some s₀ ∧ s₀.status = s.status) :
    SpanFrom [] old new := fun id s hs => .inr ⟨rfl, h id s hs⟩

theorem SpanFrom.same {κ : Type} [LinearOrder κ] (old : SortedMap κ SpanState) : SpanFrom [] old old :=
  .of_kept fun _ s hs => ⟨s, hs, rfl⟩

theorem SpanFrom.insert {κ : Type} [LinearOrder κ] {old kept : SortedMap κ SpanState}
    (h : SpanFrom [] old kept) (id : κ) (span : SpanState) :
    SpanFrom [(id, span.status)] old (kept.insert id span) := by
  intro j s hs
  rw [SortedMap.get_insert] at hs
  rw [SortedMap.lookup_cons_ite]
  split_ifs at hs ⊢ with hj
  · cases hs
    exact .inl rfl
  · exact h j s hs

/-- What an event does to the parts of a view that are a record of the past. -/
structure Recorded (ev : TerminalEvent) (tv tv' : ThreadView) : Prop where
  completed : tv'.completedPhases = ev.completes.foldl pushNew tv.completedPhases
  phases : ∀ p, p ∈ tv'.phases ↔ p ∈ tv.phases ∨ p ∈ ev.enters
  nodup : tv.phases.Nodup → tv'.phases.Nodup
  items : tv'.items = ev.itemWrites.foldl (fun m e => m.insert e.1 e.2) tv.items
  toolSpans : SpanFrom ev.toolWrites tv.toolSpans tv'.toolSpans
  llmSpans : SpanFrom ev.llmWrites tv.llmSpans tv'.llmSpans

section
variable {lower : String → String} {now : Nat} {tv : ThreadView}

theorem updateFocus_eq (kind : String) (k : WorkItemKey) (tv : ThreadView) : ∃ focus,
    tv.updateFocusWithStickiness kind k = { tv with focusByKind := focus } := by
  unfold ThreadView.updateFocusWithStickiness
  split <;> exact ⟨_, rfl⟩

/-- The focus is all that a work item changes. -/
theorem focusOn_eq (ctx : Option ExecutionContext) (tv : ThreadView) : ∃ focus expanded,
    tv.focusOn ctx = { tv with focusByKind := focus, expandedWorkItems := expanded } := by
  unfold ThreadView.focusOn
  split
  case h_1 pk _ =>
    obtain ⟨focus, hfocus⟩ := updateFocus_eq (planKindKey pk) (keyFromCtx ctx) tv
    dsimp only
    rw [hfocus]
    exact ⟨_, _, rfl⟩
  case h_2 => exact ⟨_, _, rfl⟩

theorem applyPlans_eq (ps : List PlanSnapshot) (tv : ThreadView) : ∃ plans anchors,
    tv.applyPlans ps = { tv with plansByKind := plans, planAnchorPhaseByKind := anchors } := by
  induction ps generalizing tv with
  | nil => exact ⟨_, _, rfl⟩
  | cons p ps ih =>
    obtain ⟨plans, anchors, hps⟩ := ih (tv.applyPlan p)
    rw [ThreadView.applyPlans, List.foldl_cons, ← ThreadView.applyPlans, hps]
    unfold ThreadView.applyPlan
    dsimp only
    split <;> exact ⟨_, _, rfl⟩

theorem mem_mergePhases {new old : List String} {p : String} :
    p ∈ ThreadView.mergePhases new old ↔ p ∈ old ∨ p ∈ new := by
  unfold ThreadView.mergePhases
  split
  case isTrue hnil => simp [hnil]
  case isFalse => simp [mem_foldl_pushNew, or_comm]

theorem nodup_mergePhases (new : List String) {old : List String} (h : old.Nodup) :
    (ThreadView.mergePhases new old).Nodup := by
  unfold ThreadView.mergePhases
  split
  case isTrue => exact h
  case isFalse => exact nodup_foldl_pushNew List.nodup_nil _

theorem recorded_threadState (snap : ThreadStateSnapshot) :
    Recorded (.threadState snap) tv (tv.step lower now (.threadState snap)) := by
  have hitems : snap.items.foldl (fun items it => items.insert it.itemId it) tv.items =
      (snap.items.map fun it => (it.itemId, it)).foldl (fun m e => m.insert e.1 e.2) tv.items := by
    rw [List.foldl_map]
  have hcleared {κ : Type} [LinearOrder κ] (spans : SortedMap κ SpanState) (cur : String) :
      SpanFrom [] spans (spans.retain fun _ s => s.phase ≠ some cur) :=
    .of_kept fun _ s hs => ⟨s, (SortedMap.get_retain_eq_some.mp hs).1, rfl⟩
  unfold ThreadView.step TerminalEvent.about
  dsimp only
  unfold ThreadView.applyThreadState
  dsimp only
  split
  case h_1 cur _ => exact ⟨rfl, fun _ => mem_mergePhases, nodup_mergePhases _, hitems,
      hcleared _ cur, hcleared _ cur⟩
  case h_2 => exact ⟨rfl, fun _ => mem_mergePhases, nodup_mergePhases _, hitems, .same _, .same _⟩

theorem leavePhase_eq (ev : PhaseResponse) (tv : ThreadView) : tv.leavePhase ev =
    { tv with
      completedPhases := (completes (.phase ev)).foldl pushNew tv.completedPhases
      items := ((completes (.phase ev)).map (leftItem ev)).foldl (fun m e => m.insert e.1 e.2)
        tv.items } := by
  unfold ThreadView.leavePhase completes
  split
  case h_1 from_ hfrom =>
    dsimp only
    rw [hfrom]
    dsimp only
    split <;> rfl
  case h_2 hnone =>
    dsimp only
    rw [hnone]
    rfl

theorem recorded_phase (ev : PhaseResponse) :
    Recorded (.phase ev) tv (tv.step lower now (.phase ev)) := by
  have hstep : tv.step lower now (.phase ev) =
      { (tv.leavePhase ev).enterPhase ev with lastUpdate := now } := rfl
  rw [hstep, leavePhase_eq]
  refine ⟨rfl, fun p => ?_, fun h => nodup_pushNew h ev.phase, ?_, .same _, .same _⟩
  · exact mem_pushNew.trans (or_congr_right List.mem_singleton.symm)
  · rw [itemWrites, List.foldl_append]
    rfl

/-- An event that leaves the record as it is. -/
theorem Recorded.of_same {ev : TerminalEvent} {tv' : ThreadView}
    (hcompletes : ev.completes = []) (henters : ev.enters = []) (hitems : ev.itemWrites = [])
    (h : tv'.completedPhases = tv.completedPhases ∧ tv'.phases = tv.phases ∧ tv'.items = tv.items)
    (htools : SpanFrom ev.toolWrites tv.toolSpans tv'.toolSpans)
    (hllm : SpanFrom ev.llmWrites tv.llmSpans tv'.llmSpans) : Recorded ev tv tv' := by
  obtain ⟨hcompleted, hphases, hits⟩ := h
  refine ⟨?_, fun p => ?_, fun hnodup => ?_, ?_, htools, hllm⟩
  · rw [hcompleted, hcompletes, List.foldl_nil]
  · rw [hphases, henters]
    simp
  · rwa [hphases]
  · rw [hits, hitems, List.foldl_nil]

theorem recorded_showTool {ev : TerminalEvent} {kept : SortedMap String SpanState} {toolId : String}
    {span : SpanState} (hkept : SpanFrom [] tv.toolSpans kept)
    (hcompletes : ev.completes = []) (henters : ev.enters = []) (hitems : ev.itemWrites = [])
    (htools : ev.toolWrites = [(toolId, span.status)]) (hllm : ev.llmWrites = []) :
    Recorded ev tv { { tv with toolSpans := kept }.showTool toolId span with lastUpdate := now } := by
  obtain ⟨focus, expanded, hfocus⟩ := focusOn_eq span.ctx { tv with
    toolSpans := kept.insert toolId span }
  rw [ThreadView.showTool, hfocus]
  refine .of_same hcompletes henters hitems ⟨rfl, rfl, rfl⟩ ?_ ?_
  · rw [htools]
    exact hkept.insert toolId span
  · rw [hllm]
    exact .same _

theorem recorded_showLlm {ev : TerminalEvent} {callId : Int} {span : SpanState}
    (hcompletes : ev.completes = []) (henters : ev.enters = []) (hitems : ev.itemWrites = [])
    (htools : ev.toolWrites = []) (hllm : ev.llmWrites = [(callId, span.status)]) :
    Recorded ev tv { tv.showLlm callId span with lastUpdate := now } := by
  obtain ⟨focus, expanded, hfocus⟩ := focusOn_eq span.ctx { tv with
    llmSpans := tv.llmSpans.insert callId span }
  rw [ThreadView.showLlm, hfocus]
  refine .of_same hcompletes henters hitems ⟨rfl, rfl, rfl⟩ ?_ ?_
  · rw [htools]
    exact .same _
  · rw [hllm]
    exact (SpanFrom.same _).insert callId span

theorem keptSpans_from (ev : ToolStartResponse) (tv : ThreadView) :
    SpanFrom [] tv.toolSpans (tv.keptSpans ev) := by
  unfold ThreadView.keptSpans
  split
  · split
    · exact .of_kept fun _ s hs => ⟨s, (SortedMap.get_retain_eq_some.mp hs).1, rfl⟩
    · exact .same _
  · exact .same _

theorem recorded_progress (label detail : String) :
    Recorded (.subprocessProgress label detail) tv (tv.applyProgress lower now label detail) := by
  unfold ThreadView.applyProgress
  dsimp only
  split
  · exact .of_same rfl rfl rfl ⟨rfl, rfl, rfl⟩ (.same _) (.same _)
  · refine .of_same rfl rfl rfl ⟨rfl, rfl, rfl⟩ (.of_kept ?_) (.same _)
    intro id s hs
    rw [SortedMap.get_mapValues, Option.map_eq_some_iff] at hs
    obtain ⟨s₀, hget, rfl⟩ := hs
    refine ⟨s₀, hget, ?_⟩
    split <;> rfl

/-- What an event does to the record. -/
theorem recorded_step (ev : TerminalEvent) : Recorded ev tv (tv.step lower now ev) := by
  cases ev with
  | threadState snap => exact recorded_threadState snap
  | phase ev => exact recorded_phase ev
  | plans t ps =>
    obtain ⟨plans, anchors, hps⟩ := applyPlans_eq ps tv
    have hstep : tv.step lower now (.plans t ps) = { tv.applyPlans ps with lastUpdate := now } := rfl
    rw [hstep, hps]
    exact .of_same rfl rfl rfl ⟨rfl, rfl, rfl⟩ (.same _) (.same _)
  | plansChanged ev =>
    unfold ThreadView.step TerminalEvent.about
    dsimp only
    unfold ThreadView.applyPlansChanged
    split <;> exact .of_same rfl rfl rfl ⟨rfl, rfl, rfl⟩ (.same _) (.same _)
  | toolStart ev => exact recorded_showTool (keptSpans_from ev tv) rfl rfl rfl rfl rfl
  | toolEnd ev => exact recorded_showTool (.same _) rfl rfl rfl rfl rfl
  | llmStart ev => exact recorded_showLlm rfl rfl rfl rfl rfl
  | llmEnd ev => exact recorded_showLlm rfl rfl rfl rfl rfl
  | subprocessProgress label detail => exact recorded_progress label detail
  | info text => exact .of_same rfl rfl rfl ⟨rfl, rfl, rfl⟩ (.same _) (.same _)
  | shutdown => exact .of_same rfl rfl rfl ⟨rfl, rfl, rfl⟩ (.same _) (.same _)
  | rawJson text => exact .of_same rfl rfl rfl ⟨rfl, rfl, rfl⟩ (.same _) (.same _)

/-- The record of a view against what its own events reported. -/
structure Remembers (events : List TerminalEvent) (tv : ThreadView) : Prop where
  completed : tv.completedPhases = (events.flatMap completes).foldl pushNew []
  phases : ∀ p, p ∈ tv.phases ↔ p ∈ events.flatMap enters
  nodup : tv.phases.Nodup
  items : tv.items = .ofList (events.flatMap itemWrites)
  toolSpans : ∀ id s, tv.toolSpans.get id = some s →
    (events.flatMap toolWrites).reverse.lookup id = some s.status
  llmSpans : ∀ id s, tv.llmSpans.get id = some s →
    (events.flatMap llmWrites).reverse.lookup id = some s.status

theorem Remembers.new (threadId : String) (now : Nat) : Remembers [] (.new threadId now) :=
  ⟨rfl, fun _ => Iff.rfl, List.nodup_nil, rfl, (fun _ _ h => nomatch h), (fun _ _ h => nomatch h)⟩

theorem SpanFrom.last {κ : Type} [LinearOrder κ] {writes old : List (κ × SpanStatus)}
    {spans spans' : SortedMap κ SpanState} (hone : writes.length ≤ 1) (h : SpanFrom writes spans spans')
    (hold : ∀ id s, spans.get id = some s → old.reverse.lookup id = some s.status) :
    ∀ id s, spans'.get id = some s → (old ++ writes).reverse.lookup id = some s.status := by
  intro id s hs
  have hreverse : writes.reverse = writes := by
    match writes, hone with
    | [], _ => rfl
    | [w], _ => rfl
  rw [List.reverse_append, hreverse, List.lookup_append]
  rcases h id s hs with hlook | ⟨hnone, s₀, hs₀, hstatus⟩
  · rw [hlook]
    rfl
  · rw [hnone, hold id s₀ hs₀, hstatus]
    rfl

theorem Remembers.step {events : List TerminalEvent} (h : Remembers events tv) (ev : TerminalEvent) :
    Remembers (events ++ [ev]) (tv.step lower now ev) := by
  have hrec : Recorded ev tv (tv.step lower now ev) := recorded_step ev
  have hflat {α : Type} (f : TerminalEvent → List α) :
      (events ++ [ev]).flatMap f = events.flatMap f ++ f ev := by simp
  constructor
  · rw [hrec.completed, h.completed, hflat, List.foldl_append]
  · intro p
    rw [hrec.phases p, h.phases p, hflat, List.mem_append]
  · exact hrec.nodup h.nodup
  · rw [hrec.items, h.items, hflat, SortedMap.ofList, SortedMap.ofList, List.foldl_append]
  · rw [hflat]
    exact hrec.toolSpans.last (by cases ev <;> simp [toolWrites]) h.toolSpans
  · rw [hflat]
    exact hrec.llmSpans.last (by cases ev <;> simp [llmWrites]) h.llmSpans

theorem Remembers.foldl {before : List TerminalEvent} (h : Remembers before tv)
    (events : List (Nat × TerminalEvent)) : Remembers (before ++ events.map Prod.snd)
      (events.foldl (fun tv e => tv.step lower e.1 e.2) tv) := by
  induction events generalizing before tv with
  | nil => rwa [List.map_nil, List.append_nil]
  | cons e events ih =>
    have hfirst : Remembers (before ++ [e.2]) (tv.step lower e.1 e.2) := h.step e.2
    have hnext := ih hfirst
    rwa [List.append_assoc] at hnext

end

section
variable {threadId : String} {selected : Option String}

theorem target_eq_threadId {ev : TerminalEvent} (h : ∀ label detail, ev ≠ .subprocessProgress label detail) :
    ev.target selected = ev.threadId := by
  cases ev with
  | subprocessProgress label detail => exact absurd rfl (h label detail)
  | _ => rfl

theorem flatMap_eventsFor {α : Type} {f : TerminalEvent → List α}
    (hf : ∀ label detail, f (.subprocessProgress label detail) = []) (events : List (Nat × TerminalEvent)) :
    ((eventsFor threadId selected events).map Prod.snd).flatMap f = reported f threadId events := by
  induction events generalizing selected with
  | nil => rfl
  | cons e events ih =>
    rw [eventsFor, reported, List.flatMap_cons, ← reported]
    by_cases hprogress : ∃ label detail, e.2 = .subprocessProgress label detail
    · obtain ⟨label, detail, hev⟩ := hprogress
      rw [hev, hf, ite_self, List.nil_append]
      split
      · rw [List.map_cons, List.flatMap_cons, hev, hf, List.nil_append]
        exact ih
      · exact ih
    · have hother : e.2.target selected = e.2.threadId :=
        target_eq_threadId fun label detail hev => hprogress ⟨label, detail, hev⟩
      rw [hother]
      split
      · rw [List.map_cons, List.flatMap_cons, ih]
      · rw [ih, List.nil_append]

theorem eventsFor_eq_nil (hselected : selected ≠ some threadId) (events : List (Nat × TerminalEvent)) :
    eventsFor threadId selected events = [] ↔ ∀ e ∈ events, e.2.threadId ≠ some threadId := by
  induction events generalizing selected with
  | nil => simp [eventsFor]
  | cons e events ih =>
    rw [eventsFor, List.forall_mem_cons]
    by_cases hprogress : ∃ label detail, e.2 = .subprocessProgress label detail
    · obtain ⟨label, detail, hev⟩ := hprogress
      have htarget : (TerminalEvent.subprocessProgress label detail).target selected = selected := rfl
      have hnone : (TerminalEvent.subprocessProgress label detail).threadId ≠ some threadId :=
        (Option.some_ne_none threadId).symm
      have hkept : (selected <|> selected) = selected := by cases selected <;> rfl
      rw [hev, htarget, if_neg hselected, hkept, ih hselected]
      exact (and_iff_right hnone).symm
    · have hother : e.2.target selected = e.2.threadId :=
        target_eq_threadId fun label detail hev => hprogress ⟨label, detail, hev⟩
      rw [hother]
      by_cases hthread : e.2.threadId = some threadId
      · simp [hthread]
      · have hnext : (e.2.threadId <|> selected) ≠ some threadId := by
          cases hfirst : e.2.threadId with
          | none => exact hselected
          | some t =>
            rw [hfirst] at hthread
            exact hthread
        rw [if_neg hthread, ih hnext]
        exact (and_iff_right hthread).symm

end

theorem viewOf_remembers {lower : String → String} {threadId : String} {own : List (Nat × TerminalEvent)}
    {tv : ThreadView} (h : viewOf lower threadId own = some tv) : Remembers (own.map Prod.snd) tv := by
  cases own with
  | nil => cases h
  | cons e own =>
    cases h
    exact (Remembers.new threadId e.1).foldl (e :: own)

/-- However the events of the threads are interleaved, a thread has a view as soon as one event was
about it. The view has every phase and every item that its events reported and no other, the items as
they were reported last, and its spans are as their last start or end left them. -/
theorem terminal_history_complete (lower : String → String) (threadId : String)
    (events : List (Nat × TerminalEvent)) :
    let view := (Model.default.applyAll lower events).threads.get threadId
    (view.isSome = true ↔ ∃ e ∈ events, e.2.threadId = some threadId) ∧
      ∀ tv ∈ view,
        tv.completedPhases = (reported completes threadId events).foldl pushNew [] ∧
        (∀ p, p ∈ tv.phases ↔ p ∈ reported enters threadId events) ∧ tv.phases.Nodup ∧
        tv.items = .ofList (reported itemWrites threadId events) ∧
        (∀ id s, tv.toolSpans.get id = some s →
          (reported toolWrites threadId events).reverse.lookup id = some s.status) ∧
        ∀ id s, tv.llmSpans.get id = some s →
          (reported llmWrites threadId events).reverse.lookup id = some s.status := by
  dsimp only
  rw [get_applyAll_default]
  constructor
  · have hnone : (none : Option String) ≠ some threadId := nofun
    have hnil := eventsFor_eq_nil hnone events
    cases hown : eventsFor threadId none events with
    | nil =>
      rw [hown] at hnil
      simpa [viewOf] using hnil.mp rfl
    | cons e own =>
      rw [hown] at hnil
      simpa [viewOf] using hnil.not.mp (List.cons_ne_nil e own)
  · intro tv htv
    have hremembers := viewOf_remembers (Option.mem_def.mp htv)
    have hflat {α : Type} {f : TerminalEvent → List α}
        (hf : ∀ label detail, f (.subprocessProgress label detail) = []) :
        ((eventsFor threadId none events).map Prod.snd).flatMap f = reported f threadId events :=
      flatMap_eventsFor hf events
    refine ⟨?_, ?_, hremembers.nodup, ?_, ?_, ?_⟩
    · rw [hremembers.completed, hflat fun _ _ => rfl]
    · intro p
      rw [hremembers.phases p, hflat fun _ _ => rfl]
    · rw [hremembers.items, hflat fun _ _ => rfl]
    · rw [← hflat (f := toolWrites) fun _ _ => rfl]
      exact hremembers.toolSpans
    · rw [← hflat (f := llmWrites) fun _ _ => rfl]
      exact hremembers.llmSpans

/-- Two threads, of which one leaves a phase that a snapshot of it does not list. -/
def smallHistory : List (Nat × TerminalEvent) :=
  [(0, .phase ⟨"t1", "plan", none, none, none, "10", [], 0, none⟩),
    (1, .phase ⟨"t2", "draft", none, none, none, "11", [], 0, none⟩),
    (2, .phase ⟨"t1", "author", some " plan ", none, none, "12", [], 0, some 2⟩),
    (3, .threadState ⟨"t1", none, none, some "author", 2, ["author"], [], []⟩)]

theorem terminal_history_complete_small :
    ∃ tv ∈ (Model.default.applyAll id smallHistory).threads.get "t1",
      tv.completedPhases = ["plan"] ∧ "plan" ∈ tv.phases ∧ "draft" ∉ tv.phases := by
  obtain ⟨hsome, hview⟩ := terminal_history_complete id "t1" smallHistory
  obtain ⟨tv, htv⟩ := Option.isSome_iff_exists.mp (hsome.mpr ⟨_, List.mem_cons_self, by decide⟩)
  obtain ⟨hcompleted, hphases, -⟩ := hview tv htv
  refine ⟨tv, htv, ?_, (hphases _).mpr (by decide), fun h => ?_⟩
  · rw [hcompleted]
    decide +kernel
  · exact absurd ((hphases _).mp h) (by decide)

end ReactRuntime.Transport.TerminalUi
