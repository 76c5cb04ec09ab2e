import ReactRuntime.Transport.TerminalHistory

/-!
# The work item in focus

For each kind of plan one work item is in focus. It is one that the thread was seen to work on, its
line stays expanded from then on, and the focus leaves it only when none of its spans is running.
-/
namespace ReactRuntime.Transport.TerminalUi
open ReactRuntime.Core Library Serde

/-- A key that names a work item in full. -/
structure WorkItemKey.Concrete (k : WorkItemKey) : Prop where
  planKind : k.planKind.isSome = true
  planKey : k.planKey.isSome = true
  workgroupId : k.workgroupId.isSome = true
  taskId : k.taskId.isSome = true
  checklistItemId : k.checklistItemId.isSome = true

/-- The parts of a view agree with each other. -/
structure Coherent (threadId : String) (tv : ThreadView) : Prop where
  thread : tv.threadId = threadId
  anchors : ∀ kind anchor, tv.planAnchorPhaseByKind.get kind = some anchor → anchor = kind ++ "_plan"
  plans : ∀ kind p, tv.plansByKind.get kind = some p →
    trim p.planKind = kind ∧ kind ≠ "" ∧ tv.planAnchorPhaseByKind.get kind = some (kind ++ "_plan")
  concrete : ∀ k ∈ tv.expandedWorkItems, k.Concrete
  focus : ∀ kind k, tv.focusByKind.get kind = some k →
    k ∈ tv.expandedWorkItems ∧ k.planKind.map planKindKey = some kind

section
variable {lower : String → String} {now : Nat} {threadId : String} {tv : ThreadView}

theorem concreteKind_eq_some {ctx : ExecutionContext} {pk : String}
    (h : ThreadView.concreteKind ctx = some pk) :
    (keyFromCtx (some ctx)).Concrete ∧ (keyFromCtx (some ctx)).planKind = some pk := by
  obtain ⟨kind, key, group, task, item⟩ := ctx
  cases kind with
  | none => cases h
  | some kind =>
    cases key with
    | none => cases h
    | some key =>
      cases group with
      | none => cases h
      | some group =>
        cases task with
        | none => cases h
        | some task =>
          cases item with
          | none => cases h
          | some item =>
            cases h
            exact ⟨⟨rfl, rfl, rfl, rfl, rfl⟩, rfl⟩

/-- Which focus there is after a work item was noted. -/
theorem focusOn_cases (ctx : Option ExecutionContext) (tv : ThreadView) :
    tv.focusOn ctx = tv ∨ ∃ pk, (keyFromCtx ctx).Concrete ∧ (keyFromCtx ctx).planKind = some pk ∧
      tv.focusOn ctx = { tv with
        focusByKind := if tv.shouldUpdateFocus (planKindKey pk) (keyFromCtx ctx)
          then tv.focusByKind.insert (planKindKey pk) (keyFromCtx ctx) else tv.focusByKind
        expandedWorkItems := insert (keyFromCtx ctx) tv.expandedWorkItems } := by
  unfold ThreadView.focusOn
  split
  case h_1 pk hpk =>
    obtain ⟨c, rfl, hc⟩ := Option.bind_eq_some_iff.mp hpk
    obtain ⟨hconcrete, hkind⟩ := concreteKind_eq_some hc
    refine .inr ⟨pk, hconcrete, hkind, ?_⟩
    unfold ThreadView.updateFocusWithStickiness
    split <;> rfl
  case h_2 => exact .inl rfl

theorem Coherent.new (threadId : String) (now : Nat) : Coherent threadId (.new threadId now) where
  thread := rfl
  anchors := fun _ _ h => nomatch h
  plans := fun _ _ h => nomatch h
  concrete := fun _ h => absurd h (Finset.notMem_empty _)
  focus := fun _ _ h => nomatch h

/-- Only plans and work items matter. -/
theorem Coherent.of_same {tv' : ThreadView} (h : Coherent threadId tv) (hthread : tv'.threadId = tv.threadId)
    (hplans : tv'.plansByKind = tv.plansByKind)
    (hanchors : tv'.planAnchorPhaseByKind = tv.planAnchorPhaseByKind)
    (hexpanded : tv'.expandedWorkItems = tv.expandedWorkItems)
    (hfocus : tv'.focusByKind = tv.focusByKind) : Coherent threadId tv' where
  thread := hthread.trans h.thread
  anchors := by
    rw [hanchors]
    exact h.anchors
  plans := by
    rw [hplans, hanchors]
    exact h.plans
  concrete := by
    rw [hexpanded]
    exact h.concrete
  focus := by
    rw [hfocus, hexpanded]
    exact h.focus

theorem Coherent.focusOn (h : Coherent threadId tv) (ctx : Option ExecutionContext) :
    Coherent threadId (tv.focusOn ctx) := by
  rcases focusOn_cases ctx tv with hsame | ⟨pk, hconcrete, hkind, hnew⟩
  · rw [hsame]
    exact h
  · rw [hnew]
    constructor
    · exact h.thread
    · exact h.anchors
    · exact h.plans
    · intro k hk
      rcases Finset.mem_insert.mp hk with rfl | hk
      · exact hconcrete
      · exact h.concrete k hk
    · intro kind k hk
      dsimp only at hk ⊢
      split_ifs at hk with hupdate
      · rw [SortedMap.get_insert] at hk
        split_ifs at hk with hsame
        · cases hk
          rw [hkind, hsame]
          exact ⟨Finset.mem_insert_self _ _, rfl⟩
        · exact (h.focus kind k hk).imp_left Finset.mem_insert_of_mem
      · exact (h.focus kind k hk).imp_left Finset.mem_insert_of_mem

theorem Coherent.applyPlan (h : Coherent threadId tv) (p : PlanSnapshot) :
    Coherent threadId (tv.applyPlan p) := by
  unfold ThreadView.applyPlan
  dsimp only
  split
  case isTrue => exact h
  case isFalse hkind =>
    have hanchors (j : String) : (if (tv.planAnchorPhaseByKind.get (trim p.planKind)).isSome
        then tv.planAnchorPhaseByKind
        else tv.planAnchorPhaseByKind.insert (trim p.planKind) (trim p.planKind ++ "_plan")).get j =
        if j = trim p.planKind then some (trim p.planKind ++ "_plan")
        else tv.planAnchorPhaseByKind.get j := by
      split
      case isTrue hsome =>
        obtain ⟨anchor, hanchor⟩ := Option.isSome_iff_exists.mp hsome
        split_ifs with hj
        · rw [hj, hanchor, h.anchors _ _ hanchor]
        · rfl
      case isFalse => exact SortedMap.get_insert ..
    refine ⟨h.thread, fun j anchor hj => ?_, fun j q hq => ?_, h.concrete, h.focus⟩
    · rw [hanchors] at hj
      split_ifs at hj with hsame
      · rw [hsame, Option.some.inj hj]
      · exact h.anchors j anchor hj
    · rw [SortedMap.get_insert] at hq
      rw [hanchors]
      split_ifs at hq ⊢ with hsame
      · cases hq
        rw [hsame]
        exact ⟨rfl, hkind, rfl⟩
      · exact h.plans j q hq

theorem Coherent.applyPlans (h : Coherent threadId tv) (ps : List PlanSnapshot) :
    Coherent threadId (tv.applyPlans ps) := by
  induction ps generalizing tv with
  | nil => exact h
  | cons p ps ih => exact ih (h.applyPlan p)

theorem get_foldl_dropStalePlan {plans : SortedMap String PlanSnapshot} {changes : List (String × String)}
    {kind : String} {p : PlanSnapshot}
    (h : (changes.foldl ThreadView.dropStalePlan plans).get kind = some p) :
    plans.get kind = some p := by
  induction changes generalizing plans with
  | nil => exact h
  | cons change changes ih =>
    have hnext := ih h
    unfold ThreadView.dropStalePlan at hnext
    split at hnext
    · split at hnext
      · rw [SortedMap.get_erase] at hnext
        split_ifs at hnext
        exact hnext
      · exact hnext
    · exact hnext

theorem Coherent.applyPlansChanged (h : Coherent threadId tv) (ev : PlansChangedResponse) :
    Coherent threadId (tv.applyPlansChanged ev) := by
  unfold ThreadView.applyPlansChanged
  split
  · exact ⟨h.thread, h.anchors, fun kind p hp => h.plans kind p (get_foldl_dropStalePlan hp), h.concrete,
      h.focus⟩
  · exact h

theorem Coherent.applyThreadState (h : Coherent threadId tv) (snap : ThreadStateSnapshot) :
    Coherent threadId (tv.applyThreadState snap) := by
  unfold ThreadView.applyThreadState
  dsimp only
  split <;> exact h.of_same rfl rfl rfl rfl rfl

theorem Coherent.applyPhase (h : Coherent threadId tv) (ev : PhaseResponse) :
    Coherent threadId (tv.applyPhase ev) := by
  rw [ThreadView.applyPhase, leavePhase_eq]
  exact h.of_same rfl rfl rfl rfl rfl

theorem Coherent.applyProgress (h : Coherent threadId tv) (label detail : String) :
    Coherent threadId (tv.applyProgress lower now label detail) := by
  unfold ThreadView.applyProgress
  dsimp only
  split
  · exact h
  · exact h.of_same rfl rfl rfl rfl rfl

theorem Coherent.touched (h : Coherent threadId tv) : Coherent threadId { tv with lastUpdate := now } :=
  h.of_same rfl rfl rfl rfl rfl

theorem Coherent.showTool (h : Coherent threadId tv) (toolId : String) (span : SpanState) :
    Coherent threadId (tv.showTool toolId span) := by
  have hspans : Coherent threadId { tv with toolSpans := tv.toolSpans.insert toolId span } :=
    h.of_same rfl rfl rfl rfl rfl
  exact hspans.focusOn span.ctx

theorem Coherent.applyToolStart (h : Coherent threadId tv) (ev : ToolStartResponse) :
    Coherent threadId (tv.applyToolStart now ev) := by
  have hkept : Coherent threadId { tv with toolSpans := tv.keptSpans ev } :=
    h.of_same rfl rfl rfl rfl rfl
  exact hkept.showTool _ _

theorem Coherent.showLlm (h : Coherent threadId tv) (callId : Int) (span : SpanState) :
    Coherent threadId (tv.showLlm callId span) := by
  have hspans : Coherent threadId { tv with llmSpans := tv.llmSpans.insert callId span } :=
    h.of_same rfl rfl rfl rfl rfl
  exact hspans.focusOn span.ctx

theorem Coherent.step (h : Coherent threadId tv) (ev : TerminalEvent) :
    Coherent threadId (tv.step lower now ev) := by
  cases ev with
  | threadState snap => exact (h.applyThreadState snap).touched
  | plans t ps => exact (h.applyPlans ps).touched
  | plansChanged ev => exact (h.applyPlansChanged ev).touched
  | phase ev => exact (h.applyPhase ev).touched
  | toolStart ev => exact (h.applyToolStart ev).touched
  | toolEnd ev => exact (h.showTool _ _).touched
  | llmStart ev => exact (h.showLlm _ _).touched
  | llmEnd ev => exact (h.showLlm _ _).touched
  | subprocessProgress label detail => exact h.applyProgress label detail
  | info text => exact h
  | shutdown => exact h
  | rawJson text => exact h

theorem Coherent.foldl (h : Coherent threadId tv) (events : List (Nat × TerminalEvent)) :
    Coherent threadId (events.foldl (fun tv e => tv.step lower e.1 e.2) tv) := by
  induction events generalizing tv with
  | nil => exact h
  | cons e events ih => exact ih (h.step e.2)

theorem focus_focusOn {kind : String} {k : WorkItemKey} (hfocus : tv.focusByKind.get kind = some k)
    {ctx : Option ExecutionContext} (hrunning : (tv.focusOn ctx).hasRunningSpanForKey k = true) :
    (tv.focusOn ctx).focusByKind.get kind = some k := by
  rcases focusOn_cases ctx tv with hsame | ⟨pk, -, -, hnew⟩
  · rw [hsame]
    exact hfocus
  · rw [hnew] at hrunning ⊢
    have hbusy : tv.hasRunningSpanForKey k = true := hrunning
    dsimp only
    split_ifs with hupdate
    · rw [SortedMap.get_insert]
      split_ifs with hkind
      · -- The focus of this kind moves only to where it is.
        rw [ThreadView.shouldUpdateFocus, ← hkind, hfocus] at hupdate
        dsimp only at hupdate
        split_ifs at hupdate with hother
        · rw [hbusy] at hupdate
          cases hupdate
        · rw [not_ne_iff.mp hother]
      · exact hfocus
    · exact hfocus

theorem focus_showTool {kind : String} {k : WorkItemKey} (hfocus : tv.focusByKind.get kind = some k)
    {toolId : String} {span : SpanState}
    (hrunning : (tv.showTool toolId span).hasRunningSpanForKey k = true) :
    (tv.showTool toolId span).focusByKind.get kind = some k := by
  have hspans : { tv with toolSpans := tv.toolSpans.insert toolId span }.focusByKind.get kind =
    some k := hfocus
  exact focus_focusOn hspans hrunning

theorem focus_showLlm {kind : String} {k : WorkItemKey} (hfocus : tv.focusByKind.get kind = some k)
    {callId : Int} {span : SpanState}
    (hrunning : (tv.showLlm callId span).hasRunningSpanForKey k = true) :
    (tv.showLlm callId span).focusByKind.get kind = some k := by
  have hspans : { tv with llmSpans := tv.llmSpans.insert callId span }.focusByKind.get kind =
    some k := hfocus
  exact focus_focusOn hspans hrunning

/-- One event takes the focus from a work item only if no span of it is running then. -/
theorem focus_step {kind : String} {k : WorkItemKey} (hfocus : tv.focusByKind.get kind = some k)
    {ev : TerminalEvent} (hrunning : (tv.step lower now ev).hasRunningSpanForKey k = true) :
    (tv.step lower now ev).focusByKind.get kind = some k := by
  cases ev with
  | threadState snap =>
    unfold ThreadView.step TerminalEvent.about
    dsimp only
    unfold ThreadView.applyThreadState
    dsimp only
    split <;> exact hfocus
  | plans t ps =>
    obtain ⟨plans, anchors, hps⟩ := applyPlans_eq ps tv
    have hstep : tv.step lower now (.plans t ps) = { tv.applyPlans ps with lastUpdate := now } := rfl
    rw [hstep, hps]
    exact hfocus
  | plansChanged ev =>
    unfold ThreadView.step TerminalEvent.about
    dsimp only
    unfold ThreadView.applyPlansChanged
    split <;> exact hfocus
  | phase ev =>
    have hstep : tv.step lower now (.phase ev) =
        { (tv.leavePhase ev).enterPhase ev with lastUpdate := now } := rfl
    rw [hstep, leavePhase_eq]
    exact hfocus
  | toolStart ev =>
    have hkept : { tv with toolSpans := tv.keptSpans ev }.focusByKind.get kind = some k := hfocus
    have hshown : (tv.applyToolStart now ev).hasRunningSpanForKey k = true := hrunning
    exact focus_showTool hkept hshown
  | toolEnd ev =>
    have hshown : (tv.applyToolEnd now ev).hasRunningSpanForKey k = true := hrunning
    exact focus_showTool hfocus hshown
  | llmStart ev =>
    have hshown : (tv.applyLlmStart now ev).hasRunningSpanForKey k = true := hrunning
    exact focus_showLlm hfocus hshown
  | llmEnd ev =>
    have hshown : (tv.applyLlmEnd now ev).hasRunningSpanForKey k = true := hrunning
    exact focus_showLlm hfocus hshown
  | subprocessProgress label detail =>
    unfold ThreadView.step ThreadView.applyProgress
    dsimp only
    split <;> exact hfocus
  | info text => exact hfocus
  | shutdown => exact hfocus
  | rawJson text => exact hfocus

end

/-- In whatever order the events of all threads come, each view is the one of its thread, shows a plan
only under its own kind and with its anchor, and has in focus only work items that are expanded and
that are of the plan kind. -/
theorem terminal_views_coherent (lower : String → String) (events : List (Nat × TerminalEvent)) :
    ∀ threadId, ∀ tv ∈ (Model.default.applyAll lower events).threads.get threadId,
      Coherent threadId tv := by
  intro threadId tv htv
  rw [get_applyAll_default] at htv
  cases hown : eventsFor threadId none events with
  | nil =>
    rw [hown] at htv
    cases htv
  | cons e own =>
    rw [hown] at htv
    cases htv
    exact (Coherent.new threadId e.1).foldl (e :: own)

def itemContext (item : String) : ExecutionContext :=
  ⟨some "dbt", some "p1", some "g1", some "k1", some item⟩

/-- A tool starts to work on an item. -/
def startEvent (threadId toolId item : String) : TerminalEvent :=
  .toolStart ⟨threadId, toolId, "query", none, some "plan", some (itemContext item)⟩

theorem terminal_views_coherent_started :
    ∃ tv ∈ (Model.default.applyAll id [(0, startEvent "t1" "a" "i1")]).threads.get "t1",
      Coherent "t1" tv ∧ keyFromCtx (some (itemContext "i1")) ∈ tv.expandedWorkItems := by
  have hview : ((Model.default.applyAll id [(0, startEvent "t1" "a" "i1")]).threads.get "t1").any
      (fun tv => keyFromCtx (some (itemContext "i1")) ∈ tv.expandedWorkItems) = true := by
    decide +kernel
  obtain ⟨tv, htv, hitem⟩ := (Option.any_eq_true _ _).mp hview
  exact ⟨tv, htv, terminal_views_coherent id _ "t1" tv htv, of_decide_eq_true hitem⟩

/-- The work item in focus is at work in the view of the thread. -/
def Busy (m : Model) (threadId : String) (k : WorkItemKey) : Prop :=
  ∃ tv ∈ m.threads.get threadId, tv.hasRunningSpanForKey k = true

/-- Events of all threads do not take the focus from a work item that is at work all the time. -/
theorem terminal_focus_sticky (lower : String → String) {threadId kind : String} {k : WorkItemKey}
    (before events : List (Nat × TerminalEvent))
    (hfocus : ∃ tv ∈ (Model.default.applyAll lower before).threads.get threadId,
      tv.focusByKind.get kind = some k)
    (hbusy : ∀ events', events' <+: events →
      Busy (Model.default.applyAll lower (before ++ events')) threadId k) :
    ∃ tv ∈ (Model.default.applyAll lower (before ++ events)).threads.get threadId,
      tv.focusByKind.get kind = some k := by
  induction events using List.reverseRecOn with
  | nil =>
    rw [List.append_nil]
    exact hfocus
  | append_singleton events e ih =>
    obtain ⟨tv, htv, hk⟩ := ih fun events' h => hbusy events' (h.trans (List.prefix_append ..))
    obtain ⟨tv', htv', hrunning⟩ := hbusy (events ++ [e]) (List.prefix_refl _)
    have htracks : (Model.default.applyAll lower (before ++ events)).Tracks :=
      tracks_applyAll tracks_default _
    have hstep : Model.default.applyAll lower (before ++ (events ++ [e])) =
        (Model.default.applyAll lower (before ++ events)).applyEvent lower e.1 e.2 := by
      rw [← List.append_assoc, Model.applyAll, List.foldl_append]
      rfl
    rw [hstep, get_applyEvent htracks, Option.mem_def.mp htv] at htv' ⊢
    split_ifs at htv' ⊢ with htarget
    · cases htv'
      exact ⟨_, rfl, focus_step hk hrunning⟩
    · exact ⟨tv, rfl, hk⟩

theorem terminal_focus_sticky_small : ∃ tv ∈ (Model.default.applyAll id
      ([(0, startEvent "t1" "a" "i1")] ++ [(1, startEvent "t1" "b" "i2")])).threads.get "t1",
    tv.focusByKind.get "dbt" = some (keyFromCtx (some (itemContext "i1"))) := by
  have hbusy (post : List (Nat × TerminalEvent)) (h : ((Model.default.applyAll id
      ([(0, startEvent "t1" "a" "i1")] ++ post)).threads.get "t1").any (fun tv =>
        tv.hasRunningSpanForKey (keyFromCtx (some (itemContext "i1")))) = true) :
      Busy (Model.default.applyAll id ([(0, startEvent "t1" "a" "i1")] ++ post)) "t1"
        (keyFromCtx (some (itemContext "i1"))) :=
    (Option.any_eq_true _ _).mp h
  apply terminal_focus_sticky id
  · have hfocus : ((Model.default.applyAll id [(0, startEvent "t1" "a" "i1")]).threads.get "t1").any
        (fun tv => tv.focusByKind.get "dbt" = some (keyFromCtx (some (itemContext "i1")))) = true := by
      decide +kernel
    obtain ⟨tv, htv, hk⟩ := (Option.any_eq_true _ _).mp hfocus
    exact ⟨tv, htv, of_decide_eq_true hk⟩
  · intro events' h
    rcases List.prefix_cons_iff.mp h with rfl | ⟨rest, rfl, hrest⟩
    · exact hbusy [] (by decide +kernel)
    · rw [List.prefix_nil.mp hrest]
      exact hbusy _ (by decide +kernel)

end ReactRuntime.Transport.TerminalUi
