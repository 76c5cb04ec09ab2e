import ReactRuntime.Session.Analysis

/-!
# A summary accounts for every step

A phase of the summary ends where the next one starts, so the phases share out the steps from the
first phase step on. The tools share out the steps that end a tool.
-/
namespace ReactRuntime.Session
open Library

namespace ThreadStep

/-- The step ends a call of the tool. -/
def ends (name : String) (step : ThreadStep) : Bool := step.toolEnded.any fun e => e.1 = name

/-- The step ends a call of the tool with the status. -/
def endsWith (name : String) (status : ToolStepStatus) (step : ThreadStep) : Bool :=
  step.toolEnded = some (name, status)

end ThreadStep

/-- The calls of a tool in a log. -/
def ToolCounts.of (name : String) (steps : List ThreadStep) : ToolCounts where
  count := steps.countP (ThreadStep.ends name)
  ok := steps.countP (ThreadStep.endsWith name .ok)
  failed := steps.countP (ThreadStep.endsWith name .failed)

/-- The steps from the first phase step on. -/
def fromFirstPhase (steps : List ThreadStep) : List ThreadStep :=
  steps.dropWhile fun s => s.phaseEntered = none

theorem fromFirstPhase_concat (steps : List ThreadStep) (step : ThreadStep) :
    fromFirstPhase (steps ++ [step]) =
      if fromFirstPhase steps = [] ∧ step.phaseEntered = none then []
      else fromFirstPhase steps ++ [step] := by
  unfold fromFirstPhase
  rw [List.dropWhile_append]
  by_cases hnone : steps.dropWhile (fun s => s.phaseEntered = none) = []
  · by_cases hstep : step.phaseEntered = none <;> simp [hnone, hstep]
  · rw [if_neg (by simpa using hnone), if_neg fun h => hnone h.1]

namespace Summarizer
variable {env : AnalysisEnv} {steps : List ThreadStep} {step : ThreadStep}

theorem run_concat (env : AnalysisEnv) (steps : List ThreadStep) (step : ThreadStep) :
    run env (steps ++ [step]) = (run env steps).step env steps.length step := by
  rw [run, List.zipIdx_append, List.foldl_append, Nat.zero_add]
  rfl

/-- A step that enters a phase ends the one that is open. -/
theorem step_of_phase (env : AnalysisEnv) {name : String} (h : step.phaseEntered = some name)
    (self : Summarizer) (idx : Nat) :
    (self.step env idx step).phases =
        self.phases ++ (self.current.map fun p => p.close idx (env.parseTs step.ts)).toList ∧
      (self.step env idx step).current = some ⟨name, idx, env.parseTs step.ts⟩ := by
  cases step <;> cases h
  exact ⟨rfl, rfl⟩

theorem step_of_no_phase (env : AnalysisEnv) (h : step.phaseEntered = none) (self : Summarizer)
    (idx : Nat) :
    (self.step env idx step).phases = self.phases ∧
      (self.step env idx step).current = self.current := by
  cases step with
  | phase => cases h
  | llmEnd =>
    rw [Summarizer.step]
    split_ifs <;> exact ⟨rfl, rfl⟩
  | _ => exact ⟨rfl, rfl⟩

/-- The phases of the steps so far have all the steps from the first phase step on. -/
structure Accounted (steps : List ThreadStep) (acc : Summarizer) : Prop where
  names : acc.phases.map PhaseSummary.name ++ (acc.current.map OpenPhase.name).toList =
    steps.filterMap ThreadStep.phaseEntered
  no_phase : acc.current = none → acc.phases = [] ∧ fromFirstPhase steps = []
  total : ∀ p ∈ acc.current, p.startIdx < steps.length ∧
    (acc.phases.map PhaseSummary.steps).sum + (steps.length - p.startIdx) =
      (fromFirstPhase steps).length

namespace Accounted
variable {acc : Summarizer}

theorem enter (h : Accounted steps acc) {name : String} (hstep : step.phaseEntered = some name) :
    Accounted (steps ++ [step]) (acc.step env steps.length step) := by
  obtain ⟨hphases, hcurrent⟩ := step_of_phase env hstep acc steps.length
  have hfirst : fromFirstPhase (steps ++ [step]) = fromFirstPhase steps ++ [step] := by
    rw [fromFirstPhase_concat, if_neg (by simp [hstep])]
  constructor
  · rw [hphases, hcurrent, List.filterMap_append, ← h.names]
    cases acc.current <;> simp [OpenPhase.close, hstep]
  · rw [hcurrent]
    simp
  · intro p hp
    rw [hcurrent, Option.mem_some_iff] at hp
    subst hp
    rw [hphases, hfirst, List.length_append, List.length_append]
    cases hopen : acc.current with
    | none =>
      obtain ⟨hnone, hempty⟩ := h.no_phase hopen
      simp [hnone, hempty]
    | some p =>
      obtain ⟨hlt, htotal⟩ := h.total p hopen
      simp [OpenPhase.close, ← htotal]

theorem stay (h : Accounted steps acc) (hstep : step.phaseEntered = none) :
    Accounted (steps ++ [step]) (acc.step env steps.length step) := by
  obtain ⟨hphases, hcurrent⟩ := step_of_no_phase env hstep acc steps.length
  constructor
  · rw [hphases, hcurrent, List.filterMap_append, ← h.names]
    simp [hstep]
  · rw [hphases, hcurrent]
    intro hnone
    obtain ⟨hempty, hfirst⟩ := h.no_phase hnone
    exact ⟨hempty, by rw [fromFirstPhase_concat, if_pos ⟨hfirst, hstep⟩]⟩
  · rw [hphases, hcurrent]
    intro p hp
    obtain ⟨hlt, htotal⟩ := h.total p hp
    have hfirst : fromFirstPhase steps ≠ [] := by
      rw [Ne, ← List.length_eq_zero_iff]
      omega
    rw [fromFirstPhase_concat, if_neg fun hnone => hfirst hnone.1, List.length_append,
      List.length_append, List.length_singleton]
    omega

end Accounted

theorem accounted_run (env : AnalysisEnv) (steps : List ThreadStep) :
    Accounted steps (run env steps) := by
  induction steps using List.reverseRecOn with
  | nil => exact ⟨rfl, fun _ => ⟨rfl, rfl⟩, by simp [run, start]⟩
  | append_singleton steps step ih =>
    rw [run_concat]
    cases hstep : step.phaseEntered with
    | none => exact ih.stay hstep
    | some name => exact ih.enter hstep

theorem toolMap_step (self : Summarizer) (idx : Nat) (step : ThreadStep) :
    (self.step env idx step).toolMap =
      match step.toolEnded with
      | some (name, status) =>
        self.toolMap.insert name (((self.toolMap.get name).getD ⟨0, 0, 0⟩).bump status)
      | none => self.toolMap := by
  cases step with
  | llmEnd =>
    rw [Summarizer.step]
    split_ifs <;> rfl
  | _ => rfl

end Summarizer

namespace ToolCounts

/-- One more step of a log. -/
theorem of_concat (name : String) (steps : List ThreadStep) (step : ThreadStep) :
    of name (steps ++ [step]) =
      match step.toolEnded with
      | some (ended, status) => if ended = name then (of name steps).bump status else of name steps
      | none => of name steps := by
  unfold of
  simp only [List.countP_append, List.countP_singleton]
  cases hended : step.toolEnded with
  | none => simp [ThreadStep.ends, ThreadStep.endsWith, hended]
  | some e =>
    obtain ⟨ended, status⟩ := e
    by_cases hname : ended = name
    · cases status <;> simp [ThreadStep.ends, ThreadStep.endsWith, hended, hname, bump]
    · simp [ThreadStep.ends, ThreadStep.endsWith, hended, hname]

theorem ends_of_endsWith {name : String} {status : ToolStepStatus} {step : ThreadStep}
    (h : step.endsWith name status = true) : step.ends name = true := by
  have hended : step.toolEnded = some (name, status) := of_decide_eq_true h
  simp [ThreadStep.ends, hended]

/-- A tool that never ended has no calls of any status. -/
theorem of_eq_zero {name : String} {steps : List ThreadStep} (h : (of name steps).count = 0) :
    of name steps = ⟨0, 0, 0⟩ := by
  have hzero : ∀ status, steps.countP (ThreadStep.endsWith name status) = 0 := by
    intro status
    apply Nat.le_zero.mp
    rw [← h]
    exact List.countP_mono_left fun step _ => ends_of_endsWith
  rw [of, hzero, hzero]
  congr 1

theorem count_pos {name : String} {steps : List ThreadStep} :
    (of name steps).count ≠ 0 ↔ ∃ status, (name, status) ∈ steps.filterMap ThreadStep.toolEnded := by
  rw [Nat.ne_zero_iff_zero_lt, of, List.countP_pos_iff]
  constructor
  · rintro ⟨step, hstep, hends⟩
    obtain ⟨⟨ended, status⟩, hended, rfl⟩ : ∃ e, step.toolEnded = some e ∧ e.1 = name := by
      simpa [ThreadStep.ends, Option.any_eq_true] using hends
    exact ⟨status, List.mem_filterMap.mpr ⟨step, hstep, hended⟩⟩
  · rintro ⟨status, hmem⟩
    obtain ⟨step, hstep, hended⟩ := List.mem_filterMap.mp hmem
    exact ⟨step, hstep, by simp [ThreadStep.ends, hended]⟩

end ToolCounts

namespace Summarizer

/-- The map has the tools of the steps so far. -/
theorem get_toolMap (env : AnalysisEnv) (steps : List ThreadStep) (name : String) :
    (run env steps).toolMap.get name =
      if (ToolCounts.of name steps).count = 0 then none else some (ToolCounts.of name steps) := by
  induction steps using List.reverseRecOn with
  | nil => rfl
  | append_singleton steps step ih =>
    have hof := ToolCounts.of_concat name steps step
    rw [run_concat, toolMap_step]
    cases hended : step.toolEnded with
    | none =>
      rw [hended] at hof
      rw [hof]
      exact ih
    | some e =>
      obtain ⟨ended, status⟩ := e
      simp only [hended] at hof
      simp only [SortedMap.get_insert]
      by_cases hname : name = ended
      · subst hname
        have hentry : ((run env steps).toolMap.get name).getD ⟨0, 0, 0⟩ = ToolCounts.of name steps := by
          rw [ih]
          split_ifs with hzero
          · exact (ToolCounts.of_eq_zero hzero).symm
          · rfl
        have hpos : ((ToolCounts.of name steps).bump status).count ≠ 0 := by
          cases status <;> simp [ToolCounts.bump]
        rw [if_pos rfl] at hof
        rw [if_pos rfl, hentry, hof, if_neg hpos]
      · rw [if_neg (Ne.symm hname)] at hof
        rw [if_neg hname, hof]
        exact ih

end Summarizer

/-- A tool of the summary has the numbers of its calls in the log. -/
def ToolCallSummary.Counts (steps : List ThreadStep) (t : ToolCallSummary) : Prop :=
  t.count = steps.countP (ThreadStep.ends t.name) ∧
    t.successes = steps.countP (ThreadStep.endsWith t.name .ok) ∧
    t.failures = steps.countP (ThreadStep.endsWith t.name .failed)

def ToolCallSummary.ofEntry (e : String × ToolCounts) : ToolCallSummary :=
  ⟨e.1, e.2.count, e.2.ok, e.2.failed⟩

section
variable (env : AnalysisEnv) (log : ThreadLog)

/-- The summary has a phase for each phase step, and the last one ends with the log. -/
theorem phases_summarize :
    (summarize env log).phases.map PhaseSummary.name = log.steps.filterMap ThreadStep.phaseEntered ∧
      ((summarize env log).phases.map PhaseSummary.steps).sum = (fromFirstPhase log.steps).length := by
  have hrun := Summarizer.accounted_run env log.steps
  constructor
  · rw [← hrun.names, summarize, List.map_append]
    cases (Summarizer.run env log.steps).current <;> rfl
  · rw [summarize, List.map_append, List.sum_append]
    cases hopen : (Summarizer.run env log.steps).current with
    | none =>
      obtain ⟨hnone, hfirst⟩ := hrun.no_phase hopen
      rw [hnone, hfirst]
      rfl
    | some p => simpa [OpenPhase.close] using (hrun.total p hopen).2

/-- The tools of the summary are the entries of the map, in some order. -/
theorem toolCalls_perm :
    (summarize env log).toolCalls.Perm
      ((Summarizer.run env log.steps).toolMap.entries.map ToolCallSummary.ofEntry) :=
  (sortBy_perm ..).trans ((env.toolOrder.perm _).map _)

theorem toolNames_perm :
    ((summarize env log).toolCalls.map ToolCallSummary.name).Perm
      (Summarizer.run env log.steps).toolMap.keys := by
  have hnames := (toolCalls_perm env log).map ToolCallSummary.name
  rw [List.map_map] at hnames
  exact hnames

theorem counts_of_mem_toolCalls {t : ToolCallSummary} (h : t ∈ (summarize env log).toolCalls) :
    t.Counts log.steps := by
  obtain ⟨⟨name, counts⟩, he, rfl⟩ := List.mem_map.mp ((toolCalls_perm env log).mem_iff.mp h)
  have hget := SortedMap.get_of_mem_entries he
  rw [Summarizer.get_toolMap] at hget
  split_ifs at hget with hzero
  obtain rfl := Option.some_inj.mp hget
  exact ⟨rfl, rfl, rfl⟩

/-- The phases and the tools of a summary, whatever the order in which the map is read. -/
theorem summarize_accounts :
    ((summarize env log).phases.map PhaseSummary.name =
        log.steps.filterMap ThreadStep.phaseEntered ∧
      ((summarize env log).phases.map PhaseSummary.steps).sum = (fromFirstPhase log.steps).length) ∧
    ((summarize env log).toolCalls.map ToolCallSummary.name).Nodup ∧
    (∀ name, name ∈ (summarize env log).toolCalls.map ToolCallSummary.name ↔
      ∃ status, (name, status) ∈ log.steps.filterMap ThreadStep.toolEnded) ∧
    (summarize env log).toolCalls.Pairwise (fun a b => a.count ≥ b.count) ∧
    ∀ t ∈ (summarize env log).toolCalls, t.Counts log.steps := by
  refine ⟨phases_summarize env log, ?_, fun name => ?_, ?_, fun t => counts_of_mem_toolCalls env log⟩
  · exact (toolNames_perm env log).nodup_iff.mpr (SortedMap.nodup_keys _)
  · rw [(toolNames_perm env log).mem_iff, SortedMap.mem_keys, Summarizer.get_toolMap,
      ← ToolCounts.count_pos]
    by_cases hzero : (ToolCounts.of name log.steps).count = 0 <;> simp [hzero]
  · exact pairwise_sortBy (fun t : ToolCallSummary => OrderDual.toDual t.count) _

end
end ReactRuntime.Session
