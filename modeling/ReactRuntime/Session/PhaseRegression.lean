import ReactRuntime.Session.Analysis

/-!
# Phases that are entered again

A phase regression is found in the order of the phases, and its step is looked up in the log. The two
agree where the step is the second one that enters the phase.
-/
namespace ReactRuntime.Session

/-- The phases of the phase steps. -/
def enteredPhases (steps : List ThreadStep) : List String := steps.filterMap ThreadStep.phaseEntered

/-- The phase that a step enters was entered before, and not by the phase step just before it. -/
def reenters (before : List ThreadStep) (step : ThreadStep) : Bool :=
  step.phaseEntered.any fun phase =>
    phase ∈ enteredPhases before ∧ (enteredPhases before).getLast? ≠ some phase

/-- The places of the steps that enter a phase again. -/
def reentries (steps : List ThreadStep) : List Nat :=
  (List.range steps.length).filter fun j => steps[j]?.any (reenters (steps.take j))

/-- The phase that the step at a place enters. -/
def phaseAt (steps : List ThreadStep) (j : Nat) : Option String :=
  steps[j]?.bind ThreadStep.phaseEntered

/-- The regressions of an order of phases, with places looked up in the log. -/
def regressions (steps : List ThreadStep) (order : List String) : List Issue :=
  (List.range' 1 (order.length - 1)).filterMap (phaseRevisit steps order)

def Issue.mark (issue : Issue) : IssueKind × (Nat × Nat) := (issue.kind, issue.stepRange)

theorem detectPhaseRegression_nil (steps : List ThreadStep) :
    detectPhaseRegression steps [] = regressions steps (phaseOrder steps) := rfl

section
variable {steps whole : List ThreadStep} {step : ThreadStep} {order : List String} {phase : String}

theorem phaseOrder_concat (steps : List ThreadStep) (step : ThreadStep) :
    phaseOrder (steps ++ [step]) =
      match step.phaseEntered with
      | some phase =>
        if (phaseOrder steps).getLast? ≠ some phase then phaseOrder steps ++ [phase]
        else phaseOrder steps
      | none => phaseOrder steps := by
  rw [phaseOrder, List.foldl_append]
  rfl

theorem enteredPhases_concat (steps : List ThreadStep) (step : ThreadStep) :
    enteredPhases (steps ++ [step]) = enteredPhases steps ++ step.phaseEntered.toList := by
  rw [enteredPhases, List.filterMap_append]
  cases hphase : step.phaseEntered <;> simp [hphase, enteredPhases]

/-- The order has the phases that were entered, and the last one is the last. -/
theorem phaseOrder_spec (steps : List ThreadStep) :
    (phaseOrder steps).getLast? = (enteredPhases steps).getLast? ∧
      ∀ phase, phase ∈ phaseOrder steps ↔ phase ∈ enteredPhases steps := by
  induction steps using List.reverseRecOn with
  | nil => simp [phaseOrder, enteredPhases]
  | append_singleton steps step ih =>
    obtain ⟨hlast, hmem⟩ := ih
    rw [phaseOrder_concat, enteredPhases_concat]
    cases step.phaseEntered with
    | none => simpa using ⟨hlast, hmem⟩
    | some phase =>
      dsimp only
      split_ifs with hnew
      · simp [hmem]
      · rw [not_not] at hnew
        constructor
        · simp [hnew]
        · intro other
          have hphase : phase ∈ enteredPhases steps :=
            (hmem phase).mp (List.mem_of_getLast? hnew)
          rw [hmem, Option.toList_some, List.mem_append, List.mem_singleton]
          constructor
          · exact .inl
          · rintro (h | rfl)
            · exact h
            · exact hphase

/-- A phase that is new at the end of an order is a revisit if it was there before. -/
theorem phaseRevisit_length (whole : List ThreadStep) (hlast : order.getLast? ≠ some phase) :
    (phaseRevisit whole (order ++ [phase]) order.length).map Issue.mark =
      if phase ∈ order then
        some (.phaseRegression, (secondPhaseStep whole phase, secondPhaseStep whole phase))
      else none := by
  have hcur : (order ++ [phase])[order.length]? = some phase := by simp
  rw [phaseRevisit, hcur, List.take_left]
  dsimp only
  cases hfirst : order.findIdx? (· == phase) with
  | none =>
    have hnew : phase ∉ order := fun hmem => by
      simpa using List.findIdx?_eq_none_iff.mp hfirst phase hmem
    rw [if_neg hnew]
    rfl
  | some first =>
    obtain ⟨hlt, heq, -⟩ := List.findIdx?_eq_some_iff_getElem.mp hfirst
    have heq : order[first] = phase := by simpa using heq
    have hmem : phase ∈ order := heq ▸ List.getElem_mem hlt
    have hbefore : first < order.length - 1 := by
      by_contra hend
      apply hlast
      rw [List.getLast?_eq_getElem?, ← heq, List.getElem?_eq_some_iff]
      exact ⟨by omega, by congr 1; omega⟩
    dsimp only
    rw [if_pos hbefore, if_pos hmem]
    rfl

theorem phaseRevisit_append {i : Nat} (hlt : i < order.length) (more : List String) :
    phaseRevisit whole (order ++ more) i = phaseRevisit whole order i := by
  rw [phaseRevisit, phaseRevisit, List.getElem?_append_left hlt,
    List.take_append_of_le_length hlt.le]

theorem regressions_concat (hlast : order.getLast? ≠ some phase) :
    (regressions whole (order ++ [phase])).map Issue.mark =
      (regressions whole order).map Issue.mark ++
        (if phase ∈ order then
          [(.phaseRegression, (secondPhaseStep whole phase, secondPhaseStep whole phase))]
        else []) := by
  unfold regressions
  rw [List.length_append, List.length_singleton, Nat.add_sub_cancel]
  cases hlength : order.length with
  | zero =>
    obtain rfl := List.length_eq_zero_iff.mp hlength
    rfl
  | succ n =>
    have hsame : (List.range' 1 n).filterMap (phaseRevisit whole (order ++ [phase])) =
        (List.range' 1 n).filterMap (phaseRevisit whole order) := by
      apply List.filterMap_congr
      intro i hi
      have hi := List.mem_range'_1.mp hi
      exact phaseRevisit_append (by omega) _
    have hrevisit := phaseRevisit_length whole hlast
    rw [hlength] at hrevisit
    rw [List.range'_concat, List.filterMap_append, hsame, List.map_append, Nat.add_sub_cancel,
      Nat.one_mul, Nat.add_comm 1 n]
    congr 1
    cases hissue : phaseRevisit whole (order ++ [phase]) (n + 1) with
    | none =>
      rw [hissue] at hrevisit
      split_ifs at hrevisit with hmem
      · cases hrevisit
      · simp [hissue, hmem]
    | some issue =>
      rw [hissue] at hrevisit
      split_ifs at hrevisit with hmem
      · simpa [hissue, hmem] using hrevisit
      · cases hrevisit

/-- A log with one more step has the places of the log before, and one more if the step re-enters. -/
theorem reentries_concat (steps : List ThreadStep) (step : ThreadStep) :
    reentries (steps ++ [step]) =
      reentries steps ++ if reenters steps step then [steps.length] else [] := by
  unfold reentries
  rw [List.length_append, List.length_singleton, List.range_succ, List.filter_append]
  congr 1
  · apply List.filter_congr
    intro j hj
    have hlt := List.mem_range.mp hj
    rw [List.getElem?_append_left hlt, List.take_append_of_le_length hlt.le]
  · rw [List.filter_singleton, List.getElem?_concat_length, List.take_left, Option.any_some]
    cases reenters steps step <;> rfl

theorem phaseAt_append {j : Nat} (hlt : j < steps.length) (more : List ThreadStep) :
    phaseAt (steps ++ more) j = phaseAt steps j := by
  rw [phaseAt, phaseAt, List.getElem?_append_left hlt]

/-- The mark that the issue of a re-entry gets. -/
def lookedUp (whole steps : List ThreadStep) (j : Nat) : IssueKind × (Nat × Nat) :=
  let idx := secondPhaseStep whole ((phaseAt steps j).getD "")
  (.phaseRegression, (idx, idx))

/-- There is one issue for each step that enters a phase again, in their order. -/
theorem regressions_spec (whole steps : List ThreadStep) :
    (regressions whole (phaseOrder steps)).map Issue.mark =
      (reentries steps).map (lookedUp whole steps) := by
  induction steps using List.reverseRecOn with
  | nil => rfl
  | append_singleton steps step ih =>
    obtain ⟨hlast, hmem⟩ := phaseOrder_spec steps
    have hold : (reentries steps).map (lookedUp whole (steps ++ [step])) =
        (reentries steps).map (lookedUp whole steps) := by
      apply List.map_congr_left
      intro j hj
      have hlt := List.mem_range.mp (List.mem_of_mem_filter hj)
      rw [lookedUp, lookedUp, phaseAt_append hlt]
    rw [phaseOrder_concat, reentries_concat, List.map_append, hold, ← ih, reenters]
    cases hphase : step.phaseEntered with
    | none => simp
    | some phase =>
      dsimp only
      by_cases hnew : (phaseOrder steps).getLast? = some phase
      · rw [if_neg (not_not.mpr hnew)]
        simp [← hlast, hnew]
      · rw [if_pos hnew, regressions_concat hnew]
        congr 1
        have hat : phaseAt (steps ++ [step]) steps.length = some phase := by
          simp [phaseAt, hphase]
        by_cases hbefore : phase ∈ enteredPhases steps
        · simp [hmem, hbefore, ← hlast, hnew, lookedUp, hat]
        · simp [hmem, hbefore]

/-- How many of the first steps enter a phase. -/
def entriesBefore (steps : List ThreadStep) (j : Nat) (phase : String) : Nat :=
  (enteredPhases (steps.take j)).count phase

theorem length_filter_zipIdx (steps : List ThreadStep) (phase : String) :
    (steps.zipIdx.filter fun s => s.1.phaseEntered = some phase).length =
      (enteredPhases steps).count phase := by
  calc (steps.zipIdx.filter fun s => s.1.phaseEntered = some phase).length
      = steps.zipIdx.countP ((fun s => decide (s.phaseEntered = some phase)) ∘ Prod.fst) :=
        List.countP_eq_length_filter.symm
    _ = steps.countP fun s => decide (s.phaseEntered = some phase) := by
        rw [← List.countP_map, List.zipIdx_map_fst]
    _ = (enteredPhases steps).count phase := by
        rw [enteredPhases, List.count_filterMap]
        congr 1
        funext s
        exact (Bool.beq_eq_decide_eq _ _).symm

/-- The step that is looked up is the one at `j` if exactly one step before it enters the phase. -/
theorem secondPhaseStep_eq_iff {j : Nat} {step : ThreadStep} (hstep : steps[j]? = some step)
    (hphase : step.phaseEntered = some phase) (hpos : 0 < entriesBefore steps j phase) :
    secondPhaseStep steps phase = j ↔ entriesBefore steps j phase = 1 := by
  obtain ⟨hlt, rfl⟩ := List.getElem?_eq_some_iff.mp hstep
  have hfront : (steps.take j).length = j := List.length_take_of_le hlt.le
  have hsplit : steps.zipIdx = (steps.take j).zipIdx ++ (steps[j], j) :: (steps.drop (j + 1)).zipIdx (j + 1) := by
    conv_lhs => rw [← List.take_append_drop j steps, List.drop_eq_getElem_cons hlt, List.zipIdx_append]
    rw [hfront, Nat.zero_add, List.zipIdx_cons]
  have hlength := length_filter_zipIdx (steps.take j) phase
  rw [secondPhaseStep, hsplit, List.filter_append, List.filter_cons_of_pos (by simpa using hphase)]
  rw [entriesBefore, ← hlength] at hpos ⊢
  generalize hbefore : (steps.take j).zipIdx.filter (fun s => s.1.phaseEntered = some phase) = before
    at hpos ⊢
  constructor
  · intro hsecond
    by_contra hmany
    have hone : 1 < before.length := by omega
    rw [List.getElem?_append_left hone, List.getElem?_eq_getElem hone] at hsecond
    have hmem : before[1] ∈ (steps.take j).zipIdx := by
      apply List.mem_of_mem_filter
      rw [hbefore]
      exact List.getElem_mem hone
    have hidx := List.snd_lt_of_mem_zipIdx hmem
    rw [hfront] at hidx
    simp only [Option.map_some, Option.getD_some] at hsecond
    omega
  · intro hone
    rw [List.getElem?_append_right hone.le, hone]
    rfl

end

/-- An issue for each step that enters a phase again, in their order, at the place of the step. -/
def PointsAtReentries (steps : List ThreadStep) (issues : List Issue) : Prop :=
  issues.map Issue.mark = (reentries steps).map fun j => (.phaseRegression, (j, j))

instance (steps : List ThreadStep) (issues : List Issue) : Decidable (PointsAtReentries steps issues) :=
  inferInstanceAs (Decidable (_ = _))

theorem of_mem_reentries {steps : List ThreadStep} {j : Nat} (h : j ∈ reentries steps) :
    ∃ step phase, steps[j]? = some step ∧ step.phaseEntered = some phase ∧
      0 < entriesBefore steps j phase := by
  obtain ⟨-, hreenters⟩ := List.mem_filter.mp h
  obtain ⟨step, hstep, hreenters⟩ := (Option.any_eq_true ..).mp hreenters
  obtain ⟨phase, hphase, hbefore⟩ := (Option.any_eq_true ..).mp hreenters
  exact ⟨step, phase, hstep, hphase, List.count_pos_iff.mpr (of_decide_eq_true hbefore).1⟩

/-- The second `a` is looked up for the third one. -/
def repeatedLog : ThreadLog :=
  { ThreadLog.default with
    steps := ["a", "a", "b", "a"].map fun name => .phase name none none none .okay "" "agent" }

theorem regression_misplaced : ¬ ∀ log : ThreadLog,
    PointsAtReentries log.steps (detectPhaseRegression log.steps []) := by
  intro h
  have hmarks := h repeatedLog
  revert hmarks
  decide

/-- The regressions point at their steps exactly if every phase that is entered again was named by one
step before. -/
theorem detectPhaseRegression_pointsAtReentries (log : ThreadLog) :
    PointsAtReentries log.steps (detectPhaseRegression log.steps []) ↔
      ∀ j ∈ reentries log.steps, ∀ phase ∈ phaseAt log.steps j,
        entriesBefore log.steps j phase = 1 := by
  rw [PointsAtReentries, detectPhaseRegression_nil, regressions_spec, List.map_inj_left]
  apply forall₂_congr
  intro j hj
  obtain ⟨step, phase, hstep, hphase, hpos⟩ := of_mem_reentries hj
  have hat : phaseAt log.steps j = some phase := by rw [phaseAt, hstep, Option.bind_some, hphase]
  have hsecond := secondPhaseStep_eq_iff hstep hphase hpos
  rw [lookedUp, hat]
  simp [← hsecond]

end ReactRuntime.Session
