import Mathlib.Algebra.Ring.Int.Defs
import Mathlib.Data.Set.List
import ReactRuntime.Transport.ThreadState
import ReactRuntime.View.PhaseTimes

/-!
# The runs of a phase

A run of a phase starts with the phase step that enters it and is completed by the next one. The
view keeps one record for each phase, and the clients are sent all of its runs.
-/
namespace ReactRuntime.Transport
open Library ReactRuntime.Core Session View PhaseMark

structure PhaseRun where
  startedAt : String
  endedAt : Option String
  runtimeMs : Option Int
deriving DecidableEq, Repr

def PhaseRun.new (startedAt : String) : PhaseRun := ⟨startedAt, none, none⟩

section
variable (millisBetween : String → String → Option Int)

def durationMs (startTs endTs : String) : Option Int :=
  (millisBetween startTs endTs).map fun ms => max ms 0

/-- End the last run, if it has not ended. -/
def endLast (ts : String) (runs : List PhaseRun) : List PhaseRun :=
  match runs.getLast? with
  | none => runs
  | some last =>
    if last.endedAt.isNone then
      runs.dropLast ++
        [{ last with
          endedAt := some ts
          runtimeMs := durationMs millisBetween last.startedAt ts }]
    else runs

/-- The runs after a phase step has left a phase. -/
def endSource (runs : SortedMap String (List PhaseRun)) (fromPhase : Option String)
    (ts : String) : SortedMap String (List PhaseRun) :=
  match fromPhase.bind trimmed with
  | none => runs
  | some prev =>
    match runs.get prev with
    | none => runs
    | some v => runs.insert prev (endLast millisBetween ts v)

/-- The loop of `phaseRunsFromSteps`. -/
def addPhaseStep (runs : SortedMap String (List PhaseRun)) (step : ThreadStep) :
    SortedMap String (List PhaseRun) :=
  match step with
  | .phase phase fromPhase _ _ _ ts _ =>
    let runs := endSource millisBetween runs fromPhase ts
    match trimmed phase with
    | none => runs
    | some ph =>
      runs.insert ph (endLast millisBetween ts ((runs.get ph).getD []) ++ [.new ts])
  | _ => runs

def phaseRunsFromSteps (steps : List ThreadStep) : SortedMap String (List PhaseRun) :=
  steps.foldl (addPhaseStep millisBetween) .empty

end

def totalCompletedRuntimeMs (runs : List PhaseRun) : Int :=
  (runs.filterMap PhaseRun.runtimeMs).sum

section
variable (millisBetween : String → String → Option Int) {ms : List PhaseMark} {m n : PhaseMark}
  {p : String}

def completedRun (m n : PhaseMark) : PhaseRun :=
  ⟨m.ts, some n.ts, durationMs millisBetween m.ts n.ts⟩

/-- The completed runs of a phase: one for each phase step that enters it and has a next one. -/
def completedRuns (p : String) : List PhaseMark → List PhaseRun
  | m :: n :: ms =>
    if m.name = some p then completedRun millisBetween m n :: completedRuns p (n :: ms)
    else completedRuns p (n :: ms)
  | _ => []

/-- The run of a phase that is not completed. -/
def openRun (p : String) (ms : List PhaseMark) : List PhaseRun :=
  match ms.getLast? with
  | none => []
  | some m => if m.name = some p then [.new m.ts] else []

theorem completedRuns_concat (p : String) (ms : List PhaseMark) (n m : PhaseMark) :
    completedRuns millisBetween p (ms ++ [n] ++ [m]) =
      completedRuns millisBetween p (ms ++ [n]) ++
        if n.name = some p then [completedRun millisBetween n m] else [] := by
  induction ms with
  | nil =>
    by_cases hname : n.name = some p <;> simp [completedRuns, hname]
  | cons m' ms ih =>
    cases ms with
    | nil =>
      by_cases hname : m'.name = some p <;> by_cases hnext : n.name = some p <;>
        simp [completedRuns, hname, hnext]
    | cons m'' ms =>
      by_cases hname : m'.name = some p
      · simpa [completedRuns, hname] using ih
      · simpa [completedRuns, hname] using ih

theorem ended_of_mem_completedRuns {r : PhaseRun} (h : r ∈ completedRuns millisBetween p ms) :
    r.endedAt.isSome = true := by
  fun_induction completedRuns millisBetween p ms with
  | case1 m n ms hname ih =>
    rcases List.mem_cons.mp h with rfl | h
    · rfl
    · exact ih h
  | case2 m n ms hname ih => exact ih h
  | case3 => simp at h

theorem endLast_completedRuns (ts : String) :
    endLast millisBetween ts (completedRuns millisBetween p ms) =
      completedRuns millisBetween p ms := by
  rw [endLast]
  cases hlast : (completedRuns millisBetween p ms).getLast? with
  | none => rfl
  | some r =>
    have hended := ended_of_mem_completedRuns millisBetween (List.mem_of_getLast? hlast)
    simp [Option.isNone_eq_false_iff.mpr hended]

theorem endLast_concat (runs : List PhaseRun) (ts : String) :
    endLast millisBetween ts (runs ++ [.new m.ts]) =
      runs ++ [⟨m.ts, some ts, durationMs millisBetween m.ts ts⟩] := by
  simp [endLast, PhaseRun.new]

/-- Leaving the phase of the last step completes its run. -/
theorem endLast_open (hchain : Chained (ms ++ [m])) :
    (if m.source = some p then
        endLast millisBetween m.ts (completedRuns millisBetween p ms ++ openRun p ms)
      else completedRuns millisBetween p ms ++ openRun p ms) =
      completedRuns millisBetween p (ms ++ [m]) := by
  have hsource := hchain.source_eq
  cases ms using List.reverseRecOn with
  | nil =>
    rw [if_neg (by simp [hsource])]
    rfl
  | append_singleton ms n =>
    have hname : m.source = n.name := by simpa using hsource
    rw [completedRuns_concat, openRun, List.getLast?_concat, hname]
    by_cases hp : n.name = some p
    · simp only [hp, if_true]
      exact endLast_concat millisBetween _ m.ts
    · simp [hp]

theorem get_endSource (runs : SortedMap String (List PhaseRun)) (fromPhase : Option String)
    (ts p : String) : ((endSource millisBetween runs fromPhase ts).get p).getD [] =
      if fromPhase.bind trimmed = some p then endLast millisBetween ts ((runs.get p).getD [])
      else (runs.get p).getD [] := by
  rw [endSource]
  cases fromPhase.bind trimmed with
  | none => simp
  | some q =>
    cases hruns : runs.get q with
    | none =>
      rcases eq_or_ne q p with rfl | hqp
      · simp [hruns, endLast]
      · simp [hruns, hqp]
    | some v =>
      rcases eq_or_ne q p with rfl | hqp
      · simp [hruns]
      · simp [hruns, hqp, hqp.symm]

/-- The runs of a phase: the completed ones, and the open one if the chain ends in the phase. -/
theorem get_addPhaseStep {runs : SortedMap String (List PhaseRun)} {step : ThreadStep}
    (hmark : step.mark = some m) (hchain : Chained (ms ++ [m]))
    (hruns : ∀ p, (runs.get p).getD [] = completedRuns millisBetween p ms ++ openRun p ms)
    (p : String) : ((addPhaseStep millisBetween runs step).get p).getD [] =
      completedRuns millisBetween p (ms ++ [m]) ++ openRun p (ms ++ [m]) := by
  cases step with
  | phase phase fromPhase reasonCode reasonDetail observation ts agent =>
    have hleave : ∀ p, ((endSource millisBetween runs fromPhase ts).get p).getD [] =
        completedRuns millisBetween p (ms ++ [m]) := by
      intro p
      rw [get_endSource, hruns p, ← endLast_open millisBetween hchain]
      obtain rfl := Option.some.inj hmark
      rfl
    obtain rfl := Option.some.inj hmark
    rw [addPhaseStep, openRun, List.getLast?_concat]
    dsimp only
    cases htarget : trimmed phase with
    | none =>
      rw [htarget] at hleave
      simp [hleave p]
    | some q =>
      rw [htarget] at hleave
      rcases eq_or_ne p q with rfl | hpq
      · simp [hleave p, endLast_completedRuns]
      · simp [hpq, hpq.symm, hleave p]
  | _ => simp [ThreadStep.mark] at hmark

theorem get_phaseRunsFromSteps {steps : List ThreadStep} (hchain : Chained (marks steps))
    (p : String) : ((phaseRunsFromSteps millisBetween steps).get p).getD [] =
      completedRuns millisBetween p (marks steps) ++ openRun p (marks steps) := by
  induction steps using List.reverseRecOn generalizing p with
  | nil => rfl
  | append_singleton steps step ih =>
    rw [marks_concat] at hchain ⊢
    rw [phaseRunsFromSteps, List.foldl_concat, ← phaseRunsFromSteps]
    cases hmark : step.mark with
    | none =>
      have hsame : addPhaseStep millisBetween (phaseRunsFromSteps millisBetween steps) step =
          phaseRunsFromSteps millisBetween steps := by
        cases step with
        | phase => simp [ThreadStep.mark] at hmark
        | _ => rfl
      rw [hmark, Option.toList_none, List.append_nil] at hchain
      rw [hsame, Option.toList_none, List.append_nil, ih hchain]
    | some m =>
      rw [hmark, Option.toList_some] at hchain
      rw [Option.toList_some]
      exact get_addPhaseStep millisBetween hmark hchain (fun p => ih hchain.left p) p

/-- The milliseconds from one phase step to another. -/
def span (m n : PhaseMark) : Nat :=
  (ThreadLogViewCache.durationMs millisBetween m.ts n.ts).getD 0

/-- The milliseconds of the completed runs of a phase. -/
def completedMs (p : String) : List PhaseMark → Nat
  | m :: n :: ms => (if m.name = some p then span millisBetween m n else 0) + completedMs p (n :: ms)
  | _ => 0

/-- The milliseconds that the view records for a phase. -/
def recordedMs (p : String) (ms : List PhaseMark) : Nat :=
  ((firstEntered p ms).bind fun started =>
    (firstLeft p ms).bind (ThreadLogViewCache.durationMs millisBetween started)).getD 0

/-- A completed run takes no time unless it is the first of its phase, and the next phase step has a
name. -/
def OnlyFirstRuns (entered : List String) : List PhaseMark → Prop
  | m :: n :: ms =>
    (span millisBetween m n = 0 ∨ n.name.isSome = true ∧ ∀ p ∈ m.name, p ∉ entered) ∧
      OnlyFirstRuns (m.name.toList ++ entered) (n :: ms)
  | _ => True

instance OnlyFirstRuns.decidable :
    (entered : List String) → (ms : List PhaseMark) → Decidable (OnlyFirstRuns millisBetween entered ms)
  | _, [] | _, [_] => .isTrue trivial
  | entered, m :: n :: ms =>
    have := OnlyFirstRuns.decidable (m.name.toList ++ entered) (n :: ms)
    inferInstanceAs (Decidable
      ((span millisBetween m n = 0 ∨ n.name.isSome = true ∧ ∀ p ∈ m.name, p ∉ entered) ∧
        OnlyFirstRuns millisBetween (m.name.toList ++ entered) (n :: ms)))

theorem durationMs_eq (startTs endTs : String) : durationMs millisBetween startTs endTs =
    (ThreadLogViewCache.durationMs millisBetween startTs endTs).map Int.ofNat := by
  rw [durationMs, ThreadLogViewCache.durationMs, Option.map_map]
  congr 1
  funext ms
  by_cases hms : ms ≤ 0
  · simp [hms]
  · rw [Function.comp_apply, if_neg hms]
    simp only [Int.ofNat_eq_natCast]
    omega

theorem totalCompletedRuntimeMs_runs (p : String) (ms : List PhaseMark) :
    totalCompletedRuntimeMs (completedRuns millisBetween p ms ++ openRun p ms) =
      completedMs millisBetween p ms := by
  have hopen : (openRun p ms).filterMap PhaseRun.runtimeMs = [] := by
    rw [openRun]
    cases ms.getLast? with
    | none => rfl
    | some m => by_cases hname : m.name = some p <;> simp [hname, PhaseRun.new]
  rw [totalCompletedRuntimeMs, List.filterMap_append, hopen, List.append_nil]
  clear hopen
  fun_induction completedRuns millisBetween p ms with
  | case1 m n ms hname ih =>
    have hrun : (completedRun millisBetween m n).runtimeMs =
        (ThreadLogViewCache.durationMs millisBetween m.ts n.ts).map Int.ofNat :=
      durationMs_eq millisBetween m.ts n.ts
    rw [completedMs, if_pos hname, span, List.filterMap_cons, hrun]
    cases ThreadLogViewCache.durationMs millisBetween m.ts n.ts with
    | none => simpa using ih
    | some d => simpa using ih
  | case2 m n ms hname ih =>
    rw [completedMs, if_neg hname, Nat.zero_add]
    exact ih
  | case3 ms hshort =>
    cases ms with
    | nil => rfl
    | cons m ms =>
      cases ms with
      | nil => rfl
      | cons n ms => exact absurd rfl (hshort m n ms)

theorem completedMs_cons (p : String) (m n : PhaseMark) (ms : List PhaseMark) :
    completedMs millisBetween p (m :: n :: ms) =
      (if m.name = some p then span millisBetween m n else 0) +
        completedMs millisBetween p (n :: ms) := rfl

/-- In a chain, the first run of a phase is recorded when a step with a name completes it. -/
theorem recordedMs_cons {ms : List PhaseMark} {m n : PhaseMark}
    (hfollows : (m :: n :: ms).IsChain Follows) (hsource : m.source ≠ some p) :
    recordedMs millisBetween p (m :: n :: ms) =
      if m.name = some p then (if n.name.isSome then span millisBetween m n else 0)
      else recordedMs millisBetween p (n :: ms) := by
  have hnext : n.source = m.name := (List.isChain_cons_cons.mp hfollows).1.2
  have hleft : firstLeft p (m :: n :: ms) = firstLeft p (n :: ms) := by
    rw [firstLeft_cons, if_neg fun h => hsource h.2]
  rw [recordedMs, firstEntered_cons, hleft]
  by_cases hname : m.name = some p
  · rw [if_pos hname, if_pos hname, firstLeft_cons, hnext]
    by_cases hnamed : n.name.isSome = true
    · simp [hname, hnamed, span]
    · have hlast : ms = [] := last_of_blank hfollows (by simpa using hnamed)
      simp [hnamed, hlast, firstLeft]
  · rw [if_neg hname, if_neg hname, recordedMs]

/-- What the view records from the rest of a chain: nothing for a phase that was entered before. -/
def recordedAfter (entered : List String) (p : String) (ms : List PhaseMark) : Nat :=
  if p ∈ entered then 0 else recordedMs millisBetween p ms

section
variable {entered : List String} {q : String} (hfollows : (m :: n :: ms).IsChain Follows)
  (hsource : ∀ p, m.source = some p → p ∈ entered) (hq : m.name = some q)
include hfollows hsource hq

/-- A step that enters another phase changes nothing for a phase. -/
theorem recordedAfter_other (hpq : p ≠ q) :
    recordedAfter millisBetween entered p (m :: n :: ms) =
        completedMs millisBetween p (m :: n :: ms) ↔
      recordedAfter millisBetween (q :: entered) p (n :: ms) =
        completedMs millisBetween p (n :: ms) := by
  have hname : m.name ≠ some p := by simpa [hq] using hpq.symm
  have hrecorded : recordedAfter millisBetween entered p (m :: n :: ms) =
      recordedAfter millisBetween (q :: entered) p (n :: ms) := by
    by_cases hp : p ∈ entered
    · simp [recordedAfter, hp]
    · rw [recordedAfter, recordedAfter, if_neg hp, if_neg (by simp [hpq, hp]),
        recordedMs_cons millisBetween hfollows fun h => hp (hsource p h), if_neg hname]
  rw [hrecorded, completedMs_cons, if_neg hname, Nat.zero_add]

/-- A step that enters a phase adds the time up to the next step if it is the first to enter it and
the next one has a name. -/
theorem recordedAfter_self :
    recordedAfter millisBetween entered q (m :: n :: ms) =
        completedMs millisBetween q (m :: n :: ms) ↔
      (span millisBetween m n = 0 ∨ n.name.isSome = true ∧ q ∉ entered) ∧
        recordedAfter millisBetween (q :: entered) q (n :: ms) =
          completedMs millisBetween q (n :: ms) := by
  have hrecorded : recordedAfter millisBetween entered q (m :: n :: ms) =
      if n.name.isSome = true ∧ q ∉ entered then span millisBetween m n else 0 := by
    by_cases hp : q ∈ entered
    · simp [recordedAfter, hp]
    · rw [recordedAfter, if_neg hp,
        recordedMs_cons millisBetween hfollows fun h => hp (hsource q h), if_pos hq]
      simp [hp]
  have hagain : recordedAfter millisBetween (q :: entered) q (n :: ms) = 0 := by
    simp [recordedAfter]
  rw [hrecorded, hagain, completedMs_cons, if_pos hq]
  by_cases hfirst : n.name.isSome = true ∧ q ∉ entered
  · rw [if_pos hfirst]
    simp only [hfirst, not_false_eq_true, and_self, or_true, true_and]
    omega
  · rw [if_neg hfirst]
    simp only [hfirst, or_false]
    omega

end

/-- The view records the time of the completed runs exactly if only first runs take time. -/
theorem recorded_iff {entered : List String} {ms : List PhaseMark} (hfollows : ms.IsChain Follows)
    (hsource : ∀ m ∈ ms.head?, ∀ p, m.source = some p → p ∈ entered) :
    (∀ p, recordedAfter millisBetween entered p ms = completedMs millisBetween p ms) ↔
      OnlyFirstRuns millisBetween entered ms := by
  induction ms generalizing entered with
  | nil =>
    exact iff_of_true (fun p => by simp [recordedAfter, recordedMs, firstEntered, completedMs]) trivial
  | cons m ms ih =>
    have hbefore := hsource m rfl
    cases ms with
    | nil =>
      refine iff_of_true (fun p => ?_) trivial
      by_cases hp : p ∈ entered
      · simp [recordedAfter, hp, completedMs]
      · have hleft : firstLeft p [m] = none := by
          rw [firstLeft_cons, if_neg fun h => hp (hbefore p h.2)]
          rfl
        simp [recordedAfter, hp, recordedMs, hleft, completedMs]
    | cons n ms =>
      obtain ⟨⟨hnamed, hnext⟩, hrest⟩ := List.isChain_cons_cons.mp hfollows
      obtain ⟨q, hq⟩ := Option.isSome_iff_exists.mp hnamed
      have hsource' : ∀ o ∈ (n :: ms).head?, ∀ p, o.source = some p → p ∈ q :: entered := by
        intro o ho p hp
        obtain rfl := Option.some.inj ho
        rw [hnext, hq] at hp
        simp [Option.some.inj hp]
      have hself := recordedAfter_self millisBetween hfollows hbefore hq
      have hother := fun p => recordedAfter_other millisBetween (p := p) hfollows hbefore hq
      have hnew : (∀ p ∈ m.name, p ∉ entered) ↔ q ∉ entered := by simp [hq]
      have hentered : m.name.toList ++ entered = q :: entered := by simp [hq]
      rw [OnlyFirstRuns, hentered, ← ih hrest hsource', hnew]
      constructor
      · intro h
        refine ⟨(hself.mp (h q)).1, fun p => ?_⟩
        rcases eq_or_ne p q with rfl | hpq
        · exact (hself.mp (h p)).2
        · exact (hother p hpq).mp (h p)
      · rintro ⟨hfirst, h⟩ p
        rcases eq_or_ne p q with rfl | hpq
        · exact hself.mpr ⟨hfirst, h p⟩
        · exact (hother p hpq).mpr (h p)

end

/-- The record of each phase in the view fits its runs: a running phase has not finished, and the
runtime is that of the completed runs, for each phase and in total. -/
structure TimingAgrees (millisBetween : String → String → Option Int) (threadId : String)
    (log : ThreadLog) : Prop where
  running : ∀ p item,
    (ThreadLogViewCache.materializeStateFromLog millisBetween threadId log).items.get (phaseKey p) =
      some item → item.status = .running → item.finishedAt = none ∧ item.runtimeMs = none
  recorded : ∀ p,
    ((((ThreadLogViewCache.materializeStateFromLog millisBetween threadId log).items.get
      (phaseKey p)).bind ThreadItemState.runtimeMs).getD 0 : Int) =
        totalCompletedRuntimeMs (((phaseRunsFromSteps millisBetween log.steps).get p).getD [])
  total : ((ThreadLogViewCache.materializeStateFromLog millisBetween threadId log).totalRuntimeMs :
      Int) =
    ((phaseRunsFromSteps millisBetween log.steps).entries.map fun runs =>
      totalCompletedRuntimeMs runs.2).sum

/-- The phase in force was entered once, unless it is blocked, and no completed run takes time but
the first ones of each phase. -/
structure TimedOnce (millisBetween : String → String → Option Int) (steps : List ThreadStep) :
    Prop where
  entered : isBlocked steps = false → ∀ p ∈ phaseInForce steps,
    p ∉ ((marks steps).filterMap PhaseMark.name).dropLast
  firstRuns : OnlyFirstRuns millisBetween [] (marks steps)

section
variable (millisBetween : String → String → Option Int) (threadId : String) {log : ThreadLog}

theorem timesOf_items (hchain : Chained (marks log.steps))
    (hopen : ∀ step ∈ log.steps, step.isComplete = false) (p : String) :
    ((ThreadLogViewCache.materializeStateFromLog millisBetween threadId log).items.get
      (phaseKey p)).map ThreadItemState.times =
        ThreadLogViewCache.expectedTimes millisBetween log.steps p := by
  rw [ThreadLogViewCache.items_materializeStateFromLog]
  exact ThreadLogViewCache.timesOf_viewOf millisBetween threadId hchain hopen p

/-- What the view records for a phase. -/
theorem recorded_items (hchain : Chained (marks log.steps))
    (hopen : ∀ step ∈ log.steps, step.isComplete = false) (p : String) :
    (((ThreadLogViewCache.materializeStateFromLog millisBetween threadId log).items.get
      (phaseKey p)).bind ThreadItemState.runtimeMs).getD 0 =
        recordedMs millisBetween p (marks log.steps) := by
  have htimes := congrArg (fun t => t.bind ItemTimes.runtimeMs)
    (timesOf_items millisBetween threadId hchain hopen p)
  have hitem : ∀ item : Option ThreadItemState,
      (item.map ThreadItemState.times).bind ItemTimes.runtimeMs =
        item.bind ThreadItemState.runtimeMs := by
    intro item
    cases item <;> rfl
  rw [hitem] at htimes
  rw [htimes, recordedMs, ThreadLogViewCache.expectedTimes]
  cases firstEntered p (marks log.steps) <;> rfl

/-- A phase that runs has not finished exactly if it was entered once. -/
theorem running_iff (hchain : Chained (marks log.steps))
    (hopen : ∀ step ∈ log.steps, step.isComplete = false) :
    (∀ p item,
      (ThreadLogViewCache.materializeStateFromLog millisBetween threadId log).items.get
        (phaseKey p) = some item → item.status = .running →
          item.finishedAt = none ∧ item.runtimeMs = none) ↔
      (isBlocked log.steps = false → ∀ p ∈ phaseInForce log.steps,
        p ∉ ((marks log.steps).filterMap PhaseMark.name).dropLast) := by
  have hleft : ∀ p, p ∉ ((marks log.steps).filterMap PhaseMark.name).dropLast ↔
      firstLeft p (marks log.steps) = none := by
    intro p
    rw [← left_iff_mem_dropLast hchain.follows fun m hm => by simp [hchain.first m hm]]
    simp
  have htimes := timesOf_items millisBetween threadId hchain hopen
  simp only [hleft]
  constructor
  · intro h hblocked p hp
    obtain ⟨started, hstarted⟩ := Option.isSome_iff_exists.mp (entered_of_inForce log.steps hp)
    have hexpected := htimes p
    rw [ThreadLogViewCache.expectedTimes, hstarted, Option.map_some, Option.map_eq_some_iff]
      at hexpected
    obtain ⟨item, hitem, hitemTimes⟩ := hexpected
    have hrunning : item.times.running = true := by
      rw [hitemTimes]
      simp [Option.mem_def.mp hp, hblocked]
    have hfinished := (h p item hitem (of_decide_eq_true hrunning)).1
    change item.times.finishedAt = none at hfinished
    rwa [hitemTimes] at hfinished
  · intro h p item hitem hstatus
    have hexpected := htimes p
    rw [hitem, Option.map_some, ThreadLogViewCache.expectedTimes, eq_comm, Option.map_eq_some_iff]
      at hexpected
    obtain ⟨started, -, hitemTimes⟩ := hexpected
    have hrunning : item.times.running = true := decide_eq_true hstatus
    rw [← hitemTimes] at hrunning
    simp only [Bool.and_eq_true, decide_eq_true_eq, Bool.not_eq_true'] at hrunning
    have hnone := h hrunning.2 p hrunning.1
    change item.times.finishedAt = none ∧ item.times.runtimeMs = none
    rw [← hitemTimes]
    simp [hnone]

theorem sum_runtimes {items : List ThreadItemState} (h : ∀ item ∈ items, item.kind = .phase) :
    (((items.filterMap fun item =>
      if item.kind.asStr = "phase" then item.runtimeMs else none).sum : Nat) : Int) =
        (items.map fun item => (item.runtimeMs.getD 0 : Int)).sum := by
  induction items with
  | nil => rfl
  | cons item items ih =>
    have hkind : item.kind.asStr = "phase" := by rw [h item List.mem_cons_self]; rfl
    have ih := ih fun i hi => h i (List.mem_cons_of_mem item hi)
    rw [List.filterMap_cons, if_pos hkind, List.map_cons, List.sum_cons, ← ih]
    cases item.runtimeMs <;> simp

/-- Every item of the view is one of a phase. -/
theorem keys_items (log : ThreadLog) :
    ∀ k ∈ (ThreadLogViewCache.materializeStateFromLog millisBetween threadId log).items.keys,
      k ∈ Set.range phaseKey := by
  intro k hk
  rw [ThreadLogViewCache.items_materializeStateFromLog] at hk
  obtain ⟨p, rfl⟩ := ThreadLogViewCache.onlyPhases_viewOf millisBetween threadId log.steps k hk
  exact ⟨p, rfl⟩

theorem kind_items (hchain : Chained (marks log.steps))
    (hopen : ∀ step ∈ log.steps, step.isComplete = false) :
    ∀ item ∈ (ThreadLogViewCache.materializeStateFromLog millisBetween threadId
      log).items.entries.map Prod.snd, item.kind = .phase := by
  intro item hitem
  obtain ⟨⟨k, item⟩, hentry, rfl⟩ := List.mem_map.mp hitem
  have hget := SortedMap.get_of_mem_entries hentry
  obtain ⟨p, rfl⟩ := keys_items millisBetween threadId log k
    (SortedMap.mem_keys.mpr (by rw [hget]; rfl))
  have htimes := timesOf_items millisBetween threadId hchain hopen p
  rw [hget, Option.map_some, ThreadLogViewCache.expectedTimes, eq_comm, Option.map_eq_some_iff]
    at htimes
  obtain ⟨started, -, htimes⟩ := htimes
  exact (congrArg ItemTimes.kind htimes).symm

/-- The total of the view, phase by phase. -/
theorem total_items (hchain : Chained (marks log.steps))
    (hopen : ∀ step ∈ log.steps, step.isComplete = false)
    (hrecorded : ∀ p, (recordedMs millisBetween p (marks log.steps) : Int) =
      totalCompletedRuntimeMs (((phaseRunsFromSteps millisBetween log.steps).get p).getD [])) :
    ((ThreadLogViewCache.materializeStateFromLog millisBetween threadId log).totalRuntimeMs : Int) =
      ((phaseRunsFromSteps millisBetween log.steps).entries.map fun runs =>
        totalCompletedRuntimeMs runs.2).sum := by
  have hitems := recorded_items millisBetween threadId hchain hopen
  have hkind := kind_items millisBetween threadId hchain hopen
  have hkeys := keys_items millisBetween threadId log
  have htotal : (ThreadLogViewCache.materializeStateFromLog millisBetween threadId
      log).totalRuntimeMs = (((ThreadLogViewCache.materializeStateFromLog millisBetween threadId
        log).items.entries.map Prod.snd).filterMap fun item =>
          if item.kind.asStr = "phase" then item.runtimeMs else none).sum := rfl
  rw [htotal]
  generalize (ThreadLogViewCache.materializeStateFromLog millisBetween threadId log).items = items
    at *
  obtain ⟨entered, hentered⟩ : ∃ entered, List.map phaseKey entered = items.keys := by
    rw [← Set.mem_range, Set.range_list_map]
    exact hkeys
  have hinj : Function.Injective phaseKey := fun p q h => phaseKey_inj.mp h
  have hsum := SortedMap.sum_entries_eq hinj hentered.symm
    (f := fun item => ((item.bind ThreadItemState.runtimeMs).getD 0 : Int))
    (g := fun r => totalCompletedRuntimeMs (r.getD [])) rfl rfl
    fun p => (congrArg Nat.cast (hitems p)).trans (hrecorded p)
  rw [sum_runtimes hkind, List.map_map]
  exact hsum

/-- In a chain of phase steps, the record of each phase fits its runs exactly if the phase in force
was entered once, unless it is blocked, and only the first run of a phase takes time. -/
theorem phase_timing_iff (log : ThreadLog) (hchain : Chained (marks log.steps))
    (hopen : ∀ step ∈ log.steps, step.isComplete = false) :
    TimingAgrees millisBetween threadId log ↔ TimedOnce millisBetween log.steps := by
  have hfirst : ∀ m ∈ (marks log.steps).head?, ∀ p, m.source = some p → p ∈ ([] : List String) := by
    intro m hm p hp
    simp [hchain.first m hm] at hp
  have hiff := recorded_iff millisBetween hchain.follows hfirst
  simp only [recordedAfter, List.not_mem_nil, if_false] at hiff
  have hruns : ∀ p, (recordedMs millisBetween p (marks log.steps) : Int) =
      totalCompletedRuntimeMs (((phaseRunsFromSteps millisBetween log.steps).get p).getD []) ↔
        recordedMs millisBetween p (marks log.steps) = completedMs millisBetween p (marks log.steps) := by
    intro p
    rw [get_phaseRunsFromSteps millisBetween hchain, totalCompletedRuntimeMs_runs]
    exact Int.ofNat_inj
  constructor
  · intro h
    refine ⟨(running_iff millisBetween threadId hchain hopen).mp h.running, hiff.mp fun p => ?_⟩
    rw [← hruns p, ← recorded_items millisBetween threadId hchain hopen p]
    exact h.recorded p
  · intro h
    have hrecorded := fun p => (hruns p).mpr (hiff.mpr h.firstRuns p)
    refine ⟨(running_iff millisBetween threadId hchain hopen).mpr h.entered, fun p => ?_,
      total_items millisBetween threadId hchain hopen hrecorded⟩
    rw [recorded_items millisBetween threadId hchain hopen p]
    exact hrecorded p

end

/-- The milliseconds between two times of the first minute of a day. -/
def firstMinute (startTs endTs : String) : Option Int := do
  let read (ts : String) : Option Int :=
    if ts = "2026-01-01T00:00:00Z" then some 0
    else if ts = "2026-01-01T00:00:20Z" then some 20000
    else if ts = "2026-01-01T00:00:50Z" then some 50000
    else none
  return (← read endTs) - (← read startTs)

def phaseStep (phase : String) (fromPhase : Option String) (ts : String) : ThreadStep :=
  .phase phase fromPhase none none ⟨true, [], []⟩ ts "agent"

/-- A phase, and another one after it. -/
def planAuthor : List ThreadStep :=
  [phaseStep "plan" none "2026-01-01T00:00:00Z",
    phaseStep "author" (some "plan") "2026-01-01T00:00:20Z"]

def planAuthorLog : ThreadLog := { ThreadLog.default with steps := planAuthor }

/-- The first run of the plan is completed, and the author is at work. -/
theorem phase_timing_planAuthor : TimingAgrees firstMinute "t" planAuthorLog :=
  (phase_timing_iff firstMinute "t" planAuthorLog
    ⟨by decide, by decide⟩ (by decide)).mpr ⟨by decide, by decide⟩

/-- The plan is revisited: it runs, and its record says that it has finished. -/
def revisitedLog : ThreadLog :=
  { ThreadLog.default with
    steps := planAuthor ++ [phaseStep "plan" (some "author") "2026-01-01T00:00:50Z"] }

theorem phase_timing_revisited : Chained (marks revisitedLog.steps) ∧
    (∀ step ∈ revisitedLog.steps, step.isComplete = false) ∧
      ¬ TimingAgrees firstMinute "t" revisitedLog := by
  have hchain : Chained (marks revisitedLog.steps) := ⟨by decide, by decide⟩
  have hopen : ∀ step ∈ revisitedLog.steps, step.isComplete = false := by decide
  refine ⟨hchain, hopen, fun h => ?_⟩
  have hentered := (running_iff firstMinute "t" hchain hopen).mp h.running (by decide)
  revert hentered
  decide

end ReactRuntime.Transport
