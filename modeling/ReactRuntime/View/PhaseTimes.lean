import Mathlib.Data.List.Chain
import ReactRuntime.View.CurrentPhase

/-!
# The times of a phase in the view

The item of a phase has the time at which the phase was first entered, the time at which it was
first left, and the milliseconds between the two. In a chain every phase step names the phase of the
phase step before it.
-/
namespace ReactRuntime.Session
open ReactRuntime.Core View

/-- A phase step, as it is read: the phase that it leaves and the phase that it enters. -/
structure PhaseMark where
  source : Option String
  name : Option String
  ts : String
deriving DecidableEq, Repr

namespace ThreadStep

def mark : ThreadStep → Option PhaseMark
  | .phase name fromPhase _ _ _ ts _ => some ⟨fromPhase.bind trimmed, trimmed name, ts⟩
  | _ => none

/-- The step that ends a thread. -/
def isComplete : ThreadStep → Bool
  | .complete .. => true
  | _ => false

/-- A step that blocks the current phase. -/
def blocks : ThreadStep → Bool
  | .interrupt .. | .guardBlock .. | .runLoopStop .. => true
  | _ => false

end ThreadStep

/-- The phase steps of a log. -/
def marks (steps : List ThreadStep) : List PhaseMark := steps.filterMap ThreadStep.mark

/-- A blocking step came after the last phase was entered. -/
def isBlocked (steps : List ThreadStep) : Bool :=
  (steps.filter fun step => step.blocks || step.phaseName.isSome).getLast?.any ThreadStep.blocks

namespace PhaseMark

/-- The next phase step names the phase of this one. -/
def Follows (m n : PhaseMark) : Prop := m.name.isSome ∧ n.source = m.name

instance : DecidableRel Follows := fun m n =>
  inferInstanceAs (Decidable (m.name.isSome ∧ n.source = m.name))

def firstEntered (phase : String) (ms : List PhaseMark) : Option String :=
  (ms.find? fun m => m.name = some phase).map PhaseMark.ts

/-- The step that leaves a phase has to enter one. -/
def firstLeft (phase : String) (ms : List PhaseMark) : Option String :=
  (ms.find? fun m => m.name.isSome && m.source = some phase).map PhaseMark.ts

end PhaseMark
open PhaseMark

/-- The phase steps form a chain that starts from no phase. -/
structure Chained (ms : List PhaseMark) : Prop where
  first : ∀ m ∈ ms.head?, m.source = none
  follows : ms.IsChain Follows

section
variable {ms : List PhaseMark} {m : PhaseMark} {p : String}

theorem firstEntered_concat (p : String) (ms : List PhaseMark) (m : PhaseMark) :
    firstEntered p (ms ++ [m]) =
      (firstEntered p ms).or (if m.name = some p then some m.ts else none) := by
  rw [firstEntered, List.find?_append, Option.map_or]
  congr 1
  by_cases hname : m.name = some p <;> simp [hname]

theorem firstLeft_concat (p : String) (ms : List PhaseMark) (m : PhaseMark) :
    firstLeft p (ms ++ [m]) =
      (firstLeft p ms).or (if m.name.isSome && m.source = some p then some m.ts else none) := by
  rw [firstLeft, List.find?_append, Option.map_or]
  congr 1
  by_cases hname : m.name.isSome = true <;> by_cases hsource : m.source = some p <;>
    simp [hname, hsource]

theorem Chained.left (h : Chained (ms ++ [m])) : Chained ms := by
  constructor
  · intro n hn
    apply h.first n
    rw [List.head?_append, Option.mem_def.mp hn]
    rfl
  · exact h.follows.left_of_append

/-- A step leaves the phase of the step before it. -/
theorem Chained.source_eq (h : Chained (ms ++ [m])) : m.source = ms.getLast?.bind PhaseMark.name := by
  cases hlast : ms.getLast? with
  | none =>
    rw [List.getLast?_eq_none_iff] at hlast
    subst hlast
    exact h.first m rfl
  | some n =>
    have hfollows := (List.isChain_append.mp h.follows).2.2 n hlast m rfl
    exact hfollows.2

theorem isSome_firstEntered : (firstEntered p ms).isSome = true ↔ ∃ m ∈ ms, m.name = some p := by
  simp [firstEntered]

/-- A phase that a step leaves has been entered. -/
theorem Chained.entered_of_source (h : Chained (ms ++ [m])) (hsource : m.source = some p) :
    (firstEntered p ms).isSome = true := by
  rw [h.source_eq, Option.bind_eq_some_iff] at hsource
  obtain ⟨n, hlast, hname⟩ := hsource
  exact isSome_firstEntered.mpr ⟨n, List.mem_of_getLast? hlast, hname⟩

theorem Chained.entered_of_left (h : Chained ms) (hleft : (firstLeft p ms).isSome = true) :
    (firstEntered p ms).isSome = true := by
  induction ms using List.reverseRecOn with
  | nil => simp [firstLeft] at hleft
  | append_singleton ms m ih =>
    rw [firstLeft_concat, Option.isSome_or, Bool.or_eq_true] at hleft
    rw [firstEntered_concat, Option.isSome_or, Bool.or_eq_true]
    left
    rcases hleft with hbefore | hnow
    · exact ih h.left hbefore
    · by_cases hsource : (m.name.isSome && decide (m.source = some p)) = true
      · simp only [Bool.and_eq_true, decide_eq_true_eq] at hsource
        exact h.entered_of_source hsource.2
      · simp [hsource] at hnow

theorem firstEntered_cons (p : String) (m : PhaseMark) (ms : List PhaseMark) :
    firstEntered p (m :: ms) = if m.name = some p then some m.ts else firstEntered p ms := by
  by_cases hname : m.name = some p <;> simp [firstEntered, hname]

theorem firstLeft_cons (p : String) (m : PhaseMark) (ms : List PhaseMark) :
    firstLeft p (m :: ms) =
      if m.name.isSome = true ∧ m.source = some p then some m.ts else firstLeft p ms := by
  by_cases hleft : m.name.isSome = true ∧ m.source = some p
  · simp [firstLeft, hleft]
  · simp [firstLeft, hleft]

/-- Only the last step of a chain can be blank. -/
theorem last_of_blank {m n : PhaseMark} {ms : List PhaseMark}
    (h : (m :: n :: ms).IsChain Follows) (hblank : n.name = none) : ms = [] := by
  cases ms with
  | nil => rfl
  | cons o ms =>
    have hnamed := (List.isChain_cons_cons.mp (List.isChain_cons_cons.mp h).2).1.1
    simp [hblank] at hnamed

/-- A phase has been left exactly if another one, or the same again, was entered after it. -/
theorem left_iff_mem_dropLast {ms : List PhaseMark} (hfollows : ms.IsChain Follows)
    (hsource : ∀ m ∈ ms.head?, m.source ≠ some p) :
    (firstLeft p ms).isSome = true ↔ p ∈ (ms.filterMap PhaseMark.name).dropLast := by
  induction ms with
  | nil => simp [firstLeft]
  | cons m ms ih =>
    have hm : m.source ≠ some p := hsource m rfl
    rw [firstLeft_cons, if_neg fun h => hm h.2]
    cases ms with
    | nil => cases hname : m.name <;> simp [firstLeft, hname]
    | cons n ms =>
      obtain ⟨⟨hnamed, hnext⟩, hrest⟩ := List.isChain_cons_cons.mp hfollows
      obtain ⟨q, hq⟩ := Option.isSome_iff_exists.mp hnamed
      cases hname : n.name with
      | none =>
        obtain rfl := last_of_blank hfollows hname
        simp [firstLeft, hq, hname]
      | some r =>
        have hnames : ((m :: n :: ms).filterMap PhaseMark.name).dropLast =
            q :: ((n :: ms).filterMap PhaseMark.name).dropLast := by
          simp [hq, hname]
        rw [hnames, List.mem_cons]
        rcases eq_or_ne p q with rfl | hpq
        · rw [firstLeft_cons, hnext, hq]
          simp [hname]
        · have hn : n.source ≠ some p := by simpa [hnext, hq] using hpq.symm
          rw [ih hrest fun o ho => by obtain rfl := Option.some.inj ho; exact hn]
          simp [hpq]

end

section
variable (steps : List ThreadStep) (step : ThreadStep)

theorem marks_concat : marks (steps ++ [step]) = marks steps ++ step.mark.toList := by
  rw [marks, List.filterMap_append]
  cases hmark : step.mark <;> simp [marks, hmark]

theorem isBlocked_concat : isBlocked (steps ++ [step]) =
    if step.blocks then true else if step.phaseName.isSome then false else isBlocked steps := by
  rw [isBlocked, List.filter_append]
  by_cases hblocks : step.blocks
  · simp [hblocks]
  · by_cases hname : step.phaseName.isSome
    · simp [hblocks, hname]
    · simp [hblocks, hname, isBlocked]

theorem ThreadStep.phaseName_eq : step.phaseName = step.mark.bind PhaseMark.name := by
  cases step <;> simp [phaseName, mark]

theorem ThreadStep.not_blocks_of_mark {m : PhaseMark} (h : step.mark = some m) :
    step.blocks = false := by
  cases step <;> simp_all [mark, blocks]

theorem phaseInForce_eq_names :
    phaseInForce steps = ((marks steps).filterMap PhaseMark.name).getLast? := by
  rw [phaseInForce, marks, List.filterMap_filterMap]
  congr 2
  funext step
  exact step.phaseName_eq

/-- A step of a chain leaves the phase in force. -/
theorem Chained.source_eq_inForce {m : PhaseMark} (h : Chained (marks steps ++ [m])) :
    m.source = phaseInForce steps := by
  rw [phaseInForce_eq_names]
  revert h
  cases marks steps using List.reverseRecOn with
  | nil => exact fun h => h.first m rfl
  | append_singleton ms n =>
    intro h
    have hfollows := (List.isChain_append.mp h.follows).2.2 n (by simp) m rfl
    obtain ⟨q, hq⟩ := Option.isSome_iff_exists.mp hfollows.1
    simp [hfollows.2, hq]

/-- The phase in force has been entered. -/
theorem entered_of_inForce {p : String} (h : phaseInForce steps = some p) :
    (firstEntered p (marks steps)).isSome = true := by
  rw [phaseInForce] at h
  obtain ⟨step, hstep, hname⟩ := List.mem_filterMap.mp (List.mem_of_getLast? h)
  rw [step.phaseName_eq, Option.bind_eq_some_iff] at hname
  obtain ⟨m, hmark, hname⟩ := hname
  exact isSome_firstEntered.mpr ⟨m, List.mem_filterMap.mpr ⟨step, hstep, hmark⟩, hname⟩

end
end ReactRuntime.Session

namespace ReactRuntime.View
open Library ReactRuntime.Core Session PhaseMark

/-- What an item says about time. -/
structure ItemTimes where
  kind : ThreadItemKind
  startedAt : Option String
  finishedAt : Option String
  runtimeMs : Option Nat
  running : Bool
deriving DecidableEq, Repr

def ThreadItemState.times (item : ThreadItemState) : ItemTimes :=
  ⟨item.kind, item.startedAt, item.finishedAt, item.runtimeMs, item.status = .running⟩

theorem phaseKey_inj {p q : String} : phaseKey p = phaseKey q ↔ p = q := by
  rw [phaseKey, phaseKey, ← String.toList_inj, ← String.toList_inj]
  simp

namespace ThreadLogViewCache
variable (millisBetween : String → String → Option Int)

/-- The times of a phase in a view. -/
def timesOf (st : ThreadLogViewCache) (p : String) : Option ItemTimes :=
  (st.items.get (phaseKey p)).map ThreadItemState.times

/-- The times of a phase that was entered. -/
def expectedTimes (steps : List ThreadStep) (p : String) : Option ItemTimes :=
  (firstEntered p (marks steps)).map fun started =>
    { kind := .phase
      startedAt := some started
      finishedAt := firstLeft p (marks steps)
      runtimeMs := (firstLeft p (marks steps)).bind (durationMs millisBetween started)
      running := phaseInForce steps = some p && !isBlocked steps }

theorem timesOf_updateItem {st : ThreadLogViewCache} {q : String} {fresh : ThreadItemState}
    {update : ThreadItemState → ThreadItemState} (change : ItemTimes → ItemTimes)
    (hchange : ∀ item, (update item).times = change item.times) (p : String) :
    (st.updateItem (phaseKey q) fresh update).timesOf p =
      if p = q then some (change ((st.timesOf q).getD fresh.times)) else st.timesOf p := by
  have hfresh : ((st.items.get (phaseKey q)).getD fresh).times = (st.timesOf q).getD fresh.times := by
    rw [timesOf]
    cases st.items.get (phaseKey q) <;> rfl
  rw [timesOf, updateItem, SortedMap.get_insert]
  by_cases hpq : p = q
  · subst hpq
    rw [if_pos rfl, if_pos rfl, Option.map_some, hchange, hfresh]
  · rw [if_neg (by rwa [phaseKey_inj]), if_neg hpq, timesOf]

/-- How a step that leaves a phase changes its times. -/
def left (ts : String) (t : ItemTimes) : ItemTimes :=
  let finishedAt := t.finishedAt.or (some ts)
  { kind := .phase
    startedAt := t.startedAt
    finishedAt := finishedAt
    runtimeMs := t.runtimeMs.or
      (t.startedAt.bind fun started => finishedAt.bind (durationMs millisBetween started))
    running := false }

/-- How a step that enters a phase changes its times. -/
def entered (ts : String) (t : ItemTimes) : ItemTimes :=
  { t with kind := .phase, startedAt := t.startedAt.or (some ts), running := true }

/-- How a step that blocks a phase changes its times. -/
def blocked (t : ItemTimes) : ItemTimes := { t with kind := .phase, running := false }

theorem timesOf_leavePhase (st : ThreadLogViewCache) (fromPhase : Option String) (ts p : String) :
    (st.leavePhase millisBetween fromPhase ts).timesOf p =
      if fromPhase.bind trimmed = some p then
        some (left millisBetween ts ((st.timesOf p).getD (ThreadItemState.phaseFinished ts).times))
      else st.timesOf p := by
  have hleft : ∀ item : ThreadItemState, (withRuntime millisBetween { item with
      kind := .phase, status := .ok, finishedAt := item.finishedAt.or (some ts) }).times =
        left millisBetween ts item.times := by
    intro item
    cases hruntime : item.runtimeMs <;> cases hstarted : item.startedAt <;>
      cases hfinished : item.finishedAt <;>
      simp [withRuntime, left, ThreadItemState.times, hruntime, hstarted, hfinished]
  rw [leavePhase]
  cases fromPhase.bind trimmed with
  | none => simp
  | some q =>
    rw [timesOf_updateItem (left millisBetween ts) hleft]
    by_cases hpq : p = q
    · simp [hpq]
    · simp [hpq, Ne.symm hpq]

theorem timesOf_blockCurrentPhase (st : ThreadLogViewCache) (msg ts p : String) :
    (st.blockCurrentPhase msg ts).timesOf p =
      if st.currentPhase = some p then
        some (blocked ((st.timesOf p).getD (ThreadItemState.phaseBlocked ts).times))
      else st.timesOf p := by
  rw [blockCurrentPhase]
  cases st.currentPhase with
  | none => simp
  | some q =>
    rw [timesOf_updateItem blocked fun item => rfl]
    by_cases hpq : p = q
    · simp [hpq]
    · simp [hpq, Ne.symm hpq]

/-- A step of another kind changes the times of the current phase only, and only if it blocks. -/
theorem timesOf_applyStep_other {st : ThreadLogViewCache} {step : ThreadStep}
    (hmark : step.mark = none) (hopen : step.isComplete = false)
    (hcurrent : ∀ q, st.currentPhase = some q → (st.timesOf q).isSome = true) (p : String) :
    (st.applyStepToState millisBetween 0 step).timesOf p =
      (st.timesOf p).map fun t =>
        if step.blocks && st.currentPhase = some p then blocked t else t := by
  have hblock : ∀ msg ts, (st.blockCurrentPhase msg ts).timesOf p =
      (st.timesOf p).map fun t => if st.currentPhase = some p then blocked t else t := by
    intro msg ts
    rw [timesOf_blockCurrentPhase]
    by_cases hp : st.currentPhase = some p
    · obtain ⟨t, ht⟩ := Option.isSome_iff_exists.mp (hcurrent p hp)
      simp [hp, ht]
    · simp [hp]
  cases step with
  | phase => simp [ThreadStep.mark] at hmark
  | complete => simp [ThreadStep.isComplete] at hopen
  | switchSuite source target observation ts agent =>
    have hsame : (st.applyStepToState millisBetween 0
        (.switchSuite source target observation ts agent)).timesOf p = st.timesOf p := by
      simp only [applyStepToState]
      split_ifs <;> rfl
    simp [hsame, ThreadStep.blocks]
  | switchAgent source target observation ts agent =>
    have hsame : (st.applyStepToState millisBetween 0
        (.switchAgent source target observation ts agent)).timesOf p = st.timesOf p := by
      simp only [applyStepToState]
      split_ifs <;> rfl
    simp [hsame, ThreadStep.blocks]
  | interrupt kind prompt observation ts agent =>
    simpa [ThreadStep.blocks, applyStepToState] using hblock prompt ts
  | guardBlock phase kind reason observation ts agent =>
    simpa [ThreadStep.blocks, applyStepToState] using hblock reason ts
  | runLoopStop kind reason observation ts agent =>
    simpa [ThreadStep.blocks, applyStepToState] using hblock reason ts
  | checkpoint kind payload display observation ts agent =>
    simp only [applyStepToState]
    cases hphase : st.currentPhase with
    | none => simp [ThreadStep.blocks]
    | some q =>
      obtain ⟨t, ht⟩ := Option.isSome_iff_exists.mp (hcurrent q hphase)
      dsimp only
      rw [timesOf_updateItem id fun item => by cases display <;> rfl]
      by_cases hpq : p = q
      · subst hpq
        simp [ht, ThreadStep.blocks]
      · simp [hpq, ThreadStep.blocks]
  | _ => simp [applyStepToState, ThreadStep.blocks]

theorem expectedTimes_concat_other {steps : List ThreadStep} {step : ThreadStep}
    (hmark : step.mark = none) (p : String) : expectedTimes millisBetween (steps ++ [step]) p =
      (expectedTimes millisBetween steps p).map fun t =>
        if step.blocks && phaseInForce steps = some p then blocked t else t := by
  have hname : step.phaseName = none := by
    cases step <;> simp_all [ThreadStep.mark, ThreadStep.phaseName]
  simp only [expectedTimes, marks_concat, hmark, Option.toList_none, List.append_nil,
    phaseInForce_concat, hname, Option.none_or, isBlocked_concat, Option.map_map]
  congr 1
  funext started
  by_cases hblocks : step.blocks = true <;> by_cases hp : phaseInForce steps = some p <;>
    simp [hblocks, hp, blocked]

/-- A blank phase step changes nothing. -/
theorem expectedTimes_concat_blank {steps : List ThreadStep} {step : ThreadStep} {m : PhaseMark}
    (hmark : step.mark = some m) (hname : m.name = none) (p : String) :
    expectedTimes millisBetween (steps ++ [step]) p = expectedTimes millisBetween steps p := by
  have hphase : step.phaseName = none := by rw [step.phaseName_eq, hmark, Option.bind_some, hname]
  simp [expectedTimes, marks_concat, hmark, firstEntered_concat, firstLeft_concat, hname,
    phaseInForce_concat, hphase, isBlocked_concat, step.not_blocks_of_mark hmark]

/-- A phase step of a chain leaves one phase and enters another, or the same again. -/
theorem expectedTimes_concat_enter {steps : List ThreadStep} {step : ThreadStep} {m : PhaseMark}
    {q : String} (hmark : step.mark = some m) (hname : m.name = some q)
    (hchain : Chained (marks steps ++ [m])) (p : String) :
    expectedTimes millisBetween (steps ++ [step]) p =
      let t := if m.source = some p then
          (expectedTimes millisBetween steps p).map (left millisBetween m.ts)
        else expectedTimes millisBetween steps p
      if p = q then some (entered m.ts (t.getD (ThreadItemState.phaseRunning m.ts).times))
      else t := by
  have hphase : step.phaseName = some q := by rw [step.phaseName_eq, hmark, Option.bind_some, hname]
  have hentered := hchain.left.entered_of_left (p := p)
  have hinForce := hchain.source_eq_inForce
  simp only [expectedTimes, marks_concat, hmark, Option.toList_some, firstEntered_concat,
    firstLeft_concat, hname, phaseInForce_concat, hphase, isBlocked_concat,
    step.not_blocks_of_mark hmark, ← hinForce]
  by_cases hsource : m.source = some p
  · obtain ⟨started, hstarted⟩ := Option.isSome_iff_exists.mp (hchain.entered_of_source hsource)
    rcases eq_or_ne q p with rfl | hqp <;> cases hleft : firstLeft _ (marks steps)
    · simp [hsource, hstarted, left, entered]
    · simp [hsource, hstarted, left, entered]
    · simp [hsource, hstarted, left, hqp, hqp.symm]
    · simp [hsource, hstarted, left, hqp, hqp.symm]
  · rcases eq_or_ne q p with rfl | hqp <;> cases hstarted : firstEntered _ (marks steps)
    · have hleft : firstLeft q (marks steps) = none := by simpa [hstarted] using hentered
      simp [hsource, hleft, entered, ThreadItemState.phaseRunning, ThreadItemState.times]
    · simp [hsource, entered]
    · simp [hsource, hqp, hqp.symm]
    · simp [hsource, hqp, hqp.symm]

theorem timesOf_applyStep_blank {st : ThreadLogViewCache} {step : ThreadStep} {m : PhaseMark}
    (hmark : step.mark = some m) (hname : m.name = none) (p : String) :
    (st.applyStepToState millisBetween 0 step).timesOf p = st.timesOf p := by
  cases step with
  | phase phase fromPhase reasonCode reasonDetail observation ts agent =>
    obtain rfl := Option.some.inj hmark
    have hblank : trimmed phase = none := by simpa only using hname
    simp [applyStepToState, hblank]
  | _ => simp [ThreadStep.mark] at hmark

theorem timesOf_applyStep_enter {st : ThreadLogViewCache} {step : ThreadStep} {m : PhaseMark}
    {q : String} (hmark : step.mark = some m) (hname : m.name = some q)
    (hsource : ∀ p, m.source = some p → (st.timesOf p).isSome = true) (p : String) :
    (st.applyStepToState millisBetween 0 step).timesOf p =
      let t := if m.source = some p then (st.timesOf p).map (left millisBetween m.ts)
        else st.timesOf p
      if p = q then some (entered m.ts (t.getD (ThreadItemState.phaseRunning m.ts).times))
      else t := by
  cases step with
  | phase phase fromPhase reasonCode reasonDetail observation ts agent =>
    obtain rfl := Option.some.inj hmark
    have htarget : trimmed phase = some q := by simpa only using hname
    have hleave : ∀ p, (st.leavePhase millisBetween fromPhase ts).timesOf p =
        if fromPhase.bind trimmed = some p then (st.timesOf p).map (left millisBetween ts)
        else st.timesOf p := by
      intro p
      rw [timesOf_leavePhase]
      by_cases hp : fromPhase.bind trimmed = some p
      · obtain ⟨t, ht⟩ := Option.isSome_iff_exists.mp (hsource p hp)
        simp [hp, ht]
      · simp [hp]
    have henter : ((st.leavePhase millisBetween fromPhase ts).updateItem (phaseKey q)
        (.phaseRunning ts) fun item => { item with
          kind := .phase, status := .running, startedAt := item.startedAt.or (some ts) }).timesOf p =
        _ := timesOf_updateItem (entered ts) (fun item => rfl) p
    rw [hleave, hleave] at henter
    simp only [applyStepToState, htarget]
    refine Eq.trans henter ?_
    rcases eq_or_ne p q with rfl | hpq
    · simp
    · simp [hpq]
  | _ => simp [ThreadStep.mark] at hmark

/-- The view of a chain has the times of each phase that was entered. -/
theorem timesOf_viewOf (threadId : String) {steps : List ThreadStep}
    (hchain : Chained (marks steps)) (hopen : ∀ step ∈ steps, step.isComplete = false)
    (p : String) :
    (viewOf millisBetween threadId steps).timesOf p = expectedTimes millisBetween steps p := by
  induction steps using List.reverseRecOn generalizing p with
  | nil => rfl
  | append_singleton steps step ih =>
    rw [marks_concat] at hchain
    have hbefore : ∀ s ∈ steps, s.isComplete = false :=
      fun s hs => hopen s (List.mem_append_left [step] hs)
    have hstep : step.isComplete = false := hopen step (by simp)
    rw [viewOf_concat]
    cases hmark : step.mark with
    | none =>
      rw [hmark, Option.toList_none, List.append_nil] at hchain
      have hcurrent : ∀ q, (viewOf millisBetween threadId steps).currentPhase = some q →
          ((viewOf millisBetween threadId steps).timesOf q).isSome = true := by
        intro q hq
        rw [currentPhase_viewOf] at hq
        rw [ih hchain hbefore, expectedTimes, Option.isSome_map]
        exact entered_of_inForce steps hq
      rw [timesOf_applyStep_other millisBetween hmark hstep hcurrent, ih hchain hbefore,
        expectedTimes_concat_other millisBetween hmark, currentPhase_viewOf]
    | some m =>
      rw [hmark, Option.toList_some] at hchain
      have ih := ih hchain.left hbefore
      cases hname : m.name with
      | none =>
        rw [timesOf_applyStep_blank millisBetween hmark hname, ih,
          expectedTimes_concat_blank millisBetween hmark hname]
      | some q =>
        have hsource : ∀ p, m.source = some p →
            ((viewOf millisBetween threadId steps).timesOf p).isSome = true := by
          intro p hp
          rw [ih, expectedTimes, Option.isSome_map]
          exact hchain.entered_of_source hp
        rw [timesOf_applyStep_enter millisBetween hmark hname hsource, ih,
          expectedTimes_concat_enter millisBetween hmark hname hchain]

def OnlyPhases (st : ThreadLogViewCache) : Prop := ∀ k ∈ st.items.keys, ∃ p, k = phaseKey p

theorem OnlyPhases.updateItem {st : ThreadLogViewCache} (h : st.OnlyPhases) (q : String)
    (fresh : ThreadItemState) (update : ThreadItemState → ThreadItemState) :
    (st.updateItem (phaseKey q) fresh update).OnlyPhases := by
  intro k hk
  rw [ThreadLogViewCache.updateItem, SortedMap.mem_keys, SortedMap.get_insert] at hk
  by_cases heq : k = phaseKey q
  · exact ⟨q, heq⟩
  · rw [if_neg heq] at hk
    exact h k (SortedMap.mem_keys.mpr hk)

theorem OnlyPhases.leavePhase {st : ThreadLogViewCache} (h : st.OnlyPhases)
    (fromPhase : Option String) (ts : String) :
    (st.leavePhase millisBetween fromPhase ts).OnlyPhases := by
  rw [ThreadLogViewCache.leavePhase]
  cases fromPhase.bind trimmed with
  | none => exact h
  | some q => exact h.updateItem q _ _

theorem OnlyPhases.blockCurrentPhase {st : ThreadLogViewCache} (h : st.OnlyPhases)
    (msg ts : String) : (st.blockCurrentPhase msg ts).OnlyPhases := by
  rw [ThreadLogViewCache.blockCurrentPhase]
  cases st.currentPhase with
  | none => exact h
  | some q => exact h.updateItem q _ _

theorem OnlyPhases.applyStepToState {st : ThreadLogViewCache} (h : st.OnlyPhases)
    (step : ThreadStep) : (st.applyStepToState millisBetween 0 step).OnlyPhases := by
  cases step with
  | switchSuite source target =>
    simp only [ThreadLogViewCache.applyStepToState]
    split_ifs <;> exact h
  | switchAgent source target =>
    simp only [ThreadLogViewCache.applyStepToState]
    split_ifs <;> exact h
  | phase phase fromPhase reasonCode reasonDetail observation ts agent =>
    simp only [ThreadLogViewCache.applyStepToState]
    cases trimmed phase with
    | none => exact h
    | some q =>
      have hentered := (h.leavePhase millisBetween fromPhase ts).updateItem q (.phaseRunning ts)
        fun item => { item with
          kind := .phase, status := .running, startedAt := item.startedAt.or (some ts) }
      exact hentered
  | complete kind payload display observation ts =>
    simp only [ThreadLogViewCache.applyStepToState]
    cases st.currentPhase.bind trimmed with
    | none => exact h
    | some q => exact h.updateItem q _ _
  | checkpoint kind payload display observation ts =>
    simp only [ThreadLogViewCache.applyStepToState]
    cases st.currentPhase with
    | none => exact h
    | some q => exact h.updateItem q _ _
  | interrupt | guardBlock | runLoopStop => exact h.blockCurrentPhase _ _
  | _ => exact h

theorem onlyPhases_viewOf (threadId : String) (steps : List ThreadStep) :
    (viewOf millisBetween threadId steps).OnlyPhases := by
  induction steps using List.reverseRecOn with
  | nil => simp [OnlyPhases, viewOf, start, SortedMap.keys, SortedMap.empty]
  | append_singleton steps step ih =>
    rw [viewOf_concat]
    exact ih.applyStepToState millisBetween step

end ThreadLogViewCache
end ReactRuntime.View
