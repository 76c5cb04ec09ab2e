import ReactRuntime.Session.Reports
import Mathlib.Data.List.Infix

/-!
# The workflow runner

The runner asks an executor for one turn after the other. Three budgets end it: the turns in all,
the turns since the last progress, and the weight of the waits in a row. The counters of the loop
are natural numbers, and `Accounted.counters` says how far they go. Step counts are lengths of logs,
and the limits of a configuration lie below the largest `usize`, so that no counter wraps around.
-/
namespace ReactRuntime.Workflow
open Session

structure Config where
  maxPhaseSteps : Nat
  maxConsecutiveWaitingIdle : Nat
  maxConsecutiveWaitingActive : Nat
  maxTotalSteps : Nat
deriving DecidableEq, Repr

def Config.default : Config := ⟨50, 5, 12, 500⟩

inductive PhaseOutcome where
  | stayedWithProgress (detail : String)
  | stayedWaiting (reason : String)
  | transitionCommitted
  | ret (frames : List FlowFrame)
  | failed (reason : String)
deriving DecidableEq

inductive WorkflowError where
  | hardCeiling (total : UInt32)
  | phaseBudget (total : UInt32)
  | stuck (waits : UInt32) (last : String)
  | failed (message : String)
deriving DecidableEq

/-- One turn as the runner sees it: the step counts of the log around it, the frames that it
appends and its outcome. -/
structure Turn where
  stepCountBefore : Nat
  frames : List FlowFrame
  outcome : PhaseOutcome
  stepCountAfter : Nat
deriving DecidableEq

/-- What an executor does may depend on all that it did before. -/
structure PhaseExecutor where
  executeTurn : List Turn → Turn
  onBudgetExhausted : List Turn → (totalSteps : Nat) → List FlowFrame

/-- The variables of the loop, the turns that the executor was called for, and the step totals
that `on_budget_exhausted` was called with. -/
structure Run where
  remainingSteps : Nat
  totalSteps : Nat
  consecutiveWaiting : Nat
  outFrames : List FlowFrame
  turns : List Turn
  exhausted : List Nat

abbrev Result := Except (WorkflowError × List FlowFrame) (List FlowFrame)

def Turn.wasActive (turn : Turn) : Bool := turn.stepCountBefore + 2 < turn.stepCountAfter

section
variable (config : Config) (executor : PhaseExecutor)

def Run.start : Run := ⟨config.maxPhaseSteps, 0, 0, [], [], []⟩

def Run.exhaust (run : Run) : Run :=
  { run with
    outFrames := run.outFrames ++ executor.onBudgetExhausted run.turns run.totalSteps
    exhausted := run.exhausted ++ [run.totalSteps] }

/-- The limit on the waits in a row, for the kind of the last one. -/
def waitingLimit (wasActive : Bool) : Nat :=
  if wasActive then config.maxConsecutiveWaitingActive else config.maxConsecutiveWaitingIdle

/-- What the runner does with the outcome of a turn. -/
def settle (turn : Turn) (run : Run) : Run × Option Result :=
  match turn.outcome with
  | .stayedWithProgress _ =>
    ({ run with remainingSteps := config.maxPhaseSteps, consecutiveWaiting := 0 }, none)
  | .stayedWaiting reason =>
    let run := { run with
      consecutiveWaiting := run.consecutiveWaiting + if turn.wasActive then 1 else 2 }
    if waitingLimit config turn.wasActive ≤ run.consecutiveWaiting then
      (run, some (.error (.stuck (.ofNat run.consecutiveWaiting) reason, run.outFrames)))
    else (run, none)
  | .transitionCommitted => ({ run with consecutiveWaiting := 0 }, none)
  | .ret frames =>
    let run := { run with outFrames := run.outFrames ++ frames }
    (run, some (.ok run.outFrames))
  | .failed reason => (run, some (.error (.failed reason, run.outFrames)))

/-- One pass of the loop. -/
def iterate (run : Run) : Run × Option Result :=
  let run := { run with
    totalSteps := run.totalSteps + 1, remainingSteps := run.remainingSteps - 1 }
  if config.maxTotalSteps < run.totalSteps then
    let run := run.exhaust executor
    (run, some (.error (.hardCeiling (.ofNat run.totalSteps), run.outFrames)))
  else
    let turn := executor.executeTurn run.turns
    settle config turn { run with
      outFrames := run.outFrames ++ turn.frames, turns := run.turns ++ [turn] }

def runLoop : (fuel : Nat) → Run → Option (Run × Result)
  | 0, _ => none
  | fuel + 1, run =>
    if 0 < run.remainingSteps then
      match iterate config executor run with
      | (run, some result) => some (run, result)
      | (run, none) => runLoop fuel run
    else
      let run := run.exhaust executor
      some (run, .error (.phaseBudget (.ofNat run.totalSteps), run.outFrames))

def run (fuel : Nat) : Option (Run × Result) := runLoop config executor fuel (.start config)

end

namespace Turn

def progressed (turn : Turn) : Bool :=
  match turn.outcome with
  | .stayedWithProgress _ => true
  | _ => false

def waited (turn : Turn) : Bool :=
  match turn.outcome with
  | .stayedWaiting _ => true
  | _ => false

end Turn

/-- The weight of the waits at the end: one for an active wait, two for an idle one. -/
def waitingWeight (turns : List Turn) : Nat :=
  turns.foldl (fun weight turn =>
    if turn.waited then weight + if turn.wasActive then 1 else 2 else 0) 0

/-- The turns at the end without progress. -/
def idleStreak (turns : List Turn) : Nat :=
  turns.foldl (fun streak turn => if turn.progressed then 0 else streak + 1) 0

/-- The turns end with a wait whose weight reaches the limit of its kind. -/
def Stuck (config : Config) (turns : List Turn) : Prop :=
  ∃ turn ∈ turns.getLast?, turn.waited = true ∧
    waitingLimit config turn.wasActive ≤ waitingWeight turns

/-- The errors of an exhausted budget. -/
def WorkflowError.isExhausted : WorkflowError → Bool
  | .hardCeiling _ | .phaseBudget _ => true
  | _ => false

def resultFrames : Result → List FlowFrame
  | .ok frames => frames
  | .error (_, frames) => frames

def returnedFrames (turns : List Turn) : List FlowFrame :=
  match turns.getLast? with
  | some ⟨_, _, .ret frames, _⟩ => frames
  | _ => []

/-- How a run ends, told by the turns that the executor was called for. -/
structure Accounted (config : Config) (executor : PhaseExecutor) (final : Run)
    (result : Result) : Prop where
  /-- Each turn is the answer of the executor to the turns before it. -/
  genuine : ∀ front turn, front ++ [turn] <+: final.turns → turn = executor.executeTurn front
  turns_le : final.turns.length ≤ config.maxTotalSteps
  streak_le : ∀ part, part <:+: final.turns → (∀ turn ∈ part, turn.progressed = false) →
    part.length ≤ config.maxPhaseSteps
  ok_only : ∀ frames, result = .ok frames →
    ∃ turn ∈ final.turns.getLast?, ∃ returned, turn.outcome = .ret returned
  failed_only : ∀ reason frames, result = .error (.failed reason, frames) →
    ∃ turn ∈ final.turns.getLast?, turn.outcome = .failed reason
  stuck_iff : (∃ waits last frames, result = .error (.stuck waits last, frames)) ↔
    ∃ turns, turns <+: final.turns ∧ Stuck config turns
  exhausted_iff : (∃ error frames, result = .error (error, frames) ∧ error.isExhausted = true) ↔
    final.exhausted.length = 1
  exhausted_le : final.exhausted.length ≤ 1
  frames_eq : resultFrames result = final.turns.flatMap Turn.frames ++
    (final.exhausted.flatMap (executor.onBudgetExhausted final.turns)) ++
      returnedFrames final.turns
  counters : final.totalSteps ≤ config.maxTotalSteps + 1 ∧ final.consecutiveWaiting ≤
    max config.maxConsecutiveWaitingIdle config.maxConsecutiveWaitingActive + 2

@[simp] theorem waitingWeight_append (turns : List Turn) (turn : Turn) :
    waitingWeight (turns ++ [turn]) =
      if turn.waited then waitingWeight turns + if turn.wasActive then 1 else 2 else 0 := by
  simp [waitingWeight]

@[simp] theorem idleStreak_append (turns : List Turn) (turn : Turn) :
    idleStreak (turns ++ [turn]) = if turn.progressed then 0 else idleStreak turns + 1 := by
  simp [idleStreak]

@[simp] theorem stuck_append {config : Config} {turns : List Turn} {turn : Turn} :
    Stuck config (turns ++ [turn]) ↔ turn.waited = true ∧
      waitingLimit config turn.wasActive ≤ waitingWeight (turns ++ [turn]) := by
  simp [Stuck]

theorem returnedFrames_append (turns : List Turn) (turn : Turn) :
    returnedFrames (turns ++ [turn]) = match turn.outcome with
      | .ret frames => frames
      | _ => [] := by
  obtain ⟨before, frames, outcome, after⟩ := turn
  rw [returnedFrames, List.getLast?_concat]
  cases outcome <;> rfl

theorem not_stuck_nil (config : Config) : ¬ Stuck config [] := by
  rintro ⟨turn, hlast, -⟩
  cases hlast

theorem length_le_idleStreak (front : List Turn) {part : List Turn}
    (h : ∀ turn ∈ part, turn.progressed = false) : part.length ≤ idleStreak (front ++ part) := by
  induction part using List.reverseRecOn with
  | nil => exact Nat.zero_le _
  | append_singleton part turn ih =>
    have hpart := ih fun t ht => h t (List.mem_append_left _ ht)
    rw [← List.append_assoc, idleStreak_append, h turn (by simp), List.length_append]
    exact Nat.succ_le_succ hpart

section
variable {config : Config} {executor : PhaseExecutor}

/-- The turns so far are answers of the executor within the budgets. -/
structure Within (config : Config) (executor : PhaseExecutor) (turns : List Turn) : Prop where
  genuine : ∀ front turn, front ++ [turn] <+: turns → turn = executor.executeTurn front
  turns_le : turns.length ≤ config.maxTotalSteps
  streaks : ∀ front, front <+: turns → idleStreak front ≤ config.maxPhaseSteps

/-- The loop goes on: no turn has ended it, and its variables are what the turns say. -/
structure Going (config : Config) (executor : PhaseExecutor) (run : Run) : Prop where
  within : Within config executor run.turns
  not_stuck : ∀ front, front <+: run.turns → ¬ Stuck config front
  not_returned : returnedFrames run.turns = []
  totalSteps_eq : run.totalSteps = run.turns.length
  remainingSteps_eq : run.remainingSteps + idleStreak run.turns = config.maxPhaseSteps
  waiting_eq : run.consecutiveWaiting = waitingWeight run.turns
  waiting_le : run.consecutiveWaiting ≤
    max config.maxConsecutiveWaitingIdle config.maxConsecutiveWaitingActive
  outFrames_eq : run.outFrames = run.turns.flatMap Turn.frames
  exhausted_eq : run.exhausted = []

theorem Within.streak_le {turns : List Turn} (h : Within config executor turns) (part : List Turn)
    (hpart : part <:+: turns) (hidle : ∀ turn ∈ part, turn.progressed = false) :
    part.length ≤ config.maxPhaseSteps := by
  obtain ⟨front, rest, rfl⟩ := hpart
  exact (length_le_idleStreak front hidle).trans (h.streaks _ (List.prefix_append _ rest))

/-- One more turn, while both budgets of turns last. -/
theorem Within.turn {turns : List Turn} (h : Within config executor turns)
    (htotal : turns.length < config.maxTotalSteps)
    (hphase : idleStreak turns < config.maxPhaseSteps) :
    Within config executor (turns ++ [executor.executeTurn turns]) where
  genuine front turn hfront := by
    rcases List.prefix_concat_iff.mp hfront with heq | hbefore
    · obtain ⟨rfl, hturn⟩ := List.append_inj' heq rfl
      exact List.singleton_inj.mp hturn
    · exact h.genuine front turn hbefore
  turns_le := by
    rw [List.length_append]
    exact htotal
  streaks front hfront := by
    rcases List.prefix_concat_iff.mp hfront with rfl | hbefore
    · rw [idleStreak_append]
      split_ifs <;> omega
    · exact h.streaks front hbefore

theorem going_start (config : Config) (executor : PhaseExecutor) :
    Going config executor (.start config) where
  within := {
    genuine := fun front turn h => absurd (List.prefix_nil.mp h) (by simp)
    turns_le := Nat.zero_le _
    streaks := fun front h => by rw [List.prefix_nil.mp h]; exact Nat.zero_le _ }
  not_stuck front h := by
    rw [List.prefix_nil.mp h]
    exact not_stuck_nil config
  not_returned := rfl
  totalSteps_eq := rfl
  remainingSteps_eq := rfl
  waiting_eq := rfl
  waiting_le := Nat.zero_le _
  outFrames_eq := rfl
  exhausted_eq := rfl

/-- A used up budget ends the loop through `on_budget_exhausted`. -/
theorem accounted_exhaust {run : Run} {error : WorkflowError}
    (hwithin : Within config executor run.turns)
    (hstuck : ∀ front, front <+: run.turns → ¬ Stuck config front)
    (hreturned : returnedFrames run.turns = [])
    (hframes : run.outFrames = run.turns.flatMap Turn.frames) (hexhausted : run.exhausted = [])
    (herror : error.isExhausted = true) (htotal : run.totalSteps ≤ config.maxTotalSteps + 1)
    (hwaiting : run.consecutiveWaiting ≤
      max config.maxConsecutiveWaitingIdle config.maxConsecutiveWaitingActive) :
    Accounted config executor (run.exhaust executor)
      (.error (error, (run.exhaust executor).outFrames)) where
  genuine := hwithin.genuine
  turns_le := hwithin.turns_le
  streak_le := hwithin.streak_le
  ok_only frames h := by cases h
  failed_only reason frames h := by
    cases h
    cases herror
  stuck_iff := by
    constructor
    · rintro ⟨waits, last, frames, h⟩
      cases h
      cases herror
    · rintro ⟨front, hfront, h⟩
      exact absurd h (hstuck front hfront)
  exhausted_iff := by
    refine ⟨fun _ => ?_, fun _ => ⟨error, _, rfl, herror⟩⟩
    rw [Run.exhaust, hexhausted]
    rfl
  exhausted_le := by
    rw [Run.exhaust, hexhausted]
    exact Nat.le_refl 1
  frames_eq := by
    simp [resultFrames, Run.exhaust, hframes, hexhausted, hreturned]
  counters := ⟨htotal, hwaiting.trans (Nat.le_add_right _ 2)⟩

/-- A turn ends the loop by its own outcome. -/
theorem accounted_turn {run : Run} {result : Result}
    (hwithin : Within config executor run.turns) (hexhausted : run.exhausted = [])
    (hframes : resultFrames result = run.turns.flatMap Turn.frames ++ returnedFrames run.turns)
    (hok : ∀ frames, result = .ok frames →
      ∃ turn ∈ run.turns.getLast?, ∃ returned, turn.outcome = .ret returned)
    (herror : ∀ error frames, result = .error (error, frames) → error.isExhausted = false)
    (hfailed : ∀ reason frames, result = .error (.failed reason, frames) →
      ∃ turn ∈ run.turns.getLast?, turn.outcome = .failed reason)
    (hstuck : (∃ waits last frames, result = .error (.stuck waits last, frames)) ↔
      ∃ turns, turns <+: run.turns ∧ Stuck config turns)
    (htotal : run.totalSteps ≤ config.maxTotalSteps + 1)
    (hwaiting : run.consecutiveWaiting ≤
      max config.maxConsecutiveWaitingIdle config.maxConsecutiveWaitingActive + 2) :
    Accounted config executor run result where
  genuine := hwithin.genuine
  turns_le := hwithin.turns_le
  streak_le := hwithin.streak_le
  ok_only := hok
  failed_only := hfailed
  stuck_iff := hstuck
  exhausted_iff := by
    rw [hexhausted]
    constructor
    · rintro ⟨error, frames, h, hexh⟩
      rw [herror error frames h] at hexh
      cases hexh
    · intro h
      cases h
  exhausted_le := by
    rw [hexhausted]
    exact Nat.zero_le 1
  frames_eq := by
    rw [hframes, hexhausted, List.flatMap_nil, List.append_nil]
  counters := ⟨htotal, hwaiting⟩

/-- Only the last turn can be the first stuck one. -/
theorem exists_stuck_append {turns : List Turn} (turn : Turn)
    (h : ∀ front, front <+: turns → ¬ Stuck config front) :
    (∃ front, front <+: turns ++ [turn] ∧ Stuck config front) ↔
      Stuck config (turns ++ [turn]) := by
  refine ⟨?_, fun hstuck => ⟨_, List.prefix_rfl, hstuck⟩⟩
  rintro ⟨front, hfront, hstuck⟩
  rcases List.prefix_concat_iff.mp hfront with rfl | hbefore
  · exact hstuck
  · exact absurd hstuck (h front hbefore)

theorem waitingLimit_le (config : Config) (wasActive : Bool) : waitingLimit config wasActive ≤
    max config.maxConsecutiveWaitingIdle config.maxConsecutiveWaitingActive := by
  unfold waitingLimit
  split_ifs
  · exact le_max_right _ _
  · exact le_max_left _ _

/-- What one pass of the loop comes to: the loop goes on within its invariant, or the turns account
for its result. -/
def ComesTo (config : Config) (executor : PhaseExecutor) (run : Run) : Run × Option Result → Prop
  | (next, none) => Going config executor next ∧ next.totalSteps = run.totalSteps + 1
  | (final, some result) => Accounted config executor final result

/-- The state in which the outcome of the next turn is settled. -/
def Run.taken (run : Run) (turn : Turn) : Run :=
  { run with
    totalSteps := run.totalSteps + 1
    remainingSteps := run.remainingSteps - 1
    outFrames := run.outFrames ++ turn.frames
    turns := run.turns ++ [turn] }

section Settle
variable {run : Run} {turn : Turn} (h : Going config executor run)
  (hwithin : Within config executor (run.turns ++ [turn])) (hremaining : 0 < run.remainingSteps)
include h hwithin

/-- A turn that does not end the loop. -/
theorem going_taken {remaining waiting : Nat} (hstuck : ¬ Stuck config (run.turns ++ [turn]))
    (hreturned : returnedFrames (run.turns ++ [turn]) = [])
    (hphase : remaining + idleStreak (run.turns ++ [turn]) = config.maxPhaseSteps)
    (hweight : waiting = waitingWeight (run.turns ++ [turn]))
    (hle : waiting ≤
      max config.maxConsecutiveWaitingIdle config.maxConsecutiveWaitingActive) :
    Going config executor
      { run.taken turn with remainingSteps := remaining, consecutiveWaiting := waiting } where
  within := hwithin
  not_stuck front hfront hfrontStuck :=
    hstuck ((exists_stuck_append _ h.not_stuck).mp ⟨front, hfront, hfrontStuck⟩)
  not_returned := hreturned
  totalSteps_eq := by simp [Run.taken, h.totalSteps_eq]
  remainingSteps_eq := hphase
  waiting_eq := hweight
  waiting_le := hle
  outFrames_eq := by simp [Run.taken, h.outFrames_eq]
  exhausted_eq := h.exhausted_eq

theorem taken_totalSteps_le : (run.taken turn).totalSteps ≤ config.maxTotalSteps + 1 := by
  have hlength := hwithin.turns_le
  rw [List.length_append, List.length_singleton] at hlength
  change run.totalSteps + 1 ≤ _
  rw [h.totalSteps_eq]
  omega

include hremaining

/-- A wait adds its weight, and ends the loop where that reaches the limit of its kind. -/
theorem settle_waiting {reason : String} (hturn : turn.outcome = .stayedWaiting reason) :
    ComesTo config executor run (settle config turn (run.taken turn)) := by
  have hwaited : turn.waited = true := by rw [Turn.waited, hturn]
  have hreturned : returnedFrames (run.turns ++ [turn]) = [] := by
    rw [returnedFrames_append, hturn]
  have hweight : waitingWeight (run.turns ++ [turn]) =
      run.consecutiveWaiting + if turn.wasActive then 1 else 2 := by
    rw [waitingWeight_append, if_pos hwaited, h.waiting_eq]
  have hsettle : settle config turn (run.taken turn) =
      let next := { run.taken turn with
        consecutiveWaiting := run.consecutiveWaiting + if turn.wasActive then 1 else 2 }
      if waitingLimit config turn.wasActive ≤ next.consecutiveWaiting then
        (next, some (.error (.stuck (.ofNat next.consecutiveWaiting) reason, next.outFrames)))
      else (next, none) := by
    rw [settle, hturn]
    rfl
  rw [hsettle]
  by_cases hreached : waitingLimit config turn.wasActive ≤
      run.consecutiveWaiting + if turn.wasActive then 1 else 2
  · rw [if_pos hreached]
    refine accounted_turn hwithin h.exhausted_eq ?_ ?_ ?_ ?_ ?_ (taken_totalSteps_le h hwithin) ?_
    · simp [resultFrames, Run.taken, hreturned, h.outFrames_eq]
    · exact fun _ heq => (nomatch heq)
    · rintro _ _ heq
      cases heq
      rfl
    · exact fun _ _ heq => (nomatch heq)
    · refine ⟨fun _ => (exists_stuck_append turn h.not_stuck).mpr ?_, fun _ => ⟨_, _, _, rfl⟩⟩
      rw [stuck_append, hweight]
      exact ⟨hwaited, hreached⟩
    · have hwaiting := h.waiting_le
      change run.consecutiveWaiting + (if turn.wasActive then 1 else 2) ≤ _
      split_ifs <;> omega
  · rw [if_neg hreached]
    have hlimit := waitingLimit_le config turn.wasActive
    refine ⟨going_taken h hwithin ?_ hreturned ?_ hweight.symm (by omega), rfl⟩
    · rw [stuck_append, hweight]
      exact fun hlast => hreached hlast.2
    · have hphase := h.remainingSteps_eq
      rw [idleStreak_append, Turn.progressed, hturn]
      change run.remainingSteps - 1 + (idleStreak run.turns + 1) = _
      omega

/-- The loop goes on within its invariant, or ends with an account of its turns. -/
theorem settle_spec : ComesTo config executor run (settle config turn (run.taken turn)) := by
  have htotal := taken_totalSteps_le h hwithin
  have hwaiting := h.waiting_le
  have hunwaited : turn.waited = false → ¬ Stuck config (run.turns ++ [turn]) :=
    fun hwaited hlast => Bool.false_ne_true (hwaited ▸ (stuck_append.mp hlast).1)
  have hunstuck : turn.waited = false →
      ¬ ∃ turns, turns <+: run.turns ++ [turn] ∧ Stuck config turns :=
    fun hwaited hex => hunwaited hwaited ((exists_stuck_append turn h.not_stuck).mp hex)
  cases hturn : turn.outcome with
  | stayedWithProgress detail =>
    have hwaited : turn.waited = false := by rw [Turn.waited, hturn]
    have hprogressed : turn.progressed = true := by rw [Turn.progressed, hturn]
    rw [settle, hturn]
    exact ⟨going_taken h hwithin (hunwaited hwaited) (by rw [returnedFrames_append, hturn])
      (by simp [hprogressed]) (by simp [hwaited]) (Nat.zero_le _), rfl⟩
  | transitionCommitted =>
    have hwaited : turn.waited = false := by rw [Turn.waited, hturn]
    have hprogressed : turn.progressed = false := by rw [Turn.progressed, hturn]
    have hphase := h.remainingSteps_eq
    rw [settle, hturn]
    refine ⟨going_taken h hwithin (hunwaited hwaited) (by rw [returnedFrames_append, hturn]) ?_
      (by simp [hwaited]) (Nat.zero_le _), rfl⟩
    rw [idleStreak_append, hprogressed]
    change run.remainingSteps - 1 + (idleStreak run.turns + 1) = _
    omega
  | stayedWaiting reason => exact settle_waiting h hwithin hremaining hturn
  | ret returned =>
    have hwaited : turn.waited = false := by rw [Turn.waited, hturn]
    rw [settle, hturn]
    refine accounted_turn hwithin h.exhausted_eq ?_ ?_ ?_ ?_ ?_ htotal (hwaiting.trans (by omega))
    · simp [resultFrames, Run.taken, returnedFrames_append, hturn, h.outFrames_eq]
    · exact fun _ _ => ⟨turn, List.getLast?_concat, returned, hturn⟩
    · exact fun _ _ heq => (nomatch heq)
    · exact fun _ _ heq => (nomatch heq)
    · refine ⟨?_, fun hex => absurd hex (hunstuck hwaited)⟩
      rintro ⟨_, _, _, heq⟩
      cases heq
  | failed reason =>
    have hwaited : turn.waited = false := by rw [Turn.waited, hturn]
    rw [settle, hturn]
    refine accounted_turn hwithin h.exhausted_eq ?_ ?_ ?_ ?_ ?_ htotal (hwaiting.trans (by omega))
    · simp [resultFrames, Run.taken, returnedFrames_append, hturn, h.outFrames_eq]
    · exact fun _ heq => (nomatch heq)
    · rintro _ _ heq
      cases heq
      rfl
    · rintro _ _ heq
      cases heq
      exact ⟨turn, List.getLast?_concat, hturn⟩
    · refine ⟨?_, fun hex => absurd hex (hunstuck hwaited)⟩
      rintro ⟨_, _, _, heq⟩
      cases heq

end Settle

theorem iterate_spec {run : Run} (h : Going config executor run)
    (hremaining : 0 < run.remainingSteps) :
    ComesTo config executor run (iterate config executor run) := by
  have hlength := h.totalSteps_eq
  have hphase := h.remainingSteps_eq
  unfold iterate
  by_cases hceiling : config.maxTotalSteps < run.totalSteps + 1
  · simp only [hceiling, if_true]
    refine accounted_exhaust h.within h.not_stuck h.not_returned h.outFrames_eq h.exhausted_eq rfl
      ?_ h.waiting_le
    have hle := h.within.turns_le
    change run.totalSteps + 1 ≤ _
    omega
  · simp only [hceiling, if_false]
    exact settle_spec h (h.within.turn (by omega) (by omega)) hremaining

theorem runLoop_spec {fuel : Nat} {run : Run} (h : Going config executor run)
    (hfuel : config.maxTotalSteps + 1 < fuel + run.totalSteps) :
    ∃ final result, runLoop config executor fuel run = some (final, result) ∧
      Accounted config executor final result := by
  induction fuel generalizing run with
  | zero =>
    have hle := h.within.turns_le
    have hlength := h.totalSteps_eq
    omega
  | succ fuel ih =>
    rw [runLoop]
    by_cases hremaining : 0 < run.remainingSteps
    · rw [if_pos hremaining]
      have hspec := iterate_spec h hremaining
      cases hiterate : iterate config executor run with
      | mk next result =>
        rw [hiterate] at hspec
        cases result with
        | some result => exact ⟨next, result, rfl, hspec⟩
        | none =>
          obtain ⟨hgoing, htotal⟩ := hspec
          exact ih hgoing (by omega)
    · rw [if_neg hremaining]
      have hle := h.within.turns_le
      have hlength := h.totalSteps_eq
      exact ⟨_, _, rfl, accounted_exhaust h.within h.not_stuck h.not_returned h.outFrames_eq
        h.exhausted_eq rfl (by omega) h.waiting_le⟩

end

theorem runLoop_mono (config : Config) (executor : PhaseExecutor) {fuel : Nat} {run : Run}
    {r : Run × Result} (h : runLoop config executor fuel run = some r) :
    ∀ more, runLoop config executor (fuel + more) run = some r := by
  intro more
  induction fuel generalizing run with
  | zero => cases h
  | succ fuel ih =>
    rw [Nat.add_right_comm]
    rw [runLoop] at h ⊢
    by_cases hremaining : 0 < run.remainingSteps
    · rw [if_pos hremaining] at h ⊢
      cases hiterate : iterate config executor run with
      | mk next result =>
        rw [hiterate] at h
        cases result with
        | some result => exact h
        | none => exact ih h
    · rw [if_neg hremaining] at h ⊢
      exact h

/-- The runner ends, whatever the executor does, and its result is what the turns account for. -/
theorem run_accounted (config : Config) (executor : PhaseExecutor) :
    ∃ final result, (∀ fuel, config.maxTotalSteps + 1 < fuel →
        run config executor fuel = some (final, result)) ∧
      Accounted config executor final result := by
  have henough : config.maxTotalSteps + 1 < config.maxTotalSteps + 2 := Nat.lt_succ_self _
  obtain ⟨final, result, hrun, haccounted⟩ := runLoop_spec (going_start config executor) henough
  refine ⟨final, result, fun fuel hfuel => ?_, haccounted⟩
  obtain ⟨more, rfl⟩ := Nat.exists_eq_add_of_le (Nat.succ_le_of_lt hfuel)
  exact runLoop_mono config executor hrun more

end ReactRuntime.Workflow
