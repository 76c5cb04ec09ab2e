import ReactRuntime.Session.Observed

/-!
# Pairs of tool steps

Any number of observed calls run on one thread whose storage accepts every append.
An operation may panic, and then the guard of the call spawns a finalizer that
appends the end step. A future may also be dropped wherever it waits. Its guard then
does nothing, unless the future goes while its thread unwinds from a panic in another
future of the same task.
-/
namespace ReactRuntime.Session
open Library Serde ReactRuntime.Core

/-- What a bracketed call does. An append takes effect first and is acknowledged later; in between,
as before it, the future waits. -/
inductive BracketCall where
  | append (step : ThreadStep)
  | acknowledged
  | arm (step : ThreadStep)
  | disarm
  | operate

variable {τ T : Type}

@[reducible] def BracketCall.Answer (T : Type) : BracketCall → Type
  | .operate => Except String T
  | .append _ | .acknowledged | .arm _ | .disarm => Unit

/-- The calls that a future waits for. -/
def BracketCall.isAwait : BracketCall → Bool
  | .append _ | .acknowledged | .operate => true
  | .arm _ | .disarm => false

abbrev BracketProgram (T : Type) := Program BracketCall (BracketCall.Answer T) (Except String T)

def BracketCall.issue (T : Type) (c : BracketCall) :
    Program BracketCall (BracketCall.Answer T) (c.Answer T) :=
  Program.perform c

/-- A store whose storage accepts every append. -/
def acceptingObserver (T : Type) : Observer BracketCall (BracketCall.Answer T) where
  appendStep step := do
    (BracketCall.append step).issue T
    BracketCall.acknowledged.issue T
    return .ok ()
  arm step := (BracketCall.arm step).issue T
  disarm := BracketCall.disarm.issue T

/-- One observed call: its data and how its value becomes an observation. -/
structure Bracket (T : Type) where
  info : ToolStepMeta
  stamp : ToolStamp
  toObservation : T → Except String Json

def Bracket.program (b : Bracket T) : BracketProgram T :=
  (acceptingObserver T).runObserved b.info b.stamp (BracketCall.operate.issue T) b.toObservation

/-- The log of the thread, and for each call its future, the step its guard is armed with and the
step of its finalizer. A future that was dropped or has unwound is gone. -/
structure Brackets (τ T : Type) where
  log : List ThreadStep
  task : τ → Option (BracketProgram T)
  guard : τ → Option ThreadStep
  finalizer : τ → Option ThreadStep

inductive BracketMove (T : Type) where
  | advance (result : Except String T)
  | panic
  | drop (panicking : Bool)
  | finalize

namespace Brackets
variable [DecidableEq τ] (s : Brackets τ T) (t : τ)

def start (log : List ThreadStep) (call : τ → Bracket T) : Brackets τ T :=
  ⟨log, fun t => some (call t).program, fun _ => none, fun _ => none⟩

def setTask (task : Option (BracketProgram T)) : Brackets τ T :=
  { s with task := Function.update s.task t task }

def setGuard (step : Option ThreadStep) : Brackets τ T :=
  { s with guard := Function.update s.guard t step }

def setFinalizer (step : Option ThreadStep) : Brackets τ T :=
  { s with finalizer := Function.update s.finalizer t step }

def push (step : ThreadStep) : Brackets τ T := { s with log := s.log ++ [step] }

/-- `Drop` of the guard: an armed guard spawns the finalizer, but only while its thread panics. -/
def dropGuard (panicking : Bool) : Brackets τ T :=
  if panicking then (s.setFinalizer t (s.guard t)).setGuard t none else s.setGuard t none

/-- The next move of a call; `result` is what its operation returns, if that is what it waits
for. -/
def step : τ × BracketMove T → Option (Brackets τ T)
  | (t, .advance result) => match s.task t with
    | some (.call (.append step) k) => some ((s.push step).setTask t (some (k ())))
    | some (.call .acknowledged k) => some (s.setTask t (some (k ())))
    | some (.call (.arm step) k) => some ((s.setGuard t (some step)).setTask t (some (k ())))
    | some (.call .disarm k) => some ((s.setGuard t none).setTask t (some (k ())))
    | some (.call .operate k) => some (s.setTask t (some (k result)))
    | some (.ret _) | none => none
  | (t, .panic) => match s.task t with
    | some (.call .operate _) => some ((s.dropGuard t true).setTask t none)
    | _ => none
  | (t, .drop panicking) => match s.task t with
    | some (.call c _) =>
      if c.isAwait then some ((s.dropGuard t panicking).setTask t none) else none
    | some (.ret _) | none => none
  | (t, .finalize) => match s.finalizer t with
    | some step => some ((s.push step).setFinalizer t none)
    | none => none

def machine (τ T : Type) [DecidableEq τ] : Machine (Brackets τ T) (τ × BracketMove T) where
  step := step

def running : Option (BracketProgram T) → Bool
  | some (.call _ _) => true
  | some (.ret _) | none => false

/-- No call and no finalizer is running. -/
def AtRest : Prop := ∀ t, running (s.task t) = false ∧ s.finalizer t = none

end Brackets

inductive BracketTag where
  | opened
  | closed
deriving DecidableEq, Repr

/-- The tool steps of one id in a log. -/
def ThreadStep.bracketTag (toolId : String) : ThreadStep → Option BracketTag
  | .toolStart id _ _ _ _ _ _ _ _ => if id = toolId then some .opened else none
  | .toolEnd id _ _ _ _ _ _ _ _ _ => if id = toolId then some .closed else none
  | _ => none

def tagsOf (toolId : String) (log : List ThreadStep) : List BracketTag :=
  log.filterMap (ThreadStep.bracketTag toolId)

/-- Of the tool steps with one id there are none, or a start and then an end. -/
def Paired (log : List ThreadStep) : Prop :=
  ∀ toolId, tagsOf toolId log = [] ∨ tagsOf toolId log = [.opened, .closed]

@[simp] theorem tagsOf_append (toolId : String) (log more : List ThreadStep) :
    tagsOf toolId (log ++ more) = tagsOf toolId log ++ tagsOf toolId more :=
  List.filterMap_append

namespace Bracket
variable (b : Bracket T)

def toolId : String := b.stamp.toolId
def startStep : ThreadStep := b.info.startStep b.stamp
def panicStep : ThreadStep := b.info.panicStep b.stamp
def endStep (result : Except String T) : ThreadStep :=
  b.info.endStepOf b.stamp b.toObservation result

def disarming (result : Except String T) : BracketProgram T :=
  .call .disarm fun _ => .ret (b.info.outcome b.toObservation result).2.2

def closed (result : Except String T) : BracketProgram T :=
  .call .acknowledged fun _ => b.disarming result

def closing (result : Except String T) : BracketProgram T :=
  .call (.append (b.endStep result)) fun _ => b.closed result

def operating : BracketProgram T := .call .operate b.closing

def arming : BracketProgram T := .call (.arm b.panicStep) fun _ => b.operating

def opened : BracketProgram T := .call .acknowledged fun _ => b.arming

theorem program_eq : b.program = .call (.append b.startStep) fun _ => b.opened := rfl

/-- Future, guard, finalizer and log steps of a call, at each point of its life. -/
inductive Stage : Option (BracketProgram T) → Option ThreadStep → Option ThreadStep →
    List BracketTag → Prop
  | called : Stage (some b.program) none none []
  | opened : Stage (some b.opened) none none [.opened]
  | arming : Stage (some b.arming) none none [.opened]
  | operating : Stage (some b.operating) (some b.panicStep) none [.opened]
  | closing (result) : Stage (some (b.closing result)) (some b.panicStep) none [.opened]
  | closed (result) : Stage (some (b.closed result)) (some b.panicStep) none [.opened, .closed]
  | disarming (result) :
      Stage (some (b.disarming result)) (some b.panicStep) none [.opened, .closed]
  | returned (value) : Stage (some (.ret value)) none none [.opened, .closed]
  | unwound (tags) (h : tags = [.opened] ∨ tags = [.opened, .closed]) :
      Stage none none (some b.panicStep) tags
  | gone (tags) (h : tags = [] ∨ tags = [.opened] ∨ tags = [.opened, .closed] ∨
      tags = [.opened, .closed, .closed]) : Stage none none none tags

theorem Stage.finalizer_eq {b : Bracket T} {p : BracketProgram T} {guard finalizer} {tags}
    (h : b.Stage (some p) guard finalizer tags) : finalizer = none := by
  cases h <;> rfl

theorem Stage.operating_eq {b : Bracket T} {k} {guard finalizer} {tags}
    (h : b.Stage (some (.call .operate k)) guard finalizer tags) :
    guard = some b.panicStep ∧ tags = [.opened] := by
  cases h
  exact ⟨rfl, rfl⟩

/-- A finalizer appends an end step, whether or not there is one already. -/
theorem Stage.finalized {b : Bracket T} {task guard} {x : ThreadStep} {tags}
    (h : b.Stage task guard (some x) tags) :
    x = b.panicStep ∧ b.Stage task guard none (tags ++ [.closed]) := by
  cases h with
  | unwound tags h => rcases h with rfl | rfl <;> exact ⟨rfl, .gone _ (by simp)⟩

/-- A dropped future is gone; while its thread panics, the step of its guard is left to a
finalizer. -/
theorem Stage.dropped {b : Bracket T} {p : BracketProgram T} {guard finalizer} {tags}
    (h : b.Stage (some p) guard finalizer tags) (panicking : Bool) :
    b.Stage none none (if panicking then guard else finalizer) tags := by
  cases h <;> cases panicking <;> first | exact .gone _ (by simp) | exact .unwound _ (by simp)

theorem Stage.tags_running {b : Bracket T} {p : BracketProgram T} {guard finalizer} {tags}
    (h : b.Stage (some p) guard finalizer tags) :
    tags = [] ∧ guard = none ∨ tags = [.opened] ∨ tags = [.opened, .closed] := by
  cases h <;> simp

@[simp] theorem tag_startStep (id : String) :
    b.startStep.bracketTag id = if b.toolId = id then some .opened else none := rfl

@[simp] theorem tag_panicStep (id : String) :
    b.panicStep.bracketTag id = if b.toolId = id then some .closed else none := rfl

@[simp] theorem tag_endStep (result : Except String T) (id : String) :
    (b.endStep result).bracketTag id = if b.toolId = id then some .closed else none := rfl

end Bracket

namespace Brackets
variable [DecidableEq τ] {s s' : Brackets τ T} {t u : τ} {m : BracketMove T} {b : Bracket T}
  {tags : List BracketTag}

omit [DecidableEq τ] in
@[simp] theorem log_push (x) : (s.push x).log = s.log ++ [x] := rfl
omit [DecidableEq τ] in
@[simp] theorem task_push (x) : (s.push x).task = s.task := rfl
omit [DecidableEq τ] in
@[simp] theorem guard_push (x) : (s.push x).guard = s.guard := rfl
omit [DecidableEq τ] in
@[simp] theorem finalizer_push (x) : (s.push x).finalizer = s.finalizer := rfl
@[simp] theorem task_setTask (x) : (s.setTask t x).task t = x := Function.update_self ..
@[simp] theorem guard_setTask (x) : (s.setTask t x).guard = s.guard := rfl
@[simp] theorem finalizer_setTask (x) : (s.setTask t x).finalizer = s.finalizer := rfl
@[simp] theorem log_setTask (x) : (s.setTask t x).log = s.log := rfl
@[simp] theorem guard_setGuard (x) : (s.setGuard t x).guard t = x := Function.update_self ..
@[simp] theorem task_setGuard (x) : (s.setGuard t x).task = s.task := rfl
@[simp] theorem finalizer_setGuard (x) : (s.setGuard t x).finalizer = s.finalizer := rfl
@[simp] theorem log_setGuard (x) : (s.setGuard t x).log = s.log := rfl
@[simp] theorem finalizer_setFinalizer (x) : (s.setFinalizer t x).finalizer t = x :=
  Function.update_self ..
@[simp] theorem task_setFinalizer (x) : (s.setFinalizer t x).task = s.task := rfl
@[simp] theorem guard_setFinalizer (x) : (s.setFinalizer t x).guard = s.guard := rfl
@[simp] theorem log_setFinalizer (x) : (s.setFinalizer t x).log = s.log := rfl

section
variable {panicking : Bool}

@[simp] theorem log_dropGuard : (s.dropGuard t panicking).log = s.log := by
  cases panicking <;> rfl

@[simp] theorem guard_dropGuard : (s.dropGuard t panicking).guard t = none := by
  cases panicking <;> simp [dropGuard]

@[simp] theorem finalizer_dropGuard : (s.dropGuard t panicking).finalizer t =
    if panicking then s.guard t else s.finalizer t := by
  cases panicking <;> simp [dropGuard]

end

theorem dropGuard_frame {panicking : Bool} (ht : t ≠ u) :
    (s.dropGuard u panicking).task t = s.task t ∧ (s.dropGuard u panicking).guard t = s.guard t ∧
      (s.dropGuard u panicking).finalizer t = s.finalizer t := by
  cases panicking <;> simp [dropGuard, setGuard, setFinalizer, Function.update_of_ne ht]

/-- A call moves nobody else. -/
theorem step_frame (hs : step s (u, m) = some s') (ht : t ≠ u) :
    s'.task t = s.task t ∧ s'.guard t = s.guard t ∧ s'.finalizer t = s.finalizer t := by
  cases m <;> simp only [step] at hs <;> split at hs
  all_goals try split_ifs at hs
  all_goals
    cases hs
    try simp [setTask, setGuard, setFinalizer, push, dropGuard_frame ht, Function.update_of_ne ht]

theorem step_panic (hs : step s (u, .panic) = some s') : ∃ k, s.task u = some (.call .operate k) ∧
    s' = ((s.setFinalizer u (s.guard u)).setGuard u none).setTask u none := by
  simp only [step] at hs
  split at hs
  · rename_i k htask
    cases hs
    exact ⟨k, htask, rfl⟩
  · cases hs

theorem step_drop {panicking : Bool} (hs : step s (u, .drop panicking) = some s') :
    ∃ c k, s.task u = some (.call c k) ∧ s' = (s.dropGuard u panicking).setTask u none := by
  simp only [step] at hs
  split at hs
  · rename_i c k htask
    split_ifs at hs
    cases hs
    exact ⟨c, k, htask, rfl⟩
  · cases hs
  · cases hs

theorem step_finalize (hs : step s (u, .finalize) = some s') :
    ∃ x, s.finalizer u = some x ∧ s' = (s.push x).setFinalizer u none := by
  simp only [step] at hs
  split at hs
  · rename_i x hx
    cases hs
    exact ⟨x, hx, rfl⟩
  · cases hs

/-- Call `u` moves to its next stage and appends only tool steps of its own. -/
def Advances (b : Bracket T) (u : τ) (tags : List BracketTag) (s s' : Brackets τ T) : Prop :=
  ∃ out, s'.log = s.log ++ out ∧ (∀ id, b.toolId ≠ id → tagsOf id out = []) ∧
    b.Stage (s'.task u) (s'.guard u) (s'.finalizer u) (tags ++ tagsOf b.toolId out)

omit [DecidableEq τ] in
theorem advances_quiet (hlog : s'.log = s.log)
    (h : b.Stage (s'.task u) (s'.guard u) (s'.finalizer u) tags) : Advances b u tags s s' :=
  ⟨[], by simp [hlog], fun _ _ => rfl, by simpa [tagsOf] using h⟩

omit [DecidableEq τ] in
theorem advances_append {x : ThreadStep} {tag : BracketTag} (hlog : s'.log = s.log ++ [x])
    (hx : ∀ id, x.bracketTag id = if b.toolId = id then some tag else none)
    (h : b.Stage (s'.task u) (s'.guard u) (s'.finalizer u) (tags ++ [tag])) :
    Advances b u tags s s' :=
  ⟨[x], hlog, fun id hid => by simp [tagsOf, hx, hid], by simpa [tagsOf, hx] using h⟩

/-- The next stage of a call whose future goes on. -/
theorem advances_of_advance {result : Except String T}
    (h : b.Stage (s.task u) (s.guard u) (s.finalizer u) tags)
    (hs : step s (u, .advance result) = some s') : Advances b u tags s s' := by
  generalize htask : s.task u = task at h
  generalize hguard : s.guard u = guard at h
  generalize hfinalizer : s.finalizer u = finalizer at h
  cases h with
  | called =>
    simp only [step, htask, b.program_eq] at hs
    cases hs
    exact advances_append (by simp) b.tag_startStep (by simpa [hguard, hfinalizer] using .opened)
  | opened =>
    simp only [step, htask, Bracket.opened] at hs
    cases hs
    exact advances_quiet (by simp) (by simpa [hguard, hfinalizer] using .arming)
  | arming =>
    simp only [step, htask, Bracket.arming] at hs
    cases hs
    exact advances_quiet (by simp) (by simpa [hfinalizer] using .operating)
  | operating =>
    simp only [step, htask, Bracket.operating] at hs
    cases hs
    exact advances_quiet (by simp) (by simpa [hguard, hfinalizer] using .closing _)
  | closing result =>
    simp only [step, htask, Bracket.closing] at hs
    cases hs
    exact advances_append (by simp) (b.tag_endStep result)
      (by simpa [hguard, hfinalizer] using .closed result)
  | closed result =>
    simp only [step, htask, Bracket.closed] at hs
    cases hs
    exact advances_quiet (by simp) (by simpa [hguard, hfinalizer] using .disarming result)
  | disarming result =>
    simp only [step, htask, Bracket.disarming] at hs
    cases hs
    exact advances_quiet (by simp) (by simpa [hfinalizer] using .returned _)
  | returned value | unwound tags | gone tags =>
    simp only [step, htask] at hs
    cases hs

theorem advances_of_step (h : b.Stage (s.task u) (s.guard u) (s.finalizer u) tags)
    (hs : step s (u, m) = some s') : Advances b u tags s s' := by
  cases m with
  | advance result => exact advances_of_advance h hs
  | panic =>
    obtain ⟨k, htask, rfl⟩ := step_panic hs
    rw [htask] at h
    obtain ⟨hguard, rfl⟩ := h.operating_eq
    exact advances_quiet (by simp) (by simpa [hguard] using .unwound _ (.inl rfl))
  | drop panicking =>
    obtain ⟨c, k, htask, rfl⟩ := step_drop hs
    rw [htask] at h
    exact advances_quiet (by simp) (by simpa using h.dropped panicking)
  | finalize =>
    obtain ⟨x, hx, rfl⟩ := step_finalize hs
    rw [hx] at h
    obtain ⟨rfl, hstage⟩ := h.finalized
    exact advances_append (by simp) b.tag_panicStep (by simpa using hstage)

variable {call : τ → Bracket T} {initial : List ThreadStep} {ls : List (τ × BracketMove T)}

/-- Every call is at one of its stages, and nobody else's tool steps have changed. -/
structure Staged (call : τ → Bracket T) (initial : List ThreadStep) (s : Brackets τ T) : Prop where
  stage : ∀ t, (call t).Stage (s.task t) (s.guard t) (s.finalizer t)
    (tagsOf (call t).toolId s.log)
  others : ∀ id, (∀ t, (call t).toolId ≠ id) → tagsOf id s.log = tagsOf id initial

omit [DecidableEq τ] in
theorem staged_start (hfresh : ∀ t, tagsOf (call t).toolId initial = []) :
    Staged call initial (start initial call) where
  stage t := by
    change (call t).Stage _ _ _ (tagsOf (call t).toolId initial)
    rw [hfresh t]
    exact .called
  others _ _ := rfl

/-- The tool steps of one call are not touched by the move of another. -/
theorem Staged.tags_frame (hids : Function.Injective fun t => (call t).toolId)
    (h : Staged call initial s) (hs : step s (u, m) = some s') (ht : t ≠ u) :
    tagsOf (call t).toolId s'.log = tagsOf (call t).toolId s.log := by
  obtain ⟨out, hlog, hout, -⟩ := advances_of_step (h.stage u) hs
  rw [hlog, tagsOf_append, hout _ fun he => ht (hids he).symm, List.append_nil]

theorem Staged.next (hids : Function.Injective fun t => (call t).toolId)
    (h : Staged call initial s) (hs : step s (u, m) = some s') : Staged call initial s' := by
  obtain ⟨out, hlog, hout, hstage⟩ := advances_of_step (h.stage u) hs
  constructor
  · intro t
    by_cases ht : t = u
    · subst ht
      rw [hlog, tagsOf_append]
      exact hstage
    · obtain ⟨htask, hguard, hfinalizer⟩ := step_frame hs ht
      rw [htask, hguard, hfinalizer, h.tags_frame hids hs ht]
      exact h.stage t
  · intro id hid
    rw [hlog, tagsOf_append, hout id (hid u), List.append_nil, h.others id hid]

/-- The tool steps of a call once its finalizer, if there is one, has run. -/
def finalTags (b : Bracket T) (s : Brackets τ T) (t : τ) : List BracketTag :=
  tagsOf b.toolId s.log ++ if (s.finalizer t).isSome then [.closed] else []

/-- A call whose future is gone, and whose tool steps will not make a pair any more. -/
def Lost (b : Bracket T) (s : Brackets τ T) (t : τ) : Prop :=
  s.task t = none ∧ finalTags b s t ≠ [] ∧ finalTags b s t ≠ [.opened, .closed]

/-- A dropped future leaves a finalizer exactly if the start step of its call is in the log and the
end step is not. -/
def FinalizesOpen (call : τ → Bracket T) (s : Brackets τ T) : τ × BracketMove T → Prop
  | (t, .drop panicking) =>
    (panicking = true ∧ (s.guard t).isSome) ↔ tagsOf (call t).toolId s.log = [.opened]
  | _ => True

instance decidableFinalizesOpen (call : τ → Bracket T) (s : Brackets τ T) :
    (l : τ × BracketMove T) → Decidable (FinalizesOpen call s l)
  | (t, .drop panicking) => inferInstanceAs (Decidable ((panicking = true ∧ (s.guard t).isSome) ↔
      tagsOf (call t).toolId s.log = [.opened]))
  | (_, .advance _) | (_, .panic) | (_, .finalize) => isTrue trivial

/-- The others neither lose a call nor bring it back. -/
theorem Staged.lost_frame (hids : Function.Injective fun t => (call t).toolId)
    (h : Staged call initial s) (hs : step s (u, m) = some s') (ht : t ≠ u) :
    Lost (call t) s' t ↔ Lost (call t) s t := by
  obtain ⟨htask, -, hfinalizer⟩ := step_frame hs ht
  simp only [Lost, finalTags, htask, hfinalizer, h.tags_frame hids hs ht]

/-- A call gets lost exactly by a drop that leaves a finalizer to a closed bracket, or none to an
open one. -/
theorem Staged.lost_iff (h : Staged call initial s) (hs : step s (u, m) = some s') :
    ¬ Lost (call u) s' u ↔ ¬ Lost (call u) s u ∧ FinalizesOpen call s (u, m) := by
  have hstage := h.stage u
  cases m with
  | advance result =>
    have htask : s.task u ≠ none ∧ s'.task u ≠ none := by
      simp only [step] at hs
      split at hs <;> cases hs <;> simp_all
    simp [Lost, FinalizesOpen, htask.1, htask.2]
  | panic =>
    obtain ⟨k, htask, rfl⟩ := step_panic hs
    rw [htask] at hstage
    obtain ⟨hguard, htags⟩ := hstage.operating_eq
    simp [Lost, finalTags, FinalizesOpen, htask, hguard, htags]
  | drop panicking =>
    obtain ⟨c, k, htask, rfl⟩ := step_drop hs
    rw [htask] at hstage
    have hnone := hstage.finalizer_eq
    rcases hstage.tags_running with ⟨htags, hguard⟩ | htags | htags
    · simp [Lost, finalTags, FinalizesOpen, htask, hnone, htags, hguard]
    · cases panicking <;> cases hguard : s.guard u <;>
        simp [Lost, finalTags, FinalizesOpen, htask, hnone, htags, hguard]
    · cases panicking <;> cases hguard : s.guard u <;>
        simp [Lost, finalTags, FinalizesOpen, htask, hnone, htags, hguard]
  | finalize =>
    obtain ⟨x, hx, rfl⟩ := step_finalize hs
    rw [hx] at hstage
    obtain ⟨rfl, -⟩ := hstage.finalized
    have hfinal : finalTags (call u) ((s.push (call u).panicStep).setFinalizer u none) u =
        finalTags (call u) s u := by
      simp [finalTags, hx, tagsOf]
    simp [Lost, FinalizesOpen, hfinal]

theorem Staged.no_lost_iff (hids : Function.Injective fun t => (call t).toolId)
    (h : Staged call initial s) (hs : step s (u, m) = some s') :
    (∀ t, ¬ Lost (call t) s' t) ↔ (∀ t, ¬ Lost (call t) s t) ∧ FinalizesOpen call s (u, m) := by
  constructor
  · intro hnone
    have hu := (h.lost_iff hs).mp (hnone u)
    refine ⟨fun t => ?_, hu.2⟩
    by_cases ht : t = u
    · exact ht ▸ hu.1
    · rw [← h.lost_frame hids hs ht]
      exact hnone t
  · rintro ⟨hnone, hdrop⟩ t
    by_cases ht : t = u
    · exact ht ▸ (h.lost_iff hs).mpr ⟨hnone u, hdrop⟩
    · rw [h.lost_frame hids hs ht]
      exact hnone t

omit [DecidableEq τ] in
/-- At rest, a call has left nothing or a pair exactly if it is not lost. -/
theorem Staged.tags_atRest (h : Staged call initial s) (hrest : s.AtRest) :
    (tagsOf (call t).toolId s.log = [] ∨ tagsOf (call t).toolId s.log = [.opened, .closed]) ↔
      ¬ Lost (call t) s t := by
  have hstage := h.stage t
  obtain ⟨htask, hfinalizer⟩ := hrest t
  rw [hfinalizer] at hstage
  simp only [Lost, finalTags, hfinalizer]
  generalize s.task t = task at hstage htask ⊢
  generalize tagsOf (call t).toolId s.log = tags at hstage ⊢
  generalize s.guard t = guard at hstage
  cases hstage with
  | returned value => simp
  | gone tags =>
    simp
    tauto
  | called | opened | arming | operating | closing result | closed result | disarming result =>
    cases htask

theorem staged_run (hids : Function.Injective fun t => (call t).toolId)
    (hfresh : ∀ t, tagsOf (call t).toolId initial = [])
    (hrun : (machine τ T).run (start initial call) ls = some s) : Staged call initial s :=
  Machine.run_invariant (fun _ _ _ hp hs => hp.next hids hs) (staged_start hfresh) hrun

/-- Once all calls and finalizers have ended, all tool steps of the log are paired exactly if every
future that was dropped inside its bracket, and no other, left a finalizer. -/
theorem toolSteps_paired_iff (hids : Function.Injective fun t => (call t).toolId)
    (hinitial : Paired initial) (hfresh : ∀ t, tagsOf (call t).toolId initial = [])
    (hrun : (machine τ T).run (start initial call) ls = some s) (hrest : s.AtRest) :
    Paired s.log ↔ (machine τ T).Along (FinalizesOpen call) (start initial call) ls := by
  have hstaged := staged_run hids hfresh hrun
  have hlost : (∀ t, ¬ Lost (call t) s t) ↔ (∀ t, ¬ Lost (call t) (start initial call) t) ∧
      (machine τ T).Along (FinalizesOpen call) (start initial call) ls :=
    Machine.run_iff_along (I := Staged call initial) (fun _ _ _ hp hs => hp.next hids hs)
      (fun _ _ _ hp hs => hp.no_lost_iff hids hs) (staged_start hfresh) hrun
  have hstart : ∀ t, ¬ Lost (call t) (start initial call) t := fun t ht => nomatch ht.1
  rw [← and_iff_right hstart (b := Machine.Along _ _ _ _), ← hlost]
  constructor
  · exact fun hpaired t => (hstaged.tags_atRest hrest).mp (hpaired (call t).toolId)
  · intro hnone id
    by_cases hid : ∃ t, (call t).toolId = id
    · obtain ⟨t, rfl⟩ := hid
      exact (hstaged.tags_atRest hrest).mpr (hnone t)
    · rw [hstaged.others id fun t ht => hid ⟨t, ht⟩]
      exact hinitial id

def searchBracket (id : String) : Bracket Unit :=
  ⟨⟨"agent", "loop", "search", "Search", .null, none⟩, ⟨id, "", "", ""⟩, fun _ => .ok .null⟩

def twoBrackets (t : Bool) : Bracket Unit := searchBracket (if t then "one" else "two")

/-- Both calls start in one task; one panics, and the other is dropped by its unwinding. -/
def panicMoves : List (Bool × BracketMove Unit) :=
  List.replicate 3 (true, .advance (.ok ())) ++ List.replicate 3 (false, .advance (.ok ())) ++
    [(true, .panic), (false, .drop true), (true, .finalize), (false, .finalize)]

theorem twoBrackets_ids : Function.Injective fun t => (twoBrackets t).toolId := by
  intro t u h
  cases t <;> cases u <;> first | rfl | exact absurd h (by decide)

theorem toolSteps_paired_panic :
    ∃ s, (machine Bool Unit).run (start [] twoBrackets) panicMoves = some s ∧
    s.log.length = 4 ∧ Paired s.log := by
  have hrun : ((machine Bool Unit).run (start [] twoBrackets) panicMoves).map (fun s =>
      (s.log.length, running (s.task true), running (s.task false), s.finalizer true,
        s.finalizer false)) = some (4, false, false, none, none) := by
    decide +kernel
  obtain ⟨s, hs, heq⟩ := Option.map_eq_some_iff.mp hrun
  simp only [Prod.mk.injEq] at heq
  obtain ⟨hlength, hpanicked, hreturned, hfinalized, hnone⟩ := heq
  have hrest : s.AtRest := fun t => match t with
    | true => ⟨hpanicked, hfinalized⟩
    | false => ⟨hreturned, hnone⟩
  have hdrops : (machine Bool Unit).Along (FinalizesOpen twoBrackets) (start [] twoBrackets)
      panicMoves := by
    decide +kernel
  exact ⟨s, hs, hlength, (toolSteps_paired_iff twoBrackets_ids (fun _ => Or.inl rfl)
    (fun _ => rfl) hs hrest).mpr hdrops⟩

/-- A future is dropped while its tool runs. -/
theorem toolSteps_unpaired_drop :
    ∃ s, (machine Bool Unit).run (start [] twoBrackets)
      (List.replicate 3 (true, .advance (.ok ())) ++ [(true, .drop false), (false, .drop false)]) = some s ∧
    s.AtRest ∧ tagsOf "one" s.log = [.opened] ∧ ¬ Paired s.log := by
  have hrun : ((machine Bool Unit).run (start [] twoBrackets)
      (List.replicate 3 (true, .advance (.ok ())) ++ [(true, .drop false), (false, .drop false)])).map
      (fun s => (tagsOf "one" s.log, running (s.task true), running (s.task false),
        s.finalizer true, s.finalizer false)) = some ([.opened], false, false, none, none) := by
    decide +kernel
  obtain ⟨s, hs, heq⟩ := Option.map_eq_some_iff.mp hrun
  simp only [Prod.mk.injEq] at heq
  obtain ⟨htags, hdropped, hcalled, hfinalizer, hnone⟩ := heq
  refine ⟨s, hs, fun t => ?_, htags, fun h => ?_⟩
  · cases t with
    | true => exact ⟨hdropped, hfinalizer⟩
    | false => exact ⟨hcalled, hnone⟩
  · rcases h "one" with h | h <;> simp [h] at htags

end Brackets
end ReactRuntime.Session
