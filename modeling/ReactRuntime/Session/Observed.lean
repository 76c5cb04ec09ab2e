import ReactRuntime.Session.Store

/-!
# Observed tool calls

`run_observed` brackets an operation with a `ToolStart` and a `ToolEnd` step. The
end step is also kept in a guard, which appends it if the operation unwinds.
-/
namespace ReactRuntime.Session
open Library Serde ReactRuntime.Core Storage

structure ToolStepMeta where
  agent : String
  phase : String
  name : String
  cleanName : String
  args : Json
  ctx : Option ExecutionContext
deriving DecidableEq

/-- The random id of a call and what the clock shows when its steps are built. -/
structure ToolStamp where
  toolId : String
  startTs : String
  panicTs : String
  endTs : String
deriving DecidableEq

/-- The payload that the user interface shows. -/
def ToolObservation.payload (o : ToolObservation) : Option Json :=
  (o.extra.get "payload").or (o.extra.get "ui_payload")

namespace ToolStepMeta
variable (info : ToolStepMeta) (stamp : ToolStamp)

def startStep : ThreadStep :=
  .toolStart stamp.toolId info.name info.cleanName info.args .running none info.ctx stamp.startTs
    info.agent

/-- The step that the guard appends. -/
def panicStep : ThreadStep :=
  .toolEnd stamp.toolId info.name info.cleanName info.args .failed none info.ctx
    (.fromFailure ("tool '" ++ info.name ++ "' panicked before producing a normal observation"))
    stamp.panicTs info.agent

def endStep (status : ToolStepStatus) (obs : ToolObservation) : ThreadStep :=
  .toolEnd stamp.toolId info.name info.cleanName info.args status obs.payload info.ctx obs
    stamp.endTs info.agent

variable {T : Type} (toObservation : T → Except String Json)

/-- Status, observation and returned value, by the result of the operation. -/
def outcome : Except String T → ToolStepStatus × ToolObservation × Except String T
  | .ok value => match toObservation value with
    | .ok raw => (.ok, .fromSuccess raw, .ok value)
    | .error e =>
      let msg := "failed to build observation for " ++ info.name ++ ": " ++ e
      (.failed, .fromFailure msg, .error msg)
  | .error e => (.failed, .fromFailure e, .error e)

/-- The end step of a call whose operation has returned. -/
def endStepOf (result : Except String T) : ThreadStep :=
  info.endStep stamp (info.outcome toObservation result).1
    (info.outcome toObservation result).2.1

end ToolStepMeta

/-- What a bracketed call uses: the append of the store, and the guard. -/
structure Observer (C : Type) (A : C → Type) where
  appendStep : ThreadStep → Program C A (Except CoreError Unit)
  arm : ThreadStep → Program C A Unit
  disarm : Program C A Unit

/-- The operation starts after the guard is armed, and the guard is disarmed after the end step is
appended. -/
def Observer.runObserved {C : Type} {A : C → Type} {T : Type} (self : Observer C A)
    (info : ToolStepMeta) (stamp : ToolStamp) (operation : Program C A (Except String T))
    (toObservation : T → Except String Json) : Program C A (Except String T) := do
  match ← self.appendStep (info.startStep stamp) with
  | .error e => return .error ("audit unavailable (tool_start): " ++ e.display)
  | .ok () => do
    self.arm (info.panicStep stamp)
    let result ← operation
    match ← self.appendStep (info.endStepOf stamp toObservation result) with
    | .error e => return .error ("audit unavailable (tool_end): " ++ e.display)
    | .ok () => do
      self.disarm
      return (info.outcome toObservation result).2.2

/-- A call whose operation does not unwind needs no guard. -/
def ThreadStore.observer {C : Type} {A : C → Type} {B E : Type} [DecidableEq E]
    (self : ThreadStore C A B E) (showEtag : Option E → String) (threadId : String) :
    Observer C A where
  appendStep := self.appendStep showEtag threadId
  arm _ := return ()
  disarm := return ()

namespace Observer
variable {C : Type} {A : C → Type} {T σ : Type} {self : Observer C A} {info : ToolStepMeta}
  {stamp : ToolStamp} {operation : Program C A (Except String T)}
  {toObservation : T → Except String Json} {h : (c : C) → σ → σ × A c} {s m : σ}

/-- A call whose start step is not appended ends there. -/
theorem eval_runObserved_of_start {e : CoreError}
    (hstart : (self.appendStep (info.startStep stamp)).eval h s = (m, .error e)) :
    (self.runObserved info stamp operation toObservation).eval h s =
      (m, .error ("audit unavailable (tool_start): " ++ e.display)) := by
  rw [runObserved, Program.bind_eq, Program.eval_bind_of hstart]
  rfl

/-- A call whose operation has returned goes on to append its end step. -/
theorem eval_runObserved_of_operation {m' : σ} {result : Except String T}
    (hstart : (self.appendStep (info.startStep stamp)).eval h s = (m, .ok ()))
    (hop : ((self.arm (info.panicStep stamp)).bind fun _ => operation).eval h m = (m', result)) :
    (self.runObserved info stamp operation toObservation).eval h s =
      ((self.appendStep (info.endStepOf stamp toObservation result)).bind fun r => match r with
        | .error e => .ret (.error ("audit unavailable (tool_end): " ++ e.display))
        | .ok () => self.disarm.bind fun _ =>
          .ret (info.outcome toObservation result).2.2).eval h m' := by
  rw [runObserved, Program.bind_eq, Program.eval_bind_of hstart]
  simp only [Program.bind_eq]
  rw [← Program.bind_assoc, Program.eval_bind_of hop]
  rfl

/-- What the operation turns `I` into, the whole call turns `I` into, if the steps around it disturb
neither. -/
theorem ensures_runObserved {I J : σ → Prop}
    (hstart : ∀ step, (self.appendStep step).Keeps h I) (harm : ∀ step, (self.arm step).Keeps h I)
    (hop : operation.Ensures h I fun _ => J) (hend : ∀ step, (self.appendStep step).Keeps h J)
    (hdisarm : self.disarm.Keeps h J) (hweaken : ∀ s, I s → J s) :
    (self.runObserved info stamp operation toObservation).Ensures h I fun _ => J := by
  refine Program.Ensures.bind (hstart _) fun started => ?_
  cases started with
  | error e => exact Program.Ensures.ret hweaken
  | ok u =>
    refine Program.Ensures.bind (harm _) fun _ => Program.Ensures.bind hop fun result => ?_
    refine Program.Keeps.bind (hend _) fun ended => ?_
    cases ended with
    | error e => exact Program.Keeps.ret
    | ok u => exact Program.Keeps.bind hdisarm fun _ => Program.Keeps.ret

/-- What a monitor sees of the whole call, from what it sees of the steps and of the operation. -/
theorem follows_runObserved {μ : Type} {M : Monitor C A μ} {expected : (c : C) → A c → Prop}
    {S : μ → Prop} {P D R : Except String T → μ → Prop} {m : μ}
    (hstart : (self.appendStep (info.startStep stamp)).Follows M expected (fun r m => match r with
      | .ok () => S m
      | .error e => R (.error ("audit unavailable (tool_start): " ++ e.display)) m) m)
    (hop : ∀ m, S m →
      ((self.arm (info.panicStep stamp)).bind fun _ => operation).Follows M expected P m)
    (hend : ∀ result m, P result m →
      (self.appendStep (info.endStepOf stamp toObservation result)).Follows M expected
        (fun r m => match r with
          | .ok () => D result m
          | .error e => R (.error ("audit unavailable (tool_end): " ++ e.display)) m) m)
    (hdisarm : ∀ result m, D result m → self.disarm.Follows M expected
      (fun _ => R (info.outcome toObservation result).2.2) m) :
    (self.runObserved info stamp operation toObservation).Follows M expected R m := by
  refine hstart.bind fun started m hm => ?_
  cases started with
  | error e => exact Program.Follows.ret hm
  | ok u =>
    have hrest := (hop m hm).bind (f := fun result =>
      (self.appendStep (info.endStepOf stamp toObservation result)).bind fun r => match r with
        | .error e => .ret (.error ("audit unavailable (tool_end): " ++ e.display))
        | .ok () => self.disarm.bind fun _ =>
          .ret (info.outcome toObservation result).2.2) (R := R) fun result m hresult =>
        (hend result m hresult).bind fun ended m hended => ?_
    · rwa [Program.bind_assoc] at hrest
    · cases ended with
      | error e => exact Program.Follows.ret hended
      | ok u => exact (hdisarm result m hended).bind fun _ m h => Program.Follows.ret h

end Observer

/-- The end step of a successful call. -/
theorem ToolStepMeta.endStepOf_success {T : Type} (info : ToolStepMeta) (stamp : ToolStamp)
    {toObservation : T → Except String Json} {value : T} {raw : Json}
    (h : toObservation value = .ok raw) : info.endStepOf stamp toObservation (.ok value) =
      info.endStep stamp .ok (.fromSuccess raw) := by
  simp only [endStepOf, outcome, h]

end ReactRuntime.Session
