import ReactRuntime.Core.Budget
import ReactRuntime.Session.Reports
import ReactRuntime.Transport.Mapping

/-!
# The frames of a finished suite

A suite returns a list of frames, and the runner sends a message for each of them up to the first
that ends the call. An interrupt is put to a policy, which may have the suite run once more.
-/
namespace ReactRuntime.Transport
open Serde ReactRuntime.Core Session

inductive AgentFrame where
  | final (kind : String) (payload : Json) (display : Option String)
  | review (text : String) (extraMeta : Option Json)
  | awaitUser (prompt : String)
  | awaitApproval (prompt : String)
deriving DecidableEq

/-- A checkpoint is shown as a review. -/
def AgentFrame.convert : FlowFrame → AgentFrame
  | .complete kind payload display => .final kind payload display
  | .review text extraMeta => .review text extraMeta
  | .checkpoint kind payload display => .review (display.getD kind) (some payload)
  | .interrupt kind prompt =>
    if kind = "await_approval" then .awaitApproval prompt else .awaitUser prompt

inductive InterruptDecision where
  | forward
  | autoApprove
  | reject (reason : String)
deriving DecidableEq, Repr

structure InterruptPolicy where
  onAwaitUser : String → InterruptDecision
  onAwaitApproval : String → InterruptDecision

/-- The policy for clients that can answer. -/
def forwardPolicy : InterruptPolicy := ⟨fun _ => .forward, fun _ => .forward⟩

/-- The messages that carry a number of the thread. -/
inductive SequencedMessage where
  | review (threadSeq : Int32) (text : String)
  | final (threadSeq : Int32) (result : FinalResult)
  | awaitUser (threadSeq : Int32) (prompt : String)
  | awaitApproval (threadSeq : Int32) (prompt : String)
deriving DecidableEq

/-- The message ends the call. -/
def SequencedMessage.terminal : SequencedMessage → Bool
  | .review _ _ => false
  | .final _ _ | .awaitUser _ _ | .awaitApproval _ _ => true

/-- What the runner does after the frames: return, return an error, or run the suite once more, after
it has logged the approval in place of the user. -/
inductive AfterFrames where
  | finished
  | rejected (reason : String)
  | rerun (approved : Bool)
deriving DecidableEq, Repr

/-- The counter of the thread after the frames, the messages sent for them, and what comes then. -/
structure FramesSent where
  threadSeq : Int32
  messages : List SequencedMessage
  next : AfterFrames
deriving DecidableEq

section
variable (toString : Json → Except String String) (policy : InterruptPolicy)

/-- An interrupt that the policy decides about. -/
def sendInterrupt (threadSeq : Int32) (decision : InterruptDecision) (approved : Bool)
    (message : Int32 → SequencedMessage) : FramesSent :=
  match decision with
  | .reject reason => ⟨threadSeq, [], .rejected reason⟩
  | .autoApprove => ⟨threadSeq, [], .rerun approved⟩
  | .forward => ⟨threadSeq + 1, [message (threadSeq + 1)], .finished⟩

def sendFrames (threadSeq : Int32) : List AgentFrame → FramesSent
  | [] => ⟨threadSeq, [], .finished⟩
  | .review text _ :: rest =>
    let sent := sendFrames (threadSeq + 1) rest
    { sent with messages := .review (threadSeq + 1) text :: sent.messages }
  | .final kind payload display :: _ =>
    let result := wsFinalResultFromTypedFinal toString kind payload display
    ⟨threadSeq + 1, [.final (threadSeq + 1) result], .finished⟩
  | .awaitUser prompt :: _ =>
    sendInterrupt threadSeq (policy.onAwaitUser prompt) false (.awaitUser · prompt)
  | .awaitApproval prompt :: _ =>
    sendInterrupt threadSeq (policy.onAwaitApproval prompt) true (.awaitApproval · prompt)

/-- The step that the runner logs when it approves in place of the user. -/
def approveStep (agent ts : String) : ThreadStep := .user "approve" .okay ts agent

end
end ReactRuntime.Transport
