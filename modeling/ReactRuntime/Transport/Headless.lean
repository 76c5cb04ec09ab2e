import ReactRuntime.Session.ControlState
import ReactRuntime.Transport.EventHub
import ReactRuntime.View.Materialization
import ReactRuntime.View.Projection

/-!
# The exit code of a headless run

A headless run listens to the hub until it sees a final message, and then decides its exit code:
by the mode in the control state, and without a mode by whether it saw a final message. The
documented code is decided by the items of the materialized log.
-/
namespace ReactRuntime.Transport
open Library Serde ReactRuntime.Core Session View

def DEFAULT_EVENT_HUB_CAPACITY : Nat := 4096

/-- A server message, as far as the capture task tells them apart. -/
inductive HubMessage where
  | final (threadId : String)
  | awaitUser (threadId : String)
  | awaitApproval (threadId : String)
  | threadState (threadId : String)
  | other
deriving DecidableEq, Repr

/-- The variables of the capture task, and what it publishes on the channel of the caller. -/
structure Capture where
  lastThreadId : Option String
  sawFinal : Bool
  published : Option String
deriving DecidableEq, Repr

namespace Capture

def start : Capture := ⟨none, false, none⟩

/-- Take note of the thread of a message, and publish the first one. -/
def note (c : Capture) (threadId : String) : Capture :=
  { c with lastThreadId := some threadId, published := c.published.or (some threadId) }

/-- The loop up to the first final message, or to the end of a closed channel. -/
def loop (c : Capture) : List (Recv HubMessage) → Capture
  | [] => c
  | .lagged _ :: rest => c.loop rest
  | .ok (.final threadId) :: _ => { c.note threadId with sawFinal := true }
  | .ok (.awaitUser threadId) :: rest => (c.note threadId).loop rest
  | .ok (.awaitApproval threadId) :: rest => (c.note threadId).loop rest
  | .ok (.threadState threadId) :: rest => (c.note threadId).loop rest
  | .ok .other :: rest => c.loop rest

end Capture

/-- `str::to_ascii_lowercase`. -/
def toAsciiLowercase (s : String) : String := s.map Char.toLower

def classifyError (summary : String) : String :=
  let s := toAsciiLowercase summary
  if containsText s "llm_error" || containsText s "an error occurred while processing your request" ||
      containsText s "overloaded" then
    "llm_transient"
  else if containsText s "timed out reading response" || containsText s "timed out" ||
      containsText s "network error" then
    "network_timeout"
  else if containsText s "max_output_tokens" || containsText s "output truncated" then
    "token_truncation"
  else if containsText s "too many consecutive batch failures" || containsText s "batch_locked" then
    "batch_locked"
  else if containsText s "invalid staging model sql" then "invalid_staging_sql"
  else if containsText s "nosuchkey" || containsText s "no such key" || containsText s "not found" then
    "missing_artifact"
  else "unknown"

/-- A text that is not blank, trimmed. -/
def nonBlank (text : Option String) : Option String := text.bind trimmed

def replaceNewlines (s : String) : String :=
  String.join (s.toList.map fun c => if c = '\n' then " | " else String.singleton c)

def summarizeFailureState (st : ThreadLogViewCache) (events : List ThreadEvent) : Option String :=
  let lastFailedEvent := events.reverse.find? fun e => e.status = some .failed
  let phase := lastFailedEvent.bind ThreadEvent.phase
  let tool := lastFailedEvent.bind fun ev => ev.cleanName.or ev.name
  let eventDetail := nonBlank (lastFailedEvent.bind ThreadEvent.error)
  let itemDetail := ((st.items.entries.map Prod.snd).find? fun it => it.status = .failed).bind
    fun it => nonBlank (it.lastError.map ThreadItemError.summary)
  match eventDetail.or itemDetail with
  | none => none
  | some detail =>
    let phaseText := match phase.filter fun p => !(trim p).isEmpty with
      | some p => " phase=" ++ p
      | none => ""
    let toolText := match tool.filter fun t => !(trim t).isEmpty with
      | some t => " tool=" ++ t
      | none => ""
    some ("failure summary: class=" ++ classifyError detail ++ phaseText ++ toolText ++
      " detail=" ++ replaceNewlines detail)

structure HeadlessResult where
  exitCode : Int
  threadId : String
  failureSummary : Option String
deriving DecidableEq, Repr

/-- What a headless run meets: its options, what happens on the hub, how the run ends, and what the
storage holds then. -/
structure HeadlessRun where
  threadId : Option String
  suiteId : String
  hub : List (HubAction HubMessage)
  runResult : Except String String
  controlState : String → Except CoreError (Option Json)
  threadLog : String → Except CoreError ThreadLog

namespace HeadlessRun
variable (run : HeadlessRun)

def capture : Capture :=
  Capture.start.loop (EventHub.new.received DEFAULT_EVENT_HUB_CAPACITY run.hub)

def observedThreadId : Option String := run.threadId.or run.capture.lastThreadId

/-- `ControlStateStore::load` for a plain JSON value. -/
def loadOutcome (threadId : String) : Except CoreError (Option Json) := do
  match ← run.controlState threadId with
  | none => return none
  | some raw => ControlStateStore.decode raw run.suiteId

/-- The mode of the control state, if it can be read and holds one. -/
def controlMode (threadId : String) : Option String :=
  match run.loadOutcome threadId with
  | .ok (some outcome) =>
    ((outcome.get "phase_state").bind fun ps => ps.get "mode").bind Json.asStr
  | _ => none

/-- The exit code of a run that ends well, on a thread. -/
def decide (millisBetween : String → String → Option Int) (threadId : String) : HeadlessResult :=
  match run.controlMode threadId with
  | some mode =>
    if mode = "failed" then
      let summary := match run.threadLog threadId with
        | .ok log => summarizeFailureState (.materializeStateFromLog millisBetween threadId log)
          (buildThreadEventsFromLog log 500)
        | .error _ => none
      ⟨1, threadId, summary⟩
    else ⟨0, threadId, none⟩
  | none =>
    if !run.capture.sawFinal then ⟨2, threadId, some "Thread did not reach a final state."⟩
    else ⟨0, threadId, none⟩

def runHeadless (millisBetween : String → String → Option Int) : Except String HeadlessResult :=
  match run.runResult with
  | .error e => match run.observedThreadId with
    | some threadId => .ok ⟨1, threadId, some e⟩
    | none => .error e
  | .ok tid => .ok (run.decide millisBetween (run.observedThreadId.getD tid))

end HeadlessRun

namespace HeadlessRun
variable (run : HeadlessRun)

/-- A final message was sent. -/
def ReachedFinal : Prop := ∃ threadId, .final threadId ∈ EventHub.emitted run.hub

/-- A final message came through to the receiver. -/
def ReceivedFinal : Prop :=
  ∃ threadId, .ok (.final threadId) ∈ EventHub.new.received DEFAULT_EVENT_HUB_CAPACITY run.hub

/-- Exit code 1 with a failed item, 0 without one in a final state, and 2 otherwise. -/
def Documented (failed : Prop) (exitCode : Int) : Prop :=
  (exitCode = 1 ↔ failed) ∧ (exitCode = 0 ↔ ¬ failed ∧ run.ReachedFinal) ∧
    (exitCode = 2 ↔ ¬ failed ∧ ¬ run.ReachedFinal)

/-- A mode says what the items and the final message say, and without one no item has failed and a
final message is not lost. -/
def ModeAgrees (mode : Option String) (failed : Prop) : Prop :=
  match mode with
  | some mode => if mode = "failed" then failed else ¬ failed ∧ run.ReachedFinal
  | none => ¬ failed ∧ (run.ReachedFinal → run.ReceivedFinal)

end HeadlessRun

theorem Capture.sawFinal_loop (rs : List (Recv HubMessage)) (c : Capture) :
    (c.loop rs).sawFinal = true ↔
      c.sawFinal = true ∨ ∃ threadId, .ok (.final threadId) ∈ rs := by
  induction rs generalizing c with
  | nil => simp [loop]
  | cons r rs ih =>
    cases r with
    | lagged skipped => simp [loop, ih]
    | ok msg => cases msg <;> simp [loop, ih, note]

theorem HeadlessRun.sawFinal_capture (run : HeadlessRun) :
    run.capture.sawFinal = true ↔ run.ReceivedFinal := by
  rw [capture, Capture.sawFinal_loop, ReceivedFinal]
  exact or_iff_right Bool.false_ne_true

theorem HeadlessRun.ReceivedFinal.reached {run : HeadlessRun} (h : run.ReceivedFinal) :
    run.ReachedFinal := by
  obtain ⟨threadId, hmem⟩ := h
  exact ⟨threadId, EventHub.mem_of_received hmem⟩

/-- A final message with fewer messages behind it than the hub holds is not lost. -/
theorem HeadlessRun.receivedFinal_of_last {run : HeadlessRun} {threadId : String} {i : Nat}
    (hmsg : (EventHub.emitted run.hub)[i]? = some (.final threadId))
    (hlast : (EventHub.emitted run.hub).length ≤ i + DEFAULT_EVENT_HUB_CAPACITY) :
    run.ReceivedFinal :=
  ⟨threadId, EventHub.mem_received_of_last hmsg hlast (Nat.zero_le i)⟩

/-- The exit code of a run that ends well, by the mode and by what the receiver got. -/
theorem HeadlessRun.exitCode_decide (run : HeadlessRun)
    (millisBetween : String → String → Option Int) (threadId : String) :
    (run.decide millisBetween threadId).exitCode = match run.controlMode threadId with
      | some mode => if mode = "failed" then 1 else 0
      | none => if run.capture.sawFinal then 0 else 2 := by
  unfold decide
  cases run.controlMode threadId with
  | some mode =>
    by_cases hfailed : mode = "failed"
    · simp [hfailed]
    · simp [hfailed]
  | none => cases run.capture.sawFinal <;> rfl

/-- A run has the documented exit code exactly if the mode of its control state agrees with the
items of the log and the final message. -/
theorem exitCode_documented_iff (millisBetween : String → String → Option Int) (run : HeadlessRun)
    (tid : String) (hrun : run.runResult = .ok tid) (log : ThreadLog)
    (_hlog : run.threadLog (run.observedThreadId.getD tid) = .ok log) :
    let threadId := run.observedThreadId.getD tid
    let failed :=
      (ThreadLogViewCache.materializeStateFromLog millisBetween threadId log).hasFailedItem = true
    (∃ result, run.runHeadless millisBetween = .ok result ∧
        run.Documented failed result.exitCode) ↔
      run.ModeAgrees (run.controlMode threadId) failed := by
  intro threadId failed
  have hresult : run.runHeadless millisBetween = .ok (run.decide millisBetween threadId) := by
    rw [HeadlessRun.runHeadless, hrun]
  have hsaw := run.sawFinal_capture
  have hreached : run.ReceivedFinal → run.ReachedFinal := HeadlessRun.ReceivedFinal.reached
  simp only [hresult, Except.ok.injEq, exists_eq_left', HeadlessRun.Documented,
    HeadlessRun.ModeAgrees, run.exitCode_decide millisBetween threadId]
  cases run.controlMode threadId with
  | some mode =>
    by_cases hfailed : mode = "failed"
    · simp [hfailed]
      tauto
    · simp [hfailed]
      tauto
  | none =>
    by_cases hreceived : run.ReceivedFinal
    · have hfinal := hreached hreceived
      simp [hsaw.mpr hreceived, hreceived, hfinal]
    · have hnone : run.capture.sawFinal = false := by
        rw [← Bool.not_eq_true, hsaw]
        exact hreceived
      simp [hnone, hreceived]
      tauto

/-! Two runs of a thread. -/

/-- The log of a phase that ends with a completion. -/
def phaseLog : ThreadLog :=
  { ThreadLog.default with
    steps := [.phase "plan" none none none Observation.okay "t1" "a",
      .complete "kb" (.obj [("answer", .str "yes")]) none Observation.okay "t2" "a"] }

/-- A run that only sends a question to the user, with a mode in the control state. -/
def awaitingRun (mode : Option String) (messages : List HubMessage) : HeadlessRun where
  threadId := some "t"
  suiteId := "kb"
  hub := messages.map .emit
  runResult := .ok "t"
  controlState _ := .ok (mode.map fun mode => ControlStateStore.encode "kb"
    (.obj [("phase_state", .obj [("mode", .str mode)])]))
  threadLog _ := .ok phaseLog

/-- Without a mode, a final message gives the documented exit code. -/
theorem exitCode_documented_final :
    ∃ result, (awaitingRun none [.final "t"]).runHeadless (fun _ _ => none) = .ok result ∧
      (awaitingRun none [.final "t"]).Documented
        ((ThreadLogViewCache.materializeStateFromLog (fun _ _ => none) "t" phaseLog).hasFailedItem =
          true) result.exitCode :=
  (exitCode_documented_iff (fun _ _ => none) (awaitingRun none [.final "t"]) "t" rfl phaseLog
    rfl).mpr ⟨by decide +kernel, fun _ => ⟨"t", by decide +kernel⟩⟩

/-- A run that waits for the user has exit code 0 where its suite keeps a mode. -/
theorem exitCode_awaiting :
    ¬ ∃ result, (awaitingRun (some "run") [.awaitUser "t"]).runHeadless (fun _ _ => none) =
        .ok result ∧
      (awaitingRun (some "run") [.awaitUser "t"]).Documented
        ((ThreadLogViewCache.materializeStateFromLog (fun _ _ => none) "t" phaseLog).hasFailedItem =
          true) result.exitCode := by
  rintro ⟨result, hresult, hdocumented⟩
  have hrun : ((awaitingRun (some "run") [.awaitUser "t"]).runHeadless
      (fun _ _ => none)).toOption.map HeadlessResult.exitCode = some 0 := by decide +kernel
  have hcode : result.exitCode = 0 := by
    rw [hresult] at hrun
    exact Option.some.inj hrun
  obtain ⟨threadId, hmem⟩ := (hdocumented.2.1.mp hcode).2
  simp [awaitingRun, EventHub.emitted] at hmem

end ReactRuntime.Transport
