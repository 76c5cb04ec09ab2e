import ReactRuntime.Library.Machine
import ReactRuntime.Transport.SuiteRunner
import Mathlib.Data.List.Zip

/-!
# The live stream of a suite run

The suite runs in a task of its own and appends to the log of the thread. The runner reads the
length of the log once, then polls the log and sends an event for each step that it has not looked
at. It does not look again when the task is over.
-/
namespace ReactRuntime.Transport
open Library Serde ReactRuntime.Core Session

/-- A step that is sent as an event. -/
def isEventStep : ThreadStep → Bool
  | .phase .. | .toolStart .. | .toolEnd .. | .llmStart .. | .llmEnd .. => true
  | _ => false

/-- The suite task: still running, or finished with its frames or its error. -/
inductive SuiteTask where
  | running
  | finished (result : Except String (List FlowFrame))
deriving DecidableEq

/-- The log, the task and the variables of the runner: the steps it has looked at, the steps it
has sent with their index, its messages with a number, and its result. -/
structure StreamState where
  log : List ThreadStep
  task : SuiteTask
  lastEmittedStepIdx : Option Nat
  events : List (ThreadStep × Nat)
  autoResumes : UInt8
  threadSeq : Int32
  sent : List SequencedMessage
  result : Option (Except String Unit)

/-- One step of the task or of the runner. A read of the log may fail, and so may the append of an
approval. -/
inductive StreamAction where
  | append (step : ThreadStep)
  | finish (result : Except String (List FlowFrame))
  | readLength (ok : Bool)
  | toolTick (ok : Bool)
  | complete (policy : InterruptPolicy) (ts : String) (append : Except String Unit)

/-- The steps of a log from an index on that are sent as events. -/
def eventsFrom (idx : Nat) (steps : List ThreadStep) : List (ThreadStep × Nat) :=
  (steps.zipIdx idx).filter fun step => isEventStep step.1

namespace StreamState

def start (log : List ThreadStep) (threadSeq : Int32) : StreamState :=
  ⟨log, .running, none, [], 0, threadSeq, [], none⟩

/-- The suite once more, unless the auto-resumes are used up. -/
def respawn (s : StreamState) : StreamState :=
  match chargeAutoResume s.autoResumes with
  | .ok used => { s with autoResumes := used, task := .running }
  | .error _ => { s with result := some (.error "budget exhausted: auto_resumes") }

section
variable (toString : Json → Except String String) (agent : String)

/-- The branch of the loop for a finished task. -/
def complete (s : StreamState) (policy : InterruptPolicy) (ts : String)
    (append : Except String Unit) (result : Except String (List FlowFrame)) : StreamState :=
  match result with
  | .error e => { s with result := some (.error e) }
  | .ok frames =>
    let sent := sendFrames toString policy s.threadSeq (frames.map AgentFrame.convert)
    let s := { s with threadSeq := sent.threadSeq, sent := s.sent ++ sent.messages }
    match sent.next with
    | .finished => { s with result := some (.ok ()) }
    | .rejected reason => { s with result := some (.error reason) }
    | .rerun false => s.respawn
    | .rerun true => match append with
      | .error e => { s with result := some (.error e) }
      | .ok () => { s with log := s.log ++ [approveStep agent ts] }.respawn

/-- The step machine; a finished call does nothing more. -/
def step? (s : StreamState) : StreamAction → Option StreamState
  | .append step =>
    if s.result = none ∧ s.task = .running then some { s with log := s.log ++ [step] } else none
  | .finish result =>
    if s.result = none ∧ s.task = .running then some { s with task := .finished result } else none
  | .readLength ok =>
    if s.result = none ∧ s.lastEmittedStepIdx = none then
      some { s with lastEmittedStepIdx := some (if ok then s.log.length else 0) }
    else none
  | .toolTick ok =>
    match s.result, s.lastEmittedStepIdx with
    | none, some cursor =>
      if !ok || s.log.length ≤ cursor then some s
      else some { s with
        events := s.events ++ eventsFrom cursor (s.log.drop cursor)
        lastEmittedStepIdx := some s.log.length }
    | _, _ => none
  | .complete policy ts append =>
    match s.result, s.lastEmittedStepIdx, s.task with
    | none, some _, .finished result => some (s.complete toString agent policy ts append result)
    | _, _, _ => none

end
end StreamState

def streamMachine (toString : Json → Except String String) (agent : String) :
    Machine StreamState StreamAction where
  step := StreamState.step? toString agent

namespace StreamAction

/-- The runner looks at the log. -/
def isLook : StreamAction → Bool
  | .readLength _ | .toolTick _ => true
  | _ => false

def isFirstLook : StreamAction → Bool
  | .readLength _ => true
  | _ => false

/-- A read of the log does not fail. -/
def readsOk : StreamAction → Bool
  | .readLength ok | .toolTick ok => ok
  | _ => true

/-- An event step that the suite appends. -/
def appended : StreamAction → Option ThreadStep
  | .append step => if isEventStep step then some step else none
  | _ => none

end StreamAction

/-- The event steps that the suite appends. -/
def appendedEvents (actions : List StreamAction) : List ThreadStep :=
  actions.filterMap StreamAction.appended

/-- What happens before the runner looks at the log at all. -/
def beforeFirstLook (actions : List StreamAction) : List StreamAction :=
  actions.takeWhile fun a => !a.isFirstLook

/-- What happens after the last look. -/
def afterLastLook (actions : List StreamAction) : List StreamAction :=
  (actions.reverse.takeWhile fun a => !a.isLook).reverse

/-- No event step is appended before the runner looks at the log, or after its last look. -/
def Observed (actions : List StreamAction) : Prop :=
  appendedEvents (beforeFirstLook actions) = [] ∧ appendedEvents (afterLastLook actions) = []

theorem appendedEvents_append (actions more : List StreamAction) :
    appendedEvents (actions ++ more) = appendedEvents actions ++ appendedEvents more :=
  List.filterMap_append

theorem beforeFirstLook_concat {actions : List StreamAction} {a : StreamAction}
    (h : ∃ b ∈ actions, b.isFirstLook = true) :
    beforeFirstLook (actions ++ [a]) = beforeFirstLook actions := by
  induction actions with
  | nil => simp at h
  | cons b actions ih =>
    rw [List.cons_append, beforeFirstLook, beforeFirstLook, List.takeWhile_cons,
      List.takeWhile_cons]
    cases hb : b.isFirstLook with
    | true => rfl
    | false =>
      obtain ⟨c, hc, hlook⟩ := h
      have hrest : ∃ c ∈ actions, c.isFirstLook = true := by
        rcases List.mem_cons.mp hc with rfl | hc
        · rw [hb] at hlook
          cases hlook
        · exact ⟨c, hc, hlook⟩
      have htail := ih hrest
      rw [beforeFirstLook, beforeFirstLook] at htail
      rw [htail]

theorem beforeFirstLook_look {actions : List StreamAction} {a : StreamAction}
    (h : ∀ b ∈ actions, b.isFirstLook = false) (ha : a.isFirstLook = true) :
    beforeFirstLook (actions ++ [a]) = actions := by
  rw [beforeFirstLook, List.takeWhile_append_of_pos (fun b hb => by simp [h b hb]),
    List.takeWhile_cons, ha]
  simp

theorem afterLastLook_concat (actions : List StreamAction) (a : StreamAction) :
    afterLastLook (actions ++ [a]) = if a.isLook then [] else afterLastLook actions ++ [a] := by
  rw [afterLastLook, List.reverse_concat, List.takeWhile_cons]
  cases a.isLook with
  | true => rfl
  | false => simp [afterLastLook]

theorem eventsFrom_append (idx : Nat) (steps more : List ThreadStep) :
    eventsFrom idx (steps ++ more) =
      eventsFrom idx steps ++ eventsFrom (idx + steps.length) more := by
  rw [eventsFrom, List.zipIdx_append, List.filter_append]
  rfl

theorem eventsFrom_eq_nil (idx : Nat) {steps : List ThreadStep} :
    eventsFrom idx steps = [] ↔ steps.filter isEventStep = [] := by
  induction steps generalizing idx with
  | nil => simp [eventsFrom]
  | cons step steps ih =>
    have hrest := ih (idx + 1)
    rw [eventsFrom] at hrest ⊢
    rw [List.zipIdx_cons, List.filter_cons, List.filter_cons]
    cases isEventStep step with
    | true => simp
    | false => simpa using hrest

/-- The log behind what was there at the start: steps that the first look misses, steps that the
runner has looked at and sent, and steps that it has not seen yet. -/
structure Tracked (log : List ThreadStep) (actions : List StreamAction) (s : StreamState)
    (missed seen unread : List ThreadStep) : Prop where
  log_eq : s.log = log ++ missed ++ seen ++ unread
  events_eq : s.events = eventsFrom (log.length + missed.length) seen
  cursor : match s.lastEmittedStepIdx with
    | none => seen = [] ∧ unread = [] ∧ s.sent = [] ∧
      missed.filter isEventStep = appendedEvents actions ∧ ∀ a ∈ actions, a.isFirstLook = false
    | some cursor => cursor = log.length + missed.length + seen.length ∧
      missed.filter isEventStep = appendedEvents (beforeFirstLook actions) ∧
      unread.filter isEventStep = appendedEvents (afterLastLook actions) ∧
      ∃ a ∈ actions, a.isFirstLook = true

theorem tracked_start (log : List ThreadStep) (threadSeq : Int32) :
    Tracked log [] (.start log threadSeq) [] [] [] where
  log_eq := by simp [StreamState.start]
  events_eq := rfl
  cursor := ⟨rfl, rfl, rfl, rfl, fun a ha => (nomatch ha)⟩

section
variable {toString : Json → Except String String} {agent : String}

theorem respawn_spec (s : StreamState) : s.respawn.log = s.log ∧ s.respawn.events = s.events ∧
    s.respawn.lastEmittedStepIdx = s.lastEmittedStepIdx := by
  unfold StreamState.respawn
  cases chargeAutoResume s.autoResumes <;> exact ⟨rfl, rfl, rfl⟩

/-- The completion leaves the cursor and the events, and appends no event step. -/
theorem complete_spec (toString : Json → Except String String) (agent : String) (s : StreamState)
    (policy : InterruptPolicy) (ts : String) (append : Except String Unit)
    (result : Except String (List FlowFrame)) :
    ∃ more, (s.complete toString agent policy ts append result).log = s.log ++ more ∧
      more.filter isEventStep = [] ∧
      (s.complete toString agent policy ts append result).events = s.events ∧
      (s.complete toString agent policy ts append result).lastEmittedStepIdx =
        s.lastEmittedStepIdx := by
  unfold StreamState.complete
  cases result with
  | error e => exact ⟨[], (List.append_nil _).symm, rfl, rfl, rfl⟩
  | ok frames =>
    dsimp only
    rcases (sendFrames toString policy s.threadSeq (frames.map AgentFrame.convert)).next with
      _ | reason | approved
    · exact ⟨[], (List.append_nil _).symm, rfl, rfl, rfl⟩
    · exact ⟨[], (List.append_nil _).symm, rfl, rfl, rfl⟩
    · cases approved with
      | false =>
        obtain ⟨hlog, hevents, hcursor⟩ := respawn_spec { s with
          threadSeq := _, sent := s.sent ++ _ }
        exact ⟨[], hlog.trans (List.append_nil _).symm, rfl, hevents, hcursor⟩
      | true =>
        cases append with
        | error e => exact ⟨[], (List.append_nil _).symm, rfl, rfl, rfl⟩
        | ok _ =>
          obtain ⟨hlog, hevents, hcursor⟩ := respawn_spec { s with
            threadSeq := _, sent := s.sent ++ _, log := s.log ++ [approveStep agent ts] }
          exact ⟨[approveStep agent ts], hlog, rfl, hevents, hcursor⟩

/-- What a tool tick does, where the runner has a cursor and its read does not fail. -/
theorem toolTick_eq_some {s s' : StreamState}
    (hstep : s.step? toString agent (.toolTick true) = some s') :
    ∃ cursor, s.lastEmittedStepIdx = some cursor ∧ s' =
      if s.log.length ≤ cursor then s
      else { s with
        events := s.events ++ eventsFrom cursor (s.log.drop cursor)
        lastEmittedStepIdx := some s.log.length } := by
  rw [StreamState.step?] at hstep
  split at hstep
  · next cursor hresult hidx =>
    refine ⟨cursor, hidx, ?_⟩
    by_cases hshort : s.log.length ≤ cursor
    · simpa [hresult, hshort, eq_comm] using hstep
    · simpa [hresult, hshort, eq_comm] using hstep
  · cases hstep

theorem complete_eq_some {s s' : StreamState} {policy : InterruptPolicy} {ts : String}
    {append : Except String Unit}
    (hstep : s.step? toString agent (.complete policy ts append) = some s') :
    ∃ cursor result, s.lastEmittedStepIdx = some cursor ∧
      s.complete toString agent policy ts append result = s' := by
  rw [StreamState.step?] at hstep
  split at hstep
  · next cursor result _ hidx _ => exact ⟨cursor, result, hidx, Option.some.inj hstep⟩
  · cases hstep

section Step
variable {log : List ThreadStep} {actions : List StreamAction} {s s' : StreamState}
  {missed seen unread : List ThreadStep} (h : Tracked log actions s missed seen unread)
include h

/-- Steps that are appended behind the rest are not seen yet, or missed by the first look. -/
theorem Tracked.extend {a : StreamAction} {more : List ThreadStep} (hlook : a.isLook = false)
    (hmore : more.filter isEventStep = appendedEvents [a]) (hlog : s'.log = s.log ++ more)
    (hevents : s'.events = s.events) (hcursor : s'.lastEmittedStepIdx = s.lastEmittedStepIdx)
    (hsent : s.lastEmittedStepIdx = none → s'.sent = s.sent) :
    ∃ missed' seen' unread', Tracked log (actions ++ [a]) s' missed' seen' unread' := by
  have hfirst : a.isFirstLook = false := by
    cases a <;> first | rfl | cases hlook
  have htracked := h.cursor
  cases hidx : s.lastEmittedStepIdx with
  | none =>
    rw [hidx] at htracked
    obtain ⟨rfl, rfl, hnone, hmissed, hactions⟩ := htracked
    refine ⟨missed ++ more, [], [], ?_, ?_, ?_⟩
    · simp [hlog, h.log_eq]
    · rw [hevents, h.events_eq]
      rfl
    · rw [hcursor, hidx]
      refine ⟨rfl, rfl, (hsent hidx).trans hnone, ?_, ?_⟩
      · rw [List.filter_append, hmissed, hmore, appendedEvents_append]
      · intro b hb
        rcases List.mem_append.mp hb with hb | hb
        · exact hactions b hb
        · rw [List.mem_singleton.mp hb]
          exact hfirst
  | some cursor =>
    rw [hidx] at htracked
    obtain ⟨hat, hmissed, hunread, hlooked⟩ := htracked
    refine ⟨missed, seen, unread ++ more, ?_, ?_, ?_⟩
    · simp [hlog, h.log_eq]
    · rw [hevents, h.events_eq]
    · rw [hcursor, hidx]
      refine ⟨hat, ?_, ?_, ?_⟩
      · rw [beforeFirstLook_concat hlooked, hmissed]
      · rw [List.filter_append, hunread, hmore, afterLastLook_concat, hlook,
          if_neg Bool.false_ne_true, appendedEvents_append]
      · obtain ⟨b, hb, hblook⟩ := hlooked
        exact ⟨b, List.mem_append_left _ hb, hblook⟩

/-- The first look. -/
theorem Tracked.readLength (hidx : s.lastEmittedStepIdx = none) :
    Tracked log (actions ++ [.readLength true])
      { s with lastEmittedStepIdx := some s.log.length } missed [] [] := by
  have htracked := h.cursor
  rw [hidx] at htracked
  obtain ⟨rfl, rfl, -, hmissed, hactions⟩ := htracked
  refine ⟨h.log_eq, h.events_eq, ?_, ?_, ?_, .readLength true, by simp, rfl⟩
  · simp [h.log_eq]
  · rw [beforeFirstLook_look hactions rfl, hmissed]
  · rw [afterLastLook_concat]
    rfl

/-- A look at the log, which sends what was not seen yet. -/
theorem Tracked.toolTick {cursor : Nat} (hidx : s.lastEmittedStepIdx = some cursor) :
    Tracked log (actions ++ [.toolTick true]) { s with
        events := s.events ++ eventsFrom cursor (s.log.drop cursor)
        lastEmittedStepIdx := some s.log.length } missed (seen ++ unread) [] := by
  have htracked := h.cursor
  rw [hidx] at htracked
  obtain ⟨hat, hmissed, -, hlooked⟩ := htracked
  have hdrop : s.log.drop cursor = unread := by
    rw [h.log_eq, List.drop_append_of_le_length (by simp [hat]; omega),
      List.drop_of_length_le (by simp [hat]; omega), List.nil_append]
  refine ⟨by simp [h.log_eq], ?_, ?_, ?_, ?_, ?_⟩
  · rw [hdrop, eventsFrom_append, ← h.events_eq, hat]
  · simp [h.log_eq]
    omega
  · rw [beforeFirstLook_concat hlooked, hmissed]
  · rw [afterLastLook_concat]
    rfl
  · obtain ⟨b, hb, hblook⟩ := hlooked
    exact ⟨b, List.mem_append_left _ hb, hblook⟩

end Step

/-- One step of the interleaving. -/
theorem Tracked.step {log : List ThreadStep} {actions : List StreamAction} {s s' : StreamState}
    {missed seen unread : List ThreadStep} (h : Tracked log actions s missed seen unread)
    {a : StreamAction} (hreads : a.readsOk = true)
    (hstep : s.step? toString agent a = some s') :
    ∃ missed' seen' unread', Tracked log (actions ++ [a]) s' missed' seen' unread' := by
  cases a with
  | append step =>
    obtain ⟨-, heq⟩ := Option.ite_none_right_eq_some.mp hstep
    cases heq
    refine h.extend rfl ?_ rfl rfl rfl fun _ => rfl
    cases hevent : isEventStep step <;>
      simp [appendedEvents, StreamAction.appended, hevent]
  | finish result =>
    obtain ⟨-, heq⟩ := Option.ite_none_right_eq_some.mp hstep
    cases heq
    exact h.extend rfl rfl (List.append_nil _).symm rfl rfl fun _ => rfl
  | readLength ok =>
    obtain rfl : ok = true := hreads
    obtain ⟨⟨-, hidx⟩, heq⟩ := Option.ite_none_right_eq_some.mp hstep
    cases heq
    exact ⟨missed, [], [], h.readLength hidx⟩
  | toolTick ok =>
    obtain rfl : ok = true := hreads
    obtain ⟨cursor, hidx, hs⟩ := toolTick_eq_some hstep
    have htick := h.toolTick hidx
    refine ⟨missed, seen ++ unread, [], ?_⟩
    rw [hs]
    split_ifs with hshort
    · have hcursor := h.cursor
      rw [hidx] at hcursor
      have heq : s.log.length = cursor := by
        have hlength := congrArg List.length h.log_eq
        simp only [List.length_append] at hlength
        omega
      have hnone : eventsFrom cursor (s.log.drop cursor) = [] := by
        rw [List.drop_of_length_le hshort]
        rfl
      rwa [hnone, List.append_nil, heq, ← hidx] at htick
    · exact htick
  | complete policy ts append =>
    obtain ⟨cursor, result, hidx, rfl⟩ := complete_eq_some hstep
    obtain ⟨more, hlog, hmore, hevents, hcursor⟩ :=
      complete_spec toString agent s policy ts append result
    refine h.extend rfl hmore hlog hevents hcursor fun hnone => ?_
    rw [hnone] at hidx
    cases hidx

theorem run_tracked {log : List ThreadStep} {threadSeq : Int32} {actions : List StreamAction}
    {s : StreamState}
    (hrun : (streamMachine toString agent).run (.start log threadSeq) actions = some s)
    (hreads : ∀ a ∈ actions, a.readsOk = true) :
    ∃ missed seen unread, Tracked log actions s missed seen unread := by
  induction actions using List.reverseRecOn generalizing s with
  | nil =>
    cases hrun
    exact ⟨[], [], [], tracked_start log threadSeq⟩
  | append_singleton actions a ih =>
    obtain ⟨m, hm, hlast⟩ := (Machine.run_append _).mp hrun
    obtain ⟨s', hstep, heq⟩ := (Machine.run_cons _).mp hlast
    cases heq
    obtain ⟨missed, seen, unread, h⟩ := ih hm fun b hb => hreads b (List.mem_append_left _ hb)
    exact h.step (hreads a (by simp)) hstep

end

/-- When a message that ends the call is sent, every event step of the suite has been sent once and
in the order of the log, exactly if the runner has looked at the log before the first of them and
after the last. -/
theorem stream_complete_iff (toString : Json → Except String String) (agent : String)
    (log : List ThreadStep) (threadSeq : Int32) (actions : List StreamAction) (s : StreamState)
    (hrun : (streamMachine toString agent).run (.start log threadSeq) actions = some s)
    (hreads : ∀ a ∈ actions, a.readsOk = true)
    (hterminal : ∃ message ∈ s.sent, message.terminal = true) :
    s.events = eventsFrom log.length (s.log.drop log.length) ↔ Observed actions := by
  obtain ⟨missed, seen, unread, h⟩ := run_tracked hrun hreads
  have hdrop : s.log.drop log.length = missed ++ seen ++ unread := by
    rw [h.log_eq, List.append_assoc, List.append_assoc, List.drop_left, List.append_assoc]
  have hevents : eventsFrom log.length (s.log.drop log.length) =
      eventsFrom log.length missed ++ s.events ++
        eventsFrom (log.length + missed.length + seen.length) unread := by
    rw [hdrop, eventsFrom_append, eventsFrom_append, h.events_eq, List.length_append,
      Nat.add_assoc]
  have hcursor := h.cursor
  cases hidx : s.lastEmittedStepIdx with
  | none =>
    rw [hidx] at hcursor
    obtain ⟨message, hmem, -⟩ := hterminal
    rw [hcursor.2.2.1] at hmem
    cases hmem
  | some cursor =>
    rw [hidx] at hcursor
    obtain ⟨-, hmissed, hunread, -⟩ := hcursor
    rw [Observed, ← hmissed, ← hunread, ← eventsFrom_eq_nil log.length,
      ← eventsFrom_eq_nil (log.length + missed.length + seen.length), hevents]
    constructor
    · intro heq
      have hlength := congrArg List.length heq
      rw [List.length_append, List.length_append] at hlength
      exact ⟨List.length_eq_zero_iff.mp (by omega), List.length_eq_zero_iff.mp (by omega)⟩
    · rintro ⟨hnone, hnone'⟩
      rw [hnone, hnone', List.nil_append, List.append_nil]

/-! Two interleavings of one run. -/

def toolStartStep : ThreadStep :=
  .toolStart "id" "sql" "Run SQL" .null .running none none "t" "a"

/-- The runner looks at the log first, and once more when the task is over or before that. -/
def shortStream (tickFirst : Bool) : List StreamAction :=
  [.readLength true] ++
  (if tickFirst then [.toolTick true, .append toolStartStep]
    else [.append toolStartStep, .toolTick true]) ++
  [.finish (.ok [.interrupt "await_user" "go on?"]), .complete forwardPolicy "t" (.ok ())]

def shortStreamEnd (tickFirst : Bool) : StreamState where
  log := [toolStartStep]
  task := .finished (.ok [.interrupt "await_user" "go on?"])
  lastEmittedStepIdx := some (if tickFirst then 0 else 1)
  events := if tickFirst then [] else [(toolStartStep, 0)]
  autoResumes := 0
  threadSeq := 1
  sent := [.awaitUser 1 "go on?"]
  result := some (.ok ())

theorem run_shortStream (tickFirst : Bool) : (streamMachine (fun _ => .ok "") "a").run
    (.start [] 0) (shortStream tickFirst) = some (shortStreamEnd tickFirst) := by
  cases tickFirst <;> rfl

theorem stream_complete_shortStream :
    (shortStreamEnd false).events = eventsFrom 0 [toolStartStep] :=
  (stream_complete_iff (fun _ => .ok "") "a" [] 0 (shortStream false) (shortStreamEnd false)
    (run_shortStream false) (by decide) ⟨_, List.mem_singleton_self _, rfl⟩).mpr
    ⟨rfl, rfl⟩

/-- A tool starts after the last look, and the question to the user is sent without its event. -/
theorem stream_misses_shortStream :
    (streamMachine (fun _ => .ok "") "a").run (.start [] 0) (shortStream true) =
        some (shortStreamEnd true) ∧
      (∃ message ∈ (shortStreamEnd true).sent, message.terminal = true) ∧
      (shortStreamEnd true).events ≠ eventsFrom 0 (shortStreamEnd true).log :=
  ⟨run_shortStream true, ⟨_, List.mem_singleton_self _, rfl⟩, by decide⟩

end ReactRuntime.Transport
