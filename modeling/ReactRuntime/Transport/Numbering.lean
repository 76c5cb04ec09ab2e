import Mathlib.Data.List.DropRight
import ReactRuntime.Library.Machine
import ReactRuntime.Transport.History
import ReactRuntime.Transport.SuiteRunner

/-!
# Live and replayed numbers

A message that is sent carries a number from a counter of its connection, and the history numbers
the steps of the log. The counter is raised for each message that is sent, and by a list request to
the last number of the assistant. The history also counts what users say, and no checkpoints. A counter
therefore stands for a part of the log, and goes on in step with it only as long as nobody else puts
messages behind this part.
-/
namespace ReactRuntime.Transport
open Library Serde Session

def SequencedMessage.threadSeq : SequencedMessage → Int32
  | .review n _ | .final n _ | .awaitUser n _ | .awaitApproval n _ => n

/-- The last step of a list that is the report, by its index. -/
def lastReport (steps : List ThreadStep) (report : ReportKey) : Option Nat :=
  (steps.zipIdx.reverse.find? fun step => step.1.reportKey = some report).map Prod.snd

/-- The log after a frame is recorded, and the index of the step that is there for it. The look for
an equal report finds the first steps of the log. -/
def recordFrame (log : ThreadLog) (step : ThreadStep) (found : Nat) : ThreadLog × Nat :=
  match step.reportKey.bind (lastReport (log.steps.take found)) with
  | some idx => (log, idx)
  | none => (log.push step, log.steps.length)

section
variable (toString : Json → Except String String)

/-- How many messages of the history come before a step. -/
def messagesBefore (log : ThreadLog) (idx : Nat) : Nat :=
  (messagesFrom toString 0 (log.steps.take idx)).length

/-- The number of a step in the history, if it is a message there. -/
def historySeq (log : ThreadLog) (idx : Nat) : Option Int32 := do
  let step ← log.steps[idx]?
  let _ ← bodyOf toString step
  let m ← (messages toString log)[messagesBefore toString log idx]?
  return m.threadSeq

/-- How many of the steps are messages of the assistant. -/
def assistantSteps (steps : List ThreadStep) : Nat :=
  steps.countP fun step => (bodyOf toString step).any fun body => body.role = .assistant

/-- The number of a message is that of its step in the history, and for a client that has seen it
the messages of the assistant behind it are unread. -/
def Replayed (log : ThreadLog) (sent : SequencedMessage × Nat) : Prop :=
  historySeq toString log sent.2 = some sent.1.threadSeq ∧
    ((messages toString log).length < 2 ^ 31 →
      (computeUnreadForLog log sent.1.threadSeq).2.toInt =
        assistantSteps toString (log.steps.drop (sent.2 + 1)))

end

/-- The log of a thread, and for each connection its counter, what it has seen, and the frames that
its suite has recorded, with their steps. Every message that was sent is kept with its step. -/
structure SeqState (Conn : Type) where
  log : ThreadLog
  threadSeq : Conn → Int32
  seen : Conn → Int32
  recorded : Conn → List (FlowFrame × Nat)
  sent : List (SequencedMessage × Nat)

/-- A request or a suite appends a step; a suite records a frame, or fails; a connection sends the
frames of its suite, lists the threads, or is told what its client has seen. -/
inductive SeqAction (Conn : Type) where
  | append (step : ThreadStep)
  | record (conn : Conn) (frame : FlowFrame) (agentType ts : String) (found : Nat)
  | fail (conn : Conn)
  | send (conn : Conn) (policy : InterruptPolicy)
  | list (conn : Conn) (ok : Bool)
  | seen (conn : Conn) (upToThreadSeq : Int32)

section
variable {Conn : Type} [DecidableEq Conn] (toString : Json → Except String String)

namespace SeqState

/-- Connections that have done nothing yet, on any log. -/
def start (log : ThreadLog) : SeqState Conn := ⟨log, fun _ => 0, fun _ => 0, fun _ => [], []⟩

def step (s : SeqState Conn) : SeqAction Conn → SeqState Conn
  | .append step => { s with log := s.log.push step }
  | .record conn frame agentType ts found =>
    let (log, idx) := recordFrame s.log (flowFrameToStep agentType ts frame) found
    { s with
      log
      recorded := Function.update s.recorded conn (s.recorded conn ++ [(frame, idx)]) }
  | .fail conn => { s with recorded := Function.update s.recorded conn [] }
  | .send conn policy =>
    let frames := s.recorded conn
    let sent := sendFrames toString policy (s.threadSeq conn)
      (frames.map fun frame => AgentFrame.convert frame.1)
    { s with
      threadSeq := Function.update s.threadSeq conn sent.threadSeq
      recorded := Function.update s.recorded conn []
      sent := s.sent ++ sent.messages.zip (frames.map Prod.snd) }
  | .list conn ok =>
    if ok then
      let lastAssistantSeq := (computeUnreadForLog s.log (s.seen conn)).1
      let entry := s.threadSeq conn
      let entry := if entry < lastAssistantSeq then lastAssistantSeq else entry
      { s with threadSeq := Function.update s.threadSeq conn entry }
    else s
  | .seen conn upToThreadSeq => { s with seen := Function.update s.seen conn upToThreadSeq }

end SeqState

def seqMachine : Machine (SeqState Conn) (SeqAction Conn) where
  step s a := some (s.step toString a)

def isCheckpoint : FlowFrame → Bool
  | .checkpoint .. => true
  | _ => false

/-- The frames that are sent: up to the first one that ends the call, or that the policy keeps
back. -/
def shownFrames (policy : InterruptPolicy) : List (FlowFrame × Nat) → List (FlowFrame × Nat)
  | [] => []
  | (frame, idx) :: frames => match AgentFrame.convert frame with
    | .review .. => (frame, idx) :: shownFrames policy frames
    | .final .. => [(frame, idx)]
    | .awaitUser prompt => if policy.onAwaitUser prompt = .forward then [(frame, idx)] else []
    | .awaitApproval prompt =>
      if policy.onAwaitApproval prompt = .forward then [(frame, idx)] else []

def isMessage (step : ThreadStep) : Bool := (bodyOf toString step).isSome

def isAssistant (step : ThreadStep) : Bool :=
  (bodyOf toString step).any fun body => body.role = .assistant

/-- How much of a log a list request shows: all up to the last message of the assistant. -/
def assistantPart (log : ThreadLog) : Nat :=
  (log.steps.rdropWhile fun step => !isAssistant toString step).length

/-- A list request goes on to the part that it shows if this has more messages. -/
def listedPart (log : ThreadLog) (counted : Nat) : Nat :=
  if Int32.ofNat (messagesBefore toString log counted) <
      Int32.ofNat (messagesBefore toString log (assistantPart toString log)) then
    assistantPart toString log
  else counted

/-- The part of the log, for each connection, that its counter stands for: up to the step of the last
frame that it sent, or up to the last message of the assistant if a list request went further. What
users say, what other connections do, and frames that are recorded and never sent do not move it. -/
def countedAfter (s : SeqState Conn) (counted : Conn → Nat) : SeqAction Conn → Conn → Nat
  | .send conn policy => match (shownFrames policy (s.recorded conn)).getLast? with
    | some (_, idx) => Function.update counted conn (idx + 1)
    | none => counted
  | .list conn true => Function.update counted conn (listedPart toString s.log (counted conn))
  | .append _ | .record .. | .fail _ | .list _ false | .seen .. => counted

/-- The machine with what each connection has counted. -/
def countedMachine : Machine (SeqState Conn × (Conn → Nat)) (SeqAction Conn) where
  step s a := some (s.1.step toString a, countedAfter toString s.1 s.2 a)

/-- The messages of the log that stand between the part that is counted and a step. A report that is
found in the counted part is itself one of them. -/
def missedMessages (log : ThreadLog) (counted idx : Nat) : Nat :=
  ((log.steps.take (max counted idx)).drop (min counted idx)).countP (isMessage toString)

/-- No frame is a checkpoint, and no message stands between the part of the log that is counted and
the step of the first frame, or between the steps of two frames in a row. Only 2^32 messages would
leave a counter where it was. -/
def InStep (log : ThreadLog) : Nat → List (FlowFrame × Nat) → Prop
  | _, [] => True
  | counted, (frame, idx) :: frames => isCheckpoint frame = false ∧
    2 ^ 32 ∣ missedMessages toString log counted idx ∧ InStep log (idx + 1) frames

/-- The frames that a connection sends go on where its counter stands in the log. -/
def SentInStep (s : SeqState Conn × (Conn → Nat)) : SeqAction Conn → Prop
  | .send conn policy =>
    InStep toString s.1.log (s.2 conn) (shownFrames policy (s.1.recorded conn))
  | _ => True

end

section
variable {toString : Json → Except String String}

theorem length_assistantSeqs (tseq : Int32) (steps : List ThreadStep) :
    (assistantSeqs (messagesFrom toString tseq steps)).length = assistantSteps toString steps := by
  induction steps generalizing tseq with
  | nil => rfl
  | cons step steps ih =>
    rw [messagesFrom, assistantSteps, List.countP_cons]
    cases hbody : bodyOf toString step with
    | none => exact ih tseq
    | some body =>
      have hrest := ih (tseq + 1)
      rw [assistantSeqs, List.length_map] at hrest ⊢
      rw [List.filter_cons]
      cases hrole : body.role with
      | user =>
        rw [if_neg (by simp), hrest, assistantSteps]
        simp [hrole]
      | assistant =>
        rw [if_pos (decide_eq_true rfl), List.length_cons, hrest, assistantSteps]
        simp [hrole]

theorem length_messagesFrom (tseq : Int32) (steps : List ThreadStep) :
    (messagesFrom toString tseq steps).length = steps.countP (isMessage toString) := by
  induction steps generalizing tseq with
  | nil => rfl
  | cons step steps ih =>
    rw [messagesFrom, List.countP_cons, isMessage]
    cases hbody : bodyOf toString step with
    | none => exact ih tseq
    | some body => simp [ih]

/-- What a list request raises a counter to is the number of messages in the part that it shows. -/
theorem lastAssistantSeq_eq (log : ThreadLog) (seenSeq : Int32) :
    (computeUnreadForLog log seenSeq).1 =
      .ofNat (messagesBefore toString log (assistantPart toString log)) := by
  have hscan : ∀ steps : List ThreadStep,
      (steps.foldl (unreadStep seenSeq) ⟨0, 0, 0⟩).tseq = .ofNat (steps.countP (isMessage toString)) ∧
      (steps.foldl (unreadStep seenSeq) ⟨0, 0, 0⟩).lastAssistantSeq =
        .ofNat ((steps.rdropWhile fun step => !isAssistant toString step).countP
          (isMessage toString)) := by
    intro steps
    induction steps using List.reverseRecOn with
    | nil => exact ⟨rfl, rfl⟩
    | append_singleton steps step ih =>
      obtain ⟨htseq, hlast⟩ := ih
      rw [List.foldl_concat, unreadStep_eq toString, List.rdropWhile_concat, List.countP_append,
        List.countP_singleton, isMessage, isAssistant]
      cases hbody : bodyOf toString step with
      | none => simp [htseq, hlast]
      | some body =>
        cases hrole : body.role with
        | user => simp [htseq, hlast, Int32.ofNat_add, hrole]
        | assistant => simp [htseq, Int32.ofNat_add, hrole, isMessage, hbody]
  have hpart : log.steps.take (assistantPart toString log) =
      log.steps.rdropWhile fun step => !isAssistant toString step :=
    (List.prefix_iff_eq_take.mp (List.rdropWhile_prefix _ _)).symm
  rw [computeUnreadForLog, (hscan log.steps).2, messagesBefore, length_messagesFrom, hpart]

theorem ofNat_eq_ofNat_iff {m n : Nat} (h : m ≤ n) :
    Int32.ofNat m = Int32.ofNat n ↔ 2 ^ 32 ∣ n - m := by
  rw [← Int32.toBitVec_inj, Int32.toBitVec_ofNat', Int32.toBitVec_ofNat', ← BitVec.toNat_inj,
    BitVec.toNat_ofNat, BitVec.toNat_ofNat]
  omega

theorem messagesBefore_mono (log : ThreadLog) : Monotone (messagesBefore toString log) := by
  intro a b hab
  rw [messagesBefore, messagesBefore, length_messagesFrom, length_messagesFrom]
  exact ((List.take_prefix_take_left hab).sublist).countP_le

theorem messagesBefore_add (log : ThreadLog) {a b : Nat} (hab : a ≤ b) :
    messagesBefore toString log a + ((log.steps.take b).drop a).countP (isMessage toString) =
      messagesBefore toString log b := by
  rw [messagesBefore, messagesBefore, length_messagesFrom, length_messagesFrom, ← List.countP_append]
  have htake : log.steps.take a = (log.steps.take b).take a := by
    rw [List.take_take, Nat.min_eq_left hab]
  rw [htake, List.take_append_drop]

/-- Nothing is missed exactly if as many messages are counted as come before the step. -/
theorem missedMessages_iff (log : ThreadLog) (counted idx : Nat) :
    2 ^ 32 ∣ missedMessages toString log counted idx ↔
      Int32.ofNat (messagesBefore toString log counted) =
        Int32.ofNat (messagesBefore toString log idx) := by
  rw [missedMessages]
  rcases Nat.le_total counted idx with h | h
  · have hsum := @messagesBefore_add toString log _ _ h
    rw [Nat.max_eq_right h, Nat.min_eq_left h, ofNat_eq_ofNat_iff (messagesBefore_mono log h), ← hsum,
      Nat.add_sub_cancel_left]
  · have hsum := @messagesBefore_add toString log _ _ h
    rw [Nat.max_eq_left h, Nat.min_eq_right h, eq_comm,
      ofNat_eq_ofNat_iff (messagesBefore_mono log h), ← hsum, Nat.add_sub_cancel_left]

variable {log : ThreadLog} {idx : Nat} {step : ThreadStep}

/-- The messages before a step that is a message, the step, and those behind it. -/
theorem messages_split (hstep : log.steps[idx]? = some step) {body : MessageBody}
    (hbody : bodyOf toString step = some body) : messages toString log =
      messagesFrom toString 0 (log.steps.take idx) ++
        ⟨.ofNat (messagesBefore toString log idx) + 1, body.role, body.content, body.createdAt⟩ ::
          messagesFrom toString (.ofNat (messagesBefore toString log idx) + 1)
            (log.steps.drop (idx + 1)) := by
  have hsplit : log.steps = log.steps.take idx ++ step :: log.steps.drop (idx + 1) := by
    obtain ⟨hlt, rfl⟩ := List.getElem?_eq_some_iff.mp hstep
    rw [List.cons_getElem_drop_succ, List.take_append_drop]
  have hmessages := congrArg (messagesFrom toString 0) hsplit
  rw [messagesFrom_append, ← messagesBefore, Int32.zero_add, messagesFrom, hbody] at hmessages
  exact hmessages

theorem historySeq_eq (hstep : log.steps[idx]? = some step) : historySeq toString log idx =
    (bodyOf toString step).map fun _ => .ofNat (messagesBefore toString log idx) + 1 := by
  rw [historySeq, hstep]
  cases hbody : bodyOf toString step with
  | none => simp [hbody]
  | some body =>
    simp [hbody, messages_split hstep hbody, messagesBefore]

/-- Steps that are appended do not change the number of a step. -/
theorem historySeq_of_isPrefix {log' : ThreadLog} (hgrow : log.steps <+: log'.steps)
    (hidx : idx < log.steps.length) :
    historySeq toString log' idx = historySeq toString log idx := by
  obtain ⟨more, hmore⟩ := hgrow
  have hstep : log.steps[idx]? = some log.steps[idx] := List.getElem?_eq_getElem hidx
  have hstep' : log'.steps[idx]? = some log.steps[idx] := by
    rw [← hmore, List.getElem?_append_left hidx, hstep]
  rw [historySeq_eq hstep, historySeq_eq hstep', messagesBefore, messagesBefore, ← hmore,
    List.take_append_of_le_length (Nat.le_of_lt hidx)]

theorem messagesBefore_of_isPrefix {log' : ThreadLog} (hgrow : log.steps <+: log'.steps) {n : Nat}
    (hn : n ≤ log.steps.length) :
    messagesBefore toString log' n = messagesBefore toString log n := by
  obtain ⟨more, hmore⟩ := hgrow
  rw [messagesBefore, messagesBefore, ← hmore, List.take_append_of_le_length hn]

theorem messagesBefore_succ (hstep : log.steps[idx]? = some step)
    (hmessage : isMessage toString step = true) :
    messagesBefore toString log (idx + 1) = messagesBefore toString log idx + 1 := by
  rw [messagesBefore, messagesBefore, length_messagesFrom, length_messagesFrom, List.take_add_one,
    hstep, Option.toList_some, List.countP_append, List.countP_singleton, if_pos hmessage]

/-- Of ordered messages, those that come behind one have a greater number. -/
theorem countP_behind {front rest : List HistoryMessage} {m : HistoryMessage}
    (hordered : (front ++ m :: rest).Pairwise fun m m' => m.threadSeq.toInt < m'.threadSeq.toInt) :
    (assistantSeqs (front ++ m :: rest)).countP (fun seq => m.threadSeq < seq) =
      (assistantSeqs rest).length := by
  obtain ⟨-, hbehind, hfront⟩ := List.pairwise_append.mp hordered
  have hlater := (List.pairwise_cons.mp hbehind).1
  have hsplit : assistantSeqs (front ++ m :: rest) =
      assistantSeqs (front ++ [m]) ++ assistantSeqs rest := by
    rw [assistantSeqs, List.append_cons, List.filter_append, List.map_append]
    rfl
  have hnone : (assistantSeqs (front ++ [m])).countP (fun seq => m.threadSeq < seq) = 0 := by
    refine List.countP_eq_zero.mpr fun seq hseq => ?_
    obtain ⟨m', hm', rfl⟩ := List.mem_map.mp hseq
    rw [decide_eq_true_eq, Int32.lt_iff_toInt_lt]
    rcases List.mem_append.mp (List.mem_of_mem_filter hm') with hm' | hm'
    · have hlt := hfront m' hm' m List.mem_cons_self
      omega
    · rw [List.mem_singleton.mp hm']
      omega
  have hall : (assistantSeqs rest).countP (fun seq => m.threadSeq < seq) =
      (assistantSeqs rest).length := by
    refine List.countP_eq_length.mpr fun seq hseq => ?_
    obtain ⟨m', hm', rfl⟩ := List.mem_map.mp hseq
    exact decide_eq_true (Int32.lt_iff_toInt_lt.mpr (hlater m' (List.mem_of_mem_filter hm')))
  rw [hsplit, List.countP_append, hnone, hall, Nat.zero_add]

/-- The unread count for the number of a message. -/
theorem unread_of_historySeq {n : Int32} (hseq : historySeq toString log idx = some n)
    (hsize : (messages toString log).length < 2 ^ 31) :
    (computeUnreadForLog log n).2.toInt =
      assistantSteps toString (log.steps.drop (idx + 1)) := by
  obtain ⟨step, hstep⟩ : ∃ step, log.steps[idx]? = some step := by
    cases hstep : log.steps[idx]? with
    | none => simp [historySeq, hstep] at hseq
    | some step => exact ⟨step, rfl⟩
  rw [historySeq_eq hstep] at hseq
  obtain ⟨body, hbody, rfl⟩ := Option.map_eq_some_iff.mp hseq
  have hsplit := messages_split hstep hbody
  have hordered := (messages_numbered hsize).pairwise
  rw [hsplit] at hordered
  rw [(@computeUnreadForLog_eq toString _ hsize _).2, hsplit]
  exact_mod_cast (countP_behind hordered).trans (length_assistantSeqs _ _)

theorem replayed_iff {sent : SequencedMessage × Nat} :
    Replayed toString log sent ↔ historySeq toString log sent.2 = some sent.1.threadSeq :=
  and_iff_left_of_imp fun hseq hsize => unread_of_historySeq hseq hsize

end

section
variable {toString : Json → Except String String}

/-- The step that is there for a frame: a message of the history, unless the frame is a
checkpoint. -/
def Stands (toString : Json → Except String String) (log : ThreadLog) (frame : FlowFrame × Nat) :
    Prop :=
  ∃ step, log.steps[frame.2]? = some step ∧
    (bodyOf toString step).isSome = !isCheckpoint frame.1

theorem Stands.of_isPrefix {log log' : ThreadLog} {frame : FlowFrame × Nat}
    (h : Stands toString log frame) (hgrow : log.steps <+: log'.steps) :
    Stands toString log' frame := by
  obtain ⟨step, hstep, hbody⟩ := h
  obtain ⟨more, hmore⟩ := hgrow
  refine ⟨step, ?_, hbody⟩
  rw [← hmore, List.getElem?_append_left (List.getElem?_eq_some_iff.mp hstep).1, hstep]

theorem lastReport_spec {steps : List ThreadStep} {report : ReportKey} {idx : Nat}
    (h : lastReport steps report = some idx) :
    ∃ step, steps[idx]? = some step ∧ step.reportKey = some report := by
  obtain ⟨⟨step, i⟩, hfind, rfl⟩ := Option.map_eq_some_iff.mp h
  have hkey := List.find?_some hfind
  have hmem := List.mem_zipIdx_iff_getElem?.mp
    (List.mem_reverse.mp (List.mem_of_find?_eq_some hfind))
  exact ⟨step, hmem, of_decide_eq_true hkey⟩

theorem isSome_bodyOf_of_reportKey {step : ThreadStep} {report : ReportKey}
    (h : step.reportKey = some report) : (bodyOf toString step).isSome = true := by
  cases step with
  | complete kind payload display observation ts agent => rfl
  | interrupt kind prompt observation ts agent => rfl
  | _ => cases h

theorem isSome_bodyOf_flowFrameToStep (agentType ts : String) (frame : FlowFrame) :
    (bodyOf toString (flowFrameToStep agentType ts frame)).isSome = !isCheckpoint frame := by
  cases frame <;> rfl

theorem isCheckpoint_of_reportKey {agentType ts : String} {frame : FlowFrame} {report : ReportKey}
    (h : (flowFrameToStep agentType ts frame).reportKey = some report) :
    isCheckpoint frame = false := by
  cases frame with
  | checkpoint kind payload display => cases h
  | _ => rfl

/-- A frame is recorded by a step that is there already, or by a new one. -/
theorem recordFrame_spec (toString : Json → Except String String) (log : ThreadLog)
    (agentType ts : String) (frame : FlowFrame) (found : Nat) :
    log.steps <+: (recordFrame log (flowFrameToStep agentType ts frame) found).1.steps ∧
      Stands toString (recordFrame log (flowFrameToStep agentType ts frame) found).1
        (frame, (recordFrame log (flowFrameToStep agentType ts frame) found).2) := by
  rw [recordFrame]
  cases hlook : (flowFrameToStep agentType ts frame).reportKey.bind
      (lastReport (log.steps.take found)) with
  | some idx =>
    obtain ⟨report, hkey, hlast⟩ := Option.bind_eq_some_iff.mp hlook
    obtain ⟨step, hstep, hreport⟩ := lastReport_spec hlast
    refine ⟨List.prefix_rfl, step, ?_, ?_⟩
    · rw [List.getElem?_take] at hstep
      exact (Option.ite_none_right_eq_some.mp hstep).2
    · rw [isSome_bodyOf_of_reportKey hreport, isCheckpoint_of_reportKey hkey]
      rfl
  | none =>
    refine ⟨List.prefix_append _ _, flowFrameToStep agentType ts frame, ?_, ?_⟩
    · exact List.getElem?_concat_length
    · exact isSome_bodyOf_flowFrameToStep agentType ts frame

/-- The numbers that a counter gives to frames in a row. -/
def numberedFrames (threadSeq : Int32) : List (FlowFrame × Nat) → List (Int32 × Nat)
  | [] => []
  | (_, idx) :: frames => (threadSeq + 1, idx) :: numberedFrames (threadSeq + 1) frames

theorem shownFrames_subset (policy : InterruptPolicy) (frames : List (FlowFrame × Nat)) :
    shownFrames policy frames ⊆ frames := by
  induction frames with
  | nil => exact List.Subset.refl _
  | cons frame frames ih =>
    have hhead : [frame] ⊆ frame :: frames := List.cons_subset_cons _ (List.nil_subset _)
    rw [shownFrames]
    cases AgentFrame.convert frame.1 with
    | review text extraMeta => exact List.cons_subset_cons _ ih
    | final kind payload display => exact hhead
    | awaitUser prompt =>
      simp only
      split_ifs
      · exact hhead
      · exact List.nil_subset _
    | awaitApproval prompt =>
      simp only
      split_ifs
      · exact hhead
      · exact List.nil_subset _

/-- What the runner sends, with the step of each message. -/
theorem sendFrames_numbered (toString : Json → Except String String) (policy : InterruptPolicy)
    (threadSeq : Int32) (frames : List (FlowFrame × Nat)) :
    ((sendFrames toString policy threadSeq
        (frames.map fun frame => AgentFrame.convert frame.1)).messages.zip
          (frames.map Prod.snd)).map (fun sent => (sent.1.threadSeq, sent.2)) =
      numberedFrames threadSeq (shownFrames policy frames) := by
  induction frames generalizing threadSeq with
  | nil => rfl
  | cons frame frames ih =>
    obtain ⟨frame, idx⟩ := frame
    rw [List.map_cons, shownFrames]
    cases AgentFrame.convert frame with
    | review text extraMeta =>
      simp only [sendFrames, List.map_cons, List.zip_cons_cons, ih, numberedFrames]
      rfl
    | final kind payload display => rfl
    | awaitUser prompt =>
      simp only [sendFrames]
      cases policy.onAwaitUser prompt <;> rfl
    | awaitApproval prompt =>
      simp only [sendFrames]
      cases policy.onAwaitApproval prompt <;> rfl

theorem sendFrames_threadSeq (toString : Json → Except String String) (policy : InterruptPolicy)
    (threadSeq : Int32) (frames : List (FlowFrame × Nat)) :
    (sendFrames toString policy threadSeq
      (frames.map fun frame => AgentFrame.convert frame.1)).threadSeq =
        ((numberedFrames threadSeq (shownFrames policy frames)).getLast?.map Prod.fst).getD
          threadSeq := by
  induction frames generalizing threadSeq with
  | nil => rfl
  | cons frame frames ih =>
    obtain ⟨frame, idx⟩ := frame
    rw [List.map_cons, shownFrames]
    cases AgentFrame.convert frame with
    | review text extraMeta =>
      simp only [sendFrames, numberedFrames, List.getLast?_cons, ih]
      cases (numberedFrames (threadSeq + 1) (shownFrames policy frames)).getLast? <;> rfl
    | final kind payload display => rfl
    | awaitUser prompt =>
      simp only [sendFrames]
      cases policy.onAwaitUser prompt <;> rfl
    | awaitApproval prompt =>
      simp only [sendFrames]
      cases policy.onAwaitApproval prompt <;> rfl

theorem getLast?_numberedFrames (threadSeq : Int32) (frames : List (FlowFrame × Nat)) :
    (numberedFrames threadSeq frames).getLast?.map Prod.snd = frames.getLast?.map Prod.snd := by
  induction frames generalizing threadSeq with
  | nil => rfl
  | cons frame frames ih =>
    have hrest := ih (threadSeq + 1)
    simp only [numberedFrames, List.getLast?_cons, Option.map_some, Option.some.injEq]
    cases hnumbered : (numberedFrames (threadSeq + 1) frames).getLast? <;>
      cases hframes : frames.getLast? <;> simp_all

/-- Frames that go on where a counter stands in the log are numbered as in the history. -/
theorem inStep_iff {log : ThreadLog} {counted : Nat} {frames : List (FlowFrame × Nat)}
    (hstands : ∀ frame ∈ frames, Stands toString log frame) :
    InStep toString log counted frames ↔
      ∀ sent ∈ numberedFrames (.ofNat (messagesBefore toString log counted)) frames,
        historySeq toString log sent.2 = some sent.1 := by
  induction frames generalizing counted with
  | nil => simp [InStep, numberedFrames]
  | cons frame frames ih =>
    obtain ⟨frame, idx⟩ := frame
    obtain ⟨step, hstep, hbody⟩ := hstands (frame, idx) List.mem_cons_self
    rw [InStep, ih fun f hf => hstands f (List.mem_cons_of_mem _ hf), numberedFrames,
      List.forall_mem_cons, historySeq_eq hstep, missedMessages_iff, ← and_assoc]
    cases hcheck : isCheckpoint frame with
    | true =>
      rw [hcheck, Bool.not_true, Option.isSome_eq_false_iff, Option.isNone_iff_eq_none] at hbody
      simp [hbody]
    | false =>
      rw [hcheck, Bool.not_false] at hbody
      have hsucc : Int32.ofNat (messagesBefore toString log (idx + 1)) =
          .ofNat (messagesBefore toString log idx) + 1 := by
        rw [messagesBefore_succ hstep hbody, Int32.ofNat_add]
        rfl
      obtain ⟨body, hsome⟩ := Option.isSome_iff_exists.mp hbody
      rw [hsome, Option.map_some, Option.some.injEq, Int32.add_left_inj, and_iff_right rfl, hsucc,
        @eq_comm _ (Int32.ofNat (messagesBefore toString log idx))]
      exact and_congr_right fun heq => by rw [heq]

variable {Conn : Type}

/-- Every recorded frame has its step, and every message that was sent one in the log. -/
structure SeqInv (toString : Json → Except String String) (s : SeqState Conn) : Prop where
  recorded : ∀ conn, ∀ frame ∈ s.recorded conn, Stands toString s.log frame
  sent : ∀ sent ∈ s.sent, sent.2 < s.log.steps.length

namespace SeqInv
variable {s : SeqState Conn}

theorem start (log : ThreadLog) : SeqInv toString (SeqState.start log : SeqState Conn) :=
  ⟨fun _ _ h => (nomatch h), fun _ h => (nomatch h)⟩

theorem grow (h : SeqInv toString s) {log : ThreadLog} (hgrow : s.log.steps <+: log.steps) :
    SeqInv toString { s with log } where
  recorded conn frame hframe := (h.recorded conn frame hframe).of_isPrefix hgrow
  sent sent hsent := (h.sent sent hsent).trans_le hgrow.length_le

/-- Steps that are appended do not change what was sent in step. -/
theorem replayed_iff_of_isPrefix (h : SeqInv toString s) {log : ThreadLog}
    (hgrow : s.log.steps <+: log.steps) :
    (∀ sent ∈ s.sent, Replayed toString log sent) ↔
      ∀ sent ∈ s.sent, Replayed toString s.log sent := by
  refine forall₂_congr fun sent hsent => ?_
  rw [replayed_iff, replayed_iff, historySeq_of_isPrefix hgrow (h.sent sent hsent)]

variable [DecidableEq Conn]

theorem update (h : SeqInv toString s) (conn : Conn) {frames : List (FlowFrame × Nat)}
    (hframes : ∀ frame ∈ frames, Stands toString s.log frame) :
    SeqInv toString { s with recorded := Function.update s.recorded conn frames } where
  recorded conn' frame hframe := by
    by_cases heq : conn' = conn
    · subst heq
      exact hframes frame (Function.update_self conn' frames s.recorded ▸ hframe)
    · exact h.recorded conn' frame (Function.update_of_ne heq _ s.recorded ▸ hframe)
  sent := h.sent

/-- The log only grows. -/
theorem log_isPrefix (toString : Json → Except String String) (s : SeqState Conn)
    (a : SeqAction Conn) :
    s.log.steps <+: (s.step toString a).log.steps := by
  cases a with
  | append step => exact List.prefix_append _ _
  | record conn frame agentType ts found =>
    exact (recordFrame_spec toString s.log agentType ts frame found).1
  | list conn ok => cases ok <;> exact List.prefix_rfl
  | _ => exact List.prefix_rfl

theorem step (h : SeqInv toString s) (a : SeqAction Conn) :
    SeqInv toString (s.step toString a) := by
  cases a with
  | append step => exact h.grow (List.prefix_append _ _)
  | record conn frame agentType ts found =>
    obtain ⟨hgrow, hstands⟩ :=
      recordFrame_spec toString s.log agentType ts frame found
    refine (h.grow hgrow).update conn fun f hf => ?_
    rcases List.mem_append.mp hf with hf | hf
    · exact (h.recorded conn f hf).of_isPrefix hgrow
    · rw [List.mem_singleton.mp hf]
      exact hstands
  | fail conn => exact h.update conn fun _ hf => (nomatch hf)
  | send conn policy =>
    have hnone : ∀ frame ∈ ([] : List (FlowFrame × Nat)), Stands toString s.log frame :=
      fun _ hf => (nomatch hf)
    have hupdate := h.update conn hnone
    refine ⟨hupdate.recorded, fun sent hsent => ?_⟩
    rcases List.mem_append.mp hsent with hsent | hsent
    · exact h.sent sent hsent
    · obtain ⟨frame, hframe, hidx⟩ := List.mem_map.mp (List.of_mem_zip hsent).2
      obtain ⟨step, hstep, -⟩ := h.recorded conn frame hframe
      rw [← hidx]
      exact (List.getElem?_eq_some_iff.mp hstep).1
  | list conn ok =>
    cases ok with
    | false => exact h
    | true => exact ⟨h.recorded, h.sent⟩
  | seen conn upToThreadSeq => exact ⟨h.recorded, h.sent⟩

/-- Of the messages that are there after an action, those that were there before keep their
numbers. -/
theorem replayed_of_step (h : SeqInv toString s) (a : SeqAction Conn)
    (hsent : ∀ sent ∈ (s.step toString a).sent, Replayed toString (s.step toString a).log sent) :
    ∀ sent ∈ s.sent, Replayed toString s.log sent := by
  refine (h.replayed_iff_of_isPrefix (log_isPrefix toString s a)).mp fun sent hmem => ?_
  apply hsent
  cases a with
  | send conn policy => exact List.mem_append_left _ hmem
  | list conn ok => cases ok <;> exact hmem
  | _ => exact hmem

end SeqInv

/-- The counter of each connection is the number of messages in the part of the log that it has
counted. -/
def Counts (toString : Json → Except String String) (s : SeqState Conn) (counted : Conn → Nat) :
    Prop :=
  ∀ conn, s.threadSeq conn = .ofNat (messagesBefore toString s.log (counted conn)) ∧
    counted conn ≤ s.log.steps.length

section
variable {s : SeqState Conn} {counted : Conn → Nat}

theorem Counts.grow (h : Counts toString s counted) {log : ThreadLog}
    (hgrow : s.log.steps <+: log.steps) {recorded : Conn → List (FlowFrame × Nat)} :
    Counts toString { s with log, recorded } counted := fun conn =>
  ⟨(h conn).1.trans (by rw [messagesBefore_of_isPrefix hgrow (h conn).2]),
    (h conn).2.trans hgrow.length_le⟩

variable [DecidableEq Conn]

theorem Counts.update (h : Counts toString s counted) {s' : SeqState Conn} {conn : Conn}
    {threadSeq : Int32} {n : Nat} (hlog : s'.log = s.log)
    (hseq : s'.threadSeq = Function.update s.threadSeq conn threadSeq)
    (hn : threadSeq = .ofNat (messagesBefore toString s.log n)) (hle : n ≤ s.log.steps.length) :
    Counts toString s' (Function.update counted conn n) := by
  intro conn'
  rw [hlog, hseq]
  by_cases heq : conn' = conn
  · subst heq
    rw [Function.update_self, Function.update_self]
    exact ⟨hn, hle⟩
  · rw [Function.update_of_ne heq, Function.update_of_ne heq]
    exact h conn'

/-- A list request counts on to the last message of the assistant, or stays. -/
theorem Counts.list (h : Counts toString s counted) (conn : Conn) :
    Counts toString (s.step toString (.list conn true))
      (countedAfter toString s counted (.list conn true)) := by
  refine h.update rfl rfl ?_ ?_
  · rw [@lastAssistantSeq_eq toString, (h conn).1, listedPart,
      apply_ite (messagesBefore toString s.log), apply_ite Int32.ofNat]
  · rw [listedPart]
    split_ifs
    · exact (List.rdropWhile_prefix _ _).length_le
    · exact (h conn).2

/-- The counter goes on to the step of the last frame that is sent. -/
theorem Counts.send (hinv : SeqInv toString s) (h : Counts toString s counted) (conn : Conn)
    (policy : InterruptPolicy) (hsent : ∀ sent ∈ (s.step toString (.send conn policy)).sent,
      Replayed toString (s.step toString (.send conn policy)).log sent) :
    Counts toString (s.step toString (.send conn policy))
      (countedAfter toString s counted (.send conn policy)) := by
  have hstands : ∀ frame ∈ shownFrames policy (s.recorded conn), Stands toString s.log frame :=
    fun frame hframe => hinv.recorded conn frame (shownFrames_subset _ _ hframe)
  have hnumbered : ∀ sent ∈ numberedFrames (s.threadSeq conn)
      (shownFrames policy (s.recorded conn)), historySeq toString s.log sent.2 = some sent.1 := by
    rw [← sendFrames_numbered toString, List.forall_mem_map]
    exact fun sent hmem => (replayed_iff.mp (hsent sent (List.mem_append_right _ hmem)))
  have hseq := sendFrames_threadSeq toString policy (s.threadSeq conn) (s.recorded conn)
  have hlast := getLast?_numberedFrames (s.threadSeq conn) (shownFrames policy (s.recorded conn))
  rw [countedAfter]
  cases hshown : (shownFrames policy (s.recorded conn)).getLast? with
  | none =>
    rw [hshown, Option.map_none, Option.map_eq_none_iff] at hlast
    rw [hlast, Option.map_none, Option.getD_none] at hseq
    have hsame : Counts toString (s.step toString (.send conn policy))
        (Function.update counted conn (counted conn)) :=
      h.update rfl rfl (hseq.trans (h conn).1) (h conn).2
    rwa [Function.update_eq_self] at hsame
  | some frame =>
    obtain ⟨frame, idx⟩ := frame
    obtain ⟨step, hstep, hbody⟩ := hstands _ (List.mem_of_getLast? hshown)
    rw [hshown, Option.map_some, Option.map_eq_some_iff] at hlast
    obtain ⟨⟨number, idx'⟩, hmem, rfl⟩ := hlast
    rw [hmem, Option.map_some, Option.getD_some] at hseq
    have hnumber := hnumbered _ (List.mem_of_getLast? hmem)
    simp only at hstep hnumber
    rw [historySeq_eq hstep, Option.map_eq_some_iff] at hnumber
    obtain ⟨body, hsome, hnumber⟩ := hnumber
    refine h.update rfl rfl ?_ (List.getElem?_eq_some_iff.mp hstep).1
    rw [hseq, ← hnumber, messagesBefore_succ hstep (by rw [isMessage, hsome]; rfl),
      Int32.ofNat_add]
    rfl

/-- As long as what is sent has the numbers of the history, the counters stand for what is
counted. -/
theorem Counts.step (hinv : SeqInv toString s) (h : Counts toString s counted)
    (a : SeqAction Conn)
    (hsent : ∀ sent ∈ (s.step toString a).sent, Replayed toString (s.step toString a).log sent) :
    Counts toString (s.step toString a) (countedAfter toString s counted a) := by
  cases a with
  | append step => exact h.grow (List.prefix_append _ _)
  | record conn frame agentType ts found =>
    exact h.grow (recordFrame_spec toString s.log agentType ts frame found).1
  | fail conn => exact h.grow List.prefix_rfl
  | seen conn upToThreadSeq => exact h
  | list conn ok =>
    cases ok with
    | false => exact h
    | true => exact h.list conn
  | send conn policy => exact h.send hinv conn policy hsent

/-- What is sent agrees with the history exactly if it goes on where the counter stands. -/
theorem Counts.step_replayed_iff (hinv : SeqInv toString s)
    (h : (∀ sent ∈ s.sent, Replayed toString s.log sent) → Counts toString s counted)
    (a : SeqAction Conn) :
    (∀ sent ∈ (s.step toString a).sent, Replayed toString (s.step toString a).log sent) ↔
      (∀ sent ∈ s.sent, Replayed toString s.log sent) ∧ SentInStep toString (s, counted) a := by
  have hgrow := hinv.replayed_iff_of_isPrefix (SeqInv.log_isPrefix toString s a)
  cases a with
  | send conn policy =>
    have hstands : ∀ frame ∈ shownFrames policy (s.recorded conn), Stands toString s.log frame :=
      fun frame hframe => hinv.recorded conn frame (shownFrames_subset _ _ hframe)
    simp only [SeqState.step, List.forall_mem_append]
    refine and_congr_right fun hsent => ?_
    rw [SentInStep, inStep_iff hstands, ← (h hsent conn).1, ← sendFrames_numbered toString,
      List.forall_mem_map]
    simp only [replayed_iff]
  | list conn ok => cases ok <;> exact (and_iff_left trivial).symm
  | append step => exact hgrow.trans (and_iff_left trivial).symm
  | record conn frame agentType ts found => exact hgrow.trans (and_iff_left trivial).symm
  | fail conn => exact (and_iff_left trivial).symm
  | seen conn upToThreadSeq => exact (and_iff_left trivial).symm

/-- What is counted beside a run restricts no run. -/
theorem run_countedMachine {actions : List (SeqAction Conn)} {s' : SeqState Conn}
    (hrun : (seqMachine toString).run s actions = some s') : ∃ counted',
      (countedMachine toString).run (s, counted) actions = some (s', counted') := by
  induction actions generalizing s counted with
  | nil =>
    cases hrun
    exact ⟨counted, rfl⟩
  | cons a actions ih =>
    obtain ⟨m, hm, hrest⟩ := (Machine.run_cons _).mp hrun
    cases hm
    obtain ⟨counted', hcounted⟩ := @ih (s.step toString a) (countedAfter toString s counted a) hrest
    exact ⟨counted', (Machine.run_cons _).mpr ⟨_, rfl, hcounted⟩⟩

end

/-- In every run of connections on a thread, the messages that were sent have the numbers of their
steps in the history, and what counts as unread behind each is what comes behind it, exactly if
whenever a connection sends frames, none of them is a checkpoint, and the log has no message between
what the connection last sent or listed and the step of the first frame, or between these steps. -/
theorem live_replayed_iff [DecidableEq Conn] (toString : Json → Except String String) (log : ThreadLog)
    (actions : List (SeqAction Conn)) (s : SeqState Conn)
    (hrun : (seqMachine toString).run (.start log) actions = some s) :
    (∀ sent ∈ s.sent, Replayed toString s.log sent) ↔
      (countedMachine toString).Along (SentInStep toString) (.start log, fun _ => 0) actions := by
  obtain ⟨counted, hcounted⟩ := run_countedMachine hrun
  have hiff := Machine.run_iff_along (G := SentInStep toString)
    (I := fun x => SeqInv toString x.1 ∧
      ((∀ sent ∈ x.1.sent, Replayed toString x.1.log sent) → Counts toString x.1 x.2))
    (P := fun x => ∀ sent ∈ x.1.sent, Replayed toString x.1.log sent)
    (fun x a x' h hs => by
      cases hs
      exact ⟨h.1.step a, fun hsent =>
        (h.2 (h.1.replayed_of_step a hsent)).step h.1 a hsent⟩)
    (fun x a x' h hs => by
      cases hs
      exact Counts.step_replayed_iff h.1 h.2 a)
    ⟨SeqInv.start log, fun _ conn => ⟨rfl, Nat.zero_le _⟩⟩ hcounted
  rw [hiff]
  exact and_iff_right fun sent hsent => (nomatch hsent)

/-! A thread that was just created, and a suite that answers with and without a question in the
log. -/

def newThread : ThreadLog :=
  { ThreadLog.default with
    steps := [.switchSuite none "kb" .okay "t" "ask", .switchAgent none "ask" .okay "t" "ask"] }

def answer (question : List ThreadStep) : List (SeqAction Unit) :=
  question.map .append ++
    [.record () (.complete "kb" (.obj [("answer", .str "yes")]) none) "ask" "t" 0,
      .send () forwardPolicy]

theorem live_replayed_unasked : ∃ s, (seqMachine fun _ => .ok "").run (.start newThread)
    (answer []) = some s ∧ s.sent ≠ [] ∧ ∀ sent ∈ s.sent, Replayed (fun _ => .ok "") s.log sent := by
  refine ⟨_, rfl, by decide, (live_replayed_iff _ newThread (answer []) _ rfl).mpr ?_⟩
  refine ⟨trivial, fun s hs => ?_⟩
  cases hs
  exact ⟨⟨rfl, by decide, trivial⟩, fun _ _ => trivial⟩

/-- The first answer to a question has number one when it is sent, and two in the history. -/
theorem live_replayed_asked : ∃ s, (seqMachine fun _ => .ok "").run (.start newThread)
    (answer [.user "really?" .okay "t" "ask"]) = some s ∧
      (∃ sent ∈ s.sent, sent.1.threadSeq = 1 ∧ historySeq (fun _ => .ok "") s.log sent.2 = some 2) ∧
      ¬ ∀ sent ∈ s.sent, Replayed (fun _ => .ok "") s.log sent := by
  refine ⟨_, rfl, ⟨_, List.mem_singleton_self _, rfl, by decide⟩, fun h => ?_⟩
  have hseq := (h _ (List.mem_singleton_self _)).1
  revert hseq
  decide

end
end ReactRuntime.Transport
