import ReactRuntime.Transport.LiveStream

/-!
# Suites that are resumed without a user

The first frame of a finished suite that is not a review decides how the call goes on. Where it is
an interrupt and the policy approves it, the suite runs once more, as long as the call has an
auto-resume left.
-/
namespace ReactRuntime.Transport
open Library Serde ReactRuntime.Core Session

def AgentFrame.isReview : AgentFrame → Bool
  | .review _ _ => true
  | _ => false

/-- The first frame that is not a review. -/
def decisiveFrame (frames : List AgentFrame) : Option AgentFrame := frames.find? fun f => !f.isReview

/-- The frames end in an interrupt that the policy approves: whether it asks for an approval. -/
def autoApproved (policy : InterruptPolicy) (frames : List AgentFrame) : Option Bool :=
  match decisiveFrame frames with
  | some (.awaitUser prompt) =>
    if policy.onAwaitUser prompt = .autoApprove then some false else none
  | some (.awaitApproval prompt) =>
    if policy.onAwaitApproval prompt = .autoApprove then some true else none
  | _ => none

/-- An approved interrupt: whether it asks for an approval, the time at which the runner logs that,
and how the log answers. -/
structure ResumeRequest where
  approval : Bool
  ts : String
  append : Except String Unit
deriving DecidableEq

/-- The suite asks to be resumed. -/
def StreamState.resumeRequest (s : StreamState) : StreamAction → Option ResumeRequest
  | .complete policy ts append => match s.task with
    | .finished (.ok frames) =>
      (autoApproved policy (frames.map AgentFrame.convert)).map fun approval =>
        ⟨approval, ts, append⟩
    | _ => none
  | _ => none

abbrev StreamStep := StreamState × StreamAction × StreamState

namespace StreamStep

/-- The suite is started again. -/
def starts (t : StreamStep) : Bool := decide (t.1.task ≠ .running) && decide (t.2.2.task = .running)

/-- What the runner appends to the log when a suite is over. -/
def recorded (t : StreamStep) : List ThreadStep :=
  match t.2.1 with
  | .complete _ _ _ => t.2.2.log.drop t.1.log.length
  | _ => []

end StreamStep

/-- How often a call starts its suite. -/
def suiteStarts (steps : List StreamStep) : Nat := 1 + steps.countP StreamStep.starts

def resumeRequests (steps : List StreamStep) : List ResumeRequest :=
  steps.filterMap fun t => t.1.resumeRequest t.2.1

def recordedSteps (steps : List StreamStep) : List ThreadStep := steps.flatMap StreamStep.recorded

/-- One step for each approval that the log takes. -/
def approveSteps (agent : String) (requests : List ResumeRequest) : List ThreadStep :=
  (requests.filter fun r => r.approval && r.append.isOk).map fun r => approveStep agent r.ts

/-- An auto-resume is left as long as fewer than the ceiling are used. -/
theorem chargeAutoResume_eq (used : UInt8) : chargeAutoResume used =
    if used < MAX_AUTO_RESUMES then .ok (used + 1) else .error .autoResumes := by
  have hmax : MAX_AUTO_RESUMES.toNat = 8 := rfl
  have hused := used.toNat_lt
  unfold chargeAutoResume
  by_cases hfull : used = 255
  · subst hfull
    rfl
  · have hne : used.toNat ≠ 255 := fun h => hfull (UInt8.toNat_inj.mp h)
    have hnext : (used + 1).toNat = used.toNat + 1 := by
      rw [UInt8.toNat_add]
      change (used.toNat + 1) % 2 ^ 8 = _
      omega
    have hover : MAX_AUTO_RESUMES < used + 1 ↔ ¬ used < MAX_AUTO_RESUMES := by
      rw [UInt8.lt_iff_toNat_lt, UInt8.lt_iff_toNat_lt, hnext, hmax]
      omega
    by_cases hlt : used < MAX_AUTO_RESUMES
    · simp [hfull, hlt, hover]
    · simp [hfull, hlt, hover]

section
variable (toString : Json → Except String String) (agent : String)

/-- The runner goes on with the suite exactly after an interrupt that the policy approves. -/
theorem sendFrames_rerun_iff (policy : InterruptPolicy) (threadSeq : Int32)
    (frames : List AgentFrame) (approval : Bool) :
    (sendFrames toString policy threadSeq frames).next = .rerun approval ↔
      autoApproved policy frames = some approval := by
  induction frames generalizing threadSeq with
  | nil => simp [sendFrames, autoApproved, decisiveFrame]
  | cons frame frames ih =>
    cases frame with
    | review text extra =>
      have hskip : autoApproved policy (.review text extra :: frames) =
          autoApproved policy frames := rfl
      rw [hskip, ← ih (threadSeq + 1)]
      rfl
    | final kind payload display => simp [sendFrames, autoApproved, decisiveFrame,
        AgentFrame.isReview]
    | awaitUser prompt =>
      cases hdecision : policy.onAwaitUser prompt <;>
        simp [sendFrames, sendInterrupt, autoApproved, decisiveFrame, AgentFrame.isReview, hdecision]
    | awaitApproval prompt =>
      cases hdecision : policy.onAwaitApproval prompt <;>
        simp [sendFrames, sendInterrupt, autoApproved, decisiveFrame, AgentFrame.isReview, hdecision]

theorem not_autoApproved {policy : InterruptPolicy} (threadSeq : Int32) {frames : List AgentFrame}
    (h : ∀ approval, (sendFrames toString policy threadSeq frames).next ≠ .rerun approval) :
    autoApproved policy frames = none := by
  rw [Option.eq_none_iff_forall_ne_some]
  intro approval happroved
  exact h approval ((sendFrames_rerun_iff toString policy threadSeq frames approval).mpr happroved)

/-- The suite once more, or the end of the call where the auto-resumes are used up. -/
theorem respawn_cases (s : StreamState) :
    (s.respawn.task = s.task ∧ s.respawn.autoResumes = s.autoResumes ∧
      s.respawn.result = some (.error "budget exhausted: auto_resumes")) ∨
    (s.respawn.task = .running ∧ s.autoResumes < MAX_AUTO_RESUMES ∧
      s.respawn.autoResumes = s.autoResumes + 1 ∧ s.respawn.result = s.result) := by
  unfold StreamState.respawn
  rw [chargeAutoResume_eq]
  by_cases hlt : s.autoResumes < MAX_AUTO_RESUMES
  · exact .inr ⟨by simp [hlt], hlt, by simp [hlt], by simp [hlt]⟩
  · exact .inl ⟨by simp [hlt], by simp [hlt], by simp [hlt]⟩

/-- The state after a finished suite: its log, and either the end of the call or one more start. -/
structure Completed (agent : String) (s s' : StreamState) (request : Option ResumeRequest) :
    Prop where
  log_eq : s'.log = s.log ++ approveSteps agent request.toList
  ended : s'.task = s.task ∧ s'.autoResumes = s.autoResumes ∧
      (request.isSome → ∃ e, s'.result = some (.error e)) ∨
    request.isSome ∧ s'.task = .running ∧ s.autoResumes < MAX_AUTO_RESUMES ∧
      s'.autoResumes = s.autoResumes + 1 ∧ s'.result = s.result

/-- A suite that is started again, or the end of its call. -/
theorem completed_respawn {s t : StreamState} {request : ResumeRequest}
    (hlog : t.respawn.log = s.log ++ approveSteps agent [request]) (htask : t.task = s.task)
    (hresumes : t.autoResumes = s.autoResumes) (hresult : t.result = s.result) :
    Completed agent s t.respawn (some request) := by
  refine ⟨hlog, ?_⟩
  rw [← htask, ← hresumes, ← hresult]
  rcases respawn_cases t with ⟨hsame, hused, hend⟩ | ⟨hrunning, hlt, hused, hgoes⟩
  · exact .inl ⟨hsame, hused, fun _ => ⟨_, hend⟩⟩
  · exact .inr ⟨rfl, hrunning, hlt, hused, hgoes⟩

/-- What the runner does with a finished suite. -/
theorem completed_complete (s : StreamState) (policy : InterruptPolicy) (ts : String)
    (append : Except String Unit) (result : Except String (List FlowFrame))
    (htask : s.task = .finished result) :
    Completed agent s (s.complete toString agent policy ts append result)
      (s.resumeRequest (.complete policy ts append)) := by
  cases result with
  | error e =>
    have hnone : s.resumeRequest (.complete policy ts append) = none := by
      simp [StreamState.resumeRequest, htask]
    rw [hnone]
    exact ⟨by simp [StreamState.complete, approveSteps], .inl ⟨rfl, rfl, by simp⟩⟩
  | ok frames =>
    have hrequest : s.resumeRequest (.complete policy ts append) =
        (autoApproved policy (frames.map AgentFrame.convert)).map fun approval =>
          ⟨approval, ts, append⟩ := by
      simp [StreamState.resumeRequest, htask]
    rw [hrequest]
    simp only [StreamState.complete]
    cases hnext : (sendFrames toString policy s.threadSeq (frames.map AgentFrame.convert)).next with
    | finished =>
      rw [not_autoApproved toString s.threadSeq (by simp [hnext])]
      exact ⟨by simp [approveSteps], .inl ⟨rfl, rfl, by simp⟩⟩
    | rejected reason =>
      rw [not_autoApproved toString s.threadSeq (by simp [hnext])]
      exact ⟨by simp [approveSteps], .inl ⟨rfl, rfl, by simp⟩⟩
    | rerun approval =>
      rw [(sendFrames_rerun_iff toString policy s.threadSeq _ approval).mp hnext]
      cases approval with
      | false =>
        refine completed_respawn agent ?_ rfl rfl rfl
        simp [approveSteps, respawn_spec]
      | true =>
        cases append with
        | error e => exact ⟨by simp [approveSteps, Except.isOk, Except.toBool],
            .inl ⟨rfl, rfl, fun _ => ⟨e, rfl⟩⟩⟩
        | ok _ =>
          refine completed_respawn agent ?_ rfl rfl rfl
          simp [approveSteps, respawn_spec, Except.isOk, Except.toBool]

/-- The counts of a run: a start for each auto-resume, and a request for each of these but at most
one more, which ends the call. -/
structure Accounted (agent : String) (steps : List StreamStep) (s : StreamState) : Prop where
  starts : s.autoResumes.toNat = steps.countP StreamStep.starts
  bound : s.autoResumes.toNat ≤ MAX_AUTO_RESUMES.toNat
  requests : (resumeRequests steps).length = steps.countP StreamStep.starts ∨
    (resumeRequests steps).length = steps.countP StreamStep.starts + 1 ∧
      ∃ e, s.result = some (.error e)
  recorded : recordedSteps steps = approveSteps agent (resumeRequests steps)

theorem accounted_start (log : List ThreadStep) (threadSeq : Int32) :
    Accounted agent [] (.start log threadSeq) :=
  ⟨rfl, Nat.zero_le _, .inl rfl, rfl⟩

theorem resumeRequests_concat (steps : List StreamStep) (t : StreamStep) :
    resumeRequests (steps ++ [t]) = resumeRequests steps ++ (t.1.resumeRequest t.2.1).toList := by
  rw [resumeRequests, List.filterMap_append]
  cases hrequest : t.1.resumeRequest t.2.1 <;> simp [resumeRequests, hrequest]

theorem recordedSteps_concat (steps : List StreamStep) (t : StreamStep) :
    recordedSteps (steps ++ [t]) = recordedSteps steps ++ t.recorded := by
  simp [recordedSteps]

theorem approveSteps_append (requests more : List ResumeRequest) :
    approveSteps agent (requests ++ more) =
      approveSteps agent requests ++ approveSteps agent more := by
  simp [approveSteps]

variable {agent}

/-- While a call is open, each request has started the suite. -/
theorem Accounted.asked {steps : List StreamStep} {s : StreamState} (h : Accounted agent steps s)
    (hopen : s.result = none) :
    (resumeRequests steps).length = steps.countP StreamStep.starts := by
  rcases h.requests with heq | ⟨-, e, hend⟩
  · exact heq
  · rw [hopen] at hend
    cases hend

/-- A step that is not a completion. -/
theorem Accounted.quiet {steps : List StreamStep} {s s' : StreamState} {a : StreamAction}
    (h : Accounted agent steps s) (hopen : s.result = none)
    (hrequest : s.resumeRequest a = none) (hrecorded : StreamStep.recorded (s, a, s') = [])
    (hstarts : StreamStep.starts (s, a, s') = false) (hresumes : s'.autoResumes = s.autoResumes) :
    Accounted agent (steps ++ [(s, a, s')]) s' := by
  have hcount : (steps ++ [(s, a, s')]).countP StreamStep.starts =
      steps.countP StreamStep.starts := by
    simp [hstarts]
  have hrequests : resumeRequests (steps ++ [(s, a, s')]) = resumeRequests steps := by
    simp [resumeRequests_concat, hrequest]
  refine ⟨by rw [hresumes, hcount, h.starts], by rw [hresumes]; exact h.bound, ?_, ?_⟩
  · rw [hcount, hrequests]
    exact .inl (h.asked hopen)
  · rw [recordedSteps_concat, hrecorded, List.append_nil, h.recorded, hrequests]

/-- A completion. -/
theorem Accounted.complete {steps : List StreamStep} {s s' : StreamState}
    {policy : InterruptPolicy} {ts : String} {append : Except String Unit}
    (h : Accounted agent steps s) (hopen : s.result = none) (htask : s.task ≠ .running)
    (hdone : Completed agent s s' (s.resumeRequest (.complete policy ts append))) :
    Accounted agent (steps ++ [(s, .complete policy ts append, s')]) s' := by
  have hrequests := resumeRequests_concat steps (s, .complete policy ts append, s')
  have hasked := h.asked hopen
  have hrecorded : recordedSteps (steps ++ [(s, .complete policy ts append, s')]) =
      approveSteps agent (resumeRequests (steps ++ [(s, .complete policy ts append, s')])) := by
    rw [recordedSteps_concat, hrequests, approveSteps_append, h.recorded]
    simp [StreamStep.recorded, hdone.log_eq]
  rcases hdone.ended with ⟨hsame, hresumes, hend⟩ | ⟨hrequest, hrunning, hlt, hresumes, -⟩
  · have hstarts : StreamStep.starts (s, .complete policy ts append, s') = false := by
      simp [StreamStep.starts, hsame, htask]
    have hcount : (steps ++ [(s, StreamAction.complete policy ts append, s')]).countP
        StreamStep.starts = steps.countP StreamStep.starts := by
      simp [hstarts]
    refine ⟨by rw [hresumes, hcount, h.starts], by rw [hresumes]; exact h.bound, ?_, hrecorded⟩
    rw [hcount, hrequests, List.length_append, hasked]
    cases hrequest : s.resumeRequest (.complete policy ts append) with
    | none => exact .inl rfl
    | some request => exact .inr ⟨rfl, hend (by rw [hrequest]; rfl)⟩
  · have hstarts : StreamStep.starts (s, .complete policy ts append, s') = true := by
      simp [StreamStep.starts, hrunning, htask]
    have hcount : (steps ++ [(s, StreamAction.complete policy ts append, s')]).countP
        StreamStep.starts = steps.countP StreamStep.starts + 1 := by
      simp [hstarts]
    have hbelow : s.autoResumes.toNat < MAX_AUTO_RESUMES.toNat := UInt8.lt_iff_toNat_lt.mp hlt
    have hnext : s'.autoResumes.toNat = s.autoResumes.toNat + 1 := by
      have hmax : MAX_AUTO_RESUMES.toNat = 8 := rfl
      rw [hresumes, UInt8.toNat_add]
      change (s.autoResumes.toNat + 1) % 2 ^ 8 = _
      omega
    refine ⟨by rw [hnext, hcount, h.starts], by omega, .inl ?_, hrecorded⟩
    obtain ⟨request, hsome⟩ := Option.isSome_iff_exists.mp hrequest
    rw [hcount, hrequests, List.length_append, hasked, hsome]
    rfl

variable {toString}

/-- One step of the interleaving. -/
theorem Accounted.step {steps : List StreamStep} {s s' : StreamState} {a : StreamAction}
    (h : Accounted agent steps s) (hstep : s.step? toString agent a = some s') :
    Accounted agent (steps ++ [(s, a, s')]) s' := by
  cases a with
  | append step =>
    obtain ⟨⟨hopen, htask⟩, heq⟩ := Option.ite_none_right_eq_some.mp hstep
    cases heq
    exact h.quiet hopen rfl rfl (by simp [StreamStep.starts, htask]) rfl
  | finish result =>
    obtain ⟨⟨hopen, htask⟩, heq⟩ := Option.ite_none_right_eq_some.mp hstep
    cases heq
    exact h.quiet hopen rfl rfl (by simp [StreamStep.starts]) rfl
  | readLength ok =>
    obtain ⟨⟨hopen, -⟩, heq⟩ := Option.ite_none_right_eq_some.mp hstep
    cases heq
    exact h.quiet hopen rfl rfl (by simp [StreamStep.starts]) rfl
  | toolTick ok =>
    rw [StreamState.step?] at hstep
    split at hstep
    · next cursor hopen hidx =>
      split_ifs at hstep with hshort
      · cases hstep
        exact h.quiet hopen rfl rfl (by simp [StreamStep.starts]) rfl
      · cases hstep
        exact h.quiet hopen rfl rfl (by simp [StreamStep.starts]) rfl
    · cases hstep
  | complete policy ts append =>
    rw [StreamState.step?] at hstep
    split at hstep
    · next cursor result hopen hidx htask =>
      cases hstep
      exact h.complete hopen (by simp [htask])
        (completed_complete toString agent s policy ts append result htask)
    · cases hstep

theorem run_accounted_steps {log : List ThreadStep} {threadSeq : Int32}
    {actions : List StreamAction} {s : StreamState}
    (hrun : (streamMachine toString agent).run (.start log threadSeq) actions = some s) :
    Accounted agent ((streamMachine toString agent).steps (.start log threadSeq) actions) s := by
  induction actions using List.reverseRecOn generalizing s with
  | nil =>
    cases hrun
    exact accounted_start agent log threadSeq
  | append_singleton actions a ih =>
    obtain ⟨m, hm, hlast⟩ := (Machine.run_append _).mp hrun
    obtain ⟨s', hstep, heq⟩ := (Machine.run_cons _).mp hlast
    cases heq
    rw [Machine.steps_concat _ hm hstep]
    exact (ih hm).step hstep

end

/-- In every interleaving the suite is started at most once and once more for each auto-resume. A
suite that asks for more ends the call with an error, and then as always the log has one step for
each approval that the policy gave and the log took. -/
theorem autoResumes_bounded (toString : Json → Except String String) (agent : String)
    (log : List ThreadStep) (threadSeq : Int32) (actions : List StreamAction) (s : StreamState)
    (hrun : (streamMachine toString agent).run (.start log threadSeq) actions = some s) :
    let steps := (streamMachine toString agent).steps (.start log threadSeq) actions
    suiteStarts steps ≤ 1 + MAX_AUTO_RESUMES.toNat ∧
      (MAX_AUTO_RESUMES.toNat < (resumeRequests steps).length → ∃ e, s.result = some (.error e)) ∧
      recordedSteps steps = approveSteps agent (resumeRequests steps) := by
  intro steps
  have h : Accounted agent steps s := run_accounted_steps hrun
  refine ⟨?_, fun hmore => ?_, h.recorded⟩
  · rw [suiteStarts, ← h.starts]
    exact Nat.add_le_add_left h.bound 1
  · rcases h.requests with heq | ⟨-, hend⟩
    · have hbound := h.bound
      rw [h.starts, ← heq] at hbound
      omega
    · exact hend

/-! A suite that asks for an approval again and again. -/

/-- The policy of a headless run that approves for the user. -/
def autoApprovePolicy : InterruptPolicy where
  onAwaitUser _ := .reject "ask_user_not_supported_in_headless"
  onAwaitApproval _ := .autoApprove

def approvalFrame : FlowFrame := .interrupt "await_approval" "run it?"

def approvedRounds (n : Nat) : List StreamAction :=
  .readLength true :: (List.replicate n
    [.finish (.ok [approvalFrame]), .complete autoApprovePolicy "t" (.ok ())]).flatten

/-- The end of the call after one approval more than there are auto-resumes. -/
def exhaustedEnd : StreamState where
  log := List.replicate 9 (approveStep "a" "t")
  task := .finished (.ok [approvalFrame])
  lastEmittedStepIdx := some 0
  events := []
  autoResumes := 8
  threadSeq := 0
  sent := []
  result := some (.error "budget exhausted: auto_resumes")

theorem run_approvedRounds : (streamMachine (fun _ => .ok "") "a").run (.start [] 0)
    (approvedRounds 9) = some exhaustedEnd := by
  rfl

theorem autoResumes_bounded_exhausted :
    let steps := (streamMachine (fun _ => .ok "") "a").steps (.start [] 0) (approvedRounds 9)
    (resumeRequests steps).length = 9 ∧ suiteStarts steps ≤ 9 ∧
      (∃ e, exhaustedEnd.result = some (.error e)) ∧
      recordedSteps steps = approveSteps "a" (resumeRequests steps) := by
  intro steps
  have hasked : (resumeRequests steps).length = 9 := by decide +kernel
  obtain ⟨hstarts, hend, hrecorded⟩ := autoResumes_bounded (fun _ => .ok "") "a" [] 0
    (approvedRounds 9) exhaustedEnd run_approvedRounds
  exact ⟨hasked, hstarts, hend (by rw [hasked]; decide), hrecorded⟩

end ReactRuntime.Transport
