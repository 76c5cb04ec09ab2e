import ReactRuntime.Session.ReportCalls
import ReactRuntime.Session.AmbiguousPut
import ReactRuntime.Session.Linearization

/-!
# Reports once each

Any number of `append_step_if_new` calls and of other appends, over any log. A report
is there twice only if an equal one was written after its call began, or a read of
its call failed: the look and the push are not one step, and a failed look finds
nothing.
-/
namespace ReactRuntime.Session
open Library Serde ReactRuntime.Core Storage

/-- Completions and interrupts go through `append_step_if_new`, other steps through
`append_step`. -/
def ThreadStore.recordStep {C : Type} {A : C → Type} {B E : Type} [DecidableEq E]
    (self : ThreadStore C A B E) (showEtag : Option E → String) (threadId : String)
    (step : ThreadStep) : Program C A (Except CoreError Unit) :=
  match step.reportKey with
  | some _ => self.appendStepIfNew showEtag threadId step
  | none => self.appendStep showEtag threadId step

/-- For other steps both are the same. -/
theorem ThreadStore.recordStep_eq {C : Type} {A : C → Type} {B E : Type} [DecidableEq E]
    (self : ThreadStore C A B E) (showEtag : Option E → String) (threadId : String)
    (step : ThreadStep) : self.recordStep showEtag threadId step =
      self.appendStepIfNew showEtag threadId step := by
  rw [recordStep, appendStepIfNew, isDup]
  cases step.reportKey <;> rfl

variable {τ B E : Type} [DecidableEq E]

/-- All calls before their first step, over a stored log or none. -/
def reportsStart (F : Format B E) (key : String) (base : Option ThreadLog)
    (threadKey : String → Except String String) (showEtag : Option E → String) (threadId : String)
    (step : τ → ThreadStep) :
    Pool τ (Watched τ B E) (KernelCall B E) KernelCall.Answer (Except CoreError Unit) where
  shared := ((Solo.start F key base).kernel, Record.init)
  task t := (ThreadStore.over backend threadKey).recordStep showEtag threadId (step t)

omit [DecidableEq E] in
/-- Beyond the log of the start, each report is in the log once at most. -/
def ReportedOnce (F : Format B E) (key : String) (base : Option ThreadLog) (k : Kernel B E) : Prop :=
  ∀ log : ThreadLog, k.objects.get key = some (F.render log.toValue) → ∀ report,
    (log.steps.drop (base.getD ThreadLog.default).steps.length).countP
      (fun s => s.reportKey = some report) ≤ 1

/-- A conditional put under the current etag. -/
def KernelCall.accepted (F : Format B E) (k : Kernel B E) : KernelCall B E → Bool
  | .storage (.putJsonIfEtagMatches key _ expected) => F.headOf k.objects key = expected
  | _ => false

/-- The call writes a report, an equal one was written before, and that was after this call began or
a read of this call failed. -/
def Repeats (F : Format B E) (step : τ → ThreadStep) (t : τ) (c : KernelCall B E)
    (s : Watched τ B E) : Prop :=
  c.accepted F s.1 = true ∧ (step t).reportKey.isSome = true ∧ ∃ e ∈ s.2.commits.zipIdx,
    (step e.1).reportKey = (step t).reportKey ∧
      ((s.2.look t).since ≤ e.2 ∨ (s.2.look t).failed = true)

instance decidableRepeats (F : Format B E) (step : τ → ThreadStep) (t : τ) (c : KernelCall B E)
    (s : Watched τ B E) : Decidable (Repeats F step t c s) :=
  inferInstanceAs (Decidable (_ ∧ _ ∧ _))

/-- The next step does not repeat a report; a refused call never does. -/
def Unrepeated (F : Format B E) (step : τ → ThreadStep)
    (p : Pool τ (Watched τ B E) (KernelCall B E) KernelCall.Answer (Except CoreError Unit))
    (l : τ × Option CoreError) : Prop :=
  ∀ c k, p.task l.1 = .call c k → l.2 = none → ¬ Repeats F step l.1 c p.shared

instance decidableUnrepeated (F : Format B E) (step : τ → ThreadStep)
    (p : Pool τ (Watched τ B E) (KernelCall B E) KernelCall.Answer (Except CoreError Unit))
    (l : τ × Option CoreError) : Decidable (Unrepeated F step p l) :=
  match h : p.task l.1 with
  | .ret _ => isTrue fun _ _ hc => nomatch h.symm.trans hc
  | .call c _ => decidable_of_iff (l.2 = none → ¬ Repeats F step l.1 c p.shared)
      ⟨fun hg c' k' hc => by
        rw [h] at hc
        cases hc
        exact hg, fun hall => hall c _ h⟩

section Steps
variable [DecidableEq τ] {F : ExactFormat B E} {site : τ → Site} {step : τ → ThreadStep}
  {base : Option ThreadLog} {key : String}
  {p p' : Pool τ (Watched τ B E) (KernelCall B E) KernelCall.Answer (Except CoreError Unit)}
  {l : τ × Option CoreError}

/-- The writes of a report. -/
def reportCount (step : τ → ThreadStep) (report : ReportKey) (commits : List τ) : Nat :=
  commits.countP fun t => (step t).reportKey = some report

omit [DecidableEq τ] [DecidableEq E] in
/-- Each report is in the log once at most exactly if it was written once at most. -/
theorem reportedOnce_iff {s : Watched τ B E} (h : Faithful F step base key s) :
    ReportedOnce F key base s.1 ↔ ∀ report, reportCount step report s.2.commits ≤ 1 := by
  have hcount (log : ThreadLog) (hlog : s.1.objects.get key = some (F.render log.toValue))
      (report : ReportKey) : (log.steps.drop (base.getD ThreadLog.default).steps.length).countP
        (fun s => s.reportKey = some report) = reportCount step report s.2.commits := by
    rw [h.object, Option.map_eq_some_iff] at hlog
    obtain ⟨current, hcurrent, hrender⟩ := hlog
    have halike := ThreadLog.alike_iff.mp (F.render_injective hrender)
    have hkeys : current.steps.map ThreadStep.reportKey = log.steps.map ThreadStep.reportKey :=
      map_eq_of_map_eq (fun _ _ => ThreadStep.reportKey_of_toValue) halike.steps
    have hsteps : ((pushed base (s.2.commits.map step)).getD ThreadLog.default).steps =
        (base.getD ThreadLog.default).steps ++ s.2.commits.map step := pushed_steps
    rw [hcurrent, Option.getD_some] at hsteps
    have hnew : (log.steps.drop (base.getD ThreadLog.default).steps.length).map
        ThreadStep.reportKey = s.2.commits.map fun t => (step t).reportKey := by
      rw [List.map_drop, ← hkeys, ← List.map_drop, hsteps, List.drop_left, List.map_map]
      rfl
    have hcongr := congrArg (List.countP fun k => k = some report) hnew
    rwa [List.countP_map, List.countP_map] at hcongr
  constructor
  · intro honce report
    cases hobject : pushed base (s.2.commits.map step) with
    | none =>
      rw [pushed_eq_none, List.map_eq_nil_iff] at hobject
      rw [hobject.2]
      exact Nat.zero_le 1
    | some log =>
      have hlog : s.1.objects.get key = some (F.render log.toValue) := by rw [h.object, hobject]; rfl
      exact hcount log hlog report ▸ honce log hlog report
  · intro honce log hlog report
    exact (hcount log hlog report).trans_le (honce report)

/-- A step that writes a log is an accepted put. -/
theorem watched_written {t : τ} {i : Option CoreError} {c : KernelCall B E} {a : c.Answer}
    {m m' : Watched τ B E} (h : (watchedWorld F site).exec t i c m = some (m', a)) :
    c.isWritten a = true ↔ i = none ∧ c.accepted F m.1 = true := by
  cases c with
  | storage c =>
    cases c with
    | putJsonIfEtagMatches key v expected =>
      rcases watched_exec_storage h with ⟨-, e, rfl, rfl⟩ | ⟨rfl, -, rfl⟩
      · simp [KernelCall.isWritten]
      · by_cases hmatch : F.headOf m.1.objects key = expected <;>
          simp [Format.serve, KernelCall.accepted, KernelCall.isWritten, hmatch]
    | _ => simp [KernelCall.isWritten, KernelCall.accepted]
  | _ => simp [KernelCall.isWritten, KernelCall.accepted]

/-- The writes after a step. -/
theorem commits_step {s : Watched τ B E} {c : KernelCall B E} {a : c.Answer}
    (h : (watchedWorld F site).exec l.1 l.2 c p.shared = some (s, a)) :
    s.2.commits = if l.2 = none ∧ c.accepted F p.shared.1 = true then p.shared.2.commits ++ [l.1]
      else p.shared.2.commits := by
  have hwritten := watched_written h
  rw [(watched_exec h).1, Record.note]
  dsimp only
  by_cases hc : c.isWritten a = true
  · rw [if_pos hc, if_pos (hwritten.mp hc)]
  · rw [if_neg hc, if_neg fun haccepted => hc (hwritten.mpr haccepted)]

abbrev SoundReports (F : Format B E) (site : τ → Site) (step : τ → ThreadStep)
    (base : Option ThreadLog) (key : String)
    (p : Pool τ (Watched τ B E) (KernelCall B E) KernelCall.Answer (Except CoreError Unit)) :
    Prop :=
  (reportProtocol F step base key site).Sound (fun _ _ _ => True) p

theorem soundReports_step (h : SoundReports F site step base key p)
    (hs : (watchedWorld F site).step p l = some p') : SoundReports F site step base key p' :=
  Protocol.Sound.step h (fun _ _ _ => trivial) hs

/-- A report that is written without being repeated was not written before: the look covers what was
written before the call began, the guard what was written since. -/
theorem not_written_before {t : τ} {i : Option CoreError} {c : KernelCall B E} {a : c.Answer}
    {m m' : Watched τ B E} (he : (watchedWorld F site).exec t i c m = some (m', a))
    (h' : Faithful F step base key m') (hcommits : m'.2.commits = m.2.commits ++ [t])
    (haccepted : c.accepted F m.1 = true) (hnew : ¬ Repeats F step t c m) {report : ReportKey}
    (hreport : (step t).reportKey = some report) :
    ∀ u ∈ m.2.commits, (step u).reportKey ≠ some report := by
  intro u hu hsame
  obtain ⟨i, hi⟩ := List.mem_iff_getElem?.mp hu
  have hold : i < (m.2.look t).since ∧ (m.2.look t).failed = false := by
    by_contra hlate
    rw [not_and_or, not_lt, Bool.not_eq_false] at hlate
    exact hnew ⟨haccepted, by rw [hreport]; rfl, (u, i), List.mk_mem_zipIdx_iff_getElem?.mpr hi,
      hsame.trans hreport.symm, hlate⟩
  have hread : c.unread a = false := by
    cases c with
    | storage c => cases c with
      | putJsonIfEtagMatches => rfl
      | _ => cases haccepted
    | _ => cases haccepted
  obtain ⟨look, hlook, -, hclear⟩ := h'.cleared t (by simp [hcommits]) report hreport
  rw [(watched_exec he).1, note_looks, Option.some.injEq] at hlook
  subst hlook
  rcases hclear with hfailed | hclear
  · rw [hread, hold.2] at hfailed
    cases hfailed
  · have hlt := (List.getElem?_eq_some_iff.mp hi).1
    refine hclear u (List.mem_iff_getElem?.mpr ⟨i, ?_⟩) hsame
    rw [List.getElem?_take_of_lt hold.1, hcommits, List.getElem?_append_left hlt, hi]

/-- A step that does not repeat keeps every report written once at most. -/
theorem once_step (h : SoundReports F site step base key p) (hnew : Unrepeated F step p l)
    (hs : (watchedWorld F site).step p l = some p')
    (honce : ∀ report, reportCount step report p.shared.2.commits ≤ 1) :
    ∀ report, reportCount step report p'.shared.2.commits ≤ 1 := by
  have h' := soundReports_step h hs
  obtain ⟨c, k, s, a, htask, he, rfl⟩ := World.step_eq_some.mp hs
  have hcommits := commits_step he
  intro report
  dsimp only
  by_cases haccepted : l.2 = none ∧ c.accepted F p.shared.1 = true
  · rw [if_pos haccepted] at hcommits
    rw [hcommits, reportCount, List.countP_append, List.countP_singleton]
    split_ifs with hreport
    · have hnone : reportCount step report p.shared.2.commits = 0 := by
        rw [reportCount, List.countP_eq_zero]
        intro u hu hsame
        exact not_written_before he h'.1 hcommits haccepted.2 (hnew c k htask haccepted.1)
          (of_decide_eq_true hreport) u hu (of_decide_eq_true hsame)
      rw [← reportCount, hnone]
    · exact honce report
  · rw [if_neg haccepted] at hcommits
    rw [hcommits]
    exact honce report

/-- A step that repeats leaves a report written twice. -/
theorem twice_step {c : KernelCall B E}
    {k : c.Answer → Program (KernelCall B E) KernelCall.Answer (Except CoreError Unit)}
    (htask : p.task l.1 = .call c k) (hl : l.2 = none) (hrepeats : Repeats F step l.1 c p.shared) :
    ∃ p' report, (watchedWorld F site).step p l = some p' ∧
      2 ≤ reportCount step report p'.shared.2.commits := by
  obtain ⟨haccepted, hreport, ⟨u, i⟩, hu, hsame, -⟩ := hrepeats
  obtain ⟨report, hreport⟩ := Option.isSome_iff_exists.mp hreport
  have hexec : ∃ s a, (watchedWorld F site).exec l.1 l.2 c p.shared = some (s, a) := by
    cases c with
    | storage c =>
      rw [hl]
      exact ⟨_, _, rfl⟩
    | _ => cases haccepted
  obtain ⟨s, a, he⟩ := hexec
  refine ⟨_, report, World.step_eq_some.mpr ⟨c, k, s, a, htask, he, rfl⟩, ?_⟩
  dsimp only
  rw [commits_step he, if_pos ⟨hl, haccepted⟩, reportCount, List.countP_append,
    List.countP_singleton, if_pos (decide_eq_true hreport)]
  have hpos : 0 < p.shared.2.commits.countP fun t => (step t).reportKey = some report := by
    rw [List.countP_pos_iff]
    exact ⟨u, List.mem_of_getElem? (List.mk_mem_zipIdx_iff_getElem?.mp hu),
      decide_eq_true (hsame.trans hreport)⟩
  omega

end Steps

section Runs
variable [DecidableEq τ] {F : ExactFormat B E} {site : τ → Site} {step : τ → ThreadStep}
  {threadKey : String → Except String String} {showEtag : Option E → String} {threadId key : String}

/-- In every run, what is written was looked for. -/
theorem soundReports_start (htag : Function.Injective F.tag) (hkey : threadKey threadId = .ok key)
    (base : Option ThreadLog) : SoundReports F site step base key
      (reportsStart F.toFormat key base threadKey showEtag threadId step) := by
  refine ⟨⟨?_, fun _ _ hentry => (nomatch hentry), fun t ht => (nomatch ht)⟩, fun t => ?_⟩
  · cases base <;> simp [reportsStart, Solo.start, Record.init, pushed]
  · simp only [reportsStart, ThreadStore.recordStep_eq]
    exact watch_appendStepIfNew htag hkey rfl

/-- Every state of a run has each report once at most, beyond the log of the start, exactly if no
step of the run repeats one. -/
theorem reports_once_iff (htag : Function.Injective F.tag) (hkey : threadKey threadId = .ok key)
    (base : Option ThreadLog) (ls : List (τ × Option CoreError)) :
    (∀ before after p, ls = before ++ after →
      ((watchedWorld F site).machine (Except CoreError Unit)).run
        (reportsStart F.toFormat key base threadKey showEtag threadId step) before = some p →
      ReportedOnce F key base p.shared.1) ↔
    ((watchedWorld F site).machine (Except CoreError Unit)).Along (Unrepeated F step)
      (reportsStart F.toFormat key base threadKey showEtag threadId step) ls := by
  have hstart : SoundReports F site step base key
      (reportsStart F.toFormat key base threadKey showEtag threadId step) :=
    soundReports_start htag hkey base
  have hsound : ∀ before p, ((watchedWorld F site).machine (Except CoreError Unit)).run
      (reportsStart F.toFormat key base threadKey showEtag threadId step) before = some p →
      SoundReports F site step base key p := fun before p hrun =>
    Machine.run_invariant (P := SoundReports F site step base key)
      (fun _ _ _ hs hstep => soundReports_step hs hstep) hstart hrun
  constructor
  · intro honce
    rw [Machine.along_iff]
    rintro before l after p rfl hp c k htask hl hrepeats
    obtain ⟨p', report, hs, htwice⟩ := twice_step htask hl hrepeats
    have hp' : ((watchedWorld F site).machine (Except CoreError Unit)).run
        (reportsStart F.toFormat key base threadKey showEtag threadId step) (before ++ [l]) = some p' :=
      (Machine.run_append _).mpr ⟨p, hp, (Machine.run_cons _).mpr ⟨p', hs, rfl⟩⟩
    have hone := (reportedOnce_iff (hsound _ p' hp').1).mp
      (honce (before ++ [l]) after p' (by simp) hp') report
    omega
  · rintro halong before after p rfl hp
    rw [reportedOnce_iff (hsound before p hp).1]
    have hnone : ∀ report, reportCount step report
        (reportsStart F.toFormat key base threadKey showEtag threadId step).shared.2.commits ≤ 1 :=
      fun _ => Nat.zero_le 1
    have hinv := Machine.run_invariant_along
      (P := fun p => SoundReports F site step base key p ∧
        ∀ report, reportCount step report p.shared.2.commits ≤ 1)
      (fun _ _ _ hm hnew hs => ⟨soundReports_step hm.1 hs, once_step hm.1 hnew hs hm.2⟩)
      ⟨hstart, hnone⟩ (halong.of_isPrefix (List.prefix_append _ _)) hp
    exact hinv.2

end Runs

/-! Two reports of one completion from two processes, on concrete documents. -/

def asked : ThreadLog := ThreadLog.default.push (message "question")

def answered (_ : Bool) : ThreadStep :=
  .complete "answer" (.str "one") none Observation.okay "now" "agent"

abbrev answersStart : Pool Bool (Watched Bool Json Json) (KernelCall Json Json) KernelCall.Answer
    (Except CoreError Unit) :=
  reportsStart Format.plain "thread" (some asked) .ok (fun _ => "") "thread" answered

abbrev answersMachine : Machine (Pool Bool (Watched Bool Json Json) (KernelCall Json Json)
    KernelCall.Answer (Except CoreError Unit)) (Bool × Option CoreError) :=
  (watchedWorld Format.plain twoProcesses).machine (Except CoreError Unit)

/-- A report after the other one has returned finds it. -/
theorem reports_once_sequential : ∃ p,
    answersMachine.run answersStart (turns true 10 ++ turns false 4) = some p ∧
    ReportedOnce Format.plain "thread" (some asked) p.shared.1 := by
  have hrun : (answersMachine.run answersStart (turns true 10 ++ turns false 4)).isSome = true := by
    decide +kernel
  have halong : answersMachine.Along (Unrepeated Format.plain answered) answersStart
      (turns true 10 ++ turns false 4) := by
    decide +kernel
  obtain ⟨p, hp⟩ := Option.isSome_iff_exists.mp hrun
  exact ⟨p, hp, (reports_once_iff Format.plain_tag_injective rfl (some asked) _).mpr halong _ [] p
    (by simp) hp⟩

/-- Both calls look before either of them writes, both return `Ok`, and the log has the report
twice. -/
theorem reports_twice_overlapping : ∃ p,
    answersMachine.run answersStart
      (turns true 4 ++ turns false 4 ++ turns true 6 ++ turns false 8) = some p ∧
    (p.task true).returned? = some (.ok ()) ∧ (p.task false).returned? = some (.ok ()) ∧
    ¬ ReportedOnce Format.plain "thread" (some asked) p.shared.1 := by
  have hrun : (answersMachine.run answersStart
      (turns true 4 ++ turns false 4 ++ turns true 6 ++ turns false 8)).map (fun p =>
        ((p.task true).returned?, (p.task false).returned?,
          p.shared.1.objects.get "thread")) = some (some (.ok ()), some (.ok ()),
        some (Format.plain.render ((asked.push (answered true)).push (answered false)).toValue)) := by
    decide +kernel
  obtain ⟨p, hp, hend⟩ := Option.map_eq_some_iff.mp hrun
  rw [Prod.mk.injEq, Prod.mk.injEq] at hend
  refine ⟨p, hp, hend.1, hend.2.1, fun honce => ?_⟩
  have htwo := honce _ hend.2.2 (.complete "answer" (.str "one"))
  exact absurd htwo (by decide)

end ReactRuntime.Session
