import ReactRuntime.Session.Reports
import ReactRuntime.Session.TitleLock

/-!
# The result of a thread

A completion that is appended becomes the result of the thread. A completion equal
in kind and payload to any earlier one is not appended, and then the result stays
what it was, even if other completions came in between.
-/
namespace ReactRuntime.Session
open Library Serde ReactRuntime.Core Storage

/-- The result that reports leave: that of the last one with a kind and payload unseen before it, or
the result before them if there is none. -/
def LastNewIs (log : ThreadLog) (reports : List ThreadStep) (r : Option ThreadResult) : Prop :=
  (∃ earlier x later, reports = earlier ++ x :: later ∧
    (∀ s ∈ log.steps ++ earlier, s.reportKey ≠ x.reportKey) ∧
    (∀ y ∈ later, ∃ s ∈ log.steps ++ earlier ++ [x], s.reportKey = y.reportKey) ∧ x.result = r) ∨
  ((∀ y ∈ reports, ∃ s ∈ log.steps, s.reportKey = y.reportKey) ∧ log.result = r)

variable {log : ThreadLog} {reports : List ThreadStep} {r : Option ThreadResult}

/-- A last report that is new decides alone. -/
theorem lastNewIs_of_new {y : ThreadStep}
    (hy : ∀ s ∈ log.steps ++ reports, s.reportKey ≠ y.reportKey) :
    LastNewIs log (reports ++ [y]) r ↔ y.result = r := by
  constructor
  · rintro (⟨earlier, x, later, heq, -, hlater, rfl⟩ | ⟨hold, -⟩)
    · rcases List.eq_nil_or_concat later with rfl | ⟨later, z, rfl⟩
      · obtain ⟨-, hx⟩ := List.append_inj' heq rfl
        cases hx
        rfl
      · rw [List.concat_eq_append, ← List.cons_append, ← List.append_assoc] at heq
        obtain ⟨rfl, hz⟩ := List.append_inj' heq rfl
        cases hz
        obtain ⟨s, hs, hkey⟩ := hlater y (by simp)
        refine absurd hkey (hy s ?_)
        simp only [List.mem_append, List.mem_cons, List.not_mem_nil, or_false] at hs ⊢
        tauto
    · obtain ⟨s, hs, hkey⟩ := hold y (by simp)
      exact absurd hkey (hy s (List.mem_append_left _ hs))
  · rintro rfl
    exact Or.inl ⟨reports, y, [], rfl, hy, fun _ h => (nomatch h), rfl⟩

/-- A last report that is not new changes nothing. -/
theorem lastNewIs_of_old {y : ThreadStep}
    (hy : ∃ s ∈ log.steps ++ reports, s.reportKey = y.reportKey) :
    LastNewIs log (reports ++ [y]) r ↔ LastNewIs log reports r := by
  constructor
  · rintro (⟨earlier, x, later, heq, hnew, hlater, hr⟩ | ⟨hold, hr⟩)
    · rcases List.eq_nil_or_concat later with rfl | ⟨later, z, rfl⟩
      · obtain ⟨rfl, hx⟩ := List.append_inj' heq rfl
        cases hx
        obtain ⟨s, hs, hkey⟩ := hy
        exact absurd hkey (hnew s hs)
      · rw [List.concat_eq_append, ← List.cons_append, ← List.append_assoc] at heq
        obtain ⟨rfl, hz⟩ := List.append_inj' heq rfl
        cases hz
        exact Or.inl ⟨earlier, x, later, rfl, hnew, fun w hw => hlater w (by simp [hw]), hr⟩
    · exact Or.inr ⟨fun w hw => hold w (List.mem_append_left _ hw), hr⟩
  · rintro (⟨earlier, x, later, rfl, hnew, hlater, hr⟩ | ⟨hold, hr⟩)
    · refine Or.inl ⟨earlier, x, later ++ [y], by simp, hnew, fun w hw => ?_, hr⟩
      rcases List.mem_append.mp hw with hw | hw
      · exact hlater w hw
      · cases List.mem_singleton.mp hw
        obtain ⟨s, hs, hkey⟩ := hy
        by_cases hs' : s ∈ later
        · obtain ⟨s', hs', hkey'⟩ := hlater s hs'
          exact ⟨s', hs', hkey'.trans hkey⟩
        · refine ⟨s, ?_, hkey⟩
          simp only [List.mem_append, List.mem_cons, List.not_mem_nil, or_false] at hs ⊢
          tauto
    · refine Or.inr ⟨fun w hw => ?_, hr⟩
      rcases List.mem_append.mp hw with hw | hw
      · exact hold w hw
      · cases List.mem_singleton.mp hw
        obtain ⟨s, hs, hkey⟩ := hy
        rcases List.mem_append.mp hs with hs | hs
        · exact ⟨s, hs, hkey⟩
        · obtain ⟨s', hs', hkey'⟩ := hold s hs
          exact ⟨s', hs', hkey'.trans hkey⟩

/-- A log holds the reports that were made on it, whether or not they were appended. -/
theorem foldl_report_keys (log : ThreadLog) (reports : List ThreadStep) (k : ReportKey) :
    (∃ s ∈ (reports.foldl ThreadLog.report log).steps, s.reportKey = some k) ↔
      ∃ s ∈ log.steps ++ reports, s.reportKey = some k := by
  induction reports using List.reverseRecOn with
  | nil => simp
  | append_singleton reports y ih =>
    have hpush : ∀ l : ThreadLog, (∃ s ∈ (l.push y).steps, s.reportKey = some k) ↔
        (∃ s ∈ l.steps, s.reportKey = some k) ∨ y.reportKey = some k := by
      intro l
      simp [ThreadLog.push, or_and_right, exists_or]
    have hsplit : (∃ s ∈ log.steps ++ (reports ++ [y]), s.reportKey = some k) ↔
        (∃ s ∈ log.steps ++ reports, s.reportKey = some k) ∨ y.reportKey = some k := by
      rw [← List.append_assoc]
      simp [or_and_right, exists_or, or_assoc]
    rw [List.foldl_append, List.foldl_cons, List.foldl_nil, hsplit, ← ih, ThreadLog.report]
    cases hkey : y.reportKey with
    | none => rw [hpush, hkey]
    | some report =>
      simp only
      split_ifs with hdup
      · rw [ThreadLog.hasReport_iff] at hdup
        constructor
        · exact Or.inl
        · rintro (hseen | hsame)
          · exact hseen
          · cases hsame
            exact hdup
      · rw [hpush, hkey]

/-- The result of a log after completions were reported on it. -/
theorem foldl_report_result (hcomplete : ∀ s ∈ reports, s.result.isSome) :
    (reports.foldl ThreadLog.report log).result = r ↔ LastNewIs log reports r := by
  induction reports using List.reverseRecOn with
  | nil => simp [LastNewIs]
  | append_singleton reports y ih =>
    obtain ⟨result, hresult⟩ := Option.isSome_iff_exists.mp (hcomplete y (by simp))
    have hkey := ThreadStep.reportKey_of_result hresult
    have hseen := foldl_report_keys log reports (.complete result.kind result.payload.compared)
    rw [← ThreadLog.hasReport_iff, ← hkey] at hseen
    rw [List.foldl_append, List.foldl_cons, List.foldl_nil, ThreadLog.report, hkey]
    simp only
    by_cases hold : ∃ s ∈ log.steps ++ reports, s.reportKey = y.reportKey
    · rw [if_pos (hseen.mpr hold), lastNewIs_of_old hold]
      exact ih fun s hs => hcomplete s (List.mem_append_left _ hs)
    · rw [if_neg fun h => hold (hseen.mp h), ThreadLog.push, hresult, lastNewIs_of_new, hresult]
      exact fun s hs hk => hold ⟨s, hs, hk⟩

/-- A report through one of the stores of a client. -/
structure Report where
  store : Nat
  step : ThreadStep

variable {B E : Type} [DecidableEq E] {F : ExactFormat B E} (cl : Client E) {key threadId : String}

def Report.run (report : Report) (F : Format B E) (threadId : String) (s : Solo B E) :
    Solo B E × Except CoreError Unit :=
  ((cl.at report.store).self.appendStepIfNew (cl.at report.store).showEtag threadId
    report.step).eval ((cl.at report.store).handle F) s

/-- Reports one after the other, up to the first that fails. -/
def recordReports (F : Format B E) (threadId : String) :
    List Report → Solo B E → Solo B E × Except CoreError Unit
  | [], s => (s, .ok ())
  | report :: reports, s => match report.run cl F threadId s with
    | (m, .ok _) => recordReports F threadId reports m
    | (m, .error e) => (m, .error e)

/-- A frame that reports nothing is appended, as `appendStepIfNew` does with its step. -/
theorem eval_appendFrame (threadId agentType ts : String) (frame : FlowFrame) (s : Solo B E) :
    (match flowFrameToStep agentType ts frame with
      | .complete .. | .interrupt .. =>
        cl.self.appendStepIfNew cl.showEtag threadId (flowFrameToStep agentType ts frame)
      | _ => cl.self.appendStep cl.showEtag threadId (flowFrameToStep agentType ts frame)).eval
        (cl.handle F) s =
      Report.run cl ⟨cl.store, flowFrameToStep agentType ts frame⟩ F threadId s := by
  cases frame <;> rfl

/-- The frames of a suite are recorded as reports of its store. -/
theorem eval_recordFlowFrames (agentType : String) (frames : List (FlowFrame × String))
    (s : Solo B E) :
    (cl.self.recordFlowFrames cl.showEtag threadId agentType frames).eval (cl.handle F) s =
      recordReports cl F threadId
        (frames.map fun f => ⟨cl.store, flowFrameToStep agentType f.2 f.1⟩) s := by
  induction frames generalizing s with
  | nil => rfl
  | cons f frames ih =>
    obtain ⟨frame, ts⟩ := f
    have happend := eval_appendFrame (F := F) cl threadId agentType ts frame s
    rw [ThreadStore.recordFlowFrames, List.map_cons, recordReports]
    cases hout : Report.run cl ⟨cl.store, flowFrameToStep agentType ts frame⟩ F threadId s with
    | mk m r =>
      rw [hout] at happend
      cases r with
      | ok u => exact (Program.eval_andThen_ok happend).trans (ih m)
      | error e => exact Program.eval_andThen_error happend

section Run
variable (hf : cl.Answered) (htag : Function.Injective F.tag)
  (hkey : cl.threadKey threadId = .ok key)
include hf htag hkey

/-- A report that is recorded does to the stored log what it does to the log. -/
theorem holds_report {c : Option ThreadLog} {s s' : Solo B E} (h : Holds F.toFormat key c s)
    {report : Report} (hrun : report.run cl F threadId s = (s', .ok ())) :
    Holds F.toFormat key (some ((c.getD ThreadLog.default).report report.step)) s' := by
  obtain ⟨store, step⟩ := report
  have happend : ∀ m m', Holds F.toFormat key c m →
      ((cl.at store).self.appendStep (cl.at store).showEtag threadId step).eval
        ((cl.at store).handle F) m = (m', .ok ()) →
      Loads store key c m ∧ Holds F.toFormat key (some ((c.getD ThreadLog.default).push step)) m' := by
    intro m m' hm hout
    obtain ⟨hloaded, hstuck⟩ := eval_appendStep_answered (cl.at store) htag hkey hm hf step
    by_cases hloads : Loads store key c m
    · have hpushed := (hloaded hloads).2.1
      rw [hout] at hpushed
      exact ⟨hloads, hpushed⟩
    · obtain ⟨⟨e, he⟩, -⟩ := hstuck hloads
      rw [hout] at he
      cases he
  rw [Report.run, ThreadStore.appendStepIfNew, ThreadStore.isDup] at hrun
  unfold ThreadLog.report
  cases hreport : step.reportKey with
  | none =>
    simp only [hreport, Program.pure_eq, Program.bind_eq, Program.eval_bind, Program.eval_ret,
      Bool.false_eq_true, if_false] at hrun
    exact (happend s s' h hrun).2
  | some key =>
    have hget := eval_get_holds (cl.at store) htag hkey h
    simp only [hreport, Program.pure_eq, Program.bind_eq, Program.eval_bind, Program.eval_ret]
      at hrun
    cases hout : ((cl.at store).self.get threadId).eval ((cl.at store).handle F) s with
    | mk m r =>
      rw [hout] at hget hrun
      cases r with
      | error e =>
        obtain ⟨rfl, hmissing⟩ := hget.failed e rfl
        simp only [Except.toOption, Option.map_none, Option.getD_none, Bool.false_eq_true,
          if_false] at hrun
        obtain ⟨hloads, hpushed⟩ := happend _ s' h hrun
        rw [hmissing hloads] at hpushed ⊢
        exact hpushed
      | ok read =>
        obtain ⟨log, rfl, halike⟩ := hget.found read rfl
        simp only [Except.toOption, Option.map_some, Option.getD_some] at hrun ⊢
        have hread := halike.hasReport key
        by_cases hdup : read.hasReport key = true
        · simp only [hdup, if_true, Program.eval_ret] at hrun
          cases hrun
          rw [if_pos (hread.symm.trans hdup)]
          exact hget.holds
        · simp only [hdup] at hrun
          rw [if_neg fun h => hdup (hread.trans h)]
          exact (happend m s' hget.holds hrun).2

/-- Recorded reports do to the stored log what they do to the log. -/
theorem holds_recordReports {c : Option ThreadLog} {s s' : Solo B E} (h : Holds F key c s)
    {reports : List Report} (hne : reports ≠ [])
    (hrun : recordReports cl F threadId reports s = (s', .ok ())) :
    Holds F key (some ((reports.map Report.step).foldl ThreadLog.report
      (c.getD ThreadLog.default))) s' := by
  induction reports generalizing c s with
  | nil => exact absurd rfl hne
  | cons report reports ih =>
    rw [recordReports] at hrun
    cases hout : report.run cl F threadId s with
    | mk m r =>
      rw [hout] at hrun
      cases r with
      | error e => cases hrun
      | ok u =>
        have hm := holds_report cl hf htag hkey h hout
        by_cases hrest : reports = []
        · subst hrest
          cases hrun
          exact hm
        · exact ih hm hrest hrun

/-- Recorded frames do to the stored log what they do to the log. -/
theorem holds_recordFlowFrames {c : Option ThreadLog} {s s' : Solo B E} (h : Holds F key c s)
    {agentType : String} {frames : List (FlowFrame × String)} (hne : frames ≠ [])
    (hrun : (cl.self.recordFlowFrames cl.showEtag threadId agentType frames).eval (cl.handle F) s =
      (s', .ok ())) :
    Holds F key (some ((frames.map fun f => flowFrameToStep agentType f.2 f.1).foldl
      ThreadLog.report (c.getD ThreadLog.default))) s' := by
  rw [eval_recordFlowFrames] at hrun
  have hend := holds_recordReports cl hf htag hkey h (by simpa using hne) hrun
  rwa [List.map_map] at hend

/-- After a sequence of completions that were all recorded, the result is the last of them exactly if
the last new one reads the same. -/
theorem lastReport_isResult_iff (initial : Option ThreadLog) (reports : List Report)
    (last : Report) (hcomplete : ∀ report ∈ reports ++ [last], report.step.result.isSome)
    {s' : Solo B E} (hrun : recordReports cl F threadId (reports ++ [last])
      (Solo.start F.toFormat key initial) = (s', .ok ())) :
    (∃ log, Stored F key log s' ∧ log.result = last.step.result) ↔
      LastNewIs (initial.getD ThreadLog.default) ((reports ++ [last]).map Report.step)
        last.step.result := by
  have hstart : Holds F key initial (Solo.start F.toFormat key initial) :=
    ⟨(settled_start F.toFormat key initial).object, fun _ _ hentry => nomatch hentry⟩
  have hend := holds_recordReports cl hf htag hkey hstart (by simp) hrun
  have hsteps : ∀ s ∈ (reports ++ [last]).map Report.step, s.result.isSome := by
    intro s hs
    obtain ⟨report, hreport, rfl⟩ := List.mem_map.mp hs
    exact hcomplete report hreport
  rw [← foldl_report_result hsteps]
  constructor
  · rintro ⟨log, hstored, hresult⟩
    obtain ⟨log', hlog', halike⟩ := hend.stored_iff.mp hstored
    cases hlog'
    exact halike.result.trans hresult
  · intro hresult
    exact ⟨_, hend.stored_iff.mpr ⟨_, rfl, .refl _⟩, hresult⟩

end Run

/-! Three reports, on concrete documents. -/

def completion (text : String) (display : Option String) : Report :=
  ⟨0, .complete "answer" (.str text) display .okay "now" "agent"⟩

/-- The second of two different completions is the result. -/
theorem lastReport_isResult_second :
    ∃ s', recordReports (plainClient fun _ => .answer) Format.plain "thread"
        ([completion "one" none] ++ [completion "two" none])
        (Solo.start Format.plain "thread" none) = (s', .ok ()) ∧
      ∃ log, Stored Format.plain "thread" log s' ∧
        log.result = some ⟨"answer", .str "two", none⟩ := by
  have hok : (recordReports (plainClient fun _ => .answer) Format.plain "thread"
      ([completion "one" none] ++ [completion "two" none])
      (Solo.start Format.plain "thread" none)).2 = .ok () := by
    decide +kernel
  obtain ⟨s', hrun⟩ : ∃ s', recordReports (plainClient fun _ => .answer) Format.plain "thread"
      ([completion "one" none] ++ [completion "two" none])
      (Solo.start Format.plain "thread" none) = (s', .ok ()) := ⟨_, Prod.ext rfl hok⟩
  refine ⟨s', hrun, (lastReport_isResult_iff (plainClient fun _ => .answer) (fun _ => rfl)
    Format.plain_tag_injective rfl none [completion "one" none] (completion "two" none)
    (by decide) hrun).mpr ?_⟩
  refine Or.inl ⟨[(completion "one" none).step], _, [], rfl, ?_, fun _ h => (nomatch h), rfl⟩
  decide

/-- A completion that comes back after another one is suppressed, and the other one stays the
result. -/
theorem lastReport_notResult_repeated :
    ∃ s', recordReports (plainClient fun _ => .answer) Format.plain "thread"
        [completion "one" none, completion "two" none, completion "one" none]
        (Solo.start Format.plain "thread" none) = (s', .ok ()) ∧
      (∃ log, Stored Format.plain "thread" log s' ∧
        log.result = some ⟨"answer", .str "two", none⟩) ∧
      ¬ ∃ log, Stored Format.plain "thread" log s' ∧
        log.result = some ⟨"answer", .str "one", none⟩ := by
  have hok : (recordReports (plainClient fun _ => .answer) Format.plain "thread"
      [completion "one" none, completion "two" none, completion "one" none]
      (Solo.start Format.plain "thread" none)).2 = .ok () := by
    decide +kernel
  have hstored : Stored Format.plain "thread"
      ((ThreadLog.default.push (completion "one" none).step).push (completion "two" none).step)
      (recordReports (plainClient fun _ => .answer) Format.plain "thread"
        [completion "one" none, completion "two" none, completion "one" none]
        (Solo.start Format.plain "thread" none)).1 := by
    unfold Stored
    decide +kernel
  refine ⟨_, Prod.ext rfl hok, ⟨_, hstored, rfl⟩, ?_⟩
  rintro ⟨log, hlog, hresult⟩
  have halike := ThreadLog.alike_iff.mp (Option.some.inj (hstored.symm.trans hlog))
  rw [← halike.result] at hresult
  exact absurd hresult (by decide)

end ReactRuntime.Session
