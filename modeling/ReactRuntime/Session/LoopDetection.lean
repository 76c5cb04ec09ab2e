import ReactRuntime.Library.Sifting
import ReactRuntime.Session.LogSummary

/-!
# Loops that are reported

A tool loops in a window of ten steps if at least three of them end it. The windows are read from the
left, and a loop is passed over if an issue that is already there seems to cover it.
-/
namespace ReactRuntime.Session
open Library ReactRuntime.Core

/-- Ten consecutive steps, or all steps of a shorter log. -/
def IsWindow (steps : List ThreadStep) (start : Nat) : Prop :=
  start + 10 ≤ steps.length ∨ start = 0 ∧ steps.length < 10

/-- How often a tool ends in a window. -/
def loopCount (steps : List ThreadStep) (start : Nat) (name : String) : Nat :=
  ((steps.drop start).take 10).countP (ThreadStep.ends name)

/-- A range of steps has one that lies in the window. -/
def Overlaps (steps : List ThreadStep) (start : Nat) (range : Nat × Nat) : Prop :=
  ∃ i, (range.1 ≤ i ∧ i < range.2) ∧ start ≤ i ∧ i < start + 10 ∧ i < steps.length

/-- The issue says that the tool loops. -/
def Issue.Names (name : String) (issue : Issue) : Prop :=
  issue.kind = .loop ∧ ∃ count, issue.description = loopDescription name count

def MissesNoWindow (steps : List ThreadStep) (issues : List Issue) : Prop :=
  ∀ start name, IsWindow steps start → 3 ≤ loopCount steps start name →
    ∃ issue ∈ issues, issue.Names name ∧ Overlaps steps start issue.stepRange

/-- A tool that loops in a window. -/
structure LoopEntry where
  start : Nat
  stop : Nat
  name : String
  count : Nat
deriving DecidableEq, Repr

def LoopEntry.issue (e : LoopEntry) : Issue := ⟨.loop, loopDescription e.name e.count, (e.start, e.stop)⟩

/-- The issue keeps the loop from being reported. -/
def LoopEntry.coveredBy (issue : Issue) (e : LoopEntry) : Bool := issue.covers e.name e.start

/-- The loops in the order in which they are looked at. -/
def loopEntries (env : AnalysisEnv) (steps : List ThreadStep) : List LoopEntry :=
  (List.range (loopIterations steps.length)).flatMap fun start =>
    let stop := windowEnd steps.length start
    (((env.windowOrder start).read (windowCounts steps start stop).entries).filter fun entry =>
      entry.2 ≥ LOOP_THRESHOLD).map fun entry => ⟨start, stop, entry.1, entry.2⟩

def LoopEntry.suppresses (earlier e : LoopEntry) : Bool := e.coveredBy earlier.issue

/-- The loops that no such loop before them suppresses. -/
def unsuppressed (entries : List LoopEntry) : List LoopEntry := siftAll LoopEntry.suppresses id entries

/-- The issues that are there once some of the loops were looked at. -/
abbrev loopIssues (entries : List LoopEntry) : List Issue :=
  siftAll LoopEntry.coveredBy LoopEntry.issue entries

theorem detectLoops_eq (env : AnalysisEnv) (steps : List ThreadStep) :
    detectLoops env steps [] = loopIssues (loopEntries env steps) := by
  rw [loopIssues, siftAll, loopEntries, List.foldl_flatMap, detectLoops]
  simp only [List.foldl_map, List.foldl_filter, decide_eq_true_eq]
  rfl

section
variable {env : AnalysisEnv} {steps : List ThreadStep} {name : String}

/-- The steps of a window. -/
theorem drop_take_window (steps : List ThreadStep) (start : Nat) :
    (steps.take (windowEnd steps.length start)).drop start = (steps.drop start).take 10 := by
  rw [List.drop_take, windowEnd, LOOP_WINDOW]
  by_cases hfits : start + 10 ≤ steps.length
  · rw [Nat.min_eq_left hfits, Nat.add_sub_cancel_left]
  · rw [Nat.min_eq_right (by omega), List.take_of_length_le (by simp),
      List.take_of_length_le (by rw [List.length_drop]; omega)]

/-- The map of a window has the tools that end in it. -/
theorem get_windowCounts (steps : List ThreadStep) (start : Nat) (name : String) :
    (windowCounts steps start (windowEnd steps.length start)).get name =
      if loopCount steps start name = 0 then none else some (loopCount steps start name) := by
  rw [windowCounts, drop_take_window, loopCount]
  induction (steps.drop start).take 10 using List.reverseRecOn with
  | nil => rfl
  | append_singleton window step ih =>
    rw [List.foldl_append, List.foldl_cons, List.foldl_nil, List.countP_append, List.countP_singleton]
    cases hended : step.toolEnded with
    | none => simpa [ThreadStep.ends, hended] using ih
    | some e =>
      obtain ⟨ended, status⟩ := e
      simp only [SortedMap.get_insert]
      by_cases hname : name = ended
      · subst hname
        rw [if_pos rfl, ih]
        by_cases hzero : window.countP (ThreadStep.ends name) = 0 <;>
          simp [ThreadStep.ends, hended, hzero]
      · rw [if_neg hname, ih]
        simp [ThreadStep.ends, hended, Ne.symm hname]

theorem mem_loopEntries {e : LoopEntry} :
    e ∈ loopEntries env steps ↔ e.start < loopIterations steps.length ∧
      e.stop = windowEnd steps.length e.start ∧ e.count = loopCount steps e.start e.name ∧
      3 ≤ e.count := by
  obtain ⟨start, stop, name, count⟩ := e
  have hentry : ∀ counted, (name, counted) ∈
      (windowCounts steps start (windowEnd steps.length start)).entries ∧ 3 ≤ counted ↔
        counted = loopCount steps start name ∧ 3 ≤ counted := by
    intro counted
    constructor
    · rintro ⟨hmem, hthree⟩
      have hget := SortedMap.get_of_mem_entries hmem
      rw [get_windowCounts] at hget
      split_ifs at hget
      exact ⟨(Option.some_inj.mp hget).symm, hthree⟩
    · rintro ⟨rfl, hthree⟩
      refine ⟨SortedMap.mem_entries_of_get ?_, hthree⟩
      rw [get_windowCounts, if_neg (by omega)]
  simp only [loopEntries, List.mem_flatMap, List.mem_range, List.mem_map, List.mem_filter,
    LoopEntry.mk.injEq, LOOP_THRESHOLD, Prod.exists]
  constructor
  · rintro ⟨seen, hlt, name', count', ⟨hmem, hthree⟩, rfl, rfl, rfl, rfl⟩
    rw [((env.windowOrder seen).perm _).mem_iff] at hmem
    exact ⟨hlt, rfl, (hentry _).mp ⟨hmem, of_decide_eq_true hthree⟩⟩
  · rintro ⟨hlt, rfl, hcount⟩
    obtain ⟨hmem, hthree⟩ := (hentry _).mpr hcount
    refine ⟨start, hlt, name, count, ⟨?_, decide_eq_true hthree⟩, rfl, rfl, rfl, rfl⟩
    rwa [((env.windowOrder start).perm _).mem_iff]

end

theorem toList_loopDescription (name : String) (count : Nat) :
    (loopDescription name count).toList = "Tool '".toList ++
      (name.toList ++ "' called ".toList ++ (toString count).toList) ++
      (" times in ".toList ++ (toString LOOP_WINDOW).toList ++ " steps".toList) := by
  simp only [loopDescription, String.toList_append, List.append_assoc]

/-- The name of the tool stands in front of the last number. -/
theorem rdropWhile_count (name : List Char) (count : Nat) :
    (name ++ "' called ".toList ++ (toString count).toList).rdropWhile Char.isDigit =
      name ++ "' called ".toList := by
  have hdigits : (toString count).toList.rdropWhile Char.isDigit = [] := by
    rw [Nat.toString_eq_ofList_toDigits, String.toList_ofList, List.rdropWhile_eq_nil_iff]
    intro c hc
    exact Nat.isDigit_of_mem_toDigits (by decide) (by decide) hc
  rw [rdropWhile_append_of_getLast, hdigits, List.append_nil]
  exact ⟨' ', by rw [List.getLast?_append]; rfl, by decide⟩

/-- The description of a loop tells the tool. -/
theorem loopDescription_inj {name other : String} {count counted : Nat}
    (h : loopDescription name count = loopDescription other counted) : name = other := by
  have hlist := congrArg String.toList h
  rw [toList_loopDescription, toList_loopDescription, List.append_cancel_right_eq,
    List.append_cancel_left_eq] at hlist
  have hnames := congrArg (List.rdropWhile Char.isDigit) hlist
  rw [rdropWhile_count, rdropWhile_count, List.append_cancel_right_eq] at hnames
  exact String.toList_inj.mp hnames

theorem LoopEntry.names_iff {e : LoopEntry} {name : String} : e.issue.Names name ↔ e.name = name := by
  constructor
  · rintro ⟨-, count, hdescription⟩
    exact loopDescription_inj hdescription
  · rintro rfl
    exact ⟨rfl, e.count, rfl⟩

def Issue.isLoop (issue : Issue) : Bool := issue.kind = .loop

section
variable {issues : List Issue}

theorem filter_append_of_no_loop {more : List Issue} (h : ∀ issue ∈ more, issue.isLoop = false) :
    (issues ++ more).filter Issue.isLoop = issues.filter Issue.isLoop := by
  have hnone : more.filter Issue.isLoop = [] := List.filter_eq_nil_iff.mpr (by simpa using h)
  rw [List.filter_append, hnone, List.append_nil]

/-- A pass over the log that adds no loop in any step. -/
theorem filter_foldl_of_no_loop {σ α : Type} {f : σ × List Issue → α → σ × List Issue}
    (hf : ∀ acc x, (f acc x).2.filter Issue.isLoop = acc.2.filter Issue.isLoop) (xs : List α)
    (acc : σ × List Issue) :
    (xs.foldl f acc).2.filter Issue.isLoop = acc.2.filter Issue.isLoop := by
  induction xs generalizing acc with
  | nil => rfl
  | cons x xs ih => rw [List.foldl_cons, ih, hf]

theorem filter_detectStalls (env : AnalysisEnv) (steps : List ThreadStep) :
    (detectStalls env steps issues).filter Issue.isLoop = issues.filter Issue.isLoop := by
  apply filter_append_of_no_loop
  intro issue hissue
  obtain ⟨⟨⟨prev, cur⟩, i⟩, -, hsome⟩ := List.mem_filterMap.mp hissue
  dsimp only at hsome
  split at hsome
  · split_ifs at hsome
    obtain rfl := Option.some_inj.mp hsome
    rfl
  · cases hsome

theorem flush_not_loop (self : PhaseErrors) (stop : Nat) :
    ∀ issue ∈ (self.flush stop).toList, issue.isLoop = false := by
  intro issue hissue
  rw [PhaseErrors.flush] at hissue
  split_ifs at hissue
  · obtain rfl := List.mem_singleton.mp hissue
    rfl
  · cases hissue

theorem filter_detectHighErrorRate (steps : List ThreadStep) :
    (detectHighErrorRate steps issues).filter Issue.isLoop = issues.filter Issue.isLoop := by
  rw [detectHighErrorRate, filter_append_of_no_loop (flush_not_loop _ _), filter_foldl_of_no_loop]
  intro acc s
  obtain ⟨step, idx⟩ := s
  unfold PhaseErrors.step
  split
  · exact filter_append_of_no_loop (flush_not_loop _ _)
  all_goals rfl

theorem filter_detectExcessiveLlmCalls (steps : List ThreadStep) :
    (detectExcessiveLlmCalls steps issues).filter Issue.isLoop = issues.filter Issue.isLoop := by
  rw [detectExcessiveLlmCalls, filter_foldl_of_no_loop]
  intro acc s
  rw [LlmRun.step]
  split_ifs
  · apply filter_append_of_no_loop
    simp [Issue.isLoop]
  · rfl

theorem filter_detectPhaseRegression (steps : List ThreadStep) :
    (detectPhaseRegression steps issues).filter Issue.isLoop = issues.filter Issue.isLoop := by
  apply filter_append_of_no_loop
  intro issue hissue
  obtain ⟨i, -, hsome⟩ := List.mem_filterMap.mp hissue
  unfold phaseRevisit at hsome
  split at hsome
  · cases hsome
  · split at hsome
    · cases hsome
    · split_ifs at hsome
      obtain rfl := Option.some_inj.mp hsome
      rfl

end

/-- The loops that are found are those of the first pass. -/
theorem mem_detectIssues {env : AnalysisEnv} {log : ThreadLog} {issue : Issue}
    (hloop : issue.kind = .loop) :
    issue ∈ detectIssues env log ↔ issue ∈ loopIssues (loopEntries env log.steps) := by
  have hfilter : (detectIssues env log).filter Issue.isLoop =
      (detectLoops env log.steps []).filter Issue.isLoop := by
    rw [detectIssues, filter_detectPhaseRegression, filter_detectExcessiveLlmCalls,
      filter_detectHighErrorRate, filter_detectStalls]
  have hmem := congrArg (issue ∈ ·) hfilter
  simpa [Issue.isLoop, hloop, detectLoops_eq] using hmem

/-- A loop of the tool that is looked at overlaps the window, and what suppresses it without being
suppressed itself is a loop of the tool that overlaps the window too. -/
def Attended (env : AnalysisEnv) (steps : List ThreadStep) : Prop :=
  ∀ start name, IsWindow steps start → 3 ≤ loopCount steps start name →
    ∃ before e after, loopEntries env steps = before ++ e :: after ∧
      (e.name = name ∧ Overlaps steps start (e.start, e.stop)) ∧
      ∀ earlier ∈ unsuppressed before, earlier.suppresses e = true →
        earlier.name = name ∧ Overlaps steps start (earlier.start, earlier.stop)

/-- The same of every loop that could keep it from being reported, whatever the order of the maps. -/
def Clear (steps : List ThreadStep) : Prop :=
  ∀ start name, IsWindow steps start → 3 ≤ loopCount steps start name →
    ∃ seen < loopIterations steps.length, 3 ≤ loopCount steps seen name ∧
      Overlaps steps start (seen, windowEnd steps.length seen) ∧
      ∀ other earlier, earlier ≤ seen → 3 ≤ loopCount steps earlier other →
        seen ≤ windowEnd steps.length earlier →
        containsText (loopDescription other (loopCount steps earlier other)) name = true →
        other = name ∧ Overlaps steps start (earlier, windowEnd steps.length earlier)

/-- The loops are looked at from the left. -/
theorem pairwise_loopEntries (env : AnalysisEnv) (steps : List ThreadStep) :
    (loopEntries env steps).Pairwise fun e e' => e.start ≤ e'.start := by
  rw [loopEntries, List.pairwise_flatMap]
  constructor
  · intro start _
    rw [List.pairwise_map]
    exact List.pairwise_of_forall fun _ _ => le_rfl
  · refine List.pairwise_lt_range.imp fun {start later} hlt e he e' he' => ?_
    obtain ⟨_, -, rfl⟩ := List.mem_map.mp he
    obtain ⟨_, -, rfl⟩ := List.mem_map.mp he'
    exact hlt.le

theorem Clear.attended {steps : List ThreadStep} (h : Clear steps) (env : AnalysisEnv) :
    Attended env steps := by
  intro start name hstart hthree
  obtain ⟨seen, hlt, hloop, hoverlaps, hclear⟩ := h start name hstart hthree
  have hmem : (⟨seen, windowEnd steps.length seen, name, loopCount steps seen name⟩ : LoopEntry) ∈
      loopEntries env steps := mem_loopEntries.mpr ⟨hlt, rfl, rfl, hloop⟩
  obtain ⟨before, after, hsplit⟩ := List.append_of_mem hmem
  refine ⟨before, _, after, hsplit, ⟨rfl, hoverlaps⟩, fun e hunsuppressed hsuppresses => ?_⟩
  obtain ⟨front, _, back, hbefore, rfl, -⟩ := mem_siftAll.mp hunsuppressed
  have he : e ∈ before := by simp [hbefore]
  have hentry : e ∈ loopEntries env steps := by
    rw [hsplit]
    exact List.mem_append_left _ he
  obtain ⟨-, hstop, hcount, hcounted⟩ := mem_loopEntries.mp hentry
  have hle : e.start ≤ seen := by
    have hpairwise := pairwise_loopEntries env steps
    rw [hsplit] at hpairwise
    exact (List.pairwise_append.mp hpairwise).2.2 e he _ List.mem_cons_self
  obtain ⟨-, htext, hend⟩ : True ∧ containsText (loopDescription e.name e.count) name = true ∧
      seen ≤ e.stop := by
    simpa [LoopEntry.suppresses, LoopEntry.coveredBy, Issue.covers, LoopEntry.issue] using hsuppresses
  rw [hcount] at htext
  rw [hcount] at hcounted
  obtain ⟨hname, hoverlap⟩ := hclear e.name e.start hle hcounted (hstop ▸ hend) htext
  rw [← hstop] at hoverlap
  exact ⟨hname, hoverlap⟩

/-- A loop that is looked at is reported, or the reported ones that suppress it are as good. -/
theorem exists_mem_loopIssues {entries : List LoopEntry} (good : Issue → Prop) :
    (∃ issue ∈ loopIssues entries, good issue) ↔
      ∃ before e after, entries = before ++ e :: after ∧ good e.issue ∧
        ∀ earlier ∈ unsuppressed before, earlier.suppresses e = true → good earlier.issue := by
  unfold loopIssues
  rw [siftAll_eq_map]
  simp only [List.mem_map, exists_exists_and_eq_and]
  exact exists_mem_siftAll fun e : LoopEntry => good e.issue

/-- A window that is attended to has a loop that is reported. -/
theorem missesNoWindow_iff (env : AnalysisEnv) (log : ThreadLog) :
    MissesNoWindow log.steps (detectIssues env log) ↔ Attended env log.steps := by
  unfold MissesNoWindow Attended
  refine forall_congr' fun start => forall_congr' fun name => forall₂_congr fun _ _ => ?_
  have hloops : (∃ issue ∈ detectIssues env log,
      issue.Names name ∧ Overlaps log.steps start issue.stepRange) ↔
      ∃ issue ∈ loopIssues (loopEntries env log.steps),
        issue.Names name ∧ Overlaps log.steps start issue.stepRange := by
    constructor
    · rintro ⟨issue, hmem, hgood⟩
      exact ⟨issue, (mem_detectIssues hgood.1.1).mp hmem, hgood⟩
    · rintro ⟨issue, hmem, hgood⟩
      exact ⟨issue, (mem_detectIssues hgood.1.1).mpr hmem, hgood⟩
  rw [hloops, exists_mem_loopIssues]
  simp only [LoopEntry.names_iff]
  rfl

/-- A loop in the last window of a longer log is not seen: only the windows before it are looked at. -/
def lastWindowLog : ThreadLog :=
  let toolEnd : ThreadStep :=
    .toolEnd "1" "sql" "" .null .ok none none (.okay .empty) "" "agent"
  { ThreadLog.default with
    steps := List.replicate 8 (.user "" .okay "" "agent") ++ List.replicate 3 toolEnd }

theorem last_window_missed : ¬ ∀ env (log : ThreadLog), MissesNoWindow log.steps (detectIssues env log) := by
  intro h
  let env : AnalysisEnv := ⟨fun _ => none, fun _ => "", .sorted _, fun _ => .sorted _⟩
  obtain ⟨issue, hmem, hnames, -⟩ := h env lastWindowLog 1 "sql" (.inl (by decide)) (by decide)
  rw [mem_detectIssues hnames.1, mem_siftAll] at hmem
  obtain ⟨before, e, after, hsplit, rfl, -⟩ := hmem
  have hentry : e ∈ loopEntries env lastWindowLog.steps := by simp [hsplit]
  obtain ⟨hstart, -, hcount, hthree⟩ := mem_loopEntries.mp hentry
  have hfirst : e.start = 0 := Nat.lt_one_iff.mp hstart
  have htwo : loopCount lastWindowLog.steps 0 "sql" = 2 := by decide
  rw [LoopEntry.names_iff.mp hnames, hfirst, htwo] at hcount
  omega

/-- No window is missed exactly if each one with a loop is attended to, which a clear log sees to. -/
theorem detectIssues_missesNoWindow (env : AnalysisEnv) (log : ThreadLog) :
    (MissesNoWindow log.steps (detectIssues env log) ↔ Attended env log.steps) ∧
      (Clear log.steps → MissesNoWindow log.steps (detectIssues env log)) :=
  ⟨missesNoWindow_iff env log, fun hclear => (missesNoWindow_iff env log).mpr (hclear.attended env)⟩

end ReactRuntime.Session
