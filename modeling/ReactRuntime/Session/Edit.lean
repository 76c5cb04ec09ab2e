import ReactRuntime.Session.Store
import ReactRuntime.Library.Versioned
import Mathlib.Data.List.Induction

/-!
# Edits of a thread log

The purpose of the thread store, without storage: a log is what a list of edits
makes of the empty log. Every edit that does something moves the log strictly
forward, except a title that is set to what it was. So a document that was
replaced by another one never comes back.
-/
namespace ReactRuntime.Session
open Library Serde

/-- The calls on a thread: four writers and the reader. -/
inductive ThreadOp where
  | append (step : ThreadStep)
  | preflight (agent : String) (suiteId : Option String) (initialPhase ts : String)
  | setTitleIfAbsent (title : String)
  | lockTitle (title : String)
  | get

/-- No title, or an empty one. -/
def ThreadLog.titleAbsent (log : ThreadLog) : Bool :=
  log.title.isNone || (log.title.map String.isEmpty).getD true

/-- The edited log, and nothing when the writer finds nothing to do. -/
def ThreadOp.apply (log : ThreadLog) : ThreadOp → Option ThreadLog
  | .append step => some (log.push step)
  | .preflight agent suiteId initialPhase ts =>
    if log.firstPhase.isSome then none
    else some { log with steps := log.steps ++ [preflightStep agent suiteId initialPhase ts] }
  | .setTitleIfAbsent title =>
    if log.titleAbsent then some { log with title := some title } else none
  | .lockTitle title =>
    if log.titleLocked then none
    else some { log with title := some title, titleLocked := true }
  | .get => none

/-- The step that an edit adds to the log. -/
def ThreadOp.added : ThreadOp → List ThreadStep
  | .append step => [step]
  | .preflight agent suiteId initialPhase ts => [preflightStep agent suiteId initialPhase ts]
  | .setTitleIfAbsent _ | .lockTitle _ | .get => []

/-- What an edit that does something makes of a log, and when it does. -/
theorem ThreadOp.apply_cases {log log' : ThreadLog} {e : ThreadOp} (h : e.apply log = some log') :
    (∃ step, e = .append step ∧ log' = log.push step) ∨
    (∃ agent suiteId initialPhase ts, e = .preflight agent suiteId initialPhase ts ∧
      log.firstPhase.isSome = false ∧
      log' = { log with steps := log.steps ++ [preflightStep agent suiteId initialPhase ts] }) ∨
    (∃ title, e = .setTitleIfAbsent title ∧ log.titleAbsent = true ∧
      log' = { log with title := some title }) ∨
    (∃ title, e = .lockTitle title ∧ log.titleLocked = false ∧
      log' = { log with title := some title, titleLocked := true }) := by
  cases e with
  | append step => exact .inl ⟨step, rfl, (Option.some.inj h).symm⟩
  | preflight agent suiteId initialPhase ts =>
    obtain ⟨hnone, heq⟩ := Option.ite_none_left_eq_some.mp h
    exact .inr (.inl ⟨_, _, _, _, rfl, Bool.eq_false_of_not_eq_true hnone,
      (Option.some.inj heq).symm⟩)
  | setTitleIfAbsent title =>
    obtain ⟨habsent, heq⟩ := Option.ite_none_right_eq_some.mp h
    exact .inr (.inr (.inl ⟨title, rfl, habsent, (Option.some.inj heq).symm⟩))
  | lockTitle title =>
    obtain ⟨hunlocked, heq⟩ := Option.ite_none_left_eq_some.mp h
    exact .inr (.inr (.inr ⟨title, rfl, Bool.eq_false_of_not_eq_true hunlocked,
      (Option.some.inj heq).symm⟩))
  | get => cases h

theorem ThreadOp.apply_steps {log log' : ThreadLog} {e : ThreadOp} (h : e.apply log = some log') :
    log'.steps = log.steps ++ e.added := by
  rcases apply_cases h with ⟨step, rfl, rfl⟩ | ⟨agent, suiteId, initialPhase, ts, rfl, -, rfl⟩ |
    ⟨title, rfl, -, rfl⟩ | ⟨title, rfl, -, rfl⟩
  · rfl
  · rfl
  · exact (List.append_nil _).symm
  · exact (List.append_nil _).symm

/-- The result after a completion is the completion; no other edit touches it. -/
theorem ThreadOp.apply_result {log log' : ThreadLog} {e : ThreadOp} (h : e.apply log = some log') :
    log'.result = ((e.added.filterMap ThreadStep.result).getLast?).or log.result := by
  rcases apply_cases h with ⟨step, rfl, rfl⟩ | ⟨agent, suiteId, initialPhase, ts, rfl, -, rfl⟩ |
    ⟨title, rfl, -, rfl⟩ | ⟨title, rfl, -, rfl⟩
  · cases hr : step.result <;> simp [ThreadLog.push, added, hr]
  · rfl
  · rfl
  · rfl

theorem lookup_of_object_eq {fs gs : Fields} (h : Json.object fs = Json.object gs) (k : String) :
    fs.reverse.lookup k = gs.reverse.lookup k := by
  rw [← lookup_object, ← lookup_object]
  have he : (SortedMap.ofList fs).entries = (SortedMap.ofList gs).entries := by
    simpa [Json.object] using h
  rw [he]

/-- What two lists share under one function, they share under a coarser one. -/
theorem map_eq_of_map_eq {α β γ : Type} {f : α → β} {g : α → γ}
    (hfg : ∀ x y, f x = f y → g x = g y) {xs ys : List α} (h : xs.map f = ys.map f) :
    xs.map g = ys.map g := by
  induction xs generalizing ys with
  | nil =>
    rw [List.map_nil, eq_comm, List.map_eq_nil_iff] at h
    rw [h]
  | cons x xs ih =>
    cases ys with
    | nil => simp at h
    | cons y ys =>
      simp only [List.map_cons, List.cons.injEq] at h ⊢
      exact ⟨hfg x y h.1, ih h.2⟩

/-- The tag that serde writes for a variant. -/
def ThreadStep.tag : ThreadStep → String
  | .switchSuite .. => "switch_suite"
  | .switchAgent .. => "switch_agent"
  | .user .. => "user"
  | .toolStart .. => "tool_start"
  | .toolEnd .. => "tool_end"
  | .llmStart .. => "llm_start"
  | .llmEnd .. => "llm_end"
  | .llmCall .. => "llm_call"
  | .phase .. => "phase"
  | .guardBlock .. => "guard_block"
  | .runLoopStop .. => "run_loop_stop"
  | .artifactFocus .. => "artifact_focus"
  | .artifactSaved .. => "artifact_saved"
  | .interrupt .. => "interrupt"
  | .reviewResponse .. => "review_response"
  | .complete .. => "complete"
  | .checkpoint .. => "checkpoint"

theorem ThreadStep.lookup_type (s : ThreadStep) :
    s.toFields.reverse.lookup "type" = some (.str s.tag) := by
  cases s <;> rfl

theorem ThreadStep.isPhase_eq_tag (s : ThreadStep) : s.isPhase = (s.tag == "phase") := by
  cases s <;> simp [isPhase, tag]

theorem ThreadStep.isPhase_of_toValue {s s' : ThreadStep} (h : s.toValue = s'.toValue) :
    s.isPhase = s'.isPhase := by
  have ht := lookup_of_object_eq h "type"
  rw [lookup_type, lookup_type, Option.some.injEq, Json.str.injEq] at ht
  rw [isPhase_eq_tag, isPhase_eq_tag, ht]

namespace ThreadLog
variable {log log' : ThreadLog}

/-- What two logs share that are written as the same document. -/
structure Alike (log log' : ThreadLog) : Prop where
  schemaVersion : log.schemaVersion = log'.schemaVersion
  steps : log.steps.map ThreadStep.toValue = log'.steps.map ThreadStep.toValue
  result : log.result = log'.result
  title : log.title = log'.title
  titleLocked : log.titleLocked = log'.titleLocked

theorem alike_iff : log.toValue = log'.toValue ↔ Alike log log' := by
  constructor
  · intro h
    have hv := lookup_of_object_eq h "schema_version"
    have hs := lookup_of_object_eq h "steps"
    have hr := lookup_of_object_eq h "result"
    have ht := lookup_of_object_eq h "title"
    have hl := lookup_of_object_eq h "title_locked"
    simp only [List.reverse_cons, List.reverse_nil, List.nil_append, List.cons_append,
      SortedMap.lookup_cons_ite] at hv hs hr ht hl
    simp at hv hs hr ht hl
    have hres := congrArg (De.nullable ThreadResult.fromValue) hr
    have htitle := congrArg (De.nullable De.str) ht
    simp at hres htitle
    have hver := congrArg (fun n => De.u32 (.num (.posInt n))) hv
    simp only [schema_roundtrip, Except.ok.injEq] at hver
    exact ⟨hver, hs, hres, htitle, hl⟩
  · intro h
    simp only [toValue, h.schemaVersion, h.steps, h.result, h.title, h.titleLocked]

theorem Alike.refl (log : ThreadLog) : Alike log log := ⟨rfl, rfl, rfl, rfl, rfl⟩

theorem Alike.symm (h : Alike log log') : Alike log' log := alike_iff.mp (alike_iff.mpr h).symm

theorem firstPhase_isSome (log : ThreadLog) :
    log.firstPhase.isSome = log.steps.any ThreadStep.isPhase := by
  have hgen : ∀ (steps : List ThreadStep) (n : Nat),
      (steps.zipIdx n).any (fun e => e.1.isPhase) = steps.any ThreadStep.isPhase := by
    intro steps
    induction steps with
    | nil => intro n; rfl
    | cons s steps ih =>
      intro n
      rw [List.zipIdx_cons, List.any_cons, List.any_cons, ih (n + 1)]
  rw [firstPhase, List.isSome_findSome?, ← hgen log.steps 0]
  refine congrArg (List.any _) (funext fun e => ?_)
  cases e.1 <;> rfl

theorem Alike.firstPhase (h : Alike log log') :
    log.firstPhase.isSome = log'.firstPhase.isSome := by
  have hphases : log.steps.map ThreadStep.isPhase = log'.steps.map ThreadStep.isPhase :=
    map_eq_of_map_eq (fun _ _ => ThreadStep.isPhase_of_toValue) h.steps
  have hany : ∀ steps : List ThreadStep, steps.any ThreadStep.isPhase =
      (steps.map ThreadStep.isPhase).any id := by
    intro steps
    rw [List.any_map]
    rfl
  rw [firstPhase_isSome, firstPhase_isSome, hany, hany, hphases]

theorem Alike.titleAbsent (h : Alike log log') : log.titleAbsent = log'.titleAbsent := by
  rw [ThreadLog.titleAbsent, ThreadLog.titleAbsent, h.title]

theorem Alike.push (h : Alike log log') (step : ThreadStep) :
    Alike (log.push step) (log'.push step) where
  schemaVersion := h.schemaVersion
  steps := by simp [ThreadLog.push, h.steps]
  result := by cases hr : step.result <;> simp [ThreadLog.push, hr, h.result]
  title := h.title
  titleLocked := h.titleLocked

theorem not_alike_push (step : ThreadStep) : ¬ Alike log (log.push step) := by
  intro h
  have hlen := congrArg List.length h.steps
  simp [ThreadLog.push] at hlen

def titleRank : Option String → Nat
  | none => 0
  | some title => if title.isEmpty then 1 else 2

theorem titleRank_le (title : Option String) : titleRank title ≤ 2 := by
  cases title with
  | none => decide
  | some title =>
    rw [titleRank]
    split_ifs <;> omega

theorem titleRank_some_pos (title : String) : 1 ≤ titleRank (some title) := by
  rw [titleRank]
  split_ifs <;> omega

/-- How far a log has come. -/
def rank (log : ThreadLog) : Nat :=
  8 * log.steps.length + 4 * log.titleLocked.toNat + titleRank log.title

theorem Alike.rank (h : Alike log log') : log.rank = log'.rank := by
  have hlen : log.steps.length = log'.steps.length := by
    have := congrArg List.length h.steps
    simpa using this
  rw [ThreadLog.rank, ThreadLog.rank, hlen, h.titleLocked, h.title]

end ThreadLog

namespace ThreadOp
variable {log log' : ThreadLog} {e : ThreadOp}

/-- An edit does the same to two logs with one document. -/
theorem apply_alike (h : ThreadLog.Alike log log') : (e.apply log = none ∧ e.apply log' = none) ∨
    ∃ l l', e.apply log = some l ∧ e.apply log' = some l' ∧ ThreadLog.Alike l l' := by
  cases e with
  | append step => exact Or.inr ⟨_, _, rfl, rfl, h.push step⟩
  | preflight agent suiteId initialPhase ts =>
    by_cases hp : log.firstPhase.isSome
    · have hp' := h.firstPhase ▸ hp
      exact Or.inl ⟨if_pos hp, if_pos hp'⟩
    · have hp' := h.firstPhase ▸ hp
      refine Or.inr ⟨_, _, if_neg hp, if_neg hp', h.schemaVersion, ?_, h.result, h.title,
        h.titleLocked⟩
      simp [h.steps]
  | setTitleIfAbsent title =>
    by_cases ha : log.titleAbsent
    · have ha' := h.titleAbsent ▸ ha
      exact Or.inr ⟨_, _, if_pos ha, if_pos ha', h.schemaVersion, h.steps, h.result, rfl,
        h.titleLocked⟩
    · have ha' := h.titleAbsent ▸ ha
      exact Or.inl ⟨if_neg ha, if_neg ha'⟩
  | lockTitle title =>
    by_cases hl : log.titleLocked
    · have hl' := h.titleLocked ▸ hl
      exact Or.inl ⟨if_pos hl, if_pos hl'⟩
    · have hl' := h.titleLocked ▸ hl
      exact Or.inr ⟨_, _, if_neg hl, if_neg hl', h.schemaVersion, h.steps, h.result, rfl, rfl⟩
  | get => exact Or.inl ⟨rfl, rfl⟩

theorem setTitle_rank {title : String} (h : log.titleAbsent) :
    log.rank < ({ log with title := some title } : ThreadLog).rank ∨
      ({ log with title := some title } : ThreadLog) = log := by
  have hnew := ThreadLog.titleRank_some_pos title
  cases ht : log.title with
  | none =>
    left
    simp only [ThreadLog.rank, ht, ThreadLog.titleRank] at hnew ⊢
    omega
  | some old =>
    have hold : old = "" := by simpa [ThreadLog.titleAbsent, ht] using h
    by_cases hempty : title = ""
    · right
      rw [hempty, ← hold, ← ht]
    · left
      simp [ThreadLog.rank, ht, ThreadLog.titleRank, hold, hempty]

/-- An edit that does something moves the log forward or leaves it as it was. -/
theorem apply_rank (h : e.apply log = some log') : log.rank < log'.rank ∨ log' = log := by
  rcases apply_cases h with ⟨step, rfl, rfl⟩ | ⟨agent, suiteId, initialPhase, ts, rfl, -, rfl⟩ |
    ⟨title, rfl, habsent, rfl⟩ | ⟨title, rfl, hunlocked, rfl⟩
  · left
    simp only [ThreadLog.rank, ThreadLog.push, List.length_append, List.length_singleton]
    omega
  · left
    simp only [ThreadLog.rank, List.length_append, List.length_singleton]
    omega
  · exact setTitle_rank habsent
  · left
    have hold := ThreadLog.titleRank_le log.title
    have hnew := ThreadLog.titleRank_some_pos title
    simp only [ThreadLog.rank, Bool.toNat_true, hunlocked, Bool.toNat_false]
    omega

end ThreadOp

section History
variable {τ : Type} (op : τ → ThreadOp)

/-- The log after one more edit. -/
def replayStep (log : ThreadLog) (t : τ) : ThreadLog := ((op t).apply log).getD log

/-- The log that a list of edits makes of the empty log. -/
def replay (ts : List τ) : ThreadLog := ts.foldl (replayStep op) ThreadLog.default

/-- The documents written by the edits, one for each. -/
def documents (ts : List τ) : List Json :=
  (List.range ts.length).map fun n => (replay op (ts.take (n + 1))).toValue

/-- Every edit found something to do. -/
def Effective (ts : List τ) : Prop :=
  ∀ us t, us ++ [t] <+: ts → ((op t).apply (replay op us)).isSome

variable {op} {ts us : List τ} {t : τ}

theorem replay_append_singleton (ts : List τ) (t : τ) :
    replay op (ts ++ [t]) = ((op t).apply (replay op ts)).getD (replay op ts) := by
  simp [replay, replayStep]

theorem documents_length (ts : List τ) : (documents op ts).length = ts.length := by
  simp [documents]

theorem documents_append_singleton (ts : List τ) (t : τ) : documents op (ts ++ [t]) =
    documents op ts ++ [(replay op (ts ++ [t])).toValue] := by
  unfold documents
  rw [List.length_append, List.length_singleton, List.range_succ, List.map_append]
  congr 1
  · apply List.map_congr_left
    intro n hn
    rw [List.take_append_of_le_length (List.mem_range.mp hn)]
  · simp [List.take_of_length_le]

theorem documents_isPrefix (h : us <+: ts) : documents op us <+: documents op ts := by
  obtain ⟨vs, rfl⟩ := h
  induction vs using List.reverseRecOn with
  | nil => simp
  | append_singleton vs v ih =>
    rw [← List.append_assoc, documents_append_singleton]
    exact ih.trans (List.prefix_append _ _)

theorem documents_getLast? (ts : List τ) (t : τ) :
    (documents op (ts ++ [t])).getLast? = some (replay op (ts ++ [t])).toValue := by
  rw [documents_append_singleton]
  simp

theorem documents_getLast?_eq (ts : List τ) : (documents op ts).getLast? =
    if ts = [] then none else some (replay op ts).toValue := by
  induction ts using List.reverseRecOn with
  | nil => rfl
  | append_singleton ts t _ =>
    rw [documents_getLast?]
    simp

theorem documents_getElem?_eq {ts : List τ} {j : Nat} {x : Json}
    (h : (documents op ts)[j]? = some x) :
    j < ts.length ∧ x = (replay op (ts.take (j + 1))).toValue := by
  obtain ⟨hj, hx⟩ := List.getElem?_eq_some_iff.mp h
  have hlen : j < ts.length := by rwa [documents_length] at hj
  refine ⟨hlen, ?_⟩
  rw [← hx]
  simp [documents]

theorem exists_of_mem_documents {x : Json} (h : x ∈ documents op ts) :
    ∃ log : ThreadLog, log.toValue = x := by
  obtain ⟨n, -, hn⟩ := List.mem_map.mp h
  exact ⟨_, hn⟩

theorem Effective.nil : Effective op ([] : List τ) := by
  intro us t h
  simp at h

theorem Effective.snoc (h : Effective op ts) (ht : ((op t).apply (replay op ts)).isSome) :
    Effective op (ts ++ [t]) := by
  intro us u hu
  rcases List.prefix_concat_iff.mp hu with heq | hlt
  · obtain ⟨rfl, hlast⟩ := List.append_inj' heq rfl
    cases hlast
    exact ht
  · exact h us u hlt

theorem Effective.of_snoc (h : Effective op (ts ++ [t])) :
    Effective op ts ∧ ((op t).apply (replay op ts)).isSome :=
  ⟨fun us u hu => h us u (hu.trans (List.prefix_append _ _)), h ts t (List.prefix_refl _)⟩

/-- Everything written so far is no further than the current log. -/
theorem Effective.rank_le (h : Effective op ts) {x : Json} (hx : x ∈ documents op ts) :
    ∃ log : ThreadLog, log.toValue = x ∧ log.rank ≤ (replay op ts).rank := by
  induction ts using List.reverseRecOn with
  | nil => simp [documents] at hx
  | append_singleton ts t ih =>
    obtain ⟨hts, ht⟩ := h.of_snoc
    obtain ⟨log', hlog'⟩ := Option.isSome_iff_exists.mp ht
    have hnew : replay op (ts ++ [t]) = log' := by rw [replay_append_singleton, hlog']; rfl
    have hle : (replay op ts).rank ≤ log'.rank := by
      rcases ThreadOp.apply_rank hlog' with hlt | heq
      · omega
      · rw [heq]
    rw [documents_append_singleton, List.mem_append, List.mem_singleton] at hx
    rw [hnew] at hx ⊢
    cases hx with
    | inl hold =>
      obtain ⟨log, hlog, hr⟩ := ih hts hold
      exact ⟨log, hlog, by omega⟩
    | inr hlast => exact ⟨log', hlast.symm, le_rfl⟩

/-- No document of a history of effective edits returns. -/
theorem Effective.noReturn (h : Effective op ts) : NoReturn (documents op ts) := by
  induction ts using List.reverseRecOn with
  | nil => exact NoReturn.nil
  | append_singleton ts t ih =>
    obtain ⟨hts, ht⟩ := h.of_snoc
    obtain ⟨log', hlog'⟩ := Option.isSome_iff_exists.mp ht
    have hnew : replay op (ts ++ [t]) = log' := by rw [replay_append_singleton, hlog']; rfl
    rw [documents_append_singleton, hnew]
    apply (ih hts).snoc
    rcases ThreadOp.apply_rank hlog' with hlt | heq
    · right
      intro hmem
      obtain ⟨log, hlog, hr⟩ := hts.rank_le hmem
      have := (ThreadLog.alike_iff.mp hlog).rank
      omega
    · induction ts using List.reverseRecOn with
      | nil =>
        -- A first edit that writes the empty log again is new all the same.
        right
        simp [documents]
      | append_singleton us u _ =>
        left
        rw [documents_getLast?, heq]

end History

section Content
variable {τ : Type} {op : τ → ThreadOp} {ts : List τ}

/-- The steps of the log are the steps of its edits, in the order of the edits. -/
theorem Effective.replay_steps (h : Effective op ts) :
    (replay op ts).steps = ts.flatMap fun t => (op t).added := by
  induction ts using List.reverseRecOn with
  | nil => rfl
  | append_singleton ts t ih =>
    obtain ⟨hts, ht⟩ := h.of_snoc
    obtain ⟨log', hlog'⟩ := Option.isSome_iff_exists.mp ht
    rw [replay_append_singleton, hlog', Option.getD_some, ThreadOp.apply_steps hlog', ih hts]
    simp

/-- The result of the log is its last completion. -/
theorem Effective.replay_result (h : Effective op ts) :
    (replay op ts).result = ((replay op ts).steps.filterMap ThreadStep.result).getLast? := by
  induction ts using List.reverseRecOn with
  | nil => rfl
  | append_singleton ts t ih =>
    obtain ⟨hts, ht⟩ := h.of_snoc
    obtain ⟨log', hlog'⟩ := Option.isSome_iff_exists.mp ht
    rw [replay_append_singleton, hlog', Option.getD_some, ThreadOp.apply_result hlog',
      ThreadOp.apply_steps hlog', ih hts, List.filterMap_append, List.getLast?_append]

end Content

/-- A message of the user, for runs on concrete logs. -/
def message (text : String) : ThreadStep := .user text Observation.okay "now" "agent"

end ReactRuntime.Session
