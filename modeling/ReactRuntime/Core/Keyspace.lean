import ReactRuntime.Core.Scope

/-!
# Keys of objects

A key joins the segments of the scope and the segments of an object. Within one scope two objects
share a key only where a dot inside an id can be read as the dot of the format.
-/
namespace ReactRuntime.Core

def ksErr (e : CoreError) : CoreError := .keyspace e.display

def ensureSafe (field value : String) : Except CoreError Unit :=
  (ensureSafeScopeSegment field value).mapError ksErr

section Keyspace
variable (scope : RequestScope)

def scopedKey (segments : List String) : String :=
  segments.foldl (fun path seg => path.push '/' ++ seg)
    (scope.tenant.value ++ "/" ++ scope.workspace.value ++ "/" ++ scope.projectId.value)

def scopedPrefix (segments : List String) : String :=
  let path := scopedKey scope segments
  if path.toList.getLast? = some '/' then path else path.push '/'

def threadsPrefix : String := scopedPrefix scope ["threads"]

def threadKey (threadId : String) : Except CoreError String := do
  ensureSafe "thread_id" threadId
  return scopedKey scope ["threads", threadId ++ ".json"]

def threadStateKey (threadId : String) : Except CoreError String := do
  ensureSafe "thread_id" threadId
  return scopedKey scope ["state", threadId, "state.json"]

def controlStateKey (threadId : String) : Except CoreError String := do
  ensureSafe "thread_id" threadId
  return scopedKey scope ["state", threadId, "control.json"]

def threadArtifactKey (threadId artifactId : String) : Except CoreError String := do
  ensureSafe "thread_id" threadId
  ensureSafe "artifact_id" artifactId
  return scopedKey scope ["threads", threadId ++ "." ++ artifactId ++ ".json"]

def threadLogKey (threadId : String) : Except CoreError String := do
  ensureSafe "thread_id" threadId
  return scopedKey scope ["logs", threadId ++ ".log"]

def feedbackPrefix : String := scopedPrefix scope ["feedback"]

def threadFeedbackPrefix (threadId : String) : Except CoreError String := do
  ensureSafe "thread_id" threadId
  return scopedPrefix scope ["feedback", threadId]

def threadFeedbackKey (threadId feedbackId : String) : Except CoreError String := do
  ensureSafe "thread_id" threadId
  ensureSafe "feedback_id" feedbackId
  return scopedKey scope ["feedback", threadId, feedbackId ++ ".json"]

def threadFeedbackDiagnosticsKey (threadId feedbackId : String) : Except CoreError String := do
  ensureSafe "thread_id" threadId
  ensureSafe "feedback_id" feedbackId
  return scopedKey scope ["feedback", threadId, feedbackId ++ ".diagnostics.json"]

end Keyspace

/-- The segments of a scope and of an object, as one path. -/
def RequestScope.segments (scope : RequestScope) : List String :=
  [scope.tenant.value, scope.workspace.value, scope.projectId.value]

theorem scopedKey_eq (scope : RequestScope) (segments : List String) :
    scopedKey scope segments = joinChar '/' (scope.segments ++ segments) := by
  have hfold (base : List String) (hne : base ≠ []) :
      segments.foldl (fun path seg => path.push '/' ++ seg) (joinChar '/' base) =
        joinChar '/' (base ++ segments) := by
    induction segments generalizing base with
    | nil => simp
    | cons seg rest ih =>
      rw [List.foldl_cons, ← joinChar_concat hne, ih _ (by simp), List.append_assoc]
      rfl
  rw [← hfold scope.segments (by simp [RequestScope.segments]), scopedKey]
  congr 1
  rw [← String.toList_inj]
  simp [joinChar, RequestScope.segments]

theorem RequestScope.safe_segments (scope : RequestScope) :
    ∀ seg ∈ scope.segments, SafeSegment seg := by
  simp [segments, scope.tenant.safe, scope.workspace.safe, scope.projectId.safe]

/-- Keys of one scope are equal only if their segments are. -/
theorem scopedKey_inj {scope : RequestScope} {xs ys : List String}
    (hxs : ∀ seg ∈ xs, '/' ∉ seg.toList) (hys : ∀ seg ∈ ys, '/' ∉ seg.toList) :
    scopedKey scope xs = scopedKey scope ys ↔ xs = ys := by
  have hsplit {zs : List String} (hzs : ∀ seg ∈ zs, '/' ∉ seg.toList) :
      splitChar '/' (scopedKey scope zs) = scope.segments ++ zs := by
    rw [scopedKey_eq]
    refine splitChar_joinChar (by simp [RequestScope.segments]) fun seg hseg => ?_
    rcases List.mem_append.mp hseg with hseg | hseg
    · exact (scope.safe_segments seg hseg).no_slash
    · exact hzs seg hseg
  refine ⟨fun heq => ?_, fun heq => heq ▸ rfl⟩
  have hsegments := (hsplit hxs).symm.trans ((congrArg _ heq).trans (hsplit hys))
  exact List.append_cancel_left hsegments

theorem scopedKey_isPrefix (scope : RequestScope) (segments : List String) :
    (scopedKey scope segments).toList <+: (scopedPrefix scope segments).toList := by
  rw [scopedPrefix]
  split_ifs
  · exact List.prefix_refl _
  · rw [String.toList_push]
    exact List.prefix_append _ _

/-- The keys below a prefix are those whose path goes on after its segments. -/
theorem scopedPrefix_isPrefix_iff {scope : RequestScope} {xs ys : List String} {last : String}
    (hxs : ∀ seg ∈ xs ++ [last], '/' ∉ seg.toList) (hlast : last ≠ "")
    (hys : ∀ seg ∈ ys, '/' ∉ seg.toList) :
    (scopedPrefix scope (xs ++ [last])).toList <+: (scopedKey scope ys).toList ↔
      ∃ seg rest, ys = xs ++ last :: seg :: rest := by
  have hslash {zs : List String} (hzs : ∀ seg ∈ zs, '/' ∉ seg.toList) :
      ∀ seg ∈ scope.segments ++ zs, '/' ∉ seg.toList := by
    intro seg hseg
    rcases List.mem_append.mp hseg with hseg | hseg
    · exact (scope.safe_segments seg hseg).no_slash
    · exact hzs seg hseg
  have hscope : scope.segments ++ xs ≠ [] := by simp [RequestScope.segments]
  have hkey : (scopedKey scope (xs ++ [last])).toList =
      (joinChar '/' (scope.segments ++ xs)).toList ++ '/' :: last.toList := by
    rw [scopedKey_eq, ← List.append_assoc, toList_joinChar_append hscope (by simp)]
    simp [joinChar]
  have hend : (scopedKey scope (xs ++ [last])).toList.getLast? ≠ some '/' := by
    have hne : last.toList ≠ [] := fun h => hlast (String.toList_inj.mp h)
    rw [hkey, List.getLast?_append_of_ne_nil _ (by simp), List.getLast?_cons_of_ne_nil hne]
    exact fun h => hxs last (by simp) (List.mem_of_getLast? h)
  have hpre : scopedPrefix scope (xs ++ [last]) =
      joinChar '/' (scope.segments ++ (xs ++ [last]) ++ [""]) := by
    rw [scopedPrefix, if_neg hend, scopedKey_eq, joinChar_concat (by simp), String.append_empty]
  constructor
  · intro h
    rw [hpre, scopedKey_eq] at h
    obtain ⟨whole, end_, text, rest, hsplit, hsegments, -⟩ :=
      splitChar_of_isPrefix (by simp [RequestScope.segments]) (hslash hys) h
    rw [splitChar_joinChar (by simp)] at hsplit
    · obtain ⟨rfl, -⟩ := List.append_inj' hsplit rfl
      refine ⟨text, rest, List.append_cancel_left (hsegments.trans ?_)⟩
      simp
    · intro seg hseg
      rcases List.mem_append.mp hseg with hseg | hseg
      · exact hslash hxs seg hseg
      · rw [List.mem_singleton.mp hseg]
        simp
  · rintro ⟨seg, rest, rfl⟩
    have hne : scope.segments ++ (xs ++ [last]) ≠ [] := by simp [RequestScope.segments]
    have hsegments : scope.segments ++ (xs ++ last :: seg :: rest) =
        scope.segments ++ (xs ++ [last]) ++ seg :: rest := by simp
    have hempty : (joinChar '/' [""]).toList = [] := by simp [joinChar]
    rw [hpre, scopedKey_eq, hsegments, toList_joinChar_append hne (List.cons_ne_nil _ _),
      toList_joinChar_append hne (List.cons_ne_nil _ _), hempty]
    refine (List.prefix_append_right_inj _).mpr (List.cons_prefix_cons.mpr ⟨rfl, ?_⟩)
    exact List.nil_prefix

theorem ensureSafe_bind {field value key : String} {f : Unit → Except CoreError String} :
    (ensureSafe field value >>= f) = .ok key ↔ SafeSegment value ∧ f () = .ok key := by
  rw [← @ensureSafeScopeSegment_eq_ok field, ensureSafe]
  cases ensureSafeScopeSegment field value with
  | error e => exact ⟨fun h => (nomatch h), fun h => (nomatch h.1)⟩
  | ok _ => exact ⟨fun h => ⟨rfl, h⟩, fun h => h.2⟩

/-- One of the methods that build the key of an object, with its ids. -/
inductive ObjectKey where
  | thread (threadId : String)
  | threadState (threadId : String)
  | controlState (threadId : String)
  | threadArtifact (threadId artifactId : String)
  | threadLog (threadId : String)
  | threadFeedback (threadId feedbackId : String)
  | threadFeedbackDiagnostics (threadId feedbackId : String)
deriving DecidableEq, Repr

namespace ObjectKey

def build (scope : RequestScope) : ObjectKey → Except CoreError String
  | .thread t => threadKey scope t
  | .threadState t => threadStateKey scope t
  | .controlState t => controlStateKey scope t
  | .threadArtifact t a => threadArtifactKey scope t a
  | .threadLog t => threadLogKey scope t
  | .threadFeedback t f => threadFeedbackKey scope t f
  | .threadFeedbackDiagnostics t f => threadFeedbackDiagnosticsKey scope t f

/-- The segments below the scope. -/
def segments : ObjectKey → List String
  | .thread t => ["threads", t ++ ".json"]
  | .threadState t => ["state", t, "state.json"]
  | .controlState t => ["state", t, "control.json"]
  | .threadArtifact t a => ["threads", t ++ "." ++ a ++ ".json"]
  | .threadLog t => ["logs", t ++ ".log"]
  | .threadFeedback t f => ["feedback", t, f ++ ".json"]
  | .threadFeedbackDiagnostics t f => ["feedback", t, f ++ ".diagnostics.json"]

def ids : ObjectKey → List String
  | .thread t | .threadState t | .controlState t | .threadLog t => [t]
  | .threadArtifact t a => [t, a]
  | .threadFeedback t f | .threadFeedbackDiagnostics t f => [t, f]

variable {scope : RequestScope} {key : String}

/-- A key is built exactly for safe ids. -/
theorem build_eq_ok {o : ObjectKey} :
    o.build scope = .ok key ↔
      (∀ id ∈ o.ids, SafeSegment id) ∧ scopedKey scope o.segments = key := by
  cases o <;> simp [build, ids, segments, threadKey, threadStateKey, controlStateKey,
    threadArtifactKey, threadLogKey, threadFeedbackKey, threadFeedbackDiagnosticsKey,
    ensureSafe_bind, pure, Except.pure, and_assoc]

theorem no_slash_segments {o : ObjectKey} (h : ∀ id ∈ o.ids, '/' ∉ id.toList) :
    ∀ seg ∈ o.segments, '/' ∉ seg.toList := by
  cases o <;> simpa [segments, ids] using h

/-- Two objects whose segments are the same text. -/
inductive Ambiguous : ObjectKey → ObjectKey → Prop
  | artifact (t a : String) : Ambiguous (.thread (t ++ "." ++ a)) (.threadArtifact t a)
  | artifacts (t m a : String) :
      Ambiguous (.threadArtifact t (m ++ "." ++ a)) (.threadArtifact (t ++ "." ++ m) a)
  | diagnostics (t f : String) :
      Ambiguous (.threadFeedback t (f ++ ".diagnostics")) (.threadFeedbackDiagnostics t f)

theorem Ambiguous.segments_eq {o p : ObjectKey} (h : Ambiguous o p) : o.segments = p.segments := by
  cases h <;> simp [segments, String.append_assoc]

theorem Ambiguous.ne {o p : ObjectKey} (h : Ambiguous o p) : o ≠ p := by
  cases h with
  | artifact t a => exact fun heq => nomatch heq
  | artifacts t m a =>
    intro heq
    have hlength :=
      congrArg (fun id : String => id.toList.length) (ObjectKey.threadArtifact.inj heq).1
    simp at hlength
  | diagnostics t f => exact fun heq => nomatch heq

/-- Two ways to read a text as two ids with a dot between them. -/
theorem append_dot_eq {t a t' a' : String} (h : t ++ "." ++ a = t' ++ "." ++ a') :
    (t = t' ∧ a = a') ∨ (∃ m, t' = t ++ "." ++ m ∧ a = m ++ "." ++ a') ∨
      ∃ m, t = t' ++ "." ++ m ∧ a' = m ++ "." ++ a := by
  have hlist : t.toList ++ '.' :: a.toList = t'.toList ++ '.' :: a'.toList := by
    simpa using congrArg String.toList h
  rcases List.append_eq_append_iff.mp hlist with ⟨k, ht, ha⟩ | ⟨k, ht, ha⟩
  · cases k with
    | nil =>
      left
      exact ⟨String.toList_inj.mp (by simpa using ht.symm),
        String.toList_inj.mp (by simpa using ha)⟩
    | cons c m =>
      obtain ⟨rfl, hm⟩ := List.cons.inj ha
      refine Or.inr (Or.inl ⟨.ofList m, String.toList_inj.mp ?_, String.toList_inj.mp ?_⟩)
      · simpa using ht
      · simpa using hm
  · cases k with
    | nil =>
      left
      exact ⟨String.toList_inj.mp (by simpa using ht),
        String.toList_inj.mp (by simpa using ha.symm)⟩
    | cons c m =>
      obtain ⟨rfl, hm⟩ := List.cons.inj ha
      refine Or.inr (Or.inr ⟨.ofList m, String.toList_inj.mp ?_, String.toList_inj.mp ?_⟩)
      · simpa using ht
      · simpa using hm

theorem feedback_eq {f f' : String} (h : f ++ ".json" = f' ++ ".diagnostics.json") :
    f = f' ++ ".diagnostics" := by
  have hsuffix : ".diagnostics.json" = ".diagnostics" ++ ".json" := rfl
  rw [hsuffix, ← String.append_assoc] at h
  exact (String.append_left_inj ".json").mp h

/-- The segments are those of one object, or of two ambiguous ones. -/
theorem segments_eq_iff {o p : ObjectKey} :
    o.segments = p.segments ↔ o = p ∨ Ambiguous o p ∨ Ambiguous p o := by
  constructor
  · intro h
    cases o <;> cases p <;> simp [segments] at h
    case thread.thread t t' => exact .inl (congrArg _ h)
    case threadState.threadState t t' => exact .inl (congrArg _ h)
    case controlState.controlState t t' => exact .inl (congrArg _ h)
    case threadLog.threadLog t t' => exact .inl (congrArg _ h)
    case threadFeedback.threadFeedback t f t' f' => exact .inl (congrArg₂ _ h.1 h.2)
    case threadFeedbackDiagnostics.threadFeedbackDiagnostics t f t' f' =>
      exact .inl (congrArg₂ _ h.1 h.2)
    case thread.threadArtifact t t' a => exact .inr (.inl (h ▸ .artifact t' a))
    case threadArtifact.thread t a t' => exact .inr (.inr (h ▸ .artifact t a))
    case threadArtifact.threadArtifact t a t' a' =>
      rcases append_dot_eq h with ⟨rfl, rfl⟩ | ⟨m, rfl, rfl⟩ | ⟨m, rfl, rfl⟩
      · exact .inl rfl
      · exact .inr (.inl (.artifacts t m a'))
      · exact .inr (.inr (.artifacts t' m a))
    case threadFeedback.threadFeedbackDiagnostics t f t' f' =>
      obtain ⟨rfl, hf⟩ := h
      exact .inr (.inl (feedback_eq hf ▸ .diagnostics t f'))
    case threadFeedbackDiagnostics.threadFeedback t f t' f' =>
      obtain ⟨rfl, hf⟩ := h
      exact .inr (.inr (feedback_eq hf.symm ▸ .diagnostics t f))
  · rintro (rfl | h | h)
    · rfl
    · exact h.segments_eq
    · exact h.segments_eq.symm

/-- Two methods of one keyspace build one key exactly if they are the same method with the same
ids, or ambiguous. -/
theorem keys_unambiguous_iff {scope : RequestScope} {o p : ObjectKey} {k k' : String}
    (ho : o.build scope = .ok k) (hp : p.build scope = .ok k') :
    (k = k' → o = p) ↔ ¬ Ambiguous o p ∧ ¬ Ambiguous p o := by
  obtain ⟨hsafe, rfl⟩ := build_eq_ok.mp ho
  obtain ⟨hsafe', rfl⟩ := build_eq_ok.mp hp
  rw [scopedKey_inj (no_slash_segments fun id hid => (hsafe id hid).no_slash)
    (no_slash_segments fun id hid => (hsafe' id hid).no_slash), segments_eq_iff]
  constructor
  · intro hsame
    exact ⟨fun h => h.ne (hsame (.inr (.inl h))), fun h => h.ne (hsame (.inr (.inr h))).symm⟩
  · rintro ⟨hleft, hright⟩ (heq | h | h)
    · exact heq
    · exact absurd h hleft
    · exact absurd h hright

/-! The keys of one scope. -/

def smallScope : RequestScope := ⟨⟨"t", by decide +kernel⟩, ⟨"w", by decide +kernel⟩,
  ⟨"p", by decide +kernel⟩⟩

/-- Two threads have two keys. -/
theorem keys_unambiguous_threads :
    threadKey smallScope "a" = .ok "t/w/p/threads/a.json" ∧
      threadKey smallScope "b" = .ok "t/w/p/threads/b.json" ∧
      ("t/w/p/threads/a.json" = "t/w/p/threads/b.json" →
        ObjectKey.thread "a" = ObjectKey.thread "b") := by
  have hthread (o : ObjectKey) (t : String) : ¬ Ambiguous o (.thread t) := fun h => nomatch h
  have ha : ObjectKey.build smallScope (.thread "a") = .ok "t/w/p/threads/a.json" := by
    decide +kernel
  have hb : ObjectKey.build smallScope (.thread "b") = .ok "t/w/p/threads/b.json" := by
    decide +kernel
  exact ⟨ha, hb, (keys_unambiguous_iff ha hb).mpr ⟨hthread _ _, hthread _ _⟩⟩

/-- The thread `a.b` has the key of the artifact `b` of the thread `a`. -/
theorem keys_ambiguous_artifact :
    threadKey smallScope "a.b" = threadArtifactKey smallScope "a" "b" ∧
      threadKey smallScope "a.b" = .ok "t/w/p/threads/a.b.json" := by
  decide +kernel

end ObjectKey
end ReactRuntime.Core
