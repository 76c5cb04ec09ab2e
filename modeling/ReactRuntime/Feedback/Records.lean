import ReactRuntime.Feedback.Store

/-!
# The objects of a feedback

A feedback has one object for its record and one for its diagnostics. The ids of feedback are drawn
as UUIDs, which have no dot, so the two never meet.
-/
namespace ReactRuntime.Feedback
open Library Serde ReactRuntime.Core Storage

variable {scope : RequestScope} {key : String}

/-- What every UUID in text form is. -/
structure UuidLike (id : String) : Prop where
  safe : SafeSegment id
  no_dot : '.' ∉ id.toList

/-- The key lies under the prefix of all feedback. -/
def InFeedback (scope : RequestScope) (key : String) : Prop :=
  (feedbackPrefix scope).toList <+: key.toList

instance : Decidable (InFeedback scope key) :=
  inferInstanceAs (Decidable ((feedbackPrefix scope).toList <+: key.toList))

def recordKey (scope : RequestScope) (threadId feedbackId : String) : String :=
  scopedKey scope ["feedback", threadId, feedbackId ++ ".json"]

theorem threadFeedbackKey_eq_ok {threadId feedbackId : String} :
    threadFeedbackKey scope threadId feedbackId = .ok key ↔
      SafeSegment threadId ∧ SafeSegment feedbackId ∧ recordKey scope threadId feedbackId = key := by
  simp [threadFeedbackKey, ensureSafe_bind, recordKey, pure, Except.pure]

theorem threadFeedbackDiagnosticsKey_eq_ok {threadId feedbackId : String} :
    threadFeedbackDiagnosticsKey scope threadId feedbackId = .ok key ↔
      SafeSegment threadId ∧ SafeSegment feedbackId ∧
        scopedKey scope ["feedback", threadId, feedbackId ++ ".diagnostics.json"] = key := by
  simp [threadFeedbackDiagnosticsKey, ensureSafe_bind, pure, Except.pure]

section Names
variable {threadId feedbackId threadId' feedbackId' ending : String}

theorem no_slash_names (ht : SafeSegment threadId) (hf : SafeSegment feedbackId)
    (hending : '/' ∉ ending.toList) :
    ∀ seg ∈ ["feedback", threadId, feedbackId ++ ending], '/' ∉ seg.toList := by
  simp [ht.no_slash, hf.no_slash, hending]

theorem recordKey_inj (ht : SafeSegment threadId) (hf : SafeSegment feedbackId)
    (ht' : SafeSegment threadId') (hf' : SafeSegment feedbackId') :
    recordKey scope threadId feedbackId = recordKey scope threadId' feedbackId' ↔
      threadId = threadId' ∧ feedbackId = feedbackId' := by
  rw [recordKey, recordKey, scopedKey_inj (no_slash_names ht hf (by decide))
    (no_slash_names ht' hf' (by decide))]
  simp

theorem inFeedback_key (ht : SafeSegment threadId) (hf : SafeSegment feedbackId)
    (hending : '/' ∉ ending.toList) :
    InFeedback scope (scopedKey scope ["feedback", threadId, feedbackId ++ ending]) := by
  have hsegments : ∀ seg ∈ ([] : List String) ++ ["feedback"], '/' ∉ seg.toList := by decide
  have hiff := @scopedPrefix_isPrefix_iff scope _ _ _ hsegments (by decide)
    (no_slash_names ht hf hending)
  exact hiff.mpr ⟨threadId, [feedbackId ++ ending], rfl⟩

/-- A record lies under the prefix of its own thread only. -/
theorem threadPrefix_isPrefix_iff (ht : SafeSegment threadId) (ht' : SafeSegment threadId')
    (hf : SafeSegment feedbackId) :
    (scopedPrefix scope ["feedback", threadId']).toList <+:
      (recordKey scope threadId feedbackId).toList ↔ threadId = threadId' := by
  have hsegments : ∀ seg ∈ ["feedback"] ++ [threadId'], '/' ∉ seg.toList := by
    simp [ht'.no_slash]
  have hne : threadId' ≠ "" := by
    rintro rfl
    exact ht'.not_blank (by decide)
  have hkey : ∀ seg ∈ ["feedback", threadId, feedbackId ++ ".json"], '/' ∉ seg.toList :=
    no_slash_names ht hf (by decide)
  have hiff := @scopedPrefix_isPrefix_iff scope _ _ _ hsegments hne hkey
  simpa [recordKey] using hiff

/-- The last name of a key, for the endings that `load_prefix` looks at. -/
theorem toList_key (name : String) : (scopedKey scope ["feedback", threadId, name]).toList =
    (scopedKey scope ["feedback", threadId]).toList ++ '/' :: name.toList := by
  have hsegments : scope.segments ++ ["feedback", threadId, name] =
      (scope.segments ++ ["feedback", threadId]) ++ [name] := by simp
  rw [scopedKey_eq, scopedKey_eq, hsegments,
    toList_joinChar_append (by simp [RequestScope.segments]) (List.cons_ne_nil _ _)]
  simp [joinChar]

theorem isRecordKey_recordKey (hf : '.' ∉ feedbackId.toList) :
    isRecordKey (recordKey scope threadId feedbackId) = true := by
  have hkey : (recordKey scope threadId feedbackId).toList =
      ((scopedKey scope ["feedback", threadId]).toList ++ '/' :: feedbackId.toList) ++
        ".json".toList := by
    rw [recordKey, toList_key, String.toList_append, List.append_assoc, List.cons_append]
  have hdiagnostics : ".diagnostics.json".toList = ".diagnostics".toList ++ ".json".toList := by
    decide
  rw [isRecordKey, Bool.and_eq_true, Bool.not_eq_true', Bool.eq_false_iff, Ne,
    List.isSuffixOf_iff_suffix, List.isSuffixOf_iff_suffix, hkey, hdiagnostics,
    List.suffix_append_self_iff]
  refine ⟨List.suffix_append _ _, fun h => ?_⟩
  -- The name before `.json` has no dot, and the ending has no slash.
  rcases List.suffix_or_suffix_of_suffix h (List.suffix_append _ ('/' :: feedbackId.toList)) with
    hname | hname
  · have hdot : '.' ∈ '/' :: feedbackId.toList := hname.subset (by decide)
    exact hf (by simpa using hdot)
  · exact absurd (hname.subset List.mem_cons_self) (by decide)

theorem isRecordKey_diagnostics :
    isRecordKey (scopedKey scope ["feedback", threadId, feedbackId ++ ".diagnostics.json"]) =
      false := by
  rw [isRecordKey, Bool.and_eq_false_iff, Bool.not_eq_false', List.isSuffixOf_iff_suffix,
    toList_key, String.toList_append]
  exact .inr ((List.suffix_append _ _).trans
    ((List.suffix_cons _ _).trans (List.suffix_append _ _)))

end Names

/-- The record as it was submitted, or the same resolved at some time. -/
structure IsVersion (b f : ThreadFeedback) : Prop where
  same : { b with resolved := f.resolved, resolvedAt := f.resolvedAt } = f
  resolvedAt : f.resolved = f.resolvedAt.isSome

namespace IsVersion
variable {b f : ThreadFeedback}

theorem feedbackId (h : IsVersion b f) : f.feedbackId = b.feedbackId := by
  rw [← h.same]

theorem threadId (h : IsVersion b f) : f.threadId = b.threadId := by
  rw [← h.same]

theorem record_key (h : IsVersion b f) :
    recordKey scope f.threadId f.feedbackId = recordKey scope b.threadId b.feedbackId := by
  rw [h.threadId, h.feedbackId]

theorem resolve (h : IsVersion b f) (now : String) :
    IsVersion b { f with resolved := true, resolvedAt := some now } := by
  refine ⟨?_, rfl⟩
  rw [← h.same]

end IsVersion

theorem pairwise_newestFirst (fs : List ThreadFeedback) :
    (newestFirst fs).Pairwise fun f g => g.createdAt ≤ f.createdAt :=
  pairwise_sortBy (fun f : ThreadFeedback => OrderDual.toDual f.createdAt) fs

theorem newestFirst_perm (fs : List ThreadFeedback) : (newestFirst fs).Perm fs := sortBy_perm _ fs

end ReactRuntime.Feedback
