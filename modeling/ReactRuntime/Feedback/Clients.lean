import ReactRuntime.Feedback.Records
import ReactRuntime.Storage.Clients

/-!
# Feedback from many clients

Any number of clients submit, list and resolve feedback on one store, next to parties that never
write below the feedback prefix. Calls may be refused, and answers may be lost.
-/
namespace ReactRuntime.Feedback
open Library Serde ReactRuntime.Core Storage

/-- What a party does: one operation of the feedback store, or anything else. -/
inductive FeedbackOp (B E : Type) where
  | submit (feedbackId now threadId : String) (verdict : ThreadFeedbackVerdict) (comment : String)
  | listAll
  | listForThread (threadId : String)
  | getById (feedbackId : String)
  | markResolved (now feedbackId : String)
  | submitDiagnostics (now : String) (feedback : ThreadFeedback) (payload : Json)
  | getDiagnostics (threadId feedbackId : String)
  | other (p : Program (StorageCall B E) StorageCall.Answer Unit)

inductive FeedbackAnswer where
  | submitted (r : Except CoreError ThreadFeedback)
  | listed (r : Except CoreError (List ThreadFeedback))
  | found (r : Except CoreError (Option ThreadFeedback))
  | diagnosed (r : Except CoreError ThreadFeedbackDiagnostics)
  | diagnostics (r : Except CoreError (Option ThreadFeedbackDiagnostics))
  | other
deriving DecidableEq

variable {τ B E : Type}

namespace FeedbackOp

def program (scope : RequestScope) :
    FeedbackOp B E → Program (StorageCall B E) StorageCall.Answer FeedbackAnswer
  | .submit feedbackId now threadId verdict comment =>
    (ThreadFeedbackStore.submit ⟨direct, scope⟩ feedbackId now threadId verdict comment).bind
      fun r => .ret (.submitted r)
  | .listAll => (ThreadFeedbackStore.listAll ⟨direct, scope⟩).bind fun r => .ret (.listed r)
  | .listForThread threadId =>
    (ThreadFeedbackStore.listForThread ⟨direct, scope⟩ threadId).bind fun r => .ret (.listed r)
  | .getById feedbackId =>
    (ThreadFeedbackStore.getById ⟨direct, scope⟩ feedbackId).bind fun r => .ret (.found r)
  | .markResolved now feedbackId =>
    (ThreadFeedbackStore.markResolved ⟨direct, scope⟩ now feedbackId).bind
      fun r => .ret (.found r)
  | .submitDiagnostics now feedback payload =>
    (ThreadFeedbackStore.submitDiagnostics ⟨direct, scope⟩ now feedback payload).bind
      fun r => .ret (.diagnosed r)
  | .getDiagnostics threadId feedbackId =>
    (ThreadFeedbackStore.getDiagnostics ⟨direct, scope⟩ threadId feedbackId).bind
      fun r => .ret (.diagnostics r)
  | .other p => p.bind fun _ => .ret .other

/-- The feedback that the operation submits, if its comment is accepted. -/
def submission? : FeedbackOp B E → Option ThreadFeedback
  | .submit feedbackId now threadId verdict comment =>
    (normalizeComment comment).toOption.map fun comment =>
      { feedbackId, threadId, verdict, comment, createdAt := now, resolved := false,
        resolvedAt := none }
  | _ => none

theorem isVersion_submission {op : FeedbackOp B E} {b : ThreadFeedback}
    (h : op.submission? = some b) : IsVersion b b := by
  cases op with
  | submit feedbackId now threadId verdict comment =>
    obtain ⟨comment, -, rfl⟩ := Option.map_eq_some_iff.mp h
    exact ⟨rfl, rfl⟩
  | _ => cases h

end FeedbackOp

/-- The ids of submissions are distinct UUIDs, and the other parties write elsewhere. -/
structure Clients (scope : RequestScope) (op : τ → FeedbackOp B E) : Prop where
  uuid : ∀ t b, (op t).submission? = some b → UuidLike b.feedbackId
  distinct : ∀ t u b c, (op t).submission? = some b → (op u).submission? = some c →
    b.feedbackId = c.feedbackId → t = u
  others : ∀ t p, op t = .other p →
    p.Makes fun c => ∀ key, c.target? = some key → ¬ InFeedback scope key

/-- The key of the record of a feedback. -/
abbrev ThreadFeedback.key (scope : RequestScope) (b : ThreadFeedback) : String :=
  recordKey scope b.threadId b.feedbackId

section Invariant
variable (F : Format B E) (scope : RequestScope) (op : τ → FeedbackOp B E)

/-- Every object below the prefix is a version of a submission, or diagnostics that were
submitted. -/
structure Kept (objects : Objects B) : Prop where
  records : ∀ key bytes, objects.get key = some bytes → InFeedback scope key →
    isRecordKey key = true → ∃ t b f, (op t).submission? = some b ∧ SafeSegment b.threadId ∧
      key = b.key scope ∧ IsVersion b f ∧ bytes = F.render f.toValue
  diagnostics : ∀ key bytes, objects.get key = some bytes → InFeedback scope key →
    isRecordKey key = false → ∃ t now feedback payload,
      op t = .submitDiagnostics now feedback payload ∧
      threadFeedbackDiagnosticsKey scope feedback.threadId feedback.feedbackId = .ok key ∧
      bytes = F.render (ThreadFeedbackDiagnostics.toValue
        ⟨feedback.feedbackId, feedback.threadId, now, payload⟩)

/-- The stored record of a submission is a resolved version. -/
def Resolved (b : ThreadFeedback) (objects : Objects B) : Prop :=
  SafeSegment b.threadId ∧
    ∃ f, IsVersion b f ∧ f.resolved = true ∧ objects.get (b.key scope) = some (F.render f.toValue)

/-- No record is removed, and only the submission itself may replace its resolved record by an
unresolved one. -/
structure Respectful (t : τ) (s s' : Objects B) : Prop where
  present : ∀ key, InFeedback scope key → isRecordKey key = true → (s.get key).isSome →
    (s'.get key).isSome
  resolved : ∀ u b, u ≠ t → (op u).submission? = some b → Resolved F scope b s →
    Resolved F scope b s'

def feedbackPromises [DecidableEq E] : Promises (objectWorld F τ) where
  inv := Kept F scope op
  guarantee := Respectful F scope op

end Invariant

variable {F : Format B E} {scope : RequestScope} {op : τ → FeedbackOp B E} {t : τ}
  {s s' : Objects B}

theorem Respectful.refl (t : τ) (s : Objects B) : Respectful F scope op t s s :=
  ⟨fun _ _ _ h => h, fun _ _ _ _ h => h⟩

theorem inFeedback_record {b : ThreadFeedback} (hclients : Clients scope op)
    (hb : (op t).submission? = some b) (hthread : SafeSegment b.threadId) :
    InFeedback scope (b.key scope) ∧ isRecordKey (b.key scope) = true :=
  ⟨inFeedback_key hthread (hclients.uuid t b hb).safe (by decide),
    isRecordKey_recordKey (hclients.uuid t b hb).no_dot⟩

/-- Two submissions with one key are one. -/
theorem submission_of_key {u : τ} {b c : ThreadFeedback} (hclients : Clients scope op)
    (hb : (op t).submission? = some b) (hc : (op u).submission? = some c)
    (hbt : SafeSegment b.threadId) (hct : SafeSegment c.threadId)
    (hkey : b.key scope = c.key scope) : t = u ∧ b = c := by
  have hids := (recordKey_inj hbt (hclients.uuid t b hb).safe hct (hclients.uuid u c hc).safe).mp hkey
  have htu : t = u := hclients.distinct t u b c hb hc hids.2
  subst htu
  exact ⟨rfl, Option.some.inj (hb.symm.trans hc)⟩

/-- A step that leaves every object below the prefix alone. -/
theorem kept_of_frame (hframe : ∀ key, InFeedback scope key → s'.get key = s.get key)
    (h : Kept F scope op s) : Kept F scope op s' where
  records key bytes hbytes hin := h.records key bytes (hframe key hin ▸ hbytes) hin
  diagnostics key bytes hbytes hin := h.diagnostics key bytes (hframe key hin ▸ hbytes) hin

theorem respectful_of_frame (hclients : Clients scope op)
    (hframe : ∀ key, InFeedback scope key → s'.get key = s.get key) :
    Respectful F scope op t s s' where
  present key hin _ hsome := by rwa [hframe key hin]
  resolved u b _ hb := by
    rintro ⟨hthread, f, hf, hresolved, hget⟩
    refine ⟨hthread, f, hf, hresolved, ?_⟩
    rw [hframe _ (inFeedback_record hclients hb hthread).1, hget]

/-- A version of a submission is put at its key: resolved by anyone, unresolved by the submission
itself. -/
theorem put_record {u : τ} {b f : ThreadFeedback} (hclients : Clients scope op)
    (hb : (op u).submission? = some b) (hthread : SafeSegment b.threadId) (hf : IsVersion b f)
    (hwho : u = t ∨ f.resolved = true) (h : Kept F scope op s) :
    Kept F scope op (s.insert (b.key scope) (F.render f.toValue)) ∧
      Respectful F scope op t s (s.insert (b.key scope) (F.render f.toValue)) := by
  obtain ⟨hin, hrecord⟩ := inFeedback_record hclients hb hthread
  refine ⟨⟨fun key bytes hbytes hkey hisRecord => ?_, fun key bytes hbytes hkey hother => ?_⟩,
    ⟨fun key hkey hisRecord hsome => ?_, fun v c hv hc => ?_⟩⟩
  · rw [SortedMap.get_insert] at hbytes
    split_ifs at hbytes with heq
    · exact ⟨u, b, f, hb, hthread, heq, hf, (Option.some.inj hbytes).symm⟩
    · exact h.records key bytes hbytes hkey hisRecord
  · rw [SortedMap.get_insert] at hbytes
    split_ifs at hbytes with heq
    · rw [heq, hrecord] at hother
      cases hother
    · exact h.diagnostics key bytes hbytes hkey hother
  · rw [SortedMap.get_insert]
    split_ifs
    · rfl
    · exact hsome
  · rintro ⟨hcthread, g, hg, hresolved, hget⟩
    refine ⟨hcthread, ?_⟩
    rw [SortedMap.get_insert]
    split_ifs with heq
    · -- The key is that of the submission `b`, so the put is not by its submitter.
      obtain ⟨rfl, rfl⟩ := submission_of_key hclients hc hb hcthread hthread heq
      exact ⟨f, hf, hwho.resolve_left hv, rfl⟩
    · exact ⟨g, hg, hresolved, hget⟩

theorem put_diagnostics {now key : String} {feedback : ThreadFeedback} {payload : Json}
    (hclients : Clients scope op) (hop : op t = .submitDiagnostics now feedback payload)
    (hkey : threadFeedbackDiagnosticsKey scope feedback.threadId feedback.feedbackId = .ok key)
    (h : Kept F scope op s) :
    Kept F scope op (s.insert key (F.render (ThreadFeedbackDiagnostics.toValue
        ⟨feedback.feedbackId, feedback.threadId, now, payload⟩))) ∧
      Respectful F scope op t s (s.insert key (F.render (ThreadFeedbackDiagnostics.toValue
        ⟨feedback.feedbackId, feedback.threadId, now, payload⟩))) := by
  obtain ⟨-, -, hkey'⟩ := threadFeedbackDiagnosticsKey_eq_ok.mp hkey
  have hother : isRecordKey key = false := hkey' ▸ isRecordKey_diagnostics
  refine ⟨⟨fun k bytes hbytes hin hisRecord => ?_, fun k bytes hbytes hin hisOther => ?_⟩,
    ⟨fun k hin hisRecord hsome => ?_, fun v c hv hc => ?_⟩⟩
  · rw [SortedMap.get_insert] at hbytes
    split_ifs at hbytes with heq
    · rw [heq, hother] at hisRecord
      cases hisRecord
    · exact h.records k bytes hbytes hin hisRecord
  · rw [SortedMap.get_insert] at hbytes
    split_ifs at hbytes with heq
    · exact ⟨t, now, feedback, payload, hop, heq ▸ hkey, (Option.some.inj hbytes).symm⟩
    · exact h.diagnostics k bytes hbytes hin hisOther
  · rw [SortedMap.get_insert]
    split_ifs
    · rfl
    · exact hsome
  · rintro ⟨hcthread, g, hg, hresolved, hget⟩
    refine ⟨hcthread, g, hg, hresolved, ?_⟩
    have hne : c.key scope ≠ key := by
      intro heq
      rw [← heq, (inFeedback_record hclients hc hcthread).2] at hother
      cases hother
    rw [SortedMap.get_insert, if_neg hne, hget]

end ReactRuntime.Feedback
