import ReactRuntime.Core.Keyspace
import ReactRuntime.Storage.Adapter
import ReactRuntime.Library.Sorting

/-!
# Thread feedback

Each feedback on a thread is an object of its own. A feedback is listed, and resolved, by reading
the objects under a prefix; the diagnostics of a feedback lie beside it under the same prefix.
-/
namespace ReactRuntime.Feedback
open Library Serde ReactRuntime.Core Storage

inductive ThreadFeedbackVerdict where
  | good
  | bad
deriving DecidableEq, Repr

def ThreadFeedbackVerdict.asStr : ThreadFeedbackVerdict → String
  | .good => "good"
  | .bad => "bad"

def ThreadFeedbackVerdict.fromValue : Json → Except String ThreadFeedbackVerdict
  | .str "good" => .ok .good
  | .str "bad" => .ok .bad
  | _ => .error "unknown variant of ThreadFeedbackVerdict"

structure ThreadFeedback where
  feedbackId : String
  threadId : String
  verdict : ThreadFeedbackVerdict
  comment : String
  createdAt : String
  resolved : Bool
  resolvedAt : Option String
deriving DecidableEq

namespace ThreadFeedback

def toValue (f : ThreadFeedback) : Json :=
  .object [("feedback_id", .str f.feedbackId), ("thread_id", .str f.threadId),
    ("verdict", .str f.verdict.asStr), ("comment", .str f.comment),
    ("created_at", .str f.createdAt), ("resolved", .bool f.resolved),
    ("resolved_at", De.option .str f.resolvedAt)]

def fromValue (j : Json) : Except String ThreadFeedback := do
  let fs ← De.fields j
  .ok ⟨← De.field "feedback_id" De.str fs, ← De.field "thread_id" De.str fs,
    ← De.field "verdict" ThreadFeedbackVerdict.fromValue fs, ← De.field "comment" De.str fs,
    ← De.field "created_at" De.str fs, ← De.field "resolved" De.bool fs,
    ← De.optField "resolved_at" De.str fs⟩

end ThreadFeedback

structure ThreadFeedbackDiagnostics where
  feedbackId : String
  threadId : String
  createdAt : String
  payload : Json
deriving DecidableEq

namespace ThreadFeedbackDiagnostics

def toValue (d : ThreadFeedbackDiagnostics) : Json :=
  .object [("feedback_id", .str d.feedbackId), ("thread_id", .str d.threadId),
    ("created_at", .str d.createdAt), ("payload", d.payload)]

def fromValue (j : Json) : Except String ThreadFeedbackDiagnostics := do
  let fs ← De.fields j
  .ok ⟨← De.field "feedback_id" De.str fs, ← De.field "thread_id" De.str fs,
    ← De.field "created_at" De.str fs, ← De.field "payload" .ok fs⟩

end ThreadFeedbackDiagnostics

structure ThreadFeedbackStore (C : Type) (A : C → Type) (B E : Type) where
  storage : StorageAdapter C A B E
  scope : RequestScope

def normalizeComment (comment : String) : Except CoreError String :=
  if (trim comment).isEmpty then .error (.generic "feedback comment cannot be empty")
  else .ok (trim comment)

/-- Newest first; feedback of one moment stays in the order of the keys. -/
def newestFirst (feedback : List ThreadFeedback) : List ThreadFeedback :=
  sortBy (fun f => OrderDual.toDual f.createdAt) feedback

/-- The keys that `load_prefix` reads. -/
def isRecordKey (key : String) : Bool :=
  ".json".toList.isSuffixOf key.toList && !".diagnostics.json".toList.isSuffixOf key.toList

namespace ThreadFeedbackStore
variable {C : Type} {A : C → Type} {B E : Type} (self : ThreadFeedbackStore C A B E)

def ensureThreadExists (threadId : String) : Program C A (Except CoreError Unit) :=
  match threadKey self.scope threadId with
  | .error e => return .error e
  | .ok key => (retryHeadEtag self.storage key).andThen fun etag =>
    match etag with
    | some _ => return .ok ()
    | none => return .error (.generic
        ("thread '" ++ threadId ++ "' was not found in project storage"))

def write (feedback : ThreadFeedback) : Program C A (Except CoreError Unit) :=
  match threadFeedbackKey self.scope feedback.threadId feedback.feedbackId with
  | .error e => return .error e
  | .ok key => retryPutJson self.storage key feedback.toValue

/-- The id and the time of a submission are drawn by the call itself. -/
def submit (feedbackId now threadId : String) (verdict : ThreadFeedbackVerdict)
    (comment : String) : Program C A (Except CoreError ThreadFeedback) :=
  match normalizeComment comment with
  | .error e => return .error e
  | .ok comment => (self.ensureThreadExists threadId).andThen fun _ =>
    let feedback : ThreadFeedback :=
      { feedbackId, threadId, verdict, comment, createdAt := now, resolved := false,
        resolvedAt := none }
    (self.write feedback).andThen fun _ => return .ok feedback

def loadKeys : List String → Program C A (Except CoreError (List ThreadFeedback))
  | [] => return .ok []
  | key :: keys =>
    if isRecordKey key then
      (retryGetJson self.storage key).andThen fun value =>
        match ThreadFeedback.fromValue value with
        | .error e => return .error (.serialization e)
        | .ok feedback => (loadKeys keys).andThen fun rest => return .ok (feedback :: rest)
    else loadKeys keys

def loadPrefix (pre : String) : Program C A (Except CoreError (List ThreadFeedback)) :=
  (retryListPrefix self.storage pre).andThen self.loadKeys

def listAll : Program C A (Except CoreError (List ThreadFeedback)) :=
  (self.loadPrefix (feedbackPrefix self.scope)).andThen fun feedback =>
    return .ok (newestFirst feedback)

def listForThread (threadId : String) : Program C A (Except CoreError (List ThreadFeedback)) :=
  match threadFeedbackPrefix self.scope threadId with
  | .error e => return .error e
  | .ok pre => (self.loadPrefix pre).andThen fun feedback => return .ok (newestFirst feedback)

def getById (feedbackId : String) : Program C A (Except CoreError (Option ThreadFeedback)) :=
  (self.loadPrefix (feedbackPrefix self.scope)).andThen fun entries =>
    return .ok (entries.find? fun f => f.feedbackId == feedbackId)

def markResolved (now feedbackId : String) :
    Program C A (Except CoreError (Option ThreadFeedback)) :=
  (self.getById feedbackId).andThen fun found =>
    match found with
    | none => return .ok none
    | some feedback =>
      if feedback.resolved then return .ok (some feedback)
      else
        let resolved := { feedback with resolved := true, resolvedAt := some now }
        (self.write resolved).andThen fun _ => return .ok (some resolved)

def submitDiagnostics (now : String) (feedback : ThreadFeedback) (payload : Json) :
    Program C A (Except CoreError ThreadFeedbackDiagnostics) :=
  let diagnostics : ThreadFeedbackDiagnostics :=
    { feedbackId := feedback.feedbackId, threadId := feedback.threadId, createdAt := now, payload }
  match threadFeedbackDiagnosticsKey self.scope feedback.threadId feedback.feedbackId with
  | .error e => return .error e
  | .ok key => (retryPutJson self.storage key diagnostics.toValue).andThen fun _ =>
    return .ok diagnostics

def getDiagnostics (threadId feedbackId : String) :
    Program C A (Except CoreError (Option ThreadFeedbackDiagnostics)) :=
  match threadFeedbackDiagnosticsKey self.scope threadId feedbackId with
  | .error e => return .error e
  | .ok key => (retryHeadEtag self.storage key).andThen fun etag =>
    match etag with
    | none => return .ok none
    | some _ => (retryGetJson self.storage key).andThen fun value =>
      match ThreadFeedbackDiagnostics.fromValue value with
      | .error e => return .error (.serialization e)
      | .ok diagnostics => return .ok (some diagnostics)

end ThreadFeedbackStore

@[simp] theorem ThreadFeedbackVerdict.fromValue_asStr (v : ThreadFeedbackVerdict) :
    ThreadFeedbackVerdict.fromValue (.str v.asStr) = .ok v := by
  cases v <;> rfl

theorem ThreadFeedback.fromValue_toValue (f : ThreadFeedback) : fromValue f.toValue = .ok f := by
  simp [fromValue, toValue]

theorem ThreadFeedbackDiagnostics.fromValue_toValue (d : ThreadFeedbackDiagnostics) :
    fromValue d.toValue = .ok d := by
  simp [fromValue, toValue]

end ReactRuntime.Feedback
