import ReactRuntime.Core.Text
import ReactRuntime.Storage.Caching
import ReactRuntime.Session.RoundTrip

/-!
# The thread store

Every writer reads the log with its etag, edits the copy and puts it back under
the condition that the etag still matches. `append_step` repeats after a conflict;
the other writers report it.
-/
namespace ReactRuntime.Session
open Library Serde ReactRuntime.Core Storage

def AUDIT_MAX_CONFLICT_RETRIES : Nat := 5

structure LogCacheEntry (E : Type) where
  log : ThreadLog
  etag : E
deriving DecidableEq

/-- A store: its storage, the keyspace for threads, the write lock of the process and the
in-memory cache. -/
structure ThreadStore (C : Type) (A : C → Type) (B E : Type) where
  storage : StorageAdapter C A B E
  threadKey : String → Except String String
  lock : String → Program C A Unit
  unlock : String → Program C A Unit
  cacheGet : String → Program C A (Option (LogCacheEntry E))
  cacheInsert : String → LogCacheEntry E → Program C A Unit
  cacheRemove : String → Program C A Unit

/-- The edit of `append_step`: a completion also becomes the result of the log. -/
def ThreadLog.push (log : ThreadLog) (step : ThreadStep) : ThreadLog :=
  { log with
    steps := log.steps ++ [step]
    result := match step.result with
      | some r => some r
      | none => log.result }

/-- The first phase step and its position. -/
def ThreadLog.firstPhase (log : ThreadLog) : Option (Nat × String) :=
  log.steps.zipIdx.findSome? fun e => match e.1 with
    | .phase phaseName _ _ _ _ _ _ => some (e.2, phaseName)
    | _ => none

/-- The step that opens a thread. -/
def preflightStep (agent : String) (suiteId : Option String) (initialPhase ts : String) :
    ThreadStep :=
  .phase initialPhase none (some "thread_started")
    (suiteId.map fun sid => .object [("suite_id", .str sid)]) Observation.okay ts agent

namespace ThreadStore
variable {C : Type} {A : C → Type} {B E : Type} (self : ThreadStore C A B E)

def key (threadId : String) : Except CoreError String :=
  (self.threadKey threadId).mapError fun e =>
    .session ("failed to build thread key for '" ++ threadId ++ "': " ++ e)

def ensureThreadLogSchema (log : ThreadLog) : Except CoreError Unit :=
  if log.schemaVersion ≠ THREAD_SCHEMA_VERSION then
    .error (.schema ("thread schema_version mismatch: expected " ++
      toString THREAD_SCHEMA_VERSION ++ ", got " ++ toString log.schemaVersion))
  else .ok ()

def parseThreadLog (v : Json) : Except CoreError ThreadLog :=
  (ThreadLog.fromValue v).mapError fun e => .session ("failed to parse thread log: " ++ e)

def rememberLog (key : String) (log : ThreadLog) (etag : E) : Program C A Unit :=
  self.cacheInsert key ⟨log, etag⟩

/-- The cached copy, if it carries the current etag; the cache is not asked about a missing
object. -/
def lookupLog [DecidableEq E] (key : String) :
    Option E → Program C A (Option (LogCacheEntry E))
  | none => return none
  | some etag => do
    let entry ← self.cacheGet key
    return entry.filter fun entry => entry.etag = etag

/-- The copy of the cache if its etag is current, and the stored document otherwise. -/
def fetchLog [DecidableEq E] (key : String) (etag : E) :
    Program C A (Except CoreError ThreadLog) := do
  let cached ← self.lookupLog key (some etag)
  match cached with
  | some entry => return .ok entry.log
  | none => (retryGetJson self.storage key).andThen fun v =>
    match parseThreadLog v with
    | .error e => return .error e
    | .ok log => do
      self.rememberLog key log etag
      return .ok log

def loadThreadLogForWrite [DecidableEq E] (key : String) :
    Program C A (Except CoreError (LoadState E ThreadLog)) :=
  (retryHeadEtag self.storage key).andThen fun currentEtag =>
    match currentEtag with
    | none => return .ok .missing
    | some etag => (self.fetchLog key etag).andThen fun log =>
      match ensureThreadLogSchema log with
      | .error e => return .error e
      | .ok () => return .ok (.loaded ⟨some etag, log⟩)

/-- The error text of a lost compare-and-swap; the etags are shown in debug format. -/
def conflictMessage (showEtag : Option E → String) (threadId : String)
    (expected current : Option E) : String :=
  "thread_log('" ++ threadId ++ "'): write conflict detected (expected_etag=" ++
    showEtag expected ++ ", current_etag=" ++ showEtag current ++ ")"

variable (showEtag : Option E → String)

def saveThreadLogIfEtagMatches (threadId key : String) (log : ThreadLog)
    (expectedEtag : Option E) : Program C A (Except CoreError E) :=
  (retryPutJsonIfEtagMatches self.storage key log.toValue expectedEtag).andThen fun status =>
    match status with
    | .written etag => return .ok etag
    | .conflict currentEtag => return .error (.auditConflict
        (conflictMessage showEtag threadId expectedEtag currentEtag))

def expectedEtagOf : LoadState E ThreadLog → Option E
  | .missing => none
  | .loaded v => v.etag

def logOf : LoadState E ThreadLog → ThreadLog
  | .missing => ThreadLog.default
  | .loaded v => v.value

/-- Save an edited log and remember it under its new etag. -/
def commitLog (threadId key : String) (log : ThreadLog) (expectedEtag : Option E) :
    Program C A (Except CoreError Unit) :=
  (self.saveThreadLogIfEtagMatches showEtag threadId key log expectedEtag).andThen fun etag => do
    self.rememberLog key log etag
    return .ok ()

/-- Run under the write lock of the key; the guard is released on every way out. -/
def withLock {α : Type} (key : String) (body : Program C A α) : Program C A α := do
  self.lock key
  let r ← body
  self.unlock key
  return r

variable [DecidableEq E]

def appendStepLocked (key threadId : String) (step : ThreadStep) :
    Program C A (Except CoreError Unit) :=
  (self.loadThreadLogForWrite key).andThen fun loaded =>
    self.commitLog showEtag threadId key ((logOf loaded).push step) (expectedEtagOf loaded)

/-- The attempts that are left. -/
def appendAttempts (key threadId : String) (step : ThreadStep) :
    Nat → Program C A (Except CoreError Unit)
  | 0 => return .error (.auditUnavailable threadId AUDIT_MAX_CONFLICT_RETRIES)
  | n + 1 => do
    match ← self.appendStepLocked showEtag key threadId step with
    | .ok () => return .ok ()
    | .error (.auditConflict _) =>
      self.cacheRemove key
      appendAttempts key threadId step n
    | .error e => return .error e

def appendStep (threadId : String) (step : ThreadStep) : Program C A (Except CoreError Unit) :=
  match self.key threadId with
  | .error e => return .error e
  | .ok key => self.withLock key
      (self.appendAttempts showEtag key threadId step (AUDIT_MAX_CONFLICT_RETRIES + 1))

/-- `ts` is what the clock shows when the step is built. -/
def ensurePreflightPhaseStep (threadId agent : String) (suiteId : Option String)
    (initialPhase ts : String) : Program C A (Except CoreError (Option (Nat × String))) :=
  match self.key threadId with
  | .error e => return .error e
  | .ok key => self.withLock key <|
      (self.loadThreadLogForWrite key).andThen fun loaded =>
        match (logOf loaded).firstPhase with
        | some found => return .ok (some found)
        | none =>
          let log := { logOf loaded with
            steps := (logOf loaded).steps ++ [preflightStep agent suiteId initialPhase ts] }
          (self.commitLog showEtag threadId key log (expectedEtagOf loaded)).andThen fun _ =>
            return .ok (some (log.steps.length - 1, initialPhase))

def get (threadId : String) : Program C A (Except CoreError ThreadLog) :=
  match self.key threadId with
  | .error e => return .error e
  | .ok key => (retryHeadEtag self.storage key).andThen fun currentEtag => do
    let cached ← self.lookupLog key currentEtag
    match cached with
    | some entry => return .ok entry.log
    | none => do
      match ← retryGetJson self.storage key with
      | .error e => return .error (.session ("get('" ++ threadId ++ "'): " ++ e.display))
      | .ok v => match parseThreadLog v with
        | .error e => return .error e
        | .ok log => match ensureThreadLogSchema log with
          | .error e => return .error e
          | .ok () => do
            match currentEtag with
            | some etag => self.rememberLog key log etag
            | none => pure ()
            return .ok log

def setTitleIfAbsent (threadId title : String) : Program C A (Except CoreError Unit) :=
  match self.key threadId with
  | .error e => return .error e
  | .ok key => self.withLock key <|
      (self.loadThreadLogForWrite key).andThen fun loaded =>
        if (logOf loaded).title.isNone || ((logOf loaded).title.map String.isEmpty).getD true then
          self.commitLog showEtag threadId key { logOf loaded with title := some title }
            (expectedEtagOf loaded)
        else return .ok ()

def lockTitle (threadId title : String) : Program C A (Except CoreError Unit) :=
  match self.key threadId with
  | .error e => return .error e
  | .ok key => self.withLock key <|
      (self.loadThreadLogForWrite key).andThen fun loaded =>
        if (logOf loaded).titleLocked then return .ok ()
        else
          self.commitLog showEtag threadId key
            { logOf loaded with title := some title, titleLocked := true } (expectedEtagOf loaded)

/-! Listing and deleting threads. `threads` is the prefix of the threads in the keyspace. -/

omit [DecidableEq E]

def listPrefix (threads : String) : String := trimEndMatches '/' threads ++ "/"

/-- The thread of a listed key; a name with a dot is taken for an artifact. -/
def listedName (pre key : String) : Option String :=
  ((stripStart key pre).bind fun name => stripEnd name ".json").filter
    fun name => !containsText name "."

def list (threads : String) : Program C A (List String) := do
  match ← retryListPrefix self.storage (listPrefix threads) with
  | .ok keys => return (keys.filterMap (listedName (listPrefix threads))).mergeSort
  | .error _ => return []

/-- The start of the keys that go with a thread. -/
def threadPrefix (threads threadId : String) : String :=
  trimEndMatches '/' threads ++ "/" ++ threadId ++ "."

def deleteKeys : List String → Program C A (Except CoreError Unit)
  | [] => return .ok ()
  | k :: keys => (retryDeleteObject self.storage k).andThen fun _ => deleteKeys keys

def delete (threads threadId : String) : Program C A (Except CoreError Unit) :=
  match self.key threadId with
  | .error e => return .error e
  | .ok key => (retryDeleteObject self.storage key).andThen fun _ =>
    (retryListPrefix self.storage (threadPrefix threads threadId)).andThen fun keys =>
      (self.deleteKeys keys).andThen fun _ => do
        self.cacheRemove key
        return .ok ()

end ThreadStore
end ReactRuntime.Session
