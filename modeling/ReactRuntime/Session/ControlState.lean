import ReactRuntime.Core.Text
import ReactRuntime.Storage.Adapter
import ReactRuntime.Session.Codec

/-!
# The control state of a thread

A suite keeps one value per thread, in an envelope that names the suite. `save`
and `delete` write blindly; `mutate` reads the object with its etag, applies a
closure and puts the result back under the condition that the etag still matches.
-/
namespace ReactRuntime.Session
open Library Serde ReactRuntime.Core Storage

/-- How a suite writes and reads its state. -/
structure Payload (T : Type) where
  toValue : T → Except String Json
  fromValue : Json → Except String T

structure ControlStateStore (C : Type) (A : C → Type) (B E T : Type) where
  storage : StorageAdapter C A B E
  controlStateKey : String → Except String String
  lock : String → Program C A Unit
  unlock : String → Program C A Unit
  /-- Run the closure of a mutation. -/
  apply : (Option T → Except CoreError T) → Option T → Program C A (Except CoreError T)
  payload : Payload T

namespace ControlStateStore
variable {C : Type} {A : C → Type} {B E T : Type} (self : ControlStateStore C A B E T)

def key (threadId : String) : Except CoreError String :=
  (self.controlStateKey threadId).mapError fun e =>
    .session ("failed to build control state key for '" ++ threadId ++ "': " ++ e)

def decode (raw : Json) (expectedSuiteId : String) : Except CoreError (Option Json) :=
  match ControlStateEnvelope.fromValue raw with
  | .error e => .error (.session ("control state envelope deserialization failed (suite='" ++
      expectedSuiteId ++ "'): " ++ e))
  | .ok env =>
    if env.schemaVersion = CONTROL_STATE_ENVELOPE_SCHEMA_VERSION ∧
        trim env.suiteId = trim expectedSuiteId then
      .ok (some env.payload)
    else .ok none

def encode (suiteId : String) (payload : Json) : Json :=
  ControlStateEnvelope.toValue ⟨CONTROL_STATE_ENVELOPE_SCHEMA_VERSION, trim suiteId, payload⟩

def loadRaw (threadId : String) : Program C A (Except CoreError (LoadState E Json)) :=
  match self.key threadId with
  | .error e => return .error e
  | .ok key => (retryHeadEtag self.storage key).andThen fun etag =>
    match etag with
    | none => return .ok .missing
    | some etag => (retryGetJson self.storage key).andThen fun value =>
      return .ok (.loaded ⟨some etag, value⟩)

def saveRaw (threadId : String) (value : Json) : Program C A (Except CoreError Unit) :=
  match self.key threadId with
  | .error e => return .error e
  | .ok key => retryPutJson self.storage key value

def conflictMessage (showEtag : Option E → String) (threadId : String)
    (expected current : Option E) : String :=
  "control_state('" ++ threadId ++ "'): write conflict detected (expected_etag=" ++
    showEtag expected ++ ", current_etag=" ++ showEtag current ++ ")"

def saveRawIfEtagMatches (showEtag : Option E → String) (threadId : String) (value : Json)
    (expectedEtag : Option E) : Program C A (Except CoreError Unit) :=
  match self.key threadId with
  | .error e => return .error e
  | .ok key => (retryPutJsonIfEtagMatches self.storage key value expectedEtag).andThen fun status =>
    match status with
    | .written _ => return .ok ()
    | .conflict currentEtag => return .error (.session
        (conflictMessage showEtag threadId expectedEtag currentEtag))

/-- The state that a raw document holds for a suite. -/
def parse (raw : Json) (suiteId : String) : Except CoreError (Option T) :=
  match decode raw suiteId with
  | .error e => .error e
  | .ok none => .ok none
  | .ok (some payload) => match self.payload.fromValue payload with
    | .error e => .error (.session ("failed to parse control state payload: " ++ e))
    | .ok state => .ok (some state)

/-- The document of a state. -/
def envelope (suiteId : String) (state : T) : Except CoreError Json :=
  match self.payload.toValue state with
  | .error e => .error (.session ("failed to serialize control state payload: " ++ e))
  | .ok payload => .ok (encode suiteId payload)

def load (threadId suiteId : String) : Program C A (Except CoreError (Option T)) :=
  (self.loadRaw threadId).andThen fun loaded =>
    match loaded with
    | .missing => return .ok none
    | .loaded raw => return self.parse raw.value suiteId

def save (threadId suiteId : String) (state : T) : Program C A (Except CoreError Unit) :=
  match self.envelope suiteId state with
  | .error e => return .error e
  | .ok envelope => self.saveRaw threadId envelope

def expectedEtagOf : LoadState E Json → Option E
  | .missing => none
  | .loaded raw => raw.etag

def currentOf (suiteId : String) : LoadState E Json → Except CoreError (Option T)
  | .missing => .ok none
  | .loaded raw => self.parse raw.value suiteId

def mutateLocked (showEtag : Option E → String) (threadId suiteId : String)
    (mutate : Option T → Except CoreError T) : Program C A (Except CoreError T) :=
  (self.loadRaw threadId).andThen fun loaded =>
    match self.currentOf suiteId loaded with
    | .error e => return .error e
    | .ok current => (self.apply mutate current).andThen fun next =>
      match self.envelope suiteId next with
      | .error e => return .error e
      | .ok envelope =>
        (self.saveRawIfEtagMatches showEtag threadId envelope (expectedEtagOf loaded)).andThen
          fun _ => return .ok next

/-- The whole read and write runs under the write lock of the process. -/
def mutate (showEtag : Option E → String) (threadId suiteId : String)
    (mutate : Option T → Except CoreError T) : Program C A (Except CoreError T) :=
  match self.key threadId with
  | .error e => return .error e
  | .ok key => do
    self.lock key
    let r ← self.mutateLocked showEtag threadId suiteId mutate
    self.unlock key
    return r

def loadSuiteId (threadId : String) : Program C A (Except CoreError (Option String)) :=
  (self.loadRaw threadId).andThen fun loaded =>
    match loaded with
    | .missing => return .ok none
    | .loaded raw => return .ok (((ControlStateEnvelope.fromValue raw.value).toOption.map
        ControlStateEnvelope.suiteId).filter fun s => !(trim s).isEmpty)

def delete (threadId : String) : Program C A (Except CoreError Unit) :=
  match self.key threadId with
  | .error e => return .error e
  | .ok key => (retryDeleteObject self.storage key).andThen fun _ => return .ok ()

end ControlStateStore
end ReactRuntime.Session
