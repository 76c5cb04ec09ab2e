import ReactRuntime.Storage.Adapter

/-!
# The caching storage adapter

A read-through cache over an inner adapter. Each method makes its inner calls and
its accesses to the entry map as separate steps, with no lock around them.
-/
namespace ReactRuntime.Storage
open Library Serde ReactRuntime.Core

inductive CacheEntry (B E : Type) where
  | bytes (bytes : B) (etag : Option E)
  | missing
deriving DecidableEq

/-- The accesses to the entry map, each atomic under its lock. -/
structure EntryMap (C : Type) (A : C → Type) (B E : Type) where
  readEntry : String → Program C A (Option (CacheEntry B E))
  writeEntry : String → CacheEntry B E → Program C A Unit
  invalidateEntry : String → Program C A Unit

/-- The adapter: the inner one, its entries and the JSON functions it calls. -/
structure CachingStorageAdapter (C : Type) (A : C → Type) (B E : Type) where
  inner : StorageAdapter C A B E
  entries : EntryMap C A B E
  format : Format B E

namespace CachingStorageAdapter
variable {C : Type} {A : C → Type} {B E : Type} (self : CachingStorageAdapter C A B E)

def cachedMissingError (key : String) : CoreError := .storage (.notFound key)

def rememberBytes (key : String) (bytes : B) (etag : Option E) : Program C A Unit :=
  self.entries.writeEntry key (.bytes bytes etag)

/-- The second half of `get_bytes`, when no entry could answer. -/
def fetchBytes (key : String) : Program C A (Except CoreError B) :=
  (self.inner (.headEtag key)).andThen fun currentEtag => do
    match ← self.inner (.getBytes key) with
    | .ok bytes =>
      self.rememberBytes key bytes currentEtag
      return .ok bytes
    | .error err =>
      if isStorageNotFoundError err then
        self.entries.writeEntry key .missing
        return .error err
      else return .error err

def getBytes [DecidableEq E] (key : String) : Program C A (Except CoreError B) := do
  match ← self.entries.readEntry key with
  | some (.bytes bytes (some etag)) =>
    (self.inner (.headEtag key)).andThen fun head =>
      if head = some etag then return .ok bytes else self.fetchBytes key
  | some (.bytes bytes none) => return .ok bytes
  | some .missing => return .error (cachedMissingError key)
  | none => self.fetchBytes key

def getJson [DecidableEq E] (key : String) : Program C A (Except CoreError Json) :=
  (self.getBytes key).andThen fun bytes => return self.format.parseJson key bytes

def putJson (key : String) (value : Json) : Program C A (Except CoreError Unit) :=
  (self.inner (.putBytes key (self.format.compact value) "application/json")).andThen fun _ => do
    self.rememberBytes key (self.format.compact value) none
    return .ok ()

def putJsonIfEtagMatches (key : String) (value : Json) (expectedEtag : Option E) :
    Program C A (Except CoreError (ConditionalWriteStatus E)) :=
  (self.inner (.putJsonIfEtagMatches key value expectedEtag)).andThen fun status => do
    match status with
    | .written etag =>
      self.rememberBytes key (self.format.compact value) (some etag)
      return .ok (.written etag)
    | .conflict currentEtag =>
      self.entries.invalidateEntry key
      return .ok (.conflict currentEtag)

def putBytes (key : String) (bytes : B) (contentType : String) :
    Program C A (Except CoreError Unit) :=
  (self.inner (.putBytes key bytes contentType)).andThen fun _ => do
    self.rememberBytes key bytes none
    return .ok ()

def deleteObject (key : String) : Program C A (Except CoreError Unit) :=
  (self.inner (.deleteObject key)).andThen fun _ => do
    self.entries.writeEntry key .missing
    return .ok ()

def headEtag (key : String) : Program C A (Except CoreError (Option E)) := do
  match ← self.entries.readEntry key with
  | some .missing => return .ok none
  | _ => self.inner (.headEtag key)

def listPrefix (pre : String) : Program C A (Except CoreError (List String)) :=
  self.inner (.listPrefix pre)

/-- The trait implementation. -/
def adapter [DecidableEq E] : StorageAdapter C A B E
  | .getJson key => self.getJson key
  | .putJson key value => self.putJson key value
  | .putJsonIfEtagMatches key value expectedEtag =>
    self.putJsonIfEtagMatches key value expectedEtag
  | .getBytes key => self.getBytes key
  | .putBytes key bytes contentType => self.putBytes key bytes contentType
  | .deleteObject key => self.deleteObject key
  | .headEtag key => self.headEtag key
  | .listPrefix pre => self.listPrefix pre

end CachingStorageAdapter
end ReactRuntime.Storage
