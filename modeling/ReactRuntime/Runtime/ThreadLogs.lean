import ReactRuntime.Core.Keyspace
import ReactRuntime.Library.Program
import ReactRuntime.Library.SortedMap
import ReactRuntime.Storage.Adapter

/-!
# The log of a run

Everything that a run logs is appended to one open file. On a local file system the file gets its
final name once the thread is known; elsewhere its content is uploaded from time to time, and once
more at the end of the run.
-/
namespace ReactRuntime.Runtime
open Library ReactRuntime.Core Storage

inductive Mode where
  | local (rootDir : String)
  | buffered
deriving DecidableEq

structure RunThreadLogs where
  mode : Mode
  scope : RequestScope
  tmpPath : String

/-- The locks, the files, the storage and the stop flag, as the programs use them. -/
inductive LogCall (β : Type) where
  | lockFile
  | unlockFile
  | append (buf : List β)
  | boundThreadId
  | bind (threadId : String)
  | createDirAll (path : String)
  | rename (src dst : String)
  | copy (src dst : String)
  | read (path : String)
  | putBytes (key : String) (bytes : List β) (contentType : String)
  | stopRequested
  | requestStop

variable {β : Type}

@[reducible] def LogCall.Answer : LogCall β → Type
  | .lockFile | .unlockFile | .bind _ | .requestStop => Unit
  | .append _ => Except String Nat
  | .boundThreadId => Option String
  | .createDirAll _ | .rename _ _ | .copy _ _ | .putBytes _ _ _ => Except String Unit
  | .read _ => Except String (List β)
  | .stopRequested => Bool

/-- `write_all`: what a write has left over is written again. Each write takes at least one byte, so
that the length of the buffer is fuel enough. -/
def writeAll : Nat → List β → Program (LogCall β) LogCall.Answer (Except String Unit)
  | _, [] => .ret (.ok ())
  | 0, _ :: _ => .ret (.error "failed to write whole buffer")
  | fuel + 1, b :: buf => .call (.append (b :: buf)) fun r => match r with
    | .error e => .ret (.error e)
    | .ok 0 => .ret (.error "failed to write whole buffer")
    | .ok n@(_ + 1) => writeAll fuel ((b :: buf).drop n)

/-- A write is made under the lock of the file. -/
def RunThreadLogWriter.write (buf : List β) : Program (LogCall β) LogCall.Answer (Except String Nat) :=
  .call .lockFile fun _ => (writeAll buf.length buf).bind fun r =>
    .call .unlockFile fun _ => .ret (r.map fun _ => buf.length)

namespace RunThreadLogs
variable (self : RunThreadLogs)

/-- The path of a key below the root directory. -/
def finalPath (rootDir key : String) : String := rootDir ++ "/" ++ key

def bindThreadId (threadId : String) :
    Program (LogCall β) LogCall.Answer (Except String Unit) :=
  .call .boundThreadId fun bound =>
    if bound = some threadId then .ret (.ok ())
    else .call (.bind threadId) fun _ => match self.mode with
      | .buffered => .ret (.ok ())
      | .local rootDir => match threadLogKey self.scope threadId with
        | .error e => .ret (.error e.display)
        | .ok key => .call (.createDirAll (finalPath rootDir key)) fun created => match created with
          | .error e => .ret (.error e)
          | .ok () => .call (.rename self.tmpPath (finalPath rootDir key)) fun renamed =>
            match renamed with
            | .ok () => .ret (.ok ())
            | .error _ => .call (.copy self.tmpPath (finalPath rootDir key)) .ret

def uploadSnapshot (threadId : String) :
    Program (LogCall β) LogCall.Answer (Except String Unit) :=
  match threadLogKey self.scope threadId with
  | .error e => .ret (.error e.display)
  | .ok key => .call (.read self.tmpPath) fun r => match r with
    | .error e => .ret (.error e)
    | .ok bytes => if bytes.isEmpty then .ret (.ok ())
      else .call (.putBytes key bytes "text/plain") .ret

def uploadIfNeeded (threadId : String) :
    Program (LogCall β) LogCall.Answer (Except String Unit) :=
  (self.bindThreadId threadId).bind fun _ => match self.mode with
    | .local _ => .ret (.ok ())
    | .buffered => self.uploadSnapshot threadId

/-- The rounds of the background task; it goes on until it is told to stop. -/
def uploadRounds : Nat → Program (LogCall β) LogCall.Answer Unit
  | 0 => .ret ()
  | rounds + 1 => .call .stopRequested fun stop =>
    if stop then .ret ()
    else .call .boundThreadId fun bound => match bound with
      | none => uploadRounds rounds
      | some threadId => (self.uploadSnapshot threadId).bind fun _ => uploadRounds rounds

def startPeriodicUpload (rounds : Nat) : Program (LogCall β) LogCall.Answer Unit :=
  match self.mode with
  | .local _ => .ret ()
  | .buffered => self.uploadRounds rounds

/-- The end of a run: the background task is told to stop, and the log is uploaded once more. -/
def finish (threadId : String) : Program (LogCall β) LogCall.Answer (Except String Unit) :=
  .call .requestStop fun _ => (self.bindThreadId threadId).bind fun _ =>
    self.uploadIfNeeded threadId

end RunThreadLogs

/-- What lies under a path: the file that the writers have open, or a copy of it. -/
inductive LogFile (β : Type) where
  | opened
  | copied (bytes : List β)
deriving DecidableEq

structure LogState (τ β : Type) where
  file : List β
  holder : Option τ
  paths : SortedMap String (LogFile β)
  objects : Objects (List β)
  bound : Option String
  stop : Bool

/-- How one call goes. A write or a copy may stop after any number of bytes, and an upload may be
made although its answer is lost. -/
inductive LogDelivery where
  | answered
  | short (n : Nat)
  | failed (e : String)
  | lost (e : String)

namespace LogState
variable {τ : Type} (s : LogState τ β)

def contents : LogFile β → List β
  | .opened => s.file
  | .copied bytes => bytes

variable [DecidableEq τ]

def exec (t : τ) : LogDelivery → (c : LogCall β) → Option (LogState τ β × c.Answer)
  | .answered, .lockFile => if s.holder = none then some ({ s with holder := some t }, ()) else none
  | .answered, .unlockFile => some ({ s with holder := none }, ())
  | .answered, .append buf => some ({ s with file := s.file ++ buf }, .ok buf.length)
  | .short n, .append buf =>
    some ({ s with file := s.file ++ buf.take n }, .ok (buf.take n).length)
  | .answered, .boundThreadId => some (s, s.bound)
  | .answered, .bind threadId => some ({ s with bound := some threadId }, ())
  | .answered, .createDirAll _ => some (s, .ok ())
  | .answered, .rename src dst => match s.paths.get src with
    | some f => some ({ s with paths := (s.paths.erase src).insert dst f }, .ok ())
    | none => some (s, .error "No such file or directory")
  | .answered, .copy src dst => match s.paths.get src with
    | some f => some ({ s with paths := s.paths.insert dst (.copied (s.contents f)) }, .ok ())
    | none => some (s, .error "No such file or directory")
  | .short n, .copy src dst => match s.paths.get src with
    | some f => some ({ s with paths := s.paths.insert dst (.copied ((s.contents f).take n)) },
        .error "copy failed")
    | none => some (s, .error "No such file or directory")
  | .answered, .read path => match s.paths.get path with
    | some f => some (s, .ok (s.contents f))
    | none => some (s, .error "No such file or directory")
  | .answered, .putBytes key bytes _ =>
    some ({ s with objects := s.objects.insert key bytes }, .ok ())
  | .lost e, .putBytes key bytes _ =>
    some ({ s with objects := s.objects.insert key bytes }, .error e)
  | .answered, .stopRequested => some (s, s.stop)
  | .answered, .requestStop => some ({ s with stop := true }, ())
  | .failed e, .append _ | .failed e, .createDirAll _ | .failed e, .rename _ _
  | .failed e, .copy _ _ | .failed e, .read _ | .failed e, .putBytes _ _ _ => some (s, .error e)
  | _, _ => none

end LogState

def logWorld (τ β : Type) [DecidableEq τ] :
    World τ LogDelivery (LogState τ β) (LogCall β) LogCall.Answer where
  exec t d c s := s.exec t d c

end ReactRuntime.Runtime
