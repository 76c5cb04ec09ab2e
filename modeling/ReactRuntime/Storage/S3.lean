import ReactRuntime.Storage.Adapter

/-!
# The S3 adapter

The adapter makes one request of the object service for each of its calls. A request that fails
because the credentials have expired is made once more with new credentials. A refused conditional
put is followed by a HEAD, and a listing goes through its pages until no token is returned.
-/
namespace ReactRuntime.Storage
open Library Serde ReactRuntime.Core

/-- The failures of the SDK; `debug` is their text. -/
inductive SdkError where
  | timeoutError (debug : String)
  | dispatchFailure (debug : String)
  | serviceError (code : Option String) (debug : String)
  | other (debug : String)
deriving DecidableEq

/-- The condition of a put. -/
inductive PutCondition (E : Type) where
  | always
  | ifMatch (etag : E)
  | ifNoneMatch
deriving DecidableEq

inductive S3Call (B E Tok : Type) where
  | getObject (key : String)
  | putObject (key : String) (body : B) (contentType : String) (condition : PutCondition E)
  | deleteObject (key : String)
  | headObject (key : String)
  | listObjectsV2 (pre : String) (maxKeys : Nat) (continuationToken : Option Tok)
  | s3Credentials

variable {B E Tok : Type}

/-- A page of a listing: the keys of its objects, and the token of the next page. -/
structure ListPage (Tok : Type) where
  contents : List (Option String)
  nextContinuationToken : Option Tok
deriving DecidableEq

/-- The body of an object is collected after its head has arrived, and may fail by itself. -/
@[reducible] def S3Call.Answer : S3Call B E Tok → Type
  | .getObject _ => Except SdkError (Except String B)
  | .putObject _ _ _ _ => Except SdkError (Option E)
  | .deleteObject _ => Except SdkError Unit
  | .headObject _ => Except SdkError (Option E)
  | .listObjectsV2 _ _ _ => Except SdkError (ListPage Tok)
  | .s3Credentials => Except String Unit

def mapSdkError : SdkError → StorageError
  | .timeoutError debug => .timeout debug
  | .dispatchFailure debug => .throttle debug
  | .serviceError code debug =>
    let code' := code.getD ""
    if ["NoSuchKey", "NotFound", "NoSuchBucket"].contains code' then
      .notFound (code.getD "not found")
    else if ["ExpiredToken", "ExpiredTokenException", "InvalidToken"].contains code' then
      .authExpired code'
    else if ["SlowDown", "Throttling", "ThrottlingException", "RequestLimitExceeded",
        "TooManyRequestsException"].contains code' then
      .throttle code'
    else if code' = "RequestTimeout" then .timeout code'
    else if ["PreconditionFailed", "ConditionalRequestConflict"].contains code' then
      .conflict code'
    else .other debug
  | .other debug => .other debug

/-- `key_error`, `prefix_error` and `conditional_write_error`, which differ in what they name. -/
def namedError (name : String) (err : SdkError) : CoreError :=
  match mapSdkError err with
  | .notFound _ => .storage (.notFound name)
  | other => .storage other

def isExpiredTokenError : CoreError → Bool
  | .storage (.authExpired _) => true
  | _ => false

/-- One request, and what the adapter makes of its answer. -/
def S3Call.send {α : Type} (c : S3Call B E Tok) (read : c.Answer → Except CoreError α) :
    Program (S3Call B E Tok) S3Call.Answer (Except CoreError α) :=
  .call c fun answer => .ret (read answer)

structure S3StorageAdapter (B : Type) where
  bucket : String
  hasCredentialsProvider : Bool
  /-- `serde_json::to_vec`, which fails for no document. -/
  toVec : Json → B
  fromSlice : B → Except String Json

namespace S3StorageAdapter
variable (self : S3StorageAdapter B)

def refreshClient : Program (S3Call B E Tok) S3Call.Answer (Except CoreError Unit) :=
  if self.hasCredentialsProvider then
    S3Call.send .s3Credentials fun answer => answer.mapError fun e =>
      .storage (.other ("s3 credential refresh failed (bucket='" ++ self.bucket ++ "'): " ++ e))
  else .ret (.ok ())

def requestWithRefresh {α : Type}
    (request : Program (S3Call B E Tok) S3Call.Answer (Except CoreError α)) :
    Program (S3Call B E Tok) S3Call.Answer (Except CoreError α) :=
  request.bind fun first =>
    match first with
    | .error e =>
      if isExpiredTokenError e && self.hasCredentialsProvider then
        self.refreshClient.andThen fun _ => request
      else .ret (.error e)
    | .ok a => .ret (.ok a)

def getBytes (key : String) : Program (S3Call B E Tok) S3Call.Answer (Except CoreError B) :=
  (self.requestWithRefresh (S3Call.send (.getObject key) fun answer =>
    answer.mapError (namedError key))).andThen fun body =>
      .ret (body.mapError fun e =>
        .storage (.other ("s3 get_object_body failed (key='" ++ key ++ "'): " ++ e)))

def getJson (key : String) : Program (S3Call B E Tok) S3Call.Answer (Except CoreError Json) :=
  (self.getBytes key).andThen fun bytes =>
    .ret ((self.fromSlice bytes).mapError fun e => .storage (.other e))

def putBytes (key : String) (bytes : B) (contentType : String) :
    Program (S3Call B E Tok) S3Call.Answer (Except CoreError Unit) :=
  self.requestWithRefresh (S3Call.send (.putObject key bytes contentType .always) fun answer =>
    (answer.map fun _ => ()).mapError (namedError key))

def putJson (key : String) (value : Json) :
    Program (S3Call B E Tok) S3Call.Answer (Except CoreError Unit) :=
  self.putBytes key (self.toVec value) "application/json"

def deleteObject (key : String) : Program (S3Call B E Tok) S3Call.Answer (Except CoreError Unit) :=
  self.requestWithRefresh (S3Call.send (.deleteObject key) fun answer =>
    answer.mapError (namedError key))

def headEtag (key : String) :
    Program (S3Call B E Tok) S3Call.Answer (Except CoreError (Option E)) :=
  (self.requestWithRefresh (S3Call.send (.headObject key) fun answer =>
    answer.mapError (namedError key))).bind fun resp =>
      match resp with
      | .ok etag => .ret (.ok etag)
      | .error e => if isStorageNotFoundError e then .ret (.ok none) else .ret (.error e)

/-- The condition of a conditional put, from the etag that is expected. -/
def conditionOf : Option E → PutCondition E
  | some etag => .ifMatch etag
  | none => .ifNoneMatch

def isConflict : CoreError → Bool
  | .storage (.conflict _) => true
  | _ => false

/-- The request of a conditional put; a response without an etag is an error. -/
def conditionalPut (key : String) (value : Json) (expectedEtag : Option E) :
    Program (S3Call B E Tok) S3Call.Answer (Except CoreError E) :=
  S3Call.send (.putObject key (self.toVec value) "application/json" (conditionOf expectedEtag))
    fun answer => match answer with
      | .error e => .error (namedError key e)
      | .ok (some etag) => .ok etag
      | .ok none => .error (.storage
          (.other ("put_object('" ++ key ++ "'): response missing etag")))

def putJsonIfEtagMatches (key : String) (value : Json) (expectedEtag : Option E) :
    Program (S3Call B E Tok) S3Call.Answer (Except CoreError (ConditionalWriteStatus E)) :=
  (self.requestWithRefresh (self.conditionalPut key value expectedEtag)).bind fun r =>
    match r with
    | .ok etag => .ret (.ok (.written etag))
    | .error e =>
      if isConflict e then
        (self.headEtag key).andThen fun currentEtag => .ret (.ok (.conflict currentEtag))
      else .ret (.error e)

/-- The pages that are left, with what has been listed so far; `none` when the fuel runs out. -/
def listPages (pre : String) : (fuel : Nat) → Option Tok → List String →
    Program (S3Call B E Tok) S3Call.Answer (Option (Except CoreError (List String)))
  | 0, _, _ => .ret none
  | fuel + 1, token, out =>
    (self.requestWithRefresh (S3Call.send (.listObjectsV2 pre 1000 token) fun answer =>
      answer.mapError (namedError pre))).bind fun resp =>
        match resp with
        | .error e => .ret (some (.error e))
        | .ok page =>
          let out := out ++ page.contents.filterMap id
          match page.nextContinuationToken with
          | none => .ret (some (.ok out))
          | some token => listPages pre fuel (some token) out

def listPrefix (fuel : Nat) (pre : String) :
    Program (S3Call B E Tok) S3Call.Answer (Option (Except CoreError (List String))) :=
  self.listPages pre fuel none []

end S3StorageAdapter

/-- How a listing is cut into pages: a token says after which key it goes on. -/
structure Continuation (Tok : Type) where
  token : String → Tok
  position : Tok → String
  position_token : ∀ key, position (token key) = key

/-- How one request goes. The service chooses how many keys a page has, at most as many as were
asked for. Any failure may hide that the request took effect: the SDK sends a request again by
itself, so that even a refusal may be that of a second sending. -/
inductive S3Delivery where
  | answered (pageSize : Nat)
  | untagged
  | failed (e : SdkError)
  | lost (e : SdkError)

/-- A put or delete that took effect: the etag of the object before it, and its new content. -/
structure Landing (B E : Type) where
  key : String
  before : Option E
  body : Option B
deriving DecidableEq

/-- The objects, and what each party has done to them. -/
structure S3State (τ B E : Type) where
  objects : Objects B
  landed : τ → List (Landing B E)

def PutCondition.holds [DecidableEq E] (current : Option E) : PutCondition E → Bool
  | .always => true
  | .ifMatch etag => current == some etag
  | .ifNoneMatch => current == none

namespace S3State
variable {τ : Type} (etagOf : B → E) (continuation : Continuation Tok)

def etag (s : S3State τ B E) (key : String) : Option E := (s.objects.get key).map etagOf

/-- The object under a key is replaced, or removed, in the name of one party. -/
def land [DecidableEq τ] (s : S3State τ B E) (t : τ) (key : String) (body : Option B) :
    S3State τ B E where
  objects := match body with
    | some bytes => s.objects.insert key bytes
    | none => s.objects.erase key
  landed := Function.update s.landed t (s.landed t ++ [⟨key, s.etag etagOf key, body⟩])

/-- The keys below a prefix that a listing has not returned yet. -/
def remaining (s : S3State τ B E) (pre : String) (token : Option Tok) : List String :=
  s.objects.keys.filter fun key => pre.isPrefixOf key &&
    token.all fun token => decide (continuation.position token < key)

def page (keys : List String) (size : Nat) : ListPage Tok :=
  ⟨(keys.take size).map some,
    if keys.length ≤ size then none else (keys.take size).getLast?.map continuation.token⟩

variable [DecidableEq τ] [DecidableEq E]

/-- One request of a party. An object is replaced only under the condition of its put. -/
def exec (t : τ) (s : S3State τ B E) :
    S3Delivery → (c : S3Call B E Tok) → Option (S3State τ B E × c.Answer)
  | .answered _, .getObject key => some (s, match s.objects.get key with
      | some bytes => .ok (.ok bytes)
      | none => .error (.serviceError (some "NoSuchKey") ""))
  | .answered _, .putObject key body _ condition =>
    if condition.holds (s.etag etagOf key) then
      some (s.land etagOf t key (some body), .ok (some (etagOf body)))
    else some (s, .error (.serviceError (some "PreconditionFailed") ""))
  | .answered _, .deleteObject key => some (s.land etagOf t key none, .ok ())
  | .answered _, .headObject key => some (s, match s.etag etagOf key with
      | some etag => .ok (some etag)
      | none => .error (.serviceError (some "NotFound") ""))
  | .answered size, .listObjectsV2 pre maxKeys token =>
    some (s, .ok (page continuation (s.remaining continuation pre token) (min (max size 1) maxKeys)))
  | .answered _, .s3Credentials => some (s, .ok ())
  | .untagged, .putObject key body _ condition =>
    if condition.holds (s.etag etagOf key) then some (s.land etagOf t key (some body), .ok none)
    else none
  | .lost e, .putObject key body _ condition =>
    if condition.holds (s.etag etagOf key) then some (s.land etagOf t key (some body), .error e)
    else none
  | .lost e, .deleteObject key => some (s.land etagOf t key none, .error e)
  | .lost (.other debug), .getObject _ => some (s, .ok (.error debug))
  | .failed e, .getObject _ | .failed e, .putObject _ _ _ _ | .failed e, .deleteObject _
  | .failed e, .headObject _ | .failed e, .listObjectsV2 _ _ _ => some (s, .error e)
  | .failed (.other debug), .s3Credentials => some (s, .error debug)
  | _, _ => none

end S3State

def s3World (τ : Type) [DecidableEq τ] [DecidableEq E] (etagOf : B → E)
    (continuation : Continuation Tok) :
    World τ S3Delivery (S3State τ B E) (S3Call B E Tok) S3Call.Answer where
  exec t d c s := s.exec etagOf continuation t d c

end ReactRuntime.Storage
