import ReactRuntime.Core.Retry
import ReactRuntime.Serde.PrintedDocuments

/-!
# Storage adapters

An adapter answers each of the eight calls of the trait with a program of its own:
the backend in one call, a caching adapter in several. The backend is modelled on
the in-memory adapter. The text format of serde_json and the hash behind an etag
are parameters; `SerdeFormat.printed` is the format of any printer and reader of
numbers.
-/
namespace ReactRuntime.Storage
open Library Serde ReactRuntime.Core

inductive ConditionalWriteStatus (E : Type) where
  | written (etag : E)
  | conflict (currentEtag : Option E)
deriving DecidableEq

inductive StorageCall (B E : Type) where
  | getJson (key : String)
  | putJson (key : String) (value : Json)
  | putJsonIfEtagMatches (key : String) (value : Json) (expectedEtag : Option E)
  | getBytes (key : String)
  | putBytes (key : String) (bytes : B) (contentType : String)
  | deleteObject (key : String)
  | headEtag (key : String)
  | listPrefix (pre : String)

variable {B E : Type}

@[reducible] def StorageCall.Result : StorageCall B E → Type
  | .getJson _ => Json
  | .putJson _ _ => Unit
  | .putJsonIfEtagMatches _ _ _ => ConditionalWriteStatus E
  | .getBytes _ => B
  | .putBytes _ _ _ => Unit
  | .deleteObject _ => Unit
  | .headEtag _ => Option E
  | .listPrefix _ => List String

/-- The key of a call, if it is about one key. -/
def StorageCall.key? : StorageCall B E → Option String
  | .getJson key | .putJson key _ | .putJsonIfEtagMatches key _ _ | .getBytes key
  | .putBytes key _ _ | .deleteObject key | .headEtag key => some key
  | .listPrefix _ => none

abbrev StorageCall.Answer (c : StorageCall B E) : Type := Except CoreError c.Result

abbrev StorageAdapter (C : Type) (A : C → Type) (B E : Type) :=
  (c : StorageCall B E) → Program C A c.Answer

def isStorageNotFoundError : CoreError → Bool
  | .storage (.notFound _) => true
  | _ => false

def SAFE_STORAGE_RETRY_DELAYS_MS : List Nat := [100, 200, 400, 800, 1600, 3200]

section Retry
variable {C : Type} {A : C → Type} (storage : StorageAdapter C A B E)

def retryStorageCall (c : StorageCall B E) : Program C A c.Answer :=
  retryClassified SAFE_STORAGE_RETRY_DELAYS_MS (storage c)

def retryGetJson (key : String) : Program C A (Except CoreError Json) :=
  retryStorageCall storage (.getJson key)

def retryPutJson (key : String) (value : Json) : Program C A (Except CoreError Unit) :=
  retryStorageCall storage (.putJson key value)

def retryPutJsonIfEtagMatches (key : String) (value : Json) (expectedEtag : Option E) :
    Program C A (Except CoreError (ConditionalWriteStatus E)) :=
  retryStorageCall storage (.putJsonIfEtagMatches key value expectedEtag)

def retryDeleteObject (key : String) : Program C A (Except CoreError Unit) :=
  retryStorageCall storage (.deleteObject key)

def retryHeadEtag (key : String) : Program C A (Except CoreError (Option E)) :=
  retryStorageCall storage (.headEtag key)

def retryListPrefix (pre : String) : Program C A (Except CoreError (List String)) :=
  retryStorageCall storage (.listPrefix pre)

end Retry

/-- Containers that `serde_json::from_slice` accepts inside one another. -/
def RECURSION_LIMIT : Nat := 127

/-- How documents become bytes. `render` is what a JSON put of the backend stores, `compact` is
`serde_json::to_vec`, and `parse` is `serde_json::from_slice`, which refuses deep documents and reads
the others back, perhaps not quite as they were written. -/
structure Format (B E : Type) where
  render : Json → B
  compact : Json → B
  parse : B → Except String Json
  etagOf : B → E
  readBack : Json → Json
  parse_render : ∀ v, v.depth ≤ RECURSION_LIMIT → parse (render v) = .ok (readBack v)
  parse_compact : ∀ v, v.depth ≤ RECURSION_LIMIT → parse (compact v) = .ok (readBack v)
  parse_render_deep : ∀ v, RECURSION_LIMIT < v.depth → ∃ e, parse (render v) = .error e
  parse_compact_deep : ∀ v, RECURSION_LIMIT < v.depth → ∃ e, parse (compact v) = .error e

/-- A storage of JSON values: what was put is given back, whatever its text. What depends on the text
is said of `SerdeFormat`. -/
structure ExactFormat (B E : Type) extends Format B E where
  readBack_eq : ∀ v, readBack v = v
  render_injective : Function.Injective render

instance : CoeOut (ExactFormat B E) (Format B E) := ⟨ExactFormat.toFormat⟩

/-- The format of serde_json, for which the text of a float may be read as another float. -/
structure SerdeFormat (B E : Type) extends Format B E where
  readFloat : UInt64 → UInt64
  readBack_eq : ∀ v, readBack v = v.readBack readFloat

instance : CoeOut (SerdeFormat B E) (Format B E) := ⟨SerdeFormat.toFormat⟩

namespace Format
variable (F : Format B E)

theorem of_parse_render {v w : Json} (h : F.parse (F.render v) = .ok w) : w = F.readBack v := by
  by_cases hv : v.depth ≤ RECURSION_LIMIT
  · rw [F.parse_render v hv] at h
    exact (Except.ok.inj h).symm
  · obtain ⟨e, he⟩ := F.parse_render_deep v (not_le.mp hv)
    rw [he] at h
    cases h

theorem of_parse_compact {v w : Json} (h : F.parse (F.compact v) = .ok w) : w = F.readBack v := by
  by_cases hv : v.depth ≤ RECURSION_LIMIT
  · rw [F.parse_compact v hv] at h
    exact (Except.ok.inj h).symm
  · obtain ⟨e, he⟩ := F.parse_compact_deep v (not_le.mp hv)
    rw [he] at h
    cases h

/-- What can be read is not nested too deep. -/
theorem depth_of_parse_render {v w : Json} (h : F.parse (F.render v) = .ok w) :
    v.depth ≤ RECURSION_LIMIT := by
  by_contra hdeep
  obtain ⟨e, he⟩ := F.parse_render_deep v (not_le.mp hdeep)
  rw [he] at h
  cases h

/-- The etag of a stored document. -/
def tag (v : Json) : E := F.etagOf (F.render v)

def parseJson (key : String) (bytes : B) : Except CoreError Json :=
  (F.parse bytes).mapError fun e =>
    .storage (.other ("get_json('" ++ key ++ "'): failed to deserialize JSON: " ++ e))

theorem parseJson_eq_ok {key : String} {bytes : B} {v : Json} :
    F.parseJson key bytes = .ok v ↔ F.parse bytes = .ok v := by
  unfold parseJson
  cases F.parse bytes <;> simp [Except.mapError]

end Format

namespace ExactFormat
variable (F : ExactFormat B E)

theorem parse_rendered {v : Json} (h : v.depth ≤ RECURSION_LIMIT) : F.parse (F.render v) = .ok v := by
  rw [F.toFormat.parse_render v h, F.readBack_eq]

theorem of_parse_render {v w : Json} (h : F.parse (F.render v) = .ok w) : w = v := by
  rw [F.toFormat.of_parse_render h, F.readBack_eq]

theorem of_parse_compact {v w : Json} (h : F.parse (F.compact v) = .ok w) : w = v := by
  rw [F.toFormat.of_parse_compact h, F.readBack_eq]

/-- A format for runs on concrete documents: the bytes are the document and so is the etag. -/
def plain : ExactFormat Json Json where
  render := id
  compact := id
  parse v := if v.depth ≤ RECURSION_LIMIT then .ok v else .error "recursion limit exceeded"
  etagOf := id
  readBack := id
  parse_render _ h := if_pos h
  parse_compact _ h := if_pos h
  parse_render_deep _ h := ⟨_, if_neg (not_le.mpr h)⟩
  parse_compact_deep _ h := ⟨_, if_neg (not_le.mpr h)⟩
  readBack_eq _ := rfl
  render_injective := Function.injective_id

end ExactFormat

/-- The same, but a float is read as `readFloat` has it. -/
def SerdeFormat.plain (readFloat : UInt64 → UInt64) : SerdeFormat Json Json where
  render := id
  compact := id
  parse v :=
    if v.depth ≤ RECURSION_LIMIT then .ok (v.readBack readFloat) else .error "recursion limit exceeded"
  etagOf := id
  readBack := Json.readBack readFloat
  parse_render _ h := if_pos h
  parse_compact _ h := if_pos h
  parse_render_deep _ h := ⟨_, if_neg (not_le.mpr h)⟩
  parse_compact_deep _ h := ⟨_, if_neg (not_le.mpr h)⟩
  readFloat := readFloat
  readBack_eq _ := rfl

abbrev Format.plain : Format Json Json := ExactFormat.plain.toFormat

theorem Format.plain_tag_injective : Function.Injective plain.tag := fun _ _ h => h

section
variable {S : SerdeJson} {float : UInt64 → List Char} {number : List Char → Option Number}
  {readFloat : UInt64 → UInt64}

theorem fromStr_text (hS : S.ReadsDocuments number) (hnumber : ReadsNumbers float number readFloat)
    {v : Json} (h : v.depth ≤ RECURSION_LIMIT) :
    S.fromStr (v.text float) = .ok (v.readBack readFloat) := by
  have hreads : Reads number (v.text float).toList (v.readBack readFloat) := by
    refine ⟨v.symbols float, ?_, (means_readBack hnumber h).bare⟩
    rw [Json.text, String.toList_ofList, textOf_symbols]
  exact S.read_eq_some.mp (hS.read_iff.mpr hreads)

theorem fromStr_text_deep (hS : S.ReadsDocuments number)
    (hnumber : ReadsNumbers float number readFloat) {v : Json} (h : RECURSION_LIMIT < v.depth) :
    ∃ e, S.fromStr (v.text float) = .error e := by
  cases hread : S.fromStr (v.text float) with
  | error e => exact ⟨e, rfl⟩
  | ok w => exact absurd (hS.read_iff.mp (S.read_eq_some.mpr hread)) (not_reads_deep hnumber h)

/-- The stored bytes are the text of `serde_json::to_vec`. -/
def SerdeFormat.printed {E : Type} (hS : S.ReadsDocuments number)
    (hnumber : ReadsNumbers float number readFloat) (etagOf : String → E) : SerdeFormat String E where
  render := Json.text float
  compact := Json.text float
  parse := S.fromStr
  etagOf := etagOf
  readBack := Json.readBack readFloat
  parse_render _ := fromStr_text hS hnumber
  parse_compact _ := fromStr_text hS hnumber
  parse_render_deep _ := fromStr_text_deep hS hnumber
  parse_compact_deep _ := fromStr_text_deep hS hnumber
  readFloat := readFloat
  readBack_eq _ := rfl

end

/-- Here a float is read with its last bit cleared. -/
def clearLast (bits : UInt64) : UInt64 := bits &&& 0xFFFFFFFFFFFFFFFE

example : (SerdeFormat.printed (jsonReader_readsDocuments (isNumber_of_readNumeral clearLast))
    (readsNumbers_bitsText clearLast) id).parse
      (Json.text bitsText (.obj [("a", .arr [.num (.negInt (-3)), .num (.float 7)])])) =
    .ok (.obj [("a", .arr [.num (.negInt (-3)), .num (.float 6)])]) := by decide +kernel

/-- The stored objects. -/
abbrev Objects (B : Type) := SortedMap String B

namespace Format
variable (F : Format B E) [DecidableEq E]

def headOf (objects : Objects B) (key : String) : Option E := (objects.get key).map F.etagOf

/-- One atomic call of the backend. -/
def serve (objects : Objects B) : (c : StorageCall B E) → Objects B × c.Answer
  | .getJson key => (objects, match objects.get key with
      | some bytes => F.parseJson key bytes
      | none => .error (.storage (.notFound key)))
  | .putJson key value => (objects.insert key (F.render value), .ok ())
  | .putJsonIfEtagMatches key value expectedEtag =>
      if F.headOf objects key = expectedEtag then
        (objects.insert key (F.render value), .ok (.written (F.tag value)))
      else (objects, .ok (.conflict (F.headOf objects key)))
  | .getBytes key => (objects, match objects.get key with
      | some bytes => .ok bytes
      | none => .error (.storage (.notFound key)))
  | .putBytes key bytes _ => (objects.insert key bytes, .ok ())
  | .deleteObject key => (objects.erase key, .ok ())
  | .headEtag key => (objects, .ok (F.headOf objects key))
  | .listPrefix pre => (objects, .ok (objects.keys.filter pre.isPrefixOf))

end Format
end ReactRuntime.Storage
