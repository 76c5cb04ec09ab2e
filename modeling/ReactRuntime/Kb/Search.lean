import ReactRuntime.Kb.Ingest
import ReactRuntime.Serde.PrintedDocuments
import ReactRuntime.Vector.Query

/-!
# Searching the collection

A query is embedded and the nearest rows of the whole table are asked for, five times as many as are
wanted. The rows of the collection are read back as documents, and those of a dataset are kept.
-/
namespace ReactRuntime.Kb
open ReactRuntime.Core Library Serde ReactRuntime.Vector

def KbDocMetadata.ofJson (v : Json) : Except String KbDocMetadata := do
  let fs ← De.fields v
  let datasetId ← De.field "dataset_id" De.str fs
  let path ← De.field "path" De.str fs
  let chunkIndex ← De.field "chunk_index" De.u64 fs
  return ⟨datasetId, path, chunkIndex⟩

def KbDocDocument.fromRecord (S : SerdeJson) (record : Chunk) : Except String KbDocDocument :=
  if record.namespace ≠ NAMESPACE then
    .error ("namespace mismatch: expected '" ++ NAMESPACE ++ "' but found '" ++ record.namespace ++ "'")
  else do
    let metadata ← KbDocMetadata.ofJson (← S.fromStr record.metadataJson)
    return ⟨record.id, record.text, record.vector, record.epoch, metadata⟩

structure ScoredDocument (D : Type) where
  item : KbDocDocument
  score : D

structure SearchEnv where
  hasVector : Bool
  embed : List String → Except String (List (List UInt32))
  search : VectorSearch

/-- The arguments of a call with their defaults. -/
structure SearchArgs where
  query : String
  k : Nat
  datasetId : String

def SearchArgs.of (args : Json) : SearchArgs where
  query := ((args.get "query").bind Json.asStr).getD ""
  k := numberArg args "k" 8
  datasetId := ((args.get "dataset_id").bind Json.asStr).getD "kb"

section
variable {D : Type} [LinearOrder D] [Zero D] (S : SerdeJson) (C : Columns D)
  (scoreJson : D → Json)

/-- The loop over the hits, up to the first that cannot be read. -/
def readHits : List (ScoredChunk D) → Except String (List (ScoredDocument D))
  | [] => .ok []
  | hit :: hits =>
    match KbDocDocument.fromRecord S hit.item with
    | .error e => .error e
    | .ok item => (readHits hits).map (⟨item, hit.score⟩ :: ·)

/-- The store is fixed to the lance store, as in `upsertTypedDocuments`. -/
def queryTypedDocuments (search : VectorSearch) (db : Database) (queryVec : List UInt32) (k : Nat) :
    Except String (List (ScoredDocument D)) :=
  match LanceDbStore.query C search db queryVec k (some NAMESPACE) with
  | .error e => .error e
  | .ok hits => readHits S hits

def ScoredDocument.json (hit : ScoredDocument D) : Json :=
  .object [("dataset_id", .str hit.item.metadata.datasetId), ("text", .str hit.item.text),
    ("score", scoreJson hit.score),
    ("meta", .object [("path", .str hit.item.metadata.path),
      ("chunk_index", .num (.posInt hit.item.metadata.chunkIndex))])]

/-- The hits of a dataset, sorted, and as many as are wanted. -/
def bestOf (datasetId : String) (k : Nat) (hits : List (ScoredDocument D)) : List (ScoredDocument D) :=
  (sortBy ScoredDocument.score (hits.filter (·.item.metadata.datasetId = datasetId))).take k

/-- `KbSearchTool::call`. -/
def search (env : SearchEnv) (args : Json) (db : Database) : Except String Json :=
  let a := SearchArgs.of args
  if trim a.query = "" then .error "query is required"
  else if !env.hasVector then .error "vector provider missing"
  else
    match env.embed [a.query] with
    | .error e => .error ("embed failed: " ++ e)
    | .ok vecs =>
      let qv := vecs.getLast?.getD []
      if qv = [] then .error "empty embedding vector"
      else
        match queryTypedDocuments S C env.search db qv (a.k * 5 % 2 ^ 64) with
        | .error e => .error e
        | .ok hits => .ok (.object [("ok", .bool true),
            ("items", .arr ((bestOf a.datasetId a.k hits).map (·.json scoreJson)))])

end

section
variable {S : SerdeJson} {number : List Char → Option Number}

theorem KbDocMetadata.ofJson_fields (m : KbDocMetadata) : ofJson (.object m.fields) = .ok m := by
  simp [ofJson, fields]

theorem KbDocMetadata.reads_text (hS : S.ReadsDocuments number) (hnumber : ReadsNaturals number)
    (float : UInt64 → List Char) (m : KbDocMetadata) :
    S.read (m.text float) = some (.object m.fields) := by
  rw [hS.read_iff]
  apply reads_fields
  intro f hf
  simp only [fields, List.mem_cons, List.not_mem_nil, or_false] at hf
  rcases hf with rfl | rfl | rfl
  · exact .str _
  · exact .str _
  · exact .num (hS.isNumber (hnumber _)) (hnumber _)

/-- A document is read back from its record. -/
theorem KbDocDocument.fromRecord_intoRecord (hS : S.ReadsDocuments number)
    (hnumber : ReadsNaturals number) (float : UInt64 → List Char) (d : KbDocDocument) :
    fromRecord S (d.intoRecord float) = .ok d := by
  have hread := SerdeJson.read_eq_some.mp (d.metadata.reads_text hS hnumber float)
  simp [fromRecord, intoRecord, hread, KbDocMetadata.ofJson_fields]

end

end ReactRuntime.Kb
