import Mathlib.Data.String.Basic
import ReactRuntime.Kb.Chunking
import ReactRuntime.Serde.Printer
import ReactRuntime.Vector.LanceStore

/-!
# Ingesting a directory

The texts of a directory are read and cut into chunks, the chunks are embedded in batches, and all of
them are stored at once. Where a file cannot be read or a batch cannot be embedded nothing is stored.
-/
namespace ReactRuntime.Kb
open ReactRuntime.Core Library Serde ReactRuntime.Vector

structure KbDocMetadata where
  datasetId : String
  path : String
  chunkIndex : UInt64
deriving DecidableEq, Repr

def NAMESPACE : String := "kb_doc"

/-- A document of the collection. A vector component is kept as the bit pattern of its `f32`. -/
structure KbDocDocument where
  id : String
  text : String
  vector : List UInt32
  epoch : UInt64
  metadata : KbDocMetadata
deriving DecidableEq, Repr

/-- The fields of the metadata, in the order in which they are printed. -/
def KbDocMetadata.fields (m : KbDocMetadata) : Fields :=
  [("dataset_id", .str m.datasetId), ("path", .str m.path), ("chunk_index", .num (.posInt m.chunkIndex))]

/-- How a float is printed is of no matter: there is none. -/
def KbDocMetadata.text (float : UInt64 → List Char) (m : KbDocMetadata) : String :=
  (Json.obj m.fields).text float

def KbDocDocument.intoRecord (float : UInt64 → List Char) (d : KbDocDocument) : Chunk :=
  ⟨d.id, NAMESPACE, d.text, d.vector, d.metadata.text float, d.epoch⟩

/-- What the walk finds: a path below the root, the size if there is one to be had, and what reading
the file as text gives. -/
structure FileEntry where
  components : List String
  isFile : Bool
  size : Option Nat
  read : Except String String

/-- A path that a call names. -/
inductive Root where
  | missing
  | notDirectory
  | directory (entries : List FileEntry)

/-- `Path::extension`. -/
def extension (fileName : String) : Option String :=
  (beforeRfind fileName ".").bind fun stem =>
    if stem = "" then none else some (.ofList (fileName.toList.drop (stem.toList.length + 1)))

def asU64 : Json → Option UInt64
  | .num (.posInt n) => some n
  | _ => none

/-- The path below the root, as it is stored. -/
def safeRel (e : FileEntry) : String :=
  (joinChar '/' e.components).map fun c => if c = '\\' then '/' else c

section
variable (lower : String → String)

/-- `lower` is `str::to_lowercase`. -/
def isTextFile (e : FileEntry) : Bool :=
  ["txt", "md", "markdown", "rst"].contains
    (lower (((e.components.getLast?.bind extension)).getD ""))

/-- The loop over the entries; `files` are those that are taken so far. -/
def collectFiles (maxFiles maxBytes : Nat) : List FileEntry → (files : List FileEntry) → List FileEntry
  | [], files => files
  | e :: entries, files =>
    if files.length ≥ maxFiles then files
    else if !e.isFile then collectFiles maxFiles maxBytes entries files
    else if !isTextFile lower e then collectFiles maxFiles maxBytes entries files
    else if e.size.any (· > maxBytes) then collectFiles maxFiles maxBytes entries files
    else collectFiles maxFiles maxBytes entries (files ++ [e])

end

/-- The documents of a text, without their vectors. -/
def documentsOf (datasetId rel : String) (epoch : UInt64) (chunkChars : Nat) (text : String) :
    List KbDocDocument :=
  (chunkText text chunkChars).zipIdx.map fun (part, i) =>
    { id := "kb_doc:" ++ datasetId ++ ":" ++ rel ++ ":" ++ toString i
      text := "file: " ++ rel ++ "\n\n" ++ part
      vector := []
      epoch := epoch
      metadata := ⟨datasetId, rel, .ofNat i⟩ }

/-- The loop over the files, up to the first that cannot be read. -/
def readDocuments (datasetId : String) (epoch : UInt64) (chunkChars : Nat) :
    List FileEntry → Except String (List KbDocDocument)
  | [] => .ok []
  | e :: files =>
    match e.read with
    | .error err => .error ("read " ++ safeRel e ++ ": " ++ err)
    | .ok text => (readDocuments datasetId epoch chunkChars files).map
        (documentsOf datasetId (safeRel e) epoch chunkChars text ++ ·)

/-- The answers to one batch are put into the documents from `idx` on; `none` is the panic of an index
that is out of bounds. -/
def setVectors : (idx : Nat) → List (List UInt32) → List KbDocDocument → Option (List KbDocDocument)
  | _, [], docs => some docs
  | idx, v :: vecs, docs =>
    if idx < docs.length then setVectors (idx + 1) vecs (docs.modify idx ({ · with vector := v }))
    else none

theorem length_setVectors {idx : Nat} {vecs : List (List UInt32)} {docs docs' : List KbDocDocument}
    (h : setVectors idx vecs docs = some docs') : docs'.length = docs.length := by
  induction vecs generalizing idx docs with
  | nil =>
    cases h
    rfl
  | cons v vecs ih =>
    rw [setVectors] at h
    split at h
    · rw [ih h, List.length_modify]
    · cases h

def batch : Nat := 64

/-- What the embedding service answers to the texts of the `n`-th batch. -/
abbrev Embed := (n : Nat) → List String → Except String (List (List UInt32))

/-- The loop over the batches, from document `idx` on. -/
def embedLoop (embed : Embed) (n idx : Nat) (docs : List KbDocDocument) :
    Option (Except String (List KbDocDocument)) :=
  if hidx : idx < docs.length then
    let stop := min (idx + batch) docs.length
    match embed n (((docs.take stop).drop idx).map (·.text)) with
    | .error err => some (.error ("embed failed: " ++ err))
    | .ok vecs =>
      match hset : setVectors idx vecs docs with
      | none => none
      | some docs' =>
        have : docs'.length - stop < docs.length - idx := by
          rw [length_setVectors hset]
          unfold stop batch
          omega
        embedLoop embed (n + 1) stop docs'
  else some (.ok docs)
termination_by docs.length - idx

structure IngestEnv where
  root : String → Root
  now : UInt64
  hasVector : Bool
  embed : Embed

/-- The arguments of a call with their defaults. -/
structure IngestArgs where
  datasetId : String
  maxFiles : Nat
  maxBytes : Nat
  chunkChars : Nat

def numberArg (args : Json) (key : String) (default : Nat) : Nat :=
  (((args.get key).bind asU64).map UInt64.toNat).getD default

def IngestArgs.of (args : Json) : IngestArgs where
  datasetId := ((args.get "dataset_id").bind Json.asStr).getD "kb"
  maxFiles := numberArg args "max_files" 200
  maxBytes := numberArg args "max_bytes" 2000000
  chunkChars := numberArg args "chunk_chars" 1200

def jsonNat (n : Nat) : Json := .num (.posInt (.ofNat n))

/-- The store is a trait object; it is fixed to the lance store, as the documentation states, although
only the store of a test implements the trait. -/
def upsertTypedDocuments (float : UInt64 → List Char) (db : Database) (docs : List KbDocDocument) :
    Database × Except String Unit :=
  LanceDbStore.upsert db (docs.map (KbDocDocument.intoRecord float))

section
variable (lower : String → String) (float : UInt64 → List Char)

/-- What a call does once the files are found; `none` is a panic. -/
def ingestFiles (env : IngestEnv) (a : IngestArgs) (files : List FileEntry) (db : Database) :
    Option (Database × Except String Json) :=
  match readDocuments a.datasetId env.now a.chunkChars files with
  | .error err => some (db, .error err)
  | .ok docs => (embedLoop env.embed 0 0 docs).map fun embedded =>
    match embedded with
    | .error err => (db, .error err)
    | .ok docs =>
      match upsertTypedDocuments float db docs with
      | (db, .error err) => (db, .error err)
      | (db, .ok ()) => (db, .ok (.object [("ok", .bool true), ("dataset_id", .str a.datasetId),
          ("ingested_files", jsonNat files.length), ("ingested_chunks", jsonNat docs.length)]))

/-- `KbIngestDirTool::call`. -/
def ingest (env : IngestEnv) (args : Json) (db : Database) : Option (Database × Except String Json) :=
  match (args.get "dir").bind Json.asStr with
  | none => some (db, .error "missing field `dir`")
  | some dir =>
    let a := IngestArgs.of args
    match env.root dir with
    | .missing => some (db, .error ("dir does not exist: " ++ dir))
    | .notDirectory => some (db, .error ("not a directory: " ++ dir))
    | .directory entries =>
      if !env.hasVector then some (db, .error "vector provider missing")
      else
        match collectFiles lower a.maxFiles a.maxBytes entries [] with
        | [] => some (db, .ok (.object [("ok", .bool true), ("dataset_id", .str a.datasetId),
            ("ingested_files", jsonNat 0), ("ingested_chunks", jsonNat 0),
            ("note", .str "no eligible files found")]))
        | files => ingestFiles float env a files db

end
end ReactRuntime.Kb
