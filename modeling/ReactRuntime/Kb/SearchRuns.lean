import ReactRuntime.Kb.IngestRuns
import ReactRuntime.Kb.Search

/-!
# What a search finds

Whatever has been done to a table, its rows in the collection are chunks of files that were read, each
with the vector that was answered for its text. A search gives the nearest of those of its dataset.
-/
namespace ReactRuntime.Kb
open ReactRuntime.Core Library Serde ReactRuntime.Vector

/-- A document is a chunk of a file that a call has found and read. -/
structure ChunkOfFile (lower : String → String) (env : IngestEnv) (args : Json) (d : KbDocDocument)
    (e : FileEntry) (text : String) (i : Nat) : Prop where
  found : ∃ dir entries, (args.get "dir").bind Json.asStr = some dir ∧
    env.root dir = .directory entries ∧ e ∈ entries
  taken : eligible lower (IngestArgs.of args).maxBytes e = true
  read : e.read = .ok text
  part : ∃ part, (chunkText text (IngestArgs.of args).chunkChars)[i]? = some part ∧
    d.text = "file: " ++ safeRel e ++ "\n\n" ++ part
  metadata : d.metadata = ⟨(IngestArgs.of args).datasetId, safeRel e, .ofNat i⟩

/-- The service has answered a vector for a text, in a batch with others. -/
def AnsweredFor (embed : Embed) (text : String) (vector : List UInt32) : Prop :=
  ∃ (n : Nat) (texts : List String) (vecs : List (List UInt32)) (i : Nat), embed n texts = .ok vecs ∧
    texts[i]? = some text ∧ vecs[i]? = some vector

theorem Embedded.answeredFor {embed : Embed} {docs : List KbDocDocument} {vectors : List (List UInt32)}
    (h : Embedded embed docs vectors) {j : Nat} {d : KbDocDocument} {v : List UInt32}
    (hd : docs[j]? = some d) (hv : vectors[j]? = some v) : AnsweredFor embed d.text v := by
  have hpos : 0 < batch := by decide
  have hj := (List.getElem?_eq_some_iff.mp hd).1
  have hsplit : j / batch * batch + j % batch = j := Nat.div_add_mod' j batch
  have hin : j % batch < batch := Nat.mod_lt j hpos
  have hanswer := h.batches (j / batch) (by omega)
  refine ⟨_, _, _, j % batch, hanswer, ?_, ?_⟩
  · rw [List.getElem?_map, List.getElem?_take_of_lt hin, List.getElem?_drop, hsplit, hd, Option.map_some]
  · rw [List.getElem?_take_of_lt hin, List.getElem?_drop, hsplit, hv]

/-- A stored row of the collection, and where it is from. -/
def StoredChunk (lower : String → String) (float : UInt64 → List Char) (calls : List (IngestEnv × Json))
    (row : Chunk) (d : KbDocDocument) : Prop :=
  row = d.intoRecord float ∧ ∃ call ∈ calls, (∃ e text i, ChunkOfFile lower call.1 call.2 d e text i) ∧
    AnsweredFor call.1.embed d.text d.vector

section
variable {lower : String → String} {float : UInt64 → List Char} {env : IngestEnv} {args : Json}

theorem Ingested.chunkOfFile {read : List (FileEntry × String)} {vectors : List (List UInt32)}
    (h : Ingested lower env args read vectors) {d : KbDocDocument}
    (hd : d ∈ documentsOfFiles (IngestArgs.of args) env.now read) (v : List UInt32) :
    ∃ e text i, ChunkOfFile lower env args (withVector d v) e text i := by
  obtain ⟨⟨e, text⟩, hfile, hmem⟩ := List.mem_flatMap.mp hd
  obtain ⟨⟨part, i⟩, hpart, rfl⟩ := List.mem_map.mp hmem
  obtain ⟨dir, entries, hdir, hroot, hfound⟩ := h.found
  have htaken := List.mem_of_mem_take (hfound ▸ List.mem_map_of_mem (f := Prod.fst) hfile)
  obtain ⟨hentry, heligible⟩ := List.mem_filter.mp htaken
  have hget := List.mem_zipIdx_iff_getElem?.mp hpart
  exact ⟨e, text, i, ⟨dir, entries, hdir, hroot, hentry⟩, heligible, h.texts _ hfile,
    ⟨part, hget, by rw [withVector]⟩, by rw [withVector]⟩

theorem Outcome.storedChunk {rows : List Chunk} {r : Except String Json}
    (h : Outcome lower float env args rows r) {row : Chunk} (hrow : row ∈ rows) :
    ∃ d, StoredChunk lower float [(env, args)] row d := by
  cases h with
  | failed err => cases hrow
  | @done read vectors v h hfiles hchunks =>
    obtain ⟨d', hd', rfl⟩ := List.mem_map.mp hrow
    obtain ⟨j, hj⟩ := List.mem_iff_getElem?.mp hd'
    obtain ⟨d, v', hd, hv, rfl⟩ := List.getElem?_zipWith_eq_some.mp hj
    have hfile := h.chunkOfFile (List.mem_of_getElem? hd) v'
    have hanswer := h.embedded.answeredFor hd hv
    exact ⟨withVector d v', rfl, _, List.mem_singleton_self _, hfile, hanswer⟩

end

/-- What a database can come to: calls that ingest, which are listed, batches of other collections, and
deletes of any rows. -/
inductive Grown (lower : String → String) (float : UInt64 → List Char) :
    List (IngestEnv × Json) → Database → Prop where
  | start : Grown lower float [] none
  | ingest {calls : List (IngestEnv × Json)} {db db' : Database} {env : IngestEnv} {args : Json}
      {r : Except String Json} (h : Grown lower float calls db) (hembed : env.embed.Bounded)
      (hcall : ingest lower float env args db = some (db', r)) :
      Grown lower float (calls ++ [(env, args)]) db'
  | other {calls : List (IngestEnv × Json)} {db : Database} {rows : List Chunk}
      (h : Grown lower float calls db) (hrows : ∀ row ∈ rows, row.namespace ≠ NAMESPACE) :
      Grown lower float calls (LanceDbStore.upsert db rows).1
  | delete {calls : List (IngestEnv × Json)} {table kept : Table}
      (h : Grown lower float calls (some table)) (hkept : kept.Sublist table) :
      Grown lower float calls (some kept)

theorem mem_stored {db : Database} {rows : List Chunk} {row : Chunk}
    (h : row ∈ (stored db rows).getD []) : row ∈ db.getD [] ∨ row ∈ rows := by
  unfold stored at h
  split_ifs at h
  · exact .inl h
  · cases db <;> simp_all

theorem mem_upsert {db : Database} {rows : List Chunk} {row : Chunk}
    (h : row ∈ (LanceDbStore.upsert db rows).1.getD []) : row ∈ db.getD [] ∨ row ∈ rows := by
  cases hupsert : LanceDbStore.upsert db rows with
  | mk db' r =>
    rw [hupsert] at h
    cases r with
    | error err => exact .inl (upsert_error hupsert ▸ h)
    | ok u => exact mem_stored ((upsert_ok hupsert).1 ▸ h)

theorem StoredChunk.mono {lower : String → String} {float : UInt64 → List Char}
    {calls calls' : List (IngestEnv × Json)} {row : Chunk} {d : KbDocDocument}
    (h : StoredChunk lower float calls row d) (hsub : calls ⊆ calls') :
    StoredChunk lower float calls' row d := by
  obtain ⟨hrow, call, hcall, hfrom⟩ := h
  exact ⟨hrow, call, hsub hcall, hfrom⟩

/-- The rows of the collection are from files. -/
theorem Grown.storedChunk {lower : String → String} {float : UInt64 → List Char}
    {calls : List (IngestEnv × Json)} {db : Database} (h : Grown lower float calls db) :
    ∀ row ∈ db.getD [], row.namespace = NAMESPACE → ∃ d, StoredChunk lower float calls row d := by
  induction h with
  | start => exact nofun
  | @ingest calls db db' env args r h hembed hcall ih =>
    obtain ⟨rows, r', hspec, houtcome⟩ := @ingest_spec lower float env hembed args db
    obtain ⟨rfl, rfl⟩ := Prod.mk.inj (Option.some.inj (hspec.symm.trans hcall))
    intro row hrow hname
    rcases mem_stored hrow with hold | hnew
    · obtain ⟨d, hd⟩ := ih row hold hname
      exact ⟨d, hd.mono (List.subset_append_left ..)⟩
    · obtain ⟨d, hd⟩ := houtcome.storedChunk hnew
      exact ⟨d, hd.mono (List.subset_append_right ..)⟩
  | other h hrows ih =>
    intro row hrow hname
    rcases mem_upsert hrow with hold | hnew
    · exact ih row hold hname
    · exact absurd hname (hrows row hnew)
  | delete h hkept ih => exact fun row hrow => ih row (hkept.subset hrow)

/-- A row is a chunk of a dataset. -/
def inDataset (S : SerdeJson) (datasetId : String) (row : Chunk) : Bool :=
  ((KbDocDocument.fromRecord S row).toOption.any (·.metadata.datasetId = datasetId))

section
variable {D : Type} [LinearOrder D] [Zero D] {S : SerdeJson} {number : List Char → Option Number}
  {C : Columns D} {scoreJson : D → Json} {lower : String → String} {float : UInt64 → List Char}
  {calls : List (IngestEnv × Json)} {db : Database}

/-- What a search answers for a row. -/
def answerOf (S : SerdeJson) (C : Columns D) (scoreJson : D → Json) (queryVec : List UInt32)
    (row : Chunk) : Option Json :=
  (KbDocDocument.fromRecord S row).toOption.map fun d =>
    ScoredDocument.json scoreJson ⟨d, C.distance queryVec row⟩

/-- The rows that an answer is about. -/
def Answers (S : SerdeJson) (C : Columns D) (scoreJson : D → Json) (queryVec : List UInt32)
    (rows : List Chunk) (r : Except String Json) : Prop :=
  r = .ok (.object [("ok", .bool true), ("items", .arr (rows.filterMap (answerOf S C scoreJson queryVec)))])

/-- A query that is not blank, and its vector. -/
structure Asked (env : SearchEnv) (a : SearchArgs) (queryVec : List UInt32) : Prop where
  query : trim a.query ≠ ""
  provider : env.hasVector = true
  embedded : ∃ vecs, env.embed [a.query] = .ok vecs ∧ vecs.getLast? = some queryVec
  nonempty : queryVec ≠ []

theorem sortBy_map {α β κ : Type} [LinearOrder κ] (key : β → κ) (f : α → β) (xs : List α) :
    sortBy key (xs.map f) = (sortBy (fun a => key (f a)) xs).map f :=
  (List.map_mergeSort (f := f) fun _ _ _ _ => rfl).symm

theorem search_asked {env : SearchEnv} {args : Json} {queryVec : List UInt32}
    (h : Asked env (SearchArgs.of args) queryVec) (db : Database) :
    search S C scoreJson env args db =
      (queryTypedDocuments S C env.search db queryVec ((SearchArgs.of args).k * 5 % 2 ^ 64)).map fun hits =>
        .object [("ok", .bool true), ("items", .arr ((bestOf (SearchArgs.of args).datasetId
          (SearchArgs.of args).k hits).map (·.json scoreJson)))] := by
  obtain ⟨vecs, hembed, hlast⟩ := h.embedded
  have hprovider : (!env.hasVector) = false := by rw [h.provider]; rfl
  simp only [search, if_neg h.query, hprovider, hembed, hlast, Option.getD_some, if_neg h.nonempty]
  cases queryTypedDocuments S C env.search db queryVec ((SearchArgs.of args).k * 5 % 2 ^ 64) <;> rfl

/-- A document as a query gives it. -/
def scored (C : Columns D) (float : UInt64 → List Char) (queryVec : List UInt32) (d : KbDocDocument) :
    ScoredDocument D := ⟨withVector d [], C.distance queryVec (d.intoRecord float)⟩

section
variable (hS : S.ReadsDocuments number) (hnumber : ReadsNaturals number) (queryVec : List UInt32)
include hS hnumber

omit [LinearOrder D] [Zero D] in
theorem answerOf_intoRecord (d : KbDocDocument) :
    answerOf S C scoreJson queryVec (d.intoRecord float) =
      some ((scored C float queryVec d).json scoreJson) := by
  rw [answerOf, KbDocDocument.fromRecord_intoRecord hS hnumber]
  rfl

theorem inDataset_intoRecord (datasetId : String) (d : KbDocDocument) :
    inDataset S datasetId (d.intoRecord float) = decide (d.metadata.datasetId = datasetId) := by
  rw [inDataset, KbDocDocument.fromRecord_intoRecord hS hnumber]
  rfl

omit [LinearOrder D] [Zero D] in
theorem readHits_records (docs : List KbDocDocument) :
    readHits S (docs.map fun d => hit C queryVec (d.intoRecord float)) =
      .ok (docs.map (scored C float queryVec)) := by
  induction docs with
  | nil => rfl
  | cons d docs ih =>
    have hread : KbDocDocument.fromRecord S (hit C queryVec (d.intoRecord float)).item =
        .ok (withVector d []) := KbDocDocument.fromRecord_intoRecord hS hnumber float (withVector d [])
    rw [List.map_cons, readHits, hread, ih]
    rfl

/-- The rows of the collection among those that were found, in the order in which they are answered. -/
def bestRows (S : SerdeJson) (C : Columns D) (queryVec : List UInt32) (a : SearchArgs) (found : Table) :
    Table :=
  (sortBy (C.distance queryVec) ((sortBy (C.distance queryVec)
    (found.filter (inNamespace NAMESPACE))).filter (inDataset S a.datasetId))).take a.k

theorem search_rows (hC : C.Lawful) {env : SearchEnv} {args : Json}
    (hasked : Asked env (SearchArgs.of args) queryVec) {table found : Table}
    (hfound : env.search table queryVec ((SearchArgs.of args).k * 5 % 2 ^ 64) = .ok found)
    {docs : List KbDocDocument}
    (hdocs : found.filter (inNamespace NAMESPACE) = docs.map (KbDocDocument.intoRecord float)) :
    Answers S C scoreJson queryVec (bestRows S C queryVec (SearchArgs.of args) found)
      (search S C scoreJson env args (some table)) := by
  let score d := C.distance queryVec (KbDocDocument.intoRecord float d)
  have hsorted : sortBy (C.distance queryVec) (docs.map (KbDocDocument.intoRecord float)) =
      (sortBy score docs).map (KbDocDocument.intoRecord float) := sortBy_map _ _ docs
  have hhits : queryTypedDocuments S C env.search (some table) queryVec
      ((SearchArgs.of args).k * 5 % 2 ^ 64) =
        .ok ((sortBy score docs).map (scored C float queryVec)) := by
    rw [queryTypedDocuments, query_eq hC hfound, hdocs, ← sortBy, hsorted, List.map_map]
    exact readHits_records hS hnumber queryVec (sortBy score docs)
  have hrows : bestRows S C queryVec (SearchArgs.of args) found =
      ((sortBy score ((sortBy score docs).filter
        (·.metadata.datasetId = (SearchArgs.of args).datasetId))).take (SearchArgs.of args).k).map
          (KbDocDocument.intoRecord float) := by
    have hfilter : inDataset S (SearchArgs.of args).datasetId ∘ KbDocDocument.intoRecord float =
        fun d => decide (d.metadata.datasetId = (SearchArgs.of args).datasetId) :=
      funext fun d => inDataset_intoRecord hS hnumber _ d
    rw [bestRows, hdocs, hsorted, List.filter_map, hfilter, sortBy_map, List.map_take]
  have hbest : bestOf (SearchArgs.of args).datasetId (SearchArgs.of args).k
      ((sortBy score docs).map (scored C float queryVec)) =
        ((sortBy score ((sortBy score docs).filter
          (·.metadata.datasetId = (SearchArgs.of args).datasetId))).take (SearchArgs.of args).k).map
            (scored C float queryVec) := by
    rw [bestOf, List.filter_map, sortBy_map, List.map_take]
    rfl
  have hanswer : answerOf S C scoreJson queryVec ∘ KbDocDocument.intoRecord float =
      fun d => some ((scored C float queryVec d).json scoreJson) :=
    funext fun d => answerOf_intoRecord hS hnumber queryVec d
  rw [Answers, search_asked hasked, hhits, hrows, List.filterMap_map, hanswer, List.filterMap_eq_map']
  simp only [Except.map, hbest, List.map_map]
  rfl

end

theorem search_none {env : SearchEnv} {args : Json} {queryVec : List UInt32}
    (h : Asked env (SearchArgs.of args) queryVec) :
    Answers S C scoreJson queryVec [] (search S C scoreJson env args none) := by
  rw [Answers, search_asked h]
  simp [queryTypedDocuments, LanceDbStore.query, LanceDbStore.queryV2, readHits, bestOf, sortBy, pure,
    Except.pure, bind, Except.bind, Except.map]

theorem inNamespace_of_inDataset {datasetId : String} {row : Chunk}
    (h : inDataset S datasetId row = true) : inNamespace NAMESPACE row = true := by
  by_contra hother
  have hname : row.namespace ≠ NAMESPACE := by simpa [inNamespace] using hother
  simp [inDataset, KbDocDocument.fromRecord, hname, Except.toOption] at h

omit [Zero D] in
theorem perm_sorted (queryVec : List UInt32) (datasetId : String) (found : Table) :
    (sortBy (C.distance queryVec) ((sortBy (C.distance queryVec)
      (found.filter (inNamespace NAMESPACE))).filter (inDataset S datasetId))).Perm
        (found.filter (inDataset S datasetId)) := by
  have hfilter : (found.filter (inNamespace NAMESPACE)).filter (inDataset S datasetId) =
      found.filter (inDataset S datasetId) := by
    rw [List.filter_filter]
    refine List.filter_congr fun row _ => ?_
    rw [Bool.eq_iff_iff, Bool.and_eq_true]
    exact ⟨And.left, fun h => ⟨h, inNamespace_of_inDataset h⟩⟩
  rw [← hfilter]
  exact (sortBy_perm _ _).trans ((sortBy_perm _ _).filter _)

theorem exists_docs {rows : Table} (h : ∀ row ∈ rows, ∃ d, row = KbDocDocument.intoRecord float d) :
    ∃ docs : List KbDocDocument, rows = docs.map (KbDocDocument.intoRecord float) := by
  induction rows with
  | nil => exact ⟨[], rfl⟩
  | cons row rows ih =>
    obtain ⟨⟨d, rfl⟩, hrest⟩ := List.forall_mem_cons.mp h
    obtain ⟨docs, rfl⟩ := ih hrest
    exact ⟨d :: docs, rfl⟩

/-- Over any table that there can be, an answer is about the best of the rows that the engine found. -/
theorem Grown.search_rows (h : Grown lower float calls db) (hS : S.ReadsDocuments number)
    (hnumber : ReadsNaturals number) (hC : C.Lawful) {env : SearchEnv}
    {args : Json} (hsearch : env.search.FindsNearest C.distance ((SearchArgs.of args).k * 5 % 2 ^ 64))
    {queryVec : List UInt32} (hasked : Asked env (SearchArgs.of args) queryVec) : ∃ found,
      IsNearest (C.distance queryVec) ((SearchArgs.of args).k * 5 % 2 ^ 64) (db.getD []) found ∧
        Answers S C scoreJson queryVec (bestRows S C queryVec (SearchArgs.of args) found)
          (search S C scoreJson env args db) := by
  cases hdb : db with
  | none =>
    refine ⟨[], ⟨by simp, [], by simp⟩, ?_⟩
    simpa [bestRows, sortBy] using search_none hasked
  | some table =>
    obtain ⟨found, hfound, hnearest⟩ := hsearch table queryVec
    obtain ⟨left, hleft, -⟩ := hnearest.left_farther
    have hdocs : ∀ row ∈ found.filter (inNamespace NAMESPACE), ∃ d,
        row = KbDocDocument.intoRecord float d := by
      intro row hrow
      obtain ⟨hin, hname⟩ := List.mem_filter.mp hrow
      have htable : row ∈ db.getD [] := hdb ▸ hleft.subset (List.mem_append_left left hin)
      obtain ⟨d, hd, -⟩ := h.storedChunk row htable (of_decide_eq_true hname)
      exact ⟨d, hd⟩
    obtain ⟨docs, hdocs⟩ := exists_docs hdocs
    exact ⟨found, hnearest, Kb.search_rows hS hnumber queryVec hC hasked hfound hdocs⟩

end

def notesRow : Chunk where
  id := "kb_doc:kb:docs/notes.md:0"
  «namespace» := "kb_doc"
  text := "file: docs/notes.md\n\nhello"
  vector := [0x3f800000]
  metadataJson := "\x7b\"dataset_id\":\"kb\",\"path\":\"docs/notes.md\",\"chunk_index\":0\x7d"
  epoch := 1

/-- The batch that creates the table is in it twice. -/
theorem grown_notes : Grown id (fun _ => []) [notesCall (.ok "hello")] (some [notesRow, notesRow]) := by
  have hcall : (ingest id (fun _ => []) (notesEnv (.ok "hello")) (notesCall (.ok "hello")).2 none).map
      Prod.fst = some (some [notesRow, notesRow]) := by decide +kernel
  obtain ⟨⟨db, r⟩, hingest, rfl⟩ := Option.map_eq_some_iff.mp hcall
  exact .ingest .start (notesEnv_bounded _) hingest

def notesSearch : SearchEnv where
  hasVector := true
  embed texts := .ok (texts.map fun _ => [0x3f800000])
  search := othersFirst differing NAMESPACE

def notesQuery : Json := .object [("query", .str "hello"), ("k", jsonNat 1)]

theorem asked_notes : Asked notesSearch (SearchArgs.of notesQuery) [0x3f800000] where
  query := by decide +kernel
  provider := rfl
  embedded := ⟨_, rfl, rfl⟩
  nonempty := List.cons_ne_nil _ _

section
variable {D : Type} [LinearOrder D] [Zero D] {S : SerdeJson} {number : List Char → Option Number}
  (hS : S.ReadsDocuments number) (hnumber : ReadsNaturals number) {C : Columns D} (hC : C.Lawful)
  (scoreJson : D → Json) {lower : String → String} {float : UInt64 → List Char}
  {calls : List (IngestEnv × Json)} {db : Database} (hdb : Grown lower float calls db)
  {env : SearchEnv} {args : Json}
  (hsearch : env.search.FindsNearest C.distance ((SearchArgs.of args).k * 5 % 2 ^ 64))
  {queryVec : List UInt32} (hasked : Asked env (SearchArgs.of args) queryVec)
include hS hnumber hC hdb hsearch hasked

/-- Whatever has been stored and deleted, a search does not fail on a row, and all that it answers is
from files: chunks of the dataset, each of a file that a call has read, with its place in the file and
its distance from the vector that was answered for it. -/
theorem kb_search_faithful : ∃ rows,
    Answers S C scoreJson queryVec rows (search S C scoreJson env args db) ∧
      rows.length ≤ (SearchArgs.of args).k ∧
      rows.Pairwise (fun a b => C.distance queryVec a ≤ C.distance queryVec b) ∧
      ∀ row ∈ rows, row ∈ db.getD [] ∧ ∃ d, StoredChunk lower float calls row d ∧
        d.metadata.datasetId = (SearchArgs.of args).datasetId ∧
        answerOf S C scoreJson queryVec row = some ((scored C float queryVec d).json scoreJson) := by
  obtain ⟨found, hnearest, hanswer⟩ := hdb.search_rows hS hnumber hC hsearch hasked
  obtain ⟨left, hleft, -⟩ := hnearest.left_farther
  refine ⟨_, hanswer, List.length_take_le _ _, (pairwise_sortBy _ _).sublist (List.take_sublist _ _),
    fun row hrow => ?_⟩
  have hfound := (perm_sorted queryVec _ found).mem_iff.mp (List.mem_of_mem_take hrow)
  obtain ⟨hin, hdataset⟩ := List.mem_filter.mp hfound
  have htable := hleft.subset (List.mem_append_left left hin)
  obtain ⟨d, hd⟩ := hdb.storedChunk row htable (of_decide_eq_true (inNamespace_of_inDataset hdataset))
  obtain ⟨rfl, hfrom⟩ := hd
  rw [inDataset_intoRecord hS hnumber, decide_eq_true_eq] at hdataset
  exact ⟨htable, d, ⟨rfl, hfrom⟩, hdataset, answerOf_intoRecord hS hnumber queryVec d⟩

/-- As long as the other rows of the table are not more than four times as many as are wanted, the answer
is about the nearest rows of the dataset. -/
theorem kb_search_nearest (hk : (SearchArgs.of args).k * 5 < 2 ^ 64)
    (hothers : ((db.getD []).filter fun row => !inDataset S (SearchArgs.of args).datasetId row).length ≤
      4 * (SearchArgs.of args).k) :
    ∃ rows, Answers S C scoreJson queryVec rows (search S C scoreJson env args db) ∧
      rows.Pairwise (fun a b => C.distance queryVec a ≤ C.distance queryVec b) ∧
      IsNearest (C.distance queryVec) (SearchArgs.of args).k
        ((db.getD []).filter (inDataset S (SearchArgs.of args).datasetId)) rows := by
  obtain ⟨found, hnearest, hanswer⟩ := hdb.search_rows hS hnumber hC hsearch hasked
  rw [Nat.mod_eq_of_lt hk] at hnearest
  have henough := hnearest.le_length_filter (k := (SearchArgs.of args).k)
    (p := inDataset S (SearchArgs.of args).datasetId) (by omega)
  exact ⟨_, hanswer, (pairwise_sortBy _ _).sublist (List.take_sublist _ _),
    hnearest.take_sorted henough (perm_sorted queryVec _ found) (pairwise_sortBy _ _)⟩

end

theorem kb_search_faithful_notes : ∃ rows,
    Answers (jsonReader readNatural) binaryColumns jsonNat [0x3f800000] rows
        (search (jsonReader readNatural) binaryColumns jsonNat notesSearch notesQuery
          (some [notesRow, notesRow])) ∧
      rows.length ≤ (SearchArgs.of notesQuery).k ∧
      rows.Pairwise (fun a b => differing [0x3f800000] a ≤ differing [0x3f800000] b) ∧
      ∀ row ∈ rows, row ∈ [notesRow, notesRow] ∧ ∃ d,
        StoredChunk id (fun _ => []) [notesCall (.ok "hello")] row d ∧
        d.metadata.datasetId = (SearchArgs.of notesQuery).datasetId ∧
        answerOf (jsonReader readNatural) binaryColumns jsonNat [0x3f800000] row =
          some ((scored binaryColumns (fun _ => []) [0x3f800000] d).json jsonNat) :=
  kb_search_faithful (jsonReader_readsDocuments isNumber_of_readNatural) readNatural_readsNaturals
    binaryColumns_lawful jsonNat grown_notes (findsNearest_othersFirst differing NAMESPACE _) asked_notes

theorem kb_search_nearest_notes : ∃ rows,
    Answers (jsonReader readNatural) binaryColumns jsonNat [0x3f800000] rows
        (search (jsonReader readNatural) binaryColumns jsonNat notesSearch notesQuery
          (some [notesRow, notesRow])) ∧
      rows.Pairwise (fun a b => differing [0x3f800000] a ≤ differing [0x3f800000] b) ∧
      IsNearest (differing [0x3f800000]) (SearchArgs.of notesQuery).k ([notesRow, notesRow].filter
        (inDataset (jsonReader readNatural) (SearchArgs.of notesQuery).datasetId)) rows :=
  kb_search_nearest (jsonReader_readsDocuments isNumber_of_readNatural) readNatural_readsNaturals
    binaryColumns_lawful jsonNat grown_notes (findsNearest_othersFirst differing NAMESPACE _) asked_notes
    (by decide +kernel) (by decide +kernel)

end ReactRuntime.Kb
