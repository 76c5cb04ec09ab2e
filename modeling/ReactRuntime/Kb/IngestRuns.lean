import ReactRuntime.Kb.Ingest

/-!
# What an ingestion stores

A call that succeeds has stored every chunk of every file it found, each with the vector that was
answered for its own text; a call that fails has stored nothing.
-/
namespace ReactRuntime.Kb
open ReactRuntime.Core Library Serde ReactRuntime.Vector

def withVector (d : KbDocDocument) (v : List UInt32) : KbDocDocument := { d with vector := v }

/-- The vectors of the documents of one batch; the last ones are missing if the answer is short. -/
def padded (count : Nat) (vecs : List (List UInt32)) : List (List UInt32) :=
  vecs ++ List.replicate (count - vecs.length) []

/-- The vectors of documents, batch by batch. -/
def embedAll (embed : Embed) (n : Nat) (docs : List KbDocDocument) :
    Except String (List (List UInt32)) :=
  if _ : docs = [] then .ok []
  else
    match embed n ((docs.take batch).map (·.text)) with
    | .error err => .error ("embed failed: " ++ err)
    | .ok vecs =>
      (embedAll embed (n + 1) (docs.drop batch)).map (padded (docs.take batch).length vecs ++ ·)
termination_by docs.length
decreasing_by
  have hpos := List.length_pos_iff.mpr ‹¬docs = []›
  rw [List.length_drop, batch]
  omega

/-- The service never answers more vectors than it was asked for. -/
def Embed.Bounded (embed : Embed) : Prop :=
  ∀ n texts vecs, embed n texts = .ok vecs → vecs.length ≤ texts.length

section
variable {embed : Embed}

theorem length_padded {count : Nat} {vecs : List (List UInt32)} (h : vecs.length ≤ count) :
    (padded count vecs).length = count := by
  rw [padded, List.length_append, List.length_replicate]
  omega

theorem zipWith_padded {docs : List KbDocDocument} (hblank : ∀ d ∈ docs, d.vector = [])
    {vecs : List (List UInt32)} (hshort : vecs.length ≤ docs.length) :
    List.zipWith withVector docs (padded docs.length vecs) =
      List.zipWith withVector docs vecs ++ docs.drop vecs.length := by
  induction docs generalizing vecs with
  | nil =>
    rw [List.length_nil, Nat.le_zero, List.length_eq_zero_iff] at hshort
    rw [hshort]
    rfl
  | cons d docs ih =>
    have hrest := fun e he => hblank e (List.mem_cons_of_mem d he)
    cases vecs with
    | nil =>
      have hd : withVector d [] = d := by
        rw [withVector, ← hblank d List.mem_cons_self]
      have hnil : ([] : List (List UInt32)).length ≤ docs.length := Nat.zero_le _
      have hlater := ih hrest hnil
      simp only [padded, List.nil_append, List.length_nil, Nat.sub_zero, List.length_cons,
        List.replicate_succ, List.zipWith_cons_cons, List.zipWith_nil_right, List.drop_zero, hd] at hlater ⊢
      rw [hlater]
    | cons v vecs =>
      rw [List.length_cons, List.length_cons, Nat.succ_le_succ_iff] at hshort
      have hlater := ih hrest hshort
      simp only [padded, List.length_cons, Nat.add_sub_add_right, List.cons_append,
        List.zipWith_cons_cons, List.drop_succ_cons] at hlater ⊢
      rw [hlater]

theorem setVectors_append (done here later : List KbDocDocument) {vecs : List (List UInt32)}
    (hshort : vecs.length ≤ here.length) : setVectors done.length vecs (done ++ (here ++ later)) =
      some (done ++ ((List.zipWith withVector here vecs ++ here.drop vecs.length) ++ later)) := by
  induction vecs generalizing done here with
  | nil => simp [setVectors]
  | cons v vecs ih =>
    cases here with
    | nil => simp at hshort
    | cons d here =>
      rw [List.length_cons, List.length_cons, Nat.succ_le_succ_iff] at hshort
      have hin : done.length < (done ++ (d :: here ++ later)).length := by simp
      have hset : (done ++ (d :: here ++ later)).modify done.length ({ · with vector := v }) =
          (done ++ [withVector d v]) ++ (here ++ later) := by
        rw [List.modify_eq_take_cons_drop hin]
        simp [withVector]
      have hnext := ih (done ++ [withVector d v]) here hshort
      rw [List.length_append, List.length_singleton] at hnext
      rw [setVectors, if_pos hin, hset, hnext]
      simp

theorem embedLoop_step {n idx : Nat} {docs docs' : List KbDocDocument} {vecs : List (List UInt32)}
    (hidx : idx < docs.length)
    (hanswer : embed n (((docs.take (min (idx + batch) docs.length)).drop idx).map (·.text)) = .ok vecs)
    (hset : setVectors idx vecs docs = some docs') :
    embedLoop embed n idx docs = embedLoop embed (n + 1) (min (idx + batch) docs.length) docs' := by
  rw [embedLoop, dif_pos hidx]
  dsimp only
  rw [hanswer]
  dsimp only
  split
  case h_1 hnone =>
    rw [hset] at hnone
    cases hnone
  case h_2 docs'' hsome =>
    rw [hset] at hsome
    cases hsome
    rfl

/-- The loop puts the vectors of each batch into its own documents. -/
theorem embedLoop_append (hembed : embed.Bounded) (n : Nat) (done rest : List KbDocDocument)
    (hblank : ∀ d ∈ rest, d.vector = []) : embedLoop embed n done.length (done ++ rest) =
      some ((embedAll embed n rest).map fun vectors => done ++ List.zipWith withVector rest vectors) := by
  induction hlen : rest.length using Nat.strongRecOn generalizing n done rest with
  | ind len ih =>
    subst hlen
    by_cases hne : rest = []
    · subst hne
      rw [embedLoop, embedAll, dif_neg (by simp), dif_pos rfl]
      simp [Except.map]
    · have hpos := List.length_pos_iff.mpr hne
      have hin : done.length < (done ++ rest).length := by
        rw [List.length_append]
        omega
      have hstop : min (done.length + batch) (done ++ rest).length =
          (done ++ rest.take batch).length := by
        rw [List.length_append, List.length_append, List.length_take, Nat.add_min_add_left]
      have hslice : ((done ++ rest).take (min (done.length + batch) (done ++ rest).length)).drop
          done.length = rest.take batch := by
        rw [hstop, ← List.take_append_drop batch rest, ← List.append_assoc, List.take_append_drop,
          List.take_left, List.drop_left]
      rw [embedAll, dif_neg hne]
      cases hanswer : embed n ((rest.take batch).map (·.text)) with
      | error err =>
        rw [embedLoop, dif_pos hin]
        dsimp only
        rw [hslice, hanswer]
        rfl
      | ok vecs =>
        have hshort : vecs.length ≤ (rest.take batch).length := by
          have hbound := hembed n _ _ hanswer
          rwa [List.length_map] at hbound
        have hset := setVectors_append done (rest.take batch) (rest.drop batch) hshort
        rw [← zipWith_padded (fun d hd => hblank d (List.mem_of_mem_take hd)) hshort,
          List.take_append_drop, ← List.append_assoc] at hset
        have hfewer : (rest.drop batch).length < rest.length := by
          rw [List.length_drop, batch]
          omega
        have hlater := ih _ hfewer (n + 1)
          (done ++ List.zipWith withVector (rest.take batch) (padded (rest.take batch).length vecs))
          (rest.drop batch) (fun d hd => hblank d (List.mem_of_mem_drop hd)) rfl
        have hpadded := length_padded hshort
        have hdone : (done ++ List.zipWith withVector (rest.take batch)
            (padded (rest.take batch).length vecs)).length = (done ++ rest.take batch).length := by
          rw [List.length_append, List.length_append, List.length_zipWith, hpadded, Nat.min_self]
        rw [hdone] at hlater
        rw [embedLoop_step hin (by rw [hslice, hanswer]) hset, hstop, hlater]
        dsimp only
        cases embedAll embed (n + 1) (rest.drop batch) with
        | error err => rfl
        | ok vectors =>
          have hsplit : List.zipWith withVector rest (padded (rest.take batch).length vecs ++ vectors) =
              List.zipWith withVector (rest.take batch) (padded (rest.take batch).length vecs) ++
                List.zipWith withVector (rest.drop batch) vectors := by
            rw [← List.zipWith_append hpadded.symm, List.take_append_drop]
          simp only [Except.map, hsplit, List.append_assoc]

/-- Every document has its vector, and each batch the answer to its own texts. -/
structure Answered (embed : Embed) (n : Nat) (docs : List KbDocDocument) (vectors : List (List UInt32)) :
    Prop where
  length : vectors.length = docs.length
  batches : ∀ m, m * batch < docs.length →
    ∃ vecs, embed (n + m) (((docs.drop (m * batch)).take batch).map (·.text)) = .ok vecs ∧
      (vectors.drop (m * batch)).take batch = padded ((docs.drop (m * batch)).take batch).length vecs

theorem embedAll_answered (hembed : embed.Bounded) {n : Nat} {docs : List KbDocDocument}
    {vectors : List (List UInt32)} (h : embedAll embed n docs = .ok vectors) :
    Answered embed n docs vectors := by
  induction hlen : docs.length using Nat.strongRecOn generalizing n docs vectors with
  | ind len ih =>
    subst hlen
    rw [embedAll] at h
    by_cases hne : docs = []
    · rw [dif_pos hne] at h
      cases h
      subst hne
      exact ⟨rfl, fun m hm => absurd hm (Nat.not_lt_zero _)⟩
    · rw [dif_neg hne] at h
      have hpos := List.length_pos_iff.mpr hne
      cases hanswer : embed n ((docs.take batch).map (·.text)) with
      | error err =>
        rw [hanswer] at h
        cases h
      | ok vecs =>
        rw [hanswer] at h
        dsimp only at h
        have hfewer : (docs.drop batch).length < docs.length := by
          rw [List.length_drop, batch]
          omega
        cases hlater : embedAll embed (n + 1) (docs.drop batch) with
        | error err =>
          rw [hlater] at h
          cases h
        | ok later =>
          rw [hlater] at h
          obtain rfl : padded (docs.take batch).length vecs ++ later = vectors := Except.ok.inj h
          have hrest := ih _ hfewer hlater rfl
          have hbound := hembed n _ _ hanswer
          rw [List.length_map] at hbound
          have hpadded := length_padded hbound
          have htake : (docs.take batch).length = min batch docs.length := List.length_take ..
          have hdrop : later.length = docs.length - batch := by
            rw [hrest.length, List.length_drop]
          constructor
          · rw [List.length_append, hpadded, htake, hdrop]
            omega
          · intro m hm
            cases m with
            | zero =>
              refine ⟨vecs, by simpa using hanswer, ?_⟩
              rw [Nat.zero_mul, List.drop_zero, List.drop_zero]
              rcases Nat.le_total batch docs.length with hle | hle
              · rw [List.take_append_of_le_length (by omega), List.take_of_length_le (by omega)]
              · rw [List.take_of_length_le (by rw [List.length_append]; omega),
                  List.eq_nil_of_length_eq_zero (by omega : later.length = 0), List.append_nil]
            | succ m =>
              have hmul : (m + 1) * batch = batch + m * batch := by
                rw [Nat.succ_mul, Nat.add_comm]
              have hlong : batch ≤ docs.length := by omega
              obtain ⟨vecs', hvecs', hslice⟩ := hrest.batches m (by rw [List.length_drop]; omega)
              rw [List.drop_drop, ← hmul] at hvecs' hslice
              refine ⟨vecs', ?_, ?_⟩
              · rw [← hvecs', Nat.add_assoc, Nat.add_comm 1]
              · have hfirst : (padded (docs.take batch).length vecs).drop batch = [] :=
                  List.drop_of_length_le (by omega)
                rw [← hslice, hmul, ← List.drop_drop, List.drop_append_of_le_length (by omega), hfirst,
                  List.nil_append]

end

/-- The rows of a batch are added behind those of the table, or to the table that they create. -/
def stored (db : Database) (rows : List Chunk) : Database :=
  if rows = [] then db else some (db.getD rows ++ rows)

theorem upsert_error {db db' : Database} {rows : List Chunk} {err : String}
    (h : LanceDbStore.upsert db rows = (db', .error err)) : db' = db := by
  unfold LanceDbStore.upsert at h
  split at h
  · cases h
  · dsimp only at h
    split_ifs at h <;> cases h <;> rfl

/-- A batch is stored only if its vectors have one positive length. -/
theorem upsert_ok {db db' : Database} {rows : List Chunk}
    (h : LanceDbStore.upsert db rows = (db', .ok ())) : db' = stored db rows ∧
      ∃ n, 0 < n ∧ ∀ c ∈ rows, c.vector.length = n := by
  unfold LanceDbStore.upsert at h
  split at h
  case h_1 =>
    cases h
    exact ⟨rfl, 1, Nat.one_pos, nofun⟩
  case h_2 first rest =>
    dsimp only at h
    split_ifs at h with hempty hother
    · cases h
    · cases h
    cases h
    refine ⟨by simp [stored], first.vector.length, Nat.pos_of_ne_zero hempty, fun c hc => ?_⟩
    have hno := List.any_eq_false.mp (Bool.eq_false_iff.mpr hother) c hc
    simpa using hno

/-- Each vector is the answer to the text of its own document, and all have one positive length. -/
structure Embedded (embed : Embed) (docs : List KbDocDocument) (vectors : List (List UInt32)) : Prop where
  length : vectors.length = docs.length
  dims : ∃ n, 0 < n ∧ ∀ v ∈ vectors, v.length = n
  batches : ∀ m, m * batch < docs.length →
    embed m (((docs.drop (m * batch)).take batch).map (·.text)) =
      .ok ((vectors.drop (m * batch)).take batch)

theorem vectors_zipWith {docs : List KbDocDocument} {vectors : List (List UInt32)}
    (h : vectors.length = docs.length) :
    (List.zipWith withVector docs vectors).map (·.vector) = vectors := by
  induction docs generalizing vectors with
  | nil => rw [List.length_eq_zero_iff.mp h]; rfl
  | cons d docs ih =>
    cases vectors with
    | nil => cases h
    | cons v vectors => exact congrArg (v :: ·) (ih (Nat.succ.inj h))

/-- Where all vectors have a component, no answer was short. -/
theorem Answered.embedded {embed : Embed} {docs : List KbDocDocument} {vectors : List (List UInt32)}
    (h : Answered embed 0 docs vectors) {n : Nat} (hn : 0 < n) (hdims : ∀ v ∈ vectors, v.length = n) :
    Embedded embed docs vectors where
  length := h.length
  dims := ⟨n, hn, hdims⟩
  batches := by
    intro m hm
    obtain ⟨vecs, hanswer, hslice⟩ := h.batches m hm
    have hfull : List.replicate (((docs.drop (m * batch)).take batch).length - vecs.length)
        ([] : List UInt32) = [] := by
      rw [List.eq_nil_iff_forall_not_mem]
      intro v hv
      have hin : v ∈ (vectors.drop (m * batch)).take batch := by
        rw [hslice]
        exact List.mem_append_right vecs hv
      have hlength := hdims v (List.mem_of_mem_drop (List.mem_of_mem_take hin))
      rw [List.eq_of_mem_replicate hv] at hlength
      exact absurd hlength (by simpa using Nat.ne_of_lt hn)
    rw [hslice, padded, hfull, List.append_nil]
    rwa [Nat.zero_add] at hanswer

/-- The rows of documents with their vectors. -/
def recordsOf (float : UInt64 → List Char) (docs : List KbDocDocument) (vectors : List (List UInt32)) :
    List Chunk := (List.zipWith withVector docs vectors).map (KbDocDocument.intoRecord float)

/-- A file that the walk takes as long as it has not enough of them. -/
def eligible (lower : String → String) (maxBytes : Nat) (e : FileEntry) : Bool :=
  e.isFile && isTextFile lower e && !e.size.any (· > maxBytes)

theorem collectFiles_eq (lower : String → String) (maxFiles maxBytes : Nat)
    (entries files : List FileEntry) : collectFiles lower maxFiles maxBytes entries files =
      files ++ (entries.filter (eligible lower maxBytes)).take (maxFiles - files.length) := by
  induction entries generalizing files with
  | nil => simp [collectFiles]
  | cons e entries ih =>
    rw [collectFiles]
    split_ifs with hfull hfile htext hsize
    · rw [Nat.sub_eq_zero_of_le hfull, List.take_zero, List.append_nil]
    · rw [ih, List.filter_cons_of_neg]
      simp_all [eligible]
    · rw [ih, List.filter_cons_of_neg]
      simp_all [eligible]
    · rw [ih, List.filter_cons_of_neg]
      simp_all [eligible]
    · have htaken : eligible lower maxBytes e = true := by simp_all [eligible]
      have hroom : maxFiles - files.length = (maxFiles - (files ++ [e]).length) + 1 := by
        rw [List.length_append, List.length_singleton]
        omega
      rw [ih, List.filter_cons_of_pos htaken, hroom, List.take_succ_cons, List.append_assoc]
      rfl

/-- The documents of files with their texts. -/
def documentsOfFiles (a : IngestArgs) (epoch : UInt64) (files : List (FileEntry × String)) :
    List KbDocDocument :=
  files.flatMap fun f => documentsOf a.datasetId (safeRel f.1) epoch a.chunkChars f.2

theorem readDocuments_ok {a : IngestArgs} {epoch : UInt64} {files : List FileEntry}
    {docs : List KbDocDocument} (h : readDocuments a.datasetId epoch a.chunkChars files = .ok docs) :
    ∃ read : List (FileEntry × String), read.map Prod.fst = files ∧ (∀ f ∈ read, f.1.read = .ok f.2) ∧
      docs = documentsOfFiles a epoch read := by
  induction files generalizing docs with
  | nil =>
    cases h
    exact ⟨[], rfl, nofun, rfl⟩
  | cons e files ih =>
    rw [readDocuments] at h
    cases hread : e.read with
    | error err =>
      rw [hread] at h
      cases h
    | ok text =>
      rw [hread] at h
      dsimp only at h
      cases hrest : readDocuments a.datasetId epoch a.chunkChars files with
      | error err =>
        rw [hrest] at h
        cases h
      | ok rest =>
        rw [hrest] at h
        obtain ⟨read, hfiles, htexts, rfl⟩ := ih hrest
        refine ⟨(e, text) :: read, congrArg (e :: ·) hfiles, ?_, (Except.ok.inj h).symm⟩
        exact List.forall_mem_cons.mpr ⟨hread, htexts⟩

theorem documentsOfFiles_blank {a : IngestArgs} {epoch : UInt64} {read : List (FileEntry × String)} :
    ∀ d ∈ documentsOfFiles a epoch read, d.vector = [] := by
  intro d hd
  obtain ⟨f, -, hf⟩ := List.mem_flatMap.mp hd
  obtain ⟨part, -, rfl⟩ := List.mem_map.mp hf
  rfl

/-- What a call that succeeds has read, and the vectors that were answered. -/
structure Ingested (lower : String → String) (env : IngestEnv) (args : Json)
    (read : List (FileEntry × String)) (vectors : List (List UInt32)) : Prop where
  found : ∃ dir entries, (args.get "dir").bind Json.asStr = some dir ∧
    env.root dir = .directory entries ∧ read.map Prod.fst =
      (entries.filter (eligible lower (IngestArgs.of args).maxBytes)).take (IngestArgs.of args).maxFiles
  texts : ∀ f ∈ read, f.1.read = .ok f.2
  embedded : Embedded env.embed (documentsOfFiles (IngestArgs.of args) env.now read) vectors

/-- What comes of a call: the rows that it stores, and its answer. -/
inductive Outcome (lower : String → String) (float : UInt64 → List Char) (env : IngestEnv) (args : Json) :
    List Chunk → Except String Json → Prop where
  | failed (err : String) : Outcome lower float env args [] (.error err)
  | done {read : List (FileEntry × String)} {vectors : List (List UInt32)} {v : Json}
      (h : Ingested lower env args read vectors)
      (hfiles : v.get "ingested_files" = some (jsonNat read.length))
      (hchunks : v.get "ingested_chunks" = some (jsonNat vectors.length)) :
      Outcome lower float env args
        (recordsOf float (documentsOfFiles (IngestArgs.of args) env.now read) vectors) (.ok v)

/-- The calls of a list, one after the other; `none` is the panic of one of them. -/
def ingestAll (lower : String → String) (float : UInt64 → List Char) :
    List (IngestEnv × Json) → Database → Option (Database × List (Except String Json))
  | [], db => some (db, [])
  | (env, args) :: calls, db => do
    let (db, r) ← ingest lower float env args db
    let (db, rs) ← ingestAll lower float calls db
    return (db, r :: rs)

section
variable {lower : String → String} {float : UInt64 → List Char} {env : IngestEnv} {args : Json}

theorem stored_nil (db : Database) : stored db [] = db := rfl

/-- What comes of the files that were found. -/
theorem ingestFiles_spec (hembed : env.embed.Bounded) {dir : String} {entries : List FileEntry}
    (hdir : (args.get "dir").bind Json.asStr = some dir) (hroot : env.root dir = .directory entries)
    {files : List FileEntry} (hfiles : files = (entries.filter
      (eligible lower (IngestArgs.of args).maxBytes)).take (IngestArgs.of args).maxFiles)
    (db : Database) : ∃ rows r, ingestFiles float env (IngestArgs.of args) files db =
      some (stored db rows, r) ∧ Outcome lower float env args rows r := by
  unfold ingestFiles
  cases hread : readDocuments (IngestArgs.of args).datasetId env.now (IngestArgs.of args).chunkChars
      files with
  | error err => exact ⟨[], _, rfl, .failed _⟩
  | ok docs =>
    obtain ⟨read, hfound, htexts, rfl⟩ := readDocuments_ok hread
    have hloop := embedLoop_append hembed 0 []
      (documentsOfFiles (IngestArgs.of args) env.now read) documentsOfFiles_blank
    rw [List.nil_append, List.length_nil] at hloop
    dsimp only
    rw [hloop, Option.map_some]
    cases hall : embedAll env.embed 0 (documentsOfFiles (IngestArgs.of args) env.now read) with
    | error err => exact ⟨[], _, rfl, .failed _⟩
    | ok vectors =>
      have hanswered := embedAll_answered hembed hall
      dsimp only [Except.map, List.nil_append]
      unfold upsertTypedDocuments
      cases hupsert : LanceDbStore.upsert db
          (recordsOf float (documentsOfFiles (IngestArgs.of args) env.now read) vectors) with
      | mk db' r =>
        unfold recordsOf at hupsert
        rw [hupsert]
        cases r with
        | error err => exact ⟨[], _, by rw [stored_nil, upsert_error hupsert], .failed err⟩
        | ok u =>
          obtain ⟨hdb, n, hn, hdims⟩ := upsert_ok hupsert
          have hembedded := hanswered.embedded hn fun v hv => by
            rw [← vectors_zipWith hanswered.length] at hv
            obtain ⟨d, hd, rfl⟩ := List.mem_map.mp hv
            exact hdims _ (List.mem_map_of_mem hd)
          subst hdb
          refine ⟨_, _, rfl, .done ⟨⟨dir, entries, hdir, hroot, hfound.trans hfiles⟩, htexts,
            hembedded⟩ ?_ ?_⟩
          · simp [Json.object, Json.get, lookup_object, List.lookup_cons, ← hfound]
          · simp [Json.object, Json.get, lookup_object, hembedded.length]

/-- A call stores the rows of its outcome, and does not panic. -/
theorem ingest_spec (hembed : env.embed.Bounded) (args : Json) (db : Database) :
    ∃ rows r, ingest lower float env args db = some (stored db rows, r) ∧
      Outcome lower float env args rows r := by
  unfold ingest
  cases hdir : (args.get "dir").bind Json.asStr with
  | none => exact ⟨[], _, rfl, .failed _⟩
  | some dir =>
    dsimp only
    cases hroot : env.root dir with
    | missing => exact ⟨[], _, rfl, .failed _⟩
    | notDirectory => exact ⟨[], _, rfl, .failed _⟩
    | directory entries =>
      have hfiles := collectFiles_eq lower (IngestArgs.of args).maxFiles (IngestArgs.of args).maxBytes
        entries []
      rw [List.nil_append, List.length_nil, Nat.sub_zero] at hfiles
      dsimp only
      split_ifs
      · exact ⟨[], _, rfl, .failed _⟩
      · split
        case h_1 hnone =>
          have hnothing : Ingested lower env args [] [] :=
            ⟨⟨dir, entries, hdir, hroot, hnone.symm.trans hfiles⟩, nofun,
              rfl, ⟨1, Nat.one_pos, nofun⟩, fun m hm => absurd hm (Nat.not_lt_zero _)⟩
          refine ⟨[], _, rfl, .done hnothing ?_ ?_⟩ <;>
            simp [Json.object, Json.get, lookup_object, List.lookup_cons]
        case h_2 => exact ingestFiles_spec hembed hdir hroot hfiles db

end

/-- Calls never panic as long as the embedding service does not answer more than it was asked. A call
that fails stores nothing. A call that succeeds stores every chunk of every file it found, in one batch,
each with the vector that was answered for its own text. -/
theorem kb_ingest_all_or_nothing (lower : String → String) (float : UInt64 → List Char)
    {calls : List (IngestEnv × Json)} (hembed : ∀ call ∈ calls, call.1.embed.Bounded) (db : Database) :
    ∃ outcomes : List (List Chunk × Except String Json),
      ingestAll lower float calls db =
        some ((outcomes.map Prod.fst).foldl stored db, outcomes.map Prod.snd) ∧
      List.Forall₂ (fun call o => Outcome lower float call.1 call.2 o.1 o.2) calls outcomes := by
  induction calls generalizing db with
  | nil => exact ⟨[], rfl, .nil⟩
  | cons call calls ih =>
    obtain ⟨hfirst, hrest⟩ := List.forall_mem_cons.mp hembed
    obtain ⟨rows, r, hcall, houtcome⟩ := ingest_spec hfirst call.2 db
    obtain ⟨outcomes, hcalls, houtcomes⟩ := ih hrest (stored db rows)
    refine ⟨(rows, r) :: outcomes, ?_, .cons houtcome houtcomes⟩
    rw [ingestAll, hcall]
    simp [hcalls]

/-- A directory with one text, and an embedding service that answers one component for each text. -/
def notesEnv (content : Except String String) : IngestEnv where
  root _ := .directory [⟨["docs", "notes.md"], true, some 5, content⟩]
  now := 1
  hasVector := true
  embed _ texts := .ok (texts.map fun _ => [0x3f800000])

theorem notesEnv_bounded (content : Except String String) : (notesEnv content).embed.Bounded := by
  intro n texts vecs h
  cases h
  exact Nat.le_of_eq (List.length_map _)

def notesCall (content : Except String String) : IngestEnv × Json :=
  (notesEnv content, .object [("dir", .str "/notes")])

/-- A text, and a file that cannot be read. -/
theorem kb_ingest_all_or_nothing_notes : ∃ outcomes : List (List Chunk × Except String Json),
    ingestAll id (fun _ => []) [notesCall (.ok "hello"), notesCall (.error "denied")] none =
        some ((outcomes.map Prod.fst).foldl stored none, outcomes.map Prod.snd) ∧
      List.Forall₂ (fun call o => Outcome id (fun _ => []) call.1 call.2 o.1 o.2)
        [notesCall (.ok "hello"), notesCall (.error "denied")] outcomes :=
  kb_ingest_all_or_nothing id (fun _ => [])
    (List.forall_mem_cons.mpr ⟨notesEnv_bounded _, List.forall_mem_singleton.mpr (notesEnv_bounded _)⟩) none

end ReactRuntime.Kb
