import ReactRuntime.Library.SqlPredicate
import ReactRuntime.Vector.Query

/-!
# Deletes from the vector table

Rows are deleted by a predicate of SQL, into which a prefix, a namespace or a thread is written with
its quotes doubled. The wildcards of a pattern are not escaped.
-/
namespace ReactRuntime.Vector
open Library

/-- `str::replace` of a character. -/
def replaceChar (c : Char) (replacement : List Char) (s : String) : String :=
  .ofList (s.toList.flatMap fun d => if d = c then replacement else [d])

/-- The engine's delete: the rows of a table that a predicate leaves. -/
abbrev TableDelete := Table → String → Except String Table

namespace LanceDbStore

def escapeSqlLiteral (raw : String) : String := replaceChar '\'' ['\'', '\''] raw

def deletePredicate (column value : String) : String :=
  column ++ " = '" ++ escapeSqlLiteral value ++ "'"

def likePrefixPredicate (column start : String) : String :=
  column ++ " LIKE '" ++ escapeSqlLiteral start ++ "%'"

section
variable (delete : TableDelete) (db : Database)

def deleteWhere (predicate : String) : Database × Except String Unit :=
  match db with
  | none => (none, .ok ())
  | some tbl =>
    match delete tbl predicate with
    | .ok rows => (some rows, .ok ())
    | .error e => (some tbl, .error e)

def deleteThreadEmbeddings (threadId : String) : Database × Except String Unit :=
  deleteWhere delete db ("id LIKE '%:" ++ escapeSqlLiteral threadId ++ ":%'")

def deletePipelineEmbeddings : Database × Except String Unit :=
  deleteWhere delete db "id IS NOT NULL"

def deleteNamespace («namespace» : String) : Database × Except String Unit :=
  deleteWhere delete db (deletePredicate "namespace" «namespace»)

def deleteIdsWithPrefix (start : String) : Database × Except String Unit :=
  deleteWhere delete db (likePrefixPredicate "id" start)

end
end LanceDbStore
open LanceDbStore

/-- The columns with a text in every row. -/
def textColumns : List String := ["id", "namespace", "text", "metadata_json"]

def Chunk.column (c : Chunk) (name : List Char) : Option (List Char) :=
  match String.ofList name with
  | "id" => some c.id.toList
  | "namespace" => some c.namespace.toList
  | "text" => some c.text.toList
  | "metadata_json" => some c.metadataJson.toList
  | _ => none

@[simp] theorem Chunk.column_id (c : Chunk) : c.column "id".toList = some c.id.toList := by
  rw [Chunk.column, String.ofList_toList]
  rfl

@[simp] theorem Chunk.column_namespace (c : Chunk) :
    c.column "namespace".toList = some c.namespace.toList := by
  rw [Chunk.column, String.ofList_toList]
  rfl

theorem id_mem_textColumns : String.ofList "id".toList ∈ textColumns := by decide

/-- A predicate over the columns with texts removes the rows that meet it. -/
structure TableDelete.Lawful (delete : TableDelete) : Prop where
  removes : ∀ table predicate P, Sql.parse predicate.toList = some P →
    String.ofList P.column ∈ textColumns →
      delete table predicate = .ok (table.filter fun row => !P.holds row.column)

theorem toList_escapeSqlLiteral (raw : String) :
    (escapeSqlLiteral raw).toList = Sql.escape raw.toList := by
  rw [escapeSqlLiteral, replaceChar, String.toList_ofList]
  rfl

/-- A delete that succeeds and leaves the rows that are not named. -/
def Removes (db : Database) (named : Chunk → Bool) (result : Database × Except String Unit) : Prop :=
  result = (db.map fun table => table.filter fun row => !named row, .ok ())

def idMatches (pattern : List Char) (row : Chunk) : Bool := Sql.like pattern row.id.toList

variable {delete : TableDelete}

theorem removes_congr_iff {db : Database} {result : Database × Except String Unit}
    {named : Chunk → Bool} (h : Removes db named result) (named' : Chunk → Bool) :
    Removes db named' result ↔ ∀ row ∈ db.getD [], named row = named' row := by
  rw [Removes] at h
  rw [Removes, h]
  cases db with
  | none => simp
  | some table =>
    simp only [Option.map_some, Prod.mk.injEq, Option.some.injEq, and_true, Option.getD_some]
    constructor
    · intro hrows row hrow
      have hkept : row ∈ (table.filter fun r => !named r) ↔ row ∈ table.filter fun r => !named' r := by
        rw [hrows]
      simpa [hrow] using hkept
    · intro hsame
      exact List.filter_congr fun row hrow => by rw [hsame row hrow]

theorem deleteWhere_removes (h : delete.Lawful) (db : Database) {predicate : String}
    {P : Sql.Predicate} (hparse : Sql.parse predicate.toList = some P)
    (hcolumn : String.ofList P.column ∈ textColumns) :
    Removes db (fun row => P.holds row.column) (deleteWhere delete db predicate) := by
  cases db with
  | none => rfl
  | some table => rw [Removes, deleteWhere, h.removes table predicate P hparse hcolumn]; rfl

theorem deleteNamespace_removes (h : delete.Lawful) (db : Database) («namespace» : String) :
    Removes db (inNamespace «namespace») (deleteNamespace delete db «namespace») := by
  have hparse : Sql.parse (deletePredicate "namespace" «namespace»).toList =
      some (.eq "namespace".toList «namespace».toList) := by
    rw [← Sql.parse_eq (by decide)]
    simp [deletePredicate, toList_escapeSqlLiteral, Sql.equals, Sql.quote]
  have hcolumn : String.ofList "namespace".toList ∈ textColumns := by decide
  have hremoves := deleteWhere_removes h db hparse hcolumn
  have hnamed : (fun row : Chunk => (Sql.Predicate.eq "namespace".toList «namespace».toList).holds
      row.column) = inNamespace «namespace» := by
    funext row
    rw [Sql.Predicate.holds, Chunk.column_namespace, inNamespace]
    simp [String.toList_inj]
  rwa [hnamed] at hremoves

/-- A pattern over the ids, with its literal. -/
theorem deleteLike_removes (h : delete.Lawful) (db : Database) {predicate : String}
    {pattern : List Char}
    (hpredicate : predicate.toList =
      "id".toList ++ (Sql.likes ++ (Sql.escape pattern ++ [Sql.quote]))) :
    Removes db (idMatches pattern) (deleteWhere delete db predicate) := by
  have hparse : Sql.parse predicate.toList = some (.like "id".toList pattern) := by
    rw [hpredicate, Sql.parse_like (by decide)]
  have hremoves := deleteWhere_removes h db hparse id_mem_textColumns
  have hnamed : (fun row : Chunk => (Sql.Predicate.like "id".toList pattern).holds row.column) =
      idMatches pattern := by
    funext row
    rw [Sql.Predicate.holds, Chunk.column_id, idMatches, Option.any_some]
  rwa [hnamed] at hremoves

theorem deleteIdsWithPrefix_removes (h : delete.Lawful) (db : Database) (start : String) :
    Removes db (idMatches (start.toList ++ ['%'])) (deleteIdsWithPrefix delete db start) := by
  apply deleteLike_removes h db
  simp [likePrefixPredicate, toList_escapeSqlLiteral, Sql.likes, Sql.quote, Sql.escape]

theorem deleteThreadEmbeddings_removes (h : delete.Lawful) (db : Database) (threadId : String) :
    Removes db (idMatches (['%', ':'] ++ threadId.toList ++ [':', '%']))
      (deleteThreadEmbeddings delete db threadId) := by
  apply deleteLike_removes h db
  simp [toList_escapeSqlLiteral, Sql.likes, Sql.quote, Sql.escape]

theorem deletePipelineEmbeddings_removes (h : delete.Lawful) (db : Database) :
    Removes db (fun _ => true) (deletePipelineEmbeddings delete db) := by
  have hparse : Sql.parse "id IS NOT NULL".toList = some (.isNotNull "id".toList) := by
    rw [← Sql.parse_isNotNull (by decide)]
    rfl
  have hremoves := deleteWhere_removes h db hparse id_mem_textColumns
  have hnamed : (fun row : Chunk => (Sql.Predicate.isNotNull "id".toList).holds row.column) =
      fun _ => true := by
    funext row
    rw [Sql.Predicate.holds, Chunk.column_id, Option.isSome_some]
  rwa [hnamed] at hremoves

def idStartsWith (start : String) (row : Chunk) : Bool := start.toList <+: row.id.toList

def idContains (threadId : String) (row : Chunk) : Bool :=
  (":" ++ threadId ++ ":").toList <:+: row.id.toList

/-- Each delete removes the rows that its argument names, and no others. -/
structure ExactDeletes (delete : TableDelete) (db : Database)
    (start «namespace» threadId : String) : Prop where
  ids : Removes db (idStartsWith start) (deleteIdsWithPrefix delete db start)
  rows : Removes db (inNamespace «namespace») (deleteNamespace delete db «namespace»)
  thread : Removes db (idContains threadId) (deleteThreadEmbeddings delete db threadId)

/-- The id starts with a text that a pattern stands for. -/
def StartsWithInstance (pattern : String) (row : Chunk) : Prop :=
  ∃ found rest, row.id.toList = found ++ rest ∧ Sql.like pattern.toList found = true

/-- The id contains a text between colons that a pattern stands for. -/
def ContainsInstance (pattern : String) (row : Chunk) : Prop :=
  ∃ before found rest, row.id.toList = before ++ ':' :: found ++ ':' :: rest ∧
    Sql.like pattern.toList found = true

/-- No id has another text in the place of a prefix or a thread for which it stands as a pattern. -/
structure NoOtherInstance (db : Database) (start threadId : String) : Prop where
  ids : ∀ row ∈ db.getD [], StartsWithInstance start row → idStartsWith start row = true
  thread : ∀ row ∈ db.getD [], ContainsInstance threadId row → idContains threadId row = true

theorem idMatches_rest_iff {pattern : String} {row : Chunk} :
    idMatches (pattern.toList ++ ['%']) row = true ↔ StartsWithInstance pattern row := by
  rw [idMatches, Sql.like_append_iff]
  simp [StartsWithInstance, Sql.like_rest]

theorem idMatches_inside_iff {pattern : String} {row : Chunk} :
    idMatches (['%', ':'] ++ pattern.toList ++ [':', '%']) row = true ↔
      ContainsInstance pattern row := by
  constructor
  · intro hmatch
    obtain ⟨head, tail, htext, hhead, htail⟩ := Sql.like_append_iff.mp hmatch
    obtain ⟨before, found, rfl, hbefore, hfound⟩ := Sql.like_append_iff.mp hhead
    obtain ⟨skipped, colon, rfl, hcolon⟩ := Sql.like_percent_iff.mp hbefore
    obtain rfl := (Sql.like_plain_iff (by decide)).mp hcolon
    obtain ⟨d, rest, rfl, hd, -⟩ := (Sql.like_cons_iff (by decide)).mp htail
    obtain rfl := hd.resolve_left (by decide)
    exact ⟨skipped, found, rest, by simp [htext], hfound⟩
  · rintro ⟨before, found, rest, htext, hfound⟩
    have hbefore : Sql.like ['%', ':'] (before ++ [':']) = true :=
      Sql.like_percent_iff.mpr ⟨before, [':'], rfl, rfl⟩
    have hbehind : Sql.like [':', '%'] (':' :: rest) = true :=
      (Sql.like_cons_iff (by decide)).mpr ⟨':', rest, rfl, .inr rfl, Sql.like_rest⟩
    rw [idMatches, htext, Sql.like_append_iff]
    refine ⟨before ++ ':' :: found, ':' :: rest, by simp, ?_, hbehind⟩
    exact Sql.like_append_iff.mpr ⟨before ++ [':'], found, by simp, hbefore, hfound⟩

/-- Every text stands for itself. -/
theorem startsWithInstance_of_idStartsWith {start : String} {row : Chunk}
    (h : idStartsWith start row = true) : StartsWithInstance start row := by
  obtain ⟨rest, hrest⟩ := of_decide_eq_true h
  exact ⟨start.toList, rest, hrest.symm, Sql.like_self _⟩

theorem containsInstance_of_idContains {threadId : String} {row : Chunk}
    (h : idContains threadId row = true) : ContainsInstance threadId row := by
  obtain ⟨before, rest, hrest⟩ := of_decide_eq_true h
  refine ⟨before, threadId.toList, rest, ?_, Sql.like_self _⟩
  rw [← hrest]
  simp

/-- Over one table, the deletes are exact if no id has another text in the place of the named one. -/
theorem exactDeletes_iff (h : delete.Lawful) (db : Database)
    (start «namespace» threadId : String) :
    ExactDeletes delete db start «namespace» threadId ↔ NoOtherInstance db start threadId := by
  have hids := removes_congr_iff (deleteIdsWithPrefix_removes h db start) (idStartsWith start)
  have hthread := removes_congr_iff (deleteThreadEmbeddings_removes h db threadId)
    (idContains threadId)
  constructor
  · intro hexact
    refine ⟨fun row hrow hstarts => ?_, fun row hrow hcontains => ?_⟩
    · rw [← hids.mp hexact.ids row hrow, idMatches_rest_iff]
      exact hstarts
    · rw [← hthread.mp hexact.thread row hrow, idMatches_inside_iff]
      exact hcontains
  · intro hnone
    refine ⟨hids.mpr fun row hrow => ?_, deleteNamespace_removes h db «namespace»,
      hthread.mpr fun row hrow => ?_⟩
    · rw [Bool.eq_iff_iff, idMatches_rest_iff]
      exact ⟨hnone.ids row hrow, startsWithInstance_of_idStartsWith⟩
    · rw [Bool.eq_iff_iff, idMatches_inside_iff]
      exact ⟨hnone.thread row hrow, containsInstance_of_idContains⟩

theorem noOtherInstance_of_plain {start threadId : String} (hstart : Sql.Plain start.toList)
    (hthread : Sql.Plain threadId.toList) (db : Database) : NoOtherInstance db start threadId := by
  constructor
  · rintro row - ⟨found, rest, htext, hfound⟩
    rw [Sql.like_plain_iff hstart] at hfound
    exact decide_eq_true ⟨rest, by rw [htext, hfound]⟩
  · rintro row - ⟨before, found, rest, htext, hfound⟩
    rw [Sql.like_plain_iff hthread] at hfound
    exact decide_eq_true ⟨before, rest, by simp [htext, hfound]⟩

/-- A row with an id, and nothing else that a delete could name. -/
def rowWithId (id : List Char) : Chunk := ⟨.ofList id, "", "", [], "", 0⟩

/-- An argument with a wildcard stands for another text of its length. -/
theorem plain_of_noOtherInstance {start threadId : String}
    (h : ∀ db, NoOtherInstance db start threadId) :
    Sql.Plain start.toList ∧ Sql.Plain threadId.toList := by
  constructor
  · rw [← Sql.instantiate_eq_iff]
    have hrow := (h (some [rowWithId (Sql.instantiate start.toList)])).ids _ List.mem_cons_self
      ⟨Sql.instantiate start.toList, [], by simp [rowWithId], Sql.like_instantiate _⟩
    have hstarts : start.toList <+: Sql.instantiate start.toList := by
      simpa [idStartsWith, rowWithId] using hrow
    exact (hstarts.eq_of_length (Sql.length_instantiate _).symm).symm
  · rw [← Sql.instantiate_eq_iff]
    have hrow := (h (some [rowWithId (':' :: Sql.instantiate threadId.toList ++ [':'])])).thread _
      List.mem_cons_self ⟨[], Sql.instantiate threadId.toList, [], by simp [rowWithId],
        Sql.like_instantiate _⟩
    have hcontains : ':' :: (threadId.toList ++ [':']) <:+:
        ':' :: (Sql.instantiate threadId.toList ++ [':']) := by
      simpa [idContains, rowWithId] using hrow
    have hsame := hcontains.eq_of_length (by simp)
    simpa using hsame.symm

/-- Over every table exactly if there is no wildcard in the prefix and the thread. -/
theorem deletes_exact_iff (h : delete.Lawful) (start «namespace» threadId : String) :
    (∀ db, ExactDeletes delete db start «namespace» threadId ↔ NoOtherInstance db start threadId) ∧
      ((∀ db, ExactDeletes delete db start «namespace» threadId) ↔
        Sql.Plain start.toList ∧ Sql.Plain threadId.toList) := by
  refine ⟨fun db => exactDeletes_iff h db start «namespace» threadId, fun hexact => ?_, ?_⟩
  · exact plain_of_noOtherInstance fun db =>
      (exactDeletes_iff h db start «namespace» threadId).mp (hexact db)
  · rintro ⟨hstart, hthread⟩ db
    exact (exactDeletes_iff h db start «namespace» threadId).mpr
      (noOtherInstance_of_plain hstart hthread db)

/-- A delete that reads the predicates of the store, and refuses others. -/
def sqlDelete : TableDelete := fun table predicate =>
  match Sql.parse predicate.toList with
  | none => .error predicate
  | some P => .ok (table.filter fun row => !P.holds row.column)

theorem sqlDelete_lawful : sqlDelete.Lawful where
  removes table predicate P hparse _ := by rw [sqlDelete, hparse]

/-- Quotes and colons in the arguments do not matter. -/
theorem deletes_exact_quoted :
    ExactDeletes sqlDelete (some [rowWithId "it's:kb:1".toList, rowWithId "a:it's:b".toList])
      "it's:kb:" "kb'" "it's" :=
  ((deletes_exact_iff sqlDelete_lawful "it's:kb:" "kb'" "it's").2.mpr (by decide)) _

/-- The underscore of a collection's ids is a wildcard of the pattern. -/
theorem deletePrefix_removes_other : ¬ ExactDeletes sqlDelete
    (some [rowWithId "kb_doc:a:1".toList, rowWithId "kbXdoc:b:1".toList]) "kb_doc:" "kb" "t" := by
  rw [exactDeletes_iff sqlDelete_lawful]
  intro hnone
  have hother := hnone.ids (rowWithId "kbXdoc:b:1".toList) (by simp)
    ⟨"kbXdoc:".toList, "b:1".toList, by simp [rowWithId], by simp [Sql.like]⟩
  revert hother
  decide

end ReactRuntime.Vector
