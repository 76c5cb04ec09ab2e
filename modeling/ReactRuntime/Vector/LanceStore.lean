import Mathlib.Data.List.Nodup
import Mathlib.Data.List.Flatten

/-!
# Upserts into the vector table

A table of the vector store is the list of its rows. `upsert` opens the table, or creates
it from its batch, and then adds the batch. Nothing is looked up by id: a batch that
creates the table is in it twice, and an id that comes back is there twice as well.
-/
namespace ReactRuntime.Vector

/-- One row of the table. A vector component is kept as the bit pattern of its `f32`. -/
structure Chunk where
  id : String
  «namespace» : String
  text : String
  vector : List UInt32
  metadataJson : String
  epoch : UInt64
deriving DecidableEq, Repr

abbrev Table := List Chunk

/-- The database as a store meets it: its table, if there is one. -/
abbrev Database := Option Table

namespace LanceDbStore

def upsert (db : Database) (items : List Chunk) : Database × Except String Unit :=
  match items with
  | [] => (db, .ok ())
  | first :: _ =>
    let dims := first.vector.length
    if dims = 0 then (db, .error "empty vectors")
    else if items.any fun c => c.vector.length ≠ dims then
      (db, .error "inconsistent vector dims")
    else
      -- `open_table`, or `create_table` with the batch; then `add` in both cases.
      let tbl := db.getD items
      (some (tbl ++ items), .ok ())

/-- The calls of a sequence, one after the other. -/
def upserts (db : Database) (calls : List (List Chunk)) : Database :=
  calls.foldl (fun db items => (upsert db items).1) db

end LanceDbStore
open LanceDbStore

/-- A batch as its callers build it: vectors of one positive length, and each id once. -/
structure WellFormed (items : List Chunk) : Prop where
  dims : ∃ n, 0 < n ∧ ∀ c ∈ items, c.vector.length = n
  ids : (items.map Chunk.id).Nodup

/-- A well-formed batch is added to the table, or to the one that it creates. -/
theorem upsert_eq {items : List Chunk} (h : WellFormed items) (hne : items ≠ [])
    (db : Database) : upsert db items = (some (db.getD items ++ items), .ok ()) := by
  cases items with
  | nil => exact absurd rfl hne
  | cons first rest =>
    obtain ⟨n, hn, hdims⟩ := h.dims
    have hfirst : first.vector.length = n := hdims first List.mem_cons_self
    have hsame : ((first :: rest).any fun c => c.vector.length ≠ first.vector.length) = false := by
      rw [List.any_eq_false]
      intro c hc
      simp [hfirst, hdims c hc]
    rw [upsert, if_neg (by omega), hsame]
    rfl

/-- Over a table, the rows of the calls come behind those that were there. -/
theorem upserts_some {calls : List (List Chunk)} (h : ∀ items ∈ calls, WellFormed items)
    (rows : Table) : upserts (some rows) calls = some (rows ++ calls.flatten) := by
  induction calls generalizing rows with
  | nil => simp [upserts]
  | cons items calls ih =>
    have hrest := fun is his => h is (List.mem_cons_of_mem items his)
    rw [upserts, List.foldl_cons, ← upserts, List.flatten_cons, ← List.append_assoc]
    by_cases hne : items = []
    · subst hne
      rw [List.append_nil]
      exact ih hrest rows
    · rw [upsert_eq (h items List.mem_cons_self) hne, Option.getD_some]
      exact ih hrest (rows ++ items)

/-- Without a table, the first batch that is not empty is there twice. -/
theorem upserts_none {calls : List (List Chunk)} (h : ∀ items ∈ calls, WellFormed items) :
    upserts none calls = match calls.find? fun items => !items.isEmpty with
      | none => none
      | some items => some (items ++ calls.flatten) := by
  induction calls with
  | nil => rfl
  | cons items calls ih =>
    have hrest := fun is his => h is (List.mem_cons_of_mem items his)
    rw [upserts, List.foldl_cons, ← upserts]
    cases items with
    | nil =>
      change upserts none calls = _
      simpa using ih hrest
    | cons c cs =>
      rw [upsert_eq (h _ List.mem_cons_self) (List.cons_ne_nil c cs), Option.getD_none,
        upserts_some hrest]
      simp

/-- The rows with an id. -/
def rowsOf (rows : Table) (id : String) : Table := rows.filter fun c => c.id = id

/-- The row that the last of the calls that have the id writes for it. -/
def lastWritten (calls : List (List Chunk)) (id : String) : Option Chunk :=
  (rowsOf calls.flatten id).getLast?

/-- Each written id has the row written last and no other, and the rows of other ids stay. -/
def Replaced (start final : Database) (calls : List (List Chunk)) : Prop :=
  ∀ id, rowsOf (final.getD []) id = match lastWritten calls id with
    | some c => [c]
    | none => rowsOf (start.getD []) id

/-- There is a table unless nothing is written, and no id is written twice or was there. -/
structure AllNew (start : Database) (calls : List (List Chunk)) : Prop where
  table : start = none → calls.flatten = []
  once : (calls.flatten.map Chunk.id).Nodup
  absent : ∀ c ∈ calls.flatten, rowsOf (start.getD []) c.id = []

theorem rowsOf_append (rows rows' : Table) (id : String) :
    rowsOf (rows ++ rows') id = rowsOf rows id ++ rowsOf rows' id :=
  List.filter_append rows rows'

theorem mem_rowsOf {rows : Table} {id : String} {c : Chunk} :
    c ∈ rowsOf rows id ↔ c ∈ rows ∧ c.id = id := by
  rw [rowsOf, List.mem_filter, decide_eq_true_eq]

theorem count_map_id (rows : Table) (id : String) :
    (rows.map Chunk.id).count id = (rowsOf rows id).length := by
  rw [List.count, List.countP_map, List.countP_eq_length_filter, rowsOf]
  congr 2

/-- Where each id is written once, the last row written for an id is its only one. -/
theorem rowsOf_of_nodup {calls : List (List Chunk)} (h : (calls.flatten.map Chunk.id).Nodup)
    {id : String} {c : Chunk} (hlast : lastWritten calls id = some c) :
    rowsOf calls.flatten id = [c] := by
  have hlength : (rowsOf calls.flatten id).length ≤ 1 :=
    count_map_id calls.flatten id ▸ List.nodup_iff_count_le_one.mp h id
  rw [lastWritten] at hlast
  match hrows : rowsOf calls.flatten id with
  | [] =>
    rw [hrows] at hlast
    cases hlast
  | [r] =>
    rw [hrows] at hlast
    cases hlast
    rfl
  | r :: r' :: rs =>
    rw [hrows] at hlength
    simp at hlength

/-- The rows that the written ones come behind. -/
def base (start : Database) (calls : List (List Chunk)) : Table :=
  start.getD ((calls.find? fun items => !items.isEmpty).getD [])

theorem find_eq_none {calls : List (List Chunk)} :
    (calls.find? fun items => !items.isEmpty) = none ↔ calls.flatten = [] := by
  rw [List.find?_eq_none, List.flatten_eq_nil_iff]
  simp

theorem upserts_rows (start : Database) {calls : List (List Chunk)}
    (h : ∀ items ∈ calls, WellFormed items) :
    (upserts start calls).getD [] = base start calls ++ calls.flatten := by
  cases start with
  | some rows => rw [upserts_some h, Option.getD_some, base, Option.getD_some]
  | none =>
    rw [upserts_none h, base, Option.getD_none]
    cases hfind : calls.find? fun items => !items.isEmpty with
    | some items => rfl
    | none => rw [find_eq_none.mp hfind]; rfl

theorem lastWritten_eq_none {calls : List (List Chunk)} {id : String} :
    lastWritten calls id = none ↔ rowsOf calls.flatten id = [] :=
  List.getLast?_eq_none_iff

theorem lastWritten_mem {calls : List (List Chunk)} {id : String} {c : Chunk}
    (h : lastWritten calls id = some c) : c ∈ calls.flatten ∧ c.id = id :=
  mem_rowsOf.mp (List.mem_of_getLast? h)

/-- A row of the batch that creates the table is one of the written rows. -/
theorem base_none_eq_nil {calls : List (List Chunk)}
    (h : ∀ c ∈ calls.flatten, rowsOf (base none calls) c.id = []) : calls.flatten = [] := by
  rw [base, Option.getD_none] at h
  cases hfind : calls.find? fun items => !items.isEmpty with
  | none => exact find_eq_none.mp hfind
  | some items =>
    rw [hfind, Option.getD_some] at h
    have hne : items ≠ [] := by simpa using List.find?_some hfind
    obtain ⟨c, hc⟩ := List.exists_mem_of_ne_nil items hne
    have hwritten : c ∈ calls.flatten :=
      List.mem_flatten_of_mem (List.mem_of_find?_eq_some hfind) hc
    have hrow : c ∈ rowsOf items c.id := mem_rowsOf.mpr ⟨hc, rfl⟩
    rw [h c hwritten] at hrow
    cases hrow

/-- A written id that has only its last row was not there, and is written once. -/
theorem Replaced.written_once {start : Database} {calls : List (List Chunk)}
    (hrep : Replaced start (upserts start calls) calls) (h : ∀ items ∈ calls, WellFormed items)
    {id : String} (hid : rowsOf calls.flatten id ≠ []) :
    rowsOf (base start calls) id = [] ∧ (rowsOf calls.flatten id).length = 1 := by
  have hrows := hrep id
  rw [upserts_rows start h] at hrows
  cases hlast : lastWritten calls id with
  | none => exact absurd (lastWritten_eq_none.mp hlast) hid
  | some c =>
    rw [hlast, rowsOf_append] at hrows
    have hlength := congrArg List.length hrows
    have hpos := List.length_pos_iff.mpr hid
    rw [List.length_append, List.length_singleton] at hlength
    exact ⟨List.length_eq_zero_iff.mp (by omega), by omega⟩

/-- After any calls, each written id has exactly its last row, and the other rows are as before,
exactly if every written row is new and the table was there. -/
theorem upserts_replace_iff (start : Database) {calls : List (List Chunk)}
    (h : ∀ items ∈ calls, WellFormed items) :
    Replaced start (upserts start calls) calls ↔ AllNew start calls := by
  constructor
  · intro hrep
    have habsent (c : Chunk) (hc : c ∈ calls.flatten) : rowsOf (base start calls) c.id = [] :=
      (hrep.written_once h (List.ne_nil_of_mem (mem_rowsOf.mpr ⟨hc, rfl⟩))).1
    refine ⟨fun hnone => ?_, ?_, fun c hc => ?_⟩
    · subst hnone
      exact base_none_eq_nil habsent
    · rw [List.nodup_iff_count_le_one]
      intro id
      rw [count_map_id]
      by_cases hid : rowsOf calls.flatten id = []
      · simp [hid]
      · exact Nat.le_of_eq (hrep.written_once h hid).2
    · cases start with
      | none => rfl
      | some rows => exact habsent c hc
  · intro hnew id
    rw [upserts_rows start h]
    cases hlast : lastWritten calls id with
    | some c =>
      obtain ⟨hc, rfl⟩ := lastWritten_mem hlast
      have hbase : rowsOf (base start calls) c.id = [] := by
        cases start with
        | none => exact absurd hc (by simp [hnew.table rfl])
        | some rows => exact hnew.absent c hc
      rw [rowsOf_append, hbase, rowsOf_of_nodup hnew.once hlast, List.nil_append]
    | none =>
      rw [rowsOf_append, lastWritten_eq_none.mp hlast, List.append_nil]
      cases start with
      | some rows => rfl
      | none =>
        rw [base, Option.getD_none, find_eq_none.mpr (hnew.table rfl), Option.getD_none]

/-! Two runs on concrete rows. -/

def smallChunk (text : String) : Chunk := ⟨"doc", "kb", text, [0], "null", 0⟩

theorem wellFormed_smallChunk (text : String) : WellFormed [smallChunk text] :=
  ⟨⟨1, by decide, fun c hc => by rw [List.mem_singleton.mp hc]; rfl⟩, List.nodup_singleton _⟩

/-- A row of another document. -/
def otherChunk (id : String) : Chunk := { smallChunk "one" with id := id }

/-- Two batches of new rows behind a stored one, and two batches of which the second has an id of the
first. -/
theorem upserts_replace_newRow :
    Replaced (some [otherChunk "old"])
      (upserts (some [otherChunk "old"]) [[smallChunk "one", otherChunk "a"], [], [otherChunk "b"]])
      [[smallChunk "one", otherChunk "a"], [], [otherChunk "b"]] ∧
    ¬ Replaced (some [otherChunk "old"])
      (upserts (some [otherChunk "old"]) [[smallChunk "one", otherChunk "a"], [smallChunk "two"]])
      [[smallChunk "one", otherChunk "a"], [smallChunk "two"]] := by
  have hpair : WellFormed [smallChunk "one", otherChunk "a"] :=
    ⟨⟨1, by decide, by simp [smallChunk, otherChunk]⟩, by decide⟩
  have hempty : WellFormed [] := ⟨⟨1, by decide, by simp⟩, List.nodup_nil⟩
  have hlast : WellFormed [otherChunk "b"] :=
    ⟨⟨1, by decide, by simp [smallChunk, otherChunk]⟩, by decide⟩
  have hnew : ∀ items ∈ [[smallChunk "one", otherChunk "a"], [], [otherChunk "b"]],
      WellFormed items := by
    simp [hpair, hempty, hlast]
  have hrepeated : ∀ items ∈ [[smallChunk "one", otherChunk "a"], [smallChunk "two"]],
      WellFormed items := by
    simp [hpair, wellFormed_smallChunk]
  constructor
  · exact (upserts_replace_iff (some [otherChunk "old"]) hnew).mpr
      ⟨fun hnone => (nomatch hnone), by decide, by decide⟩
  · intro hrep
    exact absurd ((upserts_replace_iff (some [otherChunk "old"]) hrepeated).mp hrep).once (by decide)

/-- The first row of a database without a table is there twice. -/
theorem upserts_duplicate_firstBatch :
    upserts none [[smallChunk "one"]] = some [smallChunk "one", smallChunk "one"] ∧
      ¬ Replaced none (upserts none [[smallChunk "one"]]) [[smallChunk "one"]] := by
  have hrows : upserts none [[smallChunk "one"]] = some [smallChunk "one", smallChunk "one"] := by
    decide
  refine ⟨hrows, fun hrep => ?_⟩
  have hdoc := hrep "doc"
  rw [hrows] at hdoc
  exact absurd hdoc (by decide)

end ReactRuntime.Vector
