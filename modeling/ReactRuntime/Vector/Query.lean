import Mathlib.Algebra.GroupWithZero.Nat
import ReactRuntime.Library.Nearest
import ReactRuntime.Library.Sorting
import ReactRuntime.Vector.LanceStore
import Std.Data.String.ToNat

/-!
# Queries of the vector table

The engine looks for the rows of the whole table that are nearest to a query, and the store keeps
those of a namespace. The numbers of a row are read back from the text of their column.
-/
namespace ReactRuntime.Vector
open Library

structure ScoredChunk (D : Type) where
  item : Chunk
  score : D
deriving DecidableEq, Repr

/-- What a found row gives: its distance to the query, and the texts of the numbers in a column with
their reading. -/
structure Columns (D : Type) where
  distance : List UInt32 → Chunk → D
  distanceText : D → String
  parseDistance : String → Option D
  epochText : UInt64 → String
  parseEpoch : String → Option UInt64

/-- A number is read as it was written. -/
structure Columns.Lawful {D : Type} (C : Columns D) : Prop where
  distance_text : ∀ d, C.parseDistance (C.distanceText d) = some d
  epoch_text : ∀ n, C.parseEpoch (C.epochText n) = some n

/-- The engine's search: the rows of a table for a query, and how many of them. -/
abbrev VectorSearch := Table → List UInt32 → Nat → Except String Table

/-- Asked for so many rows, the search finds the nearest ones of the whole table. An engine may refuse to
look for none. -/
def VectorSearch.FindsNearest {D : Type} [LinearOrder D] (search : VectorSearch)
    (distance : List UInt32 → Chunk → D) (k : Nat) : Prop :=
  ∀ table query, ∃ found, search table query k = .ok found ∧
    IsNearest (distance query) k table found

section
variable {D : Type} [LinearOrder D] [Zero D] (C : Columns D)

namespace LanceDbStore

/-- The chunk of a found row. Its vector is not read. -/
def scoredChunk (queryVec : List UInt32) (row : Chunk) : ScoredChunk D where
  item := { row with
    vector := []
    epoch := (C.parseEpoch (C.epochText row.epoch)).getD 0 }
  score := (C.parseDistance (C.distanceText (C.distance queryVec row))).getD 0

def queryV2 (search : VectorSearch) (db : Database) (queryVec : List UInt32) (k : Nat)
    («namespace» : Option String) : Except String (List (ScoredChunk D)) :=
  match db with
  | none => .ok []
  | some tbl => do
    let found ← search tbl queryVec k
    return found.filterMap fun row =>
      if «namespace».any (· ≠ row.namespace) then none else some (scoredChunk C queryVec row)

def query (search : VectorSearch) (db : Database) (queryVec : List UInt32) (k : Nat)
    («namespace» : Option String) : Except String (List (ScoredChunk D)) := do
  let out ← queryV2 C search db queryVec k «namespace»
  return out.mergeSort fun a b => decide (a.score ≤ b.score)

end LanceDbStore
open LanceDbStore

def inNamespace («namespace» : String) (row : Chunk) : Bool :=
  row.namespace = «namespace»

/-- A row as a query returns it. -/
def hit (queryVec : List UInt32) (row : Chunk) : ScoredChunk D :=
  ⟨{ row with vector := [] }, C.distance queryVec row⟩

/-- The hits are the nearest rows of a namespace, sorted by distance. -/
def NearestOf (table : Table) (queryVec : List UInt32) (k : Nat) («namespace» : String)
    (out : List (ScoredChunk D)) : Prop :=
  ∃ rows, IsNearest (C.distance queryVec) k (table.filter (inNamespace «namespace»)) rows ∧
    rows.Pairwise (fun a b => C.distance queryVec a ≤ C.distance queryVec b) ∧
      out = rows.map (hit C queryVec)

variable {C} {search : VectorSearch} {table found : Table} {queryVec : List UInt32} {k : Nat}
  {«namespace» : String}

omit [LinearOrder D] in
theorem scoredChunk_eq (h : C.Lawful) (queryVec : List UInt32) (row : Chunk) :
    scoredChunk C queryVec row = hit C queryVec row := by
  simp [scoredChunk, hit, h.distance_text, h.epoch_text]

omit [LinearOrder D] in
/-- The found rows of the namespace are kept. -/
theorem kept_eq (h : C.Lawful) (found : Table) (queryVec : List UInt32) («namespace» : String) :
    (found.filterMap fun row => if (some «namespace»).any (· ≠ row.namespace) then none
      else some (scoredChunk C queryVec row)) =
        (found.filter (inNamespace «namespace»)).map (hit C queryVec) := by
  induction found with
  | nil => rfl
  | cons row rows ih =>
    by_cases heq : row.namespace = «namespace»
    · rw [List.filterMap_cons_some, List.filter_cons_of_pos, List.map_cons, ih]
      · simpa [inNamespace] using heq
      · simp [heq, scoredChunk_eq h]
    · rw [List.filterMap_cons_none, List.filter_cons_of_neg, ih]
      · simpa [inNamespace] using heq
      · simp [Ne.symm heq]

/-- What a query returns: the found rows of the namespace, sorted by distance. -/
theorem query_eq (h : C.Lawful) (hfound : search table queryVec k = .ok found) :
    LanceDbStore.query C search (some table) queryVec k (some «namespace») =
      .ok (((found.filter (inNamespace «namespace»)).mergeSort fun a b =>
        decide (C.distance queryVec a ≤ C.distance queryVec b)).map (hit C queryVec)) := by
  have hsort : ((found.filter (inNamespace «namespace»)).map (hit C queryVec)).mergeSort
      (fun a b => decide (a.score ≤ b.score)) =
        ((found.filter (inNamespace «namespace»)).mergeSort fun a b =>
          decide (C.distance queryVec a ≤ C.distance queryVec b)).map (hit C queryVec) :=
    (List.map_mergeSort (f := hit C queryVec) fun _ _ _ _ => rfl).symm
  simp only [LanceDbStore.query, queryV2, hfound, pure, Except.pure, bind, Except.bind,
    kept_eq h, hsort]

/-- For one search, a query is right if the found rows of the namespace are enough. -/
theorem query_nearest_iff (h : C.Lawful) (hsearch : search.FindsNearest C.distance k)
    (hfound : search table queryVec k = .ok found) :
    (∃ out, LanceDbStore.query C search (some table) queryVec k (some «namespace») = .ok out ∧
      NearestOf C table queryVec k «namespace» out) ↔
        (found.filter (inNamespace «namespace»)).length =
          min k (table.filter (inNamespace «namespace»)).length := by
  set kept := found.filter (inNamespace «namespace»)
  set sorted := kept.mergeSort fun a b =>
    decide (C.distance queryVec a ≤ C.distance queryVec b)
  have hperm : sorted.Perm kept := sortBy_perm (C.distance queryVec) kept
  rw [query_eq h hfound]
  constructor
  · rintro ⟨out, hout, rows, hrows, -, rfl⟩
    have hlength := congrArg List.length (Except.ok.inj hout)
    rw [List.length_map, List.length_map, hperm.length_eq] at hlength
    rw [hlength, hrows.length_eq]
  · intro hlength
    obtain ⟨found', hfound', hnearest⟩ := hsearch table queryVec
    obtain rfl : found = found' := Except.ok.inj (hfound.symm.trans hfound')
    exact ⟨_, rfl, sorted, (hnearest.filter hlength).of_perm hperm,
      pairwise_sortBy (C.distance queryVec) kept, rfl⟩

/-- The search that breaks ties against a namespace. -/
def othersFirst (distance : List UInt32 → Chunk → D) («namespace» : String) : VectorSearch :=
  fun table queryVec k =>
    .ok (selectOthersFirst (distance queryVec) (inNamespace «namespace») k table)

omit [Zero D] in
theorem findsNearest_othersFirst (distance : List UInt32 → Chunk → D) («namespace» : String) (k : Nat) :
    (othersFirst distance «namespace»).FindsNearest distance k :=
  fun table queryVec =>
    ⟨_, rfl, isNearest_selectOthersFirst (distance queryVec) (inNamespace «namespace») k table⟩

/-- A query of a namespace is right for every search of the nearest rows exactly if no row of another
namespace takes the place of a row of the namespace that is as far or farther. -/
theorem query_exact_iff (h : C.Lawful) (db : Database) (queryVec : List UInt32) (k : Nat)
    («namespace» : String) :
    (∀ search : VectorSearch, search.FindsNearest C.distance k → ∃ out,
      LanceDbStore.query C search db queryVec k (some «namespace») = .ok out ∧
        NearestOf C (db.getD []) queryVec k «namespace» out) ↔
      Unobstructed (C.distance queryVec) k (inNamespace «namespace») (db.getD []) := by
  cases db with
  | none =>
    refine iff_of_true (fun search _ => ⟨[], by simp [LanceDbStore.query, queryV2, pure, Except.pure,
      bind, Except.bind], [], ⟨by simp, [], by simp⟩, by simp⟩) fun b hb => ?_
    simp at hb
  | some table =>
    rw [Option.getD_some, ← forall_filter_full_iff]
    constructor
    · intro hright
      have hsearch := findsNearest_othersFirst C.distance «namespace» k
      have hfull := (query_nearest_iff h hsearch rfl).mp (hright _ hsearch)
      rw [forall_filter_full_iff]
      exact unobstructed_of_selectOthersFirst hfull
    · intro hfull search hsearch
      obtain ⟨found, hfound, hnearest⟩ := hsearch table queryVec
      exact (query_nearest_iff h hsearch hfound).mpr (hfull found hnearest)

end

/-- The squared distance of vectors whose components are zero or one. -/
def differing (queryVec : List UInt32) (row : Chunk) : Nat :=
  (queryVec.zip row.vector).countP fun c => c.1 ≠ c.2

def binaryColumns : Columns Nat where
  distance := differing
  distanceText := Nat.repr
  parseDistance := String.toNat?
  epochText n := n.toNat.repr
  parseEpoch s := s.toNat?.map UInt64.ofNat

theorem binaryColumns_lawful : binaryColumns.Lawful where
  distance_text d := by simp [binaryColumns]
  epoch_text n := by simp [binaryColumns]

def binaryRow (id «namespace» : String) (vector : List UInt32) : Chunk :=
  ⟨id, «namespace», id, vector, "\x7b\x7d", 1⟩

/-- The row of another namespace is farther than both rows of the queried one. -/
theorem query_exact_apart : ∃ out,
    LanceDbStore.query binaryColumns (othersFirst differing "a") (some [binaryRow "a:1" "a" [0, 0],
        binaryRow "b:1" "b" [0x3f800000, 0x3f800000], binaryRow "a:2" "a" [0, 0x3f800000]]) [0, 0] 2
        (some "a") = .ok out ∧
      NearestOf binaryColumns [binaryRow "a:1" "a" [0, 0],
        binaryRow "b:1" "b" [0x3f800000, 0x3f800000], binaryRow "a:2" "a" [0, 0x3f800000]] [0, 0] 2
        "a" out :=
  (query_exact_iff binaryColumns_lawful (some [binaryRow "a:1" "a" [0, 0],
    binaryRow "b:1" "b" [0x3f800000, 0x3f800000], binaryRow "a:2" "a" [0, 0x3f800000]]) [0, 0] 2
    "a").mpr (by decide) _ (findsNearest_othersFirst differing "a" _)

/-- A nearer row of another namespace uses up the limit, and the row of the queried one is not
returned. -/
theorem query_misses_row : ¬ ∃ out,
    LanceDbStore.query binaryColumns (othersFirst differing "a") (some [binaryRow "b:1" "b" [0],
        binaryRow "a:1" "a" [0x3f800000]]) [0] 1 (some "a") = .ok out ∧
      NearestOf binaryColumns [binaryRow "b:1" "b" [0], binaryRow "a:1" "a" [0x3f800000]] [0] 1 "a"
        out := by
  rw [query_nearest_iff binaryColumns_lawful (findsNearest_othersFirst differing "a" _) rfl]
  decide

end ReactRuntime.Vector
