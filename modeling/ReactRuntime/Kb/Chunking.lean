import Mathlib.Data.List.DropRight
import Mathlib.Data.List.Infix
import ReactRuntime.Core.Text

/-!
# Chunks of a document

A text is cut at blank lines and its paragraphs are packed into chunks of at most `chunkChars`
characters. A paragraph that is longer is cut into pieces. Only whitespace is lost.
-/
namespace ReactRuntime.Kb
open ReactRuntime.Core

section
variable {α : Type} [DecidableEq α]

/-- `str::split` with a text; the first `skip` elements belong to the last place of the text. -/
def splitText (pattern : List α) : (skip : Nat) → List α → List (List α)
  | _, [] => [[]]
  | skip + 1, _ :: xs => splitText pattern skip xs
  | 0, x :: xs =>
    if pattern <+: x :: xs then [] :: splitText pattern (pattern.length - 1) xs
    else (splitText pattern 0 xs).modifyHead (x :: ·)

end

/-- `text::split_at_chars`. -/
def splitAtChars (s : String) (n : Nat) : String × String :=
  (.ofList (s.toList.take n), .ofList (s.toList.drop n))

/-- The chunks that the loop pushes for the rest of the text. The first one is empty if nothing is
left and if `chunkChars` is 0. -/
def hardChunks (rest : String) (chunkChars : Nat) : List String :=
  if hempty : (splitAtChars rest chunkChars).1 = "" then []
  else
    have : (splitAtChars rest chunkChars).2.toList.length < rest.toList.length := by
      rw [splitAtChars, ← String.toList_inj, String.toList_ofList, String.toList_empty,
        ← List.length_eq_zero_iff, List.length_take] at hempty
      rw [splitAtChars, String.toList_ofList, List.length_drop]
      omega
    (splitAtChars rest chunkChars).1 :: hardChunks (splitAtChars rest chunkChars).2 chunkChars
termination_by rest.toList.length

structure Chunker where
  out : List String
  buf : String
deriving DecidableEq, Repr

namespace Chunker

def push (chunkChars : Nat) (self : Chunker) (para : String) : Chunker :=
  let p := trim para
  if p = "" then self
  else if p.toList.length > chunkChars then
    let flushed := if trim self.buf ≠ "" then ⟨self.out ++ [trim self.buf], ""⟩ else self
    { flushed with out := flushed.out ++ hardChunks p chunkChars }
  else
    let sep := if self.buf = "" then 0 else 2
    let flushed := if self.buf.toList.length + p.toList.length + sep > chunkChars ∧ self.buf ≠ ""
      then ⟨self.out ++ [trim self.buf], ""⟩ else self
    { flushed with buf := (if flushed.buf ≠ "" then flushed.buf ++ "\n\n" else flushed.buf) ++ p }

/-- What is still in the buffer is the last chunk. -/
def finish (self : Chunker) : List String :=
  if trim self.buf ≠ "" then self.out ++ [trim self.buf] else self.out

end Chunker

def paragraphs (text : String) : List String :=
  (splitText ['\n', '\n'] 0 text.toList).map .ofList

def chunkText (text : String) (chunkChars : Nat) : List String :=
  let out := ((paragraphs text).foldl (Chunker.push chunkChars) ⟨[], ""⟩).finish
  if out = [] ∧ trim text ≠ "" then hardChunks (trim text) chunkChars else out

/-- The characters that are not whitespace. -/
def visible (s : String) : List Char := s.toList.filter (!isWhitespace ·)

theorem visible_append (s t : String) : visible (s ++ t) = visible s ++ visible t := by
  rw [visible, String.toList_append, List.filter_append]
  rfl

theorem visible_eq_nil {s : String} : visible s = [] ↔ ∀ c ∈ s.toList, isWhitespace c = true := by
  simp [visible, List.filter_eq_nil_iff]

theorem filter_dropWhile_not {α : Type} (p : α → Bool) (xs : List α) :
    (xs.dropWhile p).filter (!p ·) = xs.filter (!p ·) := by
  induction xs with
  | nil => rfl
  | cons x xs ih => by_cases hx : p x <;> simp [hx, ih]

theorem visible_trim (s : String) : visible (trim s) = visible s := by
  rw [visible, toList_trim, List.rdropWhile, List.filter_reverse, filter_dropWhile_not,
    ← List.filter_reverse, List.reverse_reverse, filter_dropWhile_not]
  rfl

theorem trim_eq_empty {s : String} : trim s = "" ↔ visible s = [] := by
  constructor
  · intro hempty
    rw [← visible_trim, hempty]
    rfl
  · intro hblank
    have hdrop : s.toList.dropWhile isWhitespace = [] :=
      List.dropWhile_eq_nil_iff.mpr (visible_eq_nil.mp hblank)
    rw [← String.toList_inj, toList_trim, hdrop]
    rfl

theorem length_trim_le (s : String) : (trim s).toList.length ≤ s.toList.length := by
  rw [toList_trim]
  exact (List.rdropWhile_prefix ..).length_le.trans (List.dropWhile_suffix _).length_le

section
variable {α : Type} [DecidableEq α] {keep : α → Bool} {pattern : List α}

theorem splitText_ne_nil (pattern : List α) (skip : Nat) (xs : List α) :
    splitText pattern skip xs ≠ [] := by
  induction xs generalizing skip with
  | nil => simp [splitText]
  | cons x xs ih =>
    cases skip with
    | succ skip => exact ih skip
    | zero =>
      rw [splitText]
      split_ifs
      · simp
      · simpa using ih 0

/-- Parts that are split off lose the text between them, which is whitespace here. -/
theorem filter_splitText (hne : pattern ≠ []) (hpattern : pattern.filter keep = []) (skip : Nat)
    (xs : List α) : (splitText pattern skip xs).flatten.filter keep = (xs.drop skip).filter keep := by
  induction xs generalizing skip with
  | nil => simp [splitText]
  | cons x xs ih =>
    cases skip with
    | succ skip =>
      rw [splitText, List.drop_succ_cons]
      exact ih skip
    | zero =>
      rw [splitText, List.drop_zero]
      split_ifs with hstarts
      · obtain ⟨rest, hrest⟩ := hstarts
        obtain ⟨y, ys, rfl⟩ := List.exists_cons_of_ne_nil hne
        rw [List.cons_append] at hrest
        obtain ⟨rfl, rfl⟩ := List.cons_eq_cons.mp hrest
        rw [List.flatten_cons, List.nil_append, ih, List.length_cons, Nat.add_sub_cancel,
          List.drop_left, ← List.cons_append, List.filter_append, hpattern, List.nil_append]
      · obtain ⟨first, parts, hparts⟩ := List.exists_cons_of_ne_nil (splitText_ne_nil pattern 0 xs)
        have hrest := ih 0
        rw [hparts, List.drop_zero, List.flatten_cons] at hrest
        rw [hparts, List.modifyHead_cons, List.flatten_cons, List.cons_append, List.filter_cons,
          List.filter_cons, hrest]

end

/-- The paragraphs have every visible character of the text. -/
theorem visible_paragraphs (text : String) : (paragraphs text).flatMap visible = visible text := by
  have hblank : ['\n', '\n'].filter (!isWhitespace ·) = [] := by decide
  have hsplit := filter_splitText (by simp) hblank 0 text.toList
  rw [List.drop_zero, List.filter_flatten] at hsplit
  rw [paragraphs, List.flatMap_map, visible, ← hsplit, List.flatMap]
  congr 1
  apply List.map_congr_left
  intro part _
  rw [visible, String.toList_ofList]

/-- No part is empty or too long, and together they are the whole text. -/
theorem hardChunks_spec {chunkChars : Nat} (hpos : 1 ≤ chunkChars) (rest : String) :
    (∀ chunk ∈ hardChunks rest chunkChars, chunk ≠ "" ∧ chunk.toList.length ≤ chunkChars) ∧
      (hardChunks rest chunkChars).flatMap String.toList = rest.toList := by
  fun_induction hardChunks rest chunkChars with
  | case1 rest hempty =>
    rw [splitAtChars, ← String.toList_inj, String.toList_ofList, String.toList_empty,
      List.take_eq_nil_iff] at hempty
    simp only [List.not_mem_nil, false_implies, implies_true, List.flatMap_nil, true_and]
    rcases hempty with hzero | hnil
    · omega
    · exact hnil.symm
  | case2 rest hne _ ih =>
    obtain ⟨hchunks, hflat⟩ := ih
    constructor
    · rw [List.forall_mem_cons]
      refine ⟨⟨hne, ?_⟩, hchunks⟩
      rw [splitAtChars, String.toList_ofList]
      exact List.length_take_le ..
    · rw [List.flatMap_cons, hflat, splitAtChars, String.toList_ofList, String.toList_ofList,
        List.take_append_drop]

theorem visible_hardChunks {chunkChars : Nat} (hpos : 1 ≤ chunkChars) (rest : String) :
    (hardChunks rest chunkChars).flatMap visible = visible rest := by
  rw [visible, ← (hardChunks_spec hpos rest).2, List.filter_flatMap]
  rfl

/-- What the chunks and the buffer have of the text `seen` so far. -/
structure Packed (chunkChars : Nat) (seen : List Char) (c : Chunker) : Prop where
  chunks : ∀ chunk ∈ c.out, chunk ≠ "" ∧ chunk.toList.length ≤ chunkChars
  fits : c.buf.toList.length ≤ chunkChars
  filled : c.buf ≠ "" → visible c.buf ≠ []
  kept : c.out.flatMap visible ++ visible c.buf = seen

namespace Packed
variable {chunkChars : Nat} {seen : List Char} {c : Chunker}

/-- The buffer becomes a chunk. -/
theorem flush (h : Packed chunkChars seen c) (hbuf : c.buf ≠ "") :
    Packed chunkChars seen ⟨c.out ++ [trim c.buf], ""⟩ where
  chunks := by
    intro chunk hchunk
    rcases List.mem_append.mp hchunk with hchunk | hchunk
    · exact h.chunks chunk hchunk
    · rw [List.mem_singleton.mp hchunk]
      exact ⟨fun hempty => h.filled hbuf (trim_eq_empty.mp hempty),
        (length_trim_le c.buf).trans h.fits⟩
  fits := by simp
  filled := by simp
  kept := by
    rw [← h.kept, List.flatMap_append, List.flatMap_singleton, visible_trim]
    exact List.append_nil _

/-- The chunker has nothing in its buffer that is only whitespace. -/
theorem trim_ne_iff (h : Packed chunkChars seen c) : trim c.buf ≠ "" ↔ c.buf ≠ "" := by
  rw [Ne, trim_eq_empty]
  constructor
  · intro hvisible hempty
    apply hvisible
    rw [hempty]
    rfl
  · exact h.filled

/-- Chunks that are pushed past an empty buffer. -/
theorem extend (h : Packed chunkChars seen c) (hbuf : c.buf = "") {chunks : List String}
    (hchunks : ∀ chunk ∈ chunks, chunk ≠ "" ∧ chunk.toList.length ≤ chunkChars) :
    Packed chunkChars (seen ++ chunks.flatMap visible) { c with out := c.out ++ chunks } where
  chunks := by
    intro chunk hchunk
    rcases List.mem_append.mp hchunk with hchunk | hchunk
    · exact h.chunks chunk hchunk
    · exact hchunks chunk hchunk
  fits := h.fits
  filled := h.filled
  kept := by
    have hnone : visible c.buf = [] := by
      rw [hbuf]
      rfl
    have hkept := h.kept
    rw [hnone, List.append_nil] at hkept
    dsimp only
    rw [hnone, List.flatMap_append, hkept, List.append_nil]

/-- A paragraph that the buffer has room for. -/
theorem join (h : Packed chunkChars seen c) {p : String} (hp : visible p ≠ [])
    (hroom : c.buf.toList.length + p.toList.length + (if c.buf = "" then 0 else 2) ≤ chunkChars) :
    Packed chunkChars (seen ++ visible p)
      { c with buf := (if c.buf ≠ "" then c.buf ++ "\n\n" else c.buf) ++ p } where
  chunks := h.chunks
  fits := by
    dsimp only
    rw [String.toList_append, List.length_append]
    by_cases hbuf : c.buf = ""
    · rw [if_pos hbuf] at hroom
      rw [if_neg (by simpa using hbuf)]
      omega
    · rw [if_neg hbuf] at hroom
      rw [if_pos hbuf, String.toList_append, List.length_append]
      have hsep : "\n\n".toList.length = 2 := by decide
      omega
  filled := by
    intro _ hnone
    rw [visible_append, List.append_eq_nil_iff] at hnone
    exact hp hnone.2
  kept := by
    have hsep : visible (if c.buf ≠ "" then c.buf ++ "\n\n" else c.buf) = visible c.buf := by
      split_ifs
      · have hnone : visible "\n\n" = [] := by decide
        rw [visible_append, hnone, List.append_nil]
      · rfl
    dsimp only
    rw [visible_append, hsep, ← List.append_assoc, h.kept]

theorem push (h : Packed chunkChars seen c) (hpos : 1 ≤ chunkChars) (para : String) :
    Packed chunkChars (seen ++ visible para) (c.push chunkChars para) := by
  have hblank : trim para = "" ↔ visible (trim para) = [] := by rw [trim_eq_empty, visible_trim]
  unfold Chunker.push
  rw [← visible_trim para]
  generalize trim para = p at *
  dsimp only
  by_cases hp : p = ""
  · rw [if_pos hp, hblank.mp hp, List.append_nil]
    exact h
  · rw [if_neg hp]
    by_cases hlong : p.toList.length > chunkChars
    · rw [if_pos hlong, ← visible_hardChunks hpos p]
      have hchunks := (hardChunks_spec hpos p).1
      by_cases hbuf : c.buf = ""
      · rw [if_neg (h.trim_ne_iff.not.mpr (by simpa using hbuf))]
        exact h.extend hbuf hchunks
      · rw [if_pos (h.trim_ne_iff.mpr hbuf)]
        exact (h.flush hbuf).extend rfl hchunks
    · rw [if_neg hlong]
      have hvisible : visible p ≠ [] := hblank.not.mp hp
      by_cases hfull : c.buf.toList.length + p.toList.length + (if c.buf = "" then 0 else 2) >
          chunkChars ∧ c.buf ≠ ""
      · rw [if_pos hfull]
        apply (h.flush hfull.2).join hvisible
        simpa using hlong
      · rw [if_neg hfull]
        apply h.join hvisible
        by_cases hbuf : c.buf = ""
        · simpa [hbuf] using hlong
        · by_contra hroom
          exact hfull ⟨by omega, hbuf⟩

/-- The chunks of a whole text. -/
theorem foldl (h : Packed chunkChars seen c) (hpos : 1 ≤ chunkChars) (paras : List String) :
    Packed chunkChars (seen ++ paras.flatMap visible) (paras.foldl (Chunker.push chunkChars) c) := by
  induction paras generalizing seen c with
  | nil => simpa using h
  | cons para paras ih =>
    rw [List.foldl_cons, List.flatMap_cons, ← List.append_assoc]
    exact ih (h.push hpos para)

theorem finish (h : Packed chunkChars seen c) :
    (∀ chunk ∈ c.finish, chunk ≠ "" ∧ chunk.toList.length ≤ chunkChars) ∧
      c.finish.flatMap visible = seen := by
  unfold Chunker.finish
  split_ifs with hbuf
  · have hflush := h.flush (h.trim_ne_iff.mp hbuf)
    exact ⟨hflush.chunks, by simpa [visible] using hflush.kept⟩
  · have hnone : visible c.buf = [] := by simpa [trim_eq_empty] using hbuf
    have hkept := h.kept
    rw [hnone, List.append_nil] at hkept
    exact ⟨h.chunks, hkept⟩

end Packed

theorem packed_start (chunkChars : Nat) : Packed chunkChars [] ⟨[], ""⟩ where
  chunks := by simp
  fits := by simp
  filled := by simp
  kept := rfl

/-- The chunks are not empty and not too long, and they have the visible characters of the text. -/
theorem chunkText_spec (text : String) {chunkChars : Nat} (hpos : 1 ≤ chunkChars) :
    (∀ chunk ∈ chunkText text chunkChars, chunk ≠ "" ∧ chunk.toList.length ≤ chunkChars) ∧
      (chunkText text chunkChars).flatMap visible = visible text := by
  unfold chunkText
  dsimp only
  split_ifs
  · rw [visible_hardChunks hpos, visible_trim]
    exact ⟨(hardChunks_spec hpos (trim text)).1, rfl⟩
  · have hpacked := (packed_start chunkChars).foldl hpos (paragraphs text)
    rw [List.nil_append, visible_paragraphs] at hpacked
    exact hpacked.finish

theorem chunkText_spec_words :
    (∀ chunk ∈ chunkText "ab\n\n cde f" 3, chunk ≠ "" ∧ chunk.toList.length ≤ 3) ∧
      (chunkText "ab\n\n cde f" 3).flatMap visible = visible "ab\n\n cde f" :=
  chunkText_spec "ab\n\n cde f" (by decide)

end ReactRuntime.Kb
