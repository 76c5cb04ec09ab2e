import Mathlib.Data.String.Basic
import ReactRuntime.Core.Redaction
import ReactRuntime.Kb.Chunking
import ReactRuntime.Library.Program
import ReactRuntime.Library.SortedMap

/-!
# The parts of a prompt

For the log of the calls each part of a prompt is cut at its blank lines. A chunk that has been
printed before for the same thread and the same part is replaced by its hash. The chunks that have
been printed are remembered in a set that all calls share, until it has grown too large.
-/
namespace ReactRuntime.Llm
open Library ReactRuntime.Core Kb

structure PartInput where
  name : String
  text : String

/-- A part as it is printed. -/
structure Part where
  name : String
  hash : String
  text : String
deriving DecidableEq

structure BuiltParts where
  parts : List Part
  partHashes : SortedMap String String
deriving DecidableEq

def MAX_PART_SEEN_ENTRIES : Nat := 10000

/-- The calls on the shared set. -/
inductive PartCall where
  | insert (key : String)
  | len
  | clear

@[reducible] def PartCall.Answer : PartCall → Type
  | .insert _ => Bool
  | .len => Nat
  | .clear => Unit

section
variable {α : Type}

def evictPartSeenCacheIfFull (rest : Program PartCall PartCall.Answer α) :
    Program PartCall PartCall.Answer α :=
  .call .len fun n => if n > MAX_PART_SEEN_ENTRIES then .call .clear fun _ => rest else rest

end

variable (sha256HexStr : String → String) (U : LowerTable)

def chunkSeenKey (threadId name chunk : String) : String :=
  threadId ++ "::" ++ name ++ "::" ++ sha256HexStr chunk

/-- A chunk with its hash, so that later references to it can be traced back. -/
def fullChunk (hash text : String) : String := "hash: " ++ hash ++ "\n" ++ text

def unchangedChunk (hash : String) : String := "unchanged: " ++ hash

/-- The chunks of one part; `none` where the redaction panics. -/
def renderChunks (threadId name : String) :
    List String → Program PartCall PartCall.Answer (Option (List String))
  | [] => .ret (some [])
  | chunk :: chunks =>
    .call (.insert (chunkSeenKey sha256HexStr threadId name chunk)) fun inserted =>
      evictPartSeenCacheIfFull <|
        let rendered := if inserted then
            (redactCommonSecrets U chunk).map (fullChunk (sha256HexStr chunk))
          else some (unchangedChunk (sha256HexStr chunk))
        match rendered with
        | none => .ret none
        | some piece => (renderChunks threadId name chunks).bind fun r =>
          .ret (r.map (piece :: ·))

/-- Texts joined by blank lines. -/
def joinBlank (texts : List String) : String :=
  .ofList (['\n', '\n'].intercalate (texts.map String.toList))

def buildPart (threadId : String) (p : PartInput) :
    Program PartCall PartCall.Answer (Option Part) :=
  (renderChunks sha256HexStr U threadId (trim p.name) (paragraphs p.text)).bind fun r =>
    .ret (r.map fun pieces => ⟨trim p.name, sha256HexStr p.text, joinBlank pieces⟩)

def buildParts (threadId : String) :
    List PartInput → Program PartCall PartCall.Answer (Option (List Part))
  | [] => .ret (some [])
  | p :: ps => (buildPart sha256HexStr U threadId p).bind fun r => match r with
    | none => .ret none
    | some part => (buildParts threadId ps).bind fun rs => .ret (rs.map (part :: ·))

def buildPartsForThread (threadId : String) (parts : List PartInput) :
    Program PartCall PartCall.Answer (Option BuiltParts) :=
  (buildParts sha256HexStr U threadId parts).bind fun r => .ret (r.map fun built =>
    ⟨built, built.foldl (fun hashes part => hashes.insert part.name part.hash) SortedMap.empty⟩)

/-- The keys in the set, and the keys that each call was the first to insert. -/
structure SeenState (τ : Type) where
  seen : List String
  first : τ → List String

section
variable {τ : Type} [DecidableEq τ]

def SeenState.insert (s : SeenState τ) (t : τ) (key : String) : SeenState τ where
  seen := key :: s.seen
  first := Function.update s.first t (s.first t ++ [key])

@[simp] theorem SeenState.first_insert (s : SeenState τ) (t : τ) (key : String) :
    (s.insert t key).first t = s.first t ++ [key] := by
  simp [SeenState.insert]

theorem SeenState.first_insert_of_ne {s : SeenState τ} {t u : τ} (hu : u ≠ t) (key : String) :
    (s.insert t key).first u = s.first u := by
  simp [SeenState.insert, hu]

theorem SeenState.mem_first_insert {s : SeenState τ} {t u : τ} {key k : String} :
    k ∈ (s.insert t key).first u ↔ k ∈ s.first u ∨ u = t ∧ k = key := by
  by_cases hu : u = t
  · subst hu
    simp
  · simp [SeenState.first_insert_of_ne hu, hu]

end

def partWorld (τ : Type) [DecidableEq τ] :
    World τ Unit (SeenState τ) PartCall PartCall.Answer where
  exec t _ c s := match c with
    | .insert key => if key ∈ s.seen then some (s, false) else some (s.insert t key, true)
    | .len => some (s, s.seen.length)
    | .clear => some ({ s with seen := [] }, ())

section
variable {α : Type} [DecidableEq α]

omit [DecidableEq α] in
theorem intercalate_modifyHead (pattern : List α) {texts : List (List α)} (hne : texts ≠ [])
    (x : α) : pattern.intercalate (texts.modifyHead (x :: ·)) = x :: pattern.intercalate texts := by
  cases texts with
  | nil => exact absurd rfl hne
  | cons text texts =>
    cases texts with
    | nil => simp
    | cons text' texts => simp [List.intercalate]

theorem intercalate_splitText {pattern : List α} (hpattern : pattern ≠ []) (skip : Nat)
    (xs : List α) : pattern.intercalate (splitText pattern skip xs) = xs.drop skip := by
  induction xs generalizing skip with
  | nil => simp [splitText]
  | cons x xs ih =>
    cases skip with
    | succ skip => rw [splitText, ih, List.drop_succ_cons]
    | zero =>
      rw [splitText]
      split_ifs with hstart
      · obtain ⟨rest, hrest⟩ := hstart
        have hlength : 0 < pattern.length := List.length_pos_iff.mpr hpattern
        have hdrop : xs.drop (pattern.length - 1) = rest := by
          have hall : (x :: xs).drop pattern.length = rest := by rw [← hrest, List.drop_left]
          rwa [← Nat.sub_add_cancel hlength, List.drop_succ_cons] at hall
        have hcons : pattern.intercalate ([] :: splitText pattern (pattern.length - 1) xs) =
            pattern ++ pattern.intercalate (splitText pattern (pattern.length - 1) xs) := by
          cases hsplit : splitText pattern (pattern.length - 1) xs with
          | nil => exact absurd hsplit (splitText_ne_nil _ _ _)
          | cons text texts => simp [List.intercalate]
        rw [hcons, ih, hdrop, hrest, List.drop_zero]
      · rw [intercalate_modifyHead pattern (splitText_ne_nil pattern 0 xs), ih]
        rfl

end

/-- Cutting at blank lines loses nothing. -/
@[simp] theorem joinBlank_paragraphs (text : String) : joinBlank (paragraphs text) = text := by
  have hmap : (paragraphs text).map String.toList = splitText ['\n', '\n'] 0 text.toList := by
    rw [paragraphs, List.map_map]
    exact (List.map_congr_left fun _ _ => String.toList_ofList).trans (List.map_id _)
  rw [joinBlank, hmap, intercalate_splitText (by decide), List.drop_zero, String.ofList_toList]

end ReactRuntime.Llm
