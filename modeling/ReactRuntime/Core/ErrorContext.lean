import ReactRuntime.Core.Redaction
import ReactRuntime.Library.Ranges
import ReactRuntime.Serde.Printer
import ReactRuntime.Session.Types

/-!
# Failure context

A failed tool call is shown to the model as one text. A text over the budget is cut down to windows
around the lines with a keyword, with its first and its last lines.
-/
namespace ReactRuntime.Core
open Library Serde Session

def MIN_EXCERPT_CHARS : Nat := 256

def KEYWORD_CONTEXT_LINES_AFTER : Nat := 9

/-- A line has one of the patterns, in lower case. -/
def hasPattern (patterns : List String) (line : List Char) : Bool :=
  patterns.any fun p => p.toList ≠ [] ∧ p.toList <:+: line.map Char.toLower

def keywordRanges (patterns : List String) (lines : List (List Char)) : List (Nat × Nat) :=
  (lines.zipIdx.filter fun l => hasPattern patterns l.1).map fun l =>
    (l.2 - 3, min (l.2 + KEYWORD_CONTEXT_LINES_AFTER) lines.length)

/-- The first lines and the last ones. -/
def edgeRanges (lines : List (List Char)) : List (Nat × Nat) :=
  let headN := min 10 lines.length
  let tailN := min 10 lines.length
  (0, headN) :: if lines.length > tailN then [(lines.length - tailN, lines.length)] else []

def mergeOverlappingRanges (ranges : List (Nat × Nat)) : List (Nat × Nat) := Ranges.merge ranges

/-- No line is repeated or dropped: the ranges that remain are apart and cover the same lines. -/
theorem mergeOverlappingRanges_spec (ranges : List (Nat × Nat)) :
    (∀ r ∈ mergeOverlappingRanges ranges, r.1 < r.2) ∧
      (mergeOverlappingRanges ranges).Pairwise (fun a b => a.1 < b.1 ∧ a.2 < b.1) ∧
      ∀ i, (∃ r ∈ mergeOverlappingRanges ranges, r.1 ≤ i ∧ i < r.2) ↔
        ∃ r ∈ ranges, r.1 ≤ i ∧ i < r.2 := by
  obtain ⟨hlt, hgap, hcovers⟩ := Ranges.merge_spec ranges
  refine ⟨hlt, ?_, hcovers⟩
  apply List.Pairwise.imp_of_mem _ hgap
  intro a b ha _ hab
  exact ⟨(hlt a ha).trans hab, hab⟩

def excerptRanges (patterns : List String) (lines : List (List Char)) : List (Nat × Nat) :=
  mergeOverlappingRanges (keywordRanges patterns lines ++ edgeRanges lines)

/-- A number of type `usize`. -/
def usizeText (n : Nat) : String := toString (n % 2 ^ 64)

@[irreducible] def excerptHeader (s e : Nat) : String :=
  "--- excerpt lines " ++ usizeText (s + 1) ++ ".." ++ usizeText e ++ " ---\n"

@[irreducible] def omittedMarker (maxChars includedLines totalLines : Nat) : String :=
  "\n...omitted (excerpt truncated; max_chars=" ++ toString maxChars ++ ", included_lines=" ++
    usizeText includedLines ++ ", total_lines=" ++ usizeText totalLines ++ ")"

def lineText (line : List Char) : List Char := if trim (.ofList line) = "" then [] else line

structure Excerpt where
  out : List Char
  includedLines : Nat

def Excerpt.push (acc : Excerpt) (line : List Char) : Excerpt :=
  ⟨acc.out ++ lineText line ++ ['\n'], acc.includedLines + 1⟩

/-- What an excerpt over the budget keeps, and the marker behind it. -/
def Excerpt.cut (acc : Excerpt) (maxChars totalLines : Nat) : List Char × List Char :=
  let marker := omittedMarker maxChars acc.includedLines totalLines
  (acc.out.take (maxChars - marker.length), marker.toList)

section
variable (maxChars totalLines : Nat)

/-- The lines of one range. The early return is an error. -/
def pushLines (acc : Excerpt) : List (List Char) → Except (List Char × List Char) Excerpt
  | [] => .ok acc
  | line :: rest =>
    if (acc.push line).out.length ≥ maxChars then .error ((acc.push line).cut maxChars totalLines)
    else pushLines (acc.push line) rest

def pushRanges (lines : List (List Char)) (acc : Excerpt) :
    List (Nat × Nat) → Except (List Char × List Char) Excerpt
  | [] => .ok acc
  | (s, e) :: rest => do
    -- the ranges are inside the text, so `lines[i]` is there for each index
    let out := if acc.out.isEmpty then acc.out else acc.out ++ ['\n']
    let acc ← pushLines maxChars lines.length ⟨out ++ (excerptHeader s e).toList, acc.includedLines⟩
      ((lines.take e).drop s)
    pushRanges lines acc rest

end

/-- The excerpt in front of its marker, and the marker. -/
def excerptParts (text : String) (maxChars : Nat) (patterns : List String) :
    List Char × List Char :=
  let maxChars := max maxChars MIN_EXCERPT_CHARS
  let lines := lines text.toList
  if lines.isEmpty then (text.toList.take maxChars, [])
  else
    match pushRanges maxChars lines ⟨[], 0⟩ (excerptRanges patterns lines) with
    | .error parts => parts
    | .ok acc => (acc.out.take maxChars, [])

def excerptByKeywords (text : String) (maxChars : Nat) (patterns : List String) : String :=
  let parts := excerptParts text maxChars patterns
  .ofList (parts.1 ++ parts.2)

/-- A path that is likely to lead to the text of an error or a log. -/
def isInteresting (path : String) : Bool :=
  let p := path.map Char.toLower
  ["stderr", "stdout", "logs", "trace", "message", "detail", "error"].any (containsText p)

mutual
def extractCommonStringFields (out : SortedMap String String) (path : String)
    (depth maxDepth : Nat) : Json → SortedMap String String
  | .str s =>
    if depth > maxDepth then out
    else if isInteresting path ∧ trim s ≠ "" then out.insert path s else out
  | .obj fs => if depth > maxDepth then out else extractFields out path (depth + 1) maxDepth fs
  | .arr xs => if depth > maxDepth then out else extractItems out path (depth + 1) maxDepth 0 xs
  | _ => out

def extractFields (out : SortedMap String String) (path : String) (depth maxDepth : Nat) :
    Fields → SortedMap String String
  | [] => out
  | (k, v) :: fs =>
    let next := if path = "" then k else path ++ "." ++ k
    extractFields (extractCommonStringFields out next depth maxDepth v) path depth maxDepth fs

def extractItems (out : SortedMap String String) (path : String) (depth maxDepth i : Nat) :
    List Json → SortedMap String String
  | [] => out
  | v :: xs =>
    let next := path ++ "[" ++ toString i ++ "]"
    extractItems (extractCommonStringFields out next depth maxDepth v) path depth maxDepth (i + 1) xs
end

section
variable (float : UInt64 → List Char)

def buildErrorBlob (observation : ToolObservation) : String :=
  let errors := if observation.errors.isEmpty then []
    else "errors:" :: observation.errors.filter fun e => trim e ≠ ""
  let extraV := Json.obj observation.extra.entries
  let extracted := (extractCommonStringFields SortedMap.empty "" 0 6 extraV).entries
  let extra :=
    if !extracted.isEmpty then
      "extra:" :: extracted.flatMap fun f => if trim f.2 = "" then [] else ["-- " ++ f.1 ++ " --", f.2]
    else if !observation.extra.entries.isEmpty then ["extra_json:", extraV.prettyText float]
    else []
  if (errors ++ extra).isEmpty then
    (Json.object [("ok", .bool observation.ok), ("errors", .arr (observation.errors.map .str)),
      ("warnings", .arr (observation.warnings.map .str)), ("extra", extraV)]).prettyText float
  else joinChar '\n' (errors ++ extra)

def defaultErrorMarkers : List String :=
  ["error", "exception", "panic", "traceback", "failed", "failure", "fatal", "timeout", "denied",
    "permission", "cannot", "not found", "invalid", "mismatched", "expected", "line ", "at "]

def renderFailureContext (observation : ToolObservation) (maxChars : Nat) : String :=
  let maxChars := max maxChars MIN_EXCERPT_CHARS
  let full := buildErrorBlob float observation
  if full.length ≤ maxChars then full else excerptByKeywords full maxChars defaultErrorMarkers

end

theorem length_toString (n : Nat) : (toString n).length = (Nat.toDigits 10 n).length := by
  rw [Nat.toString_eq_ofList_toDigits, String.length_ofList]

theorem length_usizeText_le (n : Nat) : (usizeText n).length ≤ 20 := by
  rw [usizeText, length_toString, Nat.length_toDigits_le_iff (by decide) (by decide)]
  exact (Nat.mod_lt n (by decide)).trans_le (by decide)

/-- A number needs far fewer digits than it counts. -/
theorem length_toString_le {n : Nat} (h : 256 ≤ n) : (toString n).length ≤ n - 130 := by
  obtain ⟨k, rfl⟩ := Nat.exists_eq_add_of_le h
  rw [length_toString, Nat.length_toDigits_le_iff (by decide) (by omega)]
  have hpower : 125 + k < 10 ^ (125 + k) := Nat.lt_pow_self (by decide)
  have hexponent : 256 + k - 130 = 125 + k + 1 := by omega
  rw [hexponent, pow_succ]
  omega

theorem length_omittedMarker_le {maxChars : Nat} (h : 256 ≤ maxChars)
    (includedLines totalLines : Nat) :
    (omittedMarker maxChars includedLines totalLines).length ≤ maxChars := by
  have hmax := length_toString_le h
  have hincluded := length_usizeText_le includedLines
  have htotal := length_usizeText_le totalLines
  have hopen : "\n...omitted (excerpt truncated; max_chars=".length = 42 := by decide
  have hsecond : ", included_lines=".length = 17 := by decide
  have hthird : ", total_lines=".length = 14 := by decide
  have hclose : ")".length = 1 := by decide
  unfold omittedMarker
  simp only [String.length_append, hopen, hsecond, hthird, hclose]
  omega

section
variable {maxChars totalLines : Nat} {acc acc' : Excerpt} {parts : List Char × List Char}

theorem length_cut_le (h : 256 ≤ maxChars) (acc : Excerpt) (totalLines : Nat) :
    ((acc.cut maxChars totalLines).1 ++ (acc.cut maxChars totalLines).2).length ≤ maxChars := by
  have hmarker := length_omittedMarker_le h acc.includedLines totalLines
  simp only [Excerpt.cut, List.length_append, List.length_take, String.length_toList]
  omega

/-- Only a cut returns early. -/
theorem pushLines_error {lines : List (List Char)}
    (h : pushLines maxChars totalLines acc lines = .error parts) :
    ∃ acc' : Excerpt, parts = acc'.cut maxChars totalLines := by
  induction lines generalizing acc with
  | nil => cases h
  | cons line rest ih =>
    rw [pushLines] at h
    split_ifs at h
    · cases h
      exact ⟨acc.push line, rfl⟩
    · exact ih h

theorem pushRanges_error {lines : List (List Char)} {ranges : List (Nat × Nat)}
    (h : pushRanges maxChars lines acc ranges = .error parts) :
    ∃ acc' : Excerpt, parts = acc'.cut maxChars lines.length := by
  induction ranges generalizing acc with
  | nil => cases h
  | cons r ranges ih =>
    obtain ⟨s, e⟩ := r
    rw [pushRanges] at h
    cases hlines : pushLines maxChars lines.length
        ⟨(if acc.out.isEmpty then acc.out else acc.out ++ ['\n']) ++ (excerptHeader s e).toList,
          acc.includedLines⟩ ((lines.take e).drop s) with
    | error parts' =>
      simp only [hlines] at h
      cases h
      exact pushLines_error hlines
    | ok acc' =>
      simp only [hlines] at h
      exact ih h

end

theorem length_excerptParts_le (text : String) (maxChars : Nat) (patterns : List String) :
    ((excerptParts text maxChars patterns).1 ++ (excerptParts text maxChars patterns).2).length ≤
      max maxChars MIN_EXCERPT_CHARS := by
  have htake (xs : List Char) (n : Nat) : (xs.take n ++ []).length ≤ n := by
    rw [List.append_nil]
    exact List.length_take_le n xs
  unfold excerptParts
  dsimp only
  split_ifs
  · exact htake _ _
  · cases hranges : pushRanges (max maxChars MIN_EXCERPT_CHARS) (lines text.toList) ⟨[], 0⟩
        (excerptRanges patterns (lines text.toList)) with
    | ok acc => exact htake _ _
    | error parts =>
      obtain ⟨acc, rfl⟩ := pushRanges_error hranges
      exact length_cut_le (Nat.le_max_right maxChars 256) acc _

theorem length_excerptByKeywords_le (text : String) (maxChars : Nat) (patterns : List String) :
    (excerptByKeywords text maxChars patterns).length ≤ max maxChars MIN_EXCERPT_CHARS := by
  rw [excerptByKeywords, String.length_ofList]
  exact length_excerptParts_le text maxChars patterns

/-- The failure context is bounded, and an error blob that fits is the whole of it. -/
theorem render_failure_context_bounded (float : UInt64 → List Char) :
    (∀ observation maxChars,
      (renderFailureContext float observation maxChars).length ≤ max maxChars MIN_EXCERPT_CHARS) ∧
    (∀ observation maxChars,
      (buildErrorBlob float observation).length ≤ max maxChars MIN_EXCERPT_CHARS →
      renderFailureContext float observation maxChars = buildErrorBlob float observation) ∧
    ∀ text maxChars patterns,
      (excerptByKeywords text maxChars patterns).length ≤ max maxChars MIN_EXCERPT_CHARS := by
  refine ⟨fun observation maxChars => ?_, fun observation maxChars hfits => if_pos hfits,
    length_excerptByKeywords_le⟩
  unfold renderFailureContext
  dsimp only
  split_ifs with hfits
  · exact hfits
  · have hexcerpt := length_excerptByKeywords_le (buildErrorBlob float observation)
      (max maxChars MIN_EXCERPT_CHARS) defaultErrorMarkers
    rwa [max_assoc, max_self] at hexcerpt

/-- A short blob is the whole context. -/
theorem render_failure_context_whole :
    renderFailureContext (fun _ => ['0', '.', '0']) (.fromFailure "fatal") 300 =
      "errors:\nfatal" := by
  have hblob : buildErrorBlob (fun _ => ['0', '.', '0']) (.fromFailure "fatal") =
      "errors:\nfatal" := by
    decide +kernel
  rw [(render_failure_context_bounded fun _ => ['0', '.', '0']).2.1 _ 300 (by rw [hblob]; decide),
    hblob]

end ReactRuntime.Core
