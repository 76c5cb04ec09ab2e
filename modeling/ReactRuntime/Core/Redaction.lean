import ReactRuntime.Core.Text
import ReactRuntime.Library.Utf8

/-!
# Redaction

Secrets in a text are replaced line by line. Offsets that were found in a copy of the line in lower
case, or counted from a match, are used to cut the line; a cut inside a character ends the program.
-/
namespace ReactRuntime.Core
open Library Utf8

/-- What `str::to_lowercase` takes from the tables of Unicode: the lower case of a character, and
whether a sigma with a given text around it is the last letter of a word. -/
structure LowerTable where
  char : Char → List Char
  endsWord : (before after : List Char) → Bool

def LowerTable.lower (U : LowerTable) (before : List Char) : List Char → List Char
  | [] => []
  | c :: rest =>
    (if c = 'Σ' then [if U.endsWord before rest then 'ς' else 'σ'] else U.char c) ++
      U.lower (before ++ [c]) rest

/-- `str::to_lowercase`. -/
def LowerTable.toLowercase (U : LowerTable) (s : List Char) : List Char := U.lower [] s

/-- `str::split_inclusive('\n')`. -/
def splitInclusive : List Char → List (List Char)
  | [] => []
  | c :: rest =>
    if c = '\n' then [c] :: splitInclusive rest
    else
      match splitInclusive rest with
      | [] => [[c]]
      | line :: more => (c :: line) :: more

/-- A line without the newline behind it, nor the carriage return in front of that. -/
def stripNewline (line : List Char) : List Char :=
  if line.getLast? = some '\n' then
    let front := line.dropLast
    if front.getLast? = some '\r' then front.dropLast else front
  else line

/-- `str::lines`. -/
def lines (s : List Char) : List (List Char) := (splitInclusive s).map stripNewline

def redacted : List Char := "<redacted>".toList

def authorization : List Char := "authorization:".toList

def bearer : List Char := "bearer ".toList

/-- A byte that is whitespace when it is read as a character. -/
def isBlankByte (b : UInt8) : Bool := isWhitespace (Char.ofNat b.toNat)

/-- The number of bytes up to the first blank one. -/
def tokenLength (bytes : List UInt8) : Nat := (bytes.takeWhile fun b => !isBlankByte b).length

/-- The branch of a line with a bearer token, found at an offset of its copy in lower case. -/
def redactBearer (line : List Char) (idx : Nat) : Option (List Char) :=
  let start := idx + bearer.length
  let stop := start + tokenLength ((bytes line).drop start)
  if start < stop ∧ stop ≤ byteLength line then replaceRange line start stop redacted else some line

def sensitiveKeys : List (List Char) :=
  ["aws_access_key_id".toList, "aws_secret_access_key".toList, "aws_session_token".toList,
    "access_token".toList, "refresh_token".toList, "api_key".toList, "x-api-key".toList]

def redactedKey : List Char := "<redacted_aws_access_key_id>".toList

/-- How a key of an account or of a session starts. -/
inductive KeyStart where
  | akia
  | asia

def KeyStart.text : KeyStart → List Char
  | .akia => "AKIA".toList
  | .asia => "ASIA".toList

theorem KeyStart.byteLength_text (k : KeyStart) : byteLength k.text = 4 := by
  cases k <;> decide

/-- The loop over the places where a key may start. It is `none` where a slice panics. -/
def redactKeysFrom (k : KeyStart) (s : List Char) (searchFrom : Nat) : Option (List Char) :=
  match _hfrom : sliceFrom s searchFrom with
  | none => none
  | some rest =>
    match _hfind : find k.text rest with
    | none => some s
    | some pos =>
      let abs := searchFrom + pos
      let stop := abs + 20
      if _hstop : stop ≤ byteLength s then
        match slice s abs stop with
        | none => none
        | some key =>
          if key.all Char.isAlphanum then
            match _hreplace : replaceRange s abs stop redactedKey with
            | none => none
            | some s' => redactKeysFrom k s' (abs + byteLength redactedKey)
          else redactKeysFrom k s (abs + byteLength k.text)
      else redactKeysFrom k s (abs + byteLength k.text)
termination_by byteLength s - searchFrom
decreasing_by
  all_goals
    obtain ⟨front, hs, hfront⟩ := sliceFrom_eq_some.mp _hfrom
    obtain ⟨skipped, more, hrest, hpos, -⟩ := find_eq_some.mp _hfind
    have hlength := k.byteLength_text
    simp only [hs, hrest, byteLength_append] at *
  · have hreplaced := (byteLength_replaceRange _hreplace).2
    simp only [byteLength_append] at hreplaced
    omega
  · omega
  · omega

def redactKeys (line : List Char) : Option (List Char) :=
  (redactKeysFrom .akia line 0).bind fun s => redactKeysFrom .asia s 0

def redactLine (U : LowerTable) (line : List Char) : Option (List Char) :=
  let lower := U.toLowercase line
  if (find authorization lower).isSome ∧ ':' ∈ line then
    some ((trim (.ofList (line.takeWhile (· ≠ ':')))).toList ++ ": <redacted>".toList)
  else
    match find bearer lower with
    | some idx => redactBearer line idx
    | none =>
      match sensitiveKeys.find? fun k => (find k lower).isSome with
      | some k => some (k ++ ": <redacted>".toList)
      | none => redactKeys line

def redactCommonSecrets (U : LowerTable) (input : String) : Option String :=
  ((lines input.toList).mapM (redactLine U)).map fun out => .ofList (['\n'].intercalate out)

/-- Only the capital letters of ASCII have a lower case. -/
def asciiTable : LowerTable := ⟨fun c => [c.toLower], fun _ _ => false⟩

end ReactRuntime.Core
