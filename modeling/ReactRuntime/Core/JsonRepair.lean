import ReactRuntime.Core.Text
import ReactRuntime.Library.JsonSymbols
import ReactRuntime.Serde.Reader

/-!
# JSON in the answers of a model

A model may write text around a document, raw control characters in its strings or escapes that JSON
does not have. A document is looked for with one repair after another.
-/
namespace ReactRuntime.Core
open Library JsonText Serde

/-- Where a repair stands: in a string, after a backslash. -/
structure Quoting where
  inStr : Bool
  esc : Bool
deriving DecidableEq, Repr

def escapeControl (ch : Char) : List Char :=
  if ch = '\n' then ['\\', 'n']
  else if ch = '\r' then ['\\', 'r']
  else if ch = '\t' then ['\\', 't']
  else if ch.toNat = 0x08 then ['\\', 'b']
  else if ch.toNat = 0x0C then ['\\', 'f']
  else if ch.toNat < 0x20 then
    ['\\', 'u', '0', '0', Nat.digitChar (ch.toNat / 16), Nat.digitChar (ch.toNat % 16)]
  else [ch]

/-- The loop of `escape_control_chars_in_json_strings`: what is put out for a character. -/
def Quoting.escapeStep (q : Quoting) (ch : Char) : Quoting × List Char :=
  if q.inStr then
    if q.esc then ({ q with esc := false }, [ch])
    else if ch = '\\' then ({ q with esc := true }, [ch])
    else if ch = '"' then ({ q with inStr := false }, [ch])
    else (q, escapeControl ch)
  else
    if q.esc then ({ q with esc := false }, [ch])
    else if ch = '"' then ({ q with inStr := true }, [ch])
    else if ch = '\\' then ({ q with esc := true }, [ch])
    else (q, [ch])

def escapeFrom (q : Quoting) : List Char → List Char
  | [] => []
  | ch :: rest => (q.escapeStep ch).2 ++ escapeFrom (q.escapeStep ch).1 rest

def escapeControlCharsInJsonStrings (s : String) : String :=
  .ofList (escapeFrom ⟨false, false⟩ s.toList)

/-- The loop of `repair_invalid_json_escapes`. -/
def repairEscapes : (inStr : Bool) → List Char → List Char
  | _, [] => []
  | false, ch :: rest => ch :: repairEscapes (ch == '"') rest
  | true, ch :: rest =>
    if ch = '"' then ch :: repairEscapes false rest
    else if ch = '\\' then
      match rest with
      | [] => [ch]
      | next :: rest' =>
        if next ∈ 'u' :: escapes then ch :: next :: repairEscapes true rest'
        else '\\' :: '\\' :: repairEscapes true (next :: rest')
    else ch :: repairEscapes true rest

def repairInvalidJsonEscapes (s : String) : String := .ofList (repairEscapes false s.toList)

/-- Where the search for the end of a value stands: the open brackets, and whether in a string. -/
structure Scanner where
  stack : List Char
  inStr : Bool
  esc : Bool
deriving DecidableEq, Repr

namespace Scanner

def start : Scanner := ⟨[], false, false⟩

/-- A bracket that closes: the value ends if it closes the first one. -/
def close (st : Scanner) (opening : Char) : Option Scanner :=
  if st.stack.head? = some opening ∧ st.stack.tail = [] then none
  else some { st with stack := st.stack.tail }

/-- The next state, or `none` where the value ends. -/
def step (st : Scanner) (ch : Char) : Option Scanner :=
  if st.stack = [] then some { st with stack := [ch] }
  else if st.inStr then
    if st.esc then some { st with esc := false }
    else if ch = '\\' then some { st with esc := true }
    else if ch = '"' then some { st with inStr := false }
    else some st
  else if ch = '"' then some { st with inStr := true }
  else if ch = '{' ∨ ch = '[' then some { st with stack := ch :: st.stack }
  else if ch = '}' then st.close '{'
  else if ch = ']' then st.close '['
  else some st

/-- The text up to the end of the value, and the text after it. -/
def findEnd (st : Scanner) : List Char → Option (List Char × List Char)
  | [] => none
  | ch :: rest =>
    match st.step ch with
    | none => some ([ch], rest)
    | some st' => (st'.findEnd rest).map fun found => (ch :: found.1, found.2)

end Scanner

def opens (ch : Char) : Bool := ch = '{' || ch = '['

def extractFrom (s : List Char) : (max : Nat) → List (List Char)
  | 0 => []
  | max + 1 =>
    match Scanner.start.findEnd (s.dropWhile fun ch => !opens ch) with
    | none => []
    | some (value, rest) => value :: extractFrom rest max

def extractAllJsonValues (s : String) (max : Nat) : List String :=
  (extractFrom s.toList max).map .ofList

section
variable (S : SerdeJson)

def tryFirstJsonValue (s : String) : Option Json := S.firstValue s

/-- `resilient_parse::<Value>`. -/
def resilientParse (text : String) : Except String Json :=
  let s := trim text
  match S.read s <|> tryFirstJsonValue S s <|> S.read (escapeControlCharsInJsonStrings s) <|>
    S.read (repairInvalidJsonEscapes s) <|> (extractAllJsonValues s 8).findSome? S.read with
  | some v => .ok v
  | none => .error "LLM response did not contain valid JSON"

def resilientParseStringField (rawJson : String) : Except String Json :=
  let repairedEsc := repairInvalidJsonEscapes rawJson
  match S.read rawJson <|> S.read (escapeControlCharsInJsonStrings rawJson) <|>
    S.read repairedEsc with
  | some v => .ok v
  | none => (S.fromStr (escapeControlCharsInJsonStrings repairedEsc)).mapError fun e =>
    "not valid JSON string: " ++ e

end

/-- A repair keeps the first character. -/
theorem toList_escapeControl_cons {s : String} {ch : Char} {rest : List Char}
    (h : s.toList = ch :: rest) :
    ∃ rest', (escapeControlCharsInJsonStrings s).toList = ch :: rest' := by
  refine ⟨escapeFrom (Quoting.escapeStep ⟨false, false⟩ ch).1 rest, ?_⟩
  rw [escapeControlCharsInJsonStrings, h, String.toList_ofList, escapeFrom]
  by_cases hquote : ch = '"' <;> by_cases hbackslash : ch = '\\' <;>
    simp [Quoting.escapeStep, hquote, hbackslash]

theorem toList_repairEscapes_cons {s : String} {ch : Char} {rest : List Char}
    (h : s.toList = ch :: rest) :
    ∃ rest', (repairInvalidJsonEscapes s).toList = ch :: rest' :=
  ⟨repairEscapes (ch == '"') rest, by
    rw [repairInvalidJsonEscapes, h, String.toList_ofList, repairEscapes]⟩

namespace Scanner

/-- The state after a text in which no value ends. -/
def run (st : Scanner) (text : List Char) : Option Scanner := text.foldlM step st

variable {st st' : Scanner} {text rest : List Char}

theorem run_append (st : Scanner) (text rest : List Char) :
    st.run (text ++ rest) = (st.run text).bind fun st' => st'.run rest := by
  simp [run, List.foldlM_append, Option.bind_eq_bind]

@[simp] theorem run_nil (st : Scanner) : st.run [] = some st := rfl

@[simp] theorem run_cons (st : Scanner) (ch : Char) (text : List Char) :
    st.run (ch :: text) = (st.step ch).bind fun st' => st'.run text := by
  simp [run, List.foldlM_cons, Option.bind_eq_bind]

theorem findEnd_append (h : st.run text = some st') (rest : List Char) :
    st.findEnd (text ++ rest) =
      (st'.findEnd rest).map fun found => (text ++ found.1, found.2) := by
  induction text generalizing st with
  | nil =>
    obtain rfl : st = st' := Option.some.inj h
    simp
  | cons ch text ih =>
    rw [run_cons] at h
    obtain ⟨st₁, hstep, hrun⟩ := Option.bind_eq_some_iff.mp h
    simp only [List.cons_append, findEnd, hstep, ih hrun, Option.map_map]
    rfl

/-- A text that is read between brackets and leaves them open. -/
def Balanced (text : List Char) : Prop :=
  ∀ top stack, run ⟨top :: stack, false, false⟩ text = some ⟨top :: stack, false, false⟩

theorem Balanced.append {text' : List Char} (h : Balanced text) (h' : Balanced text') :
    Balanced (text ++ text') := by
  intro top stack
  rw [run_append, h top stack]
  exact h' top stack

theorem balanced_of_neutral (h : ∀ c ∈ text, isNeutral c = true) : Balanced text := by
  intro top stack
  induction text with
  | nil => rfl
  | cons c text ih =>
    obtain ⟨hc, hrest⟩ := List.forall_mem_cons.mp h
    have hstep : step ⟨top :: stack, false, false⟩ c = some ⟨top :: stack, false, false⟩ := by
      simp_all [isNeutral, step]
    rw [run_cons, hstep]
    exact ih hrest

/-- A string stays open over what stands between its quotes. -/
theorem run_loose (h : Loose text) (top : Char) (stack : List Char) :
    run ⟨top :: stack, true, false⟩ text = some ⟨top :: stack, true, false⟩ := by
  induction h with
  | nil => rfl
  | @plain c text hquote hbackslash _ ih =>
    have hstep : step ⟨top :: stack, true, false⟩ c = some ⟨top :: stack, true, false⟩ := by
      simp [step, hquote, hbackslash]
    rw [run_cons, hstep, Option.bind_some, ih]
  | @escaped text c _ ih =>
    have hstep : run ⟨top :: stack, true, false⟩ ('\\' :: c :: text) =
        run ⟨top :: stack, true, false⟩ text := by
      simp [step]
    rw [hstep, ih]

theorem balanced_quoted (h : Loose text) : Balanced ('"' :: (text ++ ['"'])) := by
  intro top stack
  have hopen : step ⟨top :: stack, false, false⟩ '"' = some ⟨top :: stack, true, false⟩ := by
    simp [step]
  rw [run_cons, hopen, Option.bind_some, run_append, run_loose h]
  simp [step]

theorem balanced_string (h : IsString text) : Balanced text := by
  obtain ⟨body, hbody, rfl⟩ := h
  exact balanced_quoted hbody.loose

/-- A text in brackets. -/
theorem balanced_bracketed {opening closing : Char} (hbrackets : Brackets opening closing)
    (h : Balanced text) : Balanced (opening :: (text ++ [closing])) := by
  intro top stack
  have hopen : step ⟨top :: stack, false, false⟩ opening =
      some ⟨opening :: top :: stack, false, false⟩ := by
    rcases hbrackets with ⟨rfl, -⟩ | ⟨rfl, -⟩ <;> simp [step]
  rw [run_cons, hopen, Option.bind_some, run_append, h]
  rcases hbrackets with ⟨rfl, rfl⟩ | ⟨rfl, rfl⟩ <;> simp [step, close]

theorem compositional_balanced : Compositional Balanced where
  append := Balanced.append
  plain h := balanced_of_neutral fun c hc => (h c hc).1
  string := balanced_string
  bracketed := balanced_bracketed

/-- A value that starts with a bracket ends with the one that closes it. -/
theorem bracketed_of_value (h : IsValue text) (hopens : ∃ c ∈ text.head?, opens c = true) :
    ∃ opening body closing, Brackets opening closing ∧
      Balanced body ∧ text = opening :: (body ++ [closing]) := by
  obtain ⟨c, hc, hopen⟩ := hopens
  cases h with
  | null | true | false =>
    obtain rfl := Option.some.inj hc
    exact absurd hopen (by decide)
  | number h =>
    have hneutral := h.neutral c (List.mem_of_head? hc)
    simp_all [isNeutral, opens]
  | string h =>
    obtain ⟨body, hbody, rfl⟩ := h
    obtain rfl := Option.some.inj hc
    exact absurd hopen (by decide)
  | emptyArray hw => exact ⟨_, _, _, Or.inr ⟨rfl, rfl⟩, balanced_of_neutral hw.neutral, rfl⟩
  | array h => exact ⟨_, _, _, Or.inr ⟨rfl, rfl⟩, compositional_balanced.of_derives h, rfl⟩
  | emptyObject hw => exact ⟨_, _, _, Or.inl ⟨rfl, rfl⟩, balanced_of_neutral hw.neutral, rfl⟩
  | object h => exact ⟨_, _, _, Or.inl ⟨rfl, rfl⟩, compositional_balanced.of_derives h, rfl⟩

/-- The end of a text in brackets is found. -/
theorem findEnd_bracketed {opening closing : Char} (hbrackets : Brackets opening closing)
    (h : Balanced text) (rest : List Char) :
    start.findEnd (opening :: (text ++ [closing]) ++ rest) =
      some (opening :: (text ++ [closing]), rest) := by
  have hrun : start.run (opening :: text) = some ⟨[opening], false, false⟩ := by
    rw [run_cons]
    exact h opening []
  have hclose : step ⟨[opening], false, false⟩ closing = none := by
    rcases hbrackets with ⟨rfl, rfl⟩ | ⟨rfl, rfl⟩ <;> simp [step, close]
  have hend := findEnd_append hrun (closing :: rest)
  simp only [findEnd, hclose, Option.map_some] at hend
  simpa using hend

theorem findEnd_value (h : IsValue text) (hopens : ∃ c ∈ text.head?, opens c = true)
    (rest : List Char) : start.findEnd (text ++ rest) = some (text, rest) := by
  obtain ⟨opening, body, closing, hbrackets, hbody, rfl⟩ := bracketed_of_value h hopens
  exact findEnd_bracketed hbrackets hbody rest

end Scanner

/-- The first value that is extracted is the first one in brackets. -/
theorem extractFrom_value {p j : List Char} (hp : ∀ c ∈ p, opens c = false) (hj : IsValue j)
    (hopens : ∃ c ∈ j.head?, opens c = true) (rest : List Char) (max : Nat) :
    extractFrom (p ++ j ++ rest) (max + 1) = j :: extractFrom rest max := by
  have hdrop : (p ++ j ++ rest).dropWhile (fun ch => !opens ch) = j ++ rest := by
    obtain ⟨c, hc, hopen⟩ := hopens
    obtain ⟨body, rfl⟩ := List.head?_eq_some_iff.mp hc
    rw [List.append_assoc, List.dropWhile_append_of_pos (by simpa using hp)]
    simp [hopen]
  rw [extractFrom, hdrop, Scanner.findEnd_value hj hopens]

theorem head_opens_of_mem_extractFrom {s value : List Char} {max : Nat}
    (h : value ∈ extractFrom s max) : ∃ c ∈ value.head?, opens c = true := by
  induction max generalizing s with
  | zero => exact absurd h List.not_mem_nil
  | succ max ih =>
    rw [extractFrom] at h
    cases hdrop : s.dropWhile fun ch => !opens ch with
    | nil => simp [hdrop, Scanner.findEnd] at h
    | cons c text =>
      have hopens : opens c = true := by
        simpa [hdrop] using List.head?_dropWhile_not (fun ch => !opens ch) s
      have hstep : Scanner.start.step c = some ⟨[c], false, false⟩ := rfl
      simp only [hdrop, Scanner.findEnd, hstep] at h
      cases hend : Scanner.findEnd ⟨[c], false, false⟩ text with
      | none => simp [hend] at h
      | some found =>
        rw [hend, Option.map_some, List.mem_cons] at h
        rcases h with rfl | h
        · exact ⟨c, rfl, hopens⟩
        · exact ih h

end ReactRuntime.Core
