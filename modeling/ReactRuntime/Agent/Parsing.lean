import ReactRuntime.Agent.RunLoop
import ReactRuntime.Core.ResilientParse

/-!
# Agent steps in the answers of a model

A model answers with one JSON object, perhaps in a Markdown fence or with more text behind it. The
arguments of a tool and the payload of a completion are JSON texts in string fields of the object.
-/
namespace ReactRuntime.Agent
open Library JsonText Serde ReactRuntime.Core

structure CompleteEnvelopeV1 where
  kind : String
  payload : String
  display : Option String
deriving DecidableEq, Repr

inductive AgentStepTypeV1 where
  | tool
  | complete
deriving DecidableEq, Repr

structure AgentStepV1 where
  type : AgentStepTypeV1
  name : Option String
  args : Option String
  complete : Option CompleteEnvelopeV1
deriving DecidableEq, Repr

def CompleteEnvelopeV1.fromValue (j : Json) : Except String CompleteEnvelopeV1 := do
  let fs ← De.fields j
  De.denyUnknown ["kind", "payload", "display"] fs
  let kind ← De.field "kind" De.str fs
  let payload ← De.field "payload" De.str fs
  let display ← De.optField "display" De.str fs
  .ok ⟨kind, payload, display⟩

namespace AgentStepTypeV1

def asStr : AgentStepTypeV1 → String
  | .tool => "tool"
  | .complete => "complete"

/-- How `{:?}` prints it. -/
def debug : AgentStepTypeV1 → String
  | .tool => "Tool"
  | .complete => "Complete"

def fromValue : Json → Except String AgentStepTypeV1
  | .str "tool" => .ok .tool
  | .str "complete" => .ok .complete
  | _ => .error "unknown variant, expected tool or complete"

end AgentStepTypeV1

def AgentStepV1.fromValue (j : Json) : Except String AgentStepV1 := do
  let fs ← De.fields j
  De.denyUnknown ["type", "name", "args", "complete"] fs
  let type ← De.field "type" AgentStepTypeV1.fromValue fs
  let name ← De.optField "name" De.str fs
  let args ← De.optField "args" De.str fs
  let complete ← De.optField "complete" CompleteEnvelopeV1.fromValue fs
  .ok ⟨type, name, args, complete⟩

def stripMarkdownCodeFences (raw : String) : String :=
  let t := trim raw
  if "```".toList <+: t.toList then
    let t := trim (trimStartText "```" (trimStartText "```json" t))
    match beforeRfind t "```" with
    | some front => trim front
    | none => t
  else t

section
variable (S : SerdeJson)

/-- `TryFrom<CompleteEnvelopeV1>`: a payload that is not JSON is kept as a string. -/
def completeEnvelope (comp : CompleteEnvelopeV1) : CompleteEnvelope :=
  let payload := match resilientParseStringField S comp.payload with
    | .ok payload => payload
    | .error _ => .str comp.payload
  ⟨comp.kind, payload, comp.display⟩

/-- `TryFrom<AgentStepV1>` -/
def agentStep (step : AgentStepV1) : Except StepParseError AgentStep :=
  match step.type, step.name, step.args, step.complete with
  | .tool, some name, some argsJson, none =>
    match resilientParseStringField S argsJson with
    | .ok args => .ok (.tool name args)
    | .error e => .error (.args e)
  | .complete, none, none, some comp => .ok (.complete (completeEnvelope S comp))
  | t, n, a, c => .error (.shapeMismatch ("type=" ++ t.debug ++ " name=" ++ toString n.isSome ++
      " args=" ++ toString a.isSome ++ " complete=" ++ toString c.isSome))

/-- `validate` checks a document against the schema of agent steps. Values behind the first are only
logged. -/
def parseAgentStep (validate : Json → Except CoreError Unit) (raw : String) :
    Except CoreError AgentStep := do
  let cleaned := stripMarkdownCodeFences raw
  let trimmed := trim cleaned
  let v ← (resilientParse S trimmed).mapError fun e => .parse (.notJson e)
  (validate v).mapError fun e => .parse (.schema e.display)
  let step ← (AgentStepV1.fromValue v).mapError fun e =>
    .parse (.shapeMismatch ("failed to deserialize " ++ AGENT_STEP_V1 ++ ": " ++ e))
  (agentStep S step).mapError .parse

end

/-- An optional field: one without a value is left out or written as `null`. -/
def optionalField (nulls : Bool) (key : String) : Option Json → Fields
  | some v => [(key, v)]
  | none => if nulls then [(key, .null)] else []

/-- The wire object of an envelope, where `struct` makes a document from the fields of a struct. -/
def CompleteEnvelopeV1.serialize (struct : Fields → Json) (nulls : Bool)
    (comp : CompleteEnvelopeV1) : Json :=
  struct ([("kind", .str comp.kind), ("payload", .str comp.payload)] ++
    optionalField nulls "display" (comp.display.map .str))

def AgentStepV1.serialize (struct : Fields → Json) (nulls : Bool) (step : AgentStepV1) : Json :=
  struct ([("type", .str step.type.asStr)] ++ optionalField nulls "name" (step.name.map .str) ++
    optionalField nulls "args" (step.args.map .str) ++
    optionalField nulls "complete" (step.complete.map (CompleteEnvelopeV1.serialize struct nulls)))

section
variable (S : SerdeJson)

/-- The document that a step carries as text in a string field. -/
def AgentStep.body : AgentStep → Json
  | .tool _ args => args
  | .complete env => env.payload

def AgentStep.wire : AgentStep → AgentStepV1
  | .tool name args => ⟨.tool, some name, some (S.toString args), none⟩
  | .complete env =>
    ⟨.complete, none, none, some ⟨env.kind, S.toString env.payload, env.display⟩⟩

/-- The text of a step: a struct is printed in the order of its fields. -/
def AgentStep.encode (nulls : Bool) (s : AgentStep) : String :=
  S.toString ((s.wire S).serialize .obj nulls)

/-- The document of a step. -/
def AgentStep.document (nulls : Bool) (s : AgentStep) : Json :=
  (s.wire S).serialize .object nulls

/-- The texts that are printed for a step are read back. -/
structure AgentStep.ReadsBack (nulls : Bool) (s : AgentStep) : Prop where
  body : S.fromStr (S.toString s.body) = .ok s.body
  document : S.fromStr (s.encode S nulls) = .ok (s.document S nulls)

end

theorem CompleteEnvelopeV1.fromValue_serialize (nulls : Bool) (comp : CompleteEnvelopeV1) :
    fromValue (comp.serialize .object nulls) = .ok comp := by
  obtain ⟨kind, payload, display⟩ := comp
  cases display <;> cases nulls <;>
    simp [fromValue, serialize, optionalField, De.nullable_null, De.nullable_of_ne_null,
      De.optField_nil]

theorem AgentStepTypeV1.fromValue_asStr (t : AgentStepTypeV1) : fromValue (.str t.asStr) = .ok t := by
  cases t <;> rfl

theorem AgentStepV1.fromValue_serialize (nulls : Bool) (step : AgentStepV1) :
    fromValue (step.serialize .object nulls) = .ok step := by
  obtain ⟨type, name, args, complete⟩ := step
  have hcomplete : ∀ comp : CompleteEnvelopeV1, De.nullable CompleteEnvelopeV1.fromValue
      (comp.serialize .object nulls) = .ok (some comp) := by
    intro comp
    rw [De.nullable_of_ne_null (by simp [CompleteEnvelopeV1.serialize, Json.object]),
      CompleteEnvelopeV1.fromValue_serialize, De.map_ok]
  cases name <;> cases args <;> cases complete <;> cases nulls <;>
    simp [fromValue, serialize, optionalField, De.nullable_null, De.nullable_of_ne_null,
      De.optField_nil, AgentStepTypeV1.fromValue_asStr, hcomplete]

section
variable {S : SerdeJson} {nulls : Bool} {s : AgentStep}

theorem agentStep_wire (h : S.fromStr (S.toString s.body) = .ok s.body) :
    agentStep S (s.wire S) = .ok s := by
  have hread : S.read (S.toString s.body) = some s.body := SerdeJson.read_eq_some.mpr h
  cases s with
  | tool name args =>
    rw [AgentStep.body] at hread
    simp [agentStep, AgentStep.wire, resilientParseStringField, hread]
  | complete env =>
    rw [AgentStep.body] at hread
    simp [agentStep, AgentStep.wire, completeEnvelope, resilientParseStringField, hread]

theorem encode_bracketed (hS : S.Lawful) (nulls : Bool) (s : AgentStep) :
    ∃ body, (s.encode S nulls).toList = '{' :: (body ++ ['}']) := hS.object_text _

/-- Behind an object only the whitespace at the end is taken away. -/
theorem trim_object {text : String} (h : ∃ body, text.toList = '{' :: (body ++ ['}']))
    (tail : String) :
    trim (text ++ tail) = text ++ .ofList (tail.toList.rdropWhile isWhitespace) := by
  rw [← String.toList_inj, String.toList_append, String.toList_ofList]
  simpa using trim_around h "" tail

/-- An answer is read as the step that comes first in it, once its fence is gone. -/
theorem parseAgentStep_of_cleaned (hS : S.Lawful) {validate : Json → Except CoreError Unit}
    (hread : s.ReadsBack S nulls) (haccepts : validate (s.document S nulls) = .ok ())
    {raw tail : String} (hclean : stripMarkdownCodeFences raw = s.encode S nulls ++ tail) :
    parseAgentStep S validate raw = .ok s := by
  have htext : trim (trim (stripMarkdownCodeFences raw)) =
      s.encode S nulls ++ .ofList (tail.toList.rdropWhile isWhitespace) := by
    rw [trim_trim, hclean, trim_object (encode_bracketed hS nulls s)]
  have hstart : (s.encode S nulls).toList.head? = some '{' := by
    obtain ⟨body, hbody⟩ := encode_bracketed hS nulls s
    rw [hbody, List.head?_cons]
  have hparse : resilientParse S (trim (stripMarkdownCodeFences raw)) = .ok (s.document S nulls) :=
    resilientParse_object hS htext hstart (SerdeJson.read_eq_some.mpr hread.document)
  have hwire : AgentStepV1.fromValue (s.document S nulls) = .ok (s.wire S) :=
    AgentStepV1.fromValue_serialize nulls (s.wire S)
  simp only [parseAgentStep, bind, Except.bind, Except.mapError, hparse, haccepts, hwire,
    agentStep_wire hread.body]

/-- A text that starts with an object has no fence. -/
theorem stripMarkdownCodeFences_object {text : String}
    (h : ∃ body, text.toList = '{' :: (body ++ ['}'])) (tail : String) :
    stripMarkdownCodeFences (text ++ tail) =
      text ++ .ofList (tail.toList.rdropWhile isWhitespace) := by
  have htrim := trim_object h tail
  obtain ⟨body, hbody⟩ := h
  simp only [stripMarkdownCodeFences, htrim, String.toList_append, hbody]
  exact if_neg (by simp)

/-- A pattern does not start at an object behind whitespace. -/
theorem not_start_of_blank {pattern blank rest : List Char}
    (h : ∃ c ∈ pattern.head?, isWhitespace c = false ∧ c ≠ '{')
    (hblank : ∀ b ∈ blank, isWhitespace b = true) : ¬ pattern <+: blank ++ '{' :: rest := by
  obtain ⟨c, hc, hkept, hbrace⟩ := h
  obtain ⟨pattern, rfl⟩ := List.head?_eq_some_iff.mp hc
  intro hstart
  cases blank with
  | nil => exact hbrace (List.cons_prefix_cons.mp hstart).1
  | cons b blank =>
    obtain ⟨rfl, -⟩ := List.cons_prefix_cons.mp hstart
    simpa [hkept] using hblank c List.mem_cons_self

/-- What opens a fence is taken away. -/
theorem trimStartText_fence {inner lang : String} (hlang : lang = "" ∨ lang = "json")
    (h : ∃ blank rest, (∀ b ∈ blank, isWhitespace b = true) ∧ inner.toList = blank ++ '{' :: rest) :
    trimStartText "```" (trimStartText "```json" ("```" ++ lang ++ inner)) = inner := by
  obtain ⟨blank, rest, hblank, hinner⟩ := h
  have hfence : ¬ "```".toList <+: inner.toList := by
    rw [hinner]
    exact not_start_of_blank ⟨_, rfl, by decide⟩ hblank
  rcases hlang with rfl | rfl
  · have hjson : ¬ "```json".toList <+: ("```" ++ "" ++ inner).toList := by
      have hsplit : "```json".toList = "```".toList ++ "json".toList := by decide
      rw [hsplit, String.append_empty, String.toList_append, List.prefix_append_right_inj, hinner]
      exact not_start_of_blank ⟨_, rfl, by decide⟩ hblank
    rw [trimStartText_of_other hjson, String.append_empty,
      trimStartText_append (by decide) hfence]
  · have hjson : ¬ "```json".toList <+: inner.toList := by
      rw [hinner]
      exact not_start_of_blank ⟨_, rfl, by decide⟩ hblank
    have hsplit : "```" ++ "json" ++ inner = "```json" ++ inner := rfl
    rw [hsplit, trimStartText_append (by decide) hjson, trimStartText_of_other hfence]

/-- An object in a closed fence is what is left of it. -/
theorem stripMarkdownCodeFences_fenced {text : String}
    (h : ∃ body, text.toList = '{' :: (body ++ ['}'])) {lang w₁ w₂ w₃ w₄ : String}
    (hlang : lang = "" ∨ lang = "json")
    (hblank : ∀ w ∈ [w₁, w₂, w₃, w₄], ∀ c ∈ w.toList, isWhitespace c = true) :
    stripMarkdownCodeFences (w₁ ++ ("```" ++ lang ++ (w₂ ++ text ++ w₃ ++ "```")) ++ w₄) =
      text := by
  simp only [List.forall_mem_cons, List.not_mem_nil, false_implies, implies_true, and_true]
    at hblank
  obtain ⟨hw₁, hw₂, hw₃, hw₄⟩ := hblank
  have hkept : trim (text ++ w₃) = text := by
    rw [trim_object h, List.rdropWhile_eq_nil_iff.mpr hw₃]
    exact String.append_empty
  obtain ⟨body, hbody⟩ := h
  have hopen : trimStartText "```" (trimStartText "```json"
      ("```" ++ lang ++ (w₂ ++ text ++ w₃ ++ "```"))) = w₂ ++ text ++ w₃ ++ "```" :=
    trimStartText_fence hlang ⟨w₂.toList, body ++ '}' :: (w₃.toList ++ "```".toList), hw₂, by
      simp [hbody]⟩
  -- what is trimmed starts and ends with a fence or a brace
  have hfenceEnd : ∀ front : String, ∃ c ∈ (front ++ "```").toList.getLast?,
      isWhitespace c = false := by
    intro front
    rw [String.toList_append, List.getLast?_append_of_ne_nil _ (by decide)]
    exact ⟨_, rfl, by decide⟩
  have hbrace : ∃ c ∈ (text ++ (w₃ ++ "```")).toList.head?, isWhitespace c = false :=
    ⟨'{', by simp [hbody], by decide⟩
  have houter : trim (w₁ ++ ("```" ++ lang ++ (w₂ ++ text ++ w₃ ++ "```")) ++ w₄) =
      "```" ++ lang ++ (w₂ ++ text ++ w₃ ++ "```") := by
    refine trim_around_blank ?_ ?_ hw₁ hw₄
    · rw [String.append_assoc, String.toList_append]
      exact ⟨_, rfl, by decide⟩
    · rw [← String.append_assoc]
      exact hfenceEnd _
  have hinner : trim (w₂ ++ text ++ w₃ ++ "```") = text ++ w₃ ++ "```" := by
    have htrim : trim (w₂ ++ (text ++ (w₃ ++ "```")) ++ "") = text ++ (w₃ ++ "```") := by
      refine trim_around_blank hbrace ?_ hw₂ (by simp)
      rw [← String.append_assoc]
      exact hfenceEnd _
    simpa only [String.append_empty, String.append_assoc] using htrim
  have hlast : beforeRfind (text ++ w₃ ++ "```") "```" = some (text ++ w₃) :=
    beforeRfind_append (by decide) _
  simp only [stripMarkdownCodeFences, houter, hopen, hinner, hlast, hkept]
  exact if_pos (by simp)

/-- A step is read back from its text, in a fence or not, and with any text behind it. -/
theorem parse_agent_step_encode (hS : S.Lawful) (validate : Json → Except CoreError Unit)
    (nulls : Bool) (s : AgentStep) (hread : s.ReadsBack S nulls)
    (haccepts : validate (s.document S nulls) = .ok ()) :
    parseAgentStep S validate (s.encode S nulls) = .ok s ∧
      (∀ lang w₁ w₂ w₃ w₄ : String, (lang = "" ∨ lang = "json") →
        (∀ w ∈ [w₁, w₂, w₃, w₄], ∀ c ∈ w.toList, isWhitespace c = true) →
        parseAgentStep S validate
          (w₁ ++ ("```" ++ lang ++ (w₂ ++ s.encode S nulls ++ w₃ ++ "```")) ++ w₄) = .ok s) ∧
      ∀ tail : String, parseAgentStep S validate (s.encode S nulls ++ tail) = .ok s := by
  have hbracketed := encode_bracketed hS nulls s
  have htail : ∀ tail : String, parseAgentStep S validate (s.encode S nulls ++ tail) = .ok s :=
    fun tail => parseAgentStep_of_cleaned hS hread haccepts
      (stripMarkdownCodeFences_object hbracketed tail)
  refine ⟨by simpa using htail "", fun lang w₁ w₂ w₃ w₄ hlang hblank => ?_, htail⟩
  have hclean : stripMarkdownCodeFences
      (w₁ ++ ("```" ++ lang ++ (w₂ ++ s.encode S nulls ++ w₃ ++ "```")) ++ w₄) =
        s.encode S nulls ++ "" := by
    rw [stripMarkdownCodeFences_fenced hbracketed hlang hblank, String.append_empty]
  exact parseAgentStep_of_cleaned hS hread haccepts hclean

end

def noopStep : AgentStep := .tool "noop" (.obj [])

def noopText : String :=
  "\x7b\"type\":\"tool\",\"name\":\"noop\",\"args\":\"\x7b\x7d\",\"complete\":null\x7d"

def noopDocuments : List (String × Json) :=
  [(noopText, .object [("type", .str "tool"), ("name", .str "noop"), ("args", .str "\x7b\x7d"),
    ("complete", .null)]), ("\x7b\x7d", .obj [])]

/-- The schema requires every field. -/
def requireFields (v : Json) : Except CoreError Unit :=
  if ["type", "name", "args", "complete"].all fun key => (v.get key).isSome then .ok ()
  else .error (.schema (AGENT_STEP_V1 ++ " validation error: a required property is missing"))

theorem parse_agent_step_noop :
    parseAgentStep (tableReader noopDocuments) requireFields
      (noopStep.encode (tableReader noopDocuments) true ++ " and more") = .ok noopStep := by
  have hdistinct : DistinctDocuments noopDocuments := ⟨by decide, by decide⟩
  refine (parse_agent_step_encode (tableReader_lawful hdistinct) requireFields true noopStep
    ⟨?_, ?_⟩ (by decide)).2.2 " and more"
  · rw [← SerdeJson.read_eq_some, read_tableReader]
    decide
  · rw [← SerdeJson.read_eq_some, read_tableReader]
    decide

end ReactRuntime.Agent
