import ReactRuntime.Core.Text
import ReactRuntime.Serde.Json

/-!
# The result of a final frame

What a client is sent for a completion is chosen by the fields of its payload: an answer with a
query, an answer alone, or a text.
-/
namespace ReactRuntime.Transport
open Serde ReactRuntime.Core

/-- The string that a payload has in a field. -/
def strField (payload : Json) (key : String) : Option String := (payload.get key).bind Json.asStr

/-- A string field with more than whitespace in it. -/
def hasField (payload : Json) (key : String) : Bool :=
  ((strField payload key).map fun s => !(trim s).isEmpty).getD false

structure AskFinalPayloadData where
  header : List String
  rows : List (List String)
deriving DecidableEq, Repr

/-- Reading a struct takes an object with its fields, or an array of them in order. -/
def AskFinalPayloadData.fromValue : Json → Except String AskFinalPayloadData
  | .obj fs => do
    let header ← De.field "header" (De.list De.str) fs
    let rows ← De.field "rows" (De.list (De.list De.str)) fs
    return ⟨header, rows⟩
  | .arr [header, rows] => do
    let header ← De.list De.str header
    let rows ← De.list (De.list De.str) rows
    return ⟨header, rows⟩
  | _ => .error "invalid type, expected struct AskFinalPayloadData"

inductive ChartType where
  | line
  | bar
  | area
deriving DecidableEq, Repr

namespace ChartType

def fromName : String → Except String ChartType
  | "line" => .ok .line
  | "bar" => .ok .bar
  | "area" => .ok .area
  | _ => .error "unknown variant"

/-- A unit variant is its name, or an object from its name to `null`. -/
def fromValue : Json → Except String ChartType
  | .str name | .obj [(name, .null)] => fromName name
  | _ => .error "invalid type, expected string or map"

end ChartType

structure AskFinalPayloadChart where
  type : ChartType
  x : String
  y : List String
deriving DecidableEq, Repr

def AskFinalPayloadChart.fromValue : Json → Except String AskFinalPayloadChart
  | .obj fs => do
    let type ← De.field "type" ChartType.fromValue fs
    let x ← De.field "x" De.str fs
    let y ← De.field "y" (De.list De.str) fs
    return ⟨type, x, y⟩
  | .arr [type, x, y] => do
    let type ← ChartType.fromValue type
    let x ← De.str x
    let y ← De.list De.str y
    return ⟨type, x, y⟩
  | _ => .error "invalid type, expected struct AskFinalPayloadChart"

structure AskFinalPayload where
  answer : String
  sql : String
  data : Option AskFinalPayloadData
  chart : Option AskFinalPayloadChart
deriving DecidableEq, Repr

inductive FinalResult where
  | ask (payload : AskFinalPayload)
  | kb (answer : String)
  | generic (text : String)
deriving DecidableEq, Repr

section
variable (toString : Json → Except String String)

/-- The answer, the text or the serialized payload. -/
def finalDisplayTextFromPayload (payload : Json) : String :=
  match strField payload "answer" with
  | some s => s
  | none => match strField payload "text" with
    | some s => s
    | none => match toString payload with
      | .ok s => s
      | .error _ => ""

def wsFinalResultFromTypedFinal (_kind : String) (payload : Json) (display : Option String) :
    FinalResult :=
  let hasAnswer := hasField payload "answer"
  let hasSql := hasField payload "sql"
  -- Both unwrapped strings are there: a field without a string counts as blank.
  let answer := (strField payload "answer").getD ""
  if hasAnswer && hasSql then
    let sql := (strField payload "sql").getD ""
    let data := (payload.get "data").bind fun v => (AskFinalPayloadData.fromValue v).toOption
    let chart := (payload.get "chart").bind fun v => (AskFinalPayloadChart.fromValue v).toOption
    .ask ⟨answer, sql, data, chart⟩
  else if hasAnswer then .kb answer
  else
    let txt := (strField payload "text").or display
    .generic (txt.getD (finalDisplayTextFromPayload toString payload))

end

/-- The text of a final frame that a client shows. -/
def FinalResult.shown : FinalResult → String
  | .ask payload => payload.answer
  | .kb answer => answer
  | .generic text => text

theorem finalDisplayTextFromPayload_eq (toString : Json → Except String String) (payload : Json) :
    finalDisplayTextFromPayload toString payload =
      ((strField payload "answer").or (strField payload "text")).getD
        ((toString payload).toOption.getD "") := by
  unfold finalDisplayTextFromPayload
  cases strField payload "answer" with
  | some s => rfl
  | none =>
    cases strField payload "text" with
    | some s => rfl
    | none => cases toString payload <;> rfl

/-- A live frame shows the answer, if it is not blank, and otherwise the text before the display
text. -/
theorem shown_wsFinalResultFromTypedFinal (toString : Json → Except String String)
    (kind : String) (payload : Json) (display : Option String) :
    (wsFinalResultFromTypedFinal toString kind payload display).shown =
      if hasField payload "answer" then (strField payload "answer").getD ""
      else ((strField payload "text").or display).getD
        (finalDisplayTextFromPayload toString payload) := by
  unfold wsFinalResultFromTypedFinal
  by_cases hanswer : hasField payload "answer" = true
  · by_cases hsql : hasField payload "sql" = true
    · simp [hanswer, hsql, FinalResult.shown]
    · simp [hanswer, hsql, FinalResult.shown]
  · simp [hanswer, FinalResult.shown]

end ReactRuntime.Transport
