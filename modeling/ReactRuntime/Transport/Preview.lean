import ReactRuntime.Transport.History

/-!
# One completion in three places

A client shows the text of a completion in the live frame, in the history and as the preview of
the thread. The three places prefer the answer, the text and the display text in three orders.
-/
namespace ReactRuntime.Transport
open Serde Session

section
variable (toString : Json → Except String String)

def previewOf : ThreadStep → Option String
  | .user text .. => some text
  | .complete _ payload display .. =>
    some (display.getD (finalDisplayTextFromPayload toString payload))
  | _ => none

/-- The preview in the list of threads: that of the last step that has one. -/
def lastMessagePreview (log : ThreadLog) : Option String :=
  log.steps.reverse.findSome? (previewOf toString)

/-- A display text is the answer, or where the answer is blank, the text if there is one. Without
a display text, an answer and a text are the same. -/
def FieldsAgree (payload : Json) (display : Option String) : Prop :=
  match display with
  | some d =>
    if hasField payload "answer" then strField payload "answer" = some d
    else ∀ t ∈ strField payload "text", t = d
  | none => ∀ a ∈ strField payload "answer", ∀ t ∈ strField payload "text", a = t

variable {toString}

/-- The last message of a log that ends with a completion. -/
theorem getLast?_messages_complete (log : ThreadLog) (kind : String) (payload : Json)
    (display : Option String) (observation : Observation) (ts agent : String) :
    ((messages toString { log with
        steps := log.steps ++ [.complete kind payload display observation ts agent] }).getLast?.map
      HistoryMessage.content) =
      some (((display.or (strField payload "text")).or (strField payload "answer")).getD
        (finalDisplayTextFromPayload toString payload)) := by
  rw [messages, messagesFrom_append]
  simp [messagesFrom, bodyOf]

theorem lastMessagePreview_complete (log : ThreadLog) (kind : String) (payload : Json)
    (display : Option String) (observation : Observation) (ts agent : String) :
    lastMessagePreview toString { log with
        steps := log.steps ++ [.complete kind payload display observation ts agent] } =
      some (display.getD (finalDisplayTextFromPayload toString payload)) := by
  rw [lastMessagePreview, List.reverse_append]
  rfl

theorem strField_of_hasField {payload : Json} {key : String} (h : hasField payload key = true) :
    ∃ s, strField payload key = some s := by
  cases hfield : strField payload key with
  | some s => exact ⟨s, rfl⟩
  | none =>
    rw [hasField, hfield] at h
    cases h

/-- The live frame, the history and the preview of a completion show one text exactly if the
fields agree. -/
theorem completion_shown_same_iff (toString : Json → Except String String) (log : ThreadLog)
    (kind : String) (payload : Json) (display : Option String) (observation : Observation)
    (ts agent : String) :
    let recorded := { log with
      steps := log.steps ++ [.complete kind payload display observation ts agent] }
    (∃ text, (wsFinalResultFromTypedFinal toString kind payload display).shown = text ∧
      (messages toString recorded).getLast?.map HistoryMessage.content = some text ∧
      lastMessagePreview toString recorded = some text) ↔
    FieldsAgree payload display := by
  intro recorded
  rw [getLast?_messages_complete, lastMessagePreview_complete, shown_wsFinalResultFromTypedFinal,
    finalDisplayTextFromPayload_eq]
  generalize (toString payload).toOption.getD "" = serialized
  unfold FieldsAgree
  cases display with
  | some d =>
    by_cases hanswer : hasField payload "answer" = true
    · obtain ⟨a, ha⟩ := strField_of_hasField hanswer
      simp [hanswer, ha, eq_comm]
    · cases strField payload "text" with
      | none => simp [hanswer]
      | some t => simp [hanswer, eq_comm]
  | none =>
    by_cases hanswer : hasField payload "answer" = true
    · obtain ⟨a, ha⟩ := strField_of_hasField hanswer
      cases strField payload "text" with
      | none => simp [hanswer, ha]
      | some t => simp [hanswer, ha, eq_comm]
    · cases strField payload "answer" with
      | none => cases strField payload "text" <;> simp [hanswer]
      | some a => cases strField payload "text" <;> simp [hanswer, eq_comm]

/-- The live frame shows the answer of a payload although a display text is there. -/
def answered : ThreadStep :=
  .complete "kb" (.obj [("answer", .str "yes")]) (some "Yes, it is.") Observation.okay "t" "a"

theorem completion_shown_answered :
    ¬ ∃ text, (wsFinalResultFromTypedFinal (fun _ => .ok "") "kb" (.obj [("answer", .str "yes")])
        (some "Yes, it is.")).shown = text ∧
      (messages (fun _ => .ok "") { ThreadLog.default with steps := [answered] }).getLast?.map
        HistoryMessage.content = some text ∧
      lastMessagePreview (fun _ => .ok "") { ThreadLog.default with steps := [answered] } =
        some text := by
  rintro ⟨text, rfl, hhistory, -⟩
  exact absurd hhistory (by decide +kernel)

end
end ReactRuntime.Transport
