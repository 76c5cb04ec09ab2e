import ReactRuntime.Agent.Transcript
import ReactRuntime.Serde.Printer

/-!
# Tool outcomes

A tool's value is bounded before it is kept: the text of a large one is cut, and the cut text becomes
a field of the document that stands for it.
-/
namespace ReactRuntime.Agent
open Library Utf8 Serde ReactRuntime.Core

section
variable (float : UInt64 → List Char)

/-- A value whose compact text is too long becomes its length and a preview of the text. -/
def boundToolValue (v : Json) (maxBytes : Nat) : Json :=
  let s := v.text float
  if byteLength s.toList ≤ maxBytes then v
  else
    .object [("truncated", .bool true), ("bytes", .num (.posInt (.ofNat (byteLength s.toList)))),
      ("preview", .str (truncateUtf8Bytes s (maxBytes - 80)))]

def ToolOutcome.fromResult (r : Except String Json) (maxBytes : Nat) : ToolOutcome :=
  match r with
  | .ok v => .ok (boundToolValue float v maxBytes)
  | .error e => .failed ⟨e⟩

/-- The preview is escaped once more inside its envelope: its quotes and backslashes count twice. -/
def PreviewFits (v : Json) (maxBytes : Nat) : Prop :=
  let s := v.text float
  let cut := (truncateUtf8Bytes s (maxBytes - 80)).toList
  byteLength cut + cut.count '"' + cut.count '\\' +
    (Nat.toDigits 10 (byteLength s.toList % 2 ^ 64)).length + 40 ≤ maxBytes

instance (v : Json) (maxBytes : Nat) : Decidable (PreviewFits float v maxBytes) :=
  inferInstanceAs (Decidable (_ ≤ maxBytes))

end

section
variable {float : UInt64 → List Char}

theorem envelope_eq (bytes preview : Json) :
    Json.object [("truncated", .bool true), ("bytes", bytes), ("preview", preview)] =
      .obj [("bytes", bytes), ("preview", preview), ("truncated", .bool true)] := by
  have hbytes : "bytes" < "truncated" := by decide
  have hpreview : "preview" < "truncated" := by decide
  have horder : ¬ "preview" < "bytes" := by decide
  simp only [Json.object, SortedMap.ofList, SortedMap.insert, SortedMap.insertEntry,
    SortedMap.empty, List.foldl_cons, List.foldl_nil, if_pos hbytes, if_pos hpreview, if_neg horder]
  rfl

theorem byteLength_envelope (len : UInt64) (preview : String) :
    byteLength (Json.chars float
      (.obj [("bytes", .num (.posInt len)), ("preview", .str preview), ("truncated", .bool true)])) =
      byteLength (preview.toList.flatMap escapedChar) + (Nat.toDigits 10 len.toNat).length + 40 := by
  have hbytes : byteLength (quoted "bytes") = 7 := by decide
  have hpreview : byteLength (quoted "preview") = 9 := by decide
  have htruncated : byteLength (quoted "truncated") = 11 := by decide
  have hsigns : ['\x7b', '\x7d', ':', ',', 't', 'r', 'u', 'e'].all (fun c => c.utf8Size = 1) = true := by
    decide
  simp only [List.all_cons, List.all_nil, Bool.and_eq_true, decide_eq_true_eq, and_true] at hsigns
  obtain ⟨hopen, hclose, hcolon, hcomma, ht, hr, hu, he⟩ := hsigns
  simp only [Json.chars, Json.charsFields, Number.chars, List.isEmpty_cons, List.isEmpty_nil,
    Bool.false_eq_true, if_false, if_true, byteLength_cons, byteLength_append, byteLength_nil,
    byteLength_toDigits, byteLength_quoted preview, hbytes, hpreview, htruncated, hopen, hclose,
    hcolon, hcomma, ht, hr, hu, he]
  omega

theorem boundToolValue_of_fits {v : Json} {maxBytes : Nat}
    (h : byteLength (v.text float).toList ≤ maxBytes) : boundToolValue float v maxBytes = v :=
  if_pos h

theorem byteLength_boundToolValue (hfloat : ∀ bits, Visible (float bits)) {v : Json} {maxBytes : Nat}
    (h : ¬ byteLength (v.text float).toList ≤ maxBytes) :
    byteLength ((boundToolValue float v maxBytes).text float).toList ≤ maxBytes ↔
      PreviewFits float v maxBytes := by
  have hcut : Visible (truncateUtf8Bytes (v.text float) (maxBytes - 80)).toList := by
    intro c hc
    apply visible_chars hfloat v c
    have hmem := (truncateUtf8Bytes_isPrefix _ _).subset hc
    rwa [Json.text, String.toList_ofList] at hmem
  rw [boundToolValue, if_neg h, envelope_eq, Json.text, String.toList_ofList, byteLength_envelope,
    byteLength_escaped hcut, UInt64.toNat_ofNat']
  rfl

theorem boundToolValue_le_iff (hfloat : ∀ bits, Visible (float bits)) {v : Json} {maxBytes : Nat} :
    byteLength ((boundToolValue float v maxBytes).text float).toList ≤ maxBytes ↔
      byteLength (v.text float).toList ≤ maxBytes ∨ PreviewFits float v maxBytes := by
  by_cases hfits : byteLength (v.text float).toList ≤ maxBytes
  · rw [boundToolValue_of_fits hfits]
    exact iff_of_true hfits (.inl hfits)
  · rw [byteLength_boundToolValue hfloat hfits, or_iff_right hfits]

/-- What a tool hands to the model is bounded exactly if its value is short or its preview fits. -/
theorem fromResult_le_iff (hfloat : ∀ bits, Visible (float bits)) {r : Except String Json}
    {maxBytes : Nat} :
    (∀ v, ToolOutcome.fromResult float r maxBytes = .ok v →
      byteLength (v.text float).toList ≤ maxBytes) ↔
    ∀ v, r = .ok v → byteLength (v.text float).toList ≤ maxBytes ∨ PreviewFits float v maxBytes := by
  cases r with
  | error e => simp [ToolOutcome.fromResult]
  | ok v => simp [ToolOutcome.fromResult, boundToolValue_le_iff hfloat]

/-- A tool's output is bounded exactly if it is short or few of the characters in its preview are
escaped. -/
theorem bound_tool_value_bounded_iff (hfloat : ∀ bits, Visible (float bits)) (v : Json)
    (maxBytes : Nat) :
    (byteLength ((boundToolValue float v maxBytes).text float).toList ≤ maxBytes ∧
      (byteLength (v.text float).toList ≤ maxBytes → boundToolValue float v maxBytes = v)) ↔
    byteLength (v.text float).toList ≤ maxBytes ∨ PreviewFits float v maxBytes := by
  rw [boundToolValue_le_iff hfloat]
  exact and_iff_left boundToolValue_of_fits

end

/-- The long word is cut and its preview fits. -/
theorem bound_tool_value_bounded_word :
    (∀ bits, Visible ((fun _ => ['0', '.', '0'] : UInt64 → List Char) bits)) ∧
    byteLength ((boundToolValue (fun _ => ['0', '.', '0']) (.str (.ofList (.replicate 200 'a')))
      160).text fun _ => ['0', '.', '0']).toList ≤ 160 := by
  have hfloat : ∀ bits, Visible ((fun _ => ['0', '.', '0'] : UInt64 → List Char) bits) :=
    fun _ => (by decide : Visible ['0', '.', '0'])
  refine ⟨hfloat, ((bound_tool_value_bounded_iff hfloat _ 160).mpr (.inr ?_)).1⟩
  simp only [PreviewFits, truncateUtf8Bytes, Json.text, Json.chars, quoted, String.toList_ofList,
    apply_ite String.toList]
  decide +kernel

/-- A text of quotes is escaped when it is printed, and its preview once more. -/
theorem bound_tool_value_escaped :
    ¬ ∀ (v : Json) (maxBytes : Nat), 160 ≤ maxBytes →
      byteLength ((boundToolValue (fun _ => ['0', '.', '0']) v maxBytes).text
        fun _ => ['0', '.', '0']).toList ≤ maxBytes ∧
      (byteLength (v.text fun _ => ['0', '.', '0']).toList ≤ maxBytes →
        boundToolValue (fun _ => ['0', '.', '0']) v maxBytes = v) := by
  intro h
  have hfloat : ∀ bits, Visible ((fun _ => ['0', '.', '0'] : UInt64 → List Char) bits) :=
    fun _ => (by decide : Visible ['0', '.', '0'])
  have hlong : ¬ byteLength ((Json.str (.ofList (.replicate 80 '"'))).text
      fun _ => ['0', '.', '0']).toList ≤ 160 := by
    simp only [Json.text, Json.chars, quoted, String.toList_ofList]
    decide +kernel
  have hbound := (h (.str (.ofList (.replicate 80 '"'))) 160 (Nat.le_refl 160)).1
  rw [byteLength_boundToolValue hfloat hlong] at hbound
  simp only [PreviewFits, truncateUtf8Bytes, Json.text, Json.chars, quoted, String.toList_ofList,
    apply_ite String.toList] at hbound
  revert hbound
  decide +kernel

end ReactRuntime.Agent
