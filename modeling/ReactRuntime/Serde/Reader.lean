import ReactRuntime.Library.JsonGrammar
import ReactRuntime.Serde.Printer

/-!
# Reading and printing text

What the runtime uses of serde_json, and what it relies on. A text is read whole, or its first value
is read and the rest is left. A struct is printed in the order of its fields.
-/
namespace ReactRuntime.Serde
open Library

structure SerdeJson where
  /-- `serde_json::to_string` -/
  toString : Json → String
  /-- `serde_json::from_str` -/
  fromStr : String → Except String Json
  /-- The first item of `serde_json::Deserializer::from_str(s).into_iter()`, if it is a value. -/
  firstValue : String → Option Json

namespace SerdeJson

/-- A text that is read whole. -/
def read (S : SerdeJson) (text : String) : Option Json := (S.fromStr text).toOption

structure Lawful (S : SerdeJson) : Prop where
  object_text : ∀ fs, ∃ body, (S.toString (.obj fs)).toList = '{' :: (body ++ ['}'])
  whole_first : ∀ {text v}, S.read text = some v → S.firstValue text = some v
  object_first : ∀ {text v}, text.toList.head? = some '{' → S.read text = some v →
    ∀ rest, S.firstValue (text ++ rest) = some v
  object_kind : ∀ {text v}, text.toList.head? = some '{' → S.firstValue text = some v →
    ∃ fs, v = .obj fs
  object_start : ∀ {text fs}, S.firstValue text = some (.obj fs) →
    ∃ blank rest, JsonText.Blank blank ∧ text.toList = blank ++ '{' :: rest

variable {S : SerdeJson} {text : String} {v : Json}

theorem read_eq_some : S.read text = some v ↔ S.fromStr text = .ok v := by
  rw [read]
  cases S.fromStr text <;> simp [Except.toOption]

/-- No object is read where another character comes first. -/
theorem Lawful.not_object (h : S.Lawful) {c : Char} {rest : List Char} {fs : Fields}
    (htext : text.toList = c :: rest) (hws : JsonText.isWs c = false) (hc : c ≠ '{') :
    S.firstValue text ≠ some (.obj fs) := by
  intro hfirst
  obtain ⟨blank, rest', hblank, hsplit⟩ := h.object_start hfirst
  rw [htext] at hsplit
  cases blank with
  | nil => exact hc (List.cons.inj hsplit).1
  | cons d blank =>
    obtain ⟨rfl, -⟩ := List.cons.inj hsplit
    simpa [hws] using hblank c List.mem_cons_self

theorem Lawful.read_none (h : S.Lawful) (hfirst : S.firstValue text = none) :
    S.read text = none := by
  refine Option.eq_none_iff_forall_ne_some.mpr fun v hread => ?_
  rw [h.whole_first hread] at hfirst
  exact absurd hfirst (by simp)

theorem Lawful.read_object (h : S.Lawful) (htext : text.toList.head? = some '{')
    (hread : S.read text = some v) : ∃ fs, v = .obj fs :=
  h.object_kind htext (h.whole_first hread)

end SerdeJson

def Json.isObject : Json → Bool
  | .obj _ => true
  | _ => false

def tableReader (documents : List (String × Json)) : SerdeJson where
  toString := Json.text fun _ => []
  fromStr text := match documents.lookup text with
    | some v => .ok v
    | none => .error "expected value"
  firstValue text := (documents.find? fun d => d.1.toList.isPrefixOf text.toList).map Prod.snd

/-- No text starts another one, and the objects are those that start with a brace. -/
structure DistinctDocuments (documents : List (String × Json)) : Prop where
  separate : ∀ d ∈ documents, ∀ e ∈ documents, d.1.toList <+: e.1.toList → d = e
  kinds : ∀ d ∈ documents, d.1.toList ≠ [] ∧
    d.2.isObject = (d.1.toList.head? == some '{')

section
variable {documents : List (String × Json)} {text : String} {v : Json}

theorem read_tableReader (documents : List (String × Json)) (text : String) :
    (tableReader documents).read text = documents.lookup text := by
  simp only [SerdeJson.read, tableReader]
  cases documents.lookup text <;> rfl

/-- The first value is the one whose text comes first. -/
theorem firstValue_tableReader (h : DistinctDocuments documents) :
    (tableReader documents).firstValue text = some v ↔
      ∃ d ∈ documents, d.1.toList <+: text.toList ∧ d.2 = v := by
  simp only [tableReader, Option.map_eq_some_iff]
  constructor
  · rintro ⟨d, hd, rfl⟩
    exact ⟨d, List.mem_of_find?_eq_some hd, by simpa using List.find?_some hd, rfl⟩
  · rintro ⟨d, hd, hstart, rfl⟩
    have hfound : (documents.find? fun e => e.1.toList.isPrefixOf text.toList).isSome := by
      rw [List.find?_isSome]
      exact ⟨d, hd, by simpa using hstart⟩
    obtain ⟨e, he⟩ := Option.isSome_iff_exists.mp hfound
    have hmem := List.mem_of_find?_eq_some he
    have hstart' : e.1.toList <+: text.toList := by simpa using List.find?_some he
    have hsame : e = d := by
      rcases List.prefix_or_prefix_of_prefix hstart' hstart with hed | hde
      · exact h.separate e hmem d hd hed
      · exact (h.separate d hd e hmem hde).symm
    exact ⟨e, he, by rw [hsame]⟩

theorem head?_of_isPrefix {start text : List Char} (h : start <+: text) (hne : start ≠ []) :
    text.head? = start.head? := by
  obtain ⟨rest, rfl⟩ := h
  exact List.head?_append_of_ne_nil start hne

/-- No value is read where no document starts. -/
theorem firstValue_tableReader_none {c : Char} {rest : List Char} (h : DistinctDocuments documents)
    (hc : ∀ d ∈ documents, d.1.toList.head? ≠ some c) (htext : text.toList = c :: rest) :
    (tableReader documents).firstValue text = none := by
  refine Option.eq_none_iff_forall_ne_some.mpr fun v hfirst => ?_
  obtain ⟨d, hd, hstart, -⟩ := (firstValue_tableReader h).mp hfirst
  have hhead := head?_of_isPrefix hstart (h.kinds d hd).1
  rw [htext] at hhead
  exact hc d hd hhead.symm

theorem tableReader_lawful (h : DistinctDocuments documents) : (tableReader documents).Lawful where
  object_text fs := ⟨Json.charsFields (fun _ => []) fs, by
    simp [tableReader, Json.text, Json.chars]⟩
  whole_first {text v} hread := by
    rw [read_tableReader] at hread
    rw [firstValue_tableReader h]
    obtain ⟨front, back, hdocuments, -⟩ := List.lookup_eq_some_iff.mp hread
    exact ⟨(text, v), by simp [hdocuments], List.prefix_rfl, rfl⟩
  object_first {text v} _ hread rest := by
    rw [read_tableReader] at hread
    rw [firstValue_tableReader h]
    obtain ⟨front, back, hdocuments, -⟩ := List.lookup_eq_some_iff.mp hread
    exact ⟨(text, v), by simp [hdocuments], by simp, rfl⟩
  object_kind {text v} htext hfirst := by
    obtain ⟨d, hd, hstart, rfl⟩ := (firstValue_tableReader h).mp hfirst
    obtain ⟨hne, hkind⟩ := h.kinds d hd
    have hhead : d.1.toList.head? = some '{' := by
      rw [← htext, head?_of_isPrefix hstart hne]
    rw [hhead] at hkind
    cases hd2 : d.2 <;> simp_all [Json.isObject]
  object_start {text fs} hfirst := by
    obtain ⟨d, hd, hstart, hvalue⟩ := (firstValue_tableReader h).mp hfirst
    obtain ⟨hne, hkind⟩ := h.kinds d hd
    rw [hvalue, Json.isObject, eq_comm, beq_iff_eq] at hkind
    have hhead : text.toList.head? = some '{' := by
      rw [head?_of_isPrefix hstart hne, hkind]
    obtain ⟨rest, hrest⟩ := List.head?_eq_some_iff.mp hhead
    exact ⟨[], rest, fun c hc => absurd hc List.not_mem_nil, hrest⟩

end

end ReactRuntime.Serde
