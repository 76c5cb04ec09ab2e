import ReactRuntime.Core.JsonRepair

/-!
# Finding a document

The attempts of `resilient_parse` on a text with a JSON object in it: behind the object nothing
matters, and what stands in front of it must not be a value itself.
-/
namespace ReactRuntime.Core
open Library JsonText Serde

section
variable {S : SerdeJson} {text j : String} {v : Json}

/-- A text that starts with an object is read as the object. -/
theorem resilientParse_object (hS : S.Lawful) {rest : String} (htext : trim text = j ++ rest)
    (hstart : j.toList.head? = some '{') (hread : S.read j = some v) :
    resilientParse S text = .ok v := by
  have hfirst : S.firstValue (trim text) = some v := by
    rw [htext]
    exact hS.object_first hstart hread rest
  cases hwhole : S.read (trim text) with
  | none => simp [resilientParse, tryFirstJsonValue, hwhole, hfirst]
  | some w =>
    have hw : some w = some v := (hS.whole_first hwhole).symm.trans hfirst
    simpa [resilientParse, hwhole] using hw

/-- A text has no value at its start, and the repairs do not make it one. -/
structure Unread (S : SerdeJson) (s : String) : Prop where
  first : tryFirstJsonValue S s = none
  control : S.read (escapeControlCharsInJsonStrings s) = none
  escapes : S.read (repairInvalidJsonEscapes s) = none

theorem Unread.whole (hS : S.Lawful) {s : String} (h : Unread S s) : S.read s = none :=
  hS.read_none h.first

/-- Then the values inside the text are tried. -/
theorem resilientParse_of_unread (hS : S.Lawful) (h : Unread S (trim text)) {values : List String}
    (hextract : extractAllJsonValues (trim text) 8 = j :: values) (hread : S.read j = some v) :
    resilientParse S text = .ok v := by
  simp [resilientParse, h.whole hS, h.first, h.control, h.escapes, hextract, hread]

/-- Where no value starts with the first character, none is read. -/
theorem unread_of_start (hS : S.Lawful) {c : Char} {rest : List Char} {s : String}
    (hc : ∀ {text rest}, text.toList = c :: rest → S.firstValue text = none)
    (hs : s.toList = c :: rest) : Unread S s := by
  obtain ⟨_, hcontrol⟩ := toList_escapeControl_cons hs
  obtain ⟨_, hescapes⟩ := toList_repairEscapes_cons hs
  exact ⟨hc hs, hS.read_none (hc hcontrol), hS.read_none (hc hescapes)⟩

/-- What is read from a text that starts with another character than a brace is no object. -/
theorem unread_of_object (hS : S.Lawful) {c : Char} {rest : List Char} {fs : Fields}
    (htext : (trim text).toList = c :: rest) (hws : isWs c = false) (hc : c ≠ '{')
    (hparse : resilientParse S text = .ok (.obj fs)) : Unread S (trim text) := by
  have hread : ∀ {s : String} {rest' w}, s.toList = c :: rest' → S.read s = some w →
      w ≠ .obj fs := by
    rintro s rest' w hs hw rfl
    exact hS.not_object hs hws hc (hS.whole_first hw)
  obtain ⟨_, hcontrol⟩ := toList_escapeControl_cons htext
  obtain ⟨_, hescapes⟩ := toList_repairEscapes_cons htext
  -- an attempt that succeeds gives the object, which none of the first four can read
  simp only [resilientParse] at hparse
  have hwhole : S.read (trim text) = none := by
    refine Option.eq_none_iff_forall_ne_some.mpr fun w hw => ?_
    rw [hw] at hparse
    exact hread htext hw (Except.ok.inj hparse)
  have hfirst : tryFirstJsonValue S (trim text) = none := by
    refine Option.eq_none_iff_forall_ne_some.mpr fun w hw => ?_
    rw [hwhole, hw] at hparse
    obtain rfl : w = .obj fs := Except.ok.inj hparse
    exact hS.not_object htext hws hc hw
  have hcontrolNone : S.read (escapeControlCharsInJsonStrings (trim text)) = none := by
    refine Option.eq_none_iff_forall_ne_some.mpr fun w hw => ?_
    rw [hwhole, hfirst, hw] at hparse
    exact hread hcontrol hw (Except.ok.inj hparse)
  have hescapesNone : S.read (repairInvalidJsonEscapes (trim text)) = none := by
    refine Option.eq_none_iff_forall_ne_some.mpr fun w hw => ?_
    rw [hwhole, hfirst, hcontrolNone, hw] at hparse
    exact hread hescapes hw (Except.ok.inj hparse)
  exact ⟨hfirst, hcontrolNone, hescapesNone⟩

end

theorem isWhitespace_of_isWs {c : Char} (h : isWs c = true) : isWhitespace c = true := by
  simp only [isWs, Bool.or_eq_true, decide_eq_true_eq] at h
  rcases h with ((rfl | rfl) | rfl) | rfl <;> decide

theorem IsObject.bracketed {j : List Char} (h : IsObject j) : ∃ body, j = '{' :: (body ++ ['}']) := by
  obtain ⟨opening, body, closing, hbrackets, -, rfl⟩ :=
    Scanner.bracketed_of_value h.1 ⟨'{', h.2, rfl⟩
  obtain rfl : opening = '{' := by simpa using h.2
  obtain ⟨-, rfl⟩ | ⟨hother, -⟩ := hbrackets
  · exact ⟨body, rfl⟩
  · exact absurd hother (by decide)

theorem trim_around {j : String} (hj : ∃ body, j.toList = '{' :: (body ++ ['}'])) (p q : String) :
    (trim (p ++ j ++ q)).toList = p.toList.dropWhile isWhitespace ++ j.toList ++
      q.toList.rdropWhile isWhitespace := by
  obtain ⟨body, hbody⟩ := hj
  apply toList_trim_append
  · exact ⟨'{', by simp [hbody], by decide⟩
  · exact ⟨'}', by simp [hbody, List.getLast?_cons], by decide⟩

/-- The object behind a text without brackets is found if the text is blank, or if no value is read
before the search for brackets. -/
theorem resilient_parse_object_iff {S : SerdeJson} (hS : S.Lawful) {p j : String} (q : String)
    (hp : ∀ c ∈ p.toList, opens c = false) (hj : IsObject j.toList) :
    (∃ v, S.read j = some v ∧ resilientParse S (p ++ j ++ q) = .ok v) ↔
      (∃ v, S.read j = some v) ∧
        ((∀ c ∈ p.toList, isWhitespace c = true) ∨ Unread S (trim (p ++ j ++ q))) := by
  have htrim := trim_around (IsObject.bracketed hj) p q
  rw [← exists_and_right]
  refine exists_congr fun v => and_congr_right fun hread => ⟨fun hparse => ?_, fun h => ?_⟩
  · refine or_iff_not_imp_left.mpr fun hblank => ?_
    obtain ⟨fs, rfl⟩ := hS.read_object hj.2 hread
    cases hfront : p.toList.dropWhile isWhitespace with
    | nil => exact absurd (List.dropWhile_eq_nil_iff.mp hfront) hblank
    | cons c front =>
      rw [hfront, List.cons_append, List.cons_append] at htrim
      have hmem : c ∈ p.toList := (List.dropWhile_suffix _).subset (hfront ▸ List.mem_cons_self)
      have hkept : isWhitespace c = false := by
        simpa [hfront] using List.head?_dropWhile_not isWhitespace p.toList
      refine unread_of_object hS htrim ?_ ?_ hparse
      · exact Bool.eq_false_iff.mpr fun hws => by simp [isWhitespace_of_isWs hws] at hkept
      · rintro rfl
        exact absurd (hp _ hmem) (by decide)
  · rcases h with hblank | hunread
    · have htext : trim (p ++ j ++ q) = j ++ .ofList (q.toList.rdropWhile isWhitespace) := by
        rw [← String.toList_inj, htrim, List.dropWhile_eq_nil_iff.mpr hblank]
        simp
      exact resilientParse_object hS htext hj.2 hread
    · have hp' : ∀ c ∈ p.toList.dropWhile isWhitespace, opens c = false :=
        fun c hc => hp c ((List.dropWhile_suffix _).subset hc)
      have hextract : extractAllJsonValues (trim (p ++ j ++ q)) 8 =
          j :: (extractFrom (q.toList.rdropWhile isWhitespace) 7).map .ofList := by
        rw [extractAllJsonValues, htrim, extractFrom_value hp' hj.1 ⟨'{', hj.2, rfl⟩, List.map_cons,
          String.ofList_toList]
      exact resilientParse_of_unread hS hunread hextract hread

def sampleDocuments : List (String × Json) := [("\x7b\x7d", .obj []), ("5", .num (.posInt 5))]

theorem sampleDocuments_distinct : DistinctDocuments sampleDocuments := ⟨by decide, by decide⟩

theorem isObject_empty : IsObject "\x7b\x7d".toList := by
  have hblank : Blank [] := fun c hc => absurd hc List.not_mem_nil
  exact ⟨.emptyObject hblank, rfl⟩

theorem resilient_parse_object_behind_prose :
    ∃ v, (tableReader sampleDocuments).read "\x7b\x7d" = some v ∧
      resilientParse (tableReader sampleDocuments) ("Result: " ++ "\x7b\x7d" ++ " done") = .ok v := by
  have hlawful := tableReader_lawful sampleDocuments_distinct
  have htrim := trim_around (IsObject.bracketed isObject_empty) "Result: " " done"
  refine (resilient_parse_object_iff hlawful _ (by simp [opens]) isObject_empty).mpr
    ⟨⟨.obj [], by rw [read_tableReader]; decide⟩, Or.inr ?_⟩
  refine unread_of_start hlawful (fun h => ?_) htrim
  exact firstValue_tableReader_none sampleDocuments_distinct (by decide) h

/-- A number in front of the object is read instead of it. -/
theorem resilient_parse_leading_number :
    (∀ c ∈ "5 ".toList, opens c = false) ∧ IsObject "\x7b\x7d".toList ∧
      (tableReader sampleDocuments).read "\x7b\x7d" = some (.obj []) ∧
      resilientParse (tableReader sampleDocuments) ("5 " ++ "\x7b\x7d" ++ "") =
        .ok (.num (.posInt 5)) := by
  have htrim := trim_around (IsObject.bracketed isObject_empty) "5 " ""
  have htext : trim ("5 " ++ "\x7b\x7d" ++ "") = "5 \x7b\x7d" := by
    rw [← String.toList_inj, htrim]
    decide
  refine ⟨by simp [opens], isObject_empty, by rw [read_tableReader]; decide, ?_⟩
  simp only [resilientParse, htext, read_tableReader, tryFirstJsonValue]
  decide

end ReactRuntime.Core
