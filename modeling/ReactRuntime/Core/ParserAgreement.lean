import ReactRuntime.Core.LexedRepairs
import ReactRuntime.Core.ResilientParse
import ReactRuntime.Serde.TextReader

/-!
# The attempts on a text and on a field

A text that both repairs together make a document is that document with other strings. What the
attempts on a text find in it depends on whether one of the repairs is enough.
-/
namespace ReactRuntime.Core
open Library JsonText Serde

/-- A string as a text has it, and what both repairs make of it. -/
structure RawString where
  raw : List Char
  literal : Literal
  loose : Loose raw
  repaired : escapeBody (repairBody raw) = literal.body

namespace RawString

def content (a : RawString) : List Char := a.literal.content

theorem lexed_raw {doc : List (Symbol (List Char))} {raws : List (Symbol RawString)}
    (hdoc : Lexed id doc) (h : raws.map (Symbol.map raw) = doc) : Lexed raw raws := by
  intro s hs
  have hclosed := hdoc (s.map raw) (h ▸ List.mem_map_of_mem hs)
  cases s with
  | char c => exact hclosed
  | literal a => exact a.loose

theorem exists_of_map {doc : List (Symbol (List Char))} {doc' : List (Symbol Literal)}
    (hdoc : Lexed id doc)
    (h : doc.map (Symbol.map (escapeBody ∘ repairBody)) = doc'.map (Symbol.map Literal.body)) :
    ∃ raws : List (Symbol RawString), raws.map (Symbol.map raw) = doc ∧
      raws.map (Symbol.map literal) = doc' := by
  induction doc generalizing doc' with
  | nil => exact ⟨[], rfl, (List.map_eq_nil_iff.mp h.symm).symm⟩
  | cons s doc ih =>
    obtain ⟨hs, hdoc⟩ := lexed_cons.mp hdoc
    obtain ⟨s', doc', rfl, hs', hrest⟩ := List.map_eq_cons_iff.mp h.symm
    obtain ⟨raws, hraw, hliteral⟩ := ih hdoc hrest.symm
    cases s with
    | char c =>
      obtain rfl := Symbol.map_eq_char hs'
      exact ⟨.char c :: raws, by simp [Symbol.map, hraw], by simp [Symbol.map, hliteral]⟩
    | literal body =>
      obtain ⟨a, rfl, ha⟩ := Symbol.map_eq_literal hs'
      exact ⟨.literal ⟨body, a, hs, ha.symm⟩ :: raws, by simp [Symbol.map, hraw],
        by simp [Symbol.map, hliteral]⟩

end RawString

section
variable {S : SerdeJson} {number : List Char → Option Number} {d : Nat} {s : String} {v : Json}
  {doc : List (Symbol RawString)}

/-- The strings of a text that both repairs make a document. -/
theorem exists_rawStrings (h : Reads number (bothRepairs s).toList v) :
    ∃ doc : List (Symbol RawString), s.toList = textOf RawString.raw doc ∧
      Lexed RawString.raw doc ∧ Means RawString.content number maxDepth doc (.element v) := by
  obtain ⟨raws, hraws, hs⟩ := exists_lexed_of_reads h
  obtain ⟨doc, htext, hdoc⟩ := h
  rw [toList_bothRepairs, hs, bothRepairs_textOf hraws] at htext
  have hlexed := (piecewise_lexed fun a : Literal => a.decodes.stringBody.loose).of_means hdoc
  have hrepaired : Lexed (escapeBody ∘ repairBody) raws :=
    (hraws.comp loose_repairBody).comp loose_escapeBody
  obtain ⟨doc', rfl, rfl⟩ := RawString.exists_of_map hraws (textOf_inj hrepaired hlexed htext)
  refine ⟨doc', ?_, RawString.lexed_raw hraws rfl, means_of_map hdoc⟩
  rw [hs, textOf_map]
  rfl

theorem reads_of_rawStrings (hs : s.toList = textOf RawString.raw doc)
    (hdoc : Means RawString.content number maxDepth doc (.element v)) :
    Reads number (bothRepairs s).toList v := by
  have hlexed : Lexed RawString.raw doc := (piecewise_lexed fun a => a.loose).of_means hdoc
  refine ⟨doc.map (Symbol.map RawString.literal), ?_, means_map RawString.literal hdoc⟩
  rw [toList_bothRepairs, hs, bothRepairs_textOf hlexed, textOf_map]
  congr 1
  funext a
  exact a.repaired

def isSolid {α : Type} : Symbol α → Bool
  | .char c => !isWhitespace c
  | .literal _ => true

theorem not_isWhitespace_of_isNumeric {c : Char} (h : isNumeric c = true) :
    isWhitespace c = false := by
  have hrange : 0x20 < c.toNat ∧ c.toNat < 0x80 := by
    simp only [isNumeric, Char.isDigit, Bool.or_eq_true, Bool.and_eq_true, decide_eq_true_eq,
      List.contains_iff_mem, List.mem_cons, List.not_mem_nil, or_false] at h
    rcases h with ⟨hlow, hhigh⟩ | rfl | rfl | rfl | rfl | rfl
    · exact ⟨lt_of_lt_of_le (by decide) hlow, lt_of_le_of_lt hhigh (by decide)⟩
    all_goals decide
  simp [isWhitespace]
  omega

/-- A value starts and ends with no whitespace. -/
theorem solid_ends {α : Type} {content : α → List Char} {doc : List (Symbol α)}
    (h : Means content number d doc (.value v)) :
    (∃ s ∈ doc.head?, isSolid s = true) ∧ ∃ s ∈ doc.getLast?, isSolid s = true := by
  have hbrackets : ∀ {opening closing} (inner : List (Symbol α)), isWhitespace opening = false →
      isWhitespace closing = false →
      (∃ s ∈ (.char opening :: (inner ++ [.char closing]) : List (Symbol α)).head?, isSolid s = true) ∧
        ∃ s ∈ (.char opening :: (inner ++ [.char closing]) : List (Symbol α)).getLast?,
          isSolid s = true := by
    intro opening closing inner hopen hclose
    exact ⟨⟨.char opening, rfl, by simp [isSolid, hopen]⟩,
      ⟨.char closing, by simp [List.getLast?_cons], by simp [isSolid, hclose]⟩⟩
  cases h with
  | null | true | false => simp [chars, isSolid, isWhitespace]
  | string a => exact ⟨⟨_, rfl, rfl⟩, ⟨_, rfl, rfl⟩⟩
  | emptyArray _ | array _ | emptyObject _ | object _ =>
    exact hbrackets _ (by decide) (by decide)
  | @number _ text n hnumber _ =>
    have hsolid : ∀ c ∈ text, isSolid (.char c : Symbol α) = true := by
      intro c hc
      simp [isSolid, not_isWhitespace_of_isNumeric (hnumber.numeric c hc)]
    have hhead := List.head_mem hnumber.ne_nil
    have hlast := List.getLast_mem hnumber.ne_nil
    constructor
    · exact ⟨.char (text.head hnumber.ne_nil), by simp [chars, List.head?_eq_some_head hnumber.ne_nil],
        hsolid _ hhead⟩
    · exact ⟨.char (text.getLast hnumber.ne_nil),
        by simp [chars, List.getLast?_eq_some_getLast hnumber.ne_nil], hsolid _ hlast⟩

theorem not_isWhitespace_quote : isWhitespace '"' = false := by decide

/-- Only the whitespace of JSON is trimmed around a document. -/
theorem toList_trim_textOf {w w' : List Char} (hw : Blank w) (hw' : Blank w')
    (hdoc : Means RawString.content number d doc (.value v))
    (hs : s.toList = w ++ (textOf RawString.raw doc ++ w')) :
    (trim s).toList = textOf RawString.raw doc := by
  obtain ⟨⟨first, hfirst, hfirstSolid⟩, ⟨last, hlast, hlastSolid⟩⟩ := solid_ends hdoc
  have hhead : ∃ c ∈ (textOf RawString.raw doc).head?, isWhitespace c = false := by
    obtain ⟨rest, rfl⟩ := List.head?_eq_some_iff.mp hfirst
    cases first with
    | char c => exact ⟨c, rfl, by simpa [isSolid] using hfirstSolid⟩
    | literal a => exact ⟨'"', by simp, not_isWhitespace_quote⟩
  have hend : ∃ c ∈ (textOf RawString.raw doc).getLast?, isWhitespace c = false := by
    obtain ⟨front, rfl⟩ := List.getLast?_eq_some_iff.mp hlast
    cases last with
    | char c => exact ⟨c, by simp, by simpa [isSolid] using hlastSolid⟩
    | literal a => exact ⟨'"', by simp [List.getLast?_cons], not_isWhitespace_quote⟩
  have hblank : ∀ {w}, Blank w → ∀ c ∈ (String.ofList w).toList, isWhitespace c = true := by
    intro w hw c hc
    rw [String.toList_ofList] at hc
    exact isWhitespace_of_isWs (hw c hc)
  have htrim : trim (.ofList w ++ .ofList (textOf RawString.raw doc) ++ .ofList w') =
      .ofList (textOf RawString.raw doc) :=
    trim_around_blank (by rwa [String.toList_ofList]) (by rwa [String.toList_ofList])
      (hblank hw) (hblank hw')
  have hsplit : s = .ofList w ++ .ofList (textOf RawString.raw doc) ++ .ofList w' := by
    rw [← String.toList_inj, hs]
    simp
  rw [hsplit, htrim, String.toList_ofList]

/-- A text that is read with both repairs, without the whitespace around it. -/
theorem exists_trimmed (h : Reads number (bothRepairs s).toList v) :
    ∃ w w' : List Char, ∃ doc : List (Symbol RawString), Blank w ∧ Blank w' ∧
      Lexed RawString.raw doc ∧ Means RawString.content number maxDepth doc (.value v) ∧
      s.toList = w ++ (textOf RawString.raw doc ++ w') ∧
      (trim s).toList = textOf RawString.raw doc := by
  obtain ⟨whole, hs, hlexed, hwhole⟩ := exists_rawStrings h
  generalize hp : Part.element v = p at hwhole
  cases hwhole with
  | @element _ w w' doc u hw hdoc hw' =>
    obtain rfl := Part.element.inj hp
    simp only [textOf_append, textOf_chars] at hs
    exact ⟨w, w', doc, hw, hw', (lexed_append.mp (lexed_append.mp hlexed).2).1, hdoc, hs,
      toList_trim_textOf hw hw' hdoc hs⟩
  | _ => exact nomatch hp

/-- A document that is neither a word nor a number. -/
def Delimited {α : Type} (doc : List (Symbol α)) : Prop :=
  ∀ text, (∀ c ∈ text, isNeutral c = true) → doc ≠ chars text

section
variable {α β : Type} {content : α → List Char} {body : α → List Char} {content' : β → List Char}
  {body' : β → List Char}

theorem piecewise_balanced (hbody : ∀ a, Loose (body a)) :
    Piecewise fun _ (doc : List (Symbol α)) => Scanner.Balanced (textOf body doc) where
  append h h' := by
    rw [textOf_append]
    exact h.append h'
  plain h := by
    rw [textOf_chars]
    exact Scanner.balanced_of_neutral fun c hc => (h c hc).1
  literal a := by simpa using Scanner.balanced_quoted (hbody a)
  bracketed hbrackets h := by simpa using Scanner.balanced_bracketed hbrackets h

/-- A string, or something in brackets. -/
inductive Shape (body : α → List Char) : List (Symbol α) → Json → Prop where
  | string (a : α) {u : String} : Shape body [.literal a] (.str u)
  | bracketed {opening closing : Char} {inner : List (Symbol α)} {v : Json}
      (hbrackets : Brackets opening closing) (h : Scanner.Balanced (textOf body inner)) :
      Shape body (.char opening :: (inner ++ [.char closing])) v

theorem shape_of_means (hbody : ∀ a, Loose (body a)) {doc : List (Symbol α)}
    (h : Means content number d doc (.value v)) (hdelimited : Delimited doc) : Shape body doc v := by
  have hbalanced : ∀ {d doc p}, Means content number d doc p → Scanner.Balanced (textOf body doc) :=
    fun h => (piecewise_balanced hbody).of_means h
  have hblank : ∀ {w}, Blank w → Scanner.Balanced (textOf body (chars w)) := by
    intro w hw
    rw [textOf_chars]
    exact Scanner.balanced_of_neutral hw.neutral
  cases h with
  | null | true | false => exact absurd rfl (hdelimited _ (by simp [isNeutral]))
  | number h _ => exact absurd rfl (hdelimited _ h.neutral)
  | string a => exact .string a
  | emptyArray hw => exact .bracketed (.inr ⟨rfl, rfl⟩) (hblank hw)
  | array h => exact .bracketed (.inr ⟨rfl, rfl⟩) (hbalanced h)
  | emptyObject hw => exact .bracketed (.inl ⟨rfl, rfl⟩) (hblank hw)
  | object h => exact .bracketed (.inl ⟨rfl, rfl⟩) (hbalanced h)

theorem Shape.head {doc : List (Symbol α)} (h : Shape body doc v) :
    ∃ c ∈ (textOf body doc).head?, isNeutral c = false := by
  cases h with
  | string a => exact ⟨'"', by simp, by decide⟩
  | @bracketed opening closing inner v hbrackets _ =>
    refine ⟨opening, rfl, ?_⟩
    rcases hbrackets with ⟨rfl, -⟩ | ⟨rfl, -⟩ <;> decide

/-- Such a document is not the start of a longer one. -/
theorem Shape.eq_nil_of_append {doc : List (Symbol α)} {doc' : List (Symbol β)} {u : Json}
    {rest : List Char} (hbody : ∀ a, Loose (body a)) (hbody' : ∀ a, Loose (body' a))
    (h : Shape body doc v) (h' : Shape body' doc' u)
    (heq : textOf body doc = textOf body' doc' ++ rest) : rest = [] := by
  cases h with
  | string a =>
    cases h' with
    | string b =>
      simp only [textOf_literal, textOf_nil, List.cons_append, List.append_assoc,
        List.nil_append] at heq
      exact (Loose.append_quote_inj (hbody a) (hbody' b) (List.cons.inj heq).2).2.symm
    | bracketed hbrackets _ =>
      have hfirst := (List.cons.inj heq).1
      rcases hbrackets with ⟨rfl, -⟩ | ⟨rfl, -⟩ <;> exact absurd hfirst (by decide)
  | bracketed hbrackets hinner =>
    cases h' with
    | string b =>
      have hfirst := (List.cons.inj heq).1
      rcases hbrackets with ⟨rfl, -⟩ | ⟨rfl, -⟩ <;> exact absurd hfirst (by decide)
    | bracketed hbrackets' hinner' =>
      -- both texts end where the first bracket is closed
      have hwhole := Scanner.findEnd_bracketed hbrackets hinner []
      have hfront := Scanner.findEnd_bracketed hbrackets' hinner' rest
      simp only [textOf_char, textOf_append, textOf_nil] at heq
      rw [List.append_nil, heq, hfront] at hwhole
      exact (Prod.mk.inj (Option.some.inj hwhole)).2

theorem Shape.eq_nil_of_starts {doc : List (Symbol α)} {u : Json} {front rest : List Char}
    (hbody : ∀ a, Loose (body a)) (h : Shape body doc v) (hstarts : Starts number front u)
    (heq : textOf body doc = front ++ rest) : rest = [] := by
  obtain ⟨w, doc', hw, rfl, hdoc'⟩ := hstarts
  obtain ⟨c, hc, hspecial⟩ := h.head
  have hneutral : ∀ {text more}, (∀ c ∈ text, isNeutral c = true) → text ≠ [] →
      textOf body doc ≠ text ++ more := by
    intro text more htext hne hsplit
    rw [hsplit, List.head?_append_of_ne_nil _ hne] at hc
    simp [htext c (List.mem_of_head? hc)] at hspecial
  obtain rfl : w = [] := by
    by_contra hne
    exact hneutral hw.neutral hne (heq.trans (List.append_assoc ..))
  have hdelimited : Delimited doc' := by
    rintro text htext rfl
    refine hneutral htext ?_ (by simpa using heq)
    rintro rfl
    obtain ⟨⟨s, hs, -⟩, -⟩ := solid_ends hdoc'
    exact absurd hs (by simp [chars])
  have hloose : ∀ a : Literal, Loose a.body := fun a => a.decodes.stringBody.loose
  exact Shape.eq_nil_of_append hbody hloose h (shape_of_means hloose hdoc' hdelimited) heq

end

/-- The second repair has nothing to do, or it leaves nothing to do for the first. -/
def OneRepair (s : String) : Prop :=
  repairInvalidJsonEscapes s = s ∨
    escapeControlCharsInJsonStrings (repairInvalidJsonEscapes s) = repairInvalidJsonEscapes s

section Repairs
variable {w w' : List Char}

theorem literal_mem_around {a : RawString} :
    Symbol.literal a ∈ chars w ++ (doc ++ chars w') ↔ Symbol.literal a ∈ doc := by
  simp [chars]

/-- Whether the repairs have something to do is told by the strings. -/
theorem oneRepair_iff (hlexed : Lexed RawString.raw doc) (hw : Blank w) (hw' : Blank w')
    (hs : s.toList = w ++ (textOf RawString.raw doc ++ w')) :
    OneRepair s ↔ (∀ a, Symbol.literal a ∈ doc → repairBody a.raw = a.raw) ∨
      ∀ a, Symbol.literal a ∈ doc → escapeBody (repairBody a.raw) = repairBody a.raw := by
  have hwhole : Lexed RawString.raw (chars w ++ (doc ++ chars w')) :=
    lexed_append.mpr ⟨lexed_chars hw.outside, lexed_append.mpr ⟨hlexed, lexed_chars hw'.outside⟩⟩
  have hs' : s.toList = textOf RawString.raw (chars w ++ (doc ++ chars w')) := by simpa using hs
  have hrepaired := hwhole.comp loose_repairBody
  have hrepair : repairInvalidJsonEscapes s = s ↔
      ∀ a, Symbol.literal a ∈ doc → repairBody a.raw = a.raw := by
    rw [← String.toList_inj, repairInvalidJsonEscapes, String.toList_ofList, hs',
      repairEscapes_textOf hwhole, textOf_eq_iff hrepaired hwhole]
    simp only [literal_mem_around, Function.comp_apply]
  have hescape : escapeControlCharsInJsonStrings (repairInvalidJsonEscapes s) =
      repairInvalidJsonEscapes s ↔
        ∀ a, Symbol.literal a ∈ doc → escapeBody (repairBody a.raw) = repairBody a.raw := by
    rw [← String.toList_inj, escapeControlCharsInJsonStrings, repairInvalidJsonEscapes,
      String.toList_ofList, String.toList_ofList, hs', repairEscapes_textOf hwhole,
      escapeFrom_textOf hrepaired, textOf_eq_iff (hrepaired.comp loose_escapeBody) hrepaired]
    simp only [literal_mem_around, Function.comp_apply]
  rw [OneRepair, hrepair, hescape]

end Repairs

/-- An escape that the second repair finds is still there after the first. -/
theorem repairBody_of_escaped {b : List Char} (h : Loose b)
    (hkept : repairBody (escapeBody b) = escapeBody b) : repairBody b = b := by
  induction h with
  | nil => rfl
  | plain hquote hbackslash _ ih =>
    rw [escapeBody_inside hquote hbackslash, repairBody_escapeControl hquote hbackslash] at hkept
    rw [repairBody_inside hquote hbackslash, ih (List.append_cancel_left hkept)]
  | escaped c _ ih =>
    rw [escapeBody_escaped] at hkept
    by_cases hc : c ∈ 'u' :: escapes
    · rw [repairBody_escaped hc] at hkept ⊢
      simp only [List.cons.injEq, true_and] at hkept
      rw [ih hkept]
    · rw [repairBody_stray hc] at hkept
      simp only [List.cons.injEq, true_and] at hkept
      exact absurd hkept.1.symm (plain_of_not_mem_escapes hc).2

theorem head?_bothRepairs (text : List Char) :
    (escapeFrom ⟨false, false⟩ (repairEscapes false text)).head? = text.head? := by
  cases text with
  | nil => rfl
  | cons c text =>
    obtain ⟨more, hmore⟩ := toList_repairEscapes_cons (String.toList_ofList (l := c :: text))
    obtain ⟨more', hmore'⟩ := toList_escapeControl_cons hmore
    rw [escapeControlCharsInJsonStrings, repairInvalidJsonEscapes, String.toList_ofList,
      String.toList_ofList, String.toList_ofList] at hmore'
    rw [hmore']
    rfl

/-- A value at the start of a text is there after both repairs as well. -/
theorem firstValue_bothRepairs (hS : S.ReadsDocuments number) (h : S.firstValue s = some v) :
    S.firstValue (bothRepairs s) = some v := by
  obtain ⟨front, rest, hs, hstarts, hend⟩ := hS.first_iff.mp h
  have hkept := Untouched.compositional.of_derives hstarts.isText
  refine hS.first_iff.mpr ⟨front, escapeFrom ⟨false, false⟩ (repairEscapes false rest), ?_, hstarts,
    ?_⟩
  · rw [toList_bothRepairs, hs, hkept.repair, hkept.escape]
  · rwa [head?_bothRepairs]

/-- The attempts on a text find what both repairs give, if one of them is enough. -/
theorem resilientParse_of_oneRepair (hS : S.ReadsDocuments number) {t : String}
    (hboth : S.read (bothRepairs (trim t)) = some v) (hone : OneRepair (trim t)) :
    resilientParse S t = .ok v := by
  have hwhole : ∀ w, S.read (trim t) = some w → w = v := by
    intro w h
    rw [bothRepairs_of_read hS h, h] at hboth
    exact Option.some.inj hboth
  have hfirst : ∀ w, S.firstValue (trim t) = some w → w = v := by
    intro w h
    exact Option.some.inj ((firstValue_bothRepairs hS h).symm.trans (hS.whole_first hboth))
  have hcontrol : ∀ w, S.read (escapeControlCharsInJsonStrings (trim t)) = some w → w = v := by
    intro w h
    rw [bothRepairs_of_read_escape hS h, h] at hboth
    exact Option.some.inj hboth
  simp only [resilientParse, tryFirstJsonValue]
  cases h₁ : S.read (trim t) with
  | some w => simp [hwhole w h₁]
  | none =>
    cases h₂ : S.firstValue (trim t) with
    | some w => simp [hfirst w h₂]
    | none =>
      cases h₃ : S.read (escapeControlCharsInJsonStrings (trim t)) with
      | some w => simp [hcontrol w h₃]
      | none =>
        rcases hone with hrepair | hescape
        · rw [bothRepairs, hrepair, h₃] at hboth
          exact absurd hboth (by simp)
        · rw [bothRepairs, hescape] at hboth
          simp [hboth]

/-- The value of a text that starts with a bracket is no string. -/
theorem ne_string_of_opens {u : String} (h : Reads number s.toList v)
    (hopens : ∃ c ∈ s.toList.head?, opens c = true) : v ≠ .str u := by
  rintro rfl
  obtain ⟨c, hc, hopen⟩ := hopens
  obtain ⟨doc, hs, hdoc⟩ := h
  generalize hp : Part.element (.str u) = p at hdoc
  cases hdoc with
  | @element _ w w' doc v hw hdoc hw' =>
    obtain rfl := Part.element.inj hp
    rw [hs] at hc
    cases w with
    | cons b w =>
      obtain rfl : b = c := by simpa [chars] using hc
      have hneutral := hw.neutral b List.mem_cons_self
      simp_all [isNeutral, opens]
    | nil =>
      generalize hp : Part.value (.str u) = p at hdoc
      cases hdoc with
      | string a =>
        obtain rfl : '"' = c := by simpa [chars] using hc
        exact absurd hopen (by decide)
      | _ => simp [Json.object] at hp
  | _ => cases hp

/-- What is extracted is not the value that both repairs give. -/
theorem not_extracted (hS : S.ReadsDocuments number) (hs : s.toList = textOf RawString.raw doc)
    (hshape : Shape RawString.raw doc v) (hwhole : S.read s = none) :
    (extractAllJsonValues s 8).findSome? S.read ≠ some v := by
  intro hfound
  rw [List.findSome?_eq_some_iff] at hfound
  obtain ⟨front, j, back, hvalues, hread, -⟩ := hfound
  have hmem : j ∈ extractAllJsonValues s 8 := by simp [hvalues]
  cases hshape with
  | string a =>
    obtain ⟨value, hvalue, rfl⟩ := List.mem_map.mp hmem
    refine ne_string_of_opens (hS.read_iff.mp hread) ?_ rfl
    rw [String.toList_ofList]
    exact head_opens_of_mem_extractFrom hvalue
  | @bracketed opening closing inner v hbrackets hinner =>
    have hextract : extractFrom s.toList 8 = [s.toList] := by
      have hopens : opens opening = true := by
        rcases hbrackets with ⟨rfl, -⟩ | ⟨rfl, -⟩ <;> decide
      have hend := Scanner.findEnd_bracketed hbrackets hinner []
      simp only [textOf_char, textOf_append, textOf_nil] at hs
      rw [List.append_nil, ← hs] at hend
      have hdrop : s.toList.dropWhile (fun ch => !opens ch) = s.toList := by
        rw [hs]
        simp [hopens]
      rw [extractFrom, hdrop, hend]
      rfl
    rw [extractAllJsonValues, hextract, List.map_singleton, String.ofList_toList,
      List.mem_singleton] at hmem
    rw [hmem, hwhole] at hread
    exact absurd hread (by simp)

/-- Where both repairs are needed, the attempts on a text do not find what they give. -/
theorem oneRepair_of_resilientParse (hS : S.ReadsDocuments number) {t : String}
    (hlexed : Lexed RawString.raw doc) (hs : (trim t).toList = textOf RawString.raw doc)
    (hdoc : Means RawString.content number d doc (.value v)) (hparse : resilientParse S t = .ok v) :
    OneRepair (trim t) := by
  have hiff := oneRepair_iff hlexed blank_nil blank_nil (s := trim t) (by simpa using hs)
  by_contra hneeded
  have hrepair : repairInvalidJsonEscapes (trim t) ≠ trim t := fun h => hneeded (.inl h)
  have hwhole : S.read (trim t) = none :=
    Option.eq_none_iff_forall_ne_some.mpr fun w h => hrepair (repairs_of_read hS h).2
  have hdelimited : Delimited doc := by
    rintro text - rfl
    exact hneeded (hiff.mpr (.inl fun a ha => by simp [chars] at ha))
  have hloose : ∀ a : RawString, Loose a.raw := RawString.loose
  have hshape := shape_of_means hloose hdoc hdelimited
  have hfirst : S.firstValue (trim t) = none := by
    refine Option.eq_none_iff_forall_ne_some.mpr fun w h => hrepair ?_
    obtain ⟨front, rest, hsplit, hstarts, -⟩ := hS.first_iff.mp h
    obtain rfl := hshape.eq_nil_of_starts hloose hstarts (hs.symm.trans hsplit)
    rw [List.append_nil] at hsplit
    exact (repairs_keep_text (hsplit ▸ hstarts.isText)).2.1
  have hcontrol : S.read (escapeControlCharsInJsonStrings (trim t)) = none := by
    refine Option.eq_none_iff_forall_ne_some.mpr fun w h => hneeded (hiff.mpr (.inl ?_))
    have hkept := (repairs_of_read hS h).2
    have hescaped := hlexed.comp loose_escapeBody
    rw [← String.toList_inj, repairInvalidJsonEscapes, escapeControlCharsInJsonStrings,
      String.toList_ofList, String.toList_ofList, hs, escapeFrom_textOf hlexed,
      repairEscapes_textOf hescaped, textOf_eq_iff (hescaped.comp loose_repairBody) hescaped] at hkept
    exact fun a ha => repairBody_of_escaped a.loose (hkept a ha)
  have hescapes : S.read (repairInvalidJsonEscapes (trim t)) = none :=
    Option.eq_none_iff_forall_ne_some.mpr fun w h => hneeded (.inr (repairs_of_read hS h).1)
  have hextract := not_extracted hS hs hshape hwhole
  simp only [resilientParse, tryFirstJsonValue, hwhole, hfirst, hcontrol, hescapes,
    Option.orElse_eq_orElse, Option.orElse_none] at hparse
  cases hfound : (extractAllJsonValues (trim t) 8).findSome? S.read with
  | none => simp [hfound] at hparse
  | some w =>
    rw [hfound] at hparse
    obtain rfl : w = v := Except.ok.inj hparse
    exact hextract hfound

/-- What is read in a field is read in a text as well, just where one of the repairs is enough. -/
theorem resilient_parse_agrees_iff (hS : S.ReadsDocuments number) {t : String}
    (h : resilientParseStringField S t = .ok v) :
    resilientParse S t = .ok v ↔ OneRepair t := by
  have hboth := (resilientParseStringField_iff hS).mp h
  obtain ⟨w, w', doc, hw, hw', hlexed, hdoc, ht, htrim⟩ := exists_trimmed (hS.read_iff.mp hboth)
  have hone : OneRepair (trim t) ↔ OneRepair t := by
    rw [oneRepair_iff hlexed blank_nil blank_nil (by simpa using htrim),
      oneRepair_iff hlexed hw hw' ht]
  rw [← hone]
  constructor
  · exact oneRepair_of_resilientParse hS hlexed htrim hdoc
  · intro hrepaired
    have helement := Means.element blank_nil hdoc blank_nil
    have hread := reads_of_rawStrings (s := trim t) (by simpa [chars] using htrim) helement
    exact resilientParse_of_oneRepair hS (hS.read_iff.mpr hread) hrepaired

theorem resilient_parse_agrees_stray :
    resilientParse (jsonReader readNatural) "\"\\s\"" = .ok (.str "\\s") ↔
      OneRepair "\"\\s\"" :=
  resilient_parse_agrees_iff (jsonReader_readsDocuments isNumber_of_readNatural) (by decide +kernel)

/-- A stray backslash and a raw newline in one string. -/
theorem resilient_parse_both_repairs :
    (jsonReader readNatural).ReadsDocuments readNatural ∧
      resilientParseStringField (jsonReader readNatural) "\"\\s\n\"" = .ok (.str "\\s\n") ∧
      resilientParse (jsonReader readNatural) "\"\\s\n\"" =
        .error "LLM response did not contain valid JSON" :=
  ⟨jsonReader_readsDocuments isNumber_of_readNatural, by decide +kernel, by decide +kernel⟩

end
end ReactRuntime.Core
