import ReactRuntime.Core.RepairIdentity
import ReactRuntime.Serde.Document

/-!
# Repairs, string by string

A repair works on each string of a text on its own and leaves the rest alone; it never moves the
place where a string ends. So a text that a repair makes valid was already one of closed strings,
and its last attempt is the only one that `resilient_parse_string_field` needs.
-/
namespace ReactRuntime.Core
open Library JsonText Serde

/-- The first repair between the quotes of a string. -/
def escapeBody (body : List Char) : List Char := escapeFrom ⟨true, false⟩ body

/-- The second one. -/
def repairBody (body : List Char) : List Char := repairEscapes true body

section Bodies
variable {body : List Char}

/-- What an escaped control character is made of, or the character itself. -/
theorem escapeControl_cases (c : Char) : escapeControl c = [c] ∨
    (∃ d ∈ escapes, escapeControl c = ['\\', d]) ∨ ∃ d e, isHex d = true ∧ isHex e = true ∧
      escapeControl c = ['\\', 'u', '0', '0', d, e] := by
  have hdigit : ∀ n < 16, isHex (Nat.digitChar n) = true := by decide
  unfold escapeControl
  split_ifs with _ _ _ _ _ hcontrol
  · exact .inr (.inl ⟨'n', by decide, rfl⟩)
  · exact .inr (.inl ⟨'r', by decide, rfl⟩)
  · exact .inr (.inl ⟨'t', by decide, rfl⟩)
  · exact .inr (.inl ⟨'b', by decide, rfl⟩)
  · exact .inr (.inl ⟨'f', by decide, rfl⟩)
  · exact .inr (.inr ⟨_, _, hdigit _ (by omega), hdigit _ (by omega), rfl⟩)
  · exact .inl rfl

theorem escapeBody_inside {c : Char} (hquote : c ≠ '"') (hbackslash : c ≠ '\\')
    (body : List Char) : escapeBody (c :: body) = escapeControl c ++ escapeBody body :=
  escapeFrom_inside hquote hbackslash body

theorem escapeBody_escaped (c : Char) (body : List Char) :
    escapeBody ('\\' :: c :: body) = '\\' :: c :: escapeBody body := rfl

theorem repairBody_inside {c : Char} (hquote : c ≠ '"') (hbackslash : c ≠ '\\')
    (body : List Char) : repairBody (c :: body) = c :: repairBody body :=
  repairEscapes_inside hquote hbackslash body

theorem repairBody_escaped {c : Char} (h : c ∈ 'u' :: escapes) (body : List Char) :
    repairBody ('\\' :: c :: body) = '\\' :: c :: repairBody body := repairEscapes_escaped h body

theorem plain_of_not_mem_escapes {c : Char} (h : c ∉ 'u' :: escapes) : c ≠ '"' ∧ c ≠ '\\' := by
  constructor <;> rintro rfl <;> exact h (by decide)

theorem repairBody_stray {c : Char} (h : c ∉ 'u' :: escapes) (body : List Char) :
    repairBody ('\\' :: c :: body) = '\\' :: '\\' :: c :: repairBody body := by
  obtain ⟨hquote, hbackslash⟩ := plain_of_not_mem_escapes h
  rw [repairBody, repairEscapes_stray h, repairEscapes_inside hquote hbackslash]
  rfl

theorem escapeFrom_loose (h : Loose body) (rest : List Char) :
    escapeFrom ⟨true, false⟩ (body ++ rest) = escapeBody body ++ escapeFrom ⟨true, false⟩ rest := by
  induction h with
  | nil => rfl
  | plain hquote hbackslash _ ih =>
    rw [List.cons_append, escapeFrom_inside hquote hbackslash, ih,
      escapeBody_inside hquote hbackslash, List.append_assoc]
  | escaped c _ ih =>
    rw [List.cons_append, List.cons_append, escapeFrom_escaped, ih, escapeBody_escaped]
    rfl

theorem repairEscapes_loose (h : Loose body) (rest : List Char) :
    repairEscapes true (body ++ rest) = repairBody body ++ repairEscapes true rest := by
  induction h with
  | nil => rfl
  | plain hquote hbackslash _ ih =>
    rw [List.cons_append, repairEscapes_inside hquote hbackslash, ih,
      repairBody_inside hquote hbackslash, List.cons_append]
  | escaped c _ ih =>
    rw [List.cons_append, List.cons_append]
    by_cases hc : c ∈ 'u' :: escapes
    · rw [repairEscapes_escaped hc, repairBody_escaped hc, ih]
      rfl
    · obtain ⟨hquote, hbackslash⟩ := plain_of_not_mem_escapes hc
      rw [repairEscapes_stray hc, repairEscapes_inside hquote hbackslash, repairBody_stray hc, ih]
      rfl

theorem loose_escapeControl {c : Char} (hquote : c ≠ '"') (hbackslash : c ≠ '\\') :
    Loose (escapeControl c) := by
  rcases escapeControl_cases c with h | ⟨d, -, h⟩ | ⟨d, e, hd, he, h⟩
  · rw [h]
    exact .plain hquote hbackslash .nil
  · rw [h]
    exact .escaped d .nil
  · obtain ⟨hd, hd', -⟩ := plain_of_isHex hd
    obtain ⟨he, he', -⟩ := plain_of_isHex he
    rw [h]
    exact .escaped 'u' (.plain (by decide) (by decide) (.plain (by decide) (by decide)
      (.plain hd hd' (.plain he he' .nil))))

theorem loose_escapeBody (h : Loose body) : Loose (escapeBody body) := by
  induction h with
  | nil => exact .nil
  | plain hquote hbackslash _ ih =>
    rw [escapeBody_inside hquote hbackslash]
    exact (loose_escapeControl hquote hbackslash).append ih
  | escaped c _ ih => exact .escaped c ih

theorem loose_repairBody (h : Loose body) : Loose (repairBody body) := by
  induction h with
  | nil => exact .nil
  | plain hquote hbackslash _ ih =>
    rw [repairBody_inside hquote hbackslash]
    exact .plain hquote hbackslash ih
  | escaped c _ ih =>
    by_cases hc : c ∈ 'u' :: escapes
    · rw [repairBody_escaped hc]
      exact .escaped c ih
    · obtain ⟨hquote, hbackslash⟩ := plain_of_not_mem_escapes hc
      rw [repairBody_stray hc]
      exact .escaped '\\' (.plain hquote hbackslash ih)

/-- What the first repair puts out for a character stays as it is. -/
theorem repairBody_escapeControl {c : Char} (hquote : c ≠ '"') (hbackslash : c ≠ '\\')
    (more : List Char) : repairBody (escapeControl c ++ more) = escapeControl c ++ repairBody more := by
  rcases escapeControl_cases c with h | ⟨d, hd, h⟩ | ⟨d, e, hd, he, h⟩
  · rw [h]
    exact repairBody_inside hquote hbackslash more
  · rw [h]
    exact repairBody_escaped (List.mem_cons_of_mem _ hd) more
  · obtain ⟨hd, hd', -⟩ := plain_of_isHex hd
    obtain ⟨he, he', -⟩ := plain_of_isHex he
    rw [h]
    simp only [List.cons_append, List.nil_append]
    rw [repairBody_escaped List.mem_cons_self, repairBody_inside (by decide) (by decide),
      repairBody_inside (by decide) (by decide), repairBody_inside hd hd', repairBody_inside he he']

theorem escapeBody_escapeControl {c : Char} (hquote : c ≠ '"') (hbackslash : c ≠ '\\')
    (more : List Char) : escapeBody (escapeControl c ++ more) = escapeControl c ++ escapeBody more := by
  rcases escapeControl_cases c with h | ⟨d, hd, h⟩ | ⟨d, e, hd, he, h⟩
  · have hkept := escapeBody_inside hquote hbackslash more
    rw [h] at hkept ⊢
    exact hkept
  · rw [h]
    rfl
  · have hd' := escapeFrom_plain (plain_of_isHex hd)
    have he' := escapeFrom_plain (plain_of_isHex he)
    rw [h]
    simp only [List.cons_append, List.nil_append, escapeBody, escapeFrom_escaped, hd', he',
      escapeFrom_plain (c := '0') (by decide)]

/-- It does not matter whether control characters are escaped before the second repair as well. -/
theorem escape_repair_escape (h : Loose body) :
    escapeBody (repairBody (escapeBody body)) = escapeBody (repairBody body) := by
  induction h with
  | nil => rfl
  | plain hquote hbackslash _ ih =>
    rw [escapeBody_inside hquote hbackslash, repairBody_escapeControl hquote hbackslash,
      escapeBody_escapeControl hquote hbackslash, repairBody_inside hquote hbackslash,
      escapeBody_inside hquote hbackslash, ih]
  | escaped c _ ih =>
    rw [escapeBody_escaped]
    by_cases hc : c ∈ 'u' :: escapes
    · rw [repairBody_escaped hc, repairBody_escaped hc, escapeBody_escaped, escapeBody_escaped, ih]
    · obtain ⟨hquote, hbackslash⟩ := plain_of_not_mem_escapes hc
      rw [repairBody_stray hc, repairBody_stray hc, escapeBody_escaped, escapeBody_escaped,
        escapeBody_inside hquote hbackslash, escapeBody_inside hquote hbackslash, ih]

end Bodies

section
variable {α : Type} {body : α → List Char} {doc : List (Symbol α)}

theorem escapeFrom_textOf (h : Lexed body doc) :
    escapeFrom ⟨false, false⟩ (textOf body doc) = textOf (escapeBody ∘ body) doc := by
  induction doc with
  | nil => rfl
  | cons s doc ih =>
    obtain ⟨hs, hdoc⟩ := lexed_cons.mp h
    cases s with
    | char c => rw [textOf_char, escapeFrom_outside hs, ih hdoc, textOf_char]
    | literal a =>
      rw [textOf_literal, escapeFrom_open, escapeFrom_loose hs, escapeFrom_close, ih hdoc,
        textOf_literal]
      rfl

theorem repairEscapes_textOf (h : Lexed body doc) :
    repairEscapes false (textOf body doc) = textOf (repairBody ∘ body) doc := by
  induction doc with
  | nil => rfl
  | cons s doc ih =>
    obtain ⟨hs, hdoc⟩ := lexed_cons.mp h
    cases s with
    | char c => rw [textOf_char, repairEscapes_outside hs, ih hdoc, textOf_char]
    | literal a =>
      rw [textOf_literal, repairEscapes_open, repairEscapes_loose hs, repairEscapes_close, ih hdoc,
        textOf_literal]
      rfl

/-- Both repairs of a text of symbols. -/
theorem bothRepairs_textOf (h : Lexed body doc) :
    escapeFrom ⟨false, false⟩ (repairEscapes false (textOf body doc)) =
      textOf (escapeBody ∘ repairBody ∘ body) doc := by
  rw [repairEscapes_textOf h, escapeFrom_textOf (h.comp loose_repairBody)]

end

/-- The reader of quotes beside the first repair. -/
inductive Beside : Mode → Quoting → Prop where
  | outside : Beside .outside ⟨false, false⟩
  | inString : Beside .inString ⟨true, false⟩
  | escaped : Beside .escaped ⟨true, true⟩
  | bad (q : Quoting) : Beside .bad q

theorem run_escapeControl {c : Char} (hquote : c ≠ '"') (hbackslash : c ≠ '\\') :
    Mode.inString.run (escapeControl c) = .inString := (loose_escapeControl hquote hbackslash).run

/-- The first repair does not move the end of a string. -/
theorem run_escapeFrom {m : Mode} {q : Quoting} (h : Beside m q) (text : List Char) :
    m.run (escapeFrom q text) = m.run text := by
  induction text generalizing m q with
  | nil => rfl
  | cons c text ih =>
    cases h with
    | bad q => rw [Mode.run_bad, Mode.run_bad]
    | escaped => exact ih .inString
    | outside =>
      by_cases hquote : c = '"'
      · subst hquote
        exact ih .inString
      · by_cases hbackslash : c = '\\'
        · subst hbackslash
          exact ih (.bad _)
        · have hc : isOutside c = true := by simp [isOutside, hquote, hbackslash]
          have hstep : Mode.outside.step c = .outside := by simp [Mode.step, hquote, hbackslash]
          rw [escapeFrom_outside hc, Mode.run_cons, Mode.run_cons, hstep]
          exact ih .outside
    | inString =>
      by_cases hquote : c = '"'
      · subst hquote
        exact ih .outside
      · by_cases hbackslash : c = '\\'
        · subst hbackslash
          exact ih .escaped
        · have hstep : Mode.inString.step c = .inString := by simp [Mode.step, hquote, hbackslash]
          rw [escapeFrom_inside hquote hbackslash, Mode.run_append, run_escapeControl hquote hbackslash,
            Mode.run_cons, hstep]
          exact ih .inString

/-- Nor does the second. -/
theorem run_repairEscapes (text : List Char) :
    Mode.outside.run (repairEscapes false text) = Mode.outside.run text ∧
      Mode.inString.run (repairEscapes true text) = Mode.inString.run text := by
  induction hn : text.length using Nat.strongRecOn generalizing text with
  | ind n ih =>
    cases text with
    | nil => exact ⟨rfl, rfl⟩
    | cons c text =>
      obtain ⟨ihOutside, ihInString⟩ := ih text.length (by simp [← hn]) text rfl
      by_cases hquote : c = '"'
      · subst hquote
        rw [repairEscapes_open, repairEscapes_close]
        exact ⟨ihInString, ihOutside⟩
      by_cases hbackslash : c = '\\'
      · subst hbackslash
        constructor
        · have hbad : Mode.outside.step '\\' = .bad := rfl
          rw [repairEscapes, Mode.run_cons, Mode.run_cons, hbad, Mode.run_bad, Mode.run_bad]
        · cases text with
          | nil => rfl
          | cons d text =>
            have hlt : text.length < n := by
              rw [← hn, List.length_cons, List.length_cons]
              omega
            obtain ⟨-, ihNext⟩ := ih text.length hlt text rfl
            by_cases hd : d ∈ 'u' :: escapes
            · rw [repairEscapes_escaped hd]
              exact ihNext
            · obtain ⟨hquote, hbackslash⟩ := plain_of_not_mem_escapes hd
              have hstep : Mode.inString.step d = .inString := by
                simp [Mode.step, hquote, hbackslash]
              rw [repairEscapes_stray hd, repairEscapes_inside hquote hbackslash]
              change (Mode.inString.step d).run (repairEscapes true text) = Mode.inString.run text
              rw [hstep, ihNext]
      · constructor
        · have hc : isOutside c = true := by simp [isOutside, hquote, hbackslash]
          have hstep : Mode.outside.step c = .outside := by simp [Mode.step, hquote, hbackslash]
          rw [repairEscapes_outside hc, Mode.run_cons, Mode.run_cons, hstep, ihOutside]
        · have hstep : Mode.inString.step c = .inString := by simp [Mode.step, hquote, hbackslash]
          rw [repairEscapes_inside hquote hbackslash, Mode.run_cons, Mode.run_cons, hstep, ihInString]

/-- A text that has a closed end of strings after a repair is one of symbols. -/
theorem lexed_of_escape {text : List Char}
    (h : Mode.outside.run (escapeFrom ⟨false, false⟩ text) = .outside) :
    ∃ doc : List (Symbol (List Char)), Lexed id doc ∧ text = textOf id doc :=
  exists_lexed ((run_escapeFrom .outside text).symm.trans h)

theorem lexed_of_repair {text : List Char}
    (h : Mode.outside.run (repairEscapes false text) = .outside) :
    ∃ doc : List (Symbol (List Char)), Lexed id doc ∧ text = textOf id doc :=
  exists_lexed ((run_repairEscapes text).1.symm.trans h)

def bothRepairs (s : String) : String := escapeControlCharsInJsonStrings (repairInvalidJsonEscapes s)

theorem toList_bothRepairs (s : String) :
    (bothRepairs s).toList = escapeFrom ⟨false, false⟩ (repairEscapes false s.toList) := by
  rw [bothRepairs, escapeControlCharsInJsonStrings, repairInvalidJsonEscapes, String.toList_ofList,
    String.toList_ofList]

section
variable {S : SerdeJson} {number : List Char → Option Number} {s : String} {v : Json}

/-- A text that both repairs make a document is one of symbols. -/
theorem exists_lexed_of_reads (h : Reads number (bothRepairs s).toList v) :
    ∃ doc : List (Symbol (List Char)), Lexed id doc ∧ s.toList = textOf id doc := by
  have hrun := h.run
  rw [toList_bothRepairs, run_escapeFrom .outside] at hrun
  exact lexed_of_repair hrun

theorem bothRepairs_escape (h : ∃ doc : List (Symbol (List Char)), Lexed id doc ∧
    s.toList = textOf id doc) :
    bothRepairs (escapeControlCharsInJsonStrings s) = bothRepairs s := by
  obtain ⟨doc, hdoc, hs⟩ := h
  have hescaped := hdoc.comp loose_escapeBody
  rw [← String.toList_inj, toList_bothRepairs, toList_bothRepairs, escapeControlCharsInJsonStrings,
    String.toList_ofList, hs, escapeFrom_textOf hdoc, bothRepairs_textOf hescaped,
    bothRepairs_textOf hdoc]
  exact hdoc.textOf_congr (f := escapeBody ∘ repairBody ∘ escapeBody) (g := escapeBody ∘ repairBody)
    escape_repair_escape

theorem repairs_of_read (hS : S.ReadsDocuments number) (h : S.read s = some v) :
    escapeControlCharsInJsonStrings s = s ∧ repairInvalidJsonEscapes s = s := by
  obtain ⟨hescape, hrepair, -, -⟩ := repairs_keep_text (hS.read_iff.mp h).isText
  exact ⟨hescape, hrepair⟩

/-- Each attempt that succeeds reads the text that both repairs give. -/
theorem bothRepairs_of_read (hS : S.ReadsDocuments number) (h : S.read s = some v) :
    bothRepairs s = s := by
  obtain ⟨hescape, hrepair⟩ := repairs_of_read hS h
  rw [bothRepairs, hrepair, hescape]

theorem bothRepairs_of_read_escape (hS : S.ReadsDocuments number)
    (h : S.read (escapeControlCharsInJsonStrings s) = some v) :
    bothRepairs s = escapeControlCharsInJsonStrings s := by
  have hlexed : ∃ doc : List (Symbol (List Char)), Lexed id doc ∧ s.toList = textOf id doc := by
    have hrun := (hS.read_iff.mp h).run
    rw [escapeControlCharsInJsonStrings, String.toList_ofList] at hrun
    exact lexed_of_escape hrun
  rw [← bothRepairs_escape hlexed, bothRepairs_of_read hS h]

theorem bothRepairs_of_read_repair (hS : S.ReadsDocuments number)
    (h : S.read (repairInvalidJsonEscapes s) = some v) :
    bothRepairs s = repairInvalidJsonEscapes s := (repairs_of_read hS h).1

/-- The attempts on a field come to reading it with both repairs. -/
theorem resilientParseStringField_iff (hS : S.ReadsDocuments number) :
    resilientParseStringField S s = .ok v ↔ S.read (bothRepairs s) = some v := by
  simp only [resilientParseStringField]
  cases h₁ : S.read s with
  | some w => simp [bothRepairs_of_read hS h₁, h₁]
  | none =>
    cases h₂ : S.read (escapeControlCharsInJsonStrings s) with
    | some w => simp [bothRepairs_of_read_escape hS h₂, h₂]
    | none =>
      cases h₃ : S.read (repairInvalidJsonEscapes s) with
      | some w => simp [bothRepairs_of_read_repair hS h₃, h₃]
      | none =>
        rw [SerdeJson.read_eq_some, bothRepairs]
        cases S.fromStr (escapeControlCharsInJsonStrings (repairInvalidJsonEscapes s)) <;>
          simp [Except.mapError]

end

end ReactRuntime.Core
