import ReactRuntime.Core.JsonRepair

/-!
# Repairs of valid texts

Both repairs follow the strings of a text with flags of their own. Over a text of the JSON grammar
they put out what they read, and stand outside of strings again behind it.
-/
namespace ReactRuntime.Core
open Library JsonText

/-- Only control characters are escaped. -/
theorem escapeControl_of_le {c : Char} (h : 0x20 ≤ c.toNat) : escapeControl c = [c] := by
  have hne : ∀ d : Char, d.toNat < 0x20 → c ≠ d := by
    rintro d hd rfl
    omega
  have hbackspace : c.toNat ≠ 0x08 := by omega
  have hfeed : c.toNat ≠ 0x0C := by omega
  simp [escapeControl, hne '\n' (by decide), hne '\r' (by decide), hne '\t' (by decide), hbackspace,
    hfeed, Nat.not_lt.mpr h]

section Steps
variable {c : Char}

theorem escapeFrom_outside (h : isOutside c = true) (rest : List Char) :
    escapeFrom ⟨false, false⟩ (c :: rest) = c :: escapeFrom ⟨false, false⟩ rest := by
  obtain ⟨hquote, hbackslash⟩ := ne_of_isOutside h
  simp [escapeFrom, Quoting.escapeStep, hquote, hbackslash]

theorem escapeFrom_open (rest : List Char) :
    escapeFrom ⟨false, false⟩ ('"' :: rest) = '"' :: escapeFrom ⟨true, false⟩ rest := rfl

theorem escapeFrom_close (rest : List Char) :
    escapeFrom ⟨true, false⟩ ('"' :: rest) = '"' :: escapeFrom ⟨false, false⟩ rest := rfl

theorem escapeFrom_inside (hquote : c ≠ '"') (hbackslash : c ≠ '\\') (rest : List Char) :
    escapeFrom ⟨true, false⟩ (c :: rest) = escapeControl c ++ escapeFrom ⟨true, false⟩ rest := by
  simp [escapeFrom, Quoting.escapeStep, hquote, hbackslash]

theorem escapeFrom_plain (h : c ≠ '"' ∧ c ≠ '\\' ∧ 0x20 ≤ c.toNat) (rest : List Char) :
    escapeFrom ⟨true, false⟩ (c :: rest) = c :: escapeFrom ⟨true, false⟩ rest := by
  rw [escapeFrom_inside h.1 h.2.1, escapeControl_of_le h.2.2, List.singleton_append]

theorem escapeFrom_escaped (c : Char) (rest : List Char) :
    escapeFrom ⟨true, false⟩ ('\\' :: c :: rest) =
      '\\' :: c :: escapeFrom ⟨true, false⟩ rest := rfl

theorem repairEscapes_outside (h : isOutside c = true) (rest : List Char) :
    repairEscapes false (c :: rest) = c :: repairEscapes false rest := by
  have hquote : (c == '"') = false := beq_false_of_ne (ne_of_isOutside h).1
  rw [repairEscapes, hquote]

theorem repairEscapes_open (rest : List Char) :
    repairEscapes false ('"' :: rest) = '"' :: repairEscapes true rest := rfl

theorem repairEscapes_close (rest : List Char) :
    repairEscapes true ('"' :: rest) = '"' :: repairEscapes false rest := by
  cases rest <;> simp [repairEscapes]

theorem repairEscapes_inside (hquote : c ≠ '"') (hbackslash : c ≠ '\\') (rest : List Char) :
    repairEscapes true (c :: rest) = c :: repairEscapes true rest := by
  cases rest <;> simp [repairEscapes, hquote, hbackslash]

theorem repairEscapes_escaped (h : c ∈ 'u' :: escapes) (rest : List Char) :
    repairEscapes true ('\\' :: c :: rest) = '\\' :: c :: repairEscapes true rest := by
  simp [repairEscapes, h]

theorem repairEscapes_stray (h : c ∉ 'u' :: escapes) (rest : List Char) :
    repairEscapes true ('\\' :: c :: rest) = '\\' :: '\\' :: repairEscapes true (c :: rest) := by
  simp [repairEscapes, h]

end Steps

/-- A text that both repairs copy when they come to it outside of strings. -/
structure Untouched (text : List Char) : Prop where
  escape : ∀ rest, escapeFrom ⟨false, false⟩ (text ++ rest) = text ++ escapeFrom ⟨false, false⟩ rest
  repair : ∀ rest, repairEscapes false (text ++ rest) = text ++ repairEscapes false rest

namespace Untouched
variable {text text' : List Char}

theorem append (h : Untouched text) (h' : Untouched text') : Untouched (text ++ text') where
  escape rest := by rw [List.append_assoc, h.escape, h'.escape, List.append_assoc]
  repair rest := by rw [List.append_assoc, h.repair, h'.repair, List.append_assoc]

theorem cons {c : Char} (hc : isOutside c = true) (h : Untouched text) : Untouched (c :: text) where
  escape rest := by rw [List.cons_append, escapeFrom_outside hc, h.escape, List.cons_append]
  repair rest := by rw [List.cons_append, repairEscapes_outside hc, h.repair, List.cons_append]

theorem of_outside (h : ∀ c ∈ text, isOutside c = true) : Untouched text := by
  induction text with
  | nil => exact ⟨fun rest => rfl, fun rest => rfl⟩
  | cons c text ih =>
    obtain ⟨hc, htext⟩ := List.forall_mem_cons.mp h
    exact cons hc (ih htext)

theorem concat {c : Char} (hc : isOutside c = true) (h : Untouched text) :
    Untouched (text ++ [c]) := h.append (of_outside (by simpa using hc))

/-- In a string the first repair copies what JSON has there. -/
theorem escape_stringBody (h : StringBody text) (rest : List Char) :
    escapeFrom ⟨true, false⟩ (text ++ rest) = text ++ escapeFrom ⟨true, false⟩ rest := by
  induction h with
  | nil => rfl
  | plain hquote hbackslash hcontrol _ ih =>
    rw [List.cons_append, escapeFrom_plain ⟨hquote, hbackslash, hcontrol⟩, ih, List.cons_append]
  | escape _ _ ih => simp only [List.cons_append, escapeFrom_escaped, ih]
  | unicode h₁ h₂ h₃ h₄ _ ih =>
    simp only [List.cons_append, escapeFrom_escaped, escapeFrom_plain (plain_of_isHex h₁),
      escapeFrom_plain (plain_of_isHex h₂), escapeFrom_plain (plain_of_isHex h₃),
      escapeFrom_plain (plain_of_isHex h₄), ih]

/-- So does the second one. -/
theorem repair_stringBody (h : StringBody text) (rest : List Char) :
    repairEscapes true (text ++ rest) = text ++ repairEscapes true rest := by
  have hhex : ∀ c, isHex c = true → ∀ more,
      repairEscapes true (c :: more) = c :: repairEscapes true more := by
    intro c hc
    obtain ⟨hquote, hbackslash, -⟩ := plain_of_isHex hc
    exact repairEscapes_inside hquote hbackslash
  induction h with
  | nil => rfl
  | plain hquote hbackslash _ _ ih =>
    rw [List.cons_append, repairEscapes_inside hquote hbackslash, ih, List.cons_append]
  | escape hc _ ih =>
    simp only [List.cons_append, repairEscapes_escaped (List.mem_cons_of_mem _ hc), ih]
  | unicode h₁ h₂ h₃ h₄ _ ih =>
    simp only [List.cons_append, repairEscapes_escaped List.mem_cons_self, hhex _ h₁, hhex _ h₂,
      hhex _ h₃, hhex _ h₄, ih]

theorem of_string (h : IsString text) : Untouched text := by
  obtain ⟨body, hbody, rfl⟩ := h
  have hsplit : ∀ rest, '"' :: (body ++ ['"']) ++ rest = '"' :: (body ++ '"' :: rest) := by simp
  constructor
  · intro rest
    rw [hsplit, hsplit, escapeFrom_open, escape_stringBody hbody, escapeFrom_close]
  · intro rest
    rw [hsplit, hsplit, repairEscapes_open, repair_stringBody hbody, repairEscapes_close]

theorem compositional : Compositional Untouched where
  append := append
  plain h := of_outside fun c hc => (h c hc).2
  string := of_string
  bracketed hbrackets h := by
    obtain ⟨hopen, hclose⟩ := hbrackets.outside
    exact cons hopen (concat hclose h)

variable {s : String}

theorem escape_eq (h : Untouched s.toList) : escapeControlCharsInJsonStrings s = s := by
  have hrest := h.escape []
  rw [List.append_nil, escapeFrom, List.append_nil] at hrest
  rw [escapeControlCharsInJsonStrings, hrest, String.ofList_toList]

theorem repair_eq (h : Untouched s.toList) : repairInvalidJsonEscapes s = s := by
  have hrest := h.repair []
  rw [List.append_nil, repairEscapes, List.append_nil] at hrest
  rw [repairInvalidJsonEscapes, hrest, String.ofList_toList]

end Untouched

/-- Neither repair changes a JSON text, and so neither of their compositions does. -/
theorem repairs_keep_text {s : String} (h : IsText s.toList) :
    escapeControlCharsInJsonStrings s = s ∧ repairInvalidJsonEscapes s = s ∧
      escapeControlCharsInJsonStrings (repairInvalidJsonEscapes s) = s ∧
      repairInvalidJsonEscapes (escapeControlCharsInJsonStrings s) = s := by
  have hkept := Untouched.compositional.of_derives h
  refine ⟨hkept.escape_eq, hkept.repair_eq, ?_, ?_⟩
  · rw [hkept.repair_eq, hkept.escape_eq]
  · rw [hkept.escape_eq, hkept.repair_eq]

theorem repairs_keep_text_escaped :
    escapeControlCharsInJsonStrings "\"a\\n\"" = "\"a\\n\"" ∧
      repairInvalidJsonEscapes "\"a\\n\"" = "\"a\\n\"" ∧
      escapeControlCharsInJsonStrings (repairInvalidJsonEscapes "\"a\\n\"") = "\"a\\n\"" ∧
      repairInvalidJsonEscapes (escapeControlCharsInJsonStrings "\"a\\n\"") = "\"a\\n\"" := by
  have hbody : StringBody ['a', '\\', 'n'] :=
    .plain (by decide) (by decide) (by decide) (.escape (by decide) .nil)
  exact repairs_keep_text (IsValue.isText (.string ⟨_, hbody, rfl⟩))

end ReactRuntime.Core
