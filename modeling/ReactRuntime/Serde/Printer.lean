import ReactRuntime.Library.Utf8
import ReactRuntime.Serde.Json

/-!
# Printed documents

The compact text of a document, as serde_json prints it, and the indented one. How a float is printed
is a parameter.
-/
namespace ReactRuntime.Serde
open Library Utf8

def escapedChar (c : Char) : List Char :=
  if c = '"' then ['\\', '"']
  else if c = '\\' then ['\\', '\\']
  else if c.toNat = 0x08 then ['\\', 'b']
  else if c.toNat = 0x0C then ['\\', 'f']
  else if c = '\n' then ['\\', 'n']
  else if c = '\r' then ['\\', 'r']
  else if c = '\t' then ['\\', 't']
  else if c.toNat < 0x20 then
    ['\\', 'u', '0', '0', Nat.digitChar (c.toNat / 16), Nat.digitChar (c.toNat % 16)]
  else [c]

def quoted (s : String) : List Char := '"' :: (s.toList.flatMap escapedChar ++ ['"'])

section
variable (float : UInt64 → List Char)

def Number.chars : Number → List Char
  | .posInt n => Nat.toDigits 10 n.toNat
  | .negInt n => (if n < 0 then ['-'] else []) ++ Nat.toDigits 10 n.toInt.natAbs
  | .float bits => float bits

mutual
def Json.chars : Json → List Char
  | .null => ['n', 'u', 'l', 'l']
  | .bool true => ['t', 'r', 'u', 'e']
  | .bool false => ['f', 'a', 'l', 's', 'e']
  | .num n => n.chars float
  | .str s => quoted s
  | .arr xs => '[' :: (Json.charsList xs ++ [']'])
  | .obj fs => '{' :: (Json.charsFields fs ++ ['}'])

def Json.charsList : List Json → List Char
  | [] => []
  | x :: xs => Json.chars x ++ (if xs.isEmpty then [] else ',' :: Json.charsList xs)

def Json.charsFields : Fields → List Char
  | [] => []
  | (key, v) :: fs =>
    quoted key ++ ':' :: (Json.chars v ++ (if fs.isEmpty then [] else ',' :: Json.charsFields fs))
end

/-- `serde_json::to_string`. -/
def Json.text (v : Json) : String := .ofList (v.chars float)

def newLine (indent : Nat) : List Char := '\n' :: List.replicate (2 * indent) ' '

mutual
def Json.prettyChars (indent : Nat) : Json → List Char
  | .arr xs =>
    '[' :: (Json.prettyList (indent + 1) true xs ++
      (if xs.isEmpty then [] else newLine indent) ++ [']'])
  | .obj fs =>
    '{' :: (Json.prettyFields (indent + 1) true fs ++
      (if fs.isEmpty then [] else newLine indent) ++ ['}'])
  | v => v.chars float

def Json.prettyList (indent : Nat) (first : Bool) : List Json → List Char
  | [] => []
  | x :: xs =>
    (if first then [] else [',']) ++ newLine indent ++ Json.prettyChars indent x ++
      Json.prettyList indent false xs

def Json.prettyFields (indent : Nat) (first : Bool) : Fields → List Char
  | [] => []
  | (key, v) :: fs =>
    (if first then [] else [',']) ++ newLine indent ++ quoted key ++ [':', ' '] ++
      Json.prettyChars indent v ++ Json.prettyFields indent false fs
end

/-- `serde_json::to_string_pretty`. -/
def Json.prettyText (v : Json) : String := .ofList (v.prettyChars float 0)

end

/-- Text without control characters. -/
def Visible (text : List Char) : Prop := ∀ c ∈ text, 0x20 ≤ c.toNat

instance : DecidablePred Visible := List.decidableBAll fun c : Char => 0x20 ≤ c.toNat

section Visible
variable {front back : List Char}

theorem visible_append : Visible (front ++ back) ↔ Visible front ∧ Visible back :=
  List.forall_mem_append

theorem visible_cons {c : Char} : Visible (c :: back) ↔ 0x20 ≤ c.toNat ∧ Visible back :=
  List.forall_mem_cons

theorem visible_toDigits (n : Nat) : Visible (Nat.toDigits 10 n) := by
  intro c hc
  have hdigit := Nat.isDigit_of_mem_toDigits (by decide) (by decide) hc
  rw [Char.isDigit_iff_toNat] at hdigit
  exact Nat.le_trans (by decide) hdigit.1

theorem visible_escapedChar (c : Char) : Visible (escapedChar c) := by
  have hdigit : ∀ n < 16, 0x20 ≤ (Nat.digitChar n).toNat := by decide
  unfold escapedChar
  split_ifs with _ _ _ _ _ _ _ hcontrol
  · decide
  · decide
  · decide
  · decide
  · decide
  · decide
  · decide
  · simp only [Visible, List.mem_cons, List.not_mem_nil, or_false, forall_eq_or_imp, forall_eq]
    exact ⟨by decide, by decide, by decide, by decide, hdigit _ (by omega), hdigit _ (by omega)⟩
  · intro d hd
    rw [List.mem_singleton.mp hd]
    exact Nat.le_of_not_lt hcontrol

theorem visible_quoted (s : String) : Visible (quoted s) := by
  have hescaped : Visible (s.toList.flatMap escapedChar) := by
    intro d hd
    obtain ⟨c, -, hd⟩ := List.mem_flatMap.mp hd
    exact visible_escapedChar c d hd
  exact visible_cons.mpr ⟨by decide, visible_append.mpr ⟨hescaped, by decide⟩⟩

end Visible

section
variable {float : UInt64 → List Char}

mutual
/-- A compact document has no control characters, whatever its texts contain. -/
theorem visible_chars (hfloat : ∀ bits, Visible (float bits)) (v : Json) :
    Visible (v.chars float) := by
  cases v with
  | null => exact (by decide : Visible ['n', 'u', 'l', 'l'])
  | bool b =>
    cases b with
    | true => exact (by decide : Visible ['t', 'r', 'u', 'e'])
    | false => exact (by decide : Visible ['f', 'a', 'l', 's', 'e'])
  | num n =>
    cases n with
    | posInt n => exact visible_toDigits _
    | negInt n =>
      refine visible_append.mpr ⟨?_, visible_toDigits _⟩
      split_ifs <;> decide
    | float bits => exact hfloat bits
  | str s => exact visible_quoted s
  | arr xs =>
    exact visible_cons.mpr ⟨by decide, visible_append.mpr ⟨visible_charsList hfloat xs, by decide⟩⟩
  | obj fs =>
    exact visible_cons.mpr ⟨by decide, visible_append.mpr ⟨visible_charsFields hfloat fs, by decide⟩⟩

theorem visible_charsList (hfloat : ∀ bits, Visible (float bits)) (xs : List Json) :
    Visible (Json.charsList float xs) := by
  cases xs with
  | nil => exact List.forall_mem_nil _
  | cons x xs =>
    refine visible_append.mpr ⟨visible_chars hfloat x, ?_⟩
    split_ifs
    · exact List.forall_mem_nil _
    · exact visible_cons.mpr ⟨by decide, visible_charsList hfloat xs⟩

theorem visible_charsFields (hfloat : ∀ bits, Visible (float bits)) (fs : Fields) :
    Visible (Json.charsFields float fs) := by
  cases fs with
  | nil => exact List.forall_mem_nil _
  | cons f fs =>
    refine visible_append.mpr ⟨visible_quoted f.1, visible_cons.mpr ⟨by decide, ?_⟩⟩
    refine visible_append.mpr ⟨visible_chars hfloat f.2, ?_⟩
    split_ifs
    · exact List.forall_mem_nil _
    · exact visible_cons.mpr ⟨by decide, visible_charsFields hfloat fs⟩
end

end

theorem byteLength_quoted (s : String) :
    byteLength (quoted s) = byteLength (s.toList.flatMap escapedChar) + 2 := by
  have hquote : ('"' : Char).utf8Size = 1 := by decide
  simp only [quoted, byteLength_cons, byteLength_append, byteLength_nil, hquote]
  omega

theorem byteLength_toDigits (n : Nat) :
    byteLength (Nat.toDigits 10 n) = (Nat.toDigits 10 n).length := by
  apply byteLength_of_ascii
  intro c hc
  have hdigit := Nat.isDigit_of_mem_toDigits (by decide) (by decide) hc
  exact utf8Size_of_isAlphanum (by simp [Char.isAlphanum, hdigit])

/-- Only quotes and backslashes of a text without control characters are escaped. -/
theorem byteLength_escaped {text : List Char} (h : Visible text) :
    byteLength (text.flatMap escapedChar) =
      byteLength text + text.count '"' + text.count '\\' := by
  induction text with
  | nil => rfl
  | cons c text ih =>
    obtain ⟨hc, htext⟩ := visible_cons.mp h
    have hplain : c ≠ '"' → c ≠ '\\' → escapedChar c = [c] := by
      intro hquote hslash
      have hother (d : Char) (hd : d.toNat < 0x20) : c ≠ d := by
        rintro rfl
        omega
      rw [escapedChar, if_neg hquote, if_neg hslash, if_neg (by omega), if_neg (by omega),
        if_neg (hother '\n' (by decide)), if_neg (hother '\r' (by decide)),
        if_neg (hother '\t' (by decide)), if_neg (by omega)]
    rw [List.flatMap_cons, byteLength_append, ih htext, byteLength_cons, List.count_cons,
      List.count_cons]
    by_cases hquote : c = '"'
    · have hsize : byteLength (escapedChar '"') = 2 := by decide
      have hone : ('"' : Char).utf8Size = 1 := by decide
      simp [hquote, hsize, hone]
      omega
    · by_cases hslash : c = '\\'
      · have hsize : byteLength (escapedChar '\\') = 2 := by decide
        have hone : ('\\' : Char).utf8Size = 1 := by decide
        simp [hslash, hsize, hone]
        omega
      · simp [hplain hquote hslash, hquote, hslash]
        omega

end ReactRuntime.Serde
