import Mathlib.Data.List.Basic

/-!
# The grammar of JSON texts

The texts of RFC 8259, over lists of characters. A derivation says what a text is: a value, one with
whitespace around it, a member of an object, or a sequence of elements or members.
-/
namespace ReactRuntime.Library.JsonText

def isWs (c : Char) : Bool := c = ' ' || c = '\t' || c = '\n' || c = '\r'

def Blank (text : List Char) : Prop := ∀ c ∈ text, isWs c = true

def isHex (c : Char) : Bool := c.isDigit || ('a' ≤ c && c ≤ 'f') || ('A' ≤ c && c ≤ 'F')

/-- The characters that may follow a backslash, but `u`. -/
def escapes : List Char := ['"', '\\', '/', 'b', 'f', 'n', 'r', 't']

/-- What stands between the quotes of a string. -/
inductive StringBody : List Char → Prop where
  | nil : StringBody []
  | plain {c : Char} {text : List Char} (hquote : c ≠ '"') (hbackslash : c ≠ '\\')
      (hcontrol : 0x20 ≤ c.toNat) (h : StringBody text) : StringBody (c :: text)
  | escape {c : Char} {text : List Char} (hc : c ∈ escapes) (h : StringBody text) :
      StringBody ('\\' :: c :: text)
  | unicode {c₁ c₂ c₃ c₄ : Char} {text : List Char} (h₁ : isHex c₁ = true) (h₂ : isHex c₂ = true)
      (h₃ : isHex c₃ = true) (h₄ : isHex c₄ = true) (h : StringBody text) :
      StringBody ('\\' :: 'u' :: c₁ :: c₂ :: c₃ :: c₄ :: text)

def IsString (text : List Char) : Prop := ∃ body, StringBody body ∧ text = '"' :: (body ++ ['"'])

def IsDigits (text : List Char) : Prop := text ≠ [] ∧ ∀ c ∈ text, c.isDigit = true

/-- A sign, an integer without leading zeros, a fraction and an exponent. -/
structure IsNumber (text : List Char) : Prop where
  parts : ∃ sign int frac exp, text = sign ++ (int ++ (frac ++ exp)) ∧
    (sign = [] ∨ sign = ['-']) ∧
    (int = ['0'] ∨ IsDigits int ∧ int.head? ≠ some '0') ∧
    (frac = [] ∨ ∃ digits, IsDigits digits ∧ frac = '.' :: digits) ∧
    (exp = [] ∨ ∃ e plus digits, (e = 'e' ∨ e = 'E') ∧ (plus = [] ∨ plus = ['+'] ∨ plus = ['-']) ∧
      IsDigits digits ∧ exp = e :: (plus ++ digits))

inductive Node where
  | value
  | element
  | elements
  | member
  | members

inductive Derives : Node → List Char → Prop where
  | null : Derives .value ['n', 'u', 'l', 'l']
  | true : Derives .value ['t', 'r', 'u', 'e']
  | false : Derives .value ['f', 'a', 'l', 's', 'e']
  | number {text : List Char} (h : IsNumber text) : Derives .value text
  | string {text : List Char} (h : IsString text) : Derives .value text
  | emptyArray {w : List Char} (hw : Blank w) : Derives .value ('[' :: (w ++ [']']))
  | array {text : List Char} (h : Derives .elements text) : Derives .value ('[' :: (text ++ [']']))
  | emptyObject {w : List Char} (hw : Blank w) : Derives .value ('{' :: (w ++ ['}']))
  | object {text : List Char} (h : Derives .members text) : Derives .value ('{' :: (text ++ ['}']))
  | element {w text w' : List Char} (hw : Blank w) (h : Derives .value text) (hw' : Blank w') :
      Derives .element (w ++ (text ++ w'))
  | lastElement {text : List Char} (h : Derives .element text) : Derives .elements text
  | moreElements {text text' : List Char} (h : Derives .element text)
      (h' : Derives .elements text') : Derives .elements (text ++ ',' :: text')
  | member {w name w' text : List Char} (hw : Blank w) (hname : IsString name) (hw' : Blank w')
      (h : Derives .element text) : Derives .member (w ++ (name ++ (w' ++ ':' :: text)))
  | lastMember {text : List Char} (h : Derives .member text) : Derives .members text
  | moreMembers {text text' : List Char} (h : Derives .member text)
      (h' : Derives .members text') : Derives .members (text ++ ',' :: text')

def IsValue (text : List Char) : Prop := Derives .value text

/-- The text of an object: a value that starts with a brace. -/
def IsObject (text : List Char) : Prop := IsValue text ∧ text.head? = some '{'

/-- A JSON text: a value with whitespace around it. -/
def IsText (text : List Char) : Prop := Derives .element text

theorem blank_nil : Blank [] := fun _ hc => absurd hc List.not_mem_nil

theorem IsValue.isText {text : List Char} (h : IsValue text) : IsText text := by
  have helement := Derives.element blank_nil h blank_nil
  rwa [List.nil_append, List.append_nil] at helement

/-- A character that opens and closes nothing. -/
def isNeutral (c : Char) : Bool := !(['"', '{', '}', '[', ']'].contains c)

/-- A character that stands outside of strings: it opens none and escapes nothing. -/
def isOutside (c : Char) : Bool := !(['"', '\\'].contains c)

theorem ne_of_isOutside {c : Char} (h : isOutside c = true) : c ≠ '"' ∧ c ≠ '\\' := by
  simpa [isOutside] using h

/-- A character of a number. -/
def isNumeric (c : Char) : Bool := c.isDigit || ['-', '+', '.', 'e', 'E'].contains c

theorem Blank.forall {text : List Char} (h : Blank text) {p : Char → Bool}
    (hp : ∀ c ∈ [' ', '\t', '\n', '\r'], p c = true) : ∀ c ∈ text, p c = true := by
  intro c hc
  have hws := h c hc
  simp only [isWs, Bool.or_eq_true, decide_eq_true_eq] at hws
  rcases hws with ((rfl | rfl) | rfl) | rfl <;> exact hp _ (by simp)

theorem Blank.neutral {text : List Char} (h : Blank text) : ∀ c ∈ text, isNeutral c = true :=
  h.forall (List.all_eq_true.mp (by decide))

theorem Blank.outside {text : List Char} (h : Blank text) : ∀ c ∈ text, isOutside c = true :=
  h.forall (List.all_eq_true.mp (by decide))

theorem isNeutral_of_isNumeric {c : Char} (h : isNumeric c = true) : isNeutral c = true := by
  by_contra hc
  simp only [isNeutral, Bool.not_eq_true', Bool.not_eq_false, List.contains_iff_mem,
    List.mem_cons, List.not_mem_nil, or_false] at hc
  rcases hc with rfl | rfl | rfl | rfl | rfl <;> exact absurd h (by decide)

theorem isOutside_of_isNumeric {c : Char} (h : isNumeric c = true) : isOutside c = true := by
  by_contra hc
  simp only [isOutside, Bool.not_eq_true', Bool.not_eq_false, List.contains_iff_mem,
    List.mem_cons, List.not_mem_nil, or_false] at hc
  rcases hc with rfl | rfl <;> exact absurd h (by decide)

/-- A hexadecimal digit is a plain character of a string. -/
theorem plain_of_isHex {c : Char} (h : isHex c = true) : c ≠ '"' ∧ c ≠ '\\' ∧ 0x20 ≤ c.toNat := by
  refine ⟨?_, ?_, ?_⟩
  · rintro rfl
    exact absurd h (by decide)
  · rintro rfl
    exact absurd h (by decide)
  · simp only [isHex, Char.isDigit, Bool.or_eq_true, Bool.and_eq_true, decide_eq_true_eq,
      ge_iff_le, Char.le_def, UInt32.le_iff_toNat_le] at h
    rcases h with (h | h) | h <;> simp at h <;> omega

theorem IsDigits.numeric {text : List Char} (h : IsDigits text) :
    ∀ c ∈ text, isNumeric c = true := fun c hc => by simp [isNumeric, h.2 c hc]

theorem IsNumber.numeric {text : List Char} (h : IsNumber text) :
    ∀ c ∈ text, isNumeric c = true := by
  obtain ⟨sign, int, frac, exp, rfl, hsign, hint, hfrac, hexp⟩ := h.parts
  have hsign' : ∀ c ∈ sign, isNumeric c = true := by
    rcases hsign with rfl | rfl <;> exact List.all_eq_true.mp (by decide)
  have hint' : ∀ c ∈ int, isNumeric c = true := by
    rcases hint with rfl | ⟨hdigits, -⟩
    · exact List.all_eq_true.mp (by decide)
    · exact hdigits.numeric
  have hfrac' : ∀ c ∈ frac, isNumeric c = true := by
    rcases hfrac with rfl | ⟨digits, hdigits, rfl⟩
    · simp
    · exact List.forall_mem_cons.mpr ⟨by decide, hdigits.numeric⟩
  have hexp' : ∀ c ∈ exp, isNumeric c = true := by
    rcases hexp with rfl | ⟨e, plus, digits, he, hplus, hdigits, rfl⟩
    · simp
    · refine List.forall_mem_cons.mpr ⟨?_, List.forall_mem_append.mpr ⟨?_, hdigits.numeric⟩⟩
      · rcases he with rfl | rfl <;> decide
      · rcases hplus with rfl | rfl | rfl <;> exact List.all_eq_true.mp (by decide)
  simp only [List.forall_mem_append]
  exact ⟨hsign', hint', hfrac', hexp'⟩

theorem IsNumber.ne_nil {text : List Char} (h : IsNumber text) : text ≠ [] := by
  obtain ⟨sign, int, frac, exp, rfl, -, hint, -, -⟩ := h.parts
  have hne : int ≠ [] := by
    rcases hint with rfl | ⟨hdigits, -⟩
    · simp
    · exact hdigits.1
  simp [hne]

theorem IsNumber.neutral {text : List Char} (h : IsNumber text) :
    ∀ c ∈ text, isNeutral c = true := fun c hc => isNeutral_of_isNumeric (h.numeric c hc)

theorem IsNumber.outside {text : List Char} (h : IsNumber text) :
    ∀ c ∈ text, isOutside c = true := fun c hc => isOutside_of_isNumeric (h.numeric c hc)

/-- The brackets of arrays and objects. -/
def Brackets (opening closing : Char) : Prop :=
  opening = '{' ∧ closing = '}' ∨ opening = '[' ∧ closing = ']'

theorem Brackets.outside {opening closing : Char} (h : Brackets opening closing) :
    isOutside opening = true ∧ isOutside closing = true := by
  rcases h with ⟨rfl, rfl⟩ | ⟨rfl, rfl⟩ <;> decide

/-- A property that a text has if its pieces have it. -/
structure Compositional (P : List Char → Prop) : Prop where
  append : ∀ {text text'}, P text → P text' → P (text ++ text')
  plain : ∀ {text}, (∀ c ∈ text, isNeutral c = true ∧ isOutside c = true) → P text
  string : ∀ {text}, IsString text → P text
  bracketed : ∀ {text opening closing}, Brackets opening closing → P text →
    P (opening :: (text ++ [closing]))

theorem Compositional.of_derives {P : List Char → Prop} (hP : Compositional P) {node : Node}
    {text : List Char} (h : Derives node text) : P text := by
  have hblank : ∀ {w}, Blank w → P w := fun hw => hP.plain fun c hc => ⟨hw.neutral c hc, hw.outside c hc⟩
  have hchar : ∀ {c text}, isNeutral c = true → isOutside c = true → P text → P (c :: text) := by
    intro c text hneutral houtside htext
    have hsingle : P [c] := hP.plain (by simp [hneutral, houtside])
    exact hP.append hsingle htext
  induction h with
  | null | true | false => exact hP.plain (by simp [isNeutral, isOutside])
  | number h => exact hP.plain fun c hc => ⟨h.neutral c hc, h.outside c hc⟩
  | string h => exact hP.string h
  | emptyArray hw => exact hP.bracketed (.inr ⟨rfl, rfl⟩) (hblank hw)
  | array _ ih => exact hP.bracketed (.inr ⟨rfl, rfl⟩) ih
  | emptyObject hw => exact hP.bracketed (.inl ⟨rfl, rfl⟩) (hblank hw)
  | object _ ih => exact hP.bracketed (.inl ⟨rfl, rfl⟩) ih
  | element hw _ hw' ih => exact hP.append (hblank hw) (hP.append ih (hblank hw'))
  | lastElement _ ih => exact ih
  | moreElements _ _ ih ih' => exact hP.append ih (hchar (by decide) (by decide) ih')
  | member hw hname hw' _ ih =>
    exact hP.append (hblank hw) (hP.append (hP.string hname)
      (hP.append (hblank hw') (hchar (by decide) (by decide) ih)))
  | lastMember _ ih => exact ih
  | moreMembers _ _ ih ih' => exact hP.append ih (hchar (by decide) (by decide) ih')

end ReactRuntime.Library.JsonText
