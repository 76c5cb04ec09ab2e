import ReactRuntime.Library.JsonGrammar
import Mathlib.Order.MinMax
import Mathlib.Order.Nat

/-!
# Texts with their strings as symbols

Where the strings of a text begin and end is told by quotes and backslashes alone, whatever else
stands between the quotes. Such a text is a list of symbols: characters and literals. The list is
determined by the text, and what a literal stands for is left open.
-/
namespace ReactRuntime.Library.JsonText

inductive Symbol (α : Type) where
  | char (c : Char)
  | literal (a : α)

namespace Symbol
variable {α β : Type}

def map (f : α → β) : Symbol α → Symbol β
  | .char c => .char c
  | .literal a => .literal (f a)

def text (body : α → List Char) : Symbol α → List Char
  | .char c => [c]
  | .literal a => '"' :: (body a ++ ['"'])

end Symbol

section
variable {α β : Type}

def textOf (body : α → List Char) (doc : List (Symbol α)) : List Char := doc.flatMap (Symbol.text body)

def chars (text : List Char) : List (Symbol α) := text.map .char

variable (body : α → List Char)

@[simp] theorem textOf_nil : textOf body [] = [] := rfl

@[simp] theorem textOf_char (c : Char) (doc : List (Symbol α)) :
    textOf body (.char c :: doc) = c :: textOf body doc := rfl

@[simp] theorem textOf_literal (a : α) (doc : List (Symbol α)) :
    textOf body (.literal a :: doc) = '"' :: (body a ++ '"' :: textOf body doc) := by
  simp [textOf, Symbol.text]

@[simp] theorem textOf_append (doc doc' : List (Symbol α)) :
    textOf body (doc ++ doc') = textOf body doc ++ textOf body doc' := List.flatMap_append ..

@[simp] theorem textOf_chars (text : List Char) : textOf body (chars text) = text := by
  induction text with
  | nil => rfl
  | cons c text ih => exact congrArg (c :: ·) ih

theorem textOf_map (f : β → α) (doc : List (Symbol β)) :
    textOf body (doc.map (Symbol.map f)) = textOf (body ∘ f) doc := by
  rw [textOf, List.flatMap_map]
  apply List.flatMap_congr
  rintro (c | b) _ <;> rfl


variable {body} {f : α → β}

theorem Symbol.map_eq_char {s : Symbol α} {c : Char} (h : s.map f = .char c) : s = .char c := by
  cases s with
  | char d => rw [Symbol.char.inj h]
  | literal a => exact nomatch h

theorem Symbol.map_eq_literal {s : Symbol α} {b : β} (h : s.map f = .literal b) :
    ∃ a, s = .literal a ∧ f a = b := by
  cases s with
  | char d => exact nomatch h
  | literal a => exact ⟨a, rfl, Symbol.literal.inj h⟩

theorem map_chars (f : α → β) (text : List Char) :
    (chars text).map (Symbol.map f) = chars text := by
  rw [chars, List.map_map]
  rfl

theorem map_eq_chars {doc : List (Symbol α)} {text : List Char}
    (h : doc.map (Symbol.map f) = chars text) : doc = chars text := by
  induction text generalizing doc with
  | nil => exact List.map_eq_nil_iff.mp h
  | cons c text ih =>
    obtain ⟨s, doc, rfl, hs, hdoc⟩ := List.map_eq_cons_iff.mp h
    rw [Symbol.map_eq_char hs, ih hdoc]
    rfl

/-- Characters in front of a document are the same with other literals. -/
theorem map_eq_char_cons {doc : List (Symbol α)} {c : Char} {doc' : List (Symbol β)}
    (h : doc.map (Symbol.map f) = .char c :: doc') :
    ∃ rest, doc = .char c :: rest ∧ rest.map (Symbol.map f) = doc' := by
  obtain ⟨s, rest, rfl, hs, hrest⟩ := List.map_eq_cons_iff.mp h
  exact ⟨rest, by rw [Symbol.map_eq_char hs], hrest⟩

theorem map_eq_bracketed {doc : List (Symbol α)} {opening closing : Char} {doc' : List (Symbol β)}
    (h : doc.map (Symbol.map f) = .char opening :: (doc' ++ [.char closing])) :
    ∃ inner, doc = .char opening :: (inner ++ [.char closing]) ∧ inner.map (Symbol.map f) = doc' := by
  obtain ⟨rest, rfl, hrest⟩ := map_eq_char_cons h
  obtain ⟨inner, last, rfl, hinner, hlast⟩ := List.map_eq_append_iff.mp hrest
  obtain rfl : last = chars [closing] := map_eq_chars hlast
  exact ⟨inner, rfl, hinner⟩

end

/-- A text between quotes that is read as one string: each quote in it stands behind a backslash. -/
inductive Loose : List Char → Prop where
  | nil : Loose []
  | plain {c : Char} {text : List Char} (hquote : c ≠ '"') (hbackslash : c ≠ '\\') (h : Loose text) :
      Loose (c :: text)
  | escaped {text : List Char} (c : Char) (h : Loose text) : Loose ('\\' :: c :: text)

theorem Loose.append {text text' : List Char} (h : Loose text) (h' : Loose text') :
    Loose (text ++ text') := by
  induction h with
  | nil => exact h'
  | plain hquote hbackslash _ ih => exact .plain hquote hbackslash ih
  | escaped c _ ih => exact .escaped c ih

theorem StringBody.loose {text : List Char} (h : StringBody text) : Loose text := by
  have hhex : ∀ {c more}, isHex c = true → Loose more → Loose (c :: more) := by
    intro c more hc
    obtain ⟨hquote, hbackslash, -⟩ := plain_of_isHex hc
    exact .plain hquote hbackslash
  induction h with
  | nil => exact .nil
  | plain hquote hbackslash _ _ ih => exact .plain hquote hbackslash ih
  | escape _ _ ih => exact .escaped _ ih
  | unicode h₁ h₂ h₃ h₄ _ ih => exact .escaped _ (hhex h₁ (hhex h₂ (hhex h₃ (hhex h₄ ih))))

/-- A loose text ends at the first quote that may end it. -/
theorem Loose.append_quote_inj {text text' rest rest' : List Char} (h : Loose text)
    (h' : Loose text') (heq : text ++ '"' :: rest = text' ++ '"' :: rest') :
    text = text' ∧ rest = rest' := by
  induction h generalizing text' with
  | nil =>
    cases h' with
    | nil => simpa using heq
    | plain hquote _ _ => exact absurd (List.cons.inj heq).1.symm hquote
    | escaped c _ => exact absurd (List.cons.inj heq).1 (by decide)
  | plain hquote hbackslash _ ih =>
    cases h' with
    | nil => exact absurd (List.cons.inj heq).1 hquote
    | plain _ _ h' =>
      obtain ⟨rfl, htail⟩ := List.cons.inj heq
      obtain ⟨rfl, hrest⟩ := ih h' htail
      exact ⟨rfl, hrest⟩
    | escaped c _ => exact absurd (List.cons.inj heq).1 hbackslash
  | escaped c _ ih =>
    cases h' with
    | nil => exact absurd (List.cons.inj heq).1 (by decide)
    | plain _ hbackslash _ => exact absurd (List.cons.inj heq).1.symm hbackslash
    | escaped c' h' =>
      obtain ⟨-, htail⟩ := List.cons.inj heq
      obtain ⟨rfl, htail'⟩ := List.cons.inj htail
      obtain ⟨rfl, hrest⟩ := ih h' htail'
      exact ⟨rfl, hrest⟩

section
variable {α β : Type} {body : α → List Char} {body' : β → List Char}

/-- A symbol whose text is told from what stands around it. -/
def Symbol.Closed (body : α → List Char) : Symbol α → Prop
  | .char c => isOutside c = true
  | .literal a => Loose (body a)

def Lexed (body : α → List Char) (doc : List (Symbol α)) : Prop := ∀ s ∈ doc, s.Closed body

theorem lexed_cons {s : Symbol α} {doc : List (Symbol α)} :
    Lexed body (s :: doc) ↔ s.Closed body ∧ Lexed body doc := List.forall_mem_cons

theorem lexed_append {doc doc' : List (Symbol α)} :
    Lexed body (doc ++ doc') ↔ Lexed body doc ∧ Lexed body doc' := List.forall_mem_append

theorem Lexed.comp {f : List Char → List Char} (hf : ∀ {b}, Loose b → Loose (f b))
    {doc : List (Symbol α)} (h : Lexed body doc) : Lexed (f ∘ body) doc := by
  intro s hs
  have hclosed := h s hs
  cases s with
  | char c => exact hclosed
  | literal a => exact hf hclosed

theorem Lexed.textOf_congr {f g : List Char → List Char} (hfg : ∀ {b}, Loose b → f b = g b)
    {doc : List (Symbol α)} (h : Lexed body doc) :
    textOf (f ∘ body) doc = textOf (g ∘ body) doc := by
  apply List.flatMap_congr
  intro s hs
  have hclosed := h s hs
  cases s with
  | char c => rfl
  | literal a => exact congrArg (fun b => '"' :: (b ++ ['"'])) (hfg hclosed)

theorem lexed_chars {text : List Char} (h : ∀ c ∈ text, isOutside c = true) :
    Lexed body (chars text) := by
  intro s hs
  obtain ⟨c, hc, rfl⟩ := List.mem_map.mp hs
  exact h c hc

/-- The symbols of a text are determined by it. -/
theorem textOf_inj {doc : List (Symbol α)} {doc' : List (Symbol β)} (h : Lexed body doc)
    (h' : Lexed body' doc') (heq : textOf body doc = textOf body' doc') :
    doc.map (Symbol.map body) = doc'.map (Symbol.map body') := by
  induction doc generalizing doc' with
  | nil =>
    cases doc' with
    | nil => rfl
    | cons s' doc' => cases s' <;> simp at heq
  | cons s doc ih =>
    obtain ⟨hs, hdoc⟩ := lexed_cons.mp h
    cases doc' with
    | nil => cases s <;> simp at heq
    | cons s' doc' =>
      obtain ⟨hs', hdoc'⟩ := lexed_cons.mp h'
      cases s with
      | char c =>
        cases s' with
        | char c' =>
          obtain ⟨rfl, htail⟩ := List.cons.inj heq
          exact congrArg (Symbol.char c :: ·) (ih hdoc hdoc' htail)
        | literal a' =>
          rw [textOf_literal] at heq
          exact absurd (List.cons.inj heq).1 (ne_of_isOutside hs).1
      | literal a =>
        rw [textOf_literal] at heq
        cases s' with
        | char c' => exact absurd (List.cons.inj heq).1.symm (ne_of_isOutside hs').1
        | literal a' =>
          rw [textOf_literal] at heq
          obtain ⟨hbody, hrest⟩ := Loose.append_quote_inj hs hs' (List.cons.inj heq).2
          simp only [List.map_cons, Symbol.map, hbody, ih hdoc hdoc' hrest]

/-- Texts of the same document are told apart by their literals. -/
theorem textOf_eq_iff {body' : α → List Char} {doc : List (Symbol α)} (h : Lexed body doc)
    (h' : Lexed body' doc) :
    textOf body doc = textOf body' doc ↔ ∀ a, Symbol.literal a ∈ doc → body a = body' a := by
  constructor
  · intro heq a ha
    have hmap := List.map_inj_left.mp (textOf_inj h h' heq) _ ha
    exact Symbol.literal.inj hmap
  · intro hbody
    apply List.flatMap_congr
    intro s hs
    cases s with
    | char c => rfl
    | literal a => exact congrArg (fun b => '"' :: (b ++ ['"'])) (hbody a hs)

end

/-! How deep the brackets of a document go. -/

/-- The deepest level of a document that begins on the given one. -/
def peak {α : Type} : (level : Nat) → List (Symbol α) → Nat
  | level, [] => level
  | level, .literal _ :: doc => peak level doc
  | level, .char c :: doc =>
    if c = '[' ∨ c = '{' then peak (level + 1) doc
    else if c = ']' ∨ c = '}' then max level (peak (level - 1) doc)
    else peak level doc

/-- A document whose brackets close each other, `h` levels deep. -/
def Nests {α : Type} (h : Nat) (doc : List (Symbol α)) : Prop :=
  ∀ level rest, peak level (doc ++ rest) = max (level + h) (peak level rest)

section
variable {α β : Type} {doc doc' : List (Symbol α)} {h h' : Nat}

theorem le_peak (level : Nat) (doc : List (Symbol α)) : level ≤ peak level doc := by
  induction doc generalizing level with
  | nil => exact le_rfl
  | cons s doc ih =>
    cases s with
    | literal a => exact ih level
    | char c =>
      rw [peak]
      split_ifs
      · exact (Nat.le_succ level).trans (ih (level + 1))
      · exact le_max_left level _
      · exact ih level

/-- What the literals stand for plays no part. -/
theorem peak_map (f : α → β) (level : Nat) (doc : List (Symbol α)) :
    peak level (doc.map (Symbol.map f)) = peak level doc := by
  induction doc generalizing level with
  | nil => rfl
  | cons s doc ih => cases s <;> simp only [List.map_cons, Symbol.map, peak, ih]

theorem Nests.peak_eq (hdoc : Nests h doc) : peak 0 doc = h := by
  have hpeak := hdoc 0 []
  rwa [List.append_nil, peak, Nat.zero_add, Nat.max_zero] at hpeak

theorem nests_nil : Nests 0 ([] : List (Symbol α)) :=
  fun level rest => (max_eq_right (le_peak level rest)).symm

theorem nests_literal (a : α) : Nests 0 [.literal a] :=
  fun level rest => (max_eq_right (le_peak level rest)).symm

theorem nests_neutral {text : List Char} (htext : ∀ c ∈ text, isNeutral c = true) :
    Nests 0 (chars text : List (Symbol α)) := by
  intro level rest
  rw [Nat.add_zero, max_eq_right (le_peak level rest)]
  induction text with
  | nil => rfl
  | cons c text ih =>
    have hc := htext c List.mem_cons_self
    simp only [isNeutral, Bool.not_eq_true', List.contains_eq_mem, List.mem_cons, List.not_mem_nil,
      or_false, decide_eq_false_iff_not, not_or] at hc
    have htail := ih fun d hd => htext d (List.mem_cons_of_mem c hd)
    rw [← htail, chars, List.map_cons, List.cons_append, peak, if_neg (by tauto), if_neg (by tauto)]
    rfl

theorem Nests.append (hdoc : Nests h doc) (hdoc' : Nests h' doc') :
    Nests (max h h') (doc ++ doc') := by
  intro level rest
  rw [List.append_assoc, hdoc, hdoc', ← max_assoc, Nat.add_max_add_left]

theorem Nests.cons {c : Char} (hc : isNeutral c = true) (hdoc : Nests h doc) :
    Nests h (.char c :: doc) := by
  have hsingle : Nests 0 (chars [c] : List (Symbol α)) := nests_neutral (by simpa using hc)
  have hcons := hsingle.append hdoc
  rwa [Nat.zero_max] at hcons

theorem Nests.bracketed {opening closing : Char} (hbrackets : Brackets opening closing)
    (hdoc : Nests h doc) : Nests (h + 1) (.char opening :: (doc ++ [.char closing])) := by
  intro level rest
  have hopen : opening = '[' ∨ opening = '{' := by rcases hbrackets with ⟨rfl, -⟩ | ⟨rfl, -⟩ <;> simp
  have hclose : peak (level + 1) (.char closing :: rest) = max (level + 1) (peak level rest) := by
    rcases hbrackets with ⟨-, rfl⟩ | ⟨-, rfl⟩ <;> simp [peak]
  rw [List.cons_append, peak, if_pos hopen, List.append_assoc, hdoc, List.singleton_append, hclose,
    ← max_assoc, Nat.add_right_comm level 1 h]
  rw [max_eq_left (by omega : level + 1 ≤ level + h + 1), Nat.add_assoc]

end

/-- Where a reader of quotes and backslashes stands. -/
inductive Mode where
  | outside
  | inString
  | escaped
  | bad
deriving DecidableEq, Repr

def Mode.step : Mode → Char → Mode
  | .outside, c => if c = '"' then .inString else if c = '\\' then .bad else .outside
  | .inString, c => if c = '"' then .outside else if c = '\\' then .escaped else .inString
  | .escaped, _ => .inString
  | .bad, _ => .bad

def Mode.run (m : Mode) (text : List Char) : Mode := text.foldl Mode.step m

@[simp] theorem Mode.run_nil (m : Mode) : m.run [] = m := rfl

@[simp] theorem Mode.run_cons (m : Mode) (c : Char) (text : List Char) :
    m.run (c :: text) = (m.step c).run text := rfl

theorem Mode.run_append (m : Mode) (text text' : List Char) :
    m.run (text ++ text') = (m.run text).run text' := List.foldl_append

@[simp] theorem Mode.run_bad (text : List Char) : Mode.bad.run text = .bad := by
  induction text with
  | nil => rfl
  | cons c text ih => exact ih

theorem Loose.run {text : List Char} (h : Loose text) : Mode.inString.run text = .inString := by
  induction h with
  | nil => rfl
  | plain hquote hbackslash _ ih => simpa [Mode.step, hquote, hbackslash] using ih
  | escaped c _ ih => simpa [Mode.step] using ih

theorem Lexed.run {α : Type} {body : α → List Char} {doc : List (Symbol α)} (h : Lexed body doc) :
    Mode.outside.run (textOf body doc) = .outside := by
  induction doc with
  | nil => rfl
  | cons s doc ih =>
    obtain ⟨hs, hdoc⟩ := lexed_cons.mp h
    cases s with
    | char c =>
      obtain ⟨hquote, hbackslash⟩ := ne_of_isOutside hs
      simpa [Mode.step, hquote, hbackslash] using ih hdoc
    | literal a =>
      have hclose : Mode.inString.run (body a ++ '"' :: textOf body doc) = .outside := by
        rw [Mode.run_append, Loose.run hs]
        simpa [Mode.step] using ih hdoc
      simpa [Mode.step] using hclose

/-- What is left of a text behind a place where the reader stands in a given mode. -/
def Rest : Mode → List Char → Prop
  | .outside, text => ∃ doc : List (Symbol (List Char)), Lexed id doc ∧ text = textOf id doc
  | .inString, text => ∃ body, ∃ doc : List (Symbol (List Char)), Loose body ∧ Lexed id doc ∧
      text = body ++ '"' :: textOf id doc
  | .escaped, text => ∃ c body, ∃ doc : List (Symbol (List Char)), Loose body ∧ Lexed id doc ∧
      text = c :: (body ++ '"' :: textOf id doc)
  | .bad, _ => False

theorem rest_of_run {m : Mode} {text : List Char} (h : m.run text = .outside) : Rest m text := by
  induction text generalizing m with
  | nil =>
    obtain rfl : m = .outside := h
    exact ⟨[], fun s hs => absurd hs List.not_mem_nil, rfl⟩
  | cons c text ih =>
    have hrest := ih h
    cases m with
    | outside =>
      by_cases hquote : c = '"'
      · simp only [Mode.step, hquote, if_true] at hrest
        obtain ⟨body, doc, hbody, hdoc, rfl⟩ := hrest
        exact ⟨.literal body :: doc, lexed_cons.mpr ⟨hbody, hdoc⟩, by simp [hquote]⟩
      · by_cases hbackslash : c = '\\'
        · simp [Mode.step, hbackslash, Rest] at hrest
        · simp only [Mode.step, hquote, hbackslash, if_false] at hrest
          obtain ⟨doc, hdoc, rfl⟩ := hrest
          have hc : isOutside c = true := by simp [isOutside, hquote, hbackslash]
          exact ⟨.char c :: doc, lexed_cons.mpr ⟨hc, hdoc⟩, rfl⟩
    | inString =>
      by_cases hquote : c = '"'
      · simp only [Mode.step, hquote, if_true] at hrest
        obtain ⟨doc, hdoc, rfl⟩ := hrest
        exact ⟨[], doc, .nil, hdoc, by simp [hquote]⟩
      · by_cases hbackslash : c = '\\'
        · simp only [Mode.step, hbackslash] at hrest
          obtain ⟨d, body, doc, hbody, hdoc, rfl⟩ := hrest
          exact ⟨'\\' :: d :: body, doc, .escaped d hbody, hdoc, by simp [hbackslash]⟩
        · simp only [Mode.step, hquote, hbackslash, if_false] at hrest
          obtain ⟨body, doc, hbody, hdoc, rfl⟩ := hrest
          exact ⟨c :: body, doc, .plain hquote hbackslash hbody, hdoc, rfl⟩
    | escaped =>
      obtain ⟨body, doc, hbody, hdoc, rfl⟩ := hrest
      exact ⟨c, body, doc, hbody, hdoc, rfl⟩
    | bad => exact hrest

/-- A text whose strings are all closed, with no backslash outside of them, is one of symbols. -/
theorem exists_lexed {text : List Char} (h : Mode.outside.run text = .outside) :
    ∃ doc : List (Symbol (List Char)), Lexed id doc ∧ text = textOf id doc := rest_of_run h

end ReactRuntime.Library.JsonText
