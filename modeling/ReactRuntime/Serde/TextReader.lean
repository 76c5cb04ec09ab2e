import Mathlib.Data.List.TakeWhile
import ReactRuntime.Serde.Document
import ReactRuntime.Serde.Reader

/-!
# A reader of all documents

The recursive descent of serde_json, on fuel from the length of the text. It reads a text exactly if
the text stands for a value, and then it reads that value.
-/
namespace ReactRuntime.Serde
open Library JsonText

def skipWs (text : List Char) : List Char := text.dropWhile isWs

def expect (c : Char) (text : List Char) : Option (List Char) :=
  if text.head? = some c then some text.tail else none

def readWord : List Char → Option (Json × List Char)
  | 'n' :: 'u' :: 'l' :: 'l' :: rest => some (.null, rest)
  | 't' :: 'r' :: 'u' :: 'e' :: rest => some (.bool true, rest)
  | 'f' :: 'a' :: 'l' :: 's' :: 'e' :: rest => some (.bool false, rest)
  | _ => none

def readQuoted (text : List Char) : Option (String × List Char) :=
  (expect '"' text).bind fun rest =>
    (readString (rest.length + 1) rest).map fun found => (.ofList found.1, found.2)

/-- The name of a member, up to what stands behind the colon. -/
def readName (text : List Char) : Option (String × List Char) :=
  (readQuoted (skipWs text)).bind fun found =>
    (expect ':' (skipWs found.2)).map fun rest => (found.1, rest)

/-- The depth that is left inside a container. -/
def descend : Nat → Option Nat
  | 0 => none
  | d + 1 => some d

section
variable {β : Type}

/-- What stands between brackets, if anything does. -/
def readBracketed (closing : Char) (inside : Option (List β × List Char)) (text : List Char) :
    Option (List β × List Char) :=
  match expect closing (skipWs text) with
  | some rest => some ([], rest)
  | none => inside.bind fun found => (expect closing found.2).map fun rest => (found.1, rest)

/-- A part of a sequence, and the further parts if there is a comma. -/
def readMore (first : β) (further : List Char → Option (List β × List Char)) (text : List Char) :
    Option (List β × List Char) :=
  match expect ',' text with
  | some rest => (further rest).map fun more => (first :: more.1, more.2)
  | none => some ([first], text)

end

section
variable (number : List Char → Option Number)

def readNumber (text : List Char) : Option (Json × List Char) :=
  (number (text.takeWhile isNumeric)).map fun n => (.num n, text.dropWhile isNumeric)

mutual
def readValue : (fuel d : Nat) → List Char → Option (Json × List Char)
  | 0, _, _ => none
  | _ + 1, _, [] => none
  | fuel + 1, d, c :: rest =>
    if c = '"' then (readQuoted (c :: rest)).map fun found => (.str found.1, found.2)
    else if c = '[' then
      (descend d).bind fun d => (readBracketed ']' (readElements fuel d rest) rest).map fun found =>
        (.arr found.1, found.2)
    else if c = '{' then
      (descend d).bind fun d => (readBracketed '}' (readMembers fuel d rest) rest).map fun found =>
        (.object found.1, found.2)
    else if isNumeric c then readNumber number (c :: rest)
    else readWord (c :: rest)

def readElements : (fuel d : Nat) → List Char → Option (List Json × List Char)
  | 0, _, _ => none
  | fuel + 1, d, text =>
    (readValue fuel d (skipWs text)).bind fun found =>
      readMore found.1 (readElements fuel d) (skipWs found.2)

def readMembers : (fuel d : Nat) → List Char → Option (Fields × List Char)
  | 0, _, _ => none
  | fuel + 1, d, text =>
    (readName text).bind fun name =>
      (readValue fuel d (skipWs name.2)).bind fun found =>
        readMore (name.1, found.1) (readMembers fuel d) (skipWs found.2)
end

/-- The value at the start of a text, and what stands behind it. -/
def readFirst (text : List Char) : Option (Json × List Char) :=
  readValue number (2 * text.length + 1) maxDepth (skipWs text)

def readText (text : List Char) : Option Json :=
  (readFirst number text).bind fun found => if skipWs found.2 = [] then some found.1 else none

end

theorem expect_eq_some {c : Char} {text rest : List Char} :
    expect c text = some rest ↔ text = c :: rest := by
  unfold expect
  split_ifs with h
  · obtain ⟨more, rfl⟩ := List.head?_eq_some_iff.mp h
    simp
  · constructor
    · intro hnone
      exact absurd hnone (by simp)
    · rintro rfl
      exact absurd rfl h

/-- Whitespace in front of a text, and the text that is left. -/
theorem skipWs_split (text : List Char) : ∃ w, Blank w ∧ text = w ++ skipWs text := by
  refine ⟨text.takeWhile isWs, fun c hc => ?_, (List.takeWhile_append_dropWhile ..).symm⟩
  exact List.mem_takeWhile_imp hc

theorem readWord_sound {text rest : List Char} {v : Json} (h : readWord text = some (v, rest))
    {α : Type} (content : α → List Char) (number : List Char → Option Number) (d : Nat) :
    ∃ doc : List (Symbol α), (∀ body, text = textOf body doc ++ rest) ∧
      Means content number d doc (.value v) := by
  unfold readWord at h
  split at h
  · obtain ⟨rfl, rfl⟩ := Prod.mk.inj (Option.some.inj h)
    exact ⟨chars ['n', 'u', 'l', 'l'], fun body => rfl, .null⟩
  · obtain ⟨rfl, rfl⟩ := Prod.mk.inj (Option.some.inj h)
    exact ⟨chars ['t', 'r', 'u', 'e'], fun body => rfl, .true⟩
  · obtain ⟨rfl, rfl⟩ := Prod.mk.inj (Option.some.inj h)
    exact ⟨chars ['f', 'a', 'l', 's', 'e'], fun body => rfl, .false⟩
  · exact absurd h (by simp)

theorem readQuoted_sound {text rest : List Char} {s : String} (h : readQuoted text = some (s, rest)) :
    ∃ a : Literal, text = '"' :: (a.body ++ '"' :: rest) ∧ s = .ofList a.content := by
  obtain ⟨inside, hinside, hread⟩ := Option.bind_eq_some_iff.mp h
  obtain rfl := expect_eq_some.mp hinside
  obtain ⟨⟨content, rest'⟩, hstring, hpair⟩ := Option.map_eq_some_iff.mp hread
  obtain ⟨rfl, rfl⟩ := Prod.mk.inj hpair
  obtain ⟨body, hbody, rfl⟩ := readString_eq_some hstring
  exact ⟨⟨body, content, hbody⟩, rfl, rfl⟩

theorem readName_sound {text rest : List Char} {s : String} (h : readName text = some (s, rest)) :
    ∃ w w', ∃ a : Literal, Blank w ∧ Blank w' ∧ s = .ofList a.content ∧
      text = textOf Literal.body (chars w ++ .literal a :: (chars w' ++ [.char ':'])) ++ rest := by
  obtain ⟨⟨name, behind⟩, hquoted, hread⟩ := Option.bind_eq_some_iff.mp h
  obtain ⟨rest', hcolon, hpair⟩ := Option.map_eq_some_iff.mp hread
  obtain ⟨rfl, rfl⟩ := Prod.mk.inj hpair
  obtain ⟨w, hw, htext⟩ := skipWs_split text
  obtain ⟨w', hw', hbehind⟩ := skipWs_split behind
  obtain ⟨a, hliteral, rfl⟩ := readQuoted_sound hquoted
  refine ⟨w, w', a, hw, hw', rfl, ?_⟩
  rw [htext, hliteral, hbehind, expect_eq_some.mp hcolon]
  simp

section
variable {number : List Char → Option Number}

theorem readNumber_sound (hnumber : ∀ {text n}, number text = some n → IsNumber text)
    {text rest : List Char} {v : Json} (h : readNumber number text = some (v, rest))
    {α : Type} (content : α → List Char) (d : Nat) :
    ∃ doc : List (Symbol α), (∀ body, text = textOf body doc ++ rest) ∧
      Means content number d doc (.value v) := by
  obtain ⟨n, hn, hpair⟩ := Option.map_eq_some_iff.mp h
  obtain ⟨rfl, rfl⟩ := Prod.mk.inj hpair
  refine ⟨chars (text.takeWhile isNumeric), fun body => ?_, .number (hnumber hn) hn⟩
  rw [textOf_chars, List.takeWhile_append_dropWhile]

theorem readBracketed_sound {β : Type} {closing : Char} {inside : Option (List β × List Char)}
    {text rest : List Char} {found : List β}
    (h : readBracketed closing inside text = some (found, rest)) :
    (found = [] ∧ ∃ w, Blank w ∧ text = w ++ closing :: rest) ∨
      inside = some (found, closing :: rest) := by
  unfold readBracketed at h
  split at h
  · rename_i rest' hempty
    obtain ⟨rfl, rfl⟩ := Prod.mk.inj (Option.some.inj h)
    obtain ⟨w, hw, htext⟩ := skipWs_split text
    rw [expect_eq_some.mp hempty] at htext
    exact .inl ⟨rfl, w, hw, htext⟩
  · obtain ⟨⟨found', rest'⟩, hinside, hread⟩ := Option.bind_eq_some_iff.mp h
    obtain ⟨rest'', hclose, hpair⟩ := Option.map_eq_some_iff.mp hread
    obtain ⟨rfl, rfl⟩ := Prod.mk.inj hpair
    rw [expect_eq_some] at hclose
    exact .inr (by rw [hinside, ← hclose])

theorem readMore_sound {β : Type} {first : β} {further : List Char → Option (List β × List Char)}
    {text rest : List Char} {found : List β} (h : readMore first further text = some (found, rest)) :
    (found = [first] ∧ text = rest) ∨
      ∃ text' more, text = ',' :: text' ∧ further text' = some (more, rest) ∧ found = first :: more := by
  unfold readMore at h
  split at h
  · rename_i text' hcomma
    obtain ⟨⟨more, rest'⟩, hfurther, hpair⟩ := Option.map_eq_some_iff.mp h
    obtain ⟨rfl, rfl⟩ := Prod.mk.inj hpair
    exact .inr ⟨text', more, expect_eq_some.mp hcomma, hfurther, rfl⟩
  · obtain ⟨rfl, rfl⟩ := Prod.mk.inj (Option.some.inj h)
    exact .inl ⟨rfl, rfl⟩

theorem descend_eq_some {d d' : Nat} : descend d = some d' ↔ d = d' + 1 := by
  cases d <;> simp [descend]

/-- What is read on some fuel is a part of a document, behind which the rest of the text stands. -/
structure Sound (number : List Char → Option Number) (fuel : Nat) : Prop where
  value : ∀ d text v rest, readValue number fuel d text = some (v, rest) →
    ∃ doc, text = textOf Literal.body doc ++ rest ∧ Means Literal.content number d doc (.value v)
  elements : ∀ d text vs rest, readElements number fuel d text = some (vs, rest) →
    ∃ doc, text = textOf Literal.body doc ++ rest ∧ Means Literal.content number d doc (.elements vs)
  members : ∀ d text fs rest, readMembers number fuel d text = some (fs, rest) →
    ∃ doc, text = textOf Literal.body doc ++ rest ∧ Means Literal.content number d doc (.members fs)

section
variable {fuel d : Nat} {text rest : List Char}

/-- A value with the whitespace around it. -/
theorem Sound.element (ih : Sound number fuel) {v : Json}
    (h : readValue number fuel d (skipWs text) = some (v, rest)) :
    ∃ doc, text = textOf Literal.body doc ++ skipWs rest ∧
      Means Literal.content number d doc (.element v) := by
  obtain ⟨w, hw, htext⟩ := skipWs_split text
  obtain ⟨w', hw', hrest⟩ := skipWs_split rest
  obtain ⟨doc, hdoc, hmeans⟩ := ih.value d _ v rest h
  refine ⟨chars w ++ (doc ++ chars w'), ?_, .element hw hmeans hw'⟩
  rw [hdoc] at htext
  rw [htext]
  conv_lhs => rw [hrest]
  simp

theorem Sound.readValue (ih : Sound number fuel)
    (hnumber : ∀ {text n}, number text = some n → IsNumber text) {v : Json}
    (h : readValue number (fuel + 1) d text = some (v, rest)) :
    ∃ doc, text = textOf Literal.body doc ++ rest ∧
      Means Literal.content number d doc (.value v) := by
  cases text with
  | nil => simp [Serde.readValue] at h
  | cons c text =>
    rw [Serde.readValue] at h
    split_ifs at h with hquote harray hobject hnumeric
    · obtain ⟨⟨s, rest'⟩, hread, hpair⟩ := Option.map_eq_some_iff.mp h
      obtain ⟨rfl, rfl⟩ := Prod.mk.inj hpair
      obtain ⟨a, htext, rfl⟩ := readQuoted_sound hread
      exact ⟨[.literal a], by simpa using htext, .string a⟩
    · obtain ⟨d', hd, hread⟩ := Option.bind_eq_some_iff.mp h
      obtain ⟨⟨vs, rest'⟩, hbracketed, hpair⟩ := Option.map_eq_some_iff.mp hread
      obtain ⟨rfl, rfl⟩ := Prod.mk.inj hpair
      obtain rfl := descend_eq_some.mp hd
      rcases readBracketed_sound hbracketed with ⟨rfl, w, hw, htext⟩ | hinside
      · exact ⟨_, by simp [harray, htext], .emptyArray hw⟩
      · obtain ⟨doc, htext, hdoc⟩ := ih.elements _ _ _ _ hinside
        exact ⟨_, by simp [harray, htext], .array hdoc⟩
    · obtain ⟨d', hd, hread⟩ := Option.bind_eq_some_iff.mp h
      obtain ⟨⟨fs, rest'⟩, hbracketed, hpair⟩ := Option.map_eq_some_iff.mp hread
      obtain ⟨rfl, rfl⟩ := Prod.mk.inj hpair
      obtain rfl := descend_eq_some.mp hd
      rcases readBracketed_sound hbracketed with ⟨rfl, w, hw, htext⟩ | hinside
      · exact ⟨_, by simp [hobject, htext], .emptyObject hw⟩
      · obtain ⟨doc, htext, hdoc⟩ := ih.members _ _ _ _ hinside
        exact ⟨_, by simp [hobject, htext], .object hdoc⟩
    · obtain ⟨doc, htext, hdoc⟩ := readNumber_sound hnumber h Literal.content d
      exact ⟨doc, htext _, hdoc⟩
    · obtain ⟨doc, htext, hdoc⟩ := readWord_sound h Literal.content number d
      exact ⟨doc, htext _, hdoc⟩

theorem Sound.readElements (ih : Sound number fuel) {vs : List Json}
    (h : readElements number (fuel + 1) d text = some (vs, rest)) :
    ∃ doc, text = textOf Literal.body doc ++ rest ∧
      Means Literal.content number d doc (.elements vs) := by
  obtain ⟨⟨v, behind⟩, hvalue, hmore⟩ := Option.bind_eq_some_iff.mp h
  obtain ⟨doc, rfl, hdoc⟩ := ih.element hvalue
  rcases readMore_sound hmore with ⟨rfl, hrest⟩ | ⟨text', more, hcomma, hfurther, rfl⟩
  · exact ⟨doc, by rw [hrest], .lastElement hdoc⟩
  · obtain ⟨doc', rfl, hdoc'⟩ := ih.elements _ _ _ _ hfurther
    exact ⟨_, by simp [hcomma], .moreElements hdoc hdoc'⟩

theorem Sound.readMembers (ih : Sound number fuel) {fs : Fields}
    (h : readMembers number (fuel + 1) d text = some (fs, rest)) :
    ∃ doc, text = textOf Literal.body doc ++ rest ∧
      Means Literal.content number d doc (.members fs) := by
  obtain ⟨⟨name, behindName⟩, hname, hread⟩ := Option.bind_eq_some_iff.mp h
  obtain ⟨⟨v, behind⟩, hvalue, hmore⟩ := Option.bind_eq_some_iff.mp hread
  have helement : ∃ doc, behindName = textOf Literal.body doc ++ skipWs behind ∧
      Means Literal.content number d doc (.element v) := ih.element hvalue
  obtain ⟨doc, hbehind, hdoc⟩ := helement
  obtain ⟨w, w', a, hw, hw', rfl, rfl⟩ := readName_sound hname
  have hmember := Means.member hw a hw' hdoc
  rcases readMore_sound hmore with ⟨rfl, hrest⟩ | ⟨text', more, hcomma, hfurther, rfl⟩
  · exact ⟨_, by simp [hbehind, hrest], .lastMember hmember⟩
  · obtain ⟨doc', rfl, hdoc'⟩ := ih.members _ _ _ _ hfurther
    exact ⟨_, by simp [hbehind, hcomma], .moreMembers hmember hdoc'⟩

end

theorem read_sound (hnumber : ∀ {text n}, number text = some n → IsNumber text) (fuel : Nat) :
    Sound number fuel := by
  induction fuel with
  | zero => constructor <;> simp [readValue, readElements, readMembers]
  | succ fuel ih =>
    exact ⟨fun _ _ _ _ => ih.readValue hnumber, fun _ _ _ _ => ih.readElements,
      fun _ _ _ _ => ih.readMembers⟩

end

theorem expect_cons (c : Char) (rest : List Char) : expect c (c :: rest) = some rest :=
  expect_eq_some.mpr rfl

theorem expect_of_ne {c : Char} {text : List Char} (h : text.head? ≠ some c) : expect c text = none :=
  if_neg h

theorem skipWs_append {w : List Char} (hw : Blank w) (rest : List Char)
    (hrest : ∀ c ∈ rest.head?, isWs c = false) :
    skipWs (w ++ rest) = rest := by
  rw [skipWs, List.dropWhile_append_of_pos hw]
  cases rest with
  | nil => rfl
  | cons c rest => exact List.dropWhile_cons_of_neg (by simp [hrest c rfl])

/-- A character that a value may start with. -/
def isStart (c : Char) : Bool := ['"', '[', '{', 'n', 't', 'f'].contains c || isNumeric c

theorem ne_of_isStart {c : Char} (h : isStart c = true) :
    isWs c = false ∧ c ≠ ']' ∧ c ≠ '}' := by
  refine ⟨?_, ?_, ?_⟩
  · by_contra hws
    simp only [isWs, Bool.or_eq_true, decide_eq_true_eq, Bool.not_eq_false] at hws
    rcases hws with ((rfl | rfl) | rfl) | rfl <;> exact absurd h (by decide)
  · rintro rfl
    exact absurd h (by decide)
  · rintro rfl
    exact absurd h (by decide)

section
variable {α : Type} {content : α → List Char} {number : List Char → Option Number} {d : Nat}
  {doc : List (Symbol α)} {p : Part}

/-- Behind whitespace a part starts as a value does. -/
theorem starts_of_means (h : Means content number d doc p) (body : α → List Char) :
    ∃ w c, (p.node = .value → w = []) ∧ Blank w ∧ isStart c = true ∧
      w ++ [c] <+: textOf body doc := by
  induction h with
  | null => exact ⟨[], 'n', fun _ => rfl, blank_nil, by decide, List.prefix_append ..⟩
  | true => exact ⟨[], 't', fun _ => rfl, blank_nil, by decide, List.prefix_append ..⟩
  | false => exact ⟨[], 'f', fun _ => rfl, blank_nil, by decide, List.prefix_append ..⟩
  | @number d text n h _ =>
    cases text with
    | nil => exact absurd rfl h.ne_nil
    | cons c text =>
      have hc : isStart c = true := by simp [isStart, h.numeric c List.mem_cons_self]
      exact ⟨[], c, fun _ => rfl, blank_nil, hc, by simp⟩
  | string a => exact ⟨[], '"', fun _ => rfl, blank_nil, by decide, by simp⟩
  | emptyArray | array => exact ⟨[], '[', fun _ => rfl, blank_nil, by decide, by simp⟩
  | emptyObject | object => exact ⟨[], '{', fun _ => rfl, blank_nil, by decide, by simp⟩
  | @element d w w' doc v hw _ _ ih =>
    obtain ⟨w₁, c, hempty, -, hc, hstart⟩ := ih
    obtain rfl := hempty rfl
    refine ⟨w, c, (fun h => nomatch h), hw, hc, ?_⟩
    rw [textOf_append, textOf_append, textOf_chars, List.prefix_append_right_inj]
    exact hstart.trans (List.prefix_append ..)
  | lastElement _ ih | lastMember _ ih =>
    obtain ⟨w, c, -, hw, hc, hstart⟩ := ih
    exact ⟨w, c, (fun h => nomatch h), hw, hc, hstart⟩
  | moreElements _ _ ih _ | moreMembers _ _ ih _ =>
    obtain ⟨w, c, -, hw, hc, hstart⟩ := ih
    refine ⟨w, c, (fun h => nomatch h), hw, hc, ?_⟩
    rw [textOf_append]
    exact hstart.trans (List.prefix_append ..)
  | @member d w w' doc v hw a _ _ _ =>
    refine ⟨w, '"', (fun h => nomatch h), hw, by decide, ?_⟩
    rw [textOf_append, textOf_chars, List.prefix_append_right_inj]
    simp

/-- What may stand behind an element. -/
def Stops (rest : List Char) : Prop := ∀ c ∈ rest.head?, c = ',' ∨ c = ']' ∨ c = '}'

/-- What may stand behind a sequence. -/
def Closes (rest : List Char) : Prop := ∀ c ∈ rest.head?, c = ']' ∨ c = '}'

theorem Closes.stops {rest : List Char} (h : Closes rest) : Stops rest := fun c hc => .inr (h c hc)

theorem Stops.not_ws {rest : List Char} (h : Stops rest) : ∀ c ∈ rest.head?, isWs c = false := by
  intro c hc
  rcases h c hc with rfl | rfl | rfl <;> decide

theorem Stops.not_numeric {rest : List Char} (h : Stops rest) {w : List Char} (hw : Blank w) :
    ∀ c ∈ (w ++ rest).head?, isNumeric c = false := by
  intro c hc
  cases w with
  | nil => rcases h c hc with rfl | rfl | rfl <;> decide
  | cons d w =>
    obtain rfl : d = c := by simpa using hc
    have hother := hw.forall (p := fun c => !isNumeric c) (List.all_eq_true.mp (by decide))
    simpa using hother d List.mem_cons_self

/-- The reader of a part, given enough fuel, reads it from in front of a text. -/
def ReadBy (number : List Char → Option Number) (d : Nat) (text : List Char) : Part → Prop
  | .value v => ∀ fuel rest, 2 * text.length < fuel →
    (v.selfDelineated = false → ∀ c ∈ rest.head?, isNumeric c = false) →
      readValue number fuel d (text ++ rest) = some (v, rest)
  | .element v => ∀ fuel rest, 2 * text.length < fuel → Stops rest →
    ∃ behind, readValue number fuel d (skipWs (text ++ rest)) = some (v, behind) ∧ skipWs behind = rest
  | .elements vs => ∀ fuel rest, 2 * text.length + 1 < fuel → Closes rest →
    readElements number fuel d (text ++ rest) = some (vs, rest)
  | .member f => ∀ fuel rest, 2 * text.length < fuel → Stops rest →
    ∃ behind, readName (text ++ rest) = some (f.1, behind) ∧
      ∃ behind', readValue number fuel d (skipWs behind) = some (f.2, behind') ∧ skipWs behind' = rest
  | .members fs => ∀ fuel rest, 2 * text.length + 1 < fuel → Closes rest →
    readMembers number fuel d (text ++ rest) = some (fs, rest)

end

theorem readQuoted_literal (a : Literal) (rest : List Char) :
    readQuoted ('"' :: (a.body ++ '"' :: rest)) = some (.ofList a.content, rest) := by
  have hfuel : a.body.length < (a.body ++ '"' :: rest).length + 1 := by
    rw [List.length_append]
    omega
  have hread := readString_append a.decodes ((a.body ++ '"' :: rest).length + 1) hfuel rest
  rw [readQuoted, expect_cons, Option.bind_some, hread, Option.map_some]

theorem readName_literal {w w' : List Char} (hw : Blank w) (hw' : Blank w') (a : Literal)
    (rest : List Char) :
    readName (w ++ '"' :: (a.body ++ '"' :: (w' ++ ':' :: rest))) = some (.ofList a.content, rest) := by
  have hfront := skipWs_append hw ('"' :: (a.body ++ '"' :: (w' ++ ':' :: rest)))
    (by simp [isWs])
  have hbehind := skipWs_append hw' (':' :: rest) (by simp [isWs])
  simp [readName, hfront, readQuoted_literal, hbehind, expect_cons]

/-- What starts with a value is not an empty container. -/
theorem expect_close_of_starts {closing : Char} {w text rest : List Char} {c : Char} (hw : Blank w)
    (hc : isStart c = true) (hclosing : closing = ']' ∨ closing = '}') (h : w ++ [c] <+: text) :
    expect closing (skipWs (text ++ rest)) = none := by
  obtain ⟨more, rfl⟩ := h
  obtain ⟨hws, harray, hobject⟩ := ne_of_isStart hc
  have hskip := skipWs_append hw (c :: (more ++ rest)) (by simpa using hws)
  have htext : w ++ [c] ++ more ++ rest = w ++ c :: (more ++ rest) := by simp
  rw [htext, hskip]
  apply expect_of_ne
  rcases hclosing with rfl | rfl <;> simpa

theorem readBracketed_nil {β : Type} {w : List Char} (hw : Blank w) {closing : Char}
    (hclosing : closing = ']' ∨ closing = '}') (inside : Option (List β × List Char))
    (rest : List Char) : readBracketed closing inside (w ++ closing :: rest) = some ([], rest) := by
  have hskip := skipWs_append hw (closing :: rest) (by
    rcases hclosing with rfl | rfl <;> simp [isWs])
  simp [readBracketed, hskip, expect_cons]

section
variable {number : List Char → Option Number} {d : Nat} {doc : List (Symbol Literal)} {p : Part}

/-- A container that is not empty. -/
theorem readBracketed_cons {β : Type} (h : Means Literal.content number d doc p) {closing : Char}
    (hclosing : closing = ']' ∨ closing = '}') {inside : Option (List β × List Char)}
    {found : List β} {rest : List Char} (hinside : inside = some (found, closing :: rest)) :
    readBracketed closing inside (textOf Literal.body doc ++ closing :: rest) = some (found, rest) := by
  obtain ⟨w, c, -, hw, hc, hstart⟩ := starts_of_means h Literal.body
  simp [readBracketed, expect_close_of_starts hw hc hclosing hstart, hinside, expect_cons]

theorem Closes.no_comma {rest : List Char} (h : Closes rest) : expect ',' rest = none := by
  apply expect_of_ne
  intro hc
  rcases h ',' hc with hclose | hclose <;> exact absurd hclose (by decide)

/-- A number goes as far as its characters do. -/
theorem readValue_number {text rest : List Char} {n : Number} (h : IsNumber text)
    (hn : number text = some n) (hrest : ∀ c ∈ rest.head?, isNumeric c = false) (fuel d : Nat) :
    readValue number (fuel + 1) d (text ++ rest) = some (.num n, rest) := by
  have htake : (text ++ rest).takeWhile isNumeric = text := by
    rw [List.takeWhile_append_of_pos h.numeric]
    cases rest with
    | nil => simp
    | cons c rest => simp [hrest c rfl]
  have hdrop : (text ++ rest).dropWhile isNumeric = rest := by
    rw [List.dropWhile_append_of_pos h.numeric]
    cases rest with
    | nil => rfl
    | cons c rest => simp [hrest c rfl]
  have hread : readNumber number (text ++ rest) = some (.num n, rest) := by
    simp [readNumber, htake, hdrop, hn]
  cases text with
  | nil => exact absurd rfl h.ne_nil
  | cons c text =>
    have hc := h.numeric c List.mem_cons_self
    have hne : ∀ e : Char, isNumeric e = false → c ≠ e := by
      rintro e he rfl
      simp [he] at hc
    rw [List.cons_append] at hread ⊢
    rw [readValue, if_neg (hne '"' (by decide)), if_neg (hne '[' (by decide)),
      if_neg (hne '{' (by decide)), if_pos hc, hread]

theorem readBy_of_means (h : Means Literal.content number d doc p) :
    ReadBy number d (textOf Literal.body doc) p := by
  induction h with
  | null | true | false =>
    intro fuel rest hfuel _
    obtain ⟨fuel, rfl⟩ := Nat.exists_eq_succ_of_ne_zero (Nat.ne_zero_of_lt hfuel)
    rfl
  | @number d text n h hn =>
    intro fuel rest hfuel hnext
    obtain ⟨fuel, rfl⟩ := Nat.exists_eq_succ_of_ne_zero (Nat.ne_zero_of_lt hfuel)
    rw [textOf_chars]
    exact readValue_number h hn (hnext rfl) fuel d
  | string a =>
    intro fuel rest hfuel _
    obtain ⟨fuel, rfl⟩ := Nat.exists_eq_succ_of_ne_zero (Nat.ne_zero_of_lt hfuel)
    have htext : textOf Literal.body [.literal a] ++ rest = '"' :: (a.body ++ '"' :: rest) := by simp
    rw [htext, readValue, if_pos rfl, readQuoted_literal]
    rfl
  | @emptyArray d w hw =>
    intro fuel rest hfuel _
    obtain ⟨fuel, rfl⟩ := Nat.exists_eq_succ_of_ne_zero (Nat.ne_zero_of_lt hfuel)
    have hread := readBracketed_nil hw (.inl rfl) (readElements number fuel d (w ++ ']' :: rest)) rest
    simp [readValue, descend, hread]
  | @array d doc vs h ih =>
    intro fuel rest hfuel _
    obtain ⟨fuel, rfl⟩ := Nat.exists_eq_succ_of_ne_zero (Nat.ne_zero_of_lt hfuel)
    simp at hfuel
    have hinside := ih fuel (']' :: rest) (by omega) (by simp [Closes])
    have hread := readBracketed_cons h (.inl rfl) hinside
    simp [readValue, descend, hread]
  | @emptyObject d w hw =>
    intro fuel rest hfuel _
    obtain ⟨fuel, rfl⟩ := Nat.exists_eq_succ_of_ne_zero (Nat.ne_zero_of_lt hfuel)
    have hread := readBracketed_nil hw (.inr rfl) (readMembers number fuel d (w ++ '}' :: rest)) rest
    simp [readValue, descend, hread]
    rfl
  | @object d doc fs h ih =>
    intro fuel rest hfuel _
    obtain ⟨fuel, rfl⟩ := Nat.exists_eq_succ_of_ne_zero (Nat.ne_zero_of_lt hfuel)
    simp at hfuel
    have hinside := ih fuel ('}' :: rest) (by omega) (by simp [Closes])
    have hread := readBracketed_cons h (.inr rfl) hinside
    simp [readValue, descend, hread]
  | @element d w w' doc v hw h hw' ih =>
    intro fuel rest hfuel hrest
    simp at hfuel
    have hvalue := ih fuel (w' ++ rest) (by omega) fun _ => hrest.not_numeric hw'
    obtain ⟨w₁, c, hempty, -, hc, more, hmore⟩ := starts_of_means h Literal.body
    obtain rfl := hempty rfl
    have hskip : skipWs (w ++ (textOf Literal.body doc ++ (w' ++ rest))) =
        textOf Literal.body doc ++ (w' ++ rest) := by
      apply skipWs_append hw _
      rw [← hmore]
      simpa using (ne_of_isStart hc).1
    refine ⟨w' ++ rest, ?_, skipWs_append hw' rest hrest.not_ws⟩
    simpa [hskip] using hvalue
  | @lastElement d doc v _ ih =>
    intro fuel rest hfuel hrest
    obtain ⟨fuel, rfl⟩ := Nat.exists_eq_succ_of_ne_zero (Nat.ne_zero_of_lt hfuel)
    obtain ⟨behind, hvalue, hbehind⟩ := ih fuel rest (by omega) hrest.stops
    simp [readElements, hvalue, hbehind, readMore, hrest.no_comma]
  | @moreElements d doc doc' v vs _ _ ih ih' =>
    intro fuel rest hfuel hrest
    obtain ⟨fuel, rfl⟩ := Nat.exists_eq_succ_of_ne_zero (Nat.ne_zero_of_lt hfuel)
    simp at hfuel
    obtain ⟨behind, hvalue, hbehind⟩ := ih fuel (',' :: (textOf Literal.body doc' ++ rest))
      (by omega) (by simp [Stops])
    have hmore := ih' fuel rest (by omega) hrest
    simp [readElements, hvalue, hbehind, readMore, expect_cons, hmore]
  | @member d w w' doc v hw a hw' _ ih =>
    intro fuel rest hfuel hrest
    simp at hfuel
    obtain ⟨behind, hvalue, hbehind⟩ := ih fuel rest (by omega) hrest
    refine ⟨textOf Literal.body doc ++ rest, ?_, behind, hvalue, hbehind⟩
    have hname := readName_literal hw hw' a (textOf Literal.body doc ++ rest)
    simpa using hname
  | @lastMember d doc f _ ih =>
    intro fuel rest hfuel hrest
    obtain ⟨fuel, rfl⟩ := Nat.exists_eq_succ_of_ne_zero (Nat.ne_zero_of_lt hfuel)
    obtain ⟨behindName, hname, behind, hvalue, hbehind⟩ := ih fuel rest (by omega) hrest.stops
    simp [readMembers, hname, hvalue, hbehind, readMore, hrest.no_comma]
  | @moreMembers d doc doc' f fs _ _ ih ih' =>
    intro fuel rest hfuel hrest
    obtain ⟨fuel, rfl⟩ := Nat.exists_eq_succ_of_ne_zero (Nat.ne_zero_of_lt hfuel)
    simp at hfuel
    obtain ⟨behindName, hname, behind, hvalue, hbehind⟩ := ih fuel
      (',' :: (textOf Literal.body doc' ++ rest)) (by omega) (by simp [Stops])
    have hmore := ih' fuel rest (by omega) hrest
    simp [readMembers, hname, hvalue, hbehind, readMore, expect_cons, hmore]

end

theorem not_numeric_of_isDelimiter {c : Char} (h : isDelimiter c = true) : isNumeric c = false := by
  simp only [isDelimiter, isWs, Bool.or_eq_true, decide_eq_true_eq, List.contains_iff_mem,
    List.mem_cons, List.not_mem_nil, or_false] at h
  rcases h with (((rfl | rfl) | rfl) | rfl) | rfl | rfl | rfl | rfl | rfl | rfl | rfl <;> decide

section
variable {number : List Char → Option Number} {text : List Char} {v : Json}

/-- A text is read whole exactly if it is the document of the value. -/
theorem readText_eq_some (hnumber : ∀ {text n}, number text = some n → IsNumber text) :
    readText number text = some v ↔ Reads number text v := by
  constructor
  · intro h
    obtain ⟨⟨v', rest⟩, hfirst, hwhole⟩ := Option.bind_eq_some_iff.mp h
    obtain ⟨hrest, hv⟩ := Option.ite_none_right_eq_some.mp hwhole
    obtain rfl := Option.some.inj hv
    obtain ⟨w, hw, htext⟩ := skipWs_split text
    obtain ⟨w', hw', hbehind⟩ := skipWs_split rest
    obtain ⟨doc, hdoc, hmeans⟩ := (read_sound hnumber _).value _ _ _ _ hfirst
    refine ⟨chars w ++ (doc ++ chars w'), ?_, .element hw hmeans hw'⟩
    simp only [hrest, List.append_nil] at hbehind
    rw [htext, hdoc, hbehind]
    simp
  · rintro ⟨doc, rfl, hdoc⟩
    obtain ⟨behind, hvalue, hbehind⟩ := readBy_of_means hdoc
      (2 * (textOf Literal.body doc).length + 1) [] (by omega) (by simp [Stops])
    rw [List.append_nil] at hvalue
    simp [readText, readFirst, hvalue, hbehind]

theorem readFirst_eq_some (hnumber : ∀ {text n}, number text = some n → IsNumber text)
    {rest : List Char} (hrest : v.selfDelineated = true ∨ ∀ c ∈ rest.head?, isDelimiter c = true) :
    readFirst number text = some (v, rest) ↔ ∃ front, text = front ++ rest ∧ Starts number front v := by
  constructor
  · intro h
    obtain ⟨w, hw, htext⟩ := skipWs_split text
    obtain ⟨doc, hdoc, hmeans⟩ := (read_sound hnumber _).value _ _ _ _ h
    refine ⟨w ++ textOf Literal.body doc, ?_, w, doc, hw, rfl, hmeans⟩
    rw [htext, hdoc, List.append_assoc]
  · rintro ⟨front, rfl, w, doc, hw, rfl, hdoc⟩
    obtain ⟨w₁, c, hempty, -, hc, more, hmore⟩ := starts_of_means hdoc Literal.body
    obtain rfl := hempty rfl
    have hskip : skipWs (w ++ textOf Literal.body doc ++ rest) = textOf Literal.body doc ++ rest := by
      rw [List.append_assoc]
      apply skipWs_append hw _
      rw [← hmore]
      simpa using (ne_of_isStart hc).1
    have hnext : v.selfDelineated = false → ∀ c ∈ rest.head?, isNumeric c = false := by
      intro hkind c hc
      have hdelimiter := hrest.resolve_left (by simp [hkind]) c hc
      exact not_numeric_of_isDelimiter hdelimiter
    rw [readFirst, hskip]
    exact readBy_of_means hdoc _ rest (by simp; omega) hnext

/-- A document has one value. -/
theorem Reads.unique {v' : Json} (hnumber : ∀ {text n}, number text = some n → IsNumber text)
    (h : Reads number text v) (h' : Reads number text v') : v = v' := by
  rw [← readText_eq_some hnumber] at h h'
  exact Option.some.inj (h.symm.trans h')

end

def jsonReader (number : List Char → Option Number) : SerdeJson where
  toString := Json.text fun _ => ['0']
  fromStr text :=
    match readText number text.toList with
    | some v => .ok v
    | none => .error "expected value"
  firstValue text := (readFirst number text.toList).bind fun found =>
    if found.1.selfDelineated || found.2.head?.all isDelimiter then some found.1 else none

theorem read_jsonReader (number : List Char → Option Number) (text : String) :
    (jsonReader number).read text = readText number text.toList := by
  simp only [SerdeJson.read, jsonReader]
  cases readText number text.toList <;> rfl

theorem jsonReader_readsDocuments {number : List Char → Option Number}
    (hnumber : ∀ {text n}, number text = some n → IsNumber text) :
    (jsonReader number).ReadsDocuments number where
  isNumber := hnumber
  read_iff := by
    intro text v
    rw [read_jsonReader, readText_eq_some hnumber]
  first_iff := by
    intro text v
    have hdelimited : ∀ (v : Json) (rest : List Char),
        (v.selfDelineated || rest.head?.all isDelimiter) = true ↔
          (v.selfDelineated = true ∨ ∀ c ∈ rest.head?, isDelimiter c = true) := by
      intro v rest
      simp [Option.all_eq_true]
    constructor
    · intro h
      obtain ⟨⟨v', rest⟩, hfirst, hkept⟩ := Option.bind_eq_some_iff.mp h
      obtain ⟨hend, hv⟩ := Option.ite_none_right_eq_some.mp hkept
      obtain rfl := Option.some.inj hv
      rw [hdelimited] at hend
      obtain ⟨front, htext, hstarts⟩ := (readFirst_eq_some hnumber hend).mp hfirst
      exact ⟨front, rest, htext, hstarts, hend⟩
    · rintro ⟨front, rest, htext, hstarts, hend⟩
      have hfirst := (readFirst_eq_some hnumber hend).mpr ⟨front, htext, hstarts⟩
      have hkept := (hdelimited v rest).mpr hend
      simp only [jsonReader, hfirst, Option.bind_some, hkept, if_true]

/-- A natural number without leading zeros. -/
def readNatural (text : List Char) : Option Number :=
  if text = ['0'] ∨ text ≠ [] ∧ text.all Char.isDigit ∧ text.head? ≠ some '0' then
    some (.posInt (UInt64.ofNat (Nat.ofDigitChars 10 text 0)))
  else none

theorem natural_of_readNatural {text : List Char} {n : Number} (h : readNatural text = some n) :
    text = ['0'] ∨ IsDigits text ∧ text.head? ≠ some '0' := by
  obtain ⟨hdigits, -⟩ := Option.ite_none_right_eq_some.mp h
  rcases hdigits with hzero | ⟨hne, hall, hhead⟩
  · exact .inl hzero
  · exact .inr ⟨⟨hne, List.all_eq_true.mp hall⟩, hhead⟩

theorem isNumber_of_readNatural {text : List Char} {n : Number} (h : readNatural text = some n) :
    IsNumber text :=
  ⟨[], text, [], [], by simp, by simp, natural_of_readNatural h, by simp, by simp⟩

example : readText readNatural "\x7b\"a\":[1,\"\\u00e9\"]\x7d".toList =
    some (.obj [("a", .arr [.num (.posInt 1), .str "é"])]) := by decide +kernel

end ReactRuntime.Serde
