import ReactRuntime.Library.JsonStrings
import ReactRuntime.Library.JsonSymbols
import ReactRuntime.Serde.Reader

/-!
# What a text stands for

The documents of serde_json as symbols, with their values. How a number is read is a parameter, and
so is what a literal stands for. Containers nest down to a limit.
-/
namespace ReactRuntime.Serde
open Library JsonText

/-- A part of a document with its value. -/
inductive Part where
  | value (v : Json)
  | element (v : Json)
  | elements (vs : List Json)
  | member (f : String × Json)
  | members (fs : Fields)

@[simp] def Part.node : Part → Node
  | .value _ => .value
  | .element _ => .element
  | .elements _ => .elements
  | .member _ => .member
  | .members _ => .members

/-- A part with at most `d` containers inside each other. -/
inductive Means {α : Type} (content : α → List Char) (number : List Char → Option Number) :
    (d : Nat) → List (Symbol α) → Part → Prop where
  | null {d : Nat} : Means content number d (chars ['n', 'u', 'l', 'l']) (.value .null)
  | true {d : Nat} : Means content number d (chars ['t', 'r', 'u', 'e']) (.value (.bool true))
  | false {d : Nat} : Means content number d (chars ['f', 'a', 'l', 's', 'e']) (.value (.bool false))
  | number {d : Nat} {text : List Char} {n : Number} (h : IsNumber text) (hn : number text = some n) :
      Means content number d (chars text) (.value (.num n))
  | string {d : Nat} (a : α) :
      Means content number d [.literal a] (.value (.str (.ofList (content a))))
  | emptyArray {d : Nat} {w : List Char} (hw : Blank w) :
      Means content number (d + 1) (.char '[' :: (chars w ++ [.char ']'])) (.value (.arr []))
  | array {d : Nat} {doc : List (Symbol α)} {vs : List Json}
      (h : Means content number d doc (.elements vs)) :
      Means content number (d + 1) (.char '[' :: (doc ++ [.char ']'])) (.value (.arr vs))
  | emptyObject {d : Nat} {w : List Char} (hw : Blank w) :
      Means content number (d + 1) (.char '{' :: (chars w ++ [.char '}'])) (.value (.obj []))
  | object {d : Nat} {doc : List (Symbol α)} {fs : Fields}
      (h : Means content number d doc (.members fs)) :
      Means content number (d + 1) (.char '{' :: (doc ++ [.char '}'])) (.value (.object fs))
  | element {d : Nat} {w w' : List Char} {doc : List (Symbol α)} {v : Json} (hw : Blank w)
      (h : Means content number d doc (.value v)) (hw' : Blank w') :
      Means content number d (chars w ++ (doc ++ chars w')) (.element v)
  | lastElement {d : Nat} {doc : List (Symbol α)} {v : Json}
      (h : Means content number d doc (.element v)) : Means content number d doc (.elements [v])
  | moreElements {d : Nat} {doc doc' : List (Symbol α)} {v : Json} {vs : List Json}
      (h : Means content number d doc (.element v))
      (h' : Means content number d doc' (.elements vs)) :
      Means content number d (doc ++ .char ',' :: doc') (.elements (v :: vs))
  | member {d : Nat} {w w' : List Char} {doc : List (Symbol α)} {v : Json} (hw : Blank w) (a : α)
      (hw' : Blank w') (h : Means content number d doc (.element v)) :
      Means content number d (chars w ++ .literal a :: (chars w' ++ .char ':' :: doc))
        (.member (.ofList (content a), v))
  | lastMember {d : Nat} {doc : List (Symbol α)} {f : String × Json}
      (h : Means content number d doc (.member f)) : Means content number d doc (.members [f])
  | moreMembers {d : Nat} {doc doc' : List (Symbol α)} {f : String × Json} {fs : Fields}
      (h : Means content number d doc (.member f))
      (h' : Means content number d doc' (.members fs)) :
      Means content number d (doc ++ .char ',' :: doc') (.members (f :: fs))

section
variable {α : Type} {content : α → List Char} {number : List Char → Option Number} {d : Nat}
  {doc : List (Symbol α)} {p : Part}

/-- The grammar holds of such a part if its literals are strings. -/
theorem derives_of_means (h : Means content number d doc p) {body : α → List Char}
    (hbody : ∀ a, StringBody (body a)) : Derives p.node (textOf body doc) := by
  induction h with
  | null => exact .null
  | true => exact .true
  | false => exact .false
  | number h _ => simpa using Derives.number h
  | string a => simpa using Derives.string ⟨_, hbody a, rfl⟩
  | emptyArray hw => simpa using Derives.emptyArray hw
  | array _ ih => simpa using Derives.array ih
  | emptyObject hw => simpa using Derives.emptyObject hw
  | object _ ih => simpa using Derives.object ih
  | element hw _ hw' ih => simpa using Derives.element hw ih hw'
  | lastElement _ ih => exact .lastElement ih
  | moreElements _ _ ih ih' => simpa using Derives.moreElements ih ih'
  | member hw a hw' _ ih => simpa using Derives.member hw ⟨_, hbody a, rfl⟩ hw' ih
  | lastMember _ ih => exact .lastMember ih
  | moreMembers _ _ ih ih' => simpa using Derives.moreMembers ih ih'

/-- A property that a document of some depth has if its pieces have it. -/
structure Piecewise (P : Nat → List (Symbol α) → Prop) : Prop where
  append : ∀ {d doc doc'}, P d doc → P d doc' → P d (doc ++ doc')
  plain : ∀ {d text}, (∀ c ∈ text, isNeutral c = true ∧ isOutside c = true) → P d (chars text)
  literal : ∀ {d} a, P d [.literal a]
  bracketed : ∀ {d doc opening closing}, Brackets opening closing → P d doc →
    P (d + 1) (.char opening :: (doc ++ [.char closing]))

theorem Piecewise.of_means {P : Nat → List (Symbol α) → Prop} (hP : Piecewise P)
    (h : Means content number d doc p) : P d doc := by
  have hblank : ∀ {d w}, Blank w → P d (chars w) :=
    fun hw => hP.plain fun c hc => ⟨hw.neutral c hc, hw.outside c hc⟩
  have hchar : ∀ {d c doc}, isNeutral c = true → isOutside c = true → P d doc →
      P d (.char c :: doc) := by
    intro d c doc hneutral houtside hdoc
    have hsingle : P d (chars [c]) := hP.plain (by simp [hneutral, houtside])
    exact hP.append hsingle hdoc
  induction h with
  | null | true | false => exact hP.plain (by simp [isNeutral, isOutside])
  | number h _ => exact hP.plain fun c hc => ⟨h.neutral c hc, h.outside c hc⟩
  | string a => exact hP.literal a
  | emptyArray hw => exact hP.bracketed (.inr ⟨rfl, rfl⟩) (hblank hw)
  | array _ ih => exact hP.bracketed (.inr ⟨rfl, rfl⟩) ih
  | emptyObject hw => exact hP.bracketed (.inl ⟨rfl, rfl⟩) (hblank hw)
  | object _ ih => exact hP.bracketed (.inl ⟨rfl, rfl⟩) ih
  | element hw _ hw' ih => exact hP.append (hblank hw) (hP.append ih (hblank hw'))
  | lastElement _ ih => exact ih
  | moreElements _ _ ih ih' => exact hP.append ih (hchar (by decide) (by decide) ih')
  | member hw a hw' _ ih =>
    exact hP.append (hblank hw) (hP.append (hP.literal a)
      (hP.append (hblank hw') (hchar (by decide) (by decide) ih)))
  | lastMember _ ih => exact ih
  | moreMembers _ _ ih ih' => exact hP.append ih (hchar (by decide) (by decide) ih')

theorem piecewise_lexed {body : α → List Char} (hbody : ∀ a, Loose (body a)) :
    Piecewise fun _ => Lexed body where
  append h h' := lexed_append.mpr ⟨h, h'⟩
  plain h := lexed_chars fun c hc => (h c hc).2
  literal a := lexed_cons.mpr ⟨hbody a, by simp [Lexed]⟩
  bracketed hbrackets h := by
    obtain ⟨hopen, hclose⟩ := hbrackets.outside
    exact lexed_cons.mpr ⟨hopen, lexed_append.mpr ⟨h, lexed_cons.mpr ⟨hclose, by simp [Lexed]⟩⟩⟩

theorem piecewise_nests :
    Piecewise fun d (doc : List (Symbol α)) => ∃ h ≤ d, Nests h doc where
  append := by
    rintro d doc doc' ⟨h, hd, hdoc⟩ ⟨h', hd', hdoc'⟩
    exact ⟨max h h', max_le hd hd', hdoc.append hdoc'⟩
  plain h := ⟨0, Nat.zero_le _, nests_neutral fun c hc => (h c hc).1⟩
  literal a := ⟨0, Nat.zero_le _, nests_literal a⟩
  bracketed := by
    rintro d doc opening closing hbrackets ⟨h, hd, hdoc⟩
    exact ⟨h + 1, Nat.succ_le_succ hd, hdoc.bracketed hbrackets⟩

/-- Other contents of the literals give a document of the same shape. -/
theorem exists_means (h : Means content number d doc p) (content' : α → List Char) :
    ∃ p', Means content' number d doc p' ∧ p'.node = p.node := by
  induction h with
  | null => exact ⟨_, .null, rfl⟩
  | true => exact ⟨_, .true, rfl⟩
  | false => exact ⟨_, .false, rfl⟩
  | number h hn => exact ⟨_, .number h hn, rfl⟩
  | string a => exact ⟨_, .string a, rfl⟩
  | emptyArray hw => exact ⟨_, .emptyArray hw, rfl⟩
  | array _ ih =>
    obtain ⟨p', hdoc, hp⟩ := ih
    cases p' <;> simp at hp
    exact ⟨_, .array hdoc, rfl⟩
  | emptyObject hw => exact ⟨_, .emptyObject hw, rfl⟩
  | object _ ih =>
    obtain ⟨p', hdoc, hp⟩ := ih
    cases p' <;> simp at hp
    exact ⟨_, .object hdoc, rfl⟩
  | element hw _ hw' ih =>
    obtain ⟨p', hdoc, hp⟩ := ih
    cases p' <;> simp at hp
    exact ⟨_, .element hw hdoc hw', rfl⟩
  | lastElement _ ih =>
    obtain ⟨p', hdoc, hp⟩ := ih
    cases p' <;> simp at hp
    exact ⟨_, .lastElement hdoc, rfl⟩
  | moreElements _ _ ih ih' =>
    obtain ⟨p', hdoc, hp⟩ := ih
    obtain ⟨q', hmore, hq⟩ := ih'
    cases p' <;> simp at hp
    cases q' <;> simp at hq
    exact ⟨_, .moreElements hdoc hmore, rfl⟩
  | member hw a hw' _ ih =>
    obtain ⟨p', hdoc, hp⟩ := ih
    cases p' <;> simp at hp
    exact ⟨_, .member hw a hw' hdoc, rfl⟩
  | lastMember _ ih =>
    obtain ⟨p', hdoc, hp⟩ := ih
    cases p' <;> simp at hp
    exact ⟨_, .lastMember hdoc, rfl⟩
  | moreMembers _ _ ih ih' =>
    obtain ⟨p', hdoc, hp⟩ := ih
    obtain ⟨q', hmore, hq⟩ := ih'
    cases p' <;> simp at hp
    cases q' <;> simp at hq
    exact ⟨_, .moreMembers hdoc hmore, rfl⟩

/-- The document of a single string. -/
theorem means_literal {a : α} {v : Json} (h : Means content number d [.literal a] (.element v)) :
    v = .str (.ofList (content a)) := by
  have hvalue : ∀ {doc : List (Symbol α)} {w : List Char}, Means content number d doc (.value v) →
      doc ++ chars w = [.literal a] → v = .str (.ofList (content a)) := by
    intro doc w hdoc hsingle
    cases hdoc with
    | string b =>
      obtain ⟨hb, -⟩ := List.cons.inj hsingle
      rw [Symbol.literal.inj hb]
    | @number _ text n hnumber _ =>
      cases text with
      | nil => exact absurd rfl hnumber.ne_nil
      | cons c text => simp [chars] at hsingle
    | _ => simp [chars] at hsingle
  generalize hsingle : [Symbol.literal a] = doc at h
  cases h with
  | @element d w w' doc v hw h hw' =>
    cases w with
    | nil => exact hvalue h hsingle.symm
    | cons c w => simp [chars] at hsingle

theorem means_map {β : Type} {content : β → List Char} (f : α → β)
    (h : Means (content ∘ f) number d doc p) : Means content number d (doc.map (Symbol.map f)) p := by
  induction h with
  | null => exact .null
  | true => exact .true
  | false => exact .false
  | number h hn =>
    rw [map_chars]
    exact .number h hn
  | string a => exact .string (f a)
  | emptyArray hw => simpa [map_chars, Symbol.map] using Means.emptyArray hw
  | array _ ih => simpa [Symbol.map] using Means.array ih
  | emptyObject hw => simpa [map_chars, Symbol.map] using Means.emptyObject hw
  | object _ ih => simpa [Symbol.map] using Means.object ih
  | element hw _ hw' ih => simpa [map_chars] using Means.element hw ih hw'
  | lastElement _ ih => exact .lastElement ih
  | moreElements _ _ ih ih' => simpa [Symbol.map] using Means.moreElements ih ih'
  | member hw a hw' _ ih => simpa [map_chars, Symbol.map] using Means.member hw (f a) hw' ih
  | lastMember _ ih => exact .lastMember ih
  | moreMembers _ _ ih ih' => simpa [Symbol.map] using Means.moreMembers ih ih'

/-- What a document means is told by what its literals stand for. -/
theorem means_of_map {β : Type} {content : β → List Char} {f : α → β}
    (h : Means content number d (doc.map (Symbol.map f)) p) : Means (content ∘ f) number d doc p := by
  generalize hmap : doc.map (Symbol.map f) = mapped at h
  induction h generalizing doc with
  | null =>
    rw [map_eq_chars hmap]
    exact .null
  | true =>
    rw [map_eq_chars hmap]
    exact .true
  | false =>
    rw [map_eq_chars hmap]
    exact .false
  | number h hn =>
    rw [map_eq_chars hmap]
    exact .number h hn
  | string b =>
    obtain ⟨s, rfl, hs⟩ := List.map_eq_singleton_iff.mp hmap
    obtain ⟨a, rfl, rfl⟩ := Symbol.map_eq_literal hs
    exact .string a
  | emptyArray hw =>
    obtain ⟨inner, rfl, hinner⟩ := map_eq_bracketed hmap
    rw [map_eq_chars hinner]
    exact .emptyArray hw
  | array _ ih =>
    obtain ⟨inner, rfl, hinner⟩ := map_eq_bracketed hmap
    exact .array (ih hinner)
  | emptyObject hw =>
    obtain ⟨inner, rfl, hinner⟩ := map_eq_bracketed hmap
    rw [map_eq_chars hinner]
    exact .emptyObject hw
  | object _ ih =>
    obtain ⟨inner, rfl, hinner⟩ := map_eq_bracketed hmap
    exact .object (ih hinner)
  | element hw _ hw' ih =>
    obtain ⟨front, rest, rfl, hfront, hrest⟩ := List.map_eq_append_iff.mp hmap
    obtain ⟨value, back, rfl, hvalue, hback⟩ := List.map_eq_append_iff.mp hrest
    rw [map_eq_chars hfront, map_eq_chars hback]
    exact .element hw (ih hvalue) hw'
  | lastElement _ ih => exact .lastElement (ih hmap)
  | moreElements _ _ ih ih' =>
    obtain ⟨first, rest, rfl, hfirst, hrest⟩ := List.map_eq_append_iff.mp hmap
    obtain ⟨more, rfl, hmore⟩ := map_eq_char_cons hrest
    exact .moreElements (ih hfirst) (ih' hmore)
  | member hw b hw' _ ih =>
    obtain ⟨front, rest, rfl, hfront, hrest⟩ := List.map_eq_append_iff.mp hmap
    obtain ⟨s, more, rfl, hs, hmore⟩ := List.map_eq_cons_iff.mp hrest
    obtain ⟨a, rfl, rfl⟩ := Symbol.map_eq_literal hs
    obtain ⟨blank, colon, rfl, hblank, hcolon⟩ := List.map_eq_append_iff.mp hmore
    obtain ⟨value, rfl, hvalue⟩ := map_eq_char_cons hcolon
    rw [map_eq_chars hfront, map_eq_chars hblank]
    exact .member hw a hw' (ih hvalue)
  | lastMember _ ih => exact .lastMember (ih hmap)
  | moreMembers _ _ ih ih' =>
    obtain ⟨first, rest, rfl, hfirst, hrest⟩ := List.map_eq_append_iff.mp hmap
    obtain ⟨more, rfl, hmore⟩ := map_eq_char_cons hrest
    exact .moreMembers (ih hfirst) (ih' hmore)

end

/-- The text between the quotes of a string, with its content. -/
structure Literal where
  body : List Char
  content : List Char
  decodes : Decodes body content

/-- `serde_json` refuses the container that would be the 128th inside another. -/
def maxDepth : Nat := 127

/-- A value whose end is told without what stands behind it. -/
def Json.selfDelineated : Json → Bool
  | .str _ | .arr _ | .obj _ => true
  | .null | .bool _ | .num _ => false

/-- What may stand behind a value of another kind. -/
def isDelimiter (c : Char) : Bool := isWs c || ['"', '[', ']', '{', '}', ',', ':'].contains c

/-- A text is the document of a value. -/
def Reads (number : List Char → Option Number) (text : List Char) (v : Json) : Prop :=
  ∃ doc : List (Symbol Literal), text = textOf Literal.body doc ∧
    Means Literal.content number maxDepth doc (.element v)

/-- The document of a value without whitespace behind it. -/
def Starts (number : List Char → Option Number) (text : List Char) (v : Json) : Prop :=
  ∃ w, ∃ doc : List (Symbol Literal), Blank w ∧ text = w ++ textOf Literal.body doc ∧
    Means Literal.content number maxDepth doc (.value v)

theorem Reads.isText {number : List Char → Option Number} {text : List Char} {v : Json}
    (h : Reads number text v) : IsText text := by
  obtain ⟨doc, rfl, hdoc⟩ := h
  exact derives_of_means hdoc fun a => a.decodes.stringBody

theorem Reads.run {number : List Char → Option Number} {text : List Char} {v : Json}
    (h : Reads number text v) : Mode.outside.run text = .outside := by
  obtain ⟨doc, rfl, hdoc⟩ := h
  exact Lexed.run ((piecewise_lexed fun a => a.decodes.stringBody.loose).of_means hdoc)

/-- What serde_json documents of its reading: the texts that it reads whole, and the values that it
reads at the start of a text. -/
structure SerdeJson.ReadsDocuments (S : SerdeJson) (number : List Char → Option Number) : Prop where
  isNumber : ∀ {text n}, number text = some n → IsNumber text
  read_iff : ∀ {text v}, S.read text = some v ↔ Reads number text.toList v
  first_iff : ∀ {text v}, S.firstValue text = some v ↔ ∃ front rest, text.toList = front ++ rest ∧
    Starts number front v ∧ (v.selfDelineated = true ∨ ∀ c ∈ rest.head?, isDelimiter c = true)

/-- A text that is read whole is read as its first value. -/
theorem SerdeJson.ReadsDocuments.whole_first {S : SerdeJson} {number : List Char → Option Number}
    (hS : S.ReadsDocuments number) {text : String} {v : Json} (h : S.read text = some v) :
    S.firstValue text = some v := by
  obtain ⟨doc, htext, hdoc⟩ := hS.read_iff.mp h
  generalize hp : Part.element v = p at hdoc
  cases hdoc with
  | @element _ w w' doc u hw hdoc hw' =>
    obtain rfl := Part.element.inj hp
    simp only [textOf_append, textOf_chars, ← List.append_assoc] at htext
    refine hS.first_iff.mpr ⟨_, w', htext, ⟨w, doc, hw, rfl, hdoc⟩, .inr fun c hc => ?_⟩
    simp [isDelimiter, hw' c (List.mem_of_head? hc)]
  | _ => exact nomatch hp

theorem Starts.isText {number : List Char → Option Number} {text : List Char} {v : Json}
    (h : Starts number text v) : IsText text := by
  obtain ⟨w, doc, hw, rfl, hdoc⟩ := h
  have hvalue := derives_of_means hdoc fun a => a.decodes.stringBody
  have helement := Derives.element hw hvalue blank_nil
  rwa [List.append_nil] at helement

end ReactRuntime.Serde
