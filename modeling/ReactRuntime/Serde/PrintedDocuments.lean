import ReactRuntime.Serde.Printer
import ReactRuntime.Serde.Rereading
import ReactRuntime.Serde.TextReader

/-!
# Printed documents are read back

The compact text of a document is one of the texts that stand for it: the strings decode to what was
escaped, and the keys of an object come back in their order. How numbers are printed and read is a
parameter, and a float need not be read as the one that was printed.
-/
namespace ReactRuntime.Serde
open Library JsonText

/-- The two digits of a control character. -/
theorem codeUnit_control : ∀ n < 32, isHex (Nat.digitChar (n / 16)) = true ∧
    isHex (Nat.digitChar (n % 16)) = true ∧
    codeUnit '0' '0' (Nat.digitChar (n / 16)) (Nat.digitChar (n % 16)) = n ∧
    isSurrogate n = false := by decide

theorem isUnit_escapedChar (c : Char) : IsUnit (escapedChar c) c := by
  unfold escapedChar
  split_ifs with hquote hbackslash hb hf hn hr ht hcontrol
  · subst hquote
    exact .escape (c := '"') (by decide)
  · subst hbackslash
    exact .escape (c := '\\') (by decide)
  · have hc : c = unescape 'b' := Char.toNat_inj.mp hb
    subst hc
    exact .escape (by decide)
  · have hc : c = unescape 'f' := Char.toNat_inj.mp hf
    subst hc
    exact .escape (by decide)
  · subst hn
    exact .escape (c := 'n') (by decide)
  · subst hr
    exact .escape (c := 'r') (by decide)
  · subst ht
    exact .escape (c := 't') (by decide)
  · obtain ⟨hhigh, hlow, hunit, hplain⟩ := codeUnit_control c.toNat hcontrol
    have hdigits : IsCodeUnit ['0', '0', Nat.digitChar (c.toNat / 16), Nat.digitChar (c.toNat % 16)]
        c.toNat := by
      have hzero : isHex '0' = true := by decide
      have hmk := IsCodeUnit.mk hzero hzero hhigh hlow
      rwa [hunit] at hmk
    have hread := IsUnit.unicode hdigits hplain
    rwa [Char.ofNat_toNat] at hread
  · exact .plain hquote hbackslash (Nat.not_lt.mp hcontrol)

theorem decodes_escaped (content : List Char) : Decodes (content.flatMap escapedChar) content := by
  induction content with
  | nil => exact .nil
  | cons c content ih => exact .cons (isUnit_escapedChar c) ih

/-- A string as it is printed. -/
def printedLiteral (s : String) : Literal where
  body := s.toList.flatMap escapedChar
  content := s.toList
  decodes := decodes_escaped s.toList

/-- A natural number is read as it is printed. -/
def ReadsNaturals (number : List Char → Option Number) : Prop :=
  ∀ n : UInt64, number (Nat.toDigits 10 n.toNat) = some (.posInt n)

theorem head_toDigits {n : Nat} (hn : 0 < n) : (Nat.toDigits 10 n).head? ≠ some '0' := by
  have hdigit : ∀ m < 10, 0 < m → [Nat.digitChar m].head? ≠ some '0' := by decide
  induction n using Nat.strongRecOn with
  | ind n ih =>
    by_cases hsmall : n < 10
    · rw [Nat.toDigits_of_lt_base hsmall]
      exact hdigit n hsmall hn
    · rw [Nat.toDigits_of_base_le (by decide) (Nat.not_lt.mp hsmall),
        List.head?_append_of_ne_nil _ Nat.toDigits_ne_nil]
      exact ih (n / 10) (by omega) (by omega)

theorem readNatural_readsNaturals : ReadsNaturals readNatural := by
  intro n
  have hdigits : (Nat.toDigits 10 n.toNat).all Char.isDigit = true :=
    List.all_eq_true.mpr fun c hc => Nat.isDigit_of_mem_toDigits (by decide) (by decide) hc
  have hnatural : Nat.toDigits 10 n.toNat = ['0'] ∨ Nat.toDigits 10 n.toNat ≠ [] ∧
      (Nat.toDigits 10 n.toNat).all Char.isDigit ∧ (Nat.toDigits 10 n.toNat).head? ≠ some '0' := by
    rcases Nat.eq_zero_or_pos n.toNat with hzero | hpos
    · exact .inl (hzero ▸ Nat.toDigits_zero 10)
    · exact .inr ⟨Nat.toDigits_ne_nil, hdigits, head_toDigits hpos⟩
  rw [readNatural, if_pos hnatural, Nat.ofDigitChars_ten_toDigits, UInt64.ofNat_toNat]

section
variable (float : UInt64 → List Char)

mutual
/-- The compact text of a document, with its strings as literals. -/
def Json.symbols : Json → List (Symbol Literal)
  | .str s => [.literal (printedLiteral s)]
  | .arr xs => .char '[' :: (Json.symbolsList xs ++ [.char ']'])
  | .obj fs => .char '{' :: (Json.symbolsFields fs ++ [.char '}'])
  | .num n => JsonText.chars (n.chars float)
  | .null => JsonText.chars ['n', 'u', 'l', 'l']
  | .bool true => JsonText.chars ['t', 'r', 'u', 'e']
  | .bool false => JsonText.chars ['f', 'a', 'l', 's', 'e']

def Json.symbolsList : List Json → List (Symbol Literal)
  | [] => []
  | x :: xs => Json.symbols x ++ (if xs.isEmpty then [] else .char ',' :: Json.symbolsList xs)

def Json.symbolsFields : Fields → List (Symbol Literal)
  | [] => []
  | (key, v) :: fs => .literal (printedLiteral key) :: .char ':' ::
    (Json.symbols v ++ (if fs.isEmpty then [] else .char ',' :: Json.symbolsFields fs))
end

mutual
theorem textOf_symbols (v : Json) : textOf Literal.body (v.symbols float) = v.chars float := by
  cases v with
  | null => rfl
  | bool b => cases b <;> rfl
  | num n => rw [Json.symbols, textOf_chars, Json.chars]
  | str s => simp [Json.symbols, Json.chars, quoted, printedLiteral]
  | arr xs => simp [Json.symbols, Json.chars, textOf_symbolsList xs]
  | obj fs => simp [Json.symbols, Json.chars, textOf_symbolsFields fs]

theorem textOf_symbolsList (xs : List Json) :
    textOf Literal.body (Json.symbolsList float xs) = Json.charsList float xs := by
  cases xs with
  | nil => rfl
  | cons x xs =>
    rw [Json.symbolsList, Json.charsList, textOf_append, textOf_symbols x]
    split_ifs
    · rfl
    · rw [textOf_char, textOf_symbolsList xs]

theorem textOf_symbolsFields (fs : Fields) :
    textOf Literal.body (Json.symbolsFields float fs) = Json.charsFields float fs := by
  cases fs with
  | nil => rfl
  | cons f fs =>
    obtain ⟨key, v⟩ := f
    rw [Json.symbolsFields, Json.charsFields, textOf_literal, textOf_char, textOf_append,
      textOf_symbols v]
    split_ifs
    · simp [quoted, printedLiteral]
    · simp [quoted, printedLiteral, textOf_symbolsFields fs]
end

variable (number : List Char → Option Number)

/-- A document with at most `d` containers inside each other, ordered objects, and numbers that are
read as they are printed. -/
inductive Printable : (d : Nat) → Json → Prop where
  | null {d : Nat} : Printable d .null
  | bool {d : Nat} (b : Bool) : Printable d (.bool b)
  | num {d : Nat} {n : Number} (h : IsNumber (n.chars float)) (hn : number (n.chars float) = some n) :
      Printable d (.num n)
  | str {d : Nat} (s : String) : Printable d (.str s)
  | arr {d : Nat} {xs : List Json} (h : ∀ x ∈ xs, Printable d x) : Printable (d + 1) (.arr xs)
  | obj {d : Nat} {fs : Fields} (hsorted : fs.Pairwise fun a b => a.1 < b.1)
      (h : ∀ f ∈ fs, Printable d f.2) : Printable (d + 1) (.obj fs)

/-- Numbers are read by their digits: integers exactly, and each float as some float. -/
structure ReadsNumbers (readFloat : UInt64 → UInt64) : Prop where
  isNumber : ∀ {text n}, number text = some n → IsNumber text
  natural : ReadsNaturals number
  negative : ∀ n : Int64, n < 0 → number ('-' :: Nat.toDigits 10 n.toInt.natAbs) = some (.negInt n)
  float : ∀ bits, number (float bits) = some (.float (readFloat bits))

end

section
variable {float : UInt64 → List Char} {number : List Char → Option Number} {d : Nat}

theorem Means.bare {doc : List (Symbol Literal)} {v : Json}
    (h : Means Literal.content number d doc (.value v)) :
    Means Literal.content number d doc (.element v) := by
  simpa [JsonText.chars] using Means.element blank_nil h blank_nil

theorem means_str (s : String) :
    Means Literal.content number d ((Json.str s).symbols float) (.value (.str s)) := by
  have hliteral : Means Literal.content number d [.literal (printedLiteral s)]
      (.value (.str (.ofList s.toList))) := .string (printedLiteral s)
  rwa [String.ofList_toList] at hliteral

section
variable {r : Json → Json}

/-- Elements that are read as `r` has them. -/
theorem means_symbolsList {xs : List Json} (hne : xs ≠ [])
    (h : ∀ x ∈ xs, Means Literal.content number d (x.symbols float) (.value (r x))) :
    Means Literal.content number d (Json.symbolsList float xs) (.elements (xs.map r)) := by
  induction xs with
  | nil => exact absurd rfl hne
  | cons x xs ih =>
    have hx := (h x List.mem_cons_self).bare
    rw [Json.symbolsList, List.map_cons]
    by_cases hxs : xs = []
    · rw [hxs]
      simpa using Means.lastElement hx
    · rw [if_neg (by simpa using hxs)]
      exact .moreElements hx (ih hxs fun y hy => h y (List.mem_cons_of_mem x hy))

theorem means_symbolsFields {fs : Fields} (hne : fs ≠ [])
    (h : ∀ f ∈ fs, Means Literal.content number d (f.2.symbols float) (.value (r f.2))) :
    Means Literal.content number d (Json.symbolsFields float fs)
      (.members (fs.map fun f => (f.1, r f.2))) := by
  induction fs with
  | nil => exact absurd rfl hne
  | cons f fs ih =>
    obtain ⟨key, v⟩ := f
    have hmember : Means Literal.content number d
        (.literal (printedLiteral key) :: .char ':' :: v.symbols float) (.member (key, r v)) := by
      have hbare := Means.member blank_nil (printedLiteral key) blank_nil
        (h (key, v) List.mem_cons_self).bare
      simpa [JsonText.chars, printedLiteral] using hbare
    rw [Json.symbolsFields, List.map_cons]
    by_cases hfs : fs = []
    · rw [hfs]
      simpa using Means.lastMember hmember
    · rw [if_neg (by simpa using hfs)]
      exact .moreMembers hmember (ih hfs fun g hg => h g (List.mem_cons_of_mem _ hg))

theorem means_arr {xs : List Json}
    (h : ∀ x ∈ xs, Means Literal.content number d (x.symbols float) (.value (r x))) :
    Means Literal.content number (d + 1) ((Json.arr xs).symbols float) (.value (.arr (xs.map r))) := by
  rw [Json.symbols]
  by_cases hxs : xs = []
  · rw [hxs]
    exact .emptyArray blank_nil
  · exact .array (means_symbolsList hxs h)

theorem means_obj {fs : Fields}
    (h : ∀ f ∈ fs, Means Literal.content number d (f.2.symbols float) (.value (r f.2))) :
    Means Literal.content number (d + 1) ((Json.obj fs).symbols float)
      (.value (.object (fs.map fun f => (f.1, r f.2)))) := by
  rw [Json.symbols]
  by_cases hfs : fs = []
  · rw [hfs]
    exact .emptyObject blank_nil
  · exact .object (means_symbolsFields hfs h)

end

theorem Printable.means {v : Json} (h : Printable float number d v) :
    Means Literal.content number d (v.symbols float) (.value v) := by
  induction h with
  | null => exact .null
  | bool b =>
    cases b with
    | true => exact .true
    | false => exact .false
  | num h hn => exact .number h hn
  | str s => exact means_str s
  | @arr d xs h ih => simpa using means_arr (r := id) ih
  | @obj d fs hsorted h ih => simpa [Json.object_of_sorted hsorted] using means_obj (r := id) ih

/-- The fields of a record are printed in its own order; they are read as an object. -/
theorem reads_fields {fs : Fields} (h : ∀ f ∈ fs, Printable float number 126 f.2) :
    Reads number ((Json.obj fs).text float).toList (.object fs) := by
  have hobject := means_obj (r := id) fun f hf => (h f hf).means
  simp only [id_eq, List.map_id'] at hobject
  exact ⟨_, by rw [Json.text, String.toList_ofList, textOf_symbols], hobject.bare⟩

end

section
variable {float : UInt64 → List Char} {number : List Char → Option Number}
  {readFloat : UInt64 → UInt64}

theorem ReadsNumbers.read (hnumber : ReadsNumbers float number readFloat) (n : Number) :
    number (n.chars float) = some (n.readBack readFloat) := by
  cases n with
  | posInt n => exact hnumber.natural n
  | float bits => exact hnumber.float bits
  | negInt n =>
    by_cases hneg : n < 0
    · simpa only [Number.chars, Number.readBack, if_pos hneg, List.singleton_append] using
        hnumber.negative n hneg
    · have hsame : n.toInt.natAbs = n.toUInt64.toNat := by
        have hnonneg := Int64.not_lt.mp hneg
        rw [Int64.toNat_toUInt64_of_le hnonneg, Int64.toNatClampNeg]
        have hint := Int64.le_iff_toInt_le.mp hnonneg
        rw [Int64.toInt_zero] at hint
        omega
      simpa only [Number.chars, Number.readBack, if_neg hneg, hsame, List.nil_append] using
        hnumber.natural n.toUInt64

/-- A document that is not nested too deep is read back. -/
theorem means_readBack (hnumber : ReadsNumbers float number readFloat) {d : Nat} {v : Json}
    (h : v.depth ≤ d) :
    Means Literal.content number d (v.symbols float) (.value (v.readBack readFloat)) := by
  induction v using Json.induct_mem generalizing d with
  | null => exact .null
  | bool b =>
    cases b with
    | true => exact .true
    | false => exact .false
  | num n => exact .number (hnumber.isNumber (hnumber.read n)) (hnumber.read n)
  | str s => exact means_str s
  | arr xs ih =>
    cases d with
    | zero => exact absurd h (Nat.not_succ_le_zero _)
    | succ d =>
      rw [Json.depth, Nat.add_le_add_iff_right, Json.depthList_le] at h
      rw [Json.readBack_arr]
      exact means_arr fun x hx => ih x hx (h x hx)
  | obj fs ih =>
    cases d with
    | zero => exact absurd h (Nat.not_succ_le_zero _)
    | succ d =>
      rw [Json.depth, Nat.add_le_add_iff_right, Json.depthFields_le] at h
      rw [Json.readBack_obj]
      exact means_obj fun f hf => ih f hf (h f hf)

mutual
/-- The brackets of a printed document go as deep as the document. -/
theorem nests_symbols (hnumber : ReadsNumbers float number readFloat) (v : Json) :
    Nests v.depth (v.symbols float) := by
  cases v with
  | null => exact nests_neutral (by simp [isNeutral])
  | bool b => cases b <;> exact nests_neutral (by simp [isNeutral])
  | num n => exact nests_neutral (hnumber.isNumber (hnumber.read n)).neutral
  | str s => exact nests_literal _
  | arr xs => exact (nests_symbolsList hnumber xs).bracketed (.inr ⟨rfl, rfl⟩)
  | obj fs => exact (nests_symbolsFields hnumber fs).bracketed (.inl ⟨rfl, rfl⟩)

theorem nests_symbolsList (hnumber : ReadsNumbers float number readFloat) (xs : List Json) :
    Nests (Json.depthList xs) (Json.symbolsList float xs) := by
  cases xs with
  | nil => exact nests_nil
  | cons x xs =>
    refine (nests_symbols hnumber x).append ?_
    cases xs with
    | nil => exact nests_nil
    | cons y ys => exact (nests_symbolsList hnumber (y :: ys)).cons (by decide)

theorem nests_symbolsFields (hnumber : ReadsNumbers float number readFloat) (fs : Fields) :
    Nests (Json.depthFields fs) (Json.symbolsFields float fs) := by
  cases fs with
  | nil => exact nests_nil
  | cons f fs =>
    obtain ⟨key, v⟩ := f
    have hrest : Nests (Json.depthFields fs)
        (if fs.isEmpty then [] else .char ',' :: Json.symbolsFields float fs) := by
      cases fs with
      | nil => exact nests_nil
      | cons g gs => exact (nests_symbolsFields hnumber (g :: gs)).cons (by decide)
    have hvalue : Nests (Json.depthFields ((key, v) :: fs)) (.char ':' :: (v.symbols float ++
        if fs.isEmpty then [] else .char ',' :: Json.symbolsFields float fs)) :=
      ((nests_symbols hnumber v).append hrest).cons (by decide)
    have hmember := (nests_literal (printedLiteral key)).append hvalue
    rwa [Nat.zero_max] at hmember
end

/-- A document that is nested too deep is refused. -/
theorem not_reads_deep (hnumber : ReadsNumbers float number readFloat) {v w : Json}
    (h : maxDepth < v.depth) :
    ¬ Reads number (v.text float).toList w := by
  rintro ⟨doc, htext, hdoc⟩
  rw [Json.text, String.toList_ofList, ← textOf_symbols] at htext
  have hbody : ∀ a : Literal, Loose a.body := fun a => a.decodes.stringBody.loose
  have hlexed : Lexed Literal.body (v.symbols float) :=
    (piecewise_lexed hbody).of_means (means_readBack hnumber le_rfl)
  have hsame := textOf_inj hlexed ((piecewise_lexed hbody).of_means hdoc) htext
  obtain ⟨n, hn, hnests⟩ := piecewise_nests.of_means hdoc
  have hpeak : v.depth = n := by
    rw [← (nests_symbols hnumber v).peak_eq, ← hnests.peak_eq, ← peak_map Literal.body, hsame,
      peak_map]
  omega

end

/-- A float for runs on concrete texts: its bits, and an exponent that tells it from an integer. -/
def bitsText (bits : UInt64) : List Char := Nat.toDigits 10 bits.toNat ++ ['e', '0']

def negated : Number → Number
  | .posInt n => .negInt (.ofInt (-n.toNat))
  | n => n

section
variable (readFloat : UInt64 → UInt64)

def floated : Number → Number
  | .posInt bits => .float (readFloat bits)
  | n => n

/-- The reader to `bitsText`. -/
def readNumeral (text : List Char) : Option Number :=
  if text.head? = some '-' then (readNatural text.tail).map negated
  else if text.getLast? = some '0' ∧ text.dropLast.getLast? = some 'e' then
    (readNatural text.dropLast.dropLast).map (floated readFloat)
  else readNatural text

theorem head?_toDigits_ne_sign (n : Nat) : (Nat.toDigits 10 n).head? ≠ some '-' := by
  intro h
  have hdigit := Nat.isDigit_of_mem_toDigits (by decide) (by decide) (List.mem_of_head? h)
  exact absurd hdigit (by decide)

theorem readNumeral_natural : ReadsNaturals (readNumeral readFloat) := by
  intro n
  have hlast : (Nat.toDigits 10 n.toNat).dropLast.getLast? ≠ some 'e' := by
    intro h
    have hmem := List.dropLast_subset _ (List.mem_of_getLast? h)
    exact absurd (Nat.isDigit_of_mem_toDigits (by decide) (by decide) hmem) (by decide)
  rw [readNumeral, if_neg (head?_toDigits_ne_sign _), if_neg (fun h => hlast h.2)]
  exact readNatural_readsNaturals n

theorem readNumeral_negative {n : Int64} (h : n < 0) :
    readNumeral readFloat ('-' :: Nat.toDigits 10 n.toInt.natAbs) = some (.negInt n) := by
  have hneg := Int64.lt_iff_toInt_lt.mp h
  have hlow := n.le_toInt
  rw [Int64.toInt_zero] at hneg
  have habs : (UInt64.ofNat n.toInt.natAbs).toNat = n.toInt.natAbs :=
    UInt64.toNat_ofNat_of_lt (by change _ < 2 ^ 64; omega)
  have hread := readNatural_readsNaturals (.ofNat n.toInt.natAbs)
  rw [habs] at hread
  rw [readNumeral, if_pos List.head?_cons, List.tail_cons, hread, Option.map_some, negated, habs,
    Int.ofNat_natAbs_of_nonpos (by omega), neg_neg, Int64.ofInt_toInt]

theorem readNumeral_float (bits : UInt64) :
    readNumeral readFloat (bitsText bits) = some (.float (readFloat bits)) := by
  have hhead : (bitsText bits).head? ≠ some '-' := by
    rw [bitsText, List.head?_append_of_ne_nil _ Nat.toDigits_ne_nil]
    exact head?_toDigits_ne_sign _
  have hsplit : bitsText bits = Nat.toDigits 10 bits.toNat ++ ['e'] ++ ['0'] := by simp [bitsText]
  have hfront : (bitsText bits).dropLast = Nat.toDigits 10 bits.toNat ++ ['e'] := by
    rw [hsplit, List.dropLast_concat]
  have hlast : (bitsText bits).getLast? = some '0' := by rw [hsplit, List.getLast?_concat]
  rw [readNumeral, if_neg hhead, hfront, if_pos ⟨hlast, List.getLast?_concat⟩, List.dropLast_concat,
    readNatural_readsNaturals, Option.map_some, floated]

theorem isNumber_of_readNumeral {text : List Char} {n : Number}
    (h : readNumeral readFloat text = some n) : IsNumber text := by
  have hexp : IsDigits ['0'] := ⟨by simp, fun c hc => by rw [List.mem_singleton.mp hc]; rfl⟩
  unfold readNumeral at h
  split_ifs at h with hsign hfloat
  · obtain ⟨m, hm, -⟩ := Option.map_eq_some_iff.mp h
    obtain ⟨digits, rfl⟩ := List.head?_eq_some_iff.mp hsign
    exact ⟨['-'], digits, [], [], by simp, .inr rfl, natural_of_readNatural hm, .inl rfl, .inl rfl⟩
  · obtain ⟨m, hm, -⟩ := Option.map_eq_some_iff.mp h
    obtain ⟨front, rfl⟩ := List.getLast?_eq_some_iff.mp hfloat.1
    rw [List.dropLast_concat] at hm hfloat
    obtain ⟨digits, rfl⟩ := List.getLast?_eq_some_iff.mp hfloat.2
    rw [List.dropLast_concat] at hm
    exact ⟨[], digits, [], ['e', '0'], by simp, .inl rfl, natural_of_readNatural hm, .inl rfl,
      .inr ⟨'e', [], ['0'], .inl rfl, .inl rfl, hexp, rfl⟩⟩
  · exact ⟨[], text, [], [], by simp, .inl rfl, natural_of_readNatural h, .inl rfl, .inl rfl⟩

theorem readsNumbers_bitsText : ReadsNumbers bitsText (readNumeral readFloat) readFloat where
  isNumber := isNumber_of_readNumeral readFloat
  natural := readNumeral_natural readFloat
  negative _ := readNumeral_negative readFloat
  float := readNumeral_float readFloat

end

end ReactRuntime.Serde
