import Mathlib.Data.List.Infix

/-!
# Predicates of SQL over text columns

A column is compared with a literal, or matched with a pattern in which `%` stands for any text and
`_` for any one character, or asked for a value. In a literal a quote is written twice.
-/
namespace ReactRuntime.Library.Sql

def like : List Char → List Char → Bool
  | [], text => text.isEmpty
  | c :: pattern, text =>
    if c = '%' then text.tails.any (like pattern)
    else match text with
      | [] => false
      | d :: rest => (c = '_' || c = d) && like pattern rest

def isWildcard (c : Char) : Bool := c = '%' || c = '_'

/-- The pattern has no wildcard. -/
def Plain (pattern : List Char) : Prop := ∀ c ∈ pattern, isWildcard c = false

instance (pattern : List Char) : Decidable (Plain pattern) :=
  List.decidableBAll (fun c => isWildcard c = false) pattern

variable {pattern text : List Char} {c d : Char}

@[simp] theorem like_nil_iff : like [] text = true ↔ text = [] := by
  simp [like]

theorem like_percent_iff :
    like ('%' :: pattern) text = true ↔ ∃ skipped rest, text = skipped ++ rest ∧
      like pattern rest = true := by
  have hlike : like ('%' :: pattern) text = text.tails.any (like pattern) := by
    cases text <;> rfl
  rw [hlike, List.any_eq_true]
  constructor
  · rintro ⟨rest, hrest, hmatch⟩
    obtain ⟨skipped, hskipped⟩ := (List.mem_tails rest text).mp hrest
    exact ⟨skipped, rest, hskipped.symm, hmatch⟩
  · rintro ⟨skipped, rest, rfl, hmatch⟩
    exact ⟨rest, (List.mem_tails _ _).mpr ⟨skipped, rfl⟩, hmatch⟩

theorem like_cons_iff (h : c ≠ '%') :
    like (c :: pattern) text = true ↔ ∃ d rest, text = d :: rest ∧ (c = '_' ∨ c = d) ∧
      like pattern rest = true := by
  cases text with
  | nil => simp [like, h]
  | cons e rest => simp [like, h]

theorem like_append_iff {front back : List Char} :
    like (front ++ back) text = true ↔ ∃ first second, text = first ++ second ∧
      like front first = true ∧ like back second = true := by
  induction front generalizing text with
  | nil => simp
  | cons c front ih =>
    by_cases hc : c = '%'
    · subst hc
      rw [List.cons_append, like_percent_iff]
      constructor
      · rintro ⟨skipped, rest, rfl, hrest⟩
        obtain ⟨first, second, rfl, hfirst, hsecond⟩ := ih.mp hrest
        exact ⟨skipped ++ first, second, by simp, like_percent_iff.mpr ⟨_, _, rfl, hfirst⟩, hsecond⟩
      · rintro ⟨first, second, rfl, hfirst, hsecond⟩
        obtain ⟨skipped, rest, rfl, hrest⟩ := like_percent_iff.mp hfirst
        exact ⟨skipped, rest ++ second, by simp, ih.mpr ⟨_, _, rfl, hrest, hsecond⟩⟩
    · rw [List.cons_append, like_cons_iff hc]
      constructor
      · rintro ⟨d, rest, rfl, hd, hrest⟩
        obtain ⟨first, second, rfl, hfirst, hsecond⟩ := ih.mp hrest
        exact ⟨d :: first, second, by simp, (like_cons_iff hc).mpr ⟨d, first, rfl, hd, hfirst⟩,
          hsecond⟩
      · rintro ⟨first, second, rfl, hfirst, hsecond⟩
        obtain ⟨d, rest, rfl, hd, hrest⟩ := (like_cons_iff hc).mp hfirst
        exact ⟨d, rest ++ second, by simp, hd, ih.mpr ⟨_, _, rfl, hrest, hsecond⟩⟩

theorem like_rest : like ['%'] text = true :=
  like_percent_iff.mpr ⟨text, [], by simp⟩

/-- Every pattern matches itself. -/
theorem like_self (pattern : List Char) : like pattern pattern = true := by
  induction pattern with
  | nil => rfl
  | cons c pattern ih =>
    by_cases hc : c = '%'
    · subst hc
      exact like_percent_iff.mpr ⟨['%'], pattern, rfl, ih⟩
    · exact (like_cons_iff hc).mpr ⟨c, pattern, rfl, .inr rfl, ih⟩

/-- A pattern without wildcards matches itself only. -/
theorem like_plain_iff (h : Plain pattern) : like pattern text = true ↔ text = pattern := by
  constructor
  · intro hlike
    induction pattern generalizing text with
    | nil => simpa using hlike
    | cons c pattern ih =>
      have hc : c ≠ '%' ∧ c ≠ '_' := by simpa [isWildcard] using h c List.mem_cons_self
      obtain ⟨d, rest, rfl, hd, hrest⟩ := (like_cons_iff hc.1).mp hlike
      rw [ih (fun e he => h e (List.mem_cons_of_mem c he)) hrest, hd.resolve_left hc.2]
  · rintro rfl
    exact like_self text

/-- Each wildcard replaced by a letter. -/
def instantiate (pattern : List Char) : List Char :=
  pattern.map fun c => if isWildcard c then 'x' else c

theorem like_instantiate (pattern : List Char) : like pattern (instantiate pattern) = true := by
  induction pattern with
  | nil => rfl
  | cons c pattern ih =>
    rw [instantiate, List.map_cons, ← instantiate]
    by_cases hc : c = '%'
    · subst hc
      exact like_percent_iff.mpr ⟨['x'], instantiate pattern, rfl, ih⟩
    · refine (like_cons_iff hc).mpr ⟨_, _, rfl, ?_, ih⟩
      by_cases hlow : c = '_'
      · exact .inl hlow
      · simp [isWildcard, hc, hlow]

@[simp] theorem length_instantiate (pattern : List Char) :
    (instantiate pattern).length = pattern.length := by
  simp [instantiate]

theorem instantiate_eq_iff : instantiate pattern = pattern ↔ Plain pattern := by
  induction pattern with
  | nil => simp [instantiate, Plain]
  | cons c pattern ih =>
    have hc : (if isWildcard c then 'x' else c) = c ↔ isWildcard c = false := by
      cases hwild : isWildcard c
      · simp
      · rw [if_pos rfl]
        refine iff_of_false (fun heq => ?_) (by simp)
        subst heq
        simp [isWildcard] at hwild
    rw [instantiate, List.map_cons, ← instantiate, List.cons.injEq, hc, ih]
    simp [Plain]

def quote : Char := '\''

/-- A text as it stands in a literal. -/
def escape (text : List Char) : List Char :=
  text.flatMap fun c => if c = quote then [quote, quote] else [c]

/-- The text of a literal behind its opening quote, up to the closing one at the end. -/
def literal : List Char → Option (List Char)
  | [] => none
  | [c] => if c = quote then some [] else none
  | c :: d :: rest =>
    if c = quote then
      if d = quote then (literal rest).map (quote :: ·) else none
    else (literal (d :: rest)).map (c :: ·)

theorem literal_cons (h : c ≠ quote) {rest : List Char} (hrest : rest ≠ []) :
    literal (c :: rest) = (literal rest).map (c :: ·) := by
  cases rest with
  | nil => exact absurd rfl hrest
  | cons d rest => rw [literal, if_neg h]

/-- An escaped text is read back. -/
theorem literal_escape (text : List Char) : literal (escape text ++ [quote]) = some text := by
  induction text with
  | nil => rfl
  | cons c text ih =>
    rw [escape, List.flatMap_cons, ← escape, List.append_assoc]
    by_cases hc : c = quote
    · rw [if_pos hc, hc, List.cons_append, List.cons_append, List.nil_append, literal, if_pos rfl,
        if_pos rfl, ih]
      rfl
    · rw [if_neg hc, List.singleton_append, literal_cons hc (by simp), ih]
      rfl

@[simp] theorem escape_append (front back : List Char) :
    escape (front ++ back) = escape front ++ escape back :=
  List.flatMap_append

inductive Predicate where
  | eq (column value : List Char)
  | like (column pattern : List Char)
  | isNotNull (column : List Char)
deriving DecidableEq, Repr

def Predicate.column : Predicate → List Char
  | .eq column _ | .like column _ | .isNotNull column => column

/-- Whether a row meets the predicate. A column without a value meets none. -/
def Predicate.holds (row : List Char → Option (List Char)) : Predicate → Bool
  | .eq column value => row column = some value
  | .like column pattern => (row column).any (Sql.like pattern)
  | .isNotNull column => (row column).isSome

def equals : List Char := [' ', '=', ' ', quote]
def likes : List Char := [' ', 'L', 'I', 'K', 'E', ' ', quote]
def hasValue : List Char :=
  [' ', 'I', 'S', ' ', 'N', 'O', 'T', ' ', 'N', 'U', 'L', 'L']

/-- The operand of an operator with a literal behind it. -/
def operand (operator rest : List Char) : Option (List Char) :=
  if operator <+: rest then literal (rest.drop operator.length) else none

/-- The predicate behind a column. -/
def parseRest (column rest : List Char) : Option Predicate :=
  if rest = hasValue then some (.isNotNull column)
  else ((operand equals rest).map (.eq column)).or ((operand likes rest).map (.like column))

def parse (predicate : List Char) : Option Predicate :=
  parseRest (predicate.takeWhile (· ≠ ' ')) (predicate.dropWhile (· ≠ ' '))

/-- A predicate is cut behind its column. -/
theorem parse_append {column rest : List Char} (hcolumn : ' ' ∉ column)
    (hrest : rest.head? = some ' ') : parse (column ++ rest) = parseRest column rest := by
  have hall : ∀ c ∈ column, decide (c ≠ ' ') = true := by
    intro c hc
    rw [decide_eq_true_iff]
    rintro rfl
    exact hcolumn hc
  obtain ⟨behind, rfl⟩ : ∃ behind, rest = ' ' :: behind := List.head?_eq_some_iff.mp hrest
  rw [parse, List.takeWhile_append_of_pos hall, List.dropWhile_append_of_pos hall]
  simp

theorem operand_literal (operator text : List Char) :
    operand operator (operator ++ (escape text ++ [quote])) = some text := by
  rw [operand, if_pos (List.prefix_append ..), List.drop_left, literal_escape]

theorem parse_eq {column : List Char} (hcolumn : ' ' ∉ column) (text : List Char) :
    parse (column ++ (equals ++ (escape text ++ [quote]))) = some (.eq column text) := by
  rw [parse_append hcolumn rfl, parseRest, if_neg (by simp [equals, hasValue]), operand_literal]
  rfl

theorem parse_like {column : List Char} (hcolumn : ' ' ∉ column) (text : List Char) :
    parse (column ++ (likes ++ (escape text ++ [quote]))) = some (.like column text) := by
  have hother : operand equals (likes ++ (escape text ++ [quote])) = none :=
    if_neg (by simp [equals, likes])
  rw [parse_append hcolumn rfl, parseRest, if_neg (by simp [likes, hasValue]), hother,
    operand_literal]
  rfl

theorem parse_isNotNull {column : List Char} (hcolumn : ' ' ∉ column) :
    parse (column ++ hasValue) = some (.isNotNull column) := by
  rw [parse_append hcolumn rfl, parseRest, if_pos rfl]

end ReactRuntime.Library.Sql
