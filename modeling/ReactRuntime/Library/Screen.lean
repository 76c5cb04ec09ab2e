import Mathlib.Logic.Function.Basic
import Mathlib.Data.List.Basic

/-!
# The screen of a terminal

A terminal takes one character after the other. A glyph is put into the cell under the cursor, in the
pen that is in effect, and a sequence `ESC [ .. m` changes the pen. A text of glyphs and complete
sequences that fits into its row changes the cells of this row alone.
-/
namespace ReactRuntime.Library

/-- What the terminal is in the middle of. -/
inductive Screen.Mode where
  | ground
  | escape
  | params (taken : List Char)
deriving DecidableEq, Repr

structure Screen (Pen : Type) where
  cell : (row column : Nat) → Char × Pen
  row : Nat
  column : Nat
  pen : Pen
  mode : Screen.Mode

/-- What a program may rely on. Nothing is known of a character that is not shown in one column. -/
structure Terminal (Pen : Type) where
  width : Nat
  height : Nat
  glyph : Char → Bool
  plain : Pen
  sgr : List Char → Pen → Pen
  other : Char → Screen Pen → Screen Pen
  glyph_escape : glyph '\x1b' = false

/-- The parts of a text. -/
inductive Token where
  | glyph (c : Char)
  | sgr (params : List Char)
deriving DecidableEq, Repr

namespace Token

def isParam (c : Char) : Bool := c.isDigit || c = ';' || c = ':'

def chars : Token → List Char
  | .glyph c => [c]
  | .sgr params => '\x1b' :: '[' :: (params ++ ['m'])

def text (ts : List Token) : List Char := ts.flatMap chars

@[simp] theorem text_nil : text [] = [] := rfl

@[simp] theorem text_glyph (c : Char) (ts : List Token) : text (.glyph c :: ts) = c :: text ts := rfl

@[simp] theorem text_sgr (params : List Char) (ts : List Token) :
    text (.sgr params :: ts) = '\x1b' :: '[' :: (params ++ 'm' :: text ts) := by
  simp [text, chars]

@[simp] theorem text_append (ts us : List Token) : text (ts ++ us) = text ts ++ text us :=
  List.flatMap_append

/-- The characters that take a column. -/
def glyphs : List Token → List Char
  | [] => []
  | .glyph c :: ts => c :: glyphs ts
  | .sgr _ :: ts => glyphs ts

end Token
open Token

namespace Screen
variable {Pen : Type}

/-- The cells of a row from a column on are replaced. -/
def overwrite (cell : Nat → Nat → Char × Pen) (row column : Nat) (ink : List (Char × Pen)) :
    Nat → Nat → Char × Pen :=
  fun r c => if r = row ∧ column ≤ c then ink.getD (c - column) (cell r c) else cell r c

@[simp] theorem overwrite_nil (cell : Nat → Nat → Char × Pen) (row column : Nat) :
    overwrite cell row column [] = cell := by
  funext r c
  simp [overwrite]

theorem overwrite_cons (cell : Nat → Nat → Char × Pen) (row column : Nat) (x : Char × Pen)
    (ink : List (Char × Pen)) : overwrite (overwrite cell row column [x]) row (column + 1) ink =
      overwrite cell row column (x :: ink) := by
  funext r c
  unfold overwrite
  by_cases hrow : r = row
  · rcases Nat.lt_trichotomy c column with hlt | rfl | hgt
    · simp [hrow, Nat.not_le.mpr hlt, Nat.not_le.mpr (Nat.lt_succ_of_lt hlt)]
    · simp [hrow, Nat.not_succ_le_self]
    · obtain ⟨k, rfl⟩ := Nat.exists_eq_add_of_lt hgt
      have hfirst : column + k + 1 - column = k + 1 := by omega
      have hrest : column + k + 1 - (column + 1) = k := by omega
      simp [hrow, hfirst, hrest, Nat.le_of_lt hgt]
  · simp [hrow]

theorem overwrite_of_ne {cell : Nat → Nat → Char × Pen} {row column r : Nat} (h : r ≠ row)
    (ink : List (Char × Pen)) : overwrite cell row column ink r = cell r := by
  funext c
  exact if_neg fun hr => h hr.1

/-- Cells are cleared in the pen that is in effect. -/
def clearLine (s : Screen Pen) : Screen Pen :=
  { s with cell := Function.update s.cell s.row fun _ => (' ', s.pen), mode := .ground }

def clearFromCursorDown (s : Screen Pen) : Screen Pen :=
  { s with
    cell := fun r c => if s.row < r ∨ (r = s.row ∧ s.column ≤ c) then (' ', s.pen) else s.cell r c
    mode := .ground }

end Screen

namespace Terminal
variable {Pen : Type} (T : Terminal Pen)

/-- To the next row; from the last one the rows move up. -/
def wrap (s : Screen Pen) : Screen Pen :=
  if s.row + 1 < T.height then { s with row := s.row + 1, column := 0 }
  else { s with
    cell := fun r c => if r + 1 < T.height then s.cell (r + 1) c else (' ', s.pen)
    column := 0 }

def put (c : Char) (s : Screen Pen) : Screen Pen :=
  let s := if s.column < T.width then s else T.wrap s
  { s with cell := Screen.overwrite s.cell s.row s.column [(c, s.pen)], column := s.column + 1 }

def feed (s : Screen Pen) (c : Char) : Screen Pen :=
  match s.mode with
  | .ground =>
    if c = '\x1b' then { s with mode := .escape } else if T.glyph c then T.put c s else T.other c s
  | .escape => if c = '[' then { s with mode := .params [] } else T.other c s
  | .params taken =>
    if isParam c then { s with mode := .params (taken ++ [c]) }
    else if c = 'm' then { s with pen := T.sgr taken s.pen, mode := .ground }
    else T.other c s

def write (text : List Char) (s : Screen Pen) : Screen Pen := text.foldl T.feed s

def moveTo (column row : Nat) (s : Screen Pen) : Screen Pen :=
  { s with row := min row (T.height - 1), column := min column (T.width - 1), mode := .ground }

def moveToColumn (column : Nat) (s : Screen Pen) : Screen Pen :=
  { s with column := min column (T.width - 1), mode := .ground }

def Shown : Token → Prop
  | .glyph c => T.glyph c = true
  | .sgr params => ∀ c ∈ params, isParam c = true

instance : (t : Token) → Decidable (T.Shown t)
  | .glyph c => inferInstanceAs (Decidable (T.glyph c = true))
  | .sgr params => inferInstanceAs (Decidable (∀ c ∈ params, isParam c = true))

/-- The cells that a text fills. -/
def ink (pen : Pen) : List Token → List (Char × Pen)
  | [] => []
  | .glyph c :: ts => (c, pen) :: ink pen ts
  | .sgr params :: ts => ink (T.sgr params pen) ts

/-- The pen behind a text. -/
def penAfter (pen : Pen) : List Token → Pen
  | [] => pen
  | .glyph _ :: ts => penAfter pen ts
  | .sgr params :: ts => penAfter (T.sgr params pen) ts

variable {T}

theorem penAfter_append (pen : Pen) (ts us : List Token) :
    T.penAfter pen (ts ++ us) = T.penAfter (T.penAfter pen ts) us := by
  induction ts generalizing pen with
  | nil => rfl
  | cons t ts ih =>
    cases t with
    | glyph c => exact ih pen
    | sgr params => exact ih _

theorem glyph_ne_escape {c : Char} (hc : T.glyph c = true) : c ≠ '\x1b' := by
  rintro rfl
  rw [T.glyph_escape] at hc
  cases hc

/-- The parameters of a sequence are collected. -/
theorem write_params {params : List Char} (h : ∀ c ∈ params, isParam c = true) (taken rest : List Char)
    (s : Screen Pen) : T.write (params ++ rest) { s with mode := .params taken } =
      T.write rest { s with mode := .params (taken ++ params) } := by
  induction params generalizing taken with
  | nil => rw [List.nil_append, List.append_nil]
  | cons c params ih =>
    have hfeed : T.feed { s with mode := .params taken } c = { s with mode := .params (taken ++ [c]) } :=
      if_pos (h c List.mem_cons_self)
    rw [List.cons_append, write, List.foldl_cons, hfeed]
    exact (ih (fun d hd => h d (List.mem_cons_of_mem c hd)) (taken ++ [c])).trans (by simp)

theorem write_sgr {params : List Char} (h : ∀ c ∈ params, isParam c = true) (rest : List Char)
    {s : Screen Pen} (hmode : s.mode = .ground) :
    T.write ('\x1b' :: '[' :: (params ++ 'm' :: rest)) s =
      T.write rest { s with pen := T.sgr params s.pen } := by
  have hescape : T.feed s '\x1b' = { s with mode := .escape } := by simp [feed, hmode]
  have hopen : T.feed { s with mode := .escape } '[' = { s with mode := .params [] } := rfl
  have hclose : T.feed { s with mode := .params params } 'm' = { s with pen := T.sgr params s.pen } := by
    rw [hmode]
    rfl
  rw [write, List.foldl_cons, List.foldl_cons, hescape, hopen, ← write, write_params h, List.nil_append,
    write, List.foldl_cons, hclose]
  rfl

theorem feed_glyph {c : Char} (hc : T.glyph c = true) {s : Screen Pen} (hmode : s.mode = .ground)
    (hroom : s.column < T.width) : T.feed s c =
      { s with cell := Screen.overwrite s.cell s.row s.column [(c, s.pen)], column := s.column + 1 } := by
  simp [feed, hmode, glyph_ne_escape hc, hc, put, hroom]

/-- A text that fits into its row changes this row alone. -/
theorem write_text {ts : List Token} (h : ∀ t ∈ ts, T.Shown t) {s : Screen Pen}
    (hmode : s.mode = .ground) (hroom : s.column + (glyphs ts).length ≤ T.width) :
    T.write (text ts) s =
      { s with
        cell := Screen.overwrite s.cell s.row s.column (T.ink s.pen ts)
        column := s.column + (glyphs ts).length
        pen := T.penAfter s.pen ts } := by
  induction ts generalizing s with
  | nil => simp [write, ink, penAfter, glyphs]
  | cons t ts ih =>
    have hrest : ∀ u ∈ ts, T.Shown u := fun u hu => h u (List.mem_cons_of_mem t hu)
    cases t with
    | glyph c =>
      have hc : T.glyph c = true := h _ List.mem_cons_self
      rw [glyphs, List.length_cons] at hroom
      have hlater := ih hrest (s := { s with
        cell := Screen.overwrite s.cell s.row s.column [(c, s.pen)], column := s.column + 1 }) hmode
        (by dsimp only; omega)
      rw [text_glyph, write, List.foldl_cons, feed_glyph hc hmode (by omega), ← write, hlater]
      simp [ink, penAfter, glyphs, Screen.overwrite_cons, Nat.add_assoc, Nat.add_comm 1]
    | sgr params =>
      rw [text_sgr, write_sgr (h _ List.mem_cons_self) _ hmode]
      exact ih hrest (s := { s with pen := T.sgr params s.pen }) hmode hroom

end Terminal

/-- A line that leaves the pen as it was. -/
structure StyledLine {Pen : Type} (T : Terminal Pen) where
  tokens : List Token
  shown : ∀ t ∈ tokens, T.Shown t
  closed : T.penAfter T.plain tokens = T.plain

namespace StyledLine
variable {Pen : Type} {T : Terminal Pen}

def columns (line : StyledLine T) : Nat := (glyphs line.tokens).length

def string (line : StyledLine T) : String := .ofList (text line.tokens)

/-- What a row shows in which the line is written. -/
def inColumn (line : StyledLine T) (column : Nat) : Char × Pen :=
  (T.ink T.plain line.tokens).getD column (' ', T.plain)

/-- A line that fits is written into its row. -/
theorem write_string {line : StyledLine T} (hfits : line.columns ≤ T.width) {s : Screen Pen}
    (hmode : s.mode = .ground) (hcolumn : s.column = 0) (hpen : s.pen = T.plain) :
    T.write line.string.toList s =
      { s with
        cell := Screen.overwrite s.cell s.row 0 (T.ink T.plain line.tokens)
        column := line.columns } := by
  have hroom : s.column + line.columns ≤ T.width := by omega
  rw [string, String.toList_ofList, Terminal.write_text line.shown hmode hroom, hcolumn, hpen,
    line.closed, ← hpen, Nat.zero_add]
  rfl

theorem overwrite_blank (line : StyledLine T) {cell : Nat → Nat → Char × Pen} {row : Nat}
    (hblank : ∀ c, cell row c = (' ', T.plain)) :
    Screen.overwrite cell row 0 (T.ink T.plain line.tokens) row = line.inColumn := by
  funext c
  simp [Screen.overwrite, inColumn, hblank]

/-- Lines of one text look the same. -/
theorem inColumn_congr {line line' : StyledLine T} (hfits : line.columns ≤ T.width)
    (hfits' : line'.columns ≤ T.width) (h : line.string = line'.string) :
    line.inColumn = line'.inColumn := by
  let blank : Screen Pen := ⟨fun _ _ => (' ', T.plain), 0, 0, T.plain, .ground⟩
  have hwrite : T.write line.string.toList blank = T.write line'.string.toList blank := by rw [h]
  rw [write_string hfits rfl rfl rfl, write_string hfits' rfl rfl rfl] at hwrite
  have hrow := congrFun (congrArg Screen.cell hwrite) 0
  dsimp only at hrow
  rwa [overwrite_blank line fun _ => rfl, overwrite_blank line' fun _ => rfl] at hrow

end StyledLine

end ReactRuntime.Library
