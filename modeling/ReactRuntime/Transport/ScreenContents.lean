import Mathlib.Data.Nat.Init
import ReactRuntime.Transport.Repaint

/-!
# What the screen shows

The writes of a repaint are followed cell by cell. Each block of them settles the rows it is about and
leaves the others alone, so that after any frames the cells are those of the last one.
-/
namespace ReactRuntime.Transport
open Library Token

variable {Pen : Type} {T : Terminal Pen}

def Output.exec (T : Terminal Pen) : Output → Screen Pen → Screen Pen
  | .moveTo column row => T.moveTo column row
  | .moveToColumn column => T.moveToColumn column
  | .clearCurrentLine => Screen.clearLine
  | .clearFromCursorDown => Screen.clearFromCursorDown
  | .write line => T.write line.toList

def execAll (T : Terminal Pen) (outs : List Output) (s : Screen Pen) : Screen Pen :=
  outs.foldl (fun s out => out.exec T s) s

@[simp] theorem execAll_nil (s : Screen Pen) : execAll T [] s = s := rfl

theorem execAll_append (outs outs' : List Output) (s : Screen Pen) :
    execAll T (outs ++ outs') s = execAll T outs' (execAll T outs s) := List.foldl_append

/-- The cells of a screen that shows the lines and nothing else. -/
def picture (lines : List (StyledLine T)) (row : Nat) : Nat → Char × Pen :=
  match lines[row]? with
  | some line => line.inColumn
  | none => fun _ => (' ', T.plain)

theorem picture_of_le {lines : List (StyledLine T)} {row : Nat} (h : lines.length ≤ row) :
    picture lines row = fun _ => (' ', T.plain) := by
  rw [picture, List.getElem?_eq_none h]

/-- From one screen to the next, `count` rows from `row` on come to look as they should. -/
structure Settles (look : Nat → Nat → Char × Pen) (row count : Nat) (s s' : Screen Pen) : Prop where
  pen : s'.pen = s.pen
  inside : ∀ r, row ≤ r → r < row + count → s'.cell r = look r
  outside : ∀ r, r < row ∨ row + count ≤ r → s'.cell r = s.cell r

namespace Settles
variable {look : Nat → Nat → Char × Pen} {row row' count count' : Nat} {s s' s'' : Screen Pen}

theorem none : Settles look row 0 s s where
  pen := rfl
  inside := fun r hr hlt => absurd hlt (by omega)
  outside := fun _ _ => rfl

theorem append (h : Settles look row count s s') (hnext : row + count = row')
    (h' : Settles look row' count' s' s'') : Settles look row (count + count') s s'' where
  pen := h'.pen.trans h.pen
  inside := by
    intro r hr hlt
    by_cases hfirst : r < row + count
    · rw [h'.outside r (.inl (by omega))]
      exact h.inside r hr hfirst
    · exact h'.inside r (by omega) (by omega)
  outside := by
    intro r hr
    rw [h'.outside r (by omega)]
    exact h.outside r (by omega)

theorem cons (h : Settles look row 1 s s') (h' : Settles look (row + 1) count s' s'') :
    Settles look row (count + 1) s s'' := by
  have hall := h.append rfl h'
  rwa [Nat.add_comm 1] at hall

/-- A row that already looks as it should. -/
theorem same (h : s.cell row = look row) : Settles look row 1 s s where
  pen := rfl
  inside := by
    intro r hr hlt
    obtain rfl : r = row := by omega
    exact h
  outside := fun _ _ => rfl

end Settles

theorem asU16_of_lt (hT : Suitable T) {row : Nat} (hrow : row < T.height) : asU16 row = row :=
  Nat.mod_eq_of_lt (Nat.lt_of_lt_of_le hrow hT.rows)

theorem min_row {row height : Nat} (h : row < height) : min row (height - 1) = row := by omega

section
variable (hT : Suitable T) {s : Screen Pen} (hpen : s.pen = T.plain) {row : Nat}
include hT hpen

theorem exec_clear (hrow : row < T.height) :
    execAll T [.moveTo 0 (asU16 row), .clearCurrentLine] s =
      { s with
        cell := Function.update s.cell row fun _ => (' ', T.plain)
        row := row, column := 0, mode := .ground } := by
  simp [execAll, Output.exec, Terminal.moveTo, Screen.clearLine, asU16_of_lt hT hrow,
    min_row hrow, hpen]

theorem exec_paintRow {line : StyledLine T} (hfits : line.columns ≤ T.width) (hrow : row < T.height) :
    execAll T (paintRow row line.string) s =
      { s with
        cell := Function.update s.cell row line.inColumn
        row := row, column := line.columns, mode := .ground } := by
  have hsplit : paintRow row line.string =
      [.moveTo 0 (asU16 row), .clearCurrentLine] ++ [.moveToColumn 0, .write line.string] := rfl
  rw [hsplit, execAll_append, exec_clear hT hpen hrow]
  have hwrite := StyledLine.write_string hfits (s := { s with
    cell := Function.update s.cell row fun _ => (' ', T.plain)
    row := row, column := 0, mode := .ground }) rfl rfl hpen
  refine Eq.trans (b := T.write line.string.toList _) ?_ (hwrite.trans ?_)
  · simp [execAll, Output.exec, Terminal.moveToColumn]
  · have hcell : Screen.overwrite (Function.update s.cell row fun _ => (' ', T.plain)) row 0
        (T.ink T.plain line.tokens) = Function.update s.cell row line.inColumn := by
      funext r
      by_cases hr : r = row
      · subst hr
        rw [Function.update_self]
        exact StyledLine.overwrite_blank line fun _ => by rw [Function.update_self]
      · rw [Screen.overwrite_of_ne hr, Function.update_of_ne hr, Function.update_of_ne hr]
    rw [hcell]

variable {look : Nat → Nat → Char × Pen}

theorem settles_paintRow {line : StyledLine T} (hfits : line.columns ≤ T.width) (hrow : row < T.height)
    (hlook : look row = line.inColumn) :
    Settles look row 1 s (execAll T (paintRow row line.string) s) := by
  rw [exec_paintRow hT hpen hfits hrow]
  constructor
  · rfl
  · intro r hr hlt
    obtain rfl : r = row := by omega
    rw [hlook]
    exact Function.update_self ..
  · intro r hr
    exact Function.update_of_ne (by omega) ..

theorem settles_clear (hrow : row < T.height) (hlook : look row = fun _ => (' ', T.plain)) :
    Settles look row 1 s (execAll T [.moveTo 0 (asU16 row), .clearCurrentLine] s) := by
  rw [exec_clear hT hpen hrow]
  constructor
  · rfl
  · intro r hr hlt
    obtain rfl : r = row := by omega
    rw [hlook]
    exact Function.update_self ..
  · intro r hr
    exact Function.update_of_ne (by omega) ..

theorem settles_removedRows {count : Nat} (hrows : row + count ≤ T.height)
    (hlook : ∀ r, row ≤ r → look r = fun _ => (' ', T.plain)) :
    Settles look row count s (execAll T (removedRows row count) s) := by
  induction count generalizing row s with
  | zero => exact .none
  | succ count ih =>
    have hfirst := settles_clear hT hpen (by omega) (hlook row (Nat.le_refl row))
    rw [removedRows, execAll_append]
    exact hfirst.cons (ih (hfirst.pen.trans hpen) (by omega) fun r hr => hlook r (by omega))

theorem settles_appendedRows {lines : List (StyledLine T)}
    (hfits : ∀ line ∈ lines, line.columns ≤ T.width) (hrows : row + lines.length ≤ T.height)
    (hlook : ∀ i line, lines[i]? = some line → look (row + i) = line.inColumn) :
    Settles look row lines.length s
      (execAll T (appendedRows row (lines.map StyledLine.string)) s) := by
  induction lines generalizing row s with
  | nil => exact .none
  | cons line lines ih =>
    rw [List.length_cons] at hrows ⊢
    have hfirst := settles_paintRow hT hpen (hfits line List.mem_cons_self) (by omega)
      (hlook 0 line rfl)
    rw [List.map_cons, appendedRows, execAll_append]
    apply hfirst.cons
    apply ih (hfirst.pen.trans hpen) (fun l hl => hfits l (List.mem_cons_of_mem line hl)) (by omega)
    intro i l hl
    rw [Nat.add_assoc, Nat.add_comm 1]
    exact hlook (i + 1) l hl

theorem settles_changedRows {old lines : List (StyledLine T)}
    (holdFits : ∀ line ∈ old, line.columns ≤ T.width) (hfits : ∀ line ∈ lines, line.columns ≤ T.width)
    (hrows : row + min old.length lines.length ≤ T.height)
    (hold : ∀ i line, old[i]? = some line → s.cell (row + i) = line.inColumn)
    (hlook : ∀ i line, lines[i]? = some line → look (row + i) = line.inColumn) :
    Settles look row (min old.length lines.length) s
      (execAll T (changedRows row (old.map StyledLine.string) (lines.map StyledLine.string)) s) := by
  induction old generalizing row s lines with
  | nil =>
    rw [List.length_nil, Nat.zero_min]
    exact .none
  | cons was old ih =>
    cases lines with
    | nil => exact .none
    | cons line lines =>
      rw [List.length_cons, List.length_cons, Nat.succ_min_succ] at hrows ⊢
      have hwas := holdFits was List.mem_cons_self
      have hline := hfits line List.mem_cons_self
      have hfirst : Settles look row 1 s (execAll T
          (if was.string = line.string then [] else paintRow row line.string) s) := by
        split
        case isTrue hsame =>
          refine .same ?_
          rw [show row = row + 0 from rfl, hold 0 was rfl, hlook 0 line rfl]
          exact StyledLine.inColumn_congr hwas hline hsame
        case isFalse => exact settles_paintRow hT hpen hline (by omega) (hlook 0 line rfl)
      rw [List.map_cons, List.map_cons, changedRows, execAll_append]
      apply hfirst.cons
      apply ih (hfirst.pen.trans hpen) (fun l hl => holdFits l (List.mem_cons_of_mem was hl))
        (fun l hl => hfits l (List.mem_cons_of_mem line hl)) (by omega)
      · intro i l hl
        rw [hfirst.outside _ (.inr (by omega)), Nat.add_assoc, Nat.add_comm 1]
        exact hold (i + 1) l hl
      · intro i l hl
        rw [Nat.add_assoc, Nat.add_comm 1]
        exact hlook (i + 1) l hl

end

/-- Lines that the viewport holds. -/
structure InView (T : Terminal Pen) (lines : List (StyledLine T)) : Prop where
  columns : ∀ line ∈ lines, line.columns ≤ T.width
  rows : lines.length ≤ T.height

theorem picture_of_getElem? {lines : List (StyledLine T)} {i : Nat} {line : StyledLine T}
    (h : lines[i]? = some line) : picture lines i = line.inColumn := by
  rw [picture, h]

theorem picture_congr {old lines : List (StyledLine T)} (hold : InView T old) (hlines : InView T lines)
    (h : old.map StyledLine.string = lines.map StyledLine.string) : picture old = picture lines := by
  funext row
  have hrow := congrArg (·[row]?) h
  simp only [List.getElem?_map] at hrow
  unfold picture
  cases hwas : old[row]? with
  | none =>
    rw [hwas, Option.map_none, eq_comm, Option.map_eq_none_iff] at hrow
    rw [hrow]
  | some was =>
    rw [hwas, Option.map_some, eq_comm, Option.map_eq_some_iff] at hrow
    obtain ⟨line, hline, hsame⟩ := hrow
    rw [hline]
    exact StyledLine.inColumn_congr (hold.columns was (List.mem_of_getElem? hwas))
      (hlines.columns line (List.mem_of_getElem? hline)) hsame.symm

/-- The first frame is painted on a cleared screen. -/
theorem exec_initial {old : List (StyledLine T)} {s : Screen Pen} (hpen : s.pen = T.plain)
    (hshows : old ≠ [] → s.cell = picture old) :
    (execAll T (if old.map StyledLine.string = [] then [.moveTo 0 0, .clearFromCursorDown] else []) s).pen
        = T.plain ∧
      (execAll T (if old.map StyledLine.string = [] then [.moveTo 0 0, .clearFromCursorDown] else [])
        s).cell = picture old := by
  cases old with
  | nil =>
    refine ⟨hpen, ?_⟩
    funext r c
    simp [execAll, Output.exec, Terminal.moveTo, Screen.clearFromCursorDown, picture, hpen,
      Nat.pos_iff_ne_zero, em']
  | cons was old => exact ⟨hpen, hshows (List.cons_ne_nil was old)⟩

/-- A repaint takes the picture of one frame to the picture of the next. -/
theorem repaint_picture (hT : Suitable T) {old lines : List (StyledLine T)} (hold : InView T old)
    (hlines : InView T lines) {s : Screen Pen} (hpen : s.pen = T.plain)
    (hshows : old ≠ [] ∨ lines = [] → s.cell = picture old) :
    (execAll T (repaint (old.map StyledLine.string) (lines.map StyledLine.string)) s).pen = T.plain ∧
      (execAll T (repaint (old.map StyledLine.string) (lines.map StyledLine.string)) s).cell =
        picture lines := by
  by_cases hsame : old.map StyledLine.string = lines.map StyledLine.string
  · have hempty : old ≠ [] ∨ lines = [] := by
      by_cases hnil : old = []
      · subst hnil
        exact .inr (List.map_eq_nil_iff.mp hsame.symm)
      · exact .inl hnil
    rw [repaint, if_pos hsame, execAll_nil, ← picture_congr hold hlines hsame]
    exact ⟨hpen, hshows hempty⟩
  · obtain ⟨hpen₁, hcell₁⟩ := exec_initial hpen fun hne => hshows (.inl hne)
    have hrows := hold.rows
    have hrows' := hlines.rows
    rw [repaint, if_neg hsame]
    dsimp only
    rw [execAll_append, execAll_append, execAll_append, List.length_map, List.length_map,
      ← List.map_drop]
    generalize execAll T (if old.map StyledLine.string = [] then [.moveTo 0 0, .clearFromCursorDown]
      else []) s = s₁ at hpen₁ hcell₁ ⊢
    have hchanged : Settles (picture lines) 0 (min old.length lines.length) s₁ _ :=
      settles_changedRows hT hpen₁ hold.columns hlines.columns (by omega)
        (fun i line hline => by rw [hcell₁, Nat.zero_add, picture_of_getElem? hline])
        (fun i line hline => by rw [Nat.zero_add, picture_of_getElem? hline])
    have happended : Settles (picture lines) (min old.length lines.length)
        (lines.drop (min old.length lines.length)).length _ _ :=
      settles_appendedRows hT (hchanged.pen.trans hpen₁)
        (fun line hline => hlines.columns line (List.mem_of_mem_drop hline))
        (by rw [List.length_drop]; omega)
        (fun i line hline => by
          rw [List.getElem?_drop] at hline
          exact picture_of_getElem? hline)
    have hremoved : Settles (picture lines) lines.length (old.length - lines.length) _ _ :=
      settles_removedRows hT (happended.pen.trans (hchanged.pen.trans hpen₁)) (by omega)
        fun r hr => picture_of_le hr
    rw [List.length_drop] at happended
    have hall := (hchanged.append (Nat.zero_add _) happended).append (by omega) hremoved
    refine ⟨hall.pen.trans hpen₁, ?_⟩
    funext r
    by_cases hr : r < old.length ∨ r < lines.length
    · exact hall.inside r (Nat.zero_le r) (by omega)
    · rw [hall.outside r (.inr (by omega)), hcell₁, picture_of_le (by omega), picture_of_le (by omega)]

end ReactRuntime.Transport
