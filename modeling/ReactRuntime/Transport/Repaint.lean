import ReactRuntime.Core.AnsiText
import ReactRuntime.Library.Screen

/-!
# Repainting the terminal

The terminal thread keeps the lines it painted last. Each new frame is cut to the viewport, compared
with them row by row, and only the rows that changed are written again. However many frames went by,
the screen looks as if the last frame were the only one ever painted.
-/
namespace ReactRuntime.Transport
open ReactRuntime.Core Library Utf8 Token

/-- What is sent to the terminal. -/
inductive Output where
  | moveTo (column row : Nat)
  | moveToColumn (column : Nat)
  | clearCurrentLine
  | clearFromCursorDown
  | write (line : String)
deriving DecidableEq, Repr

def fitLine (s : String) (width : Nat) : Option String := ansiFitLine s (max width 10)

/-- `row as u16`. -/
def asU16 (row : Nat) : Nat := row % 2 ^ 16

def paintRow (row : Nat) (line : String) : List Output :=
  [.moveTo 0 (asU16 row), .clearCurrentLine, .moveToColumn 0, .write line]

/-- The rows that both frames have, from `row` on. -/
def changedRows : (row : Nat) → (prevLines newLines : List String) → List Output
  | row, old :: prevLines, line :: newLines =>
    (if old = line then [] else paintRow row line) ++ changedRows (row + 1) prevLines newLines
  | _, _, _ => []

def appendedRows : (row : Nat) → List String → List Output
  | _, [] => []
  | row, line :: newLines => paintRow row line ++ appendedRows (row + 1) newLines

def removedRows : (row count : Nat) → List Output
  | _, 0 => []
  | row, count + 1 => [.moveTo 0 (asU16 row), .clearCurrentLine] ++ removedRows (row + 1) count

/-- A frame that does not fit into the viewport ends with an ellipsis. -/
def boundLines {Line : Type} (ellipsis : Line) (maxLines : Nat) (lines : List Line) : List Line :=
  if lines.length > maxLines then (lines.take maxLines).dropLast ++ [ellipsis] else lines

/-- What is written to get from one frame to the next. -/
def repaint (prevLines newLines : List String) : List Output :=
  if prevLines = newLines then []
  else
    let common := min prevLines.length newLines.length
    (if prevLines = [] then [.moveTo 0 0, .clearFromCursorDown] else []) ++
      (changedRows 0 prevLines newLines ++ (appendedRows common (newLines.drop common) ++
        removedRows newLines.length (prevLines.length - newLines.length)))

/-- `refresh_stdout`: what is written, and what is remembered for the next frame. `size` is what
`terminal::size` returns; `none` is a panic in a line. -/
def refreshStdout (size : Option (Nat × Nat)) (prevLines lines : List String) :
    Option (List Output × List String) :=
  let (w, h) := size.getD (120, 40)
  (lines.mapM (fitLine · w)).map fun fitted =>
    let newLines := boundLines "…" (max h 3) fitted
    (repaint prevLines newLines, newLines)

/-- The parts up to the `n`-th column. -/
def keepColumns : (n : Nat) → List Token → List Token
  | 0, _ => []
  | _, [] => []
  | n + 1, .glyph c :: ts => .glyph c :: keepColumns n ts
  | n + 1, .sgr params :: ts => .sgr params :: keepColumns (n + 1) ts

def isSgr : Token → Bool
  | .glyph _ => false
  | .sgr _ => true

def closeTokens (ts : List Token) : List Token :=
  let out := ts ++ [.glyph '…']
  if out.any isSgr then out ++ [.sgr ['0']] else out

def fitTokens (width : Nat) (ts : List Token) : List Token :=
  if (glyphs ts).length ≤ width then ts else closeTokens (keepColumns (width - 1) ts)

/-- What the painter relies on. -/
structure Suitable {Pen : Type} (T : Terminal Pen) : Prop where
  ellipsis : T.glyph '…' = true
  reset : ∀ pen, T.sgr ['0'] pen = T.plain
  rows : T.height ≤ 2 ^ 16

section
variable {Pen : Type} {T : Terminal Pen} {ts : List Token}

theorem m_not_mem {params : List Char} (h : T.Shown (.sgr params)) : 'm' ∉ params :=
  fun hm => absurd (h 'm' hm) (by decide)

theorem glyph_not_csi {c : Char} (h : T.Shown (.glyph c)) (rest : List Char) :
    ¬ (c = ESC ∧ rest.head? = some '[') := fun hc => Terminal.glyph_ne_escape h hc.1

theorem visibleChars_text (h : ∀ t ∈ ts, T.Shown t) : visibleChars (text ts) = glyphs ts := by
  induction ts with
  | nil => rfl
  | cons t ts ih =>
    have hrest := ih fun u hu => h u (List.mem_cons_of_mem t hu)
    cases t with
    | glyph c =>
      rw [text_glyph, visibleChars_char (glyph_not_csi (h _ List.mem_cons_self) _), hrest, glyphs]
    | sgr params =>
      have hm := m_not_mem (h _ List.mem_cons_self)
      rw [text_sgr, glyphs, ← hrest]
      exact visibleChars_csi hm (text ts)

theorem keepColumns_shown (h : ∀ t ∈ ts, T.Shown t) (n : Nat) : ∀ t ∈ keepColumns n ts, T.Shown t := by
  induction ts generalizing n with
  | nil => cases n <;> simp [keepColumns]
  | cons t ts ih =>
    have hrest := ih fun u hu => h u (List.mem_cons_of_mem t hu)
    cases n with
    | zero => simp [keepColumns]
    | succ n =>
      cases t with
      | glyph c => exact List.forall_mem_cons.mpr ⟨h _ List.mem_cons_self, hrest n⟩
      | sgr params => exact List.forall_mem_cons.mpr ⟨h _ List.mem_cons_self, hrest (n + 1)⟩

theorem length_glyphs_keepColumns (n : Nat) (ts : List Token) :
    (glyphs (keepColumns n ts)).length ≤ n := by
  induction ts generalizing n with
  | nil => cases n <;> simp [keepColumns, glyphs]
  | cons t ts ih =>
    cases n with
    | zero => exact Nat.le_refl 0
    | succ n =>
      cases t with
      | glyph c => exact Nat.succ_le_succ (ih n)
      | sgr params => exact ih (n + 1)

theorem glyphs_append (ts us : List Token) : glyphs (ts ++ us) = glyphs ts ++ glyphs us := by
  induction ts with
  | nil => rfl
  | cons t ts ih =>
    cases t with
    | glyph c => exact congrArg (c :: ·) ih
    | sgr params => exact ih

/-- The loop of `ansi_fit_line` keeps whole parts. -/
theorem fitFrom_text (h : ∀ t ∈ ts, T.Shown t) (front : List Char) (width w : Nat) (out : List Char) :
    fitFrom (front ++ text ts) width (byteLength front) w out =
      some (out ++ text (keepColumns (width - 1 - w) ts)) := by
  induction ts generalizing front w out with
  | nil =>
    rw [text_nil, fitFrom_stop (.inl rfl)]
    cases width - 1 - w <;> simp [keepColumns]
  | cons t ts ih =>
    have hrest := ih fun u hu => h u (List.mem_cons_of_mem t hu)
    by_cases hlt : w + 1 < width
    · obtain ⟨n, hn⟩ : ∃ n, width - 1 - w = n + 1 := ⟨width - 2 - w, by omega⟩
      cases t with
      | glyph c =>
        have hnext := hrest (front ++ [c]) (w + 1) (out ++ [c])
        have hcolumns : width - 1 - (w + 1) = n := by omega
        rw [List.append_assoc, List.singleton_append, hcolumns] at hnext
        rw [text_glyph, fitFrom_char hlt (glyph_not_csi (h _ List.mem_cons_self) _), hnext, hn,
          keepColumns, text_glyph, List.append_assoc, List.singleton_append]
      | sgr params =>
        have hm := m_not_mem (h _ List.mem_cons_self)
        have hnext := hrest (front ++ ESC :: '[' :: (params ++ ['m'])) w
          (out ++ ESC :: '[' :: (params ++ ['m']))
        rw [append_csi, byteLength_csi, hn] at hnext
        have hstop : ∀ c ∈ ('m' :: text ts).head?, c = 'm' := fun c hc => (Option.some.inj hc).symm
        have hcut := @fitFrom_csi front params ('m' :: text ts) width w hlt hm hstop out
        rw [if_neg (List.cons_ne_nil _ _), hnext] at hcut
        rw [text_sgr, hn, keepColumns, text_sgr]
        exact hcut.trans (by simp [ESC])
    · rw [fitFrom_stop (.inr (Nat.not_lt.mp hlt))]
      have hn : width - 1 - w = 0 := by omega
      rw [hn, keepColumns, text_nil, List.append_nil]

theorem escape_mem_text (h : ∀ t ∈ ts, T.Shown t) : ESC ∈ text ts ↔ ts.any isSgr = true := by
  induction ts with
  | nil => simp
  | cons t ts ih =>
    have hrest := ih fun u hu => h u (List.mem_cons_of_mem t hu)
    cases t with
    | glyph c =>
      have hc : ESC ≠ c := (Terminal.glyph_ne_escape (h _ List.mem_cons_self)).symm
      rw [text_glyph, List.mem_cons, List.any_cons, isSgr, Bool.false_or, ← hrest]
      exact or_iff_right hc
    | sgr params => simp [isSgr, ESC]

theorem closeLine_text (hT : Suitable T) (h : ∀ t ∈ ts, T.Shown t) :
    closeLine (text ts) = text (closeTokens ts) := by
  have hout : ∀ t ∈ ts ++ [.glyph '…'], T.Shown t :=
    List.forall_mem_append.mpr ⟨h, List.forall_mem_singleton.mpr hT.ellipsis⟩
  have htext : text (ts ++ [.glyph '…']) = text ts ++ ['…'] := text_append ts _
  have hend : ¬ RESET <:+ text ts ++ ['…'] := by
    intro hsuffix
    have hlast := hsuffix.getLast (by decide)
    rw [List.getLast_append_singleton] at hlast
    exact absurd hlast (by decide)
  have hescape := escape_mem_text hout
  rw [htext] at hescape
  unfold closeLine closeTokens
  dsimp only
  by_cases hany : (ts ++ [Token.glyph '…']).any isSgr = true
  · rw [if_pos ⟨hescape.mpr hany, hend⟩, if_pos hany, text_append, htext]
    rfl
  · rw [if_neg fun hc => hany (hescape.mp hc.1), if_neg hany, htext]

theorem fitTokens_shown (hT : Suitable T) (h : ∀ t ∈ ts, T.Shown t) (width : Nat) :
    ∀ t ∈ fitTokens width ts, T.Shown t := by
  unfold fitTokens
  split
  · exact h
  · have hkept := keepColumns_shown h (width - 1)
    have hreset : T.Shown (.sgr ['0']) := fun c hc => by
      rw [List.mem_singleton.mp hc]
      decide
    have hout : ∀ t ∈ keepColumns (width - 1) ts ++ [.glyph '…'], T.Shown t :=
      List.forall_mem_append.mpr ⟨hkept, List.forall_mem_singleton.mpr hT.ellipsis⟩
    unfold closeTokens
    dsimp only
    split
    · exact List.forall_mem_append.mpr ⟨hout, List.forall_mem_singleton.mpr hreset⟩
    · exact hout

theorem penAfter_of_no_sgr (h : ts.any isSgr = false) (pen : Pen) : T.penAfter pen ts = pen := by
  induction ts generalizing pen with
  | nil => rfl
  | cons t ts ih =>
    rw [List.any_cons, Bool.or_eq_false_iff] at h
    cases t with
    | glyph c => exact ih h.2 pen
    | sgr params => exact absurd h.1 (by simp [isSgr])

/-- A line that is cut leaves the pen as it was, too. -/
theorem penAfter_fitTokens (hT : Suitable T) (h : T.penAfter T.plain ts = T.plain) (width : Nat) :
    T.penAfter T.plain (fitTokens width ts) = T.plain := by
  unfold fitTokens
  split
  · exact h
  · unfold closeTokens
    dsimp only
    split
    case isTrue => rw [Terminal.penAfter_append]; exact hT.reset _
    case isFalse hany => exact penAfter_of_no_sgr (Bool.eq_false_iff.mpr hany) _

theorem length_glyphs_fitTokens {width : Nat} (hpos : 0 < width) (ts : List Token) :
    (glyphs (fitTokens width ts)).length ≤ width := by
  have hkept := length_glyphs_keepColumns (width - 1) ts
  unfold fitTokens
  split
  · assumption
  · unfold closeTokens
    dsimp only
    split <;> simp only [glyphs_append, glyphs, List.length_append, List.length_singleton,
      List.length_nil] <;> omega

end

section
variable {Pen : Type} {T : Terminal Pen}

def fitStyled (hT : Suitable T) (width : Nat) (line : StyledLine T) : StyledLine T where
  tokens := fitTokens (max width 10) line.tokens
  shown := fitTokens_shown hT line.shown _
  closed := penAfter_fitTokens hT line.closed _

theorem fitLine_string (hT : Suitable T) (width : Nat) (line : StyledLine T) :
    fitLine line.string width = some (fitStyled hT width line).string := by
  have hpos : max width 10 ≠ 0 := by omega
  have hvisible := visibleChars_text line.shown
  unfold fitLine ansiFitLine
  rw [if_neg hpos, ansiDisplayWidth_eq, Option.bind_some, StyledLine.string, String.toList_ofList,
    hvisible]
  unfold fitStyled fitTokens StyledLine.string
  split
  · rfl
  · have hkept : fitFrom (text line.tokens) (max width 10) 0 0 [] =
        some (text (keepColumns (max width 10 - 1) line.tokens)) :=
      fitFrom_text line.shown [] (max width 10) 0 []
    have hclose := closeLine_text hT (keepColumns_shown line.shown (max width 10 - 1))
    rw [hkept, Option.map_some, hclose]

def ellipsisLine (hT : Suitable T) : StyledLine T where
  tokens := [.glyph '…']
  shown := List.forall_mem_singleton.mpr hT.ellipsis
  closed := rfl

/-- The lines of a frame that are to be seen. -/
def boundFrame (hT : Suitable T) (size : Option (Nat × Nat)) (lines : List (StyledLine T)) :
    List (StyledLine T) :=
  boundLines (ellipsisLine hT) (max (size.getD (120, 40)).2 3)
    (lines.map (fitStyled hT (size.getD (120, 40)).1))

theorem boundLines_map {α β : Type} (f : α → β) (ellipsis : α) (maxLines : Nat) (lines : List α) :
    boundLines (f ellipsis) maxLines (lines.map f) = (boundLines ellipsis maxLines lines).map f := by
  unfold boundLines
  rw [List.length_map]
  split
  · rw [← List.map_take, ← List.map_dropLast, List.map_append, List.map_singleton]
  · rfl

theorem length_boundLines_le {α : Type} (ellipsis : α) {maxLines : Nat} (hpos : 0 < maxLines)
    (lines : List α) : (boundLines ellipsis maxLines lines).length ≤ maxLines := by
  unfold boundLines
  split
  · rw [List.length_append, List.length_dropLast, List.length_take, List.length_singleton]
    omega
  · omega

theorem boundLines_eq_nil {α : Type} {ellipsis : α} {maxLines : Nat} {lines : List α} :
    boundLines ellipsis maxLines lines = [] ↔ lines = [] := by
  unfold boundLines
  split
  case isTrue hlong =>
    have hne : lines ≠ [] := by
      rintro rfl
      exact absurd hlong (Nat.not_lt_zero _)
    simp [hne]
  case isFalse => rfl

theorem mem_boundLines {α : Type} {ellipsis line : α} {maxLines : Nat} {lines : List α}
    (h : line ∈ boundLines ellipsis maxLines lines) : line = ellipsis ∨ line ∈ lines := by
  unfold boundLines at h
  split at h
  · rcases List.mem_append.mp h with h | h
    · exact .inr (List.mem_of_mem_take (List.dropLast_subset _ h))
    · exact .inl (List.mem_singleton.mp h)
  · exact .inr h

theorem refreshStdout_string (hT : Suitable T) (size : Option (Nat × Nat)) (prevLines : List String)
    (lines : List (StyledLine T)) : refreshStdout size prevLines (lines.map StyledLine.string) =
      some (repaint prevLines ((boundFrame hT size lines).map StyledLine.string),
        (boundFrame hT size lines).map StyledLine.string) := by
  have hfit : (lines.map StyledLine.string).mapM (fitLine · (size.getD (120, 40)).1) =
      some ((lines.map (fitStyled hT (size.getD (120, 40)).1)).map StyledLine.string) := by
    induction lines with
    | nil => rfl
    | cons line lines ih =>
      rw [List.map_cons, List.mapM_cons, fitLine_string hT, ih]
      rfl
  unfold refreshStdout
  dsimp only
  rw [hfit, Option.map_some, show "…" = (ellipsisLine hT).string from rfl, boundLines_map]
  rfl

end

end ReactRuntime.Transport
