import ReactRuntime.Transport.ScreenContents
import ReactRuntime.Transport.TerminalFocus

/-!
# The terminal thread

The thread waits for events, applies all that are queued and paints. It paints rows, not frames, and
many events may go into one frame; still the screen shows the state after the events that were applied
when it painted last.
-/
namespace ReactRuntime.Transport.TerminalUi
open ReactRuntime.Core Library Serde

/-- What `recv_timeout` returns; an event comes with those that are queued behind it. -/
inductive Received where
  | events (first : TerminalEvent) (queued : List TerminalEvent)
  | timeout
  | disconnected

/-- One turn of the loop: what is received, the time, and the size of the terminal when it paints. -/
structure Turn where
  received : Received
  now : Nat
  size : Option (Nat × Nat)

def isShutdown : TerminalEvent → Bool
  | .shutdown => true
  | _ => false

/-- The events are applied one after the other; at a shutdown the loop is left. -/
def drain (lower : String → String) (now : Nat) (m : Model) : List TerminalEvent → Option Model
  | [] => some m
  | ev :: evs => if isShutdown ev then none else drain lower now (m.applyEvent lower now ev) evs

variable {Pen : Type}

/-- What the thread keeps, and the screen that it paints on. -/
structure TerminalThread (Pen : Type) where
  prevLines : List String
  screen : Screen Pen

def TerminalThread.refresh (T : Terminal Pen) (size : Option (Nat × Nat)) (lines : List String)
    (th : TerminalThread Pen) : Option (TerminalThread Pen) :=
  (refreshStdout size th.prevLines lines).map fun (outs, newLines) =>
    ⟨newLines, execAll T outs th.screen⟩

section
variable (lower : String → String) (T : Terminal Pen) (render : Nat → Model → List String)

/-- The loop of `run_terminal`; `none` is a panic. -/
def uiLoop (th : TerminalThread Pen) (m : Model) : List Turn → Option (TerminalThread Pen)
  | [] => some th
  | turn :: turns => match turn.received with
    | .disconnected => some th
    | .timeout => (th.refresh T turn.size (render turn.now m)).bind fun th => uiLoop th m turns
    | .events first queued => match drain lower turn.now m (first :: queued) with
      | none => some th
      | some m => (th.refresh T turn.size (render turn.now m)).bind fun th => uiLoop th m turns

/-- `run_terminal`, on a terminal that is in the state `screen` and of size `size` at first. -/
def runTerminal (screen : Screen Pen) (size : Option (Nat × Nat)) (turns : List Turn) :
    Option (TerminalThread Pen) :=
  (TerminalThread.refresh T size (render 0 .default) ⟨[], screen⟩).bind fun th =>
    uiLoop lower T render th .default turns

end

/-- When the thread painted last, and which events it had applied then. -/
structure LastPaint where
  size : Option (Nat × Nat)
  now : Nat
  events : List (Nat × TerminalEvent)

/-- The paint at the end of a turn, unless the loop is left. -/
def LastPaint.next (last : LastPaint) (turn : Turn) : Option LastPaint := match turn.received with
  | .disconnected => none
  | .timeout => some { last with size := turn.size, now := turn.now }
  | .events first queued =>
    if (first :: queued).any isShutdown then none
    else some ⟨turn.size, turn.now, last.events ++ (first :: queued).map fun ev => (turn.now, ev)⟩

def lastPaint (last : LastPaint) : List Turn → LastPaint
  | [] => last
  | turn :: turns => match last.next turn with
    | none => last
    | some next => lastPaint next turns

theorem LastPaint.size_next {last next : LastPaint} {turn : Turn} (h : last.next turn = some next) :
    next.size = turn.size := by
  rw [LastPaint.next] at h
  split at h
  case h_1 => cases h
  case h_2 => cases h; rfl
  case h_3 =>
    split_ifs at h
    cases h
    rfl

/-- The lines of the state that is painted. -/
def LastPaint.text (lower : String → String) (render : Nat → Model → List String) (last : LastPaint) :
    List String :=
  render last.now (Model.default.applyAll lower last.events)

/-- Each line takes one row: characters of one column, among them no line breaks and no other controls,
and colours that it resets at its end. -/
def OneRowEach (T : Terminal Pen) (text : List String) : Prop :=
  text ≠ [] ∧ ∃ lines : List (StyledLine T), lines.map StyledLine.string = text

/-- The reported size is not beyond the terminal, nor is the least size that the thread paints. -/
structure FitsTerminal (T : Terminal Pen) (size : Option (Nat × Nat)) : Prop where
  width : max (size.getD (120, 40)).1 10 ≤ T.width
  height : max (size.getD (120, 40)).2 3 ≤ T.height

section
variable {lower : String → String} {T : Terminal Pen} {now : Nat} {m : Model}

theorem fitsTerminal_lastPaint {last : LastPaint} (hlast : FitsTerminal T last.size) {turns : List Turn}
    (hsizes : ∀ turn ∈ turns, FitsTerminal T turn.size) :
    FitsTerminal T (lastPaint last turns).size := by
  induction turns generalizing last with
  | nil => exact hlast
  | cons turn turns ih =>
    rw [lastPaint]
    cases hnext : last.next turn with
    | none => exact hlast
    | some next =>
      refine ih ?_ fun t ht => hsizes t (List.mem_cons_of_mem turn ht)
      rw [LastPaint.size_next hnext]
      exact hsizes turn List.mem_cons_self

theorem drain_eq (evs : List TerminalEvent) : drain lower now m evs =
    if evs.any isShutdown then none else some (m.applyAll lower (evs.map fun ev => (now, ev))) := by
  induction evs generalizing m with
  | nil => rfl
  | cons ev evs ih =>
    rw [drain, List.any_cons]
    cases hev : isShutdown ev with
    | true => simp
    | false =>
      rw [ih, Bool.false_or]
      rfl

theorem inView_boundFrame (hT : Suitable T) {size : Option (Nat × Nat)} (hsize : FitsTerminal T size)
    (lines : List (StyledLine T)) : InView T (boundFrame hT size lines) where
  columns := by
    intro line hline
    have hwidth := hsize.width
    rcases mem_boundLines hline with rfl | hline
    · have hone : (ellipsisLine hT).columns = 1 := rfl
      omega
    · obtain ⟨whole, -, rfl⟩ := List.mem_map.mp hline
      have hcut : (fitStyled hT (size.getD (120, 40)).1 whole).columns ≤ max (size.getD (120, 40)).1 10 :=
        length_glyphs_fitTokens (by omega) whole.tokens
      omega
  rows := (length_boundLines_le _ (by omega) _).trans hsize.height

/-- The thread remembers the lines that it painted, and the screen shows them. -/
structure Shows (th : TerminalThread Pen) (lines : List (StyledLine T)) : Prop where
  prevLines : th.prevLines = lines.map StyledLine.string
  inView : InView T lines
  pen : th.screen.pen = T.plain
  cell : lines ≠ [] → th.screen.cell = picture lines

theorem Shows.refresh (hT : Suitable T) {th : TerminalThread Pen} {old : List (StyledLine T)}
    (h : Shows th old) {size : Option (Nat × Nat)} (hsize : FitsTerminal T size)
    {lines : List (StyledLine T)} (hne : lines ≠ []) :
    ∃ th', th.refresh T size (lines.map StyledLine.string) = some th' ∧
      Shows th' (boundFrame hT size lines) := by
  have hview := inView_boundFrame hT hsize lines
  have hbound : boundFrame hT size lines ≠ [] := by
    rw [boundFrame, Ne, boundLines_eq_nil, List.map_eq_nil_iff]
    exact hne
  obtain ⟨hpen, hcell⟩ := repaint_picture hT h.inView hview h.pen
    fun hold => hold.elim h.cell fun hnil => absurd hnil hbound
  rw [TerminalThread.refresh, refreshStdout_string hT, h.prevLines]
  exact ⟨_, rfl, ⟨rfl, hview, hpen, fun _ => hcell⟩⟩

/-- However a text is taken apart into colours and characters, it looks the same. -/
theorem picture_boundFrame_congr (hT : Suitable T) {size : Option (Nat × Nat)}
    (hsize : FitsTerminal T size) {lines lines' : List (StyledLine T)}
    (h : lines.map StyledLine.string = lines'.map StyledLine.string) :
    picture (boundFrame hT size lines) = picture (boundFrame hT size lines') := by
  have hsame := congrArg (refreshStdout size []) h
  rw [refreshStdout_string hT, refreshStdout_string hT] at hsame
  exact picture_congr (inView_boundFrame hT hsize lines) (inView_boundFrame hT hsize lines')
    (congrArg Prod.snd (Option.some.inj hsame))

/-- A paint after a frame that is shown shows the lines of the state. -/
theorem Shows.paint (hT : Suitable T) {th : TerminalThread Pen} {old : List (StyledLine T)}
    (h : Shows th old) {size : Option (Nat × Nat)} (hsize : FitsTerminal T size) {text : List String}
    (htext : OneRowEach T text) :
    ∃ th', th.refresh T size text = some th' ∧
      ∃ lines, lines.map StyledLine.string = text ∧ Shows th' (boundFrame hT size lines) := by
  obtain ⟨hne, lines, rfl⟩ := htext
  have hlines : lines ≠ [] := fun hnil => hne (hnil ▸ List.map_nil)
  obtain ⟨th', hrefresh, hshows⟩ := h.refresh hT hsize hlines
  exact ⟨th', hrefresh, lines, rfl, hshows⟩

variable {render : Nat → Model → List String}

theorem uiLoop_cons (th : TerminalThread Pen) (last : LastPaint) (turn : Turn) (turns : List Turn) :
    uiLoop lower T render th (Model.default.applyAll lower last.events) (turn :: turns) =
      match last.next turn with
      | none => some th
      | some next => (th.refresh T next.size (next.text lower render)).bind fun th =>
        uiLoop lower T render th (Model.default.applyAll lower next.events) turns := by
  rw [uiLoop, LastPaint.next]
  cases turn.received with
  | disconnected => rfl
  | timeout => rfl
  | events first queued =>
    dsimp only
    rw [drain_eq]
    split_ifs
    case pos => rfl
    case neg =>
      have hmodel : (Model.default.applyAll lower last.events).applyAll lower
          ((first :: queued).map fun ev => (turn.now, ev)) =
          Model.default.applyAll lower
            (last.events ++ (first :: queued).map fun ev => (turn.now, ev)) :=
        (List.foldl_append ..).symm
      rw [hmodel]
      rfl

theorem uiLoop_shows (hT : Suitable T) {turns : List Turn}
    (hsizes : ∀ turn ∈ turns, FitsTerminal T turn.size) (th : TerminalThread Pen) (last : LastPaint)
    (hrows : ∀ front, front <+: turns → OneRowEach T ((lastPaint last front).text lower render))
    (h : ∃ lines, lines.map StyledLine.string = last.text lower render ∧
      Shows th (boundFrame hT last.size lines)) :
    ∃ th', uiLoop lower T render th (Model.default.applyAll lower last.events) turns = some th' ∧
      ∃ lines, lines.map StyledLine.string = (lastPaint last turns).text lower render ∧
        Shows th' (boundFrame hT (lastPaint last turns).size lines) := by
  induction turns generalizing th last with
  | nil => exact ⟨th, rfl, h⟩
  | cons turn turns ih =>
    rw [uiLoop_cons, lastPaint]
    cases hnext : last.next turn with
    | none => exact ⟨th, rfl, h⟩
    | some next =>
      have hlater (front : List Turn) (hfront : front <+: turns) :
          OneRowEach T ((lastPaint next front).text lower render) := by
        have hpainted := hrows (turn :: front) (List.cons_prefix_cons.mpr ⟨rfl, hfront⟩)
        rwa [lastPaint, hnext] at hpainted
      have hsize : FitsTerminal T next.size := by
        rw [LastPaint.size_next hnext]
        exact hsizes turn List.mem_cons_self
      have hrow : OneRowEach T (next.text lower render) := hlater [] List.nil_prefix
      obtain ⟨old, -, hold⟩ := h
      obtain ⟨th', hrefresh, hshows⟩ := hold.paint hT hsize hrow
      dsimp only
      rw [hrefresh, Option.bind_some]
      exact ih (fun t ht => hsizes t (List.mem_cons_of_mem turn ht)) th' next hlater hshows

end

/-- Whatever a screen showed before, and however the events come, as long as each line of the states that
are painted takes one row, the thread does not panic and the screen shows the state after the events
that were applied when it painted last: the lines of this state, cut to the viewport, and nothing
else, as if no other frame had ever been painted. -/
theorem terminal_shows_last_state (lower : String → String) {T : Terminal Pen} (hT : Suitable T)
    (render : Nat → Model → List String) (screen : Screen Pen) (hpen : screen.pen = T.plain)
    {size : Option (Nat × Nat)} (hsize : FitsTerminal T size) (turns : List Turn)
    (hsizes : ∀ turn ∈ turns, FitsTerminal T turn.size)
    (hrows : ∀ front, front <+: turns →
      OneRowEach T ((lastPaint ⟨size, 0, []⟩ front).text lower render)) :
    ∃ th, runTerminal lower T render screen size turns = some th ∧
      ∀ lines, lines.map StyledLine.string = (lastPaint ⟨size, 0, []⟩ turns).text lower render →
        th.screen.cell = picture (boundFrame hT (lastPaint ⟨size, 0, []⟩ turns).size lines) := by
  let blank : TerminalThread Pen := ⟨[], screen⟩
  have hblank : Shows blank ([] : List (StyledLine T)) :=
    ⟨rfl, ⟨nofun, Nat.zero_le _⟩, hpen, fun h => absurd rfl h⟩
  have hrow : OneRowEach T (render 0 .default) := hrows [] List.nil_prefix
  obtain ⟨th, hrefresh, hfirst⟩ := hblank.paint hT hsize hrow
  obtain ⟨th', hloop, lines, htext, hshows⟩ := uiLoop_shows hT hsizes th ⟨size, 0, []⟩ hrows hfirst
  refine ⟨th', ?_, fun lines' htext' => ?_⟩
  · rw [runTerminal, hrefresh, Option.bind_some]
    exact hloop
  · have hbound : boundFrame hT (lastPaint ⟨size, 0, []⟩ turns).size lines ≠ [] := by
      rw [boundFrame, Ne, boundLines_eq_nil, List.map_eq_nil_iff]
      rintro rfl
      exact (hrows turns List.prefix_rfl).1 htext.symm
    rw [hshows.cell hbound]
    exact picture_boundFrame_congr hT (fitsTerminal_lastPaint hsize hsizes) (htext.trans htext'.symm)

/-- A terminal that knows resets and colours. -/
def smallTerminal : Terminal (List Char) where
  width := 12
  height := 3
  glyph := fun c => c ≠ '\x1b'
  plain := []
  sgr := fun params _ => if params = ['0'] then [] else params
  other := fun _ s => s
  glyph_escape := by decide

theorem smallTerminal_suitable : Suitable smallTerminal := ⟨by decide, fun _ => rfl, by decide⟩

/-- A long green line. -/
def greenLine : StyledLine smallTerminal :=
  ⟨.sgr ['3', '2'] :: List.replicate 13 (.glyph 'a') ++ [.sgr ['0']],
    by simp [Terminal.Shown, smallTerminal, Token.isParam], by decide⟩

/-- The frame gets shorter as soon as a thread is selected. -/
def greenFrame (m : Model) : List (StyledLine smallTerminal) :=
  if m.selected.isSome then [greenLine] else [greenLine, greenLine]

theorem greenFrame_ne_nil (m : Model) : greenFrame m ≠ [] := by
  unfold greenFrame
  split <;> simp

theorem oneRowEach_greenFrame (m : Model) :
    OneRowEach smallTerminal ((greenFrame m).map StyledLine.string) :=
  ⟨List.map_eq_nil_iff.not.mpr (greenFrame_ne_nil m), _, rfl⟩

theorem terminal_shows_last_state_small : ∃ th,
    runTerminal id smallTerminal (fun _ m => (greenFrame m).map StyledLine.string)
      ⟨fun _ _ => ('x', []), 2, 5, [], .ground⟩ (some (12, 3))
      [⟨.events (startEvent "t1" "a" "i1") [], 1, some (12, 3)⟩] = some th ∧
      th.screen.cell 0 10 = ('a', ['3', '2']) ∧ th.screen.cell 0 11 = ('…', ['3', '2']) ∧
      th.screen.cell 1 0 = (' ', []) := by
  have hfits : FitsTerminal smallTerminal (some (12, 3)) := ⟨by decide, by decide⟩
  obtain ⟨th, hrun, hcell⟩ := terminal_shows_last_state id smallTerminal_suitable
    (fun _ m => (greenFrame m).map StyledLine.string) ⟨fun _ _ => ('x', []), 2, 5, [], .ground⟩ rfl hfits
    [⟨.events (startEvent "t1" "a" "i1") [], 1, some (12, 3)⟩]
    (fun turn hturn => by rw [List.mem_singleton.mp hturn]; exact hfits)
    (fun front _ => oneRowEach_greenFrame _)
  refine ⟨th, hrun, ?_, ?_, ?_⟩
  all_goals rw [hcell (greenFrame _) rfl]
  all_goals decide +kernel

end ReactRuntime.Transport.TerminalUi
