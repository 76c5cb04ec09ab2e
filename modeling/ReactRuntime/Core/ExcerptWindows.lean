import ReactRuntime.Core.ErrorContext
import ReactRuntime.Library.Filling

/-!
# What an excerpt shows

The pieces of an excerpt are its lines, the first one of each range with the header in front of it.
They are put down from the top, whichever of them have a keyword, until the budget is reached.
-/
namespace ReactRuntime.Core
open Library

def linePieces (lead : List Char) : List (List Char) → List (List Char)
  | [] => []
  | line :: rest => (lead ++ lineText line ++ ['\n']) :: linePieces [] rest

/-- What stands in front of the first line of a range. -/
def rangeLead (first : Bool) (r : Nat × Nat) : List Char :=
  (if first then [] else ['\n']) ++ (excerptHeader r.1 r.2).toList

def rangeLines (lines : List (List Char)) (r : Nat × Nat) : List (List Char) :=
  (lines.take r.2).drop r.1

def pieces (lines : List (List Char)) : Bool → List (Nat × Nat) → List (List Char)
  | _, [] => []
  | first, r :: rest => linePieces (rangeLead first r) (rangeLines lines r) ++ pieces lines false rest

theorem flatten_linePieces_ne_nil {lead : List Char} {ls : List (List Char)} (hne : ls ≠ []) :
    (linePieces lead ls).flatten ≠ [] := by
  cases ls with
  | nil => exact absurd rfl hne
  | cons line rest => simp [linePieces]

section Filled
variable {maxChars totalLines : Nat} {lines : List (List Char)}

/-- What the loops of an excerpt do with pieces behind a text. -/
def filled (maxChars totalLines : Nat) (acc : Excerpt) (ps : List (List Char)) :
    Except (List Char × List Char) Excerpt :=
  match reach (maxChars - acc.out.length) ps with
  | none => .ok ⟨acc.out ++ ps.flatten, acc.includedLines + ps.length⟩
  | some n =>
    .error (Excerpt.cut ⟨acc.out ++ (ps.take n).flatten, acc.includedLines + n⟩ maxChars totalLines)

theorem filled_nil (acc : Excerpt) : filled maxChars totalLines acc [] = .ok acc := by
  simp [filled, reach]

/-- The first of the pieces, and the others behind it. -/
theorem filled_cons {acc : Excerpt} (hlt : acc.out.length < maxChars) (p : List Char)
    (ps : List (List Char)) : filled maxChars totalLines acc (p :: ps) =
      if (acc.out ++ p).length ≥ maxChars then
        .error (Excerpt.cut ⟨acc.out ++ p, acc.includedLines + 1⟩ maxChars totalLines)
      else filled maxChars totalLines ⟨acc.out ++ p, acc.includedLines + 1⟩ ps := by
  have hreached : maxChars - acc.out.length ≤ p.length ↔ (acc.out ++ p).length ≥ maxChars := by
    rw [List.length_append]
    omega
  rw [filled, filled, reach]
  simp only [hreached]
  split_ifs with hfull
  · simp
  · have hrest : maxChars - acc.out.length - p.length = maxChars - (acc.out ++ p).length := by
      rw [List.length_append]
      omega
    rw [hrest]
    cases reach (maxChars - (acc.out ++ p).length) ps with
    | none => simp [Nat.add_assoc, Nat.add_comm 1]
    | some n => simp [Nat.add_assoc, Nat.add_comm 1]

/-- Pieces behind pieces. -/
theorem filled_append {acc : Excerpt} (hlt : acc.out.length < maxChars) (ps qs : List (List Char)) :
    filled maxChars totalLines acc (ps ++ qs) =
      (filled maxChars totalLines acc ps).bind fun acc => filled maxChars totalLines acc qs := by
  induction ps generalizing acc with
  | nil => rw [List.nil_append, filled_nil]; rfl
  | cons p ps ih =>
    rw [List.cons_append, filled_cons hlt, filled_cons hlt]
    split_ifs with hfull
    · rfl
    · exact ih (Nat.lt_of_not_le hfull)

theorem pushLines_eq_filled {out lead : List Char} {includedLines : Nat} {ls : List (List Char)}
    (hlt : out.length < maxChars) (hlead : ls = [] → lead = []) :
    pushLines maxChars totalLines ⟨out ++ lead, includedLines⟩ ls =
      filled maxChars totalLines ⟨out, includedLines⟩ (linePieces lead ls) := by
  induction ls generalizing out lead includedLines with
  | nil => rw [hlead rfl, linePieces, filled_nil, List.append_nil, pushLines]
  | cons line rest ih =>
    have hpush : (⟨out ++ lead, includedLines⟩ : Excerpt).push line =
        ⟨out ++ (lead ++ lineText line ++ ['\n']), includedLines + 1⟩ := by
      simp only [Excerpt.push, List.append_assoc]
    rw [linePieces, filled_cons hlt, pushLines, hpush]
    split_ifs with hfull
    · rfl
    · rw [← ih (Nat.lt_of_not_le hfull) fun _ => rfl, List.append_nil]

theorem filled_eq_ok {acc acc' : Excerpt} {ps : List (List Char)} (hlt : acc.out.length < maxChars)
    (h : filled maxChars totalLines acc ps = .ok acc') :
    acc'.out = acc.out ++ ps.flatten ∧ acc'.out.length < maxChars := by
  rw [filled] at h
  cases hreach : reach (maxChars - acc.out.length) ps with
  | some n =>
    simp only [hreach] at h
    cases h
  | none =>
    simp only [hreach] at h
    cases h
    rw [reach_eq_none (Nat.sub_pos_of_lt hlt)] at hreach
    refine ⟨rfl, ?_⟩
    rw [List.length_append]
    omega

theorem pushRanges_cons (acc : Excerpt) (r : Nat × Nat) (ranges : List (Nat × Nat)) :
    pushRanges maxChars lines acc (r :: ranges) =
      (pushLines maxChars lines.length ⟨acc.out ++ rangeLead acc.out.isEmpty r, acc.includedLines⟩
        (rangeLines lines r)).bind fun acc => pushRanges maxChars lines acc ranges := by
  have hlead : acc.out ++ rangeLead acc.out.isEmpty r =
      (if acc.out.isEmpty then acc.out else acc.out ++ ['\n']) ++
        (excerptHeader r.1 r.2).toList := by
    rw [rangeLead]
    split_ifs
    · rfl
    · rw [List.append_assoc]
  rw [hlead]
  rfl

/-- The loops put the pieces down one behind the other. -/
theorem pushRanges_eq_filled {ranges : List (Nat × Nat)} {acc : Excerpt}
    (hlt : acc.out.length < maxChars) (hranges : ∀ r ∈ ranges, rangeLines lines r ≠ []) :
    pushRanges maxChars lines acc ranges =
      filled maxChars lines.length acc (pieces lines acc.out.isEmpty ranges) := by
  induction ranges generalizing acc with
  | nil => rw [pushRanges, pieces, filled_nil]
  | cons r ranges ih =>
    obtain ⟨hr, hranges⟩ := List.forall_mem_cons.mp hranges
    have hlines : pushLines maxChars lines.length
        ⟨acc.out ++ rangeLead acc.out.isEmpty r, acc.includedLines⟩ (rangeLines lines r) =
          filled maxChars lines.length acc
            (linePieces (rangeLead acc.out.isEmpty r) (rangeLines lines r)) :=
      pushLines_eq_filled hlt fun hnil => absurd hnil hr
    rw [pushRanges_cons, pieces, filled_append hlt, hlines]
    cases hfilled : filled maxChars lines.length acc
        (linePieces (rangeLead acc.out.isEmpty r) (rangeLines lines r)) with
    | error parts => rfl
    | ok acc' =>
      obtain ⟨hout, hlt'⟩ := filled_eq_ok hlt hfilled
      have hsome : acc'.out.isEmpty = false := by
        rw [List.isEmpty_eq_false_iff, hout]
        exact fun hnil => flatten_linePieces_ne_nil hr (List.append_eq_nil_iff.mp hnil).2
      have hrest := ih hlt' hranges
      rw [hsome] at hrest
      exact hrest

end Filled

theorem lt_of_covers {patterns : List String} {lines : List (List Char)} {i : Nat}
    (h : Ranges.Covers (keywordRanges patterns lines ++ edgeRanges lines) i) : i < lines.length := by
  obtain ⟨r, hr, -, hi⟩ := h
  rcases List.mem_append.mp hr with hr | hr
  · obtain ⟨l, -, rfl⟩ := List.mem_map.mp hr
    exact hi.trans_le (min_le_right ..)
  · rw [edgeRanges] at hr
    split_ifs at hr <;> simp at hr <;> grind

/-- The merged ranges are inside the text, and there is a gap between any two. -/
theorem excerptRanges_spec (patterns : List String) (lines : List (List Char)) :
    (∀ r ∈ excerptRanges patterns lines, r.1 < r.2 ∧ r.2 ≤ lines.length) ∧
      (excerptRanges patterns lines).Pairwise (fun a b => a.2 < b.1) ∧
      ∀ i, Ranges.Covers (excerptRanges patterns lines) i ↔
        Ranges.Covers (keywordRanges patterns lines ++ edgeRanges lines) i := by
  obtain ⟨hlt, hgap, hcovers⟩ :=
    Ranges.merge_spec (keywordRanges patterns lines ++ edgeRanges lines)
  refine ⟨fun r hr => ⟨hlt r hr, ?_⟩, hgap, hcovers⟩
  have hlast : Ranges.Covers (excerptRanges patterns lines) (r.2 - 1) := by
    have hr' := hlt r hr
    exact ⟨r, hr, by omega, by omega⟩
  have hinside := lt_of_covers ((hcovers _).mp hlast)
  omega

theorem rangeLines_ne_nil {lines : List (List Char)} {r : Nat × Nat} (hlt : r.1 < r.2)
    (hle : r.2 ≤ lines.length) : rangeLines lines r ≠ [] := by
  apply List.ne_nil_of_length_pos
  rw [rangeLines, List.length_drop, List.length_take]
  omega

section
variable (patterns : List String) (lines : List (List Char))

def layout : List (List Char) := pieces lines true (excerptRanges patterns lines)

/-- How much of the layout an excerpt keeps. -/
def room (maxChars : Nat) : Nat :=
  match reach maxChars (layout patterns lines) with
  | none => (layout patterns lines).flatten.length
  | some n => maxChars - (omittedMarker maxChars n lines.length).length

def linesText (ls : List (List Char)) : List Char := ls.flatMap fun line => lineText line ++ ['\n']

/-- What stands in front of a line. -/
def textBefore : Bool → List (Nat × Nat) → Nat → List Char
  | _, [], _ => []
  | first, r :: rest, i =>
    rangeLead first r ++
      if i < r.2 then linesText ((lines.take i).drop r.1)
      else linesText (rangeLines lines r) ++ textBefore false rest i

def excerptBefore (i : Nat) : List Char := textBefore lines true (excerptRanges patterns lines) i

end

section
variable {patterns : List String} {lines : List (List Char)}

theorem room_le (maxChars : Nat) :
    room patterns lines maxChars ≤ (layout patterns lines).flatten.length := by
  unfold room
  split
  · exact Nat.le_refl _
  case h_2 n hreach =>
    have hreached := le_of_reach hreach
    have htake : ((layout patterns lines).take n).flatten.length ≤
        (layout patterns lines).flatten.length :=
      ((List.take_prefix n _).flatten).length_le
    omega

theorem take_of_isPrefix {xs ys : List Char} {n : Nat} (h : xs <+: ys) (hn : n ≤ xs.length) :
    xs.take n = ys.take n := by
  obtain ⟨more, rfl⟩ := h
  rw [List.take_append_of_le_length hn]

/-- An excerpt is the start of the layout that there is room for. -/
theorem excerptParts_fst (text : String) (maxChars : Nat) (hne : Core.lines text.toList ≠ []) :
    (excerptParts text maxChars patterns).1 =
      (layout patterns (Core.lines text.toList)).flatten.take
        (room patterns (Core.lines text.toList) (max maxChars MIN_EXCERPT_CHARS)) := by
  have hpos : 0 < max maxChars MIN_EXCERPT_CHARS := lt_max_of_lt_right (by decide)
  have hranges : ∀ r ∈ excerptRanges patterns (Core.lines text.toList),
      rangeLines (Core.lines text.toList) r ≠ [] := by
    intro r hr
    obtain ⟨hlt, hle⟩ := (excerptRanges_spec patterns _).1 r hr
    exact rangeLines_ne_nil hlt hle
  have hfilled : pushRanges (max maxChars MIN_EXCERPT_CHARS) (Core.lines text.toList) ⟨[], 0⟩
      (excerptRanges patterns (Core.lines text.toList)) =
        filled (max maxChars MIN_EXCERPT_CHARS) (Core.lines text.toList).length ⟨[], 0⟩
          (layout patterns (Core.lines text.toList)) := pushRanges_eq_filled hpos hranges
  unfold excerptParts
  dsimp only
  rw [if_neg (by simpa using hne), hfilled, filled, room]
  simp only [List.length_nil, Nat.sub_zero, List.nil_append, Nat.zero_add]
  cases hreach : reach (max maxChars MIN_EXCERPT_CHARS) (layout patterns (Core.lines text.toList)) with
  | none =>
    rw [reach_eq_none hpos] at hreach
    dsimp only
    rw [List.take_length, List.take_of_length_le (Nat.le_of_lt hreach)]
  | some n =>
    have hreached := le_of_reach hreach
    have hfront : ((layout patterns (Core.lines text.toList)).take n).flatten <+:
        (layout patterns (Core.lines text.toList)).flatten := (List.take_prefix n _).flatten
    dsimp only [Excerpt.cut]
    exact take_of_isPrefix hfront (by omega)

theorem flatten_linePieces {lead : List Char} {ls : List (List Char)} (hne : ls ≠ []) :
    (linePieces lead ls).flatten = lead ++ linesText ls := by
  induction ls generalizing lead with
  | nil => exact absurd rfl hne
  | cons line rest ih =>
    rw [linePieces, List.flatten_cons, linesText, List.flatMap_cons, List.append_assoc,
      List.append_assoc]
    by_cases hrest : rest = []
    · simp [hrest, linePieces]
    · rw [ih hrest, List.nil_append, linesText, List.append_assoc]

theorem textBefore_isPrefix {ranges : List (Nat × Nat)} {first : Bool} {i : Nat} {line : List Char}
    (hinside : ∀ r ∈ ranges, r.1 < r.2 ∧ r.2 ≤ lines.length)
    (hgap : ranges.Pairwise fun a b => a.2 < b.1) (hcovers : Ranges.Covers ranges i)
    (hline : lines[i]? = some line) :
    textBefore lines first ranges i ++ (lineText line ++ ['\n']) <+:
      (pieces lines first ranges).flatten := by
  induction ranges generalizing first with
  | nil =>
    obtain ⟨r, hr, -⟩ := hcovers
    cases hr
  | cons r ranges ih =>
    obtain ⟨hr, hinside⟩ := List.forall_mem_cons.mp hinside
    obtain ⟨hnext, hgap⟩ := List.pairwise_cons.mp hgap
    rw [pieces, List.flatten_append, flatten_linePieces (rangeLines_ne_nil hr.1 hr.2), textBefore,
      List.append_assoc, List.append_assoc]
    apply (List.prefix_append_right_inj _).mpr
    split_ifs with hi
    · have hstart : r.1 ≤ i := by
        rcases Ranges.covers_cons.mp hcovers with hcovered | ⟨r', hr', hle, -⟩
        · exact hcovered.1
        · exact absurd (hnext r' hr') (by omega)
      have hsplit : rangeLines lines r =
          (lines.take i).drop r.1 ++ line :: (lines.take r.2).drop (i + 1) := by
        have hinside : (lines.take r.2)[i]? = some line := by
          rw [List.getElem?_take_of_lt hi, hline]
        have hfront : (lines.take r.2).take i = lines.take i := by
          rw [List.take_take, Nat.min_eq_left (Nat.le_of_lt hi)]
        obtain ⟨hlength, hget⟩ := List.getElem?_eq_some_iff.mp hinside
        rw [rangeLines, ← hget, ← List.drop_eq_getElem_cons hlength, ← hfront,
          ← List.drop_append_of_le_length, List.take_append_drop]
        rw [List.length_take]
        omega
      rw [hsplit]
      simp only [linesText, List.flatMap_append, List.flatMap_cons, List.append_assoc]
      exact (List.prefix_append_right_inj _).mpr
        ((List.prefix_append_right_inj _).mpr (List.prefix_append _ _))
    · have hrest : Ranges.Covers ranges i := by
        rcases Ranges.covers_cons.mp hcovers with hcovered | hcovered
        · exact absurd hcovered.2 hi
        · exact hcovered
      rw [List.append_assoc]
      exact (List.prefix_append_right_inj _).mpr (ih hinside hgap hrest)

end

theorem mem_splitInclusive {s line : List Char} (h : line ∈ splitInclusive s) :
    ∃ front, '\n' ∉ front ∧ (line = front ∨ line = front ++ ['\n']) := by
  induction s generalizing line with
  | nil => cases h
  | cons c rest ih =>
    rw [splitInclusive] at h
    split_ifs at h with hc
    · rcases List.mem_cons.mp h with rfl | hrest
      · exact ⟨[], by simp, .inr (by rw [hc]; rfl)⟩
      · exact ih hrest
    · cases hrest : splitInclusive rest with
      | nil =>
        rw [hrest, List.mem_singleton] at h
        exact ⟨[c], by simpa using Ne.symm hc, .inl h⟩
      | cons first more =>
        rw [hrest] at h ih
        rcases List.mem_cons.mp h with rfl | hmore
        · obtain ⟨front, hfront, hfirst⟩ := ih List.mem_cons_self
          refine ⟨c :: front, by simp [hfront, Ne.symm hc], ?_⟩
          rcases hfirst with rfl | rfl
          · exact .inl rfl
          · exact .inr rfl
        · exact ih (List.mem_cons_of_mem first hmore)

theorem newline_not_mem_lines {s line : List Char} (h : line ∈ lines s) : '\n' ∉ line := by
  obtain ⟨segment, hsegment, rfl⟩ := List.mem_map.mp h
  obtain ⟨front, hfront, rfl | rfl⟩ := mem_splitInclusive hsegment
  · have hlast : segment.getLast? ≠ some '\n' := fun hlast => hfront (List.mem_of_getLast? hlast)
    rwa [stripNewline, if_neg hlast]
  · rw [stripNewline, if_pos List.getLast?_concat, List.dropLast_concat]
    dsimp only
    split_ifs
    · exact fun hmem => hfront (List.mem_of_mem_dropLast hmem)
    · exact hfront

/-- A line of at most 64 characters with a pattern. -/
def Failing (patterns : List String) (lines : List (List Char)) (i : Nat) (line : List Char) : Prop :=
  lines[i]? = some line ∧ line.length ≤ 64 ∧ ∃ p ∈ patterns, p.toList <:+: line.map Char.toLower

/-- If a line fails, one that fails is in the excerpt in full at its place, and nothing of a first or
last line outside the windows is there before all lines of the windows are. -/
def ShowsFailing (text : String) (maxChars : Nat) (patterns : List String) : Prop :=
  let lines := lines text.toList
  let kept := (excerptParts text maxChars patterns).1
  ((∃ i line, Failing patterns lines i line) →
    ∃ i line, Failing patterns lines i line ∧ Ranges.Covers (excerptRanges patterns lines) i ∧
      excerptBefore patterns lines i ++ line <+: kept) ∧
  ∀ j, Ranges.Covers (edgeRanges lines) j → ¬ Ranges.Covers (keywordRanges patterns lines) j →
    excerptBefore patterns lines j <+: kept →
    (excerptBefore patterns lines j).length < kept.length →
    ∀ i line, lines[i]? = some line → Ranges.Covers (keywordRanges patterns lines) i →
      excerptBefore patterns lines i ++ lineText line <+: kept

/-- The text in front of a line that fails leaves room for it, and the text in front of a first or
last line outside the windows leaves none for it unless there is room for the windows. -/
def LeavesRoom (text : String) (maxChars : Nat) (patterns : List String) : Prop :=
  let lines := lines text.toList
  let room := room patterns lines (max maxChars MIN_EXCERPT_CHARS)
  ((∃ i line, Failing patterns lines i line) →
    ∃ i line, Failing patterns lines i line ∧ Ranges.Covers (excerptRanges patterns lines) i ∧
      lineText line = line ∧ (excerptBefore patterns lines i).length + line.length ≤ room) ∧
  ∀ j, Ranges.Covers (edgeRanges lines) j → ¬ Ranges.Covers (keywordRanges patterns lines) j →
    (excerptBefore patterns lines j).length < room →
    ∀ i line, lines[i]? = some line → Ranges.Covers (keywordRanges patterns lines) i →
      (excerptBefore patterns lines i).length + (lineText line).length ≤ room

section
variable {patterns : List String} {text : String} {i n : Nat} {line : List Char}

theorem excerptBefore_isPrefix (hcovers : Ranges.Covers (excerptRanges patterns (lines text.toList)) i)
    (hline : (lines text.toList)[i]? = some line) :
    excerptBefore patterns (lines text.toList) i ++ (lineText line ++ ['\n']) <+:
      (layout patterns (lines text.toList)).flatten := by
  obtain ⟨hinside, hgap, -⟩ := excerptRanges_spec patterns (lines text.toList)
  exact textBefore_isPrefix hinside hgap hcovers hline

theorem included_iff (hcovers : Ranges.Covers (excerptRanges patterns (lines text.toList)) i)
    (hline : (lines text.toList)[i]? = some line) :
    excerptBefore patterns (lines text.toList) i ++ lineText line <+:
        (layout patterns (lines text.toList)).flatten.take n ↔
      (excerptBefore patterns (lines text.toList) i).length + (lineText line).length ≤ n := by
  have hfront : excerptBefore patterns (lines text.toList) i ++ lineText line <+:
      (layout patterns (lines text.toList)).flatten := by
    refine List.IsPrefix.trans ?_ (excerptBefore_isPrefix hcovers hline)
    exact (List.prefix_append_right_inj _).mpr (List.prefix_append _ _)
  rw [List.prefix_take_iff, and_iff_right hfront, List.length_append]

/-- A line that is left blank is not there in full: a line has no newline in it. -/
theorem shown_iff (hcovers : Ranges.Covers (excerptRanges patterns (lines text.toList)) i)
    (hline : (lines text.toList)[i]? = some line) :
    excerptBefore patterns (lines text.toList) i ++ line <+:
        (layout patterns (lines text.toList)).flatten.take n ↔
      lineText line = line ∧
        (excerptBefore patterns (lines text.toList) i).length + line.length ≤ n := by
  by_cases hsame : lineText line = line
  · have hincluded := included_iff (n := n) hcovers hline
    rw [hsame] at hincluded
    rw [hincluded, and_iff_right hsame]
  · have hblank : lineText line = [] := by
      unfold lineText at hsame ⊢
      split_ifs at hsame ⊢
      · rfl
      · exact absurd rfl hsame
    have hplace := excerptBefore_isPrefix hcovers hline
    rw [hblank, List.nil_append] at hplace
    refine iff_of_false (fun hshown => ?_) fun h => hsame h.1
    have hstart := (List.prefix_take_iff.mp hshown).1
    have hlength : 0 < line.length := by
      apply List.length_pos_iff.mpr
      rintro rfl
      exact hsame hblank
    have hnewline : ['\n'] <+: line := by
      apply (List.prefix_append_right_inj (excerptBefore patterns (lines text.toList) i)).mp
      apply List.prefix_of_prefix_length_le hplace hstart
      rw [List.length_append, List.length_append]
      exact Nat.add_le_add_left hlength _
    exact newline_not_mem_lines (List.mem_of_getElem? hline) (hnewline.subset (by simp))

end

section
variable {text : String} {maxChars i : Nat} {patterns : List String}

theorem covers_of_window (h : Ranges.Covers (keywordRanges patterns (lines text.toList)) i) :
    Ranges.Covers (excerptRanges patterns (lines text.toList)) i :=
  ((excerptRanges_spec patterns _).2.2 i).mpr (Ranges.covers_append.mpr (.inl h))

/-- A first or last line begins in the excerpt exactly if there is room behind the text before it. -/
theorem begun_iff (h : Ranges.Covers (edgeRanges (lines text.toList)) i) :
    (excerptBefore patterns (lines text.toList) i <+:
        (layout patterns (lines text.toList)).flatten.take
          (room patterns (lines text.toList) maxChars) ∧
      (excerptBefore patterns (lines text.toList) i).length <
        ((layout patterns (lines text.toList)).flatten.take
          (room patterns (lines text.toList) maxChars)).length) ↔
    (excerptBefore patterns (lines text.toList) i).length <
      room patterns (lines text.toList) maxChars := by
  have hcovers : Ranges.Covers (keywordRanges patterns (lines text.toList) ++
      edgeRanges (lines text.toList)) i := Ranges.covers_append.mpr (.inr h)
  have hfront : excerptBefore patterns (lines text.toList) i <+:
      (layout patterns (lines text.toList)).flatten :=
    (List.prefix_append _ _).trans (excerptBefore_isPrefix
      (((excerptRanges_spec patterns _).2.2 i).mpr hcovers)
      (List.getElem?_eq_getElem (lt_of_covers hcovers)))
  rw [List.prefix_take_iff, and_iff_right hfront, List.length_take,
    Nat.min_eq_left (room_le maxChars)]
  exact and_iff_right_of_imp Nat.le_of_lt

/-- A line that is in the excerpt at its place is in the result. -/
theorem ShowsFailing.contains (h : ShowsFailing text maxChars patterns)
    (hfails : ∃ i line, Failing patterns (lines text.toList) i line) :
    ∃ i line, Failing patterns (lines text.toList) i line ∧
      line <:+: (excerptByKeywords text maxChars patterns).toList := by
  obtain ⟨i, line, hfailing, -, more, hmore⟩ := h.1 hfails
  refine ⟨i, line, hfailing, excerptBefore patterns (lines text.toList) i,
    more ++ (excerptParts text maxChars patterns).2, ?_⟩
  rw [excerptByKeywords, String.toList_ofList, ← hmore]
  simp only [List.append_assoc]

theorem shows_failing_iff (text : String) (maxChars : Nat) (patterns : List String) :
    ShowsFailing text maxChars patterns ↔ LeavesRoom text maxChars patterns := by
  by_cases hne : lines text.toList = []
  · simp [ShowsFailing, LeavesRoom, hne, Failing, Ranges.Covers, edgeRanges]
  · unfold ShowsFailing LeavesRoom
    dsimp only
    rw [excerptParts_fst text maxChars hne]
    refine and_congr (imp_congr_right fun _ => ?_) ?_
    · refine exists_congr fun i => exists_congr fun line => ?_
      refine and_congr_right fun hfailing => and_congr_right fun hcovers => ?_
      exact shown_iff hcovers hfailing.1
    · refine forall_congr' fun j => imp_congr_right fun hedge => imp_congr_right fun _ => ?_
      rw [← and_imp, begun_iff hedge]
      refine imp_congr_right fun _ => forall_congr' fun i => forall_congr' fun line => ?_
      refine imp_congr_right fun hline => imp_congr_right fun hwindow => ?_
      exact included_iff (covers_of_window hwindow) hline

end

/-- An excerpt shows a line that fails, and windows before first and last lines, exactly if the text
in front of them leaves room; then such a line is in the result. -/
theorem excerpt_shows_failing_iff (text : String) (maxChars : Nat) (patterns : List String) :
    (ShowsFailing text maxChars patterns ↔ LeavesRoom text maxChars patterns) ∧
    (LeavesRoom text maxChars patterns →
      (∃ i line, Failing patterns (lines text.toList) i line) →
      ∃ i line, Failing patterns (lines text.toList) i line ∧
        line <:+: (excerptByKeywords text maxChars patterns).toList) :=
  ⟨shows_failing_iff text maxChars patterns,
    fun h => ShowsFailing.contains ((shows_failing_iff text maxChars patterns).mpr h)⟩

/-- Eight long lines in front of one that fails. -/
def longHead : List (List Char) :=
  List.replicate 8 (List.replicate 40 'x') ++ [['p', 'a', 'n', 'i', 'c']]

theorem excerptRanges_longHead : excerptRanges ["panic"] longHead = [(0, 9)] := by
  have hwindows : keywordRanges ["panic"] longHead ++ edgeRanges longHead = [(5, 9), (0, 9)] := by
    decide +kernel
  have hsorted : sortBy toLex [(5, 9), (0, 9)] = [(0, 9), (5, 9)] := by
    rw [sortBy_eq_of_perm (.swap ..) (by decide)]
    exact List.mergeSort_of_pairwise (by decide)
  rw [excerptRanges, hwindows, mergeOverlappingRanges, Ranges.merge, hsorted]
  decide

/-- The first lines fill the budget, and the one that fails is not in the excerpt. -/
theorem excerpt_misses_failing : ¬ ∀ (text : String) (maxChars : Nat) (patterns : List String),
    (∀ p ∈ patterns, p.toList.map Char.toLower = p.toList) →
    (∃ i line, Failing patterns (lines text.toList) i line) →
    ∃ i line, Failing patterns (lines text.toList) i line ∧
      line <:+: (excerptByKeywords text maxChars patterns).toList := by
  intro h
  have htext : lines (joinChar '\n' (longHead.map .ofList)).toList = longHead := by
    rw [joinChar, String.toList_ofList, List.map_map]
    decide +kernel
  have hresult : ¬ ['p', 'a', 'n', 'i', 'c'] <:+:
      (excerptByKeywords (joinChar '\n' (longHead.map .ofList)) 256 ["panic"]).toList := by
    simp only [excerptByKeywords, excerptParts, String.toList_ofList, htext, excerptRanges_longHead]
    decide +kernel
  have hlast : Failing ["panic"] longHead 8 ['p', 'a', 'n', 'i', 'c'] := by
    refine ⟨by decide, by decide, "panic", by simp, by decide⟩
  obtain ⟨i, line, hfailing, hshown⟩ := h (joinChar '\n' (longHead.map .ofList)) 256 ["panic"]
    (by decide) ⟨8, _, htext.symm ▸ hlast⟩
  rw [htext] at hfailing
  obtain ⟨hget, -, p, hp, hpattern⟩ := hfailing
  have honly : ∀ line ∈ longHead, "panic".toList <:+: line.map Char.toLower →
      line = ['p', 'a', 'n', 'i', 'c'] := by
    decide +kernel
  rw [List.mem_singleton.mp hp] at hpattern
  rw [honly line (List.mem_of_getElem? hget) hpattern] at hshown
  exact hresult hshown

end ReactRuntime.Core
