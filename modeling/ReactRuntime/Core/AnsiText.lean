import ReactRuntime.Library.Ascii

/-!
# Lines of a terminal

A line is cut to a number of visible columns. Escape sequences are copied and take no column. Two
scanners read the bytes of a line: one counts its columns, the other cuts it.
-/
namespace ReactRuntime.Core
open Library Utf8

def ESC : Char := '\x1b'

/-- An escape sequence starts at the byte. -/
def startsCsi (bs : List UInt8) (i : Nat) : Bool :=
  bs[i]? = some 0x1b ∧ bs[i + 1]? = some 0x5b

/-- Where the loop over the parameters stops: at the next `m` or at the end. -/
def skipParams (bs : List UInt8) (i : Nat) : Nat := i + ((bs.drop i).takeWhile (· ≠ 0x6d)).length

theorem le_skipParams (bs : List UInt8) (i : Nat) : i ≤ skipParams bs i := Nat.le_add_right ..

/-- The loop of `ansi_display_width` from byte `i`; `none` is the panic of a slice that starts inside a
character. -/
def displayWidthFrom (text : List Char) (i w : Nat) : Option Nat :=
  if _hi : i < (bytes text).length then
    if startsCsi (bytes text) i then
      have := le_skipParams (bytes text) (i + 2)
      let j := skipParams (bytes text) (i + 2)
      if (bytes text)[j]? = some 0x6d then displayWidthFrom text (j + 1) w
      else displayWidthFrom text j w
    else match sliceFrom text i with
      | none => none
      | some [] => some w
      | some (c :: _) =>
        have := c.utf8Size_pos
        displayWidthFrom text (i + c.utf8Size) (w + 1)
  else some w
termination_by (bytes text).length - i

def ansiDisplayWidth (s : String) : Option Nat := displayWidthFrom s.toList 0 0

/-- The loop of `ansi_fit_line` from byte `i`. A sequence that is not whole characters would be
copied with replacement characters, which `none` stands for too. -/
def fitFrom (text : List Char) (width : Nat) (i w : Nat) (out : List Char) : Option (List Char) :=
  if _hi : i < (bytes text).length ∧ w + 1 < width then
    if startsCsi (bytes text) i then
      have := le_skipParams (bytes text) (i + 2)
      let j := skipParams (bytes text) (i + 2)
      if (bytes text)[j]? = some 0x6d then
        match slice text i (j + 1) with
        | none => none
        | some sequence => fitFrom text width (j + 1) w (out ++ sequence)
      else some out
    else match sliceFrom text i with
      | none => none
      | some [] => some out
      | some (c :: _) =>
        have := c.utf8Size_pos
        fitFrom text width (i + c.utf8Size) (w + 1) (out ++ [c])
  else some out
termination_by (bytes text).length - i

def RESET : List Char := [ESC, '[', '0', 'm']

/-- What is put behind the characters that are kept. -/
def closeLine (out : List Char) : List Char :=
  let out := out ++ ['…']
  if ESC ∈ out ∧ ¬ RESET <:+ out then out ++ RESET else out

def ansiFitLine (s : String) (width : Nat) : Option String :=
  if width = 0 then some ""
  else (ansiDisplayWidth s).bind fun w =>
    if w ≤ width then some s
    else (fitFrom s.toList width 0 0 []).map fun out => .ofList (closeLine out)

/-- The characters outside escape sequences. Inside one everything up to the next `m` is skipped. -/
def visibleFrom : (inside : Bool) → List Char → List Char
  | _, [] => []
  | true, c :: text => visibleFrom (c ≠ 'm') text
  | false, c :: text =>
    if c = ESC ∧ text.head? = some '[' then visibleFrom true text else c :: visibleFrom false text

def visibleChars (text : List Char) : List Char := visibleFrom false text

/-- A line is made of escape sequences, of which the last one may be open, and of characters. -/
inductive Line : List Char → Prop where
  | nil : Line []
  | csi {body rest : List Char} (hbody : 'm' ∉ body) (hrest : Line rest) :
      Line (ESC :: '[' :: (body ++ 'm' :: rest))
  | openCsi {body : List Char} (hbody : 'm' ∉ body) : Line (ESC :: '[' :: body)
  | char {c : Char} {rest : List Char} (hc : ¬ (c = ESC ∧ rest.head? = some '[')) (hrest : Line rest) :
      Line (c :: rest)

theorem line (text : List Char) : Line text := by
  induction hn : text.length using Nat.strongRecOn generalizing text with
  | ind n ih =>
    subst hn
    cases text with
    | nil => exact .nil
    | cons c rest =>
      by_cases hc : c = ESC ∧ rest.head? = some '['
      · obtain ⟨rfl, hhead⟩ := hc
        obtain ⟨params, rfl⟩ := List.head?_eq_some_iff.mp hhead
        by_cases hm : 'm' ∈ params
        · obtain ⟨body, more, rfl, hbody⟩ := List.eq_append_cons_of_mem hm
          exact .csi hbody (ih more.length (by simp; omega) more rfl)
        · exact .openCsi hm
      · exact .char hc (ih rest.length (by simp) rest rfl)

section
variable {front back body rest : List Char} {c : Char}

theorem visibleFrom_body (hbody : 'm' ∉ body) (rest : List Char) :
    visibleFrom true (body ++ rest) = visibleFrom true rest := by
  induction body with
  | nil => rfl
  | cons c body ih =>
    simp only [List.mem_cons, not_or] at hbody
    rw [List.cons_append, visibleFrom, decide_eq_true (Ne.symm hbody.1)]
    exact ih hbody.2

theorem visibleChars_csi (hbody : 'm' ∉ body) (rest : List Char) :
    visibleChars (ESC :: '[' :: (body ++ 'm' :: rest)) = visibleChars rest := by
  have hinside := visibleFrom_body hbody ('m' :: rest)
  simpa [visibleChars, visibleFrom] using hinside

theorem visibleChars_openCsi (hbody : 'm' ∉ body) : visibleChars (ESC :: '[' :: body) = [] := by
  have hinside := visibleFrom_body hbody []
  simpa [visibleChars, visibleFrom] using hinside

theorem visibleChars_char (hc : ¬ (c = ESC ∧ rest.head? = some '[')) :
    visibleChars (c :: rest) = c :: visibleChars rest := if_neg hc

theorem ascii_ESC : ESC.utf8Size = 1 := rfl

theorem startsCsi_iff : startsCsi (bytes (front ++ back)) (byteLength front) = true ↔
    ∃ rest, back = ESC :: '[' :: rest := by
  have hfirst : (bytes (front ++ back))[byteLength front]? = some 0x1b ↔ back.head? = some ESC :=
    getElem?_bytes ascii_ESC
  rw [startsCsi, decide_eq_true_iff, hfirst]
  constructor
  · rintro ⟨hhead, hsecond⟩
    obtain ⟨more, rfl⟩ := List.head?_eq_some_iff.mp hhead
    have hnext : (bytes ((front ++ [ESC]) ++ more))[byteLength (front ++ [ESC])]? = some 0x5b ↔
        more.head? = some '[' := getElem?_bytes (a := '[') rfl
    rw [byteLength_append, List.append_assoc] at hnext
    obtain ⟨rest, rfl⟩ := List.head?_eq_some_iff.mp (hnext.mp hsecond)
    exact ⟨rest, rfl⟩
  · rintro ⟨rest, rfl⟩
    have hnext : (bytes ((front ++ [ESC]) ++ '[' :: rest))[byteLength (front ++ [ESC])]? = some 0x5b ↔
        ('[' :: rest).head? = some '[' := getElem?_bytes (a := '[') rfl
    rw [byteLength_append, List.append_assoc] at hnext
    exact ⟨rfl, hnext.mpr rfl⟩

theorem not_startsCsi (hc : ¬ (c = ESC ∧ rest.head? = some '[')) :
    ¬ startsCsi (bytes (front ++ c :: rest)) (byteLength front) = true := by
  rw [startsCsi_iff]
  rintro ⟨more, hmore⟩
  obtain ⟨rfl, rfl⟩ := List.cons_eq_cons.mp hmore
  exact hc ⟨rfl, rfl⟩

/-- The parameters of a sequence are skipped. -/
theorem skipParams_eq (hbody : 'm' ∉ body) (hrest : ∀ c ∈ rest.head?, c = 'm') :
    skipParams (bytes (front ++ ESC :: '[' :: (body ++ rest))) (byteLength front + 2) =
      byteLength (front ++ ESC :: '[' :: body) := by
  have hsplit : front ++ ESC :: '[' :: (body ++ rest) = (front ++ [ESC, '[']) ++ (body ++ rest) := by
    simp
  have hstart : byteLength front + 2 = byteLength (front ++ [ESC, '[']) := by
    rw [byteLength_append]
    rfl
  have hskip : (bytes (body ++ rest)).takeWhile (· ≠ 0x6d) = bytes ((body ++ rest).takeWhile (· ≠ 'm')) :=
    takeWhile_bytes (a := 'm') rfl _
  have hbody' : ∀ c ∈ body, decide (c ≠ 'm') = true := by
    intro c hc
    rw [decide_eq_true_eq]
    rintro rfl
    exact hbody hc
  have hstop : rest.takeWhile (· ≠ 'm') = [] := by
    cases rest with
    | nil => rfl
    | cons c rest =>
      obtain rfl := hrest c rfl
      exact List.takeWhile_cons_of_neg (by simp)
  rw [skipParams, hsplit, hstart, drop_bytes, hskip, List.takeWhile_append_of_pos hbody', hstop,
    List.append_nil, length_bytes, ← byteLength_append, List.append_assoc]
  rfl

theorem getElem?_skipped : (bytes (front ++ ESC :: '[' :: (body ++ rest)))[byteLength
    (front ++ ESC :: '[' :: body)]? = some 0x6d ↔ rest.head? = some 'm' := by
  have hsplit : front ++ ESC :: '[' :: (body ++ rest) = (front ++ ESC :: '[' :: body) ++ rest := by simp
  rw [hsplit]
  exact getElem?_bytes (a := 'm') rfl

theorem lt_length_bytes : byteLength front < (bytes (front ++ back)).length ↔ back ≠ [] := by
  have hempty : byteLength back = 0 ↔ back = [] := byteLength_eq_zero
  rw [length_bytes, byteLength_append, Ne, ← hempty]
  omega

theorem displayWidthFrom_end (front : List Char) (w : Nat) :
    displayWidthFrom front (byteLength front) w = some w := by
  rw [displayWidthFrom, dif_neg]
  rw [length_bytes]
  exact Nat.lt_irrefl _

theorem displayWidthFrom_char (hc : ¬ (c = ESC ∧ rest.head? = some '[')) (w : Nat) :
    displayWidthFrom (front ++ c :: rest) (byteLength front) w =
      displayWidthFrom (front ++ c :: rest) (byteLength (front ++ [c])) (w + 1) := by
  rw [displayWidthFrom, dif_pos (lt_length_bytes.mpr (by simp)), if_neg (not_startsCsi hc),
    sliceFrom_append, byteLength_append]
  rfl

theorem displayWidthFrom_csi (hbody : 'm' ∉ body) (hrest : ∀ c ∈ rest.head?, c = 'm') (w : Nat) :
    displayWidthFrom (front ++ ESC :: '[' :: (body ++ rest)) (byteLength front) w =
      if rest = [] then some w
      else displayWidthFrom (front ++ ESC :: '[' :: (body ++ rest))
        (byteLength (front ++ ESC :: '[' :: body) + 1) w := by
  have hcsi : startsCsi (bytes (front ++ ESC :: '[' :: (body ++ rest))) (byteLength front) = true :=
    startsCsi_iff.mpr ⟨_, rfl⟩
  rw [displayWidthFrom, dif_pos (lt_length_bytes.mpr (by simp)), if_pos hcsi]
  dsimp only
  rw [skipParams_eq hbody hrest]
  cases rest with
  | nil =>
    rw [if_neg (by rw [getElem?_skipped]; simp), if_pos rfl, List.append_nil]
    exact displayWidthFrom_end _ w
  | cons c rest =>
    obtain rfl := hrest c rfl
    rw [if_pos (getElem?_skipped.mpr rfl), if_neg (by simp)]

theorem append_csi (front body rest : List Char) :
    front ++ ESC :: '[' :: (body ++ ['m']) ++ rest = front ++ ESC :: '[' :: (body ++ 'm' :: rest) := by
  simp

theorem byteLength_csi (front body : List Char) :
    byteLength (front ++ ESC :: '[' :: (body ++ ['m'])) = byteLength (front ++ ESC :: '[' :: body) + 1 := by
  have hsplit : front ++ ESC :: '[' :: (body ++ ['m']) = (front ++ ESC :: '[' :: body) ++ ['m'] := by simp
  rw [hsplit, byteLength_append]
  rfl

/-- The columns that are counted are the visible characters. -/
theorem displayWidthFrom_line (hline : Line back) (front : List Char) (w : Nat) :
    displayWidthFrom (front ++ back) (byteLength front) w = some (w + (visibleChars back).length) := by
  induction hline generalizing front w with
  | nil =>
    rw [List.append_nil, displayWidthFrom_end]
    rfl
  | @csi body rest hbody hrest ih =>
    rw [displayWidthFrom_csi hbody (by simp), if_neg (by simp), visibleChars_csi hbody]
    have hnext := ih (front ++ ESC :: '[' :: (body ++ ['m'])) w
    rw [append_csi, byteLength_csi] at hnext
    exact hnext
  | @openCsi body hbody =>
    rw [← List.append_nil body, displayWidthFrom_csi hbody (by simp), if_pos rfl, List.append_nil,
      visibleChars_openCsi hbody]
    rfl
  | @char c rest hc hrest ih =>
    rw [displayWidthFrom_char hc, visibleChars_char hc]
    have hnext := ih (front ++ [c]) (w + 1)
    rw [List.append_assoc, List.singleton_append] at hnext
    rw [hnext, List.length_cons]
    congr 1
    omega

theorem ansiDisplayWidth_eq (s : String) :
    ansiDisplayWidth s = some (visibleChars s.toList).length := by
  have hwidth := displayWidthFrom_line (line s.toList) [] 0
  rw [List.nil_append, Nat.zero_add] at hwidth
  exact hwidth

theorem fitFrom_stop {width w : Nat} (h : back = [] ∨ width ≤ w + 1) (out : List Char) :
    fitFrom (front ++ back) width (byteLength front) w out = some out := by
  rw [fitFrom, dif_neg]
  rw [lt_length_bytes]
  rintro ⟨hne, hlt⟩
  rcases h with h | h
  · exact hne h
  · omega

theorem fitFrom_char {width w : Nat} (hlt : w + 1 < width) (hc : ¬ (c = ESC ∧ rest.head? = some '['))
    (out : List Char) :
    fitFrom (front ++ c :: rest) width (byteLength front) w out =
      fitFrom (front ++ c :: rest) width (byteLength (front ++ [c])) (w + 1) (out ++ [c]) := by
  rw [fitFrom, dif_pos ⟨lt_length_bytes.mpr (by simp), hlt⟩, if_neg (not_startsCsi hc),
    sliceFrom_append, byteLength_append]
  rfl

theorem fitFrom_csi {width w : Nat} (hlt : w + 1 < width) (hbody : 'm' ∉ body)
    (hrest : ∀ c ∈ rest.head?, c = 'm') (out : List Char) :
    fitFrom (front ++ ESC :: '[' :: (body ++ rest)) width (byteLength front) w out =
      if rest = [] then some out
      else fitFrom (front ++ ESC :: '[' :: (body ++ rest)) width
        (byteLength (front ++ ESC :: '[' :: body) + 1) w (out ++ ESC :: '[' :: (body ++ ['m'])) := by
  have hcsi : startsCsi (bytes (front ++ ESC :: '[' :: (body ++ rest))) (byteLength front) = true :=
    startsCsi_iff.mpr ⟨_, rfl⟩
  rw [fitFrom, dif_pos ⟨lt_length_bytes.mpr (by simp), hlt⟩, if_pos hcsi]
  dsimp only
  rw [skipParams_eq hbody hrest]
  cases rest with
  | nil => rw [if_neg (by rw [getElem?_skipped]; simp), if_pos rfl]
  | cons c rest =>
    obtain rfl := hrest c rfl
    have hslice := slice_append front (ESC :: '[' :: (body ++ ['m'])) rest
    rw [← List.append_assoc, append_csi, ← byteLength_append, byteLength_csi] at hslice
    rw [if_pos (getElem?_skipped.mpr rfl), if_neg (by simp), hslice]

/-- A start of a line that does not end inside a sequence. -/
structure Kept (kept back : List Char) : Prop where
  isPrefix : kept <+: back
  visible_append : ∀ tail : List Char, tail.head? ≠ some '[' →
    visibleChars (kept ++ tail) = visibleChars kept ++ visibleChars tail

theorem Kept.nil (back : List Char) : Kept [] back := ⟨List.nil_prefix, fun _ _ => rfl⟩

/-- A character that starts no sequence in the line starts none in what is kept of it. -/
theorem not_csi_of_isPrefix {kept tail : List Char} (h : kept <+: rest)
    (hc : ¬ (c = ESC ∧ rest.head? = some '[')) (htail : tail.head? ≠ some '[') :
    ¬ (c = ESC ∧ (kept ++ tail).head? = some '[') := by
  rintro ⟨rfl, hhead⟩
  cases kept with
  | nil => exact htail hhead
  | cons d kept =>
    obtain ⟨more, rfl⟩ := h
    exact hc ⟨rfl, hhead⟩

theorem Kept.char {kept : List Char} (h : Kept kept rest) (hc : ¬ (c = ESC ∧ rest.head? = some '[')) :
    Kept (c :: kept) (c :: rest) ∧ visibleChars (c :: kept) = c :: visibleChars kept := by
  have hkept : visibleChars (c :: kept) = c :: visibleChars kept := by
    have hnone : ¬ (c = ESC ∧ (kept ++ []).head? = some '[') :=
      not_csi_of_isPrefix h.isPrefix hc (by simp)
    rw [List.append_nil] at hnone
    exact visibleChars_char hnone
  refine ⟨⟨List.cons_prefix_cons.mpr ⟨rfl, h.isPrefix⟩, fun tail htail => ?_⟩, hkept⟩
  rw [hkept, List.cons_append, visibleChars_char (not_csi_of_isPrefix h.isPrefix hc htail),
    h.visible_append tail htail, List.cons_append]

theorem Kept.csi {kept : List Char} (h : Kept kept rest) (hbody : 'm' ∉ body) :
    Kept (ESC :: '[' :: (body ++ 'm' :: kept)) (ESC :: '[' :: (body ++ 'm' :: rest)) := by
  constructor
  · obtain ⟨more, rfl⟩ := h.isPrefix
    exact ⟨more, by simp⟩
  · intro tail htail
    have hsplit : ESC :: '[' :: (body ++ 'm' :: kept) ++ tail =
        ESC :: '[' :: (body ++ 'm' :: (kept ++ tail)) := by simp
    rw [hsplit, visibleChars_csi hbody, visibleChars_csi hbody, h.visible_append tail htail]

/-- What the rest of a line adds to the output: the first visible characters, up to one column less
than the width. -/
def Cut (text : List Char) (width i w : Nat) (out back : List Char) : Prop :=
  ∃ kept, fitFrom text width i w out = some (out ++ kept) ∧ Kept kept back ∧
    visibleChars kept = (visibleChars back).take (width - 1 - w)

theorem cut_full {width w : Nat} (hfull : width ≤ w + 1) (front back out : List Char) :
    Cut (front ++ back) width (byteLength front) w out back := by
  refine ⟨[], ?_, Kept.nil back, ?_⟩
  · rw [fitFrom_stop (.inr hfull), List.append_nil]
  · have hnone : width - 1 - w = 0 := by omega
    rw [hnone, List.take_zero]
    rfl

theorem cut_line (hline : Line back) (front : List Char) (width w : Nat) (out : List Char) :
    Cut (front ++ back) width (byteLength front) w out back := by
  induction hline generalizing front w out with
  | nil =>
    refine ⟨[], ?_, Kept.nil [], by simp [visibleChars, visibleFrom]⟩
    rw [fitFrom_stop (.inl rfl), List.append_nil]
  | @csi body rest hbody hrest ih =>
    by_cases hlt : w + 1 < width
    · obtain ⟨kept, hfit, hkept, hvisible⟩ := ih (front ++ ESC :: '[' :: (body ++ ['m'])) w
        (out ++ ESC :: '[' :: (body ++ ['m']))
      rw [append_csi, byteLength_csi, append_csi] at hfit
      refine ⟨ESC :: '[' :: (body ++ 'm' :: kept), ?_, hkept.csi hbody, ?_⟩
      · rw [fitFrom_csi hlt hbody (by simp), if_neg (by simp), hfit]
      · rw [visibleChars_csi hbody, visibleChars_csi hbody, hvisible]
    · exact cut_full (Nat.not_lt.mp hlt) ..
  | @openCsi body hbody =>
    by_cases hlt : w + 1 < width
    · refine ⟨[], ?_, Kept.nil _, ?_⟩
      · rw [← List.append_nil body, fitFrom_csi hlt hbody (by simp), if_pos rfl, List.append_nil]
      · rw [visibleChars_openCsi hbody, List.take_nil]
        rfl
    · exact cut_full (Nat.not_lt.mp hlt) ..
  | @char c rest hc hrest ih =>
    by_cases hlt : w + 1 < width
    · obtain ⟨kept, hfit, hkept, hvisible⟩ := ih (front ++ [c]) (w + 1) (out ++ [c])
      rw [List.append_assoc, List.singleton_append, List.append_assoc, List.singleton_append] at hfit
      obtain ⟨hkept, hchar⟩ := hkept.char hc
      refine ⟨c :: kept, ?_, hkept, ?_⟩
      · rw [fitFrom_char hlt hc, hfit]
      · have hcolumns : width - 1 - w = width - 1 - (w + 1) + 1 := by omega
        rw [hchar, hvisible, visibleChars_char hc, hcolumns, List.take_succ_cons]
    · exact cut_full (Nat.not_lt.mp hlt) ..

theorem visibleChars_closeLine {kept : List Char} (h : Kept kept back) :
    visibleChars (closeLine kept) = visibleChars kept ++ ['…'] := by
  unfold closeLine
  dsimp only
  split_ifs
  · rw [List.append_assoc, h.visible_append _ (by decide)]
    rfl
  · exact h.visible_append _ (by decide)

end

/-- A line that is too long is cut to one column less than the width, and the ellipsis is put there. -/
theorem ansiFitLine_long {s : String} {width : Nat} (hpos : 0 < width)
    (hlong : width < (visibleChars s.toList).length) :
    ∃ out, ansiFitLine s width = some out ∧
      visibleChars out.toList = (visibleChars s.toList).take (width - 1) ++ ['…'] := by
  obtain ⟨kept, hfit, hkept, hvisible⟩ := cut_line (line s.toList) [] width 0 []
  rw [List.nil_append] at hfit
  refine ⟨.ofList (closeLine kept), ?_, ?_⟩
  · rw [ansiFitLine, if_neg (Nat.ne_of_gt hpos), ansiDisplayWidth_eq, Option.bind_some,
      if_neg (Nat.not_le.mpr hlong)]
    exact congrArg _ hfit
  · rw [String.toList_ofList, visibleChars_closeLine hkept, hvisible]
    rfl

/-- With no columns nothing is left of a line, not even the ellipsis. -/
theorem ansiFitLine_no_columns : ESC ∉ "a".toList ∧ ansiDisplayWidth "a" = some 1 ∧
    ansiFitLine "a" 0 = some "" ∧
    visibleChars "".toList ≠ (visibleChars "a".toList).take (0 - 1) ++ ['…'] := by
  refine ⟨by decide, ?_, rfl, by decide⟩
  rw [ansiDisplayWidth_eq]
  rfl

/-- Both scanners stop at whole characters, and what they make of a line fits. A line that is too long
keeps its first visible characters in front of the ellipsis. -/
theorem ansiFitLine_spec (s : String) (width : Nat) :
    ∃ w out v, ansiDisplayWidth s = some w ∧ ansiFitLine s width = some out ∧
      ansiDisplayWidth out = some v ∧ v ≤ width ∧ (w ≤ width → 0 < width → out = s) ∧
      (width < w → 0 < width →
        visibleChars out.toList = (visibleChars s.toList).take (width - 1) ++ ['…']) := by
  have hwidth := ansiDisplayWidth_eq s
  by_cases hpos : 0 < width
  · by_cases hfits : (visibleChars s.toList).length ≤ width
    · refine ⟨_, s, _, hwidth, ?_, hwidth, hfits, fun _ _ => rfl, fun hlong => ?_⟩
      · rw [ansiFitLine, if_neg (Nat.ne_of_gt hpos), hwidth, Option.bind_some, if_pos hfits]
      · exact absurd hfits (Nat.not_le.mpr hlong)
    · obtain ⟨out, hout, hvisible⟩ := ansiFitLine_long hpos (Nat.not_le.mp hfits)
      refine ⟨_, out, _, hwidth, hout, ansiDisplayWidth_eq out, ?_, fun h => absurd h hfits,
        fun _ _ => hvisible⟩
      rw [hvisible, List.length_append, List.length_take, List.length_singleton]
      omega
  · obtain rfl := Nat.eq_zero_of_not_pos hpos
    exact ⟨_, "", 0, hwidth, rfl, ansiDisplayWidth_eq "", Nat.le_refl 0, fun _ h => absurd h hpos,
      fun _ h => absurd h hpos⟩

end ReactRuntime.Core
