import Mathlib.Data.List.DropRight
import Mathlib.Data.List.Infix
import ReactRuntime.Library.Utf8

/-!
# Bounded text

Strings are cut at characters, never inside one. A text can be split at a character and joined
again; what starts a joined text starts with whole segments and ends inside one.
-/
namespace ReactRuntime.Core
open Library Utf8

/-- Characters of the Unicode property `White_Space`. -/
def isWhitespace (c : Char) : Bool :=
  (9 ≤ c.toNat && c.toNat ≤ 13) || c.toNat == 0x20 || c.toNat == 0x85 || c.toNat == 0xA0 ||
    c.toNat == 0x1680 || (0x2000 ≤ c.toNat && c.toNat ≤ 0x200A) || c.toNat == 0x2028 ||
    c.toNat == 0x2029 || c.toNat == 0x202F || c.toNat == 0x205F || c.toNat == 0x3000

/-- `str::trim`. -/
def trim (s : String) : String :=
  .ofList (((s.toList.dropWhile isWhitespace).reverse.dropWhile isWhitespace).reverse)

/-- The first `maxChars` characters. -/
def truncateChars (s : String) (maxChars : Nat) : String := .ofList (s.toList.take maxChars)

/-- Truncate to at most `maxBytes` bytes, never inside a character. -/
def truncateUtf8Bytes (s : String) (maxBytes : Nat) : String :=
  if byteLength s.toList ≤ maxBytes then s else .ofList (floorSplit s.toList maxBytes).1

/-- `str::trim_start_matches`. -/
def trimStartMatches (c : Char) (s : String) : String := .ofList (s.toList.dropWhile (· == c))

/-- `str::trim_end_matches`. -/
def trimEndMatches (c : Char) (s : String) : String := .ofList (s.toList.rdropWhile (· == c))

/-- `str::strip_prefix`. -/
def stripStart (s start : String) : Option String :=
  if start.toList <+: s.toList then some (.ofList (s.toList.drop start.toList.length)) else none

/-- `str::strip_suffix`. -/
def stripEnd (s ending : String) : Option String :=
  if ending.toList <:+ s.toList then
    some (.ofList (s.toList.take (s.toList.length - ending.toList.length)))
  else none

section Patterns
variable {α : Type} [DecidableEq α]

def dropStarts (pattern : List α) : (fuel : Nat) → List α → List α
  | 0, xs => xs
  | fuel + 1, xs =>
    if pattern <+: xs then dropStarts pattern fuel (xs.drop pattern.length) else xs

/-- What stands in front of the last place where a pattern starts. -/
def beforeLast (pattern : List α) : List α → Option (List α)
  | [] => if pattern = [] then some [] else none
  | x :: xs =>
    match beforeLast pattern xs with
    | some front => some (x :: front)
    | none => if pattern <+: x :: xs then some [] else none

end Patterns

/-- `str::trim_start_matches` with a text. -/
def trimStartText (pattern s : String) : String :=
  .ofList (dropStarts pattern.toList s.toList.length s.toList)

/-- The slice up to where `str::rfind` finds the pattern. -/
def beforeRfind (s pattern : String) : Option String :=
  (beforeLast pattern.toList s.toList).map .ofList

/-- `str::split`. -/
def splitChar (c : Char) (s : String) : List String := (s.toList.splitOn c).map .ofList

/-- `join` with a character between the texts. -/
def joinChar (c : Char) (texts : List String) : String :=
  .ofList ([c].intercalate (texts.map String.toList))

/-- `str::contains`. -/
def containsText (s pattern : String) : Bool := decide (pattern.toList <:+: s.toList)

theorem byteLength_truncateUtf8Bytes_le (s : String) (maxBytes : Nat) :
    byteLength (truncateUtf8Bytes s maxBytes).toList ≤ maxBytes := by
  unfold truncateUtf8Bytes
  split_ifs with hfits
  · exact hfits
  · rw [String.toList_ofList]
    exact byteLength_floorSplit_le _ _

/-- No start of the text with at most `maxBytes` bytes is longer. -/
theorem truncateUtf8Bytes_longest {s start : String} {maxBytes : Nat} (hstart : start.toList <+: s.toList)
    (hle : byteLength start.toList ≤ maxBytes) :
    byteLength start.toList ≤ byteLength (truncateUtf8Bytes s maxBytes).toList := by
  obtain ⟨back, hback⟩ := hstart
  unfold truncateUtf8Bytes
  split_ifs with hfits
  · rw [← hback, byteLength_append]
    exact Nat.le_add_right _ _
  · rw [String.toList_ofList]
    exact byteLength_le_floorSplit hback.symm hle

theorem truncateUtf8Bytes_isPrefix (s : String) (maxBytes : Nat) :
    (truncateUtf8Bytes s maxBytes).toList <+: s.toList := by
  unfold truncateUtf8Bytes
  split_ifs with hfits
  · exact List.prefix_rfl
  · rw [String.toList_ofList]
    exact ⟨_, floorSplit_append s.toList maxBytes⟩

theorem containsText_iff {s pattern : String} :
    containsText s pattern = true ↔ pattern.toList <:+: s.toList := decide_eq_true_iff

theorem toList_trim (s : String) :
    (trim s).toList = (s.toList.dropWhile isWhitespace).rdropWhile isWhitespace := by
  rw [trim, String.toList_ofList]
  rfl

theorem trim_trim (s : String) : trim (trim s) = trim s := by
  rw [← String.toList_inj, toList_trim, toList_trim]
  have hfront : ((s.toList.dropWhile isWhitespace).rdropWhile isWhitespace).dropWhile isWhitespace =
      (s.toList.dropWhile isWhitespace).rdropWhile isWhitespace := by
    cases hkept : (s.toList.dropWhile isWhitespace).rdropWhile isWhitespace with
    | nil => rfl
    | cons c kept =>
      obtain ⟨more, hmore⟩ := List.rdropWhile_prefix isWhitespace (s.toList.dropWhile isWhitespace)
      have hhead := List.head?_dropWhile_not isWhitespace s.toList
      rw [← hmore, hkept] at hhead
      exact List.dropWhile_cons_of_neg (by simpa using hhead)
  rw [hfront, List.rdropWhile_idempotent]

section Kept
variable {α : Type} {p : α → Bool} {xs : List α}

theorem dropWhile_append_of_head (h : ∃ x ∈ xs.head?, p x = false) (front : List α) :
    (front ++ xs).dropWhile p = front.dropWhile p ++ xs := by
  obtain ⟨x, hx, hkept⟩ := h
  obtain ⟨rest, rfl⟩ := List.head?_eq_some_iff.mp hx
  induction front with
  | nil => simp [hkept]
  | cons y front ih => by_cases hy : p y <;> simp [hy, ih]

theorem rdropWhile_append_of_getLast (h : ∃ x ∈ xs.getLast?, p x = false) (back : List α) :
    (xs ++ back).rdropWhile p = xs ++ back.rdropWhile p := by
  rw [List.rdropWhile, List.reverse_append,
    dropWhile_append_of_head (by simpa [List.head?_reverse] using h), List.reverse_append,
    List.reverse_reverse, List.rdropWhile]

end Kept

/-- A text that does not start or end with whitespace stays whole. -/
theorem toList_trim_append {text : String} (hfirst : ∃ c ∈ text.toList.head?, isWhitespace c = false)
    (hlast : ∃ c ∈ text.toList.getLast?, isWhitespace c = false) (front back : String) :
    (trim (front ++ text ++ back)).toList = front.toList.dropWhile isWhitespace ++ text.toList ++
      back.toList.rdropWhile isWhitespace := by
  have hne : text.toList ≠ [] := by
    obtain ⟨c, hc, -⟩ := hfirst
    rintro hnil
    simp [hnil] at hc
  have hhead : ∃ c ∈ (text.toList ++ back.toList).head?, isWhitespace c = false := by
    rwa [List.head?_append_of_ne_nil _ hne]
  have hend : ∃ c ∈ (front.toList.dropWhile isWhitespace ++ text.toList).getLast?,
      isWhitespace c = false := by
    rwa [List.getLast?_append_of_ne_nil _ hne]
  rw [toList_trim, String.toList_append, String.toList_append, List.append_assoc,
    dropWhile_append_of_head hhead, ← List.append_assoc, rdropWhile_append_of_getLast hend]

/-- Only the whitespace around such a text is taken away. -/
theorem trim_around_blank {text front back : String}
    (hfirst : ∃ c ∈ text.toList.head?, isWhitespace c = false)
    (hlast : ∃ c ∈ text.toList.getLast?, isWhitespace c = false)
    (hfront : ∀ c ∈ front.toList, isWhitespace c = true)
    (hback : ∀ c ∈ back.toList, isWhitespace c = true) : trim (front ++ text ++ back) = text := by
  rw [← String.toList_inj, toList_trim_append hfirst hlast, List.dropWhile_eq_nil_iff.mpr hfront,
    List.rdropWhile_eq_nil_iff.mpr hback, List.nil_append, List.append_nil]

section Patterns
variable {α : Type} [DecidableEq α] {pattern xs : List α}

theorem dropStarts_of_other (h : ¬ pattern <+: xs) (fuel : Nat) :
    dropStarts pattern fuel xs = xs := by
  cases fuel with
  | zero => rfl
  | succ fuel => rw [dropStarts, if_neg h]

theorem dropStarts_append (h : ¬ pattern <+: xs) (fuel : Nat) :
    dropStarts pattern (fuel + 1) (pattern ++ xs) = xs := by
  rw [dropStarts, if_pos (List.prefix_append ..), List.drop_left, dropStarts_of_other h]

theorem beforeLast_of_length_lt (h : xs.length < pattern.length) : beforeLast pattern xs = none := by
  induction xs with
  | nil => exact if_neg (List.length_pos_iff.mp h)
  | cons x xs ih =>
    have hstart : ¬ pattern <+: x :: xs := fun hstart => by
      have hle := hstart.length_le
      omega
    rw [beforeLast, ih (by simp at h; omega), if_neg hstart]

theorem beforeLast_append (hne : pattern ≠ []) (front : List α) :
    beforeLast pattern (front ++ pattern) = some front := by
  induction front with
  | nil =>
    cases pattern with
    | nil => exact absurd rfl hne
    | cons x rest =>
      rw [List.nil_append, beforeLast, beforeLast_of_length_lt (by simp), if_pos List.prefix_rfl]
  | cons x front ih => rw [List.cons_append, beforeLast, ih]

end Patterns

theorem trimStartText_of_other {pattern s : String} (h : ¬ pattern.toList <+: s.toList) :
    trimStartText pattern s = s := by
  rw [trimStartText, dropStarts_of_other h, String.ofList_toList]

theorem trimStartText_append {pattern s : String} (hne : pattern.toList ≠ [])
    (h : ¬ pattern.toList <+: s.toList) : trimStartText pattern (pattern ++ s) = s := by
  obtain ⟨fuel, hfuel⟩ : ∃ fuel, (pattern ++ s).toList.length = fuel + 1 :=
    Nat.exists_eq_succ_of_ne_zero (by simp [hne])
  rw [trimStartText, hfuel, String.toList_append, dropStarts_append h, String.ofList_toList]

theorem beforeRfind_append {pattern : String} (hne : pattern.toList ≠ []) (front : String) :
    beforeRfind (front ++ pattern) pattern = some front := by
  rw [beforeRfind, String.toList_append, beforeLast_append hne, Option.map_some,
    String.ofList_toList]

theorem toList_trimStartMatches (c : Char) (s : String) :
    (trimStartMatches c s).toList = s.toList.dropWhile (· == c) := by
  rw [trimStartMatches, String.toList_ofList]

theorem stripStart_eq_some {s start rest : String} :
    stripStart s start = some rest ↔ s = start ++ rest := by
  rw [← String.toList_inj, String.toList_append]
  unfold stripStart
  split_ifs with hstart
  · obtain ⟨more, hmore⟩ := hstart
    rw [Option.some.injEq, ← hmore, List.drop_left, ← String.toList_inj, String.toList_ofList,
      List.append_cancel_left_eq]
  · exact ⟨fun h => (nomatch h), fun h => absurd ⟨_, h.symm⟩ hstart⟩

theorem stripEnd_eq_some {s ending front : String} :
    stripEnd s ending = some front ↔ s = front ++ ending := by
  rw [← String.toList_inj, String.toList_append]
  unfold stripEnd
  split_ifs with hend
  · obtain ⟨more, hmore⟩ := hend
    rw [Option.some.injEq, ← hmore, List.length_append, Nat.add_sub_cancel, List.take_left,
      ← String.toList_inj, String.toList_ofList, List.append_cancel_right_eq]
  · exact ⟨fun h => (nomatch h), fun h => absurd ⟨_, h.symm⟩ hend⟩

theorem map_toList_splitChar (c : Char) (s : String) :
    (splitChar c s).map String.toList = s.toList.splitOn c := by
  rw [splitChar, List.map_map]
  exact (List.map_congr_left fun _ _ => String.toList_ofList).trans (List.map_id _)

@[simp] theorem joinChar_splitChar (c : Char) (s : String) : joinChar c (splitChar c s) = s := by
  rw [joinChar, map_toList_splitChar, List.intercalate_splitOn, String.ofList_toList]

theorem splitChar_joinChar {c : Char} {texts : List String} (hne : texts ≠ [])
    (h : ∀ text ∈ texts, c ∉ text.toList) : splitChar c (joinChar c texts) = texts := by
  rw [splitChar, joinChar, String.toList_ofList, List.splitOn_intercalate, List.map_map]
  · exact (List.map_congr_left fun _ _ => String.ofList_toList).trans (List.map_id _)
  · rintro chars hchars
    obtain ⟨text, htext, rfl⟩ := List.mem_map.mp hchars
    exact h text htext
  · simpa using hne

section Segments
variable {α : Type} [DecidableEq α] {c : α}

theorem not_mem_of_mem_splitOn {xs segment : List α} (h : segment ∈ xs.splitOn c) :
    c ∉ segment := by
  induction xs generalizing segment with
  | nil =>
    rw [List.splitOn_nil, List.mem_singleton] at h
    simp [h]
  | cons x xs ih =>
    rw [List.splitOn_cons_eq_if_modifyHead] at h
    split_ifs at h with hx
    · rcases List.mem_cons.mp h with rfl | hrest
      · simp
      · exact ih hrest
    · cases hsplit : xs.splitOn c with
      | nil => exact absurd hsplit (List.splitOn_ne_nil c xs)
      | cons first rest =>
        rw [hsplit] at h
        rcases List.mem_cons.mp h with rfl | hrest
        · have hne : x ≠ c := by simpa using hx
          simp [Ne.symm hne, ih (hsplit ▸ List.mem_cons_self)]
        · exact ih (hsplit ▸ List.mem_cons_of_mem _ hrest)

/-- A start of joined segments is some of them whole and a start of the next one. -/
theorem splitOn_of_isPrefix {segments : List (List α)} {start : List α} (hne : segments ≠ [])
    (hsep : ∀ segment ∈ segments, c ∉ segment) (h : start <+: [c].intercalate segments) :
    ∃ whole last segment rest, start.splitOn c = whole ++ [last] ∧
      segments = whole ++ segment :: rest ∧ last <+: segment := by
  induction segments generalizing start with
  | nil => exact absurd rfl hne
  | cons segment rest ih =>
    have hsegment : c ∉ segment := hsep segment (by simp)
    have hinside (hstart : start <+: segment) :
        ∃ whole last segment' rest', start.splitOn c = whole ++ [last] ∧
          segment :: rest = whole ++ segment' :: rest' ∧ last <+: segment' := by
      refine ⟨[], start, segment, rest, ?_, rfl, hstart⟩
      rw [List.splitOn_eq_singleton fun hc => hsegment (hstart.subset hc)]
      rfl
    cases rest with
    | nil =>
      rw [List.intercalate_singleton] at h
      exact hinside h
    | cons next rest =>
      rw [List.intercalate_cons_cons, List.append_assoc, List.singleton_append] at h
      rcases List.prefix_or_prefix_of_prefix h (List.prefix_append ..) with hstart | ⟨more, rfl⟩
      · exact hinside hstart
      · rcases List.prefix_cons_iff.mp ((List.prefix_append_right_inj segment).mp h) with
          rfl | ⟨more, rfl, hmore⟩
        · exact hinside (by simp)
        · obtain ⟨whole, last, segment', rest', hsplit, heq, hlast⟩ :=
            ih (by simp) (fun s hs => hsep s (List.mem_cons_of_mem _ hs)) hmore
          refine ⟨segment :: whole, last, segment', rest', ?_, by rw [heq]; rfl, hlast⟩
          rw [List.splitOn_append_cons_self_of_not_mem hsegment, hsplit]
          rfl

end Segments

theorem toList_joinChar_cons {c : Char} {rest : List String} (hne : rest ≠ []) (text : String) :
    (joinChar c (text :: rest)).toList = text.toList ++ c :: (joinChar c rest).toList := by
  rw [joinChar, joinChar, String.toList_ofList, String.toList_ofList, List.map_cons,
    List.intercalate_cons_of_ne_nil (by simpa using hne)]
  simp

theorem toList_joinChar_append {c : Char} {texts rest : List String} (hne : texts ≠ [])
    (hrest : rest ≠ []) :
    (joinChar c (texts ++ rest)).toList =
      (joinChar c texts).toList ++ c :: (joinChar c rest).toList := by
  induction texts with
  | nil => exact absurd rfl hne
  | cons text texts ih =>
    rw [List.cons_append, toList_joinChar_cons (by simp [hrest])]
    cases texts with
    | nil => simp [joinChar]
    | cons next texts =>
      rw [ih (List.cons_ne_nil next texts), toList_joinChar_cons (List.cons_ne_nil next texts),
        List.append_assoc, List.cons_append]

theorem joinChar_concat {c : Char} {texts : List String} (hne : texts ≠ []) (text : String) :
    joinChar c (texts ++ [text]) = (joinChar c texts).push c ++ text := by
  rw [← String.toList_inj, joinChar, joinChar, String.toList_append, String.toList_push,
    String.toList_ofList, String.toList_ofList]
  induction texts with
  | nil => exact absurd rfl hne
  | cons first rest ih =>
    cases rest with
    | nil => simp
    | cons next rest =>
      have hrest := ih (by simp)
      simp only [List.map_append, List.map_cons, List.cons_append] at hrest ⊢
      rw [List.intercalate_cons_cons, List.intercalate_cons_cons, hrest]
      simp

theorem not_mem_of_mem_splitChar {c : Char} {s text : String} (h : text ∈ splitChar c s) :
    c ∉ text.toList := by
  obtain ⟨chars, hchars, rfl⟩ := List.mem_map.mp h
  rw [String.toList_ofList]
  exact not_mem_of_mem_splitOn hchars

/-- A start of joined texts is some of them whole and a start of the next one. -/
theorem splitChar_of_isPrefix {c : Char} {texts : List String} {start : String} (hne : texts ≠ [])
    (hsep : ∀ text ∈ texts, c ∉ text.toList)
    (h : start.toList <+: (joinChar c texts).toList) :
    ∃ whole last text rest, splitChar c start = whole ++ [last] ∧
      texts = whole ++ text :: rest ∧ last.toList <+: text.toList := by
  rw [joinChar, String.toList_ofList] at h
  have hsep' : ∀ segment ∈ texts.map String.toList, c ∉ segment := by
    intro segment hsegment
    obtain ⟨text, htext, rfl⟩ := List.mem_map.mp hsegment
    exact hsep text htext
  obtain ⟨whole, last, segment, rest, hsplit, heq, hlast⟩ :=
    splitOn_of_isPrefix (by simpa using hne) hsep' h
  obtain ⟨ws, more, rfl, rfl, hmore⟩ := List.map_eq_append_iff.mp heq
  obtain ⟨text, ts, rfl, rfl, rfl⟩ := List.map_eq_cons_iff.mp hmore
  refine ⟨ws, .ofList last, text, ts, ?_, rfl, by rwa [String.toList_ofList]⟩
  rw [splitChar, hsplit, List.map_append, List.map_map, List.map_singleton]
  congr 1
  exact (List.map_congr_left fun _ _ => String.ofList_toList).trans (List.map_id _)

end ReactRuntime.Core
