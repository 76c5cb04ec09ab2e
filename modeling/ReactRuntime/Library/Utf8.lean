import Mathlib.Algebra.GroupWithZero.Nat
import Mathlib.Data.List.Basic

/-!
# Byte offsets

A text is a list of characters, and an offset counts the bytes of their UTF-8 forms. A text cannot be
cut at an offset inside a character or behind its end.
-/
namespace ReactRuntime.Library.Utf8

def byteLength (text : List Char) : Nat := (text.map Char.utf8Size).sum

section
variable {text front back : List Char} {n : Nat}

@[simp] theorem byteLength_nil : byteLength [] = 0 := rfl

@[simp] theorem byteLength_cons (c : Char) (text : List Char) :
    byteLength (c :: text) = c.utf8Size + byteLength text := rfl

@[simp] theorem byteLength_append (front back : List Char) :
    byteLength (front ++ back) = byteLength front + byteLength back := by
  simp [byteLength]

theorem byteLength_eq_zero : byteLength text = 0 ↔ text = [] := by
  cases text with
  | nil => simp
  | cons c text => simp [Nat.ne_of_gt c.utf8Size_pos]

def bytes (text : List Char) : List UInt8 := text.flatMap String.utf8EncodeChar

theorem length_bytes (text : List Char) : (bytes text).length = byteLength text := by
  rw [bytes, List.length_flatMap, byteLength]
  congr 1
  exact List.map_congr_left fun c _ => String.length_utf8EncodeChar c

theorem length_le_byteLength (text : List Char) : text.length ≤ byteLength text := by
  induction text with
  | nil => exact Nat.le_refl _
  | cons c text ih =>
    have hpos := c.utf8Size_pos
    simp only [List.length_cons, byteLength_cons]
    omega

theorem byteLength_of_ascii (h : ∀ c ∈ text, c.utf8Size = 1) : byteLength text = text.length := by
  induction text with
  | nil => rfl
  | cons c text ih =>
    obtain ⟨hc, htext⟩ := List.forall_mem_cons.mp h
    simp only [List.length_cons, byteLength_cons, hc, ih htext]
    omega

theorem utf8Size_of_isAlphanum {c : Char} (h : c.isAlphanum = true) : c.utf8Size = 1 := by
  have hranges : ((decide (c.val ≥ 'A'.val ∧ c.val ≤ 'Z'.val) || (c.val ≥ 'a'.val && c.val ≤ 'z'.val)) ||
      (c.val ≥ '0'.val && c.val ≤ '9'.val)) = true := h
  rw [Char.utf8Size_eq_one_iff]
  simp only [Bool.or_eq_true, Bool.and_eq_true, decide_eq_true_eq, ge_iff_le,
    UInt32.le_iff_toNat_le] at hranges ⊢
  rcases hranges with (h | h) | h <;> simp at h ⊢ <;> omega

/-- The text in front of an offset and the text behind it. -/
def splitAt : List Char → Nat → Option (List Char × List Char)
  | text, 0 => some ([], text)
  | [], _ + 1 => none
  | c :: text, n + 1 =>
    if c.utf8Size ≤ n + 1 then
      (splitAt text (n + 1 - c.utf8Size)).map fun parts => (c :: parts.1, parts.2)
    else none

theorem splitAt_append (front back : List Char) :
    splitAt (front ++ back) (byteLength front) = some (front, back) := by
  induction front with
  | nil => cases back <;> rfl
  | cons c front ih =>
    obtain ⟨n, hn⟩ : ∃ n, c.utf8Size + byteLength front = n + 1 :=
      Nat.exists_eq_add_one.mpr (Nat.add_pos_left c.utf8Size_pos _)
    have hrest : n + 1 - c.utf8Size = byteLength front := by omega
    have hfits : c.utf8Size ≤ n + 1 := by omega
    rw [List.cons_append, byteLength_cons, hn, splitAt, if_pos hfits, hrest, ih]
    rfl

theorem splitAt_eq_some :
    splitAt text n = some (front, back) ↔ text = front ++ back ∧ n = byteLength front := by
  constructor
  · intro h
    induction text generalizing n front with
    | nil =>
      cases n with
      | zero =>
        obtain ⟨rfl, rfl⟩ := Prod.mk.inj (Option.some.inj h)
        exact ⟨rfl, rfl⟩
      | succ n => exact absurd h (by simp [splitAt])
    | cons c text ih =>
      cases n with
      | zero =>
        obtain ⟨rfl, rfl⟩ := Prod.mk.inj (Option.some.inj h)
        exact ⟨rfl, rfl⟩
      | succ n =>
        rw [splitAt] at h
        split_ifs at h with hfits
        obtain ⟨⟨front, back⟩, hsplit, hparts⟩ := Option.map_eq_some_iff.mp h
        obtain ⟨rfl, rfl⟩ := Prod.mk.inj hparts
        obtain ⟨rfl, hlength⟩ := ih hsplit
        exact ⟨rfl, by simp; omega⟩
  · rintro ⟨rfl, rfl⟩
    exact splitAt_append front back

def isBoundary (text : List Char) (n : Nat) : Bool := (splitAt text n).isSome

theorem isBoundary_iff :
    isBoundary text n = true ↔ ∃ front back, text = front ++ back ∧ n = byteLength front := by
  simp only [isBoundary, Option.isSome_iff_exists, Prod.exists, splitAt_eq_some]

/-- The longest start of at most `n` bytes, and the text behind it. -/
def floorSplit (text : List Char) : Nat → List Char × List Char
  | 0 => ([], text)
  | n + 1 => match splitAt text (n + 1) with
    | some parts => parts
    | none => floorSplit text n

theorem floorSplit_append (text : List Char) (n : Nat) :
    (floorSplit text n).1 ++ (floorSplit text n).2 = text := by
  induction n with
  | zero => rfl
  | succ n ih =>
    rw [floorSplit]
    cases hsplit : splitAt text (n + 1) with
    | none => exact ih
    | some parts => exact (splitAt_eq_some.mp hsplit).1.symm

theorem byteLength_floorSplit_le (text : List Char) (n : Nat) :
    byteLength (floorSplit text n).1 ≤ n := by
  induction n with
  | zero => exact Nat.le_refl 0
  | succ n ih =>
    rw [floorSplit]
    cases hsplit : splitAt text (n + 1) with
    | none => exact Nat.le_succ_of_le ih
    | some parts => exact Nat.le_of_eq (splitAt_eq_some.mp hsplit).2.symm

theorem byteLength_le_floorSplit (htext : text = front ++ back) (hle : byteLength front ≤ n) :
    byteLength front ≤ byteLength (floorSplit text n).1 := by
  induction n with
  | zero => exact hle
  | succ n ih =>
    rw [floorSplit]
    cases hsplit : splitAt text (n + 1) with
    | none =>
      apply ih
      apply Nat.le_of_lt_succ
      apply Nat.lt_of_le_of_ne hle
      intro hlast
      rw [splitAt_eq_some.mpr ⟨htext, hlast.symm⟩] at hsplit
      cases hsplit
    | some parts =>
      rw [← (splitAt_eq_some.mp hsplit).2]
      exact hle

/-- The text behind an offset. -/
def sliceFrom (text : List Char) (start : Nat) : Option (List Char) :=
  (splitAt text start).map Prod.snd

/-- The text between two offsets. -/
def slice (text : List Char) (start stop : Nat) : Option (List Char) :=
  (splitAt text stop).bind fun parts => sliceFrom parts.1 start

theorem sliceFrom_eq_some :
    sliceFrom text n = some back ↔ ∃ front, text = front ++ back ∧ n = byteLength front := by
  simp [sliceFrom, splitAt_eq_some]

theorem sliceFrom_append (front back : List Char) :
    sliceFrom (front ++ back) (byteLength front) = some back := by
  rw [sliceFrom, splitAt_append]
  rfl

theorem slice_append (front mid back : List Char) :
    slice (front ++ (mid ++ back)) (byteLength front) (byteLength front + byteLength mid) =
      some mid := by
  rw [slice, ← List.append_assoc, ← byteLength_append, splitAt_append]
  exact sliceFrom_append front mid

end

/-- A text with another one in place of what stands between two offsets. -/
def replaceRange (text : List Char) (start stop : Nat) (new : List Char) : Option (List Char) :=
  (splitAt text stop).bind fun parts =>
    (splitAt parts.1 start).map fun kept => kept.1 ++ (new ++ parts.2)

theorem replaceRange_append (front mid back new : List Char) :
    replaceRange (front ++ (mid ++ back)) (byteLength front) (byteLength front + byteLength mid) new =
      some (front ++ (new ++ back)) := by
  rw [replaceRange, ← List.append_assoc, ← byteLength_append, splitAt_append, Option.bind_some,
    splitAt_append]
  rfl

/-- The shorter of two starts of a text is the start of the other. -/
theorem exists_of_byteLength_le {front back front' back' : List Char}
    (heq : front ++ back = front' ++ back') (hle : byteLength front ≤ byteLength front') :
    ∃ mid, front' = front ++ mid := by
  rcases List.append_eq_append_iff.mp heq with ⟨mid, hmid, -⟩ | ⟨mid, hmid, -⟩
  · exact ⟨mid, hmid⟩
  · have hempty : byteLength mid = 0 := by
      rw [hmid, byteLength_append] at hle
      omega
    rw [byteLength_eq_zero] at hempty
    exact ⟨[], by simp [hmid, hempty]⟩

theorem append_inj_of_byteLength {front back front' back' : List Char}
    (heq : front ++ back = front' ++ back') (hlength : byteLength front = byteLength front') :
    front = front' ∧ back = back' := by
  obtain ⟨mid, rfl⟩ := exists_of_byteLength_le heq (Nat.le_of_eq hlength)
  obtain rfl : mid = [] := by
    rw [← byteLength_eq_zero]
    simpa using hlength
  simpa using heq

theorem isBoundary_append (front back : List Char) (n : Nat) :
    isBoundary (front ++ back) (byteLength front + n) = isBoundary back n := by
  rw [Bool.eq_iff_iff, isBoundary_iff, isBoundary_iff]
  constructor
  · rintro ⟨front', back', heq, hn⟩
    obtain ⟨mid, rfl⟩ := exists_of_byteLength_le heq (by omega)
    rw [List.append_assoc] at heq
    exact ⟨mid, back', List.append_cancel_left heq, by simpa using hn⟩
  · rintro ⟨mid, back', rfl, rfl⟩
    exact ⟨front ++ mid, back', by simp, by simp⟩

theorem isSome_replaceRange {text new : List Char} {start stop : Nat} (hle : start ≤ stop) :
    (replaceRange text start stop new).isSome = true ↔
      isBoundary text start = true ∧ isBoundary text stop = true := by
  rw [isBoundary_iff, isBoundary_iff]
  constructor
  · intro h
    obtain ⟨out, hout⟩ := Option.isSome_iff_exists.mp h
    obtain ⟨⟨front, back⟩, hstop, hkept⟩ := Option.bind_eq_some_iff.mp hout
    obtain ⟨⟨kept, mid⟩, hstart, -⟩ := Option.map_eq_some_iff.mp hkept
    obtain ⟨rfl, rfl⟩ := splitAt_eq_some.mp hstop
    obtain ⟨rfl, rfl⟩ := splitAt_eq_some.mp hstart
    exact ⟨⟨kept, mid ++ back, by simp, rfl⟩, ⟨_, back, rfl, rfl⟩⟩
  · rintro ⟨⟨front, back, rfl, rfl⟩, ⟨front', back', heq, rfl⟩⟩
    obtain ⟨mid, rfl⟩ := exists_of_byteLength_le heq hle
    rw [heq, List.append_assoc, byteLength_append, replaceRange_append]
    rfl

theorem splitAt_append_of_le {front : List Char} {n : Nat} (hle : n ≤ byteLength front)
    (back : List Char) :
    splitAt (front ++ back) n = (splitAt front n).map fun parts => (parts.1, parts.2 ++ back) := by
  cases hsplit : splitAt front n with
  | some parts =>
    obtain ⟨rfl, rfl⟩ := splitAt_eq_some.mp hsplit
    rw [List.append_assoc, splitAt_append]
    rfl
  | none =>
    refine Option.eq_none_iff_forall_ne_some.mpr fun parts h => ?_
    obtain ⟨heq, rfl⟩ := splitAt_eq_some.mp h
    obtain ⟨mid, rfl⟩ := exists_of_byteLength_le heq.symm hle
    rw [splitAt_append] at hsplit
    exact absurd hsplit (by simp)

/-- What stands behind the range is kept. -/
theorem replaceRange_append_of_le {front new : List Char} {start stop : Nat}
    (hle : stop ≤ byteLength front) (back : List Char) :
    replaceRange (front ++ back) start stop new =
      (replaceRange front start stop new).map (· ++ back) := by
  rw [replaceRange, replaceRange, splitAt_append_of_le hle]
  cases splitAt front stop with
  | none => rfl
  | some parts =>
    simp only [Option.map_some, Option.bind_some, Option.map_map]
    congr 1
    funext kept
    simp

/-- So is what stands in front of it. -/
theorem isPrefix_of_replaceRange {front back new out : List Char} {stop : Nat}
    (h : replaceRange (front ++ back) (byteLength front) stop new = some out) : front <+: out := by
  obtain ⟨⟨before, after⟩, hstop, hkept⟩ := Option.bind_eq_some_iff.mp h
  obtain ⟨⟨kept, mid⟩, hstart, rfl⟩ := Option.map_eq_some_iff.mp hkept
  obtain ⟨heq, rfl⟩ := splitAt_eq_some.mp hstop
  obtain ⟨rfl, hlength⟩ := splitAt_eq_some.mp hstart
  rw [List.append_assoc] at heq
  obtain ⟨rfl, -⟩ := append_inj_of_byteLength heq hlength
  exact List.prefix_append _ _

theorem byteLength_replaceRange {text new out : List Char} {start stop : Nat}
    (h : replaceRange text start stop new = some out) :
    start ≤ stop ∧ byteLength out + (stop - start) = byteLength text + byteLength new := by
  obtain ⟨⟨front, back⟩, hstop, hkept⟩ := Option.bind_eq_some_iff.mp h
  obtain ⟨⟨kept, mid⟩, hstart, rfl⟩ := Option.map_eq_some_iff.mp hkept
  obtain ⟨rfl, rfl⟩ := splitAt_eq_some.mp hstop
  obtain ⟨rfl, rfl⟩ := splitAt_eq_some.mp hstart
  constructor <;> simp only [byteLength_append] <;> omega

/-- The offset of the first occurrence of a pattern. -/
def find (pattern : List Char) : List Char → Option Nat
  | [] => if pattern = [] then some 0 else none
  | c :: rest =>
    if pattern.isPrefixOf (c :: rest) then some 0
    else (find pattern rest).map (c.utf8Size + ·)

/-- No pattern starts earlier. -/
def IsFirst (pattern front more : List Char) : Prop :=
  ∀ u v, front ++ (pattern ++ more) = u ++ (pattern ++ v) → front.length ≤ u.length

/-- There is only one first place. -/
theorem IsFirst.unique {pattern front more front' more' : List Char} (h : IsFirst pattern front more)
    (h' : IsFirst pattern front' more')
    (heq : front ++ (pattern ++ more) = front' ++ (pattern ++ more')) :
    front = front' ∧ more = more' := by
  have hlength := Nat.le_antisymm (h _ _ heq) (h' _ _ heq.symm)
  obtain ⟨rfl, hmore⟩ := List.append_inj heq hlength
  exact ⟨rfl, List.append_cancel_left hmore⟩

section
variable {pattern text : List Char} {n : Nat}

theorem find_eq_none : find pattern text = none ↔ ¬ pattern <:+: text := by
  induction text with
  | nil => simp [find]
  | cons c rest ih =>
    rw [find, List.infix_cons_iff, not_or, ← ih]
    by_cases hstart : pattern <+: c :: rest <;> simp [hstart]

theorem find_eq_some : find pattern text = some n ↔
    ∃ front more, text = front ++ (pattern ++ more) ∧ n = byteLength front ∧
      IsFirst pattern front more := by
  induction text generalizing n with
  | nil =>
    by_cases hpattern : pattern = []
    · subst hpattern
      simp [find, IsFirst, eq_comm]
    · simp [find, hpattern]
  | cons c rest ih =>
    rw [find]
    by_cases hstart : pattern <+: c :: rest
    · rw [if_pos (List.isPrefixOf_iff_prefix.mpr hstart)]
      obtain ⟨more, hmore⟩ := hstart
      constructor
      · intro h
        exact ⟨[], more, hmore.symm, (Option.some.inj h).symm, fun u v _ => Nat.zero_le _⟩
      · rintro ⟨front, more', htext, rfl, hfirst⟩
        have hnil : front.length ≤ 0 := hfirst [] more (htext.symm.trans hmore.symm)
        rw [List.length_eq_zero_iff.mp (Nat.le_zero.mp hnil)]
        rfl
    · rw [if_neg (fun h => hstart (List.isPrefixOf_iff_prefix.mp h)), Option.map_eq_some_iff]
      constructor
      · rintro ⟨m, hm, rfl⟩
        obtain ⟨front, more, rfl, rfl, hfirst⟩ := ih.mp hm
        refine ⟨c :: front, more, rfl, rfl, fun u v h => ?_⟩
        cases u with
        | nil => exact absurd ⟨v, h.symm⟩ hstart
        | cons d u => exact Nat.succ_le_succ (hfirst u v (List.cons.inj h).2)
      · rintro ⟨front, more, htext, rfl, hfirst⟩
        cases front with
        | nil => exact absurd ⟨more, htext.symm⟩ hstart
        | cons d front =>
          obtain ⟨rfl, rfl⟩ := List.cons.inj htext
          refine ⟨byteLength front, ih.mpr ⟨front, more, rfl, rfl, fun u v h => ?_⟩, rfl⟩
          exact Nat.succ_le_succ_iff.mp (hfirst (c :: u) v (congrArg (c :: ·) h))

theorem find_isSome : (find pattern text).isSome = true ↔ pattern <:+: text := by
  rw [← not_iff_not, ← find_eq_none, Option.not_isSome_iff_eq_none]

/-- A pattern that is found in the first part of a text is first there. -/
theorem find_append (h : find pattern text = some n) (rest : List Char) :
    find pattern (text ++ rest) = some n := by
  induction text generalizing n with
  | nil =>
    have hpattern : pattern = [] := by
      by_contra hne
      simp [find, hne] at h
    subst hpattern
    cases rest <;> simpa [find] using h
  | cons c text ih =>
    rw [find] at h
    rw [List.cons_append, find]
    by_cases hstart : pattern <+: c :: text
    · rw [if_pos (List.isPrefixOf_iff_prefix.mpr hstart)] at h
      have hlonger : pattern <+: c :: (text ++ rest) := hstart.trans (List.prefix_append (c :: text) rest)
      rwa [if_pos (List.isPrefixOf_iff_prefix.mpr hlonger)]
    · rw [if_neg (fun h => hstart (List.isPrefixOf_iff_prefix.mp h)), Option.map_eq_some_iff] at h
      obtain ⟨m, hm, rfl⟩ := h
      have hfits : pattern.length ≤ (c :: text).length := by
        have hinfix := find_isSome.mp (hm ▸ rfl : (find pattern text).isSome = true)
        exact Nat.le_succ_of_le hinfix.length_le
      have hshort : ¬ pattern <+: c :: (text ++ rest) := fun hlonger =>
        hstart (List.prefix_of_prefix_length_le hlonger (List.prefix_append (c :: text) rest) hfits)
      rw [if_neg (fun h => hshort (List.isPrefixOf_iff_prefix.mp h)), ih hm]
      rfl

/-- Characters of other texts may be exchanged for some of the same size. -/
theorem find_map {f : Char → Char} (hsize : ∀ c, (f c).utf8Size = c.utf8Size)
    (hpattern : ∀ p ∈ pattern, ∀ c, f c = p ↔ c = p) : find pattern (text.map f) = find pattern text := by
  have hstart : ∀ {pattern text : List Char}, (∀ p ∈ pattern, ∀ c, f c = p ↔ c = p) →
      (pattern <+: text.map f ↔ pattern <+: text) := by
    intro pattern text hpattern
    induction pattern generalizing text with
    | nil => simp
    | cons p pattern ih =>
      obtain ⟨hp, hrest⟩ := List.forall_mem_cons.mp hpattern
      cases text with
      | nil => simp
      | cons c text =>
        rw [List.map_cons, List.cons_prefix_cons, List.cons_prefix_cons, ih hrest, eq_comm, hp c, eq_comm]
  induction text with
  | nil => rfl
  | cons c text ih =>
    have hcons : pattern <+: (c :: text).map f ↔ pattern <+: c :: text := hstart hpattern
    simp only [← List.isPrefixOf_iff_prefix, ← Bool.eq_iff_iff, List.map_cons] at hcons
    rw [List.map_cons, find, find, hcons, ih, hsize]

/-- A pattern lies on one side of a character that it does not have. -/
theorem infix_append_cons {c : Char} {front back : List Char} (hc : c ∉ pattern) :
    pattern <:+: front ++ c :: back ↔ pattern <:+: front ∨ pattern <:+: back := by
  constructor
  · rintro ⟨u, v, h⟩
    rw [List.append_assoc] at h
    rcases List.append_eq_append_iff.mp h with ⟨mid, rfl, hmid⟩ | ⟨mid, rfl, hmid⟩
    · rcases List.append_eq_append_iff.mp hmid with ⟨mid', rfl, hmid'⟩ | ⟨mid', rfl, hmid'⟩
      · exact .inl ⟨u, mid', by simp⟩
      · cases mid' with
        | nil => exact .inl ⟨u, [], by simp⟩
        | cons d mid' =>
          obtain ⟨rfl, -⟩ := List.cons.inj hmid'
          exact absurd (by simp) hc
    · cases mid with
      | nil =>
        cases pattern with
        | nil => exact .inl (List.nil_infix)
        | cons p pattern =>
          obtain ⟨rfl, -⟩ := List.cons.inj hmid
          exact absurd List.mem_cons_self hc
      | cons d mid =>
        obtain ⟨-, rfl⟩ := List.cons.inj hmid
        exact .inr ⟨mid, v, by simp⟩
  · rintro (⟨u, v, rfl⟩ | ⟨u, v, rfl⟩)
    · exact ⟨u, v ++ c :: back, by simp⟩
    · exact ⟨front ++ c :: u, v, by simp⟩

/-- A pattern does not reach into a text that its last character does not stand in. -/
theorem infix_append_left {c : Char} {front back : List Char} (hlast : c ∈ pattern.getLast?)
    (hc : c ∉ back) : pattern <:+: front ++ back ↔ pattern <:+: front := by
  constructor
  · rintro ⟨u, v, h⟩
    obtain ⟨start, rfl⟩ := List.getLast?_eq_some_iff.mp hlast
    rcases List.append_eq_append_iff.mp h with ⟨mid, hfront, -⟩ | ⟨mid, hmid, hback⟩
    · exact ⟨u, mid, hfront.symm⟩
    · rcases mid.eq_nil_or_concat' with rfl | ⟨mid, d, rfl⟩
      · exact ⟨u, [], by simpa using hmid⟩
      · rw [← List.append_assoc, ← List.append_assoc] at hmid
        obtain ⟨-, hd⟩ := List.append_inj' hmid rfl
        obtain rfl : c = d := by simpa using hd
        exact absurd (by simp [hback]) hc
  · exact fun h => h.trans (List.infix_append' [] front back)

end

end ReactRuntime.Library.Utf8
