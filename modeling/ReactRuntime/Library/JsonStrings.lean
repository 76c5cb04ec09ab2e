import ReactRuntime.Library.JsonGrammar

/-!
# What the strings of JSON stand for

A string is a row of units: a character, an escape, or a surrogate pair of two escapes. A reader
takes one unit after the other, up to the quote that ends the string.
-/
namespace ReactRuntime.Library.JsonText

/-- The character that an escape stands for. -/
def unescape (c : Char) : Char :=
  if c = 'b' then Char.ofNat 0x08
  else if c = 'f' then Char.ofNat 0x0C
  else if c = 'n' then '\n'
  else if c = 'r' then '\r'
  else if c = 't' then '\t'
  else c

def hexDigit (c : Char) : Nat :=
  if c.isDigit then c.toNat - 0x30 else if 'a' ≤ c then c.toNat - 0x57 else c.toNat - 0x37

def codeUnit (c₁ c₂ c₃ c₄ : Char) : Nat :=
  ((hexDigit c₁ * 16 + hexDigit c₂) * 16 + hexDigit c₃) * 16 + hexDigit c₄

/-- Four hexadecimal digits and their number. -/
inductive IsCodeUnit : List Char → Nat → Prop where
  | mk {c₁ c₂ c₃ c₄ : Char} (h₁ : isHex c₁ = true) (h₂ : isHex c₂ = true) (h₃ : isHex c₃ = true)
      (h₄ : isHex c₄ = true) : IsCodeUnit [c₁, c₂, c₃, c₄] (codeUnit c₁ c₂ c₃ c₄)

def isSurrogate (n : Nat) : Bool := 0xD800 ≤ n && n ≤ 0xDFFF

/-- The character of a surrogate pair. -/
def pairChar (high low : Nat) : Char := Char.ofNat (0x10000 + (high - 0xD800) * 0x400 + (low - 0xDC00))

/-- What stands for one character in a string. -/
inductive IsUnit : List Char → Char → Prop where
  | plain {c : Char} (hquote : c ≠ '"') (hbackslash : c ≠ '\\') (hcontrol : 0x20 ≤ c.toNat) :
      IsUnit [c] c
  | escape {c : Char} (hc : c ∈ escapes) : IsUnit ['\\', c] (unescape c)
  | unicode {digits : List Char} {n : Nat} (h : IsCodeUnit digits n) (hn : isSurrogate n = false) :
      IsUnit ('\\' :: 'u' :: digits) (Char.ofNat n)
  | pair {digits digits' : List Char} {high low : Nat} (h : IsCodeUnit digits high)
      (h' : IsCodeUnit digits' low) (hhigh : 0xD800 ≤ high ∧ high < 0xDC00)
      (hlow : 0xDC00 ≤ low ∧ low ≤ 0xDFFF) :
      IsUnit ('\\' :: 'u' :: (digits ++ '\\' :: 'u' :: digits')) (pairChar high low)

inductive Decodes : List Char → List Char → Prop where
  | nil : Decodes [] []
  | cons {text rest content : List Char} {c : Char} (hunit : IsUnit text c) (h : Decodes rest content) :
      Decodes (text ++ rest) (c :: content)

theorem IsCodeUnit.stringBody {digits : List Char} {n : Nat} (h : IsCodeUnit digits n)
    {rest : List Char} (hrest : StringBody rest) : StringBody ('\\' :: 'u' :: (digits ++ rest)) := by
  obtain ⟨h₁, h₂, h₃, h₄⟩ := h
  exact .unicode h₁ h₂ h₃ h₄ hrest

theorem IsUnit.stringBody {text : List Char} {c : Char} (h : IsUnit text c) {rest : List Char}
    (hrest : StringBody rest) : StringBody (text ++ rest) := by
  cases h with
  | plain hquote hbackslash hcontrol => exact .plain hquote hbackslash hcontrol hrest
  | escape hc => exact .escape hc hrest
  | unicode h _ => exact h.stringBody hrest
  | pair h h' _ _ => simpa using h.stringBody (h'.stringBody hrest)

theorem Decodes.stringBody {body content : List Char} (h : Decodes body content) :
    StringBody body := by
  induction h with
  | nil => exact .nil
  | cons hunit _ ih => exact hunit.stringBody ih

def readCodeUnit : List Char → Option (Nat × List Char)
  | c₁ :: c₂ :: c₃ :: c₄ :: rest =>
    if isHex c₁ && isHex c₂ && isHex c₃ && isHex c₄ then some (codeUnit c₁ c₂ c₃ c₄, rest) else none
  | _ => none

/-- The second half of a surrogate pair. -/
def readLow (high : Nat) : List Char → Option (Char × List Char)
  | b :: u :: rest =>
    if b = '\\' ∧ u = 'u' then
      match readCodeUnit rest with
      | some (low, rest') =>
        if 0xDC00 ≤ low ∧ low ≤ 0xDFFF then some (pairChar high low, rest') else none
      | none => none
    else none
  | _ => none

def readEscape : List Char → Option (Char × List Char)
  | [] => none
  | c :: rest =>
    if c = 'u' then
      match readCodeUnit rest with
      | some (n, rest') =>
        if isSurrogate n = false then some (Char.ofNat n, rest')
        else if n < 0xDC00 then readLow n rest'
        else none
      | none => none
    else if c ∈ escapes then some (unescape c, rest)
    else none

def readUnit : List Char → Option (Char × List Char)
  | [] => none
  | c :: rest =>
    if c = '\\' then readEscape rest
    else if c = '"' ∨ c.toNat < 0x20 then none
    else some (c, rest)

/-- The content up to the quote that ends a string, and what stands behind the quote. -/
def readString : (fuel : Nat) → List Char → Option (List Char × List Char)
  | 0, _ => none
  | fuel + 1, text =>
    if text.head? = some '"' then some ([], text.tail)
    else
      match readUnit text with
      | some (c, rest) => (readString fuel rest).map fun found => (c :: found.1, found.2)
      | none => none

theorem readCodeUnit_eq_some {text rest : List Char} {n : Nat} :
    readCodeUnit text = some (n, rest) ↔ ∃ digits, IsCodeUnit digits n ∧ text = digits ++ rest := by
  constructor
  · intro h
    match text with
    | [] | [_] | [_, _] | [_, _, _] => simp [readCodeUnit] at h
    | c₁ :: c₂ :: c₃ :: c₄ :: more =>
      simp only [readCodeUnit, Option.ite_none_right_eq_some, Bool.and_eq_true, Option.some.injEq,
        Prod.mk.injEq] at h
      obtain ⟨⟨⟨⟨h₁, h₂⟩, h₃⟩, h₄⟩, rfl, rfl⟩ := h
      exact ⟨_, .mk h₁ h₂ h₃ h₄, rfl⟩
  · rintro ⟨digits, ⟨h₁, h₂, h₃, h₄⟩, rfl⟩
    simp [readCodeUnit, h₁, h₂, h₃, h₄]

theorem readLow_eq_some {high : Nat} {text rest : List Char} {c : Char} :
    readLow high text = some (c, rest) ↔ ∃ digits low, IsCodeUnit digits low ∧
      (0xDC00 ≤ low ∧ low ≤ 0xDFFF) ∧ c = pairChar high low ∧
        text = '\\' :: 'u' :: (digits ++ rest) := by
  constructor
  · intro h
    match text with
    | [] | [_] => simp [readLow] at h
    | b :: u :: more =>
      rw [readLow, Option.ite_none_right_eq_some] at h
      obtain ⟨⟨rfl, rfl⟩, h⟩ := h
      cases hread : readCodeUnit more with
      | none => simp [hread] at h
      | some found =>
        obtain ⟨low, rest'⟩ := found
        simp only [hread, Option.ite_none_right_eq_some, Option.some.injEq, Prod.mk.injEq] at h
        obtain ⟨hlow, rfl, rfl⟩ := h
        obtain ⟨digits, hdigits, rfl⟩ := readCodeUnit_eq_some.mp hread
        exact ⟨digits, low, hdigits, hlow, rfl, rfl⟩
  · rintro ⟨digits, low, hdigits, hlow, hc, rfl⟩
    have hread : readCodeUnit (digits ++ rest) = some (low, rest) :=
      readCodeUnit_eq_some.mpr ⟨digits, hdigits, rfl⟩
    simp [readLow, hread, hlow, hc]

theorem readEscape_eq_some {text rest : List Char} {c : Char} :
    readEscape text = some (c, rest) ↔ ∃ front, IsUnit ('\\' :: front) c ∧ text = front ++ rest := by
  constructor
  · intro h
    cases text with
    | nil => simp [readEscape] at h
    | cons d more =>
      rw [readEscape] at h
      split_ifs at h with hu hescape
      · subst hu
        cases hread : readCodeUnit more with
        | none => simp [hread] at h
        | some found =>
          obtain ⟨n, rest'⟩ := found
          obtain ⟨digits, hdigits, rfl⟩ := readCodeUnit_eq_some.mp hread
          simp only [hread] at h
          split_ifs at h with hplain hhigh
          · obtain ⟨rfl, rfl⟩ := Prod.mk.inj (Option.some.inj h)
            exact ⟨'u' :: digits, .unicode hdigits hplain, rfl⟩
          · obtain ⟨digits', low, hdigits', hlow, hc, rfl⟩ := readLow_eq_some.mp h
            have hrange : 0xD800 ≤ n := by
              by_contra hn
              exact hplain (by simp [isSurrogate]; omega)
            refine ⟨'u' :: (digits ++ '\\' :: 'u' :: digits'), ?_, by simp⟩
            rw [hc]
            exact .pair hdigits hdigits' ⟨hrange, hhigh⟩ hlow
      · obtain ⟨rfl, rfl⟩ := Prod.mk.inj (Option.some.inj h)
        exact ⟨[d], .escape hescape, rfl⟩
  · rintro ⟨front, hunit, rfl⟩
    cases hunit with
    | plain _ hbackslash _ => exact absurd rfl hbackslash
    | escape hc =>
      have hmem : 'u' ∉ escapes := by decide
      have hu (d : Char) (hd : d ∈ escapes) : d ≠ 'u' := by
        rintro rfl
        exact hmem hd
      simp [readEscape, hu _ hc, hc]
    | @unicode digits n h hn =>
      have hread : readCodeUnit (digits ++ rest) = some (n, rest) :=
        readCodeUnit_eq_some.mpr ⟨digits, h, rfl⟩
      simp [readEscape, hread, hn]
    | @pair digits digits' high low h h' hhigh hlow =>
      have hread : readCodeUnit (digits ++ '\\' :: 'u' :: (digits' ++ rest)) =
          some (high, '\\' :: 'u' :: (digits' ++ rest)) :=
        readCodeUnit_eq_some.mpr ⟨digits, h, rfl⟩
      have hread' : readLow high ('\\' :: 'u' :: (digits' ++ rest)) =
          some (pairChar high low, rest) :=
        readLow_eq_some.mpr ⟨digits', low, h', hlow, rfl, rfl⟩
      have hsurrogate : isSurrogate high = true := by
        simp [isSurrogate]
        omega
      simp [readEscape, hread, hsurrogate, hhigh.2, hread']

/-- The reader takes exactly the units. -/
theorem readUnit_eq_some {text rest : List Char} {c : Char} :
    readUnit text = some (c, rest) ↔ ∃ front, IsUnit front c ∧ text = front ++ rest := by
  constructor
  · intro h
    cases text with
    | nil => simp [readUnit] at h
    | cons d more =>
      rw [readUnit] at h
      split_ifs at h with hbackslash hother
      · obtain ⟨front, hunit, rfl⟩ := readEscape_eq_some.mp h
        exact ⟨'\\' :: front, hunit, by rw [hbackslash]; rfl⟩
      · obtain ⟨rfl, rfl⟩ := Prod.mk.inj (Option.some.inj h)
        obtain ⟨hquote, hcontrol⟩ := not_or.mp hother
        exact ⟨[d], .plain hquote hbackslash (by omega), rfl⟩
  · rintro ⟨front, hunit, rfl⟩
    cases hunit with
    | plain hquote hbackslash hcontrol => simp [readUnit, hquote, hbackslash]; omega
    | escape hc => exact readEscape_eq_some.mpr ⟨[_], .escape hc, rfl⟩
    | unicode h hn => exact readEscape_eq_some.mpr ⟨_, .unicode h hn, rfl⟩
    | pair h h' hhigh hlow => exact readEscape_eq_some.mpr ⟨_, .pair h h' hhigh hlow, rfl⟩

theorem IsUnit.head?_ne {text : List Char} {c : Char} (h : IsUnit text c) (rest : List Char) :
    (text ++ rest).head? ≠ some '"' ∧ 0 < text.length := by
  cases h with
  | plain hquote _ _ => simpa using hquote
  | escape | unicode | pair => simp

theorem readString_eq_some {fuel : Nat} {text content rest : List Char} :
    readString fuel text = some (content, rest) →
      ∃ body, Decodes body content ∧ text = body ++ '"' :: rest := by
  intro h
  induction fuel generalizing text content with
  | zero => simp [readString] at h
  | succ fuel ih =>
    rw [readString] at h
    split_ifs at h with hquote
    · obtain ⟨rfl, rfl⟩ := Prod.mk.inj (Option.some.inj h)
      exact ⟨[], .nil, (List.cons_head?_tail hquote).symm⟩
    · cases hunit : readUnit text with
      | none => simp [hunit] at h
      | some found =>
        obtain ⟨c, more⟩ := found
        simp only [hunit, Option.map_eq_some_iff, Prod.mk.injEq] at h
        obtain ⟨⟨content', rest'⟩, hmore, rfl, rfl⟩ := h
        obtain ⟨front, hfront, rfl⟩ := readUnit_eq_some.mp hunit
        obtain ⟨body, hbody, rfl⟩ := ih hmore
        exact ⟨front ++ body, .cons hfront hbody, (List.append_assoc ..).symm⟩

theorem readString_append {body content : List Char} (h : Decodes body content) (fuel : Nat)
    (hfuel : body.length < fuel) (rest : List Char) :
    readString fuel (body ++ '"' :: rest) = some (content, rest) := by
  induction h generalizing fuel with
  | nil =>
    obtain ⟨fuel, rfl⟩ := Nat.exists_eq_succ_of_ne_zero (Nat.ne_of_gt hfuel)
    rfl
  | cons hunit _ ih =>
    rename_i text more content c _
    obtain ⟨fuel, rfl⟩ := Nat.exists_eq_succ_of_ne_zero (Nat.ne_zero_of_lt hfuel)
    obtain ⟨hhead, hpos⟩ := hunit.head?_ne (more ++ '"' :: rest)
    rw [List.length_append] at hfuel
    have hread : readUnit (text ++ (more ++ '"' :: rest)) = some (c, more ++ '"' :: rest) :=
      readUnit_eq_some.mpr ⟨text, hunit, rfl⟩
    rw [List.append_assoc, readString, if_neg hhead, hread]
    simp [ih fuel (by omega)]

end ReactRuntime.Library.JsonText
