import ReactRuntime.Core.RedactedLines
import ReactRuntime.Core.RedactionCuts
import ReactRuntime.Library.Ascii

/-!
# The first match of a line

A line with a bearer token in it, what is found in its lower case, and what is put out for the match
that is found there.
-/
namespace ReactRuntime.Core
open Library Utf8

def IsToken (t : List Char) : Prop := t ≠ [] ∧ ∀ c ∈ t, c.isAlphanum = true ∨ c ∈ ['.', '_', '-']

def bearerText : List Char := "Bearer ".toList

/-- The line of a token, with what stands in front of it and behind it. -/
def tokenLine (l t r : List Char) : List Char := l ++ (bearerText ++ (t ++ r))

theorem ascii_of_token {c : Char} (h : c.isAlphanum = true ∨ c ∈ ['.', '_', '-']) :
    c.toNat < 128 := by
  rcases h with h | h
  · have hsize := utf8Size_of_isAlphanum h
    rw [Char.utf8Size_eq_one_iff, UInt32.le_iff_toNat_le] at hsize
    exact Nat.lt_succ_of_le hsize
  · simp only [List.mem_cons, List.not_mem_nil, or_false] at h
    rcases h with rfl | rfl | rfl <;> decide

theorem ne_of_token {c d : Char} (h : c.isAlphanum = true ∨ c ∈ ['.', '_', '-'])
    (hd : d.isAlphanum = false) (hd' : d ∉ ['.', '_', '-']) : c ≠ d := by
  rintro rfl
  rcases h with h | h
  · exact absurd (hd.symm.trans h) (by decide)
  · exact hd' h

theorem isWhitespace_of_token {c : Char} (h : c.isAlphanum = true ∨ c ∈ ['.', '_', '-']) :
    isWhitespace c = false := by
  have hascii : ∀ n < 128, isWhitespace (Char.ofNat n) = true →
      (Char.ofNat n).isAlphanum = false ∧ Char.ofNat n ∉ ['.', '_', '-'] := by decide
  by_contra hblank
  have hother := hascii _ (ascii_of_token h)
  rw [Char.ofNat_toNat] at hother
  obtain ⟨hd, hd'⟩ := hother (by simpa using hblank)
  exact ne_of_token h hd hd' rfl

theorem toLower_ne_colon {c : Char} (h : c.isAlphanum = true ∨ c ∈ ['.', '_', '-']) :
    c.toLower ≠ ':' := by
  have hascii : ∀ n < 128, (Char.ofNat n).toLower = ':' → Char.ofNat n = ':' := by decide
  have hcolon := hascii _ (ascii_of_token h)
  rw [Char.ofNat_toNat] at hcolon
  exact fun hc => ne_of_token h (by decide) (by decide) (hcolon hc)

section
variable {U : LowerTable} {l t r : List Char}

theorem folded_bearerText (hU : U.Lawful) : U.folded bearerText = bearer := by
  have hall : bearerText.all (fun c => c.toNat < 128) = true := by decide
  rw [folded_ascii hU (by simpa using hall)]
  decide

theorem folded_token (hU : U.Lawful) (ht : IsToken t) : U.folded t = t.map Char.toLower :=
  folded_ascii hU fun c hc => ascii_of_token (ht.2 c hc)

theorem authorization_plain : ∀ p ∈ authorization, p.toNat < 128 ∧ isWhitespace p = false := by
  have hall : authorization.all (fun p => p.toNat < 128 && !isWhitespace p) = true := by decide
  simpa using hall

theorem bearer_ascii : ∀ p ∈ bearer, p.toNat < 128 := by
  have hall : bearer.all (fun p => p.toNat < 128) = true := by decide
  simpa using hall

/-- Whether a line has an authorization header is told by what stands around its token. -/
theorem authorization_tokenLine (hU : U.Lawful) (ht : IsToken t)
    (hr : ∀ c ∈ r.head?, isWhitespace c = true) :
    authorization <:+: U.toLowercase (tokenLine l t r) ↔
      authorization <:+: U.toLowercase l ∨ authorization <:+: U.toLowercase r := by
  simp only [infix_toLowercase fun p hp => (authorization_plain p hp).1]
  have hlast : ':' ∈ authorization.getLast? := by decide
  have htoken : ':' ∉ t.map Char.toLower := by
    intro hmem
    obtain ⟨c, hc, hcolon⟩ := List.mem_map.mp hmem
    exact toLower_ne_colon (ht.2 c hc) hcolon
  have hblank : ∀ {w}, isWhitespace w = true → w ∉ authorization := by
    intro w hw hmem
    exact absurd (hw.symm.trans (authorization_plain w hmem).2) (by decide)
  have hsplit : U.folded (tokenLine l t r) =
      (U.folded l ++ "bearer".toList) ++ ' ' :: (t.map Char.toLower ++ U.folded r) := by
    have hbearer : bearer = "bearer".toList ++ [' '] := by decide
    rw [tokenLine, folded_append, folded_append, folded_append, folded_bearerText hU,
      folded_token hU ht, hbearer]
    simp only [List.append_assoc, List.singleton_append]
  rw [hsplit, infix_append_cons (hblank (by decide)), infix_append_left hlast (by decide)]
  refine or_congr_right ?_
  have hnone : ¬ authorization <:+: t.map Char.toLower :=
    fun h => htoken (h.subset (List.mem_of_getLast? hlast))
  cases r with
  | nil => 
    rw [LowerTable.folded, List.flatMap_nil, List.append_nil]
    exact iff_of_false hnone (by decide)
  | cons w r =>
    have hw := hblank (hr w rfl)
    have hempty : ¬ authorization <:+: [] := by decide
    have hright : authorization <:+: [] ++ w :: U.folded r ↔ _ := infix_append_cons hw
    rw [folded_whitespace hU (hr w rfl), infix_append_cons hw, or_iff_right hnone]
    rw [List.nil_append, or_iff_right hempty] at hright
    exact hright.symm

/-- The first match of a line is told by what stands in front of its token. -/
theorem find_bearer_tokenLine (hU : U.Lawful) : ∃ idx,
    find bearer (U.toLowercase (l ++ bearerText)) = some idx ∧
      ∀ t r, find bearer (U.toLowercase (tokenLine l t r)) = some idx := by
  have hfront : U.folded (l ++ bearerText) = U.folded l ++ bearer := by
    rw [folded_append, folded_bearerText hU]
  have hfound : bearer <:+: U.folded (l ++ bearerText) := by
    rw [hfront]
    exact List.infix_append_right
  obtain ⟨idx, hidx⟩ := Option.isSome_iff_exists.mp (find_isSome.mpr hfound)
  refine ⟨idx, (find_toLowercase bearer_ascii).trans hidx, fun t r => ?_⟩
  rw [find_toLowercase bearer_ascii, tokenLine, ← List.append_assoc, folded_append]
  exact find_append hidx _

/-- A character of ASCII is read from its byte. -/
theorem isBlankByte_ascii {c : Char} (h : c.toNat < 128) :
    ∃ b, bytes [c] = [b] ∧ isBlankByte b = isWhitespace c := by
  have hsize : c.utf8Size = 1 := by
    rw [Char.utf8Size_eq_one_iff, UInt32.le_iff_toNat_le]
    exact Nat.le_of_lt_succ h
  refine ⟨c.val.toUInt8, ?_, ?_⟩
  · simp [bytes, String.utf8EncodeChar_eq_singleton hsize]
  · have hbyte : c.val.toUInt8.toNat = c.toNat := by
      rw [UInt32.toNat_toUInt8]
      exact Nat.mod_eq_of_lt (lt_trans h (by decide))
    rw [isBlankByte, hbyte, Char.ofNat_toNat]

theorem tokenLength_blank {b : UInt8} (hb : isBlankByte b = true) (xs ys : List UInt8) :
    tokenLength (xs ++ b :: ys) = tokenLength (xs ++ [b]) := by
  induction xs with
  | nil => simp [tokenLength, hb]
  | cons x xs ih =>
    simp only [tokenLength, List.cons_append, List.takeWhile_cons] at ih ⊢
    split
    · rw [List.length_cons, List.length_cons, ih]
    · rfl

theorem tokenLength_le {b : UInt8} (hb : isBlankByte b = true) (xs : List UInt8) :
    tokenLength (xs ++ [b]) ≤ xs.length := by
  induction xs with
  | nil => simp [tokenLength, hb]
  | cons x xs ih =>
    simp only [tokenLength, List.cons_append, List.takeWhile_cons] at ih ⊢
    split
    · rw [List.length_cons, List.length_cons]
      omega
    · simp

/-- The bytes of a token are not blank. -/
theorem tokenLength_token (ht : IsToken t) (more : List UInt8) :
    tokenLength (bytes t ++ more) = byteLength t + tokenLength more := by
  have hplain : ∀ b ∈ bytes t, (!isBlankByte b) = true := by
    intro b hb
    obtain ⟨c, hc, hbc⟩ := List.mem_flatMap.mp hb
    obtain ⟨b', hbytes, hblank⟩ := isBlankByte_ascii (ascii_of_token (ht.2 c hc))
    have hsame : b = b' := by
      have hmem : b ∈ bytes [c] := by simpa [bytes] using hbc
      simpa [hbytes] using hmem
    rw [hsame, hblank, isWhitespace_of_token (ht.2 c hc)]
    rfl
  rw [tokenLength, List.takeWhile_append_of_pos hplain, List.length_append, length_bytes]
  rfl

end

section
variable {l t r : List Char} {idx : Nat}

theorem byteLength_bearerText : byteLength bearerText = bearer.length := by decide

theorem tokenLength_tokenLine (ht : IsToken t) :
    tokenLength ((bytes (tokenLine l t r)).drop (byteLength l + bearer.length)) =
      byteLength t + tokenLength (bytes r) := by
  have hline : tokenLine l t r = l ++ bearerText ++ (t ++ r) := by simp [tokenLine]
  have hlength : byteLength l + bearer.length = (bytes (l ++ bearerText)).length := by
    rw [length_bytes, byteLength_append, byteLength_bearerText]
  rw [hline, bytes_append, hlength, List.drop_left, bytes_append, tokenLength_token ht]

theorem byteLength_pos_of_token (ht : IsToken t) : 0 < byteLength t :=
  Nat.pos_of_ne_zero (mt byteLength_eq_zero.mp ht.1)

/-- The token is redacted where its own match is the first. -/
theorem redactBearer_at {r₁ r₂ : List Char} (ht : IsToken t)
    (hlength : tokenLength (bytes (r₁ ++ r₂)) = byteLength r₁) :
    redactBearer (tokenLine l t (r₁ ++ r₂)) (byteLength l) =
      some (l ++ (bearerText ++ (redacted ++ r₂))) := by
  have hpos := byteLength_pos_of_token ht
  have hline : tokenLine l t (r₁ ++ r₂) = l ++ bearerText ++ (t ++ r₁ ++ r₂) := by simp [tokenLine]
  have hstop : byteLength l + bearer.length + (byteLength t + byteLength r₁) =
      byteLength (l ++ bearerText) + byteLength (t ++ r₁) := by
    simp only [byteLength_append, byteLength_bearerText]
  have hinside : byteLength (l ++ bearerText) + byteLength (t ++ r₁) ≤
      byteLength (tokenLine l t (r₁ ++ r₂)) := by
    rw [hline]
    simp only [byteLength_append]
    omega
  have hstart : byteLength l + bearer.length = byteLength (l ++ bearerText) := by
    rw [byteLength_append, byteLength_bearerText]
  have hsome : byteLength (l ++ bearerText) <
      byteLength (l ++ bearerText) + byteLength (t ++ r₁) := by
    rw [byteLength_append t]
    omega
  rw [redactBearer, tokenLength_tokenLine ht, hlength, hstop, hstart, if_pos ⟨hsome, hinside⟩, hline,
    replaceRange_append, List.append_assoc]

/-- A token that ends inside a character is cut. -/
theorem redactBearer_cut (ht : IsToken t) (hcut : isBoundary r (tokenLength (bytes r)) = false) :
    redactBearer (tokenLine l t r) (byteLength l) = none := by
  have hpos := byteLength_pos_of_token ht
  have hline : tokenLine l t r = l ++ bearerText ++ t ++ r := by simp [tokenLine]
  have hstop : byteLength l + bearer.length + (byteLength t + tokenLength (bytes r)) =
      byteLength (l ++ bearerText ++ t) + tokenLength (bytes r) := by
    simp only [byteLength_append, byteLength_bearerText]
    omega
  rw [← Option.not_isSome_iff_eq_none, redactBearer_isSome, TokenAtCharacters,
    tokenLength_tokenLine ht, hstop, hline, isBoundary_append, hcut]
  exact fun h => absurd (h (by omega)).2 (by decide)

/-- An earlier match leaves the token as it is. -/
theorem redactBearer_early (hidx : idx < byteLength l) (r : List Char) :
    ∃ front : Option (List Char), ∀ t,
      redactBearer (tokenLine l t r) idx = front.map (· ++ (t ++ r)) := by
  let start := idx + bearer.length
  let front := l ++ "Bearer".toList
  have hlength : (bytes front).length = byteLength l + 6 := by
    rw [length_bytes, byteLength_append]
    rfl
  have hstart : start ≤ (bytes front).length := by
    rw [hlength]
    exact Nat.add_le_add_right hidx 6
  have hspace : ∃ b, bytes [' '] = [b] ∧ isBlankByte b = true :=
    isBlankByte_ascii (c := ' ') (by decide)
  obtain ⟨b, hbytes, hblank⟩ := hspace
  let n := tokenLength ((bytes front).drop start ++ [b])
  have hn : start + n ≤ byteLength (l ++ bearerText) := by
    have hle := tokenLength_le hblank ((bytes front).drop start)
    have hdrop : ((bytes front).drop start).length = byteLength l + 6 - start := by
      rw [List.length_drop, hlength]
    rw [byteLength_append, byteLength_bearerText]
    have hsix : bearer.length = 7 := by decide
    omega
  have htoken : ∀ t, tokenLength ((bytes (tokenLine l t r)).drop start) = n := by
    intro t
    have hsplit : tokenLine l t r = front ++ ([' '] ++ (t ++ r)) := by
      have hbearer : bearerText = "Bearer".toList ++ [' '] := by decide
      simp only [tokenLine, front, hbearer, List.append_assoc]
    rw [hsplit, bytes_append front, bytes_append [' '], hbytes, List.drop_append_of_le_length hstart,
      List.singleton_append, tokenLength_blank hblank]
  refine ⟨if 0 < n then replaceRange (l ++ bearerText) start (start + n) redacted
    else some (l ++ bearerText), fun t => ?_⟩
  have hline : tokenLine l t r = l ++ bearerText ++ (t ++ r) := by simp [tokenLine]
  have hinside : start + n ≤ byteLength (tokenLine l t r) := by
    rw [hline, byteLength_append]
    exact Nat.le_add_right_of_le hn
  rw [redactBearer]
  change (if start < start + tokenLength ((bytes (tokenLine l t r)).drop start) ∧ _ then _ else _) = _
  rw [htoken]
  by_cases hpos : 0 < n
  · rw [if_pos ⟨by omega, hinside⟩, if_pos hpos, hline]
    exact replaceRange_append_of_le hn _
  · rw [if_neg (by omega), if_neg hpos, hline]
    rfl

/-- A match that is counted too far leaves the start of the token. -/
theorem redactBearer_late {u v out : List Char} (hidx : idx = byteLength l + byteLength u)
    (h : redactBearer (tokenLine l (u ++ v) r) idx = some out) :
    l ++ (bearerText ++ u) <+: out := by
  have hstart : idx + bearer.length = byteLength (l ++ (bearerText ++ u)) := by
    rw [byteLength_append, byteLength_append, byteLength_bearerText]
    omega
  have hline : tokenLine l (u ++ v) r = l ++ (bearerText ++ u) ++ (v ++ r) := by
    simp [tokenLine]
  rw [redactBearer, hstart, hline] at h
  split_ifs at h
  · exact isPrefix_of_replaceRange h
  · rw [← Option.some.inj h]
    exact List.prefix_append _ _

end

end ReactRuntime.Core
