import ReactRuntime.Core.Redaction

/-!
# Cuts at characters

When the redaction of a text returns. Its cuts are at offsets that were found in another text or
counted from a match, and each kind of line says where they have to meet a character.
-/
namespace ReactRuntime.Core
open Library Utf8

/-- The sixteen characters of a key behind its start. -/
def isKey (more : List Char) : Bool := 16 ≤ more.length && (more.take 16).all Char.isAlphanum

/-- Where the search goes on. -/
def afterKey (more : List Char) : List Char := if isKey more then more.drop 16 else more

/-- The texts behind the places at which the search for keys stops. -/
inductive StopsAt (k : KeyStart) : (text behind : List Char) → Prop where
  | first {front more : List Char} (h : IsFirst k.text front more) :
      StopsAt k (front ++ (k.text ++ more)) more
  | later {front more behind : List Char} (h : IsFirst k.text front more)
      (hlater : StopsAt k (afterKey more) behind) : StopsAt k (front ++ (k.text ++ more)) behind

/-- No stop of the search has the middle of a character sixteen bytes behind it. -/
def Clear (k : KeyStart) (text : List Char) : Prop :=
  ∀ behind, StopsAt k text behind → 16 ≤ byteLength behind → isBoundary behind 16 = true

/-- A text with its keys replaced. -/
inductive WithoutKeys (k : KeyStart) : (text out : List Char) → Prop where
  | none {text : List Char} (h : ¬ k.text <:+: text) : WithoutKeys k text text
  | key {front more out : List Char} (h : IsFirst k.text front more) (hkey : isKey more = true)
      (hrest : WithoutKeys k (more.drop 16) out) :
      WithoutKeys k (front ++ (k.text ++ more)) (front ++ (redactedKey ++ out))
  | other {front more out : List Char} (h : IsFirst k.text front more) (hkey : isKey more = false)
      (hrest : WithoutKeys k more out) :
      WithoutKeys k (front ++ (k.text ++ more)) (front ++ (k.text ++ out))

section
variable {k : KeyStart} {front back skipped more : List Char}

theorem redactKeysFrom_of_not_found (h : ¬ k.text <:+: back) :
    redactKeysFrom k (front ++ back) (byteLength front) = some (front ++ back) := by
  have hslice := sliceFrom_append front back
  have hfind := find_eq_none.mpr h
  rw [redactKeysFrom]
  split <;> rename_i hfrom
  · simp [hslice] at hfrom
  · obtain rfl := Option.some.inj (hslice.symm.trans hfrom)
    split <;> rename_i hpos
    · rfl
    · simp [hfind] at hpos

/-- One turn of the loop, without the proofs that it comes to an end. -/
theorem redactKeysFrom_found {s rest : List Char} {searchFrom pos : Nat}
    (hslice : sliceFrom s searchFrom = some rest) (hfind : find k.text rest = some pos) :
    redactKeysFrom k s searchFrom =
      if searchFrom + pos + 20 ≤ byteLength s then
        (slice s (searchFrom + pos) (searchFrom + pos + 20)).bind fun key =>
          if key.all Char.isAlphanum then
            (replaceRange s (searchFrom + pos) (searchFrom + pos + 20) redactedKey).bind fun s' =>
              redactKeysFrom k s' (searchFrom + pos + byteLength redactedKey)
          else redactKeysFrom k s (searchFrom + pos + byteLength k.text)
      else redactKeysFrom k s (searchFrom + pos + byteLength k.text) := by
  rw [redactKeysFrom]
  split <;> rename_i hfrom
  · simp [hslice] at hfrom
  · obtain rfl := Option.some.inj (hslice.symm.trans hfrom)
    split <;> rename_i hpos
    · simp [hfind] at hpos
    · obtain rfl := Option.some.inj (hfind.symm.trans hpos)
      dsimp only
      split
      · cases slice s (searchFrom + pos) (searchFrom + pos + 20) with
        | none => rfl
        | some key =>
          dsimp only [Option.bind_some]
          split
          · split <;> rename_i hreplace <;> simp [hreplace]
          · rfl
      · rfl

section
variable {key rest : List Char}

theorem redactKeysFrom_stop (front : List Char) (h : IsFirst k.text skipped more) :
    redactKeysFrom k (front ++ (skipped ++ (k.text ++ more))) (byteLength front) =
      if byteLength (front ++ skipped) + 20 ≤ byteLength (front ++ (skipped ++ (k.text ++ more))) then
        (slice (front ++ (skipped ++ (k.text ++ more))) (byteLength (front ++ skipped))
          (byteLength (front ++ skipped) + 20)).bind fun key =>
          if key.all Char.isAlphanum then
            (replaceRange (front ++ (skipped ++ (k.text ++ more))) (byteLength (front ++ skipped))
              (byteLength (front ++ skipped) + 20) redactedKey).bind fun s' =>
              redactKeysFrom k s' (byteLength (front ++ skipped ++ redactedKey))
          else redactKeysFrom k (front ++ (skipped ++ (k.text ++ more)))
            (byteLength (front ++ skipped ++ k.text))
      else redactKeysFrom k (front ++ (skipped ++ (k.text ++ more)))
        (byteLength (front ++ skipped ++ k.text)) := by
  have hfind := find_eq_some.mpr ⟨skipped, more, rfl, rfl, h⟩
  rw [redactKeysFrom_found (sliceFrom_append front _) hfind]
  simp only [byteLength_append]

/-- Sixteen bytes behind the start of a key that are cut at characters. -/
theorem redactKeysFrom_window (front : List Char) (h : IsFirst k.text skipped (key ++ rest)) (hlength : byteLength key = 16) :
    redactKeysFrom k (front ++ (skipped ++ (k.text ++ (key ++ rest)))) (byteLength front) =
      if key.all Char.isAlphanum then
        redactKeysFrom k (front ++ skipped ++ redactedKey ++ rest)
          (byteLength (front ++ skipped ++ redactedKey))
      else redactKeysFrom k (front ++ skipped ++ k.text ++ (key ++ rest))
        (byteLength (front ++ skipped ++ k.text)) := by
  have hstop : byteLength (front ++ skipped) + 20 =
      byteLength (front ++ skipped) + byteLength (k.text ++ key) := by
    simp [k.byteLength_text, hlength]
  have hsplit : front ++ (skipped ++ (k.text ++ (key ++ rest))) =
      front ++ skipped ++ (k.text ++ key ++ rest) := by simp
  have hinside : byteLength (front ++ skipped) + byteLength (k.text ++ key) ≤
      byteLength (front ++ skipped ++ (k.text ++ key ++ rest)) := by
    simp only [byteLength_append]
    omega
  have hstart : k.text.all Char.isAlphanum = true := by
    cases k <;> decide
  rw [redactKeysFrom_stop front h, hstop, hsplit, if_pos hinside, slice_append, Option.bind_some,
    List.all_append, hstart, Bool.true_and, replaceRange_append, Option.bind_some]
  simp only [List.append_assoc]

/-- The loop goes on behind a start with too little behind it. -/
theorem redactKeysFrom_short (front : List Char) (h : IsFirst k.text skipped more) (hshort : byteLength more < 16) :
    redactKeysFrom k (front ++ (skipped ++ (k.text ++ more))) (byteLength front) =
      redactKeysFrom k (front ++ skipped ++ k.text ++ more)
        (byteLength (front ++ skipped ++ k.text)) := by
  have houtside : ¬ byteLength (front ++ skipped) + 20 ≤
      byteLength (front ++ (skipped ++ (k.text ++ more))) := by
    simp only [byteLength_append, k.byteLength_text]
    omega
  rw [redactKeysFrom_stop front h, if_neg houtside]
  simp only [List.append_assoc]

/-- A slice that would cut a character. -/
theorem redactKeysFrom_cut (front : List Char) (h : IsFirst k.text skipped more) (hlong : 16 ≤ byteLength more)
    (hcut : isBoundary more 16 = false) :
    redactKeysFrom k (front ++ (skipped ++ (k.text ++ more))) (byteLength front) = none := by
  have hinside : byteLength (front ++ skipped) + 20 ≤
      byteLength (front ++ (skipped ++ (k.text ++ more))) := by
    simp only [byteLength_append, k.byteLength_text]
    omega
  have hslice : splitAt (front ++ (skipped ++ (k.text ++ more))) (byteLength (front ++ skipped) + 20) =
      none := by
    have hboundary := isBoundary_append (front ++ skipped ++ k.text) more 16
    rw [hcut, isBoundary, byteLength_append, k.byteLength_text] at hboundary
    simpa [Nat.add_assoc] using hboundary
  rw [redactKeysFrom_stop front h, if_pos hinside, slice, hslice]
  rfl

end

theorem isKey_of_short (h : byteLength more < 16) : isKey more = false := by
  have hlength := length_le_byteLength more
  simp only [isKey, Bool.and_eq_false_iff, decide_eq_false_iff_not]
  omega

/-- Whether a key stands behind its start is told by the first sixteen bytes. -/
theorem isKey_append {key rest : List Char} (hlength : byteLength key = 16) :
    isKey (key ++ rest) = key.all Char.isAlphanum := by
  rw [Bool.eq_iff_iff]
  constructor
  · intro h
    simp only [isKey, Bool.and_eq_true, decide_eq_true_eq] at h
    have hsize : byteLength ((key ++ rest).take 16) = 16 := by
      rw [byteLength_of_ascii fun c hc => utf8Size_of_isAlphanum (List.all_eq_true.mp h.2 c hc),
        List.length_take]
      omega
    have hkey := append_inj_of_byteLength (List.take_append_drop 16 (key ++ rest))
      (hsize.trans hlength.symm)
    rw [← hkey.1]
    exact h.2
  · intro h
    have hchars : key.length = 16 := by
      rw [← hlength, byteLength_of_ascii fun c hc => utf8Size_of_isAlphanum (List.all_eq_true.mp h c hc)]
    simp [isKey, hchars, h]

theorem afterKey_append {key : List Char} (hlength : byteLength key = 16) (rest : List Char) :
    afterKey (key ++ rest) = if key.all Char.isAlphanum then rest else key ++ rest := by
  rw [afterKey, isKey_append hlength]
  split
  · rename_i h
    have hchars : key.length = 16 := by
      rw [← hlength, byteLength_of_ascii fun c hc => utf8Size_of_isAlphanum (List.all_eq_true.mp h c hc)]
    rw [← hchars, List.drop_left]
  · rfl

/-- What has to hold at the next stop, and behind it. -/
theorem clear_stop (h : IsFirst k.text skipped more) :
    Clear k (skipped ++ (k.text ++ more)) ↔
      (16 ≤ byteLength more → isBoundary more 16 = true) ∧ Clear k (afterKey more) := by
  constructor
  · intro hclear
    exact ⟨hclear more (.first h), fun behind hbehind => hclear behind (.later h hbehind)⟩
  · rintro ⟨hhere, hlater⟩ behind hbehind
    generalize htext : skipped ++ (k.text ++ more) = text at hbehind
    cases hbehind with
    | first h' =>
      obtain ⟨-, rfl⟩ := h.unique h' htext
      exact hhere
    | later h' hbehind =>
      obtain ⟨-, rfl⟩ := h.unique h' htext
      exact hlater behind hbehind

theorem clear_of_not_found {text : List Char} (h : ¬ k.text <:+: text) : Clear k text := by
  intro behind hbehind
  have hfound : ∀ {front more : List Char}, k.text <:+: front ++ (k.text ++ more) := by
    intro front more
    exact ⟨front, more, by simp⟩
  cases hbehind with
  | first _ => exact absurd hfound h
  | later _ _ => exact absurd hfound h

/-- The loop returns just where each stop is clear, and then the keys are replaced. -/
theorem redactKeysFrom_spec (k : KeyStart) (front back : List Char) :
    (Clear k back → ∃ out, WithoutKeys k back out ∧
      redactKeysFrom k (front ++ back) (byteLength front) = some (front ++ out)) ∧
      (¬ Clear k back → redactKeysFrom k (front ++ back) (byteLength front) = none) := by
  induction hn : back.length using Nat.strongRecOn generalizing front back with
  | ind n ih =>
    by_cases hfound : k.text <:+: back
    · obtain ⟨pos, hpos⟩ := Option.isSome_iff_exists.mp (find_isSome.mpr hfound)
      obtain ⟨skipped, more, rfl, -, hfirst⟩ := find_eq_some.mp hpos
      have hsmaller : ∀ {rest : List Char}, rest.length ≤ more.length → rest.length < n := by
        intro rest hle
        have hstart : 0 < k.text.length := by cases k <;> decide
        simp only [List.length_append] at hn
        omega
      have hother : isKey more = false →
          redactKeysFrom k (front ++ (skipped ++ (k.text ++ more))) (byteLength front) =
            redactKeysFrom k (front ++ skipped ++ k.text ++ more)
              (byteLength (front ++ skipped ++ k.text)) →
          (Clear k more → ∃ out, WithoutKeys k (skipped ++ (k.text ++ more)) out ∧
            redactKeysFrom k (front ++ (skipped ++ (k.text ++ more))) (byteLength front) =
              some (front ++ out)) ∧
            (¬ Clear k more →
              redactKeysFrom k (front ++ (skipped ++ (k.text ++ more))) (byteLength front) = none) := by
        intro hkey hstep
        obtain ⟨hreturns, hcut⟩ := ih more.length (hsmaller le_rfl) (front ++ skipped ++ k.text) more rfl
        rw [hstep]
        refine ⟨fun hclear => ?_, hcut⟩
        obtain ⟨out, hout, hloop⟩ := hreturns hclear
        exact ⟨_, .other hfirst hkey hout, by simpa using hloop⟩
      rw [clear_stop hfirst]
      by_cases hlong : 16 ≤ byteLength more
      · cases hboundary : isBoundary more 16 with
        | false =>
          have hcut := redactKeysFrom_cut front hfirst hlong hboundary
          exact ⟨fun h => absurd (h.1 hlong) (by simp), fun _ => hcut⟩
        | true =>
          rw [and_iff_right fun _ => rfl]
          obtain ⟨key, rest, rfl, hlength⟩ := isBoundary_iff.mp hboundary
          have hstep := redactKeysFrom_window front hfirst hlength.symm
          rw [afterKey_append hlength.symm]
          cases hkey : key.all Char.isAlphanum with
          | false =>
            rw [hkey] at hstep
            exact hother ((isKey_append hlength.symm).trans hkey) hstep
          | true =>
            obtain ⟨hreturns, hcut⟩ := ih rest.length (hsmaller (by simp))
              (front ++ skipped ++ redactedKey) rest rfl
            rw [hstep, hkey]
            refine ⟨fun hclear => ?_, hcut⟩
            obtain ⟨out, hout, hloop⟩ := hreturns hclear
            refine ⟨_, .key hfirst ((isKey_append hlength.symm).trans hkey) ?_, by simpa using hloop⟩
            have hafter := afterKey_append hlength.symm rest
            rw [afterKey, isKey_append hlength.symm, hkey] at hafter
            simp only [if_true] at hafter
            rwa [hafter]
      · rw [and_iff_right fun h => absurd h hlong]
        have hshort := Nat.lt_of_not_le hlong
        rw [afterKey, isKey_of_short hshort]
        exact hother (isKey_of_short hshort) (redactKeysFrom_short front hfirst hshort)
    · exact ⟨fun _ => ⟨back, .none hfound, redactKeysFrom_of_not_found hfound⟩,
        fun h => absurd (clear_of_not_found hfound) h⟩

theorem WithoutKeys.unique {text out out' : List Char} (h : WithoutKeys k text out)
    (h' : WithoutKeys k text out') : out = out' := by
  have hfound : ∀ {front more : List Char}, k.text <:+: front ++ (k.text ++ more) := by
    intro front more
    exact ⟨front, more, by simp⟩
  induction h generalizing out' with
  | none hnone =>
    cases h' with
    | none _ => rfl
    | key _ _ _ | other _ _ _ => exact absurd hfound hnone
  | @key front more out hfirst hkey _ ih =>
    generalize htext : front ++ (k.text ++ more) = text at h'
    cases h' with
    | none hnone => exact absurd (htext ▸ hfound) hnone
    | key hfirst' hkey' hrest =>
      obtain ⟨rfl, rfl⟩ := hfirst.unique hfirst' htext
      rw [ih hrest]
    | other hfirst' hkey' _ =>
      obtain ⟨rfl, rfl⟩ := hfirst.unique hfirst' htext
      exact absurd (hkey.symm.trans hkey') (by decide)
  | @other front more out hfirst hkey _ ih =>
    generalize htext : front ++ (k.text ++ more) = text at h'
    cases h' with
    | none hnone => exact absurd (htext ▸ hfound) hnone
    | key hfirst' hkey' _ =>
      obtain ⟨rfl, rfl⟩ := hfirst.unique hfirst' htext
      exact absurd (hkey.symm.trans hkey') (by decide)
    | other hfirst' _ hrest =>
      obtain ⟨rfl, rfl⟩ := hfirst.unique hfirst' htext
      rw [ih hrest]

end

/-- No character is cut where a key would be looked for: first in the line, then in the line with
the keys of accounts replaced. -/
structure ClearOfKeys (line : List Char) : Prop where
  akia : Clear .akia line
  asia : ∀ line', WithoutKeys .akia line line' → Clear .asia line'

theorem redactKeys_isSome {line : List Char} :
    (redactKeys line).isSome = true ↔ ClearOfKeys line := by
  obtain ⟨hreturns, hcut⟩ := redactKeysFrom_spec .akia [] line
  simp only [List.nil_append, byteLength_nil] at hreturns hcut
  rw [redactKeys]
  by_cases hclear : Clear .akia line
  · obtain ⟨line', hline', hloop⟩ := hreturns hclear
    obtain ⟨hreturns', hcut'⟩ := redactKeysFrom_spec .asia [] line'
    simp only [List.nil_append, byteLength_nil] at hreturns' hcut'
    rw [hloop, Option.bind_some]
    by_cases hclear' : Clear .asia line'
    · obtain ⟨out, -, hloop'⟩ := hreturns' hclear'
      rw [hloop']
      exact ⟨fun _ => ⟨hclear, fun l hl => hline'.unique hl ▸ hclear'⟩, fun _ => rfl⟩
    · rw [hcut' hclear']
      exact ⟨fun h => absurd h (by decide), fun h => absurd (h.asia line' hline') hclear'⟩
  · rw [hcut hclear]
    exact ⟨fun h => absurd h (by decide), fun h => absurd h.akia hclear⟩

/-- A token starts and ends at a character, or it is empty. -/
def TokenAtCharacters (line : List Char) (start : Nat) : Prop :=
  let length := tokenLength ((bytes line).drop start)
  0 < length → isBoundary line start = true ∧ isBoundary line (start + length) = true

theorem redactBearer_isSome {line : List Char} {idx : Nat} :
    (redactBearer line idx).isSome = true ↔ TokenAtCharacters line (idx + bearer.length) := by
  simp only [redactBearer, TokenAtCharacters]
  generalize hstart : idx + bearer.length = start
  have hle : tokenLength ((bytes line).drop start) ≤ byteLength line - start := by
    rw [← length_bytes, ← List.length_drop]
    exact (List.takeWhile_sublist _).length_le
  generalize tokenLength ((bytes line).drop start) = length at hle
  by_cases hlength : 0 < length
  · rw [if_pos ⟨by omega, by omega⟩, isSome_replaceRange (by omega)]
    exact ⟨fun h _ => h, fun h => h hlength⟩
  · rw [if_neg (by omega)]
    exact iff_of_true rfl fun h => absurd h hlength

/-- What has to hold of a line: nothing if it is replaced whole. -/
def CutsAtCharacters (U : LowerTable) (line : List Char) : Prop :=
  let lower := U.toLowercase line
  ¬ (authorization <:+: lower ∧ ':' ∈ line) →
    match find bearer lower with
    | some idx => TokenAtCharacters line (idx + bearer.length)
    | none => (∀ k ∈ sensitiveKeys, ¬ k <:+: lower) → ClearOfKeys line

theorem redactLine_isSome {U : LowerTable} {line : List Char} :
    (redactLine U line).isSome = true ↔ CutsAtCharacters U line := by
  simp only [redactLine, CutsAtCharacters, find_isSome]
  split_ifs with hauthorization
  · exact iff_of_true rfl fun h => absurd hauthorization h
  · rw [forall_prop_of_true hauthorization]
    cases find bearer (U.toLowercase line) with
    | some idx => exact redactBearer_isSome
    | none =>
      dsimp only
      cases hkey : sensitiveKeys.find? fun k => (find k (U.toLowercase line)).isSome with
      | some k =>
        have hfound := List.find?_some hkey
        have hsensitive : k <:+: U.toLowercase line := find_isSome.mp hfound
        exact iff_of_true rfl fun h => absurd hsensitive (h k (List.mem_of_find?_eq_some hkey))
      | none =>
        have hnone : ∀ k ∈ sensitiveKeys, ¬ k <:+: U.toLowercase line :=
          fun k hk h => List.find?_eq_none.mp hkey k hk (find_isSome.mpr h)
        rw [forall_prop_of_true hnone]
        exact redactKeys_isSome

theorem isSome_mapM {α β : Type} {f : α → Option β} {xs : List α} :
    (xs.mapM f).isSome = true ↔ ∀ x ∈ xs, (f x).isSome = true := by
  induction xs with
  | nil => simp
  | cons x xs ih =>
    rw [List.mapM_cons, List.forall_mem_cons, ← ih]
    cases f x <;> cases xs.mapM f <;> simp

/-- A text is redacted just where no line is cut inside a character. -/
theorem redact_common_secrets_returns_iff (U : LowerTable) (input : String) :
    (redactCommonSecrets U input).isSome = true ↔
      ∀ line ∈ lines input.toList, CutsAtCharacters U line := by
  rw [redactCommonSecrets, Option.isSome_map, isSome_mapM]
  simp only [redactLine_isSome]

/-- The last byte of a letter is read as whitespace, and sixteen bytes behind a start of a key stands
the middle of a letter. -/
theorem redact_common_secrets_cut :
    redactCommonSecrets asciiTable "Bearer à" = none ∧
      redactCommonSecrets asciiTable "AKIA012345678901234é" = none := by
  decide +kernel

end ReactRuntime.Core
