import ReactRuntime.Core.Redaction

/-!
# Lines and their lower case

The line around a place of a text, and the lower case of a line in which only characters of ASCII are
looked for.
-/
namespace ReactRuntime.Core
open Library Utf8

/-- The text in front of a token up to its line, and its line. -/
def earlierLines (a : List Char) : List Char := a.rdropWhile (· ≠ '\n')

def lastLine (a : List Char) : List Char := a.rtakeWhile (· ≠ '\n')

/-- The line behind a token. -/
def restOfLine (b : List Char) : List Char :=
  let line := b.takeWhile (· ≠ '\n')
  if b.dropWhile (· ≠ '\n') ≠ [] ∧ line.getLast? = some '\r' then line.dropLast else line

def laterLines (b : List Char) : List Char := (b.dropWhile (· ≠ '\n')).tail

section
variable {line rest front : List Char}

theorem splitInclusive_append (h : front ≠ [] → front.getLast? = some '\n') (rest : List Char) :
    splitInclusive (front ++ rest) = splitInclusive front ++ splitInclusive rest := by
  induction front with
  | nil => rfl
  | cons c front ih =>
    have hrest : front ≠ [] → front.getLast? = some '\n' := by
      intro hne
      rw [← h (List.cons_ne_nil c front), List.getLast?_cons_of_ne_nil hne]
    rw [List.cons_append, splitInclusive, splitInclusive, ih hrest]
    by_cases hc : c = '\n'
    · rw [if_pos hc, if_pos hc, List.cons_append]
    · rw [if_neg hc, if_neg hc]
      cases front with
      | nil => simp [hc] at h
      | cons d front =>
        have hsome : splitInclusive (d :: front) ≠ [] := by
          rw [splitInclusive]
          split_ifs
          · simp
          · split <;> simp
        cases hsplit : splitInclusive (d :: front) with
        | nil => exact absurd hsplit hsome
        | cons line more => rfl

theorem splitInclusive_line (hline : '\n' ∉ line) (hne : line ≠ []) :
    splitInclusive line = [line] := by
  induction line with
  | nil => exact absurd rfl hne
  | cons c line ih =>
    obtain ⟨hc, hrest⟩ := not_or.mp (mt List.mem_cons.mpr hline)
    rw [splitInclusive, if_neg (Ne.symm hc)]
    cases line with
    | nil => rfl
    | cons d line => rw [ih hrest (List.cons_ne_nil d line)]

theorem splitInclusive_newline (hline : '\n' ∉ line) :
    splitInclusive (line ++ ['\n']) = [line ++ ['\n']] := by
  induction line with
  | nil => rfl
  | cons c line ih =>
    obtain ⟨hc, hrest⟩ := not_or.mp (mt List.mem_cons.mpr hline)
    rw [List.cons_append, splitInclusive, if_neg (Ne.symm hc), ih hrest]

theorem lines_append (h : front ≠ [] → front.getLast? = some '\n') (rest : List Char) :
    lines (front ++ rest) = lines front ++ lines rest := by
  rw [lines, splitInclusive_append h, List.map_append]
  rfl

theorem getLast?_earlierLines (a : List Char) (hne : earlierLines a ≠ []) :
    (earlierLines a).getLast? = some '\n' := by
  have hlast := List.rdropWhile_last_not _ a hne
  rw [List.getLast?_eq_some_getLast hne]
  simpa [earlierLines] using hlast

theorem not_mem_lastLine (a : List Char) : '\n' ∉ lastLine a := by
  intro hmem
  simpa using List.mem_rtakeWhile_imp hmem

theorem not_mem_takeWhile_newline (b : List Char) : '\n' ∉ b.takeWhile (· ≠ '\n') := by
  intro hmem
  simpa using List.mem_takeWhile_imp hmem

/-- The line around a text without a newline in it. -/
theorem lines_around {x : List Char} (hx : '\n' ∉ x) (hlast : ∃ c ∈ x.getLast?, c ≠ '\r')
    (a b : List Char) :
    lines (a ++ (x ++ b)) =
      lines (earlierLines a) ++ (lastLine a ++ (x ++ restOfLine b)) :: lines (laterLines b) := by
  have ha : earlierLines a ++ lastLine a = a := List.rdropWhile_append_rtakeWhile
  have hb := List.takeWhile_append_dropWhile (p := (· ≠ '\n')) (l := b)
  have hfirst := not_mem_takeWhile_newline b
  obtain ⟨last, hlast, hreturn⟩ := hlast
  have hne : x ≠ [] := by
    rintro rfl
    exact absurd hlast (by simp)
  have hline : '\n' ∉ lastLine a ++ (x ++ b.takeWhile (· ≠ '\n')) := by
    simp only [List.mem_append, not_or]
    exact ⟨not_mem_lastLine a, hx, hfirst⟩
  have hsplit : lines (a ++ (x ++ b)) = lines (earlierLines a) ++
      lines (lastLine a ++ (x ++ b.takeWhile (· ≠ '\n')) ++ b.dropWhile (· ≠ '\n')) := by
    rw [← lines_append (getLast?_earlierLines a)]
    congr 1
    rw [List.append_assoc, List.append_assoc, hb, ← List.append_assoc (earlierLines a), ha]
  rw [hsplit]
  congr 1
  simp only [restOfLine, laterLines]
  generalize b.takeWhile (· ≠ '\n') = first at hline hfirst
  cases hrest : b.dropWhile (· ≠ '\n') with
  | nil =>
    have hplain : (lastLine a ++ (x ++ first)).getLast? ≠ some '\n' :=
      fun h => hline (List.mem_of_getLast? h)
    rw [List.append_nil, lines, splitInclusive_line hline (by simp [hne]), List.map_singleton,
      stripNewline, if_neg hplain]
    simp [lines, splitInclusive]
  | cons c rest =>
    obtain rfl : c = '\n' := by
      have hhead := List.head?_dropWhile_not (· ≠ '\n') b
      rw [hrest] at hhead
      simpa using hhead
    have hend : (lastLine a ++ (x ++ first) ++ ['\n']).getLast? = some '\n' := by simp
    rw [List.append_cons, lines_append fun _ => hend, lines, splitInclusive_newline hline]
    simp only [List.map_singleton, List.singleton_append, List.tail_cons, List.cons.injEq, and_true]
    rw [stripNewline, if_pos hend, List.dropLast_concat]
    simp only [ne_eq, reduceCtorEq, not_false_eq_true, true_and]
    by_cases hfirstLast : first.getLast? = some '\r'
    · obtain ⟨front, rfl⟩ := List.getLast?_eq_some_iff.mp hfirstLast
      rw [if_pos hfirstLast, if_pos (by simp), ← List.append_assoc, ← List.append_assoc,
        List.dropLast_concat, List.dropLast_concat, List.append_assoc]
    · have hother : (lastLine a ++ (x ++ first)).getLast? ≠ some '\r' := by
        cases first with
        | nil =>
          rw [List.append_nil, List.getLast?_append_of_ne_nil _ hne, Option.mem_def.mp hlast]
          simpa using hreturn
        | cons d first =>
          rw [← List.append_assoc, List.getLast?_append_of_ne_nil _ (List.cons_ne_nil d first)]
          exact hfirstLast
      rw [if_neg hfirstLast, if_neg hother]

end

/-- What Unicode says of the characters of ASCII and of whitespace. -/
structure LowerTable.Lawful (U : LowerTable) : Prop where
  ascii : ∀ {c : Char}, c.toNat < 128 → U.char c = [c.toLower]
  whitespace : ∀ {c : Char}, isWhitespace c = true → U.char c = [c]

def foldSigma (c : Char) : Char := if c = 'ς' then 'σ' else c

/-- The lower case of a text with each sigma written in the same way. -/
def LowerTable.folded (U : LowerTable) (s : List Char) : List Char :=
  s.flatMap fun c => if c = 'Σ' then ['σ'] else (U.char c).map foldSigma

section
variable {U : LowerTable} {s s' pattern : List Char}

theorem folded_cons (c : Char) (s : List Char) :
    U.folded (c :: s) = (if c = 'Σ' then ['σ'] else (U.char c).map foldSigma) ++ U.folded s := rfl

theorem map_foldSigma_lower (before : List Char) : (U.lower before s).map foldSigma = U.folded s := by
  induction s generalizing before with
  | nil => rfl
  | cons c s ih =>
    rw [LowerTable.lower, List.map_append, ih, folded_cons]
    congr 1
    split_ifs <;> simp_all [foldSigma]

/-- Sigmas do not matter to a pattern without them. -/
theorem find_toLowercase (hpattern : ∀ p ∈ pattern, p.toNat < 128) :
    find pattern (U.toLowercase s) = find pattern (U.folded s) := by
  rw [← map_foldSigma_lower [], ← LowerTable.toLowercase, find_map]
  · intro c
    by_cases hc : c = 'ς'
    · subst hc
      decide
    · simp [foldSigma, hc]
  · intro p hp c
    have hsigma : ∀ d : Char, 128 ≤ d.toNat → p ≠ d := by
      rintro d hd rfl
      exact absurd (hpattern p hp) (by omega)
    have hfinal := hsigma 'ς' (by decide)
    have hother := hsigma 'σ' (by decide)
    by_cases hc : c = 'ς'
    · subst hc
      simp [foldSigma, hfinal.symm, hother.symm]
    · simp [foldSigma, hc]

theorem infix_toLowercase (hpattern : ∀ p ∈ pattern, p.toNat < 128) :
    pattern <:+: U.toLowercase s ↔ pattern <:+: U.folded s := by
  rw [← find_isSome, ← find_isSome, find_toLowercase hpattern]

theorem folded_append : U.folded (s ++ s') = U.folded s ++ U.folded s' := List.flatMap_append

theorem folded_ascii (hU : U.Lawful) (h : ∀ c ∈ s, c.toNat < 128) :
    U.folded s = s.map Char.toLower := by
  induction s with
  | nil => rfl
  | cons c s ih =>
    obtain ⟨hc, hs⟩ := List.forall_mem_cons.mp h
    have hsigma : c ≠ 'Σ' := by
      rintro rfl
      exact absurd hc (by decide)
    have hlower : c.toLower ≠ 'ς' := by
      have hascii : ∀ n < 128, (Char.ofNat n).toLower ≠ 'ς' := by decide
      have hne := hascii _ hc
      rwa [Char.ofNat_toNat] at hne
    rw [folded_cons, if_neg hsigma, hU.ascii hc, ih hs]
    simp [foldSigma, hlower]

theorem folded_whitespace (hU : U.Lawful) {c : Char} (hc : isWhitespace c = true) :
    U.folded (c :: s) = c :: U.folded s := by
  have hcapital : c ≠ 'Σ' := by
    rintro rfl
    exact absurd hc (by decide)
  have hfinal : c ≠ 'ς' := by
    rintro rfl
    exact absurd hc (by decide)
  simp [folded_cons, hcapital, hU.whitespace hc, foldSigma, hfinal]

end

end ReactRuntime.Core
