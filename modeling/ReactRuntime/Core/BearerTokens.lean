import ReactRuntime.Core.TokenMatch

/-!
# Bearer tokens

What the redaction of a text tells about a bearer token in it. Only the first match of a line is
redacted, at an offset that was found in the line in lower case.
-/
namespace ReactRuntime.Core
open Library Utf8

/-- The line has an authorization header by what stands around its token. -/
def HasAuthorization (U : LowerTable) (l r : List Char) : Prop :=
  (authorization <:+: U.toLowercase l ∨ authorization <:+: U.toLowercase r) ∧ ':' ∈ l ++ r

/-- The token is behind the colon at which a header is cut, or its own match is the first one of the
line and found where it is, and the first blank byte behind it starts a character. -/
structure HidesInLine (U : LowerTable) (l r : List Char) : Prop where
  header : HasAuthorization U l r → ':' ∈ l
  first : ¬ HasAuthorization U l r →
    find bearer (U.toLowercase (l ++ bearerText)) = some (byteLength l)
  boundary : ¬ HasAuthorization U l r → isBoundary r (tokenLength (bytes r)) = true

theorem takeWhile_append_of_stop {p : Char → Bool} {xs : List Char} (h : ∃ c ∈ xs, p c = false)
    (ys : List Char) : (xs ++ ys).takeWhile p = xs.takeWhile p := by
  induction xs with
  | nil => simp at h
  | cons c xs ih =>
    by_cases hc : p c = true
    · have hrest : ∃ c ∈ xs, p c = false := by simpa [hc] using h
      rw [List.cons_append, List.takeWhile_cons_of_pos hc, List.takeWhile_cons_of_pos hc, ih hrest]
    · rw [List.cons_append, List.takeWhile_cons_of_neg hc, List.takeWhile_cons_of_neg hc]

section
variable {U : LowerTable} {l t r : List Char}

theorem colon_mem_tokenLine (ht : IsToken t) : ':' ∈ tokenLine l t r ↔ ':' ∈ l ++ r := by
  have htoken : ':' ∉ t := fun h => ne_of_token (ht.2 _ h) (by decide) (by decide) rfl
  have hbearer : ':' ∉ bearerText := by decide
  simp [tokenLine, htoken, hbearer]

theorem redactLine_header (hU : U.Lawful) (ht : IsToken t) (hr : ∀ c ∈ r.head?, isWhitespace c = true)
    (h : HasAuthorization U l r) :
    redactLine U (tokenLine l t r) =
      some ((trim (.ofList ((tokenLine l t r).takeWhile (· ≠ ':')))).toList ++
        ": <redacted>".toList) := by
  simp only [redactLine, find_isSome, authorization_tokenLine hU ht hr, colon_mem_tokenLine ht]
  exact if_pos h

theorem redactLine_bearer (hU : U.Lawful) (hr : ∀ c ∈ r.head?, isWhitespace c = true)
    (h : ¬ HasAuthorization U l r) : ∃ idx,
    find bearer (U.toLowercase (l ++ bearerText)) = some idx ∧
      ∀ t, IsToken t → redactLine U (tokenLine l t r) = redactBearer (tokenLine l t r) idx := by
  obtain ⟨idx, hidx, hline⟩ := find_bearer_tokenLine hU (l := l)
  refine ⟨idx, hidx, fun t ht => ?_⟩
  simp only [redactLine, find_isSome, authorization_tokenLine hU ht hr, colon_mem_tokenLine ht]
  refine (if_neg h).trans ?_
  rw [hline]

/-- What is put out for a header, when no colon stands in front of the token. -/
theorem header_tokenLine (ht : IsToken t) (hl : ':' ∉ l) :
    (trim (.ofList ((tokenLine l t r).takeWhile (· ≠ ':')))).toList =
      l.dropWhile isWhitespace ++ (bearerText ++ t) ++
        (r.takeWhile (· ≠ ':')).rdropWhile isWhitespace := by
  have hplain : ∀ c ∈ l ++ (bearerText ++ t), decide (c ≠ ':') = true := by
    intro c hc
    rw [decide_eq_true_iff]
    rintro rfl
    have htoken : ':' ∉ t := fun h => ne_of_token (ht.2 _ h) (by decide) (by decide) rfl
    have hbearer : ':' ∉ bearerText := by decide
    simp [hl, hbearer, htoken] at hc
  have hline : tokenLine l t r = l ++ (bearerText ++ t) ++ r := by simp [tokenLine]
  have hsplit : String.ofList ((tokenLine l t r).takeWhile (· ≠ ':')) =
      .ofList l ++ .ofList (bearerText ++ t) ++ .ofList (r.takeWhile (· ≠ ':')) := by
    rw [hline, List.takeWhile_append_of_pos hplain]
    simp [String.append_assoc]
  obtain ⟨front, last, rfl⟩ := (List.eq_nil_or_concat' t).resolve_left ht.1
  have hlast : isWhitespace last = false := isWhitespace_of_token (ht.2 last (by simp))
  rw [hsplit, toList_trim_append, String.toList_ofList, String.toList_ofList, String.toList_ofList]
  · exact ⟨'B', by rw [String.toList_ofList]; rfl, by decide⟩
  · exact ⟨last, by simp [← List.append_assoc], hlast⟩

theorem isToken_replicate {n : Nat} {c : Char} (hc : c.isAlphanum = true) :
    IsToken (List.replicate (n + 1) c) := by
  refine ⟨by simp, fun d hd => ?_⟩
  rw [List.eq_of_mem_replicate hd]
  exact .inl hc

theorem isToken_a {n : Nat} : IsToken (List.replicate (n + 1) 'a') := isToken_replicate (by decide)

theorem isToken_b {n : Nat} : IsToken (List.replicate (n + 1) 'b') := isToken_replicate (by decide)

/-- Without a colon in front of it, the token of a header is put out. -/
theorem colon_mem_of_header {out : List Char} (hU : U.Lawful)
    (hr : ∀ c ∈ r.head?, isWhitespace c = true) (h : HasAuthorization U l r)
    (hout : ∀ t, IsToken t → redactLine U (tokenLine l t r) = some out) : ':' ∈ l := by
  by_contra hcolon
  have hput : ∀ t, IsToken t → l.dropWhile isWhitespace ++ (bearerText ++ t) ++
      (r.takeWhile (· ≠ ':')).rdropWhile isWhitespace ++ ": <redacted>".toList = out := by
    intro t ht
    rw [← header_tokenLine ht hcolon]
    exact Option.some.inj ((redactLine_header hU ht hr h).symm.trans (hout t ht))
  have heq := (hput _ (isToken_a (n := 0))).trans (hput _ (isToken_b (n := 0))).symm
  simp at heq

/-- A replacement that starts in front of the token leaves it whole. -/
theorem byteLength_le_of_hidden {out : List Char} {idx : Nat}
    (hput : ∀ t, IsToken t → redactBearer (tokenLine l t r) idx = some out) :
    byteLength l ≤ idx := by
  by_contra hearly
  obtain ⟨front, hfront⟩ := redactBearer_early (Nat.lt_of_not_le hearly) r
  have heq := (hput _ (isToken_a (n := 0))).trans (hput _ (isToken_b (n := 0))).symm
  rw [hfront, hfront] at heq
  cases front with
  | none =>
    have hsome := hput _ (isToken_a (n := 0))
    rw [hfront] at hsome
    exact absurd hsome (by simp)
  | some front => simp at heq

/-- One that starts behind the start of the token leaves that start. -/
theorem le_byteLength_of_hidden {out : List Char} {idx : Nat}
    (hput : ∀ t, IsToken t → redactBearer (tokenLine l t r) idx = some out) :
    idx ≤ byteLength l := by
  by_contra hlate
  obtain ⟨n, rfl⟩ : ∃ n, idx = byteLength l + (n + 1) := ⟨idx - byteLength l - 1, by omega⟩
  have hstart : ∀ c : Char, c.isAlphanum = true →
      l ++ (bearerText ++ List.replicate (n + 1) c) <+: out := by
    intro c hc
    have hlength : byteLength (List.replicate (n + 1) c) = n + 1 := by
      rw [byteLength_of_ascii, List.length_replicate]
      intro d hd
      rw [List.eq_of_mem_replicate hd]
      exact utf8Size_of_isAlphanum hc
    refine redactBearer_late (v := []) (r := r) (by rw [hlength]) ?_
    rw [List.append_nil]
    exact hput _ (isToken_replicate hc)
  have hsamelength : (l ++ (bearerText ++ List.replicate (n + 1) 'a')).length =
      (l ++ (bearerText ++ List.replicate (n + 1) 'b')).length := by simp
  have heq := List.prefix_of_prefix_length_le (hstart 'a' (by decide)) (hstart 'b' (by decide))
    hsamelength.le
  have hwhole := heq.eq_of_length hsamelength
  simp [List.replicate_succ] at hwhole

/-- A line tells nothing of its token just where it hides it. -/
theorem hidesInLine_iff (hU : U.Lawful) (hr : ∀ c ∈ r.head?, isWhitespace c = true) :
    (∃ out, ∀ t, IsToken t → redactLine U (tokenLine l t r) = some out) ↔ HidesInLine U l r := by
  by_cases hauthorization : HasAuthorization U l r
  · constructor
    · rintro ⟨out, hout⟩
      exact ⟨fun _ => colon_mem_of_header hU hr hauthorization hout,
        fun h => absurd hauthorization h, fun h => absurd hauthorization h⟩
    · intro h
      have hkey : ∀ t, (tokenLine l t r).takeWhile (· ≠ ':') = l.takeWhile (· ≠ ':') := by
        intro t
        exact takeWhile_append_of_stop ⟨':', h.header hauthorization, by decide⟩ _
      refine ⟨(trim (.ofList (l.takeWhile (· ≠ ':')))).toList ++ ": <redacted>".toList, fun t ht => ?_⟩
      rw [redactLine_header hU ht hr hauthorization, hkey]
  · obtain ⟨idx, hidx, hline⟩ := redactLine_bearer hU hr hauthorization
    constructor
    · rintro ⟨out, hout⟩
      have hput : ∀ t, IsToken t → redactBearer (tokenLine l t r) idx = some out :=
        fun t ht => (hline t ht).symm.trans (hout t ht)
      obtain rfl : idx = byteLength l :=
        Nat.le_antisymm (le_byteLength_of_hidden hput) (byteLength_le_of_hidden hput)
      refine ⟨fun h => absurd h hauthorization, fun _ => hidx, fun _ => ?_⟩
      by_contra hcut
      have hnone := redactBearer_cut (l := l) (isToken_a (n := 0)) (Bool.eq_false_iff.mpr hcut)
      rw [hput _ isToken_a] at hnone
      exact absurd hnone (by simp)
    · intro h
      obtain ⟨r₁, r₂, rfl, hlength⟩ := isBoundary_iff.mp (h.boundary hauthorization)
      refine ⟨l ++ (bearerText ++ (redacted ++ r₂)), fun t ht => ?_⟩
      rw [hline t ht, Option.some.inj (hidx.symm.trans (h.first hauthorization)),
        redactBearer_at ht hlength]

end

/-- The other lines are redacted, and the line of the token hides it. -/
structure HidesToken (U : LowerTable) (a b : List Char) : Prop where
  others : ∀ line ∈ lines (earlierLines a) ++ lines (laterLines b), CutsAtCharacters U line
  line : HidesInLine U (lastLine a) (restOfLine b)

theorem exists_intercalate (xs zs : List (List Char)) :
    ∃ front back, ∀ y, ['\n'].intercalate (xs ++ y :: zs) = front ++ (y ++ back) := by
  induction xs with
  | nil =>
    cases zs with
    | nil => exact ⟨[], [], fun y => by simp⟩
    | cons z zs => exact ⟨[], '\n' :: ['\n'].intercalate (z :: zs), fun y => by simp⟩
  | cons x xs ih =>
    obtain ⟨front, back, h⟩ := ih
    refine ⟨x ++ '\n' :: front, back, fun y => ?_⟩
    rw [List.cons_append, List.intercalate_cons_of_ne_nil (by simp), h]
    simp

theorem mapM_around {f : List Char → Option (List Char)} {xs zs out : List (List Char)}
    {y : List Char} :
    (xs ++ y :: zs).mapM f = some out ↔ ∃ xs' y' zs', xs.mapM f = some xs' ∧ f y = some y' ∧
      zs.mapM f = some zs' ∧ out = xs' ++ y' :: zs' := by
  rw [List.mapM_append, List.mapM_cons]
  cases xs.mapM f with
  | none => simp
  | some xs' =>
    cases f y with
    | none => simp
    | some y' =>
      cases zs.mapM f with
      | none => simp
      | some zs' => simp [eq_comm]

section
variable {U : LowerTable} {a b t s : String}

/-- The line of the token among the lines of a text. -/
theorem redactCommonSecrets_around (ht : IsToken t.toList) :
    redactCommonSecrets U (a ++ "Bearer " ++ t ++ b) = some s ↔ ∃ xs y zs,
      (lines (earlierLines a.toList)).mapM (redactLine U) = some xs ∧
      redactLine U (tokenLine (lastLine a.toList) t.toList (restOfLine b.toList)) = some y ∧
      (lines (laterLines b.toList)).mapM (redactLine U) = some zs ∧
      s = .ofList (['\n'].intercalate (xs ++ y :: zs)) := by
  have hplain : ∀ {c : Char}, c.isAlphanum = false → c ∉ ['.', '_', '-'] → c ∉ t.toList :=
    fun hc hc' hmem => ne_of_token (ht.2 _ hmem) hc hc' rfl
  have hnewline : '\n' ∉ bearerText ++ t.toList := by
    rw [List.mem_append, not_or]
    exact ⟨by decide, hplain (by decide) (by decide)⟩
  have hlast : ∃ c ∈ (bearerText ++ t.toList).getLast?, c ≠ '\r' := by
    have hend := List.getLast?_eq_some_getLast ht.1
    refine ⟨t.toList.getLast ht.1, ?_, ?_⟩
    · rw [List.getLast?_append_of_ne_nil _ ht.1, hend]
      rfl
    · exact ne_of_token (ht.2 _ (List.getLast_mem ht.1)) (by decide) (by decide)
  have htext : (a ++ "Bearer " ++ t ++ b).toList =
      a.toList ++ (bearerText ++ t.toList ++ b.toList) := by
    rw [String.toList_append, String.toList_append, String.toList_append]
    change a.toList ++ bearerText ++ t.toList ++ b.toList = _
    rw [List.append_assoc, List.append_assoc, List.append_assoc]
  have hline : tokenLine (lastLine a.toList) t.toList (restOfLine b.toList) =
      lastLine a.toList ++ (bearerText ++ t.toList ++ restOfLine b.toList) := by simp [tokenLine]
  rw [redactCommonSecrets, htext, lines_around hnewline hlast, ← hline, Option.map_eq_some_iff]
  simp only [mapM_around]
  constructor
  · rintro ⟨_, ⟨xs, y, zs, hxs, hy, hzs, rfl⟩, rfl⟩
    exact ⟨xs, y, zs, hxs, hy, hzs, rfl⟩
  · rintro ⟨xs, y, zs, hxs, hy, hzs, rfl⟩
    exact ⟨_, ⟨xs, y, zs, hxs, hy, hzs, rfl⟩, rfl⟩

theorem restOfLine_isPrefix (b : List Char) : restOfLine b <+: b := by
  have hline := List.takeWhile_prefix (l := b) (· ≠ '\n')
  rw [restOfLine]
  split
  · exact (List.dropLast_prefix _).trans hline
  · exact hline

/-- The redaction of a text is the same for every bearer token in one place just where it hides the
token. -/
theorem bearer_tokens_hidden_iff (hU : U.Lawful) (hb : ∀ c ∈ b.toList.head?, isWhitespace c = true) :
    (∀ t t' : String, IsToken t.toList → IsToken t'.toList → ∃ out,
      redactCommonSecrets U (a ++ "Bearer " ++ t ++ b) = some out ∧
      redactCommonSecrets U (a ++ "Bearer " ++ t' ++ b) = some out) ↔
      HidesToken U a.toList b.toList := by
  have hr : ∀ c ∈ (restOfLine b.toList).head?, isWhitespace c = true := by
    intro c hc
    obtain ⟨more, hmore⟩ := restOfLine_isPrefix b.toList
    obtain ⟨rest, hrest⟩ := List.head?_eq_some_iff.mp hc
    refine hb c ?_
    rw [← hmore, hrest]
    rfl
  have hothers : (∀ line ∈ lines (earlierLines a.toList) ++ lines (laterLines b.toList),
      CutsAtCharacters U line) ↔
      (∃ xs, (lines (earlierLines a.toList)).mapM (redactLine U) = some xs) ∧
        ∃ zs, (lines (laterLines b.toList)).mapM (redactLine U) = some zs := by
    simp only [← Option.isSome_iff_exists, isSome_mapM, redactLine_isSome, List.forall_mem_append]
  constructor
  · intro h
    have htoken : IsToken "a".toList := ⟨by simp, by simp⟩
    obtain ⟨_, hput, -⟩ := h "a" "a" htoken htoken
    obtain ⟨xs, y, zs, hxs, hy, hzs, -⟩ := (redactCommonSecrets_around htoken).mp hput
    refine ⟨hothers.mpr ⟨⟨xs, hxs⟩, ⟨zs, hzs⟩⟩, (hidesInLine_iff hU hr).mp ⟨y, fun t ht => ?_⟩⟩
    have ht' : IsToken (String.ofList t).toList := by rwa [String.toList_ofList]
    obtain ⟨out, hfirst, hsecond⟩ := h "a" (.ofList t) htoken ht'
    obtain ⟨xs₁, y₁, zs₁, hxs₁, hy₁, hzs₁, rfl⟩ := (redactCommonSecrets_around htoken).mp hfirst
    obtain ⟨xs₂, y₂, zs₂, hxs₂, hy₂, hzs₂, heq⟩ := (redactCommonSecrets_around ht').mp hsecond
    obtain rfl := Option.some.inj (hxs₁.symm.trans hxs₂)
    obtain rfl := Option.some.inj (hzs₁.symm.trans hzs₂)
    obtain rfl := Option.some.inj (hy₁.symm.trans hy)
    -- the other lines are the same, and so this one is
    obtain ⟨front, back, hjoin⟩ := exists_intercalate xs₁ zs₁
    rw [← String.toList_inj, String.toList_ofList, String.toList_ofList, hjoin, hjoin] at heq
    obtain rfl := List.append_cancel_right (List.append_cancel_left heq)
    rwa [String.toList_ofList] at hy₂
  · rintro ⟨hcuts, hline⟩ t t' ht ht'
    obtain ⟨⟨xs, hxs⟩, ⟨zs, hzs⟩⟩ := hothers.mp hcuts
    obtain ⟨y, hy⟩ := (hidesInLine_iff hU hr).mpr hline
    exact ⟨_, (redactCommonSecrets_around ht).mpr ⟨xs, y, zs, hxs, hy _ ht, hzs, rfl⟩,
      (redactCommonSecrets_around ht').mpr ⟨xs, y, zs, hxs, hy _ ht', hzs, rfl⟩⟩

theorem asciiTable_lawful : asciiTable.Lawful where
  ascii _ := rfl
  whitespace {c} hc := by
    have hcapital : ¬ (c.val ≥ 'A'.val ∧ c.val ≤ 'Z'.val) := by
      simp only [isWhitespace, Bool.or_eq_true, Bool.and_eq_true, decide_eq_true_eq, beq_iff_eq] at hc
      simp only [ge_iff_le, UInt32.le_iff_toNat_le, Char.toNat_val]
      have hA : 'A'.toNat = 65 := rfl
      have hZ : 'Z'.toNat = 90 := rfl
      omega
    exact congrArg ([·]) (dif_neg hcapital)

theorem bearer_tokens_hidden_header :
    (∀ t t' : String, IsToken t.toList → IsToken t'.toList → ∃ out,
      redactCommonSecrets asciiTable ("Authorization: " ++ "Bearer " ++ t ++ "\nok") = some out ∧
      redactCommonSecrets asciiTable ("Authorization: " ++ "Bearer " ++ t' ++ "\nok") = some out) ↔
      HidesToken asciiTable "Authorization: ".toList "\nok".toList :=
  bearer_tokens_hidden_iff asciiTable_lawful fun c hc => by
    have hnewline : "\nok".toList.head? = some '\n' := by decide
    rw [hnewline] at hc
    cases hc
    decide

/-- A second token in a line is left, and so is one in front of a header. -/
theorem bearer_tokens_left :
    IsToken "s1".toList ∧ IsToken "s2".toList ∧
      redactCommonSecrets asciiTable ("bearer x " ++ "Bearer " ++ "s1" ++ "") ≠
        redactCommonSecrets asciiTable ("bearer x " ++ "Bearer " ++ "s2" ++ "") ∧
      redactCommonSecrets asciiTable ("" ++ "Bearer " ++ "s1" ++ " authorization: x") ≠
        redactCommonSecrets asciiTable ("" ++ "Bearer " ++ "s2" ++ " authorization: x") := by
  refine ⟨⟨by simp, by simp⟩, ⟨by simp, by simp⟩, ?_, ?_⟩ <;> decide +kernel

end

end ReactRuntime.Core
