import ReactRuntime.Core.LexedRepairs
import ReactRuntime.Serde.TextReader

/-!
# Damaged strings

A JSON text whose strings got raw control characters and stray backslashes, and what the attempts on
a field make of it.
-/
namespace ReactRuntime.Core
open Library JsonText Serde

/-- A string and what is left of it after any number of insertions, each with what it stands for: of
control characters between its units, and of backslashes in front of a character that is not part of
an escape and not one of `kept`. -/
inductive Damages (kept : List Char) : (original damaged before after : List Char) → Prop where
  | nil : Damages kept [] [] [] []
  | unit {text original damaged before after : List Char} {c : Char} (hunit : IsUnit text c)
      (h : Damages kept original damaged before after) :
      Damages kept (text ++ original) (text ++ damaged) (c :: before) (c :: after)
  | control {original damaged before after : List Char} {c : Char} (hc : c.toNat < 0x20)
      (h : Damages kept original damaged before after) :
      Damages kept original (c :: damaged) before (c :: after)
  | backslash {original damaged before after : List Char}
      (hnext : ∃ c ∈ damaged.head?, c ≠ '\\' ∧ c ∉ kept)
      (h : Damages kept original damaged before after) :
      Damages kept original ('\\' :: damaged) before ('\\' :: after)

structure DamagedString (kept : List Char) where
  original : List Char
  damaged : List Char
  before : List Char
  after : List Char
  damages : Damages kept original damaged before after

/-- The damaged text of a document is read as the value that the inserted characters belong to. -/
def ReadsDamaged (S : SerdeJson) (number : List Char → Option Number) {kept : List Char}
    (doc : List (Symbol (DamagedString kept))) : Prop :=
  ∃ v, Means DamagedString.after number maxDepth doc (.element v) ∧
    resilientParseStringField S (.ofList (textOf DamagedString.damaged doc)) = .ok v

section
variable {kept original damaged before after : List Char}

theorem Damages.decodes (h : Damages kept original damaged before after) : Decodes original before := by
  induction h with
  | nil => exact .nil
  | unit hunit _ ih => exact .cons hunit ih
  | control _ _ ih | backslash _ _ ih => exact ih

theorem stringBody_of_isUnit {text : List Char} {c : Char} (h : IsUnit text c) : StringBody text := by
  have hbody := h.stringBody .nil
  rwa [List.append_nil] at hbody

theorem loose_backslash {text : List Char} (h : Loose text) (hnext : ∃ c ∈ text.head?, c ≠ '\\') :
    Loose ('\\' :: text) := by
  obtain ⟨c, hc, hne⟩ := hnext
  cases h with
  | nil => simp at hc
  | plain _ _ h => exact .escaped _ h
  | escaped d _ => exact absurd (Option.some.inj hc).symm hne

theorem control_plain {c : Char} (h : c.toNat < 0x20) : c ≠ '"' ∧ c ≠ '\\' := by
  constructor <;> rintro rfl <;> exact absurd h (by decide)

theorem Damages.loose (h : Damages kept original damaged before after) : Loose damaged := by
  induction h with
  | nil => exact .nil
  | unit hunit _ ih => exact (stringBody_of_isUnit hunit).loose.append ih
  | control hc _ ih => exact .plain (control_plain hc).1 (control_plain hc).2 ih
  | backslash hnext _ ih =>
    obtain ⟨c, hc, hne, -⟩ := hnext
    exact loose_backslash ih ⟨c, hc, hne⟩

/-- The escape of a control character. -/
theorem isUnit_escapeControl {c : Char} (h : c.toNat < 0x20) : IsUnit (escapeControl c) c := by
  have hunit : ∀ d ∈ escapes, unescape d = c → IsUnit ['\\', d] c := by
    rintro d hd rfl
    exact .escape hd
  have hofNat : ∀ n, c.toNat = n → Char.ofNat n = c := by
    rintro n rfl
    exact Char.ofNat_toNat c
  have hdigit : ∀ n < 16, isHex (Nat.digitChar n) = true := by decide
  have hcode : ∀ n < 0x20, codeUnit '0' '0' (Nat.digitChar (n / 16)) (Nat.digitChar (n % 16)) = n := by
    decide
  unfold escapeControl
  split_ifs with hnewline hreturn htab hbackspace hfeed
  · exact hunit 'n' (by decide) hnewline.symm
  · exact hunit 'r' (by decide) hreturn.symm
  · exact hunit 't' (by decide) htab.symm
  · exact hunit 'b' (by decide) (hofNat _ hbackspace)
  · exact hunit 'f' (by decide) (hofNat _ hfeed)
  · have hdigits : IsCodeUnit ['0', '0', Nat.digitChar (c.toNat / 16), Nat.digitChar (c.toNat % 16)]
        (codeUnit '0' '0' (Nat.digitChar (c.toNat / 16)) (Nat.digitChar (c.toNat % 16))) :=
      .mk (by decide) (by decide) (hdigit _ (by omega)) (hdigit _ (by omega))
    rw [hcode _ h] at hdigits
    have hplain : isSurrogate c.toNat = false := by
      simp [isSurrogate]
      omega
    have hescape := IsUnit.unicode hdigits hplain
    rwa [Char.ofNat_toNat] at hescape

/-- Both repairs together give each inserted character the escape that stands for it. -/
theorem Damages.decodes_repaired (h : Damages ('u' :: escapes) original damaged before after) :
    Decodes (escapeBody (repairBody damaged)) after := by
  induction h with
  | nil => exact .nil
  | @unit text original damaged before after c hunit _ ih =>
    have hbody := stringBody_of_isUnit hunit
    have hkept : escapeBody (repairBody (text ++ damaged)) =
        text ++ escapeBody (repairBody damaged) := by
      rw [repairBody, Untouched.repair_stringBody hbody, escapeBody, Untouched.escape_stringBody hbody]
      rfl
    rw [hkept]
    exact .cons hunit ih
  | control hc _ ih =>
    obtain ⟨hquote, hbackslash⟩ := control_plain hc
    rw [repairBody_inside hquote hbackslash, escapeBody_inside hquote hbackslash]
    exact .cons (isUnit_escapeControl hc) ih
  | @backslash original damaged before after hnext _ ih =>
    obtain ⟨c, hc, -, hkept⟩ := hnext
    obtain ⟨rest, rfl⟩ := List.head?_eq_some_iff.mp hc
    obtain ⟨hquote, hbackslash⟩ := plain_of_not_mem_escapes hkept
    rw [repairBody_inside hquote hbackslash] at ih
    rw [repairBody_stray hkept, escapeBody_escaped]
    have hunit : IsUnit ['\\', '\\'] '\\' := .escape (by decide)
    exact .cons hunit ih

end

/-- The string that both repairs make of a damaged one. -/
def DamagedString.repaired (a : DamagedString ('u' :: escapes)) : Literal where
  body := escapeBody (repairBody a.damaged)
  content := a.after
  decodes := a.damages.decodes_repaired

/-- The text before the damage is read as the value that its strings belong to. -/
theorem read_original {S : SerdeJson} {number : List Char → Option Number}
    (hS : S.ReadsDocuments number) {kept : List Char} {doc : List (Symbol (DamagedString kept))}
    {v : Json} (h : Means DamagedString.before number maxDepth doc (.element v)) :
    S.read (.ofList (textOf DamagedString.original doc)) = some v := by
  let literal (a : DamagedString kept) : Literal := ⟨a.original, a.before, a.damages.decodes⟩
  refine hS.read_iff.mpr ⟨doc.map (Symbol.map literal), ?_, means_map literal h⟩
  rw [String.toList_ofList, textOf_map]
  rfl

/-- A field whose strings were damaged is read as what the damage stands for. -/
theorem resilient_parse_string_field_repairs {S : SerdeJson} {number : List Char → Option Number}
    (hS : S.ReadsDocuments number) {doc : List (Symbol (DamagedString ('u' :: escapes)))} {v : Json}
    (h : Means DamagedString.before number maxDepth doc (.element v)) :
    ReadsDamaged S number doc := by
  obtain ⟨p, hdoc, hnode⟩ := exists_means h DamagedString.after
  cases p with
  | element w =>
    refine ⟨w, hdoc, (resilientParseStringField_iff hS).mpr (hS.read_iff.mpr ?_)⟩
    have hlexed : Lexed DamagedString.damaged doc :=
      (piecewise_lexed fun a => a.damages.loose).of_means h
    refine ⟨doc.map (Symbol.map DamagedString.repaired), ?_, means_map DamagedString.repaired hdoc⟩
    rw [toList_bothRepairs, String.toList_ofList, bothRepairs_textOf hlexed, textOf_map]
    rfl
  | _ => simp at hnode

/-- A stray backslash and a raw newline next to each other. -/
def strayNewline : DamagedString ('u' :: escapes) where
  original := ['d']
  damaged := ['\\', '\n', 'd']
  before := ['d']
  after := ['\\', '\n', 'd']
  damages := .backslash ⟨'\n', rfl, by decide, by decide⟩ (.control (by decide)
    (.unit (.plain (by decide) (by decide) (by decide)) .nil))

theorem means_of_literal {α : Type} (content : α → List Char) (number : List Char → Option Number)
    (a : α) : Means content number maxDepth [.literal a] (.element (.str (.ofList (content a)))) := by
  simpa [chars] using Means.element blank_nil (.string a) blank_nil

theorem resilient_parse_string_field_repairs_stray :
    ReadsDamaged (jsonReader readNatural) readNatural [.literal strayNewline] :=
  resilient_parse_string_field_repairs (jsonReader_readsDocuments isNumber_of_readNatural)
    (means_of_literal DamagedString.before readNatural strayNewline)

/-- A backslash in front of a `u` with four digits behind it. -/
def strayUnicode : DamagedString escapes where
  original := ['u', '0', '0', '4', '1']
  damaged := ['\\', 'u', '0', '0', '4', '1']
  before := ['u', '0', '0', '4', '1']
  after := ['\\', 'u', '0', '0', '4', '1']
  damages :=
    have plain {c : Char} (h : c ≠ '"' ∧ c ≠ '\\' ∧ 0x20 ≤ c.toNat) {rest : List Char}
        (hrest : Damages escapes rest rest rest rest) :
        Damages escapes (c :: rest) (c :: rest) (c :: rest) (c :: rest) :=
      .unit (.plain h.1 h.2.1 h.2.2) hrest
    .backslash ⟨'u', rfl, by decide, by decide⟩
      (plain (by decide) (plain (by decide) (plain (by decide) (plain (by decide)
        (plain (by decide) .nil)))))

/-- The backslash and the digits are read as one escape. -/
theorem resilient_parse_string_field_unicode :
    (jsonReader readNatural).ReadsDocuments readNatural ∧
      Means DamagedString.before readNatural maxDepth [.literal strayUnicode]
        (.element (.str "u0041")) ∧
      resilientParseStringField (jsonReader readNatural) "\"\\u0041\"" = .ok (.str "A") ∧
      ¬ ReadsDamaged (jsonReader readNatural) readNatural [.literal strayUnicode] := by
  have hS := jsonReader_readsDocuments isNumber_of_readNatural
  have hread : resilientParseStringField (jsonReader readNatural) "\"\\u0041\"" = .ok (.str "A") := by
    rw [resilientParseStringField_iff hS, read_jsonReader]
    decide +kernel
  refine ⟨hS, means_of_literal DamagedString.before readNatural strayUnicode, hread, ?_⟩
  rintro ⟨v, hdoc, hparse⟩
  obtain rfl := means_literal hdoc
  have htext : String.ofList (textOf DamagedString.damaged [.literal strayUnicode]) =
      "\"\\u0041\"" := rfl
  rw [htext, hread] at hparse
  exact absurd (Except.ok.inj hparse) (by decide)

end ReactRuntime.Core
