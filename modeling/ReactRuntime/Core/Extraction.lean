import ReactRuntime.Core.ResilientParse
import ReactRuntime.Library.Utf8

/-!
# Values in a text by their offsets

The search for values walks the text by byte offsets and cuts it at them. It finds what the search
over characters finds, and never cuts a character.
-/
namespace ReactRuntime.Core
open Library JsonText Utf8

/-- The offset of the first bracket that opens a value. -/
def findStart : (off : Nat) → List Char → Option Nat
  | _, [] => none
  | off, ch :: rest => if opens ch then some off else findStart (off + ch.utf8Size) rest

/-- The offset of the bracket that ends the value. -/
def Scanner.findEndAt (st : Scanner) : (abs : Nat) → List Char → Option Nat
  | _, [] => none
  | abs, ch :: rest =>
    match st.step ch with
    | none => some abs
    | some st' => st'.findEndAt (abs + ch.utf8Size) rest

/-- The loop of `extract_all_json_values` from an offset on, with the number of values that may
still be put out. It is `none` where a slice panics. -/
def extractLoop (s : List Char) : (max i : Nat) → Option (List (List Char))
  | 0, _ => some []
  | max + 1, i =>
    if i < byteLength s then do
      match findStart i (← sliceFrom s i) with
      | none => some []
      | some st =>
        match Scanner.start.findEndAt st (← sliceFrom s st) with
        | none => some []
        | some en => do
          let value ← slice s st (en + 1)
          return value :: (← extractLoop s max (en + 1))
    else some []

def extractAllByOffset (s : String) (max : Nat) : Option (List String) :=
  (extractLoop s.toList max 0).map fun values => values.map .ofList

/-- Values that stand in a text one behind the other. -/
inductive InOrder : (values : List (List Char)) → (text : List Char) → Prop where
  | nil {text : List Char} : InOrder [] text
  | cons {value rest gap : List Char} {values : List (List Char)} (h : InOrder values rest) :
      InOrder (value :: values) (gap ++ (value ++ rest))

/-- An object or an array with a text in front of it in which no bracket opens. -/
structure Piece where
  prose : List Char
  value : List Char
  plain : ∀ c ∈ prose, opens c = false
  isValue : IsValue value
  bracket : ∃ c ∈ value.head?, opens c = true

def embed (pieces : List Piece) (last : List Char) : List Char :=
  pieces.flatMap (fun piece => piece.prose ++ piece.value) ++ last

theorem findStart_eq (off : Nat) (text : List Char) :
    findStart off text = if text.dropWhile (fun ch => !opens ch) = [] then none
      else some (off + byteLength (text.takeWhile fun ch => !opens ch)) := by
  induction text generalizing off with
  | nil => rfl
  | cons c text ih =>
    rw [findStart]
    by_cases hc : opens c = true
    · simp [hc]
    · simp only [hc, Bool.false_eq_true, if_false, ih, Bool.not_false, List.dropWhile_cons_of_pos,
        List.takeWhile_cons_of_pos, byteLength_cons, Nat.add_assoc]

/-- A value ends with a bracket of one byte. -/
theorem Scanner.step_eq_none {st : Scanner} {ch : Char} (h : st.step ch = none) :
    ch.utf8Size = 1 := by
  unfold step at h
  split_ifs at h with _ _ _ _ _ _ _ hbrace hbracket
  · rw [hbrace]
    decide
  · rw [hbracket]
    decide

/-- Where a search by offsets ends. -/
inductive EndsAt (abs : Nat) (text : List Char) : Option (List Char × List Char) → Option Nat → Prop where
  | none : EndsAt abs text none none
  | some {init rest : List Char} {ch : Char} (htext : text = init ++ ch :: rest)
      (hsize : ch.utf8Size = 1) :
      EndsAt abs text (some (init ++ [ch], rest)) (some (abs + byteLength init))

theorem Scanner.endsAt (st : Scanner) (abs : Nat) (text : List Char) :
    EndsAt abs text (st.findEnd text) (st.findEndAt abs text) := by
  induction text generalizing st abs with
  | nil => exact .none
  | cons ch text ih =>
    rw [findEnd, findEndAt]
    cases hstep : st.step ch with
    | none => exact EndsAt.some (List.nil_append _).symm (step_eq_none hstep)
    | some st' =>
      have hrest := ih st' (abs + ch.utf8Size)
      simp only
      generalize st'.findEnd text = found at hrest
      generalize st'.findEndAt (abs + ch.utf8Size) text = offset at hrest
      cases hrest with
      | none => exact .none
      | @some init rest last htext hsize =>
        have hends : EndsAt abs (ch :: text) (some (ch :: init ++ [last], rest))
            (some (abs + byteLength (ch :: init))) := .some (congrArg (ch :: ·) htext) hsize
        rw [byteLength_cons, ← Nat.add_assoc] at hends
        exact hends

/-- From an offset on, the values of the text behind it are found. -/
theorem extractLoop_append (front back : List Char) (max : Nat) :
    extractLoop (front ++ back) max (byteLength front) = some (extractFrom back max) := by
  induction max generalizing front back with
  | zero => rfl
  | succ max ih =>
    rw [extractLoop, extractFrom]
    have hback := List.takeWhile_append_dropWhile (p := fun ch => !opens ch) (l := back)
    have hstart := findStart_eq (byteLength front) back
    generalize back.takeWhile (fun ch => !opens ch) = skipped at hback hstart
    generalize back.dropWhile (fun ch => !opens ch) = tail at hback hstart
    subst hback
    rw [← byteLength_append] at hstart
    by_cases htail : tail = []
    · rw [if_pos htail] at hstart
      subst htail
      rw [sliceFrom_append, Option.bind_eq_bind, Option.bind_some, hstart]
      exact ite_self _
    · have hinside : byteLength front < byteLength (front ++ (skipped ++ tail)) := by
        have hpos := Nat.pos_of_ne_zero (mt byteLength_eq_zero.mp htail)
        simp only [byteLength_append]
        omega
      rw [if_neg htail] at hstart
      rw [if_pos hinside, sliceFrom_append, Option.bind_eq_bind, Option.bind_some, hstart]
      have hends := Scanner.start.endsAt (byteLength (front ++ skipped)) tail
      rw [← List.append_assoc front]
      dsimp only
      rw [sliceFrom_append, Option.bind_some]
      generalize Scanner.start.findEnd tail = found at hends
      generalize Scanner.start.findEndAt (byteLength (front ++ skipped)) tail = offset at hends
      cases hends with
      | none => rfl
      | @some init rest ch htext hsize =>
        have hstop : byteLength (front ++ skipped) + byteLength init + 1 =
            byteLength (front ++ skipped) + byteLength (init ++ [ch]) := by
          simp [hsize, Nat.add_assoc]
        have hvalue : tail = init ++ [ch] ++ rest := by simp [htext]
        have hrest := ih (front ++ skipped ++ (init ++ [ch])) rest
        rw [byteLength_append _ (init ++ [ch])] at hrest
        dsimp only
        rw [hstop, hvalue, slice_append, ← List.append_assoc, Option.bind_some, hrest]
        rfl

/-- The search by offsets never cuts a character, and finds what the search over characters finds. -/
theorem extractAllByOffset_eq (s : String) (max : Nat) :
    extractAllByOffset s max = some (extractAllJsonValues s max) := by
  rw [extractAllByOffset, extractAllJsonValues]
  exact congrArg (Option.map _) (extractLoop_append [] s.toList max)

theorem Scanner.findEnd_split {st : Scanner} {text value rest : List Char}
    (h : st.findEnd text = some (value, rest)) : text = value ++ rest := by
  have hends := st.endsAt 0 text
  rw [h] at hends
  generalize st.findEndAt 0 text = offset at hends
  cases hends with
  | some htext _ => simp [htext]

/-- The values stand in the text one behind the other. -/
theorem inOrder_extractFrom (s : List Char) (max : Nat) : InOrder (extractFrom s max) s := by
  induction max generalizing s with
  | zero => exact .nil
  | succ max ih =>
    rw [extractFrom]
    cases hend : Scanner.start.findEnd (s.dropWhile fun ch => !opens ch) with
    | none => exact .nil
    | some found =>
      have horder : InOrder (found.1 :: extractFrom found.2 max)
          (s.takeWhile (fun ch => !opens ch) ++ (found.1 ++ found.2)) := .cons (ih found.2)
      rwa [← Scanner.findEnd_split hend, List.takeWhile_append_dropWhile] at horder

/-- The values of an embedding are found from the first one on. -/
theorem extractFrom_embed (pieces : List Piece) {last : List Char}
    (hlast : ∀ c ∈ last, opens c = false) (max : Nat) :
    extractFrom (embed pieces last) max = (pieces.map Piece.value).take max := by
  induction max generalizing pieces with
  | zero => rfl
  | succ max ih =>
    cases pieces with
    | nil =>
      have hdrop : last.dropWhile (fun ch => !opens ch) = [] :=
        List.dropWhile_eq_nil_iff.mpr (by simpa using hlast)
      rw [embed, List.flatMap_nil, List.nil_append, extractFrom, hdrop]
      rfl
    | cons piece pieces =>
      have hembed : embed (piece :: pieces) last =
          piece.prose ++ piece.value ++ embed pieces last := by
        simp [embed]
      rw [hembed, extractFrom_value piece.plain piece.isValue piece.bracket, ih, List.map_cons,
        List.take_succ_cons]

/-- The values between texts in which no bracket opens are found, and in any text what is found
stands in it one behind the other. -/
theorem extract_all_json_values_embedded (max : Nat) :
    (∀ (pieces : List Piece) (last : List Char), (∀ c ∈ last, opens c = false) →
      extractAllByOffset (.ofList (embed pieces last)) max =
        some (((pieces.map Piece.value).take max).map .ofList)) ∧
      ∀ s : String, ∃ values, extractAllByOffset s max = some values ∧
        InOrder (values.map String.toList) s.toList := by
  constructor
  · intro pieces last hlast
    rw [extractAllByOffset_eq, extractAllJsonValues, String.toList_ofList,
      extractFrom_embed pieces hlast]
  · intro s
    refine ⟨extractAllJsonValues s max, extractAllByOffset_eq s max, ?_⟩
    rw [extractAllJsonValues, List.map_map]
    simpa [Function.comp_def] using inOrder_extractFrom s.toList max

def samplePiece : Piece where
  prose := "é: ".toList
  value := "[\"]\"]".toList
  plain := by simp [opens]
  isValue :=
    have hbody : StringBody [']'] := .plain (by decide) (by decide) (by decide) .nil
    .array (.lastElement (IsValue.isText (.string ⟨_, hbody, rfl⟩)))
  bracket := ⟨'[', rfl, rfl⟩

theorem extract_all_json_values_embedded_sample :
    extractAllByOffset (.ofList (embed [samplePiece, samplePiece] "!".toList)) 1 =
      some ["[\"]\"]"] :=
  (extract_all_json_values_embedded 1).1 [samplePiece, samplePiece] "!".toList (by simp [opens])

end ReactRuntime.Core
