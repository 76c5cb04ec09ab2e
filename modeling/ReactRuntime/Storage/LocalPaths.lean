import ReactRuntime.Core.Error
import ReactRuntime.Core.Text

/-!
# Keys as paths

The local adapter trims a key, drops its leading slashes, and pushes the segments of the rest onto
its base directory, which is an absolute path. A path is the list of the names below that directory.
-/
namespace ReactRuntime.Storage
open ReactRuntime.Core

/-- The text of a key that the adapter resolves. -/
def keyText (key : String) : String := trimStartMatches '/' (trim key)

def pushSegment (seg : String) : Except CoreError String :=
  if seg.isEmpty then .error (.storage (.other "invalid key (empty path segment)"))
  else if seg = "." ∨ seg = ".." ∨ containsText seg ".." then
    .error (.storage (.other "invalid key (path traversal)"))
  else if containsText seg "\\" then .error (.storage (.other "invalid key (backslash)"))
  else .ok seg

/-- `resolve_key`: the path of a key below the base directory. -/
def resolveKey (key : String) : Except CoreError (List String) :=
  if (keyText key).isEmpty then .error (.storage (.other "empty key"))
  else (splitChar '/' (keyText key)).mapM pushSegment

/-- `rel_key`: the text of a path below the base directory. -/
def relKey (path : List String) : Option String :=
  if (joinChar '/' path).isEmpty then none else some (joinChar '/' path)

/-- A name that keys may use. -/
structure SafeName (seg : String) : Prop where
  ne_empty : seg ≠ ""
  ne_dot : seg ≠ "."
  no_dots : ¬ ['.', '.'] <:+: seg.toList
  no_backslash : '\\' ∉ seg.toList

theorem pushSegment_eq_ok {seg name : String} :
    pushSegment seg = .ok name ↔ name = seg ∧ SafeName seg := by
  have hdots : containsText seg ".." = true ↔ ['.', '.'] <:+: seg.toList := containsText_iff
  have hback : containsText seg "\\" = true ↔ '\\' ∈ seg.toList :=
    containsText_iff.trans (List.singleton_infix_iff _ _)
  unfold pushSegment
  split_ifs with hempty hdot hbackslash
  · refine ⟨fun h => (nomatch h), fun h => absurd (String.isEmpty_iff.mp hempty) h.2.ne_empty⟩
  · refine ⟨fun h => (nomatch h), fun ⟨_, h⟩ => ?_⟩
    rcases hdot with hdot | hdot | hdot
    · exact absurd hdot h.ne_dot
    · exact absurd (hdot ▸ by decide) h.no_dots
    · exact absurd (hdots.mp hdot) h.no_dots
  · exact ⟨fun h => (nomatch h), fun h => absurd (hback.mp hbackslash) h.2.no_backslash⟩
  · rw [Except.ok.injEq]
    refine ⟨fun h => ⟨h.symm, ?_⟩, fun h => h.1.symm⟩
    simp only [not_or, Bool.not_eq_true] at hdot
    exact ⟨fun h => hempty (String.isEmpty_iff.mpr h), hdot.1,
      fun h => absurd (hdots.mpr h) (by simp [hdot.2.2]),
      fun h => hbackslash (hback.mpr h)⟩

theorem mapM_pushSegment_eq_ok {segs path : List String} :
    segs.mapM pushSegment = .ok path ↔ path = segs ∧ ∀ seg ∈ segs, SafeName seg := by
  induction segs generalizing path with
  | nil => simp [pure, Except.pure, eq_comm]
  | cons seg segs ih =>
    have hcons : (seg :: segs).mapM pushSegment = .ok path ↔
        ∃ name names, pushSegment seg = .ok name ∧ segs.mapM pushSegment = .ok names ∧
          path = name :: names := by
      rw [List.mapM_cons]
      cases pushSegment seg with
      | error e => exact ⟨fun h => (nomatch h), fun ⟨_, _, h, _⟩ => (nomatch h)⟩
      | ok name =>
        cases segs.mapM pushSegment with
        | error e => exact ⟨fun h => (nomatch h), fun ⟨_, _, _, h, _⟩ => (nomatch h)⟩
        | ok names =>
          refine ⟨fun h => ⟨name, names, rfl, rfl, (Except.ok.inj h).symm⟩, ?_⟩
          rintro ⟨_, _, hname, hnames, rfl⟩
          cases hname
          cases hnames
          rfl
    rw [hcons]
    constructor
    · rintro ⟨name, names, hname, hnames, rfl⟩
      obtain ⟨rfl, hsafe⟩ := pushSegment_eq_ok.mp hname
      obtain ⟨rfl, hrest⟩ := ih.mp hnames
      exact ⟨rfl, List.forall_mem_cons.mpr ⟨hsafe, hrest⟩⟩
    · rintro ⟨rfl, hsafe⟩
      obtain ⟨hseg, hrest⟩ := List.forall_mem_cons.mp hsafe
      exact ⟨seg, segs, pushSegment_eq_ok.mpr ⟨rfl, hseg⟩, ih.mpr ⟨rfl, hrest⟩, rfl⟩

/-- A key is accepted if all its segments are safe names, and its path are these segments. -/
theorem resolveKey_eq_ok {key : String} {path : List String} :
    resolveKey key = .ok path ↔
      path = splitChar '/' (keyText key) ∧ ∀ seg ∈ splitChar '/' (keyText key), SafeName seg := by
  unfold resolveKey
  split_ifs with hempty
  · refine ⟨fun h => (nomatch h), fun ⟨_, hsafe⟩ => ?_⟩
    have hsplit : splitChar '/' (keyText key) = [""] := by rw [String.isEmpty_iff.mp hempty]; rfl
    exact absurd rfl (hsafe "" (by rw [hsplit]; simp)).ne_empty
  · exact mapM_pushSegment_eq_ok

theorem joinChar_of_resolveKey {key : String} {path : List String}
    (h : resolveKey key = .ok path) : joinChar '/' path = keyText key := by
  rw [(resolveKey_eq_ok.mp h).1, joinChar_splitChar]

theorem keyText_ne_empty {key : String} {path : List String} (h : resolveKey key = .ok path) :
    keyText key ≠ "" := by
  intro hempty
  rw [resolveKey, hempty] at h
  exact nomatch h

theorem relKey_eq_some {path : List String} {key : String} :
    relKey path = some key ↔ joinChar '/' path = key ∧ key ≠ "" := by
  unfold relKey
  split_ifs with hempty
  · rw [String.isEmpty_iff.mp hempty]
    exact ⟨fun h => (nomatch h), fun ⟨h, hne⟩ => absurd h.symm hne⟩
  · rw [Option.some.injEq]
    exact ⟨fun h => ⟨h, fun hkey => hempty (String.isEmpty_iff.mpr (h.trans hkey))⟩, And.left⟩

theorem safe_of_resolveKey {key : String} {path : List String} (h : resolveKey key = .ok path) :
    ∀ seg ∈ path, SafeName seg := by
  have hok := resolveKey_eq_ok.mp h
  rw [hok.1]
  exact hok.2

theorem toList_keyText (key : String) : (keyText key).toList =
    ((key.toList.dropWhile isWhitespace).rdropWhile isWhitespace).dropWhile (· == '/') := by
  rw [keyText, toList_trimStartMatches, toList_trim]

/-- Trimming only removes characters. -/
theorem keyText_sublist (key : String) : (keyText key).toList.Sublist key.toList := by
  rw [toList_keyText]
  exact ((List.dropWhile_sublist _).trans (List.rdropWhile_prefix _ _).sublist).trans
    (List.dropWhile_sublist _)

theorem keyText_eq_of_length {key : String} (h : key.toList.length ≤ (keyText key).toList.length) :
    keyText key = key :=
  String.toList_inj.mp ((keyText_sublist key).eq_of_length_le h)

section Ends
variable {α : Type} {p : α → Bool} {xs ys : List α}

theorem dropWhile_append_of_self (hne : xs ≠ []) (h : xs.dropWhile p = xs) :
    (xs ++ ys).dropWhile p = xs ++ ys := by
  cases xs with
  | nil => exact absurd rfl hne
  | cons x xs =>
    have hx : ¬ p x := List.dropWhile_eq_self_iff.mp h (by simp)
    rw [List.cons_append, List.dropWhile_cons, if_neg hx]

theorem rdropWhile_append_of_self (h : xs.rdropWhile p = xs) :
    (xs ++ ys).rdropWhile p = xs ++ ys.rdropWhile p := by
  induction ys using List.reverseRecOn with
  | nil => simpa using h
  | append_singleton ys y ih =>
    rw [← List.append_assoc, List.rdropWhile_concat, List.rdropWhile_concat]
    split_ifs
    · exact ih
    · rw [List.append_assoc]

theorem rdropWhile_append_right (hne : ys ≠ []) (h : ys.rdropWhile p = ys) :
    (xs ++ ys).rdropWhile p = xs ++ ys := by
  rw [List.rdropWhile_eq_self_iff] at h ⊢
  intro _
  rw [List.getLast_append_of_ne_nil _ hne]
  exact h hne

theorem rdropWhile_of_isSuffix (h : ys.rdropWhile p = ys) (hsuffix : xs <:+ ys) :
    xs.rdropWhile p = xs := by
  rw [List.rdropWhile_eq_self_iff] at h ⊢
  intro hne
  have hys : ys ≠ [] := fun hnil => hne (List.suffix_nil.mp (hnil ▸ hsuffix))
  rw [hsuffix.getLast hne]
  exact h hys

end Ends

/-- An untrimmed text has nothing to trim at any end. -/
theorem toList_of_keyText {s : String} (h : keyText s = s) :
    s.toList.dropWhile isWhitespace = s.toList ∧ s.toList.rdropWhile isWhitespace = s.toList ∧
      s.toList.dropWhile (· == '/') = s.toList := by
  have hlist : ((s.toList.dropWhile isWhitespace).rdropWhile isWhitespace).dropWhile (· == '/') =
      s.toList := by rw [← toList_keyText, h]
  have hslash := List.dropWhile_sublist (· == '/')
    (l := (s.toList.dropWhile isWhitespace).rdropWhile isWhitespace)
  have hlast := (List.rdropWhile_prefix isWhitespace (s.toList.dropWhile isWhitespace)).sublist
  have hfirst := List.dropWhile_sublist isWhitespace (l := s.toList)
  rw [hlist] at hslash
  have hfirst' : s.toList.dropWhile isWhitespace = s.toList :=
    hfirst.eq_of_length_le (hslash.trans hlast).length_le
  rw [hfirst'] at hslash hlast hlist
  have hlast' : s.toList.rdropWhile isWhitespace = s.toList :=
    hlast.eq_of_length_le hslash.length_le
  rw [hlast'] at hlist
  exact ⟨hfirst', hlast', hlist⟩

/-- What starts a key and is not trimmed itself starts the text of the key. -/
theorem isPrefix_keyText {start key : String} (hstart : keyText start = start)
    (h : start.toList <+: key.toList) : start.toList <+: (keyText key).toList := by
  obtain ⟨hfirst, hlast, hslash⟩ := toList_of_keyText hstart
  obtain ⟨rest, hrest⟩ := h
  by_cases hne : start.toList = []
  · rw [hne]
    exact List.nil_prefix
  · rw [toList_keyText, ← hrest, dropWhile_append_of_self hne hfirst,
      rdropWhile_append_of_self hlast, dropWhile_append_of_self hne hslash]
    exact List.prefix_append ..

/-- The text of a key that starts like an untrimmed text is not trimmed again. -/
theorem keyText_keyText {start key : String} (hstart : keyText start = start)
    (hne : start.toList ≠ []) (h : start.toList <+: (keyText key).toList) :
    keyText (keyText key) = keyText key := by
  obtain ⟨hfirst, -, hslash⟩ := toList_of_keyText hstart
  obtain ⟨rest, hrest⟩ := h
  have hend : (keyText key).toList.rdropWhile isWhitespace = (keyText key).toList := by
    rw [toList_keyText]
    exact rdropWhile_of_isSuffix (List.rdropWhile_idempotent ..) (List.dropWhile_suffix _)
  rw [← String.toList_inj, toList_keyText (keyText key), ← hrest,
    dropWhile_append_of_self hne hfirst, hrest, hend, ← hrest, dropWhile_append_of_self hne hslash]

end ReactRuntime.Storage
